/-
# What the panel of the display is expected to do

The panel's side of the bus, as far as the driver relies on it. A line tells commands from
their data. Some commands set the format of the pixels, the orientation and whether a
picture is shown at all. In landscape, with pixels of 16 bits, two commands set the window,
and a third one writes pixels into it, row by row. In any other format or orientation what
becomes of the window and of the memory is left open, and so is what a reset makes of all
this. The times that a panel needs between commands are left out.
-/

import Gibberish.Foundation.Raster
import Gibberish.Storage.SharedBus

set_option autoImplicit false

namespace Gibberish.Firmware

open Gibberish.Foundation Gibberish.Storage

/-- The commands of the window and its pixels. -/
def drawingCommands : List UInt8 := [0x2A, 0x2B, 0x2C]

/-- The commands that are relied on to set the modes of the panel or to keep them. -/
def modalCommands : List UInt8 :=
  drawingCommands ++ [0x11, 0x13, 0x21, 0x29, 0x36, 0x3A, 0xB1, 0xB2, 0xB3, 0xB4, 0xC0, 0xC1,
    0xC2, 0xC3, 0xC4, 0xC5]

structure PanelModes where
  /-- The format of a pixel, as COLMOD sets it. -/
  format : UInt8
  /-- The orientation, as MADCTL sets it. -/
  orientation : UInt8
  awake : Bool
  displayOn : Bool

namespace PanelModes

/-- Pixels have 16 bits and go along the long side. -/
def Landscape (m : PanelModes) : Prop := m.format = 0x05 ∧ m.orientation = 0x60

instance (m : PanelModes) : Decidable m.Landscape :=
  inferInstanceAs (Decidable (m.format = 0x05 ∧ m.orientation = 0x60))

/-- The panel takes the driver's pixels and shows them. -/
def showing : PanelModes := ⟨0x05, 0x60, true, true⟩

theorem Landscape.of_showing {m : PanelModes} (h : m = .showing) : m.Landscape := by
  rw [h]
  exact ⟨rfl, rfl⟩

/-- SLPOUT and DISPON take no data. -/
def commanded (m : PanelModes) (command : UInt8) : PanelModes :=
  if command = 0x11 then { m with awake := true }
  else if command = 0x29 then { m with displayOn := true }
  else m

/-- COLMOD and MADCTL take their value from the first byte behind them. -/
def told (m : PanelModes) (command : UInt8) (received : List UInt8) (b : UInt8) : PanelModes :=
  match received with
  | [] =>
    if command = 0x3A then { m with format := b }
    else if command = 0x36 then { m with orientation := b }
    else m
  | _ :: _ => m

/-- A command with its data. -/
def setUp (m : PanelModes) (command : UInt8 × Option (List UInt8)) : PanelModes :=
  match command with
  | (cmd, some (b :: _)) => (m.commanded cmd).told cmd [] b
  | (cmd, _) => m.commanded cmd

end PanelModes

structure PanelState where
  command : UInt8
  /-- The data since the command, or since the last pixel. -/
  received : List UInt8
  modes : PanelModes
  window : Window
  cursor : ℕ × ℕ
  memory : ℕ × ℕ → UInt16

namespace PanelState

/-- A command came in. -/
def commanded (s : PanelState) (command : UInt8) : PanelState :=
  { s with command := command, received := [] }

/-- Pixels go to the start of the window. -/
def rewound (s : PanelState) : PanelState := { s with cursor := s.window.start }

def receiving (s : PanelState) (received : List UInt8) : PanelState := { s with received := received }

/-- The columns that four bytes stand for. -/
def withColumns (s : PanelState) (bytes : List UInt8) : PanelState :=
  { s with
    received := []
    window := { s.window with left := beNat (bytes.take 2), right := beNat (bytes.drop 2) } }

/-- The rows that four bytes stand for. -/
def withRows (s : PanelState) (bytes : List UInt8) : PanelState :=
  { s with
    received := []
    window := { s.window with top := beNat (bytes.take 2), bottom := beNat (bytes.drop 2) } }

/-- Pixels were written from the cursor on. -/
def filled (s : PanelState) (pixels : List UInt16) : PanelState :=
  { s with
    cursor := (s.window.fill pixels s.cursor s.memory).1
    memory := (s.window.fill pixels s.cursor s.memory).2 }

@[simp] theorem filled_modes (s : PanelState) (pixels : List UInt16) :
    (s.filled pixels).modes = s.modes := rfl

theorem filled_cons (s : PanelState) (v : UInt16) (vs : List UInt16) :
    s.filled (v :: vs) = (s.filled [v]).filled vs := rfl

/-- A command of the window and its pixels. -/
def drawingCommand (s : PanelState) (b : UInt8) : PanelState :=
  if b = 0x2C then (s.commanded b).rewound else s.commanded b

/-- A byte of its data. -/
def drawingData (s : PanelState) (b : UInt8) : PanelState :=
  let received := s.received ++ [b]
  if s.command = 0x2A then
    if s.received.length < 3 then s.receiving received else s.withColumns received
  else if s.command = 0x2B then
    if s.received.length < 3 then s.receiving received else s.withRows received
  else
    if s.received.length < 1 then s.receiving received
    else (s.receiving []).filled [u16FromBeBytes received]

/-- What a panel that is selected may do with one byte. -/
def Allows (s : PanelState) (dc : Level) (b : UInt8) (s' : PanelState) : Prop :=
  match dc with
  | .low =>
    if s.modes.Landscape ∧ b ∈ drawingCommands then s' = s.drawingCommand b
    -- What another command does to the picture is left open.
    else s'.command = b ∧ s'.received = [] ∧ (b ∈ modalCommands → s'.modes = s.modes.commanded b)
  | .high =>
    if s.modes.Landscape ∧ s.command ∈ drawingCommands then s' = s.drawingData b
    -- So is what its data do to it.
    else s'.command = s.command ∧ s'.received = s.received ++ [b] ∧
      (s.command ∈ modalCommands → s'.modes = s.modes.told s.command s.received b)

end PanelState

/-- A panel that keeps to the description, seen through its state. -/
structure PanelConforms {π : Type} [LcdPanel π] (view : π → PanelState) : Prop where
  allows : ∀ (panel : π) (dc : Level) (b : UInt8),
    (view panel).Allows dc b (view (LcdPanel.clock panel .low dc b))

/-- Bytes to a panel. -/
def hear {π : Type} [LcdPanel π] (cs dc : Level) (bytes : List UInt8) (panel : π) : π :=
  bytes.foldl (fun panel b => LcdPanel.clock panel cs dc b) panel

section Hear

variable {π : Type} [LcdPanel π]

@[simp] theorem hear_nil (cs dc : Level) (panel : π) : hear cs dc [] panel = panel := rfl

@[simp] theorem hear_cons (cs dc : Level) (b : UInt8) (bytes : List UInt8) (panel : π) :
    hear cs dc (b :: bytes) panel = hear cs dc bytes (LcdPanel.clock panel cs dc b) := rfl

theorem hear_append (cs dc : Level) (bytes bytes' : List UInt8) (panel : π) :
    hear cs dc (bytes ++ bytes') panel = hear cs dc bytes' (hear cs dc bytes panel) :=
  List.foldl_append

end Hear

/-- The two bytes of a pixel, as they go out. -/
def pixelBytes (pixel : UInt16) : List UInt8 := [(pixel >>> 8).toUInt8, (pixel &&& 0xFF).toUInt8]

theorem pixelBytes_eq (pixel : UInt16) : pixelBytes pixel = u16ToBeBytes pixel := by
  -- A shift is a quotient, and a mask is a remainder.
  have hhigh : (pixel >>> 8).toUInt8 = UInt8.ofNat (pixel.toNat / 256) := by
    apply UInt8.toNat_inj.mp
    rw [UInt16.toNat_toUInt8, UInt16.toNat_shiftRight, UInt8.toNat_ofNat']
    simp [Nat.shiftRight_eq_div_pow]
  have hlow : (pixel &&& 0xFF).toUInt8 = UInt8.ofNat pixel.toNat := by
    apply UInt8.toNat_inj.mp
    rw [UInt16.toNat_toUInt8, UInt16.toNat_and, UInt8.toNat_ofNat']
    have hmask : pixel.toNat &&& 255 = pixel.toNat % 256 := Nat.and_two_pow_sub_one_eq_mod _ 8
    simp [hmask]
  rw [pixelBytes, hhigh, hlow, u16ToBeBytes]
  simp [beBytes]

section Conforms

variable {π : Type} [LcdPanel π] {view : π → PanelState} (conforms : PanelConforms view)
variable (panel : π)
include conforms

/-- Whatever the modes are, a command begins with no data. -/
theorem view_command (cmd : UInt8) :
    (view (hear .low .low [cmd] panel)).command = cmd ∧
      (view (hear .low .low [cmd] panel)).received = [] ∧
      (cmd ∈ modalCommands →
        (view (hear .low .low [cmd] panel)).modes = (view panel).modes.commanded cmd) := by
  have hallows := conforms.allows panel .low cmd
  rw [PanelState.Allows] at hallows
  split at hallows
  · next hdraws =>
    obtain ⟨-, hmem⟩ := hdraws
    have hdrawn : view (hear .low .low [cmd] panel) = (view panel).drawingCommand cmd := hallows
    rw [hdrawn]
    simp only [drawingCommands, List.mem_cons, List.not_mem_nil, or_false] at hmem
    obtain rfl | rfl | rfl := hmem
    all_goals exact ⟨rfl, rfl, fun _ => rfl⟩
  · exact hallows

/-- The data of a command that does not draw: only the first byte may set a mode. -/
theorem view_modes_data {cmd : UInt8} (modal : cmd ∈ modalCommands)
    (undrawn : cmd ∉ drawingCommands) (command : (view panel).command = cmd) (bytes : List UInt8)
    (received : (view panel).received ≠ []) :
    (view (hear .low .high bytes panel)).modes = (view panel).modes := by
  induction bytes generalizing panel with
  | nil => rfl
  | cons b rest ih =>
    have hallows := conforms.allows panel .high b
    rw [PanelState.Allows, command, if_neg fun h => undrawn h.2] at hallows
    obtain ⟨hcommand, hreceived, hmodes⟩ := hallows
    have hkept : (view panel).modes.told cmd (view panel).received b = (view panel).modes := by
      cases hsome : (view panel).received with
      | nil => exact absurd hsome received
      | cons => rfl
    rw [hear_cons, ih _ hcommand (by rw [hreceived]; exact List.concat_ne_nil b _), hmodes modal,
      hkept]

/-- **A mode is set.** A command that does not draw, with its data. -/
theorem view_setUp {cmd : UInt8} (modal : cmd ∈ modalCommands) (undrawn : cmd ∉ drawingCommands)
    (data : List UInt8) :
    (view (hear .low .high data (hear .low .low [cmd] panel))).modes =
      (view panel).modes.setUp (cmd, some data) := by
  obtain ⟨hcommand, hreceived, hmodes⟩ := view_command conforms panel cmd
  generalize hear .low .low [cmd] panel = panel₁ at hcommand hreceived hmodes ⊢
  cases data with
  | nil => exact hmodes modal
  | cons b rest =>
    have hallows := conforms.allows panel₁ .high b
    rw [PanelState.Allows, hcommand, if_neg fun h => undrawn h.2, hreceived] at hallows
    obtain ⟨hcommand', hreceived', hmodes'⟩ := hallows
    rw [hear_cons, view_modes_data conforms _ modal undrawn hcommand' rest
      (by rw [hreceived']; exact List.cons_ne_nil _ _), hmodes' modal, hmodes modal]
    rfl

variable (landscape : (view panel).modes.Landscape)
include landscape

theorem view_drawing_command {cmd : UInt8} (draws : cmd ∈ drawingCommands) :
    view (hear .low .low [cmd] panel) = (view panel).drawingCommand cmd := by
  have hallows := conforms.allows panel .low cmd
  rw [PanelState.Allows, if_pos ⟨landscape, draws⟩] at hallows
  exact hallows

theorem view_pixels_command :
    view (hear .low .low [0x2C] panel) = ((view panel).commanded 0x2C).rewound :=
  view_drawing_command conforms panel landscape (by decide)

theorem view_window_command {cmd : UInt8} (h : cmd = 0x2A ∨ cmd = 0x2B) :
    view (hear .low .low [cmd] panel) = (view panel).commanded cmd := by
  rcases h with rfl | rfl
  · exact view_drawing_command conforms panel landscape (by decide)
  · exact view_drawing_command conforms panel landscape (by decide)

/-- Data that stand for something once so many bytes have come in. -/
theorem view_collected {cmd : UInt8} (draws : cmd ∈ drawingCommands) (n : ℕ)
    (whole : PanelState → List UInt8 → PanelState)
    (step : ∀ s b, s.command = cmd → s.drawingData b =
      if s.received.length < n then s.receiving (s.received ++ [b])
        else whole s (s.received ++ [b]))
    (afresh : ∀ s received bytes, whole (s.receiving received) bytes = whole s bytes)
    (command : (view panel).command = cmd) (bytes : List UInt8) (some : bytes ≠ [])
    (enough : (view panel).received.length + bytes.length = n + 1) :
    view (hear .low .high bytes panel) = whole (view panel) ((view panel).received ++ bytes) := by
  induction bytes generalizing panel with
  | nil => exact absurd rfl some
  | cons b rest ih =>
    have hview := conforms.allows panel .high b
    rw [PanelState.Allows, if_pos ⟨landscape, by rw [command]; exact draws⟩,
      step _ b command] at hview
    rw [List.length_cons] at enough
    cases rest with
    -- The last byte completes the data, any other one is kept.
    | nil =>
      rw [if_neg (by simp only [List.length_nil] at enough; omega)] at hview
      exact hview
    | cons b' rest =>
      rw [List.length_cons] at enough
      rw [if_pos (by omega)] at hview
      have hnext := ih (LcdPanel.clock panel .low .high b) (by rw [hview]; exact landscape)
        (by rw [hview]; exact command) (List.cons_ne_nil _ _) (by
          rw [hview, PanelState.receiving, List.length_append, List.length_cons, List.length_nil,
            List.length_cons]
          omega)
      rw [hear_cons, hnext, hview, afresh]
      simp [PanelState.receiving]

/-- The four bytes of the columns. -/
theorem view_columns (command : (view panel).command = 0x2A) (received : (view panel).received = [])
    {bytes : List UInt8} (four : bytes.length = 4) :
    view (hear .low .high bytes panel) = (view panel).withColumns bytes := by
  have hcollected := view_collected conforms panel landscape (by decide) 3 PanelState.withColumns
    (fun s b hcommand => by rw [PanelState.drawingData, if_pos hcommand])
    (fun _ _ _ => rfl) command bytes
    (List.ne_nil_of_length_pos (by omega)) (by rw [received, four]; rfl)
  rwa [received, List.nil_append] at hcollected

/-- The four bytes of the rows. -/
theorem view_rows (command : (view panel).command = 0x2B) (received : (view panel).received = [])
    {bytes : List UInt8} (four : bytes.length = 4) :
    view (hear .low .high bytes panel) = (view panel).withRows bytes := by
  have hcollected := view_collected conforms panel landscape (by decide) 3 PanelState.withRows
    (fun s b hcommand => by
      rw [PanelState.drawingData, hcommand, if_neg (by decide), if_pos rfl])
    (fun _ _ _ => rfl) command bytes
    (List.ne_nil_of_length_pos (by omega)) (by rw [received, four]; rfl)
  rwa [received, List.nil_append] at hcollected

/-- The two bytes of a pixel. -/
theorem view_pixel (command : (view panel).command = 0x2C) (received : (view panel).received = [])
    (pixel : UInt16) :
    view (hear .low .high (pixelBytes pixel) panel) = (view panel).filled [pixel] := by
  have hcollected := view_collected conforms panel landscape (by decide) 1
    (fun s bytes => (s.receiving []).filled [u16FromBeBytes bytes])
    (fun s b hcommand => by
      rw [PanelState.drawingData, hcommand, if_neg (by decide), if_neg (by decide)])
    (fun _ _ _ => rfl) command (pixelBytes pixel)
    (List.cons_ne_nil _ _) (by rw [received]; rfl)
  rw [hcollected, received, List.nil_append, pixelBytes_eq, u16FromBeBytes_toBeBytes,
    PanelState.receiving, ← received]

/-- **Pixels** go into the window, one behind the other. -/
theorem view_pixels (command : (view panel).command = 0x2C) (received : (view panel).received = [])
    (pixels : List UInt16) :
    view (hear .low .high (pixels.flatMap pixelBytes) panel) = (view panel).filled pixels := by
  induction pixels generalizing panel with
  | nil => rfl
  | cons pixel pixels ih =>
    have hpixel := view_pixel conforms panel landscape command received pixel
    rw [List.flatMap_cons, hear_append, ih _ (by rw [hpixel]; exact landscape)
      (by rw [hpixel]; exact command) (by rw [hpixel]; exact received), hpixel,
      ← PanelState.filled_cons]

/-- **The window.** Both commands with their data. -/
theorem view_window {columns rows : List UInt8} (four : columns.length = 4)
    (four' : rows.length = 4) :
    view (hear .low .high rows (hear .low .low [0x2B] (hear .low .high columns
      (hear .low .low [0x2A] panel)))) =
    (((((view panel).commanded 0x2A).withColumns columns).commanded 0x2B).withRows rows) := by
  have hcmd := view_window_command conforms panel landscape (Or.inl rfl : (0x2A : UInt8) = 0x2A ∨ _)
  generalize hear .low .low [0x2A] panel = panel₁ at hcmd ⊢
  have hcolumns := view_columns conforms panel₁ (by rw [hcmd]; exact landscape) (by rw [hcmd]; rfl)
    (by rw [hcmd]; rfl) four
  generalize hear .low .high columns panel₁ = panel₂ at hcolumns ⊢
  have hland : (view panel₂).modes.Landscape := by
    rw [hcolumns, hcmd]
    exact landscape
  have hcmd' := view_window_command conforms panel₂ hland (Or.inr rfl : (0x2B : UInt8) = 0x2A ∨ _)
  generalize hear .low .low [0x2B] panel₂ = panel₃ at hcmd' ⊢
  have hrows := view_rows conforms panel₃ (by rw [hcmd']; exact hland) (by rw [hcmd']; rfl)
    (by rw [hcmd']; rfl) four'
  rw [hrows, hcmd', hcolumns, hcmd]

end Conforms

/-! ### A panel in full -/

/-- A panel that draws in landscape only, and does nothing on other commands. -/
structure PlainPanel where
  state : PanelState

namespace PlainPanel

open PanelState

/-- The modes after a reset: wide pixels, upright, asleep and dark. -/
def resetModes : PanelModes := ⟨0x06, 0x00, false, false⟩

def clock (s : PanelState) : Level → UInt8 → PanelState
  | .low, b =>
    if s.modes.Landscape ∧ b ∈ drawingCommands then s.drawingCommand b
    else { s.commanded b with modes := if b = 0x01 then resetModes else s.modes.commanded b }
  | .high, b =>
    if s.modes.Landscape ∧ s.command ∈ drawingCommands then s.drawingData b
    else { s.receiving (s.received ++ [b]) with modes := s.modes.told s.command s.received b }

instance : LcdPanel PlainPanel where
  clock panel cs dc b :=
    match cs with
    | .low => ⟨clock panel.state dc b⟩
    | .high => panel

instance : LawfulPanel PlainPanel := ⟨fun _ _ _ => rfl⟩

/-- **The panel keeps to the description.** -/
theorem conforms : PanelConforms PlainPanel.state := by
  refine ⟨fun panel dc b => ?_⟩
  show panel.state.Allows dc b (clock panel.state dc b)
  generalize panel.state = s
  cases dc with
  | low =>
    rw [Allows, clock]
    split
    · rfl
    · refine ⟨rfl, rfl, fun hmodal => if_neg ?_⟩
      rintro rfl
      exact absurd hmodal (by decide)
  | high =>
    rw [Allows, clock]
    split
    · rfl
    · exact ⟨rfl, rfl, fun _ => rfl⟩

end PlainPanel

end Gibberish.Firmware
