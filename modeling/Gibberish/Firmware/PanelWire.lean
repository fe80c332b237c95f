/-
# The driver of the panel, byte by byte

What the drawing functions put on the bus: commands with the line for data low, data with
it high, and the panel selected for each. The commands of the start set the modes of the
panel. From then on a window is set, and then its pixels follow. On a panel that keeps to
the description this leaves on the screen what the functions on the screen do, and a card
on the same bus hears clocks only.
-/

import Gibberish.Firmware.DirtyRegions
import Gibberish.Firmware.Panel
import Gibberish.Storage.SdBlocks

set_option autoImplicit false

namespace Gibberish.Firmware

open Gibberish.Foundation Gibberish.Storage Gibberish.Storage.SdCard

/-- The commands of the start with their data, up to the first drawing. -/
def initCommands : List (UInt8 × Option (List UInt8)) :=
  [(0x01, none), (0x11, none), (0xB1, some [0x01, 0x2C, 0x2D]), (0xB2, some [0x01, 0x2C, 0x2D]),
    (0xB3, some [0x01, 0x2C, 0x2D, 0x01, 0x2C, 0x2D]), (0xB4, some [0x07]),
    (0xC0, some [0xA2, 0x02, 0x84]), (0xC1, some [0xC5]), (0xC2, some [0x0A, 0x00]),
    (0xC3, some [0x8A, 0x2A]), (0xC4, some [0x8A, 0xEE]), (0xC5, some [0x0E]), (0x21, none),
    (0x3A, some [0x05]), (0x36, some [0x60]), (0x13, none), (0x29, none)]

namespace PanelWire

abbrev colOffset : ℕ := 1
abbrev rowOffset : ℕ := 26

variable {κ π : Type} [SdCard κ] [LcdPanel π]

def setCs (level : Level) (bus : SharedBus κ π) : SharedBus κ π := { bus with lcdCs := level }

def setDc (level : Level) (bus : SharedBus κ π) : SharedBus κ π := { bus with lcdDc := level }

/-- The answer of the bus is dropped. -/
def spiWrite (bytes : List UInt8) (bus : SharedBus κ π) : SharedBus κ π := (SdBus.write bus bytes).2

def writeCmd (cmd : UInt8) (bus : SharedBus κ π) : SharedBus κ π :=
  setCs .high (spiWrite [cmd] (setCs .low (setDc .low bus)))

def writeData (data : List UInt8) (bus : SharedBus κ π) : SharedBus κ π :=
  setCs .high (spiWrite data (setCs .low (setDc .high bus)))

/-- Two coordinates of 16 bits. -/
def coordBytes (first last : ℕ) : List UInt8 :=
  [UInt8.ofNat (first / 256), UInt8.ofNat (first % 256), UInt8.ofNat (last / 256),
    UInt8.ofNat (last % 256)]

def setWindow (x0 y0 x1 y1 : ℕ) (bus : SharedBus κ π) : SharedBus κ π :=
  let bus := writeData (coordBytes (x0 + colOffset) (x1 + colOffset)) (writeCmd 0x2A bus)
  writeData (coordBytes (y0 + rowOffset) (y1 + rowOffset)) (writeCmd 0x2B bus)

/-- The loop of `fill_rect`: at most 32 pixels at a time, from a buffer of so many. -/
def writeChunks (buf : List UInt8) (remaining : ℕ) (bus : SharedBus κ π) : SharedBus κ π :=
  if remaining = 0 then bus
  else
    let chunk := min remaining 32
    writeChunks buf (remaining - chunk) (spiWrite (buf.take (chunk * 2)) bus)
  termination_by remaining

def fillRect (x y w h : ℕ) (color : UInt16) (bus : SharedBus κ π) : SharedBus κ π :=
  if w = 0 ∨ h = 0 ∨ lcdWidth ≤ x ∨ lcdHeight ≤ y then bus
  else
    let x1 := min (x + w - 1) (lcdWidth - 1)
    let y1 := min (y + h - 1) (lcdHeight - 1)
    let bus := setWindow x y x1 y1 bus
    let count := (x1 - x + 1) * (y1 - y + 1)
    let buf := (List.replicate 32 (pixelBytes color)).flatten
    let bus := setDc .high (spiWrite [0x2C] (setDc .low (setCs .low bus)))
    setCs .high (writeChunks buf count bus)

/-- The pixels of a character's cell, row by row. -/
def charPixels (c : Char) (fg bg : UInt16) : List UInt16 :=
  (List.range 8).flatMap fun row => (List.range 6).map fun col =>
    if isFg (font5x7.get (fontIdx c)) col row then fg else bg

def drawChar (x y : ℕ) (c : Char) (fg bg : UInt16) (bus : SharedBus κ π) : SharedBus κ π :=
  if x + 6 > lcdWidth ∨ y + 8 > lcdHeight then bus
  else
    let bus := setWindow x y (x + 5) (y + 7) bus
    let bus := setDc .high (spiWrite [0x2C] (setDc .low (setCs .low bus)))
    setCs .high (spiWrite ((charPixels c fg bg).flatMap pixelBytes) bus)

def drawText (x y : ℕ) (text : List Char) (fg bg : UInt16) (bus : SharedBus κ π) :
    SharedBus κ π :=
  match text with
  | [] => bus
  | c :: rest =>
    if x + 6 > lcdWidth then bus
    else drawText (x + 6) y rest fg bg (drawChar x y c fg bg bus)

/-- A command of the start. -/
def initCommand (bus : SharedBus κ π) (command : UInt8 × Option (List UInt8)) : SharedBus κ π :=
  match command.2 with
  | none => writeCmd command.1 bus
  | some data => writeData data (writeCmd command.1 bus)

/-! ### What is left on the screen -/

/-- What a panel shows, if it shows something. -/
def visible (s : PanelState) : Framebuffer := fun p =>
  s.memory (p.1.val + colOffset, p.2.val + rowOffset)

/-- The bus with the card deselected, at these states of its devices and lines. -/
def lit (bus : SharedBus κ π) (c : κ) (panel : π) (cs dc : Level) : SharedBus κ π :=
  { bus with card := c, panel := panel, lcdCs := cs, lcdDc := dc, sdCs := .high }

omit [SdCard κ] [LcdPanel π] in
theorem eq_lit {bus : SharedBus κ π} (deselected : bus.sdCs = .high) (idle : bus.lcdCs = .high) :
    bus = lit bus bus.card bus.panel .high bus.lcdDc := by
  obtain ⟨c, panel, sdCs, lcdCs, lcdDc, khz⟩ := bus
  obtain rfl : sdCs = .high := deselected
  obtain rfl : lcdCs = .high := idle
  rfl

theorem pass_append {κ : Type} [SdCard κ] (bytes bytes' : List UInt8) (c : κ) :
    pass (bytes ++ bytes') c = pass bytes' (pass bytes c) := List.foldl_append

section Lit

variable {bus : SharedBus κ π} {c : κ} {panel : π} {cs dc : Level}

theorem spiWrite_lit (bytes : List UInt8) :
    spiWrite bytes (lit bus c panel cs dc) =
      lit bus (pass bytes c) (hear cs dc bytes panel) cs dc := by
  show (SharedBus.clockBytes bytes (lit bus c panel cs dc)).2 = _
  induction bytes generalizing c panel with
  | nil => rfl
  | cons b rest ih => exact ih

theorem writeCmd_lit (cmd : UInt8) :
    writeCmd cmd (lit bus c panel .high dc) =
      lit bus (pass [cmd] c) (hear .low .low [cmd] panel) .high .low := by
  have hselect : setCs .low (setDc .low (lit bus c panel .high dc)) = lit bus c panel .low .low := rfl
  rw [writeCmd, hselect, spiWrite_lit]
  rfl

theorem writeData_lit (data : List UInt8) :
    writeData data (lit bus c panel .high dc) =
      lit bus (pass data c) (hear .low .high data panel) .high .high := by
  have hselect : setCs .low (setDc .high (lit bus c panel .high dc)) =
      lit bus c panel .low .high := rfl
  rw [writeData, hselect, spiWrite_lit]
  rfl

/-- The chunks of a block are its pixels. -/
theorem writeChunks_lit (c : κ) (panel : π) (color : UInt16) (remaining : ℕ) :
    ∃ bytes, writeChunks (List.replicate 32 (pixelBytes color)).flatten remaining
        (lit bus c panel cs dc) =
      lit bus (pass bytes c)
        (hear cs dc ((List.replicate remaining color).flatMap pixelBytes) panel) cs dc := by
  induction remaining using Nat.strongRecOn generalizing c panel with
  | ind remaining ih =>
    rw [writeChunks]
    split
    · next hzero => exact ⟨[], by rw [hzero]; rfl⟩
    · next hsome =>
      -- The buffer holds 32 pixels, of which a chunk takes what is left.
      have hchunk : (List.replicate 32 (pixelBytes color)).flatten.take (min remaining 32 * 2) =
          (List.replicate (min remaining 32) color).flatMap pixelBytes := by
        have hsplit : List.replicate 32 (pixelBytes color) =
            List.replicate (min remaining 32) (pixelBytes color) ++
              List.replicate (32 - min remaining 32) (pixelBytes color) := by
          rw [List.replicate_append_replicate]
          congr 1
          omega
        have hlen : (List.replicate (min remaining 32) (pixelBytes color)).flatten.length =
            min remaining 32 * 2 := by
          simp [pixelBytes]
        rw [hsplit, List.flatten_append, ← hlen, List.take_left', List.flatMap_replicate]
        rfl
      -- The rest goes to the panel behind this chunk.
      obtain ⟨bytes, hrest⟩ := ih (remaining - min remaining 32) (by omega)
        (pass ((List.replicate (min remaining 32) color).flatMap pixelBytes) c)
        (hear cs dc ((List.replicate (min remaining 32) color).flatMap pixelBytes) panel)
      have hwhole : List.replicate remaining color = List.replicate (min remaining 32) color ++
          List.replicate (remaining - min remaining 32) color := by
        rw [List.replicate_append_replicate]
        congr 1
        omega
      dsimp only
      rw [hchunk, spiWrite_lit, hrest, ← pass_append, ← hear_append, ← List.flatMap_append,
        ← hwhole]
      exact ⟨_, rfl⟩

end Lit

/-- What a function does to the bus with both devices deselected and the panel set up: the
card hears clocks, and the screen becomes what `g` makes of it. -/
def Draws (view : π → PanelState) (f : SharedBus κ π → SharedBus κ π)
    (g : Framebuffer → Framebuffer) : Prop :=
  ∀ bus : SharedBus κ π, bus.sdCs = .high → bus.lcdCs = .high →
    (view bus.panel).modes = .showing →
    ∃ bytes panel dc, f bus = lit bus (pass bytes bus.card) panel .high dc ∧
      (view panel).modes = .showing ∧ visible (view panel) = g (visible (view bus.panel))

variable {view : π → PanelState}

omit [LcdPanel π] in
theorem Draws.id : Draws view (fun bus : SharedBus κ π => bus) fun screen => screen :=
  fun bus hsd hlcd hmodes => ⟨[], bus.panel, bus.lcdDc, eq_lit hsd hlcd, hmodes, rfl⟩

omit [LcdPanel π] in
theorem Draws.comp {f f' : SharedBus κ π → SharedBus κ π} {g g' : Framebuffer → Framebuffer}
    (h : Draws view f g) (h' : Draws view f' g') :
    Draws view (fun bus => f' (f bus)) fun screen => g' (g screen) := by
  intro bus hsd hlcd hmodes
  obtain ⟨bytes, panel, dc, heq, hmodes₁, hshows⟩ := h bus hsd hlcd hmodes
  obtain ⟨bytes', panel', dc', heq', hmodes', hshows'⟩ :=
    h' (f bus) (by rw [heq]; rfl) (by rw [heq]; rfl) (by rw [heq]; exact hmodes₁)
  refine ⟨bytes ++ bytes', panel', dc', ?_, hmodes', ?_⟩
  · show f' (f bus) = _
    rw [heq', heq, pass_append]
    rfl
  · rw [hshows', heq]
    exact congrArg g' hshows

/-- The number of two bytes. -/
theorem beNat_coordBytes {x : ℕ} (h : x < 65536) :
    beNat [UInt8.ofNat (x / 256), UInt8.ofNat (x % 256)] = x := by
  have hhigh : x / 256 % 2 ^ 8 = x / 256 := Nat.mod_eq_of_lt (by omega)
  have hlow : x % 256 % 2 ^ 8 = x % 256 := Nat.mod_eq_of_lt (by omega)
  simp only [beNat, UInt8.toNat_ofNat', hhigh, hlow, List.length_cons, List.length_nil]
  omega

variable (conforms : PanelConforms view)
include conforms

/-- The window is set, for pixels to follow. -/
theorem setWindow_spec {bus : SharedBus κ π} (deselected : bus.sdCs = .high)
    (idle : bus.lcdCs = .high) (modes : (view bus.panel).modes = .showing)
    {x0 y0 x1 y1 : ℕ} (hx0 : x0 ≤ lcdWidth) (hy0 : y0 ≤ lcdHeight)
    (hx1 : x1 ≤ lcdWidth) (hy1 : y1 ≤ lcdHeight) :
    ∃ bytes panel', setDc .high (spiWrite [0x2C] (setDc .low (setCs .low
        (setWindow x0 y0 x1 y1 bus)))) = lit bus (pass bytes bus.card) panel' .low .high ∧
      (view panel').modes = .showing ∧
      (view panel').command = 0x2C ∧ (view panel').received = [] ∧
      (view panel').window =
        ⟨x0 + colOffset, x1 + colOffset, y0 + rowOffset, y1 + rowOffset⟩ ∧
      (view panel').cursor = (view panel').window.start ∧
      (view panel').memory = (view bus.panel).memory := by
  simp only [lcdWidth, lcdHeight] at hx0 hy0 hx1 hy1
  nth_rewrite 1 [eq_lit deselected idle]
  -- The coordinates go out as two bytes each, offset into the panel's memory.
  have hcolumns : (coordBytes (x0 + colOffset) (x1 + colOffset)).length = 4 := rfl
  have hrows : (coordBytes (y0 + rowOffset) (y1 + rowOffset)).length = 4 := rfl
  have hland : (view bus.panel).modes.Landscape := .of_showing modes
  have hwindow := view_window conforms bus.panel hland hcolumns hrows
  have hleft := beNat_coordBytes (show x0 + colOffset < 65536 by simp only [colOffset]; omega)
  have hright := beNat_coordBytes (show x1 + colOffset < 65536 by simp only [colOffset]; omega)
  have htop := beNat_coordBytes (show y0 + rowOffset < 65536 by simp only [rowOffset]; omega)
  have hbottom := beNat_coordBytes (show y1 + rowOffset < 65536 by simp only [rowOffset]; omega)
  rw [setWindow, writeCmd_lit, writeData_lit, writeCmd_lit, writeData_lit]
  generalize hear .low .high (coordBytes (y0 + rowOffset) (y1 + rowOffset))
    (hear .low .low [0x2B] (hear .low .high (coordBytes (x0 + colOffset) (x1 + colOffset))
      (hear .low .low [0x2A] bus.panel))) = panel₁ at hwindow ⊢
  -- The last command leaves the chip selected, for pixels to follow.
  have hpixels := view_pixels_command conforms panel₁ (by rw [hwindow]; exact hland)
  have hselect : ∀ c, setDc .low (setCs .low (lit bus c panel₁ .high .high)) =
      lit bus c panel₁ .low .low := fun _ => rfl
  rw [hselect, spiWrite_lit]
  generalize hear .low .low [0x2C] panel₁ = panel₂ at hpixels ⊢
  rw [hwindow] at hpixels
  refine ⟨[0x2A] ++ coordBytes (x0 + colOffset) (x1 + colOffset) ++ [0x2B] ++
    coordBytes (y0 + rowOffset) (y1 + rowOffset) ++ [0x2C], panel₂, ?_, ?_⟩
  · rw [pass_append, pass_append, pass_append, pass_append]
    rfl
  · rw [hpixels]
    refine ⟨modes, rfl, rfl, ?_, rfl, rfl⟩
    show Window.mk (beNat [_, _]) (beNat [_, _]) (beNat [_, _]) (beNat [_, _]) = _
    rw [hleft, hright, htop, hbottom]

omit [LcdPanel π] conforms in
/-- A window of pixels, given by column and row. -/
theorem visible_filled {s : PanelState} {x0 y0 x1 y1 : ℕ} (hx : x0 ≤ x1) (hy : y0 ≤ y1)
    (window : s.window = ⟨x0 + colOffset, x1 + colOffset, y0 + rowOffset, y1 + rowOffset⟩)
    (cursor : s.cursor = s.window.start) (pixel : ℕ → ℕ → UInt16) :
    visible (s.filled (Window.rows (x1 - x0 + 1) (y1 - y0 + 1) pixel)) =
      (Firmware.window x0 y0 x1 y1 pixel).onto (visible s) := by
  have hproper : s.window.Proper := by
    rw [window]
    exact ⟨Nat.add_le_add_right hx _, Nat.add_le_add_right hy _⟩
  have hwidth : s.window.width = x1 - x0 + 1 := by
    rw [window, Window.width]
    dsimp only [colOffset]
    omega
  have hheight : s.window.height = y1 - y0 + 1 := by
    rw [window, Window.height]
    dsimp only [rowOffset]
    omega
  funext p
  show (s.window.fill _ s.cursor s.memory).2 _ = _
  rw [cursor, ← hwidth, ← hheight, Window.fill_rows hproper, Layer.onto, Firmware.window, window]
  -- A pixel lies in the window of the panel iff it lies in that of the screen.
  by_cases hin : x0 ≤ p.1.val ∧ p.1.val ≤ x1 ∧ y0 ≤ p.2.val ∧ p.2.val ≤ y1
  · have hhas : Window.Has ⟨x0 + colOffset, x1 + colOffset, y0 + rowOffset, y1 + rowOffset⟩
        (p.1.val + colOffset, p.2.val + rowOffset) := by
      simp only [Window.Has]
      omega
    rw [if_pos hin, if_pos hhas, Nat.add_sub_add_right, Nat.add_sub_add_right]
    rfl
  · have hhas : ¬ Window.Has ⟨x0 + colOffset, x1 + colOffset, y0 + rowOffset, y1 + rowOffset⟩
        (p.1.val + colOffset, p.2.val + rowOffset) := by
      simp only [Window.Has]
      omega
    rw [if_neg hin, if_neg hhas]
    rfl

/-- **A rectangle.** -/
theorem draws_fillRect (x y w h : ℕ) (color : UInt16) :
    Draws view (fun bus : SharedBus κ π => fillRect x y w h color bus)
      (Firmware.fillRect x y w h color) := by
  intro bus hsd hlcd hmodes
  dsimp only
  rw [fillRect]
  split
  · next hout =>
    exact ⟨[], bus.panel, bus.lcdDc, eq_lit hsd hlcd, hmodes,
      by rw [Firmware.fillRect, if_pos hout]⟩
  · next hin =>
    simp only [lcdWidth, lcdHeight] at hin
    -- What would leave the screen is clipped, so the window stays a proper one.
    have hx : x ≤ min (x + w - 1) (lcdWidth - 1) := by simp only [lcdWidth]; omega
    have hy : y ≤ min (y + h - 1) (lcdHeight - 1) := by simp only [lcdHeight]; omega
    dsimp only
    generalize hx1 : min (x + w - 1) (lcdWidth - 1) = x1 at hx ⊢
    generalize hy1 : min (y + h - 1) (lcdHeight - 1) = y1 at hy ⊢
    have hright : x1 ≤ lcdWidth := by rw [← hx1]; omega
    have hbottom : y1 ≤ lcdHeight := by rw [← hy1]; omega
    obtain ⟨bytes, panel, heq, hshowing, hcommand, hreceived, hwindow, hcursor, hmemory⟩ :=
      setWindow_spec conforms hsd hlcd hmodes (hx.trans hright) (hy.trans hbottom) hright hbottom
    obtain ⟨bytes', hchunks⟩ :=
      writeChunks_lit (pass bytes bus.card) panel color ((x1 - x + 1) * (y1 - y + 1))
    have hpixels := view_pixels conforms panel (.of_showing hshowing) hcommand hreceived
      (List.replicate ((x1 - x + 1) * (y1 - y + 1)) color)
    have hshows := visible_filled hx hy hwindow hcursor fun _ _ => color
    rw [heq, hchunks, ← pass_append]
    refine ⟨_, hear .low .high ((List.replicate ((x1 - x + 1) * (y1 - y + 1)) color).flatMap
      pixelBytes) panel, .high, rfl, by rw [hpixels, PanelState.filled_modes, hshowing], ?_⟩
    rw [hpixels, ← Window.rows_const, hshows, Firmware.fillRect, if_neg hin, hx1, hy1]
    show (Firmware.window _ _ _ _ _).onto (fun p => (view panel).memory _) = _
    rw [hmemory]
    rfl

/-- **A character.** -/
theorem draws_drawChar (x y : ℕ) (ch : Char) (fg bg : UInt16) :
    Draws view (fun bus : SharedBus κ π => drawChar x y ch fg bg bus)
      (Firmware.drawChar x y ch fg bg) := by
  intro bus hsd hlcd hmodes
  dsimp only
  rw [drawChar]
  split
  · next hout =>
    exact ⟨[], bus.panel, bus.lcdDc, eq_lit hsd hlcd, hmodes,
      by rw [Firmware.drawChar, if_pos hout]⟩
  · next hin =>
    simp only [lcdWidth, lcdHeight] at hin
    have hright : x + 5 ≤ lcdWidth := by simp only [lcdWidth]; omega
    have hbottom : y + 7 ≤ lcdHeight := by simp only [lcdHeight]; omega
    obtain ⟨bytes, panel, heq, hshowing, hcommand, hreceived, hwindow, hcursor, hmemory⟩ :=
      setWindow_spec conforms hsd hlcd hmodes ((Nat.le_add_right x 5).trans hright)
        ((Nat.le_add_right y 7).trans hbottom) hright hbottom
    have hpixels := view_pixels conforms panel (.of_showing hshowing) hcommand hreceived (charPixels ch fg bg)
    -- The font is read row by row, as the panel fills the window.
    have hrows : charPixels ch fg bg = Window.rows (x + 5 - x + 1) (y + 7 - y + 1) fun col row =>
        if isFg font5x7[fontIdx ch] col row then fg else bg := by
      rw [Nat.add_sub_cancel_left, Nat.add_sub_cancel_left]
      rfl
    have hshows := visible_filled (Nat.le_add_right x 5) (Nat.le_add_right y 7) hwindow hcursor
      fun col row => if isFg font5x7[fontIdx ch] col row then fg else bg
    dsimp only
    rw [heq, spiWrite_lit, ← pass_append]
    refine ⟨_, hear .low .high ((charPixels ch fg bg).flatMap pixelBytes) panel, .high, rfl,
      by rw [hpixels, PanelState.filled_modes, hshowing], ?_⟩
    rw [hpixels, hrows, hshows, Firmware.drawChar, if_neg hin, charCell]
    show (Firmware.window _ _ _ _ _).onto (fun p => (view panel).memory _) = _
    rw [hmemory]
    rfl

/-- **A text.** -/
theorem draws_drawText (x y : ℕ) (text : List Char) (fg bg : UInt16) :
    Draws view (fun bus : SharedBus κ π => drawText x y text fg bg bus)
      (Firmware.drawText x y text fg bg) := by
  induction text generalizing x with
  | nil => exact .id
  | cons c rest ih =>
    -- The text ends where a character would not fit, on the wire as on the screen.
    by_cases hout : x + 6 > lcdWidth
    · have hwire : (fun bus : SharedBus κ π => drawText x y (c :: rest) fg bg bus) = fun bus => bus :=
        funext fun bus => if_pos hout
      have hscreen : Firmware.drawText x y (c :: rest) fg bg = fun screen => screen :=
        funext fun screen => if_pos hout
      rw [hwire, hscreen]
      exact .id
    · have hwire : (fun bus : SharedBus κ π => drawText x y (c :: rest) fg bg bus) =
          fun bus => drawText (x + 6) y rest fg bg (drawChar x y c fg bg bus) :=
        funext fun bus => if_neg hout
      have hscreen : Firmware.drawText x y (c :: rest) fg bg =
          fun screen => Firmware.drawText (x + 6) y rest fg bg (Firmware.drawChar x y c fg bg screen) :=
        funext fun screen => if_neg hout
      rw [hwire, hscreen]
      exact (draws_drawChar conforms x y c fg bg).comp (ih (x + 6))

end PanelWire

end Gibberish.Firmware
