/-
# The dashboard on the panel

The driver of the display over the bus, with its caches. It draws, on any panel that keeps
to the description, what the driver on a screen draws: from any state of the panel the
start sets the modes in which the panel takes pixels and shows them, it clears the screen,
and then the panel shows the last dashboard alone.
-/

import Gibberish.Firmware.PanelWire
import Gibberish.Storage.SdDiscipline

set_option autoImplicit false

namespace Gibberish.Firmware

open Gibberish.Foundation Gibberish.Storage Gibberish.Storage.SdCard PanelWire

structure LcdDriver (κ π : Type) where
  bus : SharedBus κ π
  cachedText : Vector (Vector UInt8 lineChars) numLines
  cachedFg : Vector UInt16 numLines
  cachedBg : Vector UInt16 numLines
  cachedValid : Vector Bool numLines
  lastSyncPhase : UInt8

namespace LcdDriver

section Source

variable {κ π : Type} [SdCard κ] [LcdPanel π]

omit [SdCard κ] [LcdPanel π] in
def new (bus : SharedBus κ π) : LcdDriver κ π where
  bus := bus
  cachedText := Vector.replicate numLines (Vector.replicate lineChars 0x20)
  cachedFg := Vector.replicate numLines 0
  cachedBg := Vector.replicate numLines 0
  cachedValid := Vector.replicate numLines false
  lastSyncPhase := 0xFF

def init (w : LcdDriver κ π) : LcdDriver κ π where
  bus := PanelWire.fillRect 0 0 lcdWidth lcdHeight 0x0000
    (initCommands.foldl initCommand w.bus)
  cachedText := Vector.replicate numLines (Vector.replicate lineChars 0x20)
  cachedFg := Vector.replicate numLines 0
  cachedBg := Vector.replicate numLines 0
  cachedValid := Vector.replicate numLines false
  lastSyncPhase := 0xFF

/-- Whether a cell has to be drawn. -/
def dirty (w : LcdDriver κ π) (line : Fin numLines) (chars : Vector UInt8 lineChars)
    (fg bg : UInt16) (col : Fin lineChars) : Bool :=
  !w.cachedValid.get line || (w.cachedText.get line).get col ≠ chars.get col ||
    w.cachedFg.get line ≠ fg || w.cachedBg.get line ≠ bg

/-- One turn of the loop over a line's cells. -/
def drawCell (line : Fin numLines) (chars : Vector UInt8 lineChars) (fg bg : UInt16)
    (w : LcdDriver κ π) (col : Fin lineChars) : LcdDriver κ π :=
  if w.dirty line chars fg bg col then
    let c := chars.get col
    { w with
      bus := PanelWire.drawChar (2 + col.val * 6) (2 + line.val * 11) (Char.ofNat c.toNat) fg bg
        w.bus
      cachedText := w.cachedText.set line ((w.cachedText.get line).set col c col.isLt) line.isLt }
  else w

def drawDirtyLine (w : LcdDriver κ π) (lineIdx : ℕ) (text : List Char) (fg bg : UInt16) :
    LcdDriver κ π :=
  if h : lineIdx < numLines then
    let line : Fin numLines := ⟨lineIdx, h⟩
    let chars := newChars line text
    if w.cachedValid.get line ∧ w.cachedFg.get line = fg ∧ w.cachedBg.get line = bg ∧
        (w.cachedText.get line).toList.take (maxCols line) = chars.toList.take (maxCols line) then w
    else
      let w := (columns line).foldl (drawCell line chars fg bg) w
      { w with
        cachedFg := w.cachedFg.set line fg h
        cachedBg := w.cachedBg.set line bg h
        cachedValid := w.cachedValid.set line true h }
  else w

def renderSyncIndicator (w : LcdDriver κ π) (syncPhase : UInt8) : LcdDriver κ π :=
  if syncPhase = w.lastSyncPhase then w
  else
    let (fillColor, textColor, label) := badgeLook syncPhase
    let bus := PanelWire.fillRect badgeX badgeY badgeW badgeH fillColor w.bus
    { w with
      bus := PanelWire.drawText (badgeX + 2) badgeY label textColor fillColor bus
      lastSyncPhase := syncPhase }

def renderDashboard (w : LcdDriver κ π) (args : DashboardArgs) : LcdDriver κ π :=
  let w := w.drawDirtyLine 0 args.line0 0x07FF 0x0000
  let w := w.renderSyncIndicator args.syncPhase
  let w := w.drawDirtyLine 1 args.line1 0xFFFF 0x0000
  let w := w.drawDirtyLine 2 args.line2.1 args.line2.2 0x0000
  let w := w.drawDirtyLine 3 args.line3 0xFFFF 0x0000
  let w := w.drawDirtyLine 4 args.line4 0xCE79 0x0000
  let w := w.drawDirtyLine 5 args.line5.1 args.line5.2 0x0000
  w.drawDirtyLine 6 args.line6.1 args.line6.2 0x0000

/-- The dashboards drawn one after another. -/
def run (w : LcdDriver κ π) (calls : List DashboardArgs) : LcdDriver κ π :=
  calls.foldl renderDashboard w

end Source

/-! ### The driver on a screen -/

variable {κ π : Type}

/-- The same caches over this screen. -/
def above (w : LcdDriver κ π) (screen : Framebuffer) : St7735 :=
  ⟨screen, w.cachedText, w.cachedFg, w.cachedBg, w.cachedValid, w.lastSyncPhase⟩

/-- Both devices are deselected and the panel is set up, and the driver on a screen has the
same caches and the screen that the panel shows. -/
structure Mirrors (view : π → PanelState) (w : LcdDriver κ π) (d : St7735) : Prop where
  deselected : w.bus.sdCs = .high
  idle : w.bus.lcdCs = .high
  showing : (view w.bus.panel).modes = .showing
  above_eq : w.above (visible (view w.bus.panel)) = d

variable [SdCard κ] [LcdPanel π] {view : π → PanelState}

/-- What the driver does on the bus and on a screen is the same, and the card hears clocks. -/
def Agree (view : π → PanelState) (F : LcdDriver κ π → LcdDriver κ π) (G : St7735 → St7735) :
    Prop :=
  ∀ w d, Mirrors view w d → Mirrors view (F w) (G d) ∧
    ∃ bytes panel dc, (F w).bus = lit w.bus (pass bytes w.bus.card) panel .high dc

omit [LcdPanel π] in
theorem Agree.id : Agree view (fun w : LcdDriver κ π => w) fun d => d :=
  fun w _ h => ⟨h, [], w.bus.panel, w.bus.lcdDc, eq_lit h.deselected h.idle⟩

omit [LcdPanel π] in
theorem Agree.comp {F F' : LcdDriver κ π → LcdDriver κ π} {G G' : St7735 → St7735}
    (h : Agree view F G) (h' : Agree view F' G') :
    Agree view (fun w => F' (F w)) fun d => G' (G d) := by
  intro w d hmirrors
  obtain ⟨hnext, bytes, panel, dc, heq⟩ := h w d hmirrors
  obtain ⟨hlast, bytes', panel', dc', heq'⟩ := h' _ _ hnext
  refine ⟨hlast, bytes ++ bytes', panel', dc', ?_⟩
  rw [heq', heq, pass_append]
  rfl

omit [LcdPanel π] in
theorem Agree.foldl {ι : Type} {F : LcdDriver κ π → ι → LcdDriver κ π} {G : St7735 → ι → St7735}
    (h : ∀ i, Agree view (fun w => F w i) fun d => G d i) (is : List ι) :
    Agree view (fun w => is.foldl F w) fun d => is.foldl G d := by
  induction is with
  | nil => exact .id
  | cons i is ih => exact (h i).comp ih

omit [LcdPanel π] in
/-- A step that draws, and then notes what it likes in the caches. -/
theorem agree_of_draws {f : SharedBus κ π → SharedBus κ π} {g : Framebuffer → Framebuffer}
    (h : Draws view f g) {w : LcdDriver κ π} {d : St7735} (mirrors : Mirrors view w d)
    (w' : LcdDriver κ π) (bus : w'.bus = f w.bus) :
    Mirrors view w' (w'.above (g d.screen)) ∧
      ∃ bytes panel dc, w'.bus = lit w.bus (pass bytes w.bus.card) panel .high dc := by
  obtain ⟨bytes, panel, dc, heq, hmodes, hshows⟩ :=
    h w.bus mirrors.deselected mirrors.idle mirrors.showing
  rw [← bus] at heq
  refine ⟨⟨by rw [heq]; rfl, by rw [heq]; rfl, by rw [heq]; exact hmodes, ?_⟩, bytes, panel, dc,
    heq⟩
  have hscreen : visible (view w'.bus.panel) = g d.screen := by
    rw [← mirrors.above_eq, heq]
    exact hshows
  rw [hscreen]

section Conforms

variable (conforms : PanelConforms view)
include conforms

theorem agree_drawCell (line : Fin numLines) (chars : Vector UInt8 lineChars) (fg bg : UInt16)
    (col : Fin lineChars) :
    Agree view (fun w : LcdDriver κ π => drawCell line chars fg bg w col) fun d =>
      d.drawCell line chars fg bg col := by
  intro w d mirrors
  have hd := mirrors.above_eq
  -- Both decide by the same caches whether the cell is drawn.
  have hdirty : d.dirty line chars fg bg col = w.dirty line chars fg bg col := by
    rw [← hd]
    rfl
  dsimp only
  rw [drawCell, St7735.drawCell, hdirty]
  split
  · obtain ⟨hmirrors, hbus⟩ := agree_of_draws
      (draws_drawChar conforms (2 + col.val * 6) (2 + line.val * 11)
        (Char.ofNat (chars.get col).toNat) fg bg) mirrors
      { w with
        bus := PanelWire.drawChar (2 + col.val * 6) (2 + line.val * 11)
          (Char.ofNat (chars.get col).toNat) fg bg w.bus
        cachedText := w.cachedText.set line
          ((w.cachedText.get line).set col (chars.get col) col.isLt) line.isLt } rfl
    refine ⟨?_, hbus⟩
    rw [← hd] at hmirrors ⊢
    exact hmirrors
  · exact Agree.id w d mirrors

theorem agree_drawDirtyLine (lineIdx : ℕ) (text : List Char) (fg bg : UInt16) :
    Agree view (fun w : LcdDriver κ π => w.drawDirtyLine lineIdx text fg bg) fun d =>
      d.drawDirtyLine lineIdx text fg bg := by
  intro w d mirrors
  dsimp only
  rw [drawDirtyLine, St7735.drawDirtyLine]
  split
  · next hline =>
    have hd := mirrors.above_eq
    dsimp only
    by_cases hclean : w.cachedValid.get ⟨lineIdx, hline⟩ ∧ w.cachedFg.get ⟨lineIdx, hline⟩ = fg ∧
        w.cachedBg.get ⟨lineIdx, hline⟩ = bg ∧
        (w.cachedText.get ⟨lineIdx, hline⟩).toList.take (maxCols lineIdx) =
          (newChars lineIdx text).toList.take (maxCols lineIdx)
    · have hclean' : d.cachedValid.get ⟨lineIdx, hline⟩ ∧
          d.cachedFg.get ⟨lineIdx, hline⟩ = fg ∧ d.cachedBg.get ⟨lineIdx, hline⟩ = bg ∧
          (d.cachedText.get ⟨lineIdx, hline⟩).toList.take (maxCols lineIdx) =
            (newChars lineIdx text).toList.take (maxCols lineIdx) := by
        rw [← hd]
        exact hclean
      rw [if_pos hclean, if_pos hclean']
      exact Agree.id w d mirrors
    · have hclean' : ¬ (d.cachedValid.get ⟨lineIdx, hline⟩ ∧
          d.cachedFg.get ⟨lineIdx, hline⟩ = fg ∧ d.cachedBg.get ⟨lineIdx, hline⟩ = bg ∧
          (d.cachedText.get ⟨lineIdx, hline⟩).toList.take (maxCols lineIdx) =
            (newChars lineIdx text).toList.take (maxCols lineIdx)) := by
        rw [← hd]
        exact hclean
      rw [if_neg hclean, if_neg hclean']
      -- The cells, and then the notes on the line.
      obtain ⟨hmirrors, hbus⟩ := Agree.foldl
        (agree_drawCell conforms ⟨lineIdx, hline⟩ (newChars lineIdx text) fg bg)
        (columns ⟨lineIdx, hline⟩) w d mirrors
      dsimp only at hmirrors hbus
      generalize (columns ⟨lineIdx, hline⟩).foldl
        (drawCell ⟨lineIdx, hline⟩ (newChars lineIdx text) fg bg) w = w₁ at hmirrors hbus ⊢
      rw [← hmirrors.above_eq]
      exact ⟨⟨hmirrors.deselected, hmirrors.idle, hmirrors.showing, rfl⟩, hbus⟩
  · exact Agree.id w d mirrors

theorem agree_renderSyncIndicator (syncPhase : UInt8) :
    Agree view (fun w : LcdDriver κ π => w.renderSyncIndicator syncPhase) fun d =>
      d.renderSyncIndicator syncPhase := by
  intro w d mirrors
  have hd := mirrors.above_eq
  have hlast : d.lastSyncPhase = w.lastSyncPhase := by
    rw [← hd]
    rfl
  dsimp only
  rw [renderSyncIndicator, St7735.renderSyncIndicator, hlast]
  split
  · exact Agree.id w d mirrors
  · obtain ⟨hmirrors, hbus⟩ := agree_of_draws
      ((draws_fillRect conforms badgeX badgeY badgeW badgeH (badgeLook syncPhase).1).comp
        (draws_drawText conforms (badgeX + 2) badgeY (badgeLook syncPhase).2.2
          (badgeLook syncPhase).2.1 (badgeLook syncPhase).1)) mirrors
      { w with
        bus := PanelWire.drawText (badgeX + 2) badgeY (badgeLook syncPhase).2.2
          (badgeLook syncPhase).2.1 (badgeLook syncPhase).1
          (PanelWire.fillRect badgeX badgeY badgeW badgeH (badgeLook syncPhase).1 w.bus)
        lastSyncPhase := syncPhase } rfl
    refine ⟨?_, hbus⟩
    rw [← hd] at hmirrors ⊢
    exact hmirrors

/-- **A dashboard.** -/
theorem agree_renderDashboard (args : DashboardArgs) :
    Agree view (fun w : LcdDriver κ π => w.renderDashboard args) fun d =>
      d.renderDashboard args := by
  have hline : ∀ n text fg bg, Agree view
      (fun w : LcdDriver κ π => w.drawDirtyLine n text fg bg) fun d => d.drawDirtyLine n text fg bg :=
    agree_drawDirtyLine conforms
  have hbadge : Agree view (fun w : LcdDriver κ π => w.renderSyncIndicator args.syncPhase)
      fun d => d.renderSyncIndicator args.syncPhase := agree_renderSyncIndicator conforms _
  have h0 := (hline 0 args.line0 0x07FF 0x0000).comp hbadge
  have h1 := h0.comp (hline 1 args.line1 0xFFFF 0x0000)
  have h2 := h1.comp (hline 2 args.line2.1 args.line2.2 0x0000)
  have h3 := h2.comp (hline 3 args.line3 0xFFFF 0x0000)
  have h4 := h3.comp (hline 4 args.line4 0xCE79 0x0000)
  have h5 := h4.comp (hline 5 args.line5.1 args.line5.2 0x0000)
  have h6 := h5.comp (hline 6 args.line6.1 args.line6.2 0x0000)
  intro w d mirrors
  have hall := h6 w d mirrors
  dsimp only at hall
  dsimp only [renderDashboard, St7735.renderDashboard]
  exact hall

theorem agree_run (calls : List DashboardArgs) :
    Agree view (fun w : LcdDriver κ π => w.run calls) fun d => d.run calls :=
  Agree.foldl (agree_renderDashboard conforms) calls

/-! ### The start -/

/-- A command of the start goes out, and then its data, if it has any. -/
theorem initCommand_spec (bus : SharedBus κ π) (deselected : bus.sdCs = .high)
    (idle : bus.lcdCs = .high) (command : UInt8 × Option (List UInt8)) :
    ∃ bytes panel dc, initCommand bus command = lit bus (pass bytes bus.card) panel .high dc ∧
      (command.1 ∈ modalCommands → command.1 ∉ drawingCommands →
        (view panel).modes = (view bus.panel).modes.setUp command) := by
  obtain ⟨cmd, data⟩ := command
  have hcmd : writeCmd cmd bus =
      lit bus (pass [cmd] bus.card) (hear .low .low [cmd] bus.panel) .high .low := by
    nth_rewrite 1 [eq_lit deselected idle]
    exact writeCmd_lit cmd
  cases data with
  | none =>
    obtain ⟨-, -, hmodes⟩ := view_command conforms bus.panel cmd
    exact ⟨_, _, _, hcmd, fun hmodal _ => hmodes hmodal⟩
  | some data =>
    refine ⟨[cmd] ++ data, hear .low .high data (hear .low .low [cmd] bus.panel), .high, ?_,
      fun hmodal hundrawn => view_setUp conforms bus.panel hmodal hundrawn data⟩
    rw [initCommand]
    dsimp only
    rw [hcmd, writeData_lit, pass_append]

/-- The commands of the start may do anything to the screen, and each sets its mode. -/
theorem foldl_initCommand (bus : SharedBus κ π) (deselected : bus.sdCs = .high)
    (idle : bus.lcdCs = .high) (commands : List (UInt8 × Option (List UInt8)))
    (modal : ∀ command ∈ commands, command.1 ∈ modalCommands ∧ command.1 ∉ drawingCommands) :
    ∃ bytes panel dc, commands.foldl initCommand bus =
        lit bus (pass bytes bus.card) panel .high dc ∧
      (view panel).modes = commands.foldl PanelModes.setUp (view bus.panel).modes := by
  induction commands generalizing bus with
  | nil => exact ⟨[], bus.panel, bus.lcdDc, eq_lit deselected idle, rfl⟩
  | cons command rest ih =>
    obtain ⟨hmodal, hundrawn⟩ := modal command List.mem_cons_self
    obtain ⟨bytes, panel, dc, heq, hmodes⟩ := initCommand_spec conforms bus deselected idle command
    obtain ⟨bytes', panel', dc', hrest, hmodes'⟩ := ih (initCommand bus command) (by rw [heq]; rfl)
      (by rw [heq]; rfl) fun c hc => modal c (List.mem_cons_of_mem _ hc)
    refine ⟨bytes ++ bytes', panel', dc', ?_, ?_⟩
    · rw [List.foldl_cons, hrest, heq, pass_append]
      rfl
    · rw [List.foldl_cons, hmodes', ← hmodes hmodal hundrawn, heq]
      rfl

omit [SdCard κ] [LcdPanel π] conforms in
/-- Behind the reset, every mode is set. -/
theorem setUp_initCommands (m : PanelModes) :
    initCommands.tail.foldl PanelModes.setUp m = .showing := rfl

/-- **The set-up.** Whatever a reset makes of the panel, the commands behind it set it up. -/
theorem showing_initCommands (bus : SharedBus κ π) (deselected : bus.sdCs = .high)
    (idle : bus.lcdCs = .high) :
    ∃ bytes panel dc, initCommands.foldl initCommand bus =
        lit bus (pass bytes bus.card) panel .high dc ∧ (view panel).modes = .showing := by
  obtain ⟨bytes, panel, dc, heq, -⟩ := initCommand_spec conforms bus deselected idle (0x01, none)
  obtain ⟨bytes', panel', dc', hrest, hmodes⟩ := foldl_initCommand conforms
    (initCommand bus (0x01, none)) (by rw [heq]; rfl) (by rw [heq]; rfl) initCommands.tail
    (by decide)
  refine ⟨bytes ++ bytes', panel', dc', ?_, hmodes.trans (setUp_initCommands _)⟩
  have hreset : initCommands = (0x01, none) :: initCommands.tail := rfl
  rw [hreset, List.foldl_cons, hrest, heq, pass_append]
  rfl

omit [SdCard κ] [LcdPanel π] conforms in
/-- The whole screen in one colour. -/
theorem fillRect_whole (color : UInt16) (screen : Framebuffer) :
    Firmware.fillRect 0 0 lcdWidth lcdHeight color screen = fun _ => color := by
  funext p
  have hin : 0 ≤ p.1.val ∧ p.1.val ≤ min (0 + lcdWidth - 1) (lcdWidth - 1) ∧
      0 ≤ p.2.val ∧ p.2.val ≤ min (0 + lcdHeight - 1) (lcdHeight - 1) := by
    have hx := p.1.isLt
    have hy := p.2.isLt
    simp only [lcdWidth, lcdHeight] at hx hy ⊢
    omega
  rw [Firmware.fillRect, if_neg (by decide)]
  show Layer.onto (Firmware.window _ _ _ _ _) screen p = color
  rw [Layer.onto, Firmware.window, if_pos hin]
  rfl

/-- The start, from any state of the panel, mirrors a start on any screen. -/
theorem mirrors_init (w : LcdDriver κ π) (deselected : w.bus.sdCs = .high)
    (idle : w.bus.lcdCs = .high) (d : St7735) :
    Mirrors view w.init d.init ∧
      ∃ bytes panel dc, w.init.bus = lit w.bus (pass bytes w.bus.card) panel .high dc := by
  obtain ⟨bytes, panel, dc, heq, hmodes⟩ := showing_initCommands conforms w.bus deselected idle
  -- Whatever the commands showed, the whole screen is painted over.
  obtain ⟨bytes', panel', dc', heq', hmodes', hshows⟩ :=
    draws_fillRect conforms 0 0 lcdWidth lcdHeight 0x0000 (initCommands.foldl initCommand w.bus)
      (by rw [heq]; rfl) (by rw [heq]; rfl) (by rw [heq]; exact hmodes)
  have hbus : w.init.bus = lit w.bus (pass (bytes ++ bytes') w.bus.card) panel' .high dc' := by
    dsimp only at heq'
    rw [init, heq', heq, pass_append]
    rfl
  refine ⟨⟨by rw [hbus]; rfl, by rw [hbus]; rfl, by rw [hbus]; exact hmodes', ?_⟩, _, _, _, hbus⟩
  have hscreen : visible (view w.init.bus.panel) = d.init.screen := by
    rw [hbus]
    show visible (view panel') = Firmware.fillRect 0 0 lcdWidth lcdHeight 0x0000 d.screen
    rw [hshows, fillRect_whole, fillRect_whole]
  rw [hscreen]
  rfl

/-- **The panel.** From any state of a panel that keeps to the description: after the start
and any dashboards of the main loop's phases, the panel is set up and shows what the driver
on a screen shows, which is the last dashboard on a cleared screen. -/
theorem panel_shows_dashboard (w : LcdDriver κ π) (deselected : w.bus.sdCs = .high)
    (idle : w.bus.lcdCs = .high) (d : St7735) (calls : List DashboardArgs) (last : DashboardArgs)
    (phases : ∀ args ∈ calls ++ [last], args.syncPhase ≠ 0xFF) :
    Mirrors view (w.init.run (calls ++ [last])) (d.init.run (calls ++ [last])) ∧
      visible (view (w.init.run (calls ++ [last])).bus.panel) =
        (d.init.renderDashboard last).screen := by
  obtain ⟨hinit, -⟩ := mirrors_init conforms w deselected idle d
  obtain ⟨hmirrors, -⟩ := agree_run conforms (calls ++ [last]) _ _ hinit
  refine ⟨hmirrors, ?_⟩
  have hscreen := St7735.screen_run_concat (St7735.coherent_init d) phases
  rw [← hscreen]
  exact congrArg St7735.screen hmirrors.above_eq

end Conforms

/-- A driver of a panel as a reset leaves it, next to an empty slot. -/
def onPlainPanel : LcdDriver EmptySlot PlainPanel :=
  new
    { card := ⟨⟩
      panel := ⟨⟨0x00, [], PlainPanel.resetModes, ⟨0, 0, 0, 0⟩, (0, 0), fun _ => 0xFFFF⟩⟩
      sdCs := .high
      lcdCs := .high
      lcdDc := .high
      khz := 16000 }

theorem panel_shows_dashboard_onPlainPanel :
    Mirrors PlainPanel.state (onPlainPanel.init.run [St7735.bootArgs, St7735.syncArgs])
        ((St7735.new fun _ => 0).init.run [St7735.bootArgs, St7735.syncArgs]) ∧
      visible (onPlainPanel.init.run [St7735.bootArgs, St7735.syncArgs]).bus.panel.state =
        ((St7735.new fun _ => 0).init.renderDashboard St7735.syncArgs).screen := by
  have hphase : ∀ args ∈ [St7735.bootArgs] ++ [St7735.syncArgs], args.syncPhase ≠ 0xFF := by
    have hsync : mainSyncPhase 8 ≠ 0xFF := by decide
    simp [St7735.bootArgs, St7735.syncArgs, hsync]
  have hshown := panel_shows_dashboard PlainPanel.conforms onPlainPanel rfl rfl
    (St7735.new fun _ => 0) [St7735.bootArgs] St7735.syncArgs hphase
  rwa [List.singleton_append] at hshown

end LcdDriver

end Gibberish.Firmware
