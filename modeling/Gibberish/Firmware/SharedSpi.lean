/-
# One bus for the card and the panel

The two drivers of the firmware hold the same bus, and their calls come in any order.
Neither notices the other: the card's sectors are those of the calls on sectors alone, and
the panel shows the last dashboard.
-/

import Gibberish.Firmware.LcdDriver
import Gibberish.Storage.SdStart

set_option autoImplicit false

namespace Gibberish.Firmware

open Gibberish.Foundation Gibberish.Storage Gibberish.Storage.SdCard
open Gibberish.Storage.SpiSdBlockDevice (SectorOp SectorCall)

/-- Both drivers, on one bus. -/
structure SharedSpi (κ π : Type) where
  display : LcdDriver κ π
  isSdhc : Bool

/-- A call of either driver. -/
inductive SpiCall where
  | sector (op : SectorOp)
  | dashboard (args : DashboardArgs)

namespace SpiCall

/-- What the call is for the card. -/
def sectorOps : SpiCall → List SectorOp
  | sector op => [op]
  | dashboard _ => []

/-- What the call is for the display. -/
def dashboards : SpiCall → List DashboardArgs
  | sector _ => []
  | dashboard args => [args]

end SpiCall

namespace SharedSpi

variable {κ π : Type}

/-- The driver of the card. -/
def sdDevice (s : SharedSpi κ π) : SpiSdBlockDevice (SharedBus κ π) := ⟨s.display.bus, s.isSdhc⟩

/-- The display when the other driver has left the bus like this. -/
def withSdDevice (s : SharedSpi κ π) (sd : SpiSdBlockDevice (SharedBus κ π)) : SharedSpi κ π :=
  ⟨{ s.display with bus := sd.bus }, sd.isSdhc⟩

variable [SdCard κ] [LcdPanel π]

def step (s : SharedSpi κ π) : SpiCall → SharedSpi κ π × List SectorCall
  | .sector op =>
    let (sd, calls) := SpiSdBlockDevice.step s.sdDevice op
    (s.withSdDevice sd, calls)
  | .dashboard args => (⟨s.display.renderDashboard args, s.isSdhc⟩, [])

/-- The bus as a machine that emits the calls on sectors. -/
def machine : Machine (SharedSpi κ π) SpiCall SectorCall := ⟨step⟩

theorem next_sector (s : SharedSpi κ π) (op : SectorOp) :
    machine.next s (.sector op) = s.withSdDevice (SpiSdBlockDevice.machine.next s.sdDevice op) := rfl

theorem emit_sector (s : SharedSpi κ π) (op : SectorOp) :
    machine.emit s (.sector op) = SpiSdBlockDevice.machine.emit s.sdDevice op := rfl

theorem next_dashboard (s : SharedSpi κ π) (args : DashboardArgs) :
    machine.next s (.dashboard args) = ⟨s.display.renderDashboard args, s.isSdhc⟩ := rfl

/-- The start of the firmware: the display first, and then the card. -/
def start (bus : SharedBus κ π) : Except (StorageError × LcdDriver κ π) (SharedSpi κ π) :=
  let display := (LcdDriver.new bus).init
  match SpiSdBlockDevice.new display.bus with
  | .ok sd => .ok ⟨{ display with bus := sd.bus }, sd.isSdhc⟩
  | .error (e, bus) => .error (e, { display with bus := bus })

/-! ### The panel under the calls on sectors -/

variable {cardView : κ → CardState} {panelView : π → PanelState}

/-- The card is up and at rest, and the panel shows what the driver on a screen shows. -/
structure Sound (cardView : κ → CardState) (panelView : π → PanelState) (s : SharedSpi κ π)
    (d : St7735) : Prop where
  serves : SpiSdBlockDevice.Serves cardView s.sdDevice
  mirrors : LcdDriver.Mirrors panelView s.display d

/-- The sectors of the card. -/
def sectors (cardView : κ → CardState) (s : SharedSpi κ π) : UInt32 → Bytes sectorSize :=
  SpiSdBlockDevice.sectors cardView s.sdDevice

omit [SdCard κ] [LcdPanel π] in
/-- The panel goes on showing what it shows, whatever became of the rest of the bus. -/
theorem mirrors_of_panel {w : LcdDriver κ π} {d : St7735}
    (mirrors : LcdDriver.Mirrors panelView w d) {bus : SharedBus κ π}
    (deselected : bus.sdCs = .high) (idle : bus.lcdCs = .high) (panel : bus.panel = w.bus.panel) :
    LcdDriver.Mirrors panelView { w with bus := bus } d := by
  refine ⟨deselected, idle, ?_, ?_⟩
  · rw [panel]
    exact mirrors.showing
  · rw [panel]
    exact mirrors.above_eq

variable [LawfulPanel π] {prompt : Prop} {s : SharedSpi κ π} {d : St7735}

/-! ### The card under the dashboards -/

section Clocks

variable (conforms : Conforms prompt cardView)
include conforms

/-- The clocks of the other driver leave a card at rest as it was, but for its work. -/
theorem view_clocked {c : κ} (operational : (cardView c).stage = .operational)
    (at_rest : ∃ left, (cardView c).phase = .settle left) (bytes : List UInt8) :
    ∃ left ≤ (cardView c).phase.backlog,
      cardView (pass bytes c) = (cardView c).holding (cardView c).sectors (.settle left) := by
  obtain ⟨left, works⟩ := at_rest
  -- Where no byte is sent the card has not been deselected anew.
  cases bytes with
  | nil =>
    refine ⟨left, ?_, (CardState.inPhase_eq_self works).symm⟩
    rw [works, CardPhase.backlog_settle]
  | cons b rest =>
    obtain ⟨left', hleft, hview⟩ := view_pass conforms c (List.cons_ne_nil b rest)
    refine ⟨left', hleft, hview.trans ?_⟩
    rw [CardState.deselected, operational, CardStage.woken_operational.iterate]
    show _ = ({ cardView c with phase := .settle left' } : CardState)
    rw [← operational]

omit [SdCard κ] [LcdPanel π] [LawfulPanel π] conforms in
theorem sdDevice_serves_of_view {s' : SharedSpi κ π}
    (serves : SpiSdBlockDevice.Serves cardView s.sdDevice)
    (sdCs : s'.display.bus.sdCs = .high) (lcdCs : s'.display.bus.lcdCs = .high)
    (isSdhc : s'.isSdhc = s.isSdhc) {sectors : UInt32 → Bytes sectorSize} {left : ℕ}
    (viewed : cardView s'.display.bus.card =
      (cardView s.display.bus.card).holding sectors (.settle left)) :
    SpiSdBlockDevice.Serves cardView s'.sdDevice := by
  refine ⟨sdCs, lcdCs, ?_, ⟨left, ?_⟩, ?_⟩
  · show (cardView s'.display.bus.card).stage = .operational
    rw [viewed]
    exact serves.operational
  · show (cardView s'.display.bus.card).phase = .settle left
    rw [viewed]
    rfl
  · show s'.isSdhc = true ↔ (cardView s'.display.bus.card).kind = .sdhc
    rw [viewed, isSdhc]
    exact serves.addressed

omit [LawfulPanel π] in
/-- A dashboard leaves the card at rest, with its sectors. -/
theorem sound_next_dashboard (panelConforms : PanelConforms panelView)
    (sound : Sound cardView panelView s d) (args : DashboardArgs) :
    Sound cardView panelView (machine.next s (.dashboard args)) (d.renderDashboard args) ∧
      ∃ left ≤ (cardView s.display.bus.card).phase.backlog,
        cardView (machine.next s (.dashboard args)).display.bus.card =
          (cardView s.display.bus.card).holding (sectors cardView s) (.settle left) := by
  obtain ⟨hmirrors, bytes, panel, dc, hbus⟩ :=
    LcdDriver.agree_renderDashboard panelConforms args s.display d sound.mirrors
  obtain ⟨left, hleft, hview⟩ :=
    view_clocked conforms sound.serves.operational sound.serves.at_rest bytes
  rw [next_dashboard]
  dsimp only at hmirrors hbus
  generalize s.display.renderDashboard args = w at hmirrors hbus ⊢
  have hcard : w.bus.card = pass bytes s.display.bus.card := by rw [hbus]; rfl
  have hview : cardView w.bus.card =
      (cardView s.display.bus.card).holding (sectors cardView s) (.settle left) := by
    rw [hcard]
    exact hview
  exact ⟨⟨sdDevice_serves_of_view sound.serves (congrArg SharedBus.sdCs hbus)
    (congrArg SharedBus.lcdCs hbus) rfl hview, hmirrors⟩, left, hleft, hview⟩

/-- **Step lemma.** A call is one of a store with the card's sectors, and the panel goes
on as the driver on a screen. -/
theorem step_refines (panelConforms : PanelConforms panelView)
    (sound : Sound cardView panelView s d) (call : SpiCall) :
    StoreCall.Run (sectors cardView s) (machine.emit s call)
        (sectors cardView (machine.next s call)) ∧
      Sound cardView panelView (machine.next s call) (d.run call.dashboards) := by
  cases call with
  | sector op =>
    obtain ⟨hcall, hserves⟩ := SpiSdBlockDevice.step_refines conforms sound.serves op
    -- All that a call leaves on the bus is another card, deselected.
    obtain ⟨c, hnext⟩ := SpiSdBlockDevice.next_off conforms sound.serves op
    rw [next_sector, emit_sector]
    generalize SpiSdBlockDevice.machine.next s.sdDevice op = sd at hcall hserves hnext ⊢
    refine ⟨hcall, hserves, ?_⟩
    rw [hnext]
    exact mirrors_of_panel sound.mirrors rfl sound.mirrors.idle rfl
  | dashboard args =>
    -- A dashboard is clocked past the card, which goes on with its work.
    obtain ⟨hsound, left, -, hview⟩ := sound_next_dashboard conforms panelConforms sound args
    have hemit : machine.emit s (.dashboard args) = [] := rfl
    rw [hemit]
    generalize machine.next s (.dashboard args) = s' at hsound hview ⊢
    have hsame : sectors cardView s' = sectors cardView s := by
      show (cardView s'.display.bus.card).sectors = _
      rw [hview]
      rfl
    rw [SpiCall.dashboards, St7735.run, List.foldl_cons, List.foldl_nil]
    exact ⟨hsame, hsound⟩

/-- **Run lemma.** Calls in any order. -/
theorem run_refines (panelConforms : PanelConforms panelView)
    (sound : Sound cardView panelView s d) (calls : List SpiCall) :
    StoreCall.Run (sectors cardView s) (machine.outputs s calls)
        (sectors cardView (machine.final s calls)) ∧
      Sound cardView panelView (machine.final s calls) (d.run (calls.flatMap SpiCall.dashboards)) := by
  induction calls generalizing s d with
  | nil => exact ⟨rfl, sound⟩
  | cons call calls ih =>
    obtain ⟨hcall, hsound⟩ := step_refines conforms panelConforms sound call
    obtain ⟨hrest, hend⟩ := ih hsound
    rw [Machine.outputs_cons, Machine.final_cons, List.flatMap_cons, St7735.run, List.foldl_append]
    exact ⟨StoreCall.run_append.mpr ⟨_, hcall, hrest⟩, hend⟩

/-- **Either driver alone.** However the calls of the two drivers alternate, and whatever the
card refuses: the sectors are those of a store whose calls may fail, and the panel shows
what the dashboards alone leave. -/
theorem drivers_share_bus (panelConforms : PanelConforms panelView)
    (sound : Sound cardView panelView s d) (calls : List SpiCall) :
    StoreCall.Run (sectors cardView s) (machine.outputs s calls)
        (sectors cardView (machine.final s calls)) ∧
      StoreCall.ReadsCandidates (sectors cardView s) (machine.outputs s calls) ∧
      Sound cardView panelView (machine.final s calls)
        (d.run (calls.flatMap SpiCall.dashboards)) := by
  obtain ⟨hrun, hsound⟩ := run_refines conforms panelConforms sound calls
  exact ⟨hrun, hrun.readsCandidates, hsound⟩

end Clocks

/-- A card that is up, and a panel that is set up and has shown nothing yet. -/
def onOneBus : SharedSpi PromptCard PlainPanel where
  display :=
    .new
      { card := ⟨⟨.sdscV2, 16384, .operational, .ready, fun _ => .zero sectorSize⟩⟩
        panel := ⟨⟨0x00, [], .showing, ⟨0, 0, 0, 0⟩, (0, 0), fun _ => 0xFFFF⟩⟩
        sdCs := .high
        lcdCs := .high
        lcdDc := .high
        khz := 16000 }
  isSdhc := false

/-- A sector is written, a dashboard is drawn, and the sector is read. -/
def oneOfEach : List SpiCall :=
  [.sector (.write 12 SpiSdBlockDevice.countingBlock), .dashboard St7735.bootArgs,
    .sector (.read 12)]

theorem drivers_share_bus_onOneBus :
    StoreCall.Run (sectors PromptCard.state onOneBus) (machine.outputs onOneBus oneOfEach)
        (sectors PromptCard.state (machine.final onOneBus oneOfEach)) ∧
      StoreCall.ReadsCandidates (sectors PromptCard.state onOneBus)
        (machine.outputs onOneBus oneOfEach) ∧
      Sound PromptCard.state PlainPanel.state (machine.final onOneBus oneOfEach)
        ((onOneBus.display.above fun _ => 0xFFFF).run (oneOfEach.flatMap SpiCall.dashboards)) :=
  drivers_share_bus (PromptCard.conforms : Conforms True PromptCard.state) PlainPanel.conforms
    ⟨⟨rfl, rfl, rfl, ⟨0, rfl⟩, by decide⟩, ⟨rfl, rfl, rfl, rfl⟩⟩ oneOfEach

/-! ### From power on -/

/-- A driver of a card that waits for commands, and one of a panel. -/
structure Prepared (cardView : κ → CardState) (panelView : π → PanelState) (card : CardState)
    (s : SharedSpi κ π) (cells : UInt32 → Bytes sectorSize) : Prop where
  card : SpiSdBlockDevice.Mirrors cardView card s.sdDevice cells
  panel : ∃ d, LcdDriver.Mirrors panelView s.display d

section PowerOn

variable (conforms : Conforms True cardView) (panelConforms : PanelConforms panelView)
include conforms panelConforms

/-- **Step lemma.** A call on a sector in range is one of an array, and a dashboard is none. -/
theorem step_prepared {card : CardState} {cells : UInt32 → Bytes sectorSize} {call : SpiCall}
    (prepared : Prepared cardView panelView card s cells)
    (range : ∀ op ∈ call.sectorOps, SpiSdBlockDevice.InRange card op.lba) :
    machine.emit s call = SpiSdBlockDevice.arrayMachine.outputs cells call.sectorOps ∧
      Prepared cardView panelView card (machine.next s call)
        (SpiSdBlockDevice.arrayMachine.final cells call.sectorOps) := by
  obtain ⟨d, hmirrors⟩ := prepared.panel
  have hserves := prepared.card.prepared.serves
  cases call with
  | sector op =>
    obtain ⟨hemit, hnext⟩ :=
      SpiSdBlockDevice.step_mirrors conforms prepared.card (range op (List.mem_singleton_self op))
    obtain ⟨c, hoff⟩ := SpiSdBlockDevice.next_off conforms hserves op
    rw [next_sector, emit_sector, SpiCall.sectorOps, Machine.outputs_cons, Machine.outputs_nil,
      List.append_nil, Machine.final_cons, Machine.final_nil]
    generalize SpiSdBlockDevice.machine.next s.sdDevice op = sd at hnext hoff ⊢
    refine ⟨hemit, hnext, d, ?_⟩
    rw [hoff]
    exact mirrors_of_panel hmirrors rfl hmirrors.idle rfl
  | dashboard args =>
    obtain ⟨hsound, left, hleft, hview⟩ :=
      sound_next_dashboard conforms panelConforms ⟨hserves, hmirrors⟩ args
    have hready : (cardView s.display.bus.card).phase = .ready := prepared.card.prepared.ready
    have hsectors : sectors cardView s = cells := prepared.card.sectors
    -- A card that is ready has no work left.
    rw [hready] at hleft
    obtain rfl := Nat.le_zero.mp hleft
    have hemit : machine.emit s (.dashboard args) = [] := rfl
    rw [hemit, SpiCall.sectorOps, Machine.outputs_nil, Machine.final_nil]
    generalize machine.next s (.dashboard args) = s' at hsound hview ⊢
    refine ⟨rfl, ⟨⟨hsound.serves, ?_⟩, ?_, fun lba hrange => ?_⟩, _, hsound.mirrors⟩
    · show (cardView s'.display.bus.card).phase = .ready
      rw [hview]
      rfl
    · show (cardView s'.display.bus.card).sectors = cells
      rw [hview, ← hsectors]
      rfl
    · show SpiSdBlockDevice.InRange (cardView s'.display.bus.card) lba
      rw [hview]
      exact prepared.card.range lba hrange

omit [LcdPanel π] [LawfulPanel π] panelConforms in
/-- The clocks of the display leave a card without power as it was, but for their count. -/
theorem view_clocked_unpowered {c : κ} {clocks ignored : ℕ}
    (stage : (cardView c).stage = .unpowered clocks ignored) (ready : (cardView c).phase = .ready)
    (bytes : List UInt8) :
    ∃ clocks, cardView (pass bytes c) = (cardView c).inStage (.unpowered clocks ignored) := by
  cases bytes with
  | nil =>
    refine ⟨clocks, ?_⟩
    rw [CardState.inStage, ← stage, ← ready]
    rfl
  | cons b rest =>
    obtain ⟨left, hleft, hview⟩ := view_pass conforms c (List.cons_ne_nil b rest)
    rw [ready] at hleft
    obtain rfl := Nat.le_zero.mp hleft
    refine ⟨clocks + (b :: rest).length, hview.trans ?_⟩
    rw [CardState.deselected, stage, CardStage.clocked_unpowered]
    rfl

/-- **The start.** -/
theorem start_spec {bus : SharedBus κ π} (powered : SpiSdBlockDevice.JustPowered cardView bus)
    (deselected : bus.sdCs = .high) (d : St7735) :
    ∃ s, start bus = .ok s ∧ s.display.bus.khz = 16000 ∧
      Prepared cardView panelView (cardView bus.card) s (cardView bus.card).sectors ∧
      LcdDriver.Mirrors panelView s.display d.init := by
  obtain ⟨clocks, ignored, heard, stage⟩ := powered.stage
  obtain ⟨hmirrors, bytes, panel, dc, hbus⟩ :=
    LcdDriver.mirrors_init panelConforms (LcdDriver.new bus) deselected powered.deaf d
  generalize hdisplay : (LcdDriver.new bus).init = display at hmirrors hbus
  -- The display's bytes only count as clocks for a card without power.
  obtain ⟨clocks', hview⟩ := view_clocked_unpowered conforms stage powered.ready bytes
  have hcard : display.bus.card = pass bytes bus.card := by rw [hbus]; rfl
  rw [← hcard] at hview
  have hpowered : SpiSdBlockDevice.JustPowered cardView display.bus := by
    refine ⟨hmirrors.idle, ⟨clocks', ignored, heard, ?_⟩, ?_⟩
    · rw [hview]
      rfl
    · rw [hview]
      rfl
  obtain ⟨sd, hnew, hkhz, hprepared, hview'⟩ :=
    SpiSdBlockDevice.new_prepared conforms hpowered
  obtain ⟨c', heq, -⟩ := SpiSdBlockDevice.new_spec conforms hpowered.deaf
    (show (cardView display.bus.card).stage = .unpowered clocks' ignored by rw [hview]; rfl)
    hpowered.ready heard
  have hsd := Except.ok.inj (hnew.symm.trans heq)
  have hwhole : (cardView sd.bus.card) = (cardView bus.card).inStage .operational := by
    rw [hview', hview]
    rfl
  refine ⟨⟨{ display with bus := sd.bus }, sd.isSdhc⟩, ?_, hkhz, ⟨⟨hprepared, ?_, fun lba hrange => ?_⟩,
    d.init, ?_⟩, ?_⟩
  · rw [start, hdisplay, hnew]
  · show (cardView sd.bus.card).sectors = _
    rw [hwhole]
    rfl
  · show SpiSdBlockDevice.InRange (cardView sd.bus.card) lba
    rw [hwhole]
    exact hrange
  all_goals
    rw [hsd]
    exact mirrors_of_panel hmirrors rfl hmirrors.idle rfl

/-- **Both devices.** From power on, with a prompt card of any kind: the card comes up
behind the display, and all calls on its sectors answer as an array of what it held would,
however many dashboards are drawn in between. The panel stays set up, and shows the last
of these, where their phases are the main loop's. -/
theorem start_serves_both {bus : SharedBus κ π}
    (powered : SpiSdBlockDevice.JustPowered cardView bus) (deselected : bus.sdCs = .high) :
    ∃ s, start bus = .ok s ∧ s.display.bus.khz = 16000 ∧
      ∀ calls : List SpiCall,
        (∀ call ∈ calls, ∀ op ∈ call.sectorOps,
          SpiSdBlockDevice.InRange (cardView bus.card) op.lba) →
        machine.outputs s calls = SpiSdBlockDevice.arrayMachine.outputs (cardView bus.card).sectors
          (calls.flatMap SpiCall.sectorOps) ∧
        (panelView (machine.final s calls).display.bus.panel).modes = .showing ∧
        ∀ shown last, calls.flatMap SpiCall.dashboards = shown ++ [last] →
          (∀ args ∈ shown ++ [last], args.syncPhase ≠ 0xFF) →
          ∀ d : St7735, PanelWire.visible (panelView (machine.final s calls).display.bus.panel) =
            (d.init.renderDashboard last).screen := by
  obtain ⟨s, hstart, hkhz, hprepared, hshown⟩ :=
    start_spec conforms panelConforms powered deselected (St7735.new fun _ => 0)
  refine ⟨s, hstart, hkhz, fun calls range =>
    ⟨?_, ?_, fun shown last hdashboards phases d => ?_⟩⟩
  · have hstep : ∀ (s : SharedSpi κ π) cells call,
        Prepared cardView panelView (cardView bus.card) s cells →
        (∀ op ∈ call.sectorOps, SpiSdBlockDevice.InRange (cardView bus.card) op.lba) →
        machine.emit s call = SpiSdBlockDevice.arrayMachine.outputs cells call.sectorOps ∧
          Prepared cardView panelView (cardView bus.card) (machine.next s call)
            (SpiSdBlockDevice.arrayMachine.final cells call.sectorOps) :=
      fun _ _ _ prepared range => step_prepared conforms panelConforms prepared range
    exact (Machine.simulation_flatMap hstep hprepared range).1
  · obtain ⟨-, hsound⟩ := run_refines conforms panelConforms
      ⟨hprepared.card.prepared.serves, hshown⟩ calls
    exact hsound.mirrors.showing
  -- The start is the same, whatever screen the driver is compared with.
  · obtain ⟨s', hstart', -, hprepared', hmirrors⟩ :=
      start_spec conforms panelConforms powered deselected d
    obtain rfl := Except.ok.inj (hstart'.symm.trans hstart)
    obtain ⟨-, hsound⟩ := run_refines conforms panelConforms
      ⟨hprepared'.card.prepared.serves, hmirrors⟩ calls
    rw [hdashboards] at hsound
    rw [← St7735.screen_run_concat (St7735.coherent_init d) phases]
    exact congrArg St7735.screen hsound.mirrors.above_eq

end PowerOn

/-- The bus at power on. -/
def atPowerOn : SharedBus PromptCard PlainPanel where
  card := PromptCard.powered .sdscV2 16384 fun _ => .zero sectorSize
  panel := ⟨⟨0x00, [], PlainPanel.resetModes, ⟨0, 0, 0, 0⟩, (0, 0), fun _ => 0xFFFF⟩⟩
  sdCs := .high
  lcdCs := .high
  lcdDc := .high
  khz := 16000

theorem start_serves_both_atPowerOn :
    ∃ s, start atPowerOn = .ok s ∧ s.display.bus.khz = 16000 ∧
      machine.outputs s oneOfEach = SpiSdBlockDevice.arrayMachine.outputs
        atPowerOn.card.state.sectors (oneOfEach.flatMap SpiCall.sectorOps) ∧
      (machine.final s oneOfEach).display.bus.panel.state.modes = .showing ∧
      PanelWire.visible (machine.final s oneOfEach).display.bus.panel.state =
        ((St7735.new fun _ => 0).init.renderDashboard St7735.bootArgs).screen := by
  have hpowered : SpiSdBlockDevice.JustPowered PromptCard.state atPowerOn :=
    ⟨rfl, ⟨0, 1, by decide, rfl⟩, rfl⟩
  obtain ⟨s, hstart, hkhz, hcalls⟩ :=
    start_serves_both PromptCard.conforms PlainPanel.conforms hpowered rfl
  have hrange : ∀ call ∈ oneOfEach, ∀ op ∈ call.sectorOps,
      SpiSdBlockDevice.InRange atPowerOn.card.state op.lba := by
    have htwelve : SpiSdBlockDevice.InRange atPowerOn.card.state 12 := ⟨by decide, fun _ => by decide⟩
    simp [oneOfEach, SpiCall.sectorOps, SpiSdBlockDevice.SectorOp.lba, htwelve]
  have hphase : ∀ args ∈ [] ++ [St7735.bootArgs], args.syncPhase ≠ 0xFF := by
    simp [St7735.bootArgs]
  obtain ⟨houtputs, hmodes, hshown⟩ := hcalls oneOfEach hrange
  exact ⟨s, hstart, hkhz, houtputs, hmodes, hshown [] St7735.bootArgs rfl hphase (St7735.new fun _ => 0)⟩

end SharedSpi

end Gibberish.Firmware
