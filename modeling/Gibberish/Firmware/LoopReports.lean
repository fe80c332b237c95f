/-
# What the loop reports

The light, the heartbeat and the dashboard are drawn from counters. These follow from what
the loop took in and what it sent, so that a report tells what happened before: how many
packets were heard and broadcast, for how long the dongle has been up, and whether the
button, telemetry or a packet came lately.
-/

import Gibberish.Firmware.LoopClocks
import Gibberish.Foundation.Countdown
import Gibberish.Storage.Recovery

set_option autoImplicit false

namespace Gibberish.Firmware

open Gibberish.Foundation Gibberish.Protocol Gibberish.Storage

namespace DongleOutput

def isTelemetryRx : DongleOutput → Bool
  | telemetryRx _ => true
  | _ => false

def isRadioRx : DongleOutput → Bool
  | radioRx _ => true
  | _ => false

/-- A packet was taken in from the radio. -/
def isRx (output : DongleOutput) : Bool := output.isTelemetryRx || output.isRadioRx

def isTx : DongleOutput → Bool
  | broadcast _ _ => true
  | _ => false

/-- A packet of a clipboard came from the host. -/
def isClipboardTx : DongleOutput → Bool
  | usbRx packet => packet.header.flags &&& flagClipboard ≠ 0
  | _ => false

end DongleOutput

/-- A packet of a clipboard came from the radio; it may have been seen before. -/
def DongleInput.isClipboardRx : DongleInput → Bool
  | receive rx _ =>
    isValidNetworkTag rx.packet.header.networkTag && rx.packet.header.flags &&& flagClipboard ≠ 0
  | _ => false

/-- What the loop shows or prints of itself. -/
def LoopOutput.isReport : LoopOutput → Bool
  | led _ => true
  | heartbeat _ _ _ _ _ => true
  | dashboard _ => true
  | _ => false

namespace MainLoop

open DongleInput DongleOutput

variable {D : Type}

/-! ### The gauges

What the reports are drawn from, apart from the ring, the storage and the peers. -/

structure Gauges where
  rxPacketCount : UInt32
  txPacketCount : UInt32
  uptimeSecs : UInt32
  bleGate : BleSecurityGate
  btnFlashTicks : UInt32
  telemFlashTicks : UInt32
  rxFlashTicks : UInt32
  syncAnimTicks : UInt8

def gauges (s : MainLoop D) : Gauges where
  rxPacketCount := s.telemetry.rxPacketCount
  txPacketCount := s.telemetry.txPacketCount
  uptimeSecs := s.telemetry.uptimeSecs
  bleGate := s.bleGate
  btnFlashTicks := s.btnFlashTicks
  telemFlashTicks := s.telemFlashTicks
  rxFlashTicks := s.rxFlashTicks
  syncAnimTicks := s.syncAnimTicks

/-- A packet of a clipboard passes. -/
def carriesClipboard (inputs : List DongleInput) (outputs : List DongleOutput) : Bool :=
  inputs.any isClipboardRx || outputs.any isClipboardTx

theorem carriesClipboard_append (inputs inputs' : List DongleInput)
    (outputs outputs' : List DongleOutput) :
    carriesClipboard (inputs ++ inputs') (outputs ++ outputs') =
      (carriesClipboard inputs outputs || carriesClipboard inputs' outputs') := by
  rw [carriesClipboard, List.any_append, List.any_append, carriesClipboard, carriesClipboard]
  ac_rfl

/-- The gauges after some traffic. -/
def Gauges.after (g : Gauges) (inputs : List DongleInput) (outputs : List DongleOutput) : Gauges :=
  { g with
    rxPacketCount := saturatingSucc32^[outputs.countP isRx] g.rxPacketCount
    txPacketCount := saturatingSucc32^[outputs.countP isTx] g.txPacketCount
    telemFlashTicks := if outputs.any isTelemetryRx then 20 else g.telemFlashTicks
    rxFlashTicks := if outputs.any isRadioRx then 20 else g.rxFlashTicks
    syncAnimTicks := if carriesClipboard inputs outputs then 8 else g.syncAnimTicks }

theorem Gauges.after_append (g : Gauges) (inputs inputs' : List DongleInput)
    (outputs outputs' : List DongleOutput) :
    g.after (inputs ++ inputs') (outputs ++ outputs') =
      (g.after inputs outputs).after inputs' outputs' := by
  -- A flash that is set off twice is set off once.
  have hset : ∀ {α : Type} (b b' : Bool) (x y : α),
      (if b || b' then x else y) = if b' then x else if b then x else y := by
    intro α b b' x y
    cases b <;> cases b' <;> rfl
  simp only [Gauges.after, carriesClipboard_append, List.countP_append, List.any_append, hset,
    Nat.add_comm (outputs.countP _), Function.iterate_add_apply]

/-- A part of a turn only handles traffic, and the gauges follow. -/
structure Shows (s : MainLoop D) (inputs : List DongleInput) (r : MainLoop D × List LoopOutput) :
    Prop where
  gauges : r.1.gauges = s.gauges.after inputs (r.2.filterMap LoopOutput.traffic?)
  plain : ∀ output ∈ r.2, output.traffic?.isSome

section Shows

variable {s : MainLoop D} {inputs inputs' : List DongleInput} {r r' : MainLoop D × List LoopOutput}

theorem Shows.comp (h : Shows s inputs r) (h' : Shows r.1 inputs' r') :
    Shows s (inputs ++ inputs') (r'.1, r.2 ++ r'.2) := by
  constructor
  · rw [h'.gauges, h.gauges, List.filterMap_append, Gauges.after_append]
  · intro output hmem
    rcases List.mem_append.mp hmem with hmem | hmem
    · exact h.plain output hmem
    · exact h'.plain output hmem

/-- A part of a turn that prints nothing. -/
theorem shows_quiet (gauges : r.1.gauges = s.gauges.after inputs []) (quiet : r.2 = []) :
    Shows s inputs r := by
  constructor
  · rw [gauges, quiet, List.filterMap_nil]
  · rw [quiet]
    exact fun _ hmem => absurd hmem List.not_mem_nil

theorem shows_aside (gauges : r.1.gauges = s.gauges) (quiet : r.2 = []) : Shows s [] r :=
  shows_quiet gauges quiet

end Shows

theorem shows_serviceBackoff (s : MainLoop D) (txOk : Bool) :
    Shows s [.serviceBackoff 5 txOk] (s.serviceBackoff txOk) := by
  rw [serviceBackoff]
  generalize s.backoff.tick 5 = ticked
  obtain ⟨_ | _, backoff⟩ := ticked
  · exact shows_quiet rfl rfl
  · dsimp only
    generalize backoff.takePending = taken
    obtain ⟨_ | packet, backoff⟩ := taken
    · exact shows_quiet rfl rfl
    · cases txOk with
      | true => exact ⟨rfl, by simp [LoopOutput.traffic?]⟩
      | false => exact ⟨rfl, by simp [LoopOutput.traffic?]⟩

section Telemetry

variable (tier : TelemetryTier) (postcard : Postcard)

theorem shows_emitTelemetry (s : MainLoop D) (around : Surroundings) :
    Shows s (telemetryInputs tier postcard s around) (emitTelemetry tier postcard s around, []) := by
  -- Telemetry is no clipboard's, and it has no line.
  have hquiet : (telemetryInputs tier postcard s around).any isClipboardRx = false := by
    rw [telemetryInputs]
    split
    · rfl
    · rfl
  have hafter : s.gauges.after (telemetryInputs tier postcard s around) [] = s.gauges := by
    rw [Gauges.after, carriesClipboard, hquiet]
    rfl
  refine shows_quiet ?_ rfl
  rw [hafter, emitTelemetry]
  dsimp only
  split
  · cases tier with
    | debug => rfl
    | prod => rfl
  · rfl

end Telemetry

/-- A packet from the radio: it starts the animation when its tag is valid, and counts when it
was not seen before or is telemetry. -/
theorem shows_receive (s : MainLoop D) (rx : ReceivedMeshPacket) (random : UInt32) :
    Shows s [.receive rx random] (s.receive rx random) := by
  -- A reception prints no packet of the host, so its own flags decide.
  have hclipboard : ∀ outputs : List DongleOutput, outputs.any isClipboardTx = false →
      carriesClipboard [.receive rx random] outputs =
        (isValidNetworkTag rx.packet.header.networkTag &&
          rx.packet.header.flags &&& flagClipboard ≠ 0) := by
    intro outputs hnone
    rw [carriesClipboard, hnone, Bool.or_false]
    exact Bool.or_false _
  rw [receive]
  dsimp only
  split
  · next hforeign =>
    refine shows_quiet ?_ rfl
    have htag : isValidNetworkTag rx.packet.header.networkTag = false := by simpa using hforeign
    rw [Gauges.after, hclipboard [] rfl, htag]
    rfl
  · next hvalid =>
    have htag : isValidNetworkTag rx.packet.header.networkTag = true := by simpa using hvalid
    -- An admitted packet starts the animation before it is looked up in the filter.
    have hanim : ∀ (ticks : UInt8) (outputs : List DongleOutput),
        outputs.any isClipboardTx = false →
          animTicksAfter ticks rx.packet =
            if carriesClipboard [.receive rx random] outputs then 8 else ticks := by
      intro ticks outputs hnone
      rw [hclipboard outputs hnone, htag, Bool.true_and, animTicksAfter]
      simp only [decide_eq_true_eq]
    split
    · refine ⟨?_, by simp [LoopOutput.traffic?]⟩
      show Gauges.mk _ _ _ _ _ _ _ (animTicksAfter _ _) = _
      rw [hanim s.syncAnimTicks [.telemetryRx rx] rfl]
      rfl
    · split
      · refine shows_quiet ?_ rfl
        show Gauges.mk _ _ _ _ _ _ _ (animTicksAfter _ _) = _
        rw [hanim s.syncAnimTicks [] rfl]
        rfl
      · refine ⟨?_, by simp [LoopOutput.traffic?]⟩
        show Gauges.mk _ _ _ _ _ _ _ (animTicksAfter _ _) = _
        rw [hanim s.syncAnimTicks [.radioRx rx, .pktLine rx.srcNodeId rx.packet] rfl]
        rfl

theorem shows_pollFrames (s : MainLoop D) (frames : List (List UInt8 × UInt32)) :
    Shows s (s.frameInputs frames) (s.pollFrames frames) := by
  induction frames generalizing s with
  | nil => exact shows_aside rfl rfl
  | cons frame rest ih =>
    obtain ⟨data, random⟩ := frame
    rw [frameInputs, List.filterMap_cons, pollFrames]
    dsimp only
    cases s.radio.receiveRaw data with
    | none => exact ih s
    | some rx =>
      have hrest := ih (s.receive rx random).1
      rw [frameInputs, radio_receive] at hrest
      exact (shows_receive s rx random).comp hrest

theorem shows_usbByte (s : MainLoop D) (b : UInt8) : Shows s [.usbByte b] (s.usbByte b) := by
  rw [usbByte]
  generalize s.usb.readByte b = read
  obtain ⟨usb, pktBuf⟩ := read
  dsimp only
  cases pktBuf.bind Dongle.packetOf with
  | none => exact shows_quiet rfl rfl
  | some packet =>
    refine ⟨?_, by simp [LoopOutput.traffic?]⟩
    have hanim : animTicksAfter s.syncAnimTicks packet =
        if carriesClipboard [.usbByte b] [.usbRx packet] then 8 else s.syncAnimTicks := by
      -- From the host, the line says whether it was a clipboard's.
      have hclipboard : carriesClipboard [.usbByte b] [.usbRx packet] =
          decide (packet.header.flags &&& flagClipboard ≠ 0) := Bool.or_false _
      rw [hclipboard, animTicksAfter]
      simp only [decide_eq_true_eq]
    show Gauges.mk _ _ _ _ _ _ _ (animTicksAfter _ _) = _
    rw [hanim]
    rfl

theorem shows_drainUsb (s : MainLoop D) (bytes : List UInt8) :
    Shows s (bytes.map .usbByte) (s.drainUsb bytes) := by
  induction bytes generalizing s with
  | nil => exact shows_aside rfl rfl
  | cons b rest ih => exact (shows_usbByte s b).comp (ih (s.usbByte b).1)

variable (crc32 : Checksum) (tier : TelemetryTier) (postcard : Postcard)

theorem shows_slotWork (s : MainLoop D) (around : Surroundings) (slot : RadioSlot) :
    Shows s (slotInputs tier postcard s around slot) (slotWork tier postcard s around slot) := by
  cases slot with
  | ieee802154Mesh =>
    exact (shows_serviceBackoff s around.txOk).comp
      ((shows_emitTelemetry tier postcard _ around).comp (shows_pollFrames _ around.frames))
  | guardBand => exact shows_aside rfl rfl
  | bleCompanion => exact shows_aside rfl rfl

/-! ### A turn -/

/-- The gauges once the button was looked at and the lights ran down. -/
def Gauges.tick (g : Gauges) (pressed : Bool) : Gauges :=
  { g with
    bleGate := (if pressed then g.bleGate.onButtonPress.2 else g.bleGate).tick 5
    btnFlashTicks := tickDown (if pressed then 40 else g.btnFlashTicks)
    telemFlashTicks := tickDown g.telemFlashTicks
    rxFlashTicks := tickDown g.rxFlashTicks }

theorem gauges_beforeSlot (s : MainLoop D) (btnIsPressed : Bool) :
    (s.beforeSlot btnIsPressed).1.gauges = s.gauges.tick (btnIsPressed && !s.btnWasPressed) := by
  have hgate : s.gauges.bleGate = s.bleGate := rfl
  rw [beforeSlot, checkButton, Gauges.tick, hgate]
  dsimp only
  cases btnIsPressed && !s.btnWasPressed with
  | false => rfl
  | true =>
    rw [if_pos rfl, pressButton]
    dsimp only
    generalize s.bleGate.onButtonPress = answer
    obtain ⟨_ | _, gate⟩ := answer
    · rfl
    · rfl

/-- A press is no traffic. -/
theorem traffic_beforeSlot (s : MainLoop D) (btnIsPressed : Bool) :
    (s.beforeSlot btnIsPressed).2.filterMap LoopOutput.traffic? = [] := by
  rw [beforeSlot, checkButton]
  dsimp only
  split
  · rw [pressButton]
    dsimp only
    split
    · rfl
    · rfl
  · rfl

/-- With nothing to pair, a press schedules a beacon and nothing else. -/
theorem outputs_beforeSlot {s : MainLoop D} (idle : s.bleGate = .new) (btnIsPressed : Bool) :
    ∀ output ∈ (s.beforeSlot btnIsPressed).2, ∃ msgId, output = .beaconScheduled msgId := by
  have hpress : ∀ (tick : UInt32) (arbiter : TdmArbiter),
      { s with loopTick := tick, tdmArbiter := arbiter }.pressButton.2 =
        [.beaconScheduled (s.localNodeId + (s.beaconSeq + 1))] := by
    intro tick arbiter
    rw [pressButton, show BleSecurityGate.onButtonPress _ = (false, BleSecurityGate.new) by
      rw [idle]; rfl]
    rfl
  rw [beforeSlot, checkButton]
  dsimp only
  split
  · rw [hpress]
    intro output hmem
    exact ⟨_, List.mem_singleton.mp hmem⟩
  · exact fun _ hmem => absurd hmem List.not_mem_nil

theorem Gauges.after_quiet (g : Gauges) {inputs : List DongleInput}
    (quiet : inputs.any isClipboardRx = false) : g.after inputs [] = g := by
  rw [Gauges.after, carriesClipboard, quiet]
  rfl

/-- **The gauges after the work of a turn.** -/
theorem gauges_work (s : MainLoop D) (around : Surroundings) :
    (work tier postcard s around).1.gauges =
      (s.gauges.tick (around.btnIsPressed && !s.btnWasPressed)).after
        (turnInputs tier postcard s around)
        ((work tier postcard s around).2.filterMap LoopOutput.traffic?) := by
  have hbefore := gauges_beforeSlot s around.btnIsPressed
  have hpressed := traffic_beforeSlot s around.btnIsPressed
  -- The press comes before all traffic, and the gauges follow the rest.
  have hbutton : (s.buttonInputs around.btnIsPressed).any isClipboardRx = false := by
    rw [buttonInputs]
    split
    · rfl
    · rfl
  rw [work, turnInputs]
  dsimp only
  have hworked := ((shows_slotWork tier postcard (s.beforeSlot around.btnIsPressed).1 around
    (s.tdmArbiter.advance 5).1).comp (shows_drainUsb _ around.usbBytes)).gauges
  rw [hbefore] at hworked
  rw [List.append_assoc, List.append_assoc, List.filterMap_append, hpressed, Gauges.after_append,
    Gauges.after_quiet _ hbutton]
  exact hworked

/-- With nothing to pair, the work of a turn is traffic and beacons. -/
theorem outputs_work {s : MainLoop D} (idle : s.bleGate = .new) (around : Surroundings) :
    ∀ output ∈ (work tier postcard s around).2,
      output.traffic?.isSome ∨ ∃ msgId, output = .beaconScheduled msgId := by
  rw [work]
  dsimp only
  intro output hmem
  rcases List.mem_append.mp hmem with hmem | hmem
  · rcases List.mem_append.mp hmem with hmem | hmem
    · exact Or.inr (outputs_beforeSlot idle _ output hmem)
    · exact Or.inl ((shows_slotWork tier postcard _ around _).plain output hmem)
  · exact Or.inl ((shows_drainUsb _ around.usbBytes).plain output hmem)

/-! ### The reports of a turn -/

/-- The light that the gauges give, with nothing to pair. -/
def Gauges.light (g : Gauges) : LedPixel :=
  if g.btnFlashTicks > 0 then Apa102.green
  else if g.telemFlashTicks > 0 then Apa102.magenta
  else if g.rxFlashTicks > 0 then Apa102.cyan
  else Apa102.idleBlue

/-- The gauges once they were reported. -/
def Gauges.report (g : Gauges) (loopTick : UInt32) : Gauges :=
  { g with
    uptimeSecs := if loopTick % 200 = 0 then saturatingSucc32 g.uptimeSecs else g.uptimeSecs
    syncAnimTicks :=
      if loopTick % 50 = 0 ∧ g.syncAnimTicks > 0 then g.syncAnimTicks - 1 else g.syncAnimTicks }

theorem showLed_idle {s : MainLoop D} (idle : s.bleGate = .new) :
    s.showLed = (s, [.led s.gauges.light]) := by
  have hbtn : s.gauges.btnFlashTicks = s.btnFlashTicks := rfl
  have htelem : s.gauges.telemFlashTicks = s.telemFlashTicks := rfl
  have hrx : s.gauges.rxFlashTicks = s.rxFlashTicks := rfl
  have hstate : s.bleGate.state = .idle := by rw [idle]; rfl
  rw [showLed, Gauges.light, hbtn, htelem, hrx, hstate]
  split
  · rfl
  · split
    · rfl
    · split
      · rfl
      · rfl

/-- What is printed once a second, if anything. -/
def heartbeats (s : MainLoop D) : List LoopOutput :=
  if s.loopTick % 200 = 0 ∧ saturatingSucc32 s.telemetry.uptimeSecs % 2 = 0 then
    [.heartbeat s.localNodeId (saturatingSucc32 s.telemetry.uptimeSecs) s.storage.mode
      s.sramRing.len s.sramRing.droppedCount]
  else []

/-- What is drawn four times a second, if anything. -/
def dashboards (s : MainLoop D) : List LoopOutput :=
  if s.loopTick % 50 = 0 then [.dashboard s.dashboardArgs] else []

/-- The counters once the second was counted. -/
def secondCounted (s : MainLoop D) : MainLoop D :=
  { s with
    telemetry :=
      { s.telemetry with
        uptimeSecs :=
          if s.loopTick % 200 = 0 then saturatingSucc32 s.telemetry.uptimeSecs
          else s.telemetry.uptimeSecs } }

theorem countUptime_eq (s : MainLoop D) : s.countUptime = (s.secondCounted, s.heartbeats) := by
  rw [countUptime, secondCounted, heartbeats]
  by_cases hsecond : s.loopTick % 200 = 0
  · simp only [hsecond, if_true, true_and]
  · simp only [hsecond, if_false, false_and]

theorem gauges_showDashboard (s : MainLoop D) :
    s.showDashboard.1.gauges =
      { s.gauges with
        syncAnimTicks :=
          if s.loopTick % 50 = 0 ∧ s.syncAnimTicks > 0 then s.syncAnimTicks - 1
          else s.syncAnimTicks } := by
  rw [showDashboard]
  by_cases hquarter : s.loopTick % 50 = 0
  · simp only [hquarter, if_true, true_and]
    rfl
  · simp only [hquarter, if_false, false_and]
    rfl

theorem outputs_showDashboard (s : MainLoop D) : s.showDashboard.2 = s.dashboards := by
  rw [showDashboard, dashboards]
  split
  · rfl
  · rfl

/-- **The reports of a turn**, with nothing to pair. -/
theorem report_idle {s : MainLoop D} (idle : s.bleGate = .new) :
    s.report.1.gauges = s.gauges.report s.loopTick ∧
      s.report.2 = .led s.gauges.light :: (s.heartbeats ++ s.dashboards) := by
  rw [report, showLed_idle idle]
  dsimp only
  rw [countUptime_eq]
  dsimp only
  rw [gauges_showDashboard, outputs_showDashboard]
  exact ⟨rfl, rfl⟩

theorem isReport_report {s : MainLoop D} (idle : s.bleGate = .new) :
    ∀ output ∈ s.report.2, output.isReport = true := by
  rw [(report_idle idle).2, heartbeats, dashboards]
  intro output hmem
  simp only [List.mem_cons, List.mem_append] at hmem
  rcases hmem with rfl | hmem | hmem
  · rfl
  · split at hmem
    · obtain rfl := List.mem_singleton.mp hmem
      rfl
    · cases hmem
  · split at hmem
    · obtain rfl := List.mem_singleton.mp hmem
      rfl
    · cases hmem

/-- What a report does not touch. -/
theorem report_keeps {s : MainLoop D} (idle : s.bleGate = .new) :
    s.report.1.storage = s.storage ∧ s.report.1.sramRing = s.sramRing ∧
      s.report.1.peerTable = s.peerTable ∧ s.report.1.radio = s.radio := by
  rw [report, showLed_idle idle]
  dsimp only
  rw [countUptime_eq]
  dsimp only
  rw [showDashboard]
  split
  · exact ⟨rfl, rfl, rfl, rfl⟩
  · exact ⟨rfl, rfl, rfl, rfl⟩

/-- Nothing to pair stays so: there is no request that a press could grant. -/
theorem bleGate_work {s : MainLoop D} (idle : s.bleGate = .new) (around : Surroundings) :
    (work tier postcard s around).1.bleGate = .new := by
  have hgate := congrArg Gauges.bleGate (gauges_work tier postcard s around)
  have hticked : ∀ pressed, (s.gauges.tick pressed).bleGate = .new := by
    intro pressed
    show (if pressed then s.bleGate.onButtonPress.2 else s.bleGate).tick 5 = .new
    rw [idle]
    cases pressed <;> rfl
  exact hgate.trans (hticked _)

theorem loopTick_work (s : MainLoop D) (around : Surroundings) :
    (work tier postcard s around).1.loopTick = s.loopTick + 1 := by
  have hclocks := clocks_work tier postcard s around
  obtain ⟨-, -, htick⟩ := Clocks.begin_of_turn tier s.clocks around
  exact (congrArg Clocks.loopTick hclocks).trans htick

/-- The dashboard of a turn, as the loop is left. -/
def Gauges.dashboard (g : Gauges) (s : MainLoop D) (phase : UInt8) : DashboardArgs where
  localNodeId := s.localNodeId
  channel := 15
  freqStr := "2.425 GHz".toList
  storageMode := s.storage.mode
  rxCount := g.rxPacketCount
  txCount := g.txPacketCount
  sramUsed := s.sramRing.len
  dropped := s.sramRing.droppedCount
  peer1 := s.peerTable.primaryPeer
  peer2 := s.peerTable.secondaryPeer
  blePin := none
  btnActive := g.btnFlashTicks > 0
  syncPhase := phase

theorem dashboardArgs_idle {s s' : MainLoop D} (idle : s.bleGate = .new)
    (storage : s'.storage = s.storage) (ring : s'.sramRing = s.sramRing)
    (peers : s'.peerTable = s.peerTable) (radio : s'.radio = s.radio) :
    s.dashboardArgs = s.gauges.dashboard s' (mainSyncPhase s.syncAnimTicks) := by
  have hpin : s.blePin = none := by
    rw [blePin, idle]
    rfl
  rw [dashboardArgs, Gauges.dashboard, hpin, storage, ring, peers, localNodeId, localNodeId, radio]
  rfl

/-- **The reports of a turn**, as the loop is left. -/
theorem outputs_report {s s' : MainLoop D} (idle : s.bleGate = .new) (next : s' = s.report.1) :
    s.report.2 =
      .led s'.gauges.light ::
        ((if s.loopTick % 200 = 0 ∧ s'.gauges.uptimeSecs % 2 = 0 then
          [.heartbeat s'.localNodeId s'.gauges.uptimeSecs s'.storage.mode s'.sramRing.len
            s'.sramRing.droppedCount] else []) ++
        if s.loopTick % 50 = 0 then
          [.dashboard (s'.gauges.dashboard s' (mainSyncPhase s.syncAnimTicks))] else []) := by
  obtain ⟨hgauges, hout⟩ := report_idle idle
  obtain ⟨hstorage, hring, hpeers, hradio⟩ := report_keeps idle
  rw [← next] at hgauges hstorage hring hpeers hradio
  have hid : s'.localNodeId = s.localNodeId := by rw [localNodeId, localNodeId, hradio]
  have hdashboard : s'.gauges.dashboard s' = s.gauges.dashboard s' := by
    rw [hgauges]
    rfl
  have hlight : s'.gauges.light = s.gauges.light := by
    rw [hgauges]
    rfl
  rw [hout, heartbeats, dashboards, hlight, hid, hstorage, hring, hdashboard,
    dashboardArgs_idle idle hstorage hring hpeers hradio]
  by_cases hsecond : s.loopTick % 200 = 0
  · have huptime : s'.gauges.uptimeSecs = saturatingSucc32 s.telemetry.uptimeSecs := by
      rw [hgauges, Gauges.report, if_pos hsecond]
      rfl
    rw [huptime]
  · simp only [hsecond, false_and, if_false]

/-! ### Turns with their history -/

section History

variable [BlockDevice D]

/-- The button goes down in a turn. -/
def pressed (x : MainLoop D × Surroundings) : Bool := x.2.btnIsPressed && !x.1.btnWasPressed

/-- What a turn has for the air and the host. -/
def trafficOf (x : MainLoop D × Surroundings) : List DongleOutput :=
  ((machine crc32 tier postcard).emit x.1 x.2).filterMap LoopOutput.traffic?

def hearsTelemetry (x : MainLoop D × Surroundings) : Bool :=
  (trafficOf crc32 tier postcard x).any isTelemetryRx

def hearsPacket (x : MainLoop D × Surroundings) : Bool :=
  (trafficOf crc32 tier postcard x).any isRadioRx

/-- A packet of a clipboard passes in a turn. -/
def syncs (x : MainLoop D × Surroundings) : Bool :=
  carriesClipboard (turnInputs tier postcard x.1 x.2) (trafficOf crc32 tier postcard x)

theorem trafficOf_eq (s : MainLoop D) (around : Surroundings) :
    trafficOf crc32 tier postcard (s, around) =
      (work tier postcard s around).2.filterMap LoopOutput.traffic? := by
  have hquiet := (acts_report ((work tier postcard s around).1.flush crc32)).outputs
  rw [Machine.outputs_nil] at hquiet
  show ((work tier postcard s around).2 ++
    ((work tier postcard s around).1.flush crc32).report.2).filterMap _ = _
  rw [List.filterMap_append, hquiet, List.append_nil]

/-- **Step lemma.** The gauges of the next turn follow from the traffic of this one. -/
theorem gauges_next {s : MainLoop D} (idle : s.bleGate = .new) (around : Surroundings) :
    ((machine crc32 tier postcard).next s around).gauges =
      ((s.gauges.tick (pressed (s, around))).after (turnInputs tier postcard s around)
        (trafficOf crc32 tier postcard (s, around))).report (s.loopTick + 1) := by
  have hidle : ((work tier postcard s around).1.flush crc32).bleGate = .new :=
    bleGate_work tier postcard idle around
  have htick : ((work tier postcard s around).1.flush crc32).loopTick = s.loopTick + 1 :=
    loopTick_work tier postcard s around
  have hgauges : ((work tier postcard s around).1.flush crc32).gauges =
      (work tier postcard s around).1.gauges := rfl
  have hreport := (report_idle hidle).1
  rw [htick, hgauges, gauges_work] at hreport
  rw [trafficOf_eq]
  exact hreport

/-- **Step lemma.** The reports of a turn, from the gauges as they are left. -/
theorem reports_emit {s : MainLoop D} (idle : s.bleGate = .new) (around : Surroundings) :
    let s' := (machine crc32 tier postcard).next s around
    let g := (s.gauges.tick (pressed (s, around))).after (turnInputs tier postcard s around)
      (trafficOf crc32 tier postcard (s, around))
    ((machine crc32 tier postcard).emit s around).filter LoopOutput.isReport =
      .led s'.gauges.light ::
        ((if (s.loopTick + 1) % 200 = 0 ∧ s'.gauges.uptimeSecs % 2 = 0 then
          [.heartbeat s'.localNodeId s'.gauges.uptimeSecs s'.storage.mode s'.sramRing.len
            s'.sramRing.droppedCount] else []) ++
        if (s.loopTick + 1) % 50 = 0 then
          [.dashboard (s'.gauges.dashboard s' (mainSyncPhase g.syncAnimTicks))] else []) := by
  intro s' g
  have hidle : ((work tier postcard s around).1.flush crc32).bleGate = .new :=
    bleGate_work tier postcard idle around
  have htick : ((work tier postcard s around).1.flush crc32).loopTick = s.loopTick + 1 :=
    loopTick_work tier postcard s around
  have hanim : ((work tier postcard s around).1.flush crc32).syncAnimTicks = g.syncAnimTicks := by
    have hgauges := congrArg Gauges.syncAnimTicks (gauges_work tier postcard s around)
    rw [← trafficOf_eq crc32] at hgauges
    exact hgauges
  have hnone : (work tier postcard s around).2.filter LoopOutput.isReport = [] := by
    rw [List.filter_eq_nil_iff]
    intro output hmem
    rcases outputs_work tier postcard idle around output hmem with h | ⟨msgId, rfl⟩
    · cases output with
      | traffic _ | pairingAuthorized | beaconScheduled _ => exact Bool.false_ne_true
      | led _ | heartbeat _ _ _ _ _ | dashboard _ => cases h
    · exact Bool.false_ne_true
  have hreport := outputs_report hidle (show s' = _ from rfl)
  rw [htick, hanim] at hreport
  show ((work tier postcard s around).2 ++
    ((work tier postcard s around).1.flush crc32).report.2).filter _ = _
  rw [List.filter_append, hnone, List.filter_eq_self.mpr (isReport_report hidle), List.nil_append,
    hreport]

/-! ### Runs -/

/-- The seconds that were counted in so many turns: one at each tick that 200 divides, where
ticks wrap around. -/
def seconds (turns : ℕ) : ℕ := turns / 2 ^ 32 * 21474837 + turns % 2 ^ 32 / 200

theorem seconds_succ (turns : ℕ) :
    seconds (turns + 1) = seconds turns + if (turns + 1) % 2 ^ 32 % 200 = 0 then 1 else 0 := by
  rw [seconds, seconds]
  split
  · omega
  · omega

theorem iterate_saturatingSucc32 (n k : ℕ) :
    saturatingSucc32^[k] (saturated32 n) = saturated32 (n + k) := by
  induction k with
  | zero => rfl
  | succ k ih => rw [Function.iterate_succ_apply', ih, saturatingSucc32_saturated32, Nat.add_assoc]

theorem toNat_tickDown (ticks : UInt32) : (tickDown ticks).toNat = ticks.toNat - 1 := by
  rw [tickDown]
  split
  · next hpos =>
    have hle : (1 : UInt32) ≤ ticks := UInt32.le_iff_toNat_le.mpr (UInt32.lt_iff_toNat_lt.mp hpos)
    rw [UInt32.toNat_sub_of_le _ _ hle]
    rfl
  · next hzero =>
    have hnone : ¬ 0 < ticks.toNat := fun h => hzero (UInt32.lt_iff_toNat_lt.mpr h)
    omega

/-- A tick that a number divides. -/
theorem ofNat_mod_eq_zero_iff (turns : ℕ) (k : UInt32) :
    UInt32.ofNat turns % k = 0 ↔ turns % 2 ^ 32 % k.toNat = 0 := by
  rw [← UInt32.toNat_inj, UInt32.toNat_mod, UInt32.toNat_ofNat']
  rfl

theorem saturated32_seconds_succ (turns : ℕ) :
    (if UInt32.ofNat (turns + 1) % 200 = 0 then saturatingSucc32 (saturated32 (seconds turns))
      else saturated32 (seconds turns)) = saturated32 (seconds (turns + 1)) := by
  have hdivides : UInt32.ofNat (turns + 1) % 200 = 0 ↔ (turns + 1) % 2 ^ 32 % 200 = 0 :=
    ofNat_mod_eq_zero_iff _ 200
  rw [seconds_succ, saturatingSucc32_saturated32]
  by_cases hsecond : UInt32.ofNat (turns + 1) % 200 = 0
  · rw [if_pos hsecond, if_pos (hdivides.mp hsecond)]
  · rw [if_neg hsecond, if_neg (mt hdivides.mpr hsecond), Nat.add_zero]

/-- The dashboards drawn since a packet of a clipboard passed, in that turn or later. -/
def shownSince (log : List (MainLoop D × Surroundings)) : ℕ :=
  log.foldl (fun shown x =>
    (if syncs crc32 tier postcard x then 0 else shown) +
      if (x.1.loopTick + 1) % 50 = 0 then 1 else 0) 8

theorem shownSince_concat (log : List (MainLoop D × Surroundings)) (x : MainLoop D × Surroundings) :
    shownSince crc32 tier postcard (log ++ [x]) =
      (if syncs crc32 tier postcard x then 0 else shownSince crc32 tier postcard log) +
        if (x.1.loopTick + 1) % 50 = 0 then 1 else 0 := by
  rw [shownSince, List.foldl_append, ← shownSince]
  rfl

/-- The ticks that are left of the animation after so many dashboards. -/
def animTicks (shown : ℕ) : UInt8 := .ofNat (8 - shown)

omit [BlockDevice D] in
/-- One dashboard takes one tick, until there is none. -/
theorem animTicks_succ (shown : ℕ) :
    (if animTicks shown > 0 then animTicks shown - 1 else animTicks shown) =
      animTicks (shown + 1) := by
  rcases Nat.lt_or_ge shown 8 with h | h
  · have hall : ∀ shown < 8, (if animTicks shown > 0 then animTicks shown - 1 else
        animTicks shown) = animTicks (shown + 1) := by decide
    exact hall shown h
  · rw [animTicks, animTicks, Nat.sub_eq_zero_of_le h, Nat.sub_eq_zero_of_le (by omega)]
    rfl

example : (List.range 10).map (fun shown => mainSyncPhase (animTicks shown)) =
    [1, 4, 3, 2, 1, 4, 3, 2, 0, 0] := by decide

/-- What the loop keeps for its reports is what happened in a run from its start. -/
structure Tells (fullMac : Bytes 8) (log : List (MainLoop D × Surroundings)) (s : MainLoop D) :
    Prop where
  localMac : s.radio.localMac = fullMac
  idle : s.bleGate = .new
  loopTick : s.loopTick = .ofNat log.length
  uptimeSecs : s.telemetry.uptimeSecs = saturated32 (seconds log.length)
  rxPacketCount : s.telemetry.rxPacketCount =
    saturated32 ((log.flatMap (trafficOf crc32 tier postcard)).countP isRx)
  txPacketCount : s.telemetry.txPacketCount =
    saturated32 ((log.flatMap (trafficOf crc32 tier postcard)).countP isTx)
  btnFlashTicks : s.btnFlashTicks.toNat = countdown pressed 39 log
  telemFlashTicks : s.telemFlashTicks.toNat =
    countdown (hearsTelemetry crc32 tier postcard) 20 log
  rxFlashTicks : s.rxFlashTicks.toNat = countdown (hearsPacket crc32 tier postcard) 20 log
  syncAnimTicks : s.syncAnimTicks = animTicks (shownSince crc32 tier postcard log)

omit [BlockDevice D] in
theorem toNat_ite (b : Bool) (ticks : UInt32) (n : ℕ) (h : ticks.toNat = n) (k : ℕ)
    (fits : k < 2 ^ 32) : (if b then UInt32.ofNat k else ticks).toNat = if b then k else n := by
  cases b with
  | false => exact h
  | true => exact UInt32.toNat_ofNat_of_lt' fits

omit [BlockDevice D] in
/-- A flash counts down from what sets it off. -/
theorem toNat_flash {ticks : UInt32} {k : ℕ} {happens : MainLoop D × Surroundings → Bool}
    {log : List (MainLoop D × Surroundings)} (h : ticks.toNat = countdown happens k log)
    (fits : k < 2 ^ 32) (x : MainLoop D × Surroundings) :
    (if happens x then UInt32.ofNat k else tickDown ticks).toNat =
      countdown happens k (log ++ [x]) := by
  have hdown : (tickDown ticks).toNat = countdown happens k log - 1 := by
    rw [toNat_tickDown, h]
  rw [countdown_concat]
  exact toNat_ite _ _ _ hdown k fits

/-- The ticks of the animation once the traffic of a turn has passed. -/
theorem Tells.animTicks_eq {fullMac : Bytes 8} {log : List (MainLoop D × Surroundings)}
    {s : MainLoop D} (tells : Tells crc32 tier postcard fullMac log s) (around : Surroundings) :
    ((s.gauges.tick (pressed (s, around))).after (turnInputs tier postcard s around)
        (trafficOf crc32 tier postcard (s, around))).syncAnimTicks =
      animTicks (if syncs crc32 tier postcard (s, around) then 0
        else shownSince crc32 tier postcard log) := by
  show (if syncs crc32 tier postcard (s, around) then 8 else s.syncAnimTicks) = _
  rw [tells.syncAnimTicks]
  split
  · rfl
  · rfl

/-- **Step lemma.** -/
theorem Tells.next {fullMac : Bytes 8} {log : List (MainLoop D × Surroundings)} {s : MainLoop D}
    (tells : Tells crc32 tier postcard fullMac log s) (around : Surroundings) :
    Tells crc32 tier postcard fullMac (log ++ [(s, around)])
      ((machine crc32 tier postcard).next s around) := by
  have hgauges := gauges_next crc32 tier postcard tells.idle around
  have hclocks := clocks_next tier postcard crc32 s around
  have hmac : ((machine crc32 tier postcard).next s around).radio.localMac = s.radio.localMac :=
    localMac_of_acts (acts_turn crc32 tier postcard s around)
  obtain ⟨-, -, htick⟩ := Clocks.begin_of_turn tier s.clocks around
  -- Nothing in a turn asks the gate for a pairing, and a press does not open it.
  have hgate : (s.gauges.tick (pressed (s, around))).bleGate = .new := by
    show (if _ then s.bleGate.onButtonPress.2 else s.bleGate).tick 5 = .new
    rw [tells.idle]
    cases pressed (s, around) <;> rfl
  have hturn : s.loopTick + 1 = .ofNat (log ++ [(s, around)]).length := by
    rw [tells.loopTick, List.length_append, List.length_singleton, UInt32.ofNat_add]
    rfl
  have htraffic : ((log ++ [(s, around)]).flatMap (trafficOf crc32 tier postcard)) =
      log.flatMap (trafficOf crc32 tier postcard) ++ trafficOf crc32 tier postcard (s, around) := by
    rw [List.flatMap_append, List.flatMap_singleton]
  generalize (machine crc32 tier postcard).next s around = s' at *
  refine ⟨hmac.trans tells.localMac, (congrArg Gauges.bleGate hgauges).trans hgate,
    ((congrArg Clocks.loopTick hclocks).trans htick).trans hturn, ?_, ?_, ?_, ?_, ?_, ?_, ?_⟩
  · refine (congrArg Gauges.uptimeSecs hgauges).trans ?_
    show (if (s.loopTick + 1) % 200 = 0 then saturatingSucc32 s.telemetry.uptimeSecs
      else s.telemetry.uptimeSecs) = _
    rw [tells.uptimeSecs, hturn, List.length_append, List.length_singleton]
    exact saturated32_seconds_succ log.length
  · refine (congrArg Gauges.rxPacketCount hgauges).trans ?_
    rw [htraffic, List.countP_append, ← iterate_saturatingSucc32, ← tells.rxPacketCount]
    rfl
  · refine (congrArg Gauges.txPacketCount hgauges).trans ?_
    rw [htraffic, List.countP_append, ← iterate_saturatingSucc32, ← tells.txPacketCount]
    rfl
  · refine (congrArg (fun g => g.btnFlashTicks.toNat) hgauges).trans ?_
    show (tickDown (if pressed (s, around) then 40 else s.btnFlashTicks)).toNat = _
    have hpress : (if pressed (s, around) then 40 else s.btnFlashTicks).toNat =
        if pressed (s, around) then 40 else countdown pressed 39 log :=
      toNat_ite _ _ _ tells.btnFlashTicks 40 (by decide)
    rw [countdown_concat, toNat_tickDown, hpress]
    split
    · rfl
    · rfl
  · refine (congrArg (fun g => g.telemFlashTicks.toNat) hgauges).trans ?_
    exact toNat_flash tells.telemFlashTicks (by decide) (s, around)
  · refine (congrArg (fun g => g.rxFlashTicks.toNat) hgauges).trans ?_
    exact toNat_flash tells.rxFlashTicks (by decide) (s, around)
  · refine (congrArg Gauges.syncAnimTicks hgauges).trans ?_
    rw [Gauges.report, tells.animTicks_eq crc32 tier postcard around, shownSince_concat]
    -- A dashboard takes one tick of the animation, and no other turn does.
    by_cases hquarter : (s.loopTick + 1) % 50 = 0
    · simp only [hquarter, if_true, true_and]
      exact animTicks_succ _
    · simp only [hquarter, if_false, false_and]
      rfl

theorem tells_boot (fullMac : Bytes 8) (storage : DynamicStorageManager D) (random : UInt32) :
    Tells crc32 tier postcard fullMac [] (boot tier fullMac storage random) :=
  ⟨rfl, rfl, rfl, show 0 = saturated32 (seconds 0) by decide, rfl, rfl, rfl, rfl, rfl, rfl⟩

/-- **Run lemma.** -/
theorem tells_final (fullMac : Bytes 8) (storage : DynamicStorageManager D) (random : UInt32)
    (arounds : List Surroundings) :
    Tells crc32 tier postcard fullMac
      ((machine crc32 tier postcard).trace (boot tier fullMac storage random) arounds)
      ((machine crc32 tier postcard).final (boot tier fullMac storage random) arounds) := by
  induction arounds using List.reverseRecOn with
  | nil => exact tells_boot crc32 tier postcard fullMac storage random
  | append_singleton arounds around ih =>
    rw [Machine.trace_append, Machine.final_append]
    exact ih.next crc32 tier postcard around

/-- The colour for what happened lately. -/
def lightOf (log : List (MainLoop D × Surroundings)) : LedPixel :=
  if lately pressed 39 log then Apa102.green
  else if lately (hearsTelemetry crc32 tier postcard) 20 log then Apa102.magenta
  else if lately (hearsPacket crc32 tier postcard) 20 log then Apa102.cyan
  else Apa102.idleBlue

section Tells

variable {crc32 tier postcard} {fullMac : Bytes 8} {log : List (MainLoop D × Surroundings)}
  {s : MainLoop D}

omit [BlockDevice D] in
theorem pos_iff_of_toNat {ticks : UInt32} {kind : MainLoop D × Surroundings → Bool} {k : ℕ}
    (h : ticks.toNat = countdown kind k log) : ticks > 0 ↔ lately kind k log = true := by
  rw [← countdown_pos_iff, ← h]
  exact UInt32.lt_iff_toNat_lt

theorem Tells.light_eq (tells : Tells crc32 tier postcard fullMac log s) :
    s.gauges.light = lightOf crc32 tier postcard log := by
  have hbtn : s.gauges.btnFlashTicks > 0 ↔ _ := pos_iff_of_toNat tells.btnFlashTicks
  have htelem : s.gauges.telemFlashTicks > 0 ↔ _ := pos_iff_of_toNat tells.telemFlashTicks
  have hrx : s.gauges.rxFlashTicks > 0 ↔ _ := pos_iff_of_toNat tells.rxFlashTicks
  simp only [Gauges.light, lightOf, hbtn, htelem, hrx]

/-- The dashboard, in terms of the history. -/
theorem Tells.dashboard_eq (tells : Tells crc32 tier postcard fullMac log s) (phase : UInt8) :
    s.gauges.dashboard s phase =
      { localNodeId := nodeIdOf fullMac
        channel := 15
        freqStr := "2.425 GHz".toList
        storageMode := s.storage.mode
        rxCount := saturated32 ((log.flatMap (trafficOf crc32 tier postcard)).countP isRx)
        txCount := saturated32 ((log.flatMap (trafficOf crc32 tier postcard)).countP isTx)
        sramUsed := s.sramRing.len
        dropped := s.sramRing.droppedCount
        peer1 := s.peerTable.primaryPeer
        peer2 := s.peerTable.secondaryPeer
        blePin := none
        btnActive := lately pressed 39 log
        syncPhase := phase } := by
  have hactive : decide (s.gauges.btnFlashTicks > 0) = lately pressed 39 log := by
    rw [Bool.eq_iff_iff, decide_eq_true_iff]
    exact pos_iff_of_toNat tells.btnFlashTicks
  have hrx : s.gauges.rxPacketCount = _ := tells.rxPacketCount
  have htx : s.gauges.txPacketCount = _ := tells.txPacketCount
  rw [Gauges.dashboard, hactive, hrx, htx, localNodeId, tells.localMac]

end Tells

/-- **Reports tell what happened.** In every turn of every run from a start, the loop sets
the light once, by what happened in the last turns. Once in 200 ticks it counts a second,
and prints every other one; once in 50 it draws a dashboard, whose counters are the packets
heard and broadcast so far, and whose animation runs for eight dashboards from the turn in
which a packet of a clipboard passed. No pairing is ever waited for, or authorized. -/
theorem reports_tell (fullMac : Bytes 8) (storage : DynamicStorageManager D) (random : UInt32)
    (arounds : List Surroundings) (around : Surroundings) :
    let s := (machine crc32 tier postcard).final (boot tier fullMac storage random) arounds
    let log := (machine crc32 tier postcard).trace (boot tier fullMac storage random)
      (arounds ++ [around])
    let traffic := log.flatMap (trafficOf crc32 tier postcard)
    let shown := shownSince crc32 tier postcard
      ((machine crc32 tier postcard).trace (boot tier fullMac storage random) arounds)
    let s' := (machine crc32 tier postcard).next s around
    let turns := arounds.length + 1
    ((machine crc32 tier postcard).emit s around).filter LoopOutput.isReport =
      .led (lightOf crc32 tier postcard log) ::
        ((if turns % 2 ^ 32 % 200 = 0 ∧ saturated32 (seconds turns) % 2 = 0 then
          [.heartbeat (nodeIdOf fullMac) (saturated32 (seconds turns)) s'.storage.mode
            s'.sramRing.len s'.sramRing.droppedCount] else []) ++
        if turns % 2 ^ 32 % 50 = 0 then
          [.dashboard
            { localNodeId := nodeIdOf fullMac
              channel := 15
              freqStr := "2.425 GHz".toList
              storageMode := s'.storage.mode
              rxCount := saturated32 (traffic.countP isRx)
              txCount := saturated32 (traffic.countP isTx)
              sramUsed := s'.sramRing.len
              dropped := s'.sramRing.droppedCount
              peer1 := s'.peerTable.primaryPeer
              peer2 := s'.peerTable.secondaryPeer
              blePin := none
              btnActive := lately pressed 39 log
              syncPhase := mainSyncPhase
                (animTicks (if syncs crc32 tier postcard (s, around) then 0 else shown)) }]
        else []) ∧
      .pairingAuthorized ∉ (machine crc32 tier postcard).emit s around := by
  intro s log traffic shown s' turns
  have htells : Tells crc32 tier postcard fullMac _ s :=
    tells_final crc32 tier postcard fullMac storage random arounds
  have hlog : log = (machine crc32 tier postcard).trace (boot tier fullMac storage random) arounds ++
      [(s, around)] := Machine.trace_append _ _ _
  have hlen : ((machine crc32 tier postcard).trace (boot tier fullMac storage random)
      arounds).length = arounds.length := by
    rw [← List.length_map (f := Prod.snd), Machine.map_snd_trace]
  have hnext : Tells crc32 tier postcard fullMac log s' := by
    rw [hlog]
    exact htells.next crc32 tier postcard around
  have hreports := reports_emit crc32 tier postcard htells.idle around
  have htick : s.loopTick + 1 = .ofNat turns := by
    rw [htells.loopTick, hlen, UInt32.ofNat_add]
    rfl
  -- The second that ends in this turn is counted before it is printed.
  have huptime : s'.gauges.uptimeSecs = saturated32 (seconds turns) := by
    have hturns : log.length = turns := by rw [hlog, List.length_append, hlen]; rfl
    rw [← hturns]
    exact hnext.uptimeSecs
  have hid : s'.localNodeId = nodeIdOf fullMac := by rw [localNodeId, hnext.localMac]
  have hsecond : UInt32.ofNat turns % 200 = 0 ↔ turns % 2 ^ 32 % 200 = 0 :=
    ofNat_mod_eq_zero_iff _ 200
  have hquarter : UInt32.ofNat turns % 50 = 0 ↔ turns % 2 ^ 32 % 50 = 0 :=
    ofNat_mod_eq_zero_iff _ 50
  constructor
  · refine hreports.trans ?_
    rw [htick, hnext.light_eq, hnext.dashboard_eq, huptime, hid, htells.animTicks_eq]
    simp only [hsecond, hquarter]
    rfl
  · -- Neither the work of the turn nor its reports authorize anything.
    intro hmem
    rcases List.mem_append.mp hmem with hmem | hmem
    · rcases outputs_work tier postcard htells.idle around _ hmem with h | ⟨msgId, h⟩
      · cases h
      · cases h
    · have hidle := bleGate_work tier postcard htells.idle around
      exact Bool.false_ne_true (isReport_report (s := (work tier postcard s around).1.flush crc32)
        hidle _ hmem)

end History

end MainLoop

end Gibberish.Firmware
