/-
# The traffic of the loop

What the loop broadcasts and prints for its host is what a dongle does with the inputs
that the turns stand for: an edge of the button, one service of the queue in each turn of
the mesh, telemetry when it is due, the packets in the frames, and the bytes of the host.
-/

import Gibberish.Firmware.Iteration

set_option autoImplicit false

namespace Gibberish.Firmware

open Gibberish.Foundation Gibberish.Protocol Gibberish.Storage

/-- What an output is for the air and the host. -/
def LoopOutput.traffic? : LoopOutput → Option DongleOutput
  | traffic output => some output
  | _ => none

namespace MainLoop

variable {D : Type}

/-- The dongle in the loop. -/
def dongle (s : MainLoop D) : Dongle where
  radio := s.radio
  bloomFilter := s.bloomFilter
  backoff := s.backoff
  usb := s.usb
  beaconSeq := s.beaconSeq
  telemSeq := s.telemSeq

/-- A part of a turn does what a dongle does with some inputs. -/
structure Acts (s : MainLoop D) (inputs : List DongleInput) (r : MainLoop D × List LoopOutput) :
    Prop where
  outputs : r.2.filterMap LoopOutput.traffic? = Dongle.machine.outputs s.dongle inputs
  final : r.1.dongle = Dongle.machine.final s.dongle inputs

section Acts

variable {s : MainLoop D} {inputs inputs' : List DongleInput} {r r' : MainLoop D × List LoopOutput}

theorem Acts.comp (h : Acts s inputs r) (h' : Acts r.1 inputs' r') :
    Acts s (inputs ++ inputs') (r'.1, r.2 ++ r'.2) := by
  constructor
  · rw [List.filterMap_append, h.outputs, h'.outputs, h.final, Machine.outputs_append]
  · rw [h'.final, h.final, Machine.final_append]

/-- What follows changes nothing of the dongle. -/
theorem Acts.andThen (h : Acts s inputs r) (f : MainLoop D → MainLoop D)
    (dongle : ∀ s, (f s).dongle = s.dongle) : Acts s inputs (f r.1, r.2) :=
  ⟨h.outputs, (dongle r.1).trans h.final⟩

theorem Acts.congr {s' : MainLoop D} (h : Acts s' inputs r) (dongle : s'.dongle = s.dongle) :
    Acts s inputs r := by
  constructor
  · rw [h.outputs, dongle]
  · rw [h.final, dongle]

/-- What follows is nothing to a dongle. -/
theorem Acts.comp_nil (h : Acts s inputs r) (h' : Acts r.1 [] r') :
    Acts s inputs (r'.1, r.2 ++ r'.2) := by
  have hcomp := h.comp h'
  rwa [List.append_nil] at hcomp

/-- A part that changes nothing of the dongle. -/
theorem acts_aside (dongle : r.1.dongle = s.dongle) (quiet : r.2.filterMap LoopOutput.traffic? = []) :
    Acts s [] r := ⟨quiet, dongle⟩

theorem acts_of_step {input : DongleInput}
    (outputs : r.2.filterMap LoopOutput.traffic? = (Dongle.step s.dongle input).2)
    (final : r.1.dongle = (Dongle.step s.dongle input).1) : Acts s [input] r := by
  refine ⟨?_, final⟩
  rw [Machine.outputs_cons, Machine.outputs_nil, List.append_nil]
  exact outputs

end Acts

/-! ### The parts of a turn -/

/-- An edge of the button. -/
def buttonInputs (s : MainLoop D) (btnIsPressed : Bool) : List DongleInput :=
  if btnIsPressed && !s.btnWasPressed then [.buttonPress] else []

theorem acts_checkButton (s : MainLoop D) (btnIsPressed : Bool) :
    Acts s (s.buttonInputs btnIsPressed) (s.checkButton btnIsPressed) := by
  rw [buttonInputs, checkButton]
  split
  · refine acts_of_step ?_ ?_
    -- The gate is nothing to the dongle, whichever way it answers.
    · rw [pressButton]
      dsimp only
      split
      · rfl
      · rfl
    · rw [pressButton]
      dsimp only
      split
      · rfl
      · rfl
  · exact acts_aside rfl rfl

theorem acts_serviceBackoff (s : MainLoop D) (txOk : Bool) :
    Acts s [.serviceBackoff 5 txOk] (s.serviceBackoff txOk) := by
  have hstep : ((s.serviceBackoff txOk).2.filterMap LoopOutput.traffic?,
      (s.serviceBackoff txOk).1.dongle) =
      ((s.dongle.serviceBackoff 5 txOk).2, (s.dongle.serviceBackoff 5 txOk).1) := by
    have hbackoff : s.dongle.backoff = s.backoff := rfl
    rw [serviceBackoff, Dongle.serviceBackoff, hbackoff]
    generalize s.backoff.tick 5 = ticked
    obtain ⟨_ | _, backoff⟩ := ticked
    · rfl
    · dsimp only
      -- Both take from the same queue, so one case settles the other.
      generalize backoff.takePending = taken
      obtain ⟨_ | packet, backoff⟩ := taken
      · rfl
      · cases txOk with
        | true => rfl
        | false => rfl
  exact acts_of_step (congrArg Prod.fst hstep) (congrArg Prod.snd hstep)

section Telemetry

variable (tier : TelemetryTier) (postcard : Postcard)

/-- Telemetry that is due. -/
def telemetryInputs (s : MainLoop D) (around : Surroundings) : List DongleInput :=
  if saturatingAdd32 s.telemElapsedMs 5 ≥ s.nextTelemIntervalMs then
    [.emitTelemetry (telemetryPayload tier postcard s around.freeHeap).1
      ((around.jitterRandom % 46).toUInt16 + 15)]
  else []

theorem acts_emitTelemetry (s : MainLoop D) (around : Surroundings) :
    Acts s (telemetryInputs tier postcard s around) (emitTelemetry tier postcard s around, []) := by
  rw [telemetryInputs, emitTelemetry]
  dsimp only
  split
  · exact acts_of_step rfl rfl
  · exact acts_aside rfl rfl

end Telemetry

theorem acts_receive (s : MainLoop D) (rx : ReceivedMeshPacket) (random : UInt32) :
    Acts s [.receive rx random] (s.receive rx random) := by
  have hstep : ((s.receive rx random).2.filterMap LoopOutput.traffic?, (s.receive rx random).1.dongle) =
      ((s.dongle.receive rx random).2, (s.dongle.receive rx random).1) := by
    have hfilter : s.dongle.bloomFilter = s.bloomFilter := rfl
    rw [receive, Dongle.receive, hfilter]
    dsimp only
    split
    · rfl
    · split
      · rfl
      · split
        · rfl
        · rfl
  exact acts_of_step (congrArg Prod.fst hstep) (congrArg Prod.snd hstep)

theorem radio_receive (s : MainLoop D) (rx : ReceivedMeshPacket) (random : UInt32) :
    (s.receive rx random).1.radio = s.radio := by
  rw [receive]
  dsimp only
  split
  · rfl
  · split
    · rfl
    · split
      · rfl
      · rfl

/-- The packets that the frames hold. -/
def frameInputs (s : MainLoop D) (frames : List (List UInt8 × UInt32)) : List DongleInput :=
  frames.filterMap fun frame =>
    (s.radio.receiveRaw frame.1).map fun rx => .receive rx frame.2

theorem acts_pollFrames (s : MainLoop D) (frames : List (List UInt8 × UInt32)) :
    Acts s (s.frameInputs frames) (s.pollFrames frames) := by
  induction frames generalizing s with
  | nil => exact acts_aside rfl rfl
  | cons frame rest ih =>
    obtain ⟨data, random⟩ := frame
    rw [frameInputs, List.filterMap_cons, pollFrames]
    dsimp only
    cases s.radio.receiveRaw data with
    | none => exact ih s
    -- The frames behind it are read with the radio as it was.
    | some rx =>
      have hrest := ih (s.receive rx random).1
      rw [frameInputs, radio_receive] at hrest
      exact (acts_receive s rx random).comp hrest

theorem acts_usbByte (s : MainLoop D) (b : UInt8) : Acts s [.usbByte b] (s.usbByte b) := by
  have hstep : ((s.usbByte b).2.filterMap LoopOutput.traffic?, (s.usbByte b).1.dongle) =
      ((s.dongle.usbByte b).2, (s.dongle.usbByte b).1) := by
    have husb : s.dongle.usb = s.usb := rfl
    rw [usbByte, Dongle.usbByte, Dongle.accepts, husb]
    generalize s.usb.readByte b = read
    obtain ⟨usb, pktBuf⟩ := read
    dsimp only
    cases pktBuf.bind Dongle.packetOf with
    | none => rfl
    | some packet => rfl
  exact acts_of_step (congrArg Prod.fst hstep) (congrArg Prod.snd hstep)

theorem acts_drainUsb (s : MainLoop D) (bytes : List UInt8) :
    Acts s (bytes.map .usbByte) (s.drainUsb bytes) := by
  induction bytes generalizing s with
  | nil => exact acts_aside rfl rfl
  | cons b rest ih => exact (acts_usbByte s b).comp (ih (s.usbByte b).1)

/-- The light takes one pixel, and may pulse on. -/
theorem showLed_eq (s : MainLoop D) :
    ∃ step pixel, s.showLed = ({ s with ledPulseStep := step }, [.led pixel]) := by
  rw [showLed]
  generalize s.bleGate.state = gate
  split
  · exact ⟨s.ledPulseStep, Apa102.green, rfl⟩
  · split
    · exact ⟨s.ledPulseStep, Apa102.magenta, rfl⟩
    · split
      · exact ⟨s.ledPulseStep, Apa102.cyan, rfl⟩
      · cases gate with
        | pairingRequested _ _ => exact ⟨s.ledPulseStep + 1, Apa102.amberPulse _, rfl⟩
        | authorized => exact ⟨s.ledPulseStep, Apa102.green, rfl⟩
        | idle | rejected => exact ⟨s.ledPulseStep, Apa102.idleBlue, rfl⟩

theorem acts_showLed (s : MainLoop D) : Acts s [] s.showLed := by
  obtain ⟨step, pixel, heq⟩ := s.showLed_eq
  rw [heq]
  exact acts_aside rfl rfl

theorem acts_countUptime (s : MainLoop D) : Acts s [] s.countUptime := by
  rw [countUptime]
  split
  · refine acts_aside rfl ?_
    dsimp only
    split
    · rfl
    · rfl
  · exact acts_aside rfl rfl

theorem acts_showDashboard (s : MainLoop D) : Acts s [] s.showDashboard := by
  rw [showDashboard]
  split
  · exact acts_aside rfl rfl
  · exact acts_aside rfl rfl

/-! ### Turns and runs -/

variable (crc32 : Checksum) (tier : TelemetryTier) (postcard : Postcard)

/-- What the work of the mesh's slot stands for. -/
def meshInputs (s : MainLoop D) (around : Surroundings) : List DongleInput :=
  let s := (s.serviceBackoff around.txOk).1
  .serviceBackoff 5 around.txOk :: telemetryInputs tier postcard s around ++
    (emitTelemetry tier postcard s around).frameInputs around.frames

/-- What the work of a slot stands for. -/
def slotInputs (s : MainLoop D) (around : Surroundings) : RadioSlot → List DongleInput
  | .ieee802154Mesh => meshInputs tier postcard s around
  | .guardBand | .bleCompanion => []

/-- What a turn stands for. -/
def turnInputs (s : MainLoop D) (around : Surroundings) : List DongleInput :=
  s.buttonInputs around.btnIsPressed ++
    slotInputs tier postcard (s.beforeSlot around.btnIsPressed).1 around
      (s.tdmArbiter.advance 5).1 ++
    around.usbBytes.map .usbByte

theorem acts_slotWork (s : MainLoop D) (around : Surroundings) (slot : RadioSlot) :
    Acts s (slotInputs tier postcard s around slot) (slotWork tier postcard s around slot) := by
  cases slot with
  | ieee802154Mesh =>
    exact (acts_serviceBackoff s around.txOk).comp
      ((acts_emitTelemetry tier postcard _ around).comp (acts_pollFrames _ around.frames))
  | guardBand => exact acts_aside rfl rfl
  | bleCompanion => exact acts_aside rfl rfl

theorem acts_beforeSlot (s : MainLoop D) (btnIsPressed : Bool) :
    Acts s (s.buttonInputs btnIsPressed) (s.beforeSlot btnIsPressed) := by
  have hclocks : ∀ (tick : UInt32) (arbiter : TdmArbiter),
      Acts s (s.buttonInputs btnIsPressed)
        ({ s with loopTick := tick, tdmArbiter := arbiter }.checkButton btnIsPressed) :=
    fun tick arbiter =>
      (acts_checkButton { s with loopTick := tick, tdmArbiter := arbiter } btnIsPressed).congr rfl
  exact (hclocks _ _).andThen countDown fun _ => rfl

theorem acts_report (s : MainLoop D) : Acts s [] s.report :=
  ((acts_showLed s).comp_nil (acts_countUptime _)).comp_nil (acts_showDashboard _)

theorem acts_work (s : MainLoop D) (around : Surroundings) :
    Acts s (turnInputs tier postcard s around) (work tier postcard s around) := by
  have hslot := (acts_beforeSlot s around.btnIsPressed).comp
    (acts_slotWork tier postcard _ around (s.tdmArbiter.advance 5).1)
  exact hslot.comp (acts_drainUsb _ around.usbBytes)

variable [BlockDevice D]

/-- **A turn.** -/
theorem acts_turn (s : MainLoop D) (around : Surroundings) :
    Acts s (turnInputs tier postcard s around) (turn crc32 tier postcard s around) :=
  ((acts_work tier postcard s around).andThen (MainLoop.flush crc32) fun _ => rfl).comp_nil
    (acts_report _)

/-- What a run stands for. -/
def runInputs (s : MainLoop D) (arounds : List Surroundings) : List DongleInput :=
  ((machine crc32 tier postcard).trace s arounds).flatMap fun x => turnInputs tier postcard x.1 x.2

theorem runInputs_cons (s : MainLoop D) (around : Surroundings) (rest : List Surroundings) :
    runInputs crc32 tier postcard s (around :: rest) =
      turnInputs tier postcard s around ++
        runInputs crc32 tier postcard ((machine crc32 tier postcard).next s around) rest := rfl

/-- **A run.** -/
theorem run_traffic (s : MainLoop D) (arounds : List Surroundings) :
    ((machine crc32 tier postcard).outputs s arounds).filterMap LoopOutput.traffic? =
        Dongle.machine.outputs s.dongle (runInputs crc32 tier postcard s arounds) ∧
      ((machine crc32 tier postcard).final s arounds).dongle =
        Dongle.machine.final s.dongle (runInputs crc32 tier postcard s arounds) := by
  have hstep : ∀ (s : MainLoop D) (d : Dongle) around, s.dongle = d → True →
      ((machine crc32 tier postcard).emit s around).filterMap LoopOutput.traffic? =
          Dongle.machine.outputs d (turnInputs tier postcard s around) ∧
        ((machine crc32 tier postcard).next s around).dongle =
          Dongle.machine.final d (turnInputs tier postcard s around) := by
    rintro s _ around rfl -
    obtain ⟨houtputs, hfinal⟩ := acts_turn crc32 tier postcard s around
    exact ⟨houtputs, hfinal⟩
  exact Machine.simulation hstep rfl fun _ _ => trivial

end MainLoop

end Gibberish.Firmware
