/-
# The clocks of the loop

What a turn counts does not depend on what is received or stored. The queue is served in
the turns of the mesh and the button counts at its edges. Telemetry is due by the time of
the mesh alone, so that its interval stretches by the turns of the companion.
-/

import Gibberish.Firmware.LoopTraffic

set_option autoImplicit false

namespace Gibberish.Firmware

open Gibberish.Foundation Gibberish.Protocol Gibberish.Storage

namespace MainLoop

variable {D : Type}

/-! ### What the parts of a turn leave alone -/

section Keeps

variable {α : Type} (f : MainLoop D → α)

theorem keeps_pollFrames (receive : ∀ s rx random, f (MainLoop.receive s rx random).1 = f s)
    (s : MainLoop D) (frames : List (List UInt8 × UInt32)) : f (s.pollFrames frames).1 = f s := by
  induction frames generalizing s with
  | nil => rfl
  | cons frame rest ih =>
    obtain ⟨data, random⟩ := frame
    rw [pollFrames]
    cases s.radio.receiveRaw data with
    | none => exact ih s
    | some rx => exact (ih _).trans (receive s rx random)

theorem keeps_drainUsb (usbByte : ∀ s b, f (MainLoop.usbByte s b).1 = f s) (s : MainLoop D)
    (bytes : List UInt8) : f (s.drainUsb bytes).1 = f s := by
  induction bytes generalizing s with
  | nil => rfl
  | cons b rest ih => exact (ih _).trans (usbByte s b)

end Keeps

/-- The clocks of the loop. -/
structure Clocks where
  btnWasPressed : Bool
  tdmArbiter : TdmArbiter
  loopTick : UInt32
  telemElapsedMs : UInt32
  nextTelemIntervalMs : UInt32

def clocks (s : MainLoop D) : Clocks where
  btnWasPressed := s.btnWasPressed
  tdmArbiter := s.tdmArbiter
  loopTick := s.loopTick
  telemElapsedMs := s.telemElapsedMs
  nextTelemIntervalMs := s.nextTelemIntervalMs

theorem clocks_checkButton (s : MainLoop D) (btnIsPressed : Bool) :
    (s.checkButton btnIsPressed).1.clocks = { s.clocks with btnWasPressed := btnIsPressed } := by
  have hpress : s.pressButton.1.clocks = s.clocks := by
    rw [pressButton]
    dsimp only
    split
    · rfl
    · rfl
  rw [checkButton]
  cases btnIsPressed && !s.btnWasPressed with
  | false => rfl
  | true => exact congrArg (fun c : Clocks => { c with btnWasPressed := btnIsPressed }) hpress

theorem clocks_serviceBackoff (s : MainLoop D) (txOk : Bool) :
    (s.serviceBackoff txOk).1.clocks = s.clocks := by
  rw [serviceBackoff]
  split
  · rfl
  · split
    · rfl
    · cases txOk with
      | true => rfl
      | false => rfl

theorem clocks_receive (s : MainLoop D) (rx : ReceivedMeshPacket) (random : UInt32) :
    (s.receive rx random).1.clocks = s.clocks := by
  rw [receive]
  dsimp only
  split
  · rfl
  · split
    · rfl
    · split
      · rfl
      · rfl

theorem clocks_usbByte (s : MainLoop D) (b : UInt8) : (s.usbByte b).1.clocks = s.clocks := by
  rw [usbByte]
  dsimp only
  split
  · rfl
  · rfl

theorem clocks_report (s : MainLoop D) : s.report.1.clocks = s.clocks := by
  have hled : s.showLed.1.clocks = s.clocks := by
    obtain ⟨step, pixel, heq⟩ := s.showLed_eq
    rw [heq]
    rfl
  have huptime : ∀ s : MainLoop D, s.countUptime.1.clocks = s.clocks := by
    intro s
    rw [countUptime]
    split
    · rfl
    · rfl
  have hdashboard : ∀ s : MainLoop D, s.showDashboard.1.clocks = s.clocks := by
    intro s
    rw [showDashboard]
    split
    · rfl
    · rfl
  exact ((hdashboard _).trans (huptime _)).trans hled

/-! ### The clocks alone -/

namespace Clocks

/-- Telemetry is due. -/
def Due (c : Clocks) : Prop := saturatingAdd32 c.telemElapsedMs 5 ≥ c.nextTelemIntervalMs

instance (c : Clocks) : Decidable c.Due := inferInstanceAs (Decidable (_ ≥ _))

/-- Time of the mesh passes. -/
def pace (tier : TelemetryTier) (intervalRandom : UInt32) (c : Clocks) : Clocks :=
  if c.Due then
    { c with
      telemElapsedMs := 0
      nextTelemIntervalMs := calcNextTelemInterval tier intervalRandom }
  else { c with telemElapsedMs := saturatingAdd32 c.telemElapsedMs 5 }

/-- The clocks with this turn begun. -/
def begin (c : Clocks) (btnIsPressed : Bool) : Clocks :=
  { c with
    btnWasPressed := btnIsPressed
    tdmArbiter := (c.tdmArbiter.advance 5).2
    loopTick := c.loopTick + 1 }

/-- A turn of the clocks. -/
def turn (tier : TelemetryTier) (c : Clocks) (around : Surroundings) : Clocks :=
  match (c.tdmArbiter.advance 5).1 with
  | .ieee802154Mesh => (c.begin around.btnIsPressed).pace tier around.intervalRandom
  | .guardBand | .bleCompanion => c.begin around.btnIsPressed

end Clocks

theorem clocks_beforeSlot (s : MainLoop D) (btnIsPressed : Bool) :
    (s.beforeSlot btnIsPressed).1.clocks = s.clocks.begin btnIsPressed :=
  clocks_checkButton _ btnIsPressed

section Turn

variable (crc32 : Checksum) (tier : TelemetryTier) (postcard : Postcard)

theorem clocks_emitTelemetry (s : MainLoop D) (around : Surroundings) :
    (emitTelemetry tier postcard s around).clocks = s.clocks.pace tier around.intervalRandom := by
  have hdue : s.clocks.Due ↔ saturatingAdd32 s.telemElapsedMs 5 ≥ s.nextTelemIntervalMs := Iff.rfl
  rw [emitTelemetry, Clocks.pace]
  by_cases h : s.clocks.Due
  · rw [if_pos h]
    dsimp only
    rw [if_pos (hdue.mp h)]
    rfl
  · rw [if_neg h]
    dsimp only
    rw [if_neg (mt hdue.mpr h)]
    rfl

theorem clocks_slotWork (s : MainLoop D) (around : Surroundings) (slot : RadioSlot) :
    (slotWork tier postcard s around slot).1.clocks =
      match slot with
      | .ieee802154Mesh => s.clocks.pace tier around.intervalRandom
      | .guardBand | .bleCompanion => s.clocks := by
  cases slot with
  | ieee802154Mesh =>
    -- Of the work in this slot only the telemetry moves a clock.
    have hframes := keeps_pollFrames clocks clocks_receive
      (emitTelemetry tier postcard (s.serviceBackoff around.txOk).1 around) around.frames
    rw [clocks_emitTelemetry, clocks_serviceBackoff] at hframes
    exact hframes
  | guardBand => rfl
  | bleCompanion => rfl

theorem clocks_work (s : MainLoop D) (around : Surroundings) :
    (work tier postcard s around).1.clocks = s.clocks.turn tier around := by
  have hslot := clocks_slotWork tier postcard (s.beforeSlot around.btnIsPressed).1 around
    (s.tdmArbiter.advance 5).1
  rw [clocks_beforeSlot] at hslot
  have hdrained := keeps_drainUsb clocks clocks_usbByte (slotWork tier postcard
    (s.beforeSlot around.btnIsPressed).1 around (s.tdmArbiter.advance 5).1).1 around.usbBytes
  exact hdrained.trans hslot

variable [BlockDevice D]

/-- **The clocks of a turn.** -/
theorem clocks_turn (s : MainLoop D) (around : Surroundings) :
    (turn crc32 tier postcard s around).1.clocks = s.clocks.turn tier around := by
  have hflushed : ∀ s : MainLoop D, (s.flush crc32).clocks = s.clocks := fun _ => rfl
  have hreported := clocks_report ((work tier postcard s around).1.flush crc32)
  rw [hflushed, clocks_work] at hreported
  exact hreported

end Turn

/-! ### What the turns stand for -/

end MainLoop

namespace DongleInput

def isPress : DongleInput → Bool
  | buttonPress => true
  | _ => false

def isService : DongleInput → Bool
  | serviceBackoff _ _ => true
  | _ => false

def isTelemetry : DongleInput → Bool
  | emitTelemetry _ _ => true
  | _ => false

def received? : DongleInput → Option (ReceivedMeshPacket × UInt32)
  | receive rx random => some (rx, random)
  | _ => none

def usbByte? : DongleInput → Option UInt8
  | usbByte b => some b
  | _ => none

end DongleInput

/-- How often a button goes down. -/
def edges : Bool → List Bool → ℕ
  | _, [] => 0
  | was, is :: rest => (if is && !was then 1 else 0) + edges is rest

namespace MainLoop

open DongleInput

variable {D : Type}

/-- The packets that frames hold for a dongle of this address. -/
def packetsIn (localMac : Bytes 8) (frames : List (List UInt8 × UInt32)) :
    List (ReceivedMeshPacket × UInt32) :=
  frames.filterMap fun frame =>
    ((RadioManager.new localMac).receiveRaw frame.1).map fun rx => (rx, frame.2)

theorem frameInputs_eq (s : MainLoop D) (frames : List (List UInt8 × UInt32)) :
    s.frameInputs frames =
      (packetsIn s.radio.localMac frames).map fun x => .receive x.1 x.2 := by
  rw [frameInputs, packetsIn, List.map_filterMap]
  refine List.filterMap_congr fun frame _ => ?_
  have hradio : s.radio.receiveRaw frame.1 =
      (RadioManager.new s.radio.localMac).receiveRaw frame.1 := rfl
  rw [hradio, Option.map_map]
  rfl

variable (tier : TelemetryTier) (postcard : Postcard)

/-- The inputs of a turn, by kind. -/
structure ByKind (inputs : List DongleInput) (presses services telemetry : ℕ)
    (received : List (ReceivedMeshPacket × UInt32)) (usbBytes : List UInt8) : Prop where
  presses : inputs.countP isPress = presses
  services : inputs.countP isService = services
  telemetry : inputs.countP isTelemetry = telemetry
  received : inputs.filterMap received? = received
  usbBytes : inputs.filterMap usbByte? = usbBytes

theorem ByKind.append {inputs inputs' : List DongleInput} {p p' v v' t t' : ℕ}
    {r r' : List (ReceivedMeshPacket × UInt32)} {u u' : List UInt8}
    (h : ByKind inputs p v t r u) (h' : ByKind inputs' p' v' t' r' u') :
    ByKind (inputs ++ inputs') (p + p') (v + v') (t + t') (r ++ r') (u ++ u') := by
  constructor
  · rw [List.countP_append, h.presses, h'.presses]
  · rw [List.countP_append, h.services, h'.services]
  · rw [List.countP_append, h.telemetry, h'.telemetry]
  · rw [List.filterMap_append, h.received, h'.received]
  · rw [List.filterMap_append, h.usbBytes, h'.usbBytes]

theorem ByKind.nil : ByKind [] 0 0 0 [] [] := ⟨rfl, rfl, rfl, rfl, rfl⟩

theorem byKind_buttonInputs (s : MainLoop D) (btnIsPressed : Bool) :
    ByKind (s.buttonInputs btnIsPressed) (if btnIsPressed && !s.btnWasPressed then 1 else 0) 0 0
      [] [] := by
  rw [buttonInputs]
  split
  · exact ⟨rfl, rfl, rfl, rfl, rfl⟩
  · exact .nil

theorem byKind_frames (received : List (ReceivedMeshPacket × UInt32)) :
    ByKind (received.map fun x => .receive x.1 x.2) 0 0 0 received [] := by
  induction received with
  | nil => exact .nil
  | cons x rest ih =>
    have hone : ByKind [.receive x.1 x.2] 0 0 0 [x] [] := ⟨rfl, rfl, rfl, rfl, rfl⟩
    exact hone.append ih

theorem byKind_usbBytes (bytes : List UInt8) : ByKind (bytes.map .usbByte) 0 0 0 [] bytes := by
  induction bytes with
  | nil => exact .nil
  | cons b rest ih =>
    have hone : ByKind [.usbByte b] 0 0 0 [] [b] := ⟨rfl, rfl, rfl, rfl, rfl⟩
    exact hone.append ih

/-- A dongle keeps its address, and the numbers of its packets but for those it makes. -/
theorem numbers_next (d : Dongle) (input : DongleInput) :
    (Dongle.machine.next d input).radio.localMac = d.radio.localMac ∧
      (input.isPress = false → (Dongle.machine.next d input).beaconSeq = d.beaconSeq) ∧
      (input.isTelemetry = false → (Dongle.machine.next d input).telemSeq = d.telemSeq) := by
  have hsame : ∀ d' : Dongle, d'.radio.localMac = d.radio.localMac → d'.beaconSeq = d.beaconSeq →
      d'.telemSeq = d.telemSeq → d'.radio.localMac = d.radio.localMac ∧
        (input.isPress = false → d'.beaconSeq = d.beaconSeq) ∧
        (input.isTelemetry = false → d'.telemSeq = d.telemSeq) :=
    fun _ hmac hbeacon htelem => ⟨hmac, fun _ => hbeacon, fun _ => htelem⟩
  cases input with
  | buttonPress => exact ⟨rfl, fun h => Bool.noConfusion h, fun _ => rfl⟩
  | emitTelemetry payload jitterMs => exact ⟨rfl, fun _ => rfl, fun h => Bool.noConfusion h⟩
  | serviceBackoff elapsedMs txOk =>
    refine hsame (d.serviceBackoff elapsedMs txOk).1 ?_ ?_ ?_
    all_goals
      rw [Dongle.serviceBackoff]
      split
      · rfl
      · split
        · rfl
        · rfl
  | receive rx random =>
    refine hsame (d.receive rx random).1 ?_ ?_ ?_
    all_goals
      rw [Dongle.receive]
      dsimp only
      split
      · rfl
      · split
        · rfl
        · split
          · rfl
          · rfl
  | usbByte b =>
    refine hsame (d.usbByte b).1 ?_ ?_ ?_
    all_goals
      rw [Dongle.usbByte]
      split
      · rfl
      · rfl

theorem localMac_final (d : Dongle) (inputs : List DongleInput) :
    (Dongle.machine.final d inputs).radio.localMac = d.radio.localMac :=
  Machine.frame (fun d => d.radio.localMac) (fun d input _ => (numbers_next d input).1)
    (congrFun List.countP_false inputs)

/-- Only a press takes a beacon's number. -/
theorem beaconSeq_final {d : Dongle} {inputs : List DongleInput} (h : inputs.countP isPress = 0) :
    (Dongle.machine.final d inputs).beaconSeq = d.beaconSeq :=
  Machine.frame Dongle.beaconSeq (fun d input => (numbers_next d input).2.1) h

/-- Only a firing takes a number of telemetry. -/
theorem telemSeq_final {d : Dongle} {inputs : List DongleInput}
    (h : inputs.countP isTelemetry = 0) :
    (Dongle.machine.final d inputs).telemSeq = d.telemSeq :=
  Machine.frame Dongle.telemSeq (fun d input => (numbers_next d input).2.2) h

theorem localMac_of_acts {s : MainLoop D} {inputs : List DongleInput}
    {r : MainLoop D × List LoopOutput} (acts : Acts s inputs r) :
    r.1.radio.localMac = s.radio.localMac := by
  show r.1.dongle.radio.localMac = s.dongle.radio.localMac
  rw [acts.final, localMac_final]

theorem byKind_meshInputs (s : MainLoop D) (around : Surroundings) :
    ByKind (meshInputs tier postcard s around) 0 1 (if s.clocks.Due then 1 else 0)
      (packetsIn s.radio.localMac around.frames) [] := by
  have hservice : ByKind [.serviceBackoff 5 around.txOk] 0 1 0 [] [] := ⟨rfl, rfl, rfl, rfl, rfl⟩
  have hclocks := clocks_serviceBackoff s around.txOk
  have hmac := localMac_of_acts (acts_serviceBackoff s around.txOk)
  rw [meshInputs]
  generalize (s.serviceBackoff around.txOk).1 = s₁ at hclocks hmac ⊢
  have hmac₁ : (emitTelemetry tier postcard s₁ around).radio.localMac = s₁.radio.localMac :=
    localMac_of_acts (acts_emitTelemetry tier postcard s₁ around)
  -- The service before it does not change what is due.
  have htelemetry : ByKind (telemetryInputs tier postcard s₁ around) 0 0
      (if s.clocks.Due then 1 else 0) [] [] := by
    have hdue : s₁.clocks.Due ↔ saturatingAdd32 s₁.telemElapsedMs 5 ≥ s₁.nextTelemIntervalMs :=
      Iff.rfl
    rw [← hclocks, telemetryInputs]
    by_cases h : s₁.clocks.Due
    · rw [if_pos h, if_pos (hdue.mp h)]
      exact ⟨rfl, rfl, rfl, rfl, rfl⟩
    · rw [if_neg h, if_neg (mt hdue.mpr h)]
      exact .nil
  -- Nor does the work before them change for whom the frames are.
  have hframes : ByKind ((emitTelemetry tier postcard s₁ around).frameInputs around.frames) 0 0 0
      (packetsIn s.radio.localMac around.frames) [] := by
    rw [frameInputs_eq, hmac₁, hmac]
    exact byKind_frames _
  have hall := (hservice.append htelemetry).append hframes
  rw [List.singleton_append] at hall
  simpa only [Nat.zero_add, Nat.add_zero, List.nil_append, List.append_nil] using hall

/-- **The inputs of a turn.** -/
theorem byKind_turnInputs (s : MainLoop D) (around : Surroundings) :
    ByKind (turnInputs tier postcard s around)
      (if around.btnIsPressed && !s.btnWasPressed then 1 else 0)
      (if (s.tdmArbiter.advance 5).1 = .ieee802154Mesh then 1 else 0)
      (if (s.tdmArbiter.advance 5).1 = .ieee802154Mesh ∧ s.clocks.Due then 1 else 0)
      (if (s.tdmArbiter.advance 5).1 = .ieee802154Mesh then
        packetsIn s.radio.localMac around.frames else []) around.usbBytes := by
  have hbutton := byKind_buttonInputs s around.btnIsPressed
  have hclocks := clocks_beforeSlot s around.btnIsPressed
  have hmac := localMac_of_acts (acts_beforeSlot s around.btnIsPressed)
  rw [turnInputs]
  generalize (s.beforeSlot around.btnIsPressed).1 = s₁ at hclocks hmac ⊢
  -- The press before it does not change the slot's clocks.
  have hslot : ByKind (slotInputs tier postcard s₁ around (s.tdmArbiter.advance 5).1) 0
      (if (s.tdmArbiter.advance 5).1 = .ieee802154Mesh then 1 else 0)
      (if (s.tdmArbiter.advance 5).1 = .ieee802154Mesh ∧ s.clocks.Due then 1 else 0)
      (if (s.tdmArbiter.advance 5).1 = .ieee802154Mesh then
        packetsIn s.radio.localMac around.frames else []) [] := by
    cases (s.tdmArbiter.advance 5).1 with
    | ieee802154Mesh =>
      have hmesh := byKind_meshInputs tier postcard s₁ around
      have hdue : s₁.clocks.Due ↔ s.clocks.Due := by rw [hclocks]; exact Iff.rfl
      rw [hmac] at hmesh
      rw [slotInputs]
      simpa only [hdue, if_true, true_and] using hmesh
    | guardBand => exact .nil
    | bleCompanion => exact .nil
  have hall := (hbutton.append hslot).append (byKind_usbBytes around.usbBytes)
  simpa only [Nat.zero_add, Nat.add_zero, List.nil_append, List.append_nil] using hall

/-- A turn has one press and one firing of telemetry at most. -/
theorem turnInputs_once (s : MainLoop D) (around : Surroundings) :
    (turnInputs tier postcard s around).countP isPress ≤ 1 ∧
      (turnInputs tier postcard s around).countP isTelemetry ≤ 1 := by
  have hkinds := byKind_turnInputs tier postcard s around
  rw [hkinds.presses, hkinds.telemetry]
  constructor
  · split
    · exact le_rfl
    · exact Nat.zero_le 1
  · split
    · exact le_rfl
    · exact Nat.zero_le 1

/-! ### Runs -/

variable (crc32 : Checksum) [BlockDevice D]

theorem clocks_next (s : MainLoop D) (around : Surroundings) :
    ((machine crc32 tier postcard).next s around).clocks = s.clocks.turn tier around :=
  clocks_turn crc32 tier postcard s around

theorem Clocks.begin_of_turn (c : Clocks) (around : Surroundings) :
    (c.turn tier around).btnWasPressed = around.btnIsPressed ∧
      (c.turn tier around).tdmArbiter = (c.tdmArbiter.advance 5).2 ∧
      (c.turn tier around).loopTick = c.loopTick + 1 := by
  rw [Clocks.turn]
  split
  · rw [Clocks.pace]
    split
    · exact ⟨rfl, rfl, rfl⟩
    · exact ⟨rfl, rfl, rfl⟩
  · exact ⟨rfl, rfl, rfl⟩
  · exact ⟨rfl, rfl, rfl⟩

/-- The packets in the frames of the mesh's turns, counted from a turn. -/
def packetsHeard (localMac : Bytes 8) : ℕ → List Surroundings → List (ReceivedMeshPacket × UInt32)
  | _, [] => []
  | n, around :: rest =>
    (if TdmArbiter.IsMeshTurn n then packetsIn localMac around.frames else []) ++
      packetsHeard localMac (n + 1) rest

/-- **The inputs of a run.** -/
theorem byKind_runInputs {s : MainLoop D} {n : ℕ} (turns : s.tdmArbiter = .afterTurns n)
    (arounds : List Surroundings) :
    ∃ telemetry, ByKind (runInputs crc32 tier postcard s arounds)
      (edges s.btnWasPressed (arounds.map Surroundings.btnIsPressed))
      (TdmArbiter.meshTurns (n + arounds.length) - TdmArbiter.meshTurns n) telemetry
      (packetsHeard s.radio.localMac n arounds) (arounds.flatMap Surroundings.usbBytes) := by
  induction arounds generalizing s n with
  | nil =>
    refine ⟨0, ?_⟩
    rw [List.length_nil, Nat.add_zero, Nat.sub_self]
    exact .nil
  | cons around rest ih =>
    have hturn := byKind_turnInputs tier postcard s around
    have hclocks := clocks_next tier postcard crc32 s around
    obtain ⟨hbutton, harbiter, -⟩ := Clocks.begin_of_turn tier s.clocks around
    have hmac : ((machine crc32 tier postcard).next s around).radio.localMac = s.radio.localMac :=
      localMac_of_acts (acts_turn crc32 tier postcard s around)
    rw [← hclocks] at hbutton harbiter
    rw [runInputs_cons]
    generalize (machine crc32 tier postcard).next s around = s' at hbutton harbiter hmac ⊢
    -- The number of a turn decides its slot.
    have hslot : (s.tdmArbiter.advance 5).1 = TdmArbiter.slotOfTurn n := by
      rw [turns]
      rfl
    have hturns : s'.tdmArbiter = .afterTurns (n + 1) := by
      have hnext : s'.tdmArbiter = (s.tdmArbiter.advance 5).2 := harbiter
      rw [hnext, turns]
      rfl
    obtain ⟨telemetry, hrest⟩ := ih hturns
    have hpressed : s'.btnWasPressed = around.btnIsPressed := hbutton
    have hall := hturn.append hrest
    have hmono : TdmArbiter.meshTurns (n + 1) ≤ TdmArbiter.meshTurns (n + 1 + rest.length) :=
      Nat.count_monotone _ (Nat.le_add_right _ _)
    have hservices : (if TdmArbiter.slotOfTurn n = .ieee802154Mesh then 1 else 0) +
          (TdmArbiter.meshTurns (n + 1 + rest.length) - TdmArbiter.meshTurns (n + 1)) =
        TdmArbiter.meshTurns (n + (around :: rest).length) - TdmArbiter.meshTurns n := by
      have hlen : n + (around :: rest).length = n + 1 + rest.length := by
        rw [List.length_cons]
        omega
      have hcount := TdmArbiter.meshTurns_succ n
      rw [hlen]
      omega
    rw [hslot, hpressed, hmac, hservices] at hall
    exact ⟨_, hall⟩

/-- **The loop is a dongle.** All that the loop broadcasts and prints, in any run, is what a
dongle does with these inputs: a press for each edge of the button, a service of the queue
for each turn of the mesh, the telemetry that its timer makes and the packets that are heard
in these turns, and all bytes of the host. -/
theorem loop_refines_dongle (fullMac : Bytes 8) (storage : DynamicStorageManager D)
    (random : UInt32) (arounds : List Surroundings) :
    let s := boot tier fullMac storage random
    let inputs := runInputs crc32 tier postcard s arounds
    ((machine crc32 tier postcard).outputs s arounds).filterMap LoopOutput.traffic? =
        Dongle.machine.outputs (.boot fullMac) inputs ∧
      ((machine crc32 tier postcard).final s arounds).dongle =
        Dongle.machine.final (.boot fullMac) inputs ∧
      inputs.countP isPress = edges false (arounds.map Surroundings.btnIsPressed) ∧
      inputs.countP isService = TdmArbiter.meshTurns arounds.length ∧
      inputs.filterMap received? = packetsHeard fullMac 0 arounds ∧
      inputs.filterMap usbByte? = arounds.flatMap Surroundings.usbBytes := by
  intro s inputs
  obtain ⟨houtputs, hfinal⟩ := run_traffic crc32 tier postcard s arounds
  obtain ⟨telemetry, hkinds⟩ := byKind_runInputs tier postcard crc32
    (s := s) (show s.tdmArbiter = .afterTurns 0 from rfl) arounds
  have hservices := hkinds.services
  rw [Nat.zero_add] at hservices
  exact ⟨houtputs, hfinal, hkinds.presses, hservices, hkinds.received, hkinds.usbBytes⟩

end MainLoop

end Gibberish.Firmware
