/-
# What the loop stores

The ring and the storage of the loop are those of a station: every packet that a turn
reports, to the host or from it, is pushed once, and then the ring is flushed. So at any
time the packets reported are, in order, those that were evicted and counted, those that
are written, and those that wait in the ring.
-/

import Gibberish.Firmware.LoopClocks
import Gibberish.Storage.Flush
import Gibberish.Storage.RingRun

set_option autoImplicit false

namespace Gibberish.Firmware

open Gibberish.Foundation Gibberish.Protocol Gibberish.Storage

/-- The packet that an output reports. -/
def LoopOutput.reported? : LoopOutput → Option MeshPacket
  | traffic (.pktLine _ packet) => some packet
  | traffic (.usbRx packet) => some packet
  | _ => none

namespace MainLoop

variable {D : Type}

/-- The ring and the storage of the loop. -/
def station (s : MainLoop (Recorder D)) : Station D := ⟨s.storage, s.sramRing⟩

/-- The packets that some outputs report. -/
def reported (out : List LoopOutput) : List MeshPacket := out.filterMap LoopOutput.reported?

variable [BlockDevice D] (crc32 : Checksum)

/-- A part of a turn pushes what it reports. -/
def Pushes (s : MainLoop (Recorder D)) (r : MainLoop (Recorder D) × List LoopOutput) : Prop :=
  r.1.station = (Station.machine crc32).final s.station ((reported r.2).map .push)

section Pushes

variable {crc32} {s : MainLoop (Recorder D)} {r r' : MainLoop (Recorder D) × List LoopOutput}

theorem Pushes.comp (h : Pushes crc32 s r) (h' : Pushes crc32 r.1 r') :
    Pushes crc32 s (r'.1, r.2 ++ r'.2) := by
  rw [Pushes] at h h' ⊢
  rw [h', h, reported, reported, reported, List.filterMap_append, List.map_append,
    Machine.final_append]

theorem pushes_aside (station : r.1.station = s.station) (quiet : reported r.2 = []) :
    Pushes crc32 s r := by
  rw [Pushes, quiet]
  exact station

end Pushes

theorem pushes_beforeSlot (s : MainLoop (Recorder D)) (btnIsPressed : Bool) :
    Pushes crc32 s (s.beforeSlot btnIsPressed) := by
  -- A beacon goes on the air, and is not stored.
  have hpress : ∀ s : MainLoop (Recorder D),
      s.pressButton.1.station = s.station ∧ reported s.pressButton.2 = [] := by
    intro s
    rw [pressButton]
    dsimp only
    split
    · exact ⟨rfl, rfl⟩
    · exact ⟨rfl, rfl⟩
  rw [beforeSlot, checkButton]
  dsimp only
  cases btnIsPressed && !s.btnWasPressed with
  | false => exact pushes_aside rfl rfl
  | true => exact pushes_aside (hpress _).1 (hpress _).2

theorem pushes_serviceBackoff (s : MainLoop (Recorder D)) (txOk : Bool) :
    Pushes crc32 s (s.serviceBackoff txOk) := by
  rw [serviceBackoff]
  generalize s.backoff.tick 5 = ticked
  obtain ⟨_ | _, backoff⟩ := ticked
  · exact pushes_aside rfl rfl
  · dsimp only
    generalize backoff.takePending = taken
    obtain ⟨_ | packet, backoff⟩ := taken
    · exact pushes_aside rfl rfl
    · cases txOk with
      | true => exact pushes_aside rfl rfl
      | false => exact pushes_aside rfl rfl

theorem pushes_receive (s : MainLoop (Recorder D)) (rx : ReceivedMeshPacket) (random : UInt32) :
    Pushes crc32 s (s.receive rx random) := by
  rw [receive]
  dsimp only
  split
  · exact pushes_aside rfl rfl
  · split
    · exact pushes_aside rfl rfl
    · split
      · exact pushes_aside rfl rfl
      -- Only what is new goes to the host, and that is what is pushed.
      · exact rfl

theorem pushes_pollFrames (s : MainLoop (Recorder D)) (frames : List (List UInt8 × UInt32)) :
    Pushes crc32 s (s.pollFrames frames) := by
  induction frames generalizing s with
  | nil => exact pushes_aside rfl rfl
  | cons frame rest ih =>
    obtain ⟨data, random⟩ := frame
    rw [pollFrames]
    cases s.radio.receiveRaw data with
    | none => exact ih s
    | some rx => exact (pushes_receive crc32 s rx random).comp (ih _)

theorem pushes_usbByte (s : MainLoop (Recorder D)) (b : UInt8) : Pushes crc32 s (s.usbByte b) := by
  rw [usbByte]
  dsimp only
  split
  · exact pushes_aside rfl rfl
  · exact rfl

theorem pushes_drainUsb (s : MainLoop (Recorder D)) (bytes : List UInt8) :
    Pushes crc32 s (s.drainUsb bytes) := by
  induction bytes generalizing s with
  | nil => exact pushes_aside rfl rfl
  | cons b rest ih => exact (pushes_usbByte crc32 s b).comp (ih _)

section Slot

variable (tier : TelemetryTier) (postcard : Postcard)

theorem pushes_emitTelemetry (s : MainLoop (Recorder D)) (around : Surroundings) :
    Pushes crc32 s (emitTelemetry tier postcard s around, []) := by
  rw [emitTelemetry]
  dsimp only
  split
  · exact pushes_aside rfl rfl
  · exact pushes_aside rfl rfl

theorem pushes_slotWork (s : MainLoop (Recorder D)) (around : Surroundings) (slot : RadioSlot) :
    Pushes crc32 s (slotWork tier postcard s around slot) := by
  cases slot with
  | ieee802154Mesh =>
    exact (pushes_serviceBackoff crc32 s around.txOk).comp
      ((pushes_emitTelemetry crc32 tier postcard _ around).comp
        (pushes_pollFrames crc32 _ around.frames))
  | guardBand => exact pushes_aside rfl rfl
  | bleCompanion => exact pushes_aside rfl rfl

end Slot

omit [BlockDevice D] in
/-- The light, the uptime and the dashboard are nothing to the station. -/
theorem report_aside (s : MainLoop (Recorder D)) :
    s.report.1.station = s.station ∧ reported s.report.2 = [] := by
  obtain ⟨step, pixel, hled⟩ := s.showLed_eq
  have huptime : ∀ s : MainLoop (Recorder D),
      s.countUptime.1.station = s.station ∧ reported s.countUptime.2 = [] := by
    intro s
    rw [countUptime]
    split
    · refine ⟨rfl, ?_⟩
      dsimp only
      split
      · rfl
      · rfl
    · exact ⟨rfl, rfl⟩
  have hdashboard : ∀ s : MainLoop (Recorder D),
      s.showDashboard.1.station = s.station ∧ reported s.showDashboard.2 = [] := by
    intro s
    rw [showDashboard]
    split
    · exact ⟨rfl, rfl⟩
    · exact ⟨rfl, rfl⟩
  rw [report, hled]
  dsimp only
  constructor
  · rw [(hdashboard _).1, (huptime _).1]
    rfl
  · rw [reported, List.filterMap_append, List.filterMap_append, ← reported, ← reported, ← reported,
      (hdashboard _).2, (huptime _).2]
    rfl

/-! ### Turns and runs -/

variable (tier : TelemetryTier) (postcard : Postcard)

/-- What a turn does to the station, by what it reports. -/
def turnActions (out : List LoopOutput) : List StationAction :=
  (reported out).map .push ++ [.flush]

theorem pushes_work (s : MainLoop (Recorder D)) (around : Surroundings) :
    Pushes crc32 s (work tier postcard s around) := by
  have hslot := (pushes_beforeSlot crc32 s around.btnIsPressed).comp
    (pushes_slotWork crc32 tier postcard _ around (s.tdmArbiter.advance 5).1)
  exact hslot.comp (pushes_drainUsb crc32 _ around.usbBytes)

/-- **A turn.** It pushes what it reports, and flushes. -/
theorem station_turn (s : MainLoop (Recorder D)) (around : Surroundings) :
    (turn crc32 tier postcard s around).1.station =
      (Station.machine crc32).final s.station
        (turnActions (turn crc32 tier postcard s around).2) := by
  have hworked := pushes_work crc32 tier postcard s around
  rw [turn]
  generalize work tier postcard s around = worked at hworked ⊢
  obtain ⟨hstation, hquiet⟩ := report_aside (worked.1.flush crc32)
  -- What comes after the flush reports no packet.
  have hall : reported (worked.2 ++ (worked.1.flush crc32).report.2) = reported worked.2 := by
    rw [reported, List.filterMap_append, ← reported, ← reported, hquiet, List.append_nil]
  rw [Pushes] at hworked
  dsimp only
  rw [turnActions, hall, Machine.final_append, ← hworked]
  exact hstation

/-- What a run does to the station. -/
def runActions (s : MainLoop (Recorder D)) (arounds : List Surroundings) : List StationAction :=
  ((machine crc32 tier postcard).trace s arounds).flatMap fun x =>
    turnActions ((machine crc32 tier postcard).emit x.1 x.2)

/-- **A run.** -/
theorem station_run (s : MainLoop (Recorder D)) (arounds : List Surroundings) :
    ((machine crc32 tier postcard).final s arounds).station =
      (Station.machine crc32).final s.station (runActions crc32 tier postcard s arounds) := by
  induction arounds generalizing s with
  | nil => rfl
  | cons around rest ih =>
    have hturn : ((machine crc32 tier postcard).next s around).station = _ :=
      station_turn crc32 tier postcard s around
    have hactions : runActions crc32 tier postcard s (around :: rest) =
        turnActions (turn crc32 tier postcard s around).2 ++
          runActions crc32 tier postcard ((machine crc32 tier postcard).next s around) rest := rfl
    rw [Machine.final_cons, ih, hactions, Machine.final_append, hturn]

/-- What a run pushes is what it reports. -/
theorem pushed_runActions (s : MainLoop (Recorder D)) (arounds : List Surroundings) :
    (runActions crc32 tier postcard s arounds).filterMap StationAction.pushed =
      reported ((machine crc32 tier postcard).outputs s arounds) := by
  have hturn : ∀ out, (turnActions out).filterMap StationAction.pushed = reported out := by
    intro out
    rw [turnActions, List.filterMap_append, List.filterMap_map]
    show (reported out).filterMap some ++ [] = _
    rw [List.filterMap_some, List.append_nil]
  induction arounds generalizing s with
  | nil => rfl
  | cons around rest ih =>
    rw [runActions, Machine.trace_cons, List.flatMap_cons, List.filterMap_append, hturn,
      Machine.outputs_cons, reported, reported, List.filterMap_append, ← reported, ← reported,
      ← ih]
    rfl

end MainLoop

/-! ### The counter of the ring -/

namespace Station

open Gibberish.Storage.Station

variable {D : Type} [BlockDevice D] (crc32 : Checksum)

/-- A flush counts nothing. -/
theorem droppedOverflow_flush (s : Station D) :
    ((machine crc32).next s .flush).ring.droppedOverflow = s.ring.droppedOverflow := by
  -- A round takes a packet out of the ring or leaves it, and puts none in.
  have hround : ∀ (sm : DynamicStorageManager (Recorder D)) ring sm' ring',
      ring.droppedOverflow = s.ring.droppedOverflow →
      DynamicStorageManager.Round crc32 sm ring sm' ring' →
      ring'.droppedOverflow = s.ring.droppedOverflow := by
    intro sm ring sm' ring' hring hround
    cases hround with
    | idle => exact hring
    | confirmed dev dev' packet rest active device queue written =>
      rw [← hring, SramRingBuffer.pop]
      split
      · rfl
      · rfl
    | refused dev dev' packet rest e active device queue written => exact hring
  exact DynamicStorageManager.Rounds.preserves
    (fun _ ring => ring.droppedOverflow = s.ring.droppedOverflow) hround
    (DynamicStorageManager.flushFromSram_rounds s.manager s.ring) rfl

/-- **The counter.** It counts what is evicted, up to its largest number. -/
theorem toNat_droppedOverflow_final (s : Station D) (actions : List StationAction) :
    ((machine crc32).final s actions).ring.droppedOverflow.toNat =
      min (s.ring.droppedOverflow.toNat + ((machine crc32).outputs s actions).length)
        (2 ^ 32 - 1) := by
  induction actions generalizing s with
  | nil =>
    have hlt := s.ring.droppedOverflow.toNat_lt
    rw [Machine.final_nil, Machine.outputs_nil, List.length_nil]
    omega
  | cons action rest ih =>
    rw [Machine.final_cons, ih, Machine.outputs_cons, List.length_append]
    cases action with
    | push packet =>
      have hcount := SramRingBuffer.toNat_droppedOverflow_next s.ring (.push packet)
      -- A push into a full ring evicts one packet, and counts one.
      have hone : ((machine crc32).emit s (.push packet)).length =
          if Fifo.Evicts sramRingCapacity s.ring.packets (.push packet) then 1 else 0 := by
        have hevicts := s.ring.push_evicts_iff packet
        have hfull : Fifo.Evicts sramRingCapacity s.ring.packets (.push packet) ↔
            s.ring.count = sramRingCapacity := by
          rw [← SramRingBuffer.length_packets]
          rfl
        show (s.ring.push packet).1.toList.length = _
        simp only [hfull, ← hevicts]
        cases (s.ring.push packet).1 with
        | none => rfl
        | some evicted => rfl
      have hring : ((machine crc32).next s (.push packet)).ring =
        SramRingBuffer.machine.next s.ring (.push packet) := rfl
      rw [hone, hring, hcount]
      omega
    | flush =>
      -- A flush evicts nothing, and counts nothing.
      rw [droppedOverflow_flush]
      show _ = min (_ + (0 + _)) _
      rw [Nat.zero_add]

end Station

namespace MainLoop

variable {D : Type} [BlockDevice D] (crc32 : Checksum) (tier : TelemetryTier) (postcard : Postcard)

/-- **Conservation.** On any card or none, in any run: the packets that the loop has printed
for the host or taken from it are, in order, those that were evicted, which the counter
counts, those whose records are confirmed, numbered without a gap, and the 256 at most that
wait in the ring. -/
theorem loop_conserves_packets (fullMac : Bytes 8) (sdDevice : Option D) (random : UInt32)
    (arounds : List Surroundings) :
    let storage := mount crc32 (sdDevice.map fun dev => (⟨dev, []⟩ : Recorder D))
    let s := (machine crc32 tier postcard).final (boot tier fullMac storage random) arounds
    let out := (machine crc32 tier postcard).outputs (boot tier fullMac storage random) arounds
    ∃ evicted, Station.Partitioned crc32 s.station (reported out) evicted ∧
      s.sramRing.droppedCount.toNat = min evicted.length (2 ^ 32 - 1) ∧
      s.sramRing.packets.length ≤ sramRingCapacity ∧
      (Station.HasRoom s.station → Station.Numbered crc32 ⟨storage, .new⟩ s.station) := by
  intro storage s out
  have hstarted : Station.Started crc32 (⟨storage, .new⟩ : Station D) := by
    refine ⟨rfl, ?_⟩
    cases sdDevice with
    | none => exact Or.inl rfl
    | some dev => exact Or.inr ⟨dev, rfl⟩
  obtain ⟨hring, hcalls, -⟩ := hstarted.fresh
  have hrun : s.station = _ :=
    station_run crc32 tier postcard (boot tier fullMac storage random) arounds
  have hpushed :=
    pushed_runActions crc32 tier postcard (boot tier fullMac storage random) arounds
  generalize runActions crc32 tier postcard (boot tier fullMac storage random) arounds = actions
    at hrun hpushed
  obtain ⟨hpartitioned, hnumbered⟩ := Station.conserved_final hring hcalls actions
  have hdropped := Station.toNat_droppedOverflow_final crc32 ⟨storage, .new⟩ actions
  have hsame : (Station.machine crc32).final ⟨storage, .new⟩ actions = s.station := hrun.symm
  rw [hsame] at hpartitioned hnumbered hdropped
  rw [hpushed] at hpartitioned
  refine ⟨_, hpartitioned, ?_, ?_, hnumbered⟩
  · show s.station.ring.droppedOverflow.toNat = _
    rw [hdropped]
    show min (0 + _) _ = _
    rw [Nat.zero_add]
  · rw [SramRingBuffer.length_packets]
    exact s.sramRing.count_le

end MainLoop

end Gibberish.Firmware
