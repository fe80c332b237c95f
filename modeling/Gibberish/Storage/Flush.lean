/-
# What flushes do with packets

The live ring and the manager on one device, through any pushes and flushes. The
device may answer each write as it likes; its calls are recorded. Every packet pushed
is evicted by a full ring, or written in one confirmed record, or still in the ring,
and the confirmed records are numbered consecutively, in the order of the packets.
-/

import Gibberish.Foundation.Machine
import Gibberish.Storage.Manager

set_option autoImplicit false

namespace Gibberish.Storage

open Gibberish.Foundation Gibberish.Protocol

/-- A call of `write_block` and its answer. -/
structure WriteCall where
  lba : UInt32
  block : Bytes sectorSize
  answer : Except StorageError Unit

/-- A device that keeps its write calls. -/
structure Recorder (D : Type) where
  device : D
  calls : List WriteCall

variable {D : Type} [BlockDevice D]

instance : BlockDevice (Recorder D) where
  readBlock recorder lba :=
    let (answer, dev) := BlockDevice.readBlock recorder.device lba
    (answer, ⟨dev, recorder.calls⟩)
  writeBlock recorder lba block :=
    let (answer, dev) := BlockDevice.writeBlock recorder.device lba block
    (answer, ⟨dev, recorder.calls ++ [⟨lba, block, answer⟩]⟩)

/-- A write is recorded with its answer. -/
theorem calls_of_writeBlock {recorder recorder' : Recorder D} {lba : UInt32}
    {block : Bytes sectorSize} {answer : Except StorageError Unit}
    (h : BlockDevice.writeBlock recorder lba block = (answer, recorder')) :
    recorder'.calls = recorder.calls ++ [⟨lba, block, answer⟩] := by
  obtain ⟨hanswer, hrecorder⟩ := Prod.mk.inj h
  rw [← hrecorder, ← hanswer]

variable (crc32 : Checksum)

namespace WriteCall

/-- The record a call wrote, at its LBA, if the call was answered with `Ok`. -/
def confirmedRecord (call : WriteCall) : Option (UInt32 × ChunkRecord) :=
  match call.answer with
  | .ok _ => (recordOf crc32 call.block).map (call.lba, ·)
  | .error _ => none

/-- The record a call failed to write, at its LBA. -/
def refusedRecord (call : WriteCall) : Option (UInt32 × ChunkRecord) :=
  match call.answer with
  | .ok _ => none
  | .error _ => (recordOf crc32 call.block).map (call.lba, ·)

end WriteCall

/-- The records whose writes were confirmed. -/
def confirmedRecords (calls : List WriteCall) : List (UInt32 × ChunkRecord) :=
  calls.filterMap (WriteCall.confirmedRecord crc32)

/-- The records whose writes were refused. -/
def refusedRecords (calls : List WriteCall) : List (UInt32 × ChunkRecord) :=
  calls.filterMap (WriteCall.refusedRecord crc32)

/-- The manager and the ring of one dongle. -/
structure Station (D : Type) where
  manager : DynamicStorageManager (Recorder D)
  ring : SramRingBuffer

inductive StationAction where
  | push (packet : MeshPacket)
  | flush

/-- The packet an action pushes. -/
def StationAction.pushed : StationAction → Option MeshPacket
  | .push packet => some packet
  | .flush => none

namespace Station

/-- The write calls so far. -/
def calls (s : Station D) : List WriteCall := (s.manager.device.map Recorder.calls).getD []

/-- A push may evict a packet; a flush writes. -/
def step (s : Station D) : StationAction → Station D × List MeshPacket
  | .push packet =>
    let (evicted, ring) := s.ring.push packet
    ({ s with ring := ring }, evicted.toList)
  | .flush =>
    let (manager, ring) := s.manager.flushFromSram crc32 s.ring
    (⟨manager, ring⟩, [])

/-- The station as a machine that emits the packets it evicts. -/
def machine : Machine (Station D) StationAction MeshPacket := ⟨step crc32⟩

/-- The state after a flush. -/
def flushed (s : Station D) : Station D := (machine crc32).next s .flush

/-- A station that just started, with or without a device. -/
def Started (s : Station D) : Prop :=
  s.ring = .new ∧ (s.manager = .newRamOnly ∨
    ∃ dev : D, s.manager = .newWithDevice crc32 ⟨dev, []⟩)

/-! ### One round -/

/-- A call that writes a checkpoint writes no record. -/
theorem confirmedRecord_checkpoint (lba : UInt32) (ckpt : CheckpointSector)
    (answer : Except StorageError Unit) :
    WriteCall.confirmedRecord crc32 ⟨lba, ckpt.serialize crc32, answer⟩ = none := by
  cases answer with
  | ok _ => simp [WriteCall.confirmedRecord]
  | error _ => rfl

theorem refusedRecord_checkpoint (lba : UInt32) (ckpt : CheckpointSector)
    (answer : Except StorageError Unit) :
    WriteCall.refusedRecord crc32 ⟨lba, ckpt.serialize crc32, answer⟩ = none := by
  cases answer with
  | ok _ => rfl
  | error _ => simp [WriteCall.refusedRecord]

/-- What a round does to the ring, the position and the calls: nothing, or one packet
written, or one packet refused. -/
inductive Effect (s s' : Station D) : Prop where
  | idle (ring : s'.ring.packets = s.ring.packets) (mode : s'.manager.mode = s.manager.mode)
      (sequence : s'.manager.currentSequence = s.manager.currentSequence)
      (lba : s'.manager.currentLba = s.manager.currentLba)
      (calls : s'.calls = s.calls)
  | wrote (packet : MeshPacket) (newCalls : List WriteCall)
      (active : s.manager.mode = .microSdActive)
      (ring : s.ring.packets = packet :: s'.ring.packets)
      (mode : s'.manager.mode = s.manager.mode)
      (sequence : s'.manager.currentSequence = saturatingSucc64 s.manager.currentSequence)
      (lba : s'.manager.currentLba = saturatingSucc32 s.manager.currentLba)
      (calls : s'.calls = s.calls ++ newCalls)
      (confirmed : confirmedRecords crc32 newCalls =
        [(s.manager.currentLba, s.manager.nextRecord packet)])
      (refused : refusedRecords crc32 newCalls = [])
  | refused (packet : MeshPacket) (rest : List MeshPacket) (newCalls : List WriteCall)
      (active : s.manager.mode = .microSdActive)
      (queue : s.ring.packets = packet :: rest)
      (ring : s'.ring.packets = s.ring.packets) (mode : s'.manager.mode = .ramOnly)
      (sequence : s'.manager.currentSequence = s.manager.currentSequence)
      (lba : s'.manager.currentLba = s.manager.currentLba)
      (calls : s'.calls = s.calls ++ newCalls)
      (confirmed : confirmedRecords crc32 newCalls = [])
      (refused : refusedRecords crc32 newCalls =
        [(s.manager.currentLba, s.manager.nextRecord packet)])

theorem confirmedRecord_ok (lba : UInt32) (block : Bytes sectorSize) :
    WriteCall.confirmedRecord crc32 ⟨lba, block, .ok ()⟩ = (recordOf crc32 block).map (lba, ·) :=
  rfl

theorem refusedRecord_error (lba : UInt32) (block : Bytes sectorSize) (e : StorageError) :
    WriteCall.refusedRecord crc32 ⟨lba, block, .error e⟩ = (recordOf crc32 block).map (lba, ·) :=
  rfl

variable {crc32}

/-- The calls a due checkpoint adds hold no record. -/
theorem calls_checkpointIfDue (sm : DynamicStorageManager (Recorder D)) (ring : SramRingBuffer) :
    ∃ newCalls, calls ⟨sm.checkpointIfDue crc32, ring⟩ = calls ⟨sm, ring⟩ ++ newCalls ∧
      confirmedRecords crc32 newCalls = [] ∧ refusedRecords crc32 newCalls = [] := by
  by_cases hdue : sm.currentSequence % 16 = 0
  · cases hdevice : sm.device with
    | none =>
      refine ⟨[], ?_, rfl, rfl⟩
      simp only [DynamicStorageManager.checkpointIfDue, if_pos hdue, hdevice, calls]
      rfl
    | some dev =>
      obtain ⟨answer, dev', hwritten⟩ : ∃ answer dev', BlockDevice.writeBlock dev sm.checkpointLba
          (sm.checkpoint.serialize crc32) = (answer, dev') := ⟨_, _, rfl⟩
      refine ⟨[⟨sm.checkpointLba, sm.checkpoint.serialize crc32, answer⟩], ?_, ?_, ?_⟩
      · simp only [DynamicStorageManager.checkpointIfDue, if_pos hdue, hdevice, hwritten, calls]
        exact calls_of_writeBlock hwritten
      · rw [confirmedRecords, List.filterMap_cons, confirmedRecord_checkpoint]
        rfl
      · rw [refusedRecords, List.filterMap_cons, refusedRecord_checkpoint]
        rfl
  · refine ⟨[], ?_, rfl, rfl⟩
    rw [DynamicStorageManager.checkpointIfDue, if_neg hdue, List.append_nil]

/-- Every round has one of the three effects. -/
theorem effect_of_round {sm sm' : DynamicStorageManager (Recorder D)} {ring ring' : SramRingBuffer}
    (round : DynamicStorageManager.Round crc32 sm ring sm' ring') :
    Effect crc32 ⟨sm, ring⟩ ⟨sm', ring'⟩ := by
  cases round with
  | idle => exact .idle rfl rfl rfl rfl rfl
  | confirmed dev dev' packet rest active device queue written =>
    obtain ⟨ckptCalls, hcalls, hconfirmed, hrefused⟩ :=
      calls_checkpointIfDue (sm.advance dev') ring.pop.2
    have hpop : ring.packets = packet :: ring.pop.2.packets := by
      rw [ring.pop_spec.2, queue, List.tail_cons]
    refine .wrote packet
      (⟨sm.currentLba, recordBlock crc32 (sm.nextRecord packet), .ok ()⟩ :: ckptCalls) active hpop
      (DynamicStorageManager.mode_checkpointIfDue _)
      (DynamicStorageManager.currentSequence_checkpointIfDue _)
      (DynamicStorageManager.currentLba_checkpointIfDue _) ?_ ?_ ?_
    · rw [hcalls, List.append_cons]
      simp only [calls, DynamicStorageManager.advance, device, Option.map_some, Option.getD_some,
        calls_of_writeBlock written]
    · rw [confirmedRecords, List.filterMap_cons, ← confirmedRecords, hconfirmed,
        confirmedRecord_ok, recordOf_recordBlock, Option.map_some]
    · rw [refusedRecords, List.filterMap_cons, ← refusedRecords, hrefused]
      rfl
  | refused dev dev' packet rest e active device queue written =>
    refine .refused packet rest [⟨sm.currentLba, recordBlock crc32 (sm.nextRecord packet), .error e⟩]
      active queue rfl rfl rfl rfl ?_ rfl ?_
    · simp only [calls, DynamicStorageManager.fallBack, device, Option.map_some, Option.getD_some,
        calls_of_writeBlock written]
    · rw [refusedRecords, List.filterMap_cons, refusedRecord_error, recordOf_recordBlock,
        Option.map_some, List.filterMap_nil]

/-! ### One call -/

/-- Where a round changes nothing, rounds do not either. -/
theorem eq_of_rounds_of_idle {n : ℕ} {sm sm' : DynamicStorageManager (Recorder D)}
    {ring ring' : SramRingBuffer}
    (rounds : DynamicStorageManager.Rounds crc32 n sm ring sm' ring')
    (idle : ∀ sm₁ ring₁, DynamicStorageManager.Round crc32 sm ring sm₁ ring₁ →
      sm₁ = sm ∧ ring₁ = ring) : sm' = sm ∧ ring' = ring := by
  induction rounds with
  | done n sm ring => exact ⟨rfl, rfl⟩
  | more first _ ih =>
    obtain ⟨rfl, rfl⟩ := idle _ _ first
    exact ih idle

/-- Without a card, rounds do nothing. -/
theorem eq_of_rounds_ramOnly {n : ℕ} {sm sm' : DynamicStorageManager (Recorder D)}
    {ring ring' : SramRingBuffer}
    (rounds : DynamicStorageManager.Rounds crc32 n sm ring sm' ring') (h : sm.mode = .ramOnly) :
    sm' = sm ∧ ring' = ring := by
  apply eq_of_rounds_of_idle rounds
  intro sm₁ ring₁ first
  cases first with
  | idle => exact ⟨rfl, rfl⟩
  | confirmed _ _ _ _ active => exact absurd (h.symm.trans active) (by decide)
  | refused _ _ _ _ _ active => exact absurd (h.symm.trans active) (by decide)

/-- Without packets, rounds do nothing. -/
theorem eq_of_rounds_empty {n : ℕ} {sm sm' : DynamicStorageManager (Recorder D)}
    {ring ring' : SramRingBuffer}
    (rounds : DynamicStorageManager.Rounds crc32 n sm ring sm' ring') (h : ring.packets = []) :
    sm' = sm ∧ ring' = ring := by
  apply eq_of_rounds_of_idle rounds
  intro sm₁ ring₁ first
  cases first with
  | idle => exact ⟨rfl, rfl⟩
  | confirmed _ _ _ _ _ _ queue => exact absurd (queue.symm.trans h) (List.cons_ne_nil _ _)
  | refused _ _ _ _ _ _ _ queue => exact absurd (queue.symm.trans h) (List.cons_ne_nil _ _)

/-- What a call did, with the packets it took off the ring and the writes it made: they
are the confirmed ones, and a refused record is still the next one to be written. -/
structure CallEffect (crc32 : Checksum) (n : ℕ) (s s' : Station D) (taken : List MeshPacket)
    (newCalls : List WriteCall) : Prop where
  ring : s.ring.packets = taken ++ s'.ring.packets
  calls : s'.calls = s.calls ++ newCalls
  payloads : (confirmedRecords crc32 newCalls).map (fun r => r.2.ciphertext) =
    taken.map MeshPacket.payload
  bounded : (confirmedRecords crc32 newCalls).length + (refusedRecords crc32 newCalls).length ≤ n
  refused : ∀ r ∈ refusedRecords crc32 newCalls, s'.manager.mode = .ramOnly ∧
    ∃ packet rest, s'.ring.packets = packet :: rest ∧
      r = (s'.manager.currentLba, s'.manager.nextRecord packet)

omit [BlockDevice D] in
theorem CallEffect.nothing (n : ℕ) (s : Station D) : CallEffect crc32 n s s [] [] :=
  ⟨rfl, (List.append_nil _).symm, rfl, Nat.zero_le n, fun _ h => absurd h List.not_mem_nil⟩

/-- The effect of some rounds. -/
theorem callEffect_of_rounds {n : ℕ} {sm sm' : DynamicStorageManager (Recorder D)}
    {ring ring' : SramRingBuffer}
    (rounds : DynamicStorageManager.Rounds crc32 n sm ring sm' ring') :
    ∃ taken newCalls, CallEffect crc32 n ⟨sm, ring⟩ ⟨sm', ring'⟩ taken newCalls := by
  induction rounds with
  | done n sm ring => exact ⟨[], [], CallEffect.nothing n _⟩
  | more first rest ih =>
    obtain ⟨taken, newCalls, effect⟩ := ih
    rcases effect_of_round first with
      ⟨hring, -, -, -, hcalls⟩ |
      ⟨packet, firstCalls, -, hring, -, -, -, hcalls, hconfirmed, hrefused⟩ |
      ⟨packet, queue, firstCalls, -, hqueue, hring, hmode, hsequence, hlba, hcalls, hconfirmed,
        hrefused⟩
    · exact ⟨taken, newCalls, hring ▸ effect.ring, hcalls ▸ effect.calls, effect.payloads,
        effect.bounded.trans (Nat.le_succ _), effect.refused⟩
    · refine ⟨packet :: taken, firstCalls ++ newCalls, ?_, ?_, ?_, ?_, ?_⟩
      · rw [hring, effect.ring, List.cons_append]
      · rw [effect.calls, hcalls, List.append_assoc]
      · rw [confirmedRecords, List.filterMap_append, ← confirmedRecords, ← confirmedRecords,
          hconfirmed, List.map_append, effect.payloads]
        rfl
      · have hbounded := effect.bounded
        rw [confirmedRecords, refusedRecords, List.filterMap_append, List.filterMap_append,
          ← confirmedRecords, ← confirmedRecords, ← refusedRecords, ← refusedRecords, hconfirmed,
          hrefused, List.length_append, List.length_append, List.length_singleton, List.length_nil]
        omega
      · rw [refusedRecords, List.filterMap_append, ← refusedRecords, ← refusedRecords, hrefused,
          List.nil_append]
        exact effect.refused
    -- A refused record ends the call, so the rest of the rounds do nothing.
    · obtain ⟨rfl, rfl⟩ := eq_of_rounds_ramOnly rest hmode
      refine ⟨[], firstCalls, hring.symm, hcalls, ?_, ?_, ?_⟩
      · rw [hconfirmed]
        rfl
      · rw [hconfirmed, hrefused, List.length_nil, List.length_singleton]
        omega
      · intro r hr
        rw [hrefused, List.mem_singleton] at hr
        refine ⟨hmode, packet, queue, hring.trans hqueue, hr.trans ?_⟩
        rw [hlba, DynamicStorageManager.nextRecord, DynamicStorageManager.nextRecord, hsequence]

/-- **One flush.** It writes at most two records, takes the packets off the ring whose
records were confirmed, and after a refused record the storage is off. -/
theorem callEffect_flushed (s : Station D) :
    ∃ taken newCalls, CallEffect crc32 2 s (s.flushed crc32) taken newCalls :=
  callEffect_of_rounds (DynamicStorageManager.flushFromSram_rounds s.manager s.ring)

/-- Storage that is off stays off. -/
theorem ramOnly_final {s : Station D} (h : s.manager.mode = .ramOnly)
    (actions : List StationAction) :
    ((machine crc32).final s actions).manager.mode = .ramOnly := by
  have hstep : ∀ (s : Station D) (action : StationAction), s.manager.mode = .ramOnly → True →
      ((machine crc32).next s action).manager.mode = .ramOnly := by
    intro s action hmode _
    cases action with
    | push packet => exact hmode
    | flush =>
      have hsame : (s.manager.flushFromSram crc32 s.ring).1 = s.manager :=
        (eq_of_rounds_ramOnly (DynamicStorageManager.flushFromSram_rounds _ _) hmode).1
      exact (congrArg DynamicStorageManager.mode hsame).trans hmode
  exact Machine.invariant hstep h (fun _ _ => trivial)

/-! ### Whole runs -/

/-- What becomes of a packet that leaves the ring. -/
inductive Fate where
  | evicted
  | written
  deriving DecidableEq

/-- The packets with a given fate. -/
def withFate (fate : Fate) (fates : List (MeshPacket × Fate)) : List MeshPacket :=
  fates.filterMap fun x => if x.2 = fate then some x.1 else none

/-- The position has not reached the end of its types. -/
def HasRoom (s : Station D) : Prop :=
  s.manager.currentLba ≠ 0xFFFFFFFF ∧ s.manager.currentSequence ≠ 0xFFFFFFFFFFFFFFFF

/-- The packets pushed so far are, in order, the ones that left the ring, each with its
fate, and then the ones in the ring. -/
def Partitioned (crc32 : Checksum) (s : Station D) (pushed evicted : List MeshPacket) : Prop :=
  ∃ fates : List (MeshPacket × Fate), pushed = fates.map Prod.fst ++ s.ring.packets ∧
    evicted = withFate .evicted fates ∧
    (confirmedRecords crc32 s.calls).map (fun r => r.2.ciphertext) =
      (withFate .written fates).map MeshPacket.payload

/-- The confirmed records are numbered consecutively, in sequence and LBA, from where
the station started up to where it stands. -/
structure Numbered (crc32 : Checksum) (start s : Station D) : Prop where
  sequences : (confirmedRecords crc32 s.calls).map (fun r => r.2.sequence.toNat) =
    List.range' (start.manager.currentSequence.toNat + 1) (confirmedRecords crc32 s.calls).length
  lbas : (confirmedRecords crc32 s.calls).map (fun r => r.1.toNat) =
    List.range' start.manager.currentLba.toNat (confirmedRecords crc32 s.calls).length
  sequence : s.manager.currentSequence.toNat =
    start.manager.currentSequence.toNat + (confirmedRecords crc32 s.calls).length
  lba : s.manager.currentLba.toNat =
    start.manager.currentLba.toNat + (confirmedRecords crc32 s.calls).length

/-- What holds of a station after some pushes and evictions. -/
structure Conserved (crc32 : Checksum) (start s : Station D) (pushed evicted : List MeshPacket) :
    Prop where
  partitioned : Partitioned crc32 s pushed evicted
  numbered : HasRoom s → Numbered crc32 start s

theorem toNat_saturatingSucc32 {x : UInt32} (h : x ≠ 0xFFFFFFFF) :
    (saturatingSucc32 x).toNat = x.toNat + 1 := by
  have hlt := x.toNat_lt
  have hne : x.toNat ≠ 4294967295 := fun heq => h (UInt32.toNat_inj.mp heq)
  rw [saturatingSucc32, if_neg h, UInt32.toNat_add]
  exact Nat.mod_eq_of_lt (by simp only [UInt32.reduceToNat]; omega)

theorem toNat_saturatingSucc64 {x : UInt64} (h : x ≠ 0xFFFFFFFFFFFFFFFF) :
    (saturatingSucc64 x).toNat = x.toNat + 1 := by
  have hlt := x.toNat_lt
  have hne : x.toNat ≠ 18446744073709551615 := fun heq => h (UInt64.toNat_inj.mp heq)
  rw [saturatingSucc64, if_neg h, UInt64.toNat_add]
  exact Nat.mod_eq_of_lt (by simp only [UInt64.reduceToNat]; omega)

theorem ne_max_of_saturatingSucc32 {x : UInt32} (h : saturatingSucc32 x ≠ 0xFFFFFFFF) :
    x ≠ 0xFFFFFFFF := by
  rintro rfl
  exact h rfl

theorem ne_max_of_saturatingSucc64 {x : UInt64} (h : saturatingSucc64 x ≠ 0xFFFFFFFFFFFFFFFF) :
    x ≠ 0xFFFFFFFFFFFFFFFF := by
  rintro rfl
  exact h rfl

omit [BlockDevice D] in
/-- One more confirmed record is the next one. -/
theorem Numbered.snoc {start s s' : Station D} {packet : MeshPacket} {newCalls : List WriteCall}
    (numbered : Numbered crc32 start s) (room : HasRoom s)
    (sequence : s'.manager.currentSequence = saturatingSucc64 s.manager.currentSequence)
    (lba : s'.manager.currentLba = saturatingSucc32 s.manager.currentLba)
    (calls : s'.calls = s.calls ++ newCalls)
    (confirmed : confirmedRecords crc32 newCalls =
      [(s.manager.currentLba, s.manager.nextRecord packet)]) : Numbered crc32 start s' := by
  have hrecords : confirmedRecords crc32 s'.calls = confirmedRecords crc32 s.calls ++
      [(s.manager.currentLba, s.manager.nextRecord packet)] := by
    rw [calls, confirmedRecords, List.filterMap_append, ← confirmedRecords, ← confirmedRecords,
      confirmed]
  refine ⟨?_, ?_, ?_, ?_⟩
  · rw [hrecords, List.map_append, numbered.sequences, List.length_append, List.length_singleton,
      List.range'_1_concat, List.map_singleton, DynamicStorageManager.nextRecord,
      toNat_saturatingSucc64 room.2, numbered.sequence, Nat.add_right_comm]
  · rw [hrecords, List.map_append, numbered.lbas, List.length_append, List.length_singleton,
      List.range'_1_concat, List.map_singleton, numbered.lba]
  · rw [hrecords, sequence, toNat_saturatingSucc64 room.2, numbered.sequence, List.length_append,
      List.length_singleton, Nat.add_assoc]
  · rw [hrecords, lba, toNat_saturatingSucc32 room.1, numbered.lba, List.length_append,
      List.length_singleton, Nat.add_assoc]

omit [BlockDevice D] in
/-- A round that leaves room had room. -/
theorem HasRoom.of_effect {s s' : Station D} (effect : Effect crc32 s s') (room : HasRoom s') :
    HasRoom s := by
  cases effect with
  | idle ring mode sequence lba calls => exact ⟨lba ▸ room.1, sequence ▸ room.2⟩
  | wrote packet newCalls active ring mode sequence lba calls confirmed refused =>
    exact ⟨ne_max_of_saturatingSucc32 (lba ▸ room.1),
      ne_max_of_saturatingSucc64 (sequence ▸ room.2)⟩
  | refused packet rest newCalls active queue ring mode sequence lba calls confirmed refused =>
    exact ⟨lba ▸ room.1, sequence ▸ room.2⟩

omit [BlockDevice D] in
/-- A round keeps the account. -/
theorem Conserved.round {start s s' : Station D} {pushed evicted : List MeshPacket}
    (conserved : Conserved crc32 start s pushed evicted) (effect : Effect crc32 s s') :
    Conserved crc32 start s' pushed evicted := by
  obtain ⟨fates, hpushed, hevicted, hwritten⟩ := conserved.partitioned
  have hroom : HasRoom s' → HasRoom s := HasRoom.of_effect effect
  cases effect with
  | idle ring mode sequence lba calls =>
    refine ⟨⟨fates, ring ▸ hpushed, hevicted, calls ▸ hwritten⟩, fun room => ?_⟩
    obtain ⟨hseqs, hlbas, hseq, hlba⟩ := conserved.numbered (hroom room)
    exact ⟨calls ▸ hseqs, calls ▸ hlbas, by rw [sequence, calls, hseq], by rw [lba, calls, hlba]⟩
  | wrote packet newCalls active ring mode sequence lba calls confirmed refused =>
    refine ⟨⟨fates ++ [(packet, .written)], ?_, ?_, ?_⟩, fun room => ?_⟩
    · rw [hpushed, ring, List.map_append, List.append_assoc]
      rfl
    · rw [hevicted, withFate, withFate, List.filterMap_append]
      exact (List.append_nil _).symm
    · rw [calls, confirmedRecords, List.filterMap_append, ← confirmedRecords, ← confirmedRecords,
        confirmed, List.map_append, hwritten, withFate, withFate, List.filterMap_append,
        List.map_append]
      rfl
    · exact (conserved.numbered (hroom room)).snoc (hroom room) sequence lba calls confirmed
  | refused packet rest newCalls active queue ring mode sequence lba calls confirmed refused =>
    have hrecords : confirmedRecords crc32 s'.calls = confirmedRecords crc32 s.calls := by
      rw [calls, confirmedRecords, List.filterMap_append, ← confirmedRecords, ← confirmedRecords,
        confirmed, List.append_nil]
    refine ⟨⟨fates, ring ▸ hpushed, hevicted, hrecords ▸ hwritten⟩, fun room => ?_⟩
    obtain ⟨hseqs, hlbas, hseq, hlba⟩ := conserved.numbered (hroom room)
    exact ⟨hrecords ▸ hseqs, hrecords ▸ hlbas, by rw [sequence, hrecords, hseq],
      by rw [lba, hrecords, hlba]⟩

/-- **Step lemma.** A push or a flush keeps the account. -/
theorem Conserved.next {start s : Station D} {pushed evicted : List MeshPacket}
    (conserved : Conserved crc32 start s pushed evicted) (action : StationAction) :
    Conserved crc32 start ((machine crc32).next s action) (pushed ++ action.pushed.toList)
      (evicted ++ (machine crc32).emit s action) := by
  cases action with
  | push packet =>
    obtain ⟨fates, hpushed, hevicted, hwritten⟩ := conserved.partitioned
    have hpush := s.ring.push_spec packet
    refine ⟨⟨fates ++ (s.ring.push packet).1.toList.map (·, .evicted), ?_, ?_, ?_⟩,
      fun room => ?_⟩
    rotate_right
    · obtain ⟨hseqs, hlbas, hseq, hlba⟩ := conserved.numbered room
      exact ⟨hseqs, hlbas, hseq, hlba⟩
    -- What the push evicts was at the head of the ring.
    · show pushed ++ [packet] = _ ++ (s.ring.push packet).2.packets
      rw [hpushed, List.append_assoc, ← hpush, List.map_append, List.map_map, List.append_assoc]
      simp only [Function.comp_def, List.map_id']
    · show evicted ++ (s.ring.push packet).1.toList = _
      rw [hevicted, withFate, withFate, List.filterMap_append, List.filterMap_map]
      simp
    · rw [withFate, List.filterMap_append, List.filterMap_map, ← withFate]
      simp only [Function.comp_def, reduceCtorEq, if_false, List.filterMap_none, List.append_nil]
      exact hwritten
  | flush =>
    have hround : ∀ sm ring sm' ring', Conserved crc32 start ⟨sm, ring⟩ pushed evicted →
        DynamicStorageManager.Round crc32 sm ring sm' ring' →
          Conserved crc32 start ⟨sm', ring'⟩ pushed evicted :=
      fun sm ring sm' ring' hinv round => hinv.round (effect_of_round round)
    have hkept : Conserved crc32 start (s.flushed crc32) pushed evicted :=
      DynamicStorageManager.Rounds.preserves
        (fun sm ring => Conserved crc32 start ⟨sm, ring⟩ pushed evicted) hround
        (DynamicStorageManager.flushFromSram_rounds s.manager s.ring) conserved
    show Conserved crc32 start (s.flushed crc32) (pushed ++ []) (evicted ++ [])
    rwa [List.append_nil, List.append_nil]

/-- **Run lemma.** The account of a run. -/
theorem conserved_final {start : Station D} (ring : start.ring.packets = [])
    (calls : start.calls = []) (actions : List StationAction) :
    Conserved crc32 start ((machine crc32).final start actions)
      (actions.filterMap StationAction.pushed) ((machine crc32).outputs start actions) := by
  induction actions using List.reverseRecOn with
  | nil =>
    refine ⟨⟨[], ring.symm, rfl, by rw [Machine.final_nil, calls]; rfl⟩, fun _ => ⟨?_, ?_, ?_, ?_⟩⟩
    all_goals rw [Machine.final_nil, calls]; rfl
  | append_singleton actions action ih =>
    have hnext := ih.next action
    rw [Machine.final_append, Machine.outputs_append, List.filterMap_append]
    have hpushed : [action].filterMap StationAction.pushed = action.pushed.toList := by
      cases action with
      | push packet => rfl
      | flush => rfl
    rw [hpushed, Machine.outputs_cons, Machine.outputs_nil, List.append_nil]
    exact hnext

/-- A new station has written nothing and stands behind the checkpoint sectors. -/
theorem Started.fresh {s : Station D} (started : Started crc32 s) :
    s.ring.packets = [] ∧ s.calls = [] ∧ 10 ≤ s.manager.currentLba := by
  obtain ⟨hring, hmanager | ⟨dev, hmanager⟩⟩ := started
  · refine ⟨by rw [hring, SramRingBuffer.packets_new], ?_, ?_⟩
    · rw [calls, hmanager]
      rfl
    · rw [hmanager]
      exact UInt32.le_refl 10
  · obtain ⟨hdevice, hlba⟩ :=
      DynamicStorageManager.newWithDevice_spec crc32 (⟨dev, []⟩ : Recorder D)
    refine ⟨by rw [hring, SramRingBuffer.packets_new], ?_, hmanager ▸ hlba⟩
    rw [calls, hmanager, hdevice]
    rfl

/-- **Conservation.** From any start on any device, through any pushes and flushes that
leave room: the packets pushed are evicted, written or in the ring, the confirmed records
have consecutive sequence numbers and increasing LBAs behind the checkpoint sectors,
each flush writes at most two records, and a refused record leaves ring and position
alone and switches the storage off for good. -/
theorem flush_conserves_packets {s : Station D} (started : Started crc32 s)
    (actions : List StationAction) (room : HasRoom ((machine crc32).final s actions)) :
    Partitioned crc32 ((machine crc32).final s actions)
      (actions.filterMap StationAction.pushed) ((machine crc32).outputs s actions) ∧
    (confirmedRecords crc32 ((machine crc32).final s actions).calls).map
        (fun r => r.2.sequence.toNat) =
      List.range' (s.manager.currentSequence.toNat + 1)
        (confirmedRecords crc32 ((machine crc32).final s actions).calls).length ∧
    ((confirmedRecords crc32 ((machine crc32).final s actions).calls).map Prod.fst).Pairwise
      (· < ·) ∧
    (∀ r ∈ confirmedRecords crc32 ((machine crc32).final s actions).calls, 10 ≤ r.1) ∧
    ∀ before after, actions = before ++ .flush :: after →
      ∃ taken newCalls,
        CallEffect crc32 2 ((machine crc32).final s before)
          (((machine crc32).final s before).flushed crc32) taken newCalls ∧
        (refusedRecords crc32 newCalls ≠ [] →
          ((machine crc32).final s actions).manager.mode = .ramOnly) := by
  obtain ⟨hring, hcalls, hlba⟩ := started.fresh
  obtain ⟨hpartitioned, hnumbered⟩ := conserved_final hring hcalls actions
  obtain ⟨hsequences, hlbas, -, -⟩ := hnumbered room
  refine ⟨hpartitioned, hsequences, ?_, ?_, ?_⟩
  · have hsorted : (List.range' s.manager.currentLba.toNat
        (confirmedRecords crc32 ((machine crc32).final s actions).calls).length).Pairwise (· < ·) :=
      List.pairwise_lt_range'
    rw [← hlbas, List.pairwise_map] at hsorted
    exact List.pairwise_map.mpr (hsorted.imp UInt32.lt_iff_toNat_lt.mpr)
  · intro r hr
    have hmem : r.1.toNat ∈ List.range' s.manager.currentLba.toNat
        (confirmedRecords crc32 ((machine crc32).final s actions).calls).length :=
      hlbas ▸ List.mem_map_of_mem hr
    exact UInt32.le_trans hlba (UInt32.le_iff_toNat_le.mpr (List.mem_range'_1.mp hmem).1)
  · rintro before after rfl
    obtain ⟨taken, newCalls, effect⟩ := callEffect_flushed
      ((machine crc32).final s before)
    refine ⟨taken, newCalls, effect, fun hrefused => ?_⟩
    obtain ⟨r, hr⟩ := List.exists_mem_of_ne_nil _ hrefused
    rw [Machine.final_append]
    exact ramOnly_final (effect.refused r hr).1 after

end Station

/-- An empty card that is pulled after some writes. -/
structure PulledCard where
  writesLeft : ℕ

instance : BlockDevice PulledCard where
  readBlock card _ := (.ok (.zero sectorSize), card)
  writeBlock card _ _ :=
    if card.writesLeft = 0 then (.error .deviceError, card)
    else (.ok (), ⟨card.writesLeft - 1⟩)

namespace Station

/-- A station with a card that takes so many writes. -/
def onPulledCard (writesLeft : ℕ) : Station PulledCard :=
  ⟨.newWithDevice crc32Ieee ⟨⟨writesLeft⟩, []⟩, .new⟩

/-- The packet with a given payload byte. -/
def plainPacket (b : UInt8) : MeshPacket :=
  ⟨⟨defaultNetworkTag, 0, 0, 1, 3, 0, 0⟩, .replicate ciphertextLen b⟩

/-- Three packets, and a flush before the last is pushed and after it. -/
def threePackets : List StationAction :=
  [.push (plainPacket 1), .push (plainPacket 2), .flush, .push (plainPacket 3), .flush]

/-- A card pulled after two writes. -/
theorem flush_conserves_packets_pulledCard :
    Partitioned crc32Ieee ((machine crc32Ieee).final (onPulledCard 2) threePackets)
      [plainPacket 1, plainPacket 2, plainPacket 3]
      ((machine crc32Ieee).outputs (onPulledCard 2) threePackets) ∧
    ∃ taken newCalls,
      CallEffect crc32Ieee 2 ((machine crc32Ieee).final (onPulledCard 2) (threePackets.take 4))
        (((machine crc32Ieee).final (onPulledCard 2) (threePackets.take 4)).flushed crc32Ieee)
        taken newCalls ∧
      (refusedRecords crc32Ieee newCalls ≠ [] →
        ((machine crc32Ieee).final (onPulledCard 2) threePackets).manager.mode = .ramOnly) := by
  have hroom : HasRoom ((machine crc32Ieee).final (onPulledCard 2) threePackets) := by
    refine ⟨?_, ?_⟩
    · decide +kernel
    · decide +kernel
  obtain ⟨hpartitioned, -, -, -, heffects⟩ :=
    flush_conserves_packets ⟨rfl, Or.inr ⟨⟨2⟩, rfl⟩⟩ threePackets hroom
  exact ⟨hpartitioned, heffects (threePackets.take 4) [] rfl⟩

end Station

end Gibberish.Storage
