/-
# The storage manager

The manager appends the payloads of the live ring to a card, at most two a call, and
writes a checkpoint every sixteen records, to two sectors in turn. A record that
cannot be written ends storage for good; a checkpoint that cannot be written is
passed over. A new manager resumes at the newer of the two checkpoints.
-/

import Gibberish.Storage.Container
import Gibberish.Storage.SramRing

set_option autoImplicit false

namespace Gibberish.Storage

open Gibberish.Foundation Gibberish.Protocol

/-- A device of 512-byte sectors. -/
class BlockDevice (D : Type) where
  readBlock : D → UInt32 → Except StorageError (Bytes sectorSize) × D
  writeBlock : D → UInt32 → Bytes sectorSize → Except StorageError Unit × D

inductive StorageModeStatus where
  | ramOnly
  | microSdActive
  deriving DecidableEq, Repr

structure DynamicStorageManager (D : Type) where
  device : Option D
  mode : StorageModeStatus
  currentSequence : UInt64
  currentLba : UInt32
  tornWritesRecovered : UInt32

/-- `u64::saturating_add(1)`. -/
def saturatingSucc64 (x : UInt64) : UInt64 := if x = 0xFFFFFFFFFFFFFFFF then x else x + 1

/-- `u32::saturating_add(1)`. -/
def saturatingSucc32 (x : UInt32) : UInt32 := if x = 0xFFFFFFFF then x else x + 1

/-- The LBA a checkpoint's head offset stands for. -/
def CheckpointSector.headLba (ckpt : CheckpointSector) : UInt32 :=
  (ckpt.headOffset / UInt64.ofNat sectorSize).toUInt32

namespace DynamicStorageManager

variable {D : Type}

def newRamOnly : DynamicStorageManager D := ⟨none, .ramOnly, 0, 10, 0⟩

/-- Sequence, LBA and number of torn sectors to resume with: the newer checkpoint counts. -/
def resumeFrom : Option CheckpointSector → Option CheckpointSector → UInt64 × UInt32 × UInt32
  | some c1, some c2 =>
    if c1.sequence ≥ c2.sequence then (c1.sequence, c1.headLba, 0) else (c2.sequence, c2.headLba, 0)
  | some c1, none => (c1.sequence, c1.headLba, 1)
  | none, some c2 => (c2.sequence, c2.headLba, 1)
  | none, none => (0, 10, 0)

/-- The record a packet is written in next. -/
def nextRecord (sm : DynamicStorageManager D) (packet : MeshPacket) : ChunkRecord :=
  ⟨saturatingSucc64 sm.currentSequence, packet.payload⟩

/-- The position behind a confirmed record. -/
def advance (sm : DynamicStorageManager D) (dev : D) : DynamicStorageManager D :=
  { sm with
    device := some dev
    currentSequence := saturatingSucc64 sm.currentSequence
    currentLba := saturatingSucc32 sm.currentLba }

/-- Give up on the device. -/
def fallBack (sm : DynamicStorageManager D) (dev : D) : DynamicStorageManager D :=
  { sm with device := some dev, mode := .ramOnly }

/-- The sector whose turn it is. -/
def checkpointLba (sm : DynamicStorageManager D) : UInt32 :=
  if sm.currentSequence % 32 = 0 then 1 else 2

/-- The checkpoint of the current position. -/
def checkpoint (sm : DynamicStorageManager D) : CheckpointSector where
  sequence := sm.currentSequence
  headOffset := sm.currentLba.toUInt64 * UInt64.ofNat sectorSize
  tailOffset := 10 * UInt64.ofNat sectorSize
  totalRecords := sm.currentSequence

variable [BlockDevice D] (crc32 : Checksum)

/-- Start on a device, from the checkpoints at LBA 1 and LBA 2. -/
def newWithDevice (dev : D) : DynamicStorageManager D :=
  let (read1, dev) := BlockDevice.readBlock dev 1
  let (read2, dev) := BlockDevice.readBlock dev 2
  match read1, read2 with
  | .error _, .error _ => ⟨some dev, .ramOnly, 0, 10, 0⟩
  | _, _ =>
    let ckpt1 := read1.toOption.bind (checkpointOf crc32)
    let ckpt2 := read2.toOption.bind (checkpointOf crc32)
    let (seq, lba, tornRecovered) := resumeFrom ckpt1 ckpt2
    -- `lba.max(10)`.
    ⟨some dev, .microSdActive, seq, if lba < 10 then 10 else lba, tornRecovered⟩

/-- Write a checkpoint every 16 records. -/
def checkpointIfDue (sm : DynamicStorageManager D) : DynamicStorageManager D :=
  if sm.currentSequence % 16 = 0 then
    match sm.device with
    | none => sm
    | some dev =>
      -- The answer is dropped.
      let (_, dev) := BlockDevice.writeBlock dev sm.checkpointLba (sm.checkpoint.serialize crc32)
      { sm with device := some dev }
  else sm

/-- The loop of the flush: a packet leaves the ring once its record is confirmed. -/
def flushUpTo : ℕ → DynamicStorageManager D → SramRingBuffer →
    DynamicStorageManager D × SramRingBuffer
  | 0, sm, ring => (sm, ring)
  | n + 1, sm, ring =>
    match sm.device, ring.peek with
    | some dev, some packet =>
      match BlockDevice.writeBlock dev sm.currentLba (recordBlock crc32 (sm.nextRecord packet)) with
      | (.ok _, dev) => flushUpTo n ((sm.advance dev).checkpointIfDue crc32) ring.pop.2
      | (.error _, dev) => (sm.fallBack dev, ring)
    | _, _ => (sm, ring)

/-- Write up to two packets of the ring to the device. -/
def flushFromSram (sm : DynamicStorageManager D) (ring : SramRingBuffer) :
    DynamicStorageManager D × SramRingBuffer :=
  if sm.mode = .ramOnly ∨ sm.device.isNone then (sm, ring) else flushUpTo crc32 2 sm ring

/-- A new manager holds the device as the two reads left it, and stands behind the
checkpoint sectors. -/
theorem newWithDevice_spec (dev : D) :
    (newWithDevice crc32 dev).device =
        some (BlockDevice.readBlock (BlockDevice.readBlock dev 1).2 2).2 ∧
      10 ≤ (newWithDevice crc32 dev).currentLba := by
  obtain ⟨read1, dev1, h1⟩ : ∃ read1 dev1, BlockDevice.readBlock dev 1 = (read1, dev1) :=
    ⟨_, _, rfl⟩
  obtain ⟨read2, dev2, h2⟩ : ∃ read2 dev2, BlockDevice.readBlock dev1 2 = (read2, dev2) :=
    ⟨_, _, rfl⟩
  simp only [newWithDevice, h1, h2]
  split
  · exact ⟨rfl, UInt32.le_refl 10⟩
  · refine ⟨rfl, ?_⟩
    show 10 ≤ if _ < (10 : UInt32) then 10 else _
    split
    · exact UInt32.le_refl 10
    · next hlba => exact UInt32.not_lt.mp hlba

/-! ### What a flush can do -/

/-- One round of a flush: nothing to do, a record confirmed, or a record refused. -/
inductive Round (sm : DynamicStorageManager D) (ring : SramRingBuffer) :
    DynamicStorageManager D → SramRingBuffer → Prop where
  | idle : Round sm ring sm ring
  | confirmed (dev dev' : D) (packet : MeshPacket) (rest : List MeshPacket)
      (active : sm.mode = .microSdActive) (device : sm.device = some dev)
      (queue : ring.packets = packet :: rest)
      (written : BlockDevice.writeBlock dev sm.currentLba
        (recordBlock crc32 (sm.nextRecord packet)) = (.ok (), dev')) :
      Round sm ring ((sm.advance dev').checkpointIfDue crc32) ring.pop.2
  | refused (dev dev' : D) (packet : MeshPacket) (rest : List MeshPacket) (e : StorageError)
      (active : sm.mode = .microSdActive) (device : sm.device = some dev)
      (queue : ring.packets = packet :: rest)
      (written : BlockDevice.writeBlock dev sm.currentLba
        (recordBlock crc32 (sm.nextRecord packet)) = (.error e, dev')) :
      Round sm ring (sm.fallBack dev') ring

variable {crc32}

/-- A checkpoint changes the device only. -/
theorem checkpointIfDue_eq (sm : DynamicStorageManager D) :
    ∃ device, sm.checkpointIfDue crc32 = { sm with device := device } := by
  simp only [checkpointIfDue]
  split
  · split
    · exact ⟨sm.device, rfl⟩
    · exact ⟨_, rfl⟩
  · exact ⟨sm.device, rfl⟩

@[simp] theorem mode_checkpointIfDue (sm : DynamicStorageManager D) :
    (sm.checkpointIfDue crc32).mode = sm.mode := by
  obtain ⟨device, heq⟩ := checkpointIfDue_eq sm
  rw [heq]

@[simp] theorem currentSequence_checkpointIfDue (sm : DynamicStorageManager D) :
    (sm.checkpointIfDue crc32).currentSequence = sm.currentSequence := by
  obtain ⟨device, heq⟩ := checkpointIfDue_eq sm
  rw [heq]

@[simp] theorem currentLba_checkpointIfDue (sm : DynamicStorageManager D) :
    (sm.checkpointIfDue crc32).currentLba = sm.currentLba := by
  obtain ⟨device, heq⟩ := checkpointIfDue_eq sm
  rw [heq]

/-- The loop is a round, and the loop again unless the round ended it. -/
theorem flushUpTo_succ (n : ℕ) {sm : DynamicStorageManager D} (ring : SramRingBuffer)
    (active : sm.mode = .microSdActive) :
    ∃ sm' ring', Round crc32 sm ring sm' ring' ∧
      (flushUpTo crc32 (n + 1) sm ring = (sm', ring') ∨
        sm'.mode = .microSdActive ∧
          flushUpTo crc32 (n + 1) sm ring = flushUpTo crc32 n sm' ring') := by
  cases hdevice : sm.device with
  | none => exact ⟨sm, ring, .idle, Or.inl (by simp only [flushUpTo, hdevice])⟩
  | some dev =>
    cases hpackets : ring.packets with
    | nil =>
      have hpeek : ring.peek = none := by rw [ring.peek_eq, hpackets, List.head?_nil]
      exact ⟨sm, ring, .idle, Or.inl (by simp only [flushUpTo, hdevice, hpeek])⟩
    | cons packet rest =>
      have hpeek : ring.peek = some packet := by rw [ring.peek_eq, hpackets, List.head?_cons]
      obtain ⟨answer, dev', hwritten⟩ : ∃ answer dev', BlockDevice.writeBlock dev sm.currentLba
          (recordBlock crc32 (sm.nextRecord packet)) = (answer, dev') := ⟨_, _, rfl⟩
      cases answer with
      | ok _ =>
        refine ⟨_, _, .confirmed dev dev' packet rest active hdevice hpackets hwritten,
          Or.inr ⟨?_, ?_⟩⟩
        · rw [mode_checkpointIfDue]
          exact active
        · simp only [flushUpTo, hdevice, hpeek, hwritten]
      | error e =>
        refine ⟨_, _, .refused dev dev' packet rest e active hdevice hpackets hwritten, Or.inl ?_⟩
        simp only [flushUpTo, hdevice, hpeek, hwritten]

/-- At most so many rounds. -/
inductive Rounds (crc32 : Checksum) : ℕ → DynamicStorageManager D → SramRingBuffer →
    DynamicStorageManager D → SramRingBuffer → Prop where
  | done (n : ℕ) (sm : DynamicStorageManager D) (ring : SramRingBuffer) :
    Rounds crc32 n sm ring sm ring
  | more {n : ℕ} {sm sm₁ sm' : DynamicStorageManager D} {ring ring₁ ring' : SramRingBuffer}
      (first : Round crc32 sm ring sm₁ ring₁) (rest : Rounds crc32 n sm₁ ring₁ sm' ring') :
    Rounds crc32 (n + 1) sm ring sm' ring'

theorem flushUpTo_rounds (n : ℕ) {sm : DynamicStorageManager D} (ring : SramRingBuffer)
    (active : sm.mode = .microSdActive) :
    Rounds crc32 n sm ring (flushUpTo crc32 n sm ring).1 (flushUpTo crc32 n sm ring).2 := by
  induction n generalizing sm ring with
  | zero => exact .done 0 sm ring
  | succ n ih =>
    obtain ⟨sm₁, ring₁, first, hends | ⟨active₁, hloops⟩⟩ := flushUpTo_succ n ring active
    · rw [hends]
      exact .more first (.done n sm₁ ring₁)
    · rw [hloops]
      exact .more first (ih ring₁ active₁)

/-- **Flush inversion.** A flush is at most two rounds. -/
theorem flushFromSram_rounds (sm : DynamicStorageManager D) (ring : SramRingBuffer) :
    Rounds crc32 2 sm ring (sm.flushFromSram crc32 ring).1 (sm.flushFromSram crc32 ring).2 := by
  rw [flushFromSram]
  split
  · exact .done 2 sm ring
  · next hactive =>
    have active : sm.mode = .microSdActive := by
      cases hmode : sm.mode with
      | ramOnly => exact absurd (Or.inl hmode) hactive
      | microSdActive => rfl
    exact flushUpTo_rounds 2 ring active

/-- A flush whose first record is confirmed goes on behind it. -/
theorem flushFromSram_confirmed {sm : DynamicStorageManager D} {ring : SramRingBuffer} {dev dev' : D}
    {packet : MeshPacket} {rest : List MeshPacket} (active : sm.mode = .microSdActive)
    (device : sm.device = some dev) (queue : ring.packets = packet :: rest)
    (written : BlockDevice.writeBlock dev sm.currentLba
      (recordBlock crc32 (sm.nextRecord packet)) = (.ok (), dev')) :
    sm.flushFromSram crc32 ring =
      flushUpTo crc32 1 ((sm.advance dev').checkpointIfDue crc32) ring.pop.2 := by
  have hon : ¬ (sm.mode = .ramOnly ∨ sm.device.isNone = true) := by
    rw [active, device, Option.isNone_some]
    decide
  have hpeek : ring.peek = some packet := by rw [ring.peek_eq, queue, List.head?_cons]
  rw [flushFromSram, if_neg hon]
  simp only [flushUpTo, device, hpeek, written]

/-- What every round preserves, rounds preserve. -/
theorem Rounds.preserves (Inv : DynamicStorageManager D → SramRingBuffer → Prop)
    (preserved : ∀ sm ring sm' ring', Inv sm ring → Round crc32 sm ring sm' ring' → Inv sm' ring')
    {n : ℕ} {sm sm' : DynamicStorageManager D} {ring ring' : SramRingBuffer}
    (rounds : Rounds crc32 n sm ring sm' ring') (initial : Inv sm ring) : Inv sm' ring' := by
  induction rounds with
  | done n sm ring => exact initial
  | more first _ ih => exact ih (preserved _ _ _ _ initial first)

end DynamicStorageManager

end Gibberish.Storage
