/-
# The persistent nonce manager

`NonceManager` hands out message counters from a block it has reserved in a state
file. The file holds the first counter of the next block, so a restart starts
past everything reserved before. Reading and writing the file may fail; the
outcome of each fallible call is an argument. A failed write leaves the old
content in place, because the new content is renamed over it last.

Counters are `u64` and wrap, as they do in the release profile the daemon is
built with.
-/

import Mathlib.Data.List.Basic
import Mathlib.Data.UInt

set_option autoImplicit false

namespace Gibberish.Daemon

/-- Counters reserved by one write of the state file. -/
def nonceBlockSize : UInt64 := 1000

/-- A block that ends below `2 ^ 64` is added without wrapping. -/
theorem toNat_add_nonceBlockSize {n : UInt64} (h : n.toNat + 1000 < 2 ^ 64) :
    (n + nonceBlockSize).toNat = n.toNat + 1000 := by
  rw [UInt64.toNat_add]
  exact Nat.mod_eq_of_lt h

/-- Stepping a counter that is below some limit does not wrap. -/
theorem toNat_succ_of_lt {n limit : UInt64} (h : n < limit) : (n + 1).toNat = n.toNat + 1 := by
  have hlt := UInt64.lt_iff_toNat_lt.mp h
  have hbound := limit.toNat_lt
  rw [UInt64.toNat_add, UInt64.toNat_one]
  omega

/-- What the state file records. -/
structure NonceDiskState where
  lastPersistedEpoch : UInt32
  nextAllocatedBlock : UInt64
  deriving DecidableEq, Repr

/-- What is found at the state path: nothing, something that is not readable as
text, text that does not parse, or a saved state. -/
inductive StateFile where
  | missing
  | unreadable
  | unparsable
  | saved (disk : NonceDiskState)
  deriving DecidableEq, Repr

/-- How a fallible file operation ends. -/
inductive IoOutcome where
  | ok
  | failed
  deriving DecidableEq, Repr

/-- The operation whose `io::Error` a call returns. -/
inductive IoError where
  | createDirAll
  | readToString
  | persist
  deriving DecidableEq, Repr

namespace StateFile

/-- The state `NonceManager::new` starts from; `none` when reading fails. -/
def diskState : StateFile → Option NonceDiskState
  | missing => some ⟨0, 0⟩
  | unreadable => none
  | unparsable => some ⟨0, 0⟩
  | saved disk => some disk

/-- The first counter no reservation on disk covers. -/
def nextAllocatedBlock (file : StateFile) : UInt64 :=
  (file.diskState.map NonceDiskState.nextAllocatedBlock).getD 0

theorem nextAllocatedBlock_of_diskState {file : StateFile} {disk : NonceDiskState}
    (h : file.diskState = some disk) : file.nextAllocatedBlock = disk.nextAllocatedBlock := by
  simp [nextAllocatedBlock, h]

@[simp] theorem nextAllocatedBlock_saved (disk : NonceDiskState) :
    (saved disk).nextAllocatedBlock = disk.nextAllocatedBlock := rfl

end StateFile

/-- The manager in memory. The state file's path is not a field: every function
below takes the file itself. -/
structure NonceManager where
  currentEpoch : UInt32
  currentCounter : UInt64
  blockLimit : UInt64
  deriving DecidableEq, Repr

namespace NonceManager

/-- `u32::saturating_add(1)`. -/
def saturatingSucc (epoch : UInt32) : UInt32 :=
  if epoch = 0xFFFFFFFF then epoch else epoch + 1

/-- Write the reservation to a temporary file, sync it and rename it into place. -/
def persistBlockReservation (mgr : NonceManager) (io : IoOutcome) (file : StateFile) :
    Except IoError Unit × StateFile :=
  match io with
  | .failed => (.error .persist, file)
  | .ok => (.ok (), .saved ⟨mgr.currentEpoch, mgr.blockLimit⟩)

/-- The clock, or one past the saved epoch when the clock does not exceed it. -/
def safeEpoch (nowSecs : UInt32) (disk : NonceDiskState) : UInt32 :=
  if nowSecs ≤ disk.lastPersistedEpoch then saturatingSucc disk.lastPersistedEpoch else nowSecs

/-- The manager over a state just read, holding the block that starts there. -/
def load (nowSecs : UInt32) (disk : NonceDiskState) : NonceManager :=
  let startCounter := disk.nextAllocatedBlock
  ⟨safeEpoch nowSecs disk, startCounter, startCounter + nonceBlockSize⟩

/-- Open a manager over the state file, reserving its first block. -/
def new (nowSecs : UInt32) (createDir persist : IoOutcome) (file : StateFile) :
    Except IoError NonceManager × StateFile :=
  match createDir, file.diskState with
  | .failed, _ => (.error .createDirAll, file)
  | .ok, none => (.error .readToString, file)
  | .ok, some disk =>
    let mgr := load nowSecs disk
    match mgr.persistBlockReservation persist file with
    | (.error e, file) => (.error e, file)
    | (.ok (), file) => (.ok mgr, file)

/-- Hand out the current counter and step past it. -/
def takeCounter (mgr : NonceManager) : (UInt32 × UInt64) × NonceManager :=
  ((mgr.currentEpoch, mgr.currentCounter),
    { mgr with currentCounter := mgr.currentCounter + 1 })

/-- Allocate a counter, first reserving the next block when the current one is used up. -/
def allocateMsg (mgr : NonceManager) (io : IoOutcome) (file : StateFile) :
    Except IoError (UInt32 × UInt64) × NonceManager × StateFile :=
  if mgr.currentCounter ≥ mgr.blockLimit then
    -- The limit moves in memory before the write that may fail.
    let mgr := { mgr with blockLimit := mgr.blockLimit + nonceBlockSize }
    match mgr.persistBlockReservation io file with
    | (.error e, file) => (.error e, mgr, file)
    | (.ok (), file) => (.ok mgr.takeCounter.1, mgr.takeCounter.2, file)
  else (.ok mgr.takeCounter.1, mgr.takeCounter.2, file)

/-! ### What each call can do -/

/-- Opening either fails and leaves the file alone, or reserves the block that
starts at the file's next counter. -/
theorem new_cases (nowSecs : UInt32) (createDir persist : IoOutcome) (file : StateFile) :
    (∃ e, new nowSecs createDir persist file = (.error e, file)) ∨
    ∃ disk epoch, createDir = .ok ∧ persist = .ok ∧ file.diskState = some disk ∧
      epoch = safeEpoch nowSecs disk ∧
      new nowSecs createDir persist file =
        (.ok ⟨epoch, file.nextAllocatedBlock, file.nextAllocatedBlock + nonceBlockSize⟩,
          .saved ⟨epoch, file.nextAllocatedBlock + nonceBlockSize⟩) := by
  cases createDir with
  | failed => exact Or.inl ⟨_, rfl⟩
  | ok =>
    cases hdisk : file.diskState with
    | none => exact Or.inl ⟨.readToString, by simp only [new, hdisk]⟩
    | some disk =>
      cases persist with
      | failed => exact Or.inl ⟨.persist, by simp only [new, hdisk, persistBlockReservation]⟩
      | ok =>
        refine Or.inr ⟨disk, _, rfl, rfl, rfl, rfl, ?_⟩
        simp only [new, load, hdisk, persistBlockReservation,
          StateFile.nextAllocatedBlock_of_diskState hdisk]

/-- A successful allocation hands out the current counter. -/
theorem counter_of_allocateMsg {mgr : NonceManager} {io : IoOutcome} {file : StateFile}
    {epoch : UInt32} {counter : UInt64} (h : (mgr.allocateMsg io file).1 = .ok (epoch, counter)) :
    counter = mgr.currentCounter := by
  simp only [allocateMsg] at h
  split at h
  · cases io with
    | failed => cases h
    | ok =>
      simp only [persistBlockReservation, takeCounter, Except.ok.injEq, Prod.mk.injEq] at h
      exact h.2.symm
  · simp only [takeCounter, Except.ok.injEq, Prod.mk.injEq] at h
    exact h.2.symm

/-- Inside a block, allocation touches only the counter. -/
theorem allocateMsg_of_lt {mgr : NonceManager} (h : mgr.currentCounter < mgr.blockLimit)
    (io : IoOutcome) (file : StateFile) :
    mgr.allocateMsg io file = (.ok mgr.takeCounter.1, mgr.takeCounter.2, file) := by
  have hnot : ¬ mgr.currentCounter ≥ mgr.blockLimit := UInt64.not_le.mpr h
  simp only [allocateMsg, if_neg hnot]

/-- At the end of a block, a successful write extends the block and saves the new limit. -/
theorem allocateMsg_extend {mgr : NonceManager} (h : mgr.blockLimit ≤ mgr.currentCounter)
    (file : StateFile) :
    mgr.allocateMsg .ok file =
      (.ok (mgr.currentEpoch, mgr.currentCounter),
        ⟨mgr.currentEpoch, mgr.currentCounter + 1, mgr.blockLimit + nonceBlockSize⟩,
        .saved ⟨mgr.currentEpoch, mgr.blockLimit + nonceBlockSize⟩) := by
  have hge : mgr.currentCounter ≥ mgr.blockLimit := h
  simp only [allocateMsg, if_pos hge, persistBlockReservation, takeCounter]

/-- At the end of a block, a failed write extends the block in memory only. -/
theorem allocateMsg_extend_failed {mgr : NonceManager} (h : mgr.blockLimit ≤ mgr.currentCounter)
    (file : StateFile) :
    mgr.allocateMsg .failed file =
      (.error .persist, { mgr with blockLimit := mgr.blockLimit + nonceBlockSize }, file) := by
  have hge : mgr.currentCounter ≥ mgr.blockLimit := h
  simp only [allocateMsg, if_pos hge, persistBlockReservation]

end NonceManager

end Gibberish.Daemon
