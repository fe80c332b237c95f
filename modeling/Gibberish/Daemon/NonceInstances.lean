/-
# Several managers over one state file

The running daemon and each one-shot `push` open their own manager over the same
file. Opening reads the file and later replaces it; allocating replaces it when a
block is used up. Each read and each replacement is one event, and the events of
different instances interleave freely.

A reservation is sound when nobody has written the file since the instance last
looked: an opening instance writes a block that starts at the counter on disk,
and an extending one finds its own limit there. `allocate_msg` never rereads the
file, so the second can fail. A run keeps to such reservations exactly when no
way of using up the blocks it leaves behind issues a counter twice.
-/

import Gibberish.Daemon.Nonce
import Gibberish.Foundation.Machine
import Gibberish.Foundation.Reservation

set_option autoImplicit false

namespace Gibberish.Daemon

open Gibberish.Foundation

/-- An instance between reading the file and writing its reservation, or after. -/
inductive NonceInstance where
  | opening (mgr : NonceManager)
  | ready (mgr : NonceManager)
  deriving DecidableEq

/-- All instances ever opened, and the file they share. -/
structure SharedNonceFile where
  instances : List NonceInstance
  file : StateFile
  deriving DecidableEq

/-- The indivisible steps of the instances: the two halves of `NonceManager::new`
and a call of `allocate_msg`. -/
inductive InstanceEvent where
  | newRead (nowSecs : UInt32)
  | newPersist (i : ℕ)
  | allocateMsg (i : ℕ)
  deriving DecidableEq

namespace SharedNonceFile

/-- One event, with the counter it returns and the instance that returned it. -/
def step (w : SharedNonceFile) : InstanceEvent → SharedNonceFile × List (ℕ × UInt64)
  | .newRead nowSecs =>
    match w.file.diskState with
    | none => (w, [])
    | some disk => (⟨w.instances ++ [.opening (.load nowSecs disk)], w.file⟩, [])
  | .newPersist i =>
    match w.instances[i]? with
    | some (.opening mgr) =>
      (⟨w.instances.set i (.ready mgr), (mgr.persistBlockReservation .ok w.file).2⟩, [])
    | _ => (w, [])
  | .allocateMsg i =>
    match w.instances[i]? with
    | some (.ready mgr) =>
      match mgr.allocateMsg .ok w.file with
      | (.ok (_, counter), mgr, file) => (⟨w.instances.set i (.ready mgr), file⟩, [(i, counter)])
      | (.error _, mgr, file) => (⟨w.instances.set i (.ready mgr), file⟩, [])
    | _ => (w, [])

/-- The instances and their file as a machine that emits the issued counters. -/
def machine : Machine SharedNonceFile InstanceEvent (ℕ × UInt64) := ⟨step⟩

/-- A reservation is written only while the file still holds what it continues. -/
def ReservesLatest (w : SharedNonceFile) : InstanceEvent → Prop
  | .newRead _ => True
  | .newPersist i => ∀ mgr, w.instances[i]? = some (.opening mgr) →
      mgr.currentCounter = w.file.nextAllocatedBlock
  | .allocateMsg i => ∀ mgr, w.instances[i]? = some (.ready mgr) →
      mgr.blockLimit ≤ mgr.currentCounter → mgr.blockLimit = w.file.nextAllocatedBlock

/-- The block an event would reserve ends below `2 ^ 64`. -/
def Fits (w : SharedNonceFile) : InstanceEvent → Prop
  | .newRead _ => True
  | .newPersist i => ∀ mgr, w.instances[i]? = some (.opening mgr) →
      mgr.currentCounter.toNat + 1000 < 2 ^ 64
  | .allocateMsg i => ∀ mgr, w.instances[i]? = some (.ready mgr) →
      mgr.blockLimit ≤ mgr.currentCounter → mgr.blockLimit.toNat + 1000 < 2 ^ 64

/-- An allocation of a ready instance inside its block. -/
def InBlock (w : SharedNonceFile) : InstanceEvent → Prop
  | .allocateMsg i => ∃ mgr, w.instances[i]? = some (.ready mgr) ∧
      mgr.currentCounter < mgr.blockLimit
  | _ => False

instance (w : SharedNonceFile) : DecidablePred w.ReservesLatest
  | .newRead _ => inferInstanceAs (Decidable True)
  | .newPersist i =>
    match h : w.instances[i]? with
    | some (.opening mgr) =>
      decidable_of_iff (mgr.currentCounter = w.file.nextAllocatedBlock) (by simp [ReservesLatest, h])
    | some (.ready _) | none => isTrue (by simp [ReservesLatest, h])
  | .allocateMsg i =>
    match h : w.instances[i]? with
    | some (.ready mgr) =>
      decidable_of_iff (mgr.blockLimit ≤ mgr.currentCounter →
        mgr.blockLimit = w.file.nextAllocatedBlock) (by simp [ReservesLatest, h])
    | some (.opening _) | none => isTrue (by simp [ReservesLatest, h])

instance (w : SharedNonceFile) : DecidablePred w.Fits
  | .newRead _ => inferInstanceAs (Decidable True)
  | .newPersist i =>
    match h : w.instances[i]? with
    | some (.opening mgr) =>
      decidable_of_iff (mgr.currentCounter.toNat + 1000 < 2 ^ 64) (by simp [Fits, h])
    | some (.ready _) | none => isTrue (by simp [Fits, h])
  | .allocateMsg i =>
    match h : w.instances[i]? with
    | some (.ready mgr) =>
      decidable_of_iff (mgr.blockLimit ≤ mgr.currentCounter → mgr.blockLimit.toNat + 1000 < 2 ^ 64)
        (by simp [Fits, h])
    | some (.opening _) | none => isTrue (by simp [Fits, h])

/-- An allocation inside a block reserves nothing. -/
theorem InBlock.spared {w : SharedNonceFile} {e : InstanceEvent} (h : w.InBlock e) :
    w.Fits e ∧ w.ReservesLatest e := by
  cases e with
  | newRead _ | newPersist _ => exact h.elim
  | allocateMsg i =>
    obtain ⟨mgr, hi, hlt⟩ := h
    have hnot : ∀ mgr' : NonceManager, w.instances[i]? = some (.ready mgr') →
        ¬ mgr'.blockLimit ≤ mgr'.currentCounter := by
      intro mgr' hi'
      obtain rfl : mgr' = mgr := by simpa [hi] using hi'.symm
      exact UInt64.not_le.mpr hlt
    exact ⟨fun mgr' hi' hend => absurd hend (hnot mgr' hi'),
      fun mgr' hi' hend => absurd hend (hnot mgr' hi')⟩

/-! ### What each event can do -/

variable {w : SharedNonceFile} {i : ℕ} {mgr : NonceManager}

theorem step_newPersist (h : w.instances[i]? = some (.opening mgr)) :
    w.step (.newPersist i) =
      (⟨w.instances.set i (.ready mgr), .saved ⟨mgr.currentEpoch, mgr.blockLimit⟩⟩, []) := by
  simp only [SharedNonceFile.step, h, NonceManager.persistBlockReservation]

theorem step_allocateMsg_of_lt (h : w.instances[i]? = some (.ready mgr))
    (hlt : mgr.currentCounter < mgr.blockLimit) :
    w.step (.allocateMsg i) =
      (⟨w.instances.set i (.ready { mgr with currentCounter := mgr.currentCounter + 1 }), w.file⟩,
        [(i, mgr.currentCounter)]) := by
  simp only [SharedNonceFile.step, h, NonceManager.allocateMsg_of_lt hlt,
    NonceManager.takeCounter]

theorem step_allocateMsg_extend (h : w.instances[i]? = some (.ready mgr))
    (hend : mgr.blockLimit ≤ mgr.currentCounter) :
    w.step (.allocateMsg i) =
      (⟨w.instances.set i (.ready ⟨mgr.currentEpoch, mgr.currentCounter + 1,
          mgr.blockLimit + nonceBlockSize⟩),
        .saved ⟨mgr.currentEpoch, mgr.blockLimit + nonceBlockSize⟩⟩,
        [(i, mgr.currentCounter)]) := by
  simp only [SharedNonceFile.step, h, NonceManager.allocateMsg_extend hend]

/-! ### The ledger behind a run -/

/-- What an instance may still issue from its block. -/
def leaseOf : Option NonceInstance → Lease
  | some (.ready mgr) => ⟨mgr.currentCounter.toNat, mgr.blockLimit.toNat⟩
  | _ => .empty

/-- The instances mirror a ledger whose holders are their positions. Everything
from `start` to the counter on disk was issued or is still in some block. -/
structure Mirrors (start : ℕ) (w : SharedNonceFile) (issued : List (ℕ × UInt64))
    (l : Ledger ℕ) : Prop where
  watermark : l.watermark = w.file.nextAllocatedBlock.toNat
  start_le : start ≤ l.watermark
  lease : ∀ i, l.lease i = leaseOf w.instances[i]?
  ready : ∀ (i : ℕ) (mgr : NonceManager), w.instances[i]? = some (.ready mgr) →
    start ≤ mgr.blockLimit.toNat ∧ mgr.currentCounter ≤ mgr.blockLimit ∧
      mgr.blockLimit ≤ w.file.nextAllocatedBlock
  opening : ∀ (i : ℕ) (mgr : NonceManager), w.instances[i]? = some (.opening mgr) →
    start ≤ mgr.currentCounter.toNat ∧ mgr.currentCounter ≤ w.file.nextAllocatedBlock ∧
      mgr.blockLimit = mgr.currentCounter + nonceBlockSize
  own : ∀ (i : ℕ) (n : UInt64), (i, n) ∈ issued → ∃ mgr : NonceManager,
    w.instances[i]? = some (.ready mgr) ∧ n < mgr.currentCounter
  covered : l.Covered start
  issued : l.issued = issued.map fun x => x.2.toNat

/-- Replacing one instance replaces one lease. -/
private theorem lease_set {l : Ledger ℕ} (h : ∀ j, l.lease j = leaseOf w.instances[j]?)
    (hi : i < w.instances.length) (new : NonceInstance) (j : ℕ) :
    Function.update l.lease i (leaseOf (some new)) j = leaseOf (w.instances.set i new)[j]? := by
  by_cases e : j = i
  · subst e
    rw [Function.update_self, List.getElem?_set_self hi]
  · rw [Function.update_of_ne e, List.getElem?_set_ne (Ne.symm e), h j]

/-- An instance found after a replacement is the new one or was there before. -/
private theorem getElem?_set_cases {j : ℕ} {new x : NonceInstance}
    (h : (w.instances.set i new)[j]? = some x) : x = new ∨ w.instances[j]? = some x := by
  by_cases e : i = j
  · subst e
    by_cases hi : i < w.instances.length
    · rw [List.getElem?_set_self hi] at h
      exact Or.inl (Option.some.inj h).symm
    · rw [List.set_eq_of_length_le (Nat.not_lt.mp hi)] at h
      exact Or.inr h
  · rw [List.getElem?_set_ne e] at h
    exact Or.inr h

private theorem lt_length {x : NonceInstance} (h : w.instances[i]? = some x) :
    i < w.instances.length :=
  (List.getElem?_eq_some_iff.mp h).1

variable {start : ℕ} {issued : List (ℕ × UInt64)} {l : Ledger ℕ}

/-- Reading the file adds an instance that holds nothing yet. -/
theorem Mirrors.newRead (h : Mirrors start w issued l) (nowSecs : UInt32)
    {disk : NonceDiskState} (hdisk : w.file.diskState = some disk) :
    Mirrors start ⟨w.instances ++ [.opening (.load nowSecs disk)], w.file⟩ issued l := by
  have hnext := StateFile.nextAllocatedBlock_of_diskState hdisk
  -- The new instance is not ready, so every ready one was there before.
  have hready : ∀ (j : ℕ) (mgr : NonceManager),
      (w.instances ++ [.opening (.load nowSecs disk)])[j]? = some (.ready mgr) →
      w.instances[j]? = some (.ready mgr) := by
    intro j mgr hj
    by_cases hlt : j < w.instances.length
    · rwa [List.getElem?_append_left hlt] at hj
    · rw [List.getElem?_append_right (Nat.not_lt.mp hlt)] at hj
      have hmem := List.mem_of_getElem? hj
      simp at hmem
  have hown : ∀ (j : ℕ) (n : UInt64), (j, n) ∈ issued → ∃ mgr : NonceManager,
      (w.instances ++ [.opening (.load nowSecs disk)])[j]? = some (.ready mgr) ∧
        n < mgr.currentCounter := by
    intro j n hn
    obtain ⟨mgr, hj, hlt⟩ := h.own j n hn
    exact ⟨mgr, by rw [List.getElem?_append_left (lt_length hj), hj], hlt⟩
  refine ⟨h.watermark, h.start_le, ?_, fun j mgr hj => h.ready j mgr (hready j mgr hj), ?_, hown,
    h.covered, h.issued⟩
  · intro j
    rw [h.lease j]
    rcases Nat.lt_or_ge j w.instances.length with hlt | hge
    · rw [List.getElem?_append_left hlt]
    · rw [List.getElem?_append_right hge, List.getElem?_eq_none hge]
      -- At or past the old end there is no lease, before or after.
      cases hj : j - w.instances.length <;> simp [leaseOf]
  · intro j mgr hj
    rcases Nat.lt_or_ge j w.instances.length with hlt | hge
    · rw [List.getElem?_append_left hlt] at hj
      exact h.opening j mgr hj
    · rw [List.getElem?_append_right hge] at hj
      have hmem := List.mem_of_getElem? hj
      obtain rfl : mgr = .load nowSecs disk := by simpa using hmem
      refine ⟨?_, ?_, rfl⟩
      · simpa [NonceManager.load, ← hnext, ← h.watermark] using h.start_le
      · simp [NonceManager.load, hnext]

/-- Writing a reservation that continues the file grants a block. -/
theorem Mirrors.reserve (h : Mirrors start w issued l) {old : NonceInstance}
    (hi : w.instances[i]? = some old) (spent : (l.lease i).limit ≤ (l.lease i).next)
    (hlatest : mgr.currentCounter = w.file.nextAllocatedBlock)
    (hlimit : mgr.blockLimit = w.file.nextAllocatedBlock + nonceBlockSize)
    (fits : w.file.nextAllocatedBlock.toNat + 1000 < 2 ^ 64) :
    Mirrors start ⟨w.instances.set i (.ready mgr), .saved ⟨mgr.currentEpoch, mgr.blockLimit⟩⟩
      issued (l.grant i 1000) := by
  have hnext : mgr.blockLimit.toNat = w.file.nextAllocatedBlock.toNat + 1000 := by
    rw [hlimit, toNat_add_nonceBlockSize fits]
  have hgrow : w.file.nextAllocatedBlock ≤ mgr.blockLimit := by
    rw [UInt64.le_iff_toNat_le, hnext]
    exact Nat.le_add_right _ _
  refine ⟨?_, ?_, ?_, ?_, ?_, ?_, h.covered.grant spent 1000, h.issued⟩
  · simp [Ledger.grant, h.watermark, hnext]
  · exact Nat.le_add_right_of_le h.start_le
  · intro j
    rw [← lease_set h.lease (lt_length hi)]
    simp [Ledger.grant, leaseOf, h.watermark, hlatest, hnext]
  · intro j mgr' hj
    rcases getElem?_set_cases hj with heq | hj
    · obtain rfl := NonceInstance.ready.inj heq
      refine ⟨?_, ?_, UInt64.le_refl _⟩
      · rw [hnext, ← h.watermark]
        exact Nat.le_add_right_of_le h.start_le
      · rw [hlatest]
        exact hgrow
    · obtain ⟨hs, hc, hb⟩ := h.ready j mgr' hj
      exact ⟨hs, hc, UInt64.le_trans hb hgrow⟩
  · intro j mgr' hj
    rcases getElem?_set_cases hj with heq | hj
    · exact NonceInstance.noConfusion heq
    · obtain ⟨hs, hc, hb⟩ := h.opening j mgr' hj
      exact ⟨hs, UInt64.le_trans hc hgrow, hb⟩
  -- The instance now stands at the counter on disk, above all that was issued.
  · intro j n hn
    by_cases e : j = i
    · subst e
      refine ⟨mgr, List.getElem?_set_self (lt_length hi), ?_⟩
      rw [hlatest, UInt64.lt_iff_toNat_lt, ← h.watermark]
      apply l.issued_below
      rw [h.issued]
      exact List.mem_map_of_mem hn
    · obtain ⟨mgr', hj, hlt⟩ := h.own j n hn
      exact ⟨mgr', by rw [List.getElem?_set_ne (Ne.symm e), hj], hlt⟩

/-- Allocating inside a block issues the next number of its lease. -/
theorem Mirrors.take (h : Mirrors start w issued l) (hi : w.instances[i]? = some (.ready mgr))
    (hlt : mgr.currentCounter < mgr.blockLimit) :
    ∃ l', Mirrors start
      ⟨w.instances.set i (.ready { mgr with currentCounter := mgr.currentCounter + 1 }), w.file⟩
      (issued ++ [(i, mgr.currentCounter)]) l' := by
  have hlease : l.lease i = ⟨mgr.currentCounter.toNat, mgr.blockLimit.toNat⟩ := by
    rw [h.lease i, hi]
    rfl
  have hsucc := toNat_succ_of_lt hlt
  have hnonempty : (l.lease i).next < (l.lease i).limit := by
    rw [hlease]
    exact UInt64.lt_iff_toNat_lt.mp hlt
  refine ⟨l.issue i hnonempty, h.watermark, h.start_le, ?_, ?_, ?_, ?_,
    h.covered.issue hnonempty, ?_⟩
  · intro j
    rw [← lease_set h.lease (lt_length hi)]
    simp [Ledger.issue, leaseOf, hlease, hsucc]
  · intro j mgr' hj
    rcases getElem?_set_cases hj with heq | hj
    · obtain rfl := NonceInstance.ready.inj heq
      obtain ⟨hs, -, hb⟩ := h.ready i mgr hi
      refine ⟨hs, ?_, hb⟩
      show mgr.currentCounter + 1 ≤ mgr.blockLimit
      rw [UInt64.le_iff_toNat_le, hsucc]
      exact UInt64.lt_iff_toNat_lt.mp hlt
    · exact h.ready j mgr' hj
  · intro j mgr' hj
    rcases getElem?_set_cases hj with heq | hj
    · exact NonceInstance.noConfusion heq
    · exact h.opening j mgr' hj
  · intro j n hn
    -- What the instance issued before, and what it issues now, is below its new counter.
    have hstep : mgr.currentCounter < mgr.currentCounter + 1 := by
      rw [UInt64.lt_iff_toNat_lt, hsucc]
      exact Nat.lt_succ_self _
    by_cases e : j = i
    · subst e
      refine ⟨_, List.getElem?_set_self (lt_length hi), ?_⟩
      rcases List.mem_append.mp hn with hn | hn
      · obtain ⟨mgr', hj, hbelow⟩ := h.own j n hn
        obtain rfl : mgr' = mgr := by simpa [hi] using hj.symm
        exact UInt64.lt_trans hbelow hstep
      · obtain rfl : n = mgr.currentCounter := by simpa using hn
        exact hstep
    · have hold : (j, n) ∈ issued := by simpa [e] using hn
      obtain ⟨mgr', hj, hbelow⟩ := h.own j n hold
      exact ⟨mgr', by rw [List.getElem?_set_ne (Ne.symm e), hj], hbelow⟩
  · simp [Ledger.issue, h.issued, hlease]

/-- At the end of its block, an instance whose limit is the one on disk stands there. -/
theorem Mirrors.counter_eq (h : Mirrors start w issued l)
    (hi : w.instances[i]? = some (.ready mgr)) (hend : mgr.blockLimit ≤ mgr.currentCounter) :
    mgr.currentCounter = mgr.blockLimit :=
  UInt64.le_antisymm (h.ready i mgr hi).2.1 hend

/-- **Step lemma.** An event that meets both conditions keeps the mirrored ledger. -/
theorem Mirrors.step (h : Mirrors start w issued l) (e : InstanceEvent) (fits : w.Fits e)
    (latest : w.ReservesLatest e) :
    ∃ l', Mirrors start (w.step e).1 (issued ++ (w.step e).2) l' := by
  cases e with
  | newRead nowSecs =>
    cases hdisk : w.file.diskState with
    | none => exact ⟨l, by simpa [SharedNonceFile.step, hdisk] using h⟩
    | some disk => exact ⟨l, by simpa [SharedNonceFile.step, hdisk] using h.newRead nowSecs hdisk⟩
  | newPersist i =>
    match hi : w.instances[i]? with
    | none => exact ⟨l, by simpa [SharedNonceFile.step, hi] using h⟩
    | some (.ready mgr) => exact ⟨l, by simpa [SharedNonceFile.step, hi] using h⟩
    | some (.opening mgr) =>
      have hlatest : mgr.currentCounter = w.file.nextAllocatedBlock := latest mgr hi
      have hlimit := (h.opening i mgr hi).2.2
      have hfits := fits mgr hi
      -- An opening instance has no block yet, so the grant loses nothing.
      have spent : (l.lease i).limit ≤ (l.lease i).next := by
        rw [h.lease i, hi]
        exact Nat.le_refl 0
      rw [step_newPersist hi]
      refine ⟨l.grant i 1000, ?_⟩
      rw [hlatest] at hlimit hfits
      simpa using h.reserve hi spent hlatest hlimit hfits
  | allocateMsg i =>
    match hi : w.instances[i]? with
    | none => exact ⟨l, by simpa [SharedNonceFile.step, hi] using h⟩
    | some (.opening mgr) => exact ⟨l, by simpa [SharedNonceFile.step, hi] using h⟩
    | some (.ready mgr) =>
      by_cases hlt : mgr.currentCounter < mgr.blockLimit
      · rw [step_allocateMsg_of_lt hi hlt]
        exact h.take hi hlt
      · have hend : mgr.blockLimit ≤ mgr.currentCounter := UInt64.not_lt.mp hlt
        have hlatest : mgr.blockLimit = w.file.nextAllocatedBlock := latest mgr hi hend
        have hcounter : mgr.currentCounter = w.file.nextAllocatedBlock :=
          (h.counter_eq hi hend).trans hlatest
        have hfits := fits mgr hi hend
        have spent : (l.lease i).limit ≤ (l.lease i).next := by
          rw [h.lease i, hi]
          exact UInt64.le_iff_toNat_le.mp hend
        -- Extending a used-up block reserves the next one and issues its first number.
        rw [hlatest] at hfits
        let grown : NonceManager :=
          ⟨mgr.currentEpoch, mgr.currentCounter, mgr.blockLimit + nonceBlockSize⟩
        have hreserved : Mirrors start
            ⟨w.instances.set i (.ready grown), .saved ⟨grown.currentEpoch, grown.blockLimit⟩⟩
            issued (l.grant i 1000) := h.reserve hi spent hcounter (by rw [← hlatest]) hfits
        have hroom : mgr.currentCounter < mgr.blockLimit + nonceBlockSize := by
          rw [hcounter, hlatest, UInt64.lt_iff_toNat_lt, toNat_add_nonceBlockSize hfits]
          omega
        obtain ⟨l', hl'⟩ := hreserved.take (List.getElem?_set_self (lt_length hi)) hroom
        refine ⟨l', ?_⟩
        rw [step_allocateMsg_extend hi hend]
        simpa using hl'

/-- Before any instance is opened, the ledger is opened at the counter on disk. -/
theorem mirrors_initial (file : StateFile) :
    Mirrors file.nextAllocatedBlock.toNat ⟨[], file⟩ []
      (.opened ℕ file.nextAllocatedBlock.toNat) := by
  refine ⟨rfl, Nat.le_refl _, ?_, ?_, ?_, ?_, Ledger.covered_opened _, rfl⟩ <;>
    simp [Ledger.opened, leaseOf]

/-- **Run lemma.** A run all of whose events meet both conditions mirrors a ledger. -/
theorem mirrors_of_guarded {file : StateFile} {events : List InstanceEvent}
    (fits : machine.Guarded Fits ⟨[], file⟩ events)
    (latest : machine.Guarded ReservesLatest ⟨[], file⟩ events) :
    ∃ l, Mirrors file.nextAllocatedBlock.toNat (machine.final ⟨[], file⟩ events)
      (machine.outputs ⟨[], file⟩ events) l := by
  have preserved : ∀ w past e, (∃ l, Mirrors file.nextAllocatedBlock.toNat w past l) →
      w.Fits e ∧ w.ReservesLatest e → ∃ l, Mirrors file.nextAllocatedBlock.toNat
        (machine.next w e) (past ++ machine.emit w e) l := by
    intro w past e hmirrors hok
    obtain ⟨l, hl⟩ := hmirrors
    exact hl.step e hok.1 hok.2
  exact Machine.history_invariant_nil preserved ⟨_, mirrors_initial file⟩
    fun x hx => ⟨fits x hx, latest x hx⟩

theorem Mirrors.nodup (h : Mirrors start w issued l) : (issued.map Prod.snd).Nodup := by
  have hnodup := l.issued_nodup
  rw [h.issued] at hnodup
  refine List.Nodup.of_map UInt64.toNat ?_
  simpa [Function.comp_def] using hnodup

/-! ### A block reserved twice is issued twice

An instance that stands at or before a number of its block issues that number or
keeps it, whatever the other instances do. So a number that two instances hold,
or that one holds and another has issued, is issued twice once both blocks are
used up. -/

/-- Instance `i` has issued the number or still has it in its block. -/
def Owes (w : SharedNonceFile) (past : List (ℕ × UInt64)) (i : ℕ) (n : UInt64) : Prop :=
  (i, n) ∈ past ∨ ∃ mgr : NonceManager, w.instances[i]? = some (.ready mgr) ∧
    mgr.currentCounter ≤ n ∧ n < mgr.blockLimit

variable {past : List (ℕ × UInt64)} {n : UInt64}

/-- Stepping past a number that is not `n` stays at or before `n`. -/
private theorem succ_le_of_ne {counter : UInt64} (hle : counter ≤ n) (hne : counter ≠ n) :
    counter + 1 ≤ n := by
  have hlt : counter < n := UInt64.lt_of_le_of_ne hle hne
  rw [UInt64.le_iff_toNat_le, toNat_succ_of_lt hlt]
  exact UInt64.lt_iff_toNat_lt.mp hlt

/-- What the other instances do leaves an instance alone. -/
private theorem step_other {e : InstanceEvent} (hi : w.instances[i]? = some (.ready mgr))
    (hother : e ≠ .allocateMsg i) : (w.step e).1.instances[i]? = some (.ready mgr) := by
  cases e with
  | newRead nowSecs =>
    cases hdisk : w.file.diskState with
    | none => simpa [SharedNonceFile.step, hdisk] using hi
    | some disk =>
      simp only [SharedNonceFile.step, hdisk]
      rw [List.getElem?_append_left (lt_length hi), hi]
  | newPersist j =>
    match hj : w.instances[j]? with
    | none => simpa [SharedNonceFile.step, hj] using hi
    | some (.ready mgr') => simpa [SharedNonceFile.step, hj] using hi
    | some (.opening mgr') =>
      have hne : j ≠ i := by
        intro e
        rw [e, hi] at hj
        exact NonceInstance.noConfusion (Option.some.inj hj)
      rw [step_newPersist hj, List.getElem?_set_ne hne, hi]
  | allocateMsg j =>
    have hne : j ≠ i := fun e => hother (by rw [e])
    match hj : w.instances[j]? with
    | none => simpa [SharedNonceFile.step, hj] using hi
    | some (.opening mgr') => simpa [SharedNonceFile.step, hj] using hi
    | some (.ready mgr') =>
      by_cases hlt : mgr'.currentCounter < mgr'.blockLimit
      · rw [step_allocateMsg_of_lt hj hlt, List.getElem?_set_ne hne, hi]
      · rw [step_allocateMsg_extend hj (UInt64.not_lt.mp hlt), List.getElem?_set_ne hne, hi]

/-- **Step lemma.** What an instance owes, it owes or has issued after any event. -/
theorem Owes.step (h : w.Owes past i n) (e : InstanceEvent) :
    (w.step e).1.Owes (past ++ (w.step e).2) i n := by
  rcases h with hissued | ⟨mgr, hi, hle, hlt⟩
  · exact Or.inl (List.mem_append_left _ hissued)
  · by_cases hother : e = .allocateMsg i
    -- Its own allocation stays inside the block: it issues the number or comes closer.
    · subst hother
      rw [step_allocateMsg_of_lt hi (UInt64.lt_of_le_of_lt hle hlt)]
      by_cases hn : mgr.currentCounter = n
      · exact Or.inl (by simp [hn])
      · exact Or.inr ⟨_, List.getElem?_set_self (lt_length hi), succ_le_of_ne hle hn, hlt⟩
    · exact Or.inr ⟨mgr, step_other hi hother, hle, hlt⟩

/-- **Run lemma.** What an instance owes, it owes or has issued after any run. -/
theorem Owes.run (h : w.Owes past i n) (events : List InstanceEvent) :
    (machine.final w events).Owes (past ++ machine.outputs w events) i n := by
  have preserved : ∀ w past e, SharedNonceFile.Owes w past i n → True →
      (machine.next w e).Owes (past ++ machine.emit w e) i n :=
    fun w past e howes _ => howes.step e
  exact Machine.history_invariant preserved h fun _ _ => trivial

/-- An instance issues what it owes by allocating inside its block. -/
theorem Owes.paid (h : w.Owes past i n) :
    ∃ more, machine.Guarded InBlock w more ∧ (i, n) ∈ past ++ machine.outputs w more := by
  rcases h with hissued | ⟨mgr, hi, hle, hlt⟩
  · exact ⟨[], by simp, by simpa using hissued⟩
  -- The induction is on the distance from the instance's counter to the number.
  obtain ⟨k, hk⟩ : ∃ k, n.toNat - mgr.currentCounter.toNat = k := ⟨_, rfl⟩
  induction k generalizing w mgr with
  | zero =>
    have heq : mgr.currentCounter = n := by
      rw [UInt64.le_iff_toNat_le] at hle
      exact UInt64.toNat_inj.mp (by omega)
    refine ⟨[.allocateMsg i], by simpa [InBlock, hi] using heq ▸ hlt, ?_⟩
    simp [Machine.emit, machine, step_allocateMsg_of_lt hi (heq ▸ hlt), heq]
  | succ k ih =>
    have hroom := UInt64.lt_of_le_of_lt hle hlt
    -- One allocation brings the counter one closer.
    have hne : mgr.currentCounter ≠ n := by
      intro heq
      rw [heq] at hk
      omega
    have hsucc := toNat_succ_of_lt hroom
    have hset := List.getElem?_set_self (a := NonceInstance.ready
      { mgr with currentCounter := mgr.currentCounter + 1 }) (lt_length hi)
    obtain ⟨more, hguarded, hmem⟩ := ih (w := (w.step (.allocateMsg i)).1)
      { mgr with currentCounter := mgr.currentCounter + 1 }
      (by rw [step_allocateMsg_of_lt hi hroom]; exact hset) (succ_le_of_ne hle hne) hlt
      (by simp only [hsucc]; omega)
    refine ⟨.allocateMsg i :: more, ?_, ?_⟩
    · exact (Machine.guarded_cons _ _ _ _).mpr ⟨⟨mgr, hi, hroom⟩, hguarded⟩
    · rw [Machine.outputs_cons]
      rcases List.mem_append.mp hmem with hmem | hmem
      · exact List.mem_append_left _ hmem
      · exact List.mem_append_right _ (List.mem_append_right _ hmem)

/-- A number reserved before the counter on disk is owed by some instance. -/
theorem Mirrors.owed (h : Mirrors start w issued l) (hstart : start ≤ n.toNat)
    (hn : n < w.file.nextAllocatedBlock) : ∃ k, w.Owes issued k n := by
  have hbelow : n.toNat < l.watermark := by
    rw [h.watermark]
    exact UInt64.lt_iff_toNat_lt.mp hn
  rcases h.covered n.toNat hstart hbelow with hissued | ⟨k, hheld⟩
  · rw [h.issued] at hissued
    obtain ⟨⟨k, m⟩, hmem, heq⟩ := List.mem_map.mp hissued
    obtain rfl : m = n := UInt64.toNat_inj.mp heq
    exact ⟨k, Or.inl hmem⟩
  · rw [h.lease k] at hheld
    match hk : w.instances[k]? with
    | none | some (.opening _) =>
      rw [hk] at hheld
      exact absurd hheld (Lease.not_holds_empty _)
    | some (.ready mgr) =>
      rw [hk] at hheld
      exact ⟨k, Or.inr ⟨mgr, hk, UInt64.le_iff_toNat_le.mpr hheld.1,
        UInt64.lt_iff_toNat_lt.mpr hheld.2⟩⟩

/-- A stale reservation makes a second instance owe a number. -/
theorem Mirrors.owes_twice (h : Mirrors start w issued l) (e : InstanceEvent) (fits : w.Fits e)
    (stale : ¬ w.ReservesLatest e) :
    ∃ i k n, i ≠ k ∧ (w.step e).1.Owes (issued ++ (w.step e).2) i n ∧
      (w.step e).1.Owes (issued ++ (w.step e).2) k n := by
  cases e with
  | newRead nowSecs => exact absurd trivial stale
  | newPersist i =>
    simp only [ReservesLatest, not_forall] at stale
    obtain ⟨mgr, hi, hne⟩ := stale
    obtain ⟨hstart, hle, hlimit⟩ := h.opening i mgr hi
    obtain ⟨k, hk⟩ := h.owed hstart (UInt64.lt_of_le_of_ne hle hne)
    -- Whoever owes the number is another one: an opening instance owes nothing.
    have hother : i ≠ k := by
      intro e
      subst e
      rcases hk with hissued | ⟨mgr', hready, -⟩
      · obtain ⟨mgr', hready, -⟩ := h.own i _ hissued
        simp [hi] at hready
      · simp [hi] at hready
    refine ⟨i, k, mgr.currentCounter, hother, Or.inr ?_, hk.step _⟩
    rw [step_newPersist hi]
    refine ⟨mgr, List.getElem?_set_self (lt_length hi), UInt64.le_refl _, ?_⟩
    rw [hlimit, UInt64.lt_iff_toNat_lt, toNat_add_nonceBlockSize (fits mgr hi)]
    omega
  | allocateMsg i =>
    simp only [ReservesLatest, not_forall] at stale
    obtain ⟨mgr, hi, hend, hne⟩ := stale
    obtain ⟨hstart, -, hle⟩ := h.ready i mgr hi
    obtain ⟨k, hk⟩ := h.owed hstart (UInt64.lt_of_le_of_ne hle hne)
    have hcounter := h.counter_eq hi hend
    -- The extending instance has issued and holds only numbers below its limit.
    have hother : i ≠ k := by
      intro e
      subst e
      rcases hk with hissued | ⟨mgr', hready, -, hlt⟩
      · obtain ⟨mgr', hready, hlt⟩ := h.own i _ hissued
        obtain rfl : mgr' = mgr := by simpa [hi] using hready.symm
        exact absurd hlt (UInt64.not_lt.mpr (h.ready i mgr' hi).2.1)
      · obtain rfl : mgr' = mgr := by simpa [hi] using hready.symm
        exact absurd hlt (UInt64.lt_irrefl _)
    refine ⟨i, k, mgr.blockLimit, hother, Or.inl ?_, hk.step _⟩
    rw [step_allocateMsg_extend hi hend]
    simp [hcounter]

/-- **Multi-instance uniqueness, exactly.** As long as no reservation runs past
`2 ^ 64`, the blocks left by a run can be used up without issuing a counter twice
if and only if every reservation of the run was written while the file still held
the counter the reserved block starts at. -/
theorem issued_once_iff_reservesLatest (file : StateFile) (events : List InstanceEvent)
    (fits : machine.Guarded Fits ⟨[], file⟩ events) :
    (∀ more, machine.Guarded InBlock (machine.final ⟨[], file⟩ events) more →
        ((machine.outputs ⟨[], file⟩ (events ++ more)).map Prod.snd).Nodup) ↔
      machine.Guarded ReservesLatest ⟨[], file⟩ events := by
  constructor
  · intro once
    by_contra unguarded
    -- Up to its first stale reservation the run mirrors a ledger.
    obtain ⟨before, e, after, rfl, latest, stale⟩ := Machine.exists_first_unguarded unguarded
    obtain ⟨fitsBefore, fitsRest⟩ := (Machine.guarded_append _ _ _ _).mp fits
    obtain ⟨l, hl⟩ := mirrors_of_guarded fitsBefore latest
    obtain ⟨i, k, n, hne, hi, hk⟩ :=
      hl.owes_twice e ((Machine.guarded_cons _ _ _ _).mp fitsRest).1 stale
    -- Both debts outlive the rest of the run and are then paid one after the other.
    have hrun : ∀ j, (machine.next (machine.final ⟨[], file⟩ before) e).Owes
        (machine.outputs ⟨[], file⟩ before ++
          machine.emit (machine.final ⟨[], file⟩ before) e) j n →
        (machine.final ⟨[], file⟩ (before ++ e :: after)).Owes
          (machine.outputs ⟨[], file⟩ (before ++ e :: after)) j n := by
      intro j hj
      have := hj.run after
      simpa only [Machine.final_append, Machine.outputs_append, Machine.final_cons,
        Machine.outputs_cons, List.append_assoc] using this
    obtain ⟨first, hfirst, hpaid⟩ := (hrun i hi).paid
    obtain ⟨second, hsecond, hpaid'⟩ := ((hrun k hk).run first).paid
    have hnodup := once (first ++ second)
      ((Machine.guarded_append _ _ _ _).mpr ⟨hfirst, hsecond⟩)
    rw [Machine.outputs_append _ _ (first ++ second), Machine.outputs_append _ first second,
      ← List.append_assoc] at hnodup
    have heq := List.inj_on_of_nodup_map hnodup (List.mem_append_left _ hpaid) hpaid' rfl
    exact hne (congrArg Prod.fst heq)
  · intro latest more hmore
    -- Using up blocks reserves nothing, so the longer run meets both conditions too.
    have fitsMore : machine.Guarded Fits (machine.final ⟨[], file⟩ events) more :=
      hmore.mono fun _ _ h => h.spared.1
    have latestMore : machine.Guarded ReservesLatest (machine.final ⟨[], file⟩ events) more :=
      hmore.mono fun _ _ h => h.spared.2
    obtain ⟨l, hl⟩ := mirrors_of_guarded ((Machine.guarded_append _ _ _ _).mpr ⟨fits, fitsMore⟩)
      ((Machine.guarded_append _ _ _ _).mpr ⟨latest, latestMore⟩)
    exact hl.nodup

/-- Two instances open one after the other and allocate once each. -/
def firstBlocksRun : List InstanceEvent :=
  [.newRead 5, .newPersist 0, .newRead 6, .newPersist 1, .allocateMsg 0, .allocateMsg 1]

/-- They allocate from disjoint blocks, and may use these up. -/
theorem issued_once_in_first_blocks :
    (machine.outputs ⟨[], .missing⟩ firstBlocksRun).map Prod.snd = [0, 1000] ∧
      ∀ more, machine.Guarded InBlock (machine.final ⟨[], .missing⟩ firstBlocksRun) more →
        ((machine.outputs ⟨[], .missing⟩ (firstBlocksRun ++ more)).map Prod.snd).Nodup :=
  ⟨by decide, (issued_once_iff_reservesLatest .missing firstBlocksRun (by decide)).mpr (by decide)⟩

/-- Allocations inside a block step the counter of that instance only. -/
theorem final_replicate_allocateMsg (k : ℕ) (hi : w.instances[i]? = some (.ready mgr))
    (hroom : mgr.currentCounter.toNat + k ≤ mgr.blockLimit.toNat) :
    machine.final w (List.replicate k (.allocateMsg i)) =
      ⟨w.instances.set i
        (.ready { mgr with currentCounter := mgr.currentCounter + UInt64.ofNat k }), w.file⟩ := by
  induction k generalizing w mgr with
  | zero =>
    have hself : w.instances.set i (.ready mgr) = w.instances := by
      obtain ⟨hlen, hget⟩ := List.getElem?_eq_some_iff.mp hi
      rw [← hget, List.set_getElem_self]
    simp [hself]
  | succ k ih =>
    have hlt : mgr.currentCounter < mgr.blockLimit := by
      rw [UInt64.lt_iff_toNat_lt]
      omega
    let taken : NonceManager := { mgr with currentCounter := mgr.currentCounter + 1 }
    have hnext : machine.next w (.allocateMsg i) = ⟨w.instances.set i (.ready taken), w.file⟩ :=
      congrArg Prod.fst (step_allocateMsg_of_lt hi hlt)
    have htaken : (w.instances.set i (.ready taken))[i]? = some (.ready taken) :=
      List.getElem?_set_self (lt_length hi)
    have hleft : taken.currentCounter.toNat + k ≤ taken.blockLimit.toNat := by
      simp only [taken, toNat_succ_of_lt hlt]
      omega
    rw [List.replicate_succ, Machine.final_cons, hnext, ih htaken hleft]
    simp [taken, UInt64.ofNat_add, UInt64.add_assoc, UInt64.add_comm 1]

/-- The first instance uses up its block and extends it over the second one's. -/
def overlappingExtensionRun : List InstanceEvent :=
  ([.newRead 5, .newPersist 0, .newRead 6, .newPersist 1] ++
    List.replicate 1000 (.allocateMsg 0)) ++ [.allocateMsg 0, .allocateMsg 1]

/-- Both instances return counter 1000. -/
theorem not_issued_once_overlappingExtensionRun :
    ¬ ((machine.outputs ⟨[], .missing⟩ overlappingExtensionRun).map Prod.snd).Nodup := by
  have hopen : machine.final ⟨[], .missing⟩ [.newRead 5, .newPersist 0, .newRead 6, .newPersist 1] =
      ⟨[.ready ⟨5, 0, 1000⟩, .ready ⟨6, 1000, 2000⟩], .saved ⟨6, 2000⟩⟩ := by decide
  have hfirst : (⟨[.ready ⟨5, 0, 1000⟩, .ready ⟨6, 1000, 2000⟩], .saved ⟨6, 2000⟩⟩ :
      SharedNonceFile).instances[0]? = some (.ready ⟨5, 0, 1000⟩) := rfl
  have hused := final_replicate_allocateMsg 1000 hfirst (by decide)
  have hcounter : (0 : UInt64) + UInt64.ofNat 1000 = 1000 := by decide
  have htail : machine.outputs ⟨[.ready ⟨5, 1000, 1000⟩, .ready ⟨6, 1000, 2000⟩], .saved ⟨6, 2000⟩⟩
      [.allocateMsg 0, .allocateMsg 1] = [(0, 1000), (1, 1000)] := by decide
  rw [overlappingExtensionRun, Machine.outputs_append, Machine.final_append, hopen, hused, hcounter,
    List.set_cons_zero, htail, List.map_append]
  intro hnodup
  have hpair := (List.nodup_append.mp hnodup).2.1
  exact absurd hpair (by decide)

end SharedNonceFile

end Gibberish.Daemon
