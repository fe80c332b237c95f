/-
# Counter durability across failed writes, crashes and restarts

One manager at a time runs over one state file. Its calls may fail, the process
may die between calls or inside one, and a new process opens the file again.

A manager whose block limit is the one on disk mirrors a reservation ledger with
a single holder. `allocate_msg` raises the limit in memory before it writes the
file, so after a failed write the manager believes in a block that the disk does
not know of, and the next call issues from it. Runs that never allocate on such a
manager are exactly the runs in which every issued counter stays below the one
on disk, and in these no counter is issued twice.
-/

import Gibberish.Daemon.Nonce
import Gibberish.Foundation.Machine
import Gibberish.Foundation.Reservation

set_option autoImplicit false

namespace Gibberish.Daemon

open Gibberish.Foundation

/-- The process, which may hold a manager, and the state file. -/
structure NonceWorld where
  mgr : Option NonceManager
  file : StateFile
  deriving DecidableEq

/-- A call with the outcome of each file operation it makes. -/
inductive NonceCall where
  | new (nowSecs : UInt32) (createDir persist : IoOutcome)
  | allocateMsg (persist : IoOutcome)
  deriving DecidableEq

/-- A call that returns, a call the process dies in (before or after the rename,
by the outcome the call carries), or a death between calls. -/
inductive NonceEvent where
  | call (c : NonceCall)
  | crashDuring (c : NonceCall)
  | crash
  deriving DecidableEq

namespace NonceWorld

/-- The effect of a call, with the counter it returns. -/
def perform (w : NonceWorld) : NonceCall → NonceWorld × List UInt64
  | .new nowSecs createDir persist =>
    match NonceManager.new nowSecs createDir persist w.file with
    | (.ok mgr, file) => (⟨some mgr, file⟩, [])
    | (.error _, file) => (⟨none, file⟩, [])
  | .allocateMsg persist =>
    match w.mgr with
    | none => (w, [])
    | some mgr =>
      match mgr.allocateMsg persist w.file with
      | (.ok (_, counter), mgr, file) => (⟨some mgr, file⟩, [counter])
      | (.error _, mgr, file) => (⟨some mgr, file⟩, [])

/-- The process is gone; the file stays. -/
def dead (w : NonceWorld) : NonceWorld := { w with mgr := none }

/-- One event, with the counters it returns to the caller. -/
def step (w : NonceWorld) : NonceEvent → NonceWorld × List UInt64
  | .call c => w.perform c
  | .crashDuring c => ((w.perform c).1.dead, [])
  | .crash => (w.dead, [])

/-- The process and its state file as a machine that emits the issued counters. -/
def machine : Machine NonceWorld NonceEvent UInt64 := ⟨step⟩

/-- Every issued counter is below the next block on disk. -/
def Durable (w : NonceWorld) (issued : List UInt64) : Prop :=
  ∀ n ∈ issued, n < w.file.nextAllocatedBlock

/-- The block limit in memory is the one on disk. -/
def Backed (w : NonceWorld) : Prop :=
  ∀ mgr ∈ w.mgr, mgr.blockLimit = w.file.nextAllocatedBlock

/-- `allocate_msg` is called on a backed manager only. -/
def AllocatesBacked (w : NonceWorld) : NonceEvent → Prop
  | .call (.allocateMsg _) => w.Backed
  | _ => True

/-- The block a call would reserve ends below `2 ^ 64`. -/
def CallFits (w : NonceWorld) : NonceCall → Prop
  | .new _ _ _ => w.file.nextAllocatedBlock.toNat + 1000 < 2 ^ 64
  | .allocateMsg _ => ∀ mgr ∈ w.mgr, mgr.blockLimit ≤ mgr.currentCounter →
      mgr.blockLimit.toNat + 1000 < 2 ^ 64

/-- The block an event would reserve ends below `2 ^ 64`. -/
def Fits (w : NonceWorld) : NonceEvent → Prop
  | .call c => w.CallFits c
  | .crashDuring c => w.CallFits c
  | .crash => True

instance (w : NonceWorld) : Decidable w.Backed :=
  inferInstanceAs (Decidable (∀ mgr ∈ w.mgr, _))

instance (w : NonceWorld) : DecidablePred w.AllocatesBacked
  | .call (.allocateMsg _) => inferInstanceAs (Decidable w.Backed)
  | .call (.new _ _ _) | .crashDuring _ | .crash => inferInstanceAs (Decidable True)

instance (w : NonceWorld) : DecidablePred w.CallFits
  | .new _ _ _ => inferInstanceAs (Decidable (_ < _))
  | .allocateMsg _ => inferInstanceAs (Decidable (∀ mgr ∈ w.mgr, _))

instance (w : NonceWorld) : DecidablePred w.Fits
  | .call c => inferInstanceAs (Decidable (w.CallFits c))
  | .crashDuring c => inferInstanceAs (Decidable (w.CallFits c))
  | .crash => inferInstanceAs (Decidable True)

/-! ### The ledger behind a run -/

/-- What the manager may still issue from the block the disk knows of. -/
def leaseOf (w : NonceWorld) : Lease :=
  match w.mgr with
  | none => .empty
  | some mgr =>
    -- A block the disk does not know of is nobody's: a restart reserves it again.
    if mgr.blockLimit = w.file.nextAllocatedBlock then
      ⟨mgr.currentCounter.toNat, mgr.blockLimit.toNat⟩
    else .empty

/-- The world and the counters issued so far mirror a ledger with one holder. An
unbacked manager stands at or past the limit on disk and below its own. -/
structure Mirrors (w : NonceWorld) (issued : List UInt64) (l : Ledger Unit) : Prop where
  watermark : l.watermark = w.file.nextAllocatedBlock.toNat
  issued : l.issued = issued.map UInt64.toNat
  lease : l.lease () = w.leaseOf
  backed : ∀ mgr ∈ w.mgr, mgr.blockLimit = w.file.nextAllocatedBlock →
    mgr.currentCounter ≤ mgr.blockLimit
  unbacked : ∀ mgr ∈ w.mgr, mgr.blockLimit ≠ w.file.nextAllocatedBlock →
    w.file.nextAllocatedBlock ≤ mgr.currentCounter ∧ mgr.currentCounter < mgr.blockLimit

variable {w : NonceWorld} {issued : List UInt64} {l : Ledger Unit}

/-- Losing the process gives up the lease. -/
theorem Mirrors.dead (h : Mirrors w issued l) : Mirrors w.dead issued (l.release ()) where
  watermark := h.watermark
  issued := h.issued
  lease := by simp [Ledger.release, leaseOf, NonceWorld.dead]
  backed := by simp [NonceWorld.dead]
  unbacked := by simp [NonceWorld.dead]

/-- A freshly opened manager holds the block it has just reserved. -/
theorem Mirrors.opened (h : Mirrors w issued l) (epoch : UInt32)
    (fits : w.file.nextAllocatedBlock.toNat + 1000 < 2 ^ 64) :
    Mirrors
      ⟨some ⟨epoch, w.file.nextAllocatedBlock, w.file.nextAllocatedBlock + nonceBlockSize⟩,
        .saved ⟨epoch, w.file.nextAllocatedBlock + nonceBlockSize⟩⟩
      issued (l.grant () 1000) where
  watermark := by
    simp [Ledger.grant, h.watermark, toNat_add_nonceBlockSize fits]
  issued := h.issued
  lease := by
    simp [Ledger.grant, leaseOf, h.watermark, toNat_add_nonceBlockSize fits]
  backed := by
    intro mgr hmgr _
    obtain rfl := Option.mem_some_iff.mp hmgr
    rw [UInt64.le_iff_toNat_le, toNat_add_nonceBlockSize fits]
    exact Nat.le_add_right _ _
  unbacked := by
    intro mgr hmgr hne
    obtain rfl := Option.mem_some_iff.mp hmgr
    exact absurd rfl hne

/-- A backed manager inside its block issues the next number of its lease. -/
theorem Mirrors.take {mgr : NonceManager} {file : StateFile}
    (h : Mirrors ⟨some mgr, file⟩ issued l) (hbacked : mgr.blockLimit = file.nextAllocatedBlock)
    (hlt : mgr.currentCounter < mgr.blockLimit) :
    ∃ l', Mirrors ⟨some mgr.takeCounter.2, file⟩ (issued ++ [mgr.currentCounter]) l' := by
  have hlease : l.lease () = ⟨mgr.currentCounter.toNat, mgr.blockLimit.toNat⟩ := by
    rw [h.lease]
    simp only [leaseOf, if_pos hbacked]
  have hltNat : mgr.currentCounter.toNat < mgr.blockLimit.toNat := UInt64.lt_iff_toNat_lt.mp hlt
  have hsucc := toNat_succ_of_lt hlt
  have hnonempty : (l.lease ()).next < (l.lease ()).limit := by
    rw [hlease]
    exact hltNat
  -- Issuing moves the lease on by one and leaves the disk alone.
  refine ⟨l.issue () hnonempty, ⟨h.watermark, ?_, ?_, ?_, ?_⟩⟩
  · simp [Ledger.issue, h.issued, hlease]
  · simp [Ledger.issue, leaseOf, NonceManager.takeCounter, hlease, hbacked, hsucc]
  · intro mgr' hmgr _
    obtain rfl := Option.mem_some_iff.mp hmgr
    simp only [NonceManager.takeCounter]
    rw [UInt64.le_iff_toNat_le, hsucc]
    exact hltNat
  · intro mgr' hmgr hne
    obtain rfl := Option.mem_some_iff.mp hmgr
    exact absurd hbacked hne

/-- A failed extension leaves a manager whose block the disk does not know of. -/
theorem Mirrors.unwritten {mgr : NonceManager} {file : StateFile}
    (h : Mirrors ⟨some mgr, file⟩ issued l) (hbacked : mgr.blockLimit = file.nextAllocatedBlock)
    (hend : mgr.blockLimit ≤ mgr.currentCounter) (fits : mgr.blockLimit.toNat + 1000 < 2 ^ 64) :
    Mirrors ⟨some { mgr with blockLimit := mgr.blockLimit + nonceBlockSize }, file⟩ issued
      (l.release ()) := by
  have hgrown := toNat_add_nonceBlockSize fits
  have hcounter : mgr.currentCounter ≤ mgr.blockLimit := h.backed mgr rfl hbacked
  -- Without a wrap the raised limit differs from the one on disk.
  have hne : mgr.blockLimit + nonceBlockSize ≠ file.nextAllocatedBlock := by
    rw [← hbacked]
    intro heq
    have := congrArg UInt64.toNat heq
    omega
  refine ⟨h.watermark, h.issued, ?_, ?_, ?_⟩
  · simp [Ledger.release, leaseOf, hne]
  · intro mgr' hmgr heq
    obtain rfl := Option.mem_some_iff.mp hmgr
    exact absurd heq hne
  · intro mgr' hmgr _
    obtain rfl := Option.mem_some_iff.mp hmgr
    refine ⟨hbacked ▸ hend, ?_⟩
    show mgr.currentCounter < mgr.blockLimit + nonceBlockSize
    rw [UInt64.le_iff_toNat_le] at hcounter
    rw [UInt64.lt_iff_toNat_lt, hgrown]
    omega

/-- At the end of its block a backed manager stands exactly at the limit on disk. -/
theorem Mirrors.counter_eq {mgr : NonceManager} {file : StateFile}
    (h : Mirrors ⟨some mgr, file⟩ issued l) (hbacked : mgr.blockLimit = file.nextAllocatedBlock)
    (hend : mgr.blockLimit ≤ mgr.currentCounter) :
    mgr.currentCounter = file.nextAllocatedBlock :=
  hbacked ▸ UInt64.le_antisymm (h.backed mgr rfl hbacked) hend

/-- A call that meets both conditions keeps the mirrored ledger. -/
theorem Mirrors.perform (h : Mirrors w issued l) (c : NonceCall) (fits : w.CallFits c)
    (backed : w.AllocatesBacked (.call c)) :
    ∃ l', Mirrors (w.perform c).1 (issued ++ (w.perform c).2) l' := by
  cases c with
  | new nowSecs createDir persist =>
    rcases NonceManager.new_cases nowSecs createDir persist w.file with
      ⟨e, heq⟩ | ⟨disk, epoch, -, -, -, -, heq⟩
    · refine ⟨l.release (), ?_⟩
      simpa only [NonceWorld.perform, NonceWorld.dead, heq, List.append_nil] using h.dead
    · refine ⟨l.grant () 1000, ?_⟩
      simpa only [NonceWorld.perform, heq, List.append_nil] using h.opened epoch fits
  | allocateMsg persist =>
    obtain ⟨mgr, file⟩ := w
    cases mgr with
    | none => exact ⟨l, by simpa [NonceWorld.perform] using h⟩
    | some mgr =>
      have hbacked : mgr.blockLimit = file.nextAllocatedBlock := backed mgr rfl
      by_cases hlt : mgr.currentCounter < mgr.blockLimit
      · obtain ⟨l', hl'⟩ := h.take hbacked hlt
        refine ⟨l', ?_⟩
        simpa only [NonceWorld.perform, NonceManager.allocateMsg_of_lt hlt,
          NonceManager.takeCounter] using hl'
      · have hend : mgr.blockLimit ≤ mgr.currentCounter := UInt64.not_lt.mp hlt
        have hfits : mgr.blockLimit.toNat + 1000 < 2 ^ 64 := fits mgr rfl hend
        cases persist with
        | failed =>
          refine ⟨l.release (), ?_⟩
          simpa only [NonceWorld.perform, NonceManager.allocateMsg_extend_failed hend,
            List.append_nil] using h.unwritten hbacked hend hfits
        | ok =>
          -- Extending a used-up block is opening the next one and issuing from it.
          have hopened := h.opened mgr.currentEpoch (hbacked ▸ hfits)
          have hcounter := h.counter_eq hbacked hend
          have hroom : file.nextAllocatedBlock < file.nextAllocatedBlock + nonceBlockSize := by
            rw [UInt64.lt_iff_toNat_lt, toNat_add_nonceBlockSize (hbacked ▸ hfits)]
            omega
          obtain ⟨l', hl'⟩ := hopened.take rfl hroom
          refine ⟨l', ?_⟩
          simpa only [NonceWorld.perform, NonceManager.allocateMsg_extend hend, hbacked, hcounter,
            NonceManager.takeCounter] using hl'

/-- A call leaves the next block on disk where it was or moves it by one block. -/
theorem Mirrors.perform_file (h : Mirrors w issued l) (c : NonceCall) (fits : w.CallFits c) :
    (w.perform c).1.file.nextAllocatedBlock.toNat = w.file.nextAllocatedBlock.toNat ∨
      (w.perform c).1.file.nextAllocatedBlock.toNat = w.file.nextAllocatedBlock.toNat + 1000 := by
  cases c with
  | new nowSecs createDir persist =>
    rcases NonceManager.new_cases nowSecs createDir persist w.file with
      ⟨e, heq⟩ | ⟨disk, epoch, -, -, -, -, heq⟩
    · exact Or.inl (by simp only [NonceWorld.perform, heq])
    · right
      simp only [NonceWorld.perform, heq, StateFile.nextAllocatedBlock_saved]
      exact toNat_add_nonceBlockSize fits
  | allocateMsg persist =>
    obtain ⟨mgr, file⟩ := w
    cases mgr with
    | none => exact Or.inl rfl
    | some mgr =>
      by_cases hlt : mgr.currentCounter < mgr.blockLimit
      · exact Or.inl (by simp only [NonceWorld.perform, NonceManager.allocateMsg_of_lt hlt])
      · have hend : mgr.blockLimit ≤ mgr.currentCounter := UInt64.not_lt.mp hlt
        -- An unbacked manager stands below its limit, so only a backed one gets here.
        have hbacked : mgr.blockLimit = file.nextAllocatedBlock := by
          by_contra hne
          exact hlt (h.unbacked mgr rfl hne).2
        cases persist with
        | failed =>
          exact Or.inl (by simp only [NonceWorld.perform,
            NonceManager.allocateMsg_extend_failed hend])
        | ok =>
          right
          simp only [NonceWorld.perform, NonceManager.allocateMsg_extend hend,
            StateFile.nextAllocatedBlock_saved]
          rw [toNat_add_nonceBlockSize (fits mgr rfl hend), hbacked]

/-- **Step lemma.** An event that meets both conditions keeps the mirrored ledger. -/
theorem Mirrors.step (h : Mirrors w issued l) (e : NonceEvent) (fits : w.Fits e)
    (backed : w.AllocatesBacked e) :
    ∃ l', Mirrors (w.step e).1 (issued ++ (w.step e).2) l' := by
  cases e with
  | call c => exact h.perform c fits backed
  | crash => exact ⟨l.release (), by simpa [NonceWorld.step] using h.dead⟩
  | crashDuring c =>
    -- The counter of a call the process dies in is never returned; its write may have landed.
    rcases h.perform_file c fits with hsame | hmoved
    · refine ⟨l.release (), ?_, ?_, ?_, ?_, ?_⟩
      · exact h.watermark.trans hsame.symm
      · simpa [NonceWorld.step, Ledger.release, Ledger.grant] using h.issued
      · simp [Ledger.release, leaseOf, NonceWorld.step, NonceWorld.dead]
      · simp [NonceWorld.step, NonceWorld.dead]
      · simp [NonceWorld.step, NonceWorld.dead]
    · refine ⟨(l.grant () 1000).release (), ?_, ?_, ?_, ?_, ?_⟩
      · simp only [Ledger.release, Ledger.grant, h.watermark]
        exact hmoved.symm
      · simpa [NonceWorld.step, Ledger.release, Ledger.grant] using h.issued
      · simp [Ledger.release, leaseOf, NonceWorld.step, NonceWorld.dead]
      · simp [NonceWorld.step, NonceWorld.dead]
      · simp [NonceWorld.step, NonceWorld.dead]

/-- Before any call, the ledger is opened at the counter on disk. -/
theorem mirrors_initial (file : StateFile) :
    Mirrors ⟨none, file⟩ [] (.opened Unit file.nextAllocatedBlock.toNat) := by
  constructor <;> simp [Ledger.opened, leaseOf]

/-- **Run lemma.** A run all of whose events meet both conditions mirrors a ledger. -/
theorem mirrors_of_guarded {file : StateFile} {events : List NonceEvent}
    (fits : machine.Guarded Fits ⟨none, file⟩ events)
    (backed : machine.Guarded AllocatesBacked ⟨none, file⟩ events) :
    ∃ l, Mirrors (machine.final ⟨none, file⟩ events) (machine.outputs ⟨none, file⟩ events) l := by
  have preserved : ∀ w past e, (∃ l, Mirrors w past l) → w.Fits e ∧ w.AllocatesBacked e →
      ∃ l, Mirrors (machine.next w e) (past ++ machine.emit w e) l := by
    intro w past e hmirrors hok
    obtain ⟨l, hl⟩ := hmirrors
    exact hl.step e hok.1 hok.2
  exact Machine.history_invariant_nil preserved ⟨_, mirrors_initial file⟩
    fun x hx => ⟨fits x hx, backed x hx⟩

theorem Mirrors.durable (h : Mirrors w issued l) : w.Durable issued := by
  intro n hn
  rw [UInt64.lt_iff_toNat_lt, ← h.watermark]
  apply l.issued_below
  rw [h.issued]
  exact List.mem_map_of_mem hn

theorem Mirrors.nodup (h : Mirrors w issued l) : issued.Nodup := by
  have hnodup := l.issued_nodup
  rw [h.issued] at hnodup
  exact hnodup.of_map _

/-- An unbacked manager issues a counter the disk does not cover. -/
theorem Mirrors.not_durable_of_unbacked (h : Mirrors w issued l) {persist : IoOutcome}
    (hunbacked : ¬ w.Backed) :
    ¬ (w.perform (.allocateMsg persist)).1.Durable
      (issued ++ (w.perform (.allocateMsg persist)).2) := by
  obtain ⟨mgr, file⟩ := w
  cases mgr with
  | none => exact absurd (by simp [Backed]) hunbacked
  | some mgr =>
    have hne : mgr.blockLimit ≠ file.nextAllocatedBlock := by
      intro heq
      exact hunbacked fun mgr' hmgr => Option.mem_some_iff.mp hmgr ▸ heq
    obtain ⟨hle, hlt⟩ := h.unbacked mgr rfl hne
    simp only [NonceWorld.perform, NonceManager.allocateMsg_of_lt hlt, NonceManager.takeCounter]
    -- It is inside its own block, so `allocate_msg` issues without touching the file.
    intro hdurable
    have hbelow := hdurable mgr.currentCounter (by simp)
    exact absurd hbelow (UInt64.not_lt.mpr hle)

/-! ### Durability of whole runs -/

/-- Every state a run passes through is durable. -/
def DurableThroughout (file : StateFile) (events : List NonceEvent) : Prop :=
  ∀ before, before <+: events →
    (machine.final ⟨none, file⟩ before).Durable (machine.outputs ⟨none, file⟩ before)

theorem durableThroughout_of_guarded {file : StateFile} {events : List NonceEvent}
    (fits : machine.Guarded Fits ⟨none, file⟩ events)
    (backed : machine.Guarded AllocatesBacked ⟨none, file⟩ events) :
    DurableThroughout file events := by
  intro before hprefix
  -- Both conditions pass to every initial part of the run.
  obtain ⟨after, rfl⟩ := hprefix
  obtain ⟨l, hl⟩ := mirrors_of_guarded ((Machine.guarded_append _ _ _ _).mp fits).1
    ((Machine.guarded_append _ _ _ _).mp backed).1
  exact hl.durable

theorem guarded_of_durableThroughout {file : StateFile} {events : List NonceEvent}
    (fits : machine.Guarded Fits ⟨none, file⟩ events)
    (durable : DurableThroughout file events) :
    machine.Guarded AllocatesBacked ⟨none, file⟩ events := by
  -- By induction on the run's last event: the events before it are guarded, so they
  -- mirror a ledger, and an unguarded last event would issue above the disk.
  induction events using List.reverseRecOn with
  | nil => exact Machine.guarded_nil _ _
  | append_singleton events e ih =>
    have fitsBefore := ((Machine.guarded_append _ _ _ _).mp fits).1
    have backedBefore := ih fitsBefore fun before h => durable before (h.trans (by simp))
    obtain ⟨l, hl⟩ := mirrors_of_guarded fitsBefore backedBefore
    refine (Machine.guarded_append _ _ _ _).mpr ⟨backedBefore, ?_⟩
    rw [Machine.guarded_cons]
    refine ⟨?_, Machine.guarded_nil _ _⟩
    -- Only a returning `allocate_msg` has a condition to meet.
    match e with
    | .call (.new _ _ _) | .crashDuring _ | .crash => trivial
    | .call (.allocateMsg persist) =>
      by_contra hunbacked
      have hlast := durable _ (List.prefix_refl _)
      simp only [Machine.final_append, Machine.outputs_append, Machine.final_cons,
        Machine.final_nil, Machine.outputs_cons, Machine.outputs_nil, List.append_nil] at hlast
      exact hl.not_durable_of_unbacked hunbacked hlast

/-- **Counter durability, exactly.** As long as no reservation runs past `2 ^ 64`,
a run issues no counter twice and keeps every issued counter below the next block
on disk throughout, if and only if `allocate_msg` is only ever called on a manager
whose block limit is the one on disk: never again on a manager after one of its
reservations failed to be written. -/
theorem issued_once_and_durable_iff (file : StateFile) (events : List NonceEvent)
    (fits : machine.Guarded Fits ⟨none, file⟩ events) :
    (DurableThroughout file events ∧ (machine.outputs ⟨none, file⟩ events).Nodup) ↔
      machine.Guarded AllocatesBacked ⟨none, file⟩ events := by
  constructor
  · intro h
    exact guarded_of_durableThroughout fits h.1
  · intro backed
    obtain ⟨l, hl⟩ := mirrors_of_guarded fits backed
    exact ⟨durableThroughout_of_guarded fits backed, hl.nodup⟩

/-- Two restarts with a write that fails before the second one: nothing is issued twice. -/
theorem issued_once_after_failed_open :
    DurableThroughout .missing
        [.call (.new 5 .ok .ok), .call (.allocateMsg .ok), .crash, .call (.new 6 .ok .failed),
          .call (.new 7 .ok .ok), .call (.allocateMsg .failed)] ∧
      (machine.outputs ⟨none, .missing⟩
        [.call (.new 5 .ok .ok), .call (.allocateMsg .ok), .crash, .call (.new 6 .ok .failed),
          .call (.new 7 .ok .ok), .call (.allocateMsg .failed)]).Nodup :=
  (issued_once_and_durable_iff .missing _ (by decide)).mpr (by decide)

/-- Calls inside a block step the counter and touch nothing else. -/
theorem final_replicate_allocateMsg (io : IoOutcome) (file : StateFile) (k : ℕ)
    (mgr : NonceManager) (hroom : mgr.currentCounter.toNat + k ≤ mgr.blockLimit.toNat) :
    machine.final ⟨some mgr, file⟩ (List.replicate k (.call (.allocateMsg io))) =
      ⟨some { mgr with currentCounter := mgr.currentCounter + UInt64.ofNat k }, file⟩ := by
  induction k generalizing mgr with
  | zero => simp
  | succ k ih =>
    have hbound := mgr.blockLimit.toNat_lt
    have hlt : mgr.currentCounter < mgr.blockLimit := by
      rw [UInt64.lt_iff_toNat_lt]
      omega
    have hsucc := toNat_succ_of_lt hlt
    have hnext : machine.next ⟨some mgr, file⟩ (.call (.allocateMsg io)) =
        ⟨some mgr.takeCounter.2, file⟩ := by
      simp only [Machine.next, machine, step, NonceWorld.perform,
        NonceManager.allocateMsg_of_lt hlt]
    rw [List.replicate_succ, Machine.final_cons, hnext, ih mgr.takeCounter.2]
    · simp [NonceManager.takeCounter, UInt64.ofNat_add, UInt64.add_assoc, UInt64.add_comm 1]
    · simp only [NonceManager.takeCounter, hsucc]
      omega

/-- A block is used up, the write of the next one fails, the call after that
issues from it all the same, and a restart issues its first counter again. -/
def failedExtensionRun : List NonceEvent :=
  (.call (.new 5 .ok .ok) :: List.replicate 1000 (.call (.allocateMsg .ok))) ++
    [.call (.allocateMsg .failed), .call (.allocateMsg .ok), .crash, .call (.new 6 .ok .ok),
      .call (.allocateMsg .ok)]

/-- Counter 1000 is issued twice. -/
theorem not_issued_once_failedExtensionRun :
    ¬ (machine.outputs ⟨none, .missing⟩ failedExtensionRun).Nodup := by
  have hopen : machine.next ⟨none, .missing⟩ (.call (.new 5 .ok .ok)) =
      ⟨some ⟨5, 0, 1000⟩, .saved ⟨5, 1000⟩⟩ := by decide
  -- The thousand calls go by the lemma; what follows them is short enough to compute.
  have hused := final_replicate_allocateMsg .ok (.saved ⟨5, 1000⟩) 1000 ⟨5, 0, 1000⟩ (by decide)
  have htail : machine.outputs ⟨some ⟨5, 1000, 1000⟩, .saved ⟨5, 1000⟩⟩
      [.call (.allocateMsg .failed), .call (.allocateMsg .ok), .crash, .call (.new 6 .ok .ok),
        .call (.allocateMsg .ok)] = [1000, 1000] := by decide
  have hcounter : (0 : UInt64) + UInt64.ofNat 1000 = 1000 := by decide
  rw [failedExtensionRun, Machine.outputs_append, Machine.final_cons, hopen, hused, hcounter, htail]
  intro hnodup
  have hpair := (List.nodup_append.mp hnodup).2.1
  exact absurd hpair (by decide)

end NonceWorld

end Gibberish.Daemon
