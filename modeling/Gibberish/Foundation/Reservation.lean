/-
# Write-ahead reservation of numbers

Several holders share one watermark. A holder reserves the next block of numbers
by raising the watermark past it, and then issues the numbers of its block one by
one. What a holder still has to issue is its lease. A holder may also lose its
lease, and with it the numbers it never issued.

The ledger carries its safety as fields: leases lie below the watermark and do
not overlap, and every issued number lies below the watermark, in no lease, and
was issued once. Granting, releasing and issuing build ledgers again, so any
system that simulates these three operations never issues a number twice.
-/

import Mathlib.Data.List.Basic
import Mathlib.Logic.Function.Basic

set_option autoImplicit false

namespace Gibberish.Foundation

/-- The numbers `[next, limit)` a holder has reserved and not yet issued. -/
@[ext] structure Lease where
  next : ℕ
  limit : ℕ
  deriving DecidableEq

namespace Lease

/-- The lease still contains the number. -/
def Holds (lease : Lease) (n : ℕ) : Prop := lease.next ≤ n ∧ n < lease.limit

/-- The lease of a holder that has reserved nothing. -/
def empty : Lease := ⟨0, 0⟩

@[simp] theorem not_holds_empty (n : ℕ) : ¬ empty.Holds n := by
  simp [Holds, empty]

theorem not_holds_of_limit_le {lease : Lease} (h : lease.limit ≤ lease.next) (n : ℕ) :
    ¬ lease.Holds n := by
  rintro ⟨hle, hlt⟩
  omega

end Lease

/-- A watermark with the outstanding leases below it and the numbers issued so far. -/
structure Ledger (Holder : Type*) where
  watermark : ℕ
  lease : Holder → Lease
  issued : List ℕ
  held_below : ∀ h n, (lease h).Holds n → n < watermark
  exclusive : ∀ h k n, (lease h).Holds n → (lease k).Holds n → h = k
  issued_below : ∀ n ∈ issued, n < watermark
  issued_spent : ∀ n ∈ issued, ∀ h, ¬ (lease h).Holds n
  issued_nodup : issued.Nodup

namespace Ledger

variable {Holder : Type*} [DecidableEq Holder]

/-- The ledger before anything is reserved, with numbers below the watermark retired. -/
def opened (Holder : Type*) (watermark : ℕ) : Ledger Holder where
  watermark := watermark
  lease _ := .empty
  issued := []
  held_below := by simp
  exclusive := by simp
  issued_below := by simp
  issued_spent := by simp
  issued_nodup := List.nodup_nil

/-- Changing one holder's lease to one that holds nothing the others hold and
nothing already issued. -/
private theorem exclusive_update {lease : Holder → Lease} {h : Holder} {new : Lease}
    (exclusive : ∀ h k n, (lease h).Holds n → (lease k).Holds n → h = k)
    (fresh : ∀ k n, new.Holds n → (lease k).Holds n → k = h) :
    ∀ i k n, (Function.update lease h new i).Holds n →
      (Function.update lease h new k).Holds n → i = k := by
  intro i k n hi hk
  by_cases ei : i = h <;> by_cases ek : k = h
  · rw [ei, ek]
  · subst ei
    rw [Function.update_self] at hi
    rw [Function.update_of_ne ek] at hk
    exact absurd (fresh k n hi hk) ek
  · subst ek
    rw [Function.update_self] at hk
    rw [Function.update_of_ne ei] at hi
    exact absurd (fresh i n hk hi) ei
  · rw [Function.update_of_ne ei] at hi
    rw [Function.update_of_ne ek] at hk
    exact exclusive i k n hi hk

/-- A property of all leases survives an update by a lease that has it. -/
private theorem forall_update {lease : Holder → Lease} {P : Lease → Prop} (h : Holder)
    {new : Lease} (old : ∀ k, P (lease k)) (hnew : P new) (k : Holder) :
    P (Function.update lease h new k) := by
  by_cases e : k = h
  · subst e
    rwa [Function.update_self]
  · rw [Function.update_of_ne e]
    exact old k

/-- Reserve the next `size` numbers for one holder, whose old lease is given up. -/
def grant (l : Ledger Holder) (h : Holder) (size : ℕ) : Ledger Holder where
  watermark := l.watermark + size
  lease := Function.update l.lease h ⟨l.watermark, l.watermark + size⟩
  issued := l.issued
  held_below := forall_update h (P := fun lease => ∀ n, lease.Holds n → n < l.watermark + size)
    (fun k n hn => Nat.lt_add_right size (l.held_below k n hn)) fun _ hn => hn.2
  exclusive := exclusive_update l.exclusive fun k n hnew hold =>
    absurd (l.held_below k n hold) (Nat.not_lt.mpr hnew.1)
  issued_below n hn := Nat.lt_add_right size (l.issued_below n hn)
  issued_spent n hn := forall_update h (P := fun lease => ¬ lease.Holds n)
    (l.issued_spent n hn) fun hnew => absurd (l.issued_below n hn) (Nat.not_lt.mpr hnew.1)
  issued_nodup := l.issued_nodup

/-- A holder gives up what is left of its lease. -/
def release (l : Ledger Holder) (h : Holder) : Ledger Holder where
  watermark := l.watermark
  lease := Function.update l.lease h .empty
  issued := l.issued
  held_below := forall_update h (P := fun lease => ∀ n, lease.Holds n → n < l.watermark)
    l.held_below (by simp)
  exclusive := exclusive_update l.exclusive (by simp)
  issued_below := l.issued_below
  issued_spent n hn := forall_update h (P := fun lease => ¬ lease.Holds n)
    (l.issued_spent n hn) (Lease.not_holds_empty n)
  issued_nodup := l.issued_nodup

/-- A holder with a nonempty lease issues its next number. -/
def issue (l : Ledger Holder) (h : Holder) (nonempty : (l.lease h).next < (l.lease h).limit) :
    Ledger Holder where
  watermark := l.watermark
  lease := Function.update l.lease h ⟨(l.lease h).next + 1, (l.lease h).limit⟩
  issued := l.issued ++ [(l.lease h).next]
  held_below := forall_update h (P := fun lease => ∀ n, lease.Holds n → n < l.watermark)
    l.held_below fun n hn => l.held_below h n ⟨Nat.le_of_succ_le hn.1, hn.2⟩
  exclusive := exclusive_update l.exclusive fun k n hnew hold =>
    l.exclusive k h n hold ⟨Nat.le_of_succ_le hnew.1, hnew.2⟩
  issued_below n hn := by
    rcases List.mem_append.mp hn with hn | hn
    · exact l.issued_below n hn
    · obtain rfl := List.mem_singleton.mp hn
      exact l.held_below h _ ⟨Nat.le_refl _, nonempty⟩
  issued_spent n hn k hk := by
    -- The number leaves its holder's lease, and no other lease contained it.
    have next_held : (l.lease h).Holds (l.lease h).next := ⟨Nat.le_refl _, nonempty⟩
    by_cases e : k = h
    · subst e
      rw [Function.update_self] at hk
      rcases List.mem_append.mp hn with hn | hn
      · exact l.issued_spent n hn k ⟨Nat.le_of_succ_le hk.1, hk.2⟩
      · obtain rfl := List.mem_singleton.mp hn
        exact Nat.not_succ_le_self _ hk.1
    · rw [Function.update_of_ne e] at hk
      rcases List.mem_append.mp hn with hn | hn
      · exact l.issued_spent n hn k hk
      · obtain rfl := List.mem_singleton.mp hn
        exact e (l.exclusive k h _ hk next_held)
  issued_nodup := by
    rw [List.nodup_append]
    refine ⟨l.issued_nodup, List.pairwise_singleton _ _, fun a ha b hb => ?_⟩
    obtain rfl := List.mem_singleton.mp hb
    rintro rfl
    exact l.issued_spent _ ha h ⟨Nat.le_refl _, nonempty⟩

/-! ### Nothing is wasted

From a given number on, everything below the watermark has been issued or is
still held. Granting to a holder with an empty lease and issuing keep this. -/

/-- Every number between `start` and the watermark was issued or is held. -/
def Covered (l : Ledger Holder) (start : ℕ) : Prop :=
  ∀ n, start ≤ n → n < l.watermark → n ∈ l.issued ∨ ∃ h, (l.lease h).Holds n

omit [DecidableEq Holder] in
theorem covered_opened (start : ℕ) : (opened Holder start).Covered start :=
  fun _ hle hlt => absurd hlt (Nat.not_lt.mpr hle)

theorem Covered.grant {l : Ledger Holder} {start : ℕ} (covered : l.Covered start) {h : Holder}
    (spent : (l.lease h).limit ≤ (l.lease h).next) (size : ℕ) :
    (l.grant h size).Covered start := by
  intro n hstart hn
  by_cases hold : n < l.watermark
  · rcases covered n hstart hold with hissued | ⟨k, hk⟩
    · exact Or.inl hissued
    -- A holder whose lease is used up gives up nothing.
    · have e : k ≠ h := by
        rintro rfl
        exact Lease.not_holds_of_limit_le spent n hk
      refine Or.inr ⟨k, ?_⟩
      simpa only [Ledger.grant, Function.update_of_ne e] using hk
  · refine Or.inr ⟨h, ?_⟩
    simp only [Ledger.grant, Function.update_self]
    exact ⟨Nat.not_lt.mp hold, hn⟩

theorem Covered.issue {l : Ledger Holder} {start : ℕ} (covered : l.Covered start) {h : Holder}
    (nonempty : (l.lease h).next < (l.lease h).limit) : (l.issue h nonempty).Covered start := by
  intro n hstart hn
  rcases covered n hstart hn with hissued | ⟨k, hk⟩
  · exact Or.inl (List.mem_append_left _ hissued)
  · by_cases e : k = h
    · subst e
      -- The holder's next number is issued now, its others stay in the lease.
      rcases Nat.eq_or_lt_of_le hk.1 with heq | hlt
      · exact Or.inl (List.mem_append_right _ (List.mem_singleton.mpr heq.symm))
      · refine Or.inr ⟨k, ?_⟩
        simp only [Ledger.issue, Function.update_self]
        exact ⟨hlt, hk.2⟩
    · refine Or.inr ⟨k, ?_⟩
      simpa only [Ledger.issue, Function.update_of_ne e] using hk

end Ledger

end Gibberish.Foundation
