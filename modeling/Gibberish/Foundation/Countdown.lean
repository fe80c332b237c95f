/-
# Counters that run down

An event sets a counter, and every entry of a log without one takes one off it. Such a
counter tells whether there was an event lately.
-/

import Mathlib.Data.List.DropRight

set_option autoImplicit false

namespace Gibberish.Foundation

variable {Event : Type*} (kind : Event → Bool)

/-- One of the last so many entries of a log is of some kind. -/
def lately (k : ℕ) (log : List Event) : Bool := (log.rtake k).any kind

/-- The counter that every event of some kind sets. -/
def countdown (k : ℕ) (log : List Event) : ℕ :=
  log.foldl (fun count ev => if kind ev then k else count - 1) 0

@[simp] theorem lately_zero (log : List Event) : lately kind 0 log = false := by
  rw [lately, List.rtake_zero]
  rfl

@[simp] theorem lately_nil (k : ℕ) : lately kind k [] = false := by
  rw [lately, List.rtake_nil]
  rfl

theorem lately_succ_concat (k : ℕ) (log : List Event) (ev : Event) :
    lately kind (k + 1) (log ++ [ev]) = (kind ev || lately kind k log) := by
  rw [lately, List.rtake_concat_succ, List.any_append, Bool.or_comm, ← lately]
  simp

theorem countdown_concat (k : ℕ) (log : List Event) (ev : Event) :
    countdown kind k (log ++ [ev]) = if kind ev then k else countdown kind k log - 1 := by
  rw [countdown, List.foldl_append, ← countdown]
  rfl

/-- What is left of the counter: it stands so high as an event is recent. -/
theorem lt_countdown_iff (k j : ℕ) (log : List Event) :
    j < countdown kind k log ↔ lately kind (k - j) log = true := by
  induction log using List.reverseRecOn generalizing j with
  | nil => simp [countdown]
  | append_singleton log ev ih =>
    rw [countdown_concat]
    rcases Nat.lt_or_ge j k with hj | hj
    · have hsub : k - j = k - (j + 1) + 1 := by omega
      rw [hsub, lately_succ_concat, Bool.or_eq_true, ← ih]
      by_cases hev : kind ev
      · simp [hev, hj]
      · simp only [hev]
        have hpred : j < countdown kind k log - 1 ↔ j + 1 < countdown kind k log := by omega
        simpa using hpred
    · -- Nothing is left so long after any event.
      have hnone := ih (j + 1)
      rw [Nat.sub_eq_zero_of_le (by omega), lately_zero] at hnone
      rw [Nat.sub_eq_zero_of_le hj, lately_zero]
      have hle : countdown kind k log ≤ j + 1 := by simpa using hnone
      split
      · simp [hj]
      · simp only [Bool.false_eq_true, iff_false]
        omega

theorem countdown_pos_iff (k : ℕ) (log : List Event) :
    0 < countdown kind k log ↔ lately kind k log = true :=
  lt_countdown_iff kind k 0 log

end Gibberish.Foundation
