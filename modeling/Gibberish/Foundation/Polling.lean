/-
# Polling

A master waits for a device by reading it again and again, until a value comes that ends
the wait or it has read so often. What a device yields over some reads decides how the
wait ends and where it leaves the device.
-/

import Mathlib.Data.List.Basic

set_option autoImplicit false

namespace Gibberish.Foundation

variable {S α : Type*} (poll : S → α × S) (stop : α → Bool)

/-- Read until a value ends the wait, at most so often. -/
def pollUntil : ℕ → S → Option α × S
  | 0, s => (none, s)
  | n + 1, s =>
    let (x, s) := poll s
    if stop x then (some x, s) else pollUntil n s

/-- The device yields these values, one for each read, and is left in this state. -/
def Yields : S → List α → S → Prop
  | s, [], s' => s' = s
  | s, x :: xs, s' => (poll s).1 = x ∧ Yields (poll s).2 xs s'

variable {poll stop}

theorem pollUntil_succ (n : ℕ) (s : S) :
    pollUntil poll stop (n + 1) s =
      if stop (poll s).1 then (some (poll s).1, (poll s).2)
      else pollUntil poll stop n (poll s).2 := rfl

@[simp] theorem yields_nil {s s' : S} : Yields poll s [] s' ↔ s' = s := Iff.rfl

@[simp] theorem yields_cons {s s' : S} {x : α} {xs : List α} :
    Yields poll s (x :: xs) s' ↔ (poll s).1 = x ∧ Yields poll (poll s).2 xs s' := Iff.rfl

theorem Yields.append {s s₁ s₂ : S} {xs ys : List α} (h : Yields poll s xs s₁)
    (h' : Yields poll s₁ ys s₂) : Yields poll s (xs ++ ys) s₂ := by
  induction xs generalizing s with
  | nil => rwa [← yields_nil.mp h]
  | cons x xs ih => exact ⟨h.1, ih h.2⟩

/-- What the first reads yield, and what the others do. -/
theorem Yields.of_append {s s₂ : S} {xs ys : List α} (h : Yields poll s (xs ++ ys) s₂) :
    ∃ s₁, Yields poll s xs s₁ ∧ Yields poll s₁ ys s₂ := by
  induction xs generalizing s with
  | nil => exact ⟨s, rfl, h⟩
  | cons x xs ih =>
    obtain ⟨s₁, hxs, hys⟩ := ih h.2
    exact ⟨s₁, ⟨h.1, hxs⟩, hys⟩

/-- **The wait ends.** Some values miss, fewer than there are reads, and the next one
ends the wait. -/
theorem pollUntil_hit {n : ℕ} {s s' : S} {misses : List α} {x : α}
    (yields : Yields poll s (misses ++ [x]) s') (miss : ∀ y ∈ misses, stop y = false)
    (hit : stop x = true) (enough : misses.length < n) :
    pollUntil poll stop n s = (some x, s') := by
  induction misses generalizing n s with
  | nil =>
    obtain ⟨n, rfl⟩ := Nat.exists_eq_add_one_of_ne_zero (Nat.ne_zero_of_lt enough)
    obtain ⟨hx, rfl⟩ := yields
    rw [pollUntil_succ, hx, if_pos hit]
  | cons y misses ih =>
    obtain ⟨n, rfl⟩ := Nat.exists_eq_add_one_of_ne_zero (Nat.ne_zero_of_lt enough)
    obtain ⟨hy, hrest⟩ := yields
    have hmiss := List.forall_mem_cons.mp miss
    rw [pollUntil_succ, hy, hmiss.1, if_neg Bool.false_ne_true]
    exact ih hrest hmiss.2 (Nat.lt_of_succ_lt_succ enough)

/-- **The wait is given up.** All values miss. -/
theorem pollUntil_miss {s s' : S} {misses : List α} (yields : Yields poll s misses s')
    (miss : ∀ y ∈ misses, stop y = false) :
    pollUntil poll stop misses.length s = (none, s') := by
  induction misses generalizing s with
  | nil => rw [yields_nil.mp yields, List.length_nil, pollUntil]
  | cons y misses ih =>
    obtain ⟨hy, hrest⟩ := yields
    have hmiss := List.forall_mem_cons.mp miss
    rw [List.length_cons, pollUntil_succ, hy, hmiss.1, if_neg Bool.false_ne_true]
    exact ih hrest hmiss.2

/-- A device inside another one is polled through it. -/
theorem pollUntil_map {T : Type*} {poll' : T → α × T} {f : S → T}
    (inside : ∀ s, poll' (f s) = ((poll s).1, f (poll s).2)) (n : ℕ) (s : S) :
    pollUntil poll' stop n (f s) =
      ((pollUntil poll stop n s).1, f (pollUntil poll stop n s).2) := by
  induction n generalizing s with
  | zero => rfl
  | succ n ih =>
    rw [pollUntil_succ, pollUntil_succ, inside]
    split
    · rfl
    · exact ih (poll s).2

end Gibberish.Foundation
