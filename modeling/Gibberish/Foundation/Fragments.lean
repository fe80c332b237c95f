/-
# Fragments of a byte string

A byte string is cut into pieces of one size, the last of which is padded with
zeros. Joining the first pieces gives back a leading part of the string with zeros
behind it, and stripping trailing zeros forgets the padding.

A slot table collects pieces as they arrive. Which slots are filled depends only
on the set of indices received, so the order of arrival and repeated arrivals do
not matter.
-/

import Mathlib.Data.Finset.Insert
import Mathlib.Data.Finset.Range
import Mathlib.Data.List.DropRight
import Mathlib.Data.List.ReduceOption
import Mathlib.Algebra.Order.Group.Nat

set_option autoImplicit false

namespace Gibberish.Foundation

variable {α : Type*}

/-! ### Cutting and joining -/

/-- How many pieces of the given size cover a length. -/
def pieceCount (size len : ℕ) : ℕ := (len + size - 1) / size

/-- The piece at an index, shorter than the rest at the end of the list. -/
def piece (l : List α) (size i : ℕ) : List α := (l.drop (i * size)).take size

/-- A list filled up to a size with a padding value. -/
def padTo (size : ℕ) (z : α) (l : List α) : List α := l ++ List.replicate (size - l.length) z

theorem length_piece_le (l : List α) (size i : ℕ) : (piece l size i).length ≤ size := by
  simp [piece]

theorem le_pieceCount_mul {size : ℕ} (hsize : 0 < size) (len : ℕ) :
    len ≤ pieceCount size len * size := by
  have hdiv := Nat.div_add_mod (len + size - 1) size
  have hmod := Nat.mod_lt (len + size - 1) hsize
  rw [Nat.mul_comm] at hdiv
  simp only [pieceCount]
  omega

theorem pieceCount_pos {size len : ℕ} (hsize : 0 < size) (hlen : 0 < len) :
    0 < pieceCount size len :=
  Nat.div_pos (by omega) hsize

/-- Joining the first padded pieces gives the leading part, filled up. -/
theorem flatMap_padTo_piece (l : List α) (size : ℕ) (z : α) (n : ℕ) :
    ((List.range n).flatMap fun i => padTo size z (piece l size i)) =
      padTo (n * size) z (l.take (n * size)) := by
  induction n with
  | zero => simp [padTo]
  | succ n ih =>
    -- Before the end of the list both sides have no padding yet; behind it both are padding.
    have htake : l.take ((n + 1) * size) = l.take (n * size) ++ piece l size n := by
      rw [Nat.succ_mul, List.take_add]
      rfl
    rw [List.range_succ, List.flatMap_append, ih, htake]
    simp only [List.flatMap_cons, List.flatMap_nil, List.append_nil, padTo, List.length_append,
      List.length_take, Nat.succ_mul]
    rcases Nat.lt_or_ge l.length (n * size) with hlt | hge
    · have hnil : piece l size n = [] := by
        simp only [piece]
        rw [List.drop_of_length_le hlt.le, List.take_nil]
      rw [hnil]
      simp only [List.nil_append, List.length_nil, Nat.sub_zero, Nat.add_zero, List.append_nil,
        List.append_assoc, List.replicate_append_replicate]
      congr 2
      omega
    · have hfull : n * size - min (n * size) l.length = 0 := by omega
      rw [hfull, List.replicate_zero, List.append_nil, List.append_assoc]
      congr 3
      omega

/-! ### Stripping the padding -/

/-- Drop the trailing occurrences of a value. -/
def stripEnd [BEq α] (z : α) (l : List α) : List α := l.rdropWhile (· == z)

section Strip

variable [BEq α] [LawfulBEq α] {z : α}

theorem stripEnd_append_replicate (l : List α) (k : ℕ) :
    stripEnd z (l ++ List.replicate k z) = stripEnd z l := by
  induction k with
  | zero => simp
  | succ k ih =>
    have hlast : List.replicate (k + 1) z = List.replicate k z ++ [z] := List.replicate_succ'
    rw [hlast, ← List.append_assoc, stripEnd, List.rdropWhile_concat_pos _ _ _ (by simp)]
    exact ih

theorem stripEnd_padTo (size : ℕ) (l : List α) : stripEnd z (padTo size z l) = stripEnd z l :=
  stripEnd_append_replicate l _

/-- What is stripped is a run of the value. -/
theorem stripEnd_append_eq (l : List α) :
    stripEnd z l ++ List.replicate (l.length - (stripEnd z l).length) z = l := by
  have hsplit : stripEnd z l ++ l.rtakeWhile (· == z) = l :=
    List.rdropWhile_append_rtakeWhile
  -- What is dropped is the longest run of the value at the end.
  have hrun : ∀ x ∈ l.rtakeWhile (· == z), x = z := by
    intro x hx
    have hbeq : (x == z) = true := List.mem_rtakeWhile_imp (p := (· == z)) hx
    exact eq_of_beq hbeq
  have hlen : (l.rtakeWhile (· == z)).length = l.length - (stripEnd z l).length := by
    have := congrArg List.length hsplit
    rw [List.length_append] at this
    omega
  rw [← hlen, ← List.eq_replicate_iff.mpr ⟨rfl, hrun⟩, hsplit]

/-- Any leading part that keeps the stripped list strips to it. -/
theorem stripEnd_take {l : List α} {n : ℕ} (h : (stripEnd z l).length ≤ n) :
    stripEnd z (l.take n) = stripEnd z l := by
  have hidem : stripEnd z (stripEnd z l) = stripEnd z l := List.rdropWhile_idempotent ..
  have htake : l.take n = stripEnd z l ++
      (List.replicate (l.length - (stripEnd z l).length) z).take (n - (stripEnd z l).length) := by
    conv_lhs => rw [← stripEnd_append_eq (z := z) l]
    rw [List.take_append, List.take_of_length_le h]
  rw [htake, List.take_replicate, stripEnd_append_replicate, hidem]

/-- Nothing is stripped exactly when the list does not end in the value. -/
theorem stripEnd_eq_self_iff (l : List α) : stripEnd z l = l ↔ l.getLast? ≠ some z := by
  rw [stripEnd, List.rdropWhile_eq_self_iff]
  constructor
  · intro h hlast
    have hne : l ≠ [] := by
      intro hnil
      simp [hnil] at hlast
    rw [List.getLast?_eq_some_getLast hne, Option.some.injEq] at hlast
    exact h hne (by simp [hlast])
  · intro h hne heq
    exact h (by rw [List.getLast?_eq_some_getLast hne, eq_of_beq heq])

end Strip

/-! ### Collecting pieces in any order -/

/-- The slots of `n` pieces of which those at the given indices have arrived. -/
def slotTable (n : ℕ) (content : ℕ → α) (received : Finset ℕ) : List (Option α) :=
  (List.range n).map fun i => if i ∈ received then some (content i) else none

variable {n i : ℕ} {content : ℕ → α} {received : Finset ℕ}

@[simp] theorem length_slotTable : (slotTable n content received).length = n := by
  simp [slotTable]

theorem slotTable_empty (n : ℕ) (content : ℕ → α) :
    slotTable n content ∅ = List.replicate n none := by
  apply List.ext_getElem <;> simp [slotTable]

theorem getElem?_slotTable (hi : i < n) :
    (slotTable n content received)[i]? =
      some (if i ∈ received then some (content i) else none) := by
  simp [slotTable, hi]

/-- Filling a slot is receiving its index. -/
theorem slotTable_set :
    (slotTable n content received).set i (some (content i)) =
      slotTable n content (insert i received) := by
  apply List.ext_getElem
  · simp
  · intro j hj _
    rw [List.getElem_set]
    by_cases h : i = j
    · simp [slotTable, h]
    · simp [slotTable, h, Ne.symm h]

/-- All slots are filled exactly when every index has arrived. -/
theorem all_isSome_slotTable :
    (slotTable n content received).all Option.isSome = true ↔ Finset.range n ⊆ received := by
  simp only [slotTable, List.all_map, List.all_eq_true, List.mem_range, Function.comp_apply]
  constructor
  -- An index that is missing leaves an empty slot.
  · intro h i hi
    by_contra hmissing
    have := h i (Finset.mem_range.mp hi)
    simp [hmissing] at this
  · intro h i hi
    simp [h (Finset.mem_range.mpr hi)]

/-- The pieces of a full table, in order. -/
theorem reduceOption_slotTable (h : Finset.range n ⊆ received) :
    (slotTable n content received).reduceOption = (List.range n).map content := by
  have hall : slotTable n content received = ((List.range n).map content).map some := by
    rw [List.map_map]
    apply List.map_congr_left
    intro i hi
    simp [h (Finset.mem_range.mpr (List.mem_range.mp hi))]
  rw [hall, List.reduceOption, List.filterMap_map]
  simp

end Gibberish.Foundation
