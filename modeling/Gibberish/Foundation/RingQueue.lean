/-
# Queues in ring buffers

A queue occupies some consecutive slots of a vector, counted from its first slot and
wrapping around at the end of the vector. Writing the slot behind the last one
appends, moving the first slot on removes the head, and writing a slot inside
replaces one element.
-/

import Mathlib.Data.Fin.Basic
import Mathlib.Data.List.Basic
import Mathlib.Data.Nat.ModEq

set_option autoImplicit false

namespace Gibberish.Foundation

namespace Ring

variable {α : Type*} {n : ℕ}

/-- The slot some places behind the first one. -/
def slot (start : Fin n) (i : ℕ) : Fin n := ⟨(start.val + i) % n, Nat.mod_lt _ start.pos⟩

/-- The elements of the slots from `start` on. -/
def window (buf : Vector α n) (start : Fin n) (count : ℕ) : List α :=
  (List.range count).map fun i => buf[slot start i]

@[simp] theorem slot_zero (start : Fin n) : slot start 0 = start :=
  Fin.ext (Nat.mod_eq_of_lt start.isLt)

/-- Counting from the next slot is counting one further. -/
theorem slot_add_one [NeZero n] (start : Fin n) (i : ℕ) :
    slot (start + 1) i = slot start (i + 1) := by
  apply Fin.ext
  show ((start + 1).val + i) % n = (start.val + (i + 1)) % n
  rw [Fin.val_add, Fin.val_one', Nat.add_mod_mod, Nat.mod_add_mod, Nat.add_assoc, Nat.add_comm 1 i]

/-- The slot behind a slot. -/
theorem slot_succ [NeZero n] (start : Fin n) (i : ℕ) : slot start i + 1 = slot start (i + 1) := by
  apply Fin.ext
  show (slot start i + 1).val = (start.val + (i + 1)) % n
  rw [Fin.val_add, Fin.val_one', Nat.add_mod_mod, slot, Nat.mod_add_mod, Nat.add_assoc]

/-- Within one turn, different places are different slots. -/
theorem slot_inj {start : Fin n} {i j : ℕ} (hi : i < n) (hj : j < n) :
    slot start i = slot start j ↔ i = j := by
  constructor
  · intro h
    have hmod : start.val + i ≡ start.val + j [MOD n] := congrArg Fin.val h
    exact (Nat.ModEq.add_left_cancel' _ hmod).eq_of_lt_of_lt hi hj
  · rintro rfl
    rfl

@[simp] theorem length_window (buf : Vector α n) (start : Fin n) (count : ℕ) :
    (window buf start count).length = count := by
  simp [window]

@[simp] theorem window_zero (buf : Vector α n) (start : Fin n) : window buf start 0 = [] := rfl

@[simp] theorem getElem_window (buf : Vector α n) (start : Fin n) {count i : ℕ}
    (h : i < (window buf start count).length) : (window buf start count)[i] = buf[slot start i] := by
  simp [window]

/-- The head of the queue, and the queue behind it. -/
theorem window_succ [NeZero n] (buf : Vector α n) (start : Fin n) (count : ℕ) :
    window buf start (count + 1) = buf.get start :: window buf (start + 1) count := by
  simp only [window, List.range_succ_eq_map, List.map_cons, List.map_map, slot_zero, slot_add_one]
  rfl

/-- Writing a slot replaces one element. -/
theorem window_set (buf : Vector α n) (start : Fin n) {count i : ℕ} (x : α) (hcount : count ≤ n)
    (hi : i < n) :
    window (buf.set (slot start i) x) start count = (window buf start count).set i x := by
  apply List.ext_getElem
  · simp
  · intro j hj _
    rw [length_window] at hj
    rw [List.getElem_set, getElem_window, getElem_window]
    show (buf.set (slot start i).val x)[(slot start j).val] = _
    rw [Vector.getElem_set]
    by_cases hij : i = j
    · subst hij
      rw [if_pos rfl, if_pos rfl]
    · have hslot : (slot start i).val ≠ (slot start j).val := fun h =>
        hij ((slot_inj hi (hj.trans_le hcount)).mp (Fin.ext h))
      rw [if_neg hslot, if_neg hij]
      rfl

/-- Writing the slot behind the last one appends. -/
theorem window_push (buf : Vector α n) {start last : Fin n} {count : ℕ} (x : α)
    (last_eq : last = slot start count) (h : count < n) :
    window (buf.set last x) start (count + 1) = window buf start count ++ [x] := by
  subst last_eq
  have hlast : window buf start (count + 1) = window buf start count ++ [buf[slot start count]] := by
    simp [window, List.range_succ]
  rw [window_set buf start x h h, hlast]
  simp

/-- Taking the head empties its slot and moves the first slot on. -/
theorem window_pop [NeZero n] (buf : Vector α n) (start : Fin n) {count : ℕ} (x : α)
    (h : count < n) :
    window (buf.set start x) (start + 1) count = (window buf start (count + 1)).tail := by
  have hset : window (buf.set start x) start (count + 1) =
      (window buf start (count + 1)).set 0 x := by
    have h0 := window_set buf start x (Nat.succ_le_of_lt h) (Nat.zero_lt_of_lt h)
    simpa only [slot_zero] using h0
  rw [window_succ, window_succ buf, List.set_cons_zero, List.cons.injEq] at hset
  rw [hset.2, window_succ, List.tail_cons]

/-! ### Full rings -/

/-- Every slot lies within one turn from any slot. -/
theorem exists_slot_eq (start i : Fin n) : ∃ j < n, slot start j = i := by
  refine ⟨(i.val + (n - start.val)) % n, Nat.mod_lt _ start.pos, ?_⟩
  apply Fin.ext
  show (start.val + (i.val + (n - start.val)) % n) % n = i.val
  have hsum : start.val + (i.val + (n - start.val)) = i.val + n := by omega
  rw [Nat.add_mod_mod, hsum, Nat.add_mod_right, Nat.mod_eq_of_lt i.isLt]

/-- A full turn shows every element of the vector. -/
theorem mem_window_full (buf : Vector α n) (start : Fin n) (x : α) :
    x ∈ window buf start n ↔ x ∈ buf := by
  rw [Vector.mem_iff_getElem]
  constructor
  · intro h
    obtain ⟨j, _, rfl⟩ := List.mem_map.mp h
    exact ⟨(slot start j).val, (slot start j).isLt, rfl⟩
  · rintro ⟨i, hi, rfl⟩
    obtain ⟨j, hj, hslot⟩ := exists_slot_eq start ⟨i, hi⟩
    exact List.mem_map.mpr ⟨j, List.mem_range.mpr hj, congrArg buf.get hslot⟩

/-- Overwriting the first slot of a full ring drops the oldest element and appends. -/
theorem window_overwrite (buf : Vector α (n + 1)) (start : Fin (n + 1)) (x : α) :
    window (buf.set start x) (start + 1) (n + 1) = (window buf start (n + 1)).tail ++ [x] := by
  have hlast : start = slot (start + 1) n := by
    rw [slot_add_one]
    exact Fin.ext (by simp [slot, Nat.mod_eq_of_lt start.isLt])
  rw [window_push buf x hlast (Nat.lt_succ_self n), window_succ buf start, List.tail_cons]

end Ring

end Gibberish.Foundation
