/-
# Filling a window of a plane

A device takes a window of a plane and then value after value: along the first row, along
the next one, and from the end back to the start. What the plane holds behind so many
values depends on the place of each point in this order only.
-/

import Mathlib.Logic.Function.Basic
import Mathlib.Tactic.Ring

set_option autoImplicit false

namespace Gibberish.Foundation

/-- A window, by its first and last column and its first and last row. -/
structure Window where
  left : ℕ
  right : ℕ
  top : ℕ
  bottom : ℕ

namespace Window

variable {α : Type*} (w : Window)

/-- The point behind a point. -/
def next (p : ℕ × ℕ) : ℕ × ℕ :=
  if p.1 = w.right then (w.left, if p.2 = w.bottom then w.top else p.2 + 1) else (p.1 + 1, p.2)

def start : ℕ × ℕ := (w.left, w.top)

/-- Write values from a point on: where the next one goes, and the plane. -/
def fill : List α → ℕ × ℕ → (ℕ × ℕ → α) → (ℕ × ℕ) × (ℕ × ℕ → α)
  | [], p, plane => (p, plane)
  | v :: vs, p, plane => fill vs (w.next p) (Function.update plane p v)

/-- The window has a column and a row. -/
structure Proper (w : Window) : Prop where
  columns : w.left ≤ w.right
  rows : w.top ≤ w.bottom

def width : ℕ := w.right + 1 - w.left

def height : ℕ := w.bottom + 1 - w.top

/-- The points of the window. -/
def Has (p : ℕ × ℕ) : Prop :=
  w.left ≤ p.1 ∧ p.1 ≤ w.right ∧ w.top ≤ p.2 ∧ p.2 ≤ w.bottom

instance (p : ℕ × ℕ) : Decidable (w.Has p) := by
  unfold Has
  infer_instance

/-- The place of a point in the order of writing. -/
def index (p : ℕ × ℕ) : ℕ := (p.2 - w.top) * w.width + (p.1 - w.left)

/-- The point at a place. -/
def point (k : ℕ) : ℕ × ℕ := (w.left + k % w.width, w.top + k / w.width)

variable {w}

theorem Proper.width_pos (proper : w.Proper) : 0 < w.width := by
  have := proper.columns
  rw [width]
  omega

@[simp] theorem point_zero : w.point 0 = w.start := by
  simp [point, start]

/-- The point at the place of a point. -/
theorem point_index {p : ℕ × ℕ} (has : w.Has p) : w.point (w.index p) = p := by
  obtain ⟨hleft, hright, htop, hbottom⟩ := has
  have hlt : p.1 - w.left < w.width := by
    rw [width]
    omega
  have hmod : w.index p % w.width = p.1 - w.left := by
    rw [index, Nat.add_comm, Nat.add_mul_mod_self_right, Nat.mod_eq_of_lt hlt]
  have hdiv : w.index p / w.width = p.2 - w.top := by
    rw [index, Nat.add_comm, Nat.add_mul_div_right _ _ (Nat.zero_lt_of_lt hlt),
      Nat.div_eq_of_lt hlt, Nat.zero_add]
  rw [point, hmod, hdiv, Nat.add_sub_cancel' hleft, Nat.add_sub_cancel' htop]

/-- The place of the point at a place. -/
theorem index_point (k : ℕ) : w.index (w.point k) = k := by
  rw [index, point, Nat.add_sub_cancel_left, Nat.add_sub_cancel_left, Nat.mul_comm]
  exact Nat.div_add_mod k w.width

theorem has_point (proper : w.Proper) {k : ℕ} (h : k < w.width * w.height) : w.Has (w.point k) := by
  have hmod := Nat.mod_lt k proper.width_pos
  have hdiv : k / w.width < w.height := (Nat.div_lt_iff_lt_mul proper.width_pos).mpr (by
    rwa [Nat.mul_comm])
  have hcolumns := proper.columns
  have hrows := proper.rows
  rw [width] at hmod
  rw [height] at hdiv
  refine ⟨Nat.le_add_right _ _, ?_, Nat.le_add_right _ _, ?_⟩
  · show w.left + k % w.width ≤ w.right
    rw [width]
    omega
  · show w.top + k / w.width ≤ w.bottom
    omega

/-- Within the window, the next point is that at the next place. -/
theorem next_point (proper : w.Proper) {k : ℕ} (h : k + 1 < w.width * w.height) :
    w.next (w.point k) = w.point (k + 1) := by
  have hwidth := proper.width_pos
  have hcolumns := proper.columns
  have hmod := Nat.mod_lt k hwidth
  have hhas := has_point proper h
  have hdiv := Nat.div_add_mod k w.width
  by_cases hlast : k % w.width + 1 = w.width
  · -- The next row starts.
    have hmul : k + 1 = w.width * (k / w.width + 1) := by
      rw [Nat.mul_add, Nat.mul_one]
      omega
    have hmod' : (k + 1) % w.width = 0 := by rw [hmul, Nat.mul_mod_right]
    have hdiv' : (k + 1) / w.width = k / w.width + 1 := by
      rw [hmul, Nat.mul_div_cancel_left _ hwidth]
    have hright : w.left + k % w.width = w.right := by
      rw [width] at hlast hmod ⊢
      omega
    have hrow : w.top + k / w.width ≠ w.bottom := by
      have hle := hhas.2.2.2
      rw [point, hdiv'] at hle
      dsimp only at hle
      omega
    rw [point, point, next, if_pos hright, if_neg hrow, hmod', hdiv', Nat.add_zero w.left,
      Nat.add_assoc]
  · have hlt : k % w.width + 1 < w.width := by omega
    have hmod' : (k + 1) % w.width = k % w.width + 1 := by
      rw [Nat.add_mod_eq_ite, Nat.mod_eq_of_lt (show 1 < w.width by omega), if_neg (by omega)]
    have hdiv' : (k + 1) / w.width = k / w.width := by
      have hdiv₁ := Nat.div_add_mod (k + 1) w.width
      rw [hmod'] at hdiv₁
      exact Nat.eq_of_mul_eq_mul_left hwidth (by omega)
    have hright : w.left + k % w.width ≠ w.right := by
      rw [width] at hlt ⊢
      omega
    rw [point, point, next, if_neg hright, hmod', hdiv', Nat.add_assoc]

/-- **Filling.** Behind so many values, no more than there is room for from the place on,
each point of the window holds the value of its place. -/
theorem fill_apply (proper : w.Proper) {vs : List α} {k : ℕ}
    (room : k + vs.length ≤ w.width * w.height) (plane : ℕ × ℕ → α) (p : ℕ × ℕ) :
    (w.fill vs (w.point k) plane).2 p =
      if w.Has p ∧ k ≤ w.index p then vs[w.index p - k]?.getD (plane p) else plane p := by
  induction vs generalizing k plane with
  | nil => simp [fill]
  | cons v vs ih =>
    rw [List.length_cons] at room
    have hhas : w.Has (w.point k) := has_point proper (by omega)
    have hupdate : ∀ {q : ℕ × ℕ}, w.Has q → w.index q ≠ k →
        Function.update plane (w.point k) v q = plane q := fun {q} _ hne => by
      refine Function.update_of_ne ?_ v plane
      rintro rfl
      exact hne (index_point k)
    have hrest : (w.fill vs (w.next (w.point k)) (Function.update plane (w.point k) v)).2 p =
        if w.Has p ∧ k + 1 ≤ w.index p then
          vs[w.index p - (k + 1)]?.getD (Function.update plane (w.point k) v p)
        else Function.update plane (w.point k) v p := by
      cases vs with
      | nil => simp [fill]
      | cons v' vs' =>
        rw [next_point proper (by rw [List.length_cons] at room; omega)]
        exact ih (by omega) _
    rw [fill, hrest]
    by_cases hp : w.Has p
    · rcases Nat.lt_trichotomy (w.index p) k with hlt | heq | hgt
      · rw [if_neg (by omega), if_neg (by omega), hupdate hp (by omega)]
      · -- This is the point that the first value is written to.
        have hpoint : p = w.point k := by rw [← heq, point_index hp]
        rw [if_neg (by omega), if_pos ⟨hp, by omega⟩, heq, Nat.sub_self, hpoint,
          Function.update_self]
        rfl
      · rw [if_pos ⟨hp, by omega⟩, if_pos ⟨hp, by omega⟩, hupdate hp (by omega),
          show w.index p - k = w.index p - (k + 1) + 1 by omega, List.getElem?_cons_succ]
    · rw [if_neg (fun h => hp h.1), if_neg (fun h => hp h.1)]
      refine Function.update_of_ne ?_ v plane
      rintro rfl
      exact hp hhas

/-- A whole window of values. -/
theorem fill_start (proper : w.Proper) {vs : List α} (whole : vs.length = w.width * w.height)
    (plane : ℕ × ℕ → α) (p : ℕ × ℕ) :
    (w.fill vs w.start plane).2 p =
      if w.Has p then vs[w.index p]?.getD (plane p) else plane p := by
  have hfill := fill_apply proper (k := 0) (by rw [Nat.zero_add, whole]) plane p
  rw [point_zero] at hfill
  rw [hfill]
  simp

/-! ### Values by column and row -/

/-- Values by their column and row, row by row. -/
def rows (width height : ℕ) (f : ℕ → ℕ → α) : List α :=
  (List.range height).flatMap fun row => (List.range width).map fun col => f col row

theorem rows_succ (width height : ℕ) (f : ℕ → ℕ → α) :
    rows width (height + 1) f =
      rows width height f ++ (List.range width).map fun col => f col height := by
  simp [rows, List.range_succ]

@[simp] theorem length_rows (width height : ℕ) (f : ℕ → ℕ → α) :
    (rows width height f).length = width * height := by
  induction height with
  | zero => rfl
  | succ height ih =>
    rw [rows_succ, List.length_append, ih, List.length_map, List.length_range, Nat.mul_succ]

theorem getElem?_rows {width height col row : ℕ} (f : ℕ → ℕ → α) (hcol : col < width)
    (hrow : row < height) : (rows width height f)[row * width + col]? = some (f col row) := by
  induction height with
  | zero => exact absurd hrow (Nat.not_lt_zero row)
  | succ height ih =>
    rw [rows_succ]
    rcases Nat.lt_succ_iff_lt_or_eq.mp hrow with hlt | rfl
    · have hin : row * width + col < width * height := calc
        row * width + col < row * width + width := Nat.add_lt_add_left hcol _
        _ = width * (row + 1) := by ring
        _ ≤ width * height := Nat.mul_le_mul_left _ hlt
      rw [List.getElem?_append_left (by rwa [length_rows])]
      exact ih hlt
    · rw [List.getElem?_append_right (by rw [length_rows, Nat.mul_comm]; exact Nat.le_add_right _ _),
        length_rows, Nat.mul_comm width row, Nat.add_sub_cancel_left]
      simp [hcol]

theorem rows_const (width height : ℕ) (v : α) :
    rows width height (fun _ _ => v) = List.replicate (width * height) v := by
  refine List.eq_replicate_iff.mpr ⟨length_rows _ _ _, fun x hx => ?_⟩
  simp only [rows, List.mem_flatMap, List.mem_map] at hx
  obtain ⟨-, -, -, -, rfl⟩ := hx
  rfl

/-- **A whole window**, given by column and row. -/
theorem fill_rows (proper : w.Proper) (f : ℕ → ℕ → α) (plane : ℕ × ℕ → α) (p : ℕ × ℕ) :
    (w.fill (rows w.width w.height f) w.start plane).2 p =
      if w.Has p then f (p.1 - w.left) (p.2 - w.top) else plane p := by
  rw [fill_start proper (length_rows _ _ _)]
  split
  · next hhas =>
    obtain ⟨hleft, hright, htop, hbottom⟩ := hhas
    have hcol : p.1 - w.left < w.width := by
      rw [width]
      omega
    have hrow : p.2 - w.top < w.height := by
      rw [height]
      omega
    rw [index, getElem?_rows f hcol hrow]
    rfl
  · rfl

end Window

end Gibberish.Foundation
