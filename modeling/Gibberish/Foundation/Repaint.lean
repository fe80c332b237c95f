/-
# Painting a canvas in parts

A layer is a picture of some of the places of a canvas. Putting on a layer that is
shown already changes nothing, and a layer hides what lies under the places it covers.

A repaint may therefore leave out what is shown already: over layers that lie apart it
ends as the repaint of them all. And a repaint that covers at least the places of the
one before ends as if the one before had not been.
-/

import Mathlib.Data.List.Basic
import Mathlib.Data.Option.Basic

set_option autoImplicit false

namespace Gibberish.Foundation

variable {P C : Type*}

/-- A picture of some of the places of a canvas. -/
abbrev Layer (P C : Type*) := P → Option C

namespace Layer

variable {layer other : Layer P C} {canvas : P → C}

/-- Put a layer on a canvas. -/
def onto (layer : Layer P C) (canvas : P → C) : P → C := fun p => (layer p).getD (canvas p)

/-- The canvas has the layer's colour wherever the layer has one. -/
def ShownBy (layer : Layer P C) (canvas : P → C) : Prop := ∀ p, ∀ c ∈ layer p, canvas p = c

/-- No place belongs to both layers. -/
def Apart (layer other : Layer P C) : Prop := ∀ p, layer p = none ∨ other p = none

theorem apart_of_isSome (h : ∀ p, (layer p).isSome → ¬ (other p).isSome) : layer.Apart other := by
  intro p
  rcases Option.eq_none_or_eq_some (layer p) with hnone | ⟨c, hc⟩
  · exact Or.inl hnone
  · exact Or.inr (Option.not_isSome_iff_eq_none.mp (h p (Option.isSome_of_mem hc)))

theorem Apart.symm (h : layer.Apart other) : other.Apart layer := fun p => (h p).symm

theorem onto_of_none {p : P} (h : layer p = none) : layer.onto canvas p = canvas p := by
  rw [onto, h, Option.getD_none]

theorem onto_of_mem {p : P} {c : C} (h : c ∈ layer p) : layer.onto canvas p = c := by
  rw [onto, Option.mem_def.mp h, Option.getD_some]

theorem shownBy_onto : layer.ShownBy (layer.onto canvas) := fun _ _ => onto_of_mem

/-- What is shown already need not be put on. -/
theorem ShownBy.onto_eq (h : layer.ShownBy canvas) : layer.onto canvas = canvas := by
  ext p
  cases hp : layer p with
  | none => exact onto_of_none hp
  | some c => rw [onto_of_mem hp, h p c hp]

/-- A layer apart from what is shown leaves it shown. -/
theorem ShownBy.onto (h : layer.ShownBy canvas) (hapart : layer.Apart other) :
    layer.ShownBy (other.onto canvas) := by
  intro p c hc
  rcases hapart p with hnone | hnone
  · rw [Option.mem_def.mp hc] at hnone
    cases hnone
  · rw [onto_of_none hnone, h p c hc]

/-! ### One layer after another -/

/-- Put layers on a canvas, the first one first. -/
def paint (layers : List (Layer P C)) (canvas : P → C) : P → C :=
  layers.foldl (fun canvas layer => layer.onto canvas) canvas

variable {layers layers' : List (Layer P C)}

@[simp] theorem paint_nil : paint [] canvas = canvas := rfl

@[simp] theorem paint_cons : paint (layer :: layers) canvas = paint layers (layer.onto canvas) :=
  rfl

theorem paint_append : paint (layers ++ layers') canvas = paint layers' (paint layers canvas) :=
  List.foldl_append

/-- Some layer has a colour at the place. -/
def Covered (layers : List (Layer P C)) (p : P) : Prop := ∃ layer ∈ layers, (layer p).isSome

theorem covered_cons {p : P} :
    Covered (layer :: layers) p ↔ (layer p).isSome ∨ Covered layers p := by
  rw [Covered, List.exists_mem_cons_iff, Covered]

theorem covered_append {p : P} :
    Covered (layers ++ layers') p ↔ Covered layers p ∨ Covered layers' p := by
  simp only [Covered, List.mem_append, or_and_right, exists_or]

/-- A place that no layer covers keeps its colour. -/
theorem paint_of_not_covered {p : P} (h : ¬ Covered layers p) :
    paint layers canvas p = canvas p := by
  induction layers generalizing canvas with
  | nil => rfl
  | cons layer layers ih =>
    obtain ⟨hlayer, hlayers⟩ := not_or.mp (mt covered_cons.mpr h)
    rw [paint_cons, ih hlayers, onto_of_none (Option.not_isSome_iff_eq_none.mp hlayer)]

/-- The colour of a covered place does not depend on the canvas. -/
theorem paint_congr_of_covered {canvas' : P → C} {p : P} (h : Covered layers p) :
    paint layers canvas p = paint layers canvas' p := by
  induction layers generalizing canvas canvas' with
  | nil => simp [Covered] at h
  | cons layer layers ih =>
    rw [paint_cons, paint_cons]
    by_cases hlater : Covered layers p
    · exact ih hlater
    · have hsome := (covered_cons.mp h).resolve_right hlater
      obtain ⟨c, hc⟩ := Option.isSome_iff_exists.mp hsome
      rw [paint_of_not_covered hlater, paint_of_not_covered hlater, onto_of_mem hc, onto_of_mem hc]

/-- A repaint hides a repaint of no more places. -/
theorem paint_paint (h : ∀ p, Covered layers p → Covered layers' p) :
    paint layers' (paint layers canvas) = paint layers' canvas := by
  ext p
  by_cases hcovered : Covered layers' p
  · exact paint_congr_of_covered hcovered
  · rw [paint_of_not_covered hcovered, paint_of_not_covered hcovered,
      paint_of_not_covered (mt (h p) hcovered)]

theorem ShownBy.paint (h : layer.ShownBy canvas) (hapart : ∀ other ∈ layers, layer.Apart other) :
    layer.ShownBy (paint layers canvas) := by
  induction layers generalizing canvas with
  | nil => exact h
  | cons other layers ih =>
    obtain ⟨hother, hlayers⟩ := List.forall_mem_cons.mp hapart
    exact ih (h.onto hother) hlayers

/-- Layers that lie apart are all shown in the end. -/
theorem shownBy_paint (hapart : layers.Pairwise Apart) (hmem : layer ∈ layers) :
    layer.ShownBy (paint layers canvas) := by
  induction layers generalizing canvas with
  | nil => simp at hmem
  | cons first layers ih =>
    obtain ⟨hfirst, hlayers⟩ := List.pairwise_cons.mp hapart
    rcases List.mem_cons.mp hmem with rfl | hmem
    · exact shownBy_onto.paint hfirst
    · exact ih hlayers hmem

/-- Several layers as one, the first one at the bottom. -/
def flatten : List (Layer P C) → Layer P C
  | [] => fun _ => none
  | layer :: layers => fun p => (flatten layers p).or (layer p)

theorem onto_flatten : (flatten layers).onto canvas = paint layers canvas := by
  induction layers generalizing canvas with
  | nil => rfl
  | cons layer layers ih =>
    rw [paint_cons, ← ih]
    ext p
    change ((flatten layers p).or (layer p)).getD (canvas p) =
      (flatten layers p).getD ((layer p).getD (canvas p))
    cases flatten layers p <;> rfl

theorem isSome_flatten {p : P} : (flatten layers p).isSome ↔ Covered layers p := by
  induction layers with
  | nil => simp [flatten, Covered]
  | cons layer layers ih => rw [covered_cons, ← ih, flatten, Option.isSome_or, Bool.or_eq_true,
      or_comm]

/-! ### Leaving out what is shown -/

variable {ι : Type*}

/-- Go over some slots and put on the pictures of the stale ones. -/
def repaint (stale : ι → Bool) (picture : ι → Layer P C) (slots : List ι) (canvas : P → C) :
    P → C :=
  slots.foldl (fun canvas i => if stale i then (picture i).onto canvas else canvas) canvas

theorem repaint_cons (stale : ι → Bool) (picture : ι → Layer P C) (i : ι) (slots : List ι) :
    repaint stale picture (i :: slots) canvas =
      repaint stale picture slots (if stale i then (picture i).onto canvas else canvas) := rfl

theorem repaint_congr {stale stale' : ι → Bool} {picture : ι → Layer P C} {slots : List ι}
    (h : ∀ i ∈ slots, stale i = stale' i) :
    repaint stale picture slots canvas = repaint stale' picture slots canvas := by
  induction slots generalizing canvas with
  | nil => rfl
  | cons i slots ih =>
    obtain ⟨hi, hrest⟩ := List.forall_mem_cons.mp h
    rw [repaint_cons, repaint_cons, hi, ih hrest]

theorem repaint_of_fresh {stale : ι → Bool} {picture : ι → Layer P C} {slots : List ι}
    (h : ∀ i ∈ slots, stale i = false) : repaint stale picture slots canvas = canvas := by
  induction slots with
  | nil => rfl
  | cons i slots ih =>
    obtain ⟨hi, hrest⟩ := List.forall_mem_cons.mp h
    rw [repaint_cons, hi, if_neg Bool.false_ne_true, ih hrest]

/-- A place outside all the pictures keeps its colour. -/
theorem repaint_of_none {stale : ι → Bool} {picture : ι → Layer P C} {slots : List ι} {p : P}
    (h : ∀ i ∈ slots, picture i p = none) : repaint stale picture slots canvas p = canvas p := by
  induction slots generalizing canvas with
  | nil => rfl
  | cons i slots ih =>
    obtain ⟨hi, hrest⟩ := List.forall_mem_cons.mp h
    rw [repaint_cons, ih hrest]
    split
    · exact onto_of_none hi
    · rfl

/-- Slots that are not stale may be left out. -/
theorem repaint_eq_paint {stale : ι → Bool} {picture : ι → Layer P C} {slots : List ι}
    (hapart : slots.Pairwise fun i j => (picture i).Apart (picture j))
    (hshown : ∀ i ∈ slots, stale i = false → (picture i).ShownBy canvas) :
    repaint stale picture slots canvas = paint (slots.map picture) canvas := by
  induction slots generalizing canvas with
  | nil => rfl
  | cons i slots ih =>
    obtain ⟨hfirst, hlater⟩ := List.pairwise_cons.mp hapart
    obtain ⟨hi, hrest⟩ := List.forall_mem_cons.mp hshown
    have hskip : (if stale i then (picture i).onto canvas else canvas) =
        (picture i).onto canvas := by
      cases hstale : stale i with
      | true => exact if_pos rfl
      | false => exact (hi hstale).onto_eq.symm
    rw [repaint_cons, hskip, List.map_cons, paint_cons]
    exact ih hlater fun j hj hstale => (hrest j hj hstale).onto (hfirst j hj).symm

end Layer

end Gibberish.Foundation
