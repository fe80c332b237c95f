/-
# Conditions on the past

What a log says about the time since something in it: that it happened and was not ended,
and how much was added up since it last happened. Both are known of a longer log from what
they were before and the event that was added.
-/

import Mathlib.Algebra.Ring.Nat
import Mathlib.Data.List.DropRight

set_option autoImplicit false

namespace Gibberish.Foundation

variable {Event : Type*}

/-- Something happened that nothing later ended. -/
def Since (starts ends : Event → Prop) (log : List Event) : Prop :=
  ∃ earlier ev later, log = earlier ++ ev :: later ∧ starts ev ∧ ∀ ev' ∈ later, ¬ ends ev'

/-- What the events add up to since one of some kind, or since the beginning. -/
def sumSince (starts : Event → Bool) (amount : Event → ℕ) (log : List Event) : ℕ :=
  ((log.rtakeWhile fun ev => !starts ev).map amount).sum

section Since

variable {starts ends : Event → Prop} {log : List Event} {ev : Event}

@[simp] theorem not_since_nil : ¬ Since starts ends [] := by
  rintro ⟨earlier, ev, later, heq, -⟩
  exact absurd heq (by simp)

/-- **One event.** It starts something, or goes on with what it does not end. -/
theorem since_concat_iff :
    Since starts ends (log ++ [ev]) ↔ starts ev ∨ (¬ ends ev ∧ Since starts ends log) := by
  constructor
  · rintro ⟨earlier, start, later, heq, hstart, hlater⟩
    rcases List.eq_nil_or_concat later with rfl | ⟨front, last, rfl⟩
    · left
      obtain ⟨-, hlast⟩ := List.append_inj' heq rfl
      obtain rfl := List.cons.inj hlast |>.1
      exact hstart
    · right
      rw [List.concat_eq_append, ← List.cons_append, ← List.append_assoc] at heq
      obtain ⟨rfl, hlast⟩ := List.append_inj' heq rfl
      obtain rfl := List.cons.inj hlast |>.1
      exact ⟨hlater _ (by simp), earlier, start, front, rfl, hstart,
        fun ev' hev' => hlater ev' (by simp [hev'])⟩
  · rintro (hstart | ⟨hgoes, earlier, start, later, rfl, hstart, hlater⟩)
    · exact ⟨log, ev, [], rfl, hstart, fun ev' hev' => by cases hev'⟩
    · refine ⟨earlier, start, later ++ [ev], by simp, hstart, fun ev' hev' => ?_⟩
      rcases List.mem_append.mp hev' with hold | hnew
      · exact hlater ev' hold
      · rwa [List.mem_singleton.mp hnew]

theorem since_concat_of_starts (h : starts ev) : Since starts ends (log ++ [ev]) :=
  since_concat_iff.mpr (Or.inl h)

theorem not_since_concat (hstarts : ¬ starts ev) (hends : ends ev) :
    ¬ Since starts ends (log ++ [ev]) := by
  rw [since_concat_iff]
  rintro (h | ⟨h, -⟩)
  · exact hstarts h
  · exact h hends

theorem since_concat_of_goes (hstarts : ¬ starts ev) (hends : ¬ ends ev) :
    Since starts ends (log ++ [ev]) ↔ Since starts ends log := by
  rw [since_concat_iff, or_iff_right hstarts, and_iff_right hends]

end Since

section SumSince

variable {starts : Event → Bool} {amount : Event → ℕ} {log : List Event} {ev : Event}

theorem sumSince_concat_of_starts (h : starts ev = true) :
    sumSince starts amount (log ++ [ev]) = 0 := by
  rw [sumSince, List.rtakeWhile_concat, if_neg (by simp [h])]
  rfl

theorem sumSince_concat (h : starts ev = false) :
    sumSince starts amount (log ++ [ev]) = sumSince starts amount log + amount ev := by
  rw [sumSince, List.rtakeWhile_concat, if_pos (by simp [h]), List.map_append, List.sum_append]
  simp [sumSince]

end SumSince

end Gibberish.Foundation
