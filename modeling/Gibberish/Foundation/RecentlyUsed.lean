/-
# The most recently used

Of a history of uses, the distinct elements in the order of their last use, and of these
the most recent few. To keep up with them it is enough to remember these few: an element that
is used again moves to the end, and a new one pushes out the least recently used. An element
that is pushed out may come back, and a history tells when it last did.
-/

import Mathlib.Data.List.Dedup
import Mathlib.Data.List.DropRight

set_option autoImplicit false

namespace Gibberish.Foundation

namespace RecentlyUsed

variable {α : Type*} [DecidableEq α] {capacity : ℕ} {history : List α} {a b : α}

/-- The distinct elements that were used last, the least recently used one first. -/
def recent (capacity : ℕ) (history : List α) : List α := history.dedup.rtake capacity

/-- Use an element, given the recent ones. -/
def touch (capacity : ℕ) (l : List α) (a : α) : List α :=
  if a ∈ l then l.erase a ++ [a]
  else if l.length < capacity then l ++ [a]
  else l.tail ++ [a]

/-! ### Recent elements -/

@[simp] theorem recent_nil : recent capacity ([] : List α) = [] := by
  simp [recent]

/-- The last use is the most recent. -/
theorem dedup_concat (l : List α) (a : α) : (l ++ [a]).dedup = l.dedup.erase a ++ [a] := by
  induction l with
  | nil => rfl
  | cons b l ih =>
    rw [List.cons_append]
    by_cases hb : b ∈ l
    · rw [List.dedup_cons_of_mem hb, List.dedup_cons_of_mem (List.mem_append_left _ hb), ih]
    · rw [List.dedup_cons_of_notMem hb]
      by_cases hba : b = a
      · subst hba
        have hlast : b ∈ l ++ [b] := List.mem_append_right _ (List.mem_singleton_self b)
        have hnot : b ∉ l.dedup := fun h => hb (List.mem_dedup.mp h)
        rw [List.dedup_cons_of_mem hlast, ih, List.erase_cons_head, List.erase_of_not_mem hnot]
      · have hnot : b ∉ l ++ [a] := by simp [hb, hba]
        rw [List.dedup_cons_of_notMem hnot, ih, List.erase_cons_tail (by simpa using hba),
          List.cons_append]

/-- The recent elements are the end of all; unless there are as many as fit, they are all. -/
theorem exists_append_recent (capacity : ℕ) (history : List α) :
    ∃ older, history.dedup = older ++ recent capacity history ∧
      (older = [] ∨ (recent capacity history).length = capacity) := by
  refine ⟨history.dedup.take (history.dedup.length - capacity), ?_, ?_⟩
  · exact (List.take_append_drop _ _).symm
  · by_cases h : capacity ≤ history.dedup.length
    · right
      rw [recent, List.rtake, List.length_drop]
      omega
    · left
      rw [Nat.sub_eq_zero_of_le (Nat.not_le.mp h).le, List.take_zero]

theorem length_recent_le (capacity : ℕ) (history : List α) :
    (recent capacity history).length ≤ capacity := by
  rw [recent, List.rtake, List.length_drop]
  omega

theorem nodup_recent (capacity : ℕ) (history : List α) : (recent capacity history).Nodup :=
  (List.nodup_dedup history).sublist (List.drop_sublist _ _)

theorem mem_of_mem_recent (h : a ∈ recent capacity history) : a ∈ history :=
  List.mem_dedup.mp (List.mem_of_mem_drop h)

omit [DecidableEq α] in
/-- The end of a list, when it is all or as long as wanted. -/
theorem rtake_append {older l : List α} (hle : l.length ≤ capacity)
    (h : older = [] ∨ l.length = capacity) : (older ++ l).rtake capacity = l := by
  rw [List.rtake, List.length_append]
  rcases h with rfl | h
  · rw [List.length_nil, Nat.zero_add, Nat.sub_eq_zero_of_le hle, List.nil_append, List.drop_zero]
  · rw [h, Nat.add_sub_cancel, List.drop_left]

/-- **Using an element.** The recent elements follow from the recent elements before. -/
theorem recent_concat (hpos : 0 < capacity) (history : List α) (a : α) :
    recent capacity (history ++ [a]) = touch capacity (recent capacity history) a := by
  obtain ⟨older, hsplit, hfull⟩ := exists_append_recent capacity history
  have hle := length_recent_le capacity history
  have hnodup := List.nodup_dedup history
  rw [hsplit] at hnodup
  obtain ⟨room, rfl⟩ := Nat.exists_eq_add_one_of_ne_zero hpos.ne'
  rw [recent, dedup_concat, List.rtake_concat_succ, hsplit, touch]
  generalize recent (room + 1) history = l at *
  split
  · next hmem =>
    -- The element leaves its place, so one fewer of the others is wanted.
    have holder : a ∉ older := fun h => (List.disjoint_of_nodup_append hnodup) h hmem
    have hlength := List.length_erase_of_mem hmem
    rw [List.erase_append_right _ holder, rtake_append (by omega)]
    rcases hfull with hnil | hlen
    · exact Or.inl hnil
    · right
      omega
  · next hnot =>
    have herase : (older ++ l).erase a = older.erase a ++ l := by
      by_cases holder : a ∈ older
      · exact List.erase_append_left _ holder
      · rw [List.erase_append_right _ holder, List.erase_of_not_mem hnot,
          List.erase_of_not_mem holder]
    rw [herase]
    split
    · next hroom =>
      have hnil : older = [] := hfull.resolve_right hroom.ne
      rw [hnil, List.erase_nil, rtake_append (by omega) (Or.inl rfl)]
    · next hroom =>
      cases l with
      | nil => exact absurd (Nat.succ_pos room) hroom
      | cons oldest rest =>
        rw [List.length_cons] at hle hroom
        have hrest : older.erase a ++ oldest :: rest = (older.erase a ++ [oldest]) ++ rest := by
          rw [List.append_assoc, List.singleton_append]
        rw [hrest, rtake_append (by omega) (Or.inr (by omega)), List.tail_cons]

theorem mem_recent_concat_self (hpos : 0 < capacity) (history : List α) (a : α) :
    a ∈ recent capacity (history ++ [a]) := by
  rw [recent_concat hpos, touch]
  split
  · exact List.mem_append_right _ (List.mem_singleton_self a)
  · split <;> exact List.mem_append_right _ (List.mem_singleton_self a)

/-! ### Coming back -/

/-- The history splits at the use with which the element last became a recent one: it was not
one before, and has been one ever since. -/
structure LastEntry (capacity : ℕ) (history : List α) (a : α) (before after : List α) : Prop where
  split : history = before ++ a :: after
  absent : a ∉ recent capacity before
  present : ∀ since, since <+: after → a ∈ recent capacity (before ++ a :: since)

/-- An element that is not recent enters when it is used. -/
theorem lastEntry_concat_self (hpos : 0 < capacity) (h : a ∉ recent capacity history) :
    LastEntry capacity (history ++ [a]) a history [] where
  split := rfl
  absent := h
  present since hsince := by
    rw [List.prefix_nil.mp hsince]
    exact mem_recent_concat_self hpos history a

/-- As long as it stays, its entry stays the last. -/
theorem LastEntry.concat {before after : List α} (h : LastEntry capacity history a before after)
    (hmem : a ∈ recent capacity (history ++ [b])) :
    LastEntry capacity (history ++ [b]) a before (after ++ [b]) where
  split := by rw [h.split, List.append_assoc, List.cons_append]
  absent := h.absent
  present since hsince := by
    rcases List.prefix_concat_iff.mp hsince with rfl | hearlier
    · rwa [h.split, List.append_assoc, List.cons_append] at hmem
    · exact h.present since hearlier

/-- A history has at most one last entry of an element. -/
theorem LastEntry.unique {before before' after after' : List α}
    (h : LastEntry capacity history a before after)
    (h' : LastEntry capacity history a before' after') : before = before' ∧ after = after' := by
  -- Otherwise one of the two comes first, and the element is there when the other happens.
  have hearlier : ∀ {before before' after after' gap : List α},
      LastEntry capacity history a before after → LastEntry capacity history a before' after' →
      before' = before ++ a :: gap → False := by
    intro before before' after after' gap h h' heq
    apply h'.absent
    have hsplit := h.split.symm.trans h'.split
    rw [heq, List.append_assoc, List.append_cancel_left_eq, List.cons_append,
      List.cons.injEq] at hsplit
    rw [heq]
    exact h.present gap ⟨_, hsplit.2.symm⟩
  have hsplit := h.split.symm.trans h'.split
  rcases List.append_eq_append_iff.mp hsplit with ⟨gap, hb, ha⟩ | ⟨gap, hb, ha⟩
  · cases gap with
    | nil =>
      rw [List.append_nil] at hb
      exact ⟨hb.symm, (List.cons.inj ha).2⟩
    | cons x gap =>
      obtain ⟨rfl, -⟩ := List.cons.inj ha
      exact (hearlier h h' hb).elim
  · cases gap with
    | nil =>
      rw [List.append_nil] at hb
      exact ⟨hb, (List.cons.inj ha).2.symm⟩
    | cons x gap =>
      obtain ⟨rfl, -⟩ := List.cons.inj ha
      exact (hearlier h' h hb).elim

end RecentlyUsed

end Gibberish.Foundation
