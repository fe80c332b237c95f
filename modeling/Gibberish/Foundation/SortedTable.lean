/-
# Hash tables listed in order

A hash table has no order of its own. A list of its values that is sorted by a rank of
their keys has one, if no two keys rank alike: whatever the order in which the table is
visited, it is the one ascending list of what the table holds.
-/

import Gibberish.Foundation.HashTable
import Mathlib.Data.List.Sort

set_option autoImplicit false

namespace Gibberish.Foundation.HashTable

variable {K V R : Type*} [LinearOrder R]

/-- The values, visited in some order and then sorted by a rank. -/
def sortedBy (t : HashTable K V) (order : IterOrder (Σ _ : K, V)) (rank : V → R) : List V :=
  ((order.arrange t.entries).map Sigma.snd).mergeSort fun v v' => rank v ≤ rank v'

variable [DecidableEq K] {t : HashTable K V} {order : IterOrder (Σ _ : K, V)} {rank : V → R}

theorem mem_sortedBy {v : V} : v ∈ t.sortedBy order rank ↔ ∃ k, t.lookup k = some v := by
  rw [sortedBy, List.mem_mergeSort, List.mem_map]
  constructor
  · rintro ⟨⟨k, v⟩, hentry, rfl⟩
    exact ⟨k, AList.mem_lookup_iff.mpr ((order.mem_arrange).mp hentry)⟩
  · rintro ⟨k, hlookup⟩
    exact ⟨⟨k, v⟩, (order.mem_arrange).mpr (AList.mem_lookup_iff.mp hlookup), rfl⟩

omit [DecidableEq K] in
theorem length_sortedBy : (t.sortedBy order rank).length = t.size := by
  rw [sortedBy, List.length_mergeSort, List.length_map, (order.perm t.entries).length_eq, size,
    AList.keys, List.keys, List.length_map]

/-- No two keys hold values that rank alike. -/
def RanksApart (t : HashTable K V) (rank : V → R) : Prop :=
  ∀ k v k' v', t.lookup k = some v → t.lookup k' = some v' → rank v = rank v' → k = k'

/-- **The list ascends**, when no two keys rank alike. -/
theorem pairwise_sortedBy (apart : t.RanksApart rank) :
    (t.sortedBy order rank).Pairwise fun v v' => rank v < rank v' := by
  have hsorted : (t.sortedBy order rank).Pairwise fun v v' => rank v ≤ rank v' := by
    refine (List.pairwise_mergeSort ?_ ?_ _).imp of_decide_eq_true
    · intro a b c hab hbc
      exact decide_eq_true ((of_decide_eq_true hab).trans (of_decide_eq_true hbc))
    · intro a b
      rw [Bool.or_eq_true]
      exact (le_total (rank a) (rank b)).imp decide_eq_true decide_eq_true
  -- Each key is visited once, so no rank comes twice.
  have hdistinct : (t.sortedBy order rank).Pairwise fun v v' => rank v ≠ rank v' := by
    have hvisited : (order.arrange t.entries).Pairwise fun e e' => rank e.2 ≠ rank e'.2 := by
      have hnodup : (order.arrange t.entries).NodupKeys :=
        (List.perm_nodupKeys (order.perm t.entries)).mpr t.nodupKeys
      refine (List.nodupKeys_iff_pairwise.mp hnodup).imp_of_mem ?_
      intro e e' he he' hne heq
      have hlookup : ∀ {x : Σ _ : K, V}, x ∈ order.arrange t.entries → t.lookup x.1 = some x.2 :=
        fun hx => AList.mem_lookup_iff.mpr ((order.mem_arrange).mp hx)
      exact hne (apart _ _ _ _ (hlookup he) (hlookup he') heq)
    rw [sortedBy]
    exact ((List.mergeSort_perm _ _).pairwise_iff Ne.symm).mpr
      (List.pairwise_map.mpr hvisited)
  refine (hsorted.and hdistinct).imp ?_
  rintro v v' ⟨hle, hne⟩
  exact lt_of_le_of_ne hle hne

/-- **It is the only one** that ascends and holds these values. -/
theorem sortedBy_eq (apart : t.RanksApart rank) {l : List V}
    (ascends : l.Pairwise fun v v' => rank v < rank v')
    (holds : ∀ v, v ∈ l ↔ ∃ k, t.lookup k = some v) : t.sortedBy order rank = l := by
  have : Std.Irrefl fun v v' : V => rank v < rank v' := ⟨fun _ => lt_irrefl _⟩
  have : Std.Antisymm fun v v' : V => rank v < rank v' :=
    ⟨fun _ _ h h' => absurd h' h.asymm⟩
  exact (pairwise_sortedBy apart).eq_of_mem_iff ascends fun v =>
    mem_sortedBy.trans (holds v).symm

end Gibberish.Foundation.HashTable
