/-
# Hash tables with arbitrary iteration order

A hash table is an association list without duplicate keys. Lookups, insertions
and removals do not depend on the order of the entries. A loop over the entries
does: it visits them in an order the table does not fix, so whatever iterates
takes that order as an argument.
-/

import Mathlib.Data.List.AList
import Mathlib.Data.List.MinMax

set_option autoImplicit false

namespace Gibberish.Foundation

/-- A finite map from keys to values. -/
abbrev HashTable (K V : Type*) := AList fun _ : K => V

/-- The order in which one loop visits what it iterates over. -/
structure IterOrder (α : Type*) where
  arrange : List α → List α
  perm : ∀ l, (arrange l).Perm l

/-- The order in which the entries happen to be stored. -/
def IterOrder.stored (α : Type*) : IterOrder α := ⟨id, fun _ => .refl _⟩

@[simp] theorem IterOrder.mem_arrange {α : Type*} (order : IterOrder α) {l : List α} {x : α} :
    x ∈ order.arrange l ↔ x ∈ l :=
  (order.perm l).mem_iff

namespace HashTable

variable {K V : Type*}

/-- Keep the entries that meet a condition. -/
def retain (t : HashTable K V) (keep : K → V → Bool) : HashTable K V :=
  ⟨t.entries.filter fun e => keep e.1 e.2, t.nodupKeys.sublist List.filter_sublist⟩

/-- Change every value in place. -/
def mapValues (t : HashTable K V) (f : K → V → V) : HashTable K V :=
  ⟨t.entries.map (.map id f), List.NodupKeys.map₂ f _ t.nodupKeys⟩

/-- How many keys meet a condition. -/
def countKeys (t : HashTable K V) (p : K → Bool) : ℕ := t.keys.countP p

/-- The number of entries. -/
def size (t : HashTable K V) : ℕ := t.keys.length

/-- The key of an entry with the least rank, the first one in the given order. -/
def minKeyBy (t : HashTable K V) (order : IterOrder (Σ _ : K, V)) (p : K → Bool) (rank : V → ℕ) :
    Option K :=
  (((order.arrange t.entries).filter fun e => p e.1).argmin fun e => rank e.2).map Sigma.fst

variable [DecidableEq K] {t : HashTable K V} {k k' : K} {v : V}

@[simp] theorem lookup_retain (t : HashTable K V) (keep : K → V → Bool) (k : K) :
    (t.retain keep).lookup k = (t.lookup k).filter (keep k) := by
  ext v
  rw [← Option.mem_def, ← Option.mem_def, AList.mem_lookup_iff]
  simp [retain, Option.filter_eq_some_iff, ← AList.mem_lookup_iff]

theorem mem_retain {keep : K → V → Bool} :
    k ∈ t.retain keep ↔ ∃ v, t.lookup k = some v ∧ keep k v = true := by
  rw [← AList.lookup_isSome, lookup_retain, Option.isSome_iff_exists]
  simp [Option.filter_eq_some_iff]

theorem mem_of_mem_retain {keep : K → V → Bool} (h : k ∈ t.retain keep) : k ∈ t := by
  obtain ⟨v, hv, -⟩ := mem_retain.mp h
  exact AList.lookup_isSome.mp (Option.isSome_iff_exists.mpr ⟨v, hv⟩)

@[simp] theorem lookup_mapValues (t : HashTable K V) (f : K → V → V) (k : K) :
    (t.mapValues f).lookup k = (t.lookup k).map (f k) :=
  List.dlookup_map₂ k

theorem lookup_mapValues_of_lookup (h : t.lookup k = some v) (f : K → V → V) :
    (t.mapValues f).lookup k = some (f k v) := by
  rw [lookup_mapValues, h, Option.map_some]

omit [DecidableEq K] in
@[simp] theorem keys_mapValues (t : HashTable K V) (f : K → V → V) :
    (t.mapValues f).keys = t.keys :=
  List.map₂_keys f t.entries

theorem mem_of_lookup (h : t.lookup k = some v) : k ∈ t := by
  rw [← AList.lookup_isSome, h]
  rfl

/-- A loop that does something for one key only does it for that key's value. -/
theorem filterMap_entries {β : Type*} (t : HashTable K V) (k : K) {f : (Σ _ : K, V) → Option β}
    (hother : ∀ e, e.1 ≠ k → f e = none) (order : IterOrder (Σ _ : K, V)) :
    (order.arrange t.entries).filterMap f = ((t.lookup k).bind fun v => f ⟨k, v⟩).toList := by
  have hstored : t.entries.filterMap f = ((t.lookup k).bind fun v => f ⟨k, v⟩).toList := by
    obtain ⟨entries, hnodup⟩ := t
    show entries.filterMap f = ((entries.dlookup k).bind fun v => f ⟨k, v⟩).toList
    induction entries with
    | nil => rfl
    | cons e rest ih =>
      obtain ⟨hfresh, hrest⟩ := List.nodupKeys_cons.mp hnodup
      obtain ⟨k', v⟩ := e
      by_cases hk : k' = k
      · subst hk
        -- The key comes once, so nothing is done for the rest.
        have hnone : rest.filterMap f = [] := by
          rw [List.filterMap_eq_nil_iff]
          exact fun e he => hother e (List.ne_key.mp hfresh e he).symm
        rw [List.filterMap_cons, List.dlookup_cons_eq, Option.bind_some, hnone]
        cases f ⟨k', v⟩ <;> rfl
      · rw [List.filterMap_cons, hother _ hk, List.dlookup_cons_ne _ _ (Ne.symm hk)]
        exact ih hrest
  have hperm := ((order.perm t.entries).filterMap f).trans (.of_eq hstored)
  cases hvalue : (t.lookup k).bind fun v => f ⟨k, v⟩ with
  | none =>
    rw [hvalue] at hperm
    exact hperm.eq_nil
  | some x =>
    rw [hvalue] at hperm
    exact List.perm_singleton.mp hperm

/-! ### Counting keys -/

theorem countKeys_insert_of_notMem (p : K → Bool) (v : V) (h : k ∉ t) :
    countKeys (t.insert k v) p = t.countKeys p + if p k then 1 else 0 := by
  rw [countKeys, AList.keys_insert, List.erase_of_not_mem (fun hk => h (AList.mem_keys.mpr hk)),
    List.countP_cons, countKeys]

theorem countKeys_insert_of_mem (p : K → Bool) (v : V) (h : k ∈ t) :
    countKeys (t.insert k v) p = t.countKeys p := by
  rw [countKeys, AList.keys_insert, countKeys]
  exact ((List.perm_cons_erase (AList.mem_keys.mp h)).countP_eq p).symm

theorem countKeys_erase_of_mem (p : K → Bool) (h : k ∈ t) :
    countKeys (t.erase k) p + (if p k then 1 else 0) = t.countKeys p := by
  rw [countKeys, AList.keys_erase, countKeys,
    (List.perm_cons_erase (AList.mem_keys.mp h)).countP_eq p, List.countP_cons]

theorem countKeys_erase_le (p : K → Bool) (k : K) : countKeys (t.erase k) p ≤ t.countKeys p := by
  rw [countKeys, AList.keys_erase]
  exact List.erase_sublist.countP_le

omit [DecidableEq K] in
theorem countKeys_retain_le (p : K → Bool) (keep : K → V → Bool) :
    (t.retain keep).countKeys p ≤ t.countKeys p := by
  have hsub : (t.retain keep).keys.Sublist t.keys := List.filter_sublist.map _
  exact hsub.countP_le

omit [DecidableEq K] in
theorem size_eq_countKeys (t : HashTable K V) : t.size = t.countKeys fun _ => true := by
  simp [size, countKeys]

/-! ### The least entry -/

omit [DecidableEq K] in
theorem mem_entries_keys {e : Σ _ : K, V} (h : e ∈ t.entries) : e.1 ∈ t.keys :=
  List.mem_map_of_mem h

omit [DecidableEq K] in
theorem minKeyBy_mem {order : IterOrder (Σ _ : K, V)} {p : K → Bool} {rank : V → ℕ}
    (h : t.minKeyBy order p rank = some k) : k ∈ t.keys ∧ p k = true := by
  obtain ⟨e, he, rfl⟩ := Option.map_eq_some_iff.mp h
  have hmem := List.mem_filter.mp (List.argmin_mem he)
  exact ⟨mem_entries_keys ((order.mem_arrange).mp hmem.1), hmem.2⟩

omit [DecidableEq K] in
/-- As long as some key meets the condition there is a least entry. -/
theorem exists_minKeyBy (order : IterOrder (Σ _ : K, V)) {p : K → Bool} (rank : V → ℕ)
    (h : 0 < t.countKeys p) : ∃ k, t.minKeyBy order p rank = some k := by
  obtain ⟨k, hk, hp⟩ := List.countP_pos_iff.mp h
  obtain ⟨e, he, rfl⟩ := List.mem_map.mp hk
  cases hmin : ((order.arrange t.entries).filter fun e => p e.1).argmin fun e => rank e.2 with
  | some e => exact ⟨e.1, by simp [minKeyBy, hmin]⟩
  | none =>
    have hnil := List.argmin_eq_none.mp hmin
    have hmem : e ∈ (order.arrange t.entries).filter fun e => p e.1 :=
      List.mem_filter.mpr ⟨order.mem_arrange.mpr he, hp⟩
    rw [hnil] at hmem
    exact absurd hmem List.not_mem_nil

end HashTable

end Gibberish.Foundation
