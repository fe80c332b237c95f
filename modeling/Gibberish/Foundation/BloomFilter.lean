/-
# Parts of a sliding Bloom filter

A bitmap over 64-bit words, and the two generations of keys a sliding filter keeps:
once the current generation is full, the next key starts a new one and the one
before last is forgotten. A key stays in one of the two generations for as many
further insertions as a generation holds.
-/

import Mathlib.Data.Nat.Bitwise
import Mathlib.Data.UInt

set_option autoImplicit false

namespace Gibberish.Foundation

/-! ### Bitmaps -/

/-- Bits packed into 64-bit words. -/
abbrev Bitmap (words : ℕ) := Vector UInt64 words

namespace Bitmap

variable {words : ℕ}

theorem word_lt (i : Fin (64 * words)) : i.val / 64 < words :=
  Nat.div_lt_of_lt_mul i.isLt

/-- The word an index lies in. -/
def word (bits : Bitmap words) (i : Fin (64 * words)) : UInt64 :=
  have inside := word_lt i
  bits[i.val / 64]

/-- The word with one bit set. -/
def bit (pos : ℕ) : UInt64 := 1 <<< UInt64.ofNat pos

def isSet (bits : Bitmap words) (i : Fin (64 * words)) : Bool :=
  bits.word i &&& bit (i.val % 64) ≠ 0

def mark (bits : Bitmap words) (i : Fin (64 * words)) : Bitmap words :=
  bits.set (i.val / 64) (bits.word i ||| bit (i.val % 64)) (word_lt i)

theorem toNat_bit {pos : ℕ} (h : pos < 64) : (bit pos).toNat = 2 ^ pos := by
  have hall : ∀ pos : Fin 64, (bit pos.val).toNat = 2 ^ pos.val := by decide
  exact hall ⟨pos, h⟩

/-- A word meets a one-bit mask exactly when that bit is set. -/
theorem and_bit_ne_zero (word : UInt64) {pos : ℕ} (h : pos < 64) :
    word &&& bit pos ≠ 0 ↔ word.toNat.testBit pos = true := by
  rw [ne_eq, ← UInt64.toNat_inj, UInt64.toNat_and, toNat_bit h, Nat.and_two_pow]
  cases word.toNat.testBit pos <;> simp

theorem isSet_eq (bits : Bitmap words) (i : Fin (64 * words)) :
    bits.isSet i = (bits.word i).toNat.testBit (i.val % 64) := by
  rw [isSet, Bool.eq_iff_iff, decide_eq_true_iff]
  exact and_bit_ne_zero _ (Nat.mod_lt _ (by decide))

@[simp] theorem isSet_replicate_zero (i : Fin (64 * words)) :
    isSet (Vector.replicate words 0) i = false := by
  simp [isSet, word]

/-- Marking changes the word the index lies in. -/
theorem word_mark (bits : Bitmap words) (i j : Fin (64 * words)) :
    (bits.mark i).word j =
      if i.val / 64 = j.val / 64 then bits.word j ||| bit (i.val % 64) else bits.word j := by
  rw [word, mark, Vector.getElem_set]
  split
  · next hword => simp only [word, hword]
  · rfl

/-- Marking sets one bit and no other. -/
theorem isSet_mark (bits : Bitmap words) (i j : Fin (64 * words)) :
    (bits.mark i).isSet j = (bits.isSet j || i == j) := by
  have hpos : i.val % 64 < 64 := Nat.mod_lt _ (by decide)
  rw [isSet_eq, isSet_eq, word_mark]
  split
  · next hword =>
    rw [UInt64.toNat_or, toNat_bit hpos, Nat.testBit_or, Nat.testBit_two_pow]
    congr 1
    rw [beq_eq_decide]
    -- Within one word, the index is the position of its bit.
    apply decide_eq_decide.mpr
    rw [Fin.ext_iff]
    omega
  · next hword =>
    have hne : i ≠ j := fun h => hword (by rw [h])
    rw [beq_false_of_ne hne, Bool.or_false]

/-- Marking several indices sets these bits and no other. -/
theorem isSet_foldl_mark (bits : Bitmap words) (indices : List (Fin (64 * words)))
    (j : Fin (64 * words)) :
    (indices.foldl mark bits).isSet j = (bits.isSet j || indices.contains j) := by
  induction indices generalizing bits with
  | nil => simp
  | cons i rest ih =>
    rw [List.foldl_cons, ih, isSet_mark, List.contains_cons, Bool.or_assoc]
    congr 2
    exact Bool.beq_comm

end Bitmap

/-! ### Generations of keys -/

/-- The keys inserted since the last turnover, and in the generation before. -/
structure Generations (Key : Type*) where
  current : List Key
  previous : List Key

namespace Generations

variable {Key : Type*} (capacity : ℕ)

/-- Insert a key, first turning over a full generation. -/
def insert (g : Generations Key) (key : Key) : Generations Key :=
  if g.current.length ≥ capacity then ⟨[key], g.current⟩ else ⟨g.current ++ [key], g.previous⟩

/-- The generations after inserting some keys into none. -/
def ofKeys (keys : List Key) : Generations Key := keys.foldl (insert capacity) ⟨[], []⟩

/-- The key is in one of the two generations. -/
def Holds (g : Generations Key) (key : Key) : Prop := key ∈ g.current ∨ key ∈ g.previous

/-- How many more insertions a key is sure to stay for. -/
def StaysFor (g : Generations Key) (key : Key) (budget : ℕ) : Prop :=
  (key ∈ g.current ∧ budget + g.current.length ≤ capacity + capacity) ∨
    (key ∈ g.previous ∧ budget + g.current.length ≤ capacity)

variable {capacity}

theorem StaysFor.holds {g : Generations Key} {key : Key} {budget : ℕ}
    (h : g.StaysFor capacity key budget) : g.Holds key := by
  rcases h with ⟨hmem, _⟩ | ⟨hmem, _⟩
  · exact Or.inl hmem
  · exact Or.inr hmem

theorem length_current_insert (hpos : 0 < capacity) (g : Generations Key) (key : Key) :
    (g.insert capacity key).current.length ≤ capacity := by
  rw [insert]
  split
  · exact hpos
  · next h =>
    rw [List.length_append, List.length_singleton]
    omega

/-- A key just inserted stays for a whole generation. -/
theorem staysFor_insert_self (hpos : 0 < capacity) (g : Generations Key) (key : Key) :
    (g.insert capacity key).StaysFor capacity key capacity := by
  refine Or.inl ⟨?_, Nat.add_le_add_left (length_current_insert hpos g key) _⟩
  rw [insert]
  split
  · exact List.mem_singleton_self key
  · exact List.mem_append_right _ (List.mem_singleton_self key)

/-- Another insertion uses up one. -/
theorem StaysFor.insert {g : Generations Key} {key : Key} {budget : ℕ}
    (h : g.StaysFor capacity key (budget + 1)) (other : Key) :
    (g.insert capacity other).StaysFor capacity key budget := by
  rw [Generations.insert]
  rcases h with ⟨hmem, hbudget⟩ | ⟨hmem, hbudget⟩
  · split
    -- The generation with the key becomes the previous one.
    · next hfull =>
      refine Or.inr ⟨hmem, ?_⟩
      simp only [List.length_singleton]
      omega
    · refine Or.inl ⟨List.mem_append_left _ hmem, ?_⟩
      simp only [List.length_append, List.length_singleton]
      omega
  · -- The budget leaves room in the current generation, so it does not turn over.
    rw [if_neg (by omega)]
    refine Or.inr ⟨hmem, ?_⟩
    simp only [List.length_append, List.length_singleton]
    omega

/-- A key is held after as many further insertions as fill a generation. -/
theorem holds_of_append (hpos : 0 < capacity) (before : List Key) (key : Key) {after : List Key}
    (window : after.length ≤ capacity) :
    (ofKeys capacity (before ++ key :: after)).Holds key := by
  have hstays : ∀ (more : List Key) (g : Generations Key) (budget : ℕ),
      g.StaysFor capacity key (budget + more.length) →
        (more.foldl (Generations.insert capacity) g).StaysFor capacity key budget := by
    intro more
    induction more with
    | nil => exact fun g budget h => h
    | cons other more ih => exact fun g budget h => ih _ budget (h.insert other)
  rw [ofKeys, List.foldl_append, List.foldl_cons]
  -- The key starts with a whole generation to stay for.
  refine (hstays after _ (capacity - after.length) ?_).holds
  rw [Nat.sub_add_cancel window]
  exact staysFor_insert_self hpos _ key

/-- As many keys as fill one generation are all current. -/
theorem ofKeys_of_length_le {keys : List Key} (h : keys.length ≤ capacity) :
    ofKeys capacity keys = ⟨keys, []⟩ := by
  induction keys using List.reverseRecOn with
  | nil => rfl
  | append_singleton keys key ih =>
    rw [List.length_append, List.length_singleton] at h
    have hkeys : keys.foldl (insert capacity) ⟨[], []⟩ = ⟨keys, []⟩ := ih (by omega)
    rw [ofKeys, List.foldl_append, hkeys]
    exact if_neg (by simp only; omega)

/-- How many keys follow the last occurrence of a key. -/
def insertionsSince [DecidableEq Key] (key : Key) (keys : List Key) : ℕ :=
  (keys.reverse.takeWhile fun other => other ≠ key).length

/-- A list splits at the last occurrence of a member. -/
theorem exists_split_since [DecidableEq Key] {key : Key} {keys : List Key} (mem : key ∈ keys) :
    ∃ before after, keys = before ++ key :: after ∧ after.length = insertionsSince key keys := by
  induction keys using List.reverseRecOn with
  | nil => cases mem
  | append_singleton keys last ih =>
    by_cases hlast : last = key
    · subst hlast
      exact ⟨keys, [], rfl, by simp [insertionsSince]⟩
    -- The last key is another one, so it only lengthens the tail.
    · have hmem : key ∈ keys := by
        rcases List.mem_append.mp mem with h | h
        · exact h
        · exact absurd (List.mem_singleton.mp h).symm hlast
      obtain ⟨before, after, hsplit, hlength⟩ := ih hmem
      refine ⟨before, after ++ [last], by simp [hsplit], ?_⟩
      simp only [insertionsSince] at hlength
      simp [insertionsSince, hlast, hlength]

/-- **Window.** A key is held until more keys follow it than fill a generation. -/
theorem holds_of_window [DecidableEq Key] (hpos : 0 < capacity) {key : Key} {keys : List Key}
    (mem : key ∈ keys) (window : insertionsSince key keys ≤ capacity) :
    (ofKeys capacity keys).Holds key := by
  obtain ⟨before, after, rfl, hlength⟩ := exists_split_since mem
  exact holds_of_append hpos before key (hlength ▸ window)

end Generations

end Gibberish.Foundation
