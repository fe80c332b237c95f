/-
# A SACK as a set of indices

Whatever is marked as missing or as received, in whatever order, and however often the
SACK is written and read back in between, it is the set of the indices of its window that
were last marked as missing. Its four readers agree on that set.
-/

import Mathlib.Data.Finset.Sort
import Mathlib.Order.Interval.Finset.Nat
import Gibberish.Protocol.Sack

set_option autoImplicit false

namespace Gibberish.Protocol

open Gibberish.Foundation

namespace SackPayload

/-- Mark a chunk index as received; indices outside the window are ignored. -/
def markReceived (sack : SackPayload) (chunkIdx : ℕ) : SackPayload :=
  let base := sack.baseChunk.toNat
  if chunkIdx ≥ base ∧ chunkIdx < base + sackBitmaskBytes * 8 then
    let offset := chunkIdx - base
    { sack with bitmask := sack.bitmask.modifyAt (offset / 8) (· &&& ~~~(bit (offset % 8))) }
  else sack

/-- The index is in the window and marked as missing. -/
def isMissing (sack : SackPayload) (chunkIdx : ℕ) : Bool :=
  let base := sack.baseChunk.toNat
  if chunkIdx ≥ base ∧ chunkIdx < base + sackBitmaskBytes * 8 then
    let offset := chunkIdx - base
    sack.bitmask.byteAt (offset / 8) &&& bit (offset % 8) ≠ 0
  else false

/-- `u8::count_ones`. -/
def countOnes (byte : UInt8) : ℕ := (List.range 8).countP fun k => byte.toNat.testBit k

def missingCount (sack : SackPayload) : ℕ := (sack.bitmask.toList.map countOnes).sum

def isFullAck (sack : SackPayload) : Bool := sack.bitmask.toList.all (· == 0)

/-! ### Marking -/

@[simp] theorem baseChunk_markReceived (sack : SackPayload) (i : ℕ) :
    (sack.markReceived i).baseChunk = sack.baseChunk := by
  simp only [markReceived]
  split <;> rfl

/-- A byte with one bit cleared. -/
theorem testBit_and_not_bit (byte : UInt8) {j k : ℕ} (hj : j < 8) (hk : k < 8) :
    (byte &&& ~~~(bit k)).toNat.testBit j = if k = j then false else byte.toNat.testBit j := by
  have hall : ∀ j k : Fin 8, (~~~(bit k.val)).toNat.testBit j.val = decide (k.val ≠ j.val) := by
    decide
  rw [UInt8.toNat_and, Nat.testBit_and, hall ⟨j, hj⟩ ⟨k, hk⟩]
  by_cases h : k = j <;> simp [h]

/-- Marking an index of the window as received clears its bit and no other. -/
theorem isMarked_markReceived (sack : SackPayload) (i : ℕ) {offset : ℕ} (hoffset : offset < 512) :
    (sack.markReceived i).isMarked offset =
      if i = sack.baseChunk.toNat + offset then false else sack.isMarked offset := by
  simp only [markReceived]
  split
  · next hwindow =>
    rw [isMarked_modifyAt sack (sub_base_lt hwindow)
      fun byte j hj => testBit_and_not_bit byte hj (Nat.mod_lt _ (by decide))]
    simp only [sub_base_eq_iff hwindow.1]
  · next hwindow =>
    have hne : i ≠ sack.baseChunk.toNat + offset := fun heq =>
      hwindow (heq ▸ base_add_mem_window hoffset)
    rw [if_neg hne]

/-! ### Reading -/

/-- Being missing is a bit of the mask, by its offset from the base. -/
theorem isMissing_iff (sack : SackPayload) (i : ℕ) :
    sack.isMissing i = true ↔
      ∃ offset < 512, i = sack.baseChunk.toNat + offset ∧ sack.isMarked offset = true := by
  have hbit : ∀ off, sack.bitmask.byteAt (off / 8) &&& bit (off % 8) ≠ 0 ↔
      sack.isMarked off = true :=
    fun off => and_bit_ne_zero _ (Nat.mod_lt off (by decide))
  simp only [isMissing]
  split
  · next hwindow =>
    rw [decide_eq_true_iff, hbit]
    constructor
    · intro hmarked
      exact ⟨_, sub_base_lt hwindow, (sub_base_eq_iff hwindow.1).mp rfl, hmarked⟩
    · rintro ⟨offset, -, heq, hmarked⟩
      rwa [(sub_base_eq_iff hwindow.1).mpr heq]
  · next hwindow =>
    simp only [Bool.false_eq_true, false_iff]
    rintro ⟨offset, hoffset, rfl, -⟩
    exact hwindow (base_add_mem_window hoffset)

theorem mem_forEachMissing (sack : SackPayload) (i : ℕ) :
    i ∈ sack.forEachMissing ↔ sack.isMissing i = true := by
  rw [isMissing_iff, forEachMissing_eq, List.mem_map]
  constructor
  · rintro ⟨offset, hmem, rfl⟩
    obtain ⟨hrange, hmarked⟩ := List.mem_filter.mp hmem
    exact ⟨offset, List.mem_range.mp hrange, rfl, hmarked⟩
  · rintro ⟨offset, hoffset, rfl, hmarked⟩
    exact ⟨offset, List.mem_filter.mpr ⟨List.mem_range.mpr hoffset, hmarked⟩, rfl⟩

/-- The indices are visited in ascending order. -/
theorem pairwise_forEachMissing (sack : SackPayload) : sack.forEachMissing.Pairwise (· < ·) := by
  rw [forEachMissing_eq, List.pairwise_map]
  exact (List.pairwise_lt_range.filter _).imp fun hlt => Nat.add_lt_add_left hlt _

/-- As many bits are set in a byte as iteration visits there. -/
theorem countOnes_eq_length (byte : UInt8) :
    countOnes byte = ((List.range 8).filter fun k => byte &&& bit k ≠ 0).length := by
  rw [countOnes, List.countP_eq_length_filter]
  congr 1
  apply List.filter_congr
  intro k hk
  rw [Bool.eq_iff_iff, decide_eq_true_iff]
  exact (and_bit_ne_zero byte (List.mem_range.mp hk)).symm

theorem countOnes_eq_zero {byte : UInt8} : countOnes byte = 0 ↔ byte = 0 := by
  constructor
  · intro hcount
    apply UInt8.toNat_inj.mp
    apply Nat.eq_of_testBit_eq
    intro k
    rw [UInt8.toNat_zero, Nat.zero_testBit]
    by_cases hk : k < 8
    · exact Bool.eq_false_iff.mpr (List.countP_eq_zero.mp hcount k (List.mem_range.mpr hk))
    · -- A byte has eight bits.
      apply Nat.testBit_lt_two_pow
      exact byte.toNat_lt.trans_le (Nat.pow_le_pow_right (by decide) (Nat.not_lt.mp hk))
  · rintro rfl
    rfl

/-- The bits counted byte by byte are the indices visited. -/
theorem missingCount_eq (sack : SackPayload) :
    sack.missingCount = sack.forEachMissing.length := by
  rw [missingCount, forEachMissing, List.length_flatMap, Bytes.toList_eq_map_byteAt, List.map_map]
  congr 1
  apply List.map_congr_left
  intro byteIdx _
  simp only [Function.comp_apply]
  split
  · next hzero =>
    rw [hzero]
    rfl
  · rw [List.length_map, countOnes_eq_length]

theorem isFullAck_iff (sack : SackPayload) : sack.isFullAck = true ↔ sack.missingCount = 0 := by
  rw [isFullAck, missingCount, List.all_eq_true, List.sum_eq_zero_iff, List.forall_mem_map]
  simp only [beq_iff_eq, countOnes_eq_zero]

end SackPayload

/-! ### Histories -/

/-- What is done with a SACK: marking, or writing it and reading it back. -/
inductive SackOp where
  | markMissing (chunkIdx : ℕ)
  | markReceived (chunkIdx : ℕ)
  | reread
  deriving DecidableEq

namespace SackOp

def apply (sack : SackPayload) : SackOp → SackPayload
  | .markMissing chunkIdx => sack.markMissing chunkIdx
  | .markReceived chunkIdx => sack.markReceived chunkIdx
  | .reread => .deserialize sack.serialize

/-- The operation marks this index. -/
def Marks (i : ℕ) (op : SackOp) : Prop := op = .markMissing i ∨ op = .markReceived i

instance (i : ℕ) : DecidablePred (Marks i) := fun op =>
  inferInstanceAs (Decidable (op = .markMissing i ∨ op = .markReceived i))

/-- The last mark on an index. -/
def lastMark (ops : List SackOp) (i : ℕ) : Option SackOp := (ops.filter (Marks i)).getLast?

/-- The indices of the window whose last mark is that they are missing. -/
def missingSet (base : UInt16) (ops : List SackOp) : Finset ℕ :=
  (Finset.Ico base.toNat (base.toNat + 512)).filter fun i => lastMark ops i = some (.markMissing i)

theorem lastMark_append (ops : List SackOp) (op : SackOp) (i : ℕ) :
    lastMark (ops ++ [op]) i = if Marks i op then some op else lastMark ops i := by
  rw [lastMark, List.filter_append]
  by_cases h : Marks i op
  · simp [h]
  · simp [h, lastMark]

/-- The SACK after some operations. -/
def run (receiver sender : UInt32) (base : UInt16) (ops : List SackOp) : SackPayload :=
  ops.foldl apply (.new receiver sender base)

variable (receiver sender : UInt32) (base : UInt16)

theorem run_append (ops : List SackOp) (op : SackOp) :
    run receiver sender base (ops ++ [op]) = apply (run receiver sender base ops) op := by
  rw [run, List.foldl_append]
  rfl

theorem baseChunk_apply (sack : SackPayload) (op : SackOp) :
    (apply sack op).baseChunk = sack.baseChunk := by
  cases op with
  | markMissing chunkIdx => exact SackPayload.baseChunk_markMissing sack chunkIdx
  | markReceived chunkIdx => exact SackPayload.baseChunk_markReceived sack chunkIdx
  | reread => exact congrArg SackPayload.baseChunk (SackPayload.deserialize_serialize sack)

theorem baseChunk_run (ops : List SackOp) : (run receiver sender base ops).baseChunk = base := by
  induction ops using List.reverseRecOn with
  | nil => rfl
  | append_singleton ops op ih => rw [run_append, baseChunk_apply, ih]

/-- **Step lemma.** An operation sets a bit, clears it, or leaves it alone. -/
theorem isMarked_apply (sack : SackPayload) (op : SackOp) {offset : ℕ} (hoffset : offset < 512) :
    (apply sack op).isMarked offset =
      if Marks (sack.baseChunk.toNat + offset) op then
        decide (op = .markMissing (sack.baseChunk.toNat + offset))
      else sack.isMarked offset := by
  cases op with
  | markMissing chunkIdx =>
    rw [apply, SackPayload.isMarked_markMissing sack chunkIdx hoffset]
    by_cases h : chunkIdx = sack.baseChunk.toNat + offset <;> simp [Marks, h]
  | markReceived chunkIdx =>
    rw [apply, SackPayload.isMarked_markReceived sack chunkIdx hoffset]
    by_cases h : chunkIdx = sack.baseChunk.toNat + offset <;> simp [Marks, h]
  | reread => simp [apply, Marks, SackPayload.deserialize_serialize]

/-- **Run lemma.** After any operations a bit is set when the last mark on its index set it. -/
theorem isMarked_run (ops : List SackOp) {offset : ℕ} (hoffset : offset < 512) :
    (run receiver sender base ops).isMarked offset =
      decide (lastMark ops (base.toNat + offset) = some (.markMissing (base.toNat + offset))) := by
  induction ops using List.reverseRecOn with
  | nil => simp [run, lastMark]
  | append_singleton ops op ih =>
    rw [run_append, isMarked_apply _ op hoffset, baseChunk_run, ih, lastMark_append]
    by_cases h : Marks (base.toNat + offset) op
    · simp [h]
    · simp [h]

theorem isMissing_run (ops : List SackOp) (i : ℕ) :
    (run receiver sender base ops).isMissing i = true ↔ i ∈ missingSet base ops := by
  rw [SackPayload.isMissing_iff, missingSet, Finset.mem_filter, Finset.mem_Ico, baseChunk_run]
  constructor
  · rintro ⟨offset, hoffset, rfl, hmarked⟩
    rw [isMarked_run _ _ _ _ hoffset, decide_eq_true_iff] at hmarked
    exact ⟨⟨Nat.le_add_right _ _, Nat.add_lt_add_left hoffset _⟩, hmarked⟩
  · rintro ⟨⟨hle, hlt⟩, hlast⟩
    obtain ⟨offset, rfl⟩ := Nat.exists_eq_add_of_le hle
    have hoffset : offset < 512 := Nat.lt_of_add_lt_add_left hlt
    refine ⟨offset, hoffset, rfl, ?_⟩
    rw [isMarked_run _ _ _ _ hoffset, hlast, decide_eq_true rfl]

/-- Iteration lists the set in ascending order. -/
theorem forEachMissing_run (ops : List SackOp) :
    (run receiver sender base ops).forEachMissing = (missingSet base ops).sort := by
  have hpairs := SackPayload.pairwise_forEachMissing (run receiver sender base ops)
  have hset : (run receiver sender base ops).forEachMissing.toFinset = missingSet base ops := by
    ext i
    rw [List.mem_toFinset, SackPayload.mem_forEachMissing, isMissing_run]
  have hsorted := (List.toFinset_sort (· ≤ ·) (hpairs.imp ne_of_lt)).mpr (hpairs.imp le_of_lt)
  rw [← hset, hsorted]

/-- **A faithful set.** After any marks, on any indices, with the SACK written and read back
at any points, an index is missing exactly when it is in the window and was last marked as
missing; iteration visits these indices once each, in ascending order; they are counted,
and the acknowledgment is full when there are none. -/
theorem sack_faithful_set (ops : List SackOp) :
    let sack := run receiver sender base ops
    (∀ i, sack.isMissing i = true ↔
        (base.toNat ≤ i ∧ i < base.toNat + 512) ∧ lastMark ops i = some (.markMissing i)) ∧
      sack.forEachMissing = (missingSet base ops).sort ∧
      sack.missingCount = (missingSet base ops).card ∧
      (sack.isFullAck = true ↔ missingSet base ops = ∅) := by
  have hcount : (run receiver sender base ops).missingCount = (missingSet base ops).card := by
    rw [SackPayload.missingCount_eq, forEachMissing_run, Finset.length_sort]
  refine ⟨fun i => ?_, forEachMissing_run receiver sender base ops, hcount, ?_⟩
  · rw [isMissing_run, missingSet, Finset.mem_filter, Finset.mem_Ico]
  · rw [SackPayload.isFullAck_iff, hcount, Finset.card_eq_zero]

end SackOp

end Gibberish.Protocol
