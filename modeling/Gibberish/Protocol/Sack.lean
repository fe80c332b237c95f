/-
# Selective acknowledgments

A SACK carries a window of 512 chunk indices as a bitmask in which the missing
ones are set. The mask is a set: marking adds an index, and iteration yields the
marked indices in ascending order. Reading back a written SACK gives it unchanged.
-/

import Gibberish.Protocol.Frame
import Mathlib.Data.Nat.Bitwise

set_option autoImplicit false

namespace Gibberish.Protocol

open Gibberish.Foundation

/-- Bytes of the bitmask. -/
abbrev sackBitmaskBytes : ℕ := 64

structure SackPayload where
  receiverNodeId : UInt32
  senderNodeId : UInt32
  baseChunk : UInt16
  bitmask : Bytes sackBitmaskBytes
  deriving DecidableEq

namespace SackPayload

def new (receiverNodeId senderNodeId : UInt32) (baseChunk : UInt16) : SackPayload :=
  ⟨receiverNodeId, senderNodeId, baseChunk, .zero sackBitmaskBytes⟩

/-- The byte with one bit set. -/
def bit (k : ℕ) : UInt8 := 1 <<< UInt8.ofNat k

/-- Mark a chunk index as missing; indices outside the window are ignored. -/
def markMissing (sack : SackPayload) (chunkIdx : ℕ) : SackPayload :=
  let base := sack.baseChunk.toNat
  if chunkIdx ≥ base ∧ chunkIdx < base + sackBitmaskBytes * 8 then
    let offset := chunkIdx - base
    { sack with bitmask := sack.bitmask.modifyAt (offset / 8) (· ||| bit (offset % 8)) }
  else sack

/-- The indices `for_each_missing` visits, in its order. -/
def forEachMissing (sack : SackPayload) : List ℕ :=
  (List.range sackBitmaskBytes).flatMap fun byteIdx =>
    let byte := sack.bitmask.byteAt byteIdx
    if byte = 0 then []
    else ((List.range 8).filter fun k => byte &&& bit k ≠ 0).map fun k =>
      sack.baseChunk.toNat + byteIdx * 8 + k

/-- Write the SACK into a packet payload. -/
def serialize (sack : SackPayload) : Bytes ciphertextLen :=
  ((((Bytes.zero ciphertextLen).copyFromSlice 0 (u32ToBeBytes sack.receiverNodeId)).copyFromSlice 4
    (u32ToBeBytes sack.senderNodeId)).copyFromSlice 8 (u16ToBeBytes sack.baseChunk)).copyFromSlice
    10 sack.bitmask.toList

/-- Read a SACK from a packet payload. -/
def deserialize (buf : Bytes ciphertextLen) : SackPayload where
  receiverNodeId := u32FromBeBytes (buf.slice 0 4)
  senderNodeId := u32FromBeBytes (buf.slice 4 4)
  baseChunk := u16FromBeBytes (buf.slice 8 2)
  bitmask := buf.sub 10 sackBitmaskBytes (by decide)

/-- Reading back a written SACK gives the SACK. -/
theorem deserialize_serialize (sack : SackPayload) : deserialize sack.serialize = sack := by
  have hreceiver : sack.serialize.slice 0 4 = u32ToBeBytes sack.receiverNodeId := by
    simp only [serialize]
    iterate 3 rw [Bytes.slice_copyFromSlice_of_disjoint _ (by simp)]
    exact Bytes.slice_copyFromSlice _ (by simp) (by decide)
  have hsender : sack.serialize.slice 4 4 = u32ToBeBytes sack.senderNodeId := by
    simp only [serialize]
    iterate 2 rw [Bytes.slice_copyFromSlice_of_disjoint _ (by simp)]
    exact Bytes.slice_copyFromSlice _ (by simp) (by decide)
  have hbase : sack.serialize.slice 8 2 = u16ToBeBytes sack.baseChunk := by
    simp only [serialize]
    rw [Bytes.slice_copyFromSlice_of_disjoint _ (by simp)]
    exact Bytes.slice_copyFromSlice _ (by simp) (by decide)
  have hmask : sack.serialize.sub 10 sackBitmaskBytes (by decide) = sack.bitmask := by
    apply Vector.toList_inj.mp
    rw [Bytes.toList_sub]
    exact Bytes.slice_copyFromSlice _ (by simp) (by decide)
  simp only [deserialize, hreceiver, hsender, hbase, hmask, u32FromBeBytes_toBeBytes,
    u16FromBeBytes_toBeBytes]

/-! ### The mask as a set -/

/-- The bit at an offset from the base is set. -/
def isMarked (sack : SackPayload) (offset : ℕ) : Bool :=
  (sack.bitmask.byteAt (offset / 8)).toNat.testBit (offset % 8)

theorem toNat_bit {k : ℕ} (h : k < 8) : (bit k).toNat = 2 ^ k := by
  have hall : ∀ k : Fin 8, (bit k.val).toNat = 2 ^ k.val := by decide
  exact hall ⟨k, h⟩

/-- A byte meets a one-bit mask exactly when that bit is set. -/
theorem and_bit_ne_zero (byte : UInt8) {k : ℕ} (h : k < 8) :
    byte &&& bit k ≠ 0 ↔ byte.toNat.testBit k = true := by
  rw [ne_eq, ← UInt8.toNat_inj, UInt8.toNat_and, toNat_bit h, Nat.and_two_pow]
  cases byte.toNat.testBit k <;> simp

@[simp] theorem isMarked_new (receiver sender : UInt32) (base : UInt16) (offset : ℕ) :
    (new receiver sender base).isMarked offset = false := by
  simp [isMarked, new]

@[simp] theorem baseChunk_markMissing (sack : SackPayload) (i : ℕ) :
    (sack.markMissing i).baseChunk = sack.baseChunk := by
  simp only [markMissing]
  split <;> rfl

/-- There are no bits beyond the mask. -/
theorem isMarked_of_le (sack : SackPayload) {offset : ℕ} (h : 512 ≤ offset) :
    sack.isMarked offset = false := by
  have hbyte : ¬ offset / 8 < sackBitmaskBytes := by
    show ¬ offset / 8 < 64
    omega
  rw [isMarked, Bytes.byteAt, dif_neg hbyte]
  simp

/-- A byte with one bit set. -/
theorem testBit_or_bit (byte : UInt8) {j k : ℕ} (hk : k < 8) :
    (byte ||| bit k).toNat.testBit j = if k = j then true else byte.toNat.testBit j := by
  rw [UInt8.toNat_or, toNat_bit hk, Nat.testBit_or, Nat.testBit_two_pow]
  by_cases h : k = j <;> simp [h]

/-- Changing one bit of one byte. -/
theorem isMarked_modifyAt (sack : SackPayload) {off : ℕ} (hoff : off < 512) {f : UInt8 → UInt8}
    {v : Bool} (hf : ∀ byte j, j < 8 →
      (f byte).toNat.testBit j = if off % 8 = j then v else byte.toNat.testBit j) (offset : ℕ) :
    isMarked { sack with bitmask := sack.bitmask.modifyAt (off / 8) f } offset =
      if off = offset then v else sack.isMarked offset := by
  have hbyte : off / 8 < sackBitmaskBytes := Nat.div_lt_of_lt_mul hoff
  by_cases hsame : offset / 8 = off / 8
  · -- Within one byte, the offset is given by the position of its bit.
    have hbit : off % 8 = offset % 8 ↔ off = offset := by omega
    rw [isMarked, isMarked, hsame, Bytes.byteAt_modifyAt_self _ _ hbyte,
      hf _ _ (Nat.mod_lt _ (by decide))]
    simp only [hbit]
  · have hne : off ≠ offset := fun heq => hsame (by rw [heq])
    rw [if_neg hne, isMarked, Bytes.byteAt_modifyAt_of_ne _ _ hsame, isMarked]

/-- An index and an offset stand for the same place of the window. -/
theorem sub_base_eq_iff {i base offset : ℕ} (hle : base ≤ i) :
    i - base = offset ↔ i = base + offset := by
  omega

theorem sub_base_lt {i base : ℕ} (h : i ≥ base ∧ i < base + sackBitmaskBytes * 8) :
    i - base < 512 := by
  have hlt : i < base + 512 := h.2
  omega

theorem base_add_mem_window {base offset : ℕ} (h : offset < 512) :
    base + offset ≥ base ∧ base + offset < base + sackBitmaskBytes * 8 :=
  ⟨Nat.le_add_right _ _, Nat.add_lt_add_left h _⟩

/-- Marking an index of the window sets its bit and no other. -/
theorem isMarked_markMissing (sack : SackPayload) (i : ℕ) {offset : ℕ} (hoffset : offset < 512) :
    (sack.markMissing i).isMarked offset =
      if i = sack.baseChunk.toNat + offset then true else sack.isMarked offset := by
  simp only [markMissing]
  split
  · next hwindow =>
    rw [isMarked_modifyAt sack (sub_base_lt hwindow)
      fun byte j _ => testBit_or_bit byte (Nat.mod_lt _ (by decide))]
    simp only [sub_base_eq_iff hwindow.1]
  · next hwindow =>
    have hne : i ≠ sack.baseChunk.toNat + offset := fun heq =>
      hwindow (heq ▸ base_add_mem_window hoffset)
    rw [if_neg hne]

/-- Marking several indices one after the other. -/
theorem isMarked_foldl_markMissing (indices : List ℕ) (sack : SackPayload) (offset : ℕ)
    (hbase : sack.baseChunk = 0) (hall : ∀ i ∈ indices, i < 512) :
    (indices.foldl markMissing sack).isMarked offset =
      (sack.isMarked offset || decide (offset ∈ indices)) := by
  by_cases hoffset : offset < 512
  · induction indices generalizing sack with
    | nil => simp
    | cons i rest ih =>
      have hrest : ∀ j ∈ rest, j < 512 := fun j hj => hall j (List.mem_cons_of_mem i hj)
      rw [List.foldl_cons, ih _ (by simpa using hbase) hrest, isMarked_markMissing sack i hoffset,
        hbase, UInt16.toNat_zero, Nat.zero_add]
      -- The first index or one of the rest.
      by_cases h : i = offset
      · simp [h]
      · simp [h, Ne.symm h]
  · have hnotMem : offset ∉ indices := fun hmem => hoffset (hall offset hmem)
    rw [isMarked_of_le _ (Nat.not_lt.mp hoffset), isMarked_of_le _ (Nat.not_lt.mp hoffset)]
    simp [hnotMem]

/-- Blocks of eight consecutive numbers are consecutive numbers. -/
private theorem range_blocks (m : ℕ) :
    ((List.range m).flatMap fun a => (List.range 8).map fun k => a * 8 + k) =
      List.range (m * 8) := by
  induction m with
  | zero => rfl
  | succ m ih =>
    have hsplit : List.range (m + 1) = List.range m ++ [m] := List.range_succ
    rw [hsplit, List.flatMap_append, ih, Nat.succ_mul, List.range_add]
    simp

/-- **Iteration is exact.** It visits the marked offsets in ascending order, each
one shifted by the base. -/
theorem forEachMissing_eq (sack : SackPayload) :
    sack.forEachMissing =
      ((List.range 512).filter sack.isMarked).map fun offset => sack.baseChunk.toNat + offset := by
  have hblock : ∀ byteIdx,
      (let byte := sack.bitmask.byteAt byteIdx
       if byte = 0 then []
       else ((List.range 8).filter fun k => byte &&& bit k ≠ 0).map fun k =>
         sack.baseChunk.toNat + byteIdx * 8 + k) =
      (((List.range 8).map fun k => byteIdx * 8 + k).filter sack.isMarked).map
        fun offset => sack.baseChunk.toNat + offset := by
    intro byteIdx
    have hfilter : (List.range 8).filter
          (fun k => sack.bitmask.byteAt byteIdx &&& bit k ≠ 0) =
        (List.range 8).filter (sack.isMarked ∘ fun k => byteIdx * 8 + k) := by
      apply List.filter_congr
      intro k hk
      have hlt : k < 8 := List.mem_range.mp hk
      have hdiv : (byteIdx * 8 + k) / 8 = byteIdx := by omega
      have hmod : (byteIdx * 8 + k) % 8 = k := by omega
      rw [Function.comp_apply, isMarked, hdiv, hmod]
      exact decide_eq_true_iff.trans (and_bit_ne_zero _ hlt) |> Bool.eq_iff_iff.mpr
    rw [List.filter_map, List.map_map, ← hfilter]
    simp only
    -- A zero byte is skipped, and has no bit to visit.
    split
    · next hzero => simp [hzero]
    · exact List.map_congr_left fun k _ => by simp [Nat.add_assoc]
  rw [forEachMissing, List.flatMap_congr fun a _ => hblock a, ← List.map_flatMap,
    ← List.filter_flatMap, range_blocks sackBitmaskBytes]
  rfl

end SackPayload

end Gibberish.Protocol
