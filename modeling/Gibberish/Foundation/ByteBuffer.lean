/-
# Fixed-size byte buffers

A buffer is a vector of bytes. Formats are written by copying slices into a
buffer at fixed offsets and read by copying slices out. A slice read back where it
was written is what was written, and writing elsewhere leaves it alone, so a
round trip of a format is one rewriting step per field.

Integers travel in big-endian order.
-/

import Mathlib.Data.List.GetD
import Mathlib.Tactic.Positivity
import Mathlib.Tactic.Ring
import Mathlib.Data.UInt

set_option autoImplicit false

namespace Gibberish.Foundation

/-- A byte array of fixed length. -/
abbrev Bytes (n : ℕ) := Vector UInt8 n

namespace Bytes

variable {n : ℕ}

/-- All bytes zero. -/
def zero (n : ℕ) : Bytes n := Vector.replicate n 0

/-- The bytes from `off` on, at most `len` of them. -/
def slice (buf : Bytes n) (off len : ℕ) : List UInt8 := (buf.toList.drop off).take len

/-- The same slice as a buffer of its own. -/
def sub (buf : Bytes n) (off len : ℕ) (h : off + len ≤ n) : Bytes len :=
  Vector.ofFn fun i => buf[off + i.val]

/-- Copy `src` into the buffer at `off`; what would fall outside is dropped. -/
def copyFromSlice (buf : Bytes n) (off : ℕ) (src : List UInt8) : Bytes n :=
  Vector.ofFn fun i => if off ≤ i.val then src.getD (i.val - off) buf[i.val] else buf[i.val]

/-- The byte at an index, zero outside the buffer. -/
def byteAt (buf : Bytes n) (i : ℕ) : UInt8 := if h : i < n then buf[i] else 0

/-- Change the byte at one index. -/
def modifyAt (buf : Bytes n) (i : ℕ) (f : UInt8 → UInt8) : Bytes n :=
  Vector.ofFn fun j => if j.val = i then f buf[j.val] else buf[j.val]

@[simp] theorem toList_length (buf : Bytes n) : buf.toList.length = n := by simp

@[simp] theorem getElem_zero {i : ℕ} (h : i < n) : (zero n)[i] = 0 := by simp [zero]

theorem toList_sub (buf : Bytes n) {off len : ℕ} (h : off + len ≤ n) :
    (buf.sub off len h).toList = buf.slice off len := by
  apply List.ext_getElem
  · simp [slice]
    omega
  · intro i hi _
    simp [slice, sub]

/-- A slice of a sub-buffer is a slice of the buffer. -/
theorem slice_sub (buf : Bytes n) {off len off' len' : ℕ} (h : off + len ≤ n)
    (h' : off' + len' ≤ len) :
    (buf.sub off len h).slice off' len' = buf.slice (off + off') len' := by
  have hdrop : ((buf.toList.drop off).take len).drop off' =
      ((buf.toList.drop off).drop off').take (len - off') := List.drop_take
  rw [slice, toList_sub, slice, slice, hdrop, List.drop_drop, List.take_take,
    Nat.min_eq_left (by omega)]

theorem getElem_copyFromSlice (buf : Bytes n) (off : ℕ) (src : List UInt8) {i : ℕ} (hi : i < n) :
    (buf.copyFromSlice off src)[i] =
      if off ≤ i then src.getD (i - off) buf[i] else buf[i] := by
  simp [copyFromSlice]

/-- Bytes before the copied slice stay. -/
theorem getElem_copyFromSlice_before (buf : Bytes n) {off i : ℕ} (src : List UInt8) (hi : i < n)
    (h : i < off) : (buf.copyFromSlice off src)[i] = buf[i] := by
  rw [getElem_copyFromSlice, if_neg (Nat.not_le.mpr h)]

/-- Bytes after the copied slice stay. -/
theorem getElem_copyFromSlice_after (buf : Bytes n) {off i : ℕ} (src : List UInt8) (hi : i < n)
    (h : off + src.length ≤ i) : (buf.copyFromSlice off src)[i] = buf[i] := by
  rw [getElem_copyFromSlice, if_pos (by omega), List.getD_eq_default _ _ (by omega)]

/-- Bytes inside the copied slice come from the source. -/
theorem getElem_copyFromSlice_inside (buf : Bytes n) {off i : ℕ} (src : List UInt8) (hi : i < n)
    (hle : off ≤ i) (hlt : i - off < src.length) :
    (buf.copyFromSlice off src)[i] = src[i - off] := by
  rw [getElem_copyFromSlice, if_pos hle, List.getD_eq_getElem _ _ hlt]

/-- Copying a slice of another buffer to its own place makes the buffers agree there. -/
theorem getElem_copyFromSlice_slice (buf src : Bytes n) {off len i : ℕ} (h : off + len ≤ n)
    (hi : i < n) :
    (buf.copyFromSlice off (src.slice off len))[i] =
      if off ≤ i ∧ i < off + len then src[i] else buf[i] := by
  have hlen : (src.slice off len).length = len := by
    simp [slice]
    omega
  by_cases hin : off ≤ i ∧ i < off + len
  · rw [if_pos hin, getElem_copyFromSlice_inside _ _ _ hin.1 (by omega)]
    have hback : off + (i - off) = i := by omega
    simp [slice, hback]
  · rw [if_neg hin]
    rcases Nat.lt_or_ge i off with hbefore | hafter
    · exact getElem_copyFromSlice_before _ _ _ hbefore
    · exact getElem_copyFromSlice_after _ _ _ (by omega)

/-- Writing a byte and then the bytes behind it writes them all. -/
theorem copyFromSlice_set (buf : Bytes n) (i : Fin n) (b : UInt8)
    (rest : List UInt8) :
    copyFromSlice (buf.set i b i.isLt) (i.val + 1) rest = buf.copyFromSlice i (b :: rest) := by
  ext j hj
  rw [getElem_copyFromSlice, getElem_copyFromSlice, Vector.getElem_set]
  rcases Nat.lt_trichotomy j i.val with hlt | heq | hgt
  · rw [if_neg (by omega), if_neg (by omega), if_neg (by omega)]
  · have hsub : j - i.val = 0 := by omega
    rw [if_neg (by omega), if_pos heq.symm, if_pos (by omega), hsub, List.getD_cons_zero]
  · have hsub : j - i.val = j - (i.val + 1) + 1 := by omega
    rw [if_pos (by omega), if_neg (by omega), if_pos (by omega), hsub, List.getD_cons_succ]

/-- A slice written is read back. -/
theorem slice_copyFromSlice (buf : Bytes n) {off len : ℕ} {src : List UInt8}
    (hlen : src.length = len) (h : off + len ≤ n) :
    (buf.copyFromSlice off src).slice off len = src := by
  subst hlen
  apply List.ext_getElem
  · simp [slice]
    omega
  · intro i hi hsrc
    have hlt : off + i - off < src.length := by omega
    simp only [slice, List.getElem_take, List.getElem_drop, Vector.getElem_toList]
    rw [getElem_copyFromSlice_inside _ _ _ (Nat.le_add_right off i) hlt]
    simp

/-- Writing elsewhere leaves a slice alone. -/
theorem slice_copyFromSlice_of_disjoint (buf : Bytes n) {off len at_ : ℕ} {src : List UInt8}
    (h : off + len ≤ at_ ∨ at_ + src.length ≤ off) :
    (buf.copyFromSlice at_ src).slice off len = buf.slice off len := by
  apply List.ext_getElem
  · simp [slice]
  · intro i hi _
    simp only [slice, List.length_take, List.length_drop, toList_length] at hi
    simp only [slice, List.getElem_take, List.getElem_drop, Vector.getElem_toList]
    rcases h with h | h
    · exact getElem_copyFromSlice_before _ _ _ (by omega)
    · exact getElem_copyFromSlice_after _ _ _ (by omega)

/-- Write several byte strings, each at its offset. -/
def writeAll (buf : Bytes n) (writes : List (ℕ × List UInt8)) : Bytes n :=
  writes.foldl (fun buf w => buf.copyFromSlice w.1 w.2) buf

/-- Later writes leave a slice alone. -/
theorem slice_writeAll_of_after (buf : Bytes n) {off len : ℕ} {writes : List (ℕ × List UInt8)}
    (after : ∀ w ∈ writes, off + len ≤ w.1) :
    (buf.writeAll writes).slice off len = buf.slice off len := by
  induction writes generalizing buf with
  | nil => rfl
  | cons w rest ih =>
    obtain ⟨hw, hrest⟩ := List.forall_mem_cons.mp after
    exact (ih _ hrest).trans (slice_copyFromSlice_of_disjoint buf (Or.inl hw))

/-- What is written in ascending slices is read back from each. -/
theorem slice_writeAll (buf : Bytes n) {writes : List (ℕ × List UInt8)}
    (ascending : writes.Pairwise fun w w' => w.1 + w.2.length ≤ w'.1)
    (fits : ∀ w ∈ writes, w.1 + w.2.length ≤ n) {w : ℕ × List UInt8} (mem : w ∈ writes) :
    (buf.writeAll writes).slice w.1 w.2.length = w.2 := by
  induction writes generalizing buf with
  | nil => cases mem
  | cons first rest ih =>
    obtain ⟨hafter, hascending⟩ := List.pairwise_cons.mp ascending
    obtain ⟨hfirst, hrest⟩ := List.forall_mem_cons.mp fits
    rcases List.mem_cons.mp mem with rfl | hmem
    · exact (slice_writeAll_of_after _ hafter).trans (slice_copyFromSlice buf rfl hfirst)
    · exact ih _ hascending hrest hmem

/-- A slice of one byte. -/
theorem slice_one (buf : Bytes n) {i : ℕ} (h : i < n) : buf.slice i 1 = [buf.byteAt i] := by
  have hlen : i < buf.toList.length := by rwa [toList_length]
  rw [slice, List.take_one_drop_eq_of_lt_length hlen, List.get_eq_getElem, Vector.getElem_toList,
    byteAt, dif_pos h]

@[simp] theorem slice_zero_length (buf : Bytes n) : buf.slice 0 n = buf.toList := by
  simp [slice]

/-- A slice is two shorter slices end to end. -/
theorem slice_add (buf : Bytes n) (off len len' : ℕ) :
    buf.slice off (len + len') = buf.slice off len ++ buf.slice (off + len) len' := by
  rw [slice, slice, slice, List.take_add, List.drop_drop]

/-- A buffer is two slices end to end. -/
theorem slice_append_slice (buf : Bytes n) {off len : ℕ} (h : off + len = n) :
    buf.slice 0 off ++ buf.slice off len = buf.toList := by
  have htail : (buf.toList.drop off).length ≤ len := by
    rw [List.length_drop, toList_length]
    omega
  rw [slice, slice, List.drop_zero, List.take_of_length_le htail, List.take_append_drop]

/-- A buffer filled from another one's bytes is that buffer. -/
@[simp] theorem copyFromSlice_toList (buf src : Bytes n) : buf.copyFromSlice 0 src.toList = src := by
  ext i hi
  rw [getElem_copyFromSlice_inside _ _ _ (Nat.zero_le i) (by simpa using hi)]
  simp

@[simp] theorem byteAt_zero (i : ℕ) : (zero n).byteAt i = 0 := by
  simp [byteAt]

/-- A buffer lists its bytes by index. -/
theorem toList_eq_map_byteAt (buf : Bytes n) : buf.toList = (List.range n).map buf.byteAt := by
  apply List.ext_getElem
  · simp
  · intro i hi _
    have hlt : i < n := by simpa using hi
    simp [byteAt, hlt]

theorem byteAt_modifyAt_self (buf : Bytes n) {i : ℕ} (f : UInt8 → UInt8) (hi : i < n) :
    (buf.modifyAt i f).byteAt i = f (buf.byteAt i) := by
  simp [byteAt, modifyAt, hi]

theorem byteAt_modifyAt_of_ne (buf : Bytes n) {i j : ℕ} (f : UInt8 → UInt8) (h : j ≠ i) :
    (buf.modifyAt i f).byteAt j = buf.byteAt j := by
  simp [byteAt, modifyAt, h]

/-- A slice copied to the front of a zeroed buffer is padded with zeros. -/
theorem toList_zero_copyFromSlice {src : List UInt8} (h : src.length ≤ n) :
    ((zero n).copyFromSlice 0 src).toList = src ++ List.replicate (n - src.length) 0 := by
  apply List.ext_getElem
  · simp
    omega
  · intro i hi hi'
    rw [Vector.getElem_toList, getElem_copyFromSlice, if_pos (Nat.zero_le i), Nat.sub_zero]
    by_cases hlt : i < src.length
    · rw [List.getD_eq_getElem _ _ hlt, List.getElem_append_left hlt]
    · rw [List.getD_eq_default _ _ (Nat.not_lt.mp hlt),
        List.getElem_append_right (Nat.not_lt.mp hlt)]
      simp

end Bytes

/-! ### Big-endian integers -/

/-- The `k` low-order bytes of a number, most significant first. -/
def beBytes : ℕ → ℕ → List UInt8
  | 0, _ => []
  | k + 1, x => UInt8.ofNat (x / 256 ^ k) :: beBytes k x

/-- The number a big-endian byte string denotes. -/
def beNat : List UInt8 → ℕ
  | [] => 0
  | b :: rest => b.toNat * 256 ^ rest.length + beNat rest

@[simp] theorem length_beBytes (k x : ℕ) : (beBytes k x).length = k := by
  induction k with
  | zero => rfl
  | succ k ih => simp [beBytes, ih]

theorem beNat_lt (bytes : List UInt8) : beNat bytes < 256 ^ bytes.length := by
  induction bytes with
  | nil => simp [beNat]
  | cons b rest ih =>
    have hb : b.toNat < 256 := b.toNat_lt
    simp only [beNat, List.length_cons, Nat.pow_succ]
    calc b.toNat * 256 ^ rest.length + beNat rest
        < b.toNat * 256 ^ rest.length + 256 ^ rest.length := Nat.add_lt_add_left ih _
      _ = (b.toNat + 1) * 256 ^ rest.length := by ring
      _ ≤ 256 * 256 ^ rest.length := Nat.mul_le_mul_right _ hb
      _ = 256 ^ rest.length * 256 := Nat.mul_comm _ _

/-- Encoding and decoding gives the number back, up to the width. -/
theorem beNat_beBytes (k x : ℕ) : beNat (beBytes k x) = x % 256 ^ k := by
  induction k with
  | zero => simp [beNat, beBytes, Nat.mod_one]
  | succ k ih =>
    simp only [beBytes, beNat, length_beBytes, ih, UInt8.toNat_ofNat']
    have hbyte : 2 ^ 8 = 256 := rfl
    rw [hbyte, Nat.pow_succ, Nat.mod_mul, Nat.add_comm, Nat.mul_comm (256 ^ k)]

theorem beNat_beBytes_of_lt {k x : ℕ} (h : x < 256 ^ k) : beNat (beBytes k x) = x := by
  rw [beNat_beBytes, Nat.mod_eq_of_lt h]

/-- Decoding and encoding gives the bytes back. -/
theorem beBytes_beNat (bytes : List UInt8) : beBytes bytes.length (beNat bytes) = bytes := by
  have hhigh : ∀ (k x y : ℕ), beBytes k (x * 256 ^ k + y) = beBytes k y := by
    intro k
    induction k with
    | zero => intro x y; rfl
    | succ k ih =>
      intro x y
      have hrec := ih (x * 256) y
      have hpow : x * 256 ^ (k + 1) = x * 256 * 256 ^ k := by ring
      simp only [beBytes, hpow, hrec, List.cons.injEq, and_true]
      rw [Nat.mul_comm (x * 256), Nat.mul_add_div (Nat.pos_of_ne_zero (by positivity))]
      apply UInt8.toNat_inj.mp
      simp
  induction bytes with
  | nil => rfl
  | cons b rest ih =>
    simp only [List.length_cons, beBytes, beNat, hhigh, ih, List.cons.injEq, and_true]
    rw [Nat.mul_comm, Nat.mul_add_div (Nat.pos_of_ne_zero (by positivity)),
      Nat.div_eq_of_lt (beNat_lt rest)]
    simp

/-- `u32::to_be_bytes`. -/
def u32ToBeBytes (x : UInt32) : List UInt8 := beBytes 4 x.toNat

/-- `u32::from_be_bytes`. -/
def u32FromBeBytes (bytes : List UInt8) : UInt32 := UInt32.ofNat (beNat bytes)

/-- `u64::to_be_bytes`. -/
def u64ToBeBytes (x : UInt64) : List UInt8 := beBytes 8 x.toNat

/-- `u64::from_be_bytes`. -/
def u64FromBeBytes (bytes : List UInt8) : UInt64 := UInt64.ofNat (beNat bytes)

/-- `u16::to_be_bytes`. -/
def u16ToBeBytes (x : UInt16) : List UInt8 := beBytes 2 x.toNat

/-- `u16::from_be_bytes`. -/
def u16FromBeBytes (bytes : List UInt8) : UInt16 := UInt16.ofNat (beNat bytes)

@[simp] theorem length_u16ToBeBytes (x : UInt16) : (u16ToBeBytes x).length = 2 := length_beBytes 2 _

@[simp] theorem length_u32ToBeBytes (x : UInt32) : (u32ToBeBytes x).length = 4 := length_beBytes 4 _

@[simp] theorem length_u64ToBeBytes (x : UInt64) : (u64ToBeBytes x).length = 8 := length_beBytes 8 _

@[simp] theorem u16FromBeBytes_toBeBytes (x : UInt16) : u16FromBeBytes (u16ToBeBytes x) = x := by
  rw [u16FromBeBytes, u16ToBeBytes, beNat_beBytes_of_lt x.toNat_lt, UInt16.ofNat_toNat]

@[simp] theorem u32FromBeBytes_toBeBytes (x : UInt32) : u32FromBeBytes (u32ToBeBytes x) = x := by
  rw [u32FromBeBytes, u32ToBeBytes, beNat_beBytes_of_lt x.toNat_lt, UInt32.ofNat_toNat]

@[simp] theorem u64FromBeBytes_toBeBytes (x : UInt64) : u64FromBeBytes (u64ToBeBytes x) = x := by
  rw [u64FromBeBytes, u64ToBeBytes, beNat_beBytes_of_lt x.toNat_lt, UInt64.ofNat_toNat]

/-- `u32::saturating_add(1)` stops at the largest number. -/
theorem toNat_saturatingAdd_one (x : UInt32) :
    (if x = 0xFFFFFFFF then (0xFFFFFFFF : UInt32) else x + 1).toNat =
      min (x.toNat + 1) (2 ^ 32 - 1) := by
  have hlt := x.toNat_lt
  split
  · next hmax =>
    rw [hmax]
    rfl
  · next hmax =>
    have hne : x.toNat ≠ 2 ^ 32 - 1 := fun heq => hmax (UInt32.toNat_inj.mp heq)
    rw [UInt32.toNat_add, UInt32.toNat_one]
    omega

/-- Two bytes read as a number are written back. -/
theorem u16ToBeBytes_fromBeBytes {bytes : List UInt8} (h : bytes.length = 2) :
    u16ToBeBytes (u16FromBeBytes bytes) = bytes := by
  have hlt : beNat bytes < 2 ^ 16 := (beNat_lt bytes).trans_eq (by rw [h]; rfl)
  rw [u16ToBeBytes, u16FromBeBytes, UInt16.toNat_ofNat_of_lt' hlt, ← h, beBytes_beNat]

theorem u32ToBeBytes_fromBeBytes {bytes : List UInt8} (h : bytes.length = 4) :
    u32ToBeBytes (u32FromBeBytes bytes) = bytes := by
  have hlt : beNat bytes < 2 ^ 32 := (beNat_lt bytes).trans_eq (by rw [h]; rfl)
  rw [u32ToBeBytes, u32FromBeBytes, UInt32.toNat_ofNat_of_lt' hlt, ← h, beBytes_beNat]

theorem u64ToBeBytes_fromBeBytes {bytes : List UInt8} (h : bytes.length = 8) :
    u64ToBeBytes (u64FromBeBytes bytes) = bytes := by
  have hlt : beNat bytes < 2 ^ 64 := (beNat_lt bytes).trans_eq (by rw [h]; rfl)
  rw [u64ToBeBytes, u64FromBeBytes, UInt64.toNat_ofNat_of_lt' hlt, ← h, beBytes_beNat]

/-- Different words have different encodings. -/
theorem u32ToBeBytes_injective : Function.Injective u32ToBeBytes := by
  intro x y h
  rw [← u32FromBeBytes_toBeBytes x, h, u32FromBeBytes_toBeBytes]

theorem u64ToBeBytes_injective : Function.Injective u64ToBeBytes := by
  intro x y h
  rw [← u64FromBeBytes_toBeBytes x, h, u64FromBeBytes_toBeBytes]

end Gibberish.Foundation
