/-
# The checksum of card commands

A command to the card goes out with a seven-bit checksum and a stop bit behind it. The
loop keeps the checksum one place up in its byte, so that it runs the register of the
generator times `X`; what it computes is the remainder of the command all the same.
-/

import Gibberish.Foundation.CyclicRedundancy
import Mathlib.Data.UInt

set_option autoImplicit false

namespace Gibberish.Storage

open Gibberish.Foundation.CyclicRedundancy Polynomial

/-- A bit of a byte comes in. -/
def crc7Bit (b crc : UInt8) (i : ℕ) : UInt8 :=
  let bit := (b >>> UInt8.ofNat i) &&& 1
  let carry := (crc >>> 7) &&& 1
  let crc := crc <<< 1
  if carry ^^^ bit ≠ 0 then crc ^^^ 0x12 else crc

/-- CRC-7 with the polynomial `x^7 + x^3 + 1`, over a stop bit. -/
def crc7 (data : List UInt8) : UInt8 :=
  data.foldl (fun crc b => (List.range 8).reverse.foldl (crc7Bit b) crc) 0 ||| 1

/-- The bits of a byte, the most significant first. -/
def byteBits (b : UInt8) : List Bool := (List.range 8).reverse.map b.toBitVec.getLsbD

/-- The bits of a byte string, each byte's most significant bit first. -/
def dataBits (data : List UInt8) : List Bool := data.flatMap byteBits

theorem dataBits_cons (b : UInt8) (data : List UInt8) :
    dataBits (b :: data) = byteBits b ++ dataBits data := List.flatMap_cons

theorem and_one_eq (x : UInt8) : x &&& 1 = (x.toBitVec.getLsbD 0).toUInt8 := by
  apply UInt8.toBitVec_inj.mp
  have hlow : (x &&& 1).toBitVec = BitVec.setWidth 8 (BitVec.ofBool (x.toBitVec.getLsbD 0)) :=
    BitVec.and_one_eq_setWidth_ofBool_getLsbD
  rw [hlow]
  cases x.toBitVec.getLsbD 0 <;> rfl

theorem shiftRight_and_one {i : ℕ} (hi : i < 8) (x : UInt8) :
    x >>> UInt8.ofNat i &&& 1 = (x.toBitVec.getLsbD i).toUInt8 := by
  have hmod : (UInt8.ofNat i).toBitVec % 8 = BitVec.ofNat 8 i := by
    apply BitVec.eq_of_toNat_eq
    simp
    omega
  rw [and_one_eq, UInt8.toBitVec_shiftRight, hmod]
  simp [Nat.mod_eq_of_lt (show i < 256 by omega)]

/-- The taps: the generator without its highest place, one place up. -/
def crc7Taps : BitVec 8 := 0x12

theorem toBitVec_crc7Bit {i : ℕ} (hi : i < 8) (b crc : UInt8) :
    (crc7Bit b crc i).toBitVec = shiftIn crc7Taps crc.toBitVec (b.toBitVec.getLsbD i) := by
  have hcarry : crc >>> 7 &&& 1 = crc.toBitVec.msb.toUInt8 := by
    rw [BitVec.msb_eq_getLsbD_last]
    exact shiftRight_and_one (by decide) crc
  simp only [crc7Bit, shiftRight_and_one hi, hcarry, shiftIn]
  cases crc.toBitVec.msb <;> cases b.toBitVec.getLsbD i <;> rfl

/-- The bits of a byte go through the register one by one. -/
theorem toBitVec_foldl_crc7Bit (b : UInt8) {indices : List ℕ} (hindices : ∀ i ∈ indices, i < 8)
    (crc : UInt8) : (indices.foldl (crc7Bit b) crc).toBitVec =
      (indices.map b.toBitVec.getLsbD).foldl (shiftIn crc7Taps) crc.toBitVec := by
  induction indices generalizing crc with
  | nil => rfl
  | cons i indices ih =>
    obtain ⟨hi, hrest⟩ := List.forall_mem_cons.mp hindices
    rw [List.foldl_cons, ih hrest, toBitVec_crc7Bit hi, List.map_cons, List.foldl_cons]

theorem toBitVec_foldl_bytes (data : List UInt8) (crc : UInt8) :
    (data.foldl (fun crc b => (List.range 8).reverse.foldl (crc7Bit b) crc) crc).toBitVec =
      (dataBits data).foldl (shiftIn crc7Taps) crc.toBitVec := by
  induction data generalizing crc with
  | nil => rfl
  | cons b data ih =>
    have hindices : ∀ i ∈ (List.range 8).reverse, i < 8 := by decide
    rw [List.foldl_cons, ih, toBitVec_foldl_crc7Bit b hindices, dataBits_cons, List.foldl_append,
      byteBits]

/-- The register's generator is the checksum's, one place up. -/
theorem generator_crc7Taps : generator crc7Taps = (X ^ 7 + X ^ 3 + 1) * X := by
  have htaps : word crc7Taps = X ^ 4 + X := by
    rw [word, ofFn_eq_sum_monomial, Fin.sum_univ_eight]
    simp [crc7Taps, coefficient, ← X_pow_eq_monomial, add_comm]
  rw [generator, htaps]
  ring

theorem monic_crc7 : (X ^ 7 + X ^ 3 + 1 : (ZMod 2)[X]).Monic := by
  monicity!

/-- The byte holds the remainder one place up. -/
theorem toNat_foldl_bytes (data : List UInt8) :
    (data.foldl (fun crc b => (List.range 8).reverse.foldl (crc7Bit b) crc) 0).toNat =
      2 * number ((message (dataBits data) * X ^ 7) %ₘ (X ^ 7 + X ^ 3 + 1)) := by
  have hregister := word_foldl_shiftIn crc7Taps (dataBits data)
  rw [generator_crc7Taps, pow_succ, ← mul_assoc, mul_mod_mul monic_X monic_crc7] at hregister
  rw [← number_mul_X, ← hregister, number_word, ← UInt8.toNat_toBitVec, toBitVec_foldl_bytes]
  rfl

/-- The checksum is the remainder of the data, moved up by seven places, over a stop bit. -/
theorem crc7_eq_remainder (data : List UInt8) :
    (crc7 data).toNat =
      2 * number ((message (dataBits data) * X ^ 7) %ₘ (X ^ 7 + X ^ 3 + 1)) + 1 := by
  rw [crc7, UInt8.toNat_or, toNat_foldl_bytes]
  exact (Nat.two_pow_add_eq_or_of_lt (i := 1) (by decide) _).symm

/-- The first command a card gets. -/
example : crc7 [0x40, 0x00, 0x00, 0x00, 0x00] = 0x95 := by decide +kernel

end Gibberish.Storage
