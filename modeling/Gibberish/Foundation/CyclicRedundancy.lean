/-
# Cyclic redundancy checks

Words and bit strings as polynomials over GF(2), and the shift register that takes a
bit string in bit by bit. What the register holds in the end is the remainder of the
string, moved up by the width of the register, under division by its generator.
-/

import Mathlib.Algebra.Polynomial.OfFn
import Mathlib.Algebra.Polynomial.RingDivision
import Mathlib.Combinatorics.Colex
import Mathlib.Algebra.Field.ZMod
import Mathlib.Tactic.LinearCombination

set_option autoImplicit false

namespace Gibberish.Foundation.CyclicRedundancy

open Polynomial

/-- A bit as a coefficient. -/
def coefficient (b : Bool) : ZMod 2 := if b then 1 else 0

theorem coefficient_xor (a b : Bool) : coefficient (a ^^ b) = coefficient a + coefficient b := by
  cases a <;> cases b <;> decide

theorem coefficient_ne_zero (b : Bool) : coefficient b ≠ 0 ↔ b = true := by
  cases b <;> decide

/-! ### Bit strings -/

/-- A bit string, its first bit the highest coefficient. -/
noncomputable def message : List Bool → (ZMod 2)[X]
  | [] => 0
  | b :: bits => C (coefficient b) * X ^ bits.length + message bits

theorem message_concat (bits : List Bool) (b : Bool) :
    message (bits ++ [b]) = message bits * X + C (coefficient b) := by
  induction bits with
  | nil => simp [message]
  | cons a bits ih =>
    rw [List.cons_append, message, ih, message, List.length_append, List.length_singleton,
      pow_succ]
    ring

/-- The number whose binary digits are the coefficients. -/
noncomputable def number (p : (ZMod 2)[X]) : ℕ := ∑ i ∈ p.support, 2 ^ i

theorem number_mul_X (p : (ZMod 2)[X]) : number (p * X) = 2 * number p := by
  have hsupport : (p * X).support = p.support.map (addRightEmbedding 1) := by
    ext i
    cases i with
    | zero => simp
    | succ i => simp
  rw [number, hsupport, Finset.sum_map, number, Finset.mul_sum]
  apply Finset.sum_congr rfl
  intro i _
  exact (pow_succ 2 i).trans (Nat.mul_comm _ _)

/-! ### Words -/

variable {w : ℕ}

/-- A word, its lowest bit the lowest coefficient. -/
noncomputable def word (x : BitVec w) : (ZMod 2)[X] := ofFn w fun i => coefficient (x.getLsbD i)

theorem coeff_word (x : BitVec w) (i : ℕ) : (word x).coeff i = coefficient (x.getLsbD i) := by
  rcases Nat.lt_or_ge i w with hi | hi
  · exact ofFn_coeff_eq_val_of_lt _ hi
  · rw [word, ofFn_coeff_eq_zero_of_ge _ hi, BitVec.getLsbD_of_ge x i hi]
    rfl

theorem degree_word_lt (x : BitVec w) : (word x).degree < w := ofFn_degree_lt _

theorem number_word (x : BitVec w) : number (word x) = x.toNat := by
  have hsupport : (word x).support = x.toNat.bitIndices.toFinset := by
    ext i
    rw [mem_support_iff, coeff_word, coefficient_ne_zero, List.mem_toFinset, Nat.mem_bitIndices]
    exact Iff.rfl
  rw [number, hsupport, Finset.sum_toFinset_bitIndices_two_pow]

theorem word_xor (x y : BitVec w) : word (x ^^^ y) = word x + word y := by
  ext i
  rw [coeff_add, coeff_word, coeff_word, coeff_word, BitVec.getLsbD_xor, coefficient_xor]

/-- A shift to the left multiplies by `X`; the highest bit falls off. -/
theorem word_mul_X (x : BitVec w) :
    word x * X = word (x <<< 1) + C (coefficient x.msb) * X ^ w := by
  ext i
  rw [coeff_add, coeff_C_mul_X_pow, coeff_word, BitVec.getLsbD_shiftLeft]
  cases i with
  | zero =>
    rw [coeff_mul_X_zero]
    rcases Nat.eq_zero_or_pos w with rfl | hw
    · simp [BitVec.msb_eq_getLsbD_last, coefficient]
    · rw [if_neg hw.ne]
      simp [coefficient]
  | succ i =>
    rw [coeff_mul_X, coeff_word]
    rcases lt_trichotomy (i + 1) w with hi | hi | hi
    · rw [if_neg hi.ne]
      simp [hi]
    · rw [if_pos hi, BitVec.msb_eq_getLsbD_last]
      simp [← hi, coefficient]
    · rw [if_neg hi.ne', BitVec.getLsbD_of_ge x i (by omega)]
      simp [hi.le, coefficient]

/-! ### The register -/

/-- What the register divides by: its taps under a leading one. -/
noncomputable def generator (taps : BitVec w) : (ZMod 2)[X] := X ^ w + word taps

theorem monic_generator (taps : BitVec w) : (generator taps).Monic :=
  monic_X_pow_add (degree_word_lt taps)

theorem degree_generator (taps : BitVec w) : (generator taps).degree = w := by
  have hlt : (word taps).degree < (X ^ w : (ZMod 2)[X]).degree := by
    rw [degree_X_pow]
    exact degree_word_lt taps
  rw [generator, degree_add_eq_left_of_degree_lt hlt, degree_X_pow]

/-- A bit comes in: the register moves up, and where what falls off the top differs from
the bit the taps are added. -/
def shiftIn (taps register : BitVec w) (b : Bool) : BitVec w :=
  if register.msb ^^ b then register <<< 1 ^^^ taps else register <<< 1

theorem word_shiftIn (taps register : BitVec w) (b : Bool) :
    word (shiftIn taps register b) =
      word (register <<< 1) + C (coefficient (register.msb ^^ b)) * word taps := by
  rw [shiftIn]
  cases register.msb ^^ b <;> simp [word_xor, coefficient]

/-- What the register holds next, and what it takes off, make up what it held and the bit. -/
theorem word_shiftIn_add (taps register : BitVec w) (b : Bool) :
    word (shiftIn taps register b) + generator taps * C (coefficient (register.msb ^^ b)) =
      word register * X + C (coefficient b) * X ^ w := by
  have htwo : (2 : (ZMod 2)[X]) = 0 := CharTwo.two_eq_zero
  rw [word_shiftIn, word_mul_X, generator, coefficient_xor, C_add]
  linear_combination
    (C (coefficient register.msb) + C (coefficient b)) * word taps * htwo

/-- One step of the register is one step of the division. -/
theorem word_shiftIn_eq_mod (taps register : BitVec w) (b : Bool) :
    word (shiftIn taps register b) =
      (word register * X + C (coefficient b) * X ^ w) %ₘ generator taps := by
  refine ((div_modByMonic_unique (C (coefficient (register.msb ^^ b))) _ (monic_generator taps)
    ⟨word_shiftIn_add taps register b, ?_⟩).2).symm
  rw [degree_generator]
  exact degree_word_lt _

/-- For what comes in next, a remainder is as good as what it is a remainder of. -/
theorem mod_mul_X_add_mod {g : (ZMod 2)[X]} (hg : g.Monic) (p q : (ZMod 2)[X]) :
    ((p %ₘ g) * X + q) %ₘ g = (p * X + q) %ₘ g := by
  apply modByMonic_eq_of_dvd_sub hg
  rw [add_sub_add_right_eq_sub, ← sub_mul]
  exact (dvd_modByMonic_sub p g).mul_right X

/-- The register holds the remainder of what has come in, moved up by its width. -/
theorem word_foldl_shiftIn (taps : BitVec w) (bits : List Bool) :
    word (bits.foldl (shiftIn taps) 0) = (message bits * X ^ w) %ₘ generator taps := by
  induction bits using List.reverseRecOn with
  | nil =>
    have hzero : word (0 : BitVec w) = 0 := by
      ext i
      simp [coeff_word, coefficient]
    rw [List.foldl_nil, hzero, message, zero_mul, zero_modByMonic]
  | append_singleton bits b ih =>
    rw [List.foldl_concat, word_shiftIn_eq_mod, ih, mod_mul_X_add_mod (monic_generator taps),
      message_concat]
    congr 1
    ring

/-- A common factor of the dividend and the divisor is one of the remainder. -/
theorem mul_mod_mul {f g : (ZMod 2)[X]} (hf : f.Monic) (hg : g.Monic) (p : (ZMod 2)[X]) :
    (p * f) %ₘ (g * f) = (p %ₘ g) * f := by
  refine (div_modByMonic_unique (p /ₘ g) _ (hg.mul hf) ⟨?_, ?_⟩).2
  · calc (p %ₘ g) * f + g * f * (p /ₘ g)
        = (p %ₘ g + g * (p /ₘ g)) * f := by ring
      _ = p * f := by rw [modByMonic_add_div]
  · rw [hf.degree_mul, hf.degree_mul]
    exact WithBot.add_lt_add_right (degree_ne_bot.mpr hf.ne_zero) (degree_modByMonic_lt p hg)

end Gibberish.Foundation.CyclicRedundancy
