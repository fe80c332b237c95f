/-
# LEB128

Numbers in groups of seven bits, the lowest first, one group to a byte. Every byte but
the last has its high bit set. A number below `128 ^ k` takes at most `k` bytes, and is
read back from the front of whatever follows it.
-/

import Mathlib.Algebra.Order.Group.Nat
import Mathlib.Data.Nat.Log
import Mathlib.Data.UInt

set_option autoImplicit false

namespace Gibberish.Foundation.Leb128

/-- The groups of a number, at most so many. -/
def encode : ℕ → ℕ → List UInt8
  | 0, _ => []
  | k + 1, n =>
    if n < 128 then [UInt8.ofNat n] else UInt8.ofNat (n % 128 + 128) :: encode k (n / 128)

/-- Read a number of at most so many groups; what is left is returned. -/
def decode : ℕ → List UInt8 → Option (ℕ × List UInt8)
  | 0, _ => none
  | _ + 1, [] => none
  | k + 1, b :: rest =>
    if b.toNat < 128 then some (b.toNat, rest)
    else (decode k rest).map fun (n, rest) => (b.toNat % 128 + 128 * n, rest)

theorem encode_of_lt {n : ℕ} (k : ℕ) (h : n < 128) : encode (k + 1) n = [UInt8.ofNat n] := if_pos h

theorem encode_of_le {n : ℕ} (k : ℕ) (h : 128 ≤ n) :
    encode (k + 1) n = UInt8.ofNat (n % 128 + 128) :: encode k (n / 128) :=
  if_neg (Nat.not_lt.mpr h)

theorem toNat_group (n : ℕ) : (UInt8.ofNat (n % 128 + 128)).toNat = n % 128 + 128 :=
  UInt8.toNat_ofNat_of_lt' (by
    have hmod := Nat.mod_lt n (show 0 < 128 by decide)
    show n % 128 + 128 < 256
    omega)

theorem length_encode_le (k n : ℕ) : (encode k n).length ≤ k := by
  induction k generalizing n with
  | zero => exact Nat.le_refl 0
  | succ k ih =>
    rw [encode]
    split
    · exact Nat.succ_le_succ (Nat.zero_le k)
    · exact Nat.succ_le_succ (ih _)

/-- What is left after a group has one group less. -/
theorem div_fits {k n : ℕ} (fits : n < 128 ^ (k + 1)) : n / 128 < 128 ^ k :=
  Nat.div_lt_of_lt_mul (by rwa [Nat.mul_comm, ← Nat.pow_succ])

/-- A number of two groups or more has room for a second. -/
theorem pos_of_fits {k n : ℕ} (hge : 128 ≤ n) (fits : n < 128 ^ (k + 1)) : 0 < k := by
  apply Nat.pos_of_ne_zero
  rintro rfl
  omega

/-- The bytes of a number are as many as its digits in base 128. -/
theorem length_encode {k n : ℕ} (hk : 0 < k) (fits : n < 128 ^ k) :
    (encode k n).length = Nat.log 128 n + 1 := by
  induction k generalizing n with
  | zero => cases hk
  | succ k ih =>
    rcases Nat.lt_or_ge n 128 with hlt | hge
    · rw [encode_of_lt k hlt, Nat.log_of_lt hlt, List.length_singleton]
    · rw [encode_of_le k hge, List.length_cons, Nat.log_of_one_lt_of_le (by decide) hge,
        ih (pos_of_fits hge fits) (div_fits fits)]

/-- Bytes are equal when their numbers are. -/
theorem ofNat_eq_high {m c : ℕ} (hm : m < 256) (hc : c < 128) :
    UInt8.ofNat m = UInt8.ofNat (c + 128) ↔ m = c + 128 := by
  have hhigh : c + 128 < 256 := by omega
  rw [← UInt8.toNat_inj, UInt8.toNat_ofNat_of_lt' hm, UInt8.toNat_ofNat_of_lt' hhigh]

/-- The bytes with the high bit set are the groups before the last. -/
theorem getElem?_encode_eq_high {k n i c : ℕ} (fits : n < 128 ^ k) (hc : c < 128) :
    (encode k n)[i]? = some (UInt8.ofNat (c + 128)) ↔
      128 ^ (i + 1) ≤ n ∧ n / 128 ^ i % 128 = c := by
  induction k generalizing n i with
  | zero =>
    have hpos : 0 < 128 ^ (i + 1) := Nat.pow_pos (by decide)
    have hzero : n < 1 := fits
    simp only [encode, List.getElem?_nil, reduceCtorEq, false_iff]
    omega
  | succ k ih =>
    rcases Nat.lt_or_ge n 128 with hlt | hge
    · have hfew : ¬ 128 ^ (i + 1) ≤ n := by
        have hpow : 128 ^ 1 ≤ 128 ^ (i + 1) :=
          Nat.pow_le_pow_right (by decide) (Nat.le_add_left 1 i)
        omega
      rw [encode_of_lt k hlt]
      cases i with
      | zero =>
        rw [List.getElem?_cons_zero, Option.some_inj, ofNat_eq_high (by omega) hc]
        exact ⟨fun heq => by omega, fun h => absurd h.1 hfew⟩
      | succ i => exact ⟨(nomatch ·), fun h => absurd h.1 hfew⟩
    · rw [encode_of_le k hge]
      cases i with
      | zero =>
        rw [List.getElem?_cons_zero, Option.some_inj, ofNat_eq_high (by omega) hc, pow_zero,
          Nat.div_one, Nat.add_right_cancel_iff]
        exact ⟨fun heq => ⟨hge, heq⟩, And.right⟩
      | succ i =>
        have hrest := ih (i := i) (div_fits fits)
        rw [Nat.le_div_iff_mul_le (by decide), ← Nat.pow_succ, Nat.div_div_eq_div_mul,
          ← Nat.pow_succ'] at hrest
        exact hrest

/-- **Round trip.** A number that fits is read back from the front. -/
theorem decode_encode {k n : ℕ} (hk : 0 < k) (fits : n < 128 ^ k) (rest : List UInt8) :
    decode k (encode k n ++ rest) = some (n, rest) := by
  induction k generalizing n with
  | zero => cases hk
  | succ k ih =>
    rcases Nat.lt_or_ge n 128 with hlt | hge
    · have hbyte : (UInt8.ofNat n).toNat = n := UInt8.toNat_ofNat_of_lt' (by
        show n < 256
        omega)
      rw [encode_of_lt k hlt, List.singleton_append, decode, hbyte, if_pos hlt]
    · have hhigh : ¬ (UInt8.ofNat (n % 128 + 128)).toNat < 128 := by
        rw [toNat_group]
        omega
      rw [encode_of_le k hge, List.cons_append, decode, if_neg hhigh,
        ih (pos_of_fits hge fits) (div_fits fits), toNat_group,
        Option.map_some, Nat.add_mod_right, Nat.mod_mod]
      show some (n % 128 + 128 * (n / 128), rest) = some (n, rest)
      rw [Nat.mod_add_div]

end Gibberish.Foundation.Leb128
