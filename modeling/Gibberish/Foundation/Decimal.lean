/-
# Decimal numbers

Integers as decimal digits, and the parser that reads them back digit by digit and
stops at an overflow. What is printed of a number in range is read back.
-/

import Mathlib.Algebra.Order.Group.Nat
import Mathlib.Data.UInt

set_option autoImplicit false

namespace Gibberish.Foundation.Decimal

/-- `char::to_digit` with radix 10. -/
def value (c : Char) : Option ℕ :=
  if '0' ≤ c ∧ c ≤ '9' then some (c.toNat - '0'.toNat) else none

/-- A digit behind a number already read, as long as the number stays below a bound. -/
def step (bound n : ℕ) (c : Char) : Option ℕ := do
  let digit ← value c
  if n * 10 + digit < bound then some (n * 10 + digit) else none

def read (bound : ℕ) (text : List Char) : Option ℕ := text.foldlM (step bound) 0

/-- `parse` for an unsigned integer of some bits. -/
def parseUnsigned (bits : ℕ) : List Char → Option ℕ
  | [] => none
  | ['+'] => none
  | '+' :: rest => read (2 ^ bits) rest
  | text => read (2 ^ bits) text

/-- `parse` for a signed integer of some bits. -/
def parseSigned (bits : ℕ) : List Char → Option ℤ
  | [] => none
  | ['+'] => none
  | ['-'] => none
  | '+' :: rest => (read (2 ^ (bits - 1)) rest).map Int.ofNat
  | '-' :: rest => (read (2 ^ (bits - 1) + 1) rest).map fun (n : ℕ) => -(n : ℤ)
  | text => (read (2 ^ (bits - 1)) text).map Int.ofNat

/-- The digits of a natural number, without leading zeros. -/
def ofNat (n : ℕ) : List Char := Nat.toDigits 10 n

/-- The digits of an integer, behind a minus sign where it is negative. -/
def ofInt (i : ℤ) : List Char := if i < 0 then '-' :: ofNat i.natAbs else ofNat i.natAbs

theorem ofNat_ne_nil (n : ℕ) : ofNat n ≠ [] := Nat.toDigits_ne_nil

theorem isDigit_of_mem {n : ℕ} {c : Char} (h : c ∈ ofNat n) : c.isDigit = true :=
  Nat.isDigit_of_mem_toDigits (by decide) (by decide) h

/-- What is no digit is not printed. -/
theorem notMem_ofNat {c : Char} (h : c.isDigit = false) (n : ℕ) : c ∉ ofNat n := by
  intro hmem
  rw [isDigit_of_mem hmem] at h
  cases h

theorem ofInt_ne_nil (i : ℤ) : ofInt i ≠ [] := by
  unfold ofInt
  split
  · exact List.cons_ne_nil _ _
  · exact ofNat_ne_nil _

theorem eq_minus_or_isDigit_of_mem {i : ℤ} {c : Char} (h : c ∈ ofInt i) :
    c = '-' ∨ c.isDigit = true := by
  unfold ofInt at h
  split at h
  · rcases List.mem_cons.mp h with heq | h
    · exact Or.inl heq
    · exact Or.inr (isDigit_of_mem h)
  · exact Or.inr (isDigit_of_mem h)

theorem value_digitChar {d : ℕ} (h : d < 10) : value (Nat.digitChar d) = some d := by
  have hdigits : ∀ d : Fin 10, value (Nat.digitChar d) = some d.val := by decide
  exact hdigits ⟨d, h⟩

theorem step_digitChar {bound n d : ℕ} (hd : d < 10) (h : n * 10 + d < bound) :
    step bound n (Nat.digitChar d) = some (n * 10 + d) := by
  rw [step, value_digitChar hd, Option.bind_eq_bind, Option.bind_some, if_pos h]

/-- The digits are read from the highest on, and no number on the way is larger. -/
theorem read_ofNat {bound n : ℕ} (h : n < bound) : read bound (ofNat n) = some n := by
  induction n using Nat.strongRecOn with
  | ind n ih =>
    rcases Nat.lt_or_ge n 10 with hlt | hge
    · have hstep : step bound 0 (Nat.digitChar n) = some (0 * 10 + n) :=
        step_digitChar hlt (by omega)
      rw [ofNat, Nat.toDigits_of_lt_base hlt, read, List.foldlM_cons, hstep]
      show some (0 * 10 + n) = some n
      rw [Nat.zero_mul, Nat.zero_add]
    · have hfront : read bound (Nat.toDigits 10 (n / 10)) = some (n / 10) :=
        ih (n / 10) (by omega) (by omega)
      have hstep : step bound (n / 10) (Nat.digitChar (n % 10)) = some (n / 10 * 10 + n % 10) :=
        step_digitChar (Nat.mod_lt n (by decide)) (by omega)
      rw [read] at hfront
      rw [ofNat, Nat.toDigits_of_base_le (by decide) hge, read, List.foldlM_append, hfront,
        Option.bind_eq_bind, Option.bind_some, List.foldlM_cons, hstep]
      show some (n / 10 * 10 + n % 10) = some n
      rw [Nat.mul_comm, Nat.div_add_mod]

/-- **Round trip.** -/
theorem parseUnsigned_ofNat {bits n : ℕ} (h : n < 2 ^ bits) :
    parseUnsigned bits (ofNat n) = some n := by
  have hplus : '+' ∉ ofNat n := notMem_ofNat (by decide) n
  rw [← read_ofNat h]
  unfold parseUnsigned
  split
  next heq => exact absurd heq (ofNat_ne_nil n)
  next heq => simp [heq] at hplus
  next heq => simp [heq] at hplus
  next => rfl

theorem parseSigned_ofNat {bits n : ℕ} (h : n < 2 ^ (bits - 1)) :
    parseSigned bits (ofNat n) = some (n : ℤ) := by
  have hplus : '+' ∉ ofNat n := notMem_ofNat (by decide) n
  have hminus : '-' ∉ ofNat n := notMem_ofNat (by decide) n
  have hread : (read (2 ^ (bits - 1)) (ofNat n)).map Int.ofNat = some (n : ℤ) := by
    rw [read_ofNat h]
    rfl
  rw [← hread]
  unfold parseSigned
  split
  next heq => exact absurd heq (ofNat_ne_nil n)
  next heq => simp [heq] at hplus
  next heq => simp [heq] at hminus
  next heq => simp [heq] at hplus
  next heq => simp [heq] at hminus
  next => rfl

theorem parseSigned_minus {bits n : ℕ} (h : n ≤ 2 ^ (bits - 1)) :
    parseSigned bits ('-' :: ofNat n) = some (-(n : ℤ)) := by
  obtain ⟨c, rest, hdigits⟩ := List.exists_cons_of_ne_nil (ofNat_ne_nil n)
  have hread := read_ofNat (Nat.lt_succ_of_le h)
  rw [hdigits] at hread ⊢
  simp only [parseSigned]
  rw [hread, Option.map_some]

/-- **Round trip.** -/
theorem parseSigned_ofInt {bits : ℕ} {i : ℤ} (hle : -2 ^ (bits - 1) ≤ i)
    (hlt : i < 2 ^ (bits - 1)) : parseSigned bits (ofInt i) = some i := by
  have hbound : ((2 ^ (bits - 1) : ℕ) : ℤ) = 2 ^ (bits - 1) := Nat.cast_pow 2 _
  unfold ofInt
  split
  · rw [parseSigned_minus (by omega)]
    congr 1
    omega
  · rw [parseSigned_ofNat (by omega)]
    congr 1
    omega

end Gibberish.Foundation.Decimal
