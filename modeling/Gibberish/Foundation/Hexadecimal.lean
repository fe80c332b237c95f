/-
# What a reader of hexadecimal numbers accepts

`from_str_radix` takes digits with or without a plus sign before them. A sign reads as
the digit zero does, so what is accepted is exactly what is made of digits once its sign
is replaced by that digit, as long as the number fits.
-/

import Gibberish.Foundation.Text

set_option autoImplicit false

namespace Gibberish.Foundation.Text

/-- Only hex digits. -/
def isHex (text : List Char) : Bool := text.all fun c => (hexValue c).isSome

/-- The number that hex digits denote, read behind a number. -/
def hexNumber (n : ℕ) : List Char → ℕ
  | [] => n
  | c :: rest => hexNumber (n * 16 + (hexValue c).getD 0) rest

/-- A plus sign at the front read as the digit zero. -/
def unsigned : List Char → List Char
  | '+' :: rest => '0' :: rest
  | text => text

@[simp] theorem isHex_nil : isHex [] = true := rfl

@[simp] theorem isHex_cons (c : Char) (text : List Char) :
    isHex (c :: text) = true ↔ (hexValue c).isSome = true ∧ isHex text = true := by
  simp [isHex]

@[simp] theorem isHex_append (text text' : List Char) :
    isHex (text ++ text') = true ↔ isHex text = true ∧ isHex text' = true := by
  simp [isHex]

/-! ### Signs -/

theorem unsigned_plus (rest : List Char) : unsigned ('+' :: rest) = '0' :: rest := rfl

theorem unsigned_of_ne {c : Char} (h : c ≠ '+') (rest : List Char) :
    unsigned (c :: rest) = c :: rest := by
  unfold unsigned
  split
  · next heq => exact absurd (List.cons.inj heq).1 h
  · rfl

@[simp] theorem length_unsigned (text : List Char) : (unsigned text).length = text.length := by
  unfold unsigned
  split <;> rfl

/-- No digit is a sign. -/
theorem plus_notMem_of_isHex {text : List Char} (h : isHex text = true) : '+' ∉ text := by
  intro hmem
  have hplus := List.all_eq_true.mp h '+' hmem
  revert hplus
  decide

/-- Without a sign nothing is replaced. -/
theorem unsigned_of_notMem {text : List Char} (h : '+' ∉ text) : unsigned text = text := by
  cases text with
  | nil => rfl
  | cons c rest => exact unsigned_of_ne (fun hc => h (hc ▸ List.mem_cons_self)) rest

/-! ### Digits -/

theorem toNat_le_toNat {c d : Char} (h : c ≤ d) : c.toNat ≤ d.toNat :=
  UInt32.le_iff_toNat_le.mp (Char.le_def.mp h)

theorem hexValue_lt {c : Char} {digit : ℕ} (h : hexValue c = some digit) : digit < 16 := by
  unfold hexValue at h
  split_ifs at h with hdecimal hupper hlower
  · have hle : c.toNat ≤ '9'.toNat := toNat_le_toNat hdecimal.2
    obtain rfl := Option.some.inj h
    exact (Nat.sub_le_sub_right hle _).trans_lt (by decide)
  · have hle : c.toNat ≤ 'F'.toNat := toNat_le_toNat hupper.2
    obtain rfl := Option.some.inj h
    exact (Nat.add_le_add_right (Nat.sub_le_sub_right hle _) _).trans_lt (by decide)
  · have hle : c.toNat ≤ 'f'.toNat := toNat_le_toNat hlower.2
    obtain rfl := Option.some.inj h
    exact (Nat.add_le_add_right (Nat.sub_le_sub_right hle _) _).trans_lt (by decide)

theorem ascii_of_hexValue {c : Char} (h : (hexValue c).isSome = true) : c.val ≤ 127 := by
  unfold hexValue at h
  split_ifs at h with hdecimal hupper hlower
  · exact UInt32.le_iff_toNat_le.mpr ((toNat_le_toNat hdecimal.2).trans (by decide))
  · exact UInt32.le_iff_toNat_le.mpr ((toNat_le_toNat hupper.2).trans (by decide))
  · exact UInt32.le_iff_toNat_le.mpr ((toNat_le_toNat hlower.2).trans (by decide))
  · cases h

/-- Digits behind a sign are ASCII. -/
theorem ascii_of_isHex_unsigned {text : List Char} (h : isHex (unsigned text) = true) :
    ∀ c ∈ text, c.val ≤ 127 := by
  have hdigits : ∀ {digits : List Char}, isHex digits = true → ∀ c ∈ digits, c.val ≤ 127 :=
    fun hhex c hc => ascii_of_hexValue (List.all_eq_true.mp hhex c hc)
  cases text with
  | nil => simp
  | cons d rest =>
    by_cases hd : d = '+'
    · subst hd
      rw [unsigned_plus, isHex_cons] at h
      exact List.forall_mem_cons.mpr ⟨by decide, hdigits h.2⟩
    · rw [unsigned_of_ne hd] at h
      exact hdigits h

/-! ### Reading -/

section Reading

variable {bits n number : ℕ} {text : List Char}

/-- What is read is made of digits and is the number they denote. -/
theorem readHex_eq_some (h : readHex bits n text = some number) :
    isHex text = true ∧ hexNumber n text = number := by
  induction text generalizing n with
  | nil => exact ⟨rfl, Option.some.inj h⟩
  | cons c rest ih =>
    rw [readHex] at h
    cases hc : hexValue c with
    | none => simp [hc] at h
    | some digit =>
      simp only [hc] at h
      split_ifs at h
      obtain ⟨hrest, hnumber⟩ := ih h
      exact ⟨by simp [hc, hrest], by rw [hexNumber, hc]; exact hnumber⟩

theorem le_hexNumber (n : ℕ) (text : List Char) : n ≤ hexNumber n text := by
  induction text generalizing n with
  | nil => exact le_rfl
  | cons c rest ih =>
    rw [hexNumber]
    exact (by omega : n ≤ n * 16 + (hexValue c).getD 0).trans (ih _)

/-- Digits are read when their number fits. -/
theorem readHex_of_isHex (hhex : isHex text = true) (hfits : hexNumber n text < 2 ^ bits) :
    readHex bits n text = some (hexNumber n text) := by
  induction text generalizing n with
  | nil => rfl
  | cons c rest ih =>
    obtain ⟨hc, hrest⟩ := (isHex_cons c rest).mp hhex
    obtain ⟨digit, hdigit⟩ := Option.isSome_iff_exists.mp hc
    rw [hexNumber, hdigit, Option.getD_some] at hfits ⊢
    rw [readHex, hdigit]
    -- No number read on the way is more than the last.
    have hlt : n * 16 + digit < 2 ^ bits := (le_hexNumber _ rest).trans_lt hfits
    show (if _ then _ else _) = _
    rw [if_pos hlt, ih hrest hfits]

/-- As many digits as there are hold a number of that size. -/
theorem hexNumber_lt (hhex : isHex text = true) (n : ℕ) :
    hexNumber n text < (n + 1) * 16 ^ text.length := by
  induction text generalizing n with
  | nil => simp [hexNumber]
  | cons c rest ih =>
    obtain ⟨hc, hrest⟩ := (isHex_cons c rest).mp hhex
    obtain ⟨digit, hdigit⟩ := Option.isSome_iff_exists.mp hc
    have hlt := hexValue_lt hdigit
    rw [hexNumber, hdigit, Option.getD_some, List.length_cons]
    calc hexNumber (n * 16 + digit) rest
        < (n * 16 + digit + 1) * 16 ^ rest.length := ih hrest _
      _ ≤ (n + 1) * 16 * 16 ^ rest.length := Nat.mul_le_mul_right _ (by omega)
      _ = (n + 1) * 16 ^ (rest.length + 1) := by ring

/-! ### Integers -/

/-- Behind a sign the digits are read, without one the text is. -/
theorem fromStrRadix16_eq_readHex (hne : text ≠ []) (hsign : text ≠ ['+']) :
    fromStrRadix16 bits text = readHex bits 0 (unsigned text) := by
  cases text with
  | nil => exact absurd rfl hne
  | cons c rest =>
    by_cases hc : c = '+'
    · subst hc
      obtain ⟨d, rest, rfl⟩ := List.exists_cons_of_ne_nil (fun hrest => hsign (hrest ▸ rfl))
      -- A zero before the digits changes neither them nor their number.
      have hpos : 0 < 2 ^ bits := by positivity
      rw [unsigned_plus, readHex]
      show readHex bits 0 (d :: rest) = if 0 < 2 ^ bits then readHex bits 0 (d :: rest) else none
      rw [if_pos hpos]
    · rw [unsigned_of_ne hc]
      unfold fromStrRadix16
      split
      all_goals simp_all

/-- What is accepted is made of digits once a sign before them is read as a zero. -/
theorem fromStrRadix16_eq_some (h : fromStrRadix16 bits text = some number) :
    isHex (unsigned text) = true ∧ hexNumber 0 (unsigned text) = number := by
  have hne : text ≠ [] := by
    rintro rfl
    cases h
  have hsign : text ≠ ['+'] := by
    rintro rfl
    cases h
  rw [fromStrRadix16_eq_readHex hne hsign] at h
  exact readHex_eq_some h

/-- **Digits are accepted**, with a sign or without, where there is room for as many. -/
theorem fromStrRadix16_of_isHex (hlong : 2 ≤ text.length) (hfits : 16 ^ text.length ≤ 2 ^ bits)
    (hhex : isHex (unsigned text) = true) :
    fromStrRadix16 bits text = some (hexNumber 0 (unsigned text)) := by
  have hne : text ≠ [] := by
    rintro rfl
    cases hlong
  have hsign : text ≠ ['+'] := by
    rintro rfl
    exact absurd hlong (by decide)
  rw [fromStrRadix16_eq_readHex hne hsign]
  apply readHex_of_isHex hhex
  calc hexNumber 0 (unsigned text)
      < (0 + 1) * 16 ^ (unsigned text).length := hexNumber_lt hhex 0
    _ = 16 ^ text.length := by rw [Nat.zero_add, Nat.one_mul, length_unsigned]
    _ ≤ 2 ^ bits := hfits

end Reading

end Gibberish.Foundation.Text
