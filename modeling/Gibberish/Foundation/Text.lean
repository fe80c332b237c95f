/-
# Texts

Texts as lists of characters: their UTF-8 bytes, trimming and splitting at Unicode
whitespace, and hexadecimal numbers. Digits that were printed are read back, one
digit to a nibble.
-/

import Mathlib.Data.List.DropRight
import Mathlib.Data.UInt
import Mathlib.Tactic.Positivity
import Mathlib.Tactic.Ring

set_option autoImplicit false

namespace Gibberish.Foundation.Text

/-! ### UTF-8 -/

/-- The UTF-8 bytes of some characters. -/
def encode (text : List Char) : List UInt8 := text.flatMap String.utf8EncodeChar

@[simp] theorem encode_nil : encode [] = [] := rfl

@[simp] theorem encode_cons (c : Char) (text : List Char) :
    encode (c :: text) = String.utf8EncodeChar c ++ encode text := rfl

@[simp] theorem encode_append (text text' : List Char) :
    encode (text ++ text') = encode text ++ encode text' :=
  List.flatMap_append

/-- A text's bytes are those of its characters. -/
theorem toList_toByteArray_ofList (text : List Char) :
    (String.ofList text).toByteArray.data.toList = encode text := by
  rw [String.toByteArray_ofList, List.utf8Encode, List.data_toByteArray]
  rfl

/-- A character up to 127 is its own byte. -/
theorem utf8EncodeChar_ascii {c : Char} (h : c.val ≤ 127) :
    String.utf8EncodeChar c = [c.val.toUInt8] :=
  String.utf8EncodeChar_eq_singleton (Char.utf8Size_eq_one_iff.mpr h)

/-- Texts with the same bytes are the same. -/
theorem encode_injective : Function.Injective encode := by
  intro text text' heq
  have hbytes : (String.ofList text).toByteArray = (String.ofList text').toByteArray := by
    apply ByteArray.ext
    apply Array.ext'
    rw [toList_toByteArray_ofList, toList_toByteArray_ofList, heq]
  have hstring := String.toByteArray_inj.mp hbytes
  rw [← String.toList_ofList (l := text), hstring, String.toList_ofList]

/-- ASCII characters have one byte each. -/
theorem encode_ascii {text : List Char} (h : ∀ c ∈ text, c.val ≤ 127) :
    encode text = text.map fun c => c.val.toUInt8 := by
  induction text with
  | nil => rfl
  | cons c rest ih =>
    obtain ⟨hc, hrest⟩ := List.forall_mem_cons.mp h
    rw [encode_cons, utf8EncodeChar_ascii hc, ih hrest, List.map_cons, List.singleton_append]

/-- A byte from 128 on. -/
private theorem le_ofNat {n : ℕ} (hle : 128 ≤ n) (hlt : n < 256) : (128 : UInt8) ≤ UInt8.ofNat n := by
  rw [UInt8.le_iff_toNat_le, UInt8.toNat_ofNat_of_lt' hlt]
  exact hle

/-- The bytes of a character beyond ASCII are all beyond ASCII. -/
theorem le_of_mem_utf8EncodeChar {c : Char} (h : ¬ c.val ≤ 127) {b : UInt8}
    (hb : b ∈ String.utf8EncodeChar c) : 128 ≤ b := by
  have hval : ¬ c.val.toNat ≤ 0x7F := fun hle => h (UInt32.le_iff_toNat_le.mpr hle)
  simp only [String.utf8EncodeChar, if_neg hval] at hb
  -- Two, three or four bytes, each a marker with some bits below it.
  split_ifs at hb
  · simp only [List.mem_cons, List.not_mem_nil, or_false] at hb
    rcases hb with rfl | rfl
    all_goals exact le_ofNat (by omega) (by omega)
  · simp only [List.mem_cons, List.not_mem_nil, or_false] at hb
    rcases hb with rfl | rfl | rfl
    all_goals exact le_ofNat (by omega) (by omega)
  · simp only [List.mem_cons, List.not_mem_nil, or_false] at hb
    rcases hb with rfl | rfl | rfl | rfl
    all_goals exact le_ofNat (by omega) (by omega)

/-- The byte of a newline. -/
def newline : UInt8 := 0x0A

/-- The newline byte stands for newlines only. -/
theorem newline_notMem_encode {text : List Char} (h : '\n' ∉ text) : newline ∉ encode text := by
  rw [encode, List.mem_flatMap]
  rintro ⟨c, hc, hmem⟩
  by_cases hascii : c.val ≤ 127
  · rw [utf8EncodeChar_ascii hascii, List.mem_singleton] at hmem
    have hval : c.val = 0x0A := by
      have hlt : c.val.toNat < 256 := (UInt32.le_iff_toNat_le.mp hascii).trans_lt (by decide)
      have hnat := congrArg UInt8.toNat hmem
      rw [UInt32.toNat_toUInt8, Nat.mod_eq_of_lt hlt] at hnat
      exact UInt32.toNat_inj.mp hnat.symm
    obtain rfl : c = '\n' := Char.ext hval
    exact h hc
  · exact absurd (le_of_mem_utf8EncodeChar hascii hmem) (by decide)

/-! ### Whitespace -/

/-- `char::is_whitespace`, the Unicode property `White_Space`. -/
def isWhitespace (c : Char) : Bool :=
  let v := c.toNat
  (0x09 ≤ v && v ≤ 0x0D) || v == 0x20 || v == 0x85 || v == 0xA0 || v == 0x1680 ||
    (0x2000 ≤ v && v ≤ 0x200A) || v == 0x2028 || v == 0x2029 || v == 0x202F || v == 0x205F ||
    v == 0x3000

/-- `str::trim`. -/
def trim (text : List Char) : List Char := (text.dropWhile isWhitespace).rdropWhile isWhitespace

/-- `str::split_whitespace`. -/
def splitWhitespace (text : List Char) : List (List Char) :=
  (text.splitOnP isWhitespace).filter (!·.isEmpty)

/-- Two words with a space between them are split apart. -/
theorem splitWhitespace_two {word word' : List Char} (hword : ∀ c ∈ word, isWhitespace c = false)
    (hword' : ∀ c ∈ word', isWhitespace c = false) (hne : word ≠ []) (hne' : word' ≠ []) :
    splitWhitespace (word ++ ' ' :: word') = [word, word'] := by
  rw [splitWhitespace, List.splitOnP_append_cons_of_forall_mem hword ' ' rfl,
    List.splitOnP_eq_singleton hword']
  simp [hne, hne']

/-! ### Hexadecimal numbers -/

/-- `char::to_digit` with radix 16. -/
def hexValue (c : Char) : Option ℕ :=
  if '0' ≤ c ∧ c ≤ '9' then some (c.toNat - '0'.toNat)
  else if 'A' ≤ c ∧ c ≤ 'F' then some (c.toNat - 'A'.toNat + 10)
  else if 'a' ≤ c ∧ c ≤ 'f' then some (c.toNat - 'a'.toNat + 10)
  else none

/-- Read digits behind a number already read, up to an overflow. -/
def readHex (bits : ℕ) : ℕ → List Char → Option ℕ
  | n, [] => some n
  | n, c :: rest =>
    match hexValue c with
    | none => none
    | some digit => if n * 16 + digit < 2 ^ bits then readHex bits (n * 16 + digit) rest else none

/-- `from_str_radix` with radix 16 for an unsigned integer of some bits. -/
def fromStrRadix16 (bits : ℕ) : List Char → Option ℕ
  | [] => none
  | ['+'] => none
  | '+' :: rest => readHex bits 0 rest
  | text => readHex bits 0 text

/-- The upper-case digit of a nibble. -/
def upperHexDigit (n : ℕ) : Char :=
  if n % 16 < 10 then Char.ofNat ('0'.toNat + n % 16) else Char.ofNat ('A'.toNat + (n % 16 - 10))

/-- The low digits of a number, as many as asked for. -/
def upperHex : ℕ → ℕ → List Char
  | 0, _ => []
  | k + 1, n => upperHexDigit (n / 16 ^ k) :: upperHex k n

@[simp] theorem length_upperHex (k n : ℕ) : (upperHex k n).length = k := by
  induction k with
  | zero => rfl
  | succ k ih => rw [upperHex, List.length_cons, ih]

/-- What holds of the sixteen digits holds of every digit printed. -/
theorem upperHexDigit_induction {P : ℕ → Char → Prop} (digits : ∀ i : Fin 16, P i (upperHexDigit i))
    (n : ℕ) : P (n % 16) (upperHexDigit n) := by
  have hmod : upperHexDigit n = upperHexDigit (n % 16) := by
    rw [upperHexDigit, upperHexDigit, Nat.mod_mod]
  rw [hmod]
  exact digits ⟨n % 16, Nat.mod_lt _ (by decide)⟩

theorem hexValue_upperHexDigit (n : ℕ) : hexValue (upperHexDigit n) = some (n % 16) :=
  upperHexDigit_induction (P := fun i c => hexValue c = some i) (by decide) n

theorem upperHexDigit_ne_plus (n : ℕ) : upperHexDigit n ≠ '+' :=
  upperHexDigit_induction (P := fun _ c => c ≠ '+') (by decide) n

theorem isWhitespace_upperHexDigit (n : ℕ) : isWhitespace (upperHexDigit n) = false :=
  upperHexDigit_induction (P := fun _ c => isWhitespace c = false) (by decide) n

theorem upperHexDigit_ascii (n : ℕ) : (upperHexDigit n).val ≤ 127 :=
  upperHexDigit_induction (P := fun _ c => c.val ≤ 127) (by decide) n

/-- Every character of a printed number is some nibble's digit. -/
theorem exists_of_mem_upperHex {k n : ℕ} {c : Char} (h : c ∈ upperHex k n) :
    ∃ m, c = upperHexDigit m := by
  induction k with
  | zero => cases h
  | succ k ih =>
    rcases List.mem_cons.mp h with rfl | h
    · exact ⟨_, rfl⟩
    · exact ih h

/-- The low digits extend what was read before. -/
theorem readHex_upperHex {bits k m : ℕ} (h : (m + 1) * 16 ^ k ≤ 2 ^ bits) (n : ℕ) :
    readHex bits m (upperHex k n) = some (m * 16 ^ k + n % 16 ^ k) := by
  induction k generalizing m with
  | zero => simp [upperHex, readHex, Nat.mod_one]
  | succ k ih =>
    have hdigit : n / 16 ^ k % 16 < 16 := Nat.mod_lt _ (by decide)
    -- One more digit keeps the number in its range, and the rest has one digit less.
    have hstep : (m * 16 + n / 16 ^ k % 16 + 1) * 16 ^ k ≤ 2 ^ bits := by
      calc (m * 16 + n / 16 ^ k % 16 + 1) * 16 ^ k
          ≤ (m + 1) * 16 * 16 ^ k := Nat.mul_le_mul_right _ (by omega)
        _ = (m + 1) * 16 ^ (k + 1) := by ring
        _ ≤ 2 ^ bits := h
    have hlt : m * 16 + n / 16 ^ k % 16 < 2 ^ bits :=
      (Nat.le_mul_of_pos_right _ (by positivity)).trans hstep
    rw [upperHex, readHex, hexValue_upperHexDigit]
    show (if _ then _ else _) = _
    rw [if_pos hlt, ih hstep, Nat.pow_succ, Nat.mod_mul]
    ring_nf

/-- **Round trip.** A number printed with enough digits is read back. -/
theorem fromStrRadix16_upperHex {bits k n : ℕ} (hk : 0 < k) (hbits : 16 ^ k ≤ 2 ^ bits)
    (hn : n < 16 ^ k) : fromStrRadix16 bits (upperHex k n) = some n := by
  obtain ⟨k, rfl⟩ := Nat.exists_eq_succ_of_ne_zero hk.ne'
  -- No printed digit is a sign.
  have hplain : fromStrRadix16 bits (upperHex (k + 1) n) = readHex bits 0 (upperHex (k + 1) n) := by
    rw [upperHex]
    have hsign := upperHexDigit_ne_plus (n / 16 ^ k)
    unfold fromStrRadix16
    split
    all_goals simp_all
  rw [hplain, readHex_upperHex (by simpa using hbits), Nat.zero_mul, Nat.zero_add,
    Nat.mod_eq_of_lt hn]

/-- Bytes in hexadecimal. -/
def hexOfBytes (bytes : List UInt8) : List Char := bytes.flatMap fun b => upperHex 2 b.toNat

theorem exists_of_mem_hexOfBytes {bytes : List UInt8} {c : Char} (h : c ∈ hexOfBytes bytes) :
    ∃ m, c = upperHexDigit m := by
  obtain ⟨b, -, hc⟩ := List.mem_flatMap.mp h
  exact exists_of_mem_upperHex hc

/-- A text of hex digits has one byte for each. -/
theorem length_encode_of_digits {text : List Char} (h : ∀ c ∈ text, ∃ m, c = upperHexDigit m) :
    (encode text).length = text.length := by
  have hascii : ∀ c ∈ text, c.val ≤ 127 := by
    intro c hc
    obtain ⟨m, rfl⟩ := h c hc
    exact upperHexDigit_ascii m
  rw [encode_ascii hascii, List.length_map]

theorem length_hexOfBytes (bytes : List UInt8) : (hexOfBytes bytes).length = bytes.length * 2 := by
  induction bytes with
  | nil => rfl
  | cons b rest ih =>
    rw [hexOfBytes, List.flatMap_cons, ← hexOfBytes, List.length_append, ih, length_upperHex,
      List.length_cons]
    omega

end Gibberish.Foundation.Text
