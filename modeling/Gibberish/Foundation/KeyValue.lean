/-
# Lines of keys and values

Searching, cutting and trimming as a parser of `Key: value` fields does it. A marker
whose first character does not come again in it is found behind any text without it, and
a field that was printed is cut into its key and its value.
-/

import Gibberish.Foundation.Framing
import Gibberish.Foundation.Text

set_option autoImplicit false

namespace Gibberish.Foundation.Text

/-! ### Searching and cutting -/

/-- `str::contains`. -/
def contains (text pattern : List Char) : Bool := (text.dropInfix? pattern).isSome

/-- `str::split_once` at a character. -/
def splitOnce (sep : Char) (text : List Char) : Option (List Char × List Char) :=
  match text.dropWhile (· != sep) with
  | [] => none
  | _ :: rest => some (text.takeWhile (· != sep), rest)

/-- `str::trim_matches`. -/
def trimMatches (p : Char → Bool) (text : List Char) : List Char :=
  (text.dropWhile p).rdropWhile p

/-- The first item of `str::split_whitespace`, or nothing. -/
def firstWord (text : List Char) : List Char := (splitWhitespace text).headD []

/-- `str::eq_ignore_ascii_case`. -/
def eqIgnoreAsciiCase (text text' : List Char) : Bool :=
  text.map Char.toLower == text'.map Char.toLower

/-- `str::to_uppercase`, given what becomes of the characters beyond ASCII. -/
def toUppercase (upper : Char → List Char) (text : List Char) : List Char :=
  text.flatMap fun c => if c.val ≤ 127 then [c.toUpper] else upper c

/-- A marker is found behind the first text without it, as its first character does not
come again in it. -/
theorem dropInfix?_marker {c : Char} {tail pre : List Char} (unbordered : c ∉ tail)
    (absent : ¬ (c :: tail) <:+: pre) (rest : List Char) :
    (pre ++ (c :: tail) ++ rest).dropInfix? (c :: tail) = some (pre, rest) := by
  rw [List.dropInfix?_eq_some_iff]
  refine ⟨⟨c :: tail, rfl, beq_self_eq_true _⟩, ?_⟩
  rintro earlier found rest' heq hfound
  obtain rfl := eq_of_beq hfound
  rw [List.append_assoc, List.append_assoc] at heq
  exact length_le_of_occurrence unbordered absent heq

theorem splitOnce_append {sep : Char} {key : List Char} (h : sep ∉ key) (value : List Char) :
    splitOnce sep (key ++ sep :: value) = some (key, value) := by
  have hkey : ∀ c ∈ key, (c != sep) = true := by
    intro c hc
    exact bne_iff_ne.mpr (ne_of_mem_of_not_mem hc h)
  have hsep : ¬ (sep != sep) = true := by simp
  rw [splitOnce, List.dropWhile_append_of_pos hkey, List.takeWhile_append_of_pos hkey,
    List.dropWhile_cons_of_neg (p := (· != sep)) hsep,
    List.takeWhile_cons_of_neg (p := (· != sep)) hsep, List.append_nil]

/-- A text that is no longer than its first word. -/
theorem firstWord_of_forall {word : List Char} (hne : word ≠ [])
    (h : ∀ c ∈ word, isWhitespace c = false) : firstWord word = word := by
  rw [firstWord, splitWhitespace, List.splitOnP_eq_singleton h]
  simp [hne]

theorem firstWord_two {word word' : List Char} (hword : ∀ c ∈ word, isWhitespace c = false)
    (hword' : ∀ c ∈ word', isWhitespace c = false) (hne : word ≠ []) (hne' : word' ≠ []) :
    firstWord (word ++ ' ' :: word') = word := by
  rw [firstWord, splitWhitespace_two hword hword' hne hne', List.headD_cons]

/-! ### Trimming -/

/-- Nothing is trimmed off a text whose ends stay. -/
theorem trimMatches_eq_self {p : Char → Bool} {text : List Char}
    (head : ∀ c ∈ text.head?, p c = false) (last : ∀ c ∈ text.getLast?, p c = false) :
    trimMatches p text = text := by
  have hfront : text.dropWhile p = text := by
    cases text with
    | nil => rfl
    | cons c rest => exact List.dropWhile_cons_of_neg (by simp [head c rfl])
  rw [trimMatches, hfront, List.rdropWhile_eq_self_iff]
  intro hne
  simp [last _ (List.getLast?_eq_some_getLast hne)]

/-- A text without whitespace at its ends. -/
structure Trimmed (text : List Char) : Prop where
  ne_nil : text ≠ []
  head : ∀ c ∈ text.head?, isWhitespace c = false
  last : ∀ c ∈ text.getLast?, isWhitespace c = false

namespace Trimmed

variable {text text' : List Char}

theorem trim_eq (h : Trimmed text) : trim text = text := trimMatches_eq_self h.head h.last

theorem of_forall (hne : text ≠ []) (h : ∀ c ∈ text, isWhitespace c = false) : Trimmed text where
  ne_nil := hne
  head c hc := h c (List.mem_of_mem_head? hc)
  last c hc := h c (List.mem_of_mem_getLast? hc)

/-- Whatever stands between two trimmed texts. -/
theorem append (h : Trimmed text) (between : List Char) (h' : Trimmed text') :
    Trimmed (text ++ between ++ text') where
  ne_nil := by simp [h.ne_nil]
  head c hc := by
    rw [List.append_assoc, List.head?_append_of_ne_nil _ h.ne_nil] at hc
    exact h.head c hc
  last c hc := by
    rw [List.getLast?_append_of_ne_nil _ h'.ne_nil] at hc
    exact h'.last c hc

end Trimmed

theorem trim_space (text : List Char) : trim (' ' :: text) = trim text := rfl

/-! ### Fields -/

/-- A field as it stands behind a comma. -/
def field (key value : List Char) : List Char := ' ' :: (key ++ [':', ' '] ++ value)

/-- A field is cut into its key and its value. -/
theorem splitOnce_trim_field {key value : List Char} (hkey : Trimmed key) (hcolon : ':' ∉ key)
    (hvalue : Trimmed value) :
    splitOnce ':' (trim (field key value)) = some (key, ' ' :: value) := by
  rw [field, trim_space, (hkey.append [':', ' '] hvalue).trim_eq, List.append_assoc]
  exact splitOnce_append hcolon _

end Gibberish.Foundation.Text
