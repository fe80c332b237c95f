/-
# The grammar of packet lines

A packet line is the marker and two words, eight hex digits and as many pairs of hex
digits as a packet has bytes. The reader checks the words' lengths and leaves the rest to
`from_str_radix`, which takes a plus sign before the digits, so a sign passes where a
digit of the id or the first of a pair should stand. It passes nothing else, and no line
makes it panic.
-/

import Gibberish.Daemon.Transport
import Gibberish.Foundation.Hexadecimal

set_option autoImplicit false

namespace Gibberish.Daemon

open Gibberish.Foundation Gibberish.Foundation.Text Gibberish.Protocol

/-! ### The grammar -/

/-- The bytes that pairs of hex digits denote. -/
def bytesOfHex : List Char → List UInt8
  | a :: b :: rest => UInt8.ofNat (hexNumber 0 [a, b]) :: bytesOfHex rest
  | _ => []

/-- The line is the marker and these two words. -/
def PktWords (line srcNodeHex wireHex : List Char) : Prop :=
  ∃ remainder, line = pktMarker ++ remainder ∧ splitWhitespace remainder = [srcNodeHex, wireHex]

/-- Hex digits for a node id and for a packet. -/
structure PktDigits (srcNodeHex wireHex : List Char) : Prop where
  srcLength : srcNodeHex.length = 8
  wireLength : wireHex.length = MeshPacket.wirePayloadLen * 2
  srcHex : isHex srcNodeHex = true
  wireHex : isHex wireHex = true

/-- The node id and the packet that the digits denote. -/
def pktOfDigits (srcNodeHex wireHex : List Char) : ReceivedWirePacket where
  srcNodeId := UInt32.ofNat (hexNumber 0 srcNodeHex)
  packet :=
    .deserializePayload ((Bytes.zero MeshPacket.wirePayloadLen).copyFromSlice 0 (bytesOfHex wireHex))

/-- The line is a packet line and denotes this packet. -/
def IsPktLine (line : List Char) (wirePkt : ReceivedWirePacket) : Prop :=
  ∃ srcNodeHex wireHex, PktWords line srcNodeHex wireHex ∧ PktDigits srcNodeHex wireHex ∧
    wirePkt = pktOfDigits srcNodeHex wireHex

/-- The signs at the front of the pairs read as zeros. -/
def unsignedPairs : List Char → List Char
  | a :: b :: rest => unsigned [a, b] ++ unsignedPairs rest
  | text => text

/-- The line has a plus sign in front of the id or of some pair, and would be a packet line
if these were zeros. -/
def SignedPktLine (line : List Char) : Prop :=
  ∃ srcNodeHex wireHex, PktWords line srcNodeHex wireHex ∧
    PktDigits (unsigned srcNodeHex) (unsignedPairs wireHex) ∧ '+' ∈ srcNodeHex ++ wireHex

/-! ### The reader and where it could panic -/

/-- The characters from a byte offset on. An offset inside a character, or past the end, is
a panic. -/
def sliceFrom : ℕ → List Char → Option (List Char)
  | 0, text => some text
  | _ + 1, [] => none
  | n + 1, c :: rest => if c.utf8Size ≤ n + 1 then sliceFrom (n + 1 - c.utf8Size) rest else none

/-- The loop over the chunks: `none` is an index past the buffer, a panic, and `some none` a
chunk that is no byte. -/
def writeWireBytes {n : ℕ} (wireBytes : Bytes n) (i : ℕ) :
    List (List UInt8) → Option (Option (Bytes n))
  | [] => some (some wireBytes)
  | chunk :: rest =>
    match parseHexByte chunk with
    | none => some none
    | some b => if h : i < n then writeWireBytes (wireBytes.set i b) (i + 1) rest else none

/-- `parse_pkt_line` with its panics, as `none`. -/
def parsePktLineChecked (line : List Char) : Option (Option ReceivedWirePacket) :=
  if ¬ pktMarker <+: line then some none
  else
    match sliceFrom (encode pktMarker).length line with
    | none => none
    | some remainder =>
      match splitWhitespace remainder with
      | [srcNodeHex, wireHex] =>
        if (encode srcNodeHex).length ≠ 8 ∨
            (encode wireHex).length ≠ MeshPacket.wirePayloadLen * 2 then some none
        else
          match fromStrRadix16 32 srcNodeHex with
          | none => some none
          | some srcNodeId =>
            match writeWireBytes (.zero MeshPacket.wirePayloadLen) 0
                (chunksOfTwo (encode wireHex)) with
            | none => none
            | some none => some none
            | some (some wireBytes) =>
              some (some ⟨UInt32.ofNat srcNodeId, .deserializePayload wireBytes⟩)
      | _ => some none

theorem sliceFrom_append (front rest : List Char) :
    sliceFrom (encode front).length (front ++ rest) = some rest := by
  induction front with
  | nil => cases rest <;> rfl
  | cons c front ih =>
    have hsize : (String.utf8EncodeChar c).length = c.utf8Size := String.length_utf8EncodeChar c
    have hpos := Char.utf8Size_pos c
    obtain ⟨k, hk⟩ : ∃ k, (encode (c :: front)).length = k + 1 := by
      refine Nat.exists_eq_succ_of_ne_zero ?_
      rw [encode_cons, List.length_append]
      omega
    have hrest : k + 1 - c.utf8Size = (encode front).length := by
      rw [← hk, encode_cons, List.length_append, hsize, Nat.add_sub_cancel_left]
    have hle : c.utf8Size ≤ k + 1 := by
      rw [← hk, encode_cons, List.length_append, hsize]
      exact Nat.le_add_right _ _
    rw [hk, List.cons_append, sliceFrom, if_pos hle, hrest, ih]

/-- Chunks that fit are written without a panic. -/
theorem writeWireBytes_eq {n : ℕ} (wireBytes : Bytes n) (i : ℕ) (chunks : List (List UInt8))
    (hfits : i + chunks.length ≤ n) :
    writeWireBytes wireBytes i chunks =
      some ((chunks.mapM parseHexByte).map (wireBytes.copyFromSlice i)) := by
  induction chunks generalizing wireBytes i with
  | nil => simp [writeWireBytes, Bytes.copyFromSlice]
  | cons chunk rest ih =>
    rw [List.length_cons] at hfits
    have hlt : i < n := by omega
    rw [writeWireBytes, List.mapM_cons]
    cases hchunk : parseHexByte chunk with
    | none => rfl
    | some b =>
      simp only [dif_pos hlt]
      rw [ih _ _ (by omega)]
      cases hmap : rest.mapM parseHexByte with
      | none => rfl
      | some bytes =>
        exact congrArg (some ∘ some) (Bytes.copyFromSlice_set wireBytes ⟨i, hlt⟩ b bytes)

theorem length_chunksOfTwo (k : ℕ) {bytes : List UInt8} (h : bytes.length = 2 * k) :
    (chunksOfTwo bytes).length = k := by
  induction k generalizing bytes with
  | zero => rw [List.length_eq_zero_iff.mp h]; rfl
  | succ k ih =>
    match bytes, h with
    | a :: b :: rest, h =>
      rw [chunksOfTwo, List.length_cons, ih (by simpa [Nat.mul_succ] using h)]

theorem dropPrefix?_pktMarker (remainder : List Char) :
    (pktMarker ++ remainder).dropPrefix? pktMarker = some remainder :=
  List.dropPrefix?_eq_some_iff.mpr ⟨pktMarker, rfl, beq_self_eq_true _⟩

theorem dropPrefix?_of_not_prefix {line : List Char} (h : ¬ pktMarker <+: line) :
    line.dropPrefix? pktMarker = none := by
  rw [Option.eq_none_iff_forall_ne_some]
  intro remainder hremainder
  obtain ⟨found, rfl, hfound⟩ := List.dropPrefix?_eq_some_iff.mp hremainder
  exact h ⟨remainder, by rw [eq_of_beq hfound]⟩

/-- **No panic.** On every line the reader returns. -/
theorem parsePktLineChecked_eq (line : List Char) :
    parsePktLineChecked line = some (parsePktLine line) := by
  by_cases hmarker : pktMarker <+: line
  · obtain ⟨remainder, rfl⟩ := hmarker
    rw [parsePktLineChecked, parsePktLine, if_neg (not_not.mpr (List.prefix_append _ _)),
      sliceFrom_append, dropPrefix?_pktMarker]
    dsimp only
    rcases splitWhitespace remainder with _ | ⟨srcNodeHex, _ | ⟨wireHex, _ | ⟨extra, more⟩⟩⟩
    · rfl
    · rfl
    · dsimp only
      split_ifs with hlen
      · rfl
      · cases fromStrRadix16 32 srcNodeHex with
        | none => rfl
        | some srcNodeId =>
          -- As many chunks as the buffer has bytes.
          have hchunks : (chunksOfTwo (encode wireHex)).length = MeshPacket.wirePayloadLen := by
            apply length_chunksOfTwo
            rw [Nat.mul_comm]
            exact not_not.mp (not_or.mp hlen).2
          rw [writeWireBytes_eq _ _ _ (by rw [hchunks, Nat.zero_add])]
          cases (chunksOfTwo (encode wireHex)).mapM parseHexByte with
          | none => rfl
          | some wireBytes => rfl
    · rfl
  · rw [parsePktLineChecked, parsePktLine, if_pos hmarker, dropPrefix?_of_not_prefix hmarker]

/-! ### What the reader takes -/

theorem length_encode_of_isHex {text : List Char} (h : isHex (unsigned text) = true) :
    (encode text).length = text.length := by
  rw [encode_ascii (ascii_of_isHex_unsigned h), List.length_map]

/-- The node id: eight digits, or seven behind a sign. -/
theorem fromStrRadix16_id_iff {srcNodeHex : List Char} {srcNodeId : ℕ} :
    (encode srcNodeHex).length = 8 ∧ fromStrRadix16 32 srcNodeHex = some srcNodeId ↔
      srcNodeHex.length = 8 ∧ isHex (unsigned srcNodeHex) = true ∧
        hexNumber 0 (unsigned srcNodeHex) = srcNodeId := by
  constructor
  · rintro ⟨hlen, hread⟩
    obtain ⟨hhex, hnumber⟩ := fromStrRadix16_eq_some hread
    exact ⟨(length_encode_of_isHex hhex).symm.trans hlen, hhex, hnumber⟩
  · rintro ⟨hlen, hhex, rfl⟩
    refine ⟨(length_encode_of_isHex hhex).trans hlen, fromStrRadix16_of_isHex ?_ ?_ hhex⟩
    · omega
    · rw [hlen]
      decide

/-- One chunk: two digits, or one behind a sign. -/
theorem parseHexByte_iff {chunk : List UInt8} (hlen : chunk.length = 2) {b : UInt8} :
    parseHexByte chunk = some b ↔
      ∃ c d, chunk = encode [c, d] ∧ isHex (unsigned [c, d]) = true ∧
        b = UInt8.ofNat (hexNumber 0 (unsigned [c, d])) := by
  constructor
  · intro hread
    unfold parseHexByte at hread
    cases htext : fromUtf8 chunk with
    | none => simp [htext] at hread
    | some text =>
      simp only [htext] at hread
      obtain ⟨number, hradix, rfl⟩ := Option.map_eq_some_iff.mp hread
      obtain ⟨hhex, rfl⟩ := fromStrRadix16_eq_some hradix
      have hchunk : chunk = encode text.toList := by
        rw [← toList_toByteArray_ofList, String.ofList_toList]
        exact (asBytes_of_fromUtf8 htext).symm
      -- Two bytes of digits are two characters.
      have htwo : text.toList.length = 2 := by
        rw [← length_encode_of_isHex hhex, ← hchunk, hlen]
      obtain ⟨c, d, hcd⟩ := List.length_eq_two.mp htwo
      rw [hcd] at hchunk hhex
      exact ⟨c, d, hchunk, hhex, by rw [hcd]⟩
  · rintro ⟨c, d, rfl, hhex, rfl⟩
    have hradix : fromStrRadix16 8 [c, d] = some (hexNumber 0 (unsigned [c, d])) :=
      fromStrRadix16_of_isHex le_rfl (le_refl (2 ^ 8)) hhex
    rw [parseHexByte, fromUtf8_encode]
    simp only [String.toList_ofList, hradix, Option.map_some]

/-- The unsigned form of a pair is a pair. -/
theorem unsigned_pair (c d : Char) : ∃ c', unsigned [c, d] = [c', d] := by
  by_cases hc : c = '+'
  · exact ⟨'0', by rw [hc, unsigned_plus]⟩
  · exact ⟨c, unsigned_of_ne hc [d]⟩

theorem bytesOfHex_unsignedPairs (c d : Char) (rest : List Char) :
    bytesOfHex (unsignedPairs (c :: d :: rest)) =
      UInt8.ofNat (hexNumber 0 (unsigned [c, d])) :: bytesOfHex (unsignedPairs rest) := by
  obtain ⟨c', hpair⟩ := unsigned_pair c d
  rw [unsignedPairs, hpair]
  rfl

/-- The packet: pairs of digits, each with a digit or a sign at its front. -/
theorem mapM_parseHexByte_iff (k : ℕ) {bytes wireBytes : List UInt8} (hlen : bytes.length = 2 * k) :
    (chunksOfTwo bytes).mapM parseHexByte = some wireBytes ↔
      ∃ text, bytes = encode text ∧ text.length = 2 * k ∧ isHex (unsignedPairs text) = true ∧
        wireBytes = bytesOfHex (unsignedPairs text) := by
  induction k generalizing bytes wireBytes with
  | zero =>
    obtain rfl := List.length_eq_zero_iff.mp hlen
    constructor
    · intro hread
      exact ⟨[], rfl, rfl, rfl, (Option.some.inj hread).symm⟩
    · rintro ⟨text, -, htext, -, rfl⟩
      obtain rfl := List.length_eq_zero_iff.mp htext
      rfl
  | succ k ih =>
    match bytes, hlen with
    | x :: y :: rest, hlen =>
      have hrest : rest.length = 2 * k := by simpa [Nat.mul_succ] using hlen
      rw [chunksOfTwo, List.mapM_cons]
      constructor
      · intro hread
        obtain ⟨b, hb, hread⟩ := Option.bind_eq_some_iff.mp hread
        obtain ⟨others, hothers, hread⟩ := Option.bind_eq_some_iff.mp hread
        obtain rfl := Option.some.inj hread
        obtain ⟨c, d, hchunk, hhex, rfl⟩ := (parseHexByte_iff rfl).mp hb
        obtain ⟨text, rfl, htext, hrestHex, rfl⟩ := (ih hrest).mp hothers
        refine ⟨c :: d :: text, ?_, ?_, ?_, (bytesOfHex_unsignedPairs c d text).symm⟩
        · show [x, y] ++ encode text = encode ([c, d] ++ text)
          rw [encode_append, hchunk]
        · simp [htext, Nat.mul_succ]
        · rw [unsignedPairs, isHex_append]
          exact ⟨hhex, hrestHex⟩
      · rintro ⟨text, hbytes, htext, hhex, rfl⟩
        match text, htext with
        | c :: d :: text, htext =>
          obtain ⟨hpair, hothers⟩ := (isHex_append _ _).mp hhex
          have hsplit : [x, y] ++ rest = encode [c, d] ++ encode text := by
            rw [← encode_append]
            exact hbytes
          obtain ⟨hchunk, rfl⟩ := List.append_inj hsplit (length_encode_of_isHex hpair).symm
          have hlength : text.length = 2 * k := by simpa [Nat.mul_succ] using htext
          rw [(parseHexByte_iff rfl).mpr ⟨c, d, hchunk, hpair, rfl⟩,
            (ih hrest).mpr ⟨text, rfl, hlength, hothers, rfl⟩, bytesOfHex_unsignedPairs]
          rfl

@[simp] theorem length_unsignedPairs (text : List Char) :
    (unsignedPairs text).length = text.length := by
  fun_induction unsignedPairs text with
  | case1 a b rest ih =>
    rw [List.length_append, length_unsigned, ih]
    exact Nat.add_comm 2 _
  | case2 text h => rfl

theorem length_encode_of_pairs (k : ℕ) {text : List Char} (hlen : text.length = 2 * k)
    (hhex : isHex (unsignedPairs text) = true) : (encode text).length = 2 * k := by
  induction k generalizing text with
  | zero => rw [List.length_eq_zero_iff.mp hlen]; rfl
  | succ k ih =>
    match text, hlen with
    | c :: d :: rest, hlen =>
      obtain ⟨hpair, hrest⟩ := (isHex_append _ _).mp hhex
      show (encode ([c, d] ++ rest)).length = _
      rw [encode_append, List.length_append, length_encode_of_isHex hpair,
        ih (by simpa [Nat.mul_succ] using hlen) hrest, List.length_cons, List.length_singleton]
      omega

/-- The packet: as many pairs as it has bytes. -/
theorem mapM_wire_iff {wireHex : List Char} {wireBytes : List UInt8} :
    (encode wireHex).length = MeshPacket.wirePayloadLen * 2 ∧
        (chunksOfTwo (encode wireHex)).mapM parseHexByte = some wireBytes ↔
      wireHex.length = MeshPacket.wirePayloadLen * 2 ∧ isHex (unsignedPairs wireHex) = true ∧
        wireBytes = bytesOfHex (unsignedPairs wireHex) := by
  rw [Nat.mul_comm]
  constructor
  · rintro ⟨hlen, hread⟩
    obtain ⟨text, htext, hlength, hhex, rfl⟩ := (mapM_parseHexByte_iff _ hlen).mp hread
    obtain rfl := encode_injective htext
    exact ⟨hlength, hhex, rfl⟩
  · rintro ⟨hlength, hhex, rfl⟩
    have hlen := length_encode_of_pairs _ hlength hhex
    exact ⟨hlen, (mapM_parseHexByte_iff _ hlen).mpr ⟨wireHex, rfl, hlength, hhex, rfl⟩⟩

/-- What the reader takes from two words. -/
theorem parsePktLine_words {line srcNodeHex wireHex : List Char} {wirePkt : ReceivedWirePacket}
    (hwords : PktWords line srcNodeHex wireHex) :
    parsePktLine line = some wirePkt ↔
      PktDigits (unsigned srcNodeHex) (unsignedPairs wireHex) ∧
        wirePkt = pktOfDigits (unsigned srcNodeHex) (unsignedPairs wireHex) := by
  obtain ⟨remainder, rfl, hsplit⟩ := hwords
  rw [parsePktLine, dropPrefix?_pktMarker]
  simp only [hsplit]
  constructor
  · intro hread
    split_ifs at hread with hlen
    obtain ⟨hsrcLen, hwireLen⟩ := not_or.mp hlen
    cases hradix : fromStrRadix16 32 srcNodeHex with
    | none => simp [hradix] at hread
    | some srcNodeId =>
      simp only [hradix] at hread
      cases hmap : (chunksOfTwo (encode wireHex)).mapM parseHexByte with
      | none => simp [hmap] at hread
      | some wireBytes =>
        simp only [hmap] at hread
        obtain ⟨hsrc, hsrcHex, rfl⟩ := fromStrRadix16_id_iff.mp ⟨not_not.mp hsrcLen, hradix⟩
        obtain ⟨hwire, hwireHex, rfl⟩ := mapM_wire_iff.mp ⟨not_not.mp hwireLen, hmap⟩
        refine ⟨⟨?_, ?_, hsrcHex, hwireHex⟩, (Option.some.inj hread).symm⟩
        · rw [length_unsigned, hsrc]
        · rw [length_unsignedPairs, hwire]
  · rintro ⟨⟨hsrc, hwire, hsrcHex, hwireHex⟩, rfl⟩
    rw [length_unsigned] at hsrc
    rw [length_unsignedPairs] at hwire
    obtain ⟨hsrcLen, hradix⟩ := fromStrRadix16_id_iff.mpr ⟨hsrc, hsrcHex, rfl⟩
    obtain ⟨hwireLen, hmap⟩ := mapM_wire_iff.mpr ⟨hwire, hwireHex, rfl⟩
    rw [if_neg (not_or.mpr ⟨not_not.mpr hsrcLen, not_not.mpr hwireLen⟩), hradix, hmap]
    rfl

/-- **What the reader takes.** The words of the grammar, once signs are read as zeros. -/
theorem parsePktLine_eq_some_iff {line : List Char} {wirePkt : ReceivedWirePacket} :
    parsePktLine line = some wirePkt ↔
      ∃ srcNodeHex wireHex, PktWords line srcNodeHex wireHex ∧
        PktDigits (unsigned srcNodeHex) (unsignedPairs wireHex) ∧
          wirePkt = pktOfDigits (unsigned srcNodeHex) (unsignedPairs wireHex) := by
  constructor
  · intro hread
    by_cases hmarker : pktMarker <+: line
    · obtain ⟨remainder, rfl⟩ := hmarker
      -- Any other number of words is refused.
      rcases hsplit : splitWhitespace remainder with
        _ | ⟨srcNodeHex, _ | ⟨wireHex, _ | ⟨extra, more⟩⟩⟩
      · simp [parsePktLine, dropPrefix?_pktMarker, hsplit] at hread
      · simp [parsePktLine, dropPrefix?_pktMarker, hsplit] at hread
      · have hwords : PktWords (pktMarker ++ remainder) srcNodeHex wireHex :=
          ⟨remainder, rfl, hsplit⟩
        exact ⟨srcNodeHex, wireHex, hwords, (parsePktLine_words hwords).mp hread⟩
      · simp [parsePktLine, dropPrefix?_pktMarker, hsplit] at hread
    · simp [parsePktLine, dropPrefix?_of_not_prefix hmarker] at hread
  · rintro ⟨srcNodeHex, wireHex, hwords, hdigits⟩
    exact (parsePktLine_words hwords).mpr hdigits

/-! ### Signs -/

/-- Digits have no sign to be read as a zero. -/
theorem unsignedPairs_of_notMem {text : List Char} (h : '+' ∉ text) :
    unsignedPairs text = text := by
  fun_induction unsignedPairs text with
  | case1 a b rest ih =>
    simp only [List.mem_cons, not_or] at h
    rw [unsigned_of_ne (Ne.symm h.1), ih h.2.2, List.cons_append, List.singleton_append]
  | case2 text => rfl

theorem PktWords.unique {line srcNodeHex wireHex srcNodeHex' wireHex' : List Char}
    (h : PktWords line srcNodeHex wireHex) (h' : PktWords line srcNodeHex' wireHex') :
    srcNodeHex = srcNodeHex' ∧ wireHex = wireHex' := by
  obtain ⟨remainder, rfl, hsplit⟩ := h
  obtain ⟨remainder', heq, hsplit'⟩ := h'
  obtain rfl := List.append_cancel_left heq
  rw [hsplit] at hsplit'
  simpa using hsplit'

/-- In the grammar no sign stands anywhere. -/
theorem PktDigits.notMem {srcNodeHex wireHex : List Char} (h : PktDigits srcNodeHex wireHex) :
    '+' ∉ srcNodeHex ++ wireHex := by
  rw [List.mem_append, not_or]
  exact ⟨plus_notMem_of_isHex h.srcHex, plus_notMem_of_isHex h.wireHex⟩

theorem PktDigits.unsigned {srcNodeHex wireHex : List Char} (h : PktDigits srcNodeHex wireHex) :
    Text.unsigned srcNodeHex = srcNodeHex ∧ unsignedPairs wireHex = wireHex :=
  ⟨unsigned_of_notMem (plus_notMem_of_isHex h.srcHex),
    unsignedPairs_of_notMem (plus_notMem_of_isHex h.wireHex)⟩

/-- The reader returns, and returns the packets of the grammar and no other. -/
def ReadsExactly (line : List Char) : Prop :=
  ∃ result, parsePktLineChecked line = some result ∧
    ∀ wirePkt, result = some wirePkt ↔ IsPktLine line wirePkt

theorem readsExactly_iff {line : List Char} :
    ReadsExactly line ↔ ∀ wirePkt, parsePktLine line = some wirePkt ↔ IsPktLine line wirePkt := by
  rw [ReadsExactly, parsePktLineChecked_eq]
  simp

/-- A signed line is read and is outside the grammar. -/
theorem SignedPktLine.not_readsExactly {line : List Char} (h : SignedPktLine line) :
    ¬ ReadsExactly line := by
  obtain ⟨srcNodeHex, wireHex, hwords, hdigits, hsign⟩ := h
  intro hexact
  have hread := (parsePktLine_words hwords).mpr ⟨hdigits, rfl⟩
  obtain ⟨srcNodeHex', wireHex', hwords', hdigits', -⟩ := (readsExactly_iff.mp hexact _).mp hread
  obtain ⟨rfl, rfl⟩ := hwords.unique hwords'
  exact hdigits'.notMem hsign

/-- **Exact but for signs.** On every line the reader returns, and it returns the packets of
the grammar and no other exactly when no sign stands where a digit should. -/
theorem pkt_line_exact_iff (line : List Char) : ReadsExactly line ↔ ¬ SignedPktLine line := by
  constructor
  · exact fun hexact hsigned => hsigned.not_readsExactly hexact
  · intro plain
    rw [readsExactly_iff]
    intro wirePkt
    rw [parsePktLine_eq_some_iff]
    constructor
    · rintro ⟨srcNodeHex, wireHex, hwords, hdigits, rfl⟩
      -- Without a sign nothing was replaced.
      have hsign : '+' ∉ srcNodeHex ++ wireHex :=
        fun hmem => plain ⟨srcNodeHex, wireHex, hwords, hdigits, hmem⟩
      rw [List.mem_append, not_or] at hsign
      rw [unsigned_of_notMem hsign.1, unsignedPairs_of_notMem hsign.2] at hdigits ⊢
      exact ⟨srcNodeHex, wireHex, hwords, hdigits, rfl⟩
    · rintro ⟨srcNodeHex, wireHex, hwords, hdigits, rfl⟩
      obtain ⟨hsrc, hwire⟩ := hdigits.unsigned
      exact ⟨srcNodeHex, wireHex, hwords, by rwa [hsrc, hwire], by rw [hsrc, hwire]⟩

/-- A line whose id is a sign and seven digits. -/
def signedLine : List Char :=
  pktMarker ++ ('+' :: List.replicate 7 '1' ++ ' ' :: List.replicate 228 '0')

theorem signedPktLine_signedLine : SignedPktLine signedLine := by
  have hsrc : ∀ c ∈ '+' :: List.replicate 7 '1', isWhitespace c = false :=
    List.forall_mem_cons.mpr ⟨rfl, fun c hc => by rw [List.eq_of_mem_replicate hc]; rfl⟩
  have hwire : ∀ c ∈ List.replicate 228 '0', isWhitespace c = false :=
    fun c hc => by rw [List.eq_of_mem_replicate hc]; rfl
  have hplain : '+' ∉ List.replicate 228 '0' := by
    intro hmem
    exact absurd (List.eq_of_mem_replicate hmem) (by decide)
  refine ⟨'+' :: List.replicate 7 '1', List.replicate 228 '0', ⟨_, rfl, ?_⟩, ?_, List.mem_cons_self⟩
  · exact splitWhitespace_two hsrc hwire (List.cons_ne_nil _ _) (List.cons_ne_nil _ _)
  · rw [unsignedPairs_of_notMem hplain]
    have hhex : isHex (List.replicate 228 '0') = true :=
      List.all_eq_true.mpr fun c hc => by rw [List.eq_of_mem_replicate hc]; rfl
    exact ⟨rfl, List.length_replicate, rfl, hhex⟩

/-- The line is read, and is outside the grammar. -/
theorem signed_line_read :
    (parsePktLine signedLine).map ReceivedWirePacket.srcNodeId = some 0x01111111 ∧
      ¬ ReadsExactly signedLine :=
  ⟨by decide +kernel, signedPktLine_signedLine.not_readsExactly⟩

end Gibberish.Daemon
