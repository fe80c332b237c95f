/-
# The serial transport

What the daemon writes to a dongle and how it reads the dongle's lines. A packet
goes out behind three sync bytes. What comes in is buffered, cut at newlines and
read line by line: a `#PKT#` line is a packet with its source, any other line that is
not blank is a log line.
-/

import Gibberish.Daemon.Fragment
import Gibberish.Foundation.Delimited
import Gibberish.Foundation.Text

set_option autoImplicit false

namespace Gibberish.Daemon

open Gibberish.Foundation Gibberish.Foundation.Text Gibberish.Protocol

/-- The longest line a dongle may send. -/
abbrev dongleToHostLineLimit : ℕ := 1024

def hostToDongleFrameHeader : List UInt8 := [0xAA, 0x55, 0x72]

abbrev hostToDongleTotalLen : ℕ := 3 + MeshPacket.wirePayloadLen

/-- A packet as a dongle reported it. -/
structure ReceivedWirePacket where
  srcNodeId : UInt32
  packet : MeshPacket
  deriving DecidableEq

/-- What `send_packet` writes to the port. -/
def sendPacket (packet : MeshPacket) : Bytes hostToDongleTotalLen :=
  let framed := (Bytes.zero hostToDongleTotalLen).copyFromSlice 0 hostToDongleFrameHeader
  framed.copyFromSlice 3 (packet.serializePayload (.zero _)).toList

/-! ### Lines -/

def pktMarker : List Char := ['#', 'P', 'K', 'T', '#', ' ']

/-- `slice::chunks(2)`. -/
def chunksOfTwo : List UInt8 → List (List UInt8)
  | a :: b :: rest => [a, b] :: chunksOfTwo rest
  | [a] => [[a]]
  | [] => []

/-- The byte that two hex digits stand for. -/
def parseHexByte (chunk : List UInt8) : Option UInt8 :=
  match fromUtf8 chunk with
  | none => none
  | some byteStr => (fromStrRadix16 8 byteStr.toList).map UInt8.ofNat

/-- Read a packet from a `#PKT#` line. -/
def parsePktLine (line : List Char) : Option ReceivedWirePacket :=
  match line.dropPrefix? pktMarker with
  | none => none
  | some remainder =>
    match splitWhitespace remainder with
    | [srcNodeHex, wireHex] =>
      if (encode srcNodeHex).length ≠ 8 ∨
          (encode wireHex).length ≠ MeshPacket.wirePayloadLen * 2 then none
      else
        match fromStrRadix16 32 srcNodeHex with
        | none => none
        | some srcNodeId =>
          match (chunksOfTwo (encode wireHex)).mapM parseHexByte with
          | none => none
          | some wireBytes =>
            some ⟨UInt32.ofNat srcNodeId,
              .deserializePayload ((Bytes.zero MeshPacket.wirePayloadLen).copyFromSlice 0 wireBytes)⟩
    | _ => none

/-- The node id after a marker, up to a closing character or whitespace. -/
def nodeIdAfter (marker : List Char) (closing : Char) (line : List Char) : Option UInt32 :=
  match line.dropInfix? marker with
  | none => none
  | some (_, remainder) =>
    let hexPart := remainder.takeWhile fun c => !(c == closing || isWhitespace c)
    if (encode hexPart).length = 8 then (fromStrRadix16 32 hexPart).map UInt32.ofNat else none

/-- Read a dongle's node id from its telemetry or banner lines. -/
def parseDongleNodeId (line : List Char) : Option UInt32 :=
  match nodeIdAfter ['[', 'N', 'o', 'd', 'e', ' '] ']' line with
  | some id => some id
  | none => nodeIdAfter ['N', 'o', 'd', 'e', ' ', 'I', 'D', ':', ' '] '(' line

/-- A packet, or a log line. -/
inductive LineItem where
  | packet (wirePkt : ReceivedWirePacket)
  | log (text : List Char)
  deriving DecidableEq

def LineItem.packet? : LineItem → Option ReceivedWirePacket
  | .packet wirePkt => some wirePkt
  | .log _ => none

def LineItem.log? : LineItem → Option (List Char)
  | .packet _ => none
  | .log text => some text

/-- What a line holds, if it is not blank. -/
def itemOfText (text : List Char) : Option LineItem :=
  let trimmed := trim text
  if trimmed = [] then none
  else
    match parsePktLine trimmed with
    | some wirePkt => some (.packet wirePkt)
    | none => some (.log trimmed)

/-- What a line holds, if it is UTF-8 and not blank. -/
def itemOfLine (lineBytes : List UInt8) : Option LineItem :=
  match fromUtf8 lineBytes with
  | none => none
  | some text => itemOfText text.toList

/-! ### Polling -/

/-- The bytes that are read and not yet cut into lines. -/
structure SerialTransport where
  readBuf : List UInt8

namespace SerialTransport

def opened : SerialTransport := ⟨[]⟩

/-- The safety limit: a buffer that is too long loses what is before its first newline, or
everything. -/
def enforceLimit (readBuf : List UInt8) : List UInt8 :=
  if readBuf.length > dongleToHostLineLimit then
    match readBuf.idxOf? newline with
    | some pos => readBuf.drop (pos + 1)
    | none => []
  else readBuf

/-- Take the bytes of one read, if there are any; the packets and the log lines that are
complete. -/
def pollStream (t : SerialTransport) (chunk : List UInt8) :
    SerialTransport × List ReceivedWirePacket × List (List Char) :=
  if chunk = [] then (t, [], [])
  else
    let (lines, readBuf) := cut newline (enforceLimit (t.readBuf ++ chunk))
    let items := lines.filterMap itemOfLine
    (⟨readBuf⟩, items.filterMap LineItem.packet?, items.filterMap LineItem.log?)

end SerialTransport

/-! ### Reading back what is printed -/

/-- Characters are read back from their bytes. -/
theorem fromUtf8_encode (text : List Char) : fromUtf8 (encode text) = some (String.ofList text) := by
  rw [← toList_toByteArray_ofList]
  exact fromUtf8_asBytes _

theorem parseHexByte_encode (b : UInt8) : parseHexByte (encode (upperHex 2 b.toNat)) = some b := by
  rw [parseHexByte, fromUtf8_encode]
  simp only [String.toList_ofList]
  rw [fromStrRadix16_upperHex (by decide) (by decide) b.toNat_lt, Option.map_some, UInt8.ofNat_toNat]

/-- Two digits are one chunk. -/
theorem chunksOfTwo_append {chunk : List UInt8} (h : chunk.length = 2) (rest : List UInt8) :
    chunksOfTwo (chunk ++ rest) = chunk :: chunksOfTwo rest := by
  match chunk, h with
  | [a, b], _ => rfl

/-- Bytes printed in hexadecimal are read back. -/
theorem mapM_parseHexByte (bytes : List UInt8) :
    (chunksOfTwo (encode (hexOfBytes bytes))).mapM parseHexByte = some bytes := by
  induction bytes with
  | nil => rfl
  | cons b rest ih =>
    have hlen : (encode (upperHex 2 b.toNat)).length = 2 := by
      rw [length_encode_of_digits fun c => exists_of_mem_upperHex, length_upperHex]
    rw [hexOfBytes, List.flatMap_cons, ← hexOfBytes, encode_append, chunksOfTwo_append hlen,
      List.mapM_cons, parseHexByte_encode, ih]
    rfl

/-- **A line is read back.** The line of a packet, printed in upper case, is the packet. -/
theorem parsePktLine_printed (srcNodeId : UInt32) (packet : MeshPacket) :
    parsePktLine (pktMarker ++ (upperHex 8 srcNodeId.toNat ++
      ' ' :: hexOfBytes (packet.serializePayload (.zero _)).toList)) =
        some ⟨srcNodeId, packet⟩ := by
  have hdigit : ∀ {text : List Char}, (∀ c ∈ text, ∃ m, c = upperHexDigit m) →
      ∀ c ∈ text, isWhitespace c = false := by
    rintro text h c hc
    obtain ⟨m, rfl⟩ := h c hc
    exact isWhitespace_upperHexDigit m
  have hid : ∀ c ∈ upperHex 8 srcNodeId.toNat, ∃ m, c = upperHexDigit m :=
    fun c => exists_of_mem_upperHex
  have hwire : ∀ c ∈ hexOfBytes (packet.serializePayload (.zero _)).toList, ∃ m, c = upperHexDigit m :=
    fun c => exists_of_mem_hexOfBytes
  have hwireLen := length_hexOfBytes (packet.serializePayload (.zero _)).toList
  rw [Bytes.toList_length] at hwireLen
  -- Two words, the id and the packet.
  have hsplit := splitWhitespace_two (hdigit hid) (hdigit hwire)
    (List.ne_nil_of_length_eq_add_one (length_upperHex 8 _))
    (List.ne_nil_of_length_eq_add_one (n := 227) hwireLen)
  have hmarker : ∀ rest : List Char, (pktMarker ++ rest).dropPrefix? pktMarker = some rest :=
    fun rest => List.dropPrefix?_eq_some_iff.mpr ⟨pktMarker, rfl, beq_self_eq_true _⟩
  have hlens : ¬ ((encode (upperHex 8 srcNodeId.toNat)).length ≠ 8 ∨
      (encode (hexOfBytes (packet.serializePayload (.zero _)).toList)).length ≠
        MeshPacket.wirePayloadLen * 2) := by
    rw [length_encode_of_digits hid, length_encode_of_digits hwire, length_upperHex, hwireLen]
    decide
  have hradix : fromStrRadix16 32 (upperHex 8 srcNodeId.toNat) = some srcNodeId.toNat :=
    fromStrRadix16_upperHex (by decide) (by decide) srcNodeId.toNat_lt
  simp only [parsePktLine, hmarker, hsplit, if_neg hlens, hradix, mapM_parseHexByte,
    Bytes.copyFromSlice_toList, MeshPacket.deserializePayload_serializePayload, UInt32.ofNat_toNat]

/-- What goes out is the frame header and the packet. -/
theorem toList_sendPacket (packet : MeshPacket) :
    (sendPacket packet).toList =
      hostToDongleFrameHeader ++ (packet.serializePayload (.zero _)).toList := by
  have hheader : (sendPacket packet).slice 0 3 = hostToDongleFrameHeader := by
    simp only [sendPacket]
    rw [Bytes.slice_copyFromSlice_of_disjoint _ (Or.inl (by decide))]
    exact Bytes.slice_copyFromSlice _ rfl (by decide)
  have hwire : (sendPacket packet).slice 3 MeshPacket.wirePayloadLen =
      (packet.serializePayload (.zero _)).toList :=
    Bytes.slice_copyFromSlice _ (by simp) (by decide)
  rw [← Bytes.slice_append_slice _ (rfl : 3 + MeshPacket.wirePayloadLen = hostToDongleTotalLen),
    hheader, hwire]

end Gibberish.Daemon
