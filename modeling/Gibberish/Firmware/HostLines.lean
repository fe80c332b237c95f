/-
# The lines for the host

How a dongle prints a packet it forwards: a marker, the source node id and the
packet's bytes, in upper-case hexadecimal.
-/

import Gibberish.Daemon.Transport
import Gibberish.Firmware.MainLoop

set_option autoImplicit false

namespace Gibberish.Firmware

open Gibberish.Foundation Gibberish.Foundation.Text Gibberish.Protocol
open Gibberish.Daemon (fromUtf8 fromUtf8_encode parsePktLine parsePktLine_printed pktMarker)

/-- "0123456789ABCDEF" in ASCII. -/
def hexDigits : List UInt8 :=
  [0x30, 0x31, 0x32, 0x33, 0x34, 0x35, 0x36, 0x37, 0x38, 0x39, 0x41, 0x42, 0x43, 0x44, 0x45, 0x46]

/-- The digits of a packet's bytes. -/
def hexBuf (packet : MeshPacket) : List UInt8 :=
  (packet.serializePayload (.zero _)).toList.flatMap fun (b : UInt8) =>
    [hexDigits.getD (b >>> 4).toNat 0, hexDigits.getD (b &&& 0xF).toNat 0]

/-- The `#PKT#` line of a packet, if its digits are a text. -/
def pktLineText (srcNodeId : UInt32) (packet : MeshPacket) : Option (List Char) :=
  match fromUtf8 (hexBuf packet) with
  | none => none
  | some hexStr =>
    some (['#', 'P', 'K', 'T', '#', ' '] ++ (upperHex 8 srcNodeId.toNat ++ ' ' :: hexStr.toList))

/-- The `#PKT#` lines among some outputs. -/
def pktLines (outputs : List DongleOutput) : List (List Char) :=
  outputs.flatMap fun
    | .pktLine srcNodeId packet => (pktLineText srcNodeId packet).toList
    | _ => []

theorem hexDigits_getD (n : ℕ) : hexDigits.getD (n % 16) 0 = (upperHexDigit n).val.toUInt8 :=
  upperHexDigit_induction (P := fun i c => hexDigits.getD i 0 = c.val.toUInt8) (by decide) n

/-- Both nibbles of a byte get their digit. -/
theorem digits_eq_upperHex (b : UInt8) :
    [hexDigits.getD (b >>> 4).toNat 0, hexDigits.getD (b &&& 0xF).toNat 0] =
      encode (upperHex 2 b.toNat) := by
  have hhigh : (b >>> 4).toNat = b.toNat / 16 % 16 := by
    have hlt : b.toNat < 256 := b.toNat_lt
    rw [UInt8.toNat_shiftRight]
    show b.toNat >>> 4 = _
    rw [Nat.shiftRight_eq_div_pow]
    omega
  have hlow : (b &&& 0xF).toNat = b.toNat % 16 := by
    rw [UInt8.toNat_and]
    exact Nat.and_two_pow_sub_one_eq_mod b.toNat 4
  have hascii : ∀ c ∈ upperHex 2 b.toNat, c.val ≤ 127 := by
    intro c hc
    obtain ⟨m, rfl⟩ := exists_of_mem_upperHex hc
    exact upperHexDigit_ascii m
  rw [hhigh, hlow, hexDigits_getD, hexDigits_getD, encode_ascii hascii]
  simp only [upperHex, Nat.pow_one, Nat.pow_zero, Nat.div_one, List.map_cons, List.map_nil]

theorem hexBuf_eq (packet : MeshPacket) :
    hexBuf packet = encode (hexOfBytes (packet.serializePayload (.zero _)).toList) := by
  rw [hexOfBytes, encode, List.flatMap_assoc, hexBuf]
  exact List.flatMap_congr fun b _ => digits_eq_upperHex b

theorem pktLineText_eq (srcNodeId : UInt32) (packet : MeshPacket) :
    pktLineText srcNodeId packet = some (pktMarker ++ (upperHex 8 srcNodeId.toNat ++
      ' ' :: hexOfBytes (packet.serializePayload (.zero _)).toList)) := by
  have hdigits : fromUtf8 (hexBuf packet) =
      some (String.ofList (hexOfBytes (packet.serializePayload (.zero _)).toList)) := by
    rw [hexBuf_eq, fromUtf8_encode]
  unfold pktLineText
  rw [hdigits]
  dsimp only
  rw [String.toList_ofList, pktMarker]

/-- Every packet has a line, and the host reads the packet and its source from it. -/
theorem pktLineText_read (srcNodeId : UInt32) (packet : MeshPacket) :
    ∃ line, pktLineText srcNodeId packet = some line ∧
      parsePktLine line = some ⟨srcNodeId, packet⟩ :=
  ⟨_, pktLineText_eq srcNodeId packet, parsePktLine_printed srcNodeId packet⟩

end Gibberish.Firmware
