/-
# Mesh headers and packets

The 18-byte mesh header, the packet of header and 96-byte payload, and their wire
layout. Reading back a written header or packet gives it unchanged.
-/

import Gibberish.Foundation.ByteBuffer

set_option autoImplicit false

namespace Gibberish.Protocol

open Gibberish.Foundation

/-- IEEE 802.15.4 MAC header length in bytes. -/
abbrev mhrLen : ℕ := 11

/-- Mesh header length in bytes. -/
abbrev meshHeaderLen : ℕ := 18

/-- Usable plaintext bytes per mesh frame. -/
abbrev plaintextChunkLen : ℕ := 80

/-- Poly1305 authentication tag length. -/
abbrev authTagLen : ℕ := 16

/-- Encrypted payload length. -/
abbrev ciphertextLen : ℕ := plaintextChunkLen + authTagLen

/-- Hardware frame check sequence length. -/
abbrev fcsLen : ℕ := 2

/-- The physical frame, 127 bytes. -/
abbrev phyMtu : ℕ := mhrLen + meshHeaderLen + ciphertextLen + fcsLen

def flagClipboard : UInt16 := 0x0004
def flagAckReq : UInt16 := 0x0010
def flagTelemetry : UInt16 := 0x0020
def flagSack : UInt16 := 0x0040

/-- The link quality a packet needs to be relayed. -/
def minRelayLqi : UInt8 := 30

/-- Contention delay in milliseconds: strong links relay first. -/
def calculateLqiRelayJitter (lqi : UInt8) (randomVal : UInt16) : UInt16 :=
  let invLqi := 255 - lqi.toUInt16
  let baseDelay := 15 + invLqi * 35 / 255
  baseDelay + randomVal % 15

/-- "GIBBERIS" in big-endian ASCII. -/
def defaultNetworkTag : UInt64 := 0x4749424245524953

/-- The tag of paired nodes. -/
def swarmNetworkTag : UInt64 := 0xD75118D87E4159D2

def isValidNetworkTag (tag : UInt64) : Bool :=
  tag = defaultNetworkTag || tag = swarmNetworkTag

/-- The header every mesh frame starts with. -/
structure MeshHeader where
  networkTag : UInt64
  msgId : UInt32
  chunkIdx : UInt8
  totalChunks : UInt8
  ttl : UInt8
  hopCount : UInt8
  flags : UInt16
  deriving DecidableEq, Repr

namespace MeshHeader

/-- Write the fields into a header buffer. -/
def serialize (header : MeshHeader) (buf : Bytes meshHeaderLen) : Bytes meshHeaderLen :=
  (((((((buf.copyFromSlice 0 (u64ToBeBytes header.networkTag)).copyFromSlice 8
    (u32ToBeBytes header.msgId)).copyFromSlice 12 [header.chunkIdx]).copyFromSlice 13
    [header.totalChunks]).copyFromSlice 14 [header.ttl]).copyFromSlice 15
    [header.hopCount]).copyFromSlice 16 (u16ToBeBytes header.flags))

/-- Read the fields from a header buffer. -/
def deserialize (buf : Bytes meshHeaderLen) : MeshHeader where
  networkTag := u64FromBeBytes (buf.slice 0 8)
  msgId := u32FromBeBytes (buf.slice 8 4)
  chunkIdx := buf[12]
  totalChunks := buf[13]
  ttl := buf[14]
  hopCount := buf[15]
  flags := u16FromBeBytes (buf.slice 16 2)

/-- Reading back a written header gives the header, whatever the buffer held. -/
theorem deserialize_serialize (header : MeshHeader) (buf : Bytes meshHeaderLen) :
    deserialize (header.serialize buf) = header := by
  have htag : (header.serialize buf).slice 0 8 = u64ToBeBytes header.networkTag := by
    simp only [serialize]
    iterate 6 rw [Bytes.slice_copyFromSlice_of_disjoint _ (by simp)]
    exact Bytes.slice_copyFromSlice _ (by simp) (by decide)
  have hmsg : (header.serialize buf).slice 8 4 = u32ToBeBytes header.msgId := by
    simp only [serialize]
    iterate 5 rw [Bytes.slice_copyFromSlice_of_disjoint _ (by simp)]
    exact Bytes.slice_copyFromSlice _ (by simp) (by decide)
  have hflags : (header.serialize buf).slice 16 2 = u16ToBeBytes header.flags := by
    simp only [serialize]
    exact Bytes.slice_copyFromSlice _ (by simp) (by decide)
  obtain ⟨networkTag, msgId, chunkIdx, totalChunks, ttl, hopCount, flags⟩ := header
  simp only [deserialize, htag, hmsg, hflags, u64FromBeBytes_toBeBytes, u32FromBeBytes_toBeBytes,
    u16FromBeBytes_toBeBytes]
  simp [serialize, Bytes.getElem_copyFromSlice]

/-- Every header buffer is what its header is written as. -/
theorem serialize_deserialize (buf out : Bytes meshHeaderLen) :
    (deserialize buf).serialize out = buf := by
  have hbyte : ∀ (i : ℕ) (hi : i < meshHeaderLen), [buf[i]] = buf.slice i 1 := by
    intro i hi
    have hlen : i < buf.toList.length := by simpa using hi
    rw [Bytes.slice, List.take_one_drop_eq_of_lt_length hlen, List.get_eq_getElem,
      Vector.getElem_toList]
  have hlen : ∀ off len : ℕ, off + len ≤ meshHeaderLen → (buf.slice off len).length = len := by
    intro off len h
    rw [Bytes.slice, List.length_take, List.length_drop, Bytes.toList_length]
    omega
  -- Every field is written as the slice it was read from, and the slices cover the buffer.
  ext i hi
  simp only [serialize, deserialize, hbyte, u16ToBeBytes_fromBeBytes (hlen 16 2 (by decide)),
    u32ToBeBytes_fromBeBytes (hlen 8 4 (by decide)), u64ToBeBytes_fromBeBytes (hlen 0 8 (by decide))]
  iterate 7 rw [Bytes.getElem_copyFromSlice_slice _ _ (by decide)]
  have hcover : i < 18 := hi
  split_ifs <;> first | rfl | omega

end MeshHeader

/-- A header with an opaque payload. -/
structure MeshPacket where
  header : MeshHeader
  payload : Bytes ciphertextLen
  deriving DecidableEq

namespace MeshPacket

/-- Length of a packet on the wire. -/
abbrev wirePayloadLen : ℕ := meshHeaderLen + ciphertextLen

/-- Write header and payload one after the other. -/
def serializePayload (packet : MeshPacket) (out : Bytes wirePayloadLen) : Bytes wirePayloadLen :=
  let hdrBuf := packet.header.serialize (.zero meshHeaderLen)
  (out.copyFromSlice 0 hdrBuf.toList).copyFromSlice meshHeaderLen packet.payload.toList

/-- Read header and payload. -/
def deserializePayload (buf : Bytes wirePayloadLen) : MeshPacket where
  header := .deserialize (buf.sub 0 meshHeaderLen (by decide))
  payload := buf.sub meshHeaderLen ciphertextLen (by decide)

/-- A buffer is determined by its bytes as a list. -/
private theorem sub_eq_of_slice {n off len : ℕ} {buf : Bytes n} {part : Bytes len}
    (h : off + len ≤ n) (hslice : buf.slice off len = part.toList) : buf.sub off len h = part := by
  apply Vector.toList_inj.mp
  rw [Bytes.toList_sub, hslice]

/-- Reading back a written packet gives the packet. -/
theorem deserializePayload_serializePayload (packet : MeshPacket) (out : Bytes wirePayloadLen) :
    deserializePayload (packet.serializePayload out) = packet := by
  have hheader : (packet.serializePayload out).sub 0 meshHeaderLen (by decide) =
      packet.header.serialize (.zero meshHeaderLen) := by
    apply sub_eq_of_slice
    simp only [serializePayload]
    rw [Bytes.slice_copyFromSlice_of_disjoint _ (by simp)]
    exact Bytes.slice_copyFromSlice _ (by simp) (by decide)
  have hpayload : (packet.serializePayload out).sub meshHeaderLen ciphertextLen (by decide) =
      packet.payload := by
    apply sub_eq_of_slice
    exact Bytes.slice_copyFromSlice _ (by simp) (by decide)
  simp only [deserializePayload, hheader, hpayload, MeshHeader.deserialize_serialize]

/-- Every wire buffer is what its packet is written as. -/
theorem serializePayload_deserializePayload (buf out : Bytes wirePayloadLen) :
    (deserializePayload buf).serializePayload out = buf := by
  simp only [serializePayload, deserializePayload, MeshHeader.serialize_deserialize, Bytes.toList_sub]
  ext i hi
  rw [Bytes.getElem_copyFromSlice_slice _ _ (by decide),
    Bytes.getElem_copyFromSlice_slice _ _ (by decide)]
  have hcover : i < 114 := hi
  have hheader : meshHeaderLen = 18 := rfl
  have hpayload : ciphertextLen = 96 := rfl
  split_ifs
  · rfl
  · rfl
  · omega

/-- Take one hop: lower the TTL and count the hop, or refuse at TTL zero. -/
def decrementTtl (packet : MeshPacket) : Option MeshPacket :=
  if packet.header.ttl > 0 then
    some { packet with
      header := { packet.header with
        ttl := packet.header.ttl - 1
        hopCount := if packet.header.hopCount = 255 then 255 else packet.header.hopCount + 1 } }
  else none

end MeshPacket

end Gibberish.Protocol
