/-
# Fragmentation of outbound texts

A text is cut into 80-byte pieces, each encrypted under the sender's subkey and
wrapped in a packet. The message id packs the low half of the message counter
under the upper half of the node id, and doubles as the ratchet counter. The
packet headers count chunks in one byte, which truncates the number of pieces.
-/

import Gibberish.Crypto.Transparent
import Gibberish.Daemon.Nonce
import Gibberish.Foundation.Fragments

set_option autoImplicit false

namespace Gibberish.Daemon

open Gibberish.Foundation Gibberish.Protocol Gibberish.Crypto

/-- The most chunks a text may need. -/
def maxTotalChunks : ℕ := 800

/-- The UTF-8 bytes of a text. -/
def asBytes (text : String) : List UInt8 := text.toByteArray.data.toList

/-- The text that has the given UTF-8 bytes, if there is one. -/
def fromUtf8 (bytes : List UInt8) : Option String := String.fromUTF8? ⟨bytes.toArray⟩

theorem fromUtf8_asBytes (text : String) : fromUtf8 (asBytes text) = some text := by
  have hbytes : (⟨(asBytes text).toArray⟩ : ByteArray) = text.toByteArray := by
    simp [asBytes]
  rw [fromUtf8, hbytes, String.fromUTF8?, dif_pos text.isValidUTF8]
  rfl

/-- A text that is read back has the bytes it was read from. -/
theorem asBytes_of_fromUtf8 {bytes : List UInt8} {text : String} (h : fromUtf8 bytes = some text) :
    asBytes text = bytes := by
  simp only [fromUtf8, String.fromUTF8?] at h
  split at h
  · obtain rfl := Option.some.inj h
    rfl
  · cases h

/-- The 32-bit id a message counter gets on a node. -/
def messageId (localNodeId : UInt32) (counter : UInt64) : UInt32 :=
  (localNodeId &&& 0xFFFF0000) ||| (counter &&& 0xFFFF).toUInt32

/-- The arguments of one `encrypt_chunk` invocation. -/
structure EncryptCall where
  sessionKey : Bytes 32
  msgId : UInt32
  chunkIdx : UInt8
  ratchetCounter : UInt64
  plaintext : List UInt8
  deriving DecidableEq

/-- The invocations that encrypt a text, chunk by chunk. -/
def chunkCalls (senderKey : Bytes 32) (msgId : UInt32) (totalChunks : UInt8)
    (rawBytes : List UInt8) : List EncryptCall :=
  (List.range totalChunks.toNat).map fun i =>
    ⟨senderKey, msgId, UInt8.ofNat i, msgId.toUInt64, piece rawBytes plaintextChunkLen i⟩

/-- The header of a data packet. -/
def dataHeader (swarmTag : UInt64) (msgId : UInt32) (chunkIdx totalChunks : UInt8) : MeshHeader where
  networkTag := swarmTag
  msgId := msgId
  chunkIdx := chunkIdx
  totalChunks := totalChunks
  ttl := 7
  hopCount := 0
  flags := flagClipboard

variable (P : Primitives)

/-- Encrypt one chunk and wrap it in a packet. -/
def sealChunk (swarmTag : UInt64) (totalChunks : UInt8) (call : EncryptCall) :
    Except CryptoError MeshPacket :=
  match P.encryptChunk call.sessionKey call.msgId call.chunkIdx call.ratchetCounter
      call.plaintext with
  | .error e => .error e
  | .ok ciphertext => .ok ⟨dataHeader swarmTag call.msgId call.chunkIdx totalChunks, ciphertext⟩

/-- Seal the chunks in order; the first failure ends the loop. -/
def sealChunks (swarmTag : UInt64) (totalChunks : UInt8) :
    List EncryptCall → Except CryptoError (List MeshPacket)
  | [] => .ok []
  | call :: rest =>
    match sealChunk P swarmTag totalChunks call with
    | .error e => .error e
    | .ok packet =>
      match sealChunks swarmTag totalChunks rest with
      | .error e => .error e
      | .ok packets => .ok (packet :: packets)

/-- Split a text into encrypted packets under a freshly allocated counter. -/
def fragmentAndEncrypt (text : String) (swarmTag : UInt64) (localNodeId : UInt32)
    (swarmMasterKey : Bytes 32) (mgr : NonceManager) (io : IoOutcome) (file : StateFile) :
    Except CryptoError (List MeshPacket) × NonceManager × StateFile :=
  let rawBytes := asBytes text
  if rawBytes.isEmpty then (.ok [], mgr, file)
  else
    let numChunks := pieceCount plaintextChunkLen rawBytes.length
    if numChunks > maxTotalChunks then (.error .payloadTooLarge, mgr, file)
    else
      -- `num_chunks as u8`
      let totalChunks := UInt8.ofNat numChunks
      match mgr.allocateMsg io file with
      | (.error _, mgr, file) => (.error .invalidNonce, mgr, file)
      | (.ok (_, counter), mgr, file) =>
        let msgId := messageId localNodeId counter
        let senderKey := P.deriveSenderSubkey swarmMasterKey localNodeId
        (sealChunks P swarmTag totalChunks (chunkCalls senderKey msgId totalChunks rawBytes),
          mgr, file)

/-! ### What the packets are -/

variable {P}

/-- The packet that carries chunk `i` of a text: its header and a ciphertext that
`encrypt_chunk` produced for it. -/
def CarriesChunk (P : Primitives) (swarmTag : UInt64) (senderKey : Bytes 32) (msgId : UInt32)
    (totalChunks : UInt8) (rawBytes : List UInt8) (i : ℕ) (packet : MeshPacket) : Prop :=
  packet.header = dataHeader swarmTag msgId (UInt8.ofNat i) totalChunks ∧
    P.encryptChunk senderKey msgId (UInt8.ofNat i) msgId.toUInt64
      (piece rawBytes plaintextChunkLen i) = .ok packet.payload

theorem sealChunks_ok {swarmTag : UInt64} {totalChunks : UInt8} {calls : List EncryptCall}
    {packets : List MeshPacket} (h : sealChunks P swarmTag totalChunks calls = .ok packets) :
    List.Forall₂ (fun call packet => sealChunk P swarmTag totalChunks call = .ok packet)
      calls packets := by
  induction calls generalizing packets with
  | nil =>
    obtain rfl := Except.ok.inj h
    exact .nil
  | cons call rest ih =>
    simp only [sealChunks] at h
    cases hseal : sealChunk P swarmTag totalChunks call with
    | error e => simp [hseal] at h
    | ok packet =>
      cases hrest : sealChunks P swarmTag totalChunks rest with
      | error e => simp [hseal, hrest] at h
      | ok packets' =>
        simp only [hseal, hrest, Except.ok.injEq] at h
        rw [← h]
        exact .cons hseal (ih hrest)

/-- Sealing the calls of a text yields one packet per chunk of the truncated count. -/
theorem sealChunks_chunkCalls {swarmTag : UInt64} {senderKey : Bytes 32} {msgId : UInt32}
    {totalChunks : UInt8} {rawBytes : List UInt8} {packets : List MeshPacket}
    (h : sealChunks P swarmTag totalChunks (chunkCalls senderKey msgId totalChunks rawBytes) =
      .ok packets) :
    packets.length = totalChunks.toNat ∧ ∀ i packet, packets[i]? = some packet →
      CarriesChunk P swarmTag senderKey msgId totalChunks rawBytes i packet := by
  have hall := sealChunks_ok h
  have hlen : packets.length = totalChunks.toNat := by
    have := hall.length_eq
    simpa [chunkCalls] using this.symm
  refine ⟨hlen, fun i packet hpacket => ?_⟩
  obtain ⟨hi, hget⟩ := List.getElem?_eq_some_iff.mp hpacket
  have hcall := hall.get (by simpa [chunkCalls, ← hlen] using hi) hi
  simp only [List.get_eq_getElem, chunkCalls, List.getElem_map, List.getElem_range, sealChunk,
    hget] at hcall
  split at hcall
  · cases hcall
  · next ciphertext hencrypt =>
    obtain rfl := Except.ok.inj hcall
    exact ⟨rfl, hencrypt⟩

/-- Only a nonempty text has packets. -/
theorem asBytes_ne_nil_of_mem {text : String} {swarmTag : UInt64} {localNodeId : UInt32}
    {swarmMasterKey : Bytes 32} {mgr : NonceManager} {io : IoOutcome} {file : StateFile}
    {packets : List MeshPacket} {packet : MeshPacket}
    (h : (fragmentAndEncrypt P text swarmTag localNodeId swarmMasterKey mgr io file).1 =
      .ok packets) (mem : packet ∈ packets) : asBytes text ≠ [] := by
  intro hempty
  simp only [fragmentAndEncrypt, hempty] at h
  obtain rfl := Except.ok.inj h
  cases mem

/-- What a successful fragmentation of a nonempty text returned. -/
theorem fragmentAndEncrypt_ok {text : String} {swarmTag : UInt64} {localNodeId : UInt32}
    {swarmMasterKey : Bytes 32} {mgr : NonceManager} {io : IoOutcome} {file : StateFile}
    {packets : List MeshPacket} (hne : asBytes text ≠ [])
    (h : (fragmentAndEncrypt P text swarmTag localNodeId swarmMasterKey mgr io file).1 =
      .ok packets) :
    pieceCount plaintextChunkLen (asBytes text).length ≤ maxTotalChunks ∧
      packets.length = (UInt8.ofNat (pieceCount plaintextChunkLen (asBytes text).length)).toNat ∧
      ∀ i packet, packets[i]? = some packet →
        CarriesChunk P swarmTag (P.deriveSenderSubkey swarmMasterKey localNodeId)
          (messageId localNodeId mgr.currentCounter)
          (UInt8.ofNat (pieceCount plaintextChunkLen (asBytes text).length)) (asBytes text)
          i packet := by
  have hnonempty : (asBytes text).isEmpty = false := by simpa using hne
  simp only [fragmentAndEncrypt, hnonempty] at h
  simp only [Bool.false_eq_true, if_false] at h
  split at h
  · cases h
  · next hfits =>
    split at h
    · cases h
    · next epoch counter mgr' file' halloc =>
      have hcounter : counter = mgr.currentCounter :=
        NonceManager.counter_of_allocateMsg (congrArg Prod.fst halloc)
      subst hcounter
      exact ⟨Nat.not_lt.mp hfits, sealChunks_chunkCalls h⟩

section Sent

variable {text : String} {swarmTag : UInt64} {localNodeId : UInt32} {swarmMasterKey : Bytes 32}
variable {mgr : NonceManager} {io : IoOutcome} {file : StateFile} {packets : List MeshPacket}
variable {packet : MeshPacket}

/-- A packet that was returned carries one of the chunks. -/
theorem exists_carriesChunk
    (sent : (fragmentAndEncrypt P text swarmTag localNodeId swarmMasterKey mgr io file).1 =
      .ok packets) (mem : packet ∈ packets) :
    ∃ i < (UInt8.ofNat (pieceCount plaintextChunkLen (asBytes text).length)).toNat,
      CarriesChunk P swarmTag (P.deriveSenderSubkey swarmMasterKey localNodeId)
        (messageId localNodeId mgr.currentCounter)
        (UInt8.ofNat (pieceCount plaintextChunkLen (asBytes text).length)) (asBytes text) i
        packet := by
  obtain ⟨-, hlen, hcarries⟩ := fragmentAndEncrypt_ok (asBytes_ne_nil_of_mem sent mem) sent
  obtain ⟨i, hi⟩ := List.mem_iff_getElem?.mp mem
  exact ⟨i, hlen ▸ (List.getElem?_eq_some_iff.mp hi).1, hcarries i packet hi⟩

/-- The packets of a text share their message id, and one of them is chunk zero. -/
theorem exists_firstChunk
    (sent : (fragmentAndEncrypt P text swarmTag localNodeId swarmMasterKey mgr io file).1 =
      .ok packets) (mem : packet ∈ packets) :
    ∃ first ∈ packets, (first.header.msgId, first.header.chunkIdx) = (packet.header.msgId, 0) := by
  obtain ⟨-, -, hcarries⟩ := fragmentAndEncrypt_ok (asBytes_ne_nil_of_mem sent mem) sent
  obtain ⟨i, hi⟩ := List.mem_iff_getElem?.mp mem
  obtain ⟨first, rest, rfl⟩ := List.exists_cons_of_ne_nil (List.ne_nil_of_mem mem)
  refine ⟨first, List.mem_cons_self, ?_⟩
  -- All headers carry the id of the one counter that was allocated.
  rw [(hcarries 0 first rfl).1, (hcarries i packet hi).1]
  rfl

end Sent

/-- The packets a node sends for a text under the transparent primitives. -/
def transparentPackets (text : String) (localNodeId : UInt32) : List MeshPacket :=
  match (fragmentAndEncrypt transparent text defaultNetworkTag localNodeId (.zero 32) ⟨1, 0, 1000⟩
    .ok .missing).1 with
  | .ok packets => packets
  | .error _ => []

end Gibberish.Daemon
