/-
# Texts that are sent whole

A text of up to 800 pieces is accepted, but the packets count them in one byte. The
loop over the chunks runs up to the truncated count, so a text of 256 pieces or more
loses all but its first pieces, and one of exactly 256 pieces is sent as nothing.
-/

import Gibberish.Daemon.Reassembly
import Gibberish.Foundation.Text

set_option autoImplicit false

namespace Gibberish.Daemon

open Gibberish.Foundation Gibberish.Protocol Gibberish.Crypto

variable {P : Primitives} {text : String} {swarmTag : UInt64} {localNodeId : UInt32}
variable {swarmMasterKey : Bytes 32} {mgr : NonceManager} {io : IoOutcome} {file : StateFile}
variable {packets : List MeshPacket}

/-- The pieces a text is cut into. -/
def numChunks (text : String) : ℕ := pieceCount plaintextChunkLen (asBytes text).length

/-- The packets are the chunks of the whole text: numbered in order, as many as they
say, and decrypting to the text's bytes and padding. -/
structure CarriesText (P : Primitives) (swarmMasterKey : Bytes 32) (localNodeId : UInt32)
    (text : String) (packets : List MeshPacket) : Prop where
  count : packets.length = numChunks text
  numbered : ∀ (i : ℕ) (packet : MeshPacket), packets[i]? = some packet →
    packet.header.chunkIdx.toNat = i ∧ packet.header.totalChunks.toNat = packets.length
  decrypts : ∃ chunks : List (Bytes plaintextChunkLen),
    List.Forall₂ (fun packet chunk =>
      ChunkEngine.opensTo P swarmMasterKey localNodeId packet = .ok chunk) packets chunks ∧
    (chunks.flatMap Vector.toList).take (asBytes text).length = asBytes text

/-- The counter block is used up and the next one cannot be reserved. -/
def CannotAllocate (mgr : NonceManager) (io : IoOutcome) : Prop :=
  mgr.blockLimit ≤ mgr.currentCounter ∧ io = .failed

/-! ### What the packets carry -/

/-- All chunks of a text, joined, start with its bytes. -/
theorem take_flatMap_chunkContent (rawBytes : List UInt8) :
    (((List.range (pieceCount plaintextChunkLen rawBytes.length)).map
      (chunkContent rawBytes)).flatMap Vector.toList).take rawBytes.length = rawBytes := by
  rw [List.flatMap_map]
  simp only [toList_chunkContent]
  rw [flatMap_padTo_piece, List.take_of_length_le (le_pieceCount_mul (by decide) _), padTo]
  exact List.take_left' rfl

/-- As long as one byte counts the chunks, the packets carry the whole text. -/
theorem carriesText_of_lt (correct : P.DecryptsEncrypted) (few : numChunks text < 256)
    (sent : (fragmentAndEncrypt P text swarmTag localNodeId swarmMasterKey mgr io file).1 =
      .ok packets) : CarriesText P swarmMasterKey localNodeId text packets := by
  by_cases hempty : asBytes text = []
  · have hcount : numChunks text = 0 := by
      rw [numChunks, hempty]
      rfl
    simp only [fragmentAndEncrypt, hempty] at sent
    obtain rfl := Except.ok.inj sent
    exact ⟨hcount.symm, fun i packet hpacket => by simp at hpacket, [], .nil, by simp [hempty]⟩
  · have hcarries := ChunkEngine.carries_of_fragmentAndEncrypt correct hempty sent
    obtain ⟨-, hlen, -⟩ := fragmentAndEncrypt_ok hempty sent
    have hcount : packets.length = numChunks text := by
      rw [hlen]
      exact Nat.mod_eq_of_lt few
    refine ⟨hcount, fun i packet hpacket => ?_, (List.range packets.length).map
      (chunkContent (asBytes text)), ?_, ?_⟩
    · exact ⟨(hcarries i packet hpacket).index, (hcarries i packet hpacket).total⟩
    · refine List.forall₂_of_length_eq_of_get (by simp) fun i hi hi' => ?_
      rw [List.get_eq_getElem, List.get_eq_getElem, List.getElem_map, List.getElem_range]
      exact (hcarries i _ (List.getElem?_eq_getElem hi)).opens
    · rw [hcount]
      exact take_flatMap_chunkContent (asBytes text)

/-! ### When there are packets -/

/-- Chunks that fit are sealed, one by one. -/
theorem exists_sealChunks (encrypts : P.EncryptsChunks) (totalChunks : UInt8)
    {calls : List EncryptCall} (fits : ∀ call ∈ calls, call.plaintext.length ≤ plaintextChunkLen) :
    ∃ packets, sealChunks P swarmTag totalChunks calls = .ok packets := by
  induction calls with
  | nil => exact ⟨[], rfl⟩
  | cons call rest ih =>
    obtain ⟨hcall, hrest⟩ := List.forall_mem_cons.mp fits
    obtain ⟨packets, hpackets⟩ := ih hrest
    obtain ⟨ciphertext, hciphertext⟩ := encrypts.encryptChunk call.sessionKey call.msgId
      call.chunkIdx call.ratchetCounter hcall
    rw [sealChunks, sealChunk, hciphertext]
    simp only [hpackets]
    exact ⟨_, rfl⟩

theorem length_plaintext_le {senderKey : Bytes 32} {msgId : UInt32} {totalChunks : UInt8}
    {rawBytes : List UInt8} {call : EncryptCall}
    (mem : call ∈ chunkCalls senderKey msgId totalChunks rawBytes) :
    call.plaintext.length ≤ plaintextChunkLen := by
  obtain ⟨i, -, rfl⟩ := List.mem_map.mp mem
  exact length_piece_le _ _ _

/-- An allocation fails only where the block has to be extended. -/
theorem exists_allocateMsg_of_not (can : ¬ CannotAllocate mgr io) (file : StateFile) :
    ∃ counter mgr' file', mgr.allocateMsg io file = (.ok counter, mgr', file') := by
  rcases Nat.lt_or_ge mgr.currentCounter.toNat mgr.blockLimit.toNat with hlt | hge
  · exact ⟨_, _, _, NonceManager.allocateMsg_of_lt (UInt64.lt_iff_toNat_lt.mpr hlt) io file⟩
  · have hextend : mgr.blockLimit ≤ mgr.currentCounter := UInt64.le_iff_toNat_le.mpr hge
    cases io with
    | ok => exact ⟨_, _, _, NonceManager.allocateMsg_extend hextend file⟩
    | failed => exact absurd ⟨hextend, rfl⟩ can

/-- A text of at most 800 pieces is sent, unless no counter can be allocated. -/
theorem exists_packets (encrypts : P.EncryptsChunks) (fits : numChunks text ≤ maxTotalChunks)
    (can : ¬ CannotAllocate mgr io) (swarmTag : UInt64) (localNodeId : UInt32)
    (swarmMasterKey : Bytes 32) (file : StateFile) :
    ∃ packets, (fragmentAndEncrypt P text swarmTag localNodeId swarmMasterKey mgr io file).1 =
      .ok packets := by
  obtain ⟨counter, mgr', file', halloc⟩ := exists_allocateMsg_of_not can file
  rw [numChunks] at fits
  simp only [fragmentAndEncrypt, if_neg (Nat.not_lt.mpr fits), halloc]
  split
  · exact ⟨[], rfl⟩
  · exact exists_sealChunks encrypts _ fun _ => length_plaintext_le

/-- A text of too many pieces is refused, and so is one that gets no counter. -/
theorem not_sent (nonempty : asBytes text ≠ [])
    (h : maxTotalChunks < numChunks text ∨ CannotAllocate mgr io) :
    (fragmentAndEncrypt P text swarmTag localNodeId swarmMasterKey mgr io file).1 ≠ .ok packets := by
  have hempty : (asBytes text).isEmpty = false := by simpa using nonempty
  simp only [fragmentAndEncrypt, hempty, Bool.false_eq_true, if_false]
  split
  · simp
  · rename_i hfits
    rcases h with hlong | ⟨hextend, rfl⟩
    · exact absurd hlong hfits
    · rw [NonceManager.allocateMsg_extend_failed hextend]
      simp

/-- **Whole texts.** What is sent for a text is the whole text exactly when one byte
counts its pieces, or it is refused for its length or for lack of a counter. -/
theorem carriesText_iff (correct : P.DecryptsEncrypted) (encrypts : P.EncryptsChunks)
    (text : String) (swarmTag : UInt64) (localNodeId : UInt32) (swarmMasterKey : Bytes 32)
    (mgr : NonceManager) (io : IoOutcome) (file : StateFile) :
    (∀ packets, (fragmentAndEncrypt P text swarmTag localNodeId swarmMasterKey mgr io file).1 =
        .ok packets → CarriesText P swarmMasterKey localNodeId text packets) ↔
      numChunks text < 256 ∨ maxTotalChunks < numChunks text ∨ CannotAllocate mgr io := by
  constructor
  · intro h
    by_contra hneither
    obtain ⟨hmany, hfits, hcan⟩ : 256 ≤ numChunks text ∧ numChunks text ≤ maxTotalChunks ∧
        ¬ CannotAllocate mgr io := by
      simpa only [not_or, Nat.not_lt] using hneither
    obtain ⟨packets, hsent⟩ := exists_packets encrypts hfits hcan swarmTag localNodeId
      swarmMasterKey file
    have hne : asBytes text ≠ [] := by
      intro hempty
      rw [numChunks, hempty] at hmany
      exact absurd hmany (by decide)
    obtain ⟨-, hlen, -⟩ := fragmentAndEncrypt_ok hne hsent
    -- The loop ends at the truncated count.
    have hbyte := UInt8.toNat_lt (UInt8.ofNat (pieceCount plaintextChunkLen (asBytes text).length))
    have hcount := (h packets hsent).count
    omega
  · intro h packets hsent
    by_cases hempty : asBytes text = []
    · have hfew : numChunks text < 256 := by
        rw [numChunks, hempty]
        decide
      exact carriesText_of_lt correct hfew hsent
    · rcases h with hfew | hrefused
      · exact carriesText_of_lt correct hfew hsent
      · exact absurd hsent (not_sent hempty hrefused)

/-- Two pieces are few enough. -/
theorem carriesText_twoChunkText :
    CarriesText transparent (.zero 32) 7 ChunkEngine.twoChunkText
      (transparentPackets ChunkEngine.twoChunkText 7) :=
  (carriesText_iff transparent_decryptsEncrypted transparent_encryptsChunks _ _ _ _ _ _ _).mpr
    (Or.inl (by decide +kernel)) _ ChunkEngine.transparentPackets_sent

theorem length_asBytes_replicate (n : ℕ) :
    (asBytes (String.ofList (List.replicate n 'a'))).length = n := by
  rw [asBytes, Text.toList_toByteArray_ofList, Text.encode_ascii]
  · rw [List.length_map, List.length_replicate]
  · intro c hc
    rw [List.eq_of_mem_replicate hc]
    decide

/-- A text of 256 pieces. -/
def longText : String := String.ofList (List.replicate 20401 'a')

theorem numChunks_longText : numChunks longText = 256 :=
  congrArg (pieceCount plaintextChunkLen) (length_asBytes_replicate 20401)

/-- It is sent as no packet at all. -/
theorem not_carriesText_longText :
    (fragmentAndEncrypt transparent longText defaultNetworkTag 7 (.zero 32) ⟨1, 0, 1000⟩ .ok
        .missing).1 = .ok [] ∧
      ¬ CarriesText transparent (.zero 32) 7 longText [] := by
  have hcount := numChunks_longText
  constructor
  · have hne : asBytes longText ≠ [] := by
      intro hempty
      rw [numChunks, hempty] at hcount
      cases hcount
    obtain ⟨packets, hsent⟩ := exists_packets transparent_encryptsChunks
      (show numChunks longText ≤ maxTotalChunks by rw [hcount]; decide)
      (show ¬ CannotAllocate ⟨1, 0, 1000⟩ .ok from fun h => by cases h.2) defaultNetworkTag 7
      (.zero 32) .missing
    obtain ⟨-, hlen, -⟩ := fragmentAndEncrypt_ok hne hsent
    rw [numChunks] at hcount
    rw [hcount] at hlen
    rw [hsent, List.eq_nil_of_length_eq_zero hlen]
  · intro h
    have hzero := h.count
    rw [hcount] at hzero
    cases hzero

end Gibberish.Daemon
