/-
# Chunk encryption under sender subkeys

Keyed BLAKE3 and ChaCha20-Poly1305 are parameters. Over them stand the functions
of the crypto crate: the implicit nonce, the sender subkey, and encryption and
decryption of one 80-byte chunk. Nothing of a packet's header is authenticated as
associated data; message id, chunk index and counter enter through the nonce, and
the sender through the key.
-/

import Gibberish.Protocol.Frame

set_option autoImplicit false

namespace Gibberish.Crypto

open Gibberish.Foundation Gibberish.Protocol

/-- The primitives the crypto crate is built on. -/
structure Primitives where
  /-- The keyed hash of the concatenated updates. -/
  blake3Keyed : Bytes 32 → List UInt8 → Bytes 32
  /-- Key, nonce, associated data and buffer give ciphertext and tag. -/
  encryptInPlaceDetached : Bytes 32 → Bytes 12 → List UInt8 → Bytes plaintextChunkLen →
    Option (Bytes plaintextChunkLen × Bytes authTagLen)
  /-- Key, nonce, associated data, buffer and tag give the plaintext. -/
  decryptInPlaceDetached : Bytes 32 → Bytes 12 → List UInt8 → Bytes plaintextChunkLen →
    Bytes authTagLen → Option (Bytes plaintextChunkLen)

inductive CryptoError where
  | authenticationFailed
  | invalidKeyLength
  | invalidNonce
  | payloadTooLarge
  deriving DecidableEq, Repr

/-- The bytes of an ASCII label. -/
def asciiBytes (label : String) : List UInt8 := label.toList.map fun c => UInt8.ofNat c.toNat

/-- A plaintext in a zeroed chunk buffer. -/
def paddedChunk (plaintext : List UInt8) : Bytes plaintextChunkLen :=
  (Bytes.zero plaintextChunkLen).copyFromSlice 0 plaintext

namespace Primitives

variable (P : Primitives)

/-- The nonce of a chunk, from the key and the packet's coordinates. -/
def deriveImplicitNonce (sessionKey : Bytes 32) (msgId : UInt32) (chunkIdx : UInt8)
    (ratchetCounter : UInt64) : Bytes 12 :=
  let output := P.blake3Keyed sessionKey (asciiBytes "GIBBERISH-NONCE-V1" ++ u32ToBeBytes msgId ++
    [chunkIdx] ++ u64ToBeBytes ratchetCounter)
  output.sub 0 12 (by decide)

/-- The key a node encrypts under, from the swarm key and its id. -/
def deriveSenderSubkey (swarmKey : Bytes 32) (nodeId : UInt32) : Bytes 32 :=
  P.blake3Keyed swarmKey (asciiBytes "GIBBERISH-SENDER-SUBKEY-V1" ++ u32ToBeBytes nodeId)

/-- Encrypt a zero-padded chunk; the tag follows the body. -/
def encryptChunk (sessionKey : Bytes 32) (msgId : UInt32) (chunkIdx : UInt8)
    (ratchetCounter : UInt64) (plaintext : List UInt8) : Except CryptoError (Bytes ciphertextLen) :=
  if plaintext.length > plaintextChunkLen then .error .payloadTooLarge
  else
    let nonce := P.deriveImplicitNonce sessionKey msgId chunkIdx ratchetCounter
    match P.encryptInPlaceDetached sessionKey nonce [] (paddedChunk plaintext) with
    | none => .error .authenticationFailed
    | some (buffer, tag) =>
      .ok (((Bytes.zero ciphertextLen).copyFromSlice 0 buffer.toList).copyFromSlice
        plaintextChunkLen tag.toList)

/-- Decrypt a chunk back to its 80-byte buffer. -/
def decryptChunk (sessionKey : Bytes 32) (msgId : UInt32) (chunkIdx : UInt8)
    (ratchetCounter : UInt64) (ciphertext : Bytes ciphertextLen) :
    Except CryptoError (Bytes plaintextChunkLen) :=
  let nonce := P.deriveImplicitNonce sessionKey msgId chunkIdx ratchetCounter
  match P.decryptInPlaceDetached sessionKey nonce []
      (ciphertext.sub 0 plaintextChunkLen (by decide))
      (ciphertext.sub plaintextChunkLen authTagLen (by decide)) with
  | none => .error .authenticationFailed
  | some buffer => .ok buffer

/-! ### What the rest relies on -/

/-- Decryption undoes encryption under the same key, nonce and associated data. -/
def DecryptsEncrypted : Prop :=
  ∀ key nonce aad buffer body tag,
    P.encryptInPlaceDetached key nonce aad buffer = some (body, tag) →
    P.decryptInPlaceDetached key nonce aad body tag = some buffer

/-- What a node of a swarm encrypted opens under no other subkey of the swarm, and
under no other nonce. -/
def OpensOnlyAsEncrypted (swarmKey : Bytes 32) : Prop :=
  ∀ (nodeId : UInt32) (nonce : Bytes 12) (aad : List UInt8) (buffer body : Bytes plaintextChunkLen)
    (tag : Bytes authTagLen),
    P.encryptInPlaceDetached (P.deriveSenderSubkey swarmKey nodeId) nonce aad buffer =
        some (body, tag) →
    ∀ (nodeId' : UInt32) (nonce' : Bytes 12) (buffer' : Bytes plaintextChunkLen),
      P.decryptInPlaceDetached (P.deriveSenderSubkey swarmKey nodeId') nonce' aad body tag =
          some buffer' →
        P.deriveSenderSubkey swarmKey nodeId' = P.deriveSenderSubkey swarmKey nodeId ∧
          nonce' = nonce

/-- Under one key, nonces that are derived from a message id that serves as its own
counter tell apart message ids and chunk indices. Over free counters this could not
hold: there are more of them than nonces. -/
def NoncesApart (sessionKey : Bytes 32) : Prop :=
  ∀ (msgId : UInt32) (chunkIdx : UInt8) (msgId' : UInt32) (chunkIdx' : UInt8),
    P.deriveImplicitNonce sessionKey msgId chunkIdx msgId.toUInt64 =
        P.deriveImplicitNonce sessionKey msgId' chunkIdx' msgId'.toUInt64 →
      msgId = msgId' ∧ chunkIdx = chunkIdx'

/-- Encryption of a chunk buffer does not fail. -/
def EncryptsChunks : Prop :=
  ∀ key nonce buffer, ∃ sealed_, P.encryptInPlaceDetached key nonce [] buffer = some sealed_

variable {P}

/-- A piece that fits into a chunk is encrypted. -/
theorem EncryptsChunks.encryptChunk (encrypts : P.EncryptsChunks) (sessionKey : Bytes 32)
    (msgId : UInt32) (chunkIdx : UInt8) (ratchetCounter : UInt64) {plaintext : List UInt8}
    (fits : plaintext.length ≤ plaintextChunkLen) :
    ∃ ciphertext, P.encryptChunk sessionKey msgId chunkIdx ratchetCounter plaintext =
      .ok ciphertext := by
  obtain ⟨⟨body, tag⟩, hsealed⟩ := encrypts sessionKey
    (P.deriveImplicitNonce sessionKey msgId chunkIdx ratchetCounter) (paddedChunk plaintext)
  rw [Primitives.encryptChunk, if_neg (Nat.not_lt.mpr fits)]
  simp only [hsealed]
  exact ⟨_, rfl⟩

/-- An encrypted chunk was short enough, and its halves are body and tag. -/
theorem encryptChunk_ok {sessionKey : Bytes 32} {msgId : UInt32} {chunkIdx : UInt8}
    {ratchetCounter : UInt64} {plaintext : List UInt8} {ciphertext : Bytes ciphertextLen}
    (h : P.encryptChunk sessionKey msgId chunkIdx ratchetCounter plaintext = .ok ciphertext) :
    plaintext.length ≤ plaintextChunkLen ∧
      P.encryptInPlaceDetached sessionKey
          (P.deriveImplicitNonce sessionKey msgId chunkIdx ratchetCounter) []
          (paddedChunk plaintext) =
        some (ciphertext.sub 0 plaintextChunkLen (by decide),
          ciphertext.sub plaintextChunkLen authTagLen (by decide)) := by
  simp only [encryptChunk] at h
  split at h
  · cases h
  · next hlen =>
    refine ⟨Nat.not_lt.mp hlen, ?_⟩
    split at h
    · cases h
    · next body tag heq =>
      obtain rfl := Except.ok.inj h
      rw [heq, Option.some.injEq, Prod.mk.injEq]
      constructor
      · apply Vector.toList_inj.mp
        rw [Bytes.toList_sub, Bytes.slice_copyFromSlice_of_disjoint _ (by simp),
          Bytes.slice_copyFromSlice _ (by simp) (by decide)]
      · apply Vector.toList_inj.mp
        rw [Bytes.toList_sub, Bytes.slice_copyFromSlice _ (by simp) (by decide)]

/-- **Round trip of one chunk.** Under the same coordinates an encrypted chunk
decrypts to its plaintext, padded with zeros. -/
theorem decryptChunk_of_encryptChunk (correct : P.DecryptsEncrypted) {sessionKey : Bytes 32}
    {msgId : UInt32} {chunkIdx : UInt8} {ratchetCounter : UInt64} {plaintext : List UInt8}
    {ciphertext : Bytes ciphertextLen}
    (h : P.encryptChunk sessionKey msgId chunkIdx ratchetCounter plaintext = .ok ciphertext) :
    P.decryptChunk sessionKey msgId chunkIdx ratchetCounter ciphertext =
      .ok (paddedChunk plaintext) := by
  have hdecrypt := correct _ _ _ _ _ _ (encryptChunk_ok h).2
  simp only [decryptChunk, hdecrypt]

/-- A chunk opens under its sender's subkey only. -/
theorem subkey_of_decryptChunk {swarmKey : Bytes 32} (only : P.OpensOnlyAsEncrypted swarmKey)
    {nodeId nodeId' msgId msgId' : UInt32} {chunkIdx chunkIdx' : UInt8}
    {ratchetCounter ratchetCounter' : UInt64} {plaintext : List UInt8}
    {ciphertext : Bytes ciphertextLen} {chunk : Bytes plaintextChunkLen}
    (sealed_ : P.encryptChunk (P.deriveSenderSubkey swarmKey nodeId) msgId chunkIdx ratchetCounter
      plaintext = .ok ciphertext)
    (opens : P.decryptChunk (P.deriveSenderSubkey swarmKey nodeId') msgId' chunkIdx'
      ratchetCounter' ciphertext = .ok chunk) :
    P.deriveSenderSubkey swarmKey nodeId' = P.deriveSenderSubkey swarmKey nodeId := by
  simp only [decryptChunk] at opens
  split at opens
  · cases opens
  · next buffer hdecrypt => exact (only _ _ _ _ _ _ (encryptChunk_ok sealed_).2 _ _ _ hdecrypt).1

/-- Decryption fails in one way only. -/
theorem decryptChunk_error {sessionKey : Bytes 32} {msgId : UInt32} {chunkIdx : UInt8}
    {ratchetCounter : UInt64} {ciphertext : Bytes ciphertextLen} {err : CryptoError}
    (h : P.decryptChunk sessionKey msgId chunkIdx ratchetCounter ciphertext = .error err) :
    err = .authenticationFailed := by
  simp only [decryptChunk] at h
  split at h
  · exact (Except.error.inj h).symm
  · cases h

end Primitives

/-- The bytes of a padded chunk: the plaintext, then zeros. -/
theorem toList_paddedChunk {plaintext : List UInt8} (h : plaintext.length ≤ plaintextChunkLen) :
    (paddedChunk plaintext).toList =
      plaintext ++ List.replicate (plaintextChunkLen - plaintext.length) 0 :=
  Bytes.toList_zero_copyFromSlice h

end Gibberish.Crypto
