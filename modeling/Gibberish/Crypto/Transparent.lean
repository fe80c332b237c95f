/-
# Transparent primitives

A concrete instance of the primitives on which every definition can be evaluated.
The keyed hash keeps the last 32 bytes of its message, last byte first, so it
separates node ids and packet coordinates. The cipher leaves the body in the clear
and its tag names the start of the key and the nonce.
-/

import Gibberish.Crypto.Ratchet

set_option autoImplicit false

namespace Gibberish.Crypto

open Gibberish.Foundation Gibberish.Protocol

/-- A tag that names key and nonce. -/
def transparentTag (key : Bytes 32) (nonce : Bytes 12) : Bytes authTagLen :=
  Vector.ofFn fun i => if i.val < 4 then key.byteAt i.val else nonce.byteAt (i.val - 4)

/-- Primitives that hide nothing but keep keys and nonces apart. -/
def transparent : Primitives where
  blake3Keyed _ message := (Bytes.zero 32).copyFromSlice 0 (message.reverse.take 32)
  encryptInPlaceDetached key nonce _ buffer := some (buffer, transparentTag key nonce)
  decryptInPlaceDetached key nonce _ buffer tag :=
    if tag = transparentTag key nonce then some buffer else none

theorem transparent_encrypt (key : Bytes 32) (nonce : Bytes 12) (aad : List UInt8)
    (buffer : Bytes plaintextChunkLen) :
    transparent.encryptInPlaceDetached key nonce aad buffer =
      some (buffer, transparentTag key nonce) := rfl

theorem transparent_decrypt (key : Bytes 32) (nonce : Bytes 12) (aad : List UInt8)
    (buffer : Bytes plaintextChunkLen) (tag : Bytes authTagLen) :
    transparent.decryptInPlaceDetached key nonce aad buffer tag =
      if tag = transparentTag key nonce then some buffer else none := rfl

theorem transparentTag_slice_key (key : Bytes 32) (nonce : Bytes 12) :
    (transparentTag key nonce).slice 0 4 = key.slice 0 4 := by
  apply List.ext_getElem
  · simp [Bytes.slice, authTagLen]
  · intro i _ hi
    have hlt : i < 4 := by simpa [Bytes.slice] using hi
    have hkey : i < 32 := by omega
    simp [Bytes.slice, transparentTag, hlt, Bytes.byteAt, hkey]

theorem transparentTag_slice_nonce (key : Bytes 32) (nonce : Bytes 12) :
    (transparentTag key nonce).slice 4 12 = nonce.toList := by
  apply List.ext_getElem
  · simp [Bytes.slice, authTagLen]
  · intro i _ hi
    have hlt : i < 12 := by simpa using hi
    simp [Bytes.slice, transparentTag, Bytes.byteAt, hlt]

theorem transparent_decryptsEncrypted : transparent.DecryptsEncrypted := by
  intro key nonce aad buffer body tag h
  rw [transparent_encrypt, Option.some.injEq, Prod.mk.injEq] at h
  rw [transparent_decrypt, ← h.1, ← h.2, if_pos rfl]

theorem transparent_encryptsChunks : transparent.EncryptsChunks := fun _ _ _ => ⟨_, rfl⟩

/-- A subkey opens with the node id, last byte first. -/
private theorem transparent_subkey_slice (swarmKey : Bytes 32) (nodeId : UInt32) :
    (transparent.deriveSenderSubkey swarmKey nodeId).slice 0 4 = (u32ToBeBytes nodeId).reverse := by
  have hlabel : (asciiBytes "GIBBERISH-SENDER-SUBKEY-V1").length = 26 := by decide
  simp only [transparent, Primitives.deriveSenderSubkey]
  rw [List.take_of_length_le (by simp [hlabel]), Bytes.slice, Bytes.toList_zero_copyFromSlice
    (by simp [hlabel]), List.drop_zero, List.reverse_append, List.append_assoc,
    List.take_append_of_le_length (by simp), List.take_of_length_le (by simp)]

/-- Different nodes have different subkeys. -/
theorem transparent_subkey_injective (swarmKey : Bytes 32) :
    Function.Injective (transparent.deriveSenderSubkey swarmKey) := by
  intro id id' h
  have hslice := congrArg (fun key => Bytes.slice key 0 4) h
  simp only [transparent_subkey_slice] at hslice
  exact u32ToBeBytes_injective (List.reverse_injective hslice)

/-- The nonce opens with the counter, last byte first, and the chunk index. -/
private theorem transparent_nonce_slice (key : Bytes 32) (msgId : UInt32) (chunkIdx : UInt8)
    (ratchetCounter : UInt64) :
    (transparent.deriveImplicitNonce key msgId chunkIdx ratchetCounter).slice 0 9 =
      (u64ToBeBytes ratchetCounter).reverse ++ [chunkIdx] := by
  have hlabel : (asciiBytes "GIBBERISH-NONCE-V1").length = 18 := by decide
  -- The hash keeps the whole message, which ends in the chunk index and the counter.
  have hhash : ∀ message : List UInt8, message.length = 31 →
      (transparent.blake3Keyed key message).slice 0 9 = message.reverse.take 9 := by
    intro message hlen
    simp only [transparent]
    rw [List.take_of_length_le (by simp [hlen]), Bytes.slice, Bytes.toList_zero_copyFromSlice
      (by simp [hlen]), List.drop_zero, List.take_append_of_le_length (by simp [hlen])]
  rw [Primitives.deriveImplicitNonce, Bytes.slice_sub _ _ (by decide), hhash _ (by simp [hlabel]),
    List.reverse_append, List.reverse_append, List.reverse_singleton, ← List.append_assoc,
    List.take_append_of_le_length (by simp), List.take_of_length_le (by simp)]

/-- Message ids that serve as their own counters have different nonces, chunk by chunk. -/
theorem transparent_noncesApart (key : Bytes 32) : transparent.NoncesApart key := by
  intro msgId chunkIdx msgId' chunkIdx' h
  have hslice := congrArg (fun nonce => Bytes.slice nonce 0 9) h
  simp only [transparent_nonce_slice] at hslice
  obtain ⟨hcounter, hidx⟩ := List.append_inj hslice (by simp)
  have hid := u64ToBeBytes_injective (List.reverse_injective hcounter)
  refine ⟨?_, List.singleton_inj.mp hidx⟩
  have htoNat := congrArg UInt64.toNat hid
  exact UInt32.toNat_inj.mp (by simpa using htoNat)

/-- The tag names the first bytes of the key, so the node, and the nonce. -/
theorem transparent_opensOnlyAsEncrypted (swarmKey : Bytes 32) :
    transparent.OpensOnlyAsEncrypted swarmKey := by
  intro nodeId nonce aad buffer body tag hencrypt nodeId' nonce' buffer' hdecrypt
  rw [transparent_encrypt, Option.some.injEq, Prod.mk.injEq] at hencrypt
  obtain ⟨-, rfl⟩ := hencrypt
  rw [transparent_decrypt] at hdecrypt
  split at hdecrypt
  · next htag =>
    have hkey := congrArg (fun tag => Bytes.slice tag 0 4) htag
    have hnonce := congrArg (fun tag => Bytes.slice tag 4 12) htag
    simp only [transparentTag_slice_key, transparent_subkey_slice] at hkey
    simp only [transparentTag_slice_nonce] at hnonce
    obtain rfl := u32ToBeBytes_injective (List.reverse_injective hkey)
    exact ⟨rfl, (Vector.toList_inj.mp hnonce).symm⟩
  · cases hdecrypt

end Gibberish.Crypto
