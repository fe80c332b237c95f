/-
# What a record's bytes may be

Reading back a written record gives the record, and a record that was only partly written is
not read. A buffer that is read as a record is what writing that record gives in all its
bytes but two: nothing compares the payload length with the size of the payload.
-/

import Gibberish.Storage.Container

set_option autoImplicit false

namespace Gibberish.Storage

open Gibberish.Foundation Gibberish.Protocol

namespace ChunkRecord

variable (crc32 : Checksum)

/-- The payload length that the buffer gives. -/
def payloadLength (buf : Bytes recordSize) : UInt16 := u16FromBeBytes (buf.slice 12 2)

/-- Magic, commit marker and checksum are right. -/
def Sealed (buf : Bytes recordSize) : Prop :=
  buf.slice 0 4 = recordMagic ∧ u16FromBeBytes (buf.slice 114 2) = recordCommitMarker ∧
    crc32 (buf.slice 0 110) = u32FromBeBytes (buf.slice 110 4)

/-- The area of a record, zeroed, after so many of its bytes have arrived. -/
def received (record : ChunkRecord) (out : Bytes recordSize) (n : ℕ) : Bytes recordSize :=
  (Bytes.zero recordSize).copyFromSlice 0 ((record.serialize crc32 out).toList.take n)

variable {crc32} {record : ChunkRecord} {buf out : Bytes recordSize}

/-! ### Fields -/

/-- The six fields of the layout end to end. -/
theorem toList_eq_fields (buf : Bytes recordSize) :
    buf.toList = buf.slice 0 110 ++ (buf.slice 110 4 ++ buf.slice 114 2) := by
  rw [← buf.slice_add 110 4 2, ← Bytes.slice_append_slice buf (by decide : 110 + 6 = recordSize)]

theorem slice_checked (buf : Bytes recordSize) : buf.slice 0 110 =
    buf.slice 0 4 ++ (buf.slice 4 8 ++ (buf.slice 12 2 ++ buf.slice 14 ciphertextLen)) := by
  rw [← buf.slice_add 12 2 ciphertextLen, ← buf.slice_add 4 8 (2 + ciphertextLen),
    ← buf.slice_add 0 4 (8 + (2 + ciphertextLen))]
  rfl

theorem payloadLength_serialize (record : ChunkRecord) (out : Bytes recordSize) :
    (record.serialize crc32 out).slice 12 2 = u16ToBeBytes (UInt16.ofNat ciphertextLen) := by
  simp only [serialize]
  iterate 3 rw [Bytes.slice_copyFromSlice_of_disjoint _ (Or.inl (by decide))]
  exact Bytes.slice_copyFromSlice _ (by simp) (by decide)

/-- A buffer is a written record when all six fields are. -/
theorem serialize_eq (hmagic : buf.slice 0 4 = recordMagic)
    (hsequence : buf.slice 4 8 = u64ToBeBytes record.sequence)
    (hlength : buf.slice 12 2 = u16ToBeBytes (UInt16.ofNat ciphertextLen))
    (hciphertext : buf.slice 14 ciphertextLen = record.ciphertext.toList)
    (hcrc : buf.slice 110 4 = u32ToBeBytes (crc32 (buf.slice 0 110)))
    (hcommit : buf.slice 114 2 = u16ToBeBytes recordCommitMarker) :
    record.serialize crc32 out = buf := by
  have hchecked : (record.serialize crc32 out).slice 0 110 = buf.slice 0 110 := by
    rw [slice_checked, slice_checked buf, magic_serialize, sequence_serialize,
      payloadLength_serialize, ciphertext_serialize, hmagic, hsequence, hlength, hciphertext]
  apply Vector.toList_inj.mp
  rw [toList_eq_fields, toList_eq_fields buf, crc_serialize, commit_serialize, hchecked, hcrc,
    hcommit]

/-! ### Reading -/

/-- **What is accepted.** A buffer is read as a record when it is sealed, and then gives the
record's fields. -/
theorem deserialize_eq_ok_iff : deserialize crc32 buf = .ok record ↔
    Sealed crc32 buf ∧ record.sequence = u64FromBeBytes (buf.slice 4 8) ∧
      record.ciphertext.toList = buf.slice 14 ciphertextLen := by
  have hrecord : (⟨u64FromBeBytes (buf.slice 4 8), buf.sub 14 ciphertextLen (by decide)⟩ :
      ChunkRecord) = record ↔ record.sequence = u64FromBeBytes (buf.slice 4 8) ∧
        record.ciphertext.toList = buf.slice 14 ciphertextLen := by
    rw [← Bytes.toList_sub buf (by decide : 14 + ciphertextLen ≤ recordSize), Vector.toList_inj]
    constructor
    · rintro rfl
      exact ⟨rfl, rfl⟩
    · rintro ⟨hsequence, hciphertext⟩
      rw [← hsequence, ← hciphertext]
  rw [← hrecord, deserialize, Sealed]
  split
  · next h => simp [h]
  · next hmagic =>
    split
    · next h => simp [h]
    · next hcommit =>
      split
      · next h => simp [h]
      · next hcrc =>
        rw [Except.ok.injEq, and_iff_right ⟨not_not.mp hmagic, not_not.mp hcommit, not_not.mp hcrc⟩]

/-- **Records in part.** The last byte of the commit marker is missing, so nothing is read. -/
theorem deserialize_received {n : ℕ} (h : n < recordSize) (record' : ChunkRecord) :
    deserialize crc32 (record.received crc32 out n) ≠ .ok record' := by
  intro hok
  obtain ⟨⟨-, hcommit, -⟩, -⟩ := deserialize_eq_ok_iff.mp hok
  have hlast : (record.received crc32 out n).byteAt 115 = 0 := by
    rw [Bytes.byteAt, dif_pos (by decide), received, Bytes.getElem_copyFromSlice_after]
    · exact Bytes.getElem_zero _
    · have hle : ((record.serialize crc32 out).toList.take n).length ≤ n := List.length_take_le _ _
      exact (Nat.zero_add _).trans_le (hle.trans (Nat.le_of_lt_succ h))
  have hslice := Bytes.slice_add (record.received crc32 out n) 114 1 1
  rw [Bytes.slice_one _ (by decide), Bytes.slice_one _ (by decide), hlast] at hslice
  have hmarker : (record.received crc32 out n).slice 114 2 = u16ToBeBytes recordCommitMarker := by
    rw [← hcommit, u16ToBeBytes_fromBeBytes (by rw [hslice]; rfl)]
  rw [hslice] at hmarker
  exact absurd (List.cons.inj (List.cons.inj hmarker).2).1 (by decide)

/-- **Accepted buffers.** What was read is written as it was exactly when the payload length
is right. -/
theorem serialize_of_deserialize (hok : deserialize crc32 buf = .ok record) :
    record.serialize crc32 out = buf ↔ payloadLength buf = UInt16.ofNat ciphertextLen := by
  obtain ⟨⟨hmagic, hcommit, hcrc⟩, hsequence, hciphertext⟩ := deserialize_eq_ok_iff.mp hok
  have hlen : ∀ {off len : ℕ}, off + len ≤ recordSize → (buf.slice off len).length = len := by
    intro off len h
    rw [Bytes.slice, List.length_take, List.length_drop, Bytes.toList_length]
    omega
  constructor
  · rintro rfl
    rw [payloadLength, payloadLength_serialize, u16FromBeBytes_toBeBytes]
  · intro hlength
    refine serialize_eq hmagic ?_ ?_ hciphertext.symm ?_ ?_
    · rw [hsequence, u64ToBeBytes_fromBeBytes (hlen (by decide))]
    · rw [← hlength, payloadLength, u16ToBeBytes_fromBeBytes (hlen (by decide))]
    · rw [hcrc, u32ToBeBytes_fromBeBytes (hlen (by decide))]
    · rw [← hcommit, u16ToBeBytes_fromBeBytes (hlen (by decide))]

/-- **How exact the codec is.** Whatever the checksum, each record is read back from what is
written for it, none from a part of that, and a buffer is written as it was, for whatever
record it is read as, exactly when it is not sealed or its payload length is right. -/
theorem record_codec (crc32 : Checksum) :
    (∀ (record : ChunkRecord) out, deserialize crc32 (record.serialize crc32 out) = .ok record) ∧
      (∀ (record : ChunkRecord) out (n : Fin recordSize) record',
        deserialize crc32 (record.received crc32 out n) ≠ .ok record') ∧
      ∀ buf out, (∀ record, deserialize crc32 buf = .ok record →
          record.serialize crc32 out = buf) ↔
        (Sealed crc32 buf → payloadLength buf = UInt16.ofNat ciphertextLen) := by
  refine ⟨fun record out => deserialize_serialize crc32 record out,
    fun record out n record' => deserialize_received n.isLt record', fun buf out => ?_⟩
  constructor
  · intro hexact hsealed
    have hciphertext := Bytes.toList_sub buf (by decide : 14 + ciphertextLen ≤ recordSize)
    have hok : deserialize crc32 buf = .ok ⟨u64FromBeBytes (buf.slice 4 8),
        buf.sub 14 ciphertextLen (by decide)⟩ :=
      deserialize_eq_ok_iff.mpr ⟨hsealed, rfl, hciphertext⟩
    exact (serialize_of_deserialize hok).mp (hexact _ hok)
  · intro hlength record hok
    exact (serialize_of_deserialize hok).mpr (hlength (deserialize_eq_ok_iff.mp hok).1)

/-- A sealed record of a zero payload whose payload length is zero. -/
def lengthZero : Bytes recordSize :=
  let buf := (Bytes.zero recordSize).copyFromSlice 0 recordMagic
  (buf.copyFromSlice 110 (u32ToBeBytes (crc32Ieee (buf.slice 0 110)))).copyFromSlice 114
    (u16ToBeBytes recordCommitMarker)

theorem sealed_lengthZero : Sealed crc32Ieee lengthZero := by
  have hchecked : lengthZero.slice 0 110 =
      ((Bytes.zero recordSize).copyFromSlice 0 recordMagic).slice 0 110 := by
    rw [lengthZero]
    iterate 2 rw [Bytes.slice_copyFromSlice_of_disjoint _ (Or.inl (by decide))]
  have hcrc : lengthZero.slice 110 4 = u32ToBeBytes
      (crc32Ieee (((Bytes.zero recordSize).copyFromSlice 0 recordMagic).slice 0 110)) :=
    (Bytes.slice_copyFromSlice_of_disjoint _ (Or.inl (by decide))).trans
      (Bytes.slice_copyFromSlice _ (by simp) (by decide))
  refine ⟨?_, ?_, ?_⟩
  · rw [lengthZero]
    iterate 2 rw [Bytes.slice_copyFromSlice_of_disjoint _ (Or.inl (by decide))]
    exact Bytes.slice_copyFromSlice _ rfl (by decide)
  · rw [lengthZero, Bytes.slice_copyFromSlice _ (by simp) (by decide), u16FromBeBytes_toBeBytes]
  · rw [hchecked, hcrc, u32FromBeBytes_toBeBytes]

theorem payloadLength_lengthZero : payloadLength lengthZero = 0 := by
  rw [payloadLength, lengthZero]
  iterate 2 rw [Bytes.slice_copyFromSlice_of_disjoint _ (Or.inl (by decide))]
  rw [Bytes.slice_copyFromSlice_of_disjoint _ (Or.inr (by decide))]
  rfl

/-- It is read as a record, which is written with another payload length. -/
theorem length_not_checked : ¬ ∀ (buf : Bytes recordSize) (record : ChunkRecord),
    deserialize crc32Ieee buf = .ok record →
      record.serialize crc32Ieee (.zero recordSize) = buf := by
  intro hall
  have hciphertext := Bytes.toList_sub lengthZero (by decide : 14 + ciphertextLen ≤ recordSize)
  have hok : deserialize crc32Ieee lengthZero = .ok ⟨u64FromBeBytes (lengthZero.slice 4 8),
      lengthZero.sub 14 ciphertextLen (by decide)⟩ :=
    deserialize_eq_ok_iff.mpr ⟨sealed_lengthZero, rfl, hciphertext⟩
  have hlength := (serialize_of_deserialize hok).mp (hall lengthZero _ hok)
  rw [payloadLength_lengthZero] at hlength
  exact absurd hlength (by decide)

end ChunkRecord

end Gibberish.Storage
