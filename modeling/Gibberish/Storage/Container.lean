/-
# Records and checkpoints on the card

A packet's payload is written as a record behind a magic word and its sequence
number, sealed by a checksum and a commit marker, one record to a sector. A
checkpoint takes a sector of its own, sealed the same way. The checksum is a
parameter. A sector written as a record reads back as that record and never as a
checkpoint, and the other way round.
-/

import Gibberish.Protocol.Frame
import Mathlib.Logic.Function.Iterate

set_option autoImplicit false

namespace Gibberish.Storage

open Gibberish.Foundation Gibberish.Protocol

abbrev recordSize : ℕ := 116
abbrev sectorSize : ℕ := 512

/-- "GIBB". -/
def recordMagic : List UInt8 := [0x47, 0x49, 0x42, 0x42]

def recordCommitMarker : UInt16 := 0xAA55

inductive StorageError where
  | deviceError
  | tornWriteDetected
  | invalidMagic
  | crcMismatch
  | bufferTooSmall
  | sectorOutOfBounds
  deriving DecidableEq, Repr

/-- A checksum of a byte string. -/
abbrev Checksum := List UInt8 → UInt32

/-- CRC-32 with the reflected polynomial `0xEDB88320`, bit by bit. -/
def crc32Ieee : Checksum := fun bytes =>
  let shiftBit (crc : UInt32) : UInt32 :=
    if crc &&& 1 = 1 then crc >>> 1 ^^^ 0xEDB88320 else crc >>> 1
  bytes.foldl (fun crc b => shiftBit^[8] (crc ^^^ b.toUInt32)) 0xFFFFFFFF ^^^ 0xFFFFFFFF

variable (crc32 : Checksum)

/-- A checksum written behind what it covers, with a marker further on, is the checksum
of what it covers. -/
private theorem slice_crc_sealed {n off markerAt : ℕ} (buf : Bytes n) (marker : List UInt8)
    (h : off + 4 ≤ markerAt) (hn : off + 4 ≤ n) {out : Bytes n}
    (out_eq : out = (buf.copyFromSlice off (u32ToBeBytes (crc32 (buf.slice 0 off)))).copyFromSlice
      markerAt marker) :
    out.slice off 4 = u32ToBeBytes (crc32 (out.slice 0 off)) := by
  -- Neither the checksum nor the marker is written into what is covered.
  have hfront : out.slice 0 off = buf.slice 0 off := by
    rw [out_eq, Bytes.slice_copyFromSlice_of_disjoint _ (Or.inl (by omega)),
      Bytes.slice_copyFromSlice_of_disjoint _ (Or.inl (by omega))]
  rw [hfront, out_eq, Bytes.slice_copyFromSlice_of_disjoint _ (Or.inl h),
    Bytes.slice_copyFromSlice _ (by simp) hn]

structure ChunkRecord where
  sequence : UInt64
  ciphertext : Bytes ciphertextLen
  deriving DecidableEq

namespace ChunkRecord

/-- Write the record, the commit marker last. -/
def serialize (record : ChunkRecord) (out : Bytes recordSize) : Bytes recordSize :=
  let out := (((out.copyFromSlice 0 recordMagic).copyFromSlice 4
    (u64ToBeBytes record.sequence)).copyFromSlice 12
    (u16ToBeBytes (UInt16.ofNat ciphertextLen))).copyFromSlice 14 record.ciphertext.toList
  -- The checksum covers the header and the ciphertext, not the marker.
  let crc := crc32 (out.slice 0 110)
  (out.copyFromSlice 110 (u32ToBeBytes crc)).copyFromSlice 114 (u16ToBeBytes recordCommitMarker)

/-- Read a record whose magic, commit marker and checksum are right. -/
def deserialize (buf : Bytes recordSize) : Except StorageError ChunkRecord :=
  if buf.slice 0 4 ≠ recordMagic then .error .invalidMagic
  else if u16FromBeBytes (buf.slice 114 2) ≠ recordCommitMarker then .error .tornWriteDetected
  -- The marker is looked at first: without it the write was torn.
  else if crc32 (buf.slice 0 110) ≠ u32FromBeBytes (buf.slice 110 4) then .error .crcMismatch
  else .ok ⟨u64FromBeBytes (buf.slice 4 8), buf.sub 14 ciphertextLen (by decide)⟩

variable (record : ChunkRecord) (out : Bytes recordSize)

theorem magic_serialize : (record.serialize crc32 out).slice 0 4 = recordMagic := by
  simp only [serialize]
  iterate 5 rw [Bytes.slice_copyFromSlice_of_disjoint _ (Or.inl (by decide))]
  exact Bytes.slice_copyFromSlice _ rfl (by decide)

theorem sequence_serialize :
    (record.serialize crc32 out).slice 4 8 = u64ToBeBytes record.sequence := by
  simp only [serialize]
  iterate 4 rw [Bytes.slice_copyFromSlice_of_disjoint _ (Or.inl (by decide))]
  exact Bytes.slice_copyFromSlice _ (by simp) (by decide)

theorem ciphertext_serialize :
    (record.serialize crc32 out).slice 14 ciphertextLen = record.ciphertext.toList := by
  simp only [serialize]
  iterate 2 rw [Bytes.slice_copyFromSlice_of_disjoint _ (Or.inl (by decide))]
  exact Bytes.slice_copyFromSlice _ (by simp) (by decide)

/-- The checksum is of what stands in front of it. -/
theorem crc_serialize : (record.serialize crc32 out).slice 110 4 =
    u32ToBeBytes (crc32 ((record.serialize crc32 out).slice 0 110)) :=
  slice_crc_sealed crc32 _ _ (by decide) (by decide) rfl

theorem commit_serialize :
    (record.serialize crc32 out).slice 114 2 = u16ToBeBytes recordCommitMarker :=
  Bytes.slice_copyFromSlice _ (by simp) (by decide)

/-- Reading back a written record gives the record. -/
theorem deserialize_serialize :
    deserialize crc32 (record.serialize crc32 out) = .ok record := by
  have hciphertext : (record.serialize crc32 out).sub 14 ciphertextLen (by decide) =
      record.ciphertext := by
    apply Vector.toList_inj.mp
    rw [Bytes.toList_sub, ciphertext_serialize]
  rw [deserialize, if_neg (not_not.mpr (record.magic_serialize crc32 out)), commit_serialize,
    u16FromBeBytes_toBeBytes, if_neg (not_not.mpr rfl), crc_serialize, u32FromBeBytes_toBeBytes,
    if_neg (not_not.mpr rfl), sequence_serialize, u64FromBeBytes_toBeBytes, hciphertext]

end ChunkRecord

structure CheckpointSector where
  sequence : UInt64
  headOffset : UInt64
  tailOffset : UInt64
  totalRecords : UInt64
  deriving DecidableEq, Repr

namespace CheckpointSector

/-- "GCPT". -/
def magic : List UInt8 := [0x47, 0x43, 0x50, 0x54]

/-- Write the checkpoint, whatever the sector held. -/
def serialize (ckpt : CheckpointSector) : Bytes sectorSize :=
  let sector := (((((Bytes.zero sectorSize).copyFromSlice 0 magic).copyFromSlice 4
    (u64ToBeBytes ckpt.sequence)).copyFromSlice 12 (u64ToBeBytes ckpt.headOffset)).copyFromSlice 20
    (u64ToBeBytes ckpt.tailOffset)).copyFromSlice 28 (u64ToBeBytes ckpt.totalRecords)
  let crc := crc32 (sector.slice 0 36)
  (sector.copyFromSlice 36 (u32ToBeBytes crc)).copyFromSlice 510 (u16ToBeBytes recordCommitMarker)

/-- Read a checkpoint whose magic, commit marker and checksum are right. -/
def deserialize (sector : Bytes sectorSize) : Except StorageError CheckpointSector :=
  if sector.slice 0 4 ≠ magic then .error .invalidMagic
  else if u16FromBeBytes (sector.slice 510 2) ≠ recordCommitMarker then .error .tornWriteDetected
  else if crc32 (sector.slice 0 36) ≠ u32FromBeBytes (sector.slice 36 4) then .error .crcMismatch
  else .ok ⟨u64FromBeBytes (sector.slice 4 8), u64FromBeBytes (sector.slice 12 8),
    u64FromBeBytes (sector.slice 20 8), u64FromBeBytes (sector.slice 28 8)⟩

variable (ckpt : CheckpointSector)

theorem magic_serialize : (ckpt.serialize crc32).slice 0 4 = magic := by
  simp only [serialize]
  iterate 6 rw [Bytes.slice_copyFromSlice_of_disjoint _ (Or.inl (by decide))]
  exact Bytes.slice_copyFromSlice _ rfl (by decide)

theorem crc_serialize : (ckpt.serialize crc32).slice 36 4 =
    u32ToBeBytes (crc32 ((ckpt.serialize crc32).slice 0 36)) :=
  slice_crc_sealed crc32 _ _ (by decide) (by decide) rfl

theorem commit_serialize : (ckpt.serialize crc32).slice 510 2 = u16ToBeBytes recordCommitMarker :=
  Bytes.slice_copyFromSlice _ (by simp) (by decide)

theorem sequence_serialize : (ckpt.serialize crc32).slice 4 8 = u64ToBeBytes ckpt.sequence := by
  simp only [serialize]
  iterate 5 rw [Bytes.slice_copyFromSlice_of_disjoint _ (Or.inl (by simp))]
  exact Bytes.slice_copyFromSlice _ (by simp) (by decide)

/-- Reading back a written checkpoint gives the checkpoint. -/
theorem deserialize_serialize : deserialize crc32 (ckpt.serialize crc32) = .ok ckpt := by
  have hhead : (ckpt.serialize crc32).slice 12 8 = u64ToBeBytes ckpt.headOffset := by
    simp only [serialize]
    iterate 4 rw [Bytes.slice_copyFromSlice_of_disjoint _ (Or.inl (by simp))]
    exact Bytes.slice_copyFromSlice _ (by simp) (by decide)
  have htail : (ckpt.serialize crc32).slice 20 8 = u64ToBeBytes ckpt.tailOffset := by
    simp only [serialize]
    iterate 3 rw [Bytes.slice_copyFromSlice_of_disjoint _ (Or.inl (by simp))]
    exact Bytes.slice_copyFromSlice _ (by simp) (by decide)
  have htotal : (ckpt.serialize crc32).slice 28 8 = u64ToBeBytes ckpt.totalRecords := by
    simp only [serialize]
    iterate 2 rw [Bytes.slice_copyFromSlice_of_disjoint _ (Or.inl (by simp))]
    exact Bytes.slice_copyFromSlice _ (by simp) (by decide)
  rw [deserialize, if_neg (not_not.mpr (ckpt.magic_serialize crc32)), commit_serialize,
    u16FromBeBytes_toBeBytes, if_neg (not_not.mpr rfl), crc_serialize, u32FromBeBytes_toBeBytes,
    if_neg (not_not.mpr rfl), sequence_serialize, hhead, htail, htotal]
  simp only [u64FromBeBytes_toBeBytes]

end CheckpointSector

/-! ### What a sector holds -/

/-- The sector a record is written in. -/
def recordBlock (record : ChunkRecord) : Bytes sectorSize :=
  (Bytes.zero sectorSize).copyFromSlice 0 (record.serialize crc32 (.zero recordSize)).toList

/-- The record a sector holds. -/
def recordOf (block : Bytes sectorSize) : Option ChunkRecord :=
  (ChunkRecord.deserialize crc32 (block.sub 0 recordSize (by decide))).toOption

/-- The checkpoint a sector holds. -/
def checkpointOf (sector : Bytes sectorSize) : Option CheckpointSector :=
  (CheckpointSector.deserialize crc32 sector).toOption

variable {crc32}

/-- A sector without a record's magic holds no record. -/
theorem recordOf_eq_none {block : Bytes sectorSize} (h : block.slice 0 4 ≠ recordMagic) :
    recordOf crc32 block = none := by
  have hsub : (block.sub 0 recordSize (by decide)).slice 0 4 ≠ recordMagic := by
    rwa [Bytes.slice_sub _ _ (by decide)]
  rw [recordOf, ChunkRecord.deserialize, if_pos hsub]
  rfl

/-- A sector without a checkpoint's magic holds no checkpoint. -/
theorem checkpointOf_eq_none {sector : Bytes sectorSize}
    (h : sector.slice 0 4 ≠ CheckpointSector.magic) : checkpointOf crc32 sector = none := by
  rw [checkpointOf, CheckpointSector.deserialize, if_pos h]
  rfl

/-- A record's sector starts with the record. -/
theorem sub_recordBlock (record : ChunkRecord) :
    (recordBlock crc32 record).sub 0 recordSize (by decide) =
      record.serialize crc32 (.zero recordSize) := by
  apply Vector.toList_inj.mp
  rw [Bytes.toList_sub]
  exact Bytes.slice_copyFromSlice _ (by simp) (by decide)

@[simp] theorem recordOf_recordBlock (record : ChunkRecord) :
    recordOf crc32 (recordBlock crc32 record) = some record := by
  rw [recordOf, sub_recordBlock, ChunkRecord.deserialize_serialize]
  rfl

@[simp] theorem checkpointOf_serialize (ckpt : CheckpointSector) :
    checkpointOf crc32 (ckpt.serialize crc32) = some ckpt := by
  rw [checkpointOf, CheckpointSector.deserialize_serialize]
  rfl

@[simp] theorem recordOf_serialize (ckpt : CheckpointSector) :
    recordOf crc32 (ckpt.serialize crc32) = none :=
  recordOf_eq_none (by rw [CheckpointSector.magic_serialize]; decide)

@[simp] theorem checkpointOf_recordBlock (record : ChunkRecord) :
    checkpointOf crc32 (recordBlock crc32 record) = none := by
  have hmagic : (recordBlock crc32 record).slice 0 4 = recordMagic := by
    have hsub := Bytes.slice_sub (recordBlock crc32 record) (by decide : 0 + recordSize ≤ sectorSize)
      (by decide : 0 + 4 ≤ recordSize)
    rw [← hsub, sub_recordBlock, ChunkRecord.magic_serialize]
  exact checkpointOf_eq_none (by rw [hmagic]; decide)

end Gibberish.Storage
