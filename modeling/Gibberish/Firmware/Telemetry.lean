/-
# Telemetry payloads

A dongle broadcasts its counters in the 96 bytes of a packet payload, in one of two
forms. A debug build writes fixed fields, with its build tier at byte 20. A production
build writes its counters with postcard, whose fields vary in length, and fills up with
zeros. The receiver tells them apart by byte 20, which for some counters of a production
build holds the byte of the debug tier.
-/

import Gibberish.Foundation.Leb128
import Gibberish.Storage.Manager

set_option autoImplicit false

namespace Gibberish.Firmware

open Gibberish.Foundation Gibberish.Protocol Gibberish.Storage

/-! ### Enumerations and their bytes -/

inductive DiagnosticEventCode where
  | none
  | boot
  | sdMounted
  | sdFallbackRamOnly
  | radioTxOk
  | radioRxOk
  | radioDroppedTagMismatch
  | radioDroppedDedup
  | bleConnected
  | bleDisconnected
  | bleAuthPrompt
  | bleAuthGranted
  | bleAuthTimeout
  | storageTornWriteDiscarded
  | storageFlushed
  deriving DecidableEq, Repr

namespace DiagnosticEventCode

def toU8 : DiagnosticEventCode → UInt8
  | none => 0
  | boot => 1
  | sdMounted => 2
  | sdFallbackRamOnly => 3
  | radioTxOk => 4
  | radioRxOk => 5
  | radioDroppedTagMismatch => 6
  | radioDroppedDedup => 7
  | bleConnected => 8
  | bleDisconnected => 9
  | bleAuthPrompt => 10
  | bleAuthGranted => 11
  | bleAuthTimeout => 12
  | storageTornWriteDiscarded => 13
  | storageFlushed => 14

/-- Bytes that are no code count as no event. -/
def fromU8 (val : UInt8) : DiagnosticEventCode :=
  match val.toNat with
  | 1 => boot
  | 2 => sdMounted
  | 3 => sdFallbackRamOnly
  | 4 => radioTxOk
  | 5 => radioRxOk
  | 6 => radioDroppedTagMismatch
  | 7 => radioDroppedDedup
  | 8 => bleConnected
  | 9 => bleDisconnected
  | 10 => bleAuthPrompt
  | 11 => bleAuthGranted
  | 12 => bleAuthTimeout
  | 13 => storageTornWriteDiscarded
  | 14 => storageFlushed
  | _ => none

@[simp] theorem fromU8_toU8 (event : DiagnosticEventCode) : fromU8 event.toU8 = event := by
  cases event <;> rfl

end DiagnosticEventCode

/-- The byte of a storage mode. -/
def storageModeToU8 : StorageModeStatus → UInt8
  | .ramOnly => 0
  | .microSdActive => 1

def storageModeFromU8 (val : UInt8) : StorageModeStatus :=
  if val = 1 then .microSdActive else .ramOnly

@[simp] theorem storageModeFromU8_toU8 (mode : StorageModeStatus) :
    storageModeFromU8 (storageModeToU8 mode) = mode := by
  cases mode <;> rfl

/-- The profile a firmware was built in. -/
inductive TelemetryTier where
  | debug
  | prod
  deriving DecidableEq, Repr

namespace TelemetryTier

def toU8 : TelemetryTier → UInt8
  | debug => 0xDB
  | prod => 0x50

def fromU8 (val : UInt8) : TelemetryTier :=
  if val = 0x50 ∨ val = 0x01 ∨ val = 0x52 then prod else debug

@[simp] theorem fromU8_toU8 (tier : TelemetryTier) : fromU8 tier.toU8 = tier := by
  cases tier <;> rfl

end TelemetryTier

/-! ### Debug telemetry -/

/-- The diagnostics of a debug build. -/
@[ext]
structure DebugTelemetryPayload where
  uptimeSecs : UInt32
  rxCount : UInt32
  txCount : UInt32
  dropCount : UInt32
  sramUsed : UInt16
  storageMode : StorageModeStatus
  lastEvent : DiagnosticEventCode
  buildTier : TelemetryTier
  freeHeapKb : UInt8
  lastRssi : Int8
  lastLqi : UInt8
  nodeMacTail : Bytes 8
  diagnosticReserve : Bytes 64
  deriving DecidableEq

namespace DebugTelemetryPayload

/-- The fields with their offsets. -/
def fields (dbg : DebugTelemetryPayload) : List (ℕ × List UInt8) :=
  [(0, u32ToBeBytes dbg.uptimeSecs),
    (4, u32ToBeBytes dbg.rxCount),
    (8, u32ToBeBytes dbg.txCount),
    (12, u32ToBeBytes dbg.dropCount),
    (16, u16ToBeBytes dbg.sramUsed),
    (18, [storageModeToU8 dbg.storageMode]),
    (19, [dbg.lastEvent.toU8]),
    (20, [dbg.buildTier.toU8]),
    (21, [dbg.freeHeapKb]),
    (22, [dbg.lastRssi.toUInt8]),
    (23, [dbg.lastLqi]),
    (24, dbg.nodeMacTail.toList),
    (32, dbg.diagnosticReserve.toList)]

/-- Fill a payload buffer, field by field. -/
def serialize (dbg : DebugTelemetryPayload) (buf : Bytes ciphertextLen) : Bytes ciphertextLen :=
  buf.writeAll dbg.fields

def deserialize (buf : Bytes ciphertextLen) : DebugTelemetryPayload where
  uptimeSecs := u32FromBeBytes (buf.slice 0 4)
  rxCount := u32FromBeBytes (buf.slice 4 4)
  txCount := u32FromBeBytes (buf.slice 8 4)
  dropCount := u32FromBeBytes (buf.slice 12 4)
  sramUsed := u16FromBeBytes (buf.slice 16 2)
  storageMode := storageModeFromU8 (buf.byteAt 18)
  lastEvent := .fromU8 (buf.byteAt 19)
  buildTier := .fromU8 (buf.byteAt 20)
  freeHeapKb := buf.byteAt 21
  lastRssi := (buf.byteAt 22).toInt8
  lastLqi := buf.byteAt 23
  nodeMacTail := buf.sub 24 8 (by decide)
  diagnosticReserve := buf.sub 32 64 (by decide)

/-- The node id at the end of the MAC. -/
def nodeId (dbg : DebugTelemetryPayload) : UInt32 := u32FromBeBytes (dbg.nodeMacTail.slice 4 4)

/-- Every field is read back from its slice. -/
theorem slice_serialize (dbg : DebugTelemetryPayload) (buf : Bytes ciphertextLen) {off len : ℕ}
    {bytes : List UInt8} (mem : (off, bytes) ∈ dbg.fields) (length : bytes.length = len) :
    (dbg.serialize buf).slice off len = bytes := by
  subst length
  exact buf.slice_writeAll (by simp [fields])
    (by simp [fields, ciphertextLen, plaintextChunkLen, authTagLen]) mem

theorem byteAt_serialize (dbg : DebugTelemetryPayload) (buf : Bytes ciphertextLen) {i : ℕ}
    {b : UInt8} (mem : (i, [b]) ∈ dbg.fields) (h : i < ciphertextLen) :
    (dbg.serialize buf).byteAt i = b := by
  have hslice := dbg.slice_serialize buf mem List.length_singleton
  rw [Bytes.slice_one _ h] at hslice
  exact List.singleton_inj.mp hslice

/-- **Round trip.** Whatever the buffer held, the payload is read back. -/
theorem deserialize_serialize (dbg : DebugTelemetryPayload) (buf : Bytes ciphertextLen) :
    deserialize (dbg.serialize buf) = dbg := by
  have hu32 : ∀ off x, (off, u32ToBeBytes x) ∈ dbg.fields →
      u32FromBeBytes ((dbg.serialize buf).slice off 4) = x := by
    intro off x mem
    rw [dbg.slice_serialize buf mem (length_u32ToBeBytes x), u32FromBeBytes_toBeBytes]
  have hbyte : ∀ i b, (i, [b]) ∈ dbg.fields → i < ciphertextLen →
      (dbg.serialize buf).byteAt i = b := fun i b => dbg.byteAt_serialize buf
  have hsub : ∀ off len (h : off + len ≤ ciphertextLen) (v : Bytes len),
      (off, v.toList) ∈ dbg.fields → (dbg.serialize buf).sub off len h = v := by
    intro off len h v mem
    apply Vector.toList_inj.mp
    rw [Bytes.toList_sub, dbg.slice_serialize buf mem v.toList_length]
  have hsram : u16FromBeBytes ((dbg.serialize buf).slice 16 2) = dbg.sramUsed := by
    rw [dbg.slice_serialize buf (by simp [fields]) (length_u16ToBeBytes dbg.sramUsed),
      u16FromBeBytes_toBeBytes]
  rw [deserialize, hsram, hu32 0 dbg.uptimeSecs (by simp [fields]),
    hu32 4 dbg.rxCount (by simp [fields]), hu32 8 dbg.txCount (by simp [fields]),
    hu32 12 dbg.dropCount (by simp [fields]),
    hbyte 18 (storageModeToU8 dbg.storageMode) (by simp [fields]) (by decide),
    hbyte 19 dbg.lastEvent.toU8 (by simp [fields]) (by decide),
    hbyte 20 dbg.buildTier.toU8 (by simp [fields]) (by decide),
    hbyte 21 dbg.freeHeapKb (by simp [fields]) (by decide),
    hbyte 22 dbg.lastRssi.toUInt8 (by simp [fields]) (by decide),
    hbyte 23 dbg.lastLqi (by simp [fields]) (by decide),
    hsub 24 8 _ dbg.nodeMacTail (by simp [fields]),
    hsub 32 64 _ dbg.diagnosticReserve (by simp [fields]),
    storageModeFromU8_toU8, DiagnosticEventCode.fromU8_toU8, TelemetryTier.fromU8_toU8,
    Int8.toInt8_toUInt8]

/-- Byte 20 is the tier. -/
theorem byteAt_tier (dbg : DebugTelemetryPayload) (buf : Bytes ciphertextLen) :
    (dbg.serialize buf).byteAt 20 = dbg.buildTier.toU8 :=
  dbg.byteAt_serialize buf (by simp [fields]) (by decide)

end DebugTelemetryPayload

/-! ### Production telemetry -/

/-- The counters of a production build. -/
structure ClosedTelemetry where
  uptimeSecs : UInt32
  rxPacketCount : UInt32
  txPacketCount : UInt32
  droppedCount : UInt32
  sramRingUsed : UInt16
  storageMode : StorageModeStatus
  lastEvent : DiagnosticEventCode
  lastRssi : Int8
  deriving DecidableEq

/-- What the firmware uses of postcard. -/
structure Postcard where
  toSlice : ClosedTelemetry → List UInt8
  fromBytes : List UInt8 → Option ClosedTelemetry

namespace ClosedTelemetry

/-- The bytes of the four counters, which are varints of up to five bytes. -/
def counters (t : ClosedTelemetry) : List UInt8 :=
  Leb128.encode 5 t.uptimeSecs.toNat ++ Leb128.encode 5 t.rxPacketCount.toNat ++
    Leb128.encode 5 t.txPacketCount.toNat ++ Leb128.encode 5 t.droppedCount.toNat

/-- The use of the ring is a varint of up to three bytes. -/
def ring (t : ClosedTelemetry) : List UInt8 := Leb128.encode 3 t.sramRingUsed.toNat

/-- Postcard's documented format: varints for numbers and variant indices, one raw byte
for an `i8`. -/
def documented (t : ClosedTelemetry) : List UInt8 :=
  t.counters ++ t.ring ++ [storageModeToU8 t.storageMode, t.lastEvent.toU8, t.lastRssi.toUInt8]

end ClosedTelemetry

/-- Postcard writes its documented format, and reads it back from the front of a slice. -/
structure Postcard.Documented (postcard : Postcard) : Prop where
  toSlice : ∀ t, postcard.toSlice t = t.documented
  fromBytes : ∀ t rest, postcard.fromBytes (postcard.toSlice t ++ rest) = some t

/-- The payload that a production build broadcasts. -/
def prodPayload (postcard : Postcard) (telemetry : ClosedTelemetry) : Bytes ciphertextLen :=
  (Bytes.zero ciphertextLen).copyFromSlice 0 (postcard.toSlice telemetry)

/-! ### Classification -/

/-- What a receiver makes of a telemetry payload. -/
inductive TelemetryFrame where
  | debug (dbg : DebugTelemetryPayload)
  | prod (closed : ClosedTelemetry)
  | unreadable
  deriving DecidableEq

/-- The tier byte decides for debug; otherwise postcard may read the payload. -/
def classifyTelemetry (postcard : Postcard) (payload : Bytes ciphertextLen) : TelemetryFrame :=
  if payload[20]? = some TelemetryTier.debug.toU8 then .debug (.deserialize payload)
  else
    match postcard.fromBytes payload.toList with
    | some closed => .prod closed
    | none => .unreadable

/-! ### Byte 20 of production telemetry -/

namespace ClosedTelemetry

/-- How many bytes the counters take, seven bits to a byte. -/
def countersWidth (t : ClosedTelemetry) : ℕ :=
  (Nat.log 128 t.uptimeSecs.toNat + 1) + (Nat.log 128 t.rxPacketCount.toNat + 1) +
    (Nat.log 128 t.txPacketCount.toNat + 1) + (Nat.log 128 t.droppedCount.toNat + 1)

/-- How many bytes the use of the ring takes. -/
def ringWidth (t : ClosedTelemetry) : ℕ := Nat.log 128 t.sramRingUsed.toNat + 1

/-- Byte 20 is the debug tier: it is the first or second byte of the use of the ring, or
the signal strength. -/
def ShowsDebug (t : ClosedTelemetry) : Prop :=
  (t.countersWidth = 20 ∧ 128 ≤ t.sramRingUsed.toNat ∧ t.sramRingUsed.toNat % 128 = 0x5B) ∨
  (t.countersWidth = 19 ∧ 128 ^ 2 ≤ t.sramRingUsed.toNat ∧
    t.sramRingUsed.toNat / 128 % 128 = 0x5B) ∨
  (t.countersWidth + t.ringWidth = 18 ∧ t.lastRssi = -37)

theorem length_encode_u32 (x : UInt32) :
    (Leb128.encode 5 x.toNat).length = Nat.log 128 x.toNat + 1 := by
  apply Leb128.length_encode (by decide)
  exact x.toNat_lt.trans (by decide)

theorem length_counters (t : ClosedTelemetry) : t.counters.length = t.countersWidth := by
  simp only [counters, countersWidth, List.length_append, length_encode_u32]

theorem countersWidth_le (t : ClosedTelemetry) : t.countersWidth ≤ 20 := by
  have hle : ∀ x : UInt32, Nat.log 128 x.toNat + 1 ≤ 5 := by
    intro x
    rw [← length_encode_u32]
    exact Leb128.length_encode_le 5 _
  have huptime := hle t.uptimeSecs
  have hrx := hle t.rxPacketCount
  have htx := hle t.txPacketCount
  have hdropped := hle t.droppedCount
  unfold countersWidth
  omega

theorem ring_fits (t : ClosedTelemetry) : t.sramRingUsed.toNat < 128 ^ 3 :=
  t.sramRingUsed.toNat_lt.trans (by decide)

theorem length_ring (t : ClosedTelemetry) : t.ring.length = t.ringWidth :=
  Leb128.length_encode (by decide) t.ring_fits

theorem length_documented_le (t : ClosedTelemetry) : t.documented.length ≤ ciphertextLen := by
  have hcounters := t.countersWidth_le
  have hring : t.ring.length ≤ 3 := Leb128.length_encode_le 3 _
  rw [documented, List.length_append, List.length_append, t.length_counters]
  show t.countersWidth + t.ring.length + 3 ≤ 96
  omega

/-- The byte of the debug tier within the use of the ring. -/
theorem getElem?_ring (t : ClosedTelemetry) (i : ℕ) :
    t.ring[i]? = some 0xDB ↔
      128 ^ (i + 1) ≤ t.sramRingUsed.toNat ∧ t.sramRingUsed.toNat / 128 ^ i % 128 = 0x5B :=
  Leb128.getElem?_encode_eq_high t.ring_fits (by decide)

/-- The byte of the debug tier after the use of the ring can be the signal strength only. -/
theorem getElem?_tail (t : ClosedTelemetry) (i : ℕ) :
    [storageModeToU8 t.storageMode, t.lastEvent.toU8, t.lastRssi.toUInt8][i]? = some 0xDB ↔
      i = 2 ∧ t.lastRssi = -37 := by
  match i with
  | 0 =>
    have hmode : storageModeToU8 t.storageMode ≠ 0xDB := by cases t.storageMode <;> decide
    simpa using hmode
  | 1 =>
    have hevent : t.lastEvent.toU8 ≠ 0xDB := by cases t.lastEvent <;> decide
    simpa using hevent
  | 2 =>
    have hrssi : t.lastRssi.toUInt8 = 0xDB ↔ t.lastRssi = -37 := by
      constructor
      · intro h
        rw [← Int8.toInt8_toUInt8 t.lastRssi, h]
        rfl
      · intro h
        rw [h]
        rfl
    simpa using hrssi
  | _ + 3 => simp

/-- Byte 20 of the encoding is the byte of the debug tier exactly when it shows it. -/
theorem getElem?_documented (t : ClosedTelemetry) :
    t.documented[20]? = some 0xDB ↔ t.ShowsDebug := by
  have hcounters := t.countersWidth_le
  have hlength := t.length_ring
  rw [documented, List.append_assoc,
    List.getElem?_append_right (by rwa [length_counters]), length_counters, ShowsDebug]
  rcases Nat.lt_or_ge (20 - t.countersWidth) t.ring.length with hin | hpast
  · -- Within the use of the ring, whose third byte is its last.
    have hfits := t.ring_fits
    have hring : t.ring.length ≤ 3 := Leb128.length_encode_le 3 _
    have hsignal : ¬ (t.countersWidth + t.ringWidth = 18 ∧ t.lastRssi = -37) := by
      rintro ⟨hwidth, -⟩
      omega
    rw [List.getElem?_append_left hin, getElem?_ring, or_iff_left_of_imp (absurd · hsignal)]
    rcases (by omega : t.countersWidth = 20 ∨ t.countersWidth = 19 ∨ t.countersWidth = 18) with
      h | h | h
    · simp [h]
    · simp [h]
    · have hthird : ¬ 128 ^ (20 - 18 + 1) ≤ t.sramRingUsed.toNat := Nat.not_le.mpr hfits
      rw [h]
      exact iff_of_false (fun hgroup => hthird hgroup.1) (by simp)
  · -- Past it.
    have hring : ∀ i, t.ring.length ≤ i →
        ¬ (128 ^ (i + 1) ≤ t.sramRingUsed.toNat ∧ t.sramRingUsed.toNat / 128 ^ i % 128 = 0x5B) := by
      intro i hi
      rw [← getElem?_ring, List.getElem?_eq_none hi]
      exact (Option.some_ne_none _).symm
    have hfirst : ¬ (t.countersWidth = 20 ∧ 128 ≤ t.sramRingUsed.toNat ∧
        t.sramRingUsed.toNat % 128 = 0x5B) := by
      rintro ⟨hwidth, hgroup⟩
      exact hring 0 (by omega) (by simpa using hgroup)
    have hsecond : ¬ (t.countersWidth = 19 ∧ 128 ^ 2 ≤ t.sramRingUsed.toNat ∧
        t.sramRingUsed.toNat / 128 % 128 = 0x5B) := by
      rintro ⟨hwidth, hgroup⟩
      exact hring 1 (by omega) (by simpa using hgroup)
    rw [List.getElem?_append_right hpast, getElem?_tail, hlength,
      or_iff_right hfirst, or_iff_right hsecond]
    exact and_congr_left' (by omega)

/-- Byte 20 of the payload is that of the encoding. -/
theorem byte_prodPayload {postcard : Postcard} (format : postcard.Documented)
    (t : ClosedTelemetry) :
    (prodPayload postcard t)[20]? = some TelemetryTier.debug.toU8 ↔ t.ShowsDebug := by
  have hin : 20 < ciphertextLen := by decide
  rw [Vector.getElem?_eq_getElem hin, Option.some_inj, ← getElem?_documented, prodPayload,
    Bytes.getElem_copyFromSlice, if_pos (Nat.zero_le 20),
    Bytes.getElem_zero, format.toSlice, List.getD_eq_getElem?_getD]
  cases t.documented[20]? with
  | none => exact ⟨(nomatch ·), (nomatch ·)⟩
  | some b => exact Option.some_inj.symm

/-- Postcard reads a production payload back. -/
theorem fromBytes_prodPayload {postcard : Postcard} (format : postcard.Documented)
    (t : ClosedTelemetry) : postcard.fromBytes (prodPayload postcard t).toList = some t := by
  have hfits : (postcard.toSlice t).length ≤ ciphertextLen := by
    rw [format.toSlice]
    exact t.length_documented_le
  rw [prodPayload, Bytes.toList_zero_copyFromSlice hfits, format.fromBytes]

end ClosedTelemetry

/-! ### Production and debug told apart -/

/-- A postcard with the documented format: fields one after the other, each within its
bounds. -/
def Postcard.leb128 : Postcard where
  toSlice := ClosedTelemetry.documented
  fromBytes bytes := do
    let (uptime, bytes) ← Leb128.decode 5 bytes
    let (rx, bytes) ← Leb128.decode 5 bytes
    let (tx, bytes) ← Leb128.decode 5 bytes
    let (dropped, bytes) ← Leb128.decode 5 bytes
    let (ring, bytes) ← Leb128.decode 3 bytes
    let (mode, bytes) ← Leb128.decode 5 bytes
    let (event, bytes) ← Leb128.decode 5 bytes
    let rssi ← bytes.head?
    if uptime < 2 ^ 32 ∧ rx < 2 ^ 32 ∧ tx < 2 ^ 32 ∧ dropped < 2 ^ 32 ∧ ring < 2 ^ 16 ∧
        mode < 2 ∧ event < 15 then
      some
        { uptimeSecs := .ofNat uptime
          rxPacketCount := .ofNat rx
          txPacketCount := .ofNat tx
          droppedCount := .ofNat dropped
          sramRingUsed := .ofNat ring
          storageMode := storageModeFromU8 (.ofNat mode)
          lastEvent := .fromU8 (.ofNat event)
          lastRssi := rssi.toInt8 }
    else none

theorem Postcard.documented_leb128 : Postcard.leb128.Documented where
  toSlice _ := rfl
  fromBytes t rest := by
    have hu32 : ∀ (x : UInt32) bytes,
        Leb128.decode 5 (Leb128.encode 5 x.toNat ++ bytes) = some (x.toNat, bytes) := by
      intro x bytes
      exact Leb128.decode_encode (by decide) (x.toNat_lt.trans (by decide)) bytes
    have hring : ∀ bytes, Leb128.decode 3 (Leb128.encode 3 t.sramRingUsed.toNat ++ bytes) =
        some (t.sramRingUsed.toNat, bytes) :=
      Leb128.decode_encode (by decide) t.ring_fits
    -- A variant index is a varint of one byte.
    have hindex : ∀ (b : UInt8) bytes, b.toNat < 128 →
        Leb128.decode 5 (b :: bytes) = some (b.toNat, bytes) := fun b bytes h => if_pos h
    have hmode : (storageModeToU8 t.storageMode).toNat < 2 := by cases t.storageMode <;> decide
    have hevent : t.lastEvent.toU8.toNat < 15 := by cases t.lastEvent <;> decide
    simp only [leb128, ClosedTelemetry.documented, ClosedTelemetry.counters, ClosedTelemetry.ring,
      List.append_assoc, List.cons_append, List.nil_append, hu32, hring,
      hindex _ _ (hmode.trans (by decide)), hindex _ _ (hevent.trans (by decide)),
      Option.bind_eq_bind, Option.bind_some, List.head?_cons, UInt32.toNat_lt, UInt16.toNat_lt,
      hmode, hevent, and_self, if_true, UInt32.ofNat_toNat, UInt16.ofNat_toNat, UInt8.ofNat_toNat,
      storageModeFromU8_toU8, DiagnosticEventCode.fromU8_toU8, Int8.toInt8_toUInt8]

theorem classifyTelemetry_serialize (postcard : Postcard) {dbg : DebugTelemetryPayload}
    (tier : dbg.buildTier = .debug) (buf : Bytes ciphertextLen) :
    classifyTelemetry postcard (dbg.serialize buf) = .debug dbg := by
  have hin : 20 < ciphertextLen := by decide
  have hbyte : (dbg.serialize buf)[20]? = some TelemetryTier.debug.toU8 := by
    rw [← tier, ← dbg.byteAt_tier buf, Bytes.byteAt, dif_pos hin, Vector.getElem?_eq_getElem hin]
  rw [classifyTelemetry, if_pos hbyte, dbg.deserialize_serialize]

section

variable {postcard : Postcard} (format : postcard.Documented) {t : ClosedTelemetry}

include format

theorem classifyTelemetry_prodPayload (hidden : ¬ t.ShowsDebug) :
    classifyTelemetry postcard (prodPayload postcard t) = .prod t := by
  rw [← t.byte_prodPayload format] at hidden
  rw [classifyTelemetry, if_neg hidden, t.fromBytes_prodPayload format]

theorem classifyTelemetry_prodPayload_of_shows (shows : t.ShowsDebug) :
    classifyTelemetry postcard (prodPayload postcard t) =
      .debug (.deserialize (prodPayload postcard t)) := by
  rw [← t.byte_prodPayload format] at shows
  rw [classifyTelemetry, if_pos shows]

end

/-- A debug payload is classified and read back; a production payload is exactly when its
byte 20 is not the debug tier. -/
theorem classifyTelemetry_iff {postcard : Postcard} (format : postcard.Documented) :
    (∀ t, (classifyTelemetry postcard (prodPayload postcard t) = .prod t ∧
        ∀ dbg, classifyTelemetry postcard (prodPayload postcard t) ≠ .debug dbg) ↔
      ¬ t.ShowsDebug) ∧
    ∀ dbg buf, dbg.buildTier = .debug →
      classifyTelemetry postcard (dbg.serialize buf) = .debug dbg := by
  constructor
  · intro t
    constructor
    · rintro ⟨hprod, -⟩ hshows
      rw [classifyTelemetry_prodPayload_of_shows format hshows] at hprod
      cases hprod
    · intro hidden
      rw [classifyTelemetry_prodPayload format hidden]
      exact ⟨rfl, fun dbg => nofun⟩
  · intro dbg buf htier
    exact classifyTelemetry_serialize postcard htier buf

/-- Counters of four bytes and a ring of two put the signal strength at byte 20. -/
def busyTelemetry : ClosedTelemetry where
  uptimeSecs := 2100000
  rxPacketCount := 2100000
  txPacketCount := 2100000
  droppedCount := 2100000
  sramRingUsed := 200
  storageMode := .ramOnly
  lastEvent := .radioRxOk
  lastRssi := -37

theorem classifyTelemetry_iff_leb128 :
    (∀ t, (classifyTelemetry .leb128 (prodPayload .leb128 t) = .prod t ∧
        ∀ dbg, classifyTelemetry .leb128 (prodPayload .leb128 t) ≠ .debug dbg) ↔
      ¬ t.ShowsDebug) ∧
    ∀ dbg buf, dbg.buildTier = .debug →
      classifyTelemetry .leb128 (dbg.serialize buf) = .debug dbg :=
  classifyTelemetry_iff Postcard.documented_leb128

/-- The payload of the busy node is taken for a debug payload. -/
theorem not_classifyTelemetry_busy :
    ¬ ∀ postcard : Postcard, postcard.Documented → ∀ t,
      classifyTelemetry postcard (prodPayload postcard t) = .prod t := by
  intro h
  have hprod := h .leb128 Postcard.documented_leb128 busyTelemetry
  have hshows : busyTelemetry.ShowsDebug := by
    refine Or.inr (Or.inr ⟨?_, rfl⟩)
    have hcounter : Nat.log 128 2100000 = 3 := by
      rw [Nat.log_eq_iff] <;> decide
    have hring : Nat.log 128 200 = 1 := by
      rw [Nat.log_eq_iff] <;> decide
    simp [ClosedTelemetry.countersWidth, ClosedTelemetry.ringWidth, busyTelemetry, hcounter, hring]
  rw [classifyTelemetry_prodPayload_of_shows Postcard.documented_leb128 hshows] at hprod
  cases hprod

end Gibberish.Firmware
