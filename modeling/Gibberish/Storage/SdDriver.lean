/-
# The driver of the card

The card answers commands byte by byte over a bus. The driver brings it up at a low clock
rate, then reads and writes single sectors, and waits for the card by polling. Every
transaction ends with the card deselected and two bytes clocked behind it.

The bus is a parameter: what it answers is the hardware's.
-/

import Gibberish.Foundation.Polling
import Gibberish.Storage.Crc7
import Gibberish.Storage.Manager

set_option autoImplicit false

namespace Gibberish.Storage

open Gibberish.Foundation

/-- The level of a pin. -/
inductive Level where
  | low
  | high
  deriving DecidableEq, Repr

/-- The bus as the driver sees it. A write and a transfer say whether they succeeded, and a
transfer what was read; a configuration is a clock rate in kilohertz. -/
class SdBus (B : Type) where
  setCs : B → Level → B
  applyConfig : B → ℕ → Bool × B
  write : B → List UInt8 → Bool × B
  transfer : {n : ℕ} → B → Bytes n → Bool × Bytes n × B
  delayMillis : B → ℕ → B

/-- What a driver keeps: its bus, and whether the card is addressed by sectors. -/
structure SpiSdBlockDevice (B : Type) where
  bus : B
  isSdhc : Bool

variable {B : Type} [SdBus B]

/-- A command with its argument, as it goes out. -/
def cmdBytes (cmd : UInt8) (arg : UInt32) : List UInt8 :=
  let cmdBuf := (0x40 ||| (cmd &&& 0x3F)) :: u32ToBeBytes arg
  cmdBuf ++ [crc7 cmdBuf]

def sendCmd (cmd : UInt8) (arg : UInt32) (bus : B) : B := (SdBus.write bus (cmdBytes cmd arg)).2

/-- Clock one byte in. -/
def readByte (bus : B) : UInt8 × B :=
  let (_, b, bus) := SdBus.transfer bus #v[0xFF]
  (b.get 0, bus)

/-- Poll for a response byte. -/
def waitR1 (maxAttempts : ℕ) (bus : B) : Except StorageError UInt8 × B :=
  match pollUntil readByte (fun b => b &&& 0x80 = 0) maxAttempts bus with
  | (some r1, bus) => (.ok r1, bus)
  | (none, bus) => (.error .deviceError, bus)

def restoreSpi16m (bus : B) : B := (SdBus.applyConfig bus 16000).2

/-- Deselect the card, and clock it so that it sees it. -/
def deassert (bus : B) : B := (SdBus.write (SdBus.setCs bus .high) [0xFF, 0xFF]).2

/-- A whole transaction with a command: the response byte. -/
def command (cmd : UInt8) (arg : UInt32) (maxAttempts : ℕ) (bus : B) :
    Except StorageError UInt8 × B :=
  let (r1, bus) := waitR1 maxAttempts (sendCmd cmd arg (SdBus.setCs bus .low))
  (r1, deassert bus)

/-! ### Bringing the card up -/

/-- CMD0, so often, until the card says that it is idle. -/
def enterIdle : ℕ → B → Bool × B
  | 0, bus => (false, bus)
  | n + 1, bus =>
    let (r1, bus) := command 0 0 50 bus
    if r1.toOption = some 0x01 then (true, bus) else enterIdle n (SdBus.delayMillis bus 2)

/-- CMD8: whether the card follows the second version, if it can be used at all. -/
def checkVersion (bus : B) : Option Bool × B :=
  let (r1, bus) := waitR1 100 (sendCmd 8 0x1AA (SdBus.setCs bus .low))
  let (isV2, bus) : Option Bool × B :=
    match r1 with
    | .ok r1 =>
      if r1 = 0x01 then
        let (_, r7, bus) := SdBus.transfer bus (Vector.replicate 4 0xFF)
        (if r7.get 3 = 0xAA ∧ r7.get 2 &&& 0x0F = 0x01 then some true else none, bus)
      else if r1 &&& 0x04 ≠ 0 then (some false, bus)
      else (none, bus)
    | .error _ => (none, bus)
  (isV2, deassert bus)

/-- CMD55 and ACMD41, so often, until the card is no longer idle. -/
def leaveIdle (hcsArg : UInt32) : ℕ → B → Bool × B
  | 0, bus => (false, bus)
  | n + 1, bus =>
    let (_, bus) := command 55 0 100 bus
    let (r1, bus) := command 41 hcsArg 100 bus
    if r1.toOption = some 0x00 then (true, bus)
    else leaveIdle hcsArg n (SdBus.delayMillis bus 5)

/-- The bit of the OCR for a card that is addressed by sectors. -/
abbrev HighCapacity (ocr : Bytes 4) : Prop := ocr.get 0 &&& 0x40 ≠ 0

/-- CMD58: whether the card is addressed by sectors. -/
def readOcr (bus : B) : Bool × B :=
  let (r1, bus) := waitR1 100 (sendCmd 58 0 (SdBus.setCs bus .low))
  let (isSdhc, bus) : Bool × B :=
    if r1.toOption = some 0x00 then
      let (_, ocr, bus) := SdBus.transfer bus (Vector.replicate 4 0xFF)
      (HighCapacity ocr, bus)
    else (false, bus)
  (isSdhc, deassert bus)

namespace SpiSdBlockDevice

/-- Bring up the card and the bus; the bus as it was left, where that fails. -/
def new (bus : B) : Except (StorageError × B) (SpiSdBlockDevice B) :=
  let fail (bus : B) : Except (StorageError × B) (SpiSdBlockDevice B) :=
    .error (.deviceError, restoreSpi16m bus)
  let bus := SdBus.setCs bus .high
  let (configured, bus) := SdBus.applyConfig bus 400
  if !configured then fail bus
  else
    let bus := SdBus.delayMillis bus 10
    -- At least 74 clocks with the card deselected wake it.
    let (_, bus) := SdBus.write bus (List.replicate 10 0xFF)
    match enterIdle 5 bus with
    | (false, bus) => fail bus
    | (true, bus) =>
      match checkVersion bus with
      | (none, bus) => fail bus
      | (some isV2, bus) =>
        match leaveIdle (if isV2 then 0x40000000 else 0x00000000) 200 bus with
        | (false, bus) => fail bus
        | (true, bus) =>
          let (isSdhc, bus) := if isV2 then readOcr bus else (false, bus)
          let bus := if isSdhc then bus else (command 16 512 100 bus).2
          let (configured, bus) := SdBus.applyConfig bus 16000
          if !configured then fail bus else .ok ⟨deassert bus, isSdhc⟩

/-- The bus behind `new`. -/
def busAfter : Except (StorageError × B) (SpiSdBlockDevice B) → B
  | .error (_, bus) => bus
  | .ok d => d.bus

/-! ### Sectors -/

/-- `u32::saturating_mul(512)`. -/
def saturatingMul512 (lba : UInt32) : UInt32 :=
  if lba.toNat * 512 < 2 ^ 32 then lba * 512 else 0xFFFFFFFF

/-- The address of a sector, as the card counts. -/
def addr (d : SpiSdBlockDevice B) (lba : UInt32) : UInt32 :=
  if d.isSdhc then lba else saturatingMul512 lba

/-- The driver with its transaction over. -/
def done (d : SpiSdBlockDevice B) (bus : B) : SpiSdBlockDevice B := { d with bus := deassert bus }

/-- The rest of a read, once the command is out. -/
def readReply (d : SpiSdBlockDevice B) (bus : B) :
    Except StorageError (Bytes sectorSize) × SpiSdBlockDevice B :=
  let (r1, bus) := waitR1 1000 bus
  if r1.toOption ≠ some 0x00 then (.error .deviceError, d.done bus)
  else
    -- The data start token, or what ends the wait for it.
    match pollUntil readByte (· ≠ 0xFF) 100000 bus with
    | (none, bus) => (.error .deviceError, d.done bus)
    | (some token, bus) =>
      if token ≠ 0xFE then (.error .deviceError, d.done bus)
      else
        let (read, buf, bus) := SdBus.transfer bus (Vector.replicate sectorSize 0xFF)
        if !read then (.error .deviceError, d.done bus)
        else
          let (_, _, bus) := SdBus.transfer bus (Vector.replicate 2 0xFF)
          (.ok buf, d.done bus)

def readBlock (d : SpiSdBlockDevice B) (lba : UInt32) :
    Except StorageError (Bytes sectorSize) × SpiSdBlockDevice B :=
  match pollUntil readByte (· = 0xFF) 2000 (SdBus.setCs d.bus .low) with
  | (none, bus) => (.error .deviceError, d.done bus)
  | (some _, bus) => d.readReply (sendCmd 17 (d.addr lba) bus)

/-- The end of a write, once the sector is out. -/
def writeReply (d : SpiSdBlockDevice B) (bus : B) :
    Except StorageError Unit × SpiSdBlockDevice B :=
  match pollUntil readByte (· ≠ 0xFF) 200 bus with
  | (none, bus) => (.error .deviceError, d.done bus)
  | (some resp, bus) =>
    -- `0bxxx0_0101`: the data were accepted.
    if resp &&& 0x1F ≠ 0x05 then (.error .deviceError, d.done bus)
    else
      match pollUntil readByte (· = 0xFF) 250000 bus with
      | (none, bus) => (.error .deviceError, d.done bus)
      | (some _, bus) => (.ok (), d.done bus)

/-- The rest of a write, once the command is out. -/
def writeData (d : SpiSdBlockDevice B) (buf : Bytes sectorSize) (bus : B) :
    Except StorageError Unit × SpiSdBlockDevice B :=
  let (r1, bus) := waitR1 1000 bus
  if r1.toOption ≠ some 0x00 then (.error .deviceError, d.done bus)
  else
    let (_, bus) := SdBus.write bus [0xFF, 0xFE]
    let (written, bus) := SdBus.write bus buf.toList
    if !written then (.error .deviceError, d.done bus)
    else d.writeReply (SdBus.write bus [0xFF, 0xFF]).2

def writeBlock (d : SpiSdBlockDevice B) (lba : UInt32) (buf : Bytes sectorSize) :
    Except StorageError Unit × SpiSdBlockDevice B :=
  match pollUntil readByte (· = 0xFF) 5000 (SdBus.setCs d.bus .low) with
  | (none, bus) => (.error .deviceError, d.done bus)
  | (some _, bus) => d.writeData buf (sendCmd 24 (d.addr lba) bus)

instance : BlockDevice (SpiSdBlockDevice B) := ⟨readBlock, writeBlock⟩

end SpiSdBlockDevice

end Gibberish.Storage
