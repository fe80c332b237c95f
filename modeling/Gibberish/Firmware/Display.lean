/-
# The dongle's display

A screen of 160 by 80 pixels shows seven lines of characters and a badge. A dashboard
is drawn four times a second, and each time only what has changed: the driver keeps the
characters and colours of each line, and the badge's phase, as it drew them last.

Commands to the panel are modelled by what they leave on the screen: a rectangle or a
character is the pixels of its window. Coordinates are natural numbers; none of the calls
comes near the range of the driver's.
-/

import Gibberish.Foundation.ByteBuffer
import Gibberish.Foundation.Decimal
import Gibberish.Foundation.Repaint
import Gibberish.Foundation.Text
import Gibberish.Protocol.PeerTable
import Gibberish.Storage.Manager

set_option autoImplicit false

namespace Gibberish.Firmware

open Gibberish.Foundation Gibberish.Protocol Gibberish.Storage

abbrev lcdWidth : ℕ := 160
abbrev lcdHeight : ℕ := 80
abbrev numLines : ℕ := 7
abbrev lineChars : ℕ := 26

/-- A pixel by its column and its row. -/
abbrev Pixel := Fin lcdWidth × Fin lcdHeight

/-- What the screen shows, in RGB565. -/
abbrev Framebuffer := Pixel → UInt16

/-! ### Drawing -/

/-- The pixels of a window, each by its column and row inside the window. -/
def window (x0 y0 x1 y1 : ℕ) (pixel : ℕ → ℕ → UInt16) : Layer Pixel UInt16 := fun p =>
  if x0 ≤ p.1.val ∧ p.1.val ≤ x1 ∧ y0 ≤ p.2.val ∧ p.2.val ≤ y1 then
    some (pixel (p.1.val - x0) (p.2.val - y0))
  else none

def fillRect (x y w h : ℕ) (color : UInt16) (screen : Framebuffer) : Framebuffer :=
  if w = 0 ∨ h = 0 ∨ lcdWidth ≤ x ∨ lcdHeight ≤ y then screen
  else
    let x1 := min (x + w - 1) (lcdWidth - 1)
    let y1 := min (y + h - 1) (lcdHeight - 1)
    (window x y x1 y1 fun _ _ => color).onto screen

/-- The characters from 32 to 126, five columns each, the top row in the lowest bit. -/
def font5x7 : Vector (Vector UInt8 5) 95 := #v[
  #v[0x00, 0x00, 0x00, 0x00, 0x00], #v[0x00, 0x00, 0x5F, 0x00, 0x00],
  #v[0x00, 0x07, 0x00, 0x07, 0x00], #v[0x14, 0x7F, 0x14, 0x7F, 0x14],
  #v[0x24, 0x2A, 0x7F, 0x2A, 0x12], #v[0x23, 0x13, 0x08, 0x64, 0x62],
  #v[0x36, 0x49, 0x55, 0x22, 0x50], #v[0x00, 0x05, 0x03, 0x00, 0x00],
  #v[0x00, 0x1C, 0x22, 0x41, 0x00], #v[0x00, 0x41, 0x22, 0x1C, 0x00],
  #v[0x14, 0x08, 0x3E, 0x08, 0x14], #v[0x08, 0x08, 0x3E, 0x08, 0x08],
  #v[0x00, 0x50, 0x30, 0x00, 0x00], #v[0x08, 0x08, 0x08, 0x08, 0x08],
  #v[0x00, 0x60, 0x60, 0x00, 0x00], #v[0x20, 0x10, 0x08, 0x04, 0x02],
  #v[0x3E, 0x51, 0x49, 0x45, 0x3E], #v[0x00, 0x42, 0x7F, 0x40, 0x00],
  #v[0x42, 0x61, 0x51, 0x49, 0x46], #v[0x21, 0x41, 0x45, 0x4B, 0x31],
  #v[0x18, 0x14, 0x12, 0x7F, 0x10], #v[0x27, 0x45, 0x45, 0x45, 0x39],
  #v[0x3C, 0x4A, 0x49, 0x49, 0x30], #v[0x01, 0x71, 0x09, 0x05, 0x03],
  #v[0x36, 0x49, 0x49, 0x49, 0x36], #v[0x06, 0x49, 0x49, 0x29, 0x1E],
  #v[0x00, 0x36, 0x36, 0x00, 0x00], #v[0x00, 0x56, 0x36, 0x00, 0x00],
  #v[0x08, 0x14, 0x22, 0x41, 0x00], #v[0x14, 0x14, 0x14, 0x14, 0x14],
  #v[0x00, 0x41, 0x22, 0x14, 0x08], #v[0x02, 0x01, 0x51, 0x09, 0x06],
  #v[0x32, 0x49, 0x79, 0x41, 0x3E], #v[0x7E, 0x11, 0x11, 0x11, 0x7E],
  #v[0x7F, 0x49, 0x49, 0x49, 0x36], #v[0x3E, 0x41, 0x41, 0x41, 0x22],
  #v[0x7F, 0x41, 0x41, 0x22, 0x1C], #v[0x7F, 0x49, 0x49, 0x49, 0x41],
  #v[0x7F, 0x09, 0x09, 0x09, 0x01], #v[0x3E, 0x41, 0x49, 0x49, 0x7A],
  #v[0x7F, 0x08, 0x08, 0x08, 0x7F], #v[0x00, 0x41, 0x7F, 0x41, 0x00],
  #v[0x20, 0x40, 0x41, 0x3F, 0x01], #v[0x7F, 0x08, 0x14, 0x22, 0x41],
  #v[0x7F, 0x40, 0x40, 0x40, 0x40], #v[0x7F, 0x02, 0x0C, 0x02, 0x7F],
  #v[0x7F, 0x04, 0x08, 0x10, 0x7F], #v[0x3E, 0x41, 0x41, 0x41, 0x3E],
  #v[0x7F, 0x09, 0x09, 0x09, 0x06], #v[0x3E, 0x41, 0x51, 0x21, 0x5E],
  #v[0x7F, 0x09, 0x19, 0x29, 0x46], #v[0x46, 0x49, 0x49, 0x49, 0x31],
  #v[0x01, 0x01, 0x7F, 0x01, 0x01], #v[0x3F, 0x40, 0x40, 0x40, 0x3F],
  #v[0x1F, 0x20, 0x40, 0x20, 0x1F], #v[0x3F, 0x40, 0x38, 0x40, 0x3F],
  #v[0x63, 0x14, 0x08, 0x14, 0x63], #v[0x07, 0x08, 0x70, 0x08, 0x07],
  #v[0x61, 0x51, 0x49, 0x45, 0x43], #v[0x00, 0x7F, 0x41, 0x41, 0x00],
  #v[0x02, 0x04, 0x08, 0x10, 0x20], #v[0x00, 0x41, 0x41, 0x7F, 0x00],
  #v[0x04, 0x02, 0x01, 0x02, 0x04], #v[0x40, 0x40, 0x40, 0x40, 0x40],
  #v[0x00, 0x01, 0x02, 0x04, 0x00], #v[0x20, 0x54, 0x54, 0x54, 0x78],
  #v[0x7F, 0x48, 0x44, 0x44, 0x38], #v[0x38, 0x44, 0x44, 0x44, 0x20],
  #v[0x38, 0x44, 0x44, 0x48, 0x7F], #v[0x38, 0x54, 0x54, 0x54, 0x18],
  #v[0x08, 0x7E, 0x09, 0x01, 0x02], #v[0x0C, 0x52, 0x52, 0x52, 0x3E],
  #v[0x7F, 0x08, 0x04, 0x04, 0x78], #v[0x00, 0x44, 0x7D, 0x40, 0x00],
  #v[0x20, 0x40, 0x44, 0x3D, 0x00], #v[0x7F, 0x10, 0x28, 0x44, 0x00],
  #v[0x00, 0x41, 0x7F, 0x40, 0x00], #v[0x7C, 0x04, 0x18, 0x04, 0x78],
  #v[0x7C, 0x08, 0x04, 0x04, 0x78], #v[0x38, 0x44, 0x44, 0x44, 0x38],
  #v[0x7C, 0x14, 0x14, 0x14, 0x08], #v[0x08, 0x14, 0x14, 0x18, 0x7C],
  #v[0x7C, 0x08, 0x04, 0x04, 0x08], #v[0x48, 0x54, 0x54, 0x54, 0x20],
  #v[0x04, 0x3F, 0x44, 0x40, 0x20], #v[0x3C, 0x40, 0x40, 0x20, 0x7C],
  #v[0x1C, 0x20, 0x40, 0x20, 0x1C], #v[0x3C, 0x40, 0x30, 0x40, 0x3C],
  #v[0x44, 0x28, 0x10, 0x28, 0x44], #v[0x0C, 0x50, 0x50, 0x50, 0x3C],
  #v[0x44, 0x64, 0x54, 0x4C, 0x44], #v[0x00, 0x08, 0x36, 0x41, 0x00],
  #v[0x00, 0x00, 0x7F, 0x00, 0x00], #v[0x00, 0x41, 0x36, 0x08, 0x00],
  #v[0x08, 0x08, 0x2A, 0x1C, 0x08]]

/-- Where a character stands in the font; what has no glyph is a space. -/
def fontIdx (c : Char) : Fin 95 :=
  if h : 32 ≤ c.toNat ∧ c.toNat ≤ 126 then ⟨c.toNat - 32, by omega⟩ else 0

/-- Whether a place of a character's cell belongs to its glyph. -/
def isFg (glyph : Vector UInt8 5) (col row : ℕ) : Bool :=
  if h : col < 5 ∧ row < 7 then
    have := h.1
    glyph[col] &&& (1 <<< UInt8.ofNat row) ≠ 0
  else false

/-- A character's cell, six pixels wide and eight high. -/
def charCell (x y : ℕ) (c : Char) (fg bg : UInt16) : Layer Pixel UInt16 :=
  window x y (x + 5) (y + 7) fun col row => if isFg font5x7[fontIdx c] col row then fg else bg

def drawChar (x y : ℕ) (c : Char) (fg bg : UInt16) (screen : Framebuffer) : Framebuffer :=
  if x + 6 > lcdWidth ∨ y + 8 > lcdHeight then screen else (charCell x y c fg bg).onto screen

def drawText (x y : ℕ) (text : List Char) (fg bg : UInt16) (screen : Framebuffer) : Framebuffer :=
  match text with
  | [] => screen
  | c :: rest =>
    -- The text is cut where a character would leave the screen.
    if x + 6 > lcdWidth then screen
    else drawText (x + 6) y rest fg bg (drawChar x y c fg bg screen)

/-! ### Texts -/

/-- A text buffer of `n` bytes. -/
structure StrBuf (n : ℕ) where
  bytes : List UInt8
  length_le : bytes.length ≤ n

namespace StrBuf

variable {n : ℕ}

def new : StrBuf n := ⟨[], Nat.zero_le n⟩

/-- What no longer fits is dropped, also in the middle of a character. -/
def writeStr (buf : StrBuf n) (s : List Char) : StrBuf n where
  bytes := buf.bytes ++ (Text.encode s).take (n - buf.bytes.length)
  length_le := by
    have := buf.length_le
    rw [List.length_append, List.length_take]
    omega

/-- `write!` with the pieces that its format gives. -/
def write (pieces : List (List Char)) : StrBuf n := pieces.foldl writeStr new

/-- Nothing where the bytes are no UTF-8. -/
def asStr (buf : StrBuf n) : List Char :=
  ((String.fromUTF8? ⟨buf.bytes.toArray⟩).map String.toList).getD []

end StrBuf

/-- What `{:<width}` prints. -/
def padRight (width : ℕ) (text : List Char) : List Char := text.rightpad width ' '

/-- What `{:>width}` prints. -/
def padLeft (width : ℕ) (text : List Char) : List Char := text.leftpad width ' '

/-- What `{:0width}` prints. -/
def padZeros (width : ℕ) (text : List Char) : List Char := text.leftpad width '0'

/-- What a dashboard is drawn from. -/
structure DashboardArgs where
  localNodeId : UInt32
  channel : UInt8
  freqStr : List Char
  storageMode : StorageModeStatus
  rxCount : UInt32
  txCount : UInt32
  sramUsed : ℕ
  dropped : UInt32
  peer1 : Option PeerMetric
  peer2 : Option PeerMetric
  blePin : Option UInt32
  btnActive : Bool
  syncPhase : UInt8

namespace DashboardArgs

variable (args : DashboardArgs)

def line0 : List Char :=
  (StrBuf.write (n := 32) ["Node: ".toList, Text.upperHex 8 args.localNodeId.toNat]).asStr

def line1 : List Char :=
  (StrBuf.write (n := 32)
    ["Ch: ".toList, Decimal.ofNat args.channel.toNat, " / ".toList, args.freqStr]).asStr

/-- The storage line and its colour. -/
def line2 : List Char × UInt16 :=
  match args.storageMode with
  | .ramOnly => ("Storage: RAM Only".toList, 0xFFE0)
  | .microSdActive => ("Storage: FAT32 Active".toList, 0x07E0)

def line3 : List Char :=
  (StrBuf.write (n := 32)
    ["RX: ".toList, padRight 6 (Decimal.ofNat args.rxCount.toNat),
      " TX: ".toList, padRight 6 (Decimal.ofNat args.txCount.toNat)]).asStr

def line4 : List Char :=
  (StrBuf.write (n := 32)
    ["SRAM:".toList, padLeft 3 (Decimal.ofNat args.sramUsed),
      "/256 DRP:".toList, Decimal.ofNat args.dropped.toNat]).asStr

/-- A peer with its signal, behind a label. -/
def peerLine (label : List Char) (p : PeerMetric) : List Char :=
  (StrBuf.write (n := 32)
    [label, Text.upperHex 8 p.nodeId.toNat, " ".toList, padLeft 3 (Decimal.ofInt p.lastRssi.toInt),
      "dBm L".toList, padRight 3 (Decimal.ofNat p.lastLqi.toNat)]).asStr

/-- The primary peer's line and its colour. -/
def line5 : List Char × UInt16 :=
  match args.peer1 with
  | some p => (peerLine "P1:".toList p, 0x07FF)
  | none => ("Peer: <Scanning 2.4G>".toList, 0x7BEF)

/-- The last line and its colour: a pairing, the button, the secondary peer or none. -/
def line6 : List Char × UInt16 :=
  match args.blePin with
  | some pin =>
    ((StrBuf.write (n := 32)
      ["PAIR PIN: ".toList, padZeros 6 (Decimal.ofNat pin.toNat)]).asStr, 0xFD20)
  | none =>
    if args.btnActive then ("BTN: BEACON SENT!    ".toList, 0x07E0)
    else
      match args.peer2 with
      | some p2 => (peerLine "P2:".toList p2, 0x57EA)
      | none => ("BLE: READY [TAP BOOT]".toList, 0xAD55)

end DashboardArgs

/-! ### The driver -/

/-- The screen, and what the driver has cached of it. -/
structure St7735 where
  screen : Framebuffer
  cachedText : Vector (Vector UInt8 lineChars) numLines
  cachedFg : Vector UInt16 numLines
  cachedBg : Vector UInt16 numLines
  cachedValid : Vector Bool numLines
  lastSyncPhase : UInt8

/-- The cells of a line; those of the first one end in front of the badge. -/
def maxCols (line : ℕ) : ℕ := if line = 0 then 19 else lineChars

def columns (line : Fin numLines) : List (Fin lineChars) :=
  (List.finRange lineChars).filter fun col => col.val < maxCols line

/-- A line's characters, blank behind the text. -/
def newChars (line : ℕ) (text : List Char) : Vector UInt8 lineChars :=
  let bytes := Text.encode text
  let toCopy := min bytes.length (maxCols line)
  Bytes.copyFromSlice (Vector.replicate lineChars 0x20) 0 (bytes.take toCopy)

/-- The look of the badge: its fill, the colour of its label and the label. -/
def badgeLook (syncPhase : UInt8) : UInt16 × UInt16 × List Char :=
  if syncPhase = 0 then (0x0000, 0x4208, "[SYNC]".toList)
  else if syncPhase = 1 then (0x07FF, 0x0000, "*SYNC*".toList)
  else if syncPhase = 2 then (0xF81F, 0x0000, "#SYNC#".toList)
  else if syncPhase = 3 then (0xFFE0, 0x0000, "!SYNC!".toList)
  else (0x07E0, 0x0000, "~SYNC~".toList)

abbrev badgeX : ℕ := 118
abbrev badgeY : ℕ := 2
abbrev badgeW : ℕ := 40
abbrev badgeH : ℕ := 8

namespace St7735

/-- A driver for a panel that shows whatever it may. -/
def new (screen : Framebuffer) : St7735 where
  screen := screen
  cachedText := Vector.replicate numLines (Vector.replicate lineChars 0x20)
  cachedFg := Vector.replicate numLines 0
  cachedBg := Vector.replicate numLines 0
  cachedValid := Vector.replicate numLines false
  -- No phase is drawn yet, and 0xFF is none.
  lastSyncPhase := 0xFF

/-- The part of `init` that draws and clears the caches. -/
def init (d : St7735) : St7735 where
  screen := fillRect 0 0 lcdWidth lcdHeight 0x0000 d.screen
  cachedText := Vector.replicate numLines (Vector.replicate lineChars 0x20)
  cachedFg := Vector.replicate numLines 0
  cachedBg := Vector.replicate numLines 0
  cachedValid := Vector.replicate numLines false
  lastSyncPhase := 0xFF

/-- Whether a cell has to be drawn. -/
def dirty (d : St7735) (line : Fin numLines) (chars : Vector UInt8 lineChars) (fg bg : UInt16)
    (col : Fin lineChars) : Bool :=
  !d.cachedValid.get line || (d.cachedText.get line).get col ≠ chars.get col ||
    d.cachedFg.get line ≠ fg || d.cachedBg.get line ≠ bg

/-- One turn of the loop over a line's cells. -/
def drawCell (line : Fin numLines) (chars : Vector UInt8 lineChars) (fg bg : UInt16)
    (d : St7735) (col : Fin lineChars) : St7735 :=
  if d.dirty line chars fg bg col then
    let c := chars.get col
    { d with
      screen := drawChar (2 + col.val * 6) (2 + line.val * 11) (Char.ofNat c.toNat) fg bg d.screen
      cachedText := d.cachedText.set line ((d.cachedText.get line).set col c col.isLt) line.isLt }
  else d

def drawDirtyLine (d : St7735) (lineIdx : ℕ) (text : List Char) (fg bg : UInt16) : St7735 :=
  if h : lineIdx < numLines then
    let line : Fin numLines := ⟨lineIdx, h⟩
    let chars := newChars line text
    -- Only the columns that are drawn are compared.
    if d.cachedValid.get line ∧ d.cachedFg.get line = fg ∧ d.cachedBg.get line = bg ∧
        (d.cachedText.get line).toList.take (maxCols line) = chars.toList.take (maxCols line) then d
    else
      let d := (columns line).foldl (drawCell line chars fg bg) d
      { d with
        cachedFg := d.cachedFg.set line fg h
        cachedBg := d.cachedBg.set line bg h
        cachedValid := d.cachedValid.set line true h }
  else d

def renderSyncIndicator (d : St7735) (syncPhase : UInt8) : St7735 :=
  if syncPhase = d.lastSyncPhase then d
  else
    let (fillColor, textColor, label) := badgeLook syncPhase
    let screen := fillRect badgeX badgeY badgeW badgeH fillColor d.screen
    { d with
      screen := drawText (badgeX + 2) badgeY label textColor fillColor screen
      lastSyncPhase := syncPhase }

def renderDashboard (d : St7735) (args : DashboardArgs) : St7735 :=
  let d := d.drawDirtyLine 0 args.line0 0x07FF 0x0000
  let d := d.renderSyncIndicator args.syncPhase
  let d := d.drawDirtyLine 1 args.line1 0xFFFF 0x0000
  let d := d.drawDirtyLine 2 args.line2.1 args.line2.2 0x0000
  let d := d.drawDirtyLine 3 args.line3 0xFFFF 0x0000
  let d := d.drawDirtyLine 4 args.line4 0xCE79 0x0000
  let d := d.drawDirtyLine 5 args.line5.1 args.line5.2 0x0000
  d.drawDirtyLine 6 args.line6.1 args.line6.2 0x0000

end St7735

/-- The phase that the main loop draws with, as the ticks of the animation run down. -/
def mainSyncPhase (syncAnimTicks : UInt8) : UInt8 :=
  if syncAnimTicks > 0 then syncAnimTicks % 4 + 1 else 0

theorem mainSyncPhase_le (syncAnimTicks : UInt8) : mainSyncPhase syncAnimTicks ≤ 4 := by
  rw [mainSyncPhase]
  split
  · rw [UInt8.le_iff_toNat_le, UInt8.toNat_add, UInt8.toNat_mod]
    simp
    omega
  · decide

end Gibberish.Firmware
