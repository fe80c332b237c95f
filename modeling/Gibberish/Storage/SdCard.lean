/-
# What a card is expected to do

The card's side of the protocol, as far as the driver relies on it. A card is woken by
clocks while it is deselected, brought up by a few commands, and then reads and writes
sectors. Between the bytes it owes, it may let the host wait, and it may refuse a sector
command; a prompt card does neither for long.

This is a description of cards in general, for a card that is a parameter. What a card
does where the description is silent is left open.
-/

import Gibberish.Storage.SharedBus
import Mathlib.Logic.Function.Iterate

set_option autoImplicit false

namespace Gibberish.Storage

open Gibberish.Foundation Gibberish.Foundation.CyclicRedundancy Polynomial

/-- Cards of the first version, and of the second one with byte or sector addresses. -/
inductive CardKind where
  | sdscV1
  | sdscV2
  | sdhc
  deriving DecidableEq, Repr

/-- How far a card has been brought up. -/
inductive CardStage where
  /-- So many bytes were clocked since power came on, and so many resets go unheard. -/
  | unpowered (clocked ignored : ℕ)
  /-- Whether an application command is announced, and how often the card is still idle. -/
  | idle (app : Bool) (polls : ℕ)
  | operational
  deriving DecidableEq

/-- Where a card stands in a transaction. -/
inductive CardPhase where
  | ready
  /-- The card works on a sector, for so many bytes. -/
  | busy (left : ℕ)
  /-- A part of a command has come in. -/
  | frame (received : List UInt8)
  /-- Bytes that the card owes, and what follows them. -/
  | answer (bytes : List UInt8) (next : CardPhase)
  /-- The card waits for the data of a sector. -/
  | token (lba : UInt32)
  | data (lba : UInt32) (received : List UInt8)

namespace CardPhase

/-- Busy for so many bytes, or ready. -/
def settle : ℕ → CardPhase
  | 0 => .ready
  | left + 1 => .busy (left + 1)

/-- The bytes owed, and then what follows. -/
def play : List UInt8 → CardPhase → CardPhase
  | [], next => next
  | b :: rest, next => .answer (b :: rest) next

/-- How long the card still works on a sector, once the transaction is over. -/
def backlog : CardPhase → ℕ
  | .busy left => left
  | .answer _ next => next.backlog
  | _ => 0

@[simp] theorem settle_zero : settle 0 = .ready := rfl

@[simp] theorem play_nil (next : CardPhase) : play [] next = next := rfl

@[simp] theorem backlog_settle (left : ℕ) : (settle left).backlog = left := by
  cases left with
  | zero => rfl
  | succ left => rfl

@[simp] theorem backlog_play (bytes : List UInt8) (next : CardPhase) :
    (play bytes next).backlog = next.backlog := by
  cases bytes with
  | nil => rfl
  | cons b rest => rfl

end CardPhase

structure CardState where
  kind : CardKind
  capacity : ℕ
  stage : CardStage
  phase : CardPhase
  sectors : UInt32 → Bytes sectorSize

namespace CardState

/-- The same card at another point of a transaction. -/
def inPhase (s : CardState) (phase : CardPhase) : CardState := { s with phase := phase }

@[simp] theorem kind_inPhase (s : CardState) (phase : CardPhase) :
    (s.inPhase phase).kind = s.kind := rfl

@[simp] theorem capacity_inPhase (s : CardState) (phase : CardPhase) :
    (s.inPhase phase).capacity = s.capacity := rfl

@[simp] theorem stage_inPhase (s : CardState) (phase : CardPhase) :
    (s.inPhase phase).stage = s.stage := rfl

@[simp] theorem phase_inPhase (s : CardState) (phase : CardPhase) :
    (s.inPhase phase).phase = phase := rfl

@[simp] theorem sectors_inPhase (s : CardState) (phase : CardPhase) :
    (s.inPhase phase).sectors = s.sectors := rfl

@[simp] theorem inPhase_inPhase (s : CardState) (phase phase' : CardPhase) :
    (s.inPhase phase).inPhase phase' = s.inPhase phase' := rfl

theorem inPhase_eq_self {s : CardState} {phase : CardPhase} (h : s.phase = phase) :
    s.inPhase phase = s := h ▸ rfl

/-- The same card with other sectors, at another point of a transaction. -/
def holding (s : CardState) (sectors : UInt32 → Bytes sectorSize) (phase : CardPhase) :
    CardState := { s with sectors := sectors, phase := phase }

@[simp] theorem stage_holding (s : CardState) (sectors : UInt32 → Bytes sectorSize)
    (phase : CardPhase) : (s.holding sectors phase).stage = s.stage := rfl

@[simp] theorem phase_holding (s : CardState) (sectors : UInt32 → Bytes sectorSize)
    (phase : CardPhase) : (s.holding sectors phase).phase = phase := rfl

@[simp] theorem sectors_holding (s : CardState) (sectors : UInt32 → Bytes sectorSize)
    (phase : CardPhase) : (s.holding sectors phase).sectors = sectors := rfl

@[simp] theorem inPhase_holding (s : CardState) (sectors : UInt32 → Bytes sectorSize)
    (phase phase' : CardPhase) :
    (s.holding sectors phase).inPhase phase' = s.holding sectors phase' := rfl

/-- The sector that an address stands for. -/
def sectorAt (s : CardState) (arg : UInt32) : Option UInt32 :=
  match s.kind with
  -- Large cards are addressed by sectors, the others by bytes.
  | .sdhc => if arg.toNat < s.capacity then some arg else none
  | _ =>
    if arg.toNat % sectorSize = 0 ∧ arg.toNat / sectorSize < s.capacity then
      some (UInt32.ofNat (arg.toNat / sectorSize))
    else none

/-- A command as it comes in: a start, the argument, and the checksum over a stop bit. -/
def IsCommand (frame : List UInt8) (cmd : UInt8) (arg : UInt32) : Prop :=
  cmd < 64 ∧ ∃ last : UInt8, frame = (0x40 ||| cmd) :: u32ToBeBytes arg ++ [last] ∧
    last.toNat = 2 * number
      ((message (dataBits ((0x40 ||| cmd) :: u32ToBeBytes arg)) * X ^ 7) %ₘ (X ^ 7 + X ^ 3 + 1)) + 1

/-- Idle bytes, as a card that makes the host wait sends them. -/
def gap (delay : ℕ) : List UInt8 := List.replicate delay 0xFF

/-- The card owes these bytes after at most eight idle ones. -/
def Responds (s : CardState) (bytes : List UInt8) (stage : CardStage) (s' : CardState) : Prop :=
  ∃ delay ≤ 8, s' = { s with stage := stage, phase := .play (gap delay ++ bytes) .ready }

/-- The answer that refuses a command: none at all, or an error. -/
def IsRefusal (script : List UInt8) : Prop :=
  script = [] ∨ ∃ delay, ∃ r1 : UInt8, script = gap delay ++ [r1] ∧ r1 &&& 0x80 = 0 ∧ r1 ≠ 0

/-- The token that refuses the data of a sector. -/
def IsDataError (script : List UInt8) : Prop :=
  ∃ delay latency, ∃ e : UInt8,
    script = gap delay ++ 0x00 :: (gap latency ++ [e]) ∧ e ≠ 0xFF ∧ e ≠ 0xFE

variable (prompt : Prop)

/-- A sector is read, or the command is refused. -/
def Reads (s : CardState) (arg : UInt32) (s' : CardState) : Prop :=
  (∃ lba delay latency, ∃ crc : Bytes 2, s.sectorAt arg = some lba ∧
    (prompt → delay ≤ 8 ∧ latency < 100000) ∧
    s' = s.inPhase (.play (gap delay ++ 0x00 :: (gap latency ++
      0xFE :: ((s.sectors lba).toList ++ crc.toList))) .ready)) ∨
  ((prompt → s.sectorAt arg = none) ∧
    ∃ script, (IsRefusal script ∨ IsDataError script) ∧ s' = s.inPhase (.play script .ready))

/-- The card waits for the data of a sector, or the command is refused. -/
def Writes (s : CardState) (arg : UInt32) (s' : CardState) : Prop :=
  (∃ lba delay, s.sectorAt arg = some lba ∧ (prompt → delay ≤ 8) ∧
    s' = s.inPhase (.play (gap delay ++ [0x00]) (.token lba))) ∨
  ((prompt → s.sectorAt arg = none) ∧
    ∃ script, IsRefusal script ∧ s' = s.inPhase (.play script .ready))

/-- What a card does with a command, at each stage. -/
def Answers (s : CardState) (cmd : UInt8) (arg : UInt32) (s' : CardState) : Prop :=
  match s.stage with
  | .unpowered clocked ignored =>
    -- Only the reset is spoken of, and only once the card has been woken.
    10 ≤ clocked → cmd = 0 →
      match ignored with
      | 0 => ∃ polls < 200, s.Responds [0x01] (.idle false polls) s'
      | ignored + 1 => s' = { s with stage := .unpowered clocked ignored, phase := .ready }
  | .idle app polls =>
    -- A card of the first version does not know this command, and says so.
    (cmd = 8 → arg = 0x1AA →
      s.Responds (if s.kind = .sdscV1 then [0x05] else [0x01, 0x00, 0x00, 0x01, 0xAA])
        (.idle false polls) s') ∧
    (cmd = 55 → s.Responds [0x01] (.idle true polls) s') ∧
    -- The card comes up when it has been polled so often.
    (cmd = 41 → app = true → (s.kind ≠ .sdscV1 → arg = 0x40000000) →
      match polls with
      | 0 => s.Responds [0x00] .operational s'
      | polls + 1 => s.Responds [0x01] (.idle false polls) s')
  | .operational =>
    (cmd = 16 → arg = 512 → s.Responds [0x00] .operational s') ∧
    (cmd = 17 → s.Reads prompt arg s') ∧
    (cmd = 24 → s.Writes prompt arg s') ∧
    (cmd = 58 → ∃ ocr : Bytes 4, (HighCapacity ocr ↔ s.kind = .sdhc) ∧
      s.Responds (0x00 :: ocr.toList) .operational s')

/-- The sector that came in, without the two bytes of its checksum. -/
def blockOf (received : List UInt8) : Bytes sectorSize := .ofFn fun i => received.getD i 0

/-- The data of a sector are accepted, and the card works on them, or they are refused. -/
def Accepts (s : CardState) (lba : UInt32) (received : List UInt8) (s' : CardState) : Prop :=
  (∃ delay busy, ∃ resp : UInt8, (prompt → delay ≤ 8 ∧ busy < 250000) ∧ resp &&& 0x1F = 0x05 ∧
    s' = s.holding (Function.update s.sectors lba (blockOf received))
      (.play (gap delay ++ [resp]) (.settle busy))) ∨
  (¬ prompt ∧ ∃ delay, ∃ resp : UInt8, resp ≠ 0xFF ∧ resp &&& 0x1F ≠ 0x05 ∧
    s' = s.inPhase (.play (gap delay ++ [resp]) .ready))

/-- Clocks count until the card is woken. -/
def clocked : CardStage → CardStage
  | .unpowered clocked ignored => .unpowered (clocked + 1) ignored
  | stage => stage

/-- A card that was clocked while deselected, with so much work left. -/
def deselected (s : CardState) (clocks left : ℕ) : CardState :=
  { s with stage := clocked^[clocks] s.stage, phase := .settle left }

/-- What a card may do with one byte. Deselected, it gives up the transaction, and goes on
with its work; selected, it takes the byte as its phase demands. -/
def Allows (s : CardState) (cs : Level) (mosi miso : UInt8) (s' : CardState) : Prop :=
  match cs, s.phase with
  | .high, phase =>
    -- Its work may be done sooner than the clocks would have it.
    ∃ left ≤ phase.backlog, s' = s.deselected 1 left
  | .low, .ready =>
    if mosi = 0xFF then miso = 0xFF ∧ s' = s
    -- Of a byte that starts no command, nothing is said.
    else mosi &&& 0xC0 = 0x40 → s' = s.inPhase (.frame [mosi])
  | .low, .busy left => miso ≠ 0xFF ∧ s' = s.inPhase (.settle (left - 1))
  | .low, .frame received =>
    if received.length < 5 then s' = s.inPhase (.frame (received ++ [mosi]))
    else ∀ cmd arg, IsCommand (received ++ [mosi]) cmd arg → s.Answers prompt cmd arg s'
  | .low, .answer bytes next =>
    -- The answer is promised only to a host that idles.
    mosi = 0xFF → miso = bytes.headD 0xFF ∧ s' = s.inPhase (.play bytes.tail next)
  | .low, .token lba =>
    if mosi = 0xFE then s' = s.inPhase (.data lba []) else mosi = 0xFF → s' = s
  | .low, .data lba received =>
    -- After the 512 bytes come two of a checksum.
    if received.length < 513 then s' = s.inPhase (.data lba (received ++ [mosi]))
    else s.Accepts prompt lba (received ++ [mosi]) s'

section Allows

variable {prompt : Prop} {s s' : CardState} {mosi miso : UInt8}

theorem allows_ready (phase : s.phase = .ready) :
    s.Allows prompt .low mosi miso s' ↔
      if mosi = 0xFF then miso = 0xFF ∧ s' = s
      else mosi &&& 0xC0 = 0x40 → s' = s.inPhase (.frame [mosi]) := by
  simp only [Allows, phase]

theorem allows_settle {left : ℕ} (phase : s.phase = .settle (left + 1)) :
    s.Allows prompt .low mosi miso s' ↔
      miso ≠ 0xFF ∧ s' = s.inPhase (.settle left) := by
  simp only [Allows, phase, CardPhase.settle, Nat.add_sub_cancel]

theorem allows_frame {received : List UInt8} (phase : s.phase = .frame received) :
    s.Allows prompt .low mosi miso s' ↔
      if received.length < 5 then s' = s.inPhase (.frame (received ++ [mosi]))
      else ∀ cmd arg, IsCommand (received ++ [mosi]) cmd arg → s.Answers prompt cmd arg s' := by
  simp only [Allows, phase]

theorem allows_play {b : UInt8} {rest : List UInt8} {next : CardPhase}
    (phase : s.phase = .play (b :: rest) next) :
    s.Allows prompt .low mosi miso s' ↔
      (mosi = 0xFF → miso = b ∧ s' = s.inPhase (.play rest next)) := by
  simp only [Allows, phase, CardPhase.play, List.headD_cons, List.tail_cons]

theorem allows_token {lba : UInt32} (phase : s.phase = .token lba) :
    s.Allows prompt .low mosi miso s' ↔
      if mosi = 0xFE then s' = s.inPhase (.data lba []) else mosi = 0xFF → s' = s := by
  simp only [Allows, phase]

theorem allows_data {lba : UInt32} {received : List UInt8} (phase : s.phase = .data lba received) :
    s.Allows prompt .low mosi miso s' ↔
      if received.length < 513 then s' = s.inPhase (.data lba (received ++ [mosi]))
      else s.Accepts prompt lba (received ++ [mosi]) s' := by
  simp only [Allows, phase]

theorem allows_high : s.Allows prompt .high mosi miso s' ↔
    ∃ left ≤ s.phase.backlog, s' = s.deselected 1 left := Iff.rfl

end Allows

end CardState

/-- A card that keeps to the description, seen through its state. -/
structure Conforms {κ : Type} [SdCard κ] (prompt : Prop) (view : κ → CardState) : Prop where
  allows : ∀ (c : κ) (cs : Level) (mosi : UInt8),
    (view c).Allows prompt cs mosi (SdCard.clock c cs mosi).1 (view (SdCard.clock c cs mosi).2)

end Gibberish.Storage
