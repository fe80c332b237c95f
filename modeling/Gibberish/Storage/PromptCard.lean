/-
# A card that makes nobody wait

A card in full, which answers every command at once and refuses what it does not know.
It keeps to the description of cards, so that the description can be met.
-/

import Gibberish.Storage.SdCard

set_option autoImplicit false

namespace Gibberish.Storage

open Gibberish.Foundation CardState CardPhase

structure PromptCard where
  state : CardState

namespace PromptCard

/-- The card owes these bytes. -/
def owing (s : CardState) (bytes : List UInt8) (stage : CardStage) : CardState :=
  { s with stage := stage, phase := .play bytes .ready }

def answer (s : CardState) (cmd : UInt8) (arg : UInt32) : CardState :=
  match s.stage with
  | .unpowered clocks 0 =>
    if 10 ≤ clocks ∧ cmd = 0 then owing s [0x01] (.idle false 1) else s.inPhase .ready
  | .unpowered clocks (ignored + 1) => owing s [] (.unpowered clocks ignored)
  | .idle app polls =>
    if cmd = 8 then
      owing s (if s.kind = .sdscV1 then [0x05] else [0x01, 0x00, 0x00, 0x01, 0xAA])
        (.idle false polls)
    else if cmd = 55 then owing s [0x01] (.idle true polls)
    else if cmd = 41 ∧ app then
      match polls with
      | 0 => owing s [0x00] .operational
      | polls + 1 => owing s [0x01] (.idle false polls)
    else owing s [0x05] (.idle false polls)
  | .operational =>
    if cmd = 16 then owing s [0x00] .operational
    else if cmd = 17 then
      match s.sectorAt arg with
      | some lba => s.inPhase (.play (0x00 :: 0xFE :: ((s.sectors lba).toList ++ [0x00, 0x00])) .ready)
      | none => s.inPhase (.play [0x40] .ready)
    else if cmd = 24 then
      match s.sectorAt arg with
      | some lba => s.inPhase (.play [0x00] (.token lba))
      | none => s.inPhase (.play [0x40] .ready)
    else if cmd = 58 then
      owing s [0x00, if s.kind = .sdhc then 0xC0 else 0x80, 0xFF, 0x80, 0x00] .operational
    else owing s [0x04] .operational

def clock (s : CardState) : Level → UInt8 → UInt8 × CardState
  | .high, _ => (0xFF, s.deselected 1 0)
  | .low, mosi =>
    match s.phase with
    | .ready => (0xFF, if mosi &&& 0xC0 = 0x40 then s.inPhase (.frame [mosi]) else s)
    | .busy left => (0x00, s.inPhase (.settle (left - 1)))
    | .frame received =>
      (0xFF, if received.length < 5 then s.inPhase (.frame (received ++ [mosi]))
        else answer s (received.headD 0 &&& 0x3F) (u32FromBeBytes received.tail))
    | .answer bytes next => (bytes.headD 0xFF, s.inPhase (.play bytes.tail next))
    | .token lba => (0xFF, if mosi = 0xFE then s.inPhase (.data lba []) else s)
    | .data lba received =>
      (0xFF, if received.length < 513 then s.inPhase (.data lba (received ++ [mosi]))
        else s.holding (Function.update s.sectors lba (blockOf (received ++ [mosi])))
          (.play [0x05] (.settle 3)))

instance : SdCard PromptCard where
  clock c cs mosi :=
    let (miso, s) := clock c.state cs mosi
    (miso, ⟨s⟩)

/-- A card as it comes to power, which lets one reset pass. -/
def powered (kind : CardKind) (capacity : ℕ) (sectors : UInt32 → Bytes sectorSize) : PromptCard :=
  ⟨⟨kind, capacity, .unpowered 0 1, .ready, sectors⟩⟩

variable {prompt : Prop}

theorem responds_owing (s : CardState) (bytes : List UInt8) (stage : CardStage) :
    s.Responds bytes stage (owing s bytes stage) :=
  ⟨0, Nat.zero_le 8, rfl⟩

/-- An operational card that is told to read. -/
theorem reads_answer (s : CardState) (operational : s.stage = .operational) (arg : UInt32) :
    s.Reads prompt arg (answer s 17 arg) := by
  simp only [answer, operational]
  cases hsector : s.sectorAt arg with
  | some lba =>
    exact Or.inl ⟨lba, 0, 0, #v[0x00, 0x00], hsector, fun _ => ⟨Nat.zero_le 8, by decide⟩, rfl⟩
  | none =>
    exact Or.inr ⟨fun _ => hsector, [0x40], Or.inl (Or.inr ⟨0, 0x40, rfl, by decide, by decide⟩), rfl⟩

/-- An operational card that is told to write. -/
theorem writes_answer (s : CardState) (operational : s.stage = .operational) (arg : UInt32) :
    s.Writes prompt arg (answer s 24 arg) := by
  simp only [answer, operational]
  cases hsector : s.sectorAt arg with
  | some lba => exact Or.inl ⟨lba, 0, hsector, fun _ => Nat.zero_le 8, rfl⟩
  | none => exact Or.inr ⟨fun _ => hsector, [0x40], Or.inr ⟨0, 0x40, rfl, by decide, by decide⟩, rfl⟩

theorem answers_answer (s : CardState) (cmd : UInt8) (arg : UInt32) :
    s.Answers prompt cmd arg (answer s cmd arg) := by
  rw [Answers]
  cases hstage : s.stage with
  -- A reset that goes unheard is counted, the next one is answered.
  | unpowered clocks ignored =>
    rintro hclocks rfl
    cases ignored with
    | zero =>
      refine ⟨1, by decide, ?_⟩
      rw [answer, hstage]
      dsimp only
      rw [if_pos ⟨hclocks, rfl⟩]
      exact responds_owing s _ _
    | succ ignored =>
      dsimp only
      rw [answer, hstage]
      rfl
  | idle app polls =>
    refine ⟨?_, ?_, ?_⟩
    · rintro rfl -
      rw [answer, hstage]
      exact responds_owing s _ _
    · rintro rfl
      rw [answer, hstage]
      exact responds_owing s _ _
    · rintro rfl rfl -
      rw [answer, hstage]
      cases polls with
      | zero => exact responds_owing s _ _
      | succ polls => exact responds_owing s _ _
  | operational =>
    refine ⟨?_, ?_, ?_, ?_⟩
    · rintro rfl -
      rw [answer, hstage]
      exact responds_owing s _ _
    · rintro rfl
      exact reads_answer s hstage arg
    · rintro rfl
      exact writes_answer s hstage arg
    · rintro rfl
      rw [answer, hstage]
      refine ⟨#v[if s.kind = .sdhc then 0xC0 else 0x80, 0xFF, 0x80, 0x00], ?_,
        responds_owing s _ _⟩
      show (if s.kind = .sdhc then 0xC0 else 0x80) &&& (0x40 : UInt8) ≠ 0 ↔ _
      by_cases hkind : s.kind = .sdhc
      · rw [if_pos hkind]
        exact iff_of_true (by decide) hkind
      · rw [if_neg hkind]
        exact iff_of_false (by decide) hkind

/-- **The card keeps to the description**, and to what it says of prompt cards. -/
theorem conforms : Conforms prompt PromptCard.state := by
  refine ⟨fun c cs mosi => ?_⟩
  show c.state.Allows prompt cs mosi (clock c.state cs mosi).1 (clock c.state cs mosi).2
  generalize c.state = s
  cases cs with
  | high => exact allows_high.mpr ⟨0, Nat.zero_le _, rfl⟩
  | low =>
    cases hphase : s.phase with
    | ready =>
      rw [allows_ready hphase, clock, hphase]
      split
      · next hidle =>
        subst hidle
        exact ⟨rfl, rfl⟩
      · exact fun hstart => if_pos hstart
    | busy left =>
      simp only [Allows, hphase, clock]
      exact ⟨by decide, trivial⟩
    | frame received =>
      rw [allows_frame hphase, clock, hphase]
      dsimp only
      split
      · rfl
      · rintro cmd arg ⟨hcmd, last, hframe, -⟩
        have hreceived : received = (0x40 ||| cmd) :: u32ToBeBytes arg :=
          (List.append_inj' hframe rfl).1
        -- The card reads the command and its argument back, and trusts the checksum.
        have hmask : (0x40 ||| cmd) &&& 0x3F = cmd := by
          have hall : ∀ n < 64, (0x40 ||| UInt8.ofNat n) &&& 0x3F = UInt8.ofNat n := by decide
          have h := hall cmd.toNat (UInt8.lt_iff_toNat_lt.mp hcmd)
          rwa [UInt8.ofNat_toNat] at h
        rw [hreceived, List.headD_cons, List.tail_cons, hmask, u32FromBeBytes_toBeBytes]
        exact answers_answer s cmd arg
    | answer bytes next =>
      simp only [Allows, hphase, clock]
      exact fun _ => ⟨trivial, trivial⟩
    | token lba =>
      rw [allows_token hphase, clock, hphase]
      dsimp only
      split
      · rfl
      · exact fun _ => rfl
    | data lba received =>
      rw [allows_data hphase, clock, hphase]
      dsimp only
      split
      · rfl
      -- The sector is accepted at once, and the card works on it for three bytes.
      · exact Or.inl ⟨0, 3, 0x05, fun _ => ⟨Nat.zero_le 8, by decide⟩, by decide, rfl⟩

end PromptCard

/-- A panel that nobody looks at. -/
structure BlindPanel where

instance : LcdPanel BlindPanel := ⟨fun panel _ _ _ => panel⟩

instance : LawfulPanel BlindPanel := ⟨fun _ _ _ => rfl⟩

end Gibberish.Storage
