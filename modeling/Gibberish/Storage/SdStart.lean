/-
# Bringing a card up

A card that keeps to the description and is prompt, of any kind, comes up whatever it
held and however often it is still idle: the driver learns how the card counts its
sectors, and leaves the bus at its full rate. From then on every call on a sector of the
card succeeds.
-/

import Gibberish.Storage.SdBlocks

set_option autoImplicit false

namespace Gibberish.Storage

open Gibberish.Foundation SdCard CardState CardPhase

/-- The same card at another stage, ready for a command. -/
def CardState.inStage (s : CardState) (stage : CardStage) : CardState :=
  { s with stage := stage, phase := .ready }

/-- The stage is no longer that of a card without power. -/
def CardStage.Woken (stage : CardStage) : Prop := clocked stage = stage

theorem CardStage.woken_idle (app : Bool) (polls : ℕ) : (CardStage.idle app polls).Woken := rfl

theorem CardStage.woken_operational : CardStage.operational.Woken := rfl

theorem CardStage.Woken.iterate {stage : CardStage} (woken : stage.Woken) (n : ℕ) :
    clocked^[n] stage = stage :=
  Function.iterate_fixed woken n

theorem CardStage.clocked_unpowered (n clocks ignored : ℕ) :
    clocked^[n] (.unpowered clocks ignored) = .unpowered (clocks + n) ignored := by
  induction n with
  | zero => rfl
  | succ n ih =>
    rw [Function.iterate_succ_apply', ih]
    rfl

namespace SharedBus

variable {κ π : Type} [SdCard κ] [LcdPanel π] [LawfulPanel π] {bus : SharedBus κ π}
variable {prompt : Prop} {view : κ → CardState} {c : κ} {cmd : UInt8} {arg : UInt32}

section Transactions

variable (deaf : bus.lcdCs = .high) (conforms : Conforms prompt view)
include deaf conforms

/-- The end of a transaction without work left. -/
theorem deassert_ready (drained : (view c).phase.backlog = 0) :
    ∃ c', deassert (bus.on c) = bus.off c' ∧
      view c' = (view c).inStage (clocked^[2] (view c).stage) := by
  obtain ⟨left, hleft, hview⟩ := view_pass conforms c (List.cons_ne_nil 0xFF [0xFF])
  rw [drained] at hleft
  obtain rfl := Nat.le_zero.mp hleft
  exact ⟨_, deassert_on deaf c, hview⟩

/-- A command whose answer starts with a response byte. -/
theorem waitR1_responds (n : ℕ) {r1 : UInt8} {rest : List UInt8} {stage : CardStage}
    (ready : (view c).phase = .ready) (hcmd : cmd < 64)
    (responds : ∀ s', (view c).Answers prompt cmd arg s' →
      (view c).Responds (r1 :: rest) stage s')
    (response : r1 &&& 0x80 = 0) (patient : 9 ≤ n) :
    ∃ c', waitR1 n (sendCmd cmd arg (SdBus.setCs (bus.off c) .low)) = (.ok r1, bus.on c') ∧
      view c' = ((view c).inStage stage).inPhase (play rest .ready) := by
  have hselect : SdBus.setCs (bus.off c) .low = bus.on c := rfl
  obtain ⟨delay, hdelay, hview⟩ := responds _ (send_cmdBytes conforms hcmd arg ready)
  rw [hselect, sendCmd_on deaf]
  generalize send (cmdBytes cmd arg) c = c₁ at hview ⊢
  obtain ⟨c', heq, hview'⟩ := waitR1_gap deaf conforms (n := n) (congrArg CardState.phase hview)
    response (by omega)
  refine ⟨c', heq, ?_⟩
  rw [hview', hview]
  rfl

/-- A whole transaction with such a command. -/
theorem command_responds (n : ℕ) {r1 : UInt8} {stage : CardStage}
    (ready : (view c).phase = .ready) (hcmd : cmd < 64)
    (responds : ∀ s', (view c).Answers prompt cmd arg s' → (view c).Responds [r1] stage s')
    (response : r1 &&& 0x80 = 0) (patient : 9 ≤ n) (woken : stage.Woken) :
    ∃ c', command cmd arg n (bus.off c) = (.ok r1, bus.off c') ∧
      view c' = (view c).inStage stage := by
  obtain ⟨c₁, heq, hview⟩ := waitR1_responds deaf conforms n ready hcmd responds response patient
  obtain ⟨c', hdeassert, hview'⟩ := deassert_ready deaf conforms (c := c₁)
    (by rw [hview, phase_inPhase, backlog_play]; rfl)
  refine ⟨c', ?_, ?_⟩
  · rw [command, heq]
    dsimp only
    rw [hdeassert]
  · rw [hview', hview, stage_inPhase]
    exact congrArg (view c).inStage (woken.iterate 2)

/-! ### The steps of the start -/

/-- A card that was clocked awake hears a reset, once it has let some pass. -/
theorem enterIdle_spec (tries : ℕ) {clocks ignored : ℕ}
    (stage : (view c).stage = .unpowered clocks ignored)
    (ready : (view c).phase = .ready) (awake : 10 ≤ clocks) (enough : ignored < tries) :
    ∃ c' polls, polls < 200 ∧ enterIdle tries (bus.off c) = (true, bus.off c') ∧
      view c' = (view c).inStage (.idle false polls) := by
  induction tries generalizing c clocks ignored with
  | zero => exact absurd enough (Nat.not_lt_zero ignored)
  | succ tries ih =>
    have hselect : SdBus.setCs (bus.off c) .low = bus.on c := rfl
    have hanswers := send_cmdBytes conforms (show (0 : UInt8) < 64 by decide) 0 ready
    rw [Answers, stage] at hanswers
    cases ignored with
    | zero =>
      obtain ⟨polls, hpolls, hresponds⟩ := hanswers awake rfl
      obtain ⟨delay, hdelay, hview⟩ := hresponds
      generalize hc₁ : send (cmdBytes 0 0) c = c₁ at hview
      obtain ⟨c₂, heq₂, hview₂⟩ := waitR1_gap deaf conforms (n := 50)
        (congrArg CardState.phase hview) (by decide) (by omega)
      obtain ⟨c₃, heq₃, hview₃⟩ := deassert_ready deaf conforms (c := c₂)
        (by rw [hview₂, phase_inPhase]; rfl)
      refine ⟨c₃, polls, hpolls, ?_, ?_⟩
      · rw [enterIdle, command, hselect, sendCmd_on deaf, hc₁, heq₂]
        dsimp only
        rw [heq₃]
        rfl
      · rw [hview₃, hview₂, hview]
        rfl
    | succ ignored =>
      -- The reset goes unheard, and the card is clocked on.
      have hview := hanswers awake rfl
      generalize hc₁ : send (cmdBytes 0 0) c = c₁ at hview
      have hready₁ : (view c₁).phase = .ready := by rw [hview]
      obtain ⟨c₂, heq₂, hview₂⟩ := waitR1_silent deaf conforms 50 hready₁
      obtain ⟨c₃, heq₃, hview₃⟩ := deassert_ready deaf conforms (c := c₂)
        (by rw [hview₂, hready₁]; rfl)
      have hstage₃ : (view c₃).stage = .unpowered (clocks + 2) ignored := by
        rw [hview₃, hview₂, hview]
        rfl
      have hready₃ : (view c₃).phase = .ready := by rw [hview₃]; rfl
      obtain ⟨c', polls, hpolls, heq, hview'⟩ :=
        ih hstage₃ hready₃ (by omega) (Nat.lt_of_succ_lt_succ enough)
      refine ⟨c', polls, hpolls, ?_, ?_⟩
      · rw [enterIdle, command, hselect, sendCmd_on deaf, hc₁, heq₂]
        dsimp only
        rw [heq₃]
        exact heq
      · rw [hview', hview₃, hview₂, hview]
        rfl

/-- The version of an idle card is found. -/
theorem checkVersion_spec {app : Bool} {polls : ℕ} (stage : (view c).stage = .idle app polls)
    (ready : (view c).phase = .ready) :
    ∃ c', checkVersion (bus.off c) = (some (decide ((view c).kind ≠ .sdscV1)), bus.off c') ∧
      view c' = (view c).inStage (.idle false polls) := by
  have hresponds : ∀ s', (view c).Answers prompt 8 0x1AA s' → (view c).Responds
      (if (view c).kind = .sdscV1 then [0x05] else [0x01, 0x00, 0x00, 0x01, 0xAA])
      (.idle false polls) s' := by
    intro s' hanswers
    rw [Answers, stage] at hanswers
    exact hanswers.1 rfl rfl
  by_cases hkind : (view c).kind = .sdscV1
  · rw [if_pos hkind] at hresponds
    obtain ⟨c₁, heq₁, hview₁⟩ := waitR1_responds deaf conforms 100 ready (by decide)
      hresponds (by decide) (by omega)
    obtain ⟨c₂, heq₂, hview₂⟩ := deassert_ready deaf conforms (c := c₁) (by rw [hview₁]; rfl)
    refine ⟨c₂, ?_, by rw [hview₂, hview₁]; rfl⟩
    rw [checkVersion, heq₁]
    dsimp only
    rw [if_neg (by decide), if_pos (by decide)]
    dsimp only
    rw [heq₂, decide_eq_false (not_not.mpr hkind)]
  · rw [if_neg hkind] at hresponds
    obtain ⟨c₁, heq₁, hview₁⟩ := waitR1_responds deaf conforms 100 ready (by decide)
      hresponds (by decide) (by omega)
    -- The voltage and the pattern come back.
    have howes₁ : (view c₁).phase =
        play ((#v[0x00, 0x00, 0x01, 0xAA] : Bytes 4).toList ++ []) .ready := by
      rw [hview₁, phase_inPhase]
      rfl
    obtain ⟨c₂, hyields₂, hview₂⟩ := yields_play conforms howes₁
    obtain ⟨c₃, heq₃, hview₃⟩ := deassert_ready deaf conforms (c := c₂) (by rw [hview₂]; rfl)
    refine ⟨c₃, ?_, by rw [hview₃, hview₂, hview₁]; rfl⟩
    rw [checkVersion, heq₁]
    dsimp only
    rw [if_pos rfl, transfer_on deaf hyields₂]
    dsimp only
    rw [if_pos (by decide), heq₃, decide_eq_true hkind]

/-- An idle card comes up, once it has said often enough that it is idle. -/
theorem leaveIdle_spec (tries : ℕ) (hcsArg : UInt32) {polls : ℕ} {app : Bool}
    (stage : (view c).stage = .idle app polls) (ready : (view c).phase = .ready)
    (host : (view c).kind ≠ .sdscV1 → hcsArg = 0x40000000) (enough : polls < tries) :
    ∃ c', leaveIdle hcsArg tries (bus.off c) = (true, bus.off c') ∧
      view c' = (view c).inStage .operational := by
  induction tries generalizing c app polls with
  | zero => exact absurd enough (Nat.not_lt_zero polls)
  | succ tries ih =>
    have hannounced : ∀ s', (view c).Answers prompt 55 0 s' →
        (view c).Responds [0x01] (.idle true polls) s' := fun s' hanswers => by
      rw [Answers, stage] at hanswers
      exact hanswers.2.1 rfl
    obtain ⟨c₁, heq₁, hview₁⟩ := command_responds deaf conforms 100 ready (by decide) hannounced
      (by decide) (by omega) (CardStage.woken_idle _ _)
    have hready₁ : (view c₁).phase = .ready := by rw [hview₁]; rfl
    have hstage₁ : (view c₁).stage = .idle true polls := by rw [hview₁]; rfl
    have hhost₁ : (view c₁).kind ≠ .sdscV1 → hcsArg = 0x40000000 := by rwa [hview₁]
    rw [leaveIdle, heq₁]
    dsimp only
    cases polls with
    | zero =>
      have hup : ∀ s', (view c₁).Answers prompt 41 hcsArg s' →
          (view c₁).Responds [0x00] .operational s' := fun s' hanswers => by
        rw [Answers, hstage₁] at hanswers
        exact hanswers.2.2 rfl rfl hhost₁
      obtain ⟨c₂, heq₂, hview₂⟩ := command_responds deaf conforms 100 hready₁ (by decide) hup
        (by decide) (by omega) CardStage.woken_operational
      rw [heq₂]
      exact ⟨c₂, rfl, by rw [hview₂, hview₁]; rfl⟩
    | succ polls =>
      have hidle : ∀ s', (view c₁).Answers prompt 41 hcsArg s' →
          (view c₁).Responds [0x01] (.idle false polls) s' := fun s' hanswers => by
        rw [Answers, hstage₁] at hanswers
        exact hanswers.2.2 rfl rfl hhost₁
      obtain ⟨c₂, heq₂, hview₂⟩ := command_responds deaf conforms 100 hready₁ (by decide) hidle
        (by decide) (by omega) (CardStage.woken_idle _ _)
      have hkind₂ : (view c₂).kind = (view c).kind := by rw [hview₂, hview₁]; rfl
      obtain ⟨c', heq, hview'⟩ := ih (c := c₂) (by rw [hview₂]; rfl) (by rw [hview₂]; rfl)
        (hkind₂ ▸ host) (Nat.lt_of_succ_lt_succ enough)
      rw [heq₂]
      exact ⟨c', heq, by rw [hview', hview₂, hview₁]; rfl⟩

/-- How the card counts its sectors is found. -/
theorem readOcr_spec (stage : (view c).stage = .operational) (ready : (view c).phase = .ready) :
    ∃ c', readOcr (bus.off c) = (decide ((view c).kind = .sdhc), bus.off c') ∧
      view c' = (view c).inStage .operational := by
  have hselect : SdBus.setCs (bus.off c) .low = bus.on c := rfl
  have hanswers := send_cmdBytes conforms (show (58 : UInt8) < 64 by decide) 0 ready
  rw [Answers, stage] at hanswers
  obtain ⟨ocr, hocr, delay, hdelay, hview⟩ := hanswers.2.2.2 rfl
  generalize hc₁ : send (cmdBytes 58 0) c = c₁ at hview
  obtain ⟨c₂, heq₂, hview₂⟩ := waitR1_gap deaf conforms (n := 100)
    (congrArg CardState.phase hview) (by decide) (by omega)
  have howes₂ : (view c₂).phase = play (ocr.toList ++ []) .ready := by
    rw [hview₂, phase_inPhase, List.append_nil]
  obtain ⟨c₃, hyields₃, hview₃⟩ := yields_play conforms howes₂
  obtain ⟨c₄, heq₄, hview₄⟩ := deassert_ready deaf conforms (c := c₃) (by rw [hview₃]; rfl)
  refine ⟨c₄, ?_, by rw [hview₄, hview₃, hview₂, hview]; rfl⟩
  have hok : (.ok 0x00 : Except StorageError UInt8).toOption = some 0x00 := rfl
  rw [readOcr, hselect, sendCmd_on deaf, hc₁, heq₂]
  simp only [hok, if_true]
  rw [transfer_on deaf hyields₃]
  dsimp only
  rw [heq₄, decide_eq_decide.mpr hocr]

end Transactions

end SharedBus

/-! ### The whole start -/

namespace SpiSdBlockDevice

/-- The sector of a call. -/
def SectorOp.lba : SectorOp → UInt32
  | .read lba => lba
  | .write lba _ => lba

/-- An array of sectors, whose calls never fail. -/
def arrayStep (cells : UInt32 → Bytes sectorSize) :
    SectorOp → (UInt32 → Bytes sectorSize) × List SectorCall
  | .read lba => (cells, [.read lba (.ok (cells lba))])
  | .write lba block => (Function.update cells lba block, [.write lba block (.ok ())])

/-- The array as a machine that emits its calls. -/
def arrayMachine : Machine (UInt32 → Bytes sectorSize) SectorOp SectorCall := ⟨arrayStep⟩

variable {κ π : Type} [SdCard κ] [LcdPanel π] [LawfulPanel π]
variable {prompt : Prop} {view : κ → CardState}

/-- The clocks that wake the card. -/
theorem wake_spec (conforms : Conforms prompt view) {bus : SharedBus κ π} (deaf : bus.lcdCs = .high)
    {c : κ} {clocks ignored : ℕ} (stage : (view c).stage = .unpowered clocks ignored)
    (ready : (view c).phase = .ready) :
    ∃ c', SdBus.write (bus.off c) (List.replicate 10 0xFF) = (true, bus.off c') ∧
      view c' = (view c).inStage (.unpowered (clocks + 10) ignored) := by
  obtain ⟨left, hleft, hview⟩ := view_pass conforms c
    (List.cons_ne_nil (0xFF : UInt8) (List.replicate 9 0xFF))
  rw [← List.replicate_succ] at hview
  rw [ready] at hleft
  obtain rfl : left = 0 := Nat.le_zero.mp hleft
  refine ⟨pass (List.replicate 10 0xFF) c, SharedBus.write_off deaf _ _, ?_⟩
  have hstage : clocked^[10] (view c).stage = .unpowered (clocks + 10) ignored := by
    rw [stage, CardStage.clocked_unpowered]
  rw [hview, List.length_replicate, deselected, hstage]
  rfl

/-- The version decides whether the card is asked how it counts. -/
theorem capacity_spec (conforms : Conforms prompt view) {bus : SharedBus κ π}
    (deaf : bus.lcdCs = .high) {c : κ} {s : CardState} (up : view c = s.inStage .operational) :
    ∃ c', (if decide (s.kind ≠ .sdscV1) then readOcr (bus.off c) else (false, bus.off c)) =
        (decide (s.kind = .sdhc), bus.off c') ∧ view c' = s.inStage .operational := by
  by_cases hkind : s.kind = .sdscV1
  · refine ⟨c, ?_, up⟩
    rw [hkind]
    rfl
  · obtain ⟨c', heq, hview⟩ := SharedBus.readOcr_spec deaf conforms (c := c)
      (by rw [up]; rfl) (by rw [up]; rfl)
    refine ⟨c', ?_, by rw [hview, up]; rfl⟩
    rw [decide_eq_true hkind, if_pos rfl, heq, up]
    rfl

/-- A card that counts bytes is told the length of a block. -/
theorem blockLen_spec (conforms : Conforms prompt view) {bus : SharedBus κ π}
    (deaf : bus.lcdCs = .high) {c : κ} {s : CardState} (up : view c = s.inStage .operational) :
    ∃ c', (if decide (s.kind = .sdhc) then bus.off c else (command 16 512 100 (bus.off c)).2) =
        bus.off c' ∧ view c' = s.inStage .operational := by
  by_cases hkind : s.kind = .sdhc
  · exact ⟨c, by rw [decide_eq_true hkind, if_pos rfl], up⟩
  · have hstage : (view c).stage = .operational := by rw [up]; rfl
    have hresponds : ∀ s', (view c).Answers prompt 16 512 s' →
        (view c).Responds [0x00] .operational s' := fun s' hanswers => by
      rw [Answers, hstage] at hanswers
      exact hanswers.1 rfl rfl
    obtain ⟨c', heq, hview⟩ := SharedBus.command_responds deaf conforms 100
      (by rw [up]; rfl) (by decide) hresponds (by decide) (by omega) CardStage.woken_operational
    refine ⟨c', ?_, by rw [hview, up]; rfl⟩
    rw [decide_eq_false hkind, if_neg Bool.false_ne_true, heq]

/-- **The start.** A prompt card that was just powered is brought up. -/
theorem new_spec (conforms : Conforms prompt view) {bus : SharedBus κ π} (deaf : bus.lcdCs = .high)
    {clocks ignored : ℕ} (stage : (view bus.card).stage = .unpowered clocks ignored)
    (ready : (view bus.card).phase = .ready) (heard : ignored < 5) :
    ∃ c', new bus = .ok ⟨({ bus with khz := 16000 } : SharedBus κ π).off c',
        decide ((view bus.card).kind = .sdhc)⟩ ∧
      view c' = (view bus.card).inStage .operational := by
  generalize hslow : ({ bus with khz := 400 } : SharedBus κ π) = slow
  have hdeaf : slow.lcdCs = .high := by rw [← hslow]; exact deaf
  generalize hcard : bus.card = c at stage ready ⊢
  obtain ⟨c₁, hwrite, hview₁⟩ := wake_spec conforms hdeaf stage ready
  obtain ⟨c₂, polls, hpolls, heq₂, hview₂⟩ := SharedBus.enterIdle_spec hdeaf conforms 5
    (show (view c₁).stage = .unpowered (clocks + 10) ignored by rw [hview₁]; rfl)
    (by rw [hview₁]; rfl) (Nat.le_add_left 10 clocks) heard
  have hstage₂ : (view c₂).stage = .idle false polls := by rw [hview₂]; rfl
  obtain ⟨c₃, heq₃, hview₃⟩ := SharedBus.checkVersion_spec hdeaf conforms hstage₂
    (by rw [hview₂]; rfl)
  have hkind₂ : (view c₂).kind = (view c).kind := by rw [hview₂, hview₁]; rfl
  have hkind₃ : (view c₃).kind = (view c).kind := by rw [hview₃, ← hkind₂]; rfl
  have hstage₃ : (view c₃).stage = .idle false polls := by rw [hview₃]; rfl
  obtain ⟨c₄, heq₄, hview₄⟩ := SharedBus.leaveIdle_spec hdeaf conforms 200
    (if decide ((view c).kind ≠ .sdscV1) then 0x40000000 else 0x00000000) hstage₃
    (by rw [hview₃]; rfl) (fun h => by rw [hkind₃] at h; rw [decide_eq_true h, if_pos rfl]) hpolls
  have hup₄ : view c₄ = (view c).inStage .operational := by
    rw [hview₄, hview₃, hview₂, hview₁]
    rfl
  obtain ⟨c₅, heq₅, hup₅⟩ := capacity_spec conforms hdeaf hup₄
  obtain ⟨c₆, heq₆, hup₆⟩ := blockLen_spec conforms hdeaf hup₅
  -- The full rate, and the card deselected once more.
  generalize hfast : ({ bus with khz := 16000 } : SharedBus κ π) = fast
  have hconfig : SdBus.applyConfig (SdBus.setCs bus .high) 400 = (true, slow.off c) := by
    rw [← hslow, ← hcard]
    rfl
  have hconfig' : SdBus.applyConfig (slow.off c₆) 16000 = (true, fast.off c₆) := by
    rw [← hslow, ← hfast]
    rfl
  have hend : deassert (fast.off c₆) = fast.off (pass [0xFF, 0xFF] c₆) :=
    congrArg Prod.snd (SharedBus.write_off (by rw [← hfast]; exact deaf) c₆ [0xFF, 0xFF])
  obtain ⟨left, hleft, hview₇⟩ := view_pass conforms c₆ (List.cons_ne_nil 0xFF [0xFF])
  rw [hup₆] at hleft hview₇
  obtain rfl := Nat.le_zero.mp hleft
  refine ⟨pass [0xFF, 0xFF] c₆, ?_, hview₇⟩
  have hdelay : SdBus.delayMillis (slow.off c) 10 = slow.off c := rfl
  rw [new]
  dsimp only
  rw [hconfig]
  dsimp only
  rw [Bool.not_true, if_neg Bool.false_ne_true, hdelay, hwrite]
  dsimp only
  rw [heq₂]
  dsimp only
  rw [heq₃]
  dsimp only
  rw [hkind₂, heq₄]
  dsimp only
  rw [heq₅]
  dsimp only
  rw [heq₆, hconfig']
  dsimp only
  rw [if_neg (by decide), hend, ← hfast]
  rfl

/-! ### A prompt card at work -/

/-- The driver serves a card that waits for the next command. -/
structure Prepared (view : κ → CardState) (d : SpiSdBlockDevice (SharedBus κ π)) : Prop where
  serves : Serves view d
  ready : (view d.bus.card).phase = .ready

variable {d : SpiSdBlockDevice (SharedBus κ π)}

/-- A prepared driver, and the array of what its card holds. The range is that of another
card `s`, since no call changes it. -/
structure Mirrors (view : κ → CardState) (s : CardState) (d : SpiSdBlockDevice (SharedBus κ π))
    (cells : UInt32 → Bytes sectorSize) : Prop where
  prepared : Prepared view d
  sectors : sectors view d = cells
  range : ∀ lba, InRange s lba → InRange (view d.bus.card) lba

omit [SdCard κ] [LcdPanel π] [LawfulPanel π] in
/-- The card has come to hold other sectors. -/
theorem Mirrors.holding {s : CardState} {cells cells' : UInt32 → Bytes sectorSize}
    (mirrors : Mirrors view s d cells) {c : κ}
    (viewed : view c = (view d.bus.card).holding cells' .ready) :
    Mirrors view s ⟨d.bus.off c, d.isSdhc⟩ cells' := by
  have hleaves : Leaves view d ⟨d.bus.off c, d.isSdhc⟩ cells' 0 := ⟨c, rfl, viewed⟩
  refine ⟨⟨hleaves.serves mirrors.prepared.serves, congrArg CardState.phase viewed⟩,
    congrArg CardState.sectors viewed, fun lba range => ?_⟩
  show InRange (view c) lba
  rw [viewed]
  exact mirrors.range lba range

theorem read_succeeds (conforms : Conforms True view) (prepared : Prepared view d) {lba : UInt32}
    (range : InRange (view d.bus.card) lba) :
    ∃ c', d.readBlock lba = (.ok (sectors view d lba), ⟨d.bus.off c', d.isSdhc⟩) ∧
      view c' = (view d.bus.card).holding (sectors view d) .ready := by
  obtain ⟨⟨left, hleft, c', heq, hview⟩, hdata, hserved⟩ :=
    readBlock_spec conforms prepared.serves lba
  rw [prepared.ready] at hleft
  obtain rfl := Nat.le_zero.mp hleft
  obtain ⟨block, hblock⟩ := hserved trivial prepared.ready range
  refine ⟨c', Prod.ext ?_ heq, hview⟩
  rw [hblock, hdata block hblock]
  rfl

theorem write_succeeds (conforms : Conforms True view) (prepared : Prepared view d) {lba : UInt32}
    (block : Bytes sectorSize) (range : InRange (view d.bus.card) lba) :
    ∃ c', d.writeBlock lba block = (.ok (), ⟨d.bus.off c', d.isSdhc⟩) ∧
      view c' = (view d.bus.card).holding (Function.update (sectors view d) lba block) .ready := by
  have hspec := writeBlock_spec conforms prepared.serves lba block
  have hanswer := hspec.served trivial prepared.ready range
  rcases hspec.outcome with ⟨left, ⟨c', heq, hview⟩, hsettled⟩ | ⟨hfailed, -⟩
  · obtain rfl := hsettled hanswer
    exact ⟨c', Prod.ext hanswer heq, hview⟩
  · exact absurd hanswer hfailed

/-- **Step lemma.** A call in range is one of the array. -/
theorem step_mirrors (conforms : Conforms True view) {s : CardState}
    {cells : UInt32 → Bytes sectorSize} (mirrors : Mirrors view s d cells) {op : SectorOp}
    (range : InRange s op.lba) :
    machine.emit d op = arrayMachine.emit cells op ∧
      Mirrors view s (machine.next d op) (arrayMachine.next cells op) := by
  obtain rfl := mirrors.sectors
  cases op with
  | read lba =>
    obtain ⟨c', heq, hview⟩ :=
      read_succeeds conforms mirrors.prepared (mirrors.range lba range)
    have hstep : machine.step d (.read lba) =
        (⟨d.bus.off c', d.isSdhc⟩, [.read lba (.ok (sectors view d lba))]) :=
      congrArg (fun r => (r.2, [StoreCall.read lba r.1])) heq
    rw [Machine.emit, Machine.next, hstep]
    exact ⟨rfl, mirrors.holding hview⟩
  | write lba block =>
    obtain ⟨c', heq, hview⟩ :=
      write_succeeds conforms mirrors.prepared block (mirrors.range lba range)
    have hstep : machine.step d (.write lba block) =
        (⟨d.bus.off c', d.isSdhc⟩, [.write lba block (.ok ())]) :=
      congrArg (fun r => (r.2, [StoreCall.write lba block r.1])) heq
    rw [Machine.emit, Machine.next, hstep]
    exact ⟨rfl, mirrors.holding hview⟩

/-- A card that was just powered, behind a panel that is not selected. -/
structure JustPowered (view : κ → CardState) (bus : SharedBus κ π) : Prop where
  deaf : bus.lcdCs = .high
  /-- It lets fewer resets pass than the driver sends. -/
  stage : ∃ clocks, ∃ ignored < 5, (view bus.card).stage = .unpowered clocks ignored
  ready : (view bus.card).phase = .ready

theorem new_prepared (conforms : Conforms True view) {bus : SharedBus κ π}
    (powered : JustPowered view bus) :
    ∃ d, new bus = .ok d ∧ d.bus.khz = 16000 ∧ Prepared view d ∧
      view d.bus.card = (view bus.card).inStage .operational := by
  obtain ⟨clocks, ignored, heard, stage⟩ := powered.stage
  obtain ⟨c', heq, hview⟩ := new_spec conforms powered.deaf stage powered.ready heard
  refine ⟨_, heq, rfl, ⟨⟨rfl, powered.deaf, ?_, ⟨0, ?_⟩, ?_⟩, ?_⟩, hview⟩
  · show (view c').stage = .operational
    rw [hview]
    rfl
  · show (view c').phase = settle 0
    rw [hview]
    rfl
  · show decide ((view bus.card).kind = .sdhc) = true ↔ (view c').kind = .sdhc
    rw [hview, decide_eq_true_iff]
    rfl
  · show (view c').phase = .ready
    rw [hview]
    rfl

/-- **Liveness.** From power on, on a prompt card of any kind: the card comes up, with the
bus at its full rate, and all calls on its sectors answer as an array of what the card held
would. -/
theorem new_serves_array (conforms : Conforms True view) {bus : SharedBus κ π}
    (powered : JustPowered view bus) :
    ∃ d, new bus = .ok d ∧ d.bus.khz = 16000 ∧
      ∀ ops : List SectorOp, (∀ op ∈ ops, InRange (view bus.card) op.lba) →
        machine.outputs d ops = arrayMachine.outputs (view bus.card).sectors ops := by
  obtain ⟨d, heq, hkhz, hprepared, hview⟩ := new_prepared conforms powered
  refine ⟨d, heq, hkhz, fun ops range => ?_⟩
  have hmirrors : Mirrors view (view bus.card) d (view bus.card).sectors := by
    refine ⟨hprepared, ?_, fun lba range => ?_⟩
    · show (view d.bus.card).sectors = _
      rw [hview]
      rfl
    · rw [hview]
      exact range
  have hstep : ∀ (d' : SpiSdBlockDevice (SharedBus κ π)) cells op,
      Mirrors view (view bus.card) d' cells → InRange (view bus.card) op.lba →
      machine.emit d' op = arrayMachine.emit cells op ∧
        Mirrors view (view bus.card) (machine.next d' op) (arrayMachine.next cells op) :=
    fun _ _ _ mirrors range => step_mirrors conforms mirrors range
  exact (Machine.simulation_actions hstep hmirrors range).1

/-- The bus at power on, with a blank card of eight mebibytes. -/
def atPowerOn : SharedBus PromptCard BlindPanel where
  card := PromptCard.powered .sdscV2 16384 fun _ => .zero sectorSize
  panel := ⟨⟩
  sdCs := .low
  lcdCs := .high
  lcdDc := .low
  khz := 0

theorem justPowered_atPowerOn : JustPowered PromptCard.state atPowerOn :=
  ⟨rfl, ⟨0, 1, by decide, rfl⟩, rfl⟩

theorem new_serves_array_atPowerOn :
    ∃ d, new atPowerOn = .ok d ∧ d.bus.khz = 16000 ∧
      machine.outputs d [.write 12 countingBlock, .read 12] =
        arrayMachine.outputs atPowerOn.card.state.sectors [.write 12 countingBlock, .read 12] := by
  obtain ⟨d, heq, hkhz, hcalls⟩ := new_serves_array PromptCard.conforms justPowered_atPowerOn
  have hrange : ∀ op ∈ [SectorOp.write 12 countingBlock, .read 12],
      InRange atPowerOn.card.state op.lba := by
    intro op hop
    rcases List.mem_pair.mp hop with rfl | rfl
    all_goals exact ⟨by decide, fun _ => by decide⟩
  exact ⟨d, heq, hkhz, hcalls _ hrange⟩

end SpiSdBlockDevice

end Gibberish.Storage
