/-
# Sectors through the driver

The driver and a card that keeps to the description, together: a store of sectors whose
calls may fail. A read that succeeds gives what the sector holds. A write that succeeds
took effect, one that fails did or did not, and no other sector changes.
-/

import Gibberish.Foundation.FallibleStore
import Gibberish.Foundation.Machine
import Gibberish.Storage.PromptCard
import Gibberish.Storage.SdTransactions

set_option autoImplicit false

namespace Gibberish.Storage

open Gibberish.Foundation SdCard CardState CardPhase

namespace SharedBus

variable {κ π : Type} [SdCard κ] [LcdPanel π]

/-- The bus with the card selected, at this state of the card. -/
def on (bus : SharedBus κ π) (c : κ) : SharedBus κ π := { bus with card := c, sdCs := .low }

/-- The bus with the card deselected, at this state of the card. -/
def off (bus : SharedBus κ π) (c : κ) : SharedBus κ π := { bus with card := c, sdCs := .high }

variable [LawfulPanel π] {bus : SharedBus κ π} (deaf : bus.lcdCs = .high)
include deaf

theorem clockByte_on (c : κ) (b : UInt8) :
    (bus.on c).clockByte b = ((SdCard.clock c .low b).1, bus.on (SdCard.clock c .low b).2) := by
  simp [clockByte, on, deaf, LawfulPanel.clock_high]

theorem clockByte_off (c : κ) (b : UInt8) :
    (bus.off c).clockByte b = (0xFF, bus.off (SdCard.clock c .high b).2) := by
  simp [clockByte, off, deaf, LawfulPanel.clock_high]

theorem write_on (c : κ) (bytes : List UInt8) :
    SdBus.write (bus.on c) bytes = (true, bus.on (send bytes c)) := by
  have hbytes : ∀ c, (clockBytes bytes (bus.on c)).2 = bus.on (send bytes c) := by
    induction bytes with
    | nil => exact fun _ => rfl
    | cons b rest ih =>
      intro c
      rw [clockBytes, clockByte_on deaf]
      exact ih _
  exact congrArg (Prod.mk true) (hbytes c)

theorem write_off (c : κ) (bytes : List UInt8) :
    SdBus.write (bus.off c) bytes = (true, bus.off (pass bytes c)) := by
  have hbytes : ∀ c, (clockBytes bytes (bus.off c)).2 = bus.off (pass bytes c) := by
    induction bytes with
    | nil => exact fun _ => rfl
    | cons b rest ih =>
      intro c
      rw [clockBytes, clockByte_off deaf]
      exact ih _
  exact congrArg (Prod.mk true) (hbytes c)

theorem clockBytes_on {c c' : κ} {bytes : List UInt8} (yields : Yields poll c bytes c') :
    clockBytes (List.replicate bytes.length 0xFF) (bus.on c) = (bytes, bus.on c') := by
  induction bytes generalizing c with
  | nil => exact congrArg (fun c => (([] : List UInt8), bus.on c)) yields.symm
  | cons b rest ih =>
    obtain ⟨hbyte, hrest⟩ := yields
    rw [List.length_cons, List.replicate_succ, clockBytes, clockByte_on deaf]
    exact congrArg₂ (fun b (r : List UInt8 × SharedBus κ π) => (b :: r.1, r.2)) hbyte (ih hrest)

/-- A transfer of idle bytes reads what the card yields. -/
theorem transfer_on {n : ℕ} {c c' : κ} {bytes : Bytes n} (yields : Yields poll c bytes.toList c') :
    SdBus.transfer (bus.on c) (Vector.replicate n 0xFF) = (true, bytes, bus.on c') := by
  have hclock := clockBytes_on deaf yields
  rw [Vector.length_toList] at hclock
  have hlist : (Vector.replicate n (0xFF : UInt8)).toList = List.replicate n 0xFF := by simp
  have hread : (SdBus.transfer (bus.on c) (Vector.replicate n 0xFF)).2.1 = bytes := by
    apply Vector.toList_inj.mp
    show (clockBytes (Vector.replicate n (0xFF : UInt8)).toList (bus.on c)).1.toArray.toList = _
    rw [hlist, hclock]
  have hbus : (SdBus.transfer (bus.on c) (Vector.replicate n 0xFF)).2.2 = bus.on c' := by
    show (clockBytes (Vector.replicate n (0xFF : UInt8)).toList (bus.on c)).2 = _
    rw [hlist, hclock]
  exact Prod.ext rfl (Prod.ext hread hbus)

theorem readByte_on (c : κ) : readByte (bus.on c) = ((poll c).1, bus.on (poll c).2) := by
  have hyields : Yields poll c (#v[(poll c).1] : Bytes 1).toList (poll c).2 := ⟨rfl, rfl⟩
  have htransfer := transfer_on deaf hyields
  have hone : (#v[0xFF] : Bytes 1) = Vector.replicate 1 0xFF := rfl
  rw [readByte, hone, htransfer]
  rfl

theorem pollUntil_on (stop : UInt8 → Bool) (n : ℕ) (c : κ) :
    pollUntil readByte stop n (bus.on c) =
      ((pollUntil poll stop n c).1, bus.on (pollUntil poll stop n c).2) :=
  pollUntil_map (f := bus.on) (readByte_on deaf) n c

theorem sendCmd_on (cmd : UInt8) (arg : UInt32) (c : κ) :
    sendCmd cmd arg (bus.on c) = bus.on (send (cmdBytes cmd arg) c) := by
  rw [sendCmd, write_on deaf]

theorem deassert_on (c : κ) : deassert (bus.on c) = bus.off (pass [0xFF, 0xFF] c) := by
  have hoff : SdBus.setCs (bus.on c) .high = bus.off c := rfl
  rw [deassert, hoff, write_off deaf]

section Conforms

variable {prompt : Prop} {view : κ → CardState} (conforms : Conforms prompt view) {c : κ}
include conforms

/-- A response that comes in time. -/
theorem waitR1_gap {n delay : ℕ} {r1 : UInt8} {rest : List UInt8} {next : CardPhase}
    (owes : (view c).phase = play (gap delay ++ r1 :: rest) next) (response : r1 &&& 0x80 = 0)
    (short : delay < n) :
    ∃ c', waitR1 n (bus.on c) = (.ok r1, bus.on c') ∧ view c' = (view c).inPhase (play rest next) := by
  obtain ⟨c', heq, hview⟩ := pollUntil_gap conforms (fun b => b &&& 0x80 = 0) owes
    (by decide) (by simpa using response) short
  refine ⟨c', ?_, hview⟩
  rw [waitR1, pollUntil_on deaf, heq]

/-- A response that comes too late. -/
theorem waitR1_long_gap {n delay : ℕ} {rest : List UInt8} {next : CardPhase}
    (owes : (view c).phase = play (gap delay ++ rest) next) (long : n ≤ delay) :
    ∃ c', waitR1 n (bus.on c) = (.error .deviceError, bus.on c') ∧
      view c' = (view c).inPhase (play (gap (delay - n) ++ rest) next) := by
  obtain ⟨c', heq, hview⟩ := pollUntil_long_gap conforms (fun b => b &&& 0x80 = 0) owes
    (by decide) long
  refine ⟨c', ?_, hview⟩
  rw [waitR1, pollUntil_on deaf, heq]

/-- No response at all. -/
theorem waitR1_silent (n : ℕ) (ready : (view c).phase = .ready) :
    ∃ c', waitR1 n (bus.on c) = (.error .deviceError, bus.on c') ∧ view c' = view c := by
  obtain ⟨c', heq, hview⟩ := pollUntil_silent conforms (fun b => b &&& 0x80 = 0) n ready
    (by decide)
  refine ⟨c', ?_, hview⟩
  rw [waitR1, pollUntil_on deaf, heq]

/-- A refused command yields no response or an error. -/
theorem waitR1_refusal (n : ℕ) {script : List UInt8} (refusal : IsRefusal script)
    (owes : (view c).phase = play script .ready) :
    ∃ r1 c', waitR1 n (bus.on c) = (r1, bus.on c') ∧ r1.toOption ≠ some 0x00 ∧
      ∃ rest, view c' = (view c).inPhase (play rest .ready) := by
  -- No answer, one in time, or one too late: none of them is a success.
  rcases refusal with rfl | ⟨delay, r1, rfl, hresponse, hne⟩
  · obtain ⟨c', heq, hview⟩ := waitR1_silent deaf conforms n owes
    exact ⟨_, c', heq, nofun, [], hview.trans (inPhase_eq_self owes).symm⟩
  · rcases Nat.lt_or_ge delay n with hshort | hlong
    · obtain ⟨c', heq, hview⟩ := waitR1_gap deaf conforms owes hresponse hshort
      refine ⟨_, c', heq, ?_, [], hview⟩
      exact fun h => hne (Option.some.inj h)
    · obtain ⟨c', heq, hview⟩ := waitR1_long_gap deaf conforms owes hlong
      exact ⟨_, c', heq, nofun, _, hview⟩

end Conforms

end SharedBus

/-! ### Addresses -/

namespace SpiSdBlockDevice

variable {κ π : Type}

/-- The card can be reached at the sector's address. -/
def InRange (s : CardState) (lba : UInt32) : Prop :=
  lba.toNat < s.capacity ∧ (s.kind ≠ .sdhc → lba.toNat * sectorSize < 2 ^ 32)

variable {s : CardState} {d : SpiSdBlockDevice (SharedBus κ π)} {lba : UInt32}

/-- **Addresses.** An address stands for its own sector or for none, also where it
saturates. -/
theorem sectorAt_addr (addressed : d.isSdhc = true ↔ s.kind = .sdhc) {lba' : UInt32}
    (h : s.sectorAt (d.addr lba) = some lba') : lba' = lba := by
  by_cases hkind : s.kind = .sdhc
  · rw [addr, if_pos (addressed.mpr hkind), sectorAt, hkind] at h
    dsimp only at h
    split at h
    · exact (Option.some.inj h).symm
    · cases h
  -- A byte address is a multiple of 512, unless the product did not fit.
  · have hsdsc : s.sectorAt (d.addr lba) =
        if (d.addr lba).toNat % sectorSize = 0 ∧ (d.addr lba).toNat / sectorSize < s.capacity then
          some (UInt32.ofNat ((d.addr lba).toNat / sectorSize))
        else none := by
      rw [sectorAt]
      cases hs : s.kind with
      | sdhc => exact absurd hs hkind
      | sdscV1 => rfl
      | sdscV2 => rfl
    rw [hsdsc, addr, if_neg (mt addressed.mp hkind), saturatingMul512] at h
    split at h
    · next hfits =>
      have haddr : (lba * 512).toNat = lba.toNat * 512 := by
        rw [UInt32.toNat_mul]
        exact Nat.mod_eq_of_lt hfits
      rw [haddr] at h
      split at h
      · rw [← Option.some.inj h, Nat.mul_div_cancel _ (by decide), UInt32.ofNat_toNat]
      · cases h
    -- Where it saturates, the address is no multiple of 512.
    · rw [if_neg fun hmod => absurd hmod.1 (by decide)] at h
      cases h

/-- A sector in range has an address. -/
theorem sectorAt_addr_of_inRange (addressed : d.isSdhc = true ↔ s.kind = .sdhc)
    (range : InRange s lba) : s.sectorAt (d.addr lba) = some lba := by
  by_cases hkind : s.kind = .sdhc
  · rw [addr, if_pos (addressed.mpr hkind), sectorAt, hkind]
    exact if_pos range.1
  · have hfits := range.2 hkind
    have haddr : (lba * 512).toNat = lba.toNat * 512 := by
      rw [UInt32.toNat_mul]
      exact Nat.mod_eq_of_lt hfits
    have hsector : (lba * 512).toNat % sectorSize = 0 ∧
        (lba * 512).toNat / sectorSize < s.capacity := by
      rw [haddr, Nat.mul_mod_left, Nat.mul_div_cancel _ (by decide)]
      exact ⟨rfl, range.1⟩
    rw [addr, if_neg (mt addressed.mp hkind), saturatingMul512, if_pos hfits, sectorAt]
    cases hs : s.kind with
    | sdhc => exact absurd hs hkind
    | sdscV1 | sdscV2 =>
      dsimp only
      rw [if_pos hsector, haddr, Nat.mul_div_cancel _ (by decide), UInt32.ofNat_toNat]

/-! ### One call -/

variable [SdCard κ] [LcdPanel π]

/-- The driver and a card that has been brought up, between two transactions. -/
structure Serves (view : κ → CardState) (d : SpiSdBlockDevice (SharedBus κ π)) : Prop where
  deselected : d.bus.sdCs = .high
  deaf : d.bus.lcdCs = .high
  operational : (view d.bus.card).stage = .operational
  at_rest : ∃ left, (view d.bus.card).phase = settle left
  addressed : d.isSdhc = true ↔ (view d.bus.card).kind = .sdhc

/-- What a call leaves behind: the bus is as it was but for the card, which is at rest,
with these sectors. -/
def Leaves (view : κ → CardState) (d d' : SpiSdBlockDevice (SharedBus κ π))
    (sectors : UInt32 → Bytes sectorSize) (left : ℕ) : Prop :=
  ∃ c', d' = ⟨d.bus.off c', d.isSdhc⟩ ∧
    view c' = (view d.bus.card).holding sectors (settle left)

variable [LawfulPanel π] {prompt : Prop} {view : κ → CardState}
variable {d d' : SpiSdBlockDevice (SharedBus κ π)}

omit [SdCard κ] [LcdPanel π] [LawfulPanel π] in
theorem Leaves.serves {sectors : UInt32 → Bytes sectorSize} {left : ℕ}
    (leaves : Leaves view d d' sectors left) (serves : Serves view d) : Serves view d' := by
  obtain ⟨c', rfl, hview⟩ := leaves
  exact ⟨rfl, serves.deaf, by rw [SharedBus.off, hview]; exact serves.operational,
    ⟨left, by rw [SharedBus.off, hview]; rfl⟩, by
      rw [SharedBus.off, hview]
      exact serves.addressed⟩

/-- The end of a transaction. -/
theorem leaves_done (conforms : Conforms prompt view) (serves : Serves view d) {c : κ}
    {phase : CardPhase} {sectors : UInt32 → Bytes sectorSize}
    (viewed : view c = (view d.bus.card).holding sectors phase) :
    ∃ left ≤ phase.backlog, Leaves view d (d.done (d.bus.on c)) sectors left := by
  obtain ⟨left, hleft, hview⟩ := view_pass conforms c (List.cons_ne_nil 0xFF [0xFF])
  rw [viewed] at hleft hview
  refine ⟨left, hleft, pass [0xFF, 0xFF] c, ?_, ?_⟩
  · rw [done, SharedBus.deassert_on serves.deaf]
  · rw [hview]
    simp only [CardState.deselected, holding, serves.operational]
    rfl

/-- The card selected, once it is waited for. -/
theorem pollUntil_select (conforms : Conforms prompt view) (serves : Serves view d) (n : ℕ)
    {left : ℕ} (works : (view d.bus.card).phase = settle left) :
    (∃ c, pollUntil readByte (· = 0xFF) n (SdBus.setCs d.bus .low) = (some 0xFF, d.bus.on c) ∧
      view c = (view d.bus.card).inPhase .ready) ∨
    (n ≤ left ∧ ∃ c,
      pollUntil readByte (· = 0xFF) n (SdBus.setCs d.bus .low) = (none, d.bus.on c) ∧
      view c = (view d.bus.card).inPhase (settle (left - n))) := by
  have hselect : SdBus.setCs d.bus .low = d.bus.on d.bus.card := rfl
  rw [hselect, SharedBus.pollUntil_on serves.deaf]
  rcases pollUntil_settle conforms n works with ⟨-, c, heq, hview⟩ | ⟨hle, c, heq, hview⟩
  · exact Or.inl ⟨c, by rw [heq], hview⟩
  · exact Or.inr ⟨hle, c, by rw [heq], hview⟩

/-- **One read.** What is read is the sector; the sectors stay. A prompt card that is
ready reads every sector in range. -/
structure ReadSpec (prompt : Prop) (view : κ → CardState) (d : SpiSdBlockDevice (SharedBus κ π))
    (lba : UInt32) (r : Except StorageError (Bytes sectorSize) × SpiSdBlockDevice (SharedBus κ π)) :
    Prop where
  leaves : ∃ left ≤ (view d.bus.card).phase.backlog,
    Leaves view d r.2 (view d.bus.card).sectors left
  data : ∀ block, r.1 = .ok block → block = (view d.bus.card).sectors lba
  served : prompt → (view d.bus.card).phase = .ready → InRange (view d.bus.card) lba →
    ∃ block, r.1 = .ok block

/-- A read that fails. -/
theorem ReadSpec.fails (conforms : Conforms prompt view) (serves : Serves view d) {lba : UInt32}
    {c : κ} {phase : CardPhase} (viewed : view c = (view d.bus.card).inPhase phase)
    (backlog : phase.backlog ≤ (view d.bus.card).phase.backlog)
    (contra : prompt → (view d.bus.card).phase = .ready → ¬ InRange (view d.bus.card) lba) :
    ReadSpec prompt view d lba (.error .deviceError, d.done (d.bus.on c)) := by
  have hheld : view c = (view d.bus.card).holding (view d.bus.card).sectors phase := viewed
  obtain ⟨left, hleft, leaves⟩ := leaves_done conforms serves hheld
  exact ⟨⟨left, hleft.trans backlog, leaves⟩, nofun,
    fun hprompt hready range => absurd range (contra hprompt hready)⟩

/-- A read whose sector the card gives. -/
theorem readBlock_served (conforms : Conforms prompt view) (serves : Serves view d) {lba : UInt32}
    {c : κ} {delay latency : ℕ} {crc : Bytes 2}
    (short : prompt → delay ≤ 8 ∧ latency < 100000)
    (viewed : view c = (view d.bus.card).inPhase (.play (gap delay ++ 0x00 :: (gap latency ++
      0xFE :: (((view d.bus.card).sectors lba).toList ++ crc.toList))) .ready)) :
    ReadSpec prompt view d lba (d.readReply (d.bus.on c)) := by
  have howes := congrArg CardState.phase viewed
  rw [phase_inPhase] at howes
  rw [readReply]
  rcases Nat.lt_or_ge delay 1000 with hshort | hlong
  · obtain ⟨c₁, heq₁, hview₁⟩ := SharedBus.waitR1_gap serves.deaf conforms howes (by decide) hshort
    rw [viewed, inPhase_inPhase] at hview₁
    have howes₁ := congrArg CardState.phase hview₁
    rw [phase_inPhase] at howes₁
    rw [heq₁]
    dsimp only
    rw [if_neg (fun h => h rfl), SharedBus.pollUntil_on serves.deaf]
    -- The host waits so long for the token, and no longer.
    rcases Nat.lt_or_ge latency 100000 with hshort₁ | hlong₁
    · obtain ⟨c₂, heq₂, hview₂⟩ := pollUntil_gap conforms (· ≠ 0xFF) howes₁ (by decide)
        (by decide) hshort₁
      rw [hview₁, inPhase_inPhase] at hview₂
      have howes₂ := congrArg CardState.phase hview₂
      rw [phase_inPhase] at howes₂
      -- The sector, and then its checksum.
      obtain ⟨c₃, hyields₃, hview₃⟩ := yields_play conforms howes₂
      rw [hview₂, inPhase_inPhase] at hview₃
      have howes₃ := congrArg CardState.phase hview₃
      rw [phase_inPhase, ← List.append_nil crc.toList] at howes₃
      obtain ⟨c₄, hyields₄, hview₄⟩ := yields_play conforms howes₃
      rw [hview₃, inPhase_inPhase, play_nil] at hview₄
      rw [heq₂]
      dsimp only
      rw [if_neg (fun h => h rfl), SharedBus.transfer_on serves.deaf hyields₃]
      dsimp only
      rw [Bool.not_true, if_neg Bool.false_ne_true, SharedBus.transfer_on serves.deaf hyields₄]
      have hheld₄ : view c₄ = (view d.bus.card).holding (view d.bus.card).sectors .ready := hview₄
      obtain ⟨left, hleft, leaves⟩ := leaves_done conforms serves hheld₄
      exact ⟨⟨left, hleft.trans (Nat.zero_le _), leaves⟩, fun block h => (Except.ok.inj h).symm,
        fun _ _ _ => ⟨_, rfl⟩⟩
    · obtain ⟨c₂, heq₂, hview₂⟩ := pollUntil_long_gap conforms (· ≠ 0xFF) howes₁
        (by decide) hlong₁
      rw [hview₁, inPhase_inPhase] at hview₂
      rw [heq₂]
      refine .fails conforms serves hview₂ (by simp [backlog]) fun hprompt _ _ => ?_
      exact absurd (short hprompt).2 (Nat.not_lt.mpr hlong₁)
  · obtain ⟨c₁, heq₁, hview₁⟩ := SharedBus.waitR1_long_gap serves.deaf conforms howes hlong
    rw [viewed, inPhase_inPhase] at hview₁
    rw [heq₁]
    refine .fails conforms serves hview₁ (by simp [backlog]) fun hprompt _ _ => ?_
    have := (short hprompt).1
    omega

/-- A read that the card refuses. -/
theorem readBlock_refused (conforms : Conforms prompt view) (serves : Serves view d) {lba : UInt32}
    {c : κ} {script : List UInt8} (refusal : IsRefusal script ∨ IsDataError script)
    (contra : prompt → ¬ InRange (view d.bus.card) lba)
    (viewed : view c = (view d.bus.card).inPhase (.play script .ready)) :
    ReadSpec prompt view d lba (d.readReply (d.bus.on c)) := by
  have howes := congrArg CardState.phase viewed
  rw [phase_inPhase] at howes
  rw [readReply]
  rcases refusal with hrefusal | ⟨delay, latency, e, rfl, hidle, hstart⟩
  · obtain ⟨r1, c₁, heq₁, hne, rest, hview₁⟩ :=
      SharedBus.waitR1_refusal serves.deaf conforms 1000 hrefusal howes
    rw [viewed, inPhase_inPhase] at hview₁
    rw [heq₁]
    dsimp only
    rw [if_pos hne]
    exact .fails conforms serves hview₁ (by simp [backlog]) fun hprompt _ => contra hprompt
  · rcases Nat.lt_or_ge delay 1000 with hshort | hlong
    · obtain ⟨c₁, heq₁, hview₁⟩ :=
        SharedBus.waitR1_gap serves.deaf conforms howes (by decide) hshort
      rw [viewed, inPhase_inPhase] at hview₁
      have howes₁ := congrArg CardState.phase hview₁
      rw [phase_inPhase] at howes₁
      rw [heq₁]
      dsimp only
      rw [if_neg (fun h => h rfl), SharedBus.pollUntil_on serves.deaf]
      rcases Nat.lt_or_ge latency 100000 with hshort₁ | hlong₁
      · obtain ⟨c₂, heq₂, hview₂⟩ := pollUntil_gap conforms (· ≠ 0xFF) howes₁ (by decide)
          (by simpa using hidle) hshort₁
        rw [hview₁, inPhase_inPhase] at hview₂
        rw [heq₂]
        dsimp only
        rw [if_pos hstart]
        exact .fails conforms serves hview₂ (by simp [backlog]) fun hprompt _ => contra hprompt
      · obtain ⟨c₂, heq₂, hview₂⟩ := pollUntil_long_gap conforms (· ≠ 0xFF) howes₁
          (by decide) hlong₁
        rw [hview₁, inPhase_inPhase] at hview₂
        rw [heq₂]
        exact .fails conforms serves hview₂ (by simp [backlog]) fun hprompt _ => contra hprompt
    · obtain ⟨c₁, heq₁, hview₁⟩ := SharedBus.waitR1_long_gap serves.deaf conforms howes hlong
      rw [viewed, inPhase_inPhase] at hview₁
      rw [heq₁]
      exact .fails conforms serves hview₁ (by simp [backlog]) fun hprompt _ => contra hprompt

theorem readBlock_spec (conforms : Conforms prompt view) (serves : Serves view d) (lba : UInt32) :
    ReadSpec prompt view d lba (d.readBlock lba) := by
  obtain ⟨left, works⟩ := serves.at_rest
  have hbacklog : (view d.bus.card).phase.backlog = left := by rw [works, backlog_settle]
  rw [readBlock]
  rcases pollUntil_select conforms serves 2000 works with ⟨c₁, heq₁, hview₁⟩ |
    ⟨hle, c₁, heq₁, hview₁⟩
  · rw [heq₁]
    dsimp only
    rw [SharedBus.sendCmd_on serves.deaf]
    have hoperational : (view c₁).stage = .operational := by
      rw [hview₁]
      exact serves.operational
    have hanswers := send_cmdBytes conforms (show (17 : UInt8) < 64 by decide) (d.addr lba)
      (show (view c₁).phase = .ready by rw [hview₁, phase_inPhase])
    rw [Answers, hoperational] at hanswers
    have hreads := hanswers.2.1 rfl
    rw [hview₁] at hreads
    rcases hreads with ⟨lba', delay, latency, crc, hsector, hshort, hview₂⟩ |
      ⟨hnone, script, hscript, hview₂⟩
    · obtain rfl := sectorAt_addr serves.addressed hsector
      exact readBlock_served conforms serves hshort hview₂
    · refine readBlock_refused conforms serves hscript (fun hprompt range => ?_) hview₂
      have hsome := sectorAt_addr_of_inRange serves.addressed range
      rw [show (view d.bus.card).sectorAt (d.addr lba) = none from hnone hprompt] at hsome
      cases hsome
  · rw [heq₁]
    refine .fails conforms serves hview₁ ?_ fun _ hready => ?_
    · rw [backlog_settle, hbacklog]
      exact Nat.sub_le left 2000
    · have hzero : left = 0 := by rw [← hbacklog, hready]; rfl
      omega

/-- **One write.** What is acknowledged is written, and what fails is written whole or not
at all. A prompt card that is ready takes every sector in range, and is ready again. -/
structure WriteSpec (prompt : Prop) (view : κ → CardState) (d : SpiSdBlockDevice (SharedBus κ π))
    (lba : UInt32) (buf : Bytes sectorSize)
    (r : Except StorageError Unit × SpiSdBlockDevice (SharedBus κ π)) : Prop where
  outcome : (∃ left, Leaves view d r.2 (Function.update (view d.bus.card).sectors lba buf) left ∧
      (r.1 = .ok () → left = 0)) ∨
    (r.1 ≠ .ok () ∧ ∃ left, Leaves view d r.2 (view d.bus.card).sectors left)
  served : prompt → (view d.bus.card).phase = .ready → InRange (view d.bus.card) lba →
    r.1 = .ok ()

/-- A write that fails without effect. -/
theorem WriteSpec.fails (conforms : Conforms prompt view) (serves : Serves view d) {lba : UInt32}
    {buf : Bytes sectorSize} {c : κ} {phase : CardPhase}
    (viewed : view c = (view d.bus.card).inPhase phase)
    (contra : prompt → (view d.bus.card).phase = .ready → ¬ InRange (view d.bus.card) lba) :
    WriteSpec prompt view d lba buf (.error .deviceError, d.done (d.bus.on c)) := by
  have hheld : view c = (view d.bus.card).holding (view d.bus.card).sectors phase := viewed
  obtain ⟨left, -, leaves⟩ := leaves_done conforms serves hheld
  exact ⟨Or.inr ⟨nofun, left, leaves⟩, fun hprompt hready range =>
    absurd range (contra hprompt hready)⟩

/-- The card has taken the data of a sector. -/
theorem writeReply_accepted (conforms : Conforms prompt view) (serves : Serves view d)
    {lba : UInt32} {buf : Bytes sectorSize} {c : κ} {delay busy : ℕ} {resp : UInt8}
    (short : prompt → delay ≤ 8 ∧ busy < 250000) (accepted : resp &&& 0x1F = 0x05)
    (viewed : view c = (view d.bus.card).holding
      (Function.update (view d.bus.card).sectors lba buf)
      (.play (gap delay ++ [resp]) (.settle busy))) :
    WriteSpec prompt view d lba buf (d.writeReply (d.bus.on c)) := by
  have howes := congrArg CardState.phase viewed
  rw [phase_holding] at howes
  rw [writeReply, SharedBus.pollUntil_on serves.deaf]
  have hresp : resp ≠ 0xFF := by
    rintro rfl
    exact absurd accepted (by decide)
  rcases Nat.lt_or_ge delay 200 with hshort | hlong
  · obtain ⟨c₁, heq₁, hview₁⟩ := pollUntil_gap conforms (· ≠ 0xFF) howes (by decide)
      (by simpa using hresp) hshort
    have hworks : (view c₁).phase = settle busy := by rw [hview₁, phase_inPhase, play_nil]
    rw [heq₁]
    dsimp only
    rw [if_neg (fun h => h accepted), SharedBus.pollUntil_on serves.deaf]
    rcases pollUntil_settle conforms 250000 hworks with ⟨-, c₂, heq₂, hview₂⟩ |
      ⟨hle, c₂, heq₂, hview₂⟩
    · rw [heq₂]
      rw [hview₁, viewed, inPhase_holding, inPhase_holding] at hview₂
      obtain ⟨left, hleft, leaves⟩ := leaves_done conforms serves hview₂
      exact ⟨Or.inl ⟨left, leaves, fun _ => Nat.le_zero.mp hleft⟩, fun _ _ _ => rfl⟩
    · rw [heq₂]
      rw [hview₁, viewed, inPhase_holding, inPhase_holding] at hview₂
      obtain ⟨left, -, leaves⟩ := leaves_done conforms serves hview₂
      refine ⟨Or.inl ⟨left, leaves, nofun⟩, fun hprompt _ _ => ?_⟩
      exact absurd (short hprompt).2 (Nat.not_lt.mpr hle)
  · obtain ⟨c₁, heq₁, hview₁⟩ := pollUntil_long_gap conforms (· ≠ 0xFF) howes (by decide)
      hlong
    rw [viewed, inPhase_holding] at hview₁
    rw [heq₁]
    obtain ⟨left, -, leaves⟩ := leaves_done conforms serves hview₁
    refine ⟨Or.inl ⟨left, leaves, nofun⟩, fun hprompt _ _ => ?_⟩
    have := (short hprompt).1
    omega

/-- The card has refused the data of a sector. -/
theorem writeReply_refused (conforms : Conforms prompt view) (serves : Serves view d)
    {lba : UInt32} {buf : Bytes sectorSize} {c : κ} {delay : ℕ} {resp : UInt8}
    (patient : ¬ prompt) (token : resp ≠ 0xFF) (refused : resp &&& 0x1F ≠ 0x05)
    (viewed : view c = (view d.bus.card).inPhase (.play (gap delay ++ [resp]) .ready)) :
    WriteSpec prompt view d lba buf (d.writeReply (d.bus.on c)) := by
  have howes := congrArg CardState.phase viewed
  rw [phase_inPhase] at howes
  rw [writeReply, SharedBus.pollUntil_on serves.deaf]
  rcases Nat.lt_or_ge delay 200 with hshort | hlong
  · obtain ⟨c₁, heq₁, hview₁⟩ := pollUntil_gap conforms (· ≠ 0xFF) howes (by decide)
      (by simpa using token) hshort
    rw [viewed, inPhase_inPhase] at hview₁
    rw [heq₁]
    dsimp only
    rw [if_pos refused]
    exact .fails conforms serves hview₁ fun hprompt => absurd hprompt patient
  · obtain ⟨c₁, heq₁, hview₁⟩ := pollUntil_long_gap conforms (· ≠ 0xFF) howes (by decide)
      hlong
    rw [viewed, inPhase_inPhase] at hview₁
    rw [heq₁]
    exact .fails conforms serves hview₁ fun hprompt => absurd hprompt patient

/-- A write whose command the card takes. -/
theorem writeData_served (conforms : Conforms prompt view) (serves : Serves view d) {lba : UInt32}
    (buf : Bytes sectorSize) {c : κ} {delay : ℕ} (short : prompt → delay ≤ 8)
    (viewed : view c = (view d.bus.card).inPhase (.play (gap delay ++ [0x00]) (.token lba))) :
    WriteSpec prompt view d lba buf (d.writeData buf (d.bus.on c)) := by
  have howes := congrArg CardState.phase viewed
  rw [phase_inPhase] at howes
  rw [writeData]
  rcases Nat.lt_or_ge delay 1000 with hshort | hlong
  · obtain ⟨c₁, heq₁, hview₁⟩ := SharedBus.waitR1_gap serves.deaf conforms howes (by decide) hshort
    rw [viewed, inPhase_inPhase, play_nil] at hview₁
    have hphase := congrArg CardState.phase hview₁
    rw [phase_inPhase] at hphase
    have haccepts := send_sector conforms hphase buf
    rw [heq₁]
    dsimp only
    rw [if_neg (fun h => h rfl), SharedBus.write_on serves.deaf]
    dsimp only
    rw [SharedBus.write_on serves.deaf]
    dsimp only
    rw [Bool.not_true, if_neg Bool.false_ne_true, SharedBus.write_on serves.deaf]
    rw [Accepts, blockOf_append, hview₁] at haccepts
    rcases haccepts with ⟨delay', busy, resp, hshort', haccepted, hview₂⟩ |
      ⟨hpatient, delay', resp, htoken, hrefused, hview₂⟩
    · exact writeReply_accepted conforms serves hshort' haccepted hview₂
    · exact writeReply_refused conforms serves hpatient htoken hrefused hview₂
  · obtain ⟨c₁, heq₁, hview₁⟩ := SharedBus.waitR1_long_gap serves.deaf conforms howes hlong
    rw [viewed, inPhase_inPhase] at hview₁
    rw [heq₁]
    refine .fails conforms serves hview₁ fun hprompt _ _ => ?_
    have := short hprompt
    omega

/-- A write whose command the card refuses. -/
theorem writeData_refused (conforms : Conforms prompt view) (serves : Serves view d) {lba : UInt32}
    (buf : Bytes sectorSize) {c : κ} {script : List UInt8} (refusal : IsRefusal script)
    (contra : prompt → ¬ InRange (view d.bus.card) lba)
    (viewed : view c = (view d.bus.card).inPhase (.play script .ready)) :
    WriteSpec prompt view d lba buf (d.writeData buf (d.bus.on c)) := by
  have howes := congrArg CardState.phase viewed
  rw [phase_inPhase] at howes
  obtain ⟨r1, c₁, heq₁, hne, rest, hview₁⟩ :=
    SharedBus.waitR1_refusal serves.deaf conforms 1000 refusal howes
  rw [viewed, inPhase_inPhase] at hview₁
  rw [writeData, heq₁]
  dsimp only
  rw [if_pos hne]
  exact .fails conforms serves hview₁ fun hprompt _ => contra hprompt

theorem writeBlock_spec (conforms : Conforms prompt view) (serves : Serves view d) (lba : UInt32)
    (buf : Bytes sectorSize) : WriteSpec prompt view d lba buf (d.writeBlock lba buf) := by
  obtain ⟨left, works⟩ := serves.at_rest
  rw [writeBlock]
  rcases pollUntil_select conforms serves 5000 works with ⟨c₁, heq₁, hview₁⟩ |
    ⟨hle, c₁, heq₁, hview₁⟩
  · rw [heq₁]
    dsimp only
    rw [SharedBus.sendCmd_on serves.deaf]
    have hoperational : (view c₁).stage = .operational := by
      rw [hview₁]
      exact serves.operational
    have hanswers := send_cmdBytes conforms (show (24 : UInt8) < 64 by decide) (d.addr lba)
      (show (view c₁).phase = .ready by rw [hview₁, phase_inPhase])
    rw [Answers, hoperational] at hanswers
    have hwrites := hanswers.2.2.1 rfl
    rw [hview₁] at hwrites
    rcases hwrites with ⟨lba', delay, hsector, hshort, hview₂⟩ | ⟨hnone, script, hscript, hview₂⟩
    · obtain rfl := sectorAt_addr serves.addressed hsector
      exact writeData_served conforms serves buf hshort hview₂
    · refine writeData_refused conforms serves buf hscript (fun hprompt range => ?_) hview₂
      have hsome := sectorAt_addr_of_inRange serves.addressed range
      rw [show (view d.bus.card).sectorAt (d.addr lba) = none from hnone hprompt] at hsome
      cases hsome
  · rw [heq₁]
    refine .fails conforms serves hview₁ fun _ hready => ?_
    have hzero : (settle left).backlog = 0 := by rw [← works, hready]; rfl
    rw [backlog_settle] at hzero
    omega

/-! ### Runs -/

/-- A call of the driver. -/
inductive SectorOp where
  | read (lba : UInt32)
  | write (lba : UInt32) (block : Bytes sectorSize)

/-- A call and its answer. -/
abbrev SectorCall := StoreCall UInt32 (Bytes sectorSize) StorageError

def step {B : Type} [SdBus B] (d : SpiSdBlockDevice B) :
    SectorOp → SpiSdBlockDevice B × List SectorCall
  | .read lba =>
    let (reply, d) := d.readBlock lba
    (d, [.read lba reply])
  | .write lba block =>
    let (reply, d) := d.writeBlock lba block
    (d, [.write lba block reply])

/-- The driver as a machine that emits its calls. -/
def machine {B : Type} [SdBus B] : Machine (SpiSdBlockDevice B) SectorOp SectorCall := ⟨step⟩

/-- The sectors of the card. -/
def sectors (view : κ → CardState) (d : SpiSdBlockDevice (SharedBus κ π)) :
    UInt32 → Bytes sectorSize := (view d.bus.card).sectors

/-- **Step lemma.** A call is a call of a store, and the driver goes on serving. -/
theorem step_refines (conforms : Conforms prompt view) (serves : Serves view d) (op : SectorOp) :
    StoreCall.Run (sectors view d) (machine.emit d op) (sectors view (machine.next d op)) ∧
      Serves view (machine.next d op) := by
  cases op with
  | read lba =>
    obtain ⟨⟨left, -, leaves⟩, hdata, -⟩ := readBlock_spec conforms serves lba
    refine ⟨StoreCall.run_singleton.mpr ?_, leaves.serves serves⟩
    obtain ⟨c', heq, hview⟩ := leaves
    have hsame : sectors view (machine.next d (.read lba)) = sectors view d := by
      show (view (d.readBlock lba).2.bus.card).sectors = _
      rw [heq, SharedBus.off, hview]
      rfl
    show StoreCall.Effect _ _ (.read lba (d.readBlock lba).1)
    cases hanswer : (d.readBlock lba).1 with
    | ok block => exact ⟨hdata block hanswer, hsame⟩
    | error e => exact hsame
  | write lba block =>
    have hspec := writeBlock_spec conforms serves lba block
    show StoreCall.Run _ [.write lba block (d.writeBlock lba block).1]
      (view (d.writeBlock lba block).2.bus.card).sectors ∧ Serves view (d.writeBlock lba block).2
    rw [StoreCall.run_singleton]
    rcases hspec.outcome with ⟨left, leaves, -⟩ | ⟨hfailed, left, leaves⟩
    · refine ⟨?_, leaves.serves serves⟩
      obtain ⟨c', heq, hview⟩ := leaves
      rw [heq, SharedBus.off, hview]
      cases (d.writeBlock lba block).1 with
      | ok _ => exact rfl
      | error e => exact Or.inr rfl
    · refine ⟨?_, leaves.serves serves⟩
      obtain ⟨c', heq, hview⟩ := leaves
      rw [heq, SharedBus.off, hview]
      cases hanswer : (d.writeBlock lba block).1 with
      | ok _ => exact absurd hanswer hfailed
      | error e => exact Or.inl rfl

/-- A call changes nothing of the bus but the card. -/
theorem next_off (conforms : Conforms prompt view) (serves : Serves view d) (op : SectorOp) :
    ∃ c, machine.next d op = ⟨d.bus.off c, d.isSdhc⟩ := by
  cases op with
  | read lba =>
    obtain ⟨⟨left, -, c, heq, -⟩, -, -⟩ := readBlock_spec conforms serves lba
    exact ⟨c, heq⟩
  | write lba block =>
    rcases (writeBlock_spec conforms serves lba block).outcome with
      ⟨left, ⟨c, heq, -⟩, -⟩ | ⟨-, left, c, heq, -⟩
    · exact ⟨c, heq⟩
    · exact ⟨c, heq⟩

/-- **Run lemma.** Calls are calls of a store, whose cells are the sectors. -/
theorem run_refines (conforms : Conforms prompt view) (serves : Serves view d)
    (ops : List SectorOp) :
    StoreCall.Run (sectors view d) (machine.outputs d ops) (sectors view (machine.final d ops)) ∧
      Serves view (machine.final d ops) := by
  induction ops generalizing d with
  | nil => exact ⟨rfl, serves⟩
  | cons op ops ih =>
    obtain ⟨hcall, hserves⟩ := step_refines conforms serves op
    obtain ⟨hrest, hend⟩ := ih hserves
    rw [Machine.outputs_cons, Machine.final_cons]
    exact ⟨StoreCall.run_append.mpr ⟨_, hcall, hrest⟩, hend⟩

/-- **Sectors.** Through any calls, on a card that keeps to the description, whatever it
refuses and however long it takes: the sectors change as those of a store whose calls may
fail, and a read that succeeds gives the last block that was acknowledged, or one whose
write has failed since. -/
theorem driver_refines_store (conforms : Conforms prompt view) (serves : Serves view d)
    (ops : List SectorOp) :
    StoreCall.Run (sectors view d) (machine.outputs d ops) (sectors view (machine.final d ops)) ∧
      Serves view (machine.final d ops) ∧
      StoreCall.ReadsCandidates (sectors view d) (machine.outputs d ops) := by
  obtain ⟨hrun, hserves⟩ := run_refines conforms serves ops
  exact ⟨hrun, hserves, hrun.readsCandidates⟩

/-- The driver of a blank card of eight mebibytes, brought up. -/
def onPromptCard : SpiSdBlockDevice (SharedBus PromptCard BlindPanel) where
  bus :=
    { card := ⟨⟨.sdscV2, 16384, .operational, .ready, fun _ => .zero sectorSize⟩⟩
      panel := ⟨⟩
      sdCs := .high
      lcdCs := .high
      lcdDc := .low
      khz := 16000 }
  isSdhc := false

theorem serves_onPromptCard : Serves PromptCard.state onPromptCard :=
  ⟨rfl, rfl, rfl, ⟨0, rfl⟩, by decide⟩

/-- A block that is neither blank nor what an idle bus answers. -/
def countingBlock : Bytes sectorSize := Vector.ofFn fun i => UInt8.ofNat i.val

/-- A sector is written, another one past the end of the card, and the first is read. -/
theorem driver_refines_store_onPromptCard :
    let ops : List SectorOp := [.write 12 countingBlock, .write 20000 countingBlock, .read 12]
    StoreCall.Run (sectors PromptCard.state onPromptCard) (machine.outputs onPromptCard ops)
        (sectors PromptCard.state (machine.final onPromptCard ops)) ∧
      Serves PromptCard.state (machine.final onPromptCard ops) ∧
      StoreCall.ReadsCandidates (sectors PromptCard.state onPromptCard)
        (machine.outputs onPromptCard ops) :=
  driver_refines_store (PromptCard.conforms : Conforms True PromptCard.state) serves_onPromptCard _

end SpiSdBlockDevice

end Gibberish.Storage
