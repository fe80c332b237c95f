/-
# Records on the card

The storage of a dongle over the driver of the card, the bus and the card itself. Whatever
the card refuses and however long it takes: a record whose write was confirmed is on the
card, no later write reaches it, and a prompt card gives it back when it is powered anew.
-/

import Gibberish.Storage.PingPong
import Gibberish.Storage.SdStart

set_option autoImplicit false

namespace Gibberish.Storage

open Gibberish.Foundation Gibberish.Protocol

variable {κ π : Type} [SdCard κ] [LcdPanel π] [LawfulPanel π]
variable {prompt : Prop} {view : κ → CardState} {crc32 : Checksum}

namespace SpiSdBlockDevice

/-- The driver whose writes are kept. -/
abbrev Recorded (κ π : Type) := Recorder (SpiSdBlockDevice (SharedBus κ π))

/-- A recorded write is a write of the driver. -/
theorem writeBlock_recorded (conforms : Conforms prompt view) {dev dev' : Recorded κ π}
    (serves : Serves view dev.device) {lba : UInt32} {block : Bytes sectorSize}
    {answer : Except StorageError Unit}
    (written : BlockDevice.writeBlock dev lba block = (answer, dev')) :
    Serves view dev'.device ∧
      StoreCall.Effect (sectors view dev.device) (sectors view dev'.device)
        (.write lba block answer) := by
  obtain ⟨rfl, rfl⟩ := Prod.mk.inj written
  obtain ⟨hrun, hserves⟩ := step_refines conforms serves (.write lba block)
  exact ⟨hserves, StoreCall.run_singleton.mp hrun⟩

theorem serves_readBlock_recorded (conforms : Conforms prompt view) {dev : Recorded κ π}
    (serves : Serves view dev.device) (lba : UInt32) :
    Serves view (BlockDevice.readBlock dev lba).2.device :=
  (step_refines conforms serves (.read lba)).2

end SpiSdBlockDevice

namespace Station

open SpiSdBlockDevice DynamicStorageManager

/-- The confirmed records are on the card, in the container and before this LBA. -/
def HeldBefore (crc32 : Checksum) (view : κ → CardState) (lba : UInt32) (dev : Recorded κ π) :
    Prop :=
  ∀ r ∈ confirmedRecords crc32 dev.calls,
    10 ≤ r.1 ∧ r.1 < lba ∧ recordOf crc32 (sectors view dev.device r.1) = some r.2

omit [SdCard κ] [LcdPanel π] [LawfulPanel π] in
/-- A write elsewhere leaves them where they are, if it confirms no record. -/
theorem HeldBefore.write_elsewhere {lba lba' : UInt32} {dev dev' : Recorded κ π}
    {block : Bytes sectorSize} {answer : Except StorageError Unit}
    (held : HeldBefore crc32 view lba dev)
    (effect : StoreCall.Effect (sectors view dev.device) (sectors view dev'.device)
      (.write lba' block answer))
    (calls : confirmedRecords crc32 dev'.calls = confirmedRecords crc32 dev.calls)
    (elsewhere : lba' < 10 ∨ lba ≤ lba') : HeldBefore crc32 view lba dev' := by
  intro r hr
  rw [calls] at hr
  obtain ⟨hcontainer, hbefore, hrecord⟩ := held r hr
  have hne : r.1 ≠ lba' := by
    rintro rfl
    rcases elsewhere with h | h
    · exact UInt32.not_le.mpr h hcontainer
    · exact UInt32.not_le.mpr hbefore h
  -- A write that failed may have been done, but nowhere else.
  have hsame : sectors view dev'.device r.1 = sectors view dev.device r.1 := by
    have hupdate : ∀ cells, cells = Function.update (sectors view dev.device) lba' block →
        cells r.1 = sectors view dev.device r.1 := by
      rintro _ rfl
      exact Function.update_of_ne hne _ _
    cases answer with
    | ok _ => exact hupdate _ effect
    | error e =>
      rcases effect with h | h
      · rw [h]
      · exact hupdate _ h
  exact ⟨hcontainer, hbefore, by rw [hsame, hrecord]⟩

/-- A manager whose driver serves the card and whose confirmed records are on it. -/
structure OnCard (crc32 : Checksum) (view : κ → CardState)
    (sm : DynamicStorageManager (Recorded κ π)) : Prop where
  present : sm.device.isSome
  serves : ∀ dev ∈ sm.device, Serves view dev.device
  container : 10 ≤ sm.currentLba
  held : sm.currentLba ≠ 0xFFFFFFFF → ∀ dev ∈ sm.device, HeldBefore crc32 view sm.currentLba dev

/-- A checkpoint leaves the records alone. -/
theorem OnCard.checkpointIfDue (conforms : Conforms prompt view)
    {sm : DynamicStorageManager (Recorded κ π)} (onCard : OnCard crc32 view sm) :
    OnCard crc32 view (sm.checkpointIfDue crc32) := by
  rw [DynamicStorageManager.checkpointIfDue]
  split
  · cases hdevice : sm.device with
    | none => exact onCard
    | some dev =>
      obtain ⟨answer, dev', hwritten⟩ : ∃ answer dev', BlockDevice.writeBlock dev sm.checkpointLba
          (sm.checkpoint.serialize crc32) = (answer, dev') := ⟨_, _, rfl⟩
      obtain ⟨hserves, heffect⟩ :=
        writeBlock_recorded conforms (onCard.serves dev hdevice) hwritten
      -- A checkpoint is no record, and lies below the container.
      have hcalls : confirmedRecords crc32 dev'.calls = confirmedRecords crc32 dev.calls := by
        rw [calls_of_writeBlock hwritten, confirmedRecords, List.filterMap_append,
          List.filterMap_cons, confirmedRecord_checkpoint]
        exact List.append_nil _
      have hlow : sm.checkpointLba < 10 := by
        rcases checkpointLba_eq sm with h | h
        · rw [h]
          decide
        · rw [h]
          decide
      dsimp only
      rw [hwritten]
      refine ⟨rfl, ?_, onCard.container, fun hroom => ?_⟩
      · rintro _ ⟨⟩
        exact hserves
      · rintro _ ⟨⟩
        exact (onCard.held hroom dev hdevice).write_elsewhere heffect hcalls (Or.inl hlow)
  · exact onCard

/-- **Step lemma.** A round of a flush keeps the confirmed records on the card. -/
theorem OnCard.round (conforms : Conforms prompt view)
    {sm sm' : DynamicStorageManager (Recorded κ π)} {ring ring' : SramRingBuffer}
    (onCard : OnCard crc32 view sm) (round : Round crc32 sm ring sm' ring') :
    OnCard crc32 view sm' := by
  cases round with
  | idle => exact onCard
  | confirmed dev dev' packet rest active device queue written =>
    obtain ⟨hserves, heffect⟩ := writeBlock_recorded conforms (onCard.serves dev device) written
    have hcalls : confirmedRecords crc32 dev'.calls =
        confirmedRecords crc32 dev.calls ++ [(sm.currentLba, sm.nextRecord packet)] := by
      rw [calls_of_writeBlock written, confirmedRecords, List.filterMap_append,
        List.filterMap_cons, confirmedRecord_ok, recordOf_recordBlock]
      rfl
    have hcontainer := FaultyStation.container_saturatingSucc32 onCard.container
    refine OnCard.checkpointIfDue conforms ⟨rfl, ?_, hcontainer, ?_⟩
    · rintro _ ⟨⟩
      exact hserves
    · rintro hroom _ ⟨⟩ r hr
      have hroom' := ne_max_of_saturatingSucc32 hroom
      have hnext : sm.currentLba < saturatingSucc32 sm.currentLba := by
        rw [UInt32.lt_iff_toNat_lt, toNat_saturatingSucc32 hroom']
        exact Nat.lt_succ_self _
      rw [hcalls] at hr
      rcases List.mem_append.mp hr with hr | hr
      · -- The records before lie at lower LBAs.
        obtain ⟨hcontainer, hbefore, hrecord⟩ := onCard.held hroom' dev device r hr
        refine ⟨hcontainer, UInt32.lt_trans hbefore hnext, ?_⟩
        rw [show sectors view dev'.device = _ from heffect,
          Function.update_of_ne (UInt32.ne_of_lt hbefore),
          hrecord]
      -- The record of this round has been written at the LBA that was free.
      · obtain rfl := List.mem_singleton.mp hr
        refine ⟨onCard.container, hnext, ?_⟩
        rw [show sectors view dev'.device = _ from heffect, Function.update_self,
          recordOf_recordBlock]
  | refused dev dev' packet rest e active device queue written =>
    obtain ⟨hserves, heffect⟩ := writeBlock_recorded conforms (onCard.serves dev device) written
    have hcalls : confirmedRecords crc32 dev'.calls = confirmedRecords crc32 dev.calls := by
      rw [calls_of_writeBlock written, confirmedRecords, List.filterMap_append]
      exact List.append_nil _
    -- A refused write hit the free LBA at most.
    refine ⟨rfl, ?_, onCard.container, fun hroom => ?_⟩
    · rintro _ ⟨⟩
      exact hserves
    · rintro _ ⟨⟩
      exact (onCard.held hroom dev device).write_elsewhere heffect hcalls
        (Or.inr (UInt32.le_refl _))

/-- A new manager on a driver that serves the card. -/
theorem onCard_newWithDevice (conforms : Conforms prompt view)
    {d : SpiSdBlockDevice (SharedBus κ π)} (serves : Serves view d) :
    OnCard crc32 view (newWithDevice crc32 (⟨d, []⟩ : Recorded κ π)) := by
  obtain ⟨hdevice, hlba⟩ := newWithDevice_spec crc32 (⟨d, []⟩ : Recorded κ π)
  refine ⟨by rw [hdevice]; rfl, fun dev hdev => ?_, hlba, fun _ dev hdev r hr => ?_⟩
  · rw [hdevice] at hdev
    obtain rfl := Option.some.inj hdev
    exact serves_readBlock_recorded conforms (serves_readBlock_recorded conforms serves 1) 2
  · rw [hdevice] at hdev
    obtain rfl := Option.some.inj hdev
    cases hr

/-- **Run lemma.** Pushes and flushes keep the confirmed records on the card. -/
theorem onCard_final (conforms : Conforms prompt view)
    {s : Station (SpiSdBlockDevice (SharedBus κ π))} (onCard : OnCard crc32 view s.manager)
    (actions : List StationAction) :
    OnCard crc32 view ((machine crc32).final s actions).manager := by
  induction actions generalizing s with
  | nil => exact onCard
  | cons action actions ih =>
    refine ih ?_
    cases action with
    | push packet => exact onCard
    | flush =>
      exact Rounds.preserves (fun sm _ => OnCard crc32 view sm)
        (fun _ _ _ _ h round => h.round conforms round)
        (flushFromSram_rounds s.manager s.ring) onCard

omit [LawfulPanel π] in
/-- Rounds move the head on by one LBA each at most. -/
theorem toNat_currentLba_rounds_le {n : ℕ} {sm sm' : DynamicStorageManager (Recorded κ π)}
    {ring ring' : SramRingBuffer} (rounds : Rounds crc32 n sm ring sm' ring') :
    sm'.currentLba.toNat ≤ sm.currentLba.toNat + n := by
  induction rounds with
  | done n sm ring => exact Nat.le_add_right _ _
  | @more n sm sm₁ _ _ _ _ first _ ih =>
    have hfirst : sm₁.currentLba.toNat ≤ sm.currentLba.toNat + 1 := by
      cases first with
      | idle => exact Nat.le_succ _
      | refused dev dev' packet rest e active device queue written => exact Nat.le_succ _
      | confirmed dev dev' packet rest active device queue written =>
        rw [currentLba_checkpointIfDue]
        by_cases hfull : sm.currentLba = 0xFFFFFFFF
        · show (saturatingSucc32 sm.currentLba).toNat ≤ _
          rw [hfull]
          exact Nat.le_succ _
        · exact (toNat_saturatingSucc32 hfull).le
    omega

omit [LawfulPanel π] in
/-- An action moves the head on by two LBAs at most. -/
theorem toNat_currentLba_final_le (s : Station (SpiSdBlockDevice (SharedBus κ π)))
    (actions : List StationAction) :
    ((machine crc32).final s actions).manager.currentLba.toNat ≤
      s.manager.currentLba.toNat + 2 * actions.length := by
  induction actions generalizing s with
  | nil => exact Nat.le_refl _
  | cons action actions ih =>
    rw [Machine.final_cons, List.length_cons]
    refine (ih _).trans ?_
    have haction : ((machine crc32).next s action).manager.currentLba.toNat ≤
        s.manager.currentLba.toNat + 2 := by
      cases action with
      | push packet => exact Nat.le_add_right _ 2
      | flush => exact toNat_currentLba_rounds_le (flushFromSram_rounds s.manager s.ring)
    omega

omit [LawfulPanel π] in
/-- The LBAs last for so many actions. -/
theorem currentLba_final_ne_max {s : Station (SpiSdBlockDevice (SharedBus κ π))}
    {actions : List StationAction}
    (h : s.manager.currentLba.toNat + 2 * actions.length < 0xFFFFFFFF) :
    ((machine crc32).final s actions).manager.currentLba ≠ 0xFFFFFFFF := by
  intro hfull
  have hle : ((machine crc32).final s actions).manager.currentLba.toNat ≤ _ :=
    toNat_currentLba_final_le s actions
  rw [hfull] at hle
  exact absurd (hle.trans_lt h) (lt_irrefl _)

/-- **Acknowledged means on the card.** From a start on the driver of any card that keeps to
the description, through any pushes and flushes: each record whose write was confirmed is
on the card, and a prompt card with these sectors that is powered anew comes up and reads
it back. -/
theorem acknowledged_records_survive {d : SpiSdBlockDevice (SharedBus κ π)}
    (conforms : Conforms prompt view) (serves : Serves view d) (actions : List StationAction)
    (room : ((machine crc32).final ⟨newWithDevice crc32 ⟨d, []⟩, .new⟩
      actions).manager.currentLba ≠ 0xFFFFFFFF) :
    let s := (machine crc32).final ⟨newWithDevice crc32 ⟨d, []⟩, .new⟩ actions
    ∃ dev, s.manager.device = some dev ∧
      ∀ r ∈ confirmedRecords crc32 s.calls,
        recordOf crc32 (sectors view dev.device r.1) = some r.2 ∧
        ∀ (view' : κ → CardState) (bus : SharedBus κ π), Conforms True view' →
          JustPowered view' bus → (view' bus.card).sectors = sectors view dev.device →
          InRange (view' bus.card) r.1 →
          ∃ d' block, SpiSdBlockDevice.new bus = .ok d' ∧
            (d'.readBlock r.1).1 = .ok block ∧ recordOf crc32 block = some r.2 := by
  intro s
  have honCard : OnCard crc32 view s.manager :=
    onCard_final conforms (onCard_newWithDevice conforms serves) actions
  obtain ⟨dev, hdevice⟩ := Option.isSome_iff_exists.mp honCard.present
  refine ⟨dev, hdevice, fun r hr => ?_⟩
  have hcalls : s.calls = dev.calls := by rw [calls, hdevice]; rfl
  rw [hcalls] at hr
  obtain ⟨-, -, hrecord⟩ := honCard.held room dev hdevice r hr
  refine ⟨hrecord, fun view' bus conforms' powered same range => ?_⟩
  -- The card that is powered anew has the sectors the driver left.
  obtain ⟨d', hnew, -, hprepared, hview⟩ := new_prepared conforms' powered
  have hrange : InRange (view' d'.bus.card) r.1 := by
    rw [hview]
    exact range
  obtain ⟨c', hread, -⟩ := read_succeeds conforms' hprepared hrange
  refine ⟨d', sectors view' d' r.1, hnew, congrArg Prod.fst hread, ?_⟩
  have hsectors : sectors view' d' = sectors view dev.device := by
    rw [← same]
    show (view' d'.bus.card).sectors = _
    rw [hview]
    rfl
  rw [hsectors, hrecord]

/-- A packet is pushed and flushed to a blank card. -/
theorem acknowledged_records_survive_onPromptCard :
    let s := (machine crc32Ieee).final ⟨newWithDevice crc32Ieee ⟨onPromptCard, []⟩, .new⟩
      [.push (plainPacket 7), .flush]
    ∃ dev, s.manager.device = some dev ∧
      ∀ r ∈ confirmedRecords crc32Ieee s.calls,
        recordOf crc32Ieee (sectors PromptCard.state dev.device r.1) = some r.2 ∧
        ∀ (view' : PromptCard → CardState) (bus : SharedBus PromptCard BlindPanel),
          Conforms True view' → JustPowered view' bus →
          (view' bus.card).sectors = sectors PromptCard.state dev.device →
          InRange (view' bus.card) r.1 →
          ∃ d' block, SpiSdBlockDevice.new bus = .ok d' ∧
            (d'.readBlock r.1).1 = .ok block ∧ recordOf crc32Ieee block = some r.2 :=
  acknowledged_records_survive (PromptCard.conforms : Conforms True PromptCard.state)
    serves_onPromptCard _ (currentLba_final_ne_max (by decide +kernel))

end Station

end Gibberish.Storage
