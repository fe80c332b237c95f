/-
# The minimum backoff

The transmit queue as the main loop drives it: a packet is taken exactly when the tick
says so. Beside the ring stand the ages of its slots, the tick time since each was
filled. The countdown covers the head slot only, so a packet behind it has waited long
enough when it becomes the head by a transmission, which restarts the countdown, but not
always when the head is evicted or was cancelled.
-/

import Gibberish.Firmware.QueueLosses

set_option autoImplicit false

namespace Gibberish.Firmware

open Gibberish.Foundation Gibberish.Protocol

/-! ### The driven queue -/

/-- What the main loop does to the queue. -/
inductive DrivenCall where
  | scheduleTx (packet : MeshPacket) (jitterMs : UInt16)
  | scheduleTelemetry (packet : MeshPacket) (jitterMs : UInt16)
  | onOverhear (msgId : UInt32) (chunkIdx : UInt8)
  | service (elapsedMs : UInt16)

/-- The calls that an operation of the main loop makes. -/
def DrivenCall.calls (b : BackoffController) : DrivenCall → List QueueCall
  | scheduleTx packet jitterMs => [.scheduleTx packet jitterMs]
  | scheduleTelemetry packet jitterMs => [.scheduleTelemetry packet jitterMs]
  | onOverhear msgId chunkIdx => [.onOverhear msgId chunkIdx]
  | service elapsedMs =>
    .tick elapsedMs :: if (b.tick elapsedMs).1 then [.takePending] else []

/-- The controller, and how long ago each of its slots was filled. -/
structure AgedController where
  controller : BackoffController
  ages : List ℕ

namespace AgedController

def new : AgedController := ⟨.new, []⟩

/-- A new slot has age 0; it takes the place of the oldest in a full ring. -/
def schedule (t : AgedController) (packet : MeshPacket) (jitterMs : UInt16) : AgedController where
  controller := t.controller.scheduleTx packet jitterMs
  ages := (if t.controller.count < txQueueCapacity then t.ages else t.ages.tail) ++ [0]

/-- Time passes for every slot. -/
def tick (t : AgedController) (elapsedMs : UInt16) : Bool × AgedController :=
  ((t.controller.tick elapsedMs).1,
    { controller := (t.controller.tick elapsedMs).2
      ages := t.ages.map (· + elapsedMs.toNat) })

/-- The slots that leave the ring, the last of which holds the packet, take their ages
with them. -/
def takePending (t : AgedController) : Option (MeshPacket × ℕ) × AgedController :=
  let left := t.controller.count - t.controller.takePending.2.count
  (t.controller.takePending.1.map fun packet => (packet, t.ages[left - 1]?.getD 0),
    { controller := t.controller.takePending.2
      ages := t.ages.drop left })

/-- Emits the packets that go out, with their ages. -/
def operate (t : AgedController) : DrivenCall → AgedController × List (MeshPacket × ℕ)
  | .scheduleTx packet jitterMs => (t.schedule packet jitterMs, [])
  | .scheduleTelemetry packet jitterMs =>
    if (t.controller.scheduleTelemetry packet jitterMs).1 then (t.schedule packet jitterMs, [])
    else (t, [])
  | .onOverhear msgId chunkIdx =>
    ({ t with controller := (t.controller.onOverhear msgId chunkIdx).2 }, [])
  | .service elapsedMs =>
    match t.tick elapsedMs with
    | (true, t) => (t.takePending.2, t.takePending.1.toList)
    | (false, t) => (t, [])

def machine : Machine AgedController DrivenCall (MeshPacket × ℕ) := ⟨operate⟩

/-- The ages change nothing: the controller takes the calls of the operation. -/
theorem controller_next (t : AgedController) (c : DrivenCall) :
    (machine.next t c).controller =
      BackoffController.callMachine.final t.controller (c.calls t.controller) := by
  show (t.operate c).1.controller = _
  cases c with
  | scheduleTx packet jitterMs => rfl
  | scheduleTelemetry packet jitterMs =>
    show _ = (t.controller.call _).1
    rw [BackoffController.call_scheduleTelemetry, operate]
    show _ = (if (t.controller.scheduleTelemetry packet jitterMs).1 = true then _ else _ :
      BackoffController × List PacketEvent).1
    split
    · rfl
    · rfl
  | onOverhear msgId chunkIdx => rfl
  | service elapsedMs =>
    rw [operate, tick, DrivenCall.calls]
    cases hdue : (t.controller.tick elapsedMs).1 with
    | false => rfl
    | true => rfl

/-! ### The property and its condition -/

/-- Every packet goes out at least 15 ms after it was scheduled. -/
def BacksOff (calls : List DrivenCall) : Prop := ∀ out ∈ machine.outputs new calls, 15 ≤ out.2

instance (calls : List DrivenCall) : Decidable (BacksOff calls) :=
  inferInstanceAs (Decidable (∀ out ∈ _, _))

/-- The age of the first packet behind some empty slots. -/
def firstAge : List (Option MeshPacket) → List ℕ → Option ℕ
  | some _ :: _, age :: _ => some age
  | none :: slots, _ :: ages => firstAge slots ages
  | _, _ => none

/-- In a full ring, the countdown leaves the packet behind the head 15 ms. -/
def HandsOver (t : AgedController) : Prop :=
  t.controller.count = txQueueCapacity → t.controller.queued 1 ≠ none →
    ∀ age ∈ t.ages[1]?, 15 ≤ age + t.controller.backoffRemainingMs.toNat

/-- When the tick is due at an empty head slot, the first packet behind is 15 ms old. -/
def SkipsLate (t : AgedController) (elapsedMs : UInt16) : Prop :=
  (t.controller.tick elapsedMs).1 = true → t.controller.queued 0 = none →
    ∀ age ∈ firstAge t.controller.toQueue.slots t.ages, 15 ≤ age + elapsedMs.toNat

/-- No packet inherits a head slot too early. -/
def Unhurried (t : AgedController) : DrivenCall → Prop
  | .scheduleTx _ _ => t.HandsOver
  | .scheduleTelemetry packet jitterMs =>
    (t.controller.scheduleTelemetry packet jitterMs).1 = true → t.HandsOver
  | .onOverhear _ _ => True
  | .service elapsedMs => t.SkipsLate elapsedMs

instance (t : AgedController) : Decidable t.HandsOver :=
  inferInstanceAs (Decidable (_ → _ → ∀ age ∈ t.ages[1]?, _))

instance (t : AgedController) (elapsedMs : UInt16) : Decidable (t.SkipsLate elapsedMs) :=
  inferInstanceAs (Decidable (_ → _ → ∀ age ∈ firstAge _ _, _))

instance (t : AgedController) : DecidablePred t.Unhurried
  | .scheduleTx _ _ => inferInstanceAs (Decidable t.HandsOver)
  | .scheduleTelemetry _ _ => inferInstanceAs (Decidable (_ → t.HandsOver))
  | .onOverhear _ _ => isTrue trivial
  | .service elapsedMs => inferInstanceAs (Decidable (t.SkipsLate elapsedMs))

/-! ### The invariant -/

/-- A packet in the head slot is 15 ms old by the end of the countdown. -/
def Covers (slots : List (Option MeshPacket)) (ages : List ℕ) (remainingMs : ℕ) : Prop :=
  ∀ packet age, slots.head? = some (some packet) → ages.head? = some age → 15 ≤ age + remainingMs

/-- Every slot has an age, and the countdown covers the head slot. -/
structure Inv (t : AgedController) : Prop where
  length : t.ages.length = t.controller.toQueue.slots.length
  covers : Covers t.controller.toQueue.slots t.ages t.controller.backoffRemainingMs.toNat

theorem inv_new : new.Inv := ⟨rfl, fun _ _ hpacket => by cases hpacket⟩

theorem covers_of_le (slots : List (Option MeshPacket)) (ages : List ℕ) {remainingMs : ℕ}
    (h : 15 ≤ remainingMs) : Covers slots ages remainingMs :=
  fun _ age _ _ => h.trans (Nat.le_add_left _ age)

theorem le_clampJitter (jitterMs : UInt16) :
    15 ≤ (BackoffController.clampJitter jitterMs).toNat := by
  rw [BackoffController.clampJitter]
  split
  · exact Nat.le_refl 15
  · rename_i h
    split
    · decide
    · exact UInt16.le_iff_toNat_le.mp (UInt16.not_lt.mp h)

/-- Slots behind the head do not matter. -/
theorem Covers.append {slots : List (Option MeshPacket)} {ages : List ℕ} {remainingMs : ℕ}
    (h : Covers slots ages remainingMs) (length : ages.length = slots.length) (ne : slots ≠ [])
    (slot : Option MeshPacket) (age : ℕ) :
    Covers (slots ++ [slot]) (ages ++ [age]) remainingMs := by
  have hages : ages ≠ [] := by
    rwa [ne_eq, ← List.length_eq_zero_iff, length, List.length_eq_zero_iff]
  intro packet headAge hpacket hage
  rw [List.head?_append_of_ne_nil _ ne] at hpacket
  rw [List.head?_append_of_ne_nil _ hages] at hage
  exact h packet headAge hpacket hage

theorem length_cancelSlots (key : PacketKey) (slots : List (Option MeshPacket)) :
    (TxQueue.cancelSlots key slots).length = slots.length := by
  induction slots with
  | nil => rfl
  | cons slot rest ih =>
    rw [TxQueue.cancelSlots]
    split
    · rfl
    · exact congrArg Nat.succ ih

theorem Covers.cancel {slots : List (Option MeshPacket)} {ages : List ℕ} {remainingMs : ℕ}
    (h : Covers slots ages remainingMs) (key : PacketKey) :
    Covers (TxQueue.cancelSlots key slots) ages remainingMs := by
  intro packet age hpacket hage
  cases slots with
  | nil => cases hpacket
  | cons head rest =>
    rw [TxQueue.cancelSlots] at hpacket
    -- A cancelled head slot holds no packet to be covered.
    split at hpacket
    · cases hpacket
    · exact h packet age hpacket hage

/-- What passes of the countdown is added to the ages. -/
theorem Covers.tick {slots : List (Option MeshPacket)} {ages : List ℕ} {remainingMs : ℕ}
    (h : Covers slots ages remainingMs) {elapsedMs : ℕ} (le : elapsedMs ≤ remainingMs) :
    Covers slots (ages.map (· + elapsedMs)) (remainingMs - elapsedMs) := by
  intro packet age hpacket hage
  rw [List.head?_map, Option.map_eq_some_iff] at hage
  obtain ⟨headAge, hhead, rfl⟩ := hage
  have hcovered := h packet headAge hpacket hhead
  omega

/-- The slot behind the head of a full ring is covered when it becomes the head. -/
theorem HandsOver.covers_tail {t : AgedController} (handsOver : t.HandsOver)
    (full : t.controller.count = txQueueCapacity) :
    Covers t.controller.toQueue.slots.tail t.ages.tail
      t.controller.backoffRemainingMs.toNat := by
  intro packet age hpacket hage
  rw [List.head?_tail] at hpacket hage
  have hsecond : t.controller.queued 1 = some packet := by
    rw [BackoffController.getElem?_slots (by rw [full]; decide)] at hpacket
    exact Option.some.inj hpacket
  exact handsOver full (by rw [hsecond]; exact Option.some_ne_none _) age hage

/-- **Step lemma, scheduling.** -/
theorem Inv.schedule {t : AgedController} (h : t.Inv) (handsOver : t.HandsOver)
    (packet : MeshPacket) (jitterMs : UInt16) : (t.schedule packet jitterMs).Inv := by
  obtain ⟨hlength, hcovers⟩ := h
  have hslots := t.controller.slots_scheduleTx packet jitterMs
  have hremaining : (t.controller.scheduleTx packet jitterMs).backoffRemainingMs =
      if t.controller.toQueue.slots = [] then BackoffController.clampJitter jitterMs
      else t.controller.backoffRemainingMs :=
    congrArg TxQueue.remainingMs (t.controller.toQueue_scheduleTx packet jitterMs)
  have hages : (t.schedule packet jitterMs).ages =
      (if t.controller.count < txQueueCapacity then t.ages else t.ages.tail) ++ [0] := rfl
  constructor
  · show _ = (t.controller.scheduleTx packet jitterMs).toQueue.slots.length
    rw [hages, hslots, List.length_append, List.length_append]
    split
    · rw [hlength]
      rfl
    · rw [List.length_tail, List.length_tail, hlength]
      rfl
  · show Covers (t.controller.scheduleTx packet jitterMs).toQueue.slots _
      (t.controller.scheduleTx packet jitterMs).backoffRemainingMs.toNat
    rw [hages, hslots, hremaining]
    by_cases hempty : t.controller.toQueue.slots = []
    · rw [if_pos hempty]
      exact covers_of_le _ _ (le_clampJitter jitterMs)
    -- The countdown is that of the head slot, which a full ring gives up.
    · rw [if_neg hempty]
      by_cases hroom : t.controller.count < txQueueCapacity
      · rw [if_pos hroom, if_pos hroom]
        exact hcovers.append hlength hempty _ _
      · rw [if_neg hroom, if_neg hroom]
        have hfull : t.controller.count = txQueueCapacity :=
          Nat.le_antisymm t.controller.count_le (Nat.not_lt.mp hroom)
        have htail : t.controller.toQueue.slots.tail.length = 7 := by
          rw [List.length_tail, BackoffController.length_slots, hfull]
          rfl
        apply (handsOver.covers_tail hfull).append
        · rw [List.length_tail, List.length_tail, hlength]
        · apply List.ne_nil_of_length_pos
          rw [htail]
          decide

/-- **Step lemma, overhearing.** -/
theorem Inv.onOverhear {t : AgedController} (h : t.Inv) (msgId : UInt32) (chunkIdx : UInt8) :
    Inv { t with controller := (t.controller.onOverhear msgId chunkIdx).2 } := by
  have hqueue := t.controller.toQueue_onOverhear msgId chunkIdx
  have hslots : (t.controller.onOverhear msgId chunkIdx).2.toQueue.slots =
      TxQueue.cancelSlots (msgId, chunkIdx) t.controller.toQueue.slots :=
    congrArg TxQueue.slots hqueue
  have hremaining : (t.controller.onOverhear msgId chunkIdx).2.backoffRemainingMs =
      t.controller.backoffRemainingMs := congrArg TxQueue.remainingMs hqueue
  constructor
  · show t.ages.length = (t.controller.onOverhear msgId chunkIdx).2.toQueue.slots.length
    rw [hslots, h.length, length_cancelSlots]
  · show Covers (t.controller.onOverhear msgId chunkIdx).2.toQueue.slots t.ages
      (t.controller.onOverhear msgId chunkIdx).2.backoffRemainingMs.toNat
    rw [hslots, hremaining]
    exact h.covers.cancel _

/-! ### Taking a packet -/

/-- Taking removes a slot, if there is one. -/
theorem length_takeSlots_le (slots : List (Option MeshPacket)) :
    (TxQueue.takeSlots slots).2.length ≤ slots.length - 1 := by
  induction slots with
  | nil => exact Nat.le_refl 0
  | cons slot rest ih =>
    cases slot with
    | none => exact ih.trans (Nat.sub_le _ _)
    | some packet => exact Nat.le_refl _

/-- The age taken is that of the first packet. -/
theorem firstAge_eq {slots : List (Option MeshPacket)} {ages : List ℕ} {packet : MeshPacket}
    (length : ages.length = slots.length) (taken : (TxQueue.takeSlots slots).1 = some packet) :
    firstAge slots ages = ages[slots.length - (TxQueue.takeSlots slots).2.length - 1]? := by
  induction slots generalizing ages with
  | nil => cases taken
  | cons slot rest ih =>
    cases ages with
    | nil => cases length
    | cons age ages =>
      cases slot with
      | some packet =>
        rw [firstAge, TxQueue.takeSlots, List.length_cons, Nat.add_sub_cancel_left]
        rfl
      -- An empty slot is passed over, and its age with it.
      | none =>
        have hle := length_takeSlots_le rest
        have hpos : 0 < rest.length := by
          cases rest with
          | nil => cases taken
          | cons => exact Nat.zero_lt_succ _
        have hindex : rest.length + 1 - (TxQueue.takeSlots rest).2.length - 1 =
            rest.length - (TxQueue.takeSlots rest).2.length - 1 + 1 := by omega
        rw [firstAge, TxQueue.takeSlots, List.length_cons, hindex, List.getElem?_cons_succ]
        exact ih (Nat.succ.inj length) taken

/-- The first packet is in the head slot, unless that is empty. -/
theorem head?_of_firstAge {slots : List (Option MeshPacket)} {ages : List ℕ} {packet : MeshPacket}
    {age : ℕ} (head : slots.head? = some (some packet)) (first : firstAge slots ages = some age) :
    ages.head? = some age := by
  cases slots with
  | nil => cases head
  | cons slot rest =>
    obtain rfl : slot = some packet := Option.some.inj head
    cases ages with
    | nil => cases first
    | cons headAge ages => exact first

theorem firstAge_map (slots : List (Option MeshPacket)) (ages : List ℕ) (elapsedMs : ℕ) :
    firstAge slots (ages.map (· + elapsedMs)) = (firstAge slots ages).map (· + elapsedMs) := by
  induction slots generalizing ages with
  | nil => rfl
  | cons slot rest ih =>
    cases ages with
    | nil => cases slot <;> rfl
    | cons age ages =>
      cases slot with
      | none => exact ih ages
      | some packet => rfl

theorem exists_firstAge {slots : List (Option MeshPacket)} {ages : List ℕ} {packet : MeshPacket}
    (length : ages.length = slots.length) (taken : (TxQueue.takeSlots slots).1 = some packet) :
    ∃ age, firstAge slots ages = some age := by
  have hpos : 0 < slots.length := by
    cases slots with
    | nil => cases taken
    | cons => exact Nat.zero_lt_succ _
  rw [firstAge_eq length taken]
  exact ⟨_, List.getElem?_eq_getElem (by omega)⟩

/-- The packet taken is the first one. -/
theorem takePending_fst {t : AgedController}
    (length : t.ages.length = t.controller.toQueue.slots.length) :
    t.takePending.1 = t.controller.takePending.1.map fun packet =>
      (packet, (firstAge t.controller.toQueue.slots t.ages).getD 0) := by
  rw [takePending]
  cases htaken : t.controller.takePending.1 with
  | none => rfl
  | some packet =>
    obtain ⟨hfst, hsnd⟩ := t.controller.toQueue_takePending
    have hslots : (TxQueue.takeSlots t.controller.toQueue.slots).1 = some packet :=
      hfst.symm.trans htaken
    have hcount : (TxQueue.takeSlots t.controller.toQueue.slots).2.length =
        t.controller.takePending.2.count := by
      rw [← BackoffController.length_slots, hsnd]
      rfl
    rw [firstAge_eq length hslots, hcount, BackoffController.length_slots]

/-- **Step lemma, taking.** Another packet has to wait for 20 ms. -/
theorem inv_takePending {t : AgedController}
    (length : t.ages.length = t.controller.toQueue.slots.length) : t.takePending.2.Inv := by
  have hqueue := t.controller.toQueue_takePending.2
  have hslots : t.controller.takePending.2.toQueue.slots =
      (TxQueue.takeSlots t.controller.toQueue.slots).2 := congrArg TxQueue.slots hqueue
  have hremaining : t.controller.takePending.2.backoffRemainingMs =
      if 1 < t.controller.toQueue.slots.length then 20 else t.controller.backoffRemainingMs :=
    congrArg TxQueue.remainingMs hqueue
  have hle := length_takeSlots_le t.controller.toQueue.slots
  rw [← hslots, BackoffController.length_slots, BackoffController.length_slots] at hle
  constructor
  · show (t.ages.drop (t.controller.count - t.controller.takePending.2.count)).length =
      t.controller.takePending.2.toQueue.slots.length
    rw [List.length_drop, length, BackoffController.length_slots, BackoffController.length_slots]
    omega
  · show Covers t.controller.takePending.2.toQueue.slots _
      t.controller.takePending.2.backoffRemainingMs.toNat
    rw [hremaining, BackoffController.length_slots]
    split
    · exact covers_of_le _ _ (by decide)
    -- Nothing is left behind the only slot.
    · have hempty : t.controller.takePending.2.toQueue.slots = [] := by
        rw [BackoffController.slots_eq_nil_iff]
        omega
      intro packet age hpacket
      rw [hempty] at hpacket
      cases hpacket

theorem due_iff (b : BackoffController) (elapsedMs : UInt16) :
    (b.tick elapsedMs).1 = true ↔ 0 < b.count ∧ b.backoffRemainingMs ≤ elapsedMs := by
  rw [BackoffController.tick]
  split
  · rename_i hempty
    simp [hempty]
  · rename_i hne
    split
    · rename_i hdue
      simp [Nat.pos_of_ne_zero hne, hdue]
    · rename_i hwaits
      simp [hwaits]

theorem slots_tick (b : BackoffController) (elapsedMs : UInt16) :
    (b.tick elapsedMs).2.toQueue.slots = b.toQueue.slots := by
  rw [(b.toQueue_tick elapsedMs).2, TxQueue.slots_tick]

theorem length_ages_tick {t : AgedController} (h : t.Inv) (elapsedMs : UInt16) :
    (t.tick elapsedMs).2.ages.length = (t.tick elapsedMs).2.controller.toQueue.slots.length := by
  show (t.ages.map _).length = (t.controller.tick elapsedMs).2.toQueue.slots.length
  rw [List.length_map, slots_tick, h.length]

/-- **Step lemma, ticking.** -/
theorem Inv.tick {t : AgedController} (h : t.Inv) {elapsedMs : UInt16}
    (waits : (t.controller.tick elapsedMs).1 = false) : (t.tick elapsedMs).2.Inv := by
  refine ⟨length_ages_tick h elapsedMs, ?_⟩
  intro packet age hpacket hage
  have hslots : t.controller.toQueue.slots.head? = some (some packet) := by
    rw [← slots_tick t.controller elapsedMs]
    exact hpacket
  have hpos : 0 < t.controller.count := by
    rw [← BackoffController.length_slots]
    exact List.length_pos_of_mem (List.mem_of_mem_head? hslots)
  have hlt : elapsedMs < t.controller.backoffRemainingMs := by
    refine UInt16.not_le.mp fun hdue => ?_
    rw [(due_iff _ _).mpr ⟨hpos, hdue⟩] at waits
    cases waits
  have hle : elapsedMs ≤ t.controller.backoffRemainingMs := UInt16.le_of_lt hlt
  have hremaining : (t.controller.tick elapsedMs).2.backoffRemainingMs.toNat =
      t.controller.backoffRemainingMs.toNat - elapsedMs.toNat := by
    rw [BackoffController.tick, if_neg hpos.ne', if_neg (UInt16.not_le.mpr hlt)]
    exact UInt16.toNat_sub_of_le _ _ hle
  show 15 ≤ age + (t.controller.tick elapsedMs).2.backoffRemainingMs.toNat
  rw [hremaining]
  exact h.covers.tick (UInt16.le_iff_toNat_le.mp hle) packet age hslots hage

/-- The packet that goes out has waited for 15 ms. -/
theorem le_age_of_service {t : AgedController} (h : t.Inv) {elapsedMs : UInt16}
    (due : (t.controller.tick elapsedMs).1 = true) (late : t.SkipsLate elapsedMs) :
    ∀ out ∈ (t.tick elapsedMs).2.takePending.1, 15 ≤ out.2 := by
  obtain ⟨hpos, hremaining⟩ := (due_iff _ _).mp due
  intro out hout
  have hslots := slots_tick t.controller elapsedMs
  rw [takePending_fst (length_ages_tick h elapsedMs)] at hout
  obtain ⟨packet, htaken, rfl⟩ := Option.map_eq_some_iff.mp hout
  have htakeSlots : (TxQueue.takeSlots t.controller.toQueue.slots).1 = some packet := by
    rw [← hslots]
    exact ((t.controller.tick elapsedMs).2.toQueue_takePending.1).symm.trans htaken
  obtain ⟨age, hage⟩ := exists_firstAge h.length htakeSlots
  have hfirst : firstAge (t.tick elapsedMs).2.controller.toQueue.slots (t.tick elapsedMs).2.ages =
      some (age + elapsedMs.toNat) := by
    show firstAge (t.controller.tick elapsedMs).2.toQueue.slots (t.ages.map _) = _
    rw [hslots, firstAge_map, hage]
    rfl
  rw [hfirst]
  show 15 ≤ age + elapsedMs.toNat
  cases hhead : t.controller.queued 0 with
  | none => exact late due hhead age hage
  -- The countdown covers a packet in the head slot.
  | some first =>
    have hhead? : t.controller.toQueue.slots.head? = some (some first) := by
      rw [BackoffController.head?_slots hpos, hhead]
    have hcovered := h.covers first age hhead? (head?_of_firstAge hhead? hage)
    have hle := UInt16.le_iff_toNat_le.mp hremaining
    omega

/-- **Step lemma.** -/
theorem inv_next {t : AgedController} (h : t.Inv) {c : DrivenCall} (unhurried : t.Unhurried c) :
    (machine.next t c).Inv ∧ ∀ out ∈ machine.emit t c, 15 ≤ out.2 := by
  show (t.operate c).1.Inv ∧ ∀ out ∈ (t.operate c).2, 15 ≤ out.2
  cases c with
  | scheduleTx packet jitterMs => exact ⟨h.schedule unhurried packet jitterMs, by simp [operate]⟩
  | scheduleTelemetry packet jitterMs =>
    rw [operate]
    split
    · rename_i hqueued
      exact ⟨h.schedule (unhurried hqueued) packet jitterMs, by simp⟩
    · exact ⟨h, by simp⟩
  | onOverhear msgId chunkIdx => exact ⟨h.onOverhear msgId chunkIdx, by simp [operate]⟩
  | service elapsedMs =>
    rw [operate]
    cases hdue : (t.controller.tick elapsedMs).1 with
    | false =>
      have hwaits : t.tick elapsedMs = (false, (t.tick elapsedMs).2) := Prod.ext hdue rfl
      rw [hwaits]
      exact ⟨h.tick hdue, by simp⟩
    | true =>
      have htakes : t.tick elapsedMs = (true, (t.tick elapsedMs).2) := Prod.ext hdue rfl
      rw [htakes]
      refine ⟨inv_takePending (length_ages_tick h elapsedMs), ?_⟩
      intro out hout
      exact le_age_of_service h hdue unhurried out (Option.mem_toList.mp hout)

/-- **Minimum backoff.** In a run in which no packet inherits a head slot too early,
every packet goes out at least 15 ms after it was scheduled. -/
theorem backsOff_of_unhurried {calls : List DrivenCall}
    (unhurried : machine.Guarded Unhurried new calls) : BacksOff calls := by
  have hstep : ∀ t past c, (t.Inv ∧ ∀ out ∈ past, 15 ≤ out.2) → t.Unhurried c →
      ((machine.next t c).Inv ∧ ∀ out ∈ past ++ machine.emit t c, 15 ≤ out.2) := by
    rintro t past c ⟨hinv, hpast⟩ hc
    obtain ⟨hnext, hemit⟩ := inv_next hinv hc
    refine ⟨hnext, fun out hout => ?_⟩
    rcases List.mem_append.mp hout with hmem | hmem
    · exact hpast out hmem
    · exact hemit out hmem
  have hinitial : new.Inv ∧ ∀ out ∈ ([] : List (MeshPacket × ℕ)), 15 ≤ out.2 :=
    ⟨inv_new, by simp⟩
  exact (Machine.history_invariant_nil hstep hinitial unhurried).2

/-- Two packets leave one after the other, the second 35 ms after it was scheduled. -/
theorem backsOff_twoPackets : BacksOff
    [.scheduleTx (Dongle.beaconPacket 7) 15, .scheduleTx (Dongle.beaconPacket 8) 15, .service 15,
      .service 20] :=
  backsOff_of_unhurried (by decide +kernel)

/-! ### A packet that leaves early -/

/-- A packet waits for 14 ms, another is queued, and the first is sent elsewhere. -/
def cancelledHead : List DrivenCall :=
  [.scheduleTx (Dongle.beaconPacket 7) 15, .service 14, .scheduleTx (Dongle.beaconPacket 8) 15,
    .onOverhear 7 0, .service 1]

/-- The second packet leaves 1 ms after it was scheduled. -/
theorem not_backsOff_cancelledHead : ¬ BacksOff cancelledHead := by decide +kernel

end AgedController

end Gibberish.Firmware
