/-
# How long a packet waits

The head of the transmit queue waits at most 90 ms, and each slot behind it 20 ms more than
the one before. So after 46 services of 5 ms none of the eight slots is what it was, and
whatever waits in the queue of a running loop was queued in the last 58 turns.
-/

import Gibberish.Firmware.Preemption
import Gibberish.Firmware.TelemetryCadence
import Gibberish.Firmware.Traffic

set_option autoImplicit false

namespace Gibberish.Firmware

open Gibberish.Foundation Gibberish.Protocol Gibberish.Storage

namespace QueueOp

/-- The packet that an operation may queue. -/
def scheduled : QueueOp → Option MeshPacket
  | scheduleTx packet _ => some packet
  | scheduleTelemetry packet _ => some packet
  | _ => none

def isTick : QueueOp → Bool
  | tick _ => true
  | _ => false

/-- Time passes in steps of 5 ms. -/
def Steady : QueueOp → Prop
  | tick elapsedMs => elapsedMs = 5
  | _ => True

end QueueOp

namespace TxQueue

/-! ### Slots -/

theorem takeSlots_eq_drop {slots : List (Option MeshPacket)} (ne : slots ≠ []) :
    ∃ j, 0 < j ∧ (takeSlots slots).2 = slots.drop j := by
  induction slots with
  | nil => exact absurd rfl ne
  | cons slot rest ih =>
    cases slot with
    | some packet => exact ⟨1, Nat.one_pos, rfl⟩
    | none =>
      cases rest with
      | nil => exact ⟨1, Nat.one_pos, rfl⟩
      | cons slot' rest =>
        obtain ⟨j, -, hdrop⟩ := ih (List.cons_ne_nil _ _)
        exact ⟨j + 1, j.succ_pos, hdrop⟩

theorem length_cancelSlots (key : PacketKey) (slots : List (Option MeshPacket)) :
    (cancelSlots key slots).length = slots.length := by
  induction slots with
  | nil => rfl
  | cons slot rest ih =>
    rw [cancelSlots]
    split
    · rfl
    · rw [List.length_cons, List.length_cons, ih]

/-- Behind any slot, cancelling only removes packets. -/
theorem packetsOf_drop_cancelSlots_sublist (key : PacketKey) (slots : List (Option MeshPacket))
    (m : ℕ) :
    (packetsOf ((cancelSlots key slots).drop m)).Sublist (packetsOf (slots.drop m)) := by
  induction slots generalizing m with
  | nil => exact List.Sublist.refl _
  | cons slot rest ih =>
    cases m with
    | zero => exact packetsOf_cancelSlots_sublist key (slot :: rest)
    | succ m =>
      rw [cancelSlots]
      split
      · exact List.Sublist.refl _
      · exact ih m

theorem packetsOf_drop_sublist (slots : List (Option MeshPacket)) {m m' : ℕ} (h : m ≤ m') :
    (packetsOf (slots.drop m')).Sublist (packetsOf (slots.drop m)) :=
  (List.drop_sublist_drop_left slots h).filterMap id

/-! ### Old slots leave -/

/-- The first slots of a queue leave within a number of services: the head's countdown is over
after some, and each slot behind it takes four more. -/
structure Leaves (q : TxQueue) (m services : ℕ) : Prop where
  slots : m ≤ q.slots.length
  soon : 0 < m → ∃ k, 0 < k ∧ q.remainingMs.toNat ≤ 5 * k ∧ 4 * (m - 1) + k ≤ services

theorem Leaves.of_zero (q : TxQueue) (services : ℕ) : q.Leaves 0 services :=
  ⟨Nat.zero_le _, fun h => absurd h (Nat.lt_irrefl 0)⟩

/-- What an operation does to a queue whose first slots are on their way out. -/
def Keeps (q : TxQueue) (m services : ℕ) (added : Option MeshPacket) (q' : TxQueue) : Prop :=
  ∃ m' ≤ m, q'.Leaves m' services ∧
    (packetsOf (q'.slots.drop m')).Sublist (packetsOf (q.slots.drop m) ++ added.toList)

theorem Leaves.keeps {q : TxQueue} {m services : ℕ} (leaves : q.Leaves m services)
    (added : Option MeshPacket) : q.Keeps m services added q :=
  ⟨m, le_rfl, leaves, List.sublist_append_left _ _⟩

theorem Leaves.push {q : TxQueue} {m services : ℕ} (leaves : q.Leaves m services)
    (packet : MeshPacket) (jitterMs : UInt16) :
    q.Keeps m services (some packet) (q.push packet jitterMs) := by
  obtain ⟨hslots, hsoon⟩ := leaves
  have hremaining : q.slots ≠ [] → (q.push packet jitterMs).remainingMs = q.remainingMs := by
    intro hne
    rw [TxQueue.push, if_neg hne]
  by_cases hroom : q.slots.length < txQueueCapacity
  · have hpushed : (q.push packet jitterMs).slots = q.slots ++ [some packet] := by
      rw [TxQueue.push, if_pos hroom]
    refine ⟨m, le_rfl, ⟨?_, fun hm => ?_⟩, ?_⟩
    · rw [hpushed, List.length_append]
      omega
    · rw [hremaining (List.ne_nil_of_length_pos (hm.trans_le hslots))]
      exact hsoon hm
    · rw [hpushed, List.drop_append_of_le_length hslots, packetsOf, List.filterMap_append]
      exact List.Sublist.refl _
  -- A full queue loses its first slot, which may be one of the old ones.
  · have hfull : 0 < q.slots.length := (by decide : 0 < 8).trans_le (Nat.not_lt.mp hroom)
    have hpushed : (q.push packet jitterMs).slots = q.slots.drop 1 ++ [some packet] := by
      rw [TxQueue.push, if_neg hroom, List.drop_one]
    have hle : m - 1 ≤ (q.slots.drop 1).length := by
      rw [List.length_drop]
      omega
    refine ⟨m - 1, Nat.sub_le m 1, ⟨?_, fun hm => ?_⟩, ?_⟩
    · rw [hpushed, List.length_append]
      omega
    · obtain ⟨k, hk, hcountdown, hservices⟩ := hsoon (by omega)
      rw [hremaining (List.ne_nil_of_length_pos hfull)]
      exact ⟨k, hk, hcountdown, by omega⟩
    · rw [hpushed, List.drop_append_of_le_length hle, List.drop_drop, packetsOf,
        List.filterMap_append]
      exact (packetsOf_drop_sublist q.slots (by omega)).append_right _

theorem Leaves.tick {q : TxQueue} {m services : ℕ} (leaves : q.Leaves m services) :
    q.Keeps m (services - 1) none (q.operate (.tick 5)).1 := by
  obtain ⟨hslots, hsoon⟩ := leaves
  rw [operate, TxQueue.tick]
  by_cases hempty : q.slots = []
  · rw [if_pos hempty]
    rw [hempty, List.length_nil, Nat.le_zero] at hslots
    subst hslots
    exact (Leaves.of_zero q _).keeps none
  · rw [if_neg hempty]
    by_cases hdue : 5 ≥ q.remainingMs
    · rw [if_pos hdue]
      obtain ⟨j, hj, hdrop⟩ := takeSlots_eq_drop hempty
      refine ⟨m - j, Nat.sub_le m j, ⟨?_, fun hm => ?_⟩, ?_⟩
      · show m - j ≤ (takeSlots q.slots).2.length
        rw [hdrop, List.length_drop]
        omega
      -- The next of the old slots begins a countdown of 20 ms.
      · obtain ⟨k, hk, -, hservices⟩ := hsoon (by omega)
        have hbehind : 1 < q.slots.length := by omega
        refine ⟨4, by decide, ?_, by omega⟩
        show (if 1 < q.slots.length then (20 : UInt16) else 0).toNat ≤ 20
        rw [if_pos hbehind]
        decide
      · show (packetsOf ((takeSlots q.slots).2.drop (m - j))).Sublist _
        rw [hdrop, List.drop_drop]
        exact (packetsOf_drop_sublist q.slots (by omega)).trans (List.sublist_append_left _ _)
    · rw [if_neg hdue]
      refine ⟨m, le_rfl, ⟨hslots, fun hm => ?_⟩, List.sublist_append_left _ _⟩
      obtain ⟨k, hk, hcountdown, hservices⟩ := hsoon hm
      have hlate : 5 < q.remainingMs.toNat := UInt16.lt_iff_toNat_lt.mp (UInt16.not_le.mp hdue)
      have hfive : (5 : UInt16) ≤ q.remainingMs := UInt16.le_iff_toNat_le.mpr hlate.le
      refine ⟨k - 1, by omega, ?_, by omega⟩
      show (q.remainingMs - 5).toNat ≤ 5 * (k - 1)
      rw [UInt16.toNat_sub_of_le _ _ hfive]
      show q.remainingMs.toNat - 5 ≤ _
      omega

/-- **Step lemma.** A service brings the old slots closer to their end, and no operation puts
them off. -/
theorem Leaves.operate {q : TxQueue} {m services : ℕ} (leaves : q.Leaves m services)
    {op : QueueOp} (steady : op.Steady) :
    q.Keeps m (services - if op.isTick then 1 else 0) op.scheduled (q.operate op).1 := by
  cases op with
  | scheduleTx packet jitterMs => exact leaves.push packet jitterMs
  | scheduleTelemetry packet jitterMs =>
    show q.Keeps m services (some packet.1) (q.pushTelemetry packet jitterMs)
    rw [pushTelemetry]
    split
    · exact leaves.keeps _
    · exact leaves.push packet jitterMs
  | tick elapsedMs =>
    obtain rfl : elapsedMs = 5 := steady
    exact leaves.tick
  | onOverhear msgId chunkIdx =>
    refine ⟨m, le_rfl, ⟨?_, leaves.soon⟩, ?_⟩
    · show m ≤ (cancelSlots (msgId, chunkIdx) q.slots).length
      rw [length_cancelSlots]
      exact leaves.slots
    · exact (packetsOf_drop_cancelSlots_sublist _ q.slots m).trans (List.sublist_append_left _ _)

/-- **Run lemma.** -/
theorem Leaves.run {q : TxQueue} {m services : ℕ} (leaves : q.Leaves m services)
    {ops : List QueueOp} (steady : ∀ op ∈ ops, op.Steady) :
    ∃ m' ≤ m, (machine.final q ops).Leaves m' (services - ops.countP QueueOp.isTick) ∧
      (packetsOf ((machine.final q ops).slots.drop m')).Sublist
        (packetsOf (q.slots.drop m) ++ ops.filterMap QueueOp.scheduled) := by
  induction ops generalizing q m services with
  | nil => exact ⟨m, le_rfl, leaves, List.sublist_append_left _ _⟩
  | cons op rest ih =>
    obtain ⟨hop, hrest⟩ := List.forall_mem_cons.mp steady
    obtain ⟨m₁, hm₁, hleaves₁, hsub₁⟩ := leaves.operate hop
    obtain ⟨m₂, hm₂, hleaves₂, hsub₂⟩ := ih hleaves₁ hrest
    have hscheduled : (op :: rest).filterMap QueueOp.scheduled =
        op.scheduled.toList ++ rest.filterMap QueueOp.scheduled := by
      rw [List.filterMap_cons]
      cases op.scheduled with
      | none => rfl
      | some packet => rfl
    refine ⟨m₂, hm₂.trans hm₁, ?_, ?_⟩
    · rw [List.countP_cons, Nat.add_comm, ← Nat.sub_sub]
      exact hleaves₂
    · rw [hscheduled, ← List.append_assoc]
      exact hsub₂.trans (hsub₁.append_right _)

/-- No countdown is longer than 90 ms. -/
theorem remainingMs_operate {q : TxQueue} (short : q.remainingMs.toNat ≤ 90) (op : QueueOp) :
    (q.operate op).1.remainingMs.toNat ≤ 90 := by
  have hclamp : ∀ jitterMs, (BackoffController.clampJitter jitterMs).toNat ≤ 90 := by
    intro jitterMs
    rw [BackoffController.clampJitter]
    split
    · exact (by decide : (15 : UInt16).toNat ≤ 90)
    · split
      · exact (by decide : (90 : UInt16).toNat ≤ 90)
      · next hmost => exact UInt16.le_iff_toNat_le.mp (UInt16.not_lt.mp hmost)
  have hpush : ∀ packet jitterMs, (q.push packet jitterMs).remainingMs.toNat ≤ 90 := by
    intro packet jitterMs
    show (if q.slots = [] then BackoffController.clampJitter jitterMs
      else q.remainingMs).toNat ≤ 90
    split
    · exact hclamp jitterMs
    · exact short
  cases op with
  | scheduleTx packet jitterMs => exact hpush packet jitterMs
  | scheduleTelemetry packet jitterMs =>
    show (q.pushTelemetry packet jitterMs).remainingMs.toNat ≤ 90
    rw [pushTelemetry]
    split
    · exact short
    · exact hpush packet jitterMs
  | tick elapsedMs =>
    rw [operate, TxQueue.tick]
    by_cases hempty : q.slots = []
    · rw [if_pos hempty]
      exact short
    · rw [if_neg hempty]
      by_cases hdue : elapsedMs ≥ q.remainingMs
      · rw [if_pos hdue]
        show (if 1 < q.slots.length then (20 : UInt16) else 0).toNat ≤ 90
        split
        · decide
        · decide
      · rw [if_neg hdue]
        have hle : elapsedMs ≤ q.remainingMs := (UInt16.le_total _ _).resolve_right hdue
        show (q.remainingMs - elapsedMs).toNat ≤ 90
        rw [UInt16.toNat_sub_of_le _ _ hle]
        omega
  | onOverhear msgId chunkIdx => exact short

theorem remainingMs_final {q : TxQueue} (short : q.remainingMs.toNat ≤ 90) (ops : List QueueOp) :
    (machine.final q ops).remainingMs.toNat ≤ 90 := by
  induction ops generalizing q with
  | nil => exact short
  | cons op rest ih => exact ih (remainingMs_operate short op)

/-- Eight slots are gone after 46 services. -/
theorem leaves_of_short {q : TxQueue} (short : q.remainingMs.toNat ≤ 90)
    (capacity : q.slots.length ≤ txQueueCapacity) : q.Leaves q.slots.length 46 := by
  refine ⟨le_rfl, fun _ => ⟨18, by decide, short, ?_⟩⟩
  have hcapacity : q.slots.length ≤ 8 := capacity
  omega

end TxQueue

/-! ### The queue of a dongle -/

theorem BackoffController.toQueue_final (b : BackoffController) (ops : List QueueOp) :
    (machine.final b ops).toQueue = TxQueue.machine.final b.toQueue ops := by
  induction ops generalizing b with
  | nil => rfl
  | cons op rest ih =>
    have hstep : TxQueue.machine.next b.toQueue op = (machine.next b op).toQueue :=
      congrArg Prod.fst (step_toQueue b op)
    rw [Machine.final_cons, Machine.final_cons, ih, hstep]

/-- The loop services its queue every 5 ms. -/
def DongleInput.Steady : DongleInput → Prop
  | .serviceBackoff elapsedMs _ => elapsedMs = 5
  | _ => True

namespace Dongle

theorem scheduled_queueOps (d : Dongle) (input : DongleInput) :
    (d.queueOps input).filterMap QueueOp.scheduled = (d.offeredPacket input).toList := by
  cases input with
  | buttonPress => rfl
  | serviceBackoff elapsedMs txOk => rfl
  | emitTelemetry payload jitterMs => rfl
  | receive rx random =>
    have hrelay : d.offeredPacket (.receive rx random) =
        d.scheduledRelay (.receive rx random) := rfl
    rw [hrelay, queueOps, List.filterMap_append]
    cases d.scheduledRelay (.receive rx random) with
    | none =>
      split
      · rfl
      · rfl
    | some packet =>
      split
      · rfl
      · rfl
  | usbByte b =>
    rw [queueOps, offeredPacket, ownPacket]
    cases d.accepts b with
    | none => rfl
    | some packet => rfl

theorem countP_isTick_queueOps (d : Dongle) (input : DongleInput) :
    (d.queueOps input).countP QueueOp.isTick = if input.isService then 1 else 0 := by
  cases input with
  | buttonPress => rfl
  | serviceBackoff elapsedMs txOk => rfl
  | emitTelemetry payload jitterMs => rfl
  | receive rx random =>
    rw [queueOps, List.countP_append]
    cases d.scheduledRelay (.receive rx random) with
    | none =>
      split
      · rfl
      · rfl
    | some packet =>
      split
      · rfl
      · rfl
  | usbByte b =>
    rw [queueOps]
    cases d.accepts b with
    | none => rfl
    | some packet => rfl

theorem steady_queueOps {d : Dongle} {input : DongleInput} (steady : input.Steady) :
    ∀ op ∈ d.queueOps input, op.Steady := by
  have hmap : ∀ (packet? : Option MeshPacket) (jitterMs : UInt16),
      ∀ op ∈ packet?.toList.map (QueueOp.scheduleTx · jitterMs), op.Steady := by
    intro packet? jitterMs op hop
    obtain ⟨packet, -, rfl⟩ := List.mem_map.mp hop
    trivial
  cases input with
  | buttonPress => exact List.forall_mem_singleton.mpr trivial
  | serviceBackoff elapsedMs txOk => exact List.forall_mem_singleton.mpr steady
  | emitTelemetry payload jitterMs => exact List.forall_mem_singleton.mpr trivial
  | receive rx random =>
    intro op hop
    rcases List.mem_append.mp hop with hop | hop
    · split at hop
      · obtain rfl := List.mem_singleton.mp hop
        trivial
      · cases hop
    · exact hmap _ _ op hop
  | usbByte b => exact hmap _ _

theorem offeredPackets_cons (d : Dongle) (input : DongleInput) (rest : List DongleInput) :
    d.offeredPackets (input :: rest) =
      (d.offeredPacket input).toList ++ (machine.next d input).offeredPackets rest := by
  rw [offeredPackets, Machine.trace_cons, List.filterMap_cons, offeredPackets]
  cases d.offeredPacket input with
  | none => rfl
  | some packet => rfl

/-- **Run lemma.** What stands behind the old slots was offered in the run. -/
theorem leaves_run {d : Dongle} {m services : ℕ} (leaves : d.backoff.toQueue.Leaves m services)
    {inputs : List DongleInput} (steady : ∀ input ∈ inputs, input.Steady) :
    ∃ m' ≤ m,
      (machine.final d inputs).backoff.toQueue.Leaves m'
        (services - inputs.countP DongleInput.isService) ∧
      (TxQueue.packetsOf ((machine.final d inputs).backoff.toQueue.slots.drop m')).Sublist
        (TxQueue.packetsOf (d.backoff.toQueue.slots.drop m) ++ d.offeredPackets inputs) := by
  induction inputs generalizing d m services with
  | nil => exact ⟨m, le_rfl, leaves, List.sublist_append_left _ _⟩
  | cons input rest ih =>
    obtain ⟨hinput, hrest⟩ := List.forall_mem_cons.mp steady
    obtain ⟨m₁, hm₁, hleaves₁, hsub₁⟩ := leaves.run (d.steady_queueOps hinput)
    rw [← BackoffController.toQueue_final, ← backoff_next] at hleaves₁ hsub₁
    rw [scheduled_queueOps] at hsub₁
    rw [countP_isTick_queueOps] at hleaves₁
    obtain ⟨m₂, hm₂, hleaves₂, hsub₂⟩ := ih hleaves₁ hrest
    refine ⟨m₂, hm₂.trans hm₁, ?_, ?_⟩
    · rw [List.countP_cons, Nat.add_comm, ← Nat.sub_sub]
      exact hleaves₂
    · rw [offeredPackets_cons, ← List.append_assoc]
      exact hsub₂.trans (hsub₁.append_right _)

theorem remainingMs_final {d : Dongle} (short : d.backoff.toQueue.remainingMs.toNat ≤ 90)
    (inputs : List DongleInput) :
    (machine.final d inputs).backoff.toQueue.remainingMs.toNat ≤ 90 := by
  induction inputs generalizing d with
  | nil => exact short
  | cons input rest ih =>
    apply ih
    rw [backoff_next, BackoffController.toQueue_final]
    exact TxQueue.remainingMs_final short _

/-- After 46 services every packet that waits was queued since. -/
theorem packets_final_sublist {d : Dongle} {inputs : List DongleInput}
    (short : d.backoff.toQueue.remainingMs.toNat ≤ 90)
    (steady : ∀ input ∈ inputs, input.Steady)
    (services : 46 ≤ inputs.countP DongleInput.isService) :
    (machine.final d inputs).backoff.packets.Sublist (d.offeredPackets inputs) := by
  have hcapacity : d.backoff.toQueue.slots.length ≤ txQueueCapacity := by
    rw [BackoffController.length_slots]
    exact d.backoff.count_le
  obtain ⟨m, -, hleaves, hsub⟩ := leaves_run (TxQueue.leaves_of_short short hcapacity) steady
  -- No service is left for an old slot to wait for.
  have hnone : m = 0 := by
    by_contra hne
    obtain ⟨k, hk, -, hservices⟩ := hleaves.soon (Nat.pos_of_ne_zero hne)
    omega
  rw [hnone, List.drop_zero, List.drop_length] at hsub
  exact hsub

/-- In a queue that was empty, all that waits was queued since. -/
theorem packets_final_sublist_of_empty {d : Dongle} (empty : d.backoff.toQueue.slots = [])
    {inputs : List DongleInput} (steady : ∀ input ∈ inputs, input.Steady) :
    (machine.final d inputs).backoff.packets.Sublist (d.offeredPackets inputs) := by
  obtain ⟨m, hm, -, hsub⟩ := leaves_run (TxQueue.Leaves.of_zero d.backoff.toQueue 0) steady
  rw [Nat.le_zero.mp hm, List.drop_zero, List.drop_zero, empty] at hsub
  exact hsub

end Dongle

/-! ### The queue of a loop -/

namespace MainLoop

variable {D : Type} (tier : TelemetryTier) (postcard : Postcard)

theorem steady_slotInputs (s : MainLoop D) (around : Surroundings) (slot : RadioSlot) :
    ∀ input ∈ slotInputs tier postcard s around slot, input.Steady := by
  cases slot with
  | ieee802154Mesh =>
    show ∀ input ∈ meshInputs tier postcard s around, input.Steady
    intro input hinput
    rw [meshInputs] at hinput
    rcases List.mem_cons.mp hinput with rfl | hinput
    · rfl
    · rcases List.mem_append.mp hinput with hinput | hinput
      · rw [telemetryInputs] at hinput
        split at hinput
        · obtain rfl := List.mem_singleton.mp hinput
          trivial
        · cases hinput
      · rw [frameInputs_eq] at hinput
        obtain ⟨x, -, rfl⟩ := List.mem_map.mp hinput
        trivial
  | guardBand => exact List.forall_mem_nil _
  | bleCompanion => exact List.forall_mem_nil _

theorem steady_turnInputs (s : MainLoop D) (around : Surroundings) :
    ∀ input ∈ turnInputs tier postcard s around, input.Steady := by
  intro input hinput
  rw [turnInputs] at hinput
  rcases List.mem_append.mp hinput with hinput | hinput
  · rcases List.mem_append.mp hinput with hinput | hinput
    · rw [buttonInputs] at hinput
      split at hinput
      · obtain rfl := List.mem_singleton.mp hinput
        trivial
      · cases hinput
    · exact steady_slotInputs tier postcard _ around _ input hinput
  · obtain ⟨b, -, rfl⟩ := List.mem_map.mp hinput
    trivial

variable (crc32 : Checksum) [BlockDevice D]

theorem steady_runInputs (s : MainLoop D) (arounds : List Surroundings) :
    ∀ input ∈ runInputs crc32 tier postcard s arounds, input.Steady := by
  intro input hinput
  obtain ⟨x, -, hx⟩ := List.mem_flatMap.mp hinput
  exact steady_turnInputs tier postcard x.1 x.2 input hx

/-- The packets that the turns of a run offer to the queue of the radio. -/
def offeredBy (s : MainLoop D) (arounds : List Surroundings) : List MeshPacket :=
  s.dongle.offeredPackets (runInputs crc32 tier postcard s arounds)

/-- Of any 58 turns, 46 are the mesh's. -/
theorem meshTurns_add_fiftyEight (n : ℕ) :
    TdmArbiter.meshTurns n + 46 ≤ TdmArbiter.meshTurns (n + 58) := by
  rw [TdmArbiter.meshTurns_eq, TdmArbiter.meshTurns_eq]
  omega

/-- **No packet waits for long.** Whatever waits for the radio after a run was queued in its
last 58 turns, which are 290 milliseconds. -/
theorem waiting_is_recent (fullMac : Bytes 8) (storage : DynamicStorageManager D)
    (random : UInt32) (arounds : List Surroundings) :
    let before := arounds.take (arounds.length - 58)
    let recent := arounds.drop (arounds.length - 58)
    let s := (machine crc32 tier postcard).final (boot tier fullMac storage random) before
    ((machine crc32 tier postcard).final (boot tier fullMac storage random)
        arounds).backoff.packets.Sublist (offeredBy tier postcard crc32 s recent) := by
  intro before recent s
  have hrun : (machine crc32 tier postcard).final (boot tier fullMac storage random) arounds =
      (machine crc32 tier postcard).final s recent := by
    rw [← Machine.final_append, List.take_append_drop]
  have hsteady := steady_runInputs tier postcard crc32 s recent
  have hpackets : ((machine crc32 tier postcard).final s recent).backoff.packets =
      (Dongle.machine.final s.dongle
        (runInputs crc32 tier postcard s recent)).backoff.packets := by
    rw [← (run_traffic crc32 tier postcard s recent).2]
    rfl
  rw [hrun, hpackets]
  obtain ⟨-, hbefore⟩ := run_traffic crc32 tier postcard (boot tier fullMac storage random) before
  by_cases hlong : 58 ≤ arounds.length
  · have hpaced := (Paced.run crc32 postcard (paced_boot tier fullMac storage random) before).paced
    rw [Nat.zero_add] at hpaced
    have hturns : s.tdmArbiter = .afterTurns before.length := hpaced.turns
    have hservices :
        46 ≤ (runInputs crc32 tier postcard s recent).countP DongleInput.isService := by
      obtain ⟨telemetry, hkinds⟩ := byKind_runInputs tier postcard crc32 hturns recent
      have hlength : recent.length = 58 := by
        rw [List.length_drop]
        omega
      have hmesh := meshTurns_add_fiftyEight before.length
      rw [hkinds.services, hlength]
      omega
    have hboot :
        (boot tier fullMac storage random).dongle.backoff.toQueue.remainingMs.toNat ≤ 90 :=
      Nat.zero_le 90
    refine Dongle.packets_final_sublist ?_ hsteady hservices
    rw [hbefore]
    exact Dongle.remainingMs_final hboot _
  -- A shorter run began with an empty queue.
  · have hstart : s = boot tier fullMac storage random := by
      have hzero : arounds.length - 58 = 0 := by omega
      show (machine crc32 tier postcard).final _ (arounds.take (arounds.length - 58)) = _
      rw [hzero, List.take_zero, Machine.final_nil]
    refine Dongle.packets_final_sublist_of_empty ?_ hsteady
    rw [hstart]
    rfl

end MainLoop

end Gibberish.Firmware
