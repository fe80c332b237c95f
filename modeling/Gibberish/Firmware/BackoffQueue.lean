/-
# The transmit queue as a list

What the backoff controller is for: a queue of slots with a countdown for its head. A
slot holds a packet until it is cancelled, and leaves the queue from the front. The
ring of the controller refines this queue, operation by operation.
-/

import Gibberish.Firmware.Backoff
import Gibberish.Firmware.Dedup
import Gibberish.Foundation.RingQueue

set_option autoImplicit false

namespace Gibberish.Firmware

open Gibberish.Foundation Gibberish.Protocol

/-- The key a packet is cancelled by. -/
def HasKey (key : PacketKey) (packet : MeshPacket) : Prop :=
  packet.header.msgId = key.1 ∧ packet.header.chunkIdx = key.2

instance (key : PacketKey) (packet : MeshPacket) : Decidable (HasKey key packet) :=
  inferInstanceAs (Decidable (_ ∧ _))

/-- Traffic of users: everything but telemetry. -/
def IsUser (packet : MeshPacket) : Prop := packet.header.flags &&& flagTelemetry = 0

instance (packet : MeshPacket) : Decidable (IsUser packet) :=
  inferInstanceAs (Decidable (_ = _))

/-- Slots in queue order, and the countdown. -/
@[ext]
structure TxQueue where
  slots : List (Option MeshPacket)
  remainingMs : UInt16

namespace TxQueue

/-- The packets of some slots. -/
def packetsOf (slots : List (Option MeshPacket)) : List MeshPacket := slots.filterMap id

/-- Take slots up to the first that holds a packet. -/
def takeSlots : List (Option MeshPacket) → Option MeshPacket × List (Option MeshPacket)
  | [] => (none, [])
  | some packet :: rest => (some packet, rest)
  | none :: rest => takeSlots rest

/-- Empty the first slot whose packet has the key. -/
def cancelSlots (key : PacketKey) : List (Option MeshPacket) → List (Option MeshPacket)
  | [] => []
  | slot :: rest =>
    if slot.any (HasKey key) then none :: rest else slot :: cancelSlots key rest

/-- Append a packet; a full queue loses its first slot. -/
def push (q : TxQueue) (packet : MeshPacket) (jitterMs : UInt16) : TxQueue where
  slots := (if q.slots.length < txQueueCapacity then q.slots else q.slots.tail) ++ [some packet]
  remainingMs := if q.slots = [] then BackoffController.clampJitter jitterMs else q.remainingMs

/-- Append telemetry, unless a slot holds user traffic. -/
def pushTelemetry (q : TxQueue) (packet : MeshPacket) (jitterMs : UInt16) : TxQueue :=
  if ∃ packet ∈ packetsOf q.slots, IsUser packet then q else q.push packet jitterMs

/-- Count down; whether the head may go out. -/
def tick (q : TxQueue) (elapsedMs : UInt16) : Bool × TxQueue :=
  if q.slots = [] then (false, q)
  else if elapsedMs ≥ q.remainingMs then (true, { q with remainingMs := 0 })
  else (false, { q with remainingMs := q.remainingMs - elapsedMs })

/-- Take the first packet; with another slot behind, 20 ms are to pass. -/
def take (q : TxQueue) : Option MeshPacket × TxQueue :=
  ((takeSlots q.slots).1,
    { slots := (takeSlots q.slots).2
      remainingMs := if 1 < q.slots.length then 20 else q.remainingMs })

/-- Counting down moves no slot. -/
theorem slots_tick (q : TxQueue) (elapsedMs : UInt16) : (q.tick elapsedMs).2.slots = q.slots := by
  rw [tick]
  split
  · rfl
  · split
    · rfl
    · rfl

/-- Without the key nothing is cancelled. -/
theorem cancelSlots_of_forall {key : PacketKey} {slots : List (Option MeshPacket)}
    (h : ∀ slot ∈ slots, slot.any (HasKey key) = false) : cancelSlots key slots = slots := by
  induction slots with
  | nil => rfl
  | cons slot rest ih =>
    obtain ⟨hslot, hrest⟩ := List.forall_mem_cons.mp h
    rw [cancelSlots, hslot, if_neg Bool.false_ne_true, ih hrest]

/-- The first slot with the key is emptied. -/
theorem cancelSlots_eq_set {key : PacketKey} {slots : List (Option MeshPacket)} {i : ℕ}
    (hi : i < slots.length) (hkey : slots[i].any (HasKey key) = true)
    (first : ∀ j (hj : j < i), (slots.get ⟨j, hj.trans hi⟩).any (HasKey key) = false) :
    cancelSlots key slots = slots.set i none := by
  induction slots generalizing i with
  | nil => exact absurd hi (Nat.not_lt_zero i)
  | cons slot rest ih =>
    cases i with
    | zero => exact if_pos hkey
    | succ i =>
      have hslot : slot.any (HasKey key) = false := first 0 i.succ_pos
      rw [cancelSlots, hslot, if_neg Bool.false_ne_true, List.set_cons_succ]
      congr 1
      exact ih (Nat.succ_lt_succ_iff.mp hi) hkey fun j hj => first (j + 1) (Nat.succ_lt_succ hj)

/-- What is taken comes from the front. -/
theorem packetsOf_takeSlots (slots : List (Option MeshPacket)) :
    packetsOf slots = (takeSlots slots).1.toList ++ packetsOf (takeSlots slots).2 := by
  induction slots with
  | nil => rfl
  | cons slot rest ih =>
    cases slot with
    | none => exact ih
    | some packet => rfl

/-- Cancelling only removes packets. -/
theorem packetsOf_cancelSlots_sublist (key : PacketKey) (slots : List (Option MeshPacket)) :
    (packetsOf (cancelSlots key slots)).Sublist (packetsOf slots) := by
  induction slots with
  | nil => exact List.Sublist.refl _
  | cons slot rest ih =>
    rw [cancelSlots]
    split
    · exact (List.sublist_cons_self slot rest).filterMap id
    · cases slot with
      | none => exact ih
      | some packet => exact ih.cons_cons packet

/-- Only the new packet is added. -/
theorem packetsOf_push_sublist (q : TxQueue) (packet : MeshPacket) (jitterMs : UInt16) :
    (packetsOf (q.push packet jitterMs).slots).Sublist (packetsOf q.slots ++ [packet]) := by
  have hkept : (if q.slots.length < txQueueCapacity then q.slots else q.slots.tail).Sublist
      q.slots := by
    split
    · exact List.Sublist.refl _
    · exact List.tail_sublist _
  rw [push, packetsOf, List.filterMap_append]
  exact (hkept.filterMap id).append_right _

/-- Cancel the first packet with the key. -/
def cancel (q : TxQueue) (key : PacketKey) : TxQueue := { q with slots := cancelSlots key q.slots }

end TxQueue

namespace BackoffController

/-- The queue that a ring stands for. -/
def toQueue (b : BackoffController) : TxQueue :=
  ⟨Ring.window b.queue b.head b.count, b.backoffRemainingMs⟩

@[simp] theorem length_slots (b : BackoffController) : b.toQueue.slots.length = b.count :=
  Ring.length_window _ _ _

theorem slots_eq_nil_iff (b : BackoffController) : b.toQueue.slots = [] ↔ b.count = 0 := by
  rw [← List.length_eq_zero_iff, length_slots]

/-- The slots of a queue are those of the ring from its head on. -/
theorem getElem?_slots {b : BackoffController} {i : ℕ} (h : i < b.count) :
    b.toQueue.slots[i]? = some (b.queued i) := by
  have hlen : i < b.toQueue.slots.length := b.length_slots.symm ▸ h
  rw [List.getElem?_eq_getElem hlen]
  exact congrArg some (Ring.getElem_window _ _ hlen)

theorem head?_slots {b : BackoffController} (h : 0 < b.count) :
    b.toQueue.slots.head? = some (b.queued 0) := by
  rw [List.head?_eq_getElem?]
  exact getElem?_slots h

theorem tail_eq_slot (b : BackoffController) : b.tail = Ring.slot b.head b.count :=
  Fin.ext b.tail_eq

theorem slots_scheduleTx (b : BackoffController) (packet : MeshPacket) (jitterMs : UInt16) :
    (b.scheduleTx packet jitterMs).toQueue.slots =
      (if b.count < txQueueCapacity then b.toQueue.slots else b.toQueue.slots.tail) ++
        [some packet] := by
  by_cases hroom : b.count < txQueueCapacity
  · rw [scheduleTx, dif_pos hroom, if_pos hroom]
    exact Ring.window_push b.queue _ b.tail_eq_slot hroom
  -- In a full ring the tail is the head, whose slot is emptied and filled again.
  · have hfull : b.count = 7 + 1 := Nat.le_antisymm b.count_le (Nat.not_lt.mp hroom)
    have htail : b.tail = Ring.slot (b.head + 1) 7 := by
      rw [b.tail_eq_slot, hfull, ← Ring.slot_add_one]
    have hpop := Ring.window_pop b.queue b.head none (Nat.lt_succ_self 7)
    have hpush :=
      Ring.window_push (b.queue.set b.head none) (some packet) htail (Nat.lt_succ_self 7)
    rw [scheduleTx, dif_neg hroom, if_neg hroom]
    simp only [toQueue, hfull]
    rw [hpush, hpop]

/-- A packet is appended, behind all slots or all but the first. -/
theorem toQueue_scheduleTx (b : BackoffController) (packet : MeshPacket) (jitterMs : UInt16) :
    (b.scheduleTx packet jitterMs).toQueue = b.toQueue.push packet jitterMs := by
  apply TxQueue.ext
  · rw [slots_scheduleTx, TxQueue.push, length_slots]
  · simp only [TxQueue.push, slots_eq_nil_iff]
    rw [scheduleTx]
    split
    · simp only [toQueue, Nat.add_eq_right]
    · rename_i hfull
      have hne : b.count ≠ 0 := fun hempty => hfull (hempty ▸ by decide)
      simp only [toQueue, if_neg hne]

theorem mem_packetsOf_slots {b : BackoffController} {packet : MeshPacket} :
    packet ∈ TxQueue.packetsOf b.toQueue.slots ↔ ∃ i < b.count, b.queued i = some packet := by
  simp only [TxQueue.packetsOf, toQueue, Ring.window, List.filterMap_map, List.mem_filterMap,
    List.mem_range]
  rfl

/-- What telemetry looks for in the ring. -/
theorem any_isUser_iff (b : BackoffController) :
    ((List.range b.count).any fun i =>
      (b.queued i).any fun p => p.header.flags &&& flagTelemetry = 0) = true ↔
        ∃ packet ∈ TxQueue.packetsOf b.toQueue.slots, IsUser packet := by
  simp only [List.any_eq_true, List.mem_range, Option.any_eq_true, decide_eq_true_eq,
    mem_packetsOf_slots, IsUser]
  constructor
  · rintro ⟨i, hi, p, hp, hflags⟩
    exact ⟨p, ⟨i, hi, hp⟩, hflags⟩
  · rintro ⟨p, ⟨i, hi, hp⟩, hflags⟩
    exact ⟨i, hi, p, hp, hflags⟩

/-- Telemetry is appended unless user traffic is queued. -/
theorem toQueue_scheduleTelemetry (b : BackoffController) (packet : MeshPacket)
    (jitterMs : UInt16) :
    (b.scheduleTelemetry packet jitterMs).2.toQueue = b.toQueue.pushTelemetry packet jitterMs := by
  rw [scheduleTelemetry, TxQueue.pushTelemetry]
  by_cases h : ∃ packet ∈ TxQueue.packetsOf b.toQueue.slots, IsUser packet
  · rw [if_pos (b.any_isUser_iff.mpr h), if_pos h]
  · rw [if_neg (mt b.any_isUser_iff.mp h), if_neg h]
    exact b.toQueue_scheduleTx packet jitterMs

/-- Time passes alike. -/
theorem toQueue_tick (b : BackoffController) (elapsedMs : UInt16) :
    (b.tick elapsedMs).1 = (b.toQueue.tick elapsedMs).1 ∧
      (b.tick elapsedMs).2.toQueue = (b.toQueue.tick elapsedMs).2 := by
  rw [tick, TxQueue.tick]
  by_cases hempty : b.count = 0
  · rw [if_pos hempty, if_pos (b.slots_eq_nil_iff.mpr hempty)]
    exact ⟨rfl, rfl⟩
  · rw [if_neg hempty, if_neg (mt b.slots_eq_nil_iff.mp hempty)]
    by_cases hdue : elapsedMs ≥ b.backoffRemainingMs
    · rw [if_pos hdue, if_pos (show elapsedMs ≥ b.toQueue.remainingMs from hdue)]
      exact ⟨rfl, rfl⟩
    · rw [if_neg hdue, if_neg (show ¬ elapsedMs ≥ b.toQueue.remainingMs from hdue)]
      exact ⟨rfl, rfl⟩

/-- The first packet with the key is cancelled. -/
theorem toQueue_onOverhear (b : BackoffController) (msgId : UInt32) (chunkIdx : UInt8) :
    (b.onOverhear msgId chunkIdx).2.toQueue = b.toQueue.cancel (msgId, chunkIdx) := by
  have hslot : ∀ i (hi : i < b.toQueue.slots.length), b.toQueue.slots[i] = b.queued i := by
    intro i hi
    exact Ring.getElem_window _ _ hi
  rw [onOverhear, TxQueue.cancel]
  split
  · rename_i hnone
    rw [List.find?_eq_none] at hnone
    rw [TxQueue.cancelSlots_of_forall]
    intro slot hslot'
    obtain ⟨i, hi, rfl⟩ := List.mem_iff_getElem.mp hslot'
    have hmiss := hnone i (List.mem_range.mpr (b.length_slots ▸ hi))
    rw [hslot i hi]
    exact Bool.eq_false_iff.mpr hmiss
  · rename_i i hsome
    obtain ⟨hkey, hmem, hfirst⟩ := List.find?_range_eq_some.mp hsome
    have hi : i < b.toQueue.slots.length := b.length_slots.symm ▸ List.mem_range.mp hmem
    rw [TxQueue.cancelSlots_eq_set hi (by rw [hslot i hi]; exact hkey) ?_]
    · apply TxQueue.ext
      · exact Ring.window_set b.queue b.head none b.count_le
          ((List.mem_range.mp hmem).trans_le b.count_le)
      · rfl
    · intro j hj
      rw [List.get_eq_getElem, hslot j (hj.trans hi)]
      exact Bool.not_eq_true' _ ▸ hfirst j hj

/-- The head leaves the queue. -/
theorem toQueue_popHead (b : BackoffController) (h : 0 < b.count) :
    b.toQueue.slots = (b.popHead h).1 :: (b.popHead h).2.toQueue.slots := by
  have hcount : b.count - 1 < txQueueCapacity := (Nat.sub_lt h Nat.one_pos).trans_le b.count_le
  have hpop := Ring.window_pop b.queue b.head none hcount
  have hsucc := Ring.window_succ b.queue b.head (b.count - 1)
  rw [Nat.sub_add_cancel h] at hpop hsucc
  have hslots : (b.popHead h).2.toQueue.slots = b.toQueue.slots.tail := hpop
  rw [hslots]
  simp only [toQueue, hsucc, List.tail_cons]
  rfl

/-- Popping a ring's slots until one holds a packet takes slots of the queue. -/
theorem toQueue_takeUpTo (b : BackoffController) (n : ℕ) (hn : b.count = n) :
    (takeUpTo n b).1 = (TxQueue.takeSlots b.toQueue.slots).1 ∧
      (takeUpTo n b).2.toQueue.slots = (TxQueue.takeSlots b.toQueue.slots).2 ∧
      (takeUpTo n b).2.backoffRemainingMs = if 1 < n then 20 else b.backoffRemainingMs := by
  induction n generalizing b with
  | zero =>
    rw [(b.slots_eq_nil_iff.mpr hn)]
    exact ⟨rfl, b.slots_eq_nil_iff.mpr hn, rfl⟩
  | succ n ih =>
    have hpos : 0 < b.count := hn ▸ n.succ_pos
    have hslots := b.toQueue_popHead hpos
    have hcount : (b.popHead hpos).2.count = n := by
      show b.count - 1 = n
      omega
    have hremaining : (b.popHead hpos).2.backoffRemainingMs =
        if 0 < n then 20 else b.backoffRemainingMs := by
      show (if b.count - 1 > 0 then _ else _) = _
      rw [hn, Nat.add_sub_cancel]
    rw [takeUpTo, dif_pos hpos, hslots]
    generalize b.popHead hpos = popped at hcount hremaining ⊢
    obtain ⟨slot, b'⟩ := popped
    cases slot with
    | some packet =>
      refine ⟨rfl, rfl, hremaining.trans ?_⟩
      simp only [Nat.lt_add_left_iff_pos]
    | none =>
      obtain ⟨hpacket, hrest, hms⟩ := ih b' hcount
      refine ⟨hpacket, hrest, hms.trans ?_⟩
      -- The countdown was set when the first slot left, if another was behind it.
      rw [hremaining]
      simp only [Nat.lt_add_left_iff_pos]
      by_cases hn0 : 0 < n
      · rw [if_pos hn0, ite_self]
      · rw [if_neg hn0, if_neg (by omega)]

/-- Slots are taken up to the first packet. -/
theorem toQueue_takePending (b : BackoffController) :
    b.takePending.1 = b.toQueue.take.1 ∧ b.takePending.2.toQueue = b.toQueue.take.2 := by
  obtain ⟨hpacket, hslots, hms⟩ := b.toQueue_takeUpTo b.count rfl
  refine ⟨hpacket, TxQueue.ext hslots ?_⟩
  rw [TxQueue.take, length_slots]
  exact hms

/-! ### The packets that wait -/

/-- The packets in the queue, in order. -/
def packets (b : BackoffController) : List MeshPacket := TxQueue.packetsOf b.toQueue.slots

theorem packets_scheduleTx_sublist (b : BackoffController) (packet : MeshPacket)
    (jitterMs : UInt16) :
    (b.scheduleTx packet jitterMs).packets.Sublist (b.packets ++ [packet]) := by
  rw [packets, toQueue_scheduleTx]
  exact b.toQueue.packetsOf_push_sublist packet jitterMs

theorem packets_scheduleTelemetry_sublist (b : BackoffController) (packet : MeshPacket)
    (jitterMs : UInt16) :
    (b.scheduleTelemetry packet jitterMs).2.packets.Sublist (b.packets ++ [packet]) := by
  rw [packets, toQueue_scheduleTelemetry, TxQueue.pushTelemetry]
  split
  · exact List.sublist_append_left _ _
  · exact b.toQueue.packetsOf_push_sublist packet jitterMs

theorem packets_tick (b : BackoffController) (elapsedMs : UInt16) :
    (b.tick elapsedMs).2.packets = b.packets := by
  rw [packets, (b.toQueue_tick elapsedMs).2, TxQueue.slots_tick]
  rfl

theorem packets_takePending (b : BackoffController) :
    b.packets = b.takePending.1.toList ++ b.takePending.2.packets := by
  rw [packets, packets, b.toQueue_takePending.1, b.toQueue_takePending.2]
  exact TxQueue.packetsOf_takeSlots _

theorem packets_onOverhear_sublist (b : BackoffController) (msgId : UInt32) (chunkIdx : UInt8) :
    (b.onOverhear msgId chunkIdx).2.packets.Sublist b.packets := by
  rw [packets, toQueue_onOverhear]
  exact TxQueue.packetsOf_cancelSlots_sublist _ _

end BackoffController

end Gibberish.Firmware
