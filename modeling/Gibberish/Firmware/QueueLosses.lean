/-
# What the transmit queue loses

The transmit queue under any order of calls. A scheduled packet is returned, cancelled,
evicted or still waits, and packets are returned in the order they were scheduled. A
cancelled slot counts towards the eight until it reaches the head, so a full ring can
hold fewer than eight packets, and then overflow evicts a packet although another slot
is free.
-/

import Gibberish.Firmware.BackoffQueue
import Gibberish.Firmware.MainLoop
import Gibberish.Foundation.Machine

set_option autoImplicit false

namespace Gibberish.Firmware

open Gibberish.Foundation Gibberish.Protocol

/-! ### Calls and their events -/

/-- The calls a controller takes, in any order. -/
inductive QueueCall where
  | scheduleTx (packet : MeshPacket) (jitterMs : UInt16)
  | scheduleTelemetry (packet : MeshPacket) (jitterMs : UInt16)
  | tick (elapsedMs : UInt16)
  | onOverhear (msgId : UInt32) (chunkIdx : UInt8)
  | takePending

/-- What happens to a packet in a call, and what taking returns. -/
inductive PacketEvent where
  | scheduled (packet : MeshPacket)
  | cancelled (packet : MeshPacket)
  | evicted (packet : MeshPacket)
  | returned (packet : Option MeshPacket)
  deriving DecidableEq

namespace PacketEvent

def packetScheduled : PacketEvent → Option MeshPacket
  | scheduled packet => some packet
  | _ => none

def packetCancelled : PacketEvent → Option MeshPacket
  | cancelled packet => some packet
  | _ => none

def packetEvicted : PacketEvent → Option MeshPacket
  | evicted packet => some packet
  | _ => none

def packetReturned : PacketEvent → Option MeshPacket
  | returned packet => packet
  | _ => none

end PacketEvent

namespace BackoffController

/-- The packet in the head slot of a full ring, which the next packet replaces. -/
def replaced (b : BackoffController) : Option MeshPacket :=
  if b.count < txQueueCapacity then none else b.queued 0

/-- The first queued packet with a key. -/
def overheard (b : BackoffController) (key : PacketKey) : Option MeshPacket :=
  b.packets.find? (HasKey key)

def call (b : BackoffController) : QueueCall → BackoffController × List PacketEvent
  | .scheduleTx packet jitterMs =>
    (b.scheduleTx packet jitterMs, b.replaced.toList.map .evicted ++ [.scheduled packet])
  | .scheduleTelemetry packet jitterMs =>
    match b.scheduleTelemetry packet jitterMs with
    | (true, b') => (b', b.replaced.toList.map .evicted ++ [.scheduled packet])
    | (false, b') => (b', [])
  | .tick elapsedMs => ((b.tick elapsedMs).2, [])
  | .onOverhear msgId chunkIdx =>
    ((b.onOverhear msgId chunkIdx).2, (b.overheard (msgId, chunkIdx)).toList.map .cancelled)
  | .takePending => (b.takePending.2, [.returned b.takePending.1])

/-- The controller as a machine that tells what happens to its packets. -/
def callMachine : Machine BackoffController QueueCall PacketEvent := ⟨call⟩

/-- Whether the call puts a packet into the queue. -/
def Queues (b : BackoffController) : QueueCall → Prop
  | .scheduleTx _ _ => True
  | .scheduleTelemetry packet jitterMs => (b.scheduleTelemetry packet jitterMs).1 = true
  | _ => False

instance (b : BackoffController) : DecidablePred b.Queues
  | .scheduleTx _ _ => isTrue trivial
  | .scheduleTelemetry _ _ => inferInstanceAs (Decidable (_ = _))
  | .tick _ => isFalse id
  | .onOverhear _ _ => isFalse id
  | .takePending => isFalse id

/-! ### The property -/

/-- A packet is evicted when it is the oldest of eight. -/
def EvictsOldestOfEight (b : BackoffController) (c : QueueCall) : Prop :=
  ∀ packet ∈ (callMachine.emit b c).filterMap PacketEvent.packetEvicted,
    b.packets.head? = some packet ∧ b.packets.length = txQueueCapacity

instance (b : BackoffController) (c : QueueCall) : Decidable (b.EvictsOldestOfEight c) :=
  inferInstanceAs (Decidable (∀ packet ∈ _, _))

/-- Nothing is returned only when nothing waits. -/
def ReturnsWhatWaits (b : BackoffController) (c : QueueCall) : Prop :=
  PacketEvent.returned none ∈ callMachine.emit b c → b.packets = []

/-- How some events turn the packets that wait into others: those that waited or were
scheduled were returned in that order, still wait, or were cancelled or evicted. -/
structure Moves (before : List MeshPacket) (events : List PacketEvent)
    (after : List MeshPacket) : Prop where
  inOrder : (events.filterMap PacketEvent.packetReturned ++ after).Sublist
    (before ++ events.filterMap PacketEvent.packetScheduled)
  complete : (before ++ events.filterMap PacketEvent.packetScheduled).Perm
    (events.filterMap PacketEvent.packetReturned ++ after ++
      events.filterMap PacketEvent.packetCancelled ++ events.filterMap PacketEvent.packetEvicted)

/-- Packets come out in the order they went in, less the cancelled and the evicted ones;
only the oldest of eight packets is evicted, and a queue with a packet returns one. -/
structure LosesOnlyWhenItMust (calls : List QueueCall) : Prop where
  moves : Moves [] (callMachine.outputs new calls) (callMachine.final new calls).packets
  evicts : callMachine.Guarded EvictsOldestOfEight new calls
  returns : callMachine.Guarded ReturnsWhatWaits new calls

/-- A ring that a packet is queued in has a free slot, an empty slot at its head, or a
packet in every slot. -/
def NoGapBehindHead (b : BackoffController) (c : QueueCall) : Prop :=
  b.Queues c → b.count = txQueueCapacity → b.queued 0 = none ∨ none ∉ b.toQueue.slots

end BackoffController

/-! ### Packets and slots -/

namespace TxQueue

/-- Slots are as many as packets when none is empty. -/
theorem length_packetsOf_eq_iff (slots : List (Option MeshPacket)) :
    (packetsOf slots).length = slots.length ↔ none ∉ slots := by
  rw [packetsOf, List.filterMap_length_eq_length]
  constructor
  · intro h hnone
    cases h none hnone
  · intro h slot hslot
    cases slot with
    | none => exact absurd hslot h
    | some packet => rfl

/-- Cancelling erases the first packet with the key. -/
theorem packetsOf_cancelSlots (key : PacketKey) (slots : List (Option MeshPacket)) :
    packetsOf (cancelSlots key slots) = (packetsOf slots).eraseP (HasKey key) := by
  induction slots with
  | nil => rfl
  | cons slot rest ih =>
    rw [cancelSlots]
    cases slot with
    | none => exact ih
    | some packet =>
      have hcons : packetsOf (some packet :: rest) = packet :: packetsOf rest := rfl
      by_cases hkey : HasKey key packet
      · have hslot : (some packet).any (HasKey key) = true := decide_eq_true hkey
        rw [if_pos hslot, hcons]
        rw [List.eraseP_cons_of_pos (by simpa using hkey)]
        rfl
      · have hslot : ¬ (some packet).any (HasKey key) = true := by simpa using hkey
        rw [if_neg hslot, hcons, List.eraseP_cons_of_neg (by simpa using hkey), ← ih]
        rfl

/-- Nothing is taken when no slot holds a packet. -/
theorem packetsOf_of_takeSlots_eq_none {slots : List (Option MeshPacket)}
    (h : (takeSlots slots).1 = none) : packetsOf slots = [] := by
  induction slots with
  | nil => rfl
  | cons slot rest ih =>
    cases slot with
    | none => exact ih h
    | some packet => cases h

/-- The first packet with a property, and the list without it. -/
theorem perm_find?_eraseP {α : Type*} (p : α → Bool) (l : List α) :
    l.Perm ((l.find? p).toList ++ l.eraseP p) := by
  induction l with
  | nil => exact List.Perm.refl _
  | cons a l ih =>
    by_cases ha : p a = true
    · rw [List.find?_cons_of_pos ha, List.eraseP_cons_of_pos ha]
      exact List.Perm.refl _
    · rw [List.find?_cons_of_neg ha, List.eraseP_cons_of_neg ha]
      exact (ih.cons a).trans List.perm_middle.symm

end TxQueue

namespace BackoffController

/-- The packets that a full queue keeps when another is scheduled. -/
def kept (b : BackoffController) : List MeshPacket :=
  TxQueue.packetsOf (if b.count < txQueueCapacity then b.toQueue.slots else b.toQueue.slots.tail)

/-- The replaced packet is the oldest. -/
theorem packets_eq_replaced_append (b : BackoffController) :
    b.packets = b.replaced.toList ++ b.kept := by
  rw [replaced, kept]
  split
  · rfl
  · rename_i hfull
    -- A full ring has a head slot, which may have been cancelled.
    have hpos : 0 < b.count := (Nat.zero_lt_succ 7).trans_le (Nat.not_lt.mp hfull)
    rw [packets, ← List.cons_head?_tail (head?_slots hpos)]
    cases b.queued 0 with
    | none => rfl
    | some packet => rfl

theorem packets_scheduleTx (b : BackoffController) (packet : MeshPacket) (jitterMs : UInt16) :
    (b.scheduleTx packet jitterMs).packets = b.kept ++ [packet] := by
  rw [packets, slots_scheduleTx, TxQueue.packetsOf, List.filterMap_append]
  rfl

theorem packets_onOverhear (b : BackoffController) (msgId : UInt32) (chunkIdx : UInt8) :
    (b.onOverhear msgId chunkIdx).2.packets = b.packets.eraseP (HasKey (msgId, chunkIdx)) := by
  rw [packets, toQueue_onOverhear]
  exact TxQueue.packetsOf_cancelSlots _ _

/-! ### The books of a run -/

namespace Moves

theorem refl (packets : List MeshPacket) : Moves packets [] packets := by
  constructor
  · simp
  · simp

theorem trans {before between after : List MeshPacket} {events events' : List PacketEvent}
    (h : Moves before events between) (h' : Moves between events' after) :
    Moves before (events ++ events') after := by
  constructor
  · simp only [List.filterMap_append, List.append_assoc]
    -- What the first events returned stands before all that comes later.
    have hlater := h'.inOrder.append_left (events.filterMap PacketEvent.packetReturned)
    have hearlier := h.inOrder.append_right (events'.filterMap PacketEvent.packetScheduled)
    rw [← List.append_assoc before]
    exact hlater.trans (by simpa only [List.append_assoc] using hearlier)
  · apply List.perm_iff_count.mpr
    intro packet
    have hearlier := h.complete.count_eq packet
    have hlater := h'.complete.count_eq packet
    simp only [List.filterMap_append, List.count_append] at hearlier hlater ⊢
    omega

/-- A scheduled packet goes behind those that are kept. -/
theorem schedule (replaced : Option MeshPacket) (kept : List MeshPacket) (packet : MeshPacket) :
    Moves (replaced.toList ++ kept) (replaced.toList.map .evicted ++ [.scheduled packet])
      (kept ++ [packet]) := by
  cases replaced with
  | none =>
    constructor
    · exact List.Sublist.refl _
    · show (kept ++ [packet]).Perm (kept ++ [packet] ++ [] ++ [])
      simp
  -- The evicted packet leaves the order, and is accounted for among the evicted.
  | some old =>
    constructor
    · exact List.sublist_cons_self _ _
    · show (old :: kept ++ [packet]).Perm (kept ++ [packet] ++ [] ++ [old])
      rw [List.append_nil]
      exact (List.perm_append_singleton old _).symm

theorem cancel (packets : List MeshPacket) (key : PacketKey) :
    Moves packets ((packets.find? (HasKey key)).toList.map .cancelled)
      (packets.eraseP (HasKey key)) := by
  have hperm := TxQueue.perm_find?_eraseP (HasKey key · : MeshPacket → Bool) packets
  have hsublist := List.eraseP_sublist (p := (HasKey key · : MeshPacket → Bool)) (l := packets)
  cases hfound : packets.find? (HasKey key) with
  | none =>
    rw [hfound] at hperm
    constructor
    · simpa using hsublist
    · simpa using hperm
  | some packet =>
    rw [hfound] at hperm
    constructor
    · show (packets.eraseP (HasKey key)).Sublist (packets ++ [])
      rwa [List.append_nil]
    · show (packets ++ []).Perm (packets.eraseP (HasKey key) ++ [packet] ++ [])
      rw [List.append_nil, List.append_nil]
      exact hperm.trans (List.perm_append_singleton packet _).symm

theorem take (taken : Option MeshPacket) (rest : List MeshPacket) :
    Moves (taken.toList ++ rest) [.returned taken] rest := by
  cases taken with
  | none =>
    constructor
    · show rest.Sublist (rest ++ [])
      rw [List.append_nil]
    · show (rest ++ []).Perm (rest ++ [] ++ [])
      simp
  | some packet =>
    constructor
    · show (packet :: rest).Sublist (packet :: rest ++ [])
      rw [List.append_nil]
    · show (packet :: rest ++ []).Perm (packet :: rest ++ [] ++ [])
      simp

end Moves

/-- Telemetry is scheduled like any packet, or nothing happens. -/
theorem call_scheduleTelemetry (b : BackoffController) (packet : MeshPacket) (jitterMs : UInt16) :
    b.call (.scheduleTelemetry packet jitterMs) =
      if b.Queues (.scheduleTelemetry packet jitterMs) then b.call (.scheduleTx packet jitterMs)
      else (b, []) := by
  have hcases : b.scheduleTelemetry packet jitterMs = (false, b) ∨
      b.scheduleTelemetry packet jitterMs = (true, b.scheduleTx packet jitterMs) := by
    rw [scheduleTelemetry]
    split
    · exact Or.inl rfl
    · exact Or.inr rfl
  -- Telemetry that is refused is no event.
  rcases hcases with hrefused | hqueued
  · have hnot : ¬ b.Queues (.scheduleTelemetry packet jitterMs) := by
      show ¬ (b.scheduleTelemetry packet jitterMs).1 = true
      rw [hrefused]
      exact Bool.false_ne_true
    rw [if_neg hnot, call, hrefused]
  · have hqueues : b.Queues (.scheduleTelemetry packet jitterMs) := congrArg Prod.fst hqueued
    rw [if_pos hqueues]
    simp only [call, hqueued]

theorem moves_scheduleTx (b : BackoffController) (packet : MeshPacket) (jitterMs : UInt16) :
    Moves b.packets (b.call (.scheduleTx packet jitterMs)).2
      (b.call (.scheduleTx packet jitterMs)).1.packets := by
  rw [call, packets_scheduleTx, packets_eq_replaced_append]
  exact Moves.schedule _ _ _

/-- **Step lemma.** A call loses no packet but by its events. -/
theorem moves_call (b : BackoffController) (c : QueueCall) :
    Moves b.packets (callMachine.emit b c) (callMachine.next b c).packets := by
  show Moves b.packets (b.call c).2 (b.call c).1.packets
  cases c with
  | scheduleTx packet jitterMs => exact b.moves_scheduleTx packet jitterMs
  | scheduleTelemetry packet jitterMs =>
    rw [call_scheduleTelemetry]
    split
    · exact b.moves_scheduleTx packet jitterMs
    · exact Moves.refl _
  | tick elapsedMs =>
    rw [call, packets_tick]
    exact Moves.refl _
  | onOverhear msgId chunkIdx =>
    rw [call, packets_onOverhear]
    exact Moves.cancel _ _
  | takePending =>
    rw [call, packets_takePending]
    exact Moves.take _ _

/-- **Run lemma.** Nor does a run. -/
theorem moves_run (b : BackoffController) (calls : List QueueCall) :
    Moves b.packets (callMachine.outputs b calls) (callMachine.final b calls).packets := by
  induction calls generalizing b with
  | nil => exact Moves.refl _
  | cons c rest ih =>
    rw [Machine.outputs_cons, Machine.final_cons]
    exact (b.moves_call c).trans (ih _)

/-! ### Evictions and empty returns -/

/-- Only a call that queues a packet in a full ring evicts one. -/
theorem mem_evicted_iff {b : BackoffController} {c : QueueCall} {packet : MeshPacket} :
    packet ∈ (callMachine.emit b c).filterMap PacketEvent.packetEvicted ↔
      b.Queues c ∧ b.replaced = some packet := by
  show packet ∈ (b.call c).2.filterMap PacketEvent.packetEvicted ↔ _
  have hschedule : ∀ packet' jitterMs, packet ∈
      (b.call (.scheduleTx packet' jitterMs)).2.filterMap PacketEvent.packetEvicted ↔
        b.replaced = some packet := by
    intro packet' jitterMs
    rw [call]
    cases b.replaced with
    | none => simp [PacketEvent.packetEvicted]
    | some old => simp [PacketEvent.packetEvicted, eq_comm]
  cases c with
  | scheduleTx packet' jitterMs => rw [hschedule, Queues, true_and]
  | scheduleTelemetry packet' jitterMs =>
    rw [call_scheduleTelemetry]
    split
    · rename_i hqueues
      rw [hschedule, and_iff_right hqueues]
    · rename_i hrefused
      simp [hrefused]
  | tick elapsedMs => simp [call, Queues]
  | onOverhear msgId chunkIdx =>
    rw [call]
    cases b.overheard (msgId, chunkIdx) with
    | none => simp [Queues]
    | some old => simp [Queues, PacketEvent.packetEvicted]
  | takePending => simp [call, Queues, PacketEvent.packetEvicted]

theorem replaced_eq_some_iff {b : BackoffController} {packet : MeshPacket} :
    b.replaced = some packet ↔ b.count = txQueueCapacity ∧ b.queued 0 = some packet := by
  rw [replaced]
  split
  · rename_i hroom
    simp [hroom.ne]
  · rename_i hfull
    rw [and_iff_right (Nat.le_antisymm b.count_le (Nat.not_lt.mp hfull))]

/-- A call evicts the oldest of eight packets, or none, iff it sees no gap. -/
theorem evictsOldestOfEight_iff (b : BackoffController) (c : QueueCall) :
    b.EvictsOldestOfEight c ↔ b.NoGapBehindHead c := by
  have hlength : b.count = txQueueCapacity →
      (b.packets.length = txQueueCapacity ↔ none ∉ b.toQueue.slots) := by
    intro hfull
    rw [← TxQueue.length_packetsOf_eq_iff, length_slots, hfull]
    rfl
  constructor
  · intro h hqueues hfull
    cases hhead : b.queued 0 with
    | none => exact Or.inl rfl
    | some packet =>
      have hevicted := mem_evicted_iff.mpr ⟨hqueues, replaced_eq_some_iff.mpr ⟨hfull, hhead⟩⟩
      exact Or.inr ((hlength hfull).mp (h packet hevicted).2)
  · intro h packet hevicted
    obtain ⟨hqueues, hreplaced⟩ := mem_evicted_iff.mp hevicted
    obtain ⟨hfull, hhead⟩ := replaced_eq_some_iff.mp hreplaced
    constructor
    · rw [packets_eq_replaced_append, hreplaced]
      rfl
    · rcases h hqueues hfull with hgone | hnone
      · rw [hhead] at hgone
        cases hgone
      · exact (hlength hfull).mpr hnone

/-- Taking skips cancelled slots, so it returns a packet if there is one. -/
theorem returnsWhatWaits (b : BackoffController) (c : QueueCall) : b.ReturnsWhatWaits c := by
  intro hreturned
  have hevent : PacketEvent.returned none ∈ (b.call c).2 := hreturned
  cases c with
  | takePending =>
    rw [call, List.mem_singleton, PacketEvent.returned.injEq, (b.toQueue_takePending).1] at hevent
    exact TxQueue.packetsOf_of_takeSlots_eq_none hevent.symm
  | scheduleTx packet jitterMs => simp [call] at hevent
  | scheduleTelemetry packet jitterMs =>
    rw [call_scheduleTelemetry] at hevent
    split at hevent
    · simp [call] at hevent
    · cases hevent
  | tick elapsedMs => cases hevent
  | onOverhear msgId chunkIdx => simp [call] at hevent

/-- **Losses.** The queue loses packets only when it must exactly in the runs in which
no packet enters a full ring that has a packet at its head and a cancelled slot behind. -/
theorem losesOnlyWhenItMust_iff (calls : List QueueCall) :
    LosesOnlyWhenItMust calls ↔ callMachine.Guarded NoGapBehindHead new calls := by
  have hevicts : callMachine.Guarded EvictsOldestOfEight new calls ↔
      callMachine.Guarded NoGapBehindHead new calls :=
    forall_congr' fun x => forall_congr' fun _ => evictsOldestOfEight_iff x.1 x.2
  rw [← hevicts]
  constructor
  · exact LosesOnlyWhenItMust.evicts
  · exact fun h => ⟨moves_run new calls, h, fun x _ => returnsWhatWaits x.1 x.2⟩

/-! ### A run that loses a packet -/

/-- Eight packets, the second of which is overheard, and a ninth. -/
def gapBehindHead : List QueueCall :=
  (List.range 8).map (fun i => .scheduleTx (Dongle.beaconPacket (UInt32.ofNat i)) 15) ++
    [.onOverhear 1 0, .scheduleTx (Dongle.beaconPacket 8) 15]

/-- The first of seven packets is evicted although a slot is free. -/
theorem not_losesOnlyWhenItMust_gapBehindHead : ¬ LosesOnlyWhenItMust gapBehindHead := by
  intro h
  exact absurd h.evicts (by decide +kernel)

end BackoffController

end Gibberish.Firmware
