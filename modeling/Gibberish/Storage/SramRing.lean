/-
# The live packet ring

The last 256 packets a dongle admitted, oldest first, until they are written to the
card. A push into a full ring evicts the oldest packet.
-/

import Gibberish.Foundation.RingQueue
import Gibberish.Protocol.Frame

set_option autoImplicit false

namespace Gibberish.Storage

open Gibberish.Foundation Gibberish.Protocol

abbrev sramRingCapacity : ℕ := 256

/-- The ring. The queue starts at the tail, the next packet goes to the head, and
every slot in between holds a packet. -/
structure SramRingBuffer where
  buffer : Vector (Option MeshPacket) sramRingCapacity
  head : Fin sramRingCapacity
  tail : Fin sramRingCapacity
  count : ℕ
  droppedOverflow : UInt32
  count_le : count ≤ sramRingCapacity
  head_eq : head = Ring.slot tail count
  live : ∀ packet ∈ Ring.window buffer tail count, packet.isSome

namespace SramRingBuffer

def new : SramRingBuffer where
  buffer := .replicate sramRingCapacity none
  head := 0
  tail := 0
  count := 0
  droppedOverflow := 0
  count_le := Nat.zero_le _
  head_eq := rfl
  live := by simp

def len (ring : SramRingBuffer) : ℕ := ring.count

def droppedCount (ring : SramRingBuffer) : UInt32 := ring.droppedOverflow

def isEmpty (ring : SramRingBuffer) : Bool := ring.count = 0

def isFull (ring : SramRingBuffer) : Bool := ring.count = sramRingCapacity

/-- The packets in the ring, oldest first. -/
def packets (ring : SramRingBuffer) : List MeshPacket :=
  (Ring.window ring.buffer ring.tail ring.count).filterMap id

/-- Empty the slot at the tail, with so many packets evicted so far. -/
def dropTail (ring : SramRingBuffer) (droppedOverflow : UInt32) (h : 0 < ring.count) :
    SramRingBuffer :=
  have hcount : ring.count - 1 < sramRingCapacity :=
    (Nat.sub_lt h Nat.one_pos).trans_le ring.count_le
  { buffer := ring.buffer.set ring.tail none
    head := ring.head
    tail := ring.tail + 1
    count := ring.count - 1
    droppedOverflow := droppedOverflow
    count_le := hcount.le
    head_eq := by rw [ring.head_eq, Ring.slot_add_one, Nat.sub_add_cancel h]
    live := by
      rw [Ring.window_pop _ _ _ hcount, Nat.sub_add_cancel h]
      exact fun packet hpacket => ring.live packet (List.mem_of_mem_tail hpacket) }

/-- Fill the slot at the head. -/
def fillHead (ring : SramRingBuffer) (packet : MeshPacket) (h : ring.count < sramRingCapacity) :
    SramRingBuffer where
  buffer := ring.buffer.set ring.head (some packet)
  head := ring.head + 1
  tail := ring.tail
  count := ring.count + 1
  droppedOverflow := ring.droppedOverflow
  count_le := h
  head_eq := by rw [ring.head_eq, Ring.slot_succ]
  live := by
    rw [Ring.window_push _ _ ring.head_eq h]
    intro slot hslot
    rcases List.mem_append.mp hslot with hslot | hslot
    · exact ring.live slot hslot
    · rw [List.mem_singleton.mp hslot, Option.isSome_some]

/-- Add a packet; a full ring evicts its oldest packet first. -/
def push (ring : SramRingBuffer) (packet : MeshPacket) : Option MeshPacket × SramRingBuffer :=
  if h : ring.count < sramRingCapacity then (none, ring.fillHead packet h)
  else
    have hpos : 0 < ring.count := Nat.zero_lt_of_lt (Nat.succ_le_of_lt (Nat.not_lt.mp h))
    let evicted := ring.buffer[ring.tail]
    -- `saturating_add(1)`.
    let dropped :=
      if ring.droppedOverflow = 0xFFFFFFFF then 0xFFFFFFFF else ring.droppedOverflow + 1
    have hroom : (ring.dropTail dropped hpos).count < sramRingCapacity :=
      (Nat.sub_lt hpos Nat.one_pos).trans_le ring.count_le
    (evicted, (ring.dropTail dropped hpos).fillHead packet hroom)

/-- Take the oldest packet. -/
def pop (ring : SramRingBuffer) : Option MeshPacket × SramRingBuffer :=
  if h : 0 < ring.count then (ring.buffer[ring.tail], ring.dropTail ring.droppedOverflow h) else (none, ring)

/-- The oldest packet, left in place. -/
def peek (ring : SramRingBuffer) : Option MeshPacket :=
  if ring.isEmpty then none else ring.buffer[ring.tail]

/-- Empty all slots. How many packets were evicted is kept. -/
def clear (ring : SramRingBuffer) : SramRingBuffer where
  buffer := ring.buffer.map fun _ => none
  head := 0
  tail := 0
  count := 0
  droppedOverflow := ring.droppedOverflow
  count_le := Nat.zero_le _
  head_eq := rfl
  live := by simp

/-! ### The ring as a queue -/

variable (ring : SramRingBuffer)

/-- All slots of the window hold packets. -/
theorem window_eq_map_packets :
    Ring.window ring.buffer ring.tail ring.count = ring.packets.map some := by
  have hall : ∀ slots : List (Option MeshPacket), (∀ slot ∈ slots, slot.isSome) →
      slots = (slots.filterMap id).map some := by
    intro slots hlive
    induction slots with
    | nil => rfl
    | cons slot rest ih =>
      obtain ⟨packet, rfl⟩ := Option.isSome_iff_exists.mp (hlive slot List.mem_cons_self)
      have hrest := ih fun slot hslot => hlive slot (List.mem_cons_of_mem _ hslot)
      rw [List.filterMap_cons_some (rfl : id (some packet) = some packet), List.map_cons, ← hrest]
  exact hall _ ring.live

@[simp] theorem length_packets : ring.packets.length = ring.count := by
  have h := congrArg List.length ring.window_eq_map_packets
  rw [Ring.length_window, List.length_map] at h
  exact h.symm

@[simp] theorem packets_new : new.packets = [] := rfl

/-- The slot at the tail of a nonempty ring holds its first packet. -/
theorem getElem_tail (h : 0 < ring.count) : ring.buffer[ring.tail] = ring.packets.head? := by
  have hwindow := ring.window_eq_map_packets
  rw [← Nat.sub_add_cancel h, Ring.window_succ] at hwindow
  cases hpackets : ring.packets with
  | nil =>
    rw [hpackets] at hwindow
    cases hwindow
  | cons packet rest =>
    rw [hpackets, List.map_cons, List.cons.injEq] at hwindow
    exact hwindow.1

theorem packets_dropTail (dropped : UInt32) (h : 0 < ring.count) :
    (ring.dropTail dropped h).packets = ring.packets.tail := by
  have hcount : ring.count - 1 < sramRingCapacity :=
    (Nat.sub_lt h Nat.one_pos).trans_le ring.count_le
  show (Ring.window (ring.buffer.set ring.tail none) (ring.tail + 1)
    (ring.count - 1)).filterMap id = _
  rw [Ring.window_pop _ _ _ hcount, Nat.sub_add_cancel h, window_eq_map_packets, ← List.map_tail,
    List.filterMap_map, Function.id_comp, List.filterMap_some]

theorem packets_fillHead (packet : MeshPacket) (h : ring.count < sramRingCapacity) :
    (ring.fillHead packet h).packets = ring.packets ++ [packet] := by
  show (Ring.window (ring.buffer.set ring.head (some packet)) ring.tail (ring.count + 1)).filterMap id
    = _
  rw [Ring.window_push _ _ ring.head_eq h, List.filterMap_append]
  rfl

/-- **Push.** The packet is appended, and what is evicted is the oldest packet. -/
theorem push_spec (packet : MeshPacket) :
    (ring.push packet).1.toList ++ (ring.push packet).2.packets = ring.packets ++ [packet] := by
  by_cases h : ring.count < sramRingCapacity
  · rw [push, dif_pos h, packets_fillHead]
    rfl
  · have hpos : 0 < ring.count := Nat.zero_lt_of_lt (Nat.succ_le_of_lt (Nat.not_lt.mp h))
    have hpackets : ∀ dropped hroom,
        ((ring.dropTail dropped hpos).fillHead packet hroom).packets =
          ring.packets.tail ++ [packet] := by
      intro dropped hroom
      rw [packets_fillHead, packets_dropTail]
    rw [push, dif_neg h]
    refine (congrArg₂ _ (congrArg _ (ring.getElem_tail hpos)) (hpackets _ _)).trans ?_
    cases ring.packets with
    | nil => rfl
    | cons oldest rest => rfl

/-- Only a full ring evicts. -/
theorem push_evicts_iff (packet : MeshPacket) :
    (ring.push packet).1.isSome ↔ ring.count = sramRingCapacity := by
  by_cases h : ring.count < sramRingCapacity
  · rw [push, dif_pos h]
    simp only [Option.isSome_none, Bool.false_eq_true, false_iff]
    exact h.ne
  · have heq := Nat.le_antisymm ring.count_le (Nat.not_lt.mp h)
    have hpos : 0 < ring.count := Nat.zero_lt_of_lt (Nat.succ_le_of_lt (Nat.not_lt.mp h))
    rw [push, dif_neg h]
    show (ring.buffer[ring.tail]).isSome ↔ _
    rw [ring.getElem_tail hpos, List.isSome_head?, ← List.length_pos_iff, length_packets]
    exact iff_of_true hpos heq

/-- **Pop.** The oldest packet is taken. -/
theorem pop_spec : ring.pop.1 = ring.packets.head? ∧ ring.pop.2.packets = ring.packets.tail := by
  by_cases h : 0 < ring.count
  · rw [pop, dif_pos h]
    exact ⟨ring.getElem_tail h, ring.packets_dropTail _ h⟩
  · have hnil : ring.packets = [] := by
      rw [← List.length_eq_zero_iff, length_packets]
      omega
    rw [pop, dif_neg h]
    simp [hnil]

/-- **Peek.** The oldest packet is seen. -/
theorem peek_eq : ring.peek = ring.packets.head? := by
  by_cases h : ring.count = 0
  · have hnil : ring.packets = [] := by
      rw [← List.length_eq_zero_iff, length_packets, h]
    rw [peek, isEmpty, decide_eq_true h, if_pos rfl, hnil]
    rfl
  · rw [peek, isEmpty, decide_eq_false h, if_neg Bool.false_ne_true,
      ring.getElem_tail (Nat.pos_of_ne_zero h)]

end SramRingBuffer

end Gibberish.Storage
