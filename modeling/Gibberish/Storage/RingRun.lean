/-
# Runs of the live packet ring

The ring under any order of its calls. The packets in it, read from the tail to the head,
are a bounded queue of 256 packets: every call returns what the queue returns and leaves
what the queue holds. Its counter counts the evictions until it is full.
-/

import Gibberish.Foundation.BoundedFifo
import Gibberish.Foundation.Unwinding
import Gibberish.Storage.SramRing

set_option autoImplicit false

namespace Gibberish.Storage

open Gibberish.Foundation Gibberish.Protocol

namespace SramRingBuffer

/-- One call, with what it returns. -/
def step (ring : SramRingBuffer) : FifoOp MeshPacket → SramRingBuffer × List (Option MeshPacket)
  | .push packet => ((ring.push packet).2, [(ring.push packet).1])
  | .pop => (ring.pop.2, [ring.pop.1])
  | .peek => (ring, [ring.peek])
  | .clear => (ring.clear, [])

def machine : Machine SramRingBuffer (FifoOp MeshPacket) (Option MeshPacket) := ⟨step⟩

variable (ring : SramRingBuffer)

/-- A full ring returns its oldest packet. -/
theorem push_of_full (packet : MeshPacket) (h : ring.packets.length = sramRingCapacity) :
    (ring.push packet).1 = ring.packets.head? ∧
      (ring.push packet).2.packets = ring.packets.tail ++ [packet] := by
  have hspec := ring.push_spec packet
  rw [length_packets] at h
  obtain ⟨evicted, hevicted⟩ := Option.isSome_iff_exists.mp ((ring.push_evicts_iff packet).mpr h)
  cases hpackets : ring.packets with
  | nil =>
    rw [← length_packets, hpackets] at h
    cases h
  | cons oldest rest =>
    rw [hevicted, hpackets] at hspec
    obtain ⟨rfl, hrest⟩ := List.cons.inj hspec
    exact ⟨hevicted, hrest⟩

/-- Any other ring returns nothing. -/
theorem push_of_room (packet : MeshPacket) (h : ring.packets.length ≠ sramRingCapacity) :
    (ring.push packet).1 = none ∧ (ring.push packet).2.packets = ring.packets ++ [packet] := by
  have hspec := ring.push_spec packet
  rw [length_packets] at h
  have hnone : (ring.push packet).1 = none := by
    rw [← Option.not_isSome_iff_eq_none, push_evicts_iff]
    exact h
  rw [hnone] at hspec
  exact ⟨hnone, hspec⟩

/-- **Step lemma.** A call does to the packets of the ring what it does to a queue. -/
theorem step_packets (op : FifoOp MeshPacket) :
    Fifo.step sramRingCapacity ring.packets op =
      ((machine.next ring op).packets, machine.emit ring op) := by
  cases op with
  | push packet =>
    rw [Fifo.step]
    split
    · next h =>
      obtain ⟨hreply, hpackets⟩ := ring.push_of_full packet h
      rw [← hreply, ← hpackets]
      rfl
    · next h =>
      obtain ⟨hreply, hpackets⟩ := ring.push_of_room packet h
      rw [← hreply, ← hpackets]
      rfl
  | pop =>
    obtain ⟨hreply, hpackets⟩ := ring.pop_spec
    rw [Fifo.step, ← hreply, ← hpackets]
    rfl
  | peek =>
    rw [Fifo.step, ← ring.peek_eq]
    rfl
  | clear => rfl

/-- **The counter, one call.** An eviction is counted unless the counter is full. -/
theorem toNat_droppedOverflow_next (op : FifoOp MeshPacket) :
    (machine.next ring op).droppedOverflow.toNat =
      min (ring.droppedOverflow.toNat +
        if Fifo.Evicts sramRingCapacity ring.packets op then 1 else 0) (2 ^ 32 - 1) := by
  have hlt := ring.droppedOverflow.toNat_lt
  have hsame : ∀ n : ℕ, n < 2 ^ 32 → n = min (n + 0) (2 ^ 32 - 1) := by
    intro n hn
    omega
  cases op with
  | push packet =>
    show (ring.push packet).2.droppedOverflow.toNat = _
    have hevicts : Fifo.Evicts sramRingCapacity ring.packets (.push packet) ↔
        ring.count = sramRingCapacity := by
      rw [← length_packets]
      rfl
    simp only [hevicts]
    by_cases h : ring.count < sramRingCapacity
    · rw [push, dif_pos h, if_neg h.ne]
      exact hsame _ hlt
    · rw [push, dif_neg h, if_pos (Nat.le_antisymm ring.count_le (Nat.not_lt.mp h))]
      exact toNat_saturatingAdd_one ring.droppedOverflow
  | pop =>
    show ring.pop.2.droppedOverflow.toNat = _
    have hkept : ring.pop.2.droppedOverflow = ring.droppedOverflow := by
      rw [pop]
      split <;> rfl
    rw [hkept]
    exact hsame _ hlt
  | peek => exact hsame _ hlt
  | clear => exact hsame _ hlt

/-- **The counter, any run.** -/
theorem toNat_droppedOverflow_final (ops : List (FifoOp MeshPacket)) :
    (machine.final ring ops).droppedOverflow.toNat =
      min (ring.droppedOverflow.toNat + Fifo.evictions sramRingCapacity ring.packets ops)
        (2 ^ 32 - 1) := by
  induction ops generalizing ring with
  | nil =>
    have hlt := ring.droppedOverflow.toNat_lt
    show ring.droppedOverflow.toNat = min (ring.droppedOverflow.toNat + 0) _
    omega
  | cons op rest ih =>
    have hnext : (Fifo.machine MeshPacket sramRingCapacity).next ring.packets op =
        (machine.next ring op).packets := congrArg Prod.fst (ring.step_packets op)
    rw [Machine.final_cons, ih, toNat_droppedOverflow_next, Fifo.evictions_cons, hnext]
    omega

/-- **The ring is a bounded queue.** After any calls on a new ring, all of them returned what
a queue of at most 256 packets returns, and the ring holds what the queue holds: nothing is
duplicated, and nothing is lost but what was evicted, popped or cleared. The counter counts
the evictions since creation, and a ring that is not empty has a packet at its tail. -/
theorem ring_refines_queue (ops : List (FifoOp MeshPacket)) :
    let ring := machine.final new ops
    let held := (Fifo.machine MeshPacket sramRingCapacity).final [] ops
    machine.outputs new ops = (Fifo.machine MeshPacket sramRingCapacity).outputs [] ops ∧
      ring.packets = held ∧ ring.len = held.length ∧ held.length ≤ sramRingCapacity ∧
      Fifo.departed sramRingCapacity [] ops ++ held = ops.flatMap Fifo.pushed ∧
      ring.droppedCount.toNat = min (Fifo.evictions sramRingCapacity [] ops) (2 ^ 32 - 1) ∧
      (ring.isEmpty = false → (ring.buffer.get ring.tail).isSome = true) := by
  have hsteps : ∀ ring op, (Fifo.machine MeshPacket sramRingCapacity).step (packets ring) op =
      (packets (machine.next ring op), machine.emit ring op) := step_packets
  have hheld : (Fifo.machine MeshPacket sramRingCapacity).final (packets new) ops =
      packets (machine.final new ops) := Machine.final_image hsteps new ops
  have houtputs : (Fifo.machine MeshPacket sramRingCapacity).outputs (packets new) ops =
      machine.outputs new ops := Machine.outputs_image hsteps new ops
  rw [packets_new] at hheld houtputs
  refine ⟨houtputs.symm, hheld.symm, ?_, ?_, ?_, ?_, ?_⟩
  · rw [hheld, length_packets]
    rfl
  · exact Fifo.length_final_le (by decide) (Nat.zero_le _) ops
  · exact Fifo.departed_append_final [] ops
  · have hnew : new.droppedOverflow.toNat = 0 := rfl
    rw [droppedCount, toNat_droppedOverflow_final, packets_new, hnew, Nat.zero_add]
  · intro hnonempty
    have hpos : 0 < (machine.final new ops).count := by
      rw [isEmpty, decide_eq_false_iff_not] at hnonempty
      exact Nat.pos_of_ne_zero hnonempty
    show ((machine.final new ops).buffer[(machine.final new ops).tail]).isSome = true
    rw [getElem_tail _ hpos, List.isSome_head?, ← List.length_pos_iff, length_packets]
    exact hpos

end SramRingBuffer

end Gibberish.Storage
