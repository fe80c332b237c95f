/-
# Contention backoff

The transmit queue of a dongle: eight slots in a ring, a countdown for the packet at
the head, and cancellation of a queued packet that is overheard from somebody else.
A cancelled slot stays in the queue until it reaches the head.
-/

import Gibberish.Protocol.Frame

set_option autoImplicit false

namespace Gibberish.Firmware

open Gibberish.Foundation Gibberish.Protocol

abbrev txQueueCapacity : ℕ := 8

/-- The queue and its countdown. The tail is `count` slots past the head. -/
structure BackoffController where
  queue : Vector (Option MeshPacket) txQueueCapacity
  head : Fin txQueueCapacity
  tail : Fin txQueueCapacity
  count : ℕ
  backoffRemainingMs : UInt16
  count_le : count ≤ txQueueCapacity
  tail_eq : tail.val = (head.val + count) % txQueueCapacity

namespace BackoffController

def new : BackoffController where
  queue := .replicate txQueueCapacity none
  head := 0
  tail := 0
  count := 0
  backoffRemainingMs := 0
  count_le := Nat.zero_le _
  tail_eq := rfl

/-- The slot some places behind the head. -/
def slot (b : BackoffController) (i : ℕ) : Fin txQueueCapacity :=
  ⟨(b.head.val + i) % txQueueCapacity, Nat.mod_lt _ (by decide)⟩

/-- The packet queued some places behind the head. -/
def queued (b : BackoffController) (i : ℕ) : Option MeshPacket := b.queue[b.slot i]

/-- `u16::clamp(15, 90)`. -/
def clampJitter (jitterMs : UInt16) : UInt16 :=
  if jitterMs < 15 then 15 else if jitterMs > 90 then 90 else jitterMs

private theorem succ_slot {head tail : Fin txQueueCapacity} {count : ℕ}
    (h : tail.val = (head.val + count) % txQueueCapacity) :
    (tail + 1).val = (head.val + (count + 1)) % txQueueCapacity := by
  have hone : (1 : Fin txQueueCapacity).val = 1 := rfl
  rw [Fin.val_add, h, hone, Nat.mod_add_mod, Nat.add_assoc]

private theorem slot_succ (head : Fin txQueueCapacity) (count : ℕ) :
    (head.val + (count + 1)) % txQueueCapacity =
      ((head + 1).val + count) % txQueueCapacity := by
  have hone : (1 : Fin txQueueCapacity).val = 1 := rfl
  rw [Fin.val_add, hone, Nat.mod_add_mod, Nat.add_assoc, Nat.add_comm 1]

/-- Queue a packet; when the queue is full, it replaces the oldest one. -/
def scheduleTx (b : BackoffController) (packet : MeshPacket) (jitterMs : UInt16) :
    BackoffController :=
  if h : b.count < txQueueCapacity then
    { queue := b.queue.set b.tail (some packet)
      head := b.head
      tail := b.tail + 1
      count := b.count + 1
      backoffRemainingMs := if b.count + 1 = 1 then clampJitter jitterMs else b.backoffRemainingMs
      count_le := h
      tail_eq := succ_slot b.tail_eq }
  else
    { queue := (b.queue.set b.head none).set b.tail (some packet)
      head := b.head + 1
      tail := b.tail + 1
      count := b.count
      backoffRemainingMs := b.backoffRemainingMs
      count_le := b.count_le
      tail_eq := (succ_slot b.tail_eq).trans (slot_succ b.head b.count) }

/-- Queue telemetry, unless user traffic is queued. -/
def scheduleTelemetry (b : BackoffController) (packet : MeshPacket) (jitterMs : UInt16) :
    Bool × BackoffController :=
  if (List.range b.count).any fun i =>
      (b.queued i).any fun p => p.header.flags &&& flagTelemetry = 0 then (false, b)
  else (true, b.scheduleTx packet jitterMs)

/-- Let time pass; whether the packet at the head may go out now. -/
def tick (b : BackoffController) (elapsedMs : UInt16) : Bool × BackoffController :=
  if b.count = 0 then (false, b)
  else if elapsedMs ≥ b.backoffRemainingMs then (true, { b with backoffRemainingMs := 0 })
  else (false, { b with backoffRemainingMs := b.backoffRemainingMs - elapsedMs })

/-- Cancel the first queued packet with this key. -/
def onOverhear (b : BackoffController) (msgId : UInt32) (chunkIdx : UInt8) :
    Bool × BackoffController :=
  match (List.range b.count).find? fun i =>
      (b.queued i).any fun p => p.header.msgId = msgId ∧ p.header.chunkIdx = chunkIdx with
  | none => (false, b)
  | some i => (true, { b with queue := b.queue.set (b.slot i) none })

/-- Take the slot at the head, which may have been cancelled. -/
def popHead (b : BackoffController) (h : 0 < b.count) : Option MeshPacket × BackoffController :=
  (b.queue[b.head],
    { queue := b.queue.set b.head none
      head := b.head + 1
      tail := b.tail
      count := b.count - 1
      -- 20 ms between queued packets.
      backoffRemainingMs := if b.count - 1 > 0 then 20 else b.backoffRemainingMs
      count_le := (Nat.sub_le _ _).trans b.count_le
      tail_eq := by
        rw [← slot_succ, Nat.sub_add_cancel h]
        exact b.tail_eq })

/-- Take slots until one holds a packet, at most so many. -/
def takeUpTo : ℕ → BackoffController → Option MeshPacket × BackoffController
  | 0, b => (none, b)
  | n + 1, b =>
    if h : 0 < b.count then
      match b.popHead h with
      | (some packet, b) => (some packet, b)
      | (none, b) => takeUpTo n b
    else (none, b)

/-- Take the next packet that was not cancelled. -/
def takePending (b : BackoffController) : Option MeshPacket × BackoffController :=
  takeUpTo b.count b

end BackoffController

end Gibberish.Firmware
