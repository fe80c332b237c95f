/-
# User traffic and telemetry

The transmit queue driven by a list of operations, next to the queue that gets all of
them but the telemetry. Telemetry is refused while user traffic waits, so it can only
come before it: a slot of telemetry keeps its place and its countdown when a user packet
is queued behind it. Where every user packet is queued on the queue that would be there
without telemetry, the two runs cannot be told apart by their user traffic.
-/

import Gibberish.Firmware.BackoffQueue
import Gibberish.Firmware.RelayDecision
import Gibberish.Foundation.Unwinding
import Mathlib.Data.Multiset.Filter

set_option autoImplicit false

namespace Gibberish.Firmware

open Gibberish.Foundation Gibberish.Protocol

/-! ### Operations -/

/-- What the main loop does to the queue. A packet is taken when the tick says so, and
only telemetry is scheduled as telemetry. -/
inductive QueueOp where
  | scheduleTx (packet : MeshPacket) (jitterMs : UInt16)
  | scheduleTelemetry (packet : {packet : MeshPacket // ¬ IsUser packet}) (jitterMs : UInt16)
  | tick (elapsedMs : UInt16)
  | onOverhear (msgId : UInt32) (chunkIdx : UInt8)

/-- How a packet leaves the queue, unless it is cancelled. -/
inductive QueueEvent where
  | taken (packet : MeshPacket)
  | evicted (packet : MeshPacket)
  deriving DecidableEq

namespace QueueEvent

/-- What an event says of user traffic. -/
def userEvent : QueueEvent → Option QueueEvent
  | taken packet => if IsUser packet then some (taken packet) else none
  | evicted packet => if IsUser packet then some (evicted packet) else none

def packetTaken : QueueEvent → Option MeshPacket
  | taken packet => some packet
  | evicted _ => none

def packetEvicted : QueueEvent → Option MeshPacket
  | taken _ => none
  | evicted packet => some packet

end QueueEvent

def QueueOp.IsTelemetry : QueueOp → Prop
  | scheduleTelemetry _ _ => True
  | _ => False

instance : DecidablePred QueueOp.IsTelemetry
  | .scheduleTx _ _ => isFalse id
  | .scheduleTelemetry _ _ => isTrue trivial
  | .tick _ => isFalse id
  | .onOverhear _ _ => isFalse id

namespace BackoffController

/-- The packet that a full queue loses to the next one. -/
def oldest (b : BackoffController) : List QueueEvent :=
  if b.count < txQueueCapacity then [] else (b.queued 0).toList.map .evicted

def operate (b : BackoffController) : QueueOp → BackoffController × List QueueEvent
  | .scheduleTx packet jitterMs => (b.scheduleTx packet jitterMs, b.oldest)
  | .scheduleTelemetry packet jitterMs =>
    match b.scheduleTelemetry packet jitterMs with
    | (true, b') => (b', b.oldest)
    | (false, b') => (b', [])
  | .tick elapsedMs =>
    match b.tick elapsedMs with
    | (true, b) => (b.takePending.2, b.takePending.1.toList.map .taken)
    | (false, b) => (b, [])
  | .onOverhear msgId chunkIdx => ((b.onOverhear msgId chunkIdx).2, [])

/-- The queue as a machine that emits what leaves it. -/
def machine : Machine BackoffController QueueOp QueueEvent := ⟨operate⟩

end BackoffController

namespace Dongle

theorem not_isUser_telemetryPacket (telemMsgId : UInt32) (payload : Bytes ciphertextLen) :
    ¬ IsUser (telemetryPacket telemMsgId payload) := by
  show ¬ flagTelemetry &&& flagTelemetry = 0
  decide

/-- What an input of the main loop does to the queue. -/
def queueOps (d : Dongle) : DongleInput → List QueueOp
  | .buttonPress => [.scheduleTx (beaconPacket (d.localNodeId + (d.beaconSeq + 1))) 15]
  | .serviceBackoff elapsedMs _ => [.tick elapsedMs]
  | .emitTelemetry payload jitterMs =>
    [.scheduleTelemetry ⟨_, not_isUser_telemetryPacket (d.telemSeq + 1) payload⟩ jitterMs]
  | .receive rx random =>
    let header := rx.packet.header
    (if isValidNetworkTag header.networkTag ∧ header.flags &&& flagTelemetry = 0 then
      [.onOverhear header.msgId header.chunkIdx] else []) ++
    (d.scheduledRelay (.receive rx random)).toList.map fun fwdPacket =>
      .scheduleTx fwdPacket (calculateLqiRelayJitter rx.lqi (random % 15).toUInt16)
  | .usbByte b => (d.accepts b).toList.map fun packet => .scheduleTx packet 15

/-- **Step lemma.** An input drives the queue by its operations. -/
theorem backoff_next (d : Dongle) (input : DongleInput) :
    (machine.next d input).backoff =
      BackoffController.machine.final d.backoff (d.queueOps input) := by
  cases input with
  | buttonPress => rfl
  | serviceBackoff elapsedMs txOk =>
    show (d.serviceBackoff elapsedMs txOk).1.backoff = (d.backoff.operate (.tick elapsedMs)).1
    rw [serviceBackoff, BackoffController.operate]
    obtain ⟨due, backoff⟩ := d.backoff.tick elapsedMs
    cases due with
    | false => rfl
    | true =>
      dsimp only
      obtain ⟨taken, backoff'⟩ := backoff.takePending
      cases taken with
      | none => rfl
      | some packet => rfl
  | emitTelemetry payload jitterMs =>
    show _ = (d.backoff.operate _).1
    rw [BackoffController.operate]
    split
    · rename_i heq
      exact congrArg Prod.snd heq
    · rename_i heq
      exact congrArg Prod.snd heq
  | receive rx random =>
    show (d.receive rx random).1.backoff = _
    rw [backoff_receive, queueOps, Machine.final_append]
    split
    · cases d.scheduledRelay (.receive rx random) with
      | none => rfl
      | some fwdPacket => rfl
    · cases d.scheduledRelay (.receive rx random) with
      | none => rfl
      | some fwdPacket => rfl
  | usbByte b =>
    show (d.usbByte b).1.backoff = _
    rw [usbByte, queueOps]
    cases d.accepts b with
    | none => rfl
    | some packet => rfl

/-- **Run lemma.** A run of the main loop drives the queue by the operations of its inputs. -/
theorem backoff_final (d : Dongle) (inputs : List DongleInput) :
    (machine.final d inputs).backoff = BackoffController.machine.final d.backoff
      ((machine.trace d inputs).flatMap fun x => x.1.queueOps x.2) := by
  induction inputs generalizing d with
  | nil => rfl
  | cons input rest ih =>
    rw [Machine.trace_cons, List.flatMap_cons, Machine.final_append, ← backoff_next]
    exact ih (machine.next d input)

end Dongle

/-! ### The queue without its ring -/

namespace TxQueue

/-- The packet that a full queue loses to the next one. -/
def oldest (q : TxQueue) : List QueueEvent :=
  if q.slots.length < txQueueCapacity then [] else q.slots.head?.join.toList.map .evicted

def operate (q : TxQueue) : QueueOp → TxQueue × List QueueEvent
  | .scheduleTx packet jitterMs => (q.push packet jitterMs, q.oldest)
  | .scheduleTelemetry packet jitterMs =>
    (q.pushTelemetry packet jitterMs,
      if ∃ packet ∈ packetsOf q.slots, IsUser packet then [] else q.oldest)
  | .tick elapsedMs =>
    match q.tick elapsedMs with
    | (true, q) => (q.take.2, q.take.1.toList.map .taken)
    | (false, q) => (q, [])
  | .onOverhear msgId chunkIdx => (q.cancel (msgId, chunkIdx), [])

def machine : Machine TxQueue QueueOp QueueEvent := ⟨operate⟩

end TxQueue

namespace BackoffController

theorem oldest_toQueue (b : BackoffController) : b.toQueue.oldest = b.oldest := by
  rw [oldest, TxQueue.oldest, length_slots]
  split
  · rfl
  · rename_i hfull
    have hcount : 0 < b.count := (Nat.zero_lt_succ 7).trans_le (Nat.not_lt.mp hfull)
    rw [head?_slots hcount]
    rfl

/-- **Refinement.** The ring does what the list does. -/
theorem step_toQueue (b : BackoffController) (op : QueueOp) :
    TxQueue.machine.step b.toQueue op = ((machine.next b op).toQueue, machine.emit b op) := by
  show b.toQueue.operate op = ((b.operate op).1.toQueue, (b.operate op).2)
  cases op with
  | scheduleTx packet jitterMs =>
    exact Prod.ext (b.toQueue_scheduleTx packet jitterMs).symm b.oldest_toQueue
  | scheduleTelemetry packet jitterMs =>
    rw [TxQueue.operate, ← toQueue_scheduleTelemetry, oldest_toQueue, operate]
    by_cases h : ∃ packet ∈ TxQueue.packetsOf b.toQueue.slots, IsUser packet
    · have hyield : b.scheduleTelemetry packet jitterMs = (false, b) :=
        if_pos (b.any_isUser_iff.mpr h)
      rw [if_pos h, hyield]
    · have hqueue : b.scheduleTelemetry packet jitterMs = (true, b.scheduleTx packet jitterMs) :=
        if_neg (mt b.any_isUser_iff.mp h)
      rw [if_neg h, hqueue]
  | tick elapsedMs =>
    obtain ⟨hdue, htick⟩ := b.toQueue_tick elapsedMs
    rw [operate, TxQueue.operate]
    generalize b.tick elapsedMs = ticked at hdue htick
    generalize b.toQueue.tick elapsedMs = ticked' at hdue htick
    obtain ⟨due, b'⟩ := ticked
    obtain ⟨due', q'⟩ := ticked'
    obtain rfl : due = due' := hdue
    obtain rfl : b'.toQueue = q' := htick
    cases due with
    | false => rfl
    | true =>
      obtain ⟨htaken, hrest⟩ := b'.toQueue_takePending
      refine Prod.ext hrest.symm ?_
      exact congrArg (fun taken => taken.toList.map QueueEvent.taken) htaken.symm
  | onOverhear msgId chunkIdx =>
    exact Prod.ext (b.toQueue_onOverhear msgId chunkIdx).symm rfl

end BackoffController

/-! ### With and without telemetry -/

namespace TxQueue

/-- No user traffic waits. -/
def Idle (q : TxQueue) : Prop := ∀ packet ∈ packetsOf q.slots, ¬ IsUser packet

/-- The same slots wait for the same time. -/
def Aligned (q q' : TxQueue) : Prop :=
  q.slots = q'.slots ∧ (q.slots ≠ [] → q.remainingMs = q'.remainingMs)

instance (q q' : TxQueue) : Decidable (q.Aligned q') := inferInstanceAs (Decidable (_ ∧ _))

/-- No user packet, or none at all. -/
def Silent (events : List QueueEvent) : Prop := events.filterMap QueueEvent.userEvent = []

theorem silent_map {slot : Option MeshPacket} {event : MeshPacket → QueueEvent}
    (hides : ∀ packet ∈ slot, (event packet).userEvent = none) :
    Silent (slot.toList.map event) := by
  cases slot with
  | none => rfl
  | some packet => exact List.filterMap_cons_none (hides packet rfl)

theorem Aligned.eq_or_nil {q q' : TxQueue} (h : q.Aligned q') :
    q = q' ∨ (q.slots = [] ∧ q'.slots = []) := by
  obtain ⟨hslots, hms⟩ := h
  by_cases hempty : q.slots = []
  · exact Or.inr ⟨hempty, hslots ▸ hempty⟩
  · exact Or.inl (TxQueue.ext hslots (hms hempty))

/-- Where no user traffic waits, telemetry is queued like any packet. -/
theorem operate_scheduleTelemetry_of_idle {q : TxQueue} (h : q.Idle)
    (packet : {packet : MeshPacket // ¬ IsUser packet}) (jitterMs : UInt16) :
    q.operate (.scheduleTelemetry packet jitterMs) = q.operate (.scheduleTx packet jitterMs) := by
  have hidle : ¬ ∃ packet ∈ packetsOf q.slots, IsUser packet := by
    rintro ⟨packet, hmem, huser⟩
    exact h packet hmem huser
  show (q.pushTelemetry packet jitterMs, _) = _
  rw [pushTelemetry, if_neg hidle, if_neg hidle]
  rfl

/-- **Step lemma.** Aligned queues stay aligned, and lose the same packets. -/
theorem Aligned.operate {q q' : TxQueue} (h : q.Aligned q') (op : QueueOp) :
    (q.operate op).1.Aligned (q'.operate op).1 ∧ (q.operate op).2 = (q'.operate op).2 := by
  rcases h.eq_or_nil with rfl | ⟨hempty, hempty'⟩
  · exact ⟨⟨rfl, fun _ => rfl⟩, rfl⟩
  -- On empty queues the countdowns may differ, but a packet sets them anew.
  · have hpush : ∀ packet jitterMs,
        q.operate (.scheduleTx packet jitterMs) = q'.operate (.scheduleTx packet jitterMs) := by
      intro packet jitterMs
      rw [TxQueue.operate, TxQueue.operate, push, push, oldest, oldest, hempty, hempty', if_pos rfl,
        if_pos rfl]
    have hidle : ∀ {q : TxQueue}, q.slots = [] → q.Idle := by
      intro q hq packet hpacket
      rw [hq] at hpacket
      exact absurd hpacket List.not_mem_nil
    cases op with
    | scheduleTx packet jitterMs =>
      rw [hpush]
      exact ⟨⟨rfl, fun _ => rfl⟩, rfl⟩
    | scheduleTelemetry packet jitterMs =>
      rw [operate_scheduleTelemetry_of_idle (hidle hempty),
        operate_scheduleTelemetry_of_idle (hidle hempty'), hpush]
      exact ⟨⟨rfl, fun _ => rfl⟩, rfl⟩
    | tick elapsedMs =>
      rw [TxQueue.operate, TxQueue.operate, tick, tick, if_pos hempty, if_pos hempty']
      exact ⟨h, rfl⟩
    | onOverhear msgId chunkIdx =>
      have hcancel : ∀ {q : TxQueue}, q.slots = [] → q.cancel (msgId, chunkIdx) = q := by
        intro q hq
        rw [cancel, hq, cancelSlots, ← hq]
      rw [TxQueue.operate, TxQueue.operate, hcancel hempty, hcancel hempty']
      exact ⟨h, rfl⟩

/-- Scheduling a packet that is no user's loses none of a user either. -/
theorem Idle.scheduleTx {q : TxQueue} (h : q.Idle) {packet : MeshPacket} (jitterMs : UInt16)
    (other : ¬ IsUser packet) :
    (q.operate (.scheduleTx packet jitterMs)).1.Idle ∧
      Silent (q.operate (.scheduleTx packet jitterMs)).2 := by
  constructor
  · intro p hp
    rcases List.mem_append.mp ((q.packetsOf_push_sublist packet jitterMs).subset hp) with hp | hp
    · exact h p hp
    · exact List.mem_singleton.mp hp ▸ other
  · show Silent q.oldest
    rw [oldest]
    split
    · rfl
    · refine silent_map fun p hp => if_neg (h p ?_)
      have hhead : some p ∈ q.slots := List.mem_of_mem_head? (Option.join_eq_some_iff.mp hp)
      exact List.mem_filterMap.mpr ⟨some p, hhead, rfl⟩

/-- **Step lemma.** A queue without user traffic loses none, and has some only when a user
packet is queued. -/
theorem Idle.operate {q : TxQueue} (h : q.Idle) (op : QueueOp)
    (other : ∀ packet jitterMs, op = .scheduleTx packet jitterMs → ¬ IsUser packet) :
    (q.operate op).1.Idle ∧ Silent (q.operate op).2 := by
  cases op with
  | scheduleTx packet jitterMs => exact h.scheduleTx jitterMs (other packet jitterMs rfl)
  | scheduleTelemetry packet jitterMs =>
    rw [operate_scheduleTelemetry_of_idle h]
    exact h.scheduleTx jitterMs packet.2
  | tick elapsedMs =>
    have hsame := q.slots_tick elapsedMs
    rw [TxQueue.operate]
    generalize q.tick elapsedMs = ticked at hsame
    obtain ⟨due, q'⟩ := ticked
    have h' : q'.Idle := fun p hp => h p (hsame ▸ hp)
    cases due with
    | false => exact ⟨h', rfl⟩
    | true =>
      -- What is taken and what stays were both in the queue.
      have hall : ∀ p ∈ (takeSlots q'.slots).1.toList ++ packetsOf (takeSlots q'.slots).2,
          ¬ IsUser p := packetsOf_takeSlots q'.slots ▸ h'
      refine ⟨fun p hp => hall p (List.mem_append_right _ hp), silent_map fun p hp => ?_⟩
      exact if_neg (hall p (List.mem_append_left _ (Option.mem_toList.mpr hp)))
  | onOverhear msgId chunkIdx =>
    refine ⟨fun p hp => h p ?_, rfl⟩
    exact (packetsOf_cancelSlots_sublist _ _).subset hp

/-- Two queues whose user traffic looks the same from now on, as far as they go. -/
def Related (p : TxQueue × TxQueue) : Prop := p.1.Aligned p.2 ∨ (p.1.Idle ∧ p.2.Idle)

/-- A user packet is queued on the queue that would be there without telemetry. -/
def Unobstructed (p : TxQueue × TxQueue) : QueueOp → Prop
  | .scheduleTx packet _ => IsUser packet → p.1.Aligned p.2
  | _ => True

instance (p : TxQueue × TxQueue) : DecidablePred (Unobstructed p)
  | .scheduleTx _ _ => inferInstanceAs (Decidable (_ → _))
  | .scheduleTelemetry _ _ => isTrue trivial
  | .tick _ => isTrue trivial
  | .onOverhear _ _ => isTrue trivial

/-- Telemetry is refused by aligned queues with user traffic, and hidden in any others. -/
theorem Related.scheduleTelemetry {p : TxQueue × TxQueue} (h : Related p)
    (packet : {packet : MeshPacket // ¬ IsUser packet}) (jitterMs : UInt16) :
    Related ((p.1.operate (.scheduleTelemetry packet jitterMs)).1, p.2) ∧
      Silent (p.1.operate (.scheduleTelemetry packet jitterMs)).2 := by
  by_cases hidle : p.1.Idle
  · have hidle' : p.2.Idle := by
      rcases h with haligned | ⟨-, hidle'⟩
      · exact fun packet hpacket => hidle packet (haligned.1 ▸ hpacket)
      · exact hidle'
    obtain ⟨hnext, hsilent⟩ :=
      hidle.operate (.scheduleTelemetry packet jitterMs) fun _ _ hop => nomatch hop
    exact ⟨Or.inr ⟨hnext, hidle'⟩, hsilent⟩
  · have huser : ∃ packet ∈ packetsOf p.1.slots, IsUser packet := by
      simpa [Idle] using hidle
    have hyield : p.1.operate (.scheduleTelemetry packet jitterMs) = (p.1, []) := by
      show (p.1.pushTelemetry packet jitterMs, _) = _
      rw [pushTelemetry, if_pos huser, if_pos huser]
    rw [hyield]
    exact ⟨h, rfl⟩

/-- **Step lemma.** An unobstructed operation on both queues shows the same of both. -/
theorem Related.operate {p : TxQueue × TxQueue} (h : Related p) {op : QueueOp}
    (unobstructed : Unobstructed p op) :
    Related ((p.1.operate op).1, (p.2.operate op).1) ∧
      (p.1.operate op).2.filterMap QueueEvent.userEvent =
        (p.2.operate op).2.filterMap QueueEvent.userEvent := by
  by_cases haligned : p.1.Aligned p.2
  · obtain ⟨hnext, hsame⟩ := haligned.operate op
    exact ⟨Or.inl hnext, congrArg _ hsame⟩
  · obtain ⟨hidle, hidle'⟩ := h.resolve_left haligned
    have hother : ∀ packet jitterMs, op = .scheduleTx packet jitterMs → ¬ IsUser packet := by
      rintro packet jitterMs rfl huser
      exact haligned (unobstructed huser)
    obtain ⟨hnext, hsilent⟩ := hidle.operate op hother
    obtain ⟨hnext', hsilent'⟩ := hidle'.operate op hother
    exact ⟨Or.inr ⟨hnext, hnext'⟩, hsilent.trans hsilent'.symm⟩

end TxQueue

/-! ### The traffic of users -/

namespace BackoffController

/-- What a run shows of user traffic. -/
def userTraffic (b : BackoffController) (ops : List QueueOp) : List QueueEvent :=
  (machine.outputs b ops).filterMap QueueEvent.userEvent

/-- The user packets that were taken in a run. -/
def userTaken (b : BackoffController) (ops : List QueueOp) : List MeshPacket :=
  (b.userTraffic ops).filterMap QueueEvent.packetTaken

/-- The user packets that overflow evicted in a run. -/
def userEvicted (b : BackoffController) (ops : List QueueOp) : List MeshPacket :=
  (b.userTraffic ops).filterMap QueueEvent.packetEvicted

/-- The operations but for telemetry. -/
abbrev withoutTelemetry (ops : List QueueOp) : List QueueOp := Machine.purge QueueOp.IsTelemetry ops

/-- Telemetry costs user traffic nothing: whenever a packet is taken without telemetry, it
has been taken by then with telemetry, and the same packets are evicted. -/
structure TelemetryYields (b : BackoffController) (ops : List QueueOp) : Prop where
  taken : ∀ past, past <+: ops →
    (b.userTaken (withoutTelemetry past) : Multiset MeshPacket) ≤ b.userTaken past
  evicted : (b.userEvicted (withoutTelemetry ops)).Perm (b.userEvicted ops)

/-- Every user packet of a run is queued on the queue that would be there without telemetry. -/
def Unobstructed (b : BackoffController) (ops : List QueueOp) : Prop :=
  (machine.beside QueueOp.IsTelemetry).Guarded
    (fun p => TxQueue.Unobstructed (p.1.toQueue, p.2.toQueue)) (b, b) ops

instance (b : BackoffController) (ops : List QueueOp) : Decidable (b.Unobstructed ops) :=
  inferInstanceAs (Decidable (Machine.Guarded _ _ _ _))

/-- **Run lemma.** Unobstructed user traffic is the same with and without telemetry. -/
theorem userTraffic_withoutTelemetry {b : BackoffController} {ops : List QueueOp}
    (h : b.Unobstructed ops) : b.userTraffic ops = b.userTraffic (withoutTelemetry ops) := by
  have hnext : ∀ p op, TxQueue.Related p → TxQueue.Unobstructed p op →
      TxQueue.Related ((TxQueue.machine.beside QueueOp.IsTelemetry).next p op) := by
    intro p op hrel hop
    by_cases htelemetry : op.IsTelemetry
    · rw [Machine.next_beside_of_dropped htelemetry]
      cases op with
      | scheduleTelemetry packet jitterMs => exact (hrel.scheduleTelemetry packet jitterMs).1
      | _ => cases htelemetry
    · rw [Machine.next_beside_of_kept htelemetry]
      exact (hrel.operate hop).1
  have hsilent : ∀ (p : TxQueue × TxQueue) (op : QueueOp), TxQueue.Related p → op.IsTelemetry →
      (TxQueue.machine.emit p.1 op).filterMap QueueEvent.userEvent = [] := by
    intro p op hrel htelemetry
    cases op with
    | scheduleTelemetry packet jitterMs => exact (hrel.scheduleTelemetry packet jitterMs).2
    | _ => cases htelemetry
  have hguarded : (TxQueue.machine.beside QueueOp.IsTelemetry).Guarded TxQueue.Unobstructed
      (b.toQueue, b.toQueue) ops :=
    (Machine.guarded_beside_image step_toQueue TxQueue.Unobstructed (b, b) ops).mpr h
  rw [userTraffic, userTraffic, ← Machine.outputs_image step_toQueue,
    ← Machine.outputs_image step_toQueue]
  exact Machine.unwinding hnext hsilent (fun p op hrel hop _ => (hrel.operate hop).2)
    (Or.inl ⟨rfl, fun _ => rfl⟩) hguarded

/-- **Preemption.** Unobstructed user traffic is neither delayed nor evicted by telemetry. -/
theorem telemetryYields_of_unobstructed {b : BackoffController} {ops : List QueueOp}
    (unobstructed : b.Unobstructed ops) : b.TelemetryYields ops := by
  constructor
  · rintro past ⟨rest, rfl⟩
    have hpast : b.Unobstructed past := ((Machine.guarded_append _ _ _ _).mp unobstructed).1
    rw [userTaken, userTaken, userTraffic_withoutTelemetry hpast]
  · rw [userEvicted, userEvicted, userTraffic_withoutTelemetry unobstructed]

/-! ### A run that telemetry delays -/

/-- Telemetry goes out 15 ms after it is queued, and then a user packet is queued. -/
def telemetryGone : List QueueOp :=
  [.scheduleTelemetry ⟨_, Dongle.not_isUser_telemetryPacket 1 (.zero _)⟩ 15, .tick 15,
    .scheduleTx (Dongle.beaconPacket 8) 15, .tick 15]

/-- Telemetry waits for 60 ms, and a user packet is queued meanwhile. -/
def telemetryWaiting : List QueueOp :=
  [.scheduleTelemetry ⟨_, Dongle.not_isUser_telemetryPacket 1 (.zero _)⟩ 60,
    .scheduleTx (Dongle.beaconPacket 8) 15, .tick 5, .tick 5, .tick 5]

theorem telemetryYields_telemetryGone : new.TelemetryYields telemetryGone :=
  telemetryYields_of_unobstructed (by decide +kernel)

theorem userTaken_telemetryWaiting :
    new.userTaken telemetryWaiting = [] ∧
      new.userTaken (withoutTelemetry telemetryWaiting) = [Dongle.beaconPacket 8] := by
  decide +kernel

/-- The user packet, due after 15 ms, waits behind telemetry. -/
theorem not_telemetryYields_telemetryWaiting : ¬ new.TelemetryYields telemetryWaiting := by
  intro h
  have hle := h.taken telemetryWaiting (List.prefix_refl _)
  rw [userTaken_telemetryWaiting.1, userTaken_telemetryWaiting.2] at hle
  exact absurd (Multiset.card_le_card hle) (by decide)

end BackoffController

end Gibberish.Firmware
