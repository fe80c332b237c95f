/-
# Which copy decides on a relay

A dongle may hear several copies of a packet, over links of different quality and
with different hops left. It records the key of the first copy before it looks at link
and hops, and drops every later copy. So the first copy alone decides whether the
packet is relayed, and the order of arrival matters unless all copies agree.
-/

import Gibberish.Firmware.MainLoop

set_option autoImplicit false

namespace Gibberish.Firmware

open Gibberish.Foundation Gibberish.Protocol

/-- A link good enough, and hops left. -/
def Relayable (rx : ReceivedMeshPacket) : Prop :=
  rx.lqi ≥ minRelayLqi ∧ rx.packet.header.ttl > 0

instance (rx : ReceivedMeshPacket) : Decidable (Relayable rx) :=
  inferInstanceAs (Decidable (_ ∧ _))

/-- A copy of a data packet: the packet's key, an admitted tag, and no telemetry. -/
structure CopyOf (key : PacketKey) (rx : ReceivedMeshPacket) : Prop where
  key_eq : packetKey rx.packet = key
  validTag : isValidNetworkTag rx.packet.header.networkTag = true
  notTelemetry : rx.packet.header.flags &&& flagTelemetry = 0

/-- The packet that a copy is relayed as. -/
def relayOf (rx : ReceivedMeshPacket) : Option MeshPacket :=
  if rx.lqi ≥ minRelayLqi then rx.packet.decrementTtl else none

theorem isSome_relayOf (rx : ReceivedMeshPacket) : (relayOf rx).isSome ↔ Relayable rx := by
  rw [relayOf, Relayable]
  by_cases hlqi : rx.lqi ≥ minRelayLqi
  · rw [if_pos hlqi, MeshPacket.decrementTtl]
    by_cases httl : rx.packet.header.ttl > 0
    · rw [if_pos httl]
      exact ⟨fun _ => ⟨hlqi, httl⟩, fun _ => rfl⟩
    · rw [if_neg httl]
      exact ⟨fun h => absurd h (by decide), fun h => absurd h.2 httl⟩
  · rw [if_neg hlqi]
    exact ⟨fun h => absurd h (by decide), fun h => absurd h.1 hlqi⟩

namespace Dongle

/-- The packet that an input queues for relay. -/
def scheduledRelay (d : Dongle) : DongleInput → Option MeshPacket
  | .receive rx _ => if d.admits rx.packet then relayOf rx else none
  | _ => none

/-- What a packet off the radio does to the queue: one of the mesh cancels a queued copy,
and then the relay is queued, if there is one. -/
theorem backoff_receive (d : Dongle) (rx : ReceivedMeshPacket) (random : UInt32) :
    (d.receive rx random).1.backoff =
      let backoff :=
        if isValidNetworkTag rx.packet.header.networkTag ∧
            rx.packet.header.flags &&& flagTelemetry = 0 then
          (d.backoff.onOverhear rx.packet.header.msgId rx.packet.header.chunkIdx).2
        else d.backoff
      (d.scheduledRelay (.receive rx random)).elim backoff fun fwdPacket =>
        backoff.scheduleTx fwdPacket (calculateLqiRelayJitter rx.lqi (random % 15).toUInt16) := by
  simp only [receive, scheduledRelay, admits]
  by_cases hvalid : isValidNetworkTag rx.packet.header.networkTag = true
  · by_cases hflags : rx.packet.header.flags &&& flagTelemetry = 0
    · by_cases hseen : d.bloomFilter.contains rx.packet.header.msgId rx.packet.header.chunkIdx = true
      · simp [hvalid, hflags, hseen]
      -- Only what is not seen before reaches the relay.
      · by_cases hlqi : rx.lqi ≥ minRelayLqi
        · cases hhops : rx.packet.decrementTtl with
          | none => simp [hvalid, hflags, hseen, scheduleRelay, relayOf, hlqi, hhops]
          | some fwdPacket => simp [hvalid, hflags, hseen, scheduleRelay, relayOf, hlqi, hhops]
        · simp [hvalid, hflags, hseen, scheduleRelay, relayOf, hlqi]
    · simp [hvalid, hflags]
  · simp [hvalid]

/-- A run of inputs queues some relay. -/
def SchedulesRelay (d : Dongle) (inputs : List DongleInput) : Prop :=
  ∃ x ∈ machine.trace d inputs, (x.1.scheduledRelay x.2).isSome

/-- Copies as they arrive, each with its random number. -/
def heard (arrivals : List (ReceivedMeshPacket × UInt32)) : List DongleInput :=
  arrivals.map fun x => .receive x.1 x.2

theorem admits_copy {d : Dongle} {key : PacketKey} {rx : ReceivedMeshPacket}
    (copy : CopyOf key rx) : d.admits rx.packet = !d.bloomFilter.contains key.1 key.2 := by
  have hkey := copy.key_eq
  rw [admits, copy.validTag, decide_eq_true copy.notTelemetry, Bool.true_and, Bool.true_and, ← hkey]
  rfl

/-- A filter reports the key it has just taken. -/
theorem contains_insert_self (f : SlidingBloomFilter) (key : PacketKey) :
    (f.insert key.1 key.2).contains key.1 key.2 = true := by
  rw [SlidingBloomFilter.contains, Bool.or_eq_true]
  left
  rw [Vector.any_eq_true]
  exact ⟨f.lruHead, f.lruHead.isLt, by simp [SlidingBloomFilter.insert]⟩

/-- **Step lemma.** A copy is recorded, or was recorded before; either way the key is
recorded behind it. -/
theorem contains_next_copy {d : Dongle} {key : PacketKey} {rx : ReceivedMeshPacket} (random : UInt32)
    (copy : CopyOf key rx) :
    (machine.next d (.receive rx random)).bloomFilter.contains key.1 key.2 = true := by
  have hadmits := admits_copy (d := d) copy
  have hfilter := d.bloomFilter_next (.receive rx random)
  rw [insertedKey] at hfilter
  cases hseen : d.bloomFilter.contains key.1 key.2 with
  | true =>
    rw [hadmits, hseen, Bool.not_true, if_neg Bool.false_ne_true] at hfilter
    rw [hfilter, hseen]
  | false =>
    rw [hadmits, hseen, Bool.not_false, if_pos rfl, copy.key_eq] at hfilter
    rw [hfilter]
    exact contains_insert_self d.bloomFilter key

/-- **Run lemma.** Once the key is recorded, no copy is relayed. -/
theorem not_schedulesRelay_of_contains {d : Dongle} {key : PacketKey}
    (seen : d.bloomFilter.contains key.1 key.2 = true)
    {arrivals : List (ReceivedMeshPacket × UInt32)} (copies : ∀ x ∈ arrivals, CopyOf key x.1) :
    ¬ d.SchedulesRelay (heard arrivals) := by
  induction arrivals generalizing d with
  | nil => exact fun ⟨x, hx, _⟩ => absurd hx List.not_mem_nil
  | cons x rest ih =>
    obtain ⟨hx, hrest⟩ := List.forall_mem_cons.mp copies
    rintro ⟨y, hy, hrelay⟩
    rw [heard, List.map_cons, Machine.trace_cons] at hy
    rcases List.mem_cons.mp hy with rfl | hy
    · rw [scheduledRelay, admits_copy hx, seen, Bool.not_true, if_neg Bool.false_ne_true] at hrelay
      cases hrelay
    · exact ih (contains_next_copy x.2 hx) hrest ⟨y, hy, hrelay⟩

/-- The first copy decides. -/
theorem schedulesRelay_cons_iff {d : Dongle} {key : PacketKey}
    (unseen : d.bloomFilter.contains key.1 key.2 = false) (x : ReceivedMeshPacket × UInt32)
    {rest : List (ReceivedMeshPacket × UInt32)} (copies : ∀ y ∈ x :: rest, CopyOf key y.1) :
    d.SchedulesRelay (heard (x :: rest)) ↔ Relayable x.1 := by
  obtain ⟨hx, hrest⟩ := List.forall_mem_cons.mp copies
  have hfirst : d.scheduledRelay (.receive x.1 x.2) = relayOf x.1 := by
    rw [scheduledRelay, admits_copy hx, unseen, Bool.not_false, if_pos rfl]
  have htrace : machine.trace d (heard (x :: rest)) =
      (d, .receive x.1 x.2) :: machine.trace (machine.next d (.receive x.1 x.2)) (heard rest) := rfl
  rw [SchedulesRelay, htrace, ← isSome_relayOf, ← hfirst]
  constructor
  · rintro ⟨y, hy, hrelay⟩
    rcases List.mem_cons.mp hy with rfl | hy
    · exact hrelay
    · exact absurd ⟨y, hy, hrelay⟩
        (not_schedulesRelay_of_contains (contains_next_copy x.2 hx) hrest)
  · exact fun hrelay => ⟨_, List.mem_cons_self, hrelay⟩

/-- The dongle decides alike for every order in which the copies may arrive. -/
def OrderIndependent (d : Dongle) (arrivals : List (ReceivedMeshPacket × UInt32)) : Prop :=
  ∀ order order', order.Perm arrivals → order'.Perm arrivals →
    (d.SchedulesRelay (heard order) ↔ d.SchedulesRelay (heard order'))

/-- Any member can come first. -/
private theorem exists_perm_cons {α : Type*} {x : α} {l : List α} (h : x ∈ l) :
    ∃ rest, (x :: rest).Perm l := by
  classical
  exact ⟨l.erase x, (List.perm_cons_erase h).symm⟩

/-- All orders have a first member alike iff all members are alike. -/
theorem heads_agree_iff {α : Type*} {p : α → Prop} {l : List α} :
    (∀ order order' : List α, order.Perm l → order'.Perm l →
      ((∃ x ∈ order.head?, p x) ↔ ∃ x ∈ order'.head?, p x)) ↔
      (∀ x ∈ l, p x) ∨ ∀ x ∈ l, ¬ p x := by
  constructor
  · intro hagree
    by_contra hmixed
    rw [not_or, not_forall, not_forall] at hmixed
    obtain ⟨⟨bad, hbad⟩, ⟨good, hgood⟩⟩ := hmixed
    rw [Classical.not_imp] at hbad hgood
    -- A member with the property and one without it, each of which may come first.
    obtain ⟨rest, hrest⟩ := exists_perm_cons hgood.1
    obtain ⟨rest', hrest'⟩ := exists_perm_cons hbad.1
    obtain ⟨x, hx, hp⟩ := (hagree _ _ hrest hrest').mp ⟨good, rfl, not_not.mp hgood.2⟩
    obtain rfl := Option.some.inj hx
    exact hbad.2 hp
  · intro hagree order order' hperm hperm'
    have hlen : order.length = order'.length := (hperm.trans hperm'.symm).length_eq
    cases order with
    | nil =>
      obtain rfl := List.length_eq_zero_iff.mp hlen.symm
      exact Iff.rfl
    | cons x rest =>
      obtain ⟨y, rest', rfl⟩ := List.exists_cons_of_length_eq_add_one hlen.symm
      have hx : x ∈ l := hperm.mem_iff.mp List.mem_cons_self
      have hy : y ∈ l := hperm'.mem_iff.mp List.mem_cons_self
      simp only [List.head?_cons, Option.mem_some_iff, exists_eq_left']
      rcases hagree with hall | hnone
      · exact iff_of_true (hall x hx) (hall y hy)
      · exact iff_of_false (hnone x hx) (hnone y hy)

/-- Of any copies, the first decides. -/
theorem schedulesRelay_iff_head {d : Dongle} {key : PacketKey}
    (unseen : d.bloomFilter.contains key.1 key.2 = false)
    {order : List (ReceivedMeshPacket × UInt32)} (copies : ∀ x ∈ order, CopyOf key x.1) :
    d.SchedulesRelay (heard order) ↔ ∃ x ∈ order.head?, Relayable x.1 := by
  cases order with
  | nil =>
    constructor
    · exact fun ⟨x, hx, _⟩ => absurd hx List.not_mem_nil
    · exact fun ⟨x, hx, _⟩ => absurd hx (Option.not_mem_none x)
  | cons x rest =>
    rw [schedulesRelay_cons_iff unseen x copies, List.head?_cons]
    constructor
    · exact fun h => ⟨x, rfl, h⟩
    · rintro ⟨y, hy, h⟩
      obtain rfl := Option.some.inj hy
      exact h

/-- **Relay decision.** For every order of arrival the dongle schedules a relay iff the
first copy has a link good enough and hops left. So the decision does not depend on the
order iff all copies have both, or none has. -/
theorem relay_decided_by_first {d : Dongle} {key : PacketKey}
    (unseen : d.bloomFilter.contains key.1 key.2 = false)
    {arrivals : List (ReceivedMeshPacket × UInt32)} (copies : ∀ x ∈ arrivals, CopyOf key x.1) :
    (∀ order, order.Perm arrivals →
      (d.SchedulesRelay (heard order) ↔ ∃ x ∈ order.head?, Relayable x.1)) ∧
    (d.OrderIndependent arrivals ↔
      (∀ x ∈ arrivals, Relayable x.1) ∨ ∀ x ∈ arrivals, ¬ Relayable x.1) := by
  have hfirst : ∀ order, order.Perm arrivals →
      (d.SchedulesRelay (heard order) ↔ ∃ x ∈ order.head?, Relayable x.1) :=
    fun order hperm => schedulesRelay_iff_head unseen fun x hx =>
      copies x (hperm.mem_iff.mp hx)
  refine ⟨hfirst, Iff.trans ?_ heads_agree_iff⟩
  constructor
  · intro independent order order' hperm hperm'
    rw [← hfirst order hperm, ← hfirst order' hperm']
    exact independent order order' hperm hperm'
  · intro hagree order order' hperm hperm'
    rw [hfirst order hperm, hfirst order' hperm']
    exact hagree order order' hperm hperm'

/-- A beacon heard over a link of some quality. -/
def heardBeacon (lqi : UInt8) : ReceivedMeshPacket × UInt32 := (⟨beaconPacket 7, 9, -50, lqi⟩, 0)

theorem copies_heardBeacon (lqi lqi' : UInt8) :
    ∀ x ∈ [heardBeacon lqi, heardBeacon lqi'], CopyOf (7, 0) x.1 := by
  have hcopy : ∀ lqi, CopyOf (7, 0) (heardBeacon lqi).1 :=
    fun lqi => ⟨rfl, (by decide : isValidNetworkTag defaultNetworkTag = true),
      (by decide : flagAckReq &&& flagTelemetry = 0)⟩
  intro x hx
  rcases List.mem_cons.mp hx with rfl | hx
  · exact hcopy lqi
  · obtain rfl := List.mem_singleton.mp hx
    exact hcopy lqi'

theorem unseen_boot : (boot (.zero 8)).bloomFilter.contains 7 0 = false := by decide +kernel

/-- Two good copies are relayed in either order. -/
theorem relay_decided_by_first_goodLinks :
    (boot (.zero 8)).OrderIndependent [heardBeacon 200, heardBeacon 100] := by
  exact (relay_decided_by_first unseen_boot (copies_heardBeacon 200 100)).2.mpr
    (Or.inl (by decide))

/-- A good copy is not relayed behind a weak one, though it is when it comes first. -/
theorem not_orderIndependent_weakLink :
    Relayable (heardBeacon 200).1 ∧
      (∀ x ∈ [heardBeacon 10, heardBeacon 200], CopyOf (7, 0) x.1) ∧
      (boot (.zero 8)).bloomFilter.contains 7 0 = false ∧
      ¬ (boot (.zero 8)).SchedulesRelay (heard [heardBeacon 10, heardBeacon 200]) ∧
      (boot (.zero 8)).SchedulesRelay (heard [heardBeacon 200, heardBeacon 10]) := by
  refine ⟨by decide, copies_heardBeacon 10 200, unseen_boot, ?_, ?_⟩
  · rw [schedulesRelay_cons_iff unseen_boot _ (copies_heardBeacon 10 200)]
    decide
  · rw [schedulesRelay_cons_iff unseen_boot _ (copies_heardBeacon 200 10)]
    decide

end Dongle

end Gibberish.Firmware
