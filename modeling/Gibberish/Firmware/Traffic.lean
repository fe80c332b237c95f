/-
# What a dongle hands to its radio

Every packet that leaves the queue of a dongle was offered to it before: a beacon,
telemetry, a packet of the host, or a relay. Packets of the first three kinds are the
dongle's own, and all but telemetry record their key when they are offered, so a dongle
hands a key to its radio at most as often as it records it.
-/

import Gibberish.Firmware.BackoffQueue
import Gibberish.Firmware.RelayDecision

set_option autoImplicit false

namespace Gibberish.Firmware

open Gibberish.Foundation Gibberish.Protocol

/-- The packet that an output hands to the radio, whether or not the radio takes it. -/
def DongleOutput.handed : DongleOutput → Option MeshPacket
  | .broadcast _ packet => some packet
  | .txFail packet => some packet
  | _ => none

/-- The packets that some outputs hand to the radio. -/
def handed (outputs : List DongleOutput) : List MeshPacket := outputs.filterMap DongleOutput.handed

/-- Hops left and hops taken. -/
def hops (packet : MeshPacket) : ℕ := packet.header.ttl.toNat + packet.header.hopCount.toNat

/-- A relay keeps the key, the tag and the flags, and takes one of the hops left, unless
the count of hops taken is at its end. -/
theorem relayOf_cases {rx : ReceivedMeshPacket} {packet : MeshPacket}
    (h : relayOf rx = some packet) :
    packetKey packet = packetKey rx.packet ∧
      packet.header.networkTag = rx.packet.header.networkTag ∧
      packet.header.flags = rx.packet.header.flags ∧
      (hops rx.packet ≤ 255 → hops packet = hops rx.packet) := by
  have httl := ((isSome_relayOf rx).mp (h ▸ rfl)).2
  simp only [relayOf, Option.ite_none_right_eq_some, MeshPacket.decrementTtl, if_pos httl,
    Option.some.injEq] at h
  obtain ⟨-, rfl⟩ := h
  refine ⟨rfl, rfl, rfl, fun hsum => ?_⟩
  have hpos : 0 < rx.packet.header.ttl.toNat := UInt8.lt_iff_toNat_lt.mp httl
  have hle : (1 : UInt8) ≤ rx.packet.header.ttl := UInt8.le_iff_toNat_le.mpr hpos
  -- With a hop left, the count of hops taken is below its end.
  have hcount : rx.packet.header.hopCount.toNat < 255 := by
    rw [hops] at hsum
    omega
  have hne : rx.packet.header.hopCount ≠ 255 := fun heq => by
    rw [heq] at hcount
    exact absurd hcount (by decide)
  show (rx.packet.header.ttl - 1).toNat +
    (if rx.packet.header.hopCount = 255 then 255 else rx.packet.header.hopCount + 1).toNat = _
  rw [if_neg hne, UInt8.toNat_sub_of_le _ _ hle, UInt8.toNat_add, hops]
  show rx.packet.header.ttl.toNat - 1 + (rx.packet.header.hopCount.toNat + 1) % 256 = _
  omega

namespace Dongle

/-- The packet an input offers to the queue that is the dongle's own or its host's. -/
def ownPacket (d : Dongle) : DongleInput → Option MeshPacket
  | .buttonPress => some (beaconPacket (d.localNodeId + (d.beaconSeq + 1)))
  | .emitTelemetry payload _ => some (telemetryPacket (d.telemSeq + 1) payload)
  | .usbByte b => d.accepts b
  | _ => none

/-- The packet an input offers to the queue, which refuses telemetry while user traffic waits. -/
def offeredPacket (d : Dongle) (input : DongleInput) : Option MeshPacket :=
  match d.ownPacket input with
  | some packet => some packet
  | none => d.scheduledRelay input

/-- A packet off the radio is never handed on directly. -/
theorem handed_receive (d : Dongle) (rx : ReceivedMeshPacket) (random : UInt32) :
    handed (d.receive rx random).2 = [] := by
  simp only [receive]
  split
  · rfl
  · split
    · rfl
    · split
      · rfl
      · rfl

/-- A broadcast frame holds the packet that is broadcast. -/
theorem frame_of_broadcast {d : Dongle} {input : DongleInput} {frame : Bytes phyMtu}
    {packet : MeshPacket} (h : .broadcast frame packet ∈ machine.emit d input) :
    frame = (d.radio.transmit packet).1 := by
  cases input with
  | serviceBackoff elapsedMs txOk =>
    simp only [Machine.emit, machine, step, serviceBackoff] at h
    split at h
    · cases h
    · split at h
      · cases h
      · cases txOk with
        | true =>
          obtain ⟨hframe, rfl⟩ := DongleOutput.broadcast.inj (List.mem_singleton.mp h)
          exact hframe
        | false => cases List.mem_singleton.mp h
  | receive rx random =>
    have hnone := List.filterMap_eq_nil_iff.mp (d.handed_receive rx random) _ h
    cases hnone
  | usbByte b =>
    simp only [Machine.emit, machine, step, usbByte] at h
    split at h
    · cases h
    · cases List.mem_singleton.mp h
  | buttonPress => cases h
  | emitTelemetry payload jitterMs => cases h

/-- **Step lemma.** What an input hands to the radio and what then waits was waiting before
or is offered by this input. -/
theorem handed_append_packets_sublist (d : Dongle) (input : DongleInput) :
    (handed (machine.emit d input) ++ (machine.next d input).backoff.packets).Sublist
      (d.backoff.packets ++ (d.offeredPacket input).toList) := by
  cases input with
  | buttonPress => exact d.backoff.packets_scheduleTx_sublist _ _
  | serviceBackoff elapsedMs txOk =>
    have htick := d.backoff.packets_tick elapsedMs
    simp only [Machine.emit, Machine.next, machine, step, serviceBackoff]
    show List.Sublist _ (d.backoff.packets ++ [])
    rw [List.append_nil, ← htick]
    split
    · rename_i backoff hnot
      rw [hnot]
      exact List.Sublist.refl _
    · rename_i backoff hdue
      rw [hdue]
      have htake := backoff.packets_takePending
      split
      · rename_i rest hnone
        rw [hnone] at htake
        exact (htake ▸ List.Sublist.refl _ : rest.packets.Sublist backoff.packets)
      · rename_i packet rest hsome
        rw [hsome] at htake
        rw [htake]
        cases txOk with
        | true => exact List.Sublist.refl _
        | false => exact List.Sublist.refl _
  | emitTelemetry payload jitterMs => exact d.backoff.packets_scheduleTelemetry_sublist _ _
  | receive rx random =>
    have houtputs : handed (machine.emit d (.receive rx random)) = [] := d.handed_receive rx random
    rw [houtputs, List.nil_append]
    show ((d.receive rx random).1.backoff.packets).Sublist _
    rw [backoff_receive]
    -- Overhearing removes packets, and the relay is the one that is added.
    have hoverheard : ∀ p : Prop, [Decidable p] →
        (if p then (d.backoff.onOverhear rx.packet.header.msgId rx.packet.header.chunkIdx).2
          else d.backoff).packets.Sublist d.backoff.packets := by
      intro p _
      split
      · exact d.backoff.packets_onOverhear_sublist _ _
      · exact List.Sublist.refl _
    show List.Sublist _ (d.backoff.packets ++ (d.scheduledRelay (.receive rx random)).toList)
    cases d.scheduledRelay (.receive rx random) with
    | none => exact (hoverheard _).trans (List.sublist_append_left _ _)
    | some fwdPacket =>
      exact (BackoffController.packets_scheduleTx_sublist _ _ _).trans
        ((hoverheard _).append_right _)
  | usbByte b =>
    simp only [Machine.emit, Machine.next, machine, step, usbByte, offeredPacket, ownPacket]
    cases d.accepts b with
    | none => exact List.sublist_append_left _ _
    | some packet => exact d.backoff.packets_scheduleTx_sublist _ _

/-- The packets a run offers to the queue, those of refused telemetry included. -/
def offeredPackets (d : Dongle) (inputs : List DongleInput) : List MeshPacket :=
  (machine.trace d inputs).filterMap fun x => x.1.offeredPacket x.2

/-- The packets of its own, or of its host, that a run offers to the queue. -/
def ownPackets (d : Dongle) (inputs : List DongleInput) : List MeshPacket :=
  (machine.trace d inputs).filterMap fun x => x.1.ownPacket x.2

/-- **Run lemma.** A run hands on no more packets of a kind than were waiting or were offered. -/
theorem countP_handed_le (P : MeshPacket → Bool) (d : Dongle) (inputs : List DongleInput) :
    (handed (machine.outputs d inputs)).countP P +
        (machine.final d inputs).backoff.packets.countP P ≤
      d.backoff.packets.countP P + (d.offeredPackets inputs).countP P := by
  induction inputs generalizing d with
  | nil => exact (Nat.zero_add _).le.trans (Nat.le_add_right _ _)
  | cons input rest ih =>
    have hstep := (d.handed_append_packets_sublist input).countP_le (p := P)
    have hrest := ih (machine.next d input)
    have hoffered : d.offeredPackets (input :: rest) =
        (d.offeredPacket input).toList ++ (machine.next d input).offeredPackets rest := by
      rw [offeredPackets, Machine.trace_cons, List.filterMap_cons, offeredPackets]
      cases d.offeredPacket input with
      | none => rfl
      | some packet => rfl
    rw [List.countP_append, List.countP_append] at hstep
    rw [Machine.outputs_cons, handed, List.filterMap_append, ← handed, ← handed, List.countP_append,
      Machine.final_cons, hoffered, List.countP_append]
    omega

/-- A dongle hands on nothing that it did not offer to its queue since it started. -/
theorem mem_offeredPackets_of_handed {localMac : Bytes 8} {inputs : List DongleInput}
    {packet : MeshPacket} (h : packet ∈ handed (machine.outputs (boot localMac) inputs)) :
    packet ∈ (boot localMac).offeredPackets inputs := by
  have hcount := countP_handed_le (· == packet) (boot localMac) inputs
  have hboot : (boot localMac).backoff.packets = [] := rfl
  have hpos : 0 < (handed (machine.outputs (boot localMac) inputs)).countP (· == packet) :=
    List.countP_pos_iff.mpr ⟨packet, h, beq_self_eq_true packet⟩
  rw [hboot, List.countP_nil, Nat.zero_add] at hcount
  obtain ⟨packet', hmem, heq⟩ := List.countP_pos_iff.mp
    (hpos.trans_le ((Nat.le_add_right _ _).trans hcount))
  exact eq_of_beq heq ▸ hmem

/-! ### Where packets come from -/

/-- A packet is offered as the dongle's own, or as the relay of an admitted one. -/
theorem offeredPacket_cases {d : Dongle} {input : DongleInput} {packet : MeshPacket}
    (h : d.offeredPacket input = some packet) :
    d.ownPacket input = some packet ∨
      ∃ rx random, input = .receive rx random ∧ d.admits rx.packet = true ∧
        relayOf rx = some packet := by
  rw [offeredPacket] at h
  split at h
  · rename_i own hown
    exact Or.inl (hown.trans h)
  · cases input with
    | receive rx random =>
      simp only [scheduledRelay, Option.ite_none_right_eq_some] at h
      exact Or.inr ⟨rx, random, rfl, h⟩
    | _ => cases h

/-- Whatever a dongle queues has an admitted tag. -/
theorem validTag_of_offeredPacket {d : Dongle} {input : DongleInput} {packet : MeshPacket}
    (h : d.offeredPacket input = some packet) :
    isValidNetworkTag packet.header.networkTag = true := by
  rcases offeredPacket_cases h with hown | ⟨rx, random, -, hadmits, hrelay⟩
  · cases input with
    | buttonPress =>
      obtain rfl := Option.some.inj hown
      exact (by decide : isValidNetworkTag defaultNetworkTag = true)
    | emitTelemetry payload jitterMs =>
      obtain rfl := Option.some.inj hown
      exact (by decide : isValidNetworkTag defaultNetworkTag = true)
    | usbByte b =>
      obtain ⟨pktBuf, -, hpacket⟩ := Option.bind_eq_some_iff.mp hown
      simp only [packetOf, Option.ite_none_right_eq_some, Option.some.injEq] at hpacket
      obtain ⟨hvalid, rfl⟩ := hpacket
      exact hvalid
    | _ => cases hown
  · simp only [admits, Bool.and_eq_true] at hadmits
    rw [(relayOf_cases hrelay).2.1]
    exact hadmits.1.1

/-- **Telemetry stays.** A telemetry packet that a dongle hands to its radio is its own or
its host's, never one that it received. -/
theorem mem_ownPackets_of_telemetry {localMac : Bytes 8} {inputs : List DongleInput}
    {packet : MeshPacket} (h : packet ∈ handed (machine.outputs (boot localMac) inputs))
    (telemetry : ¬ IsUser packet) : packet ∈ (boot localMac).ownPackets inputs := by
  obtain ⟨⟨d, input⟩, hmem, hoffered⟩ := List.mem_filterMap.mp (mem_offeredPackets_of_handed h)
  rcases offeredPacket_cases hoffered with hown | ⟨rx, random, -, hadmits, hrelay⟩
  · exact List.mem_filterMap.mpr ⟨_, hmem, hown⟩
  · -- What is relayed is admitted, and telemetry is not.
    obtain ⟨-, -, hflags, -⟩ := relayOf_cases hrelay
    simp only [admits, Bool.and_eq_true, decide_eq_true_eq] at hadmits
    rw [IsUser, hflags] at telemetry
    exact absurd hadmits.1.2 telemetry

/-! ### Keys -/

/-- The packet an input makes up on its own. -/
def selfMade (d : Dongle) : DongleInput → Option MeshPacket
  | .buttonPress => some (beaconPacket (d.localNodeId + (d.beaconSeq + 1)))
  | .emitTelemetry payload _ => some (telemetryPacket (d.telemSeq + 1) payload)
  | _ => none

/-- No beacon and no telemetry packet has the key. -/
def Avoids (key : PacketKey) (d : Dongle) (input : DongleInput) : Prop :=
  ∀ packet ∈ d.selfMade input, packetKey packet ≠ key

/-- Unless it is telemetry, what an input queues has the key that the input records. -/
theorem insertedKey_of_offeredPacket {key : PacketKey} {d : Dongle} {input : DongleInput}
    {packet : MeshPacket} (avoids : d.Avoids key input) (h : d.offeredPacket input = some packet)
    (hkey : packetKey packet = key) : d.insertedKey input = some key := by
  rcases offeredPacket_cases h with hown | ⟨rx, random, rfl, hadmits, hrelay⟩
  · cases input with
    | usbByte b =>
      rw [insertedKey, show d.accepts b = some packet from hown, Option.map_some, hkey]
    | buttonPress => exact absurd hkey (avoids packet hown)
    | emitTelemetry payload jitterMs => exact absurd hkey (avoids packet hown)
    | _ => cases hown
  · rw [insertedKey, if_pos hadmits, ← (relayOf_cases hrelay).1, hkey]

/-- A run records a key at least as often as it offers packets with it. -/
theorem countP_offeredPackets_le {key : PacketKey} {d : Dongle} {inputs : List DongleInput}
    (avoids : machine.Guarded (Avoids key) d inputs) :
    (d.offeredPackets inputs).countP (packetKey · == key) ≤ (d.insertedKeys inputs).count key := by
  induction inputs generalizing d with
  | nil => exact Nat.le_refl 0
  | cons input rest ih =>
    obtain ⟨hinput, hrest⟩ := (Machine.guarded_cons _ _ _ _).mp avoids
    have htail := ih hrest
    rw [offeredPackets, insertedKeys] at htail
    rw [offeredPackets, insertedKeys, Machine.trace_cons, List.filterMap_cons, List.filterMap_cons]
    cases hoffered : d.offeredPacket input with
    | none =>
      refine htail.trans ?_
      cases d.insertedKey input with
      | none => exact Nat.le_refl _
      | some key' => exact List.count_le_count_cons
    | some packet =>
      by_cases hkey : packetKey packet = key
      · simp only [insertedKey_of_offeredPacket hinput hoffered hkey]
        rw [List.countP_cons_of_pos (p := (packetKey · == key)) (beq_iff_eq.mpr hkey),
          List.count_cons_self]
        exact Nat.succ_le_succ htail
      · simp only
        rw [List.countP_cons_of_neg (p := (packetKey · == key)) (by rwa [beq_iff_eq])]
        refine htail.trans ?_
        cases d.insertedKey input with
        | none => exact Nat.le_refl _
        | some key' => exact List.count_le_count_cons

/-- **A dongle hands a key to its radio at most as often as it records it.** -/
theorem countP_handed_le_count {key : PacketKey} {localMac : Bytes 8} {inputs : List DongleInput}
    (avoids : machine.Guarded (Avoids key) (boot localMac) inputs) :
    (handed (machine.outputs (boot localMac) inputs)).countP (packetKey · == key) ≤
      ((boot localMac).insertedKeys inputs).count key := by
  have hhanded := countP_handed_le (packetKey · == key) (boot localMac) inputs
  have hboot : (boot localMac).backoff.packets = [] := rfl
  rw [hboot, List.countP_nil, Nat.zero_add] at hhanded
  exact (Nat.le_add_right _ _).trans (hhanded.trans (countP_offeredPackets_le avoids))

end Dongle

end Gibberish.Firmware
