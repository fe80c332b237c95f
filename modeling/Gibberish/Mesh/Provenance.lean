/-
# Where packets come from

A network makes nothing up. Whatever a node broadcasts, hears or prints is a packet that
some node, or its host, put in, with so many hops taken as it was relayed, and with nothing
else changed.
-/

import Gibberish.Firmware.LoopClocks
import Gibberish.Mesh.Flooding

set_option autoImplicit false

namespace Gibberish.Mesh

open Gibberish.Foundation Gibberish.Protocol Gibberish.Firmware

theorem toNat_ofNat_of_le {n : ℕ} (h : n ≤ 255) : (UInt8.ofNat n).toNat = n :=
  UInt8.toNat_ofNat_of_lt' (Nat.lt_succ_of_le h)

/-- A packet after so many relays. -/
def aged (n : ℕ) (packet : MeshPacket) : MeshPacket :=
  { packet with
    header := { packet.header with
      ttl := packet.header.ttl - .ofNat n
      hopCount := .ofNat (min (packet.header.hopCount.toNat + n) 255) } }

@[simp] theorem aged_zero (packet : MeshPacket) : aged 0 packet = packet := by
  have httl : packet.header.ttl - .ofNat 0 = packet.header.ttl := UInt8.sub_zero _
  have hhops : UInt8.ofNat (min (packet.header.hopCount.toNat + 0) 255) =
      packet.header.hopCount := by
    rw [Nat.add_zero, Nat.min_eq_left (Nat.le_of_lt_succ packet.header.hopCount.toNat_lt),
      UInt8.ofNat_toNat]
  rw [aged, httl, hhops]

/-- **A relay** takes one hop more, while there is one left. -/
theorem decrementTtl_aged {packet fwdPacket : MeshPacket} {n : ℕ}
    (le : n ≤ packet.header.ttl.toNat) (relay : (aged n packet).decrementTtl = some fwdPacket) :
    n + 1 ≤ packet.header.ttl.toNat ∧ fwdPacket = aged (n + 1) packet := by
  have hlt := packet.header.ttl.toNat_lt
  have hn : (UInt8.ofNat n).toNat = n := toNat_ofNat_of_le (by omega)
  have hle : UInt8.ofNat n ≤ packet.header.ttl := UInt8.le_iff_toNat_le.mpr (by omega)
  have hleft : (packet.header.ttl - .ofNat n).toNat = packet.header.ttl.toNat - n := by
    rw [UInt8.toNat_sub_of_le _ _ hle, hn]
  rw [MeshPacket.decrementTtl] at relay
  split at relay
  · next hpos =>
    have hpos' : 0 < (packet.header.ttl - .ofNat n).toNat := UInt8.lt_iff_toNat_lt.mp hpos
    have hone : (1 : UInt8) ≤ packet.header.ttl - .ofNat n := UInt8.le_iff_toNat_le.mpr hpos'
    have hmore : UInt8.ofNat (n + 1) ≤ packet.header.ttl := by
      rw [UInt8.le_iff_toNat_le, toNat_ofNat_of_le (by omega)]
      omega
    have httl : packet.header.ttl - .ofNat n - 1 = packet.header.ttl - .ofNat (n + 1) := by
      apply UInt8.toNat_inj.mp
      rw [UInt8.toNat_sub_of_le _ _ hone, hleft, UInt8.toNat_sub_of_le _ _ hmore,
        toNat_ofNat_of_le (by omega)]
      rfl
    have hhops : (if (aged n packet).header.hopCount = 255 then 255
          else (aged n packet).header.hopCount + 1) =
        .ofNat (min (packet.header.hopCount.toNat + (n + 1)) 255) := by
      have hcount : (UInt8.ofNat (min (packet.header.hopCount.toNat + n) 255)).toNat =
          min (packet.header.hopCount.toNat + n) 255 := toNat_ofNat_of_le (Nat.min_le_right _ _)
      show (if UInt8.ofNat (min (packet.header.hopCount.toNat + n) 255) = 255 then 255
        else UInt8.ofNat (min (packet.header.hopCount.toNat + n) 255) + 1) = _
      apply UInt8.toNat_inj.mp
      rw [toNat_ofNat_of_le (Nat.min_le_right (packet.header.hopCount.toNat + (n + 1)) 255)]
      split
      · next hend =>
        have h255 : min (packet.header.hopCount.toNat + n) 255 = 255 := by
          rw [← hcount, hend]
          rfl
        show 255 = _
        omega
      · next hmid =>
        have h255 : min (packet.header.hopCount.toNat + n) 255 ≠ 255 := fun h =>
          hmid (UInt8.toNat_inj.mp (hcount.trans h))
        rw [UInt8.toNat_add, hcount]
        show (_ + 1) % 256 = _
        omega
    obtain rfl := Option.some.inj relay
    refine ⟨by omega, ?_⟩
    rw [hhops]
    show MeshPacket.mk (MeshHeader.mk _ _ _ _ (packet.header.ttl - .ofNat n - 1) _ _) _ = _
    rw [httl]
    rfl
  · cases relay

/-- The packet that an output is about. -/
def packetOf : DongleOutput → MeshPacket
  | .broadcast _ packet => packet
  | .txFail packet => packet
  | .telemetryRx rx => rx.packet
  | .radioRx rx => rx.packet
  | .pktLine _ packet => packet
  | .usbRx packet => packet

/-- An output is about a packet that was offered, one that comes in, or one of the dongle's own. -/
theorem packetOf_cases {d : Dongle} {input : DongleInput} {output : DongleOutput}
    (h : output ∈ Dongle.machine.emit d input) :
    output.handed = some (packetOf output) ∨
      (∃ rx random, input = .receive rx random ∧ packetOf output = rx.packet) ∨
      d.ownPacket input = some (packetOf output) := by
  cases input with
  | buttonPress => cases h
  | emitTelemetry payload jitterMs => cases h
  | serviceBackoff elapsedMs txOk =>
    left
    simp only [Machine.emit, Dongle.machine, Dongle.step, Dongle.serviceBackoff] at h
    split at h
    · cases h
    · split at h
      · cases h
      · cases txOk with
        | true =>
          obtain rfl := List.mem_singleton.mp h
          rfl
        | false =>
          obtain rfl := List.mem_singleton.mp h
          rfl
  | receive rx random =>
    refine Or.inr (Or.inl ⟨rx, random, rfl, ?_⟩)
    simp only [Machine.emit, Dongle.machine, Dongle.step, Dongle.receive] at h
    split at h
    · cases h
    · split at h
      · obtain rfl := List.mem_singleton.mp h
        rfl
      · split at h
        · cases h
        · rcases List.mem_pair.mp h with rfl | rfl
          · rfl
          · rfl
  | usbByte b =>
    refine Or.inr (Or.inr ?_)
    simp only [Machine.emit, Dongle.machine, Dongle.step, Dongle.usbByte] at h
    split at h
    · cases h
    · next packet haccepts =>
      obtain rfl := List.mem_singleton.mp h
      exact haccepts

/-- Of inputs with one press and one firing at most, each takes the number that comes next at
their start. -/
theorem selfMade_of_mem_trace {d : Dongle} {inputs : List DongleInput}
    (presses : inputs.countP DongleInput.isPress ≤ 1)
    (firings : inputs.countP DongleInput.isTelemetry ≤ 1) {x : Dongle × DongleInput}
    (hx : x ∈ Dongle.machine.trace d inputs) : x.1.selfMade x.2 = d.selfMade x.2 := by
  obtain ⟨before, after, hinputs, hstate⟩ := Machine.mem_trace hx
  obtain ⟨d', input⟩ := x
  obtain rfl : d' = Dongle.machine.final d before := hstate
  subst hinputs
  cases input with
  | buttonPress =>
    have hnone : before.countP DongleInput.isPress = 0 := by
      rw [List.countP_append, List.countP_cons_of_pos rfl] at presses
      omega
    simp only [Dongle.selfMade, Dongle.localNodeId, MainLoop.localMac_final,
      MainLoop.beaconSeq_final hnone]
  | emitTelemetry payload jitterMs =>
    have hnone : before.countP DongleInput.isTelemetry = 0 := by
      rw [List.countP_append, List.countP_cons_of_pos rfl] at firings
      omega
    simp only [Dongle.selfMade, MainLoop.telemSeq_final hnone]
  | _ => rfl

namespace Network

variable {Node : Type*} [DecidableEq Node] {localMac : Node → Bytes 8}

/-- A packet that some node, or its host, put in, after so many relays as it had hops for. -/
def PutIn (localMac : Node → Bytes 8) (inputs : List (NetworkInput Node)) (packet : MeshPacket) :
    Prop :=
  ∃ origin, ∃ first ∈ ownAt origin localMac inputs, ∃ n ≤ first.header.ttl.toNat,
    packet = aged n first

/-- A network whose packets were all put in. -/
structure Traced (localMac : Node → Bytes 8) (inputs : List (NetworkInput Node)) : Prop where
  tagged : ∀ node, ∀ packet ∈ offeredAt node localMac inputs,
    isValidNetworkTag packet.header.networkTag = true
  offered : ∀ node, ∀ packet ∈ offeredAt node localMac inputs, PutIn localMac inputs packet
  air : ∀ frame ∈ (machine.final (boot localMac) inputs).air, ∃ mac frameSeq node,
    ∃ packet ∈ offeredAt node localMac inputs,
      frame = assemblePhyFrame mac packet frameSeq (.zero phyMtu)
  told : ∀ node output, (node, output) ∈ machine.outputs (boot localMac) inputs →
    PutIn localMac inputs (packetOf output)

theorem traced_boot : Traced localMac ([] : List (NetworkInput Node)) where
  tagged _ _ h := absurd h List.not_mem_nil
  offered _ _ h := absurd h List.not_mem_nil
  air _ h := absurd h List.not_mem_nil
  told _ _ h := absurd h List.not_mem_nil

section Step

variable {inputs : List (NetworkInput Node)} {input : NetworkInput Node}

theorem ownAt_subset (node : Node) (inputs more : List (NetworkInput Node)) :
    ownAt node localMac inputs ⊆ ownAt node localMac (inputs ++ more) := by
  intro packet hpacket
  rw [ownAt, inputsAt_append, Dongle.ownPackets, Machine.trace_append, List.filterMap_append]
  exact List.mem_append_left _ hpacket

theorem PutIn.append {packet : MeshPacket} (h : PutIn localMac inputs packet)
    (more : List (NetworkInput Node)) : PutIn localMac (inputs ++ more) packet := by
  obtain ⟨origin, first, hfirst, n, hn, rfl⟩ := h
  exact ⟨origin, first, ownAt_subset origin inputs more hfirst, n, hn, rfl⟩

/-- What a node makes up or takes from its host is put in. -/
theorem putIn_of_ownPacket {node : Node} {dongleInput : DongleInput} {packet : MeshPacket}
    (hnode : (machine.final (boot localMac) inputs).nodeInput input = some (node, dongleInput))
    (hown : ((machine.final (boot localMac) inputs).dongle node).ownPacket dongleInput =
      some packet) :
    PutIn localMac (inputs ++ [input]) packet := by
  refine ⟨node, packet, ?_, 0, Nat.zero_le _, (aged_zero packet).symm⟩
  have hat : (machine.final (boot localMac) inputs).inputAt node input = some dongleInput := by
    rw [inputAt, hnode]
    exact if_pos rfl
  rw [ownAt, inputsAt_snoc, hat, Dongle.ownPackets, Machine.trace_append, List.filterMap_append,
    ← dongle_final]
  refine List.mem_append_right _ (List.mem_filterMap.mpr ⟨_, List.mem_singleton_self _, hown⟩)

/-- A packet that comes in was offered somewhere. -/
theorem Traced.received (traced : Traced localMac inputs)
    (delivers : Delivers (machine.final (boot localMac) inputs) input) {node : Node}
    {rx : ReceivedMeshPacket} {random : UInt32}
    (hnode : (machine.final (boot localMac) inputs).nodeInput input =
      some (node, .receive rx random)) :
    PutIn localMac inputs rx.packet := by
  cases input with
  | act node' dongleInput =>
    obtain ⟨-, rfl⟩ := Prod.mk.inj (Option.some.inj hnode)
    exact absurd rfl (delivers rx random)
  | deliver node' data random' =>
    obtain ⟨frame, hframe, heard⟩ := delivers
    obtain ⟨mac, frameSeq, sender, packet, hpacket, rfl⟩ := traced.air frame hframe
    obtain ⟨rx', hrx', heq⟩ := Option.map_eq_some_iff.mp hnode
    obtain ⟨rfl, -⟩ := DongleInput.receive.inj (Prod.mk.inj heq).2
    rw [receiveRaw_of_hears _ (traced.tagged sender packet hpacket) heard] at hrx'
    split at hrx'
    · cases hrx'
    · obtain rfl := Option.some.inj hrx'
      exact traced.offered sender packet hpacket

/-- A packet that the last input queues. -/
theorem Traced.offered_snoc (traced : Traced localMac inputs)
    (delivers : Delivers (machine.final (boot localMac) inputs) input) {node : Node}
    {packet : MeshPacket} (hpacket : packet ∈ offeredAt node localMac (inputs ++ [input])) :
    PutIn localMac (inputs ++ [input]) packet := by
  rcases mem_offeredAt_snoc hpacket with hold | ⟨dongleInput, hnode, hoffered⟩
  · exact (traced.offered node packet hold).append [input]
  · rcases Dongle.offeredPacket_cases hoffered with hown | ⟨rx, random, rfl, -, hrelay⟩
    · exact putIn_of_ownPacket hnode hown
    · -- A relay is one hop older than the packet that came in.
      obtain ⟨origin, first, hfirst, n, hn, hrx⟩ := traced.received delivers hnode
      rw [relayOf, Option.ite_none_right_eq_some] at hrelay
      obtain ⟨hmore, rfl⟩ := decrementTtl_aged hn (hrx ▸ hrelay.2)
      exact ⟨origin, first, ownAt_subset origin inputs [input] hfirst, n + 1, hmore, rfl⟩

/-- **Step lemma.** -/
theorem Traced.step (traced : Traced localMac inputs)
    (delivers : Delivers (machine.final (boot localMac) inputs) input) :
    Traced localMac (inputs ++ [input]) where
  tagged node packet hpacket := by
    rcases mem_offeredAt_snoc hpacket with hold | ⟨dongleInput, -, hoffered⟩
    · exact traced.tagged node packet hold
    · exact Dongle.validTag_of_offeredPacket hoffered
  offered node packet hpacket := traced.offered_snoc delivers hpacket
  air frame hframe := by
    rw [Machine.final_append, Machine.final_cons, Machine.final_nil, air_next] at hframe
    rcases List.mem_append.mp hframe with hold | hnew
    · obtain ⟨mac, frameSeq, node, packet, hpacket, rfl⟩ := traced.air frame hold
      exact ⟨mac, frameSeq, node, packet, offeredAt_subset node inputs [input] hpacket, rfl⟩
    · obtain ⟨⟨node, output⟩, hmem, hframeOf⟩ := List.mem_filterMap.mp hnew
      obtain ⟨dongleInput, -, hout⟩ := exists_of_mem_emit hmem
      cases output with
      | broadcast frame' packet =>
        obtain rfl := Option.some.inj hframeOf
        have hmem' : (node, DongleOutput.broadcast frame' packet) ∈
            machine.outputs (boot localMac) (inputs ++ [input]) := by
          rw [Machine.outputs_append]
          exact List.mem_append_right _ (List.mem_append_left _ hmem)
        exact ⟨_, _, node, packet, mem_offeredAt_of_handed hmem' rfl,
          Dongle.frame_of_broadcast hout⟩
      | _ => cases hframeOf
  told node output hmem := by
    have hrun := hmem
    rw [Machine.outputs_append, Machine.outputs_cons, Machine.outputs_nil, List.append_nil] at hmem
    rcases List.mem_append.mp hmem with hold | hnew
    · exact (traced.told node output hold).append [input]
    · obtain ⟨dongleInput, hnode, hout⟩ := exists_of_mem_emit hnew
      rcases packetOf_cases hout with hhanded | ⟨rx, random, rfl, heq⟩ | hown
      · exact traced.offered_snoc delivers (mem_offeredAt_of_handed hrun hhanded)
      · rw [heq]
        exact (traced.received delivers hnode).append [input]
      · exact putIn_of_ownPacket hnode hown

end Step

/-- **Run lemma.** -/
theorem traced_of_run {inputs : List (NetworkInput Node)}
    (delivers : machine.Guarded Delivers (boot localMac) inputs) : Traced localMac inputs := by
  induction inputs using List.reverseRecOn with
  | nil => exact traced_boot
  | append_singleton inputs input ih =>
    obtain ⟨hbefore, hlast⟩ := (Machine.guarded_append _ _ _ _).mp delivers
    exact (ih hbefore).step ((Machine.guarded_cons _ _ _ _).mp hlast).1

/-- **What is put in** is what a press or a firing at the node made, or a packet that its host
gave it. -/
theorem ownAt_cases {origin : Node} {inputs : List (NetworkInput Node)} {packet : MeshPacket}
    (h : packet ∈ ownAt origin localMac inputs) :
    (∃ x ∈ Dongle.machine.trace (.boot (localMac origin)) (inputsAt origin (boot localMac) inputs),
        x.1.selfMade x.2 = some packet) ∨
      (origin, .usbRx packet) ∈ machine.outputs (boot localMac) inputs := by
  obtain ⟨⟨d, input⟩, hmem, hown⟩ := List.mem_filterMap.mp h
  cases input with
  | buttonPress => exact Or.inl ⟨_, hmem, hown⟩
  | emitTelemetry payload jitterMs => exact Or.inl ⟨_, hmem, hown⟩
  | usbByte b =>
    refine Or.inr ?_
    have hemit : DongleOutput.usbRx packet ∈ Dongle.machine.emit d (.usbByte b) := by
      have haccepts : d.accepts b = some packet := hown
      simp only [Machine.emit, Dongle.machine, Dongle.step, Dongle.usbByte, haccepts]
      exact List.mem_singleton_self _
    have hout : DongleOutput.usbRx packet ∈
        outputsAt origin (machine.outputs (boot localMac) inputs) := by
      rw [outputsAt_outputs]
      exact List.mem_flatMap.mpr ⟨_, hmem, hemit⟩
    obtain ⟨⟨node, output⟩, hrun, heq⟩ := List.mem_filterMap.mp hout
    rw [Option.ite_none_right_eq_some] at heq
    obtain ⟨rfl, hsome⟩ := heq
    obtain rfl := Option.some.inj hsome
    exact hrun
  | serviceBackoff elapsedMs txOk => cases hown
  | receive rx random => cases hown

end Network

end Gibberish.Mesh
