/-
# Flooding

A packet that a host injects at one node spreads from node to node. A node records the
key before it queues the packet and queues no packet whose key its filter reports, so it
hands the packet to its radio at most once while its filter remembers the key. Every
relay moves one hop from the hops left to the hops taken.
-/

import Gibberish.Mesh.Network
import Gibberish.Mesh.RelayIdentity
import Mathlib.Data.List.TakeWhile

set_option autoImplicit false

namespace Gibberish.Mesh

open Gibberish.Foundation Gibberish.Protocol Gibberish.Firmware

/-! ### Keys of a node in order -/

/-- How many other keys come behind the first occurrence of a key. -/
def othersAfter (key : PacketKey) (keys : List PacketKey) : ℕ :=
  (keys.dropWhile (· != key)).countP (· != key)

/-- Nothing is forgotten as keys are added. -/
theorem othersAfter_append_le (key : PacketKey) (keys more : List PacketKey) :
    othersAfter key keys ≤ othersAfter key (keys ++ more) := by
  rw [othersAfter, othersAfter, List.dropWhile_append]
  split
  · rename_i hempty
    rw [List.isEmpty_iff.mp hempty]
    exact Nat.zero_le _
  · rw [List.countP_append]
    exact Nat.le_add_right _ _

/-- What follows the last occurrence of a key is behind the first. -/
theorem insertionsSince_le_othersAfter {key : PacketKey} {keys : List PacketKey}
    (mem : key ∈ keys) : Generations.insertionsSince key keys ≤ othersAfter key keys := by
  induction keys using List.reverseRecOn with
  | nil => cases mem
  | append_singleton keys last ih =>
    by_cases hlast : last = key
    · have hzero : Generations.insertionsSince key (keys ++ [last]) = 0 := by
        simp [Generations.insertionsSince, hlast]
      exact hzero.le.trans (Nat.zero_le _)
    -- Another key lengthens both.
    · have hmem : key ∈ keys := by
        rcases List.mem_append.mp mem with h | h
        · exact h
        · exact absurd (List.mem_singleton.mp h).symm hlast
      have hsince : Generations.insertionsSince key (keys ++ [last]) =
          Generations.insertionsSince key keys + 1 := by
        simp [Generations.insertionsSince, hlast]
      have hkept : (keys.dropWhile (· != key)).isEmpty = false := by
        rw [Bool.eq_false_iff, ne_eq, List.isEmpty_iff, List.dropWhile_eq_nil_iff]
        exact fun h => absurd (h key hmem) (by simp)
      rw [hsince, othersAfter, List.dropWhile_append, hkept, if_neg Bool.false_ne_true,
        List.countP_append, List.countP_cons_of_pos (by simpa using hlast), List.countP_nil]
      exact Nat.succ_le_succ (ih hmem)

/-! ### How a packet spreads -/

variable {Node : Type*} [DecidableEq Node]

/-- An output that tells of a packet from the host with the key. -/
def injects (key : PacketKey) (x : Node × DongleOutput) : Bool :=
  match x.2 with
  | .usbRx packet => packetKey packet == key
  | _ => false

namespace Network

/-- No beacon and no telemetry packet has the key. -/
def Avoids (key : PacketKey) (net : Network Node) (input : NetworkInput Node) : Prop :=
  ∀ node dongleInput, net.nodeInput input = some (node, dongleInput) →
    (net.dongle node).Avoids key dongleInput

/-- The packets that one node offers to its queue. -/
def offeredAt (node : Node) (localMac : Node → Bytes 8) (inputs : List (NetworkInput Node)) :
    List MeshPacket :=
  (Dongle.boot (localMac node)).offeredPackets (inputsAt node (boot localMac) inputs)

/-- The keys that one node records. -/
def keysAt (node : Node) (localMac : Node → Bytes 8) (inputs : List (NetworkInput Node)) :
    List PacketKey :=
  (Dongle.boot (localMac node)).insertedKeys (inputsAt node (boot localMac) inputs)

/-- A network whose packets with the key all come from one injection, with the given hops. -/
structure Spread (key : PacketKey) (total : ℕ) (localMac : Node → Bytes 8)
    (inputs : List (NetworkInput Node)) : Prop where
  tagged : ∀ node, ∀ packet ∈ offeredAt node localMac inputs,
    isValidNetworkTag packet.header.networkTag = true
  keyed : ∀ node, ∀ packet ∈ offeredAt node localMac inputs, packetKey packet = key →
    hops packet = total ∧ ∃ x ∈ machine.outputs (boot localMac) inputs, injects key x
  air : ∀ frame ∈ (machine.final (boot localMac) inputs).air, ∃ mac frameSeq node,
    ∃ packet ∈ offeredAt node localMac inputs,
      frame = assemblePhyFrame mac packet frameSeq (.zero phyMtu)
  recorded : ∀ node, key ∈ keysAt node localMac inputs →
    ∃ x ∈ machine.outputs (boot localMac) inputs, injects key x

variable {key : PacketKey} {total : ℕ} {localMac : Node → Bytes 8}

theorem spread_boot : Spread key total localMac [] where
  tagged _ _ h := absurd h List.not_mem_nil
  keyed _ _ h := absurd h List.not_mem_nil
  air _ h := absurd h List.not_mem_nil
  recorded _ h := absurd h List.not_mem_nil

section Step

variable {inputs : List (NetworkInput Node)} {input : NetworkInput Node}

/-- The dongle of a node after a run. -/
theorem dongle_final (node : Node) :
    (machine.final (boot localMac) inputs).dongle node =
      Dongle.machine.final (.boot (localMac node)) (inputsAt node (boot localMac) inputs) :=
  (run_at node (boot localMac) inputs).1

/-- The outputs of a node in a run. -/
theorem outputsAt_outputs (node : Node) :
    outputsAt node (machine.outputs (boot localMac) inputs) =
      Dongle.machine.outputs (.boot (localMac node)) (inputsAt node (boot localMac) inputs) :=
  (run_at node (boot localMac) inputs).2

/-- What a node hands to its radio it has offered to its queue. -/
theorem mem_offeredAt_of_handed {node : Node} {output : DongleOutput} {packet : MeshPacket}
    (h : (node, output) ∈ machine.outputs (boot localMac) inputs)
    (hhanded : output.handed = some packet) : packet ∈ offeredAt node localMac inputs := by
  apply Dongle.mem_offeredPackets_of_handed
  rw [← outputsAt_outputs]
  exact List.mem_filterMap.mpr ⟨output, List.mem_filterMap.mpr ⟨_, h, if_pos rfl⟩, hhanded⟩

/-- The inputs of a node after one more input of the network. -/
theorem inputsAt_snoc (node : Node) :
    inputsAt node (boot localMac) (inputs ++ [input]) = inputsAt node (boot localMac) inputs ++
      ((machine.final (boot localMac) inputs).inputAt node input).toList := by
  rw [inputsAt_append]
  rfl

/-- A packet that a node has offered was offered before, or by the last input. -/
theorem mem_offeredAt_snoc {node : Node} {packet : MeshPacket}
    (h : packet ∈ offeredAt node localMac (inputs ++ [input])) :
    packet ∈ offeredAt node localMac inputs ∨
      ∃ dongleInput, (machine.final (boot localMac) inputs).nodeInput input =
          some (node, dongleInput) ∧
        ((machine.final (boot localMac) inputs).dongle node).offeredPacket dongleInput =
          some packet := by
  rw [offeredAt, inputsAt_snoc, Dongle.offeredPackets, Machine.trace_append, List.filterMap_append,
    ← dongle_final] at h
  rcases List.mem_append.mp h with h | h
  · exact Or.inl h
  · right
    cases hinput : (machine.final (boot localMac) inputs).inputAt node input with
    | none =>
      rw [hinput] at h
      cases h
    | some dongleInput =>
      rw [hinput, Option.toList_some, Machine.trace_cons, Machine.trace_nil] at h
      obtain ⟨x, hx, hoffered⟩ := List.mem_filterMap.mp h
      obtain rfl := List.mem_singleton.mp hx
      exact ⟨dongleInput, nodeInput_of_inputAt hinput, hoffered⟩

/-- What was offered stays so. -/
theorem offeredAt_subset (node : Node) (inputs more : List (NetworkInput Node)) :
    offeredAt node localMac inputs ⊆ offeredAt node localMac (inputs ++ more) := by
  intro packet hpacket
  rw [offeredAt, inputsAt_append, Dongle.offeredPackets, Machine.trace_append,
    List.filterMap_append]
  exact List.mem_append_left _ hpacket

/-- The keys a node has recorded, and the one that the last input records. -/
theorem keysAt_snoc (node : Node) :
    keysAt node localMac (inputs ++ [input]) = keysAt node localMac inputs ++
      (((machine.final (boot localMac) inputs).inputAt node input).bind
        ((machine.final (boot localMac) inputs).dongle node).insertedKey).toList := by
  rw [keysAt, inputsAt_snoc, Dongle.insertedKeys_append, ← dongle_final, ← keysAt]
  congr 1
  cases (machine.final (boot localMac) inputs).inputAt node input with
  | none => rfl
  | some dongleInput =>
    rw [Option.toList_some, Dongle.insertedKeys, Machine.trace_cons, Machine.trace_nil,
      List.filterMap_cons, List.filterMap_nil, Option.bind_some]
    cases Dongle.insertedKey _ dongleInput with
    | none => rfl
    | some key' => rfl

/-- The frames of a step are added to those on the air. -/
theorem air_next (net : Network Node) (input : NetworkInput Node) :
    (machine.next net input).air =
      net.air ++ (machine.emit net input).filterMap fun x => frameOf x.2 := by
  simp only [Machine.next, Machine.emit, machine, step]
  cases net.nodeInput input with
  | none => exact (List.append_nil _).symm
  | some x =>
    dsimp only
    rw [List.filterMap_map]
    rfl

/-- An output of a step is one of its node's dongle. -/
theorem exists_of_mem_emit {net : Network Node} {node : Node} {output : DongleOutput}
    (h : (node, output) ∈ machine.emit net input) :
    ∃ dongleInput, net.nodeInput input = some (node, dongleInput) ∧
      output ∈ Dongle.machine.emit (net.dongle node) dongleInput := by
  simp only [Machine.emit, machine, step] at h
  split at h
  · cases h
  · rename_i node' dongleInput hnode
    obtain ⟨output', hmem, heq⟩ := List.mem_map.mp h
    obtain ⟨rfl, rfl⟩ := Prod.mk.inj heq
    exact ⟨dongleInput, hnode, hmem⟩

/-- A packet that is accepted from the host is told of. -/
theorem usbRx_mem_emit {net : Network Node} {node : Node} {b : UInt8} {packet : MeshPacket}
    (hnode : net.nodeInput input = some (node, .usbByte b))
    (haccepts : (net.dongle node).accepts b = some packet) :
    (node, .usbRx packet) ∈ machine.emit net input := by
  simp only [Machine.emit, machine, step, hnode, Dongle.step, Dongle.usbByte, haccepts]
  exact List.mem_singleton_self _

/-- A packet that is received was offered somewhere. -/
theorem Spread.received (spread : Spread key total localMac inputs)
    (delivers : Delivers (machine.final (boot localMac) inputs) input) {node : Node}
    {rx : ReceivedMeshPacket} {random : UInt32}
    (hnode : (machine.final (boot localMac) inputs).nodeInput input =
      some (node, .receive rx random)) :
    ∃ node', rx.packet ∈ offeredAt node' localMac inputs := by
  cases input with
  | act node' dongleInput =>
    obtain ⟨-, rfl⟩ := Prod.mk.inj (Option.some.inj hnode)
    exact absurd rfl (delivers rx random)
  | deliver node' data random' =>
    obtain ⟨frame, hframe, heard⟩ := delivers
    obtain ⟨mac, frameSeq, origin, packet, hpacket, rfl⟩ := spread.air frame hframe
    obtain ⟨rx', hrx', heq⟩ := Option.map_eq_some_iff.mp hnode
    obtain ⟨-, hreceive⟩ := Prod.mk.inj heq
    obtain ⟨rfl, -⟩ := DongleInput.receive.inj hreceive
    -- What is heard of a frame is its packet, unless it is the node's own.
    rw [receiveRaw_of_hears _ (spread.tagged origin packet hpacket) heard] at hrx'
    split at hrx'
    · cases hrx'
    · obtain rfl := Option.some.inj hrx'
      exact ⟨origin, hpacket⟩

/-- The injections of a run are among those of a longer one. -/
theorem injection_append {more : List (NetworkInput Node)}
    (h : ∃ x ∈ machine.outputs (boot localMac) inputs, injects key x) :
    ∃ x ∈ machine.outputs (boot localMac) (inputs ++ more), injects key x := by
  obtain ⟨x, hx, hinjects⟩ := h
  rw [Machine.outputs_append]
  exact ⟨x, List.mem_append_left _ hx, hinjects⟩

/-- A packet with the key that a node takes from its host is an injection. -/
theorem injection_of_accepts {node : Node} {b : UInt8} {packet : MeshPacket}
    (hnode : (machine.final (boot localMac) inputs).nodeInput input = some (node, .usbByte b))
    (haccepts : ((machine.final (boot localMac) inputs).dongle node).accepts b = some packet)
    (hkey : packetKey packet = key) :
    ∃ x ∈ machine.outputs (boot localMac) (inputs ++ [input]), injects key x := by
  rw [Machine.outputs_append]
  refine ⟨(node, .usbRx packet), List.mem_append_right _ ?_, beq_iff_eq.mpr hkey⟩
  rw [Machine.outputs_cons, Machine.outputs_nil, List.append_nil]
  exact usbRx_mem_emit hnode haccepts

/-- A frame that goes on the air carries a packet that was offered. -/
theorem Spread.air_snoc (spread : Spread key total localMac inputs) {frame : Bytes phyMtu}
    (hframe : frame ∈ (machine.final (boot localMac) (inputs ++ [input])).air) :
    ∃ mac frameSeq node, ∃ packet ∈ offeredAt node localMac (inputs ++ [input]),
      frame = assemblePhyFrame mac packet frameSeq (.zero phyMtu) := by
  rw [Machine.final_append, Machine.final_cons, Machine.final_nil, air_next] at hframe
  rcases List.mem_append.mp hframe with hold | hnew
  · obtain ⟨mac, frameSeq, node, packet, hpacket, rfl⟩ := spread.air frame hold
    exact ⟨mac, frameSeq, node, packet, offeredAt_subset node inputs [input] hpacket, rfl⟩
  · obtain ⟨⟨node, output⟩, hmem, hframeOf⟩ := List.mem_filterMap.mp hnew
    obtain ⟨dongleInput, hnode, hout⟩ := exists_of_mem_emit hmem
    cases output with
    | broadcast frame' packet =>
      obtain rfl := Option.some.inj hframeOf
      have hmem' : (node, DongleOutput.broadcast frame' packet) ∈
          machine.outputs (boot localMac) (inputs ++ [input]) := by
        rw [Machine.outputs_append, Machine.outputs_cons, Machine.outputs_nil, List.append_nil]
        exact List.mem_append_right _ hmem
      exact ⟨_, _, node, packet, mem_offeredAt_of_handed hmem' rfl, Dongle.frame_of_broadcast hout⟩
    | _ => cases hframeOf

/-- **Step lemma.** What a node queues is made up there with another key, injected, or the
relay of a packet that was offered before. -/
theorem Spread.step (spread : Spread key total localMac inputs)
    (delivers : Delivers (machine.final (boot localMac) inputs) input)
    (avoids : Avoids key (machine.final (boot localMac) inputs) input) (total_le : total ≤ 255)
    (injected : ∀ node packet,
      (node, .usbRx packet) ∈ machine.emit (machine.final (boot localMac) inputs) input →
        packetKey packet = key → hops packet = total) :
    Spread key total localMac (inputs ++ [input]) where
  tagged node packet hpacket := by
    rcases mem_offeredAt_snoc hpacket with hold | ⟨dongleInput, -, hoffered⟩
    · exact spread.tagged node packet hold
    · exact Dongle.validTag_of_offeredPacket hoffered
  keyed node packet hpacket hkey := by
    rcases mem_offeredAt_snoc hpacket with hold | ⟨dongleInput, hnode, hoffered⟩
    · obtain ⟨hhops, hinjection⟩ := spread.keyed node packet hold hkey
      exact ⟨hhops, injection_append hinjection⟩
    · rcases Dongle.offeredPacket_cases hoffered with hown | ⟨rx, random, rfl, -, hrelay⟩
      · cases dongleInput with
        | buttonPress => exact absurd hkey (avoids node _ hnode packet hown)
        | emitTelemetry payload jitterMs => exact absurd hkey (avoids node _ hnode packet hown)
        | usbByte b =>
          exact ⟨injected node packet (usbRx_mem_emit hnode hown) hkey,
            injection_of_accepts hnode hown hkey⟩
        | _ => cases hown
      -- A relay has the key of what was received, and one hop less to go.
      · obtain ⟨origin, horigin⟩ := spread.received delivers hnode
        obtain ⟨hkeys, -, -, hsum⟩ := relayOf_cases hrelay
        obtain ⟨hhops, hinjection⟩ := spread.keyed origin rx.packet horigin (hkeys.symm.trans hkey)
        exact ⟨(hsum (hhops.le.trans total_le)).trans hhops, injection_append hinjection⟩
  air frame hframe := spread.air_snoc hframe
  recorded node hrecorded := by
    rw [keysAt_snoc] at hrecorded
    rcases List.mem_append.mp hrecorded with hold | hnew
    · exact injection_append (spread.recorded node hold)
    · rw [Option.mem_toList] at hnew
      obtain ⟨dongleInput, hinput, hkey⟩ := Option.bind_eq_some_iff.mp hnew
      have hnode := nodeInput_of_inputAt hinput
      cases dongleInput with
      | buttonPress =>
        exact absurd (Option.some.inj hkey) (avoids node _ hnode _ rfl)
      | usbByte b =>
        obtain ⟨packet, haccepts, hpacket⟩ := Option.map_eq_some_iff.mp hkey
        exact injection_of_accepts hnode haccepts hpacket
      | receive rx random =>
        obtain ⟨origin, horigin⟩ := spread.received delivers hnode
        rw [Dongle.insertedKey, Option.ite_none_right_eq_some] at hkey
        obtain ⟨-, hinjection⟩ :=
          spread.keyed origin rx.packet horigin (Option.some.inj hkey.2)
        exact injection_append hinjection
      | _ => cases hkey

/-- **First recording.** A node whose filter remembers the key does not record it again: a
second injection is excluded, and a copy is recognised. -/
theorem Spread.notMem_keysAt (spread : Spread key total localMac inputs)
    (avoids : Avoids key (machine.final (boot localMac) inputs) input)
    (once : (machine.outputs (boot localMac) inputs).countP (injects key) +
      (machine.emit (machine.final (boot localMac) inputs) input).countP (injects key) ≤ 1)
    {node : Node} (window : othersAfter key (keysAt node localMac inputs) ≤ epochThreshold)
    (records : ((machine.final (boot localMac) inputs).inputAt node input).bind
      ((machine.final (boot localMac) inputs).dongle node).insertedKey = some key) :
    key ∉ keysAt node localMac inputs := by
  intro hold
  obtain ⟨x, hx, hinjects⟩ := spread.recorded node hold
  have hpast : 0 < (machine.outputs (boot localMac) inputs).countP (injects key) :=
    List.countP_pos_iff.mpr ⟨x, hx, hinjects⟩
  obtain ⟨dongleInput, hinput, hinserted⟩ := Option.bind_eq_some_iff.mp records
  have hnode := nodeInput_of_inputAt hinput
  cases dongleInput with
  | buttonPress => exact absurd (Option.some.inj hinserted) (avoids node _ hnode _ rfl)
  | usbByte b =>
    obtain ⟨packet, haccepts, hpacket⟩ := Option.map_eq_some_iff.mp hinserted
    -- The key was recorded for an injection, and this would be another one.
    have hagain : 0 < (machine.emit (machine.final (boot localMac) inputs) input).countP
        (injects key) :=
      List.countP_pos_iff.mpr ⟨_, usbRx_mem_emit hnode haccepts, beq_iff_eq.mpr hpacket⟩
    omega
  | receive rx random =>
    rw [Dongle.insertedKey, Option.ite_none_right_eq_some] at hinserted
    obtain ⟨hadmits, hpacket⟩ := hinserted
    obtain rfl := Option.some.inj hpacket
    -- The filter has seen too few keys since to have forgotten this one.
    have hcontains := SlidingBloomFilter.contains_of_window hold
      ((insertionsSince_le_othersAfter hold).trans window)
    rw [keysAt, ← Dongle.bloomFilter_final, ← dongle_final] at hcontains
    simp only [Dongle.admits, Bool.and_eq_true, Bool.not_eq_true'] at hadmits
    exact absurd (hcontains.symm.trans hadmits.2) Bool.noConfusion
  | _ => cases hinserted

end Step

/-! ### Whole runs -/

variable {inputs : List (NetworkInput Node)}

/-- The run so far is a run with what comes next. -/
private theorem guarded_snoc {ok : Network Node → NetworkInput Node → Prop}
    {input : NetworkInput Node} (h : machine.Guarded ok (boot localMac) (inputs ++ [input])) :
    machine.Guarded ok (boot localMac) inputs ∧ ok (machine.final (boot localMac) inputs) input := by
  obtain ⟨hbefore, hlast⟩ := (Machine.guarded_append _ _ _ _).mp h
  exact ⟨hbefore, ((Machine.guarded_cons _ _ _ _).mp hlast).1⟩

/-- **Run lemma.** What spreads with the key comes from the host, and hops are counted. -/
theorem spread_of_run (delivers : machine.Guarded Delivers (boot localMac) inputs)
    (avoids : machine.Guarded (Avoids key) (boot localMac) inputs) (total_le : total ≤ 255)
    (injected : ∀ node packet, (node, .usbRx packet) ∈ machine.outputs (boot localMac) inputs →
      packetKey packet = key → hops packet = total) :
    Spread key total localMac inputs := by
  induction inputs using List.reverseRecOn with
  | nil => exact spread_boot
  | append_singleton inputs input ih =>
    obtain ⟨hdelivers, hlast⟩ := guarded_snoc delivers
    obtain ⟨havoids, hlast'⟩ := guarded_snoc avoids
    simp only [Machine.outputs_append, Machine.outputs_cons, Machine.outputs_nil, List.append_nil,
      List.mem_append] at injected
    have hspread := ih hdelivers havoids fun node packet h => injected node packet (Or.inl h)
    exact hspread.step hlast hlast' total_le fun node packet h => injected node packet (Or.inr h)

/-- **A node records the key at most once** while its filter remembers it. -/
theorem count_keysAt_le (delivers : machine.Guarded Delivers (boot localMac) inputs)
    (avoids : machine.Guarded (Avoids key) (boot localMac) inputs) (total_le : total ≤ 255)
    (injected : ∀ node packet, (node, .usbRx packet) ∈ machine.outputs (boot localMac) inputs →
      packetKey packet = key → hops packet = total)
    (once : (machine.outputs (boot localMac) inputs).countP (injects key) ≤ 1) (node : Node)
    (window : othersAfter key (keysAt node localMac inputs) ≤ epochThreshold) :
    (keysAt node localMac inputs).count key ≤ 1 := by
  induction inputs using List.reverseRecOn with
  | nil => exact Nat.zero_le 1
  | append_singleton inputs input ih =>
    obtain ⟨hdelivers, hlast⟩ := guarded_snoc delivers
    obtain ⟨havoids, hlast'⟩ := guarded_snoc avoids
    simp only [Machine.outputs_append, Machine.outputs_cons, Machine.outputs_nil, List.append_nil,
      List.mem_append] at injected once
    rw [List.countP_append] at once
    rw [keysAt_snoc] at window ⊢
    have hwindow := (othersAfter_append_le _ _ _).trans window
    have hbefore := ih hdelivers havoids (fun node packet h => injected node packet (Or.inl h))
      ((Nat.le_add_right _ _).trans once) hwindow
    have hspread := spread_of_run hdelivers havoids total_le
      fun node packet h => injected node packet (Or.inl h)
    rw [List.count_append]
    cases hnew : ((machine.final (boot localMac) inputs).inputAt node input).bind
        ((machine.final (boot localMac) inputs).dongle node).insertedKey with
    | none => exact hbefore
    | some key' =>
      by_cases hkey : key' = key
      · subst hkey
        have hfresh := hspread.notMem_keysAt hlast' once hwindow hnew
        rw [List.count_eq_zero_of_not_mem hfresh, Nat.zero_add]
        exact (List.count_le_length).trans (Nat.le_refl 1)
      · rw [Option.toList_some, List.count_singleton, if_neg (by simpa using hkey)]
        exact hbefore

/-- One packet with the key, injected once at one node, that no other packet shares its
key with, and whose key the nodes do not forget. -/
structure Flood (key : PacketKey) (origin : Node) (packet : MeshPacket)
    (localMac : Node → Bytes 8) (inputs : List (NetworkInput Node)) : Prop where
  injectedOnce : (machine.outputs (boot localMac) inputs).filter (injects key) =
    [(origin, .usbRx packet)]
  noHops : packet.header.hopCount = 0
  avoids : machine.Guarded (Avoids key) (boot localMac) inputs
  window : ∀ node, othersAfter key (keysAt node localMac inputs) < 512

/-- The packets of its own, or of its host, that one node offers to its queue. -/
def ownAt (node : Node) (localMac : Node → Bytes 8) (inputs : List (NetworkInput Node)) :
    List MeshPacket :=
  (Dongle.boot (localMac node)).ownPackets (inputsAt node (boot localMac) inputs)

/-- **Flooding is bounded.** However frames are delivered, lost and repeated: every node
hands an injected packet to its radio at most once, every copy on the air has as many
hops left and taken as the packet had left, and a node's telemetry is its own. -/
theorem flooding_bounded (delivers : machine.Guarded Delivers (boot localMac) inputs) :
    (∀ key origin packet, Flood key origin packet localMac inputs →
      (∀ node, (handed (outputsAt node (machine.outputs (boot localMac) inputs))).countP
        (packetKey · == key) ≤ 1) ∧
      ∀ node frame copy, (node, .broadcast frame copy) ∈ machine.outputs (boot localMac) inputs →
        packetKey copy = key →
          copy.header.ttl.toNat + copy.header.hopCount.toNat = packet.header.ttl.toNat) ∧
    ∀ node, ∀ copy ∈ handed (outputsAt node (machine.outputs (boot localMac) inputs)),
      copy.header.flags &&& flagTelemetry ≠ 0 → copy ∈ ownAt node localMac inputs := by
  constructor
  · intro key origin packet flood
    have hinjected : ∀ node packet',
        (node, .usbRx packet') ∈ machine.outputs (boot localMac) inputs →
          packetKey packet' = key → hops packet' = packet.header.ttl.toNat := by
      intro node packet' hmem hkey
      have hinjects : injects key (node, DongleOutput.usbRx packet') = true := beq_iff_eq.mpr hkey
      have hfilter := List.mem_filter.mpr ⟨hmem, hinjects⟩
      rw [flood.injectedOnce] at hfilter
      obtain ⟨-, hsame⟩ := Prod.mk.inj (List.mem_singleton.mp hfilter)
      obtain rfl := DongleOutput.usbRx.inj hsame
      rw [hops, flood.noHops]
      rfl
    have hle : packet.header.ttl.toNat ≤ 255 := Nat.le_of_lt_succ packet.header.ttl.toNat_lt
    constructor
    · intro node
      -- Each recording is for one packet handed out, and the key is recorded once.
      have honce : (machine.outputs (boot localMac) inputs).countP (injects key) ≤ 1 := by
        rw [List.countP_eq_length_filter, flood.injectedOnce]
        exact Nat.le_refl 1
      rw [outputsAt_outputs]
      exact (Dongle.countP_handed_le_count (guarded_at flood.avoids node)).trans
        (count_keysAt_le delivers flood.avoids hle hinjected honce node (flood.window node).le)
    · intro node frame copy hmem hkey
      have hspread := spread_of_run delivers flood.avoids hle hinjected
      exact (hspread.keyed node copy (mem_offeredAt_of_handed hmem rfl) hkey).1
  · intro node copy hmem htelemetry
    rw [outputsAt_outputs] at hmem
    exact Dongle.mem_ownPackets_of_telemetry hmem htelemetry

/-- A beacon from the host of dongle 7, and time for it to go out. -/
def injectionRun : List DongleInput :=
  (Dongle.hostBytes [Dongle.beaconPacket 8]).map .usbByte ++ [.serviceBackoff 15 true]

/-- Two dongles. -/
def pairOfMacs (second : Bool) : Bytes 8 := (dongleWithTail (if second then 9 else 7)).localMac

/-- The frame that goes out. -/
def injectedFrame : Bytes phyMtu :=
  (machine.final (boot pairOfMacs) (injectionRun.map (.act false))).air.headD (.zero phyMtu)

/-- The other dongle hears the frame, and has time to relay it. -/
def relayRun : List (NetworkInput Bool) :=
  injectionRun.map (.act false) ++
    [.deliver true (delivered injectedFrame) 0, .act true (.serviceBackoff 90 true)]

/-- A frame goes out, its beacon is injected once, and each dongle hands it to its radio. -/
theorem outputs_relayRun :
    (machine.final (boot pairOfMacs) (injectionRun.map (.act false))).air.length ≠ 0 ∧
      (machine.outputs (boot pairOfMacs) relayRun).filter (injects (8, 0)) =
        [(false, .usbRx (Dongle.beaconPacket 8))] ∧
      (∀ node, othersAfter (8, 0) (keysAt node pairOfMacs relayRun) < 512) ∧
      ∀ node, (handed (outputsAt node (machine.outputs (boot pairOfMacs) relayRun))).countP
        (packetKey · == (8, 0)) = 1 := by
  decide +kernel

theorem injectedFrame_mem :
    injectedFrame ∈ (machine.final (boot pairOfMacs) (injectionRun.map (.act false))).air := by
  have hsent := outputs_relayRun.1
  rw [injectedFrame]
  generalize (machine.final (boot pairOfMacs) (injectionRun.map (.act false))).air = air at hsent
  cases air with
  | nil => exact absurd rfl hsent
  | cons frame rest => exact List.mem_cons_self

theorem delivers_relayRun : machine.Guarded Delivers (boot pairOfMacs) relayRun := by
  have hinjection : ∀ dongleInput ∈ injectionRun, ∀ rx random,
      dongleInput ≠ .receive rx random := by
    rintro dongleInput hmem rx random rfl
    rcases List.mem_append.mp hmem with hbyte | hservice
    · obtain ⟨b, -, hb⟩ := List.mem_map.mp hbyte
      cases hb
    · cases List.mem_singleton.mp hservice
  rw [relayRun, Machine.guarded_append, Machine.guarded_cons, Machine.guarded_cons]
  refine ⟨delivers_act _ _ hinjection,
    ⟨injectedFrame, injectedFrame_mem, hears_delivered injectedFrame⟩, ?_, Machine.guarded_nil _ _⟩
  intro rx random heq
  cases heq

omit [DecidableEq Node] in
/-- A reception makes no packet up. -/
theorem selfMade_of_deliver {net : Network Node} {node node' : Node} {data : List UInt8}
    {random : UInt32} {dongleInput : DongleInput} {d : Dongle}
    (h : net.nodeInput (.deliver node data random) = some (node', dongleInput)) :
    d.selfMade dongleInput = none := by
  obtain ⟨rx, -, hrx⟩ := Option.map_eq_some_iff.mp h
  obtain ⟨-, rfl⟩ := Prod.mk.inj hrx
  rfl

/-- The beacon is injected once, and nothing else happens but that it is relayed. -/
theorem flood_relayRun : Flood (8, 0) false (Dongle.beaconPacket 8) pairOfMacs relayRun := by
  obtain ⟨-, hinjected, hwindow, -⟩ := outputs_relayRun
  refine ⟨hinjected, rfl, ?_, hwindow⟩
  intro x hx node dongleInput hnode packet hmade
  have hmem : x.2 ∈ relayRun := by
    rw [← Machine.map_snd_trace (boot pairOfMacs) relayRun]
    exact List.mem_map_of_mem hx
  -- No byte from the host, service of the queue or reception makes a packet up.
  rw [relayRun] at hmem
  rcases List.mem_append.mp hmem with hinjection | hrelay
  · obtain ⟨dongleInput', hmem', heq⟩ := List.mem_map.mp hinjection
    rw [← heq] at hnode
    obtain ⟨-, rfl⟩ := Prod.mk.inj (Option.some.inj hnode)
    rcases List.mem_append.mp hmem' with hbyte | hservice
    · obtain ⟨b, -, rfl⟩ := List.mem_map.mp hbyte
      cases hmade
    · obtain rfl := List.mem_singleton.mp hservice
      cases hmade
  · rcases List.mem_pair.mp hrelay with heq | heq
    · rw [heq] at hnode
      rw [selfMade_of_deliver hnode] at hmade
      cases hmade
    · rw [heq] at hnode
      obtain ⟨-, rfl⟩ := Prod.mk.inj (Option.some.inj hnode)
      cases hmade

/-- Both dongles send the beacon once, with three hops in all. -/
theorem flooding_bounded_relayRun :
    (∀ node, (handed (outputsAt node (machine.outputs (boot pairOfMacs) relayRun))).countP
        (packetKey · == (8, 0)) = 1) ∧
      (∀ node, (handed (outputsAt node (machine.outputs (boot pairOfMacs) relayRun))).countP
        (packetKey · == (8, 0)) ≤ 1) ∧
      ∀ node frame copy, (node, .broadcast frame copy) ∈
          machine.outputs (boot pairOfMacs) relayRun →
        packetKey copy = (8, 0) →
          copy.header.ttl.toNat + copy.header.hopCount.toNat = 3 :=
  ⟨outputs_relayRun.2.2.2,
    (flooding_bounded delivers_relayRun).1 (8, 0) false (Dongle.beaconPacket 8) flood_relayRun⟩

end Network

end Gibberish.Mesh
