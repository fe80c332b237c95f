/-
# SACKs on their way back

A SACK carries the message id it answers and chunk index zero. The sender's dongle
has the same key in its filter since the host sent it the message's first chunk. So it
takes the SACK for a copy of that chunk and drops it, and nothing reaches the host,
until more than 512 other keys have pushed the key out.
-/

import Gibberish.Daemon.SackRecovery
import Gibberish.Firmware.MainLoop
import Gibberish.Mesh.RelayIdentity

set_option autoImplicit false

namespace Gibberish.Mesh

open Gibberish.Foundation Gibberish.Protocol Gibberish.Crypto Gibberish.Firmware Gibberish.Daemon

variable {P : Primitives}

/-- A SACK is no telemetry, so only its tag and the filter decide. -/
theorem admits_sack (d : Dongle) {e : ChunkEngine} {peerId : UInt32} {swarmTag : UInt64} {now : ℕ}
    {order : InFlightOrder} {sack : MeshPacket} (validTag : isValidNetworkTag swarmTag)
    (emitted : sack ∈ (e.checkPendingSacks peerId swarmTag now order).1) :
    d.admits sack = !d.bloomFilter.contains sack.header.msgId 0 := by
  obtain ⟨key, m, -, -, rfl⟩ := ChunkEngine.mem_checkPendingSacks.mp emitted
  have hflags : flagSack &&& flagTelemetry = 0 := by decide
  simp only [Dongle.admits, InFlightMessage.sackPacket, validTag, hflags, decide_true,
    Bool.true_and]

/-- A SACK heard from a peer is forwarded iff the filter does not report chunk zero. -/
theorem forwards_sack_iff (d : Dongle) {e : ChunkEngine} {peerId : UInt32} {peerTag : UInt64}
    {now : ℕ} {order : InFlightOrder} {sack : MeshPacket} (validTag : isValidNetworkTag peerTag)
    (emitted : sack ∈ (e.checkPendingSacks peerId peerTag now order).1) (peer : RadioManager)
    {data : List UInt8} {rx : ReceivedMeshPacket} (heard : Hears data (peer.transmit sack).1)
    (received : d.radio.receiveRaw data = some rx) (random : UInt32) :
    .pktLine rx.srcNodeId sack ∈ Dongle.machine.emit d (.receive rx random) ↔
      d.bloomFilter.contains sack.header.msgId 0 = false := by
  -- Whatever the peer's address, the packet heard is the SACK it sent.
  have hsack : rx.packet = sack := by
    obtain ⟨key, m, -, -, rfl⟩ := ChunkEngine.mem_checkPendingSacks.mp emitted
    have hreceive := receiveRaw_of_hears d.radio validTag heard
    rw [hreceive] at received
    split at received
    · cases received
    · obtain rfl := Option.some.inj received
      rfl
  have hforwards := d.pktLine_mem_receive_iff rx random
  rwa [hsack, admits_sack d validTag emitted, Bool.not_eq_true'] at hforwards

/-- **SACK delivery.** All packets of a text were accepted over USB, and a peer's SACK
for that text is heard. The dongle forwards it to the host iff more than 512 keys
were inserted since chunk zero and the filter no longer reports that chunk. -/
theorem sack_forwarded_iff {text : String} {swarmTag : UInt64} {localNodeId : UInt32}
    {swarmMasterKey : Bytes 32} {mgr : NonceManager} {io : IoOutcome} {file : StateFile}
    {packets : List MeshPacket}
    (sent : (fragmentAndEncrypt P text swarmTag localNodeId swarmMasterKey mgr io file).1 =
      .ok packets)
    (localMac : Bytes 8) (inputs : List DongleInput)
    (accepted : ∀ packet ∈ packets, packet ∈ (Dongle.boot localMac).acceptedPackets inputs)
    {e : ChunkEngine} {peerId : UInt32} {peerTag : UInt64} {now : ℕ} {order : InFlightOrder}
    {sack : MeshPacket} (validTag : isValidNetworkTag peerTag)
    (emitted : sack ∈ (e.checkPendingSacks peerId peerTag now order).1)
    (answers : ∃ packet ∈ packets, sack.header.msgId = packet.header.msgId)
    (peer : RadioManager) {data : List UInt8} {rx : ReceivedMeshPacket}
    (heard : Hears data (peer.transmit sack).1)
    (received : (Dongle.machine.final (.boot localMac) inputs).radio.receiveRaw data = some rx)
    (random : UInt32) :
    .pktLine rx.srcNodeId sack ∈
        Dongle.machine.emit (Dongle.machine.final (.boot localMac) inputs) (.receive rx random) ↔
      epochThreshold < Generations.insertionsSince (sack.header.msgId, 0)
          ((Dongle.boot localMac).insertedKeys inputs) ∧
        (Dongle.machine.final (.boot localMac) inputs).bloomFilter.contains sack.header.msgId 0 =
          false := by
  have hforwards := forwards_sack_iff _ validTag emitted peer heard received random
  refine hforwards.trans ⟨fun hunseen => ⟨?_, hunseen⟩, fun h => h.2⟩
  -- Chunk zero was accepted, so within the window the filter reports it.
  by_contra hwindow
  obtain ⟨packet, hmem, hid⟩ := answers
  obtain ⟨first, hfirst, hkey⟩ := exists_firstChunk sent hmem
  have hinserted := Dongle.packetKey_mem_insertedKeys (accepted first hfirst)
  rw [packetKey, hkey, ← hid] at hinserted
  have hseen := SlidingBloomFilter.contains_of_window hinserted (Nat.not_lt.mp hwindow)
  rw [← Dongle.bloomFilter_final, hunseen] at hseen
  cases hseen

/-- Dongle 7 takes a text from its host. -/
def sentToDongle7 : List DongleInput :=
  (Dongle.hostBytes (transparentPackets ChunkEngine.twoChunkText 7)).map .usbByte

/-- The SACK of a node that has the first chunk of a two-chunk text, after the delay. -/
def sackOfHalfReceived : Option MeshPacket :=
  ((ChunkEngine.machine transparent (.zero 32)).final (some .new)
    ChunkEngine.halfReceivedRun).bind fun e =>
      (e.checkPendingSacks 9 defaultNetworkTag (5 + sackInitialDelay) (.stored _)).1.head?

/-- What dongle 7 hears of it, after it has taken the text from its host. -/
def heardSack : Option ReceivedMeshPacket :=
  sackOfHalfReceived.bind fun sack =>
    (Dongle.machine.final (.boot (dongleWithTail 7).localMac) sentToDongle7).radio.receiveRaw
      (delivered ((dongleWithTail 9).transmit sack).1)

theorem accepted_sentToDongle7 :
    (Dongle.boot (dongleWithTail 7).localMac).acceptedPackets sentToDongle7 =
      transparentPackets ChunkEngine.twoChunkText 7 :=
  Dongle.acceptedPackets_hostBytes _ (by decide +kernel)

/-- The dongle has inserted the keys of both chunks. -/
theorem insertedKeys_sentToDongle7 :
    (Dongle.boot (dongleWithTail 7).localMac).insertedKeys sentToDongle7 = [(0, 0), (0, 1)] := by
  have hkeys : (Dongle.boot (dongleWithTail 7).localMac).insertedKeys sentToDongle7 =
      ((Dongle.boot (dongleWithTail 7).localMac).acceptedPackets sentToDongle7).map packetKey :=
    Dongle.insertedKeys_usbBytes _ _
  rw [hkeys, accepted_sentToDongle7]
  decide +kernel

/-- The SACK is emitted for message zero, and heard. -/
theorem exists_heardSack :
    ∃ (e : ChunkEngine) (sack : MeshPacket) (rx : ReceivedMeshPacket),
      sackOfHalfReceived = some sack ∧ heardSack = some rx ∧ sack.header.msgId = 0 ∧
      sack ∈ (e.checkPendingSacks 9 defaultNetworkTag (5 + sackInitialDelay) (.stored _)).1 ∧
      (Dongle.machine.final (.boot (dongleWithTail 7).localMac) sentToDongle7).radio.receiveRaw
        (delivered ((dongleWithTail 9).transmit sack).1) = some rx := by
  have hmsgId : sackOfHalfReceived.map (fun sack => sack.header.msgId) = some 0 := by
    decide +kernel
  obtain ⟨sack, hsack, hzero⟩ := Option.map_eq_some_iff.mp hmsgId
  obtain ⟨rx, hrx⟩ : ∃ rx, heardSack = some rx := Option.isSome_iff_exists.mp (by decide +kernel)
  obtain ⟨sack', hsack', hreceived⟩ := Option.bind_eq_some_iff.mp hrx
  obtain rfl := Option.some.inj (hsack.symm.trans hsack')
  obtain ⟨e, -, hemitted⟩ := Option.bind_eq_some_iff.mp hsack
  exact ⟨e, sack, rx, hsack, hrx, hzero, List.mem_of_mem_head? hemitted, hreceived⟩

/-- For this SACK the keys inserted are those of the two chunks. -/
theorem sack_forwarded_sentToDongle7 :
    ∃ sack rx, sackOfHalfReceived = some sack ∧ heardSack = some rx ∧
      (.pktLine rx.srcNodeId sack ∈ Dongle.machine.emit (Dongle.machine.final
          (.boot (dongleWithTail 7).localMac) sentToDongle7) (.receive rx 0) ↔
        epochThreshold < Generations.insertionsSince ((0, 0) : PacketKey) [(0, 0), (0, 1)] ∧
          (SlidingBloomFilter.ofKeys [(0, 0), (0, 1)]).contains 0 0 = false) := by
  obtain ⟨e, sack, rx, hsack, hrx, hzero, hemitted, hreceived⟩ := exists_heardSack
  refine ⟨sack, rx, hsack, hrx, ?_⟩
  have hanswers : ∃ packet ∈ transparentPackets ChunkEngine.twoChunkText 7,
      sack.header.msgId = packet.header.msgId := by
    rw [hzero]
    decide +kernel
  have hforwarded := sack_forwarded_iff ChunkEngine.transparentPackets_sent _ sentToDongle7
    (fun packet hpacket => accepted_sentToDongle7 ▸ hpacket) (by decide) hemitted hanswers
    (dongleWithTail 9) (hears_delivered _) hreceived 0
  rwa [hzero, Dongle.bloomFilter_final, insertedKeys_sentToDongle7] at hforwarded

/-- The text was accepted over USB, the SACK was not heard before, and it is dropped. -/
theorem not_sack_forwarded_sentToDongle7 :
    (Dongle.boot (dongleWithTail 7).localMac).acceptedPackets sentToDongle7 =
        transparentPackets ChunkEngine.twoChunkText 7 ∧
      (∀ input ∈ sentToDongle7, ∃ b, input = .usbByte b) ∧
      ∃ sack rx, sackOfHalfReceived = some sack ∧ heardSack = some rx ∧
        .pktLine rx.srcNodeId sack ∉ Dongle.machine.emit (Dongle.machine.final
          (.boot (dongleWithTail 7).localMac) sentToDongle7) (.receive rx 0) := by
  obtain ⟨e, sack, rx, hsack, hrx, hzero, hemitted, hreceived⟩ := exists_heardSack
  refine ⟨accepted_sentToDongle7, ?_, sack, rx, hsack, hrx, fun hforwarded => ?_⟩
  · intro input hinput
    obtain ⟨b, -, rfl⟩ := List.mem_map.mp hinput
    exact ⟨b, rfl⟩
  · have hunseen := (forwards_sack_iff _ (by decide) hemitted (dongleWithTail 9)
      (hears_delivered _) hreceived 0).mp hforwarded
    rw [hzero, Dongle.bloomFilter_final, insertedKeys_sentToDongle7] at hunseen
    have hseen : (SlidingBloomFilter.ofKeys [(0, 0), (0, 1)]).contains 0 0 = true := by
      decide +kernel
    rw [hseen] at hunseen
    cases hunseen

end Gibberish.Mesh
