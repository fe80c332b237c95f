/-
# One hop from host to host

A host hands a packet to its dongle over USB, the dongle broadcasts it, another
dongle hears the frame and prints a line, and that dongle's host reads the line. Each
of the four codecs reads back what its counterpart wrote, so the packet arrives
unchanged, with the sending dongle's node id.
-/

import Gibberish.Firmware.HostLines
import Gibberish.Mesh.RelayIdentity

set_option autoImplicit false

namespace Gibberish.Mesh

open Gibberish.Foundation Gibberish.Protocol Gibberish.Firmware Gibberish.Daemon

/-- A host's packet reaches its dongle. -/
theorem acceptedPackets_sendPacket {packet : MeshPacket}
    (validTag : isValidNetworkTag packet.header.networkTag) {d : Dongle}
    (idle : d.usb.rxState = .sync0) :
    d.acceptedPackets ((sendPacket packet).toList.map .usbByte) = [packet] := by
  have hframe : (sendPacket packet).toList = UsbReceiver.frame (packet.serializePayload (.zero _)) :=
    toList_sendPacket packet
  rw [Dongle.acceptedPackets_usbBytes, hframe, (UsbReceiver.run_frame _ idle).1,
    List.filterMap_cons, Dongle.packetOf_serializePayload validTag, List.filterMap_nil]

/-- The first 125 bytes of a frame are enough to start like it. -/
theorem startsLike_slice (sent : Bytes phyMtu) {len : ℕ} (h : 125 ≤ len) :
    StartsLike (sent.slice 0 len) sent := by
  rw [StartsLike, Bytes.slice, List.take_take, Nat.min_eq_left h]
  rfl

/-- What a dongle that hears a packet prints for its host. -/
theorem pktLines_receive {packet : MeshPacket}
    (validTag : isValidNetworkTag packet.header.networkTag)
    (notTelemetry : packet.header.flags &&& flagTelemetry = 0) (d : Dongle)
    (rx : ReceivedMeshPacket) (hrx : rx.packet = packet) (random : UInt32) :
    pktLines (d.receive rx random).2 =
      if d.bloomFilter.contains packet.header.msgId packet.header.chunkIdx then []
      else (pktLineText rx.srcNodeId packet).toList := by
  subst hrx
  simp only [Dongle.receive, validTag, Bool.not_true, Bool.false_eq_true, if_false, notTelemetry,
    ne_eq, not_true_eq_false]
  split
  · rfl
  · simp only [pktLines, List.flatMap_cons, List.flatMap_nil, List.nil_append, List.append_nil]

/-- **One hop.** A packet that a host hands to an idle dongle is accepted unchanged. Its
frame is read back from its first 125 to 127 bytes. A dongle with another MAC tail
that hears the frame, and whose filter does not report the packet, prints one line,
from which its host reads the packet and the sending dongle's node id. -/
theorem oneHop_transparent {packet : MeshPacket}
    (validTag : isValidNetworkTag packet.header.networkTag)
    (notTelemetry : packet.header.flags &&& flagTelemetry = 0) (localMac : Bytes 8)
    (frameSeq : UInt8) (out : Bytes phyMtu) :
    (∀ d : Dongle, d.usb.rxState = .sync0 →
      d.acceptedPackets ((sendPacket packet).toList.map .usbByte) = [packet]) ∧
    (∀ len, 125 ≤ len → len ≤ 127 →
      parsePhyFrameSwarm ((assemblePhyFrame localMac packet frameSeq out).slice 0 len) =
        some packet) ∧
    (∀ (d : Dongle) (data : List UInt8), d.radio.localMac.slice 4 4 ≠ localMac.slice 4 4 →
      Hears data (assemblePhyFrame localMac packet frameSeq out) →
      ∃ rx, d.radio.receiveRaw data = some rx ∧ ∀ random,
        (∀ line ∈ pktLines (d.receive rx random).2,
          parsePktLine line = some ⟨nodeIdOf localMac, packet⟩) ∧
        (d.bloomFilter.contains packet.header.msgId packet.header.chunkIdx = false →
          (pktLines (d.receive rx random).2).length = 1)) := by
  refine ⟨fun d idle => acceptedPackets_sendPacket validTag idle, ?_, ?_⟩
  · intro len hle _
    exact parsePhyFrameSwarm_of_startsLike validTag (startsLike_slice _ hle)
  · intro d data hother heard
    obtain ⟨line, htext, hparse⟩ := pktLineText_read (nodeIdOf localMac) packet
    have hreceived := receiveRaw_of_hears d.radio validTag heard
    rw [if_neg (Ne.symm hother)] at hreceived
    refine ⟨_, hreceived, fun random => ?_⟩
    -- The line is the one of the packet and the frame's source address, or there is none.
    rw [pktLines_receive validTag notTelemetry d _ rfl random, htext]
    cases hseen : d.bloomFilter.contains packet.header.msgId packet.header.chunkIdx with
    | true => exact ⟨fun _ hline => absurd hline List.not_mem_nil, fun h => absurd h (by decide)⟩
    | false =>
      refine ⟨fun line' hline => ?_, fun _ => rfl⟩
      obtain rfl : line' = line := List.mem_singleton.mp hline
      exact hparse

/-- A beacon of dongle 7 travels to dongle 9. -/
theorem oneHop_transparent_beacon :
    (Dongle.boot (dongleWithTail 7).localMac).acceptedPackets
      ((sendPacket (Dongle.beaconPacket 8)).toList.map .usbByte) = [Dongle.beaconPacket 8] ∧
    ∃ rx, (dongleWithTail 9).receiveRaw
        (delivered (assemblePhyFrame (dongleWithTail 7).localMac (Dongle.beaconPacket 8) 1
          (.zero _))) = some rx ∧
      (pktLines ((Dongle.boot (dongleWithTail 9).localMac).receive rx 0).2).map parsePktLine =
        [some ⟨7, Dongle.beaconPacket 8⟩] := by
  have validTag : isValidNetworkTag (Dongle.beaconPacket 8).header.networkTag := by decide
  obtain ⟨husb, -, hradio⟩ := oneHop_transparent validTag (by decide) (dongleWithTail 7).localMac 1
    (.zero _)
  obtain ⟨rx, hrx, hlines⟩ := hradio (.boot (dongleWithTail 9).localMac) _ (by decide)
    (hears_delivered _)
  obtain ⟨hparse, hcount⟩ := hlines 0
  refine ⟨husb _ rfl, rx, hrx, ?_⟩
  obtain ⟨line, hline⟩ := List.length_eq_one_iff.mp (hcount (by decide +kernel))
  rw [hline] at hparse ⊢
  have hid : nodeIdOf (dongleWithTail 7).localMac = 7 := by decide
  rw [List.map_cons, List.map_nil, hparse line List.mem_cons_self, hid]

end Gibberish.Mesh
