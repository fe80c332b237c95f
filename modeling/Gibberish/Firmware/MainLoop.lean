/-
# The main loop of a dongle

The parts of the loop that decide what a dongle broadcasts and what it prints for its
host: the button, the transmit queue, telemetry, the radio receive path and the USB
receiver. Each is one input of a machine, so a run of the loop is a run of the
machine. Every input inserts at most one key into the deduplication filter, so the
filter holds exactly the keys inserted so far.
-/

import Gibberish.Firmware.Backoff
import Gibberish.Firmware.Dedup
import Gibberish.Firmware.Radio
import Gibberish.Firmware.UsbReceiver

set_option autoImplicit false

namespace Gibberish.Firmware

open Gibberish.Foundation Gibberish.Protocol

/-! ### The dongle -/

/-- What the loop keeps of a dongle. -/
structure Dongle where
  radio : RadioManager
  bloomFilter : SlidingBloomFilter
  backoff : BackoffController
  usb : UsbReceiver
  beaconSeq : UInt32
  telemSeq : UInt32

/-- What drives the loop: the button, elapsed time and whether the radio takes the
frame, a telemetry interval that ran out, a packet off the radio with a random
number, a byte from the host. -/
inductive DongleInput where
  | buttonPress
  | serviceBackoff (elapsedMs : UInt16) (txOk : Bool)
  | emitTelemetry (payload : Bytes ciphertextLen) (jitterMs : UInt16)
  | receive (rx : ReceivedMeshPacket) (random : UInt32)
  | usbByte (b : UInt8)

/-- A frame on the air, or a line for the host. -/
inductive DongleOutput where
  | broadcast (frame : Bytes phyMtu) (packet : MeshPacket)
  | txFail (packet : MeshPacket)
  | telemetryRx (rx : ReceivedMeshPacket)
  | radioRx (rx : ReceivedMeshPacket)
  /-- The `#PKT#` line with this source node id and packet. -/
  | pktLine (srcNodeId : UInt32) (packet : MeshPacket)
  | usbRx (packet : MeshPacket)
  deriving DecidableEq

/-- The key a packet is deduplicated by. -/
def packetKey (packet : MeshPacket) : PacketKey := (packet.header.msgId, packet.header.chunkIdx)

namespace Dongle

/-- A dongle that just started. -/
def boot (localMac : Bytes 8) : Dongle := ⟨.new localMac, .new, .new, .new, 0, 0⟩

def localNodeId (d : Dongle) : UInt32 := nodeIdOf d.radio.localMac

/-- The beacon the button sends. -/
def beaconPacket (beaconMsgId : UInt32) : MeshPacket where
  header :=
    { networkTag := defaultNetworkTag
      msgId := beaconMsgId
      chunkIdx := 0
      totalChunks := 1
      ttl := 3
      hopCount := 0
      flags := flagAckReq }
  payload := .replicate ciphertextLen 0xAA

/-- A telemetry packet, consumed by whoever hears it. -/
def telemetryPacket (telemMsgId : UInt32) (payload : Bytes ciphertextLen) : MeshPacket where
  header :=
    { networkTag := defaultNetworkTag
      msgId := telemMsgId
      chunkIdx := 0
      totalChunks := 1
      ttl := 1
      hopCount := 0
      flags := flagTelemetry }
  payload := payload

/-- A press of the button records and queues a beacon. -/
def buttonPress (d : Dongle) : Dongle :=
  let beaconSeq := d.beaconSeq + 1
  let beaconMsgId := d.localNodeId + beaconSeq
  { d with
    beaconSeq := beaconSeq
    bloomFilter := d.bloomFilter.insert beaconMsgId 0
    backoff := d.backoff.scheduleTx (beaconPacket beaconMsgId) 15 }

/-- Let the queue's countdown run, and broadcast the packet that comes up. -/
def serviceBackoff (d : Dongle) (elapsedMs : UInt16) (txOk : Bool) : Dongle × List DongleOutput :=
  match d.backoff.tick elapsedMs with
  | (false, backoff) => ({ d with backoff := backoff }, [])
  | (true, backoff) =>
    match backoff.takePending with
    | (none, backoff) => ({ d with backoff := backoff }, [])
    | (some packet, backoff) =>
      let (frame, radio) := d.radio.transmit packet
      ({ d with backoff := backoff, radio := radio },
        if txOk then [.broadcast frame packet] else [.txFail packet])

/-- Make a telemetry packet and queue it, unless user traffic is queued. -/
def emitTelemetry (d : Dongle) (payload : Bytes ciphertextLen) (jitterMs : UInt16) : Dongle :=
  let telemSeq := d.telemSeq + 1
  { d with
    telemSeq := telemSeq
    backoff := (d.backoff.scheduleTelemetry (telemetryPacket telemSeq payload) jitterMs).2 }

/-- Queue a packet for relay, if its link is good enough and it has hops left. -/
def scheduleRelay (backoff : BackoffController) (rx : ReceivedMeshPacket) (random : UInt32) :
    BackoffController :=
  if rx.lqi ≥ minRelayLqi then
    match rx.packet.decrementTtl with
    -- No hop is left.
    | none => backoff
    | some fwdPacket =>
      backoff.scheduleTx fwdPacket (calculateLqiRelayJitter rx.lqi (random % 15).toUInt16)
  else backoff

/-- Handle a packet off the radio: drop it, consume it, or forward it to the host and
queue it for relay. -/
def receive (d : Dongle) (rx : ReceivedMeshPacket) (random : UInt32) :
    Dongle × List DongleOutput :=
  let header := rx.packet.header
  if !isValidNetworkTag header.networkTag then (d, [])
  else if header.flags &&& flagTelemetry ≠ 0 then (d, [.telemetryRx rx])
  -- A copy of what was seen calls off what waits here, and goes no further.
  else if d.bloomFilter.contains header.msgId header.chunkIdx then
    ({ d with backoff := (d.backoff.onOverhear header.msgId header.chunkIdx).2 }, [])
  else
    let backoff := (d.backoff.onOverhear header.msgId header.chunkIdx).2
    ({ d with
        bloomFilter := d.bloomFilter.insert header.msgId header.chunkIdx
        backoff := scheduleRelay backoff rx random },
      [.radioRx rx, .pktLine rx.srcNodeId rx.packet])

/-- The packet in a completed buffer, if its tag is admitted. -/
def packetOf (pktBuf : Bytes MeshPacket.wirePayloadLen) : Option MeshPacket :=
  let packet := MeshPacket.deserializePayload pktBuf
  if isValidNetworkTag packet.header.networkTag then some packet else none

/-- The packet that a byte from the host completes. -/
def accepts (d : Dongle) (b : UInt8) : Option MeshPacket := (d.usb.readByte b).2.bind packetOf

/-- Take a byte from the host; record and queue the packet it completes. -/
def usbByte (d : Dongle) (b : UInt8) : Dongle × List DongleOutput :=
  let usb := (d.usb.readByte b).1
  match d.accepts b with
  | none => ({ d with usb := usb }, [])
  | some packet =>
    ({ d with
        usb := usb
        bloomFilter := d.bloomFilter.insert packet.header.msgId packet.header.chunkIdx
        backoff := d.backoff.scheduleTx packet 15 },
      [.usbRx packet])

def step (d : Dongle) : DongleInput → Dongle × List DongleOutput
  | .buttonPress => (d.buttonPress, [])
  | .serviceBackoff elapsedMs txOk => d.serviceBackoff elapsedMs txOk
  | .emitTelemetry payload jitterMs => (d.emitTelemetry payload jitterMs, [])
  | .receive rx random => d.receive rx random
  | .usbByte b => d.usbByte b

/-- The loop as a machine that emits broadcasts and lines. -/
def machine : Machine Dongle DongleInput DongleOutput := ⟨step⟩

/-! ### The keys inserted by a run -/

/-- The packet is neither foreign, nor telemetry, nor a duplicate. -/
def admits (d : Dongle) (packet : MeshPacket) : Bool :=
  isValidNetworkTag packet.header.networkTag && packet.header.flags &&& flagTelemetry = 0 &&
    !d.bloomFilter.contains packet.header.msgId packet.header.chunkIdx

/-- The key an input inserts. -/
def insertedKey (d : Dongle) : DongleInput → Option PacketKey
  | .buttonPress => some (d.localNodeId + (d.beaconSeq + 1), 0)
  | .receive rx _ => if d.admits rx.packet then some (packetKey rx.packet) else none
  | .usbByte b => (d.accepts b).map packetKey
  | _ => none

/-- The keys a run inserts, in order. -/
def insertedKeys (d : Dongle) (inputs : List DongleInput) : List PacketKey :=
  (machine.trace d inputs).filterMap fun x => x.1.insertedKey x.2

/-- Servicing the queue leaves the filter alone. -/
theorem bloomFilter_serviceBackoff (d : Dongle) (elapsedMs : UInt16) (txOk : Bool) :
    (d.serviceBackoff elapsedMs txOk).1.bloomFilter = d.bloomFilter := by
  simp only [serviceBackoff]
  split
  · rfl
  · split
    · rfl
    · rfl

/-- What a packet off the radio does: an admitted one is recorded, relayed and
forwarded, any other is not recorded and not forwarded. -/
theorem receive_cases (d : Dongle) (rx : ReceivedMeshPacket) (random : UInt32) :
    (d.admits rx.packet = true ∧
      (d.receive rx random).1.bloomFilter =
        d.bloomFilter.insert rx.packet.header.msgId rx.packet.header.chunkIdx ∧
      (d.receive rx random).2 = [.radioRx rx, .pktLine rx.srcNodeId rx.packet]) ∨
    (d.admits rx.packet = false ∧
      (d.receive rx random).1.bloomFilter = d.bloomFilter ∧
      ∀ srcNodeId packet, .pktLine srcNodeId packet ∉ (d.receive rx random).2) := by
  simp only [receive, admits]
  cases hvalid : isValidNetworkTag rx.packet.header.networkTag with
  | false => exact Or.inr ⟨rfl, rfl, fun _ _ => List.not_mem_nil⟩
  | true =>
    by_cases hflags : rx.packet.header.flags &&& flagTelemetry = 0
    · cases hseen : d.bloomFilter.contains rx.packet.header.msgId rx.packet.header.chunkIdx with
      | true => simp [hflags]
      | false => simp [hflags]
    -- Telemetry has a line of its own, which is not one for the host.
    · simp [hflags]

/-- A packet heard is forwarded to the host iff it is admitted. -/
theorem pktLine_mem_receive_iff (d : Dongle) (rx : ReceivedMeshPacket) (random : UInt32) :
    .pktLine rx.srcNodeId rx.packet ∈ (d.receive rx random).2 ↔ d.admits rx.packet = true := by
  rcases d.receive_cases rx random with ⟨hadmits, -, hout⟩ | ⟨hadmits, -, hout⟩
  · simp [hadmits, hout]
  · simp [hadmits, hout]

/-- The filter takes the key an input inserts. -/
theorem bloomFilter_next (d : Dongle) (input : DongleInput) :
    (machine.next d input).bloomFilter =
      match d.insertedKey input with
      | none => d.bloomFilter
      | some key => d.bloomFilter.insert key.1 key.2 := by
  cases input with
  | buttonPress => rfl
  | serviceBackoff elapsedMs txOk => exact d.bloomFilter_serviceBackoff elapsedMs txOk
  | emitTelemetry payload jitterMs => rfl
  | receive rx random =>
    rcases d.receive_cases rx random with ⟨hadmits, hfilter, -⟩ | ⟨hadmits, hfilter, -⟩
    · rw [insertedKey, hadmits]
      exact hfilter
    · rw [insertedKey, hadmits]
      exact hfilter
  | usbByte b =>
    simp only [Machine.next, machine, step, usbByte, insertedKey]
    cases d.accepts b with
    | none => rfl
    | some packet => rfl

theorem insertedKeys_append (d : Dongle) (before after : List DongleInput) :
    d.insertedKeys (before ++ after) =
      d.insertedKeys before ++ (machine.final d before).insertedKeys after := by
  rw [insertedKeys, Machine.trace_append, List.filterMap_append, insertedKeys, insertedKeys]

/-- After a run from the start, the filter holds the keys the run inserted. -/
theorem bloomFilter_final (localMac : Bytes 8) (inputs : List DongleInput) :
    (machine.final (boot localMac) inputs).bloomFilter =
      .ofKeys ((boot localMac).insertedKeys inputs) := by
  induction inputs using List.reverseRecOn with
  | nil => rfl
  | append_singleton inputs input ih =>
    rw [Machine.final_append, insertedKeys_append, SlidingBloomFilter.ofKeys, List.foldl_append,
      ← SlidingBloomFilter.ofKeys, ← ih]
    -- By induction on the last input, whose key is the last one inserted.
    show (machine.next _ input).bloomFilter = _
    rw [bloomFilter_next, insertedKeys, Machine.trace_cons, List.filterMap_cons]
    cases insertedKey _ input with
    | none => rfl
    | some key => rfl

/-! ### Packets from the host -/

/-- The packet that an input completes, if it is a byte from the host. -/
def acceptedPacket (d : Dongle) : DongleInput → Option MeshPacket
  | .usbByte b => d.accepts b
  | _ => none

/-- The packets that bytes from the host complete in a run. -/
def acceptedPackets (d : Dongle) (inputs : List DongleInput) : List MeshPacket :=
  (machine.trace d inputs).filterMap fun x => x.1.acceptedPacket x.2

/-- The key of an accepted packet is inserted. -/
theorem packetKey_mem_insertedKeys {d : Dongle} {inputs : List DongleInput} {packet : MeshPacket}
    (h : packet ∈ d.acceptedPackets inputs) : packetKey packet ∈ d.insertedKeys inputs := by
  obtain ⟨⟨d', input⟩, hmem, haccepts⟩ := List.mem_filterMap.mp h
  refine List.mem_filterMap.mpr ⟨_, hmem, ?_⟩
  cases input with
  | usbByte b =>
    rw [acceptedPacket] at haccepts
    rw [insertedKey, haccepts, Option.map_some]
  | _ => cases haccepts

/-- A byte from the host moves the receiver. -/
theorem usb_next_usbByte (d : Dongle) (b : UInt8) :
    (machine.next d (.usbByte b)).usb = UsbReceiver.machine.next d.usb b := by
  simp only [Machine.next, machine, step, usbByte]
  split
  · rfl
  · rfl

/-- What is accepted from the host alone is what the receiver completes. -/
theorem acceptedPackets_usbBytes (d : Dongle) (bytes : List UInt8) :
    d.acceptedPackets (bytes.map .usbByte) =
      (UsbReceiver.machine.outputs d.usb bytes).filterMap packetOf := by
  induction bytes generalizing d with
  | nil => rfl
  | cons b rest ih =>
    have hrest := ih (machine.next d (.usbByte b))
    rw [usb_next_usbByte] at hrest
    have hemit : UsbReceiver.machine.emit d.usb b = (d.usb.readByte b).2.toList := rfl
    rw [acceptedPackets, List.map_cons, Machine.trace_cons, Machine.outputs_cons,
      List.filterMap_append, ← hrest, hemit, List.filterMap_cons, acceptedPacket, accepts]
    -- A byte completes a buffer or not, and a buffer holds an admitted packet or not.
    cases (d.usb.readByte b).2 with
    | none => exact (List.nil_append _).symm
    | some pktBuf =>
      rw [Option.bind_some, Option.toList_some, List.filterMap_cons, List.filterMap_nil]
      cases packetOf pktBuf with
      | none => exact (List.nil_append _).symm
      | some packet => exact (List.singleton_append).symm

/-- A written packet with an admitted tag is read back. -/
theorem packetOf_serializePayload {packet : MeshPacket}
    (validTag : isValidNetworkTag packet.header.networkTag)
    (out : Bytes MeshPacket.wirePayloadLen) :
    packetOf (packet.serializePayload out) = some packet := by
  rw [packetOf, MeshPacket.deserializePayload_serializePayload]
  exact if_pos validTag

/-- The bytes a host sends for some packets. -/
def hostBytes (packets : List MeshPacket) : List UInt8 :=
  (packets.map fun packet => packet.serializePayload (.zero _)).flatMap UsbReceiver.frame

/-- **Packets from the host.** A host that sends packets with admitted tags, and nothing
else, has them all accepted, in order. -/
theorem acceptedPackets_hostBytes (localMac : Bytes 8) {packets : List MeshPacket}
    (validTags : ∀ packet ∈ packets, isValidNetworkTag packet.header.networkTag) :
    (boot localMac).acceptedPackets ((hostBytes packets).map .usbByte) = packets := by
  rw [acceptedPackets_usbBytes, hostBytes, UsbReceiver.outputs_frames _ rfl, List.filterMap_map]
  have hread : ∀ packet ∈ packets,
      (packetOf ∘ fun packet => packet.serializePayload (.zero _)) packet = some packet := by
    intro packet hpacket
    rw [Function.comp_apply, packetOf_serializePayload (validTags packet hpacket)]
  rw [List.filterMap_congr hread, List.filterMap_some]

/-- Bytes from the host insert the keys of the packets they complete. -/
theorem insertedKeys_usbBytes (d : Dongle) (bytes : List UInt8) :
    d.insertedKeys (bytes.map .usbByte) = (d.acceptedPackets (bytes.map .usbByte)).map packetKey := by
  induction bytes generalizing d with
  | nil => rfl
  | cons b rest ih =>
    have hrest := ih (machine.next d (.usbByte b))
    rw [insertedKeys, acceptedPackets] at hrest
    rw [insertedKeys, acceptedPackets, List.map_cons, Machine.trace_cons, List.filterMap_cons,
      List.filterMap_cons, hrest, insertedKey, acceptedPacket]
    cases d.accepts b with
    | none => exact rfl
    | some packet => exact rfl

end Dongle

end Gibberish.Firmware
