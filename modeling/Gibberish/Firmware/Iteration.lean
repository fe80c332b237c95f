/-
# A turn of the main loop

Everything the loop keeps, and what it does in one turn of five milliseconds, in the order
of the source: the clock of the radio, the button, the slot's work, the bytes of the host,
the flush, the light, the uptime and the dashboard.
-/

import Gibberish.Firmware.BleGate
import Gibberish.Firmware.Coexistence
import Gibberish.Firmware.Display
import Gibberish.Firmware.Led
import Gibberish.Firmware.MainLoop
import Gibberish.Firmware.TelemetryLine
import Gibberish.Storage.Manager

set_option autoImplicit false

namespace Gibberish.Firmware

open Gibberish.Foundation Gibberish.Protocol Gibberish.Storage

/-- What a turn finds. -/
structure Surroundings where
  btnIsPressed : Bool
  /-- Whether the radio takes a frame. -/
  txOk : Bool
  /-- The random numbers behind a telemetry packet: its jitter and the next interval. -/
  jitterRandom : UInt32
  intervalRandom : UInt32
  freeHeap : ℕ
  /-- The frames that are waiting at the radio, each with the random number of its relay. -/
  frames : List (List UInt8 × UInt32)
  usbBytes : List UInt8

/-- What a turn does to the world. -/
inductive LoopOutput where
  | traffic (output : DongleOutput)
  | pairingAuthorized
  | beaconScheduled (beaconMsgId : UInt32)
  | led (pixel : LedPixel)
  | heartbeat (localNodeId uptimeSecs : UInt32) (mode : StorageModeStatus) (sramUsed : ℕ)
      (dropped : UInt32)
  | dashboard (args : DashboardArgs)

/-- What the loop keeps, over a device for storage. -/
structure MainLoop (D : Type) where
  btnWasPressed : Bool
  sramRing : SramRingBuffer
  storage : DynamicStorageManager D
  peerTable : PeerTable
  syncAnimTicks : UInt8
  bloomFilter : SlidingBloomFilter
  tdmArbiter : TdmArbiter
  backoff : BackoffController
  bleGate : BleSecurityGate
  radio : RadioManager
  usb : UsbReceiver
  telemetry : ClosedTelemetry
  loopTick : UInt32
  ledPulseStep : UInt8
  btnFlashTicks : UInt32
  rxFlashTicks : UInt32
  telemFlashTicks : UInt32
  beaconSeq : UInt32
  telemSeq : UInt32
  telemElapsedMs : UInt32
  nextTelemIntervalMs : UInt32

/-- The counters of a dongle that just started. -/
def ClosedTelemetry.new : ClosedTelemetry := ⟨0, 0, 0, 0, 0, .ramOnly, .boot, 0⟩

/-- The time to the next telemetry packet. -/
def calcNextTelemInterval (tier : TelemetryTier) (random : UInt32) : UInt32 :=
  match tier with
  | .prod => 55000 + random % 10001
  | .debug => 4500 + random % 1001

namespace MainLoop

variable {D : Type}

/-- The storage that the firmware starts with: on the card, if one was found. -/
def mount [BlockDevice D] (crc32 : Checksum) : Option D → DynamicStorageManager D
  | some sdDevice => .newWithDevice crc32 sdDevice
  | none => .newRamOnly

def boot (tier : TelemetryTier) (fullMac : Bytes 8) (storage : DynamicStorageManager D)
    (random : UInt32) : MainLoop D where
  btnWasPressed := false
  sramRing := .new
  storage := storage
  peerTable := .new
  syncAnimTicks := 0
  bloomFilter := .new
  tdmArbiter := .new
  backoff := .new
  bleGate := .new
  radio := .new fullMac
  usb := .new
  telemetry := .new
  loopTick := 0
  ledPulseStep := 0
  btnFlashTicks := 0
  rxFlashTicks := 0
  telemFlashTicks := 0
  beaconSeq := 0
  telemSeq := 0
  telemElapsedMs := 0
  nextTelemIntervalMs := calcNextTelemInterval tier random

def localNodeId (s : MainLoop D) : UInt32 := nodeIdOf s.radio.localMac

/-- `u32::saturating_add`. -/
def saturatingAdd32 (x y : UInt32) : UInt32 :=
  if x.toNat + y.toNat < 2 ^ 32 then x + y else 0xFFFFFFFF

/-! ### The button -/

/-- The button goes down: a beacon is queued, and a pairing that waits is authorized. -/
def pressButton (s : MainLoop D) : MainLoop D × List LoopOutput :=
  let beaconSeq := s.beaconSeq + 1
  let beaconMsgId := s.localNodeId + beaconSeq
  let s :=
    { s with
      btnFlashTicks := 40
      beaconSeq := beaconSeq
      bloomFilter := s.bloomFilter.insert beaconMsgId 0
      backoff := s.backoff.scheduleTx (Dongle.beaconPacket beaconMsgId) 15 }
  -- The beacon has its line only where the press authorized no pairing.
  match s.bleGate.onButtonPress with
  | (true, bleGate) =>
    ({ s with
        bleGate := bleGate
        telemetry := { s.telemetry with lastEvent := .bleAuthGranted } },
      [.pairingAuthorized])
  | (false, bleGate) => ({ s with bleGate := bleGate }, [.beaconScheduled beaconMsgId])

def checkButton (s : MainLoop D) (btnIsPressed : Bool) : MainLoop D × List LoopOutput :=
  -- A button that is held goes down once.
  let (s, out) := if btnIsPressed && !s.btnWasPressed then s.pressButton else (s, [])
  ({ s with btnWasPressed := btnIsPressed }, out)

/-- One tick less, unless there is none. -/
def tickDown (ticks : UInt32) : UInt32 := if ticks > 0 then ticks - 1 else ticks

def countDown (s : MainLoop D) : MainLoop D :=
  { s with
    btnFlashTicks := tickDown s.btnFlashTicks
    telemFlashTicks := tickDown s.telemFlashTicks
    rxFlashTicks := tickDown s.rxFlashTicks
    bleGate := s.bleGate.tick 5 }

/-! ### The slot of the mesh -/

/-- The packet whose time has come is broadcast. -/
def serviceBackoff (s : MainLoop D) (txOk : Bool) : MainLoop D × List LoopOutput :=
  match s.backoff.tick 5 with
  | (false, backoff) => ({ s with backoff := backoff }, [])
  | (true, backoff) =>
    match backoff.takePending with
    | (none, backoff) => ({ s with backoff := backoff }, [])
    | (some packet, backoff) =>
      let (frame, radio) := s.radio.transmit packet
      let s := { s with backoff := backoff, radio := radio }
      if txOk then
        ({ s with
            telemetry :=
              { s.telemetry with
                txPacketCount := saturatingSucc32 s.telemetry.txPacketCount
                lastEvent := .radioTxOk } },
          [.traffic (.broadcast frame packet)])
      -- What the radio did not take is not queued again.
      else (s, [.traffic (.txFail packet)])

/-- The diagnostics of this dongle. -/
def debugTelemetry (s : MainLoop D) (freeHeap : ℕ) : DebugTelemetryPayload where
  uptimeSecs := s.telemetry.uptimeSecs
  rxCount := s.telemetry.rxPacketCount
  txCount := s.telemetry.txPacketCount
  dropCount := s.sramRing.droppedCount
  sramUsed := .ofNat s.sramRing.len
  storageMode := s.storage.mode
  lastEvent := s.telemetry.lastEvent
  buildTier := .debug
  freeHeapKb := .ofNat (freeHeap / 1024)
  lastRssi := s.telemetry.lastRssi
  lastLqi := rssiToLqi s.telemetry.lastRssi
  nodeMacTail := s.radio.localMac
  diagnosticReserve := .zero 64

/-- The counters, with what is known of the ring and the storage. -/
def withStorage (s : MainLoop D) : ClosedTelemetry :=
  { s.telemetry with
    sramRingUsed := .ofNat s.sramRing.len
    droppedCount := s.sramRing.droppedCount
    storageMode := s.storage.mode }

/-- The payload of a telemetry packet, and the counters it leaves. -/
def telemetryPayload (tier : TelemetryTier) (postcard : Postcard) (s : MainLoop D)
    (freeHeap : ℕ) : Bytes ciphertextLen × ClosedTelemetry :=
  match tier with
  -- A debug build reads the ring, and leaves its counters as they are.
  | .debug => ((s.debugTelemetry freeHeap).serialize (.zero ciphertextLen), s.telemetry)
  | .prod => (prodPayload postcard s.withStorage, s.withStorage)

/-- Time of the mesh passes, and a telemetry packet is made and offered to the queue when it is
due. -/
def emitTelemetry (tier : TelemetryTier) (postcard : Postcard) (s : MainLoop D)
    (around : Surroundings) : MainLoop D :=
  let telemElapsedMs := saturatingAdd32 s.telemElapsedMs 5
  if telemElapsedMs ≥ s.nextTelemIntervalMs then
    let (payload, telemetry) := telemetryPayload tier postcard s around.freeHeap
    -- The number is used up even where user traffic keeps the packet out.
    let telemSeq := s.telemSeq + 1
    let telemJitter := (around.jitterRandom % 46).toUInt16 + 15
    { s with
      telemElapsedMs := 0
      nextTelemIntervalMs := calcNextTelemInterval tier around.intervalRandom
      telemSeq := telemSeq
      telemetry := telemetry
      backoff :=
        (s.backoff.scheduleTelemetry (Dongle.telemetryPacket telemSeq payload) telemJitter).2 }
  else { s with telemElapsedMs := telemElapsedMs }

/-- The peer that sent the packet is recorded, unless it is unknown or this dongle. -/
def recordPeer (s : MainLoop D) (rx : ReceivedMeshPacket) : PeerTable :=
  if effectiveSrcNode rx ≠ 0 ∧ effectiveSrcNode rx ≠ s.localNodeId then
    s.peerTable.recordPeer (effectiveSrcNode rx) rx.rssi rx.lqi
  else s.peerTable

/-- The animation starts over with every packet of a clipboard. -/
def animTicksAfter (ticks : UInt8) (packet : MeshPacket) : UInt8 :=
  if packet.header.flags &&& flagClipboard ≠ 0 then 8 else ticks

/-- The counters after a packet has come in. -/
def countRx (telemetry : ClosedTelemetry) (rx : ReceivedMeshPacket) : ClosedTelemetry :=
  { telemetry with
    rxPacketCount := saturatingSucc32 telemetry.rxPacketCount
    lastEvent := .radioRxOk
    lastRssi := rx.rssi }

/-- A packet off the radio: foreign, telemetry, seen before, or new. -/
def receive (s : MainLoop D) (rx : ReceivedMeshPacket) (random : UInt32) :
    MainLoop D × List LoopOutput :=
  let header := rx.packet.header
  if !isValidNetworkTag header.networkTag then
    ({ s with telemetry := { s.telemetry with lastEvent := .radioDroppedTagMismatch } }, [])
  else
    -- Whoever sent it is a peer, whatever becomes of the packet.
    let s :=
      { s with
        peerTable := s.recordPeer rx
        syncAnimTicks := animTicksAfter s.syncAnimTicks rx.packet }
    if header.flags &&& flagTelemetry ≠ 0 then
      ({ s with
          telemFlashTicks := 20
          telemetry := countRx s.telemetry rx },
        [.traffic (.telemetryRx rx)])
    -- A copy is not counted, and calls off what waits here.
    else if s.bloomFilter.contains header.msgId header.chunkIdx then
      ({ s with backoff := (s.backoff.onOverhear header.msgId header.chunkIdx).2 }, [])
    else
      let backoff := (s.backoff.onOverhear header.msgId header.chunkIdx).2
      ({ s with
          bloomFilter := s.bloomFilter.insert header.msgId header.chunkIdx
          sramRing := (s.sramRing.push rx.packet).2
          backoff := Dongle.scheduleRelay backoff rx random
          telemetry := countRx s.telemetry rx
          rxFlashTicks := 20 },
        [.traffic (.radioRx rx), .traffic (.pktLine rx.srcNodeId rx.packet)])

/-- The radio is polled until it has no more packet. -/
def pollFrames (s : MainLoop D) : List (List UInt8 × UInt32) → MainLoop D × List LoopOutput
  | [] => (s, [])
  | (data, random) :: rest =>
    match s.radio.receiveRaw data with
    | none => pollFrames s rest
    | some rx =>
      let (s, out) := s.receive rx random
      let (s, more) := pollFrames s rest
      (s, out ++ more)

/-- The work of the mesh's slot. -/
def meshSlot (tier : TelemetryTier) (postcard : Postcard) (s : MainLoop D)
    (around : Surroundings) : MainLoop D × List LoopOutput :=
  let (s, sent) := s.serviceBackoff around.txOk
  let (s, received) := (emitTelemetry tier postcard s around).pollFrames around.frames
  (s, sent ++ received)

/-! ### The host -/

/-- A byte from the host; the packet it completes is pushed, recorded and queued, if its tag
is admitted. -/
def usbByte (s : MainLoop D) (b : UInt8) : MainLoop D × List LoopOutput :=
  let (usb, pktBuf) := s.usb.readByte b
  let s := { s with usb := usb }
  match pktBuf.bind Dongle.packetOf with
  | none => (s, [])
  | some packet =>
    ({ s with
        syncAnimTicks := animTicksAfter s.syncAnimTicks packet
        bloomFilter := s.bloomFilter.insert packet.header.msgId packet.header.chunkIdx
        sramRing := (s.sramRing.push packet).2
        backoff := s.backoff.scheduleTx packet 15 },
      [.traffic (.usbRx packet)])

def drainUsb (s : MainLoop D) : List UInt8 → MainLoop D × List LoopOutput
  | [] => (s, [])
  | b :: rest =>
    let (s, out) := s.usbByte b
    let (s, more) := drainUsb s rest
    (s, out ++ more)

/-! ### The rest of a turn -/

section Storage

variable [BlockDevice D] (crc32 : Checksum)

def flush (s : MainLoop D) : MainLoop D :=
  let (storage, sramRing) := s.storage.flushFromSram crc32 s.sramRing
  { s with storage := storage, sramRing := sramRing }

end Storage

/-- The light: the button first, then telemetry, then other packets, then the gate. -/
def showLed (s : MainLoop D) : MainLoop D × List LoopOutput :=
  if s.btnFlashTicks > 0 then (s, [.led Apa102.green])
  else if s.telemFlashTicks > 0 then (s, [.led Apa102.magenta])
  else if s.rxFlashTicks > 0 then (s, [.led Apa102.cyan])
  else
    match s.bleGate.state with
    | .pairingRequested _ _ =>
      -- The pulse goes on only while it is shown.
      let ledPulseStep := s.ledPulseStep + 1
      ({ s with ledPulseStep := ledPulseStep }, [.led (Apa102.amberPulse ledPulseStep)])
    | .authorized => (s, [.led Apa102.green])
    | _ => (s, [.led Apa102.idleBlue])

/-- The uptime, once a second. -/
def countUptime (s : MainLoop D) : MainLoop D × List LoopOutput :=
  if s.loopTick % 200 = 0 then
    let uptimeSecs := saturatingSucc32 s.telemetry.uptimeSecs
    ({ s with telemetry := { s.telemetry with uptimeSecs := uptimeSecs } },
      if uptimeSecs % 2 = 0 then
        [.heartbeat s.localNodeId uptimeSecs s.storage.mode s.sramRing.len s.sramRing.droppedCount]
      else [])
  else (s, [])

/-- The PIN of a pairing that waits. -/
def blePin (s : MainLoop D) : Option UInt32 :=
  match s.bleGate.state with
  | .pairingRequested pin _ => some pin
  | _ => none

def dashboardArgs (s : MainLoop D) : DashboardArgs where
  localNodeId := s.localNodeId
  channel := 15
  freqStr := "2.425 GHz".toList
  storageMode := s.storage.mode
  rxCount := s.telemetry.rxPacketCount
  txCount := s.telemetry.txPacketCount
  sramUsed := s.sramRing.len
  dropped := s.sramRing.droppedCount
  peer1 := s.peerTable.primaryPeer
  peer2 := s.peerTable.secondaryPeer
  blePin := s.blePin
  btnActive := s.btnFlashTicks > 0
  syncPhase := mainSyncPhase s.syncAnimTicks

/-- The dashboard, four times a second. -/
def showDashboard (s : MainLoop D) : MainLoop D × List LoopOutput :=
  if s.loopTick % 50 = 0 then
    ({ s with
        telemetry := s.withStorage
        syncAnimTicks := if s.syncAnimTicks > 0 then s.syncAnimTicks - 1 else s.syncAnimTicks },
      [.dashboard s.dashboardArgs])
  else (s, [])

/-- The clocks, the button and the lights that go out. -/
def beforeSlot (s : MainLoop D) (btnIsPressed : Bool) : MainLoop D × List LoopOutput :=
  let s := { s with loopTick := s.loopTick + 1, tdmArbiter := (s.tdmArbiter.advance 5).2 }
  let (s, pressed) := s.checkButton btnIsPressed
  (s.countDown, pressed)

/-- The work of the slot; the companion has none yet. -/
def slotWork (tier : TelemetryTier) (postcard : Postcard) (s : MainLoop D)
    (around : Surroundings) : RadioSlot → MainLoop D × List LoopOutput
  | .ieee802154Mesh => meshSlot tier postcard s around
  | .guardBand | .bleCompanion => (s, [])

/-- The light, the uptime and the dashboard. -/
def report (s : MainLoop D) : MainLoop D × List LoopOutput :=
  let (s, lit) := s.showLed
  let (s, counted) := s.countUptime
  let (s, shown) := s.showDashboard
  (s, lit ++ counted ++ shown)

/-- The button, the slot and the host. -/
def work (tier : TelemetryTier) (postcard : Postcard) (s : MainLoop D) (around : Surroundings) :
    MainLoop D × List LoopOutput :=
  let slot := (s.tdmArbiter.advance 5).1
  let (s, pressed) := s.beforeSlot around.btnIsPressed
  let (s, meshed) := slotWork tier postcard s around slot
  let (s, drained) := s.drainUsb around.usbBytes
  (s, pressed ++ meshed ++ drained)

variable [BlockDevice D]

/-- A turn of the loop. -/
def turn (crc32 : Checksum) (tier : TelemetryTier) (postcard : Postcard) (s : MainLoop D)
    (around : Surroundings) : MainLoop D × List LoopOutput :=
  let (s, worked) := work tier postcard s around
  let (s, reported) := (s.flush crc32).report
  (s, worked ++ reported)

/-- The loop as a machine. -/
def machine (crc32 : Checksum) (tier : TelemetryTier) (postcard : Postcard) :
    Machine (MainLoop D) Surroundings LoopOutput := ⟨turn crc32 tier postcard⟩

end MainLoop

end Gibberish.Firmware
