/-
# Telemetry lines

A dongle prints a line for each telemetry packet off the radio. It names the sender, by
its radio address or else by the id inside a debug payload, and the counters of the
payload as far as they can be read.
-/

import Gibberish.Firmware.Radio
import Gibberish.Firmware.Telemetry
import Gibberish.Foundation.Decimal
import Gibberish.Foundation.Text

set_option autoImplicit false

namespace Gibberish.Firmware

open Gibberish.Foundation Gibberish.Foundation.Text Gibberish.Protocol Gibberish.Storage

/-- What `{:?}` prints. -/
def TelemetryTier.debugFmt : TelemetryTier → List Char
  | debug => "Debug".toList
  | prod => "Prod".toList

def storageModeDebugFmt : StorageModeStatus → List Char
  | .ramOnly => "RamOnly".toList
  | .microSdActive => "MicroSdActive".toList

/-- The sender of a packet, if it is known. -/
def effectiveSrcNode (rx : ReceivedMeshPacket) : UInt32 :=
  if rx.srcNodeId ≠ 0 then rx.srcNodeId
  else if rx.packet.header.flags &&& flagTelemetry ≠ 0 ∧
      rx.packet.payload[20]? = some TelemetryTier.debug.toU8 then
    (DebugTelemetryPayload.deserialize rx.packet.payload).nodeId
  else 0

/-- What a telemetry line reports of a node. -/
structure TelemetryReport where
  nodeId : UInt32
  tier : TelemetryTier
  storageMode : StorageModeStatus
  uptimeSecs : UInt32
  sramUsed : UInt16
  dropCount : UInt32
  rxCount : UInt32
  txCount : UInt32
  rssi : Int8
  lqi : UInt8
  deriving DecidableEq

namespace TelemetryReport

def ofDebug (nodeId : UInt32) (dbg : DebugTelemetryPayload) (rssi : Int8) (lqi : UInt8) :
    TelemetryReport where
  nodeId := nodeId
  tier := dbg.buildTier
  storageMode := dbg.storageMode
  uptimeSecs := dbg.uptimeSecs
  sramUsed := dbg.sramUsed
  dropCount := dbg.dropCount
  rxCount := dbg.rxCount
  txCount := dbg.txCount
  rssi := rssi
  lqi := lqi

def ofClosed (nodeId : UInt32) (closed : ClosedTelemetry) (rssi : Int8) (lqi : UInt8) :
    TelemetryReport where
  nodeId := nodeId
  tier := .prod
  storageMode := closed.storageMode
  uptimeSecs := closed.uptimeSecs
  sramUsed := closed.sramRingUsed
  dropCount := closed.droppedCount
  rxCount := closed.rxPacketCount
  txCount := closed.txPacketCount
  rssi := rssi
  lqi := lqi

/-- The line of a payload that was read. -/
def line (r : TelemetryReport) : List Char :=
  "[Telemetry RX] Node: ".toList ++ upperHex 8 r.nodeId.toNat ++
    ", Tier: ".toList ++ r.tier.debugFmt ++
    ", Storage: ".toList ++ storageModeDebugFmt r.storageMode ++
    ", Uptime: ".toList ++ Decimal.ofNat r.uptimeSecs.toNat ++
    "s, SRAM: ".toList ++ Decimal.ofNat r.sramUsed.toNat ++
    "/256, Drops: ".toList ++ Decimal.ofNat r.dropCount.toNat ++
    ", RX: ".toList ++ Decimal.ofNat r.rxCount.toNat ++
    ", TX: ".toList ++ Decimal.ofNat r.txCount.toNat ++
    ", RSSI: ".toList ++ Decimal.ofInt r.rssi.toInt ++
    " dBm, LQI: ".toList ++ Decimal.ofNat r.lqi.toNat

end TelemetryReport

/-- The line of a payload that neither form reads. -/
def unreadableLine (nodeId : UInt32) (rssi : Int8) (lqi : UInt8) : List Char :=
  "[Telemetry RX] Node: ".toList ++ upperHex 8 nodeId.toNat ++
    ", Tier: ".toList ++ TelemetryTier.debug.debugFmt ++
    ", Uptime: ".toList ++ Decimal.ofNat 0 ++
    "s, SRAM: ".toList ++ Decimal.ofNat 0 ++
    "/256, Drops: ".toList ++ Decimal.ofNat 0 ++
    ", RSSI: ".toList ++ Decimal.ofInt rssi.toInt ++
    " dBm, LQI: ".toList ++ Decimal.ofNat lqi.toNat

/-- The line printed for a telemetry packet. -/
def telemetryRxLine (postcard : Postcard) (rx : ReceivedMeshPacket) : List Char :=
  match classifyTelemetry postcard rx.packet.payload with
  | .debug dbg =>
    let nodeId := if effectiveSrcNode rx ≠ 0 then effectiveSrcNode rx else dbg.nodeId
    (TelemetryReport.ofDebug nodeId dbg rx.rssi rx.lqi).line
  | .prod closed => (TelemetryReport.ofClosed (effectiveSrcNode rx) closed rx.rssi rx.lqi).line
  | .unreadable => unreadableLine (effectiveSrcNode rx) rx.rssi rx.lqi

theorem effectiveSrcNode_of_ne {rx : ReceivedMeshPacket} (h : rx.srcNodeId ≠ 0) :
    effectiveSrcNode rx = rx.srcNodeId := if_pos h

end Gibberish.Firmware
