import Gibberish.Daemon.NonceDurability
import Gibberish.Daemon.NonceInstances
import Gibberish.Daemon.Replay
import Gibberish.Daemon.Authenticity
import Gibberish.Daemon.SackRecovery
import Gibberish.Foundation.HashTable
import Gibberish.Protocol.Sack
import Gibberish.Daemon.NonceReuse
import Gibberish.Firmware.Radio
import Gibberish.Mesh.RelayIdentity
import Gibberish.Firmware.Dedup
import Gibberish.Firmware.MainLoop
import Gibberish.Mesh.SackDelivery
import Gibberish.Foundation.RingQueue
import Gibberish.Storage.SramRing
import Gibberish.Storage.Container
import Gibberish.Storage.Manager
import Gibberish.Storage.Flush
import Gibberish.Storage.Recovery
import Gibberish.Storage.PingPong
import Gibberish.Daemon.Transport
import Gibberish.Firmware.HostLines
import Gibberish.Mesh.OneHop
import Gibberish.Daemon.LineReader
import Gibberish.Firmware.BackoffQueue
import Gibberish.Firmware.RelayDecision
import Gibberish.Firmware.Traffic
import Gibberish.Mesh.Network
import Gibberish.Mesh.Flooding
import Gibberish.Firmware.Preemption
import Gibberish.Daemon.Station
import Gibberish.Daemon.StationIdentity
import Gibberish.Mesh.PacketIdentity
import Gibberish.Firmware.QueueLosses
import Gibberish.Firmware.Telemetry
import Gibberish.Firmware.TelemetryLine
import Gibberish.Daemon.Fleet
import Gibberish.Mesh.FleetTelemetry
import Gibberish.Firmware.MinimumBackoff
import Gibberish.Daemon.HostilePackets
import Gibberish.Daemon.WholeText
import Gibberish.Daemon.Clipboard
import Gibberish.Foundation.Framing
import Gibberish.Firmware.UsbStream
import Gibberish.Daemon.PktGrammar
import Gibberish.Protocol.SackSet
import Gibberish.Daemon.SackTimers
import Gibberish.Daemon.SackScope
import Gibberish.Foundation.BoundedFifo
import Gibberish.Storage.RingRun
import Gibberish.Foundation.RecentlyUsed
import Gibberish.Protocol.PeerTable
import Gibberish.Protocol.PeerRecency
import Gibberish.Storage.RecordCodec
import Gibberish.Foundation.Since
import Gibberish.Firmware.BleGate
import Gibberish.Foundation.CyclicRedundancy
import Gibberish.Foundation.Repaint
import Gibberish.Storage.Crc7
import Gibberish.Firmware.Display
import Gibberish.Firmware.DisplayCells
import Gibberish.Firmware.DirtyRegions
import Gibberish.Storage.CardRecords
import Gibberish.Firmware.SharedSpi
import Gibberish.Firmware.TelemetryCadence
import Gibberish.Firmware.QueueLatency
import Gibberish.Firmware.LoopStorage
import Gibberish.Firmware.LoopReports
import Gibberish.Mesh.LoopNetwork
import Gibberish.Mesh.FleetDashboard
