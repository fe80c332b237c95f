/-
# The main loop of the daemon

A station is a daemon with its dongles. It learns a node id from what the dongles print,
encrypts texts under it, and writes the packets to its first dongle. What was sent is
remembered and goes out again when a peer asks for it. The loop is a machine whose inputs
are single lines, packets and texts, so a run of it covers any order and timing of what
the dongles print.
-/

import Gibberish.Daemon.EngineRun
import Gibberish.Daemon.Transport

set_option autoImplicit false

namespace Gibberish.Daemon

open Gibberish.Foundation Gibberish.Protocol Gibberish.Crypto

/-- What the daemon is started with. -/
structure StationSetup where
  swarmTag : UInt64
  swarmMasterKey : Bytes 32
  /-- The node id of `--node-id`. -/
  specifiedNodeId : Option UInt32
  /-- How many dongles could be opened. -/
  dongles : ℕ

/-- What the loop keeps. -/
structure Station where
  localNodeId : UInt32
  nonceMgr : NonceManager
  stateFile : StateFile
  chunkEngine : ChunkEngine

/-- What drives the loop. Dongles are numbered from zero. -/
inductive StationInput where
  /-- The log lines of a dongle's first poll. -/
  | probe (logs : List (List Char))
  /-- A text to push; so many packets are written before a write fails. -/
  | push (text : String) (io : IoOutcome) (now written : ℕ)
  | logLine (line : List Char)
  | wirePacket (dongle : ℕ) (wirePkt : ReceivedWirePacket) (clock : IngestClock)
      (order : InFlightOrder)
  | clipboard (text : String) (io : IoOutcome) (now : ℕ)
  | pendingSacks (now : ℕ) (order : InFlightOrder)

/-- A packet that `fragment_and_encrypt` made for a node id, or a call of `send_packet`. -/
inductive StationEvent where
  | encrypted (localNodeId : UInt32) (packet : MeshPacket)
  | sent (dongle : ℕ) (packet : MeshPacket)
  deriving DecidableEq

namespace Station

def defaultNodeId : UInt32 := 0xBEBCE5B8

/-- A daemon that just started. -/
def start (setup : StationSetup) (nonceMgr : NonceManager) (stateFile : StateFile) : Station :=
  ⟨setup.specifiedNodeId.getD defaultNodeId, nonceMgr, stateFile, .new⟩

/-- Take over the id that a line shows, unless the user gave one. -/
def detect (setup : StationSetup) (s : Station) (detectedId : Option UInt32) : Station :=
  if setup.specifiedNodeId.isSome then s
  else { s with localNodeId := detectedId.getD s.localNodeId }

/-- Packets for the first dongle. -/
def broadcast (setup : StationSetup) (packets : List MeshPacket) : List StationEvent :=
  if 0 < setup.dongles then packets.map (.sent 0) else []

variable (P : Primitives) (setup : StationSetup)

/-- Encrypt a text under the node id in force, and remember its packets. -/
def encrypt (s : Station) (text : String) (io : IoOutcome) (now : ℕ) :
    Station × List MeshPacket :=
  match fragmentAndEncrypt P text setup.swarmTag s.localNodeId setup.swarmMasterKey s.nonceMgr io
      s.stateFile with
  | (.ok packets, nonceMgr, stateFile) =>
    (⟨s.localNodeId, nonceMgr, stateFile, s.chunkEngine.cacheOutbound packets now⟩, packets)
  | (.error _, nonceMgr, stateFile) =>
    ({ s with nonceMgr := nonceMgr, stateFile := stateFile }, [])

/-- Answer a SACK through the dongle it came from, or ingest a packet. -/
def receive (s : Station) (dongle : ℕ) (wirePkt : ReceivedWirePacket) (clock : IngestClock)
    (order : InFlightOrder) : Option Station × List StationEvent :=
  if wirePkt.packet.header.flags &&& flagSack ≠ 0 then
    let e := s.chunkEngine.suppressSack wirePkt.packet.header.msgId clock.now
    (some { s with chunkEngine := e }, (e.handleSack wirePkt.packet).map (.sent dongle))
  else
    match s.chunkEngine.ingestPacket P clock order wirePkt.srcNodeId wirePkt.packet
        setup.swarmMasterKey with
    | none => (none, [])
    | some (_, e) => (some { s with chunkEngine := e }, [])

/-- One input; there is no station left after a panic or a push. -/
def step : Option Station → StationInput → Option Station × List StationEvent
  | none, _ => (none, [])
  | some s, .probe logs => (some (s.detect setup (logs.findSome? parseDongleNodeId)), [])
  | some s, .push text io now written =>
    let packets := (s.encrypt P setup text io now).2
    (none, packets.map (.encrypted s.localNodeId) ++ broadcast setup (packets.take (written + 1)))
  | some s, .logLine line => (some (s.detect setup (parseDongleNodeId line)), [])
  | some s, .wirePacket dongle wirePkt clock order => s.receive P setup dongle wirePkt clock order
  | some s, .clipboard text io now =>
    let (s', packets) := s.encrypt P setup text io now
    (some s', packets.map (.encrypted s.localNodeId) ++ broadcast setup packets)
  | some s, .pendingSacks now order =>
    let (sacks, e) := s.chunkEngine.checkPendingSacks s.localNodeId setup.swarmTag now order
    (some { s with chunkEngine := e }, broadcast setup sacks)

/-- The loop as a machine that emits what it encrypts and what it sends. -/
def machine : Machine (Option Station) StationInput StationEvent := ⟨step P setup⟩

/-! ### Rounds of the loop -/

/-- One read from a dongle, with the clock readings and iteration orders of its packets. -/
structure DongleRead where
  chunk : List UInt8
  clock : ℕ → IngestClock
  order : ℕ → InFlightOrder

/-- Poll a dongle: its log lines, then its packets. -/
def pollInputs (dongle : ℕ) (t : SerialTransport) (read : DongleRead) :
    SerialTransport × List StationInput :=
  let (t, packets, logs) := t.pollStream read.chunk
  (t, logs.map .logLine ++ packets.zipIdx.map fun x =>
    .wirePacket dongle x.1 (read.clock x.2) (read.order x.2))

/-- One round of the loop: a read from each dongle, what was copied, and the SACK poll. -/
structure Round where
  reads : List DongleRead
  copied : Option (String × IoOutcome × ℕ)
  sackNow : ℕ
  sackOrder : InFlightOrder

/-- Poll the dongles, look at the clipboard, send what SACKs are due. -/
def Round.inputs (round : Round) (transports : List SerialTransport) :
    List SerialTransport × List StationInput :=
  let polls := (transports.zip round.reads).mapIdx fun i x => pollInputs i x.1 x.2
  (polls.map Prod.fst, polls.flatMap Prod.snd ++
    (round.copied.toList.map fun x => .clipboard x.1 x.2.1 x.2.2) ++
    [.pendingSacks round.sackNow round.sackOrder])

def roundsInputs : List Round → List SerialTransport → List StationInput
  | [], _ => []
  | round :: rest, transports =>
    (round.inputs transports).2 ++ roundsInputs rest (round.inputs transports).1

/-- A push, or rounds of the loop. -/
inductive Command where
  | push (text : String) (io : IoOutcome) (now written : ℕ)
  | sync (rounds : List Round)

/-- What drives a daemon: a probe of each dongle with what it reads, then its command. -/
def daemonInputs (probes : List (List UInt8)) (command : Command) : List StationInput :=
  let polls := probes.map SerialTransport.opened.pollStream
  (polls.map fun poll => .probe poll.2.2) ++
    match command with
    | .push text io now written => [.push text io now written]
    | .sync rounds => roundsInputs rounds (polls.map Prod.fst)

end Station

end Gibberish.Daemon
