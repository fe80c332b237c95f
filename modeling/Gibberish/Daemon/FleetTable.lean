/-
# The fleet's table

The daemon's sink keeps the last telemetry of each node in a hash table, appends a line for
each to a log file, and draws the table as a dashboard, one row for each node in the order
of their ids. Whatever lines it reads, the dashboard shows of each node that they name what
its last line said.
-/

import Gibberish.Foundation.Machine
import Gibberish.Foundation.SortedTable
import Gibberish.Daemon.Fleet
import Gibberish.Firmware.Display
import Mathlib.Data.List.Lex

set_option autoImplicit false

namespace Gibberish.Daemon

open Gibberish.Foundation Gibberish.Foundation.Text
open Gibberish.Firmware (padLeft padRight padZeros)

/-- Every node stands under its own id. -/
structure FleetManager where
  nodes : HashTable (List Char) NodeTelemetry
  /-- Whether the log file could be opened. -/
  logFile : Bool
  logPath : List Char
  keyed : ∀ id node, nodes.lookup id = some node → node.nodeId = id

namespace FleetManager

def new (logPath : List Char) (logFile : Bool) : FleetManager where
  nodes := ∅
  logFile := logFile
  logPath := logPath
  keyed := fun _ _ hlookup => by simp at hlookup

def nodeCount (fleet : FleetManager) : ℕ := fleet.nodes.size

def getNode (fleet : FleetManager) (nodeId : List Char) : Option NodeTelemetry :=
  fleet.nodes.lookup nodeId

/-- The line of the log file; `now` is the time in seconds since the epoch. -/
def logLine (now : ℕ) (t : NodeTelemetry) : List Char :=
  "[".toList ++ Decimal.ofNat now ++ "] Node ".toList ++ t.nodeId ++ " (".toList ++ t.tier ++
    ") | Uptime: ".toList ++ Decimal.ofNat t.uptimeSecs.toNat ++ "s | Storage: ".toList ++
    t.storageMode ++ " | RX: ".toList ++ Decimal.ofNat t.rxCount.toNat ++ " TX: ".toList ++
    Decimal.ofNat t.txCount.toNat ++ " Drops: ".toList ++ Decimal.ofNat t.dropCount.toNat ++
    " | RSSI: ".toList ++ Decimal.ofInt t.rssi.toInt ++ " dBm LQI: ".toList ++
    Decimal.ofNat t.lqi.toNat ++ "\n".toList

/-- What is written to the log file. -/
def logEntry (fleet : FleetManager) (now : ℕ) (t : NodeTelemetry) : List (List Char) :=
  if fleet.logFile then [logLine now t] else []

/-- Put a node under its id. -/
def record (fleet : FleetManager) (telemetry : NodeTelemetry) : FleetManager where
  nodes := fleet.nodes.insert telemetry.nodeId telemetry
  logFile := fleet.logFile
  logPath := fleet.logPath
  keyed := by
    intro id node hlookup
    rcases eq_or_ne id telemetry.nodeId with rfl | hne
    · rw [AList.lookup_insert] at hlookup
      rw [← Option.some_inj.mp hlookup]
    · rw [AList.lookup_insert_ne hne] at hlookup
      exact fleet.keyed id node hlookup

/-- A line, with the time by both clocks: `now` in nanoseconds, `epochSecs` in seconds. -/
structure FleetLine where
  line : List Char
  now : ℕ
  epochSecs : ℕ

/-- What a line is read as. -/
def FleetLine.telemetry (upper : Char → List Char) (x : FleetLine) : Option NodeTelemetry :=
  parseTelemetryLine upper x.now x.line

def ingestLine (upper : Char → List Char) (fleet : FleetManager) (x : FleetLine) :
    Option NodeTelemetry × FleetManager × List (List Char) :=
  match x.telemetry upper with
  | some telemetry =>
    (some telemetry, fleet.record telemetry, fleet.logEntry x.epochSecs telemetry)
  -- Any other line leaves the table and the file alone.
  | none => (none, fleet, [])

def formatUptime (secs : UInt32) : List Char :=
  let h := secs.toNat / 3600
  let m := secs.toNat % 3600 / 60
  let s := secs.toNat % 60
  padZeros 2 (Decimal.ofNat h) ++ ":".toList ++ padZeros 2 (Decimal.ofNat m) ++ ":".toList ++
    padZeros 2 (Decimal.ofNat s)

/-- Strings compare by their bytes. -/
def idBytes (node : NodeTelemetry) : List ℕ := (encode node.nodeId).map UInt8.toNat

/-- The colour and the text for the time since a node was last seen, in seconds. -/
def lastSeenLook (elapsedSecs : ℕ) : List Char × List Char :=
  if elapsedSecs ≤ 10 then ("\x1B[32m".toList, Decimal.ofNat elapsedSecs ++ "s ago".toList)
  else if elapsedSecs ≤ 30 then ("\x1B[33m".toList, Decimal.ofNat elapsedSecs ++ "s ago".toList)
  else ("\x1B[31m".toList, Decimal.ofNat elapsedSecs ++ "s ago (STALE)".toList)

/-- A node's row, drawn when the clock reads `now`. -/
def row (now : ℕ) (node : NodeTelemetry) : List Char :=
  let elapsedSecs := (now - node.lastSeen) / 1000000000
  let (colorCode, lastSeenStr) := lastSeenLook elapsedSecs
  padRight 8 node.nodeId ++ "  ".toList ++ padRight 5 node.tier ++ "  ".toList ++
    padRight 10 node.storageMode ++ "  ".toList ++ padRight 8 (formatUptime node.uptimeSecs) ++
    " ".toList ++ padLeft 5 (Decimal.ofNat node.rxCount.toNat) ++ " ".toList ++
    padLeft 5 (Decimal.ofNat node.txCount.toNat) ++ " ".toList ++
    padLeft 7 (Decimal.ofNat node.dropCount.toNat) ++ "  ".toList ++
    padLeft 4 (Decimal.ofInt node.rssi.toInt) ++ "   ".toList ++
    padLeft 3 (Decimal.ofNat node.lqi.toNat) ++ "  ".toList ++ colorCode ++
    padLeft 13 lastSeenStr ++ "\x1B[0m\n".toList

def border : List Char := "\x1B[1;36m".toList ++ List.replicate 80 '=' ++ "\x1B[0m\n".toList

/-- What stands above the rows. -/
def heading (logPath : List Char) (listeningPorts : List (List Char)) : List Char :=
  let portsStr :=
    if listeningPorts.isEmpty then "None".toList else ", ".toList.intercalate listeningPorts
  border ++ " PROJECT GIBBERISH - 802.15.4 OFF-GRID FLEET SINK\n".toList ++
    (" Listening on: ".toList ++ portsStr ++ " | Logging to: ".toList ++ logPath ++ "\n".toList) ++
    border ++
    ("\x1B[1mNODE ID   TIER   STORAGE     UPTIME     RX    TX   DROPS  RSSI   LQI  " ++
      "LAST SEEN\x1B[0m\n").toList ++
    (List.replicate 80 '-' ++ "\n".toList)

def noRows : List Char :=
  " (No telemetry frames received yet - waiting for 802.15.4 beacons...)\n".toList

/-- The rows of a list of nodes; the clock is read again for each. -/
def rows (clock : ℕ → ℕ) (shown : List NodeTelemetry) : List Char :=
  if shown.isEmpty then noRows else (shown.mapIdx fun i node => row (clock i) node).flatten

/-- `order` is that in which the table is visited, and `clock` what the clock reads at each
row. -/
def renderDashboard (fleet : FleetManager) (order : IterOrder (Σ _ : List Char, NodeTelemetry))
    (clock : ℕ → ℕ) (listeningPorts : List (List Char)) : List Char :=
  heading fleet.logPath listeningPorts ++ rows clock (fleet.nodes.sortedBy order idBytes) ++ border

/-! ### Runs -/

/-- One line after another; what is written to the log file comes out. -/
def machine (upper : Char → List Char) : Machine FleetManager FleetLine (List Char) :=
  ⟨fun fleet x => (fleet.ingestLine upper x).2⟩

/-- What the lines say of a node, the last of them that names it. -/
def lastTelemetry (upper : Char → List Char) (lines : List FleetLine) (nodeId : List Char) :
    Option NodeTelemetry :=
  (lines.reverse.filterMap (FleetLine.telemetry upper)).find? fun t => t.nodeId = nodeId

variable (upper : Char → List Char)

theorem next_eq (fleet : FleetManager) (x : FleetLine) :
    (machine upper).next fleet x = (x.telemetry upper).elim fleet fleet.record := by
  show (fleet.ingestLine upper x).2.1 = _
  rw [ingestLine]
  cases x.telemetry upper with
  | none => rfl
  | some telemetry => rfl

theorem emit_eq (fleet : FleetManager) (x : FleetLine) :
    (machine upper).emit fleet x =
      (x.telemetry upper).toList.flatMap (fleet.logEntry x.epochSecs) := by
  show (fleet.ingestLine upper x).2.2 = _
  rw [ingestLine]
  cases x.telemetry upper with
  | none => rfl
  | some telemetry => exact (List.append_nil _).symm

theorem getNode_record (fleet : FleetManager) (telemetry : NodeTelemetry) (id : List Char) :
    (fleet.record telemetry).getNode id =
      if telemetry.nodeId = id then some telemetry else fleet.getNode id := by
  rw [getNode, record]
  split
  · next heq =>
    rw [← heq]
    exact AList.lookup_insert _
  · next hne => exact AList.lookup_insert_ne (Ne.symm hne)

/-- **Lookups.** The table has of a node what the last line that names it says. -/
theorem getNode_final (logPath : List Char) (logFile : Bool) (lines : List FleetLine)
    (id : List Char) :
    ((machine upper).final (new logPath logFile) lines).getNode id =
      lastTelemetry upper lines id := by
  induction lines using List.reverseRecOn with
  | nil =>
    rw [Machine.final_nil, getNode, new]
    rfl
  | append_singleton before x ih =>
    rw [Machine.final_append, Machine.final_cons, Machine.final_nil, next_eq, lastTelemetry,
      List.reverse_append, List.reverse_singleton, List.singleton_append, List.filterMap_cons]
    cases x.telemetry upper with
    | none => exact ih
    | some telemetry =>
      rw [Option.elim_some, getNode_record, ih]
      dsimp only
      rw [List.find?_cons]
      -- The last line names this node, or an earlier one is looked for.
      by_cases hid : telemetry.nodeId = id
      · simp [hid]
      · simp [hid, lastTelemetry]

theorem files_final (fleet : FleetManager) (lines : List FleetLine) :
    ((machine upper).final fleet lines).logFile = fleet.logFile ∧
      ((machine upper).final fleet lines).logPath = fleet.logPath := by
  induction lines generalizing fleet with
  | nil => exact ⟨rfl, rfl⟩
  | cons x rest ih =>
    obtain ⟨hfile, hpath⟩ := ih ((machine upper).next fleet x)
    rw [Machine.final_cons, hfile, hpath, next_eq]
    cases x.telemetry upper with
    | none => exact ⟨rfl, rfl⟩
    | some telemetry => exact ⟨rfl, rfl⟩

/-- **The log file** gets a line for each telemetry line that was read, in order. -/
theorem outputs_eq (fleet : FleetManager) (lines : List FleetLine) :
    (machine upper).outputs fleet lines =
      if fleet.logFile then
        lines.flatMap fun x => (x.telemetry upper).toList.map (logLine x.epochSecs)
      else [] := by
  induction lines generalizing fleet with
  | nil =>
    rw [Machine.outputs_nil]
    split
    · rfl
    · rfl
  | cons x rest ih =>
    -- Whether the file is open is settled before the first line.
    have hfile : ((machine upper).next fleet x).logFile = fleet.logFile :=
      (files_final upper fleet [x]).1
    rw [Machine.outputs_cons, ih, hfile, emit_eq, List.flatMap_cons]
    cases hopen : fleet.logFile with
    | false => cases x.telemetry upper <;> simp [logEntry, hopen]
    | true => cases x.telemetry upper <;> simp [logEntry, hopen]

/-! ### The dashboard -/

theorem idBytes_inj {node node' : NodeTelemetry} :
    idBytes node = idBytes node' ↔ node.nodeId = node'.nodeId := by
  have htoNat : Function.Injective UInt8.toNat := fun _ _ h => UInt8.toNat_inj.mp h
  constructor
  · intro heq
    exact encode_injective (htoNat.list_map heq)
  · intro heq
    rw [idBytes, idBytes, heq]

theorem ranksApart (fleet : FleetManager) : fleet.nodes.RanksApart idBytes := by
  intro id node id' node' hlookup hlookup' heq
  rw [← fleet.keyed id node hlookup, ← fleet.keyed id' node' hlookup', idBytes_inj.mp heq]

/-- In whatever order the table is visited, the dashboard has a row for each node that some line
named, with what the last of its lines said, and the rows ascend by the nodes' ids. -/
theorem dashboard_shows_last (logPath : List Char) (logFile : Bool) (lines : List FleetLine) :
    let fleet := (machine upper).final (new logPath logFile) lines
    ∃ shown : List NodeTelemetry,
      shown.Pairwise (fun node node' => idBytes node < idBytes node') ∧
      (∀ node, node ∈ shown ↔ lastTelemetry upper lines node.nodeId = some node) ∧
      fleet.nodeCount = shown.length ∧
      ∀ order clock listeningPorts, fleet.renderDashboard order clock listeningPorts =
        heading logPath listeningPorts ++ rows clock shown ++ border := by
  intro fleet
  have hmem : ∀ node, node ∈ fleet.nodes.sortedBy (.stored _) idBytes ↔
      lastTelemetry upper lines node.nodeId = some node := by
    intro node
    rw [HashTable.mem_sortedBy, ← getNode_final upper logPath logFile]
    constructor
    · rintro ⟨id, hlookup⟩
      rw [fleet.keyed id node hlookup]
      exact hlookup
    · intro hnode
      exact ⟨node.nodeId, hnode⟩
  refine ⟨fleet.nodes.sortedBy (.stored _) idBytes, HashTable.pairwise_sortedBy fleet.ranksApart,
    hmem, HashTable.length_sortedBy.symm, ?_⟩
  intro order clock listeningPorts
  -- No two nodes rank alike, so the order of the visit does not show.
  have hsame : fleet.nodes.sortedBy order idBytes = fleet.nodes.sortedBy (.stored _) idBytes :=
    HashTable.sortedBy_eq fleet.ranksApart (HashTable.pairwise_sortedBy fleet.ranksApart)
      fun node => HashTable.mem_sortedBy
  rw [renderDashboard, hsame, show fleet.logPath = logPath from (files_final upper _ lines).2]

/-- **The sink follows its lines.** After any lines: each telemetry line has its line in the log
file, in order, if that could be opened; a lookup gives what the last line said that names the
node; and the dashboard shows this of all nodes, in the order of their ids. -/
theorem sink_follows_lines (logPath : List Char) (logFile : Bool) (lines : List FleetLine) :
    let fleet := (machine upper).final (new logPath logFile) lines
    (machine upper).outputs (new logPath logFile) lines =
        (if logFile then
          lines.flatMap fun x => (x.telemetry upper).toList.map (logLine x.epochSecs)
        else []) ∧
      (∀ id, fleet.getNode id = lastTelemetry upper lines id) ∧
      ∃ shown : List NodeTelemetry,
        shown.Pairwise (fun node node' => idBytes node < idBytes node') ∧
        (∀ node, node ∈ shown ↔ lastTelemetry upper lines node.nodeId = some node) ∧
        fleet.nodeCount = shown.length ∧
        ∀ order clock listeningPorts, fleet.renderDashboard order clock listeningPorts =
          heading logPath listeningPorts ++ rows clock shown ++ border :=
  ⟨outputs_eq upper (new logPath logFile) lines, getNode_final upper logPath logFile lines,
    dashboard_shows_last upper logPath logFile lines⟩

end FleetManager

end Gibberish.Daemon
