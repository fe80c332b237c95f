/-
# What the sink shows of the mesh

A dongle prints a line for each telemetry packet it hears, among its other lines. The sink
reads these lines, and its dashboard has a row for each node they tell of, in the order of
the nodes' numbers, with the figures of the last report.
-/

import Gibberish.Daemon.FleetTable
import Gibberish.Mesh.FleetTelemetry

set_option autoImplicit false

namespace Gibberish.Mesh

open Gibberish.Foundation Gibberish.Foundation.Text Gibberish.Protocol Gibberish.Daemon
open Gibberish.Firmware

/-! ### Printed numbers ascend -/

theorem upperHexDigit_lt {a b : ℕ} (h : a % 16 < b % 16) :
    (upperHexDigit a).toNat < (upperHexDigit b).toNat := by
  have hdigits : ∀ i j : Fin 16, i < j → (upperHexDigit i).toNat < (upperHexDigit j).toNat := by
    decide
  have hmod : ∀ n, upperHexDigit n = upperHexDigit (n % 16) := by
    intro n
    rw [upperHexDigit, upperHexDigit, Nat.mod_mod]
  rw [hmod a, hmod b]
  exact hdigits ⟨a % 16, Nat.mod_lt _ (by decide)⟩ ⟨b % 16, Nat.mod_lt _ (by decide)⟩ h

/-- The bytes of a printed number. -/
def hexBytes (k n : ℕ) : List ℕ := (encode (upperHex k n)).map UInt8.toNat

theorem hexBytes_succ (k n : ℕ) :
    hexBytes (k + 1) n = (upperHexDigit (n / 16 ^ k)).toNat :: hexBytes k n := by
  have hascii := upperHexDigit_ascii (n / 16 ^ k)
  have hbyte : (upperHexDigit (n / 16 ^ k)).val.toUInt8.toNat =
      (upperHexDigit (n / 16 ^ k)).toNat := by
    have hle : (upperHexDigit (n / 16 ^ k)).toNat ≤ 127 := hascii
    rw [UInt32.toNat_toUInt8]
    exact Nat.mod_eq_of_lt (lt_of_le_of_lt hle (by decide))
  rw [hexBytes, upperHex, encode_cons, utf8EncodeChar_ascii hascii, List.singleton_append,
    List.map_cons, hbyte, hexBytes]

/-- Numbers of as many digits compare as their texts do: the first digit in which they differ
decides. -/
theorem hexBytes_lt {k n m : ℕ} (h : n % 16 ^ k < m % 16 ^ k) : hexBytes k n < hexBytes k m := by
  induction k with
  | zero =>
    rw [pow_zero, Nat.mod_one, Nat.mod_one] at h
    exact absurd h (lt_irrefl 0)
  | succ k ih =>
    rw [Nat.mod_pow_succ, Nat.mod_pow_succ] at h
    rw [hexBytes_succ, hexBytes_succ, List.cons_lt_cons_iff]
    have hlow : m % 16 ^ k < 16 ^ k := Nat.mod_lt _ (by positivity)
    rcases lt_trichotomy (n / 16 ^ k % 16) (m / 16 ^ k % 16) with hlt | heq | hgt
    · exact Or.inl (upperHexDigit_lt hlt)
    · refine Or.inr ⟨?_, ih ?_⟩
      · rw [upperHexDigit, upperHexDigit, heq]
      · rw [heq] at h
        exact Nat.lt_of_add_lt_add_right h
    · have hhigh : 16 ^ k * (m / 16 ^ k % 16 + 1) ≤ 16 ^ k * (n / 16 ^ k % 16) :=
        Nat.mul_le_mul_left _ hgt
      rw [Nat.mul_succ] at hhigh
      omega

theorem hexBytes_lt_of_lt {a b : UInt32} (h : a < b) : hexBytes 8 a.toNat < hexBytes 8 b.toNat := by
  have hsmall : ∀ x : UInt32, x.toNat % 16 ^ 8 = x.toNat := fun x => Nat.mod_eq_of_lt x.toNat_lt
  apply hexBytes_lt
  rw [hsmall, hsmall]
  exact UInt32.lt_iff_toNat_lt.mp h

theorem id_trichotomy (a b : UInt32) : a < b ∨ a = b ∨ b < a := by
  rw [UInt32.lt_iff_toNat_lt, UInt32.lt_iff_toNat_lt, ← UInt32.toNat_inj]
  exact lt_trichotomy a.toNat b.toNat

theorem hexBytes_inj {a b : UInt32} : hexBytes 8 a.toNat = hexBytes 8 b.toNat ↔ a = b := by
  refine ⟨fun heq => ?_, fun heq => by rw [heq]⟩
  rcases id_trichotomy a b with hlt | hab | hgt
  · exact absurd heq (hexBytes_lt_of_lt hlt).ne
  · exact hab
  · exact absurd heq (hexBytes_lt_of_lt hgt).ne'

theorem hexBytes_lt_iff {a b : UInt32} : hexBytes 8 a.toNat < hexBytes 8 b.toNat ↔ a < b := by
  refine ⟨fun hlt => ?_, hexBytes_lt_of_lt⟩
  rcases id_trichotomy a b with hab | rfl | hgt
  · exact hab
  · exact absurd hlt (lt_irrefl _)
  · exact absurd hlt (hexBytes_lt_of_lt hgt).asymm

/-! ### The lines of a dongle -/

/-- What the sink reads from the line of a payload that neither form reads: what the line does
not say stands at the sink's defaults. -/
def unreadReport (nodeId : UInt32) (rssi : Int8) (lqi : UInt8) : TelemetryReport where
  nodeId := nodeId
  tier := .debug
  storageMode := .microSdActive
  uptimeSecs := 0
  sramUsed := 0
  dropCount := 0
  rxCount := 0
  txCount := 0
  rssi := rssi
  lqi := lqi

/-- The fields of such a line. -/
def shortKeyValues (r : TelemetryReport) : List (List Char × List Char) :=
  [("Node".toList, upperHex 8 r.nodeId.toNat),
    ("Tier".toList, r.tier.debugFmt),
    ("Uptime".toList, Decimal.ofNat r.uptimeSecs.toNat ++ ['s']),
    ("SRAM".toList, Decimal.ofNat r.sramUsed.toNat ++ "/256".toList),
    ("Drops".toList, Decimal.ofNat r.dropCount.toNat),
    ("RSSI".toList, Decimal.ofInt r.rssi.toInt ++ ' ' :: "dBm".toList),
    ("LQI".toList, Decimal.ofNat r.lqi.toNat)]

/-- They are the fields of a read line but for the storage mode and the two counts. -/
theorem shortKeyValues_sublist (r : TelemetryReport) :
    (shortKeyValues r).Sublist (keyValues r) := by
  refine .cons_cons _ (.cons_cons _ (.cons _ (.cons_cons _ (.cons_cons _ (.cons_cons _ ?_)))))
  exact .cons _ (.cons _ (List.Sublist.refl _))

theorem unreadableLine_eq (nodeId : UInt32) (rssi : Int8) (lqi : UInt8) :
    unreadableLine nodeId rssi lqi =
      telemetryRxMarker ++ [','].intercalate
        ((shortKeyValues (unreadReport nodeId rssi lqi)).map fun kv => field kv.1 kv.2) := by
  unfold unreadableLine shortKeyValues unreadReport telemetryRxMarker
  rw [UInt32.toNat_zero, UInt16.toNat_zero]
  generalize upperHex 8 nodeId.toNat = node
  generalize TelemetryTier.debug.debugFmt = tier
  generalize Decimal.ofNat 0 = zero
  generalize Decimal.ofInt rssi.toInt = signal
  generalize Decimal.ofNat lqi.toNat = quality
  simp [field, List.intercalate]

theorem foldl_set_short (upper : Char → List Char) (nodeId : UInt32) (rssi : Int8) (lqi : UInt8) :
    (shortKeyValues (unreadReport nodeId rssi lqi)).foldl
        (fun fields kv => fields.set upper kv.1 kv.2) .start =
      fleetFields (unreadReport nodeId rssi lqi) := by
  simp only [shortKeyValues, List.foldl_cons, List.foldl_nil, set_node, set_tier,
    TelemetryFields.set_uptime upper _ (parse_uptime _), set_sram,
    TelemetryFields.set_drops upper _ (parse_counter _),
    TelemetryFields.set_rssi upper _ (parse_rssi _), TelemetryFields.set_lqi upper _ (parse_lqi _),
    UInt32.ofNat_toNat, Int8.ofInt_toInt, UInt8.ofNat_toNat]
  rfl

theorem parseTelemetryLine_unreadableLine (upper : Char → List Char) (now : ℕ) {pre : List Char}
    (absent : ¬ telemetryRxMarker <:+: pre) (nodeId : UInt32) (rssi : Int8) (lqi : UInt8) :
    parseTelemetryLine upper now (pre ++ unreadableLine nodeId rssi lqi) =
      some
        { toTelemetryFields := fleetFields (unreadReport nodeId rssi lqi)
          lastSeen := now } := by
  rw [unreadableLine_eq, ← List.append_assoc]
  exact parseTelemetryLine_fields upper now absent (List.cons_ne_nil _ _)
    (fun kv hkv => cuttable_keyValues _ kv ((shortKeyValues_sublist _).subset hkv))
    (foldl_set_short upper nodeId rssi lqi) (List.cons_ne_nil _ _)

/-- What the line for a telemetry packet reports. -/
def printedReport (postcard : Postcard) (rx : ReceivedMeshPacket) : TelemetryReport :=
  match classifyTelemetry postcard rx.packet.payload with
  | .debug dbg =>
    let nodeId := if effectiveSrcNode rx ≠ 0 then effectiveSrcNode rx else dbg.nodeId
    .ofDebug nodeId dbg rx.rssi rx.lqi
  | .prod closed => .ofClosed (effectiveSrcNode rx) closed rx.rssi rx.lqi
  | .unreadable => unreadReport (effectiveSrcNode rx) rx.rssi rx.lqi

/-- **Each line that a dongle prints for a telemetry packet** is read as its report. -/
theorem parseTelemetryLine_printed (postcard : Postcard) (upper : Char → List Char) (now : ℕ)
    {pre : List Char} (absent : ¬ telemetryRxMarker <:+: pre) (rx : ReceivedMeshPacket) :
    parseTelemetryLine upper now (pre ++ telemetryRxLine postcard rx) =
      some { toTelemetryFields := fleetFields (printedReport postcard rx), lastSeen := now } := by
  rw [telemetryRxLine, printedReport]
  cases classifyTelemetry postcard rx.packet.payload with
  | debug dbg => exact parseTelemetryLine_line upper now absent _
  | prod closed => exact parseTelemetryLine_line upper now absent _
  | unreadable => exact parseTelemetryLine_unreadableLine upper now absent _ _ _

/-- A line with the packet it is printed for, behind whatever a log puts before it, or without
one. -/
inductive Prints (postcard : Postcard) : List Char → Option ReceivedMeshPacket → Prop
  | telemetry {pre : List Char} (absent : ¬ telemetryRxMarker <:+: pre) (rx : ReceivedMeshPacket) :
      Prints postcard (pre ++ telemetryRxLine postcard rx) (some rx)
  | other {line : List Char} (unmarked : telemetryContent line = none) : Prints postcard line none

structure DongleLine (postcard : Postcard) extends FleetManager.FleetLine where
  heard : Option ReceivedMeshPacket
  prints : Prints postcard line heard

/-- A report and when it was read. -/
structure ReadReport where
  report : TelemetryReport
  readAt : ℕ

namespace DongleLine

variable {postcard : Postcard}

def read? (x : DongleLine postcard) : Option ReadReport :=
  x.heard.map fun rx => ⟨printedReport postcard rx, x.now⟩

/-- The last report that names a node. -/
def lastReport (lines : List (DongleLine postcard)) (nodeId : UInt32) : Option ReadReport :=
  (lines.reverse.filterMap read?).find? fun x => x.report.nodeId = nodeId

/-- What the fleet has of a node after a report. -/
def nodeOf (x : ReadReport) : NodeTelemetry where
  toTelemetryFields := fleetFields x.report
  lastSeen := x.readAt

theorem idBytes_nodeOf (x : ReadReport) :
    FleetManager.idBytes (nodeOf x) = hexBytes 8 x.report.nodeId.toNat := rfl

theorem nodeId_nodeOf_inj {x y : ReadReport} :
    (nodeOf x).nodeId = (nodeOf y).nodeId ↔ x.report.nodeId = y.report.nodeId := by
  rw [← FleetManager.idBytes_inj, idBytes_nodeOf, idBytes_nodeOf]
  exact hexBytes_inj

theorem telemetry_eq (upper : Char → List Char) (x : DongleLine postcard) :
    x.toFleetLine.telemetry upper = x.read?.map nodeOf := by
  obtain ⟨⟨line, now, epochSecs⟩, heard, prints⟩ := x
  cases prints with
  | telemetry absent rx => exact parseTelemetryLine_printed postcard upper now absent rx
  | other unmarked =>
    rw [FleetManager.FleetLine.telemetry, parseTelemetryLine, unmarked]
    rfl

theorem lastTelemetry_eq (upper : Char → List Char) (lines : List (DongleLine postcard))
    (nodeId : List Char) :
    FleetManager.lastTelemetry upper (lines.map toFleetLine) nodeId =
      ((lines.reverse.filterMap read?).find? fun x => (nodeOf x).nodeId = nodeId).map nodeOf := by
  have hread : (lines.map toFleetLine).reverse.filterMap (FleetManager.FleetLine.telemetry upper) =
      (lines.reverse.filterMap read?).map nodeOf := by
    rw [← List.map_reverse, List.filterMap_map, List.map_filterMap]
    exact List.filterMap_congr fun x _ => telemetry_eq upper x
  rw [FleetManager.lastTelemetry, hread, List.find?_map]
  rfl

/-- A node's text names the node its number names. -/
theorem lastTelemetry_nodeOf (upper : Char → List Char) (lines : List (DongleLine postcard))
    (x : ReadReport) :
    FleetManager.lastTelemetry upper (lines.map toFleetLine) (nodeOf x).nodeId =
      (lastReport lines x.report.nodeId).map nodeOf := by
  simp only [lastTelemetry_eq, nodeId_nodeOf_inj, lastReport]

/-- **From the mesh to the screen.** Whatever else the dongles print in between, as long as the
marker of telemetry stands in their lines for it only, and once: the dashboard has a row for
each node whose telemetry some dongle heard, with the figures of the last of it, and the
rows ascend by the nodes' numbers. -/
theorem dashboard_shows_reports (upper : Char → List Char) (logPath : List Char) (logFile : Bool)
    (lines : List (DongleLine postcard)) :
    let fleet := (FleetManager.machine upper).final (.new logPath logFile) (lines.map toFleetLine)
    ∃ shown : List ReadReport,
      shown.Pairwise (fun x y => x.report.nodeId < y.report.nodeId) ∧
      (∀ x, x ∈ shown ↔ lastReport lines x.report.nodeId = some x) ∧
      fleet.nodeCount = shown.length ∧
      ∀ order clock listeningPorts, fleet.renderDashboard order clock listeningPorts =
        FleetManager.heading logPath listeningPorts ++
          FleetManager.rows clock (shown.map nodeOf) ++ FleetManager.border := by
  intro fleet
  obtain ⟨nodes, hascend, hmem, hcount, hrender⟩ :=
    FleetManager.dashboard_shows_last upper logPath logFile (lines.map toFleetLine)
  -- Every node of the table is that of some last report.
  have hlast : ∀ node ∈ nodes,
      ∃ x : {x : ReadReport // lastReport lines x.report.nodeId = some x}, nodeOf x = node := by
    intro node hnode
    have htold := (hmem node).mp hnode
    rw [lastTelemetry_eq] at htold
    obtain ⟨x, hfind, rfl⟩ := Option.map_eq_some_iff.mp htold
    simp only [nodeId_nodeOf_inj] at hfind
    exact ⟨⟨x, hfind⟩, rfl⟩
  obtain ⟨listed, hlisted⟩ : nodes ∈ Set.range (List.map fun x :
      {x : ReadReport // lastReport lines x.report.nodeId = some x} => nodeOf x) := by
    rw [Set.range_list_map]
    exact hlast
  have hshown : (listed.map Subtype.val).map nodeOf = nodes := by
    rw [List.map_map]
    exact hlisted
  refine ⟨listed.map Subtype.val, ?_, fun x => ⟨fun hx => ?_, fun hx => ?_⟩, ?_, ?_⟩
  · rw [← hshown, List.pairwise_map] at hascend
    refine hascend.imp ?_
    intro x y hlt
    rw [idBytes_nodeOf, idBytes_nodeOf] at hlt
    exact hexBytes_lt_iff.mp hlt
  · obtain ⟨y, -, rfl⟩ := List.mem_map.mp hx
    exact y.2
  · have hnode : nodeOf x ∈ nodes := by
      rw [hmem, lastTelemetry_nodeOf, hx, Option.map_some]
    rw [← hshown] at hnode
    obtain ⟨y, hy, heq⟩ := List.mem_map.mp hnode
    -- The row stands for a last report of the same node, so for this one.
    obtain ⟨z, hz, rfl⟩ := List.mem_map.mp hy
    have hid : z.1.report.nodeId = x.report.nodeId :=
      nodeId_nodeOf_inj.mp (congrArg (·.nodeId) heq)
    have hsame := z.2
    rw [hid, hx] at hsame
    rw [Option.some_inj.mp hsame]
    exact hy
  · rw [← List.length_map (f := nodeOf), hshown]
    exact hcount
  · intro order clock listeningPorts
    rw [hshown]
    exact hrender order clock listeningPorts

/-- A line of a log for a telemetry packet of a node. -/
def heardLine (srcNodeId : UInt32) (payload : Bytes ciphertextLen) (now : ℕ) :
    DongleLine .leb128 where
  line := "[Dongle] ".toList ++
    telemetryRxLine .leb128 { heardTelemetry payload with srcNodeId := srcNodeId }
  now := now
  epochSecs := now
  heard := some { heardTelemetry payload with srcNodeId := srcNodeId }
  prints := .telemetry (by decide) _

/-- A line of the start, and telemetry of two nodes: of one a debug payload and later one that
neither form reads, of the other a production payload. -/
def fourLines : List (DongleLine .leb128) :=
  [⟨⟨"[Dongle] Radio is up".toList, 0, 0⟩, none, .other (by decide)⟩,
    heardLine 0xBEBCE5B8 (idleDebugTelemetry.serialize (.zero _)) 1,
    heardLine 7 (prodPayload .leb128 idleTelemetry) 2,
    heardLine 0xBEBCE5B8 (Vector.replicate _ 0xFF) 5]

/-- Then two rows are shown, each with what was heard last. -/
theorem dashboard_shows_reports_fourLines :
    let fleet := (FleetManager.machine fun c => [c]).final (.new "fleet.log".toList true)
      (fourLines.map toFleetLine)
    fleet.nodeCount = 2 ∧ (lastReport fourLines 7).map ReadReport.readAt = some 2 ∧
      (lastReport fourLines 0xBEBCE5B8).map ReadReport.readAt = some 5 ∧
      ∃ shown : List ReadReport,
        shown.Pairwise (fun x y => x.report.nodeId < y.report.nodeId) ∧
        (∀ x, x ∈ shown ↔ lastReport fourLines x.report.nodeId = some x) ∧
        fleet.nodeCount = shown.length ∧
        ∀ order clock listeningPorts, fleet.renderDashboard order clock listeningPorts =
          FleetManager.heading "fleet.log".toList listeningPorts ++
            FleetManager.rows clock (shown.map nodeOf) ++ FleetManager.border :=
  ⟨by decide +kernel, by decide +kernel, by decide +kernel,
    dashboard_shows_reports (fun c => [c]) "fleet.log".toList true fourLines⟩

end DongleLine

end Gibberish.Mesh
