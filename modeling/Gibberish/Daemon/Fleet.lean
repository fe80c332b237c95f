/-
# Fleet telemetry

The daemon reads a dongle's telemetry lines into a record of the node they tell of. It
looks for a marker, cuts what follows at the commas, and takes each piece for a key and
a value, or for a bare node id.
-/

import Gibberish.Foundation.Decimal
import Gibberish.Foundation.KeyValue

set_option autoImplicit false

namespace Gibberish.Daemon

open Gibberish.Foundation Gibberish.Foundation.Text

/-- What a telemetry line tells of a node. -/
@[ext]
structure TelemetryFields where
  nodeId : List Char
  tier : List Char
  storageMode : List Char
  uptimeSecs : UInt32
  rxCount : UInt32
  txCount : UInt32
  dropCount : UInt32
  rssi : Int8
  lqi : UInt8
  deriving DecidableEq

/-- A node, with the time its line was read. -/
structure NodeTelemetry extends TelemetryFields where
  lastSeen : ℕ
  deriving DecidableEq

def telemetryRxMarker : List Char := "[Telemetry RX]".toList

def telemetryFromMarker : List Char := "Telemetry from:".toList

/-- What follows the marker. -/
def telemetryContent (line : List Char) : Option (List Char) :=
  match line.dropInfix? telemetryRxMarker with
  | some (_, content) => some content
  | none =>
    match line.dropInfix? telemetryFromMarker with
    | some (_, content) => some content
    | none => none

namespace TelemetryFields

/-- What holds of a node when its line does not say. -/
def start : TelemetryFields where
  nodeId := []
  tier := "DEBUG".toList
  storageMode := "SD ACTIVE".toList
  uptimeSecs := 0
  rxCount := 0
  txCount := 0
  dropCount := 0
  rssi := -50
  lqi := 255

/-- A key with its value. A number that does not parse is left as it was. -/
def set (upper : Char → List Char) (fields : TelemetryFields) (key val : List Char) :
    TelemetryFields :=
  if "Node".toList.isSuffixOf key || key == "Node".toList then
    let id := trim (firstWord val)
    let cleanId := trimMatches (fun c => !c.isAlphanum) id
    -- Four bytes, whatever characters they spell.
    if cleanId ≠ [] ∧ (encode cleanId).length ≥ 4 then
      { fields with nodeId := toUppercase upper cleanId }
    else fields
  else if key == "Tier".toList then
    if eqIgnoreAsciiCase val "Prod".toList || eqIgnoreAsciiCase val "PROD".toList then
      { fields with tier := "PROD".toList }
    else { fields with tier := "DEBUG".toList }
  else if key == "Storage".toList then
    if contains val "RAM".toList || contains val "Ram".toList then
      { fields with storageMode := "RAM ONLY".toList }
    else { fields with storageMode := "SD ACTIVE".toList }
  else if key == "Uptime".toList then
    let numStr := trim (val.rdropWhile (· == 's'))
    (Decimal.parseUnsigned 32 numStr).elim fields fun n => { fields with uptimeSecs := .ofNat n }
  else if key == "RX".toList then
    (Decimal.parseUnsigned 32 val).elim fields fun n => { fields with rxCount := .ofNat n }
  else if key == "TX".toList then
    (Decimal.parseUnsigned 32 val).elim fields fun n => { fields with txCount := .ofNat n }
  else if key == "Drops".toList then
    (Decimal.parseUnsigned 32 val).elim fields fun n => { fields with dropCount := .ofNat n }
  else if key == "RSSI".toList then
    let numStr := trim (firstWord val)
    (Decimal.parseSigned 8 numStr).elim fields fun n => { fields with rssi := .ofInt n }
  else if key == "LQI".toList then
    let numStr := trim (firstWord val)
    (Decimal.parseUnsigned 8 numStr).elim fields fun n => { fields with lqi := .ofNat n }
  else fields

/-- A piece without a key may hold the node id. -/
def setBare (upper : Char → List Char) (fields : TelemetryFields) (trimmed : List Char) :
    TelemetryFields :=
  if fields.nodeId = [] then
    -- Only the first such piece counts, and only a hexadecimal one.
    let clean := trimMatches (fun c => !c.isAlphanum) (firstWord trimmed)
    if (encode clean).length ≥ 4 ∧ clean.all (hexValue · |>.isSome) then
      { fields with nodeId := toUppercase upper clean }
    else fields
  else fields

/-- A piece between two commas. -/
def readPart (upper : Char → List Char) (fields : TelemetryFields) (part : List Char) :
    TelemetryFields :=
  let trimmed := trim part
  match splitOnce ':' trimmed with
  | some (k, v) => fields.set upper (trim k) (trim v)
  | none => fields.setBare upper trimmed

end TelemetryFields

/-- Read a telemetry line, if it names a node. `upper` is upper-casing beyond ASCII. -/
def parseTelemetryLine (upper : Char → List Char) (now : ℕ) (line : List Char) :
    Option NodeTelemetry :=
  match telemetryContent line with
  | none => none
  | some content =>
    let fields := (content.splitOn ',').foldl (TelemetryFields.readPart upper) .start
    if fields.nodeId = [] then none else some { toTelemetryFields := fields, lastSeen := now }

/-! ### Printed lines -/

/-- A key and a value that survive the cutting. -/
structure Cuttable (key value : List Char) : Prop where
  trimmed_key : Trimmed key
  trimmed_value : Trimmed value
  colon_key : ':' ∉ key
  comma_key : ',' ∉ key
  comma_value : ',' ∉ value

namespace TelemetryFields

variable (upper : Char → List Char)

section

variable (fields : TelemetryFields) {val : List Char} {n : ℕ}

theorem set_uptime (h : Decimal.parseUnsigned 32 (trim (val.rdropWhile (· == 's'))) = some n) :
    fields.set upper "Uptime".toList val = { fields with uptimeSecs := .ofNat n } := by
  show (Decimal.parseUnsigned 32 (trim (val.rdropWhile (· == 's')))).elim fields _ = _
  rw [h, Option.elim_some]

theorem set_rx (h : Decimal.parseUnsigned 32 val = some n) :
    fields.set upper "RX".toList val = { fields with rxCount := .ofNat n } := by
  show (Decimal.parseUnsigned 32 val).elim fields _ = _
  rw [h, Option.elim_some]

theorem set_tx (h : Decimal.parseUnsigned 32 val = some n) :
    fields.set upper "TX".toList val = { fields with txCount := .ofNat n } := by
  show (Decimal.parseUnsigned 32 val).elim fields _ = _
  rw [h, Option.elim_some]

theorem set_drops (h : Decimal.parseUnsigned 32 val = some n) :
    fields.set upper "Drops".toList val = { fields with dropCount := .ofNat n } := by
  show (Decimal.parseUnsigned 32 val).elim fields _ = _
  rw [h, Option.elim_some]

theorem set_rssi {i : ℤ} (h : Decimal.parseSigned 8 (trim (firstWord val)) = some i) :
    fields.set upper "RSSI".toList val = { fields with rssi := .ofInt i } := by
  show (Decimal.parseSigned 8 (trim (firstWord val))).elim fields _ = _
  rw [h, Option.elim_some]

theorem set_lqi (h : Decimal.parseUnsigned 8 (trim (firstWord val)) = some n) :
    fields.set upper "LQI".toList val = { fields with lqi := .ofNat n } := by
  show (Decimal.parseUnsigned 8 (trim (firstWord val))).elim fields _ = _
  rw [h, Option.elim_some]

end

/-- A printed field sets its key. -/
theorem readPart_field (fields : TelemetryFields) {key value : List Char}
    (h : Cuttable key value) :
    fields.readPart upper (field key value) = fields.set upper key value := by
  rw [readPart]
  simp only [splitOnce_trim_field h.trimmed_key h.colon_key h.trimmed_value]
  rw [trim_space, h.trimmed_key.trim_eq, h.trimmed_value.trim_eq]

/-- So printed fields set their keys one after the other. -/
theorem foldl_readPart_fields (fields : TelemetryFields) {kvs : List (List Char × List Char)}
    (h : ∀ kv ∈ kvs, Cuttable kv.1 kv.2) :
    (kvs.map fun kv => field kv.1 kv.2).foldl (readPart upper) fields =
      kvs.foldl (fun fields kv => fields.set upper kv.1 kv.2) fields := by
  induction kvs generalizing fields with
  | nil => rfl
  | cons kv rest ih =>
    obtain ⟨hkv, hrest⟩ := List.forall_mem_cons.mp h
    rw [List.map_cons, List.foldl_cons, List.foldl_cons, readPart_field upper fields hkv,
      ih _ hrest]

end TelemetryFields

theorem telemetryContent_append {pre : List Char} (absent : ¬ telemetryRxMarker <:+: pre)
    (content : List Char) :
    telemetryContent (pre ++ telemetryRxMarker ++ content) = some content := by
  have hunbordered : '[' ∉ "Telemetry RX]".toList := by decide
  have hmarker : telemetryRxMarker = '[' :: "Telemetry RX]".toList := rfl
  rw [telemetryContent]
  rw [hmarker] at absent ⊢
  rw [dropInfix?_marker hunbordered absent]

/-- **A line of printed fields is read field by field**, whatever text without the marker
stands before it. -/
theorem parseTelemetryLine_fields (upper : Char → List Char) (now : ℕ) {pre : List Char}
    (absent : ¬ telemetryRxMarker <:+: pre) {kvs : List (List Char × List Char)} (hne : kvs ≠ [])
    (h : ∀ kv ∈ kvs, Cuttable kv.1 kv.2) {fields : TelemetryFields}
    (hfields : kvs.foldl (fun fields kv => fields.set upper kv.1 kv.2) .start = fields)
    (hnode : fields.nodeId ≠ []) :
    parseTelemetryLine upper now
        (pre ++ telemetryRxMarker ++ [','].intercalate (kvs.map fun kv => field kv.1 kv.2)) =
      some { toTelemetryFields := fields, lastSeen := now } := by
  have hcomma : ∀ part ∈ kvs.map (fun kv => field kv.1 kv.2), ',' ∉ part := by
    intro part hpart
    obtain ⟨kv, hkv, rfl⟩ := List.mem_map.mp hpart
    simp [field, (h kv hkv).comma_key, (h kv hkv).comma_value]
  have hsplit := List.splitOn_intercalate ',' hcomma (by simpa using hne)
  simp only [parseTelemetryLine, telemetryContent_append absent, hsplit,
    TelemetryFields.foldl_readPart_fields upper _ h, hfields, if_neg hnode]

end Gibberish.Daemon
