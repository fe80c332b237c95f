/-
# Telemetry from dongle to fleet

A dongle prints a telemetry line and the daemon that reads it has the node's id, tier,
storage mode, counters and signal as the dongle had them.
-/

import Gibberish.Daemon.Fleet
import Gibberish.Firmware.TelemetryLine

set_option autoImplicit false

namespace Gibberish.Mesh

open Gibberish.Foundation Gibberish.Foundation.Text Gibberish.Protocol Gibberish.Storage
open Gibberish.Firmware Gibberish.Daemon

/-! ### Printed words -/

theorem isWhitespace_of_isDigit {c : Char} (h : c.isDigit = true) : isWhitespace c = false := by
  have hdigit : 48 ≤ c.toNat ∧ c.toNat ≤ 57 := Char.isDigit_iff_toNat.mp h
  simp only [isWhitespace, Bool.or_eq_false_iff, Bool.and_eq_false_iff, decide_eq_false_iff_not,
    beq_eq_false_iff_ne]
  omega

/-- A text without whitespace and commas. -/
def Word (text : List Char) : Prop := text ≠ [] ∧ text.all (fun c => !isWhitespace c && c != ',')

instance : DecidablePred Word := fun _ => inferInstanceAs (Decidable (_ ∧ _))

namespace Word

variable {text text' : List Char}

theorem of_forall (ne : text ≠ []) (h : ∀ c ∈ text, isWhitespace c = false ∧ c ≠ ',') :
    Word text := by
  refine ⟨ne, List.all_eq_true.mpr fun c hc => ?_⟩
  rw [(h c hc).1]
  simpa using (h c hc).2

theorem of_mem (h : Word text) {c : Char} (hc : c ∈ text) : isWhitespace c = false ∧ c ≠ ',' := by
  simpa using List.all_eq_true.mp h.2 c hc

theorem isWhitespace_eq (h : Word text) : ∀ c ∈ text, isWhitespace c = false :=
  fun _ hc => (h.of_mem hc).1

theorem trimmed (h : Word text) : Trimmed text := .of_forall h.1 h.isWhitespace_eq

theorem comma_notMem (h : Word text) : ',' ∉ text := fun hmem => (h.of_mem hmem).2 rfl

theorem append (h : Word text) (h' : Word text') : Word (text ++ text') := by
  apply of_forall (List.append_ne_nil_of_left_ne_nil h.1 _)
  intro c hc
  rcases List.mem_append.mp hc with hc | hc
  · exact h.of_mem hc
  · exact h'.of_mem hc

theorem ofNat (n : ℕ) : Word (Decimal.ofNat n) := by
  apply of_forall (Decimal.ofNat_ne_nil n)
  intro c hc
  have hdigit := Decimal.isDigit_of_mem hc
  refine ⟨isWhitespace_of_isDigit hdigit, ?_⟩
  rintro rfl
  cases hdigit

theorem ofInt (i : ℤ) : Word (Decimal.ofInt i) := by
  apply of_forall (Decimal.ofInt_ne_nil i)
  intro c hc
  rcases Decimal.eq_minus_or_isDigit_of_mem hc with rfl | hdigit
  · exact ⟨rfl, by decide⟩
  · refine ⟨isWhitespace_of_isDigit hdigit, ?_⟩
    rintro rfl
    cases hdigit

theorem upperHex (n : ℕ) : Word (upperHex 8 n) := by
  have hne : Text.upperHex 8 n ≠ [] := List.cons_ne_nil _ _
  apply of_forall hne
  intro c hc
  obtain ⟨m, rfl⟩ := exists_of_mem_upperHex hc
  exact upperHexDigit_induction (P := fun _ c => isWhitespace c = false ∧ c ≠ ',') (by decide) m

theorem debugFmt (tier : TelemetryTier) : Word tier.debugFmt := by
  cases tier
  · decide
  · decide

theorem storageModeDebugFmt (mode : StorageModeStatus) : Word (storageModeDebugFmt mode) := by
  cases mode
  · decide
  · decide

end Word

/-! ### The fields of a line -/

/-- The fields of a line. -/
def keyValues (r : TelemetryReport) : List (List Char × List Char) :=
  [("Node".toList, upperHex 8 r.nodeId.toNat),
    ("Tier".toList, r.tier.debugFmt),
    ("Storage".toList, storageModeDebugFmt r.storageMode),
    ("Uptime".toList, Decimal.ofNat r.uptimeSecs.toNat ++ ['s']),
    ("SRAM".toList, Decimal.ofNat r.sramUsed.toNat ++ "/256".toList),
    ("Drops".toList, Decimal.ofNat r.dropCount.toNat),
    ("RX".toList, Decimal.ofNat r.rxCount.toNat),
    ("TX".toList, Decimal.ofNat r.txCount.toNat),
    ("RSSI".toList, Decimal.ofInt r.rssi.toInt ++ ' ' :: "dBm".toList),
    ("LQI".toList, Decimal.ofNat r.lqi.toNat)]

/-- A line is its marker and its fields, with commas between them. -/
theorem line_eq (r : TelemetryReport) :
    r.line =
      telemetryRxMarker ++ [','].intercalate ((keyValues r).map fun kv => field kv.1 kv.2) := by
  -- The text between the values is all that matters.
  unfold TelemetryReport.line keyValues telemetryRxMarker
  generalize upperHex 8 r.nodeId.toNat = node
  generalize r.tier.debugFmt = tier
  generalize storageModeDebugFmt r.storageMode = mode
  generalize Decimal.ofNat r.uptimeSecs.toNat = uptime
  generalize Decimal.ofNat r.sramUsed.toNat = sram
  generalize Decimal.ofNat r.dropCount.toNat = drops
  generalize Decimal.ofNat r.rxCount.toNat = rx
  generalize Decimal.ofNat r.txCount.toNat = tx
  generalize Decimal.ofInt r.rssi.toInt = rssi
  generalize Decimal.ofNat r.lqi.toNat = lqi
  simp [field, List.intercalate]

/-! ### Reading the fields -/

section

variable (upper : Char → List Char) (fields : TelemetryFields)

/-- An upper-case hex digit is kept by every step of the cleaning. -/
theorem clean_upperHexDigit (m : ℕ) :
    (upperHexDigit m).isAlphanum = true ∧ (upperHexDigit m).toUpper = upperHexDigit m :=
  upperHexDigit_induction (P := fun _ c => c.isAlphanum = true ∧ c.toUpper = c) (by decide) m

theorem toUppercase_upperHex (k n : ℕ) : toUppercase upper (upperHex k n) = upperHex k n := by
  induction k with
  | zero => rfl
  | succ k ih =>
    rw [toUppercase] at ih ⊢
    rw [upperHex, List.flatMap_cons, ih, if_pos (upperHexDigit_ascii _), (clean_upperHexDigit _).2,
      List.singleton_append]

theorem set_node (n : ℕ) :
    fields.set upper "Node".toList (upperHex 8 n) = { fields with nodeId := upperHex 8 n } := by
  have hword := Word.upperHex n
  have hdigit : ∀ c ∈ upperHex 8 n, ∃ m, c = upperHexDigit m := fun c => exists_of_mem_upperHex
  have halnum : ∀ c ∈ upperHex 8 n, (!c.isAlphanum) = false := by
    intro c hc
    obtain ⟨m, rfl⟩ := hdigit c hc
    rw [(clean_upperHexDigit m).1]
    rfl
  have hclean : trimMatches (fun c => !c.isAlphanum) (trim (firstWord (upperHex 8 n))) =
      upperHex 8 n := by
    rw [firstWord_of_forall hword.1 hword.isWhitespace_eq, hword.trimmed.trim_eq]
    exact trimMatches_eq_self (fun c hc => halnum c (List.mem_of_mem_head? hc))
      (fun c hc => halnum c (List.mem_of_mem_getLast? hc))
  have hlong : upperHex 8 n ≠ [] ∧ (encode (upperHex 8 n)).length ≥ 4 := by
    rw [length_encode_of_digits hdigit, length_upperHex]
    exact ⟨hword.1, by decide⟩
  rw [TelemetryFields.set, if_pos (by decide)]
  simp only [hclean, if_pos hlong, toUppercase_upperHex]

/-- What the fleet calls a tier. -/
def fleetTier : TelemetryTier → List Char
  | .debug => "DEBUG".toList
  | .prod => "PROD".toList

theorem set_tier (tier : TelemetryTier) :
    fields.set upper "Tier".toList tier.debugFmt = { fields with tier := fleetTier tier } := by
  cases tier
  · rfl
  · rfl

/-- What the fleet calls a storage mode. -/
def fleetStorageMode : StorageModeStatus → List Char
  | .ramOnly => "RAM ONLY".toList
  | .microSdActive => "SD ACTIVE".toList

theorem set_storage (mode : StorageModeStatus) :
    fields.set upper "Storage".toList (storageModeDebugFmt mode) =
      { fields with storageMode := fleetStorageMode mode } := by
  cases mode
  · rfl
  · rfl

theorem parse_uptime (x : UInt32) :
    Decimal.parseUnsigned 32
      (trim ((Decimal.ofNat x.toNat ++ ['s']).rdropWhile (· == 's'))) = some x.toNat := by
  have hlast : (Decimal.ofNat x.toNat).rdropWhile (· == 's') = Decimal.ofNat x.toNat := by
    rw [List.rdropWhile_eq_self_iff]
    intro hne
    have hs := Decimal.notMem_ofNat (c := 's') (by decide) x.toNat
    simpa using ne_of_mem_of_not_mem (List.getLast_mem hne) hs
  rw [List.rdropWhile_concat_pos _ _ _ (by decide), hlast, (Word.ofNat _).trimmed.trim_eq,
    Decimal.parseUnsigned_ofNat x.toNat_lt]

theorem parse_rssi (x : Int8) :
    Decimal.parseSigned 8 (trim (firstWord (Decimal.ofInt x.toInt ++ ' ' :: "dBm".toList))) =
      some x.toInt := by
  have hword := Word.ofInt x.toInt
  have hunit : Word "dBm".toList := by decide
  rw [firstWord_two hword.isWhitespace_eq hunit.isWhitespace_eq hword.1 hunit.1,
    hword.trimmed.trim_eq, Decimal.parseSigned_ofInt x.le_toInt x.toInt_lt]

theorem parse_lqi (x : UInt8) :
    Decimal.parseUnsigned 8 (trim (firstWord (Decimal.ofNat x.toNat))) = some x.toNat := by
  have hword := Word.ofNat x.toNat
  rw [firstWord_of_forall hword.1 hword.isWhitespace_eq, hword.trimmed.trim_eq,
    Decimal.parseUnsigned_ofNat x.toNat_lt]

theorem set_sram (val : List Char) : fields.set upper "SRAM".toList val = fields := rfl

/-- Only the counters are numbers of 32 bits. -/
theorem parse_counter (x : UInt32) :
    Decimal.parseUnsigned 32 (Decimal.ofNat x.toNat) = some x.toNat :=
  Decimal.parseUnsigned_ofNat x.toNat_lt

/-- What the fleet is to keep of a report. -/
def fleetFields (r : TelemetryReport) : TelemetryFields where
  nodeId := upperHex 8 r.nodeId.toNat
  tier := fleetTier r.tier
  storageMode := fleetStorageMode r.storageMode
  uptimeSecs := r.uptimeSecs
  rxCount := r.rxCount
  txCount := r.txCount
  dropCount := r.dropCount
  rssi := r.rssi
  lqi := r.lqi

/-- The fields of a line set everything the fleet keeps of a node. -/
theorem foldl_set_keyValues (r : TelemetryReport) :
    (keyValues r).foldl (fun fields kv => fields.set upper kv.1 kv.2) fields = fleetFields r := by
  simp only [keyValues, List.foldl_cons, List.foldl_nil, set_node, set_tier,
    set_storage, TelemetryFields.set_uptime upper _ (parse_uptime r.uptimeSecs), set_sram,
    TelemetryFields.set_drops upper _ (parse_counter r.dropCount),
    TelemetryFields.set_rx upper _ (parse_counter r.rxCount),
    TelemetryFields.set_tx upper _ (parse_counter r.txCount),
    TelemetryFields.set_rssi upper _ (parse_rssi r.rssi),
    TelemetryFields.set_lqi upper _ (parse_lqi r.lqi), UInt32.ofNat_toNat, Int8.ofInt_toInt,
    UInt8.ofNat_toNat, fleetFields]

end

/-! ### Cutting a line -/

/-- The keys of a line. -/
def telemetryKeys : List (List Char) :=
  ["Node".toList, "Tier".toList, "Storage".toList, "Uptime".toList, "SRAM".toList, "Drops".toList,
    "RX".toList, "TX".toList, "RSSI".toList, "LQI".toList]

theorem word_of_mem_telemetryKeys : ∀ key ∈ telemetryKeys, Word key ∧ ':' ∉ key := by
  decide

/-- Every value is a word, but for the signal strength, whose unit stands behind a space. -/
theorem trimmed_of_mem_keyValues (r : TelemetryReport) :
    ∀ kv ∈ keyValues r, Trimmed kv.2 ∧ ',' ∉ kv.2 := by
  have hword : ∀ {value}, Word value → Trimmed value ∧ ',' ∉ value := fun h =>
    ⟨h.trimmed, h.comma_notMem⟩
  have hseconds : Word ['s'] := by decide
  have hcapacity : Word "/256".toList := by decide
  have hrssi : Trimmed (Decimal.ofInt r.rssi.toInt ++ ' ' :: "dBm".toList) ∧
      ',' ∉ Decimal.ofInt r.rssi.toInt ++ ' ' :: "dBm".toList := by
    have hunit : Word "dBm".toList := by decide
    have htrimmed := (Word.ofInt r.rssi.toInt).trimmed.append [' '] hunit.trimmed
    rw [List.append_assoc] at htrimmed
    refine ⟨htrimmed, ?_⟩
    rw [List.mem_append, not_or]
    exact ⟨(Word.ofInt r.rssi.toInt).comma_notMem, by decide⟩
  simp only [keyValues, List.forall_mem_cons]
  exact ⟨hword (.upperHex _), hword (.debugFmt r.tier), hword (.storageModeDebugFmt r.storageMode),
    hword ((Word.ofNat _).append hseconds), hword ((Word.ofNat _).append hcapacity),
    hword (.ofNat _), hword (.ofNat _), hword (.ofNat _), hrssi, hword (.ofNat _),
    List.forall_mem_nil _⟩

theorem cuttable_keyValues (r : TelemetryReport) : ∀ kv ∈ keyValues r, Cuttable kv.1 kv.2 := by
  intro kv hkv
  have hmem : kv.1 ∈ telemetryKeys := List.mem_map_of_mem (f := Prod.fst) hkv
  obtain ⟨hkey, hcolon⟩ := word_of_mem_telemetryKeys kv.1 hmem
  obtain ⟨hvalue, hcomma⟩ := trimmed_of_mem_keyValues r kv hkv
  exact ⟨hkey.trimmed, hvalue, hcolon, hkey.comma_notMem, hcomma⟩

/-! ### From the dongle to the fleet -/

/-- A printed line is read back, whatever text without the marker stands before it. -/
theorem parseTelemetryLine_line (upper : Char → List Char) (now : ℕ) {pre : List Char}
    (absent : ¬ telemetryRxMarker <:+: pre) (r : TelemetryReport) :
    parseTelemetryLine upper now (pre ++ r.line) =
      some { toTelemetryFields := fleetFields r, lastSeen := now } := by
  rw [line_eq, ← List.append_assoc]
  exact parseTelemetryLine_fields upper now absent (List.cons_ne_nil _ _) (cuttable_keyValues r)
    (foldl_set_keyValues upper .start r) (List.cons_ne_nil _ _)

/-- **The fleet has of a node what the dongle had.** A debug payload, and whatever payload
is read as a production one, reach the daemon with every figure. -/
theorem parseTelemetryLine_telemetryRxLine (postcard : Postcard) (upper : Char → List Char)
    (now : ℕ) {rx : ReceivedMeshPacket} (src : rx.srcNodeId ≠ 0) {pre : List Char}
    (absent : ¬ telemetryRxMarker <:+: pre) :
    (∀ (dbg : DebugTelemetryPayload) buf, dbg.buildTier = .debug →
      rx.packet.payload = dbg.serialize buf →
      parseTelemetryLine upper now (pre ++ telemetryRxLine postcard rx) =
        some
          { nodeId := upperHex 8 rx.srcNodeId.toNat
            tier := "DEBUG".toList
            storageMode := fleetStorageMode dbg.storageMode
            uptimeSecs := dbg.uptimeSecs
            rxCount := dbg.rxCount
            txCount := dbg.txCount
            dropCount := dbg.dropCount
            rssi := rx.rssi
            lqi := rx.lqi
            lastSeen := now }) ∧
    ∀ closed, classifyTelemetry postcard rx.packet.payload = .prod closed →
      parseTelemetryLine upper now (pre ++ telemetryRxLine postcard rx) =
        some
          { nodeId := upperHex 8 rx.srcNodeId.toNat
            tier := "PROD".toList
            storageMode := fleetStorageMode closed.storageMode
            uptimeSecs := closed.uptimeSecs
            rxCount := closed.rxPacketCount
            txCount := closed.txPacketCount
            dropCount := closed.droppedCount
            rssi := rx.rssi
            lqi := rx.lqi
            lastSeen := now } := by
  have hsrc := effectiveSrcNode_of_ne src
  constructor
  · intro dbg buf htier hpayload
    have hclass := classifyTelemetry_serialize postcard htier buf
    rw [← hpayload] at hclass
    simp only [telemetryRxLine, hclass, hsrc, if_pos src]
    rw [parseTelemetryLine_line upper now absent, fleetFields, TelemetryReport.ofDebug, htier]
    rfl
  · intro closed hclass
    simp only [telemetryRxLine, hclass, hsrc]
    exact parseTelemetryLine_line upper now absent _

/-- A telemetry packet as another node hears it. -/
def heardTelemetry (payload : Bytes ciphertextLen) : ReceivedMeshPacket where
  packet :=
    { header :=
        { networkTag := defaultNetworkTag
          msgId := 1
          chunkIdx := 0
          totalChunks := 1
          ttl := 1
          hopCount := 0
          flags := flagTelemetry }
      payload }
  srcNodeId := 0xBEBCE5B8
  rssi := -19
  lqi := 255

def idleDebugTelemetry : DebugTelemetryPayload where
  uptimeSecs := 862
  rxCount := 904
  txCount := 68
  dropCount := 0
  sramUsed := 0
  storageMode := .microSdActive
  lastEvent := .boot
  buildTier := .debug
  freeHeapKb := 64
  lastRssi := -20
  lastLqi := 240
  nodeMacTail := .zero 8
  diagnosticReserve := .zero 64

def idleTelemetry : ClosedTelemetry where
  uptimeSecs := 838
  rxPacketCount := 302
  txPacketCount := 33
  droppedCount := 46
  sramRingUsed := 46
  storageMode := .ramOnly
  lastEvent := .boot
  lastRssi := -21

theorem parseTelemetryLine_telemetryRxLine_idle :
    parseTelemetryLine (fun c => [c]) 7 ("[Dongle] ".toList ++
        telemetryRxLine .leb128 (heardTelemetry (idleDebugTelemetry.serialize (.zero _)))) =
      some
        { nodeId := upperHex 8 0xBEBCE5B8
          tier := "DEBUG".toList
          storageMode := "SD ACTIVE".toList
          uptimeSecs := 862
          rxCount := 904
          txCount := 68
          dropCount := 0
          rssi := -19
          lqi := 255
          lastSeen := 7 } ∧
    parseTelemetryLine (fun c => [c]) 7 ("[Dongle] ".toList ++
        telemetryRxLine .leb128 (heardTelemetry (prodPayload .leb128 idleTelemetry))) =
      some
        { nodeId := upperHex 8 0xBEBCE5B8
          tier := "PROD".toList
          storageMode := "RAM ONLY".toList
          uptimeSecs := 838
          rxCount := 302
          txCount := 33
          dropCount := 46
          rssi := -19
          lqi := 255
          lastSeen := 7 } := by
  have habsent : ¬ telemetryRxMarker <:+: "[Dongle] ".toList := by decide
  have hidden : ¬ idleTelemetry.ShowsDebug := by
    rintro (⟨-, hsram, -⟩ | ⟨-, hsram, -⟩ | ⟨-, hrssi⟩)
    · exact absurd hsram (by decide)
    · exact absurd hsram (by decide)
    · exact absurd hrssi (by decide)
  have hsrc : ∀ payload, (heardTelemetry payload).srcNodeId ≠ 0 := by
    intro payload
    show (0xBEBCE5B8 : UInt32) ≠ 0
    decide
  constructor
  · exact (parseTelemetryLine_telemetryRxLine .leb128 _ 7 (hsrc (idleDebugTelemetry.serialize _))
      habsent).1 idleDebugTelemetry (.zero _) rfl rfl
  · exact (parseTelemetryLine_telemetryRxLine .leb128 _ 7 (hsrc (prodPayload .leb128 idleTelemetry))
      habsent).2 idleTelemetry (classifyTelemetry_prodPayload Postcard.documented_leb128 hidden)

end Gibberish.Mesh
