/-
# Records across restarts

A card whose reads and writes all succeed, and a manager that is restarted on it
between calls. A restart resumes at the newest checkpoint, so it comes back to where
it was exactly when no record was written since. The records behind the checkpoint
are not looked for: the next record is written over the first of them, under its
sequence number.
-/

import Gibberish.Storage.Flush

set_option autoImplicit false

namespace Gibberish.Storage

open Gibberish.Foundation Gibberish.Protocol

/-- A card that never fails. -/
structure Card where
  sectors : UInt32 → Bytes sectorSize

instance : BlockDevice Card where
  readBlock card lba := (.ok (card.sectors lba), card)
  writeBlock card lba block := (.ok (), ⟨Function.update card.sectors lba block⟩)

/-- A card with all sectors empty. -/
def Card.blank : Card := ⟨fun _ => .zero sectorSize⟩

/-! ### The position a card is resumed at -/

section Resume

variable (crc32 : Checksum)

def resumeSequence (sectors : UInt32 → Bytes sectorSize) : UInt64 :=
  (DynamicStorageManager.resumeFrom (checkpointOf crc32 (sectors 1))
    (checkpointOf crc32 (sectors 2))).1

def resumeLba (sectors : UInt32 → Bytes sectorSize) : UInt32 :=
  let lba := (DynamicStorageManager.resumeFrom (checkpointOf crc32 (sectors 1))
    (checkpointOf crc32 (sectors 2))).2.1
  if lba < 10 then 10 else lba

/-- A restart on a card resumes there. -/
theorem newWithDevice_card (dev : Recorder Card) :
    (DynamicStorageManager.newWithDevice crc32 dev).device = some dev ∧
      (DynamicStorageManager.newWithDevice crc32 dev).mode = .microSdActive ∧
      (DynamicStorageManager.newWithDevice crc32 dev).currentSequence =
        resumeSequence crc32 dev.device.sectors ∧
      (DynamicStorageManager.newWithDevice crc32 dev).currentLba =
        resumeLba crc32 dev.device.sectors :=
  ⟨rfl, rfl, rfl, rfl⟩

variable {crc32}

/-- Only the two checkpoint sectors count. -/
theorem resume_update_container {sectors : UInt32 → Bytes sectorSize} {lba : UInt32}
    (container : 10 ≤ lba) (block : Bytes sectorSize) :
    resumeSequence crc32 (Function.update sectors lba block) = resumeSequence crc32 sectors ∧
      resumeLba crc32 (Function.update sectors lba block) = resumeLba crc32 sectors := by
  have h1 : (1 : UInt32) ≠ lba := by
    rintro rfl
    exact absurd container (by decide)
  have h2 : (2 : UInt32) ≠ lba := by
    rintro rfl
    exact absurd container (by decide)
  simp only [resumeSequence, resumeLba, Function.update_of_ne h1, Function.update_of_ne h2,
    and_self]

/-- The newer of two checkpoints counts. -/
theorem resumeFrom_newer (ckpt : CheckpointSector) {c1 c2 : Option CheckpointSector}
    (newer : (DynamicStorageManager.resumeFrom c1 c2).1 < ckpt.sequence) :
    ((DynamicStorageManager.resumeFrom (some ckpt) c2).1 = ckpt.sequence ∧
      (DynamicStorageManager.resumeFrom (some ckpt) c2).2.1 = ckpt.headLba) ∧
    (DynamicStorageManager.resumeFrom c1 (some ckpt)).1 = ckpt.sequence ∧
      (DynamicStorageManager.resumeFrom c1 (some ckpt)).2.1 = ckpt.headLba := by
  -- Whichever of the old ones stays, it is not newer.
  have h1 : ∀ c ∈ c1, c.sequence < ckpt.sequence := by
    rintro c rfl
    cases c2 with
    | none => exact newer
    | some c' =>
      simp only [DynamicStorageManager.resumeFrom] at newer
      split at newer
      · exact newer
      · next hle => exact UInt64.lt_trans (UInt64.not_le.mp hle) newer
  have h2 : ∀ c ∈ c2, c.sequence < ckpt.sequence := by
    rintro c rfl
    cases c1 with
    | none => exact newer
    | some c' =>
      simp only [DynamicStorageManager.resumeFrom] at newer
      split at newer
      · next hle => exact UInt64.lt_of_le_of_lt hle newer
      · exact newer
  constructor
  · cases c2 with
    | none => exact ⟨rfl, rfl⟩
    | some c =>
      have hge : ckpt.sequence ≥ c.sequence := UInt64.le_of_lt (h2 c rfl)
      simp only [DynamicStorageManager.resumeFrom, if_pos hge, and_self]
  · cases c1 with
    | none => exact ⟨rfl, rfl⟩
    | some c =>
      have hlt : ¬ c.sequence ≥ ckpt.sequence := UInt64.not_le.mpr (h1 c rfl)
      simp only [DynamicStorageManager.resumeFrom, if_neg hlt, and_self]

/-- The LBA survives the way through the head offset. -/
theorem headLba_checkpoint {D : Type} (sm : DynamicStorageManager D) :
    sm.checkpoint.headLba = sm.currentLba := by
  have hlt := sm.currentLba.toNat_lt
  apply UInt32.toNat_inj.mp
  simp only [CheckpointSector.headLba, DynamicStorageManager.checkpoint, UInt64.toNat_toUInt32,
    UInt64.toNat_div, UInt64.toNat_mul, UInt32.toNat_toUInt64]
  show sm.currentLba.toNat * 512 % 2 ^ 64 / 512 % 2 ^ 32 = sm.currentLba.toNat
  omega

end Resume

/-! ### One round on a card -/

section Rounds

variable (crc32 : Checksum)

/-- A record was appended: it is on the card, the records before it are untouched, and
the card is resumed behind it if a checkpoint was due, else where it was before. -/
structure Appended (sm sm' : DynamicStorageManager (Recorder Card)) (dev dev' : Recorder Card)
    (packet : MeshPacket) : Prop where
  device : sm'.device = some dev'
  mode : sm'.mode = sm.mode
  sequence : sm'.currentSequence = saturatingSucc64 sm.currentSequence
  lba : sm'.currentLba = saturatingSucc32 sm.currentLba
  confirmed : confirmedRecords crc32 dev'.calls =
    confirmedRecords crc32 dev.calls ++ [(sm.currentLba, sm.nextRecord packet)]
  here : recordOf crc32 (dev'.device.sectors sm.currentLba) = some (sm.nextRecord packet)
  elsewhere : ∀ lba, 10 ≤ lba → lba ≠ sm.currentLba →
    dev'.device.sectors lba = dev.device.sectors lba
  resumeHere : sm'.currentSequence % 16 = 0 →
    resumeSequence crc32 dev.device.sectors < sm'.currentSequence →
      resumeSequence crc32 dev'.device.sectors = sm'.currentSequence ∧
        resumeLba crc32 dev'.device.sectors =
          if sm'.currentLba < 10 then 10 else sm'.currentLba
  resumeBefore : ¬ sm'.currentSequence % 16 = 0 →
    resumeSequence crc32 dev'.device.sectors = resumeSequence crc32 dev.device.sectors ∧
      resumeLba crc32 dev'.device.sectors = resumeLba crc32 dev.device.sectors

variable {crc32}

/-- A checkpoint goes to LBA 1 or LBA 2. -/
theorem checkpointLba_eq {D : Type} (sm : DynamicStorageManager D) :
    sm.checkpointLba = 1 ∨ sm.checkpointLba = 2 := by
  rw [DynamicStorageManager.checkpointLba]
  split
  · exact Or.inl rfl
  · exact Or.inr rfl

theorem ne_checkpointLba {D : Type} (sm : DynamicStorageManager D) {lba : UInt32}
    (container : 10 ≤ lba) : lba ≠ sm.checkpointLba := by
  rintro rfl
  rcases checkpointLba_eq sm with h | h
  · exact absurd (h ▸ container) (by decide)
  · exact absurd (h ▸ container) (by decide)

/-- A checkpoint newer than the one the card is resumed at takes over. -/
theorem resume_update_checkpoint {D : Type} (sm : DynamicStorageManager D)
    {sectors : UInt32 → Bytes sectorSize}
    (newer : resumeSequence crc32 sectors < sm.currentSequence) :
    resumeSequence crc32 (Function.update sectors sm.checkpointLba (sm.checkpoint.serialize crc32)) =
        sm.currentSequence ∧
      resumeLba crc32 (Function.update sectors sm.checkpointLba (sm.checkpoint.serialize crc32)) =
        if sm.currentLba < 10 then 10 else sm.currentLba := by
  have h12 : (1 : UInt32) ≠ 2 := by decide
  obtain ⟨⟨hseq1, hlba1⟩, hseq2, hlba2⟩ := resumeFrom_newer sm.checkpoint newer
  rcases checkpointLba_eq sm with h | h
  · simp only [resumeSequence, resumeLba, h, Function.update_self, Function.update_of_ne h12.symm,
      checkpointOf_serialize, hseq1, hlba1, headLba_checkpoint]
    exact ⟨rfl, trivial⟩
  · simp only [resumeSequence, resumeLba, h, Function.update_self, Function.update_of_ne h12,
      checkpointOf_serialize, hseq2, hlba2, headLba_checkpoint]
    exact ⟨rfl, trivial⟩

/-- A confirmed record is appended. -/
theorem appended_of_confirmed {sm : DynamicStorageManager (Recorder Card)}
    {dev dev₁ : Recorder Card} {packet : MeshPacket}
    (container : 10 ≤ sm.currentLba)
    (written : BlockDevice.writeBlock dev sm.currentLba
      (recordBlock crc32 (sm.nextRecord packet)) = (.ok (), dev₁)) :
    ∃ dev', Appended crc32 sm ((sm.advance dev₁).checkpointIfDue crc32) dev dev' packet := by
  have hsectors : dev₁.device.sectors = Function.update dev.device.sectors sm.currentLba
      (recordBlock crc32 (sm.nextRecord packet)) := by
    obtain ⟨-, rfl⟩ := Prod.mk.inj written
    rfl
  have hconfirmed : confirmedRecords crc32 dev₁.calls =
      confirmedRecords crc32 dev.calls ++ [(sm.currentLba, sm.nextRecord packet)] := by
    rw [calls_of_writeBlock written, confirmedRecords, List.filterMap_append, List.filterMap_cons,
      Station.confirmedRecord_ok, recordOf_recordBlock]
    rfl
  have hresume : resumeSequence crc32 dev₁.device.sectors =
        resumeSequence crc32 dev.device.sectors ∧
      resumeLba crc32 dev₁.device.sectors = resumeLba crc32 dev.device.sectors := by
    rw [hsectors]
    exact resume_update_container container _
  by_cases hdue : (sm.advance dev₁).currentSequence % 16 = 0
  · have hsm : (sm.advance dev₁).checkpointIfDue crc32 = { sm.advance dev₁ with
        device := some (BlockDevice.writeBlock dev₁ (sm.advance dev₁).checkpointLba
          ((sm.advance dev₁).checkpoint.serialize crc32)).2 } := by
      rw [DynamicStorageManager.checkpointIfDue, if_pos hdue]
      rfl
    rw [hsm]
    refine ⟨_, rfl, rfl, rfl, rfl, ?_, ?_, ?_, ?_, fun h => absurd hdue h⟩
    · show confirmedRecords crc32 (dev₁.calls ++ [⟨_, CheckpointSector.serialize crc32 _, _⟩]) = _
      rw [confirmedRecords, List.filterMap_append, List.filterMap_cons,
        Station.confirmedRecord_checkpoint, ← confirmedRecords, hconfirmed]
      exact List.append_nil _
    · show recordOf crc32 (Function.update dev₁.device.sectors _ _ sm.currentLba) = _
      rw [Function.update_of_ne (ne_checkpointLba _ container), hsectors, Function.update_self,
        recordOf_recordBlock]
    · intro lba hlba hne
      show Function.update dev₁.device.sectors _ _ lba = _
      rw [Function.update_of_ne (ne_checkpointLba _ hlba), hsectors, Function.update_of_ne hne]
    · intro _ hnewer
      exact resume_update_checkpoint (sm.advance dev₁) (hresume.1 ▸ hnewer)
  · have hsm : (sm.advance dev₁).checkpointIfDue crc32 = sm.advance dev₁ := by
      rw [DynamicStorageManager.checkpointIfDue, if_neg hdue]
    rw [hsm]
    refine ⟨dev₁, rfl, rfl, rfl, rfl, hconfirmed, ?_, ?_,
      fun h => absurd h hdue, fun _ => hresume⟩
    · rw [hsectors, Function.update_self, recordOf_recordBlock]
    · intro lba _ hne
      rw [hsectors, Function.update_of_ne hne]

end Rounds

/-! ### The log from a position on -/

/-- A sequence number or an LBA counted up from 0, as far as its type goes. -/
def saturated64 (n : ℕ) : UInt64 := .ofNat (min n 0xFFFFFFFFFFFFFFFF)

def saturated32 (n : ℕ) : UInt32 := .ofNat (min n 0xFFFFFFFF)

theorem toNat_saturated64 (n : ℕ) : (saturated64 n).toNat = min n 0xFFFFFFFFFFFFFFFF := by
  rw [saturated64, UInt64.toNat_ofNat']
  omega

theorem toNat_saturated32 (n : ℕ) : (saturated32 n).toNat = min n 0xFFFFFFFF := by
  rw [saturated32, UInt32.toNat_ofNat']
  omega

@[simp] theorem saturated64_toNat (x : UInt64) : saturated64 x.toNat = x := by
  have hlt := x.toNat_lt
  apply UInt64.toNat_inj.mp
  rw [toNat_saturated64]
  omega

@[simp] theorem saturated32_toNat (x : UInt32) : saturated32 x.toNat = x := by
  have hlt := x.toNat_lt
  apply UInt32.toNat_inj.mp
  rw [toNat_saturated32]
  omega

theorem saturatingSucc64_saturated64 (n : ℕ) :
    saturatingSucc64 (saturated64 n) = saturated64 (n + 1) := by
  apply UInt64.toNat_inj.mp
  by_cases hmax : saturated64 n = 0xFFFFFFFFFFFFFFFF
  · have hn : min n 0xFFFFFFFFFFFFFFFF = 0xFFFFFFFFFFFFFFFF :=
      (toNat_saturated64 n).symm.trans (congrArg UInt64.toNat hmax)
    rw [saturatingSucc64, if_pos hmax, toNat_saturated64, toNat_saturated64]
    omega
  · have hne : min n 0xFFFFFFFFFFFFFFFF ≠ 0xFFFFFFFFFFFFFFFF := fun h =>
      hmax (UInt64.toNat_inj.mp ((toNat_saturated64 n).trans h))
    rw [Station.toNat_saturatingSucc64 hmax, toNat_saturated64, toNat_saturated64]
    omega

theorem saturatingSucc32_saturated32 (n : ℕ) :
    saturatingSucc32 (saturated32 n) = saturated32 (n + 1) := by
  apply UInt32.toNat_inj.mp
  by_cases hmax : saturated32 n = 0xFFFFFFFF
  · have hn : min n 0xFFFFFFFF = 0xFFFFFFFF :=
      (toNat_saturated32 n).symm.trans (congrArg UInt32.toNat hmax)
    rw [saturatingSucc32, if_pos hmax, toNat_saturated32, toNat_saturated32]
    omega
  · have hne : min n 0xFFFFFFFF ≠ 0xFFFFFFFF := fun h =>
      hmax (UInt32.toNat_inj.mp ((toNat_saturated32 n).trans h))
    rw [Station.toNat_saturatingSucc32 hmax, toNat_saturated32, toNat_saturated32]
    omega

/-- The records of some packets, written one by one from a sequence and an LBA on. -/
def logOf (q l : ℕ) (packets : List MeshPacket) : List (UInt32 × ChunkRecord) :=
  packets.mapIdx fun i packet => (saturated32 (l + i), ⟨saturated64 (q + i + 1), packet.payload⟩)

/-- There is an LBA for every packet, and those numbered `u64::MAX` have one payload. -/
structure Fits (q l : ℕ) (packets : List MeshPacket) : Prop where
  lbas : l + packets.length ≤ 2 ^ 32
  contents : ∀ packet ∈ packets.drop (2 ^ 64 - 2 - q), ∀ packet' ∈ packets.drop (2 ^ 64 - 2 - q),
    packet.payload = packet'.payload

instance (q l : ℕ) (packets : List MeshPacket) : Decidable (Fits q l packets) :=
  decidable_of_iff (_ ∧ _) ⟨fun h => ⟨h.1, h.2⟩, fun h => ⟨h.1, h.2⟩⟩

section LogOf

variable {q l : ℕ} {packets : List MeshPacket}

theorem logOf_concat (packet : MeshPacket) :
    logOf q l (packets ++ [packet]) = logOf q l packets ++
      [(saturated32 (l + packets.length), ⟨saturated64 (q + packets.length + 1), packet.payload⟩)] :=
  List.mapIdx_concat

@[simp] theorem length_logOf : (logOf q l packets).length = packets.length := List.length_mapIdx

theorem getElem_lbas {i : ℕ} (h : i < ((logOf q l packets).map Prod.fst).length) :
    ((logOf q l packets).map Prod.fst)[i] = saturated32 (l + i) := by
  simp only [logOf, List.getElem_map, List.getElem_mapIdx]

theorem mem_logOf {r : UInt32 × ChunkRecord} :
    r ∈ logOf q l packets ↔ ∃ (i : ℕ) (h : i < packets.length),
      (saturated32 (l + i), ⟨saturated64 (q + i + 1), packets[i].payload⟩) = r :=
  List.mem_mapIdx

/-- The LBA of a packet is among those of the log. -/
theorem saturated32_mem_lbas {i : ℕ} (h : i < packets.length) :
    saturated32 (l + i) ∈ (logOf q l packets).map Prod.fst :=
  List.mem_map.mpr ⟨_, mem_logOf.mpr ⟨i, h, rfl⟩, rfl⟩

/-- No LBA is used twice iff there is one for every packet. -/
theorem nodup_lbas_iff (hl : l < 2 ^ 32) :
    ((logOf q l packets).map Prod.fst).Nodup ↔ l + packets.length ≤ 2 ^ 32 := by
  have hlen : ((logOf q l packets).map Prod.fst).length = packets.length := by
    rw [List.length_map, length_logOf]
  constructor
  · intro hnodup
    by_contra hover
    -- The last two packets would both go to the last LBA.
    have hlast : packets.length - 1 < ((logOf q l packets).map Prod.fst).length := by omega
    have hbefore : packets.length - 2 < ((logOf q l packets).map Prod.fst).length := by omega
    have hsame : ((logOf q l packets).map Prod.fst)[packets.length - 1] =
        ((logOf q l packets).map Prod.fst)[packets.length - 2] := by
      apply UInt32.toNat_inj.mp
      rw [getElem_lbas, getElem_lbas, toNat_saturated32, toNat_saturated32]
      omega
    have heq := (List.Nodup.getElem_inj_iff hnodup).mp hsame
    omega
  · intro hfits
    refine List.pairwise_iff_getElem.mpr fun i j hi hj hij heq => ?_
    rw [getElem_lbas, getElem_lbas] at heq
    have hnat := congrArg UInt32.toNat heq
    rw [toNat_saturated32, toNat_saturated32] at hnat
    omega

/-- No sequence number has two contents iff those at its end have one payload. -/
theorem unambiguous_iff (hq : q < 2 ^ 64) :
    (∀ r ∈ logOf q l packets, ∀ r' ∈ logOf q l packets,
      r.2.sequence = r'.2.sequence → r.2 = r'.2) ↔
    ∀ packet ∈ packets.drop (2 ^ 64 - 2 - q), ∀ packet' ∈ packets.drop (2 ^ 64 - 2 - q),
      packet.payload = packet'.payload := by
  constructor
  · intro hunambiguous packet hpacket packet' hpacket'
    obtain ⟨i, hi, rfl⟩ := List.mem_drop_iff_getElem.mp hpacket
    obtain ⟨j, hj, rfl⟩ := List.mem_drop_iff_getElem.mp hpacket'
    have hsequence : saturated64 (q + (2 ^ 64 - 2 - q + i) + 1) =
        saturated64 (q + (2 ^ 64 - 2 - q + j) + 1) := by
      apply UInt64.toNat_inj.mp
      rw [toNat_saturated64, toNat_saturated64]
      omega
    have hsame := hunambiguous _ (mem_logOf.mpr ⟨2 ^ 64 - 2 - q + i, by omega, rfl⟩)
      _ (mem_logOf.mpr ⟨2 ^ 64 - 2 - q + j, by omega, rfl⟩) hsequence
    exact congrArg ChunkRecord.ciphertext hsame
  · intro hcontents r hr r' hr' hsequence
    obtain ⟨i, hi, rfl⟩ := mem_logOf.mp hr
    obtain ⟨j, hj, rfl⟩ := mem_logOf.mp hr'
    have hnat := congrArg UInt64.toNat hsequence
    rw [toNat_saturated64, toNat_saturated64] at hnat
    by_cases heq : i = j
    · subst heq
      rfl
    -- Two records share no number but the last.
    · have hmem : ∀ k (hk : k < packets.length), 2 ^ 64 - 2 - q ≤ k →
          packets[k] ∈ packets.drop (2 ^ 64 - 2 - q) := by
        intro k hk hge
        obtain ⟨d, rfl⟩ := Nat.exists_eq_add_of_le hge
        exact List.mem_drop_iff_getElem.mpr ⟨d, by omega, rfl⟩
      have hpayload := hcontents _ (hmem i hi (by omega)) _ (hmem j hj (by omega))
      exact congrArg₂ ChunkRecord.mk hsequence hpayload

end LogOf

/-! ### Runs with restarts -/

inductive CardAction where
  | push (packet : MeshPacket)
  | flush
  | restart
  deriving DecidableEq

/-- A station on a card, whether a record was written since its newest checkpoint, and
whether a restart so far left such records behind. -/
structure CardStation where
  station : Station Card
  unsaved : Bool
  behind : Bool

namespace CardStation

/-- A new manager on a card, with an empty ring. -/
def boot (crc32 : Checksum) (dev : Recorder Card) (behind : Bool) : CardStation :=
  ⟨⟨DynamicStorageManager.newWithDevice crc32 dev, .new⟩, false, behind⟩

variable (crc32 : Checksum)

/-- A flush emits the packets it takes off the ring. -/
def step (s : CardStation) : CardAction → CardStation × List MeshPacket
  | .push packet =>
    ({ s with station := (Station.machine crc32).next s.station (.push packet) }, [])
  | .flush =>
    let taken := s.station.ring.packets.take 2
    let station := s.station.flushed crc32
    -- A checkpoint behind the last record saves it.
    ({ s with
        station := station
        unsaved := if taken = [] then s.unsaved
          else !decide (station.manager.currentSequence % 16 = 0) },
      taken)
  | .restart =>
    match s.station.manager.device with
    | none => (s, [])
    | some dev => (boot crc32 dev (s.behind || s.unsaved), [])

/-- The station as a machine that emits the packets it writes. -/
def machine : Machine CardStation CardAction MeshPacket := ⟨step crc32⟩

/-- A station that just started on a card. -/
def start (card : Card) : CardStation := boot crc32 ⟨card, []⟩ false

/-- The records whose writes were acknowledged, in order. -/
def acknowledged (s : CardStation) : List (UInt32 × ChunkRecord) :=
  confirmedRecords crc32 s.station.calls

/-- The content of the card. -/
def sectors (s : CardStation) : UInt32 → Bytes sectorSize :=
  (s.station.manager.device.map fun dev => dev.device.sectors).getD fun _ => .zero sectorSize

/-- Every acknowledged record is still on the card, no LBA was written twice, and no two
records of one sequence number differ. -/
structure RecordsSurvive (s : CardStation) : Prop where
  onCard : ∀ r ∈ s.acknowledged crc32, recordOf crc32 (s.sectors r.1) = some r.2
  notOverwritten : ((s.acknowledged crc32).map Prod.fst).Nodup
  unambiguous : ∀ r ∈ s.acknowledged crc32, ∀ r' ∈ s.acknowledged crc32,
    r.2.sequence = r'.2.sequence → r.2 = r'.2

/-- A flush does not write a record after a restart that left records behind. -/
def KeepsBehind (s : CardStation) (action : CardAction) : Prop :=
  action = .flush → s.behind = true → s.station.ring.packets = []

instance (s : CardStation) (action : CardAction) : Decidable (s.KeepsBehind action) :=
  inferInstanceAs (Decidable (_ → _ → _))

end CardStation

/-! ### The log on the card -/

section Log

variable (crc32 : Checksum) (q₀ l₀ : ℕ)

/-- The acknowledged records are those of some packets, and all on the card unless two
share an LBA. -/
structure Logged (packets : List MeshPacket) (dev : Recorder Card) : Prop where
  records : confirmedRecords crc32 dev.calls = logOf q₀ l₀ packets
  onCard : ((logOf q₀ l₀ packets).map Prod.fst).Nodup → ∀ r ∈ logOf q₀ l₀ packets,
    recordOf crc32 (dev.device.sectors r.1) = some r.2

/-- The position behind so many records. -/
structure Behind (n : ℕ) (sequence : UInt64) (lba : UInt32) : Prop where
  sequence : sequence = saturated64 (q₀ + n)
  lba : lba = saturated32 (l₀ + n)

/-- The manager stands behind `n` of the records, and the card is resumed behind `m`. -/
structure Stands (sm : DynamicStorageManager (Recorder Card)) (dev : Recorder Card)
    (packets : List MeshPacket) (n m : ℕ) : Prop where
  device : sm.device = some dev
  active : sm.mode = .microSdActive
  logged : Logged crc32 q₀ l₀ packets dev
  here : Behind q₀ l₀ n sm.currentSequence sm.currentLba
  resume : Behind q₀ l₀ m (resumeSequence crc32 dev.device.sectors)
    (resumeLba crc32 dev.device.sectors)
  resume_le : m ≤ n

/-- The manager stands behind the last record, and the card is resumed there exactly when
no record was written since the newest checkpoint. -/
structure InSync (unsaved : Bool) (sm : DynamicStorageManager (Recorder Card))
    (dev : Recorder Card) (packets : List MeshPacket) (m : ℕ) : Prop extends
    Stands crc32 q₀ l₀ sm dev packets packets.length m where
  saved_iff : unsaved = false ↔ m = packets.length

variable {crc32 q₀ l₀} {packets : List MeshPacket}

/-- A position behind some records is in the container. -/
theorem container_saturated32 (container : 10 ≤ l₀) (n : ℕ) : 10 ≤ saturated32 (l₀ + n) := by
  apply UInt32.le_iff_toNat_le.mpr
  rw [toNat_saturated32]
  exact le_min (container.trans (Nat.le_add_right _ _)) (by decide)

theorem Behind.container {n : ℕ} {sequence : UInt64} {lba : UInt32}
    (h : Behind q₀ l₀ n sequence lba) (container : 10 ≤ l₀) : 10 ≤ lba :=
  h.lba ▸ container_saturated32 container n

/-- A record appended behind the last one continues the log. -/
theorem Logged.appended {sm sm' : DynamicStorageManager (Recorder Card)} {dev dev' : Recorder Card}
    {packet : MeshPacket} (logged : Logged crc32 q₀ l₀ packets dev) (container : 10 ≤ l₀)
    (here : Behind q₀ l₀ packets.length sm.currentSequence sm.currentLba)
    (appended : Appended crc32 sm sm' dev dev' packet) :
    Logged crc32 q₀ l₀ (packets ++ [packet]) dev' := by
  have hrecord : sm.nextRecord packet =
      ⟨saturated64 (q₀ + packets.length + 1), packet.payload⟩ := by
    rw [DynamicStorageManager.nextRecord, here.sequence, saturatingSucc64_saturated64]
  refine ⟨?_, fun hnodup r hr => ?_⟩
  · rw [appended.confirmed, logged.records, logOf_concat, hrecord, here.lba]
  · rw [logOf_concat, List.map_append, List.map_singleton] at hnodup
    rw [logOf_concat] at hr
    obtain ⟨hnodupOld, -, hdisjoint⟩ := List.nodup_append.mp hnodup
    rcases List.mem_append.mp hr with hr | hr
    · obtain ⟨i, hi, rfl⟩ := mem_logOf.mp hr
      have hne : saturated32 (l₀ + i) ≠ sm.currentLba := by
        rw [here.lba]
        exact hdisjoint _ (saturated32_mem_lbas hi) _ (List.mem_singleton_self _)
      have hold := logged.onCard hnodupOld _ hr
      rw [appended.elsewhere _ (container_saturated32 container i) hne]
      exact hold
    · obtain rfl := List.mem_singleton.mp hr
      rw [← hrecord, ← here.lba]
      exact appended.here

/-- **One record.** Appending a record keeps manager and log in step, and the record is
saved if a checkpoint was due. -/
theorem InSync.appended {unsaved : Bool} {sm sm' : DynamicStorageManager (Recorder Card)}
    {dev dev' : Recorder Card} {packet : MeshPacket} {m : ℕ}
    (sync : InSync crc32 q₀ l₀ unsaved sm dev packets m) (container : 10 ≤ l₀)
    (appended : Appended crc32 sm sm' dev dev' packet) :
    ∃ m', InSync crc32 q₀ l₀ (!decide (sm'.currentSequence % 16 = 0)) sm' dev'
      (packets ++ [packet]) m' := by
  have hlen : (packets ++ [packet]).length = packets.length + 1 := List.length_append
  have hhere : Behind q₀ l₀ (packets ++ [packet]).length sm'.currentSequence sm'.currentLba := by
    constructor
    · rw [appended.sequence, sync.here.sequence, saturatingSucc64_saturated64, hlen, Nat.add_assoc]
    · rw [appended.lba, sync.here.lba, saturatingSucc32_saturated32, hlen, Nat.add_assoc]
  have hlogged := sync.logged.appended container sync.here appended
  have hmode := appended.mode.trans sync.active
  have hlt : m < (packets ++ [packet]).length := hlen ▸ Nat.lt_succ_of_le sync.resume_le
  by_cases hdue : sm'.currentSequence % 16 = 0
  -- A number at its end is no checkpoint's, so this one is newer than the one before.
  · have hnewer : resumeSequence crc32 dev.device.sectors < sm'.currentSequence := by
      apply UInt64.lt_iff_toNat_lt.mpr
      have hmod := congrArg UInt64.toNat hdue
      rw [hhere.sequence, UInt64.toNat_mod, toNat_saturated64] at hmod
      rw [sync.resume.sequence, hhere.sequence, toNat_saturated64, toNat_saturated64]
      simp only [UInt64.reduceToNat] at hmod
      omega
    obtain ⟨hrseq, hrlba⟩ := appended.resumeHere hdue hnewer
    have hclamp : ¬ sm'.currentLba < 10 := UInt32.not_lt.mpr (hhere.container container)
    rw [if_neg hclamp] at hrlba
    refine ⟨(packets ++ [packet]).length, ⟨appended.device, hmode, hlogged, hhere, ?_,
      Nat.le_refl _⟩, iff_of_true (by rw [decide_eq_true hdue]; rfl) rfl⟩
    rw [hrseq, hrlba]
    exact hhere
  · obtain ⟨hrseq, hrlba⟩ := appended.resumeBefore hdue
    refine ⟨m, ⟨appended.device, hmode, hlogged, hhere, ?_, hlt.le⟩,
      iff_of_false (by rw [decide_eq_false hdue]; decide) hlt.ne⟩
    rw [hrseq, hrlba]
    exact sync.resume

/-- Where a flush finds nothing, it does nothing. -/
theorem flushUpTo_of_take_eq_nil {n : ℕ} {sm : DynamicStorageManager (Recorder Card)}
    {ring : SramRingBuffer} (nothing : ring.packets.take n = []) :
    (DynamicStorageManager.flushUpTo crc32 n sm ring).1 = sm := by
  cases n with
  | zero => rfl
  | succ n =>
    have hempty : ring.packets = [] := by
      cases hpackets : ring.packets with
      | nil => rfl
      | cons packet rest => rw [hpackets] at nothing; cases nothing
    have hpeek : ring.peek = none := by rw [ring.peek_eq, hempty, List.head?_nil]
    cases hdevice : sm.device with
    | none => simp only [DynamicStorageManager.flushUpTo, hdevice]
    | some dev => simp only [DynamicStorageManager.flushUpTo, hdevice, hpeek]

/-- **One flush.** The loop writes the packets it finds, one record each. -/
theorem InSync.flushUpTo {unsaved : Bool} {sm : DynamicStorageManager (Recorder Card)}
    {dev : Recorder Card} {m : ℕ} (sync : InSync crc32 q₀ l₀ unsaved sm dev packets m)
    (container : 10 ≤ l₀) (n : ℕ) (ring : SramRingBuffer) :
    ∃ dev' m', InSync crc32 q₀ l₀
      (if ring.packets.take n = [] then unsaved else !decide
        ((DynamicStorageManager.flushUpTo crc32 n sm ring).1.currentSequence % 16 = 0))
      (DynamicStorageManager.flushUpTo crc32 n sm ring).1 dev'
      (packets ++ ring.packets.take n) m' := by
  induction n generalizing unsaved sm dev packets m ring with
  | zero =>
    rw [List.take_zero, if_pos rfl, List.append_nil]
    exact ⟨dev, m, sync⟩
  | succ n ih =>
    cases hpackets : ring.packets with
    | nil =>
      have hnothing : ring.packets.take (n + 1) = [] := by rw [hpackets, List.take_nil]
      rw [flushUpTo_of_take_eq_nil hnothing, List.take_nil, if_pos rfl, List.append_nil]
      exact ⟨dev, m, sync⟩
    | cons packet rest =>
      have hpeek : ring.peek = some packet := by rw [ring.peek_eq, hpackets, List.head?_cons]
      have hpop : ring.pop.2.packets = rest := by rw [ring.pop_spec.2, hpackets, List.tail_cons]
      obtain ⟨dev₁, hwritten⟩ : ∃ dev₁, BlockDevice.writeBlock dev sm.currentLba
          (recordBlock crc32 (sm.nextRecord packet)) = (.ok (), dev₁) := ⟨_, rfl⟩
      obtain ⟨dev₂, happended⟩ :=
        appended_of_confirmed (sync.here.container container) hwritten
      have hloop : DynamicStorageManager.flushUpTo crc32 (n + 1) sm ring =
          DynamicStorageManager.flushUpTo crc32 n ((sm.advance dev₁).checkpointIfDue crc32)
            ring.pop.2 := by
        simp only [DynamicStorageManager.flushUpTo, sync.device, hpeek, hwritten]
      obtain ⟨m₁, hsync⟩ := sync.appended container happended
      obtain ⟨dev', m', hrest⟩ := ih hsync ring.pop.2
      rw [hpop] at hrest
      rw [hloop, List.take_succ_cons, if_neg (List.cons_ne_nil _ _), List.append_cons]
      refine ⟨dev', m', ?_⟩
      by_cases hnothing : rest.take n = []
      · rw [if_pos hnothing] at hrest
        rw [flushUpTo_of_take_eq_nil (hpop ▸ hnothing)] at hrest ⊢
        exact hrest
      · rw [if_neg hnothing] at hrest
        exact hrest

end Log

/-! ### Runs -/

namespace CardStation

variable {crc32 : Checksum} {q₀ l₀ : ℕ} {packets : List MeshPacket}

/-- What holds of a station that has kept what it left behind: it is in step with the log
of the packets written, or it stands at the checkpoint and the log goes on. -/
inductive Kept (crc32 : Checksum) (q₀ l₀ : ℕ) (s : CardStation) (packets : List MeshPacket) :
    Prop where
  | inSync (dev : Recorder Card) (m : ℕ) (behind : s.behind = false)
      (sync : InSync crc32 q₀ l₀ s.unsaved s.station.manager dev packets m)
  | leftBehind (dev : Recorder Card) (m : ℕ) (behind : s.behind = true)
      (stands : Stands crc32 q₀ l₀ s.station.manager dev packets m m) (lt : m < packets.length)

theorem Kept.exists_logged {s : CardStation} (kept : Kept crc32 q₀ l₀ s packets) :
    ∃ dev, s.station.manager.device = some dev ∧ Logged crc32 q₀ l₀ packets dev := by
  cases kept with
  | inSync dev m behind sync => exact ⟨dev, sync.device, sync.logged⟩
  | leftBehind dev m behind stands lt => exact ⟨dev, stands.device, stands.logged⟩

/-- In both cases the records are those of the packets written. -/
theorem Kept.acknowledged {s : CardStation} (kept : Kept crc32 q₀ l₀ s packets) :
    s.acknowledged crc32 = logOf q₀ l₀ packets := by
  obtain ⟨dev, hdevice, hlogged⟩ := kept.exists_logged
  rw [CardStation.acknowledged, Station.calls, hdevice]
  exact hlogged.records

/-- So they survive iff the card has numbers for the packets. -/
theorem Kept.survive_iff {s : CardStation} (kept : Kept crc32 q₀ l₀ s packets)
    (hq : q₀ < 2 ^ 64) (hl : l₀ < 2 ^ 32) :
    RecordsSurvive crc32 s ↔ Fits q₀ l₀ packets := by
  constructor
  · rintro ⟨-, hnodup, hunambiguous⟩
    rw [kept.acknowledged] at hnodup hunambiguous
    exact ⟨(nodup_lbas_iff hl).mp hnodup, (unambiguous_iff hq).mp hunambiguous⟩
  · intro fits
    have hnodup : ((logOf q₀ l₀ packets).map Prod.fst).Nodup := (nodup_lbas_iff hl).mpr fits.lbas
    obtain ⟨dev, hdevice, hlogged⟩ := kept.exists_logged
    have hsectors : s.sectors = dev.device.sectors := by
      rw [sectors, hdevice]
      rfl
    refine ⟨?_, ?_, ?_⟩
    · rw [kept.acknowledged, hsectors]
      exact hlogged.onCard hnodup
    · rw [kept.acknowledged]
      exact hnodup
    · rw [kept.acknowledged]
      exact (unambiguous_iff hq).mpr fits.contents

/-- A new manager on the card of a station that stands at its checkpoint. -/
theorem stands_boot {sm : DynamicStorageManager (Recorder Card)} {dev : Recorder Card} {n m : ℕ}
    (stands : Stands crc32 q₀ l₀ sm dev packets n m) :
    Stands crc32 q₀ l₀ (DynamicStorageManager.newWithDevice crc32 dev) dev packets m m := by
  obtain ⟨hdevice, hmode, hseq, hlba⟩ := newWithDevice_card crc32 dev
  exact ⟨hdevice, hmode, stands.logged, hseq ▸ hlba ▸ stands.resume, stands.resume, Nat.le_refl m⟩

/-- A restart keeps what it leaves behind. -/
theorem Kept.restart {s : CardStation} (kept : Kept crc32 q₀ l₀ s packets) :
    Kept crc32 q₀ l₀ (s.step crc32 .restart).1 packets := by
  cases kept with
  | inSync dev m behind sync =>
    have hstep : (s.step crc32 .restart).1 = boot crc32 dev s.unsaved := by
      simp only [step, sync.device, behind, Bool.false_or]
    rw [hstep]
    have hboot := stands_boot sync.toStands
    cases hunsaved : s.unsaved with
    -- Nothing was written since the checkpoint, so the restart comes back to the end.
    | false =>
      have hm := sync.saved_iff.mp hunsaved
      exact .inSync dev m rfl ⟨hm ▸ hboot, iff_of_true rfl hm⟩
    | true =>
      have hne : m ≠ packets.length := fun h =>
        Bool.false_ne_true ((sync.saved_iff.mpr h).symm.trans hunsaved)
      exact .leftBehind dev m rfl hboot (Nat.lt_of_le_of_ne sync.resume_le hne)
  | leftBehind dev m behind stands lt =>
    have hstep : (s.step crc32 .restart).1 = boot crc32 dev true := by
      simp only [step, stands.device, behind, Bool.true_or]
    rw [hstep]
    exact .leftBehind dev m rfl (stands_boot stands) lt

/-- **Step lemma.** What is left behind is kept by every step that writes nothing over it. -/
theorem Kept.next {s : CardStation} {action : CardAction} (kept : Kept crc32 q₀ l₀ s packets)
    (container : 10 ≤ l₀) (keeps : s.KeepsBehind action) :
    Kept crc32 q₀ l₀ ((machine crc32).next s action)
      (packets ++ (machine crc32).emit s action) := by
  cases action with
  | push packet =>
    show Kept crc32 q₀ l₀ (s.step crc32 (.push packet)).1 (packets ++ [])
    rw [List.append_nil]
    cases kept with
    | inSync dev m behind sync => exact .inSync dev m behind sync
    | leftBehind dev m behind stands lt => exact .leftBehind dev m behind stands lt
  | restart =>
    have hnothing : (machine crc32).emit s .restart = [] := by
      simp only [Machine.emit, machine, step]
      split
      · rfl
      · rfl
    rw [hnothing, List.append_nil]
    exact kept.restart
  | flush =>
    show Kept crc32 q₀ l₀ (s.step crc32 .flush).1 (packets ++ s.station.ring.packets.take 2)
    cases kept with
    | inSync dev m behind sync =>
      have hflush : (s.station.flushed crc32).manager =
          (DynamicStorageManager.flushUpTo crc32 2 s.station.manager s.station.ring).1 := by
        have hon : ¬ (s.station.manager.mode = .ramOnly ∨
            s.station.manager.device.isNone = true) := by
          rw [sync.active, sync.device, Option.isNone_some]
          decide
        show (s.station.manager.flushFromSram crc32 s.station.ring).1 = _
        rw [DynamicStorageManager.flushFromSram, if_neg hon]
      obtain ⟨dev', m', hsync⟩ := sync.flushUpTo container 2 s.station.ring
      rw [← hflush] at hsync
      exact .inSync dev' m' behind hsync
    | leftBehind dev m behind stands lt =>
      have hempty : s.station.ring.packets = [] := keeps rfl behind
      have hsame : (s.station.flushed crc32).manager = s.station.manager :=
        (Station.eq_of_rounds_empty (DynamicStorageManager.flushFromSram_rounds _ _) hempty).1
      rw [hempty, List.take_nil, List.append_nil]
      refine .leftBehind dev m behind ?_ lt
      show Stands crc32 q₀ l₀ (s.station.flushed crc32).manager dev packets m m
      rw [hsame]
      exact stands

/-- No step takes an acknowledged record back. -/
theorem acknowledged_next (s : CardStation) (action : CardAction) :
    ∃ more, ((machine crc32).next s action).acknowledged crc32 = s.acknowledged crc32 ++ more := by
  cases action with
  | push packet => exact ⟨[], (List.append_nil _).symm⟩
  | flush =>
    obtain ⟨taken, newCalls, effect⟩ : ∃ taken newCalls, Station.CallEffect crc32 2 s.station
        (s.station.flushed crc32) taken newCalls := s.station.callEffect_flushed
    refine ⟨confirmedRecords crc32 newCalls, ?_⟩
    show confirmedRecords crc32 (s.station.flushed crc32).calls = _
    rw [effect.calls, confirmedRecords, List.filterMap_append]
    rfl
  | restart =>
    refine ⟨[], ?_⟩
    show (s.step crc32 .restart).1.acknowledged crc32 = _
    rw [List.append_nil, CardStation.acknowledged, CardStation.acknowledged, Station.calls,
      Station.calls, step]
    cases hdevice : s.station.manager.device with
    | none => simp only [hdevice]
    | some dev => rfl

/-- An LBA that was written twice stays so. -/
theorem overwritten_final {s : CardStation}
    (overwritten : ¬ ((s.acknowledged crc32).map Prod.fst).Nodup) (actions : List CardAction) :
    ¬ ((((machine crc32).final s actions).acknowledged crc32).map Prod.fst).Nodup := by
  have hstep : ∀ (s : CardStation) (action : CardAction),
      ¬ ((s.acknowledged crc32).map Prod.fst).Nodup → True →
        ¬ ((((machine crc32).next s action).acknowledged crc32).map Prod.fst).Nodup := by
    intro s action hover _ hnodup
    obtain ⟨more, hmore⟩ : ∃ more, ((machine crc32).next s action).acknowledged crc32 =
        s.acknowledged crc32 ++ more := s.acknowledged_next action
    rw [hmore, List.map_append] at hnodup
    exact hover hnodup.of_append_left
  exact Machine.invariant hstep overwritten (fun _ _ => trivial)

/-- A record written by a station that left records behind overwrites the first of them. -/
theorem overwritten_flushed {s : CardStation} {dev : Recorder Card} {m : ℕ}
    (stands : Stands crc32 q₀ l₀ s.station.manager dev packets m m) (lt : m < packets.length)
    (container : 10 ≤ l₀) (queue : s.station.ring.packets ≠ []) :
    ¬ ((((machine crc32).next s .flush).acknowledged crc32).map Prod.fst).Nodup := by
  obtain ⟨packet, rest, hqueue⟩ := List.exists_cons_of_ne_nil queue
  obtain ⟨dev₁, hwritten⟩ : ∃ dev₁, BlockDevice.writeBlock dev s.station.manager.currentLba
      (recordBlock crc32 (s.station.manager.nextRecord packet)) = (.ok (), dev₁) := ⟨_, rfl⟩
  obtain ⟨dev', happended⟩ := appended_of_confirmed
    (stands.here.container container) hwritten
  -- The rest of the flush only adds to what the first record leaves.
  have hactive := happended.mode.trans stands.active
  obtain ⟨taken, newCalls, effect⟩ := Station.callEffect_of_rounds
    (DynamicStorageManager.flushUpTo_rounds 1 s.station.ring.pop.2 hactive)
  have hflush := DynamicStorageManager.flushFromSram_confirmed stands.active stands.device hqueue
    hwritten
  have hcalls : ((machine crc32).next s .flush).station.calls = dev'.calls ++ newCalls := by
    show Station.calls ⟨(s.station.manager.flushFromSram crc32 s.station.ring).1,
      (s.station.manager.flushFromSram crc32 s.station.ring).2⟩ = _
    rw [hflush, effect.calls, Station.calls, happended.device]
    rfl
  have hmem : s.station.manager.currentLba ∈ (confirmedRecords crc32 dev.calls).map Prod.fst := by
    rw [stands.logged.records, stands.here.lba]
    exact saturated32_mem_lbas lt
  intro hnodup
  rw [CardStation.acknowledged, hcalls, confirmedRecords, List.filterMap_append,
    ← confirmedRecords, happended.confirmed, List.map_append, List.map_append] at hnodup
  have hdisjoint := (List.nodup_append.mp hnodup.of_append_left).2.2
  exact hdisjoint _ hmem _ (List.mem_singleton_self _) rfl

/-- A station that just started is in step with an empty log. -/
theorem kept_start (crc32 : Checksum) (card : Card) :
    Kept crc32 (start crc32 card).station.manager.currentSequence.toNat
      (start crc32 card).station.manager.currentLba.toNat (start crc32 card) [] := by
  obtain ⟨hdevice, hmode, hseq, hlba⟩ := newWithDevice_card crc32 (⟨card, []⟩ : Recorder Card)
  have hhere : Behind (start crc32 card).station.manager.currentSequence.toNat
      (start crc32 card).station.manager.currentLba.toNat 0
      (start crc32 card).station.manager.currentSequence
      (start crc32 card).station.manager.currentLba :=
    ⟨(saturated64_toNat _).symm, (saturated32_toNat _).symm⟩
  exact .inSync ⟨card, []⟩ 0 rfl
    ⟨⟨hdevice, hmode, ⟨rfl, fun _ r hr => absurd hr List.not_mem_nil⟩, hhere, hhere,
      Nat.le_refl 0⟩, iff_of_true rfl rfl⟩

theorem container_start (crc32 : Checksum) (card : Card) :
    10 ≤ (start crc32 card).station.manager.currentLba.toNat :=
  UInt32.le_iff_toNat_le.mp
    (DynamicStorageManager.newWithDevice_spec crc32 (⟨card, []⟩ : Recorder Card)).2

/-- **Run lemma.** A run that never writes over what it left behind keeps it. -/
theorem kept_final {card : Card} {actions : List CardAction}
    (keeps : (machine crc32).Guarded KeepsBehind (start crc32 card) actions) :
    Kept crc32 (start crc32 card).station.manager.currentSequence.toNat
      (start crc32 card).station.manager.currentLba.toNat
      ((machine crc32).final (start crc32 card) actions)
      ((machine crc32).outputs (start crc32 card) actions) :=
  Machine.history_invariant_nil
    (fun _ _ _ hkept hkeeps => hkept.next (container_start crc32 card) hkeeps)
    (kept_start crc32 card) keeps

/-- A run that writes over what it left behind ends with an LBA written twice. -/
theorem overwritten_of_unguarded {card : Card} {actions : List CardAction}
    (careless : ¬ (machine crc32).Guarded KeepsBehind (start crc32 card) actions) :
    ¬ ((((machine crc32).final (start crc32 card) actions).acknowledged crc32).map
      Prod.fst).Nodup := by
  obtain ⟨before, action, after, rfl, hbefore, haction⟩ := Machine.exists_first_unguarded careless
  rw [KeepsBehind, Classical.not_imp, Classical.not_imp] at haction
  obtain ⟨rfl, hbehind, hqueue⟩ := haction
  rw [Machine.final_append, Machine.final_cons]
  -- Up to the first such flush the station has kept what it left behind.
  cases kept_final hbefore with
  | inSync dev m behind sync => exact absurd (behind.symm.trans hbehind) Bool.false_ne_true
  | leftBehind dev m behind stands lt =>
    exact overwritten_final
      (overwritten_flushed stands lt (container_start crc32 card) hqueue) after

/-- **Acknowledged records.** On any card, a run of pushes, flushes and restarts keeps every
acknowledged record iff no flush writes a record after a restart that left records behind,
and the position it starts at has numbers for all packets that it writes. -/
theorem records_survive_iff (crc32 : Checksum) (card : Card) (actions : List CardAction) :
    RecordsSurvive crc32 ((machine crc32).final (start crc32 card) actions) ↔
      (machine crc32).Guarded KeepsBehind (start crc32 card) actions ∧
        Fits (start crc32 card).station.manager.currentSequence.toNat
          (start crc32 card).station.manager.currentLba.toNat
          ((machine crc32).outputs (start crc32 card) actions) := by
  have hq := (start crc32 card).station.manager.currentSequence.toNat_lt
  have hl := (start crc32 card).station.manager.currentLba.toNat_lt
  constructor
  · intro survive
    have keeps : (machine crc32).Guarded KeepsBehind (start crc32 card) actions := by
      by_contra careless
      exact overwritten_of_unguarded careless survive.notOverwritten
    exact ⟨keeps, ((kept_final keeps).survive_iff hq hl).mp survive⟩
  · rintro ⟨keeps, fits⟩
    exact ((kept_final keeps).survive_iff hq hl).mpr fits

/-- A restart before any record, and one behind the last. -/
def quietRestarts : List CardAction :=
  [.restart, .push (Station.plainPacket 1), .push (Station.plainPacket 2), .flush, .restart,
    .restart, .flush]

/-- A record, a restart, and another record. -/
def restartBetween : List CardAction :=
  [.push (Station.plainPacket 1), .flush, .restart, .push (Station.plainPacket 2), .flush]

theorem records_survive_quietRestarts :
    RecordsSurvive crc32Ieee
      ((machine crc32Ieee).final (start crc32Ieee .blank) quietRestarts) :=
  (records_survive_iff crc32Ieee .blank quietRestarts).mpr
    ⟨by decide +kernel, by decide +kernel⟩

/-- The second record takes the LBA of the first. -/
theorem not_records_survive_restartBetween :
    ¬ RecordsSurvive crc32Ieee
      ((machine crc32Ieee).final (start crc32Ieee .blank) restartBetween) :=
  fun survive => overwritten_of_unguarded (by decide +kernel) survive.notOverwritten

end CardStation

end Gibberish.Storage
