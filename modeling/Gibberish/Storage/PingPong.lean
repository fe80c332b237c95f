/-
# Checkpoints on a card that fails

Each write may succeed, fail with an error, or be cut by a power loss; a write that is
cut, and a failed one perhaps, leaves its sector unreadable as a checkpoint. The two
checkpoint sectors take turns by sequence number, so a checkpoint never goes where the
newest one is as long as it is the sixteenth record behind it. A manager passes over a
checkpoint that failed. Its next one then goes where the newest one is.
-/

import Gibberish.Storage.Recovery

set_option autoImplicit false

namespace Gibberish.Storage

open Gibberish.Foundation Gibberish.Protocol

/-- A sector's content that is no checkpoint. -/
structure Garbage (crc32 : Checksum) where
  block : Bytes sectorSize
  undecodable : checkpointOf crc32 block = none

/-- How a write ends. A failed one may leave the sector as it was. -/
inductive WriteOutcome (crc32 : Checksum) where
  | done
  | failed (left : Option (Garbage crc32))
  | cut (left : Garbage crc32)

/-- A moment at which a sector is written: the card before, what is written where, and
the sequence of the last checkpoint that was written successfully. -/
structure Moment where
  before : UInt32 → Bytes sectorSize
  lba : UInt32
  block : Bytes sectorSize
  newest : Option UInt64

/-- A card with the outcomes of the coming writes, and the moments so far. -/
structure FaultyCard (crc32 : Checksum) where
  sectors : UInt32 → Bytes sectorSize
  powered : Bool
  pending : List (WriteOutcome crc32)
  newest : Option UInt64
  moments : List Moment

namespace FaultyCard

variable {crc32 : Checksum}

/-- The moment of a write. -/
def moment (card : FaultyCard crc32) (lba : UInt32) (block : Bytes sectorSize) : Moment :=
  ⟨card.sectors, lba, block, card.newest⟩

/-- The card after a write began. -/
def began (card : FaultyCard crc32) (lba : UInt32) (block : Bytes sectorSize) :
    FaultyCard crc32 :=
  { card with pending := card.pending.tail, moments := card.moments ++ [card.moment lba block] }

/-- The card with a sector's content replaced. -/
def put (card : FaultyCard crc32) (lba : UInt32) (block : Bytes sectorSize) : FaultyCard crc32 :=
  { card with sectors := Function.update card.sectors lba block }

/-- The sequence of the last checkpoint, once this block is written: what is written to a
checkpoint sector is a checkpoint. -/
def newestWith (card : FaultyCard crc32) (lba : UInt32) (block : Bytes sectorSize) :
    Option UInt64 :=
  if lba = 1 ∨ lba = 2 then some (u64FromBeBytes (block.slice 4 8)) else card.newest

/-- The next outcome decides; without power nothing is written. -/
def write (card : FaultyCard crc32) (lba : UInt32) (block : Bytes sectorSize) :
    Except StorageError Unit × FaultyCard crc32 :=
  if card.powered then
    match card.pending.headD .done with
    | .done =>
      (.ok (), { (card.began lba block).put lba block with newest := card.newestWith lba block })
    | .failed none => (.error .deviceError, card.began lba block)
    | .failed (some left) => (.error .deviceError, (card.began lba block).put lba left.block)
    | .cut left =>
      (.error .deviceError, { (card.began lba block).put lba left.block with powered := false })
  else (.error .deviceError, card)

end FaultyCard

instance (crc32 : Checksum) : BlockDevice (FaultyCard crc32) where
  readBlock card lba := (.ok (card.sectors lba), card)
  writeBlock := FaultyCard.write

/-- Once a checkpoint has been written, some sector holds one, and recovery resumes no
earlier than at the last one written. -/
def SafeCard (crc32 : Checksum) (sectors : UInt32 → Bytes sectorSize) (newest : Option UInt64) :
    Prop :=
  ∀ w, newest = some w →
    ((checkpointOf crc32 (sectors 1)).isSome ∨ (checkpointOf crc32 (sectors 2)).isSome) ∧
      w ≤ resumeSequence crc32 sectors

/-- Safe before a write, and while the sector is being written. -/
def SafeMoment (crc32 : Checksum) (m : Moment) : Prop :=
  SafeCard crc32 m.before m.newest ∧
    ∀ left : Garbage crc32, SafeCard crc32 (Function.update m.before m.lba left.block) m.newest

/-- A checkpoint that is written is the sixteenth record behind the last one written. -/
def Alternates (crc32 : Checksum) (m : Moment) : Prop :=
  ∀ ckpt, checkpointOf crc32 m.block = some ckpt → ∀ w, m.newest = some w →
    ckpt.sequence.toNat = w.toNat + 16

/-! ### The two sectors -/

/-- The sector a checkpoint of this sequence goes to. -/
def turn (sequence : UInt64) : UInt32 := if sequence % 32 = 0 then 1 else 2

/-- The other sector. -/
def offTurn (sequence : UInt64) : UInt32 := if sequence % 32 = 0 then 2 else 1

theorem mod_sixteen_iff (x : UInt64) : x % 16 = 0 ↔ x.toNat % 16 = 0 := by
  rw [← UInt64.toNat_inj, UInt64.toNat_mod]
  rfl

theorem mod_thirtyTwo_iff (x : UInt64) : x % 32 = 0 ↔ x.toNat % 32 = 0 := by
  rw [← UInt64.toNat_inj, UInt64.toNat_mod]
  rfl

theorem turn_ne_offTurn (sequence : UInt64) : turn sequence ≠ offTurn sequence := by
  rw [turn, offTurn]
  split
  · decide
  · decide

variable {crc32 : Checksum}

/-- The newer of the two counts, whichever sector it is in. -/
theorem resumeSequence_eq {sectors : UInt32 → Bytes sectorSize} {w : UInt64}
    {ckpt : CheckpointSector} (here : checkpointOf crc32 (sectors (turn w)) = some ckpt)
    (sequence : ckpt.sequence = w)
    (older : ∀ c, checkpointOf crc32 (sectors (offTurn w)) = some c → c.sequence < w) :
    resumeSequence crc32 sectors = w := by
  subst sequence
  by_cases hturn : ckpt.sequence % 32 = 0
  · rw [turn, if_pos hturn] at here
    rw [offTurn, if_pos hturn] at older
    rw [resumeSequence, here]
    cases hother : checkpointOf crc32 (sectors 2) with
    | none => rfl
    | some c =>
      have hge : ckpt.sequence ≥ c.sequence := UInt64.le_of_lt (older c hother)
      simp only [DynamicStorageManager.resumeFrom, if_pos hge]
  · rw [turn, if_neg hturn] at here
    rw [offTurn, if_neg hturn] at older
    rw [resumeSequence, here]
    cases hother : checkpointOf crc32 (sectors 1) with
    | none => rfl
    | some c =>
      have hlt : ¬ c.sequence ≥ ckpt.sequence := UInt64.not_le.mpr (older c hother)
      simp only [DynamicStorageManager.resumeFrom, if_neg hlt]

/-- The newest checkpoint is in the sector of its turn, and the other sector holds none as
new; without a newest one, no sector holds any. -/
structure Paired (crc32 : Checksum) (sectors : UInt32 → Bytes sectorSize)
    (newest : Option UInt64) : Prop where
  blank : newest = none →
    checkpointOf crc32 (sectors 1) = none ∧ checkpointOf crc32 (sectors 2) = none
  aligned : ∀ w, newest = some w → w.toNat % 16 = 0
  here : ∀ w, newest = some w →
    ∃ ckpt, checkpointOf crc32 (sectors (turn w)) = some ckpt ∧ ckpt.sequence = w
  older : ∀ w, newest = some w →
    ∀ c, checkpointOf crc32 (sectors (offTurn w)) = some c → c.sequence < w

theorem turn_eq (sequence : UInt64) : turn sequence = 1 ∨ turn sequence = 2 := by
  rw [turn]
  split
  · exact Or.inl rfl
  · exact Or.inr rfl

theorem offTurn_eq (sequence : UInt64) : offTurn sequence = 1 ∨ offTurn sequence = 2 := by
  rw [offTurn]
  split
  · exact Or.inr rfl
  · exact Or.inl rfl

theorem Paired.resume {sectors : UInt32 → Bytes sectorSize} {newest : Option UInt64}
    (paired : Paired crc32 sectors newest) {w : UInt64} (h : newest = some w) :
    resumeSequence crc32 sectors = w := by
  obtain ⟨ckpt, hhere, hsequence⟩ := paired.here w h
  exact resumeSequence_eq hhere hsequence (paired.older w h)

/-- A paired card is safe. -/
theorem Paired.safe {sectors : UInt32 → Bytes sectorSize} {newest : Option UInt64}
    (paired : Paired crc32 sectors newest) : SafeCard crc32 sectors newest := by
  intro w hw
  obtain ⟨ckpt, hhere, -⟩ := paired.here w hw
  constructor
  · rcases turn_eq w with h | h
    · exact Or.inl (h ▸ hhere ▸ rfl)
    · exact Or.inr (h ▸ hhere ▸ rfl)
  · rw [paired.resume hw]
    exact UInt64.le_refl w

/-- Sectors that are no checkpoint sectors do not count. -/
theorem Paired.update_container {sectors : UInt32 → Bytes sectorSize} {newest : Option UInt64}
    (paired : Paired crc32 sectors newest) {lba : UInt32} (container : 10 ≤ lba)
    (block : Bytes sectorSize) : Paired crc32 (Function.update sectors lba block) newest := by
  have hkeep : ∀ lba', lba' = 1 ∨ lba' = 2 →
      Function.update sectors lba block lba' = sectors lba' := by
    rintro lba' (rfl | rfl)
    · exact Function.update_of_ne (by rintro rfl; exact absurd container (by decide)) _ _
    · exact Function.update_of_ne (by rintro rfl; exact absurd container (by decide)) _ _
  refine ⟨?_, paired.aligned, ?_, ?_⟩
  · rw [hkeep 1 (Or.inl rfl), hkeep 2 (Or.inr rfl)]
    exact paired.blank
  · intro w hw
    rw [hkeep _ (turn_eq w)]
    exact paired.here w hw
  · intro w hw
    rw [hkeep _ (offTurn_eq w)]
    exact paired.older w hw

/-- Garbage in a sector that does not hold the newest checkpoint does no harm. -/
theorem Paired.update_garbage {sectors : UInt32 → Bytes sectorSize} {newest : Option UInt64}
    (paired : Paired crc32 sectors newest) {lba : UInt32} (left : Garbage crc32)
    (hlba : ∀ w, newest = some w → lba = offTurn w) :
    Paired crc32 (Function.update sectors lba left.block) newest := by
  have hnone : ∀ lba', checkpointOf crc32 (sectors lba') = none →
      checkpointOf crc32 (Function.update sectors lba left.block lba') = none := by
    intro lba' h
    by_cases heq : lba' = lba
    · rw [heq, Function.update_self, left.undecodable]
    · rw [Function.update_of_ne heq, h]
  refine ⟨fun hnewest => ?_, paired.aligned, fun w hw => ?_, fun w hw => ?_⟩
  · exact ⟨hnone 1 (paired.blank hnewest).1, hnone 2 (paired.blank hnewest).2⟩
  · rw [hlba w hw, Function.update_of_ne (turn_ne_offTurn w)]
    exact paired.here w hw
  · rw [hlba w hw, Function.update_self, left.undecodable]
    rintro c ⟨⟩

/-- The sectors of two checkpoints sixteen records apart are different ones. -/
theorem turn_of_next {w q : UInt64} (aligned : w.toNat % 16 = 0) (next : q.toNat = w.toNat + 16) :
    turn q = offTurn w ∧ offTurn q = turn w := by
  simp only [turn, offTurn, mod_thirtyTwo_iff]
  by_cases h : w.toNat % 32 = 0
  · have hq : ¬ q.toNat % 32 = 0 := by omega
    simp only [if_pos h, if_neg hq, and_self]
  · have hq : q.toNat % 32 = 0 := by omega
    simp only [if_neg h, if_pos hq, and_self]

/-- A checkpoint in its turn becomes the newest. -/
theorem Paired.update_checkpoint {sectors : UInt32 → Bytes sectorSize} {newest : Option UInt64}
    (paired : Paired crc32 sectors newest) {ckpt : CheckpointSector}
    (aligned : ckpt.sequence.toNat % 16 = 0)
    (next : ∀ w, newest = some w → ckpt.sequence.toNat = w.toNat + 16) :
    Paired crc32 (Function.update sectors (turn ckpt.sequence) (ckpt.serialize crc32))
      (some ckpt.sequence) := by
  refine ⟨(fun h => nomatch h), ?_, ?_, ?_⟩
  · rintro w ⟨⟩
    exact aligned
  · rintro w ⟨⟩
    exact ⟨ckpt, by rw [Function.update_self, checkpointOf_serialize], rfl⟩
  · rintro w ⟨⟩ c hc
    rw [Function.update_of_ne (turn_ne_offTurn _).symm] at hc
    cases hnewest : newest with
    | none =>
      obtain ⟨h1, h2⟩ := paired.blank hnewest
      rcases offTurn_eq ckpt.sequence with h | h
      · exact absurd (h1.symm.trans (h ▸ hc)) (by simp)
      · exact absurd (h2.symm.trans (h ▸ hc)) (by simp)
    | some w =>
      -- The other sector is the one of the checkpoint before.
      obtain ⟨ckpt', hhere, hsequence⟩ := paired.here w hnewest
      rw [(turn_of_next (paired.aligned w hnewest) (next w hnewest)).2, hhere] at hc
      obtain rfl := Option.some.inj hc
      apply UInt64.lt_iff_toNat_lt.mpr
      rw [hsequence, next w hnewest]
      omega

/-- Garbage where the newest checkpoint is makes the card unsafe. -/
theorem Paired.not_safe_update {sectors : UInt32 → Bytes sectorSize} {newest : Option UInt64}
    (paired : Paired crc32 sectors newest) {w : UInt64} (hw : newest = some w)
    (left : Garbage crc32) :
    ¬ SafeCard crc32 (Function.update sectors (turn w) left.block) newest := by
  intro safe
  obtain ⟨hsome, hle⟩ := safe w hw
  have hother := paired.older w hw
  have h12 : (1 : UInt32) ≠ 2 := by decide
  -- What is left is the other sector, which holds nothing as new.
  by_cases hturn : w % 32 = 0
  · rw [offTurn, if_pos hturn] at hother
    rw [turn, if_pos hturn, resumeSequence, Function.update_self,
      Function.update_of_ne h12.symm, left.undecodable] at hle
    rw [turn, if_pos hturn, Function.update_self, Function.update_of_ne h12.symm,
      left.undecodable] at hsome
    cases hc : checkpointOf crc32 (sectors 2) with
    | none => simp [hc] at hsome
    | some c =>
      rw [hc] at hle
      exact absurd (hother c hc) (UInt64.not_lt.mpr hle)
  · rw [offTurn, if_neg hturn] at hother
    rw [turn, if_neg hturn, resumeSequence, Function.update_self,
      Function.update_of_ne h12, left.undecodable] at hle
    rw [turn, if_neg hturn, Function.update_self, Function.update_of_ne h12,
      left.undecodable] at hsome
    cases hc : checkpointOf crc32 (sectors 1) with
    | none => simp [hc] at hsome
    | some c =>
      rw [hc] at hle
      exact absurd (hother c hc) (UInt64.not_lt.mpr hle)

/-! ### One write -/

/-- How a write ends: nothing is written without power, or the block is in the sector, or
an error leaves the sector as it was or garbage in it. -/
inductive Wrote (card : FaultyCard crc32) (lba : UInt32) (block : Bytes sectorSize) :
    Except StorageError Unit → FaultyCard crc32 → Prop where
  | unpowered (off : card.powered = false) : Wrote card lba block (.error .deviceError) card
  | done (card' : FaultyCard crc32) (on : card'.powered = true)
      (sectors : card'.sectors = Function.update card.sectors lba block)
      (newest : card'.newest = card.newestWith lba block)
      (moments : card'.moments = card.moments ++ [card.moment lba block]) :
      Wrote card lba block (.ok ()) card'
  | spoiled (card' : FaultyCard crc32)
      (sectors : card'.sectors = card.sectors ∨
        ∃ left : Garbage crc32, card'.sectors = Function.update card.sectors lba left.block)
      (newest : card'.newest = card.newest)
      (moments : card'.moments = card.moments ++ [card.moment lba block]) :
      Wrote card lba block (.error .deviceError) card'

theorem wrote_write (card : FaultyCard crc32) (lba : UInt32) (block : Bytes sectorSize) :
    Wrote card lba block (card.write lba block).1 (card.write lba block).2 := by
  cases hpowered : card.powered with
  | false =>
    rw [FaultyCard.write, hpowered]
    exact .unpowered hpowered
  | true =>
    rw [FaultyCard.write, hpowered, if_pos rfl]
    cases card.pending.headD .done with
    | done => exact .done _ hpowered rfl rfl rfl
    | failed left =>
      cases left with
      | none => exact .spoiled _ (Or.inl rfl) rfl rfl
      | some left => exact .spoiled _ (Or.inr ⟨left, rfl⟩) rfl rfl
    | cut left => exact .spoiled _ (Or.inr ⟨left, rfl⟩) rfl rfl

/-- The same for the device's `write_block`. -/
theorem wrote_of_writeBlock {card card' : FaultyCard crc32} {lba : UInt32}
    {block : Bytes sectorSize} {answer : Except StorageError Unit}
    (h : BlockDevice.writeBlock card lba block = (answer, card')) :
    Wrote card lba block answer card' := by
  have hwrote := wrote_write card lba block
  rwa [show card.write lba block = (answer, card') from h] at hwrote

/-- Moments are not forgotten. -/
theorem Wrote.moments_subset {card card' : FaultyCard crc32} {lba : UInt32}
    {block : Bytes sectorSize} {answer : Except StorageError Unit}
    (wrote : Wrote card lba block answer card') : ∀ m ∈ card.moments, m ∈ card'.moments := by
  intro m hm
  cases wrote with
  | unpowered off => exact hm
  | done card' on sectors newest moments =>
    rw [moments]
    exact List.mem_append_left _ hm
  | spoiled card' sectors newest moments =>
    rw [moments]
    exact List.mem_append_left _ hm

theorem newestWith_container (card : FaultyCard crc32) {lba : UInt32} (container : 10 ≤ lba)
    (block : Bytes sectorSize) : card.newestWith lba block = card.newest := by
  have hlba : ¬ (lba = 1 ∨ lba = 2) := by
    rintro (rfl | rfl)
    · exact absurd container (by decide)
    · exact absurd container (by decide)
  rw [FaultyCard.newestWith, if_neg hlba]

theorem newestWith_checkpoint (card : FaultyCard crc32) (ckpt : CheckpointSector) :
    card.newestWith (turn ckpt.sequence) (ckpt.serialize crc32) = some ckpt.sequence := by
  rw [FaultyCard.newestWith, if_pos (turn_eq _), CheckpointSector.sequence_serialize,
    u64FromBeBytes_toBeBytes]

/-- All moments so far were safe, and no checkpoint left its turn. -/
def Blameless (crc32 : Checksum) (moments : List Moment) : Prop :=
  ∀ m ∈ moments, Alternates crc32 m ∧ SafeMoment crc32 m

theorem Blameless.snoc {moments : List Moment} (blameless : Blameless crc32 moments) {m : Moment}
    (alternates : Alternates crc32 m) (safe : SafeMoment crc32 m) :
    Blameless crc32 (moments ++ [m]) := by
  intro m' hm'
  rcases List.mem_append.mp hm' with hm' | hm'
  · exact blameless m' hm'
  · obtain rfl := List.mem_singleton.mp hm'
    exact ⟨alternates, safe⟩

/-- **Record write.** It touches neither checkpoint, however it ends. -/
theorem Wrote.record {card card' : FaultyCard crc32} {lba : UInt32} {record : ChunkRecord}
    {answer : Except StorageError Unit}
    (wrote : Wrote card lba (recordBlock crc32 record) answer card') (container : 10 ≤ lba)
    (paired : Paired crc32 card.sectors card.newest) (blameless : Blameless crc32 card.moments) :
    card'.newest = card.newest ∧ Paired crc32 card'.sectors card'.newest ∧
      Blameless crc32 card'.moments := by
  have halternates : Alternates crc32 (card.moment lba (recordBlock crc32 record)) := by
    intro ckpt hckpt
    exact absurd ((checkpointOf_recordBlock record).symm.trans hckpt) (by simp)
  have hsafe : SafeMoment crc32 (card.moment lba (recordBlock crc32 record)) :=
    ⟨paired.safe, fun left => (paired.update_container container left.block).safe⟩
  cases wrote with
  | unpowered off => exact ⟨rfl, paired, blameless⟩
  | done card' on sectors newest moments =>
    rw [newestWith_container _ container] at newest
    rw [sectors, newest, moments]
    exact ⟨rfl, paired.update_container container _, blameless.snoc halternates hsafe⟩
  | spoiled card' sectors newest moments =>
    rw [newest, moments]
    refine ⟨rfl, ?_, blameless.snoc halternates hsafe⟩
    rcases sectors with h | ⟨left, h⟩
    · rw [h]
      exact paired
    · rw [h]
      exact paired.update_container container _

/-- **Checkpoint write, in turn.** The newest checkpoint stays, or this one takes over. -/
theorem Wrote.checkpoint {card card' : FaultyCard crc32} {ckpt : CheckpointSector}
    {answer : Except StorageError Unit}
    (wrote : Wrote card (turn ckpt.sequence) (ckpt.serialize crc32) answer card')
    (paired : Paired crc32 card.sectors card.newest) (blameless : Blameless crc32 card.moments)
    (aligned : ckpt.sequence.toNat % 16 = 0)
    (next : ∀ w, card.newest = some w → ckpt.sequence.toNat = w.toNat + 16) :
    (card'.newest = card.newest ∨ card'.newest = some ckpt.sequence) ∧
      Paired crc32 card'.sectors card'.newest ∧ Blameless crc32 card'.moments := by
  have hturn : ∀ w, card.newest = some w → turn ckpt.sequence = offTurn w := fun w hw =>
    (turn_of_next (paired.aligned w hw) (next w hw)).1
  have halternates : Alternates crc32 (card.moment (turn ckpt.sequence) (ckpt.serialize crc32)) := by
    intro ckpt' hckpt' w hw
    obtain rfl := Option.some.inj ((checkpointOf_serialize ckpt).symm.trans hckpt')
    exact next w hw
  have hsafe : SafeMoment crc32 (card.moment (turn ckpt.sequence) (ckpt.serialize crc32)) :=
    ⟨paired.safe, fun left => (paired.update_garbage left hturn).safe⟩
  cases wrote with
  | unpowered off => exact ⟨Or.inl rfl, paired, blameless⟩
  | done card' on sectors newest moments =>
    rw [newestWith_checkpoint] at newest
    rw [sectors, newest, moments]
    exact ⟨Or.inr rfl, paired.update_checkpoint aligned next, blameless.snoc halternates hsafe⟩
  | spoiled card' sectors newest moments =>
    rw [newest, moments]
    refine ⟨Or.inl rfl, ?_, blameless.snoc halternates hsafe⟩
    rcases sectors with h | ⟨left, h⟩
    · rw [h]
      exact paired
    · rw [h]
      exact paired.update_garbage left hturn

/-- An empty sector is garbage. -/
def Garbage.empty (crc32 : Checksum) : Garbage crc32 where
  block := .zero sectorSize
  undecodable := checkpointOf_eq_none (by decide)

/-- **Checkpoint write, out of turn.** It goes where the newest one is. -/
theorem not_safeMoment_of_skipped {card : FaultyCard crc32} {ckpt : CheckpointSector} {w : UInt64}
    (paired : Paired crc32 card.sectors card.newest) (hw : card.newest = some w)
    (skipped : ckpt.sequence.toNat = w.toNat + 32) :
    ¬ Alternates crc32 (card.moment (turn ckpt.sequence) (ckpt.serialize crc32)) ∧
      ¬ SafeMoment crc32 (card.moment (turn ckpt.sequence) (ckpt.serialize crc32)) := by
  have hturn : turn ckpt.sequence = turn w := by
    simp only [turn, mod_thirtyTwo_iff, skipped, Nat.add_mod_right]
  constructor
  · intro alternates
    have h := alternates ckpt (checkpointOf_serialize ckpt) w hw
    omega
  · rintro ⟨-, safe⟩
    have h := safe (Garbage.empty crc32)
    rw [FaultyCard.moment, hturn] at h
    exact paired.not_safe_update hw _ h

/-! ### Runs -/

/-- The manager and the ring of a dongle with such a card. -/
structure FaultyStation (crc32 : Checksum) where
  manager : DynamicStorageManager (FaultyCard crc32)
  ring : SramRingBuffer

inductive FaultyAction (crc32 : Checksum) where
  | push (packet : MeshPacket)
  | flush (outcomes : List (WriteOutcome crc32))
  | restart

namespace FaultyStation

/-- After a cut, nothing happens before a restart. What the interrupted call would still
have done in memory is lost, and it does not reach the card. -/
def step (s : FaultyStation crc32) (action : FaultyAction crc32) : FaultyStation crc32 :=
  match s.manager.device with
  | none => s
  | some card =>
    match action with
    | .push packet => if card.powered then { s with ring := (s.ring.push packet).2 } else s
    | .flush outcomes =>
      if card.powered then
        let manager := { s.manager with device := some { card with pending := outcomes } }
        let (manager, ring) := manager.flushFromSram crc32 s.ring
        ⟨manager, ring⟩
      else s
    | .restart => ⟨.newWithDevice crc32 { card with powered := true }, .new⟩

def machine (crc32 : Checksum) : Machine (FaultyStation crc32) (FaultyAction crc32) Empty :=
  ⟨fun s action => (s.step action, [])⟩

/-- A new manager on a card. -/
def start (crc32 : Checksum) (sectors : UInt32 → Bytes sectorSize) : FaultyStation crc32 :=
  ⟨.newWithDevice crc32 ⟨sectors, true, [], none, []⟩, .new⟩

/-- The moments so far. -/
def moments (s : FaultyStation crc32) : List Moment :=
  (s.manager.device.map FaultyCard.moments).getD []

/-- The card as it is. -/
def Safe (s : FaultyStation crc32) : Prop :=
  ∀ card, s.manager.device = some card → SafeCard crc32 card.sectors card.newest

/-- A restart resumes where the card says. -/
theorem newWithDevice_faultyCard (card : FaultyCard crc32) :
    (DynamicStorageManager.newWithDevice crc32 card).device = some card ∧
      (DynamicStorageManager.newWithDevice crc32 card).currentSequence =
        resumeSequence crc32 card.sectors :=
  ⟨rfl, rfl⟩

/-! ### What holds of the manager and its card -/

/-- Nothing went wrong so far: the card is paired, and the manager is less than two
checkpoints behind the newest one. -/
structure Tracked (sm : DynamicStorageManager (FaultyCard crc32)) (card : FaultyCard crc32) :
    Prop where
  device : sm.device = some card
  container : 10 ≤ sm.currentLba
  paired : Paired crc32 card.sectors card.newest
  near : ∀ w, card.newest = some w →
    w.toNat ≤ sm.currentSequence.toNat ∧ sm.currentSequence.toNat < w.toNat + 32
  blameless : Blameless crc32 card.moments

/-- Either nothing went wrong, or there was a checkpoint out of its turn, and that moment
was not safe. -/
inductive Account (sm : DynamicStorageManager (FaultyCard crc32)) : Prop where
  | tracked (card : FaultyCard crc32) (tracked : Tracked sm card)
  | spoiled (card : FaultyCard crc32) (device : sm.device = some card) (m : Moment)
      (mem : m ∈ card.moments) (outOfTurn : ¬ Alternates crc32 m) (unsafe_ : ¬ SafeMoment crc32 m)

/-- A checkpoint that is due keeps the account. -/
theorem account_checkpoint {sm : DynamicStorageManager (FaultyCard crc32)}
    {card : FaultyCard crc32} (device : sm.device = some card) (on : card.powered = true)
    (container : 10 ≤ sm.currentLba) (paired : Paired crc32 card.sectors card.newest)
    (blameless : Blameless crc32 card.moments) (due : sm.currentSequence % 16 = 0)
    (near : ∀ w, card.newest = some w →
      w.toNat < sm.currentSequence.toNat ∧ sm.currentSequence.toNat ≤ w.toNat + 32) :
    Account (sm.checkpointIfDue crc32) := by
  obtain ⟨answer, card', hwritten⟩ : ∃ answer card', BlockDevice.writeBlock card sm.checkpointLba
      (sm.checkpoint.serialize crc32) = (answer, card') := ⟨_, _, rfl⟩
  have hsm : sm.checkpointIfDue crc32 = { sm with device := some card' } := by
    simp only [DynamicStorageManager.checkpointIfDue, if_pos due, device, hwritten]
  have hwrote : Wrote card (turn sm.checkpoint.sequence) (sm.checkpoint.serialize crc32) answer
      card' := wrote_of_writeBlock hwritten
  have haligned : sm.currentSequence.toNat % 16 = 0 := (mod_sixteen_iff _).mp due
  rw [hsm]
  by_cases hnext : ∀ w, card.newest = some w → sm.currentSequence.toNat = w.toNat + 16
  · obtain ⟨hnewest, hpaired, hblameless⟩ := hwrote.checkpoint paired blameless haligned hnext
    refine .tracked card' ⟨rfl, container, hpaired, fun w hw => ?_, hblameless⟩
    show w.toNat ≤ sm.currentSequence.toNat ∧ sm.currentSequence.toNat < w.toNat + 32
    rcases hnewest with h | h
    · have hsequence := hnext w (h ▸ hw)
      omega
    · obtain rfl : sm.currentSequence = w := Option.some.inj (h.symm.trans hw)
      omega
  -- The checkpoint before was passed over, so this one is two behind the newest.
  · obtain ⟨w, hw, hne⟩ : ∃ w, card.newest = some w ∧
        sm.currentSequence.toNat ≠ w.toNat + 16 := by
      by_contra hall
      exact hnext fun w hw => by_contra fun hne => hall ⟨w, hw, hne⟩
    have hwaligned := paired.aligned w hw
    have hnear := near w hw
    have hskipped : sm.checkpoint.sequence.toNat = w.toNat + 32 := by
      show sm.currentSequence.toNat = w.toNat + 32
      omega
    obtain ⟨hout, hunsafe⟩ := not_safeMoment_of_skipped paired hw hskipped
    refine .spoiled card' rfl _ ?_ hout hunsafe
    cases hwrote with
    | unpowered off => exact absurd (on.symm.trans off) (by decide)
    | done card' on sectors newest moments =>
      rw [moments]
      exact List.mem_append_right _ (List.mem_singleton_self _)
    | spoiled card' sectors newest moments =>
      rw [moments]
      exact List.mem_append_right _ (List.mem_singleton_self _)

theorem container_saturatingSucc32 {lba : UInt32} (h : 10 ≤ lba) : 10 ≤ saturatingSucc32 lba := by
  by_cases hmax : lba = 0xFFFFFFFF
  · rw [saturatingSucc32, if_pos hmax]
    exact h
  · apply UInt32.le_iff_toNat_le.mpr
    rw [Station.toNat_saturatingSucc32 hmax]
    exact (UInt32.le_iff_toNat_le.mp h).trans (Nat.le_succ _)

/-- No round forgets a moment. -/
theorem moments_of_round {sm sm' : DynamicStorageManager (FaultyCard crc32)}
    {ring ring' : SramRingBuffer} {card : FaultyCard crc32} (device : sm.device = some card)
    (round : DynamicStorageManager.Round crc32 sm ring sm' ring') :
    ∃ card', sm'.device = some card' ∧ ∀ m ∈ card.moments, m ∈ card'.moments := by
  cases round with
  | idle => exact ⟨card, device, fun m hm => hm⟩
  | refused card₀ card' packet rest e active device' queue written =>
    obtain rfl := Option.some.inj (device.symm.trans device')
    exact ⟨card', rfl, (wrote_of_writeBlock written).moments_subset⟩
  | confirmed card₀ card₁ packet rest active device' queue written =>
    obtain rfl := Option.some.inj (device.symm.trans device')
    have hfirst := (wrote_of_writeBlock written).moments_subset
    by_cases hdue : (sm.advance card₁).currentSequence % 16 = 0
    · obtain ⟨answer, card', hckpt⟩ : ∃ answer card', BlockDevice.writeBlock card₁
          (sm.advance card₁).checkpointLba ((sm.advance card₁).checkpoint.serialize crc32) =
            (answer, card') := ⟨_, _, rfl⟩
      refine ⟨card', ?_, fun m hm => (wrote_of_writeBlock hckpt).moments_subset m (hfirst m hm)⟩
      have hdevice : (sm.advance card₁).device = some card₁ := rfl
      simp only [DynamicStorageManager.checkpointIfDue, if_pos hdue, hdevice, hckpt]
    · refine ⟨card₁, ?_, hfirst⟩
      rw [DynamicStorageManager.checkpointIfDue, if_neg hdue]
      rfl

/-- A confirmed record keeps the account: it advances the sequence by one, to its checkpoint
if one is due. -/
theorem Tracked.confirmed {sm : DynamicStorageManager (FaultyCard crc32)}
    {card card' : FaultyCard crc32} (tracked : Tracked sm card) {packet : MeshPacket}
    (written : BlockDevice.writeBlock card sm.currentLba
      (recordBlock crc32 (sm.nextRecord packet)) = (.ok (), card')) :
    Account ((sm.advance card').checkpointIfDue crc32) := by
  obtain ⟨-, container, paired, near, blameless⟩ := tracked
  have hwrote := wrote_of_writeBlock written
  obtain ⟨hnewest, hpaired, hblameless⟩ := hwrote.record container paired blameless
  have hon : card'.powered = true := by
    cases hwrote with
    | done card' on sectors newest moments => exact on
  have hcontainer : 10 ≤ (sm.advance card').currentLba := container_saturatingSucc32 container
  by_cases hmax : sm.currentSequence = 0xFFFFFFFFFFFFFFFF
  -- The sequence stays at its end, which is no checkpoint.
  · have hsame : (sm.advance card').currentSequence = sm.currentSequence := if_pos hmax
    have hnot : ¬ (sm.advance card').currentSequence % 16 = 0 := by
      rw [hsame, hmax]
      decide
    rw [DynamicStorageManager.checkpointIfDue, if_neg hnot]
    refine .tracked card' ⟨rfl, hcontainer, hpaired, ?_, hblameless⟩
    rw [hnewest, hsame]
    exact near
  · have hsucc : (sm.advance card').currentSequence.toNat = sm.currentSequence.toNat + 1 :=
      Station.toNat_saturatingSucc64 hmax
    by_cases hdue : (sm.advance card').currentSequence % 16 = 0
    · refine account_checkpoint rfl hon hcontainer hpaired hblameless hdue fun w hw => ?_
      have hnear := near w (hnewest ▸ hw)
      rw [hsucc]
      omega
    · rw [DynamicStorageManager.checkpointIfDue, if_neg hdue]
      refine .tracked card' ⟨rfl, hcontainer, hpaired, fun w hw => ?_, hblameless⟩
      have hnear := near w (hnewest ▸ hw)
      have haligned := hpaired.aligned w hw
      rw [mod_sixteen_iff, hsucc] at hdue
      rw [hsucc]
      omega

/-- **Round lemma.** A round keeps the account. -/
theorem Account.round {sm sm' : DynamicStorageManager (FaultyCard crc32)}
    {ring ring' : SramRingBuffer} (account : Account sm)
    (round : DynamicStorageManager.Round crc32 sm ring sm' ring') : Account sm' := by
  cases account with
  | spoiled card device m mem outOfTurn unsafe_ =>
    obtain ⟨card', hdevice, hmoments⟩ := moments_of_round device round
    exact .spoiled card' hdevice m (hmoments m mem) outOfTurn unsafe_
  | tracked card tracked =>
    cases round with
    | idle => exact .tracked card tracked
    | refused card₀ card' packet rest e active device' queue written =>
      obtain rfl := Option.some.inj (tracked.device.symm.trans device')
      obtain ⟨hnewest, hpaired, hblameless⟩ := (wrote_of_writeBlock written).record
        tracked.container tracked.paired tracked.blameless
      exact .tracked card' ⟨rfl, tracked.container, hpaired, hnewest ▸ tracked.near, hblameless⟩
    | confirmed card₀ card' packet rest active device' queue written =>
      obtain rfl := Option.some.inj (tracked.device.symm.trans device')
      exact tracked.confirmed written

/-- The outcomes to come are no part of the account. -/
theorem Account.pending {sm : DynamicStorageManager (FaultyCard crc32)} (account : Account sm)
    {card : FaultyCard crc32} (hdevice : sm.device = some card)
    (outcomes : List (WriteOutcome crc32)) :
    Account { sm with device := some { card with pending := outcomes } } := by
  cases account with
  | tracked card₀ tracked =>
    obtain ⟨device, container, paired, near, blameless⟩ := tracked
    obtain rfl := Option.some.inj (device.symm.trans hdevice)
    exact .tracked _ ⟨rfl, container, paired, near, blameless⟩
  | spoiled card₀ device m mem outOfTurn unsafe_ =>
    obtain rfl := Option.some.inj (device.symm.trans hdevice)
    exact .spoiled _ rfl m mem outOfTurn unsafe_

/-- A restart comes back to the newest checkpoint. -/
theorem Account.restart {sm : DynamicStorageManager (FaultyCard crc32)} (account : Account sm)
    {card : FaultyCard crc32} (hdevice : sm.device = some card) :
    Account (DynamicStorageManager.newWithDevice crc32 { card with powered := true }) := by
  cases account with
  | tracked card₀ tracked =>
    obtain ⟨device, container, paired, near, blameless⟩ := tracked
    obtain rfl := Option.some.inj (device.symm.trans hdevice)
    refine .tracked _ ⟨(newWithDevice_faultyCard _).1,
      (DynamicStorageManager.newWithDevice_spec crc32 _).2, paired, fun w hw => ?_, blameless⟩
    have hresume : (DynamicStorageManager.newWithDevice crc32
        { card₀ with powered := true }).currentSequence = w :=
      (newWithDevice_faultyCard _).2.trans (paired.resume hw)
    rw [hresume]
    omega
  | spoiled card₀ device m mem outOfTurn unsafe_ =>
    obtain rfl := Option.some.inj (device.symm.trans hdevice)
    exact .spoiled _ (newWithDevice_faultyCard _).1 m mem outOfTurn unsafe_

/-- **Step lemma.** Every action keeps the account. -/
theorem Account.step {s : FaultyStation crc32} (account : Account s.manager)
    (action : FaultyAction crc32) : Account (s.step action).manager := by
  obtain ⟨card, hdevice⟩ : ∃ card, s.manager.device = some card := by
    cases account with
    | tracked card tracked => exact ⟨card, tracked.device⟩
    | spoiled card device m mem outOfTurn unsafe_ => exact ⟨card, device⟩
  cases action with
  | push packet =>
    simp only [FaultyStation.step, hdevice]
    split
    · exact account
    · exact account
  | flush outcomes =>
    simp only [FaultyStation.step, hdevice]
    split
    · exact DynamicStorageManager.Rounds.preserves (fun sm _ => Account sm)
        (fun sm ring sm' ring' haccount round => haccount.round round)
        (DynamicStorageManager.flushFromSram_rounds _ s.ring) (account.pending hdevice outcomes)
    · exact account
  | restart =>
    simp only [FaultyStation.step, hdevice]
    exact account.restart hdevice

/-- A run from a card without checkpoints. -/
theorem account_final {sectors : UInt32 → Bytes sectorSize} (blank : Paired crc32 sectors none)
    (actions : List (FaultyAction crc32)) :
    Account ((machine crc32).final (start crc32 sectors) actions).manager := by
  have hstart : Account (start crc32 sectors).manager := by
    refine .tracked ⟨sectors, true, [], none, []⟩ ⟨rfl, ?_, blank, ?_, ?_⟩
    · exact (DynamicStorageManager.newWithDevice_spec crc32
        (⟨sectors, true, [], none, []⟩ : FaultyCard crc32)).2
    · rintro w ⟨⟩
    · exact fun m hm => absurd hm List.not_mem_nil
  have hstep : ∀ (s : FaultyStation crc32) (action : FaultyAction crc32), Account s.manager →
      True → Account ((machine crc32).next s action).manager :=
    fun s action account _ => account.step action
  exact Machine.invariant hstep hstart (fun _ _ => trivial)

/-- **Ping-pong checkpoints.** In any run from a card without checkpoints, some checkpoint
decodes and recovery resumes no earlier than at the last one written, at every moment
and in the end, iff each checkpoint is written as the sixteenth record behind the last
one that was written successfully. -/
theorem checkpoints_safe_iff {sectors : UInt32 → Bytes sectorSize}
    (blank1 : checkpointOf crc32 (sectors 1) = none)
    (blank2 : checkpointOf crc32 (sectors 2) = none) (actions : List (FaultyAction crc32)) :
    (Safe ((machine crc32).final (start crc32 sectors) actions) ∧
      ∀ m ∈ moments ((machine crc32).final (start crc32 sectors) actions), SafeMoment crc32 m) ↔
    ∀ m ∈ moments ((machine crc32).final (start crc32 sectors) actions), Alternates crc32 m := by
  have hblank : Paired crc32 sectors none :=
    ⟨fun _ => ⟨blank1, blank2⟩, (fun _ h => nomatch h), (fun _ h => nomatch h),
      (fun _ h => nomatch h)⟩
  generalize hfinal : (machine crc32).final (start crc32 sectors) actions = s
  have haccount := account_final hblank actions
  rw [hfinal] at haccount
  cases haccount with
  | tracked card tracked =>
    have hmoments : moments s = card.moments := by
      rw [moments, tracked.device]
      rfl
    rw [hmoments]
    refine iff_of_true ⟨?_, fun m hm => (tracked.blameless m hm).2⟩
      fun m hm => (tracked.blameless m hm).1
    intro card' hcard'
    obtain rfl := Option.some.inj (tracked.device.symm.trans hcard')
    exact tracked.paired.safe
  | spoiled card device m mem outOfTurn unsafe_ =>
    have hmem : m ∈ moments s := by
      rw [moments, device]
      exact mem
    exact iff_of_false (fun h => unsafe_ (h.2 m hmem)) fun h => outOfTurn (h m hmem)

/-- Thirty-two records: the checkpoint behind the sixteenth is written, and the power is cut
in the one behind the last. -/
def tornRun : List (FaultyAction crc32Ieee) :=
  List.replicate 32 (.push (Station.plainPacket 1)) ++ List.replicate 15 (.flush []) ++
    [.flush [.done, .done, .cut (.empty crc32Ieee)]]

/-- The checkpoint that was written is the newest one still, and a restart follows. -/
theorem checkpoints_safe_tornRun :
    ((machine crc32Ieee).final (start crc32Ieee fun _ => .zero sectorSize)
        tornRun).manager.device.bind FaultyCard.newest = some 16 ∧
      ((Safe ((machine crc32Ieee).final (start crc32Ieee fun _ => .zero sectorSize)
            (tornRun ++ [.restart])) ∧
          ∀ m ∈ moments ((machine crc32Ieee).final (start crc32Ieee fun _ => .zero sectorSize)
            (tornRun ++ [.restart])), SafeMoment crc32Ieee m) ↔
        ∀ m ∈ moments ((machine crc32Ieee).final (start crc32Ieee fun _ => .zero sectorSize)
          (tornRun ++ [.restart])), Alternates crc32Ieee m) :=
  ⟨by decide +kernel, checkpoints_safe_iff (Garbage.empty crc32Ieee).undecodable
    (Garbage.empty crc32Ieee).undecodable _⟩

/-- Forty-eight records: the checkpoint behind the thirty-second fails, and the power is
cut in the one behind the last. -/
def skippedCheckpointRun : List (FaultyAction crc32Ieee) :=
  List.replicate 48 (.push (Station.plainPacket 1)) ++ List.replicate 15 (.flush []) ++
    [.flush [.done, .done, .failed none]] ++ List.replicate 7 (.flush []) ++
    [.flush [.done, .done, .cut (.empty crc32Ieee)]]

/-- The checkpoint behind the sixteenth record was written, and none is left. -/
theorem not_checkpoints_safe_skippedCheckpointRun :
    ¬ Safe ((machine crc32Ieee).final (start crc32Ieee fun _ => .zero sectorSize)
      skippedCheckpointRun) := by
  have hend : (((machine crc32Ieee).final (start crc32Ieee fun _ => .zero sectorSize)
      skippedCheckpointRun).manager.device.map fun card => (card.newest.isSome,
        checkpointOf crc32Ieee (card.sectors 1), checkpointOf crc32Ieee (card.sectors 2))) =
      some (true, none, none) := by
    decide +kernel
  obtain ⟨card, hdevice, heq⟩ := Option.map_eq_some_iff.mp hend
  obtain ⟨hnewest, hrest⟩ := Prod.mk.inj heq
  obtain ⟨h1, h2⟩ := Prod.mk.inj hrest
  obtain ⟨w, hw⟩ := Option.isSome_iff_exists.mp hnewest
  intro safe
  obtain ⟨hsome | hsome, -⟩ := safe card hdevice w hw
  · rw [h1] at hsome
    exact Bool.false_ne_true hsome
  · rw [h2] at hsome
    exact Bool.false_ne_true hsome

end FaultyStation

end Gibberish.Storage
