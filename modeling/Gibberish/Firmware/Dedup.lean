/-
# Packet deduplication

The sliding Bloom filter of a dongle: two epochs of bits and the last 64 keys. Its
epochs hold the probe bits of two generations of keys, so the filter reports every
key of both generations, in particular the last 512 inserted.
-/

import Gibberish.Foundation.BloomFilter
import Gibberish.Foundation.RingQueue

set_option autoImplicit false

namespace Gibberish.Firmware

open Gibberish.Foundation

abbrev bloomBits : ℕ := 10240
abbrev bloomWords : ℕ := bloomBits / 64
abbrev epochThreshold : ℕ := 512
abbrev lruSize : ℕ := 64

/-- Message id and chunk index. -/
abbrev PacketKey := UInt32 × UInt8

structure SlidingBloomFilter where
  activeEpoch : Bitmap bloomWords
  previousEpoch : Bitmap bloomWords
  entriesInEpoch : ℕ
  recentLru : Vector PacketKey lruSize
  lruHead : Fin lruSize

namespace SlidingBloomFilter

def new : SlidingBloomFilter where
  activeEpoch := .replicate bloomWords 0
  previousEpoch := .replicate bloomWords 0
  entriesInEpoch := 0
  recentLru := .replicate lruSize (0, 0)
  lruHead := 0

/-- The two hashes all probes are combined from. -/
def hashCoords (key : PacketKey) : UInt32 × UInt32 :=
  let h1 := key.1 * 0x85ebca6b ^^^ key.2.toUInt32 * 0xc2b2ae35
  let h1 := (h1 ^^^ h1 >>> 16) * 0x85ebca6b
  let h2 := key.1 * 0xcc9e2d51 ^^^ key.2.toUInt32 * 0x1b873593
  let h2 := (h2 ^^^ h2 >>> 13) * 0x5bd1e995
  (h1, if h2 = 0 then 1 else h2)

/-- The seven bits of a key. -/
def probes (key : PacketKey) : List (Fin (64 * bloomWords)) :=
  let (h1, h2) := hashCoords key
  (List.range 7).map fun i =>
    ⟨(h1 + UInt32.ofNat i * h2).toNat % bloomBits, Nat.mod_lt _ (by decide)⟩

/-- Whether a key has likely been seen before. -/
def contains (f : SlidingBloomFilter) (msgId : UInt32) (chunkIdx : UInt8) : Bool :=
  f.recentLru.any (· == (msgId, chunkIdx)) ||
    (probes (msgId, chunkIdx)).all fun i => f.activeEpoch.isSet i || f.previousEpoch.isSet i

/-- Record a key, first turning over a full epoch. -/
def insert (f : SlidingBloomFilter) (msgId : UInt32) (chunkIdx : UInt8) : SlidingBloomFilter :=
  let turnover := f.entriesInEpoch ≥ epochThreshold
  let activeEpoch := if turnover then .replicate bloomWords 0 else f.activeEpoch
  { activeEpoch := (probes (msgId, chunkIdx)).foldl Bitmap.mark activeEpoch
    previousEpoch := if turnover then f.activeEpoch else f.previousEpoch
    entriesInEpoch := (if turnover then 0 else f.entriesInEpoch) + 1
    recentLru := f.recentLru.set f.lruHead (msgId, chunkIdx)
    lruHead := f.lruHead + 1 }

/-- The filter after some insertions. -/
def ofKeys (keys : List PacketKey) : SlidingBloomFilter :=
  keys.foldl (fun f key => f.insert key.1 key.2) new

/-! ### The generations behind the epochs -/

/-- The set bits of an epoch are the probes of its keys. -/
def Marks (epoch : Bitmap bloomWords) (keys : List PacketKey) : Prop :=
  ∀ i, epoch.isSet i = true ↔ ∃ key ∈ keys, i ∈ probes key

/-- The epochs of a filter hold two generations of keys. -/
structure Represents (f : SlidingBloomFilter) (g : Generations PacketKey) : Prop where
  active : Marks f.activeEpoch g.current
  previous : Marks f.previousEpoch g.previous
  entries : f.entriesInEpoch = g.current.length

theorem marks_nil : Marks (.replicate bloomWords 0) [] := by
  intro i
  simp

/-- Marking the probes of a key adds the key. -/
theorem Marks.insert {epoch : Bitmap bloomWords} {keys : List PacketKey} (h : Marks epoch keys)
    (key : PacketKey) : Marks ((probes key).foldl Bitmap.mark epoch) (keys ++ [key]) := by
  intro i
  rw [Bitmap.isSet_foldl_mark, Bool.or_eq_true, h i, List.contains_iff_mem]
  constructor
  · rintro (⟨key', hmem, hi⟩ | hi)
    · exact ⟨key', List.mem_append_left _ hmem, hi⟩
    · exact ⟨key, List.mem_append_right _ (List.mem_singleton_self key), hi⟩
  · rintro ⟨key', hmem, hi⟩
    rcases List.mem_append.mp hmem with hmem | hmem
    · exact Or.inl ⟨key', hmem, hi⟩
    · obtain rfl := List.mem_singleton.mp hmem
      exact Or.inr hi

theorem represents_new : Represents new ⟨[], []⟩ := ⟨marks_nil, marks_nil, rfl⟩

/-- An insertion into the filter is one into its generations. -/
theorem Represents.insert {f : SlidingBloomFilter} {g : Generations PacketKey}
    (h : Represents f g) (key : PacketKey) :
    Represents (f.insert key.1 key.2) (g.insert epochThreshold key) := by
  rw [Generations.insert, ← h.entries]
  by_cases hfull : f.entriesInEpoch ≥ epochThreshold
  -- A full epoch becomes the previous one, and the key starts an empty one.
  · rw [if_pos hfull]
    refine ⟨?_, ?_, ?_⟩
    · simp only [SlidingBloomFilter.insert, if_pos hfull]
      exact marks_nil.insert key
    · simp only [SlidingBloomFilter.insert, if_pos hfull]
      exact h.active
    · simp only [SlidingBloomFilter.insert, if_pos hfull]
      rfl
  · rw [if_neg hfull]
    refine ⟨?_, ?_, ?_⟩
    · simp only [SlidingBloomFilter.insert, if_neg hfull]
      exact h.active.insert key
    · simp only [SlidingBloomFilter.insert, if_neg hfull]
      exact h.previous
    · simp only [SlidingBloomFilter.insert, if_neg hfull, List.length_append,
        List.length_singleton]
      rw [h.entries]

theorem represents_ofKeys (keys : List PacketKey) :
    Represents (ofKeys keys) (.ofKeys epochThreshold keys) := by
  induction keys using List.reverseRecOn with
  | nil => exact represents_new
  | append_singleton keys key ih =>
    rw [ofKeys, Generations.ofKeys, List.foldl_append, List.foldl_append]
    exact ih.insert key

/-- Every key of the two generations is reported. -/
theorem Represents.contains {f : SlidingBloomFilter} {g : Generations PacketKey}
    (h : Represents f g) {key : PacketKey} (holds : g.Holds key) :
    f.contains key.1 key.2 = true := by
  rw [SlidingBloomFilter.contains, Bool.or_eq_true]
  -- The LRU is not needed: the epochs alone report the key.
  refine Or.inr (List.all_eq_true.mpr fun i hi => ?_)
  rw [Bool.or_eq_true]
  rcases holds with hmem | hmem
  · exact Or.inl ((h.active i).mpr ⟨key, hmem, hi⟩)
  · exact Or.inr ((h.previous i).mpr ⟨key, hmem, hi⟩)

/-- **No false negatives within the window.** A key is reported until more than 512
keys follow its last insertion. -/
theorem contains_of_window {key : PacketKey} {keys : List PacketKey} (mem : key ∈ keys)
    (window : Generations.insertionsSince key keys ≤ epochThreshold) :
    (ofKeys keys).contains key.1 key.2 = true :=
  (represents_ofKeys keys).contains (Generations.holds_of_window (by decide) mem window)

/-- A key is reported after its insertion and after each of the next 512. -/
theorem contains_after_insert (before : List PacketKey) (key : PacketKey)
    (after : List PacketKey) (window : after.length ≤ epochThreshold) :
    (ofKeys (before ++ key :: after)).contains key.1 key.2 = true :=
  (represents_ofKeys _).contains (Generations.holds_of_append (by decide) before key window)

theorem contains_after_insert_two :
    (ofKeys ([(7, 1)] ++ (9, 0) :: [(7, 2), (8, 0)])).contains 9 0 = true :=
  contains_after_insert [(7, 1)] (9, 0) [(7, 2), (8, 0)] (by decide)

/-! ### What a report means -/

/-- The recent keys, the oldest first. -/
def recent (f : SlidingBloomFilter) : List PacketKey := Ring.window f.recentLru f.lruHead lruSize

/-- An insertion forgets the oldest recent key. -/
theorem recent_insert (f : SlidingBloomFilter) (key : PacketKey) :
    (f.insert key.1 key.2).recent = f.recent.tail ++ [key] :=
  Ring.window_overwrite f.recentLru f.lruHead key

/-- A filter starts with the filler in every slot of the recent keys. -/
theorem recent_new : recent new = List.replicate lruSize (0, 0) := by decide

/-- The recent keys are the last 64 of the filler and the inserted keys. -/
theorem recent_ofKeys (keys : List PacketKey) :
    (ofKeys keys).recent = (List.replicate lruSize (0, 0) ++ keys).drop keys.length := by
  induction keys using List.reverseRecOn with
  | nil => exact recent_new
  | append_singleton keys key ih =>
    have hfold : ofKeys (keys ++ [key]) = (ofKeys keys).insert key.1 key.2 := by
      rw [ofKeys, List.foldl_append]
      rfl
    have hlen : keys.length + 1 ≤ (List.replicate lruSize ((0, 0) : PacketKey) ++ keys).length := by
      rw [List.length_append, List.length_replicate, Nat.add_comm keys.length]
      exact Nat.add_le_add_right (by decide) _
    rw [hfold, recent_insert, ih, List.tail_drop, List.length_append, List.length_singleton,
      ← List.append_assoc]
    exact (List.drop_append_of_le_length hlen).symm

/-- A report rests on a recent key or on seven probe bits of the two generations. -/
theorem Represents.contains_iff {f : SlidingBloomFilter} {g : Generations PacketKey}
    (h : Represents f g) (key : PacketKey) :
    f.contains key.1 key.2 = true ↔
      key ∈ f.recent ∨ ∀ i ∈ probes key, ∃ k, g.Holds k ∧ i ∈ probes k := by
  have hbit (i : Fin (64 * bloomWords)) :
      (f.activeEpoch.isSet i || f.previousEpoch.isSet i) = true ↔
        ∃ k, g.Holds k ∧ i ∈ probes k := by
    rw [Bool.or_eq_true, h.active i, h.previous i, ← exists_or]
    apply exists_congr
    intro k
    rw [← or_and_right]
    rfl
  rw [SlidingBloomFilter.contains, Bool.or_eq_true, List.all_eq_true, recent, Ring.mem_window_full]
  apply or_congr
  · rw [Vector.any_beq', Vector.contains_iff_mem]
  · exact forall_congr' fun i => forall_congr' fun _ => hbit i

/-- A report of a key is justified by the key itself among the last 64 inserted, or by
keys of the current and the previous epoch that set each of its probe bits. -/
def Justified (keys : List PacketKey) (key : PacketKey) : Prop :=
  key ∈ keys.drop (keys.length - lruSize) ∨
    ∀ i ∈ probes key, ∃ k, (Generations.ofKeys epochThreshold keys).Holds k ∧ i ∈ probes k

theorem recent_of_long {keys : List PacketKey} (h : lruSize ≤ keys.length) :
    (ofKeys keys).recent = keys.drop (keys.length - lruSize) := by
  rw [recent_ofKeys, List.drop_append, List.length_replicate, List.drop_eq_nil_of_le, List.nil_append]
  rw [List.length_replicate]
  exact h

/-- While fewer than 64 keys were inserted, the filler is among the recent keys. -/
theorem mem_recent_of_short {keys : List PacketKey} (h : keys.length < lruSize)
    (key : PacketKey) : key ∈ (ofKeys keys).recent ↔ key = (0, 0) ∨ key ∈ keys := by
  rw [recent_ofKeys, List.drop_append_of_le_length (by rw [List.length_replicate]; exact h.le),
    List.drop_replicate, List.mem_append, List.mem_replicate]
  apply or_congr_left
  exact and_iff_right (by omega)

theorem justified_of_short {keys : List PacketKey} (h : keys.length < lruSize) (key : PacketKey) :
    Justified keys key ↔ key ∈ keys ∨ ∀ i ∈ probes key, ∃ k ∈ keys, i ∈ probes k := by
  have hcap : keys.length ≤ epochThreshold := h.le.trans (by decide)
  rw [Justified, Nat.sub_eq_zero_of_le h.le, List.drop_zero, Generations.ofKeys_of_length_le hcap]
  simp only [Generations.Holds, List.not_mem_nil, or_false]

/-- **What a report means.** Every report of a filter is justified exactly when the
filler key (0, 0) is gone from the recent keys, was inserted itself, or has all its probe
bits set by inserted keys. -/
theorem reports_justified_iff (keys : List PacketKey) :
    (∀ key, (ofKeys keys).contains key.1 key.2 = true → Justified keys key) ↔
      lruSize ≤ keys.length ∨ (0, 0) ∈ keys ∨ ∀ i ∈ probes (0, 0), ∃ k ∈ keys, i ∈ probes k := by
  rcases Nat.lt_or_ge keys.length lruSize with hshort | hlong
  · have hlong : ¬ lruSize ≤ keys.length := Nat.not_le.mpr hshort
    rw [or_iff_right hlong, ← justified_of_short hshort]
    constructor
    · intro h
      apply h
      rw [(represents_ofKeys keys).contains_iff]
      exact Or.inl ((mem_recent_of_short hshort _).mpr (Or.inl rfl))
    · intro hfiller key hcontains
      rcases ((represents_ofKeys keys).contains_iff key).mp hcontains with hrecent | hbits
      · rcases (mem_recent_of_short hshort key).mp hrecent with rfl | hmem
        · exact hfiller
        · exact (justified_of_short hshort key).mpr (Or.inl hmem)
      · exact Or.inr hbits
  · refine iff_of_true ?_ (Or.inl hlong)
    intro key hcontains
    rcases ((represents_ofKeys keys).contains_iff key).mp hcontains with hrecent | hbits
    · rw [recent_of_long hlong] at hrecent
      exact Or.inl hrecent
    · exact Or.inr hbits

/-- A fresh filter reports the filler key, which nothing inserted justifies. -/
theorem not_reports_justified_new :
    ¬ ∀ keys key, (ofKeys keys).contains key.1 key.2 = true → Justified keys key := by
  intro h
  have hrecent : (0, 0) ∈ (ofKeys []).recent :=
    (mem_recent_of_short (by decide) _).mpr (Or.inl rfl)
  have hfiller : (ofKeys []).contains 0 0 = true :=
    ((represents_ofKeys []).contains_iff (0, 0)).mpr (Or.inl hrecent)
  rcases h [] (0, 0) hfiller with hmem | hbits
  · cases hmem
  · obtain ⟨k, hholds, _⟩ := hbits 0 (by decide)
    rcases hholds with hmem | hmem <;> cases hmem

end SlidingBloomFilter

end Gibberish.Firmware
