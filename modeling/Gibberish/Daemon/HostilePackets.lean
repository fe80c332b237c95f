/-
# Hostile packets

What a packet can do to the engine beyond delivering its chunk. The number of slots of
an in-flight message is what its first stored packet declared, and the count in a header
is not authenticated, so a later packet of the message can declare more and index past
the slots. Room for a new message is made before its packet is authenticated, so a
rejected packet can cost another message its place.
-/

import Gibberish.Daemon.EngineRun

set_option autoImplicit false

namespace Gibberish.Daemon

open Gibberish.Foundation Gibberish.Protocol Gibberish.Crypto

namespace ChunkEngine

variable {P : Primitives} {swarmMasterKey : Bytes 32} {e e' : ChunkEngine}
variable {clock : IngestClock} {order : InFlightOrder} {srcNodeId : UInt32} {packet : MeshPacket}

/-! ### Indexing past the slots -/

/-- The index of an authentic packet is below the count that the first stored packet of
its message declared. -/
def WithinDeclared (P : Primitives) (swarmMasterKey : Bytes 32) (e : ChunkEngine)
    (clock : IngestClock) (srcNodeId : UInt32) (packet : MeshPacket) : Prop :=
  packet.header.chunkIdx < packet.header.totalChunks →
    (∃ chunk, opensTo P swarmMasterKey srcNodeId packet = .ok chunk) →
      ∀ m ∈ (e.purgeExpired clock.purge).inFlight.lookup (keyOf srcNodeId packet),
        packet.header.chunkIdx.toNat < m.totalChunks

/-- Every packet that is ingested keeps to its message's declared count. -/
def KeepsToCount (P : Primitives) (swarmMasterKey : Bytes 32) (s : Option ChunkEngine) :
    EngineOp → Prop
  | .ingestPacket srcNodeId packet clock _ =>
    ∀ e ∈ s, WithinDeclared P swarmMasterKey e clock srcNodeId packet
  | _ => True

/-- Every message has as many slots as it declared chunks. -/
def SlotsAsDeclared (e : ChunkEngine) : Prop :=
  ∀ key m, e.inFlight.lookup key = some m → m.receivedChunks.length = m.totalChunks

theorem slotsAsDeclared_new : SlotsAsDeclared new := fun _ _ hm => by simp [new] at hm

theorem SlotsAsDeclared.shrink (h : SlotsAsDeclared e) (hs : Shrinks e e') : SlotsAsDeclared e' :=
  fun key m hm => h key m (hs.lookup key m hm)

theorem SlotsAsDeclared.insert (h : SlotsAsDeclared e) {key : MessageKey} {m : InFlightMessage}
    (hm : m.receivedChunks.length = m.totalChunks) :
    SlotsAsDeclared { e with inFlight := e.inFlight.insert key m } := by
  intro k m' hm'
  by_cases hk : k = key
  · subst hk
    rw [AList.lookup_insert] at hm'
    obtain rfl := Option.some.inj hm'
    exact hm
  · rw [AList.lookup_insert_ne hk] at hm'
    exact h k m' hm'

/-- The entry of a packet, known or new, has its declared slots. -/
theorem SlotsAsDeclared.entryFor (h : SlotsAsDeclared e) (now : ℕ) (srcNodeId : UInt32)
    (packet : MeshPacket) :
    (e.entryFor now srcNodeId packet).receivedChunks.length =
      (e.entryFor now srcNodeId packet).totalChunks := by
  cases hm : e.inFlight.lookup (keyOf srcNodeId packet) with
  | some m =>
    rw [entryFor_of_lookup hm]
    exact h _ m hm
  | none =>
    rw [entryFor_of_notMem (AList.lookup_eq_none.mp hm)]
    simp [InFlightMessage.opened]

/-- **Step lemma.** -/
theorem SlotsAsDeclared.step (h : SlotsAsDeclared e) (op : EngineOp)
    (heq : (machine P swarmMasterKey).next (some e) op = some e') : SlotsAsDeclared e' := by
  rcases next_cases heq with ⟨srcNodeId, packet, clock, order, result, -, hcall⟩ | ⟨-, hs⟩
  · have hprepared := h.shrink (shrinks_prepared e clock order srcNodeId packet)
    have hcases := ingested P e clock order srcNodeId packet swarmMasterKey
    rw [hcall] at hcases
    cases hcases with
    | malformed _ => exact h.shrink (shrinks_purgeExpired e clock.purge)
    | duplicate _ _ => exact h.shrink (shrinks_purgeExpired e clock.purge)
    | rejected _ _ _ _ => exact hprepared
    | stored chunk entry counts undone opens inside entry_eq incomplete =>
      apply hprepared.insert
      rw [entry_eq, length_storeChunk, totalChunks_storeChunk]
      exact hprepared.entryFor clock.now srcNodeId packet
    | completed _ _ _ _ _ _ _ _ => exact fun key m hm => hprepared key m (lookup_of_erase hm)
  · intro key m' hm'
    obtain ⟨m, hm, hslots, htotal, -⟩ := hs.lookup key m' hm'
    rw [hslots, htotal]
    exact h key m hm

/-- The entry of a message in flight is the one found, and any other is new. -/
theorem entryFor_prepared (e : ChunkEngine) (clock : IngestClock) (order : InFlightOrder)
    (srcNodeId : UInt32) (packet : MeshPacket) :
    (e.prepared clock order srcNodeId packet).entryFor clock.now srcNodeId packet =
      ((e.purgeExpired clock.purge).inFlight.lookup (keyOf srcNodeId packet)).getD
        (.opened packet.header.totalChunks.toNat clock.now) := by
  by_cases hmem : keyOf srcNodeId packet ∈ (e.purgeExpired clock.purge).inFlight
  · rw [prepared, makeRoom_of_mem hmem, entryFor]
  · have hprepared : keyOf srcNodeId packet ∉ (e.prepared clock order srcNodeId packet).inFlight :=
      fun hk => hmem ((shrinks_makeRoom _ order _).mem hk)
    rw [entryFor_of_notMem hprepared, AList.lookup_eq_none.mpr hmem, Option.getD_none]

/-- Ingesting panics exactly on an authentic packet beyond its message's declared count. -/
theorem ingestPacket_eq_none_iff (hlimits : WithinLimits e) (hslots : SlotsAsDeclared e)
    (clock : IngestClock) (order : InFlightOrder) (srcNodeId : UInt32) (packet : MeshPacket) :
    e.ingestPacket P clock order srcNodeId packet swarmMasterKey = none ↔
      ¬ WithinDeclared P swarmMasterKey e clock srcNodeId packet := by
  have hpurged := hslots.shrink (shrinks_purgeExpired e clock.purge)
  have hcases := ingested P e clock order srcNodeId packet swarmMasterKey
  generalize e.ingestPacket P clock order srcNodeId packet swarmMasterKey = result at hcases
  constructor
  · rintro rfl hwithin
    cases hcases with
    | overrun chunk counts undone opens outside =>
      rw [entryFor_prepared] at outside
      cases hm : (e.purgeExpired clock.purge).inFlight.lookup (keyOf srcNodeId packet) with
      | some m =>
        rw [hm, Option.getD_some, hpurged _ m hm] at outside
        exact absurd (hwithin counts ⟨chunk, opens⟩ m hm) (Nat.not_lt.mpr outside)
      | none =>
        -- A new entry has room for the packet that opens it.
        rw [hm, Option.getD_none, InFlightMessage.opened, List.length_replicate] at outside
        exact absurd (UInt8.lt_iff_toNat_lt.mp counts) (Nat.not_lt.mpr outside)
  · intro hbeyond
    simp only [WithinDeclared, not_forall, Nat.not_lt] at hbeyond
    obtain ⟨counts, ⟨chunk, opens⟩, m, hm, hle⟩ := hbeyond
    have hmem := HashTable.mem_of_lookup hm
    have hnot := (hlimits.shrink (shrinks_purgeExpired e clock.purge)).notBoth _ hmem
    have hentry : (e.prepared clock order srcNodeId packet).entryFor clock.now srcNodeId packet =
        m := by
      rw [entryFor_prepared, hm, Option.getD_some]
    have houtside : ¬ packet.header.chunkIdx.toNat < ((e.prepared clock order srcNodeId
        packet).entryFor clock.now srcNodeId packet).receivedChunks.length := by
      rw [hentry, hpurged _ m hm]
      exact Nat.not_lt.mpr hle
    cases hcases with
    | overrun _ _ _ _ _ => rfl
    | malformed hcounts => exact absurd counts (UInt8.not_lt.mpr hcounts)
    | duplicate _ done => exact absurd done hnot
    | rejected err _ _ hsealed =>
      rw [opens] at hsealed
      cases hsealed
    | stored _ _ _ _ _ inside _ _ => exact absurd inside houtside
    | completed _ _ _ _ _ inside _ _ => exact absurd inside houtside

/-- A call panics exactly when it ingests such a packet. -/
theorem next_eq_none_iff (hlimits : WithinLimits e) (hslots : SlotsAsDeclared e) (op : EngineOp) :
    (machine P swarmMasterKey).next (some e) op = none ↔
      ¬ KeepsToCount P swarmMasterKey (some e) op := by
  cases op with
  | ingestPacket srcNodeId packet clock order =>
    have hkeeps : KeepsToCount P swarmMasterKey (some e)
        (.ingestPacket srcNodeId packet clock order) ↔
          WithinDeclared P swarmMasterKey e clock srcNodeId packet := by
      simp [KeepsToCount]
    rw [hkeeps, ← ingestPacket_eq_none_iff hlimits hslots clock order srcNodeId packet]
    show (step P swarmMasterKey (some e) _).1 = none ↔ _
    rw [step]
    split
    · rename_i heq
      exact iff_of_true rfl heq
    all_goals
      rename_i heq
      simp [heq]
  | cacheOutbound packets now => simp [Machine.next, machine, step, KeepsToCount]
  | handleSack sackPacket => simp [Machine.next, machine, step, KeepsToCount]
  | checkPendingSacks localNodeId swarmTag now order =>
    simp [Machine.next, machine, step, KeepsToCount]
  | suppressSack msgId now => simp [Machine.next, machine, step, KeepsToCount]

/-- **Run lemma.** -/
theorem alive_iff (hlimits : WithinLimits e) (hslots : SlotsAsDeclared e) (ops : List EngineOp) :
    (machine P swarmMasterKey).final (some e) ops ≠ none ↔
      (machine P swarmMasterKey).Guarded (KeepsToCount P swarmMasterKey) (some e) ops := by
  induction ops generalizing e with
  | nil => simp
  | cons op rest ih =>
    rw [Machine.final_cons, Machine.guarded_cons]
    cases hnext : (machine P swarmMasterKey).next (some e) op with
    | none =>
      have hbeyond := (next_eq_none_iff hlimits hslots op).mp hnext
      rw [Machine.final_none next_none]
      exact iff_of_false (fun h => h rfl) fun h => hbeyond h.1
    | some e' =>
      have hkeeps : KeepsToCount P swarmMasterKey (some e) op := by
        by_contra hbeyond
        rw [(next_eq_none_iff hlimits hslots op).mpr hbeyond] at hnext
        cases hnext
      rw [ih (hlimits.step op hnext) (hslots.step op hnext), and_iff_right hkeeps]

/-- **Panics.** A run of the engine stays clear of a panic exactly when every authentic
packet keeps to the count that the first stored packet of its message declared. -/
theorem panicFree_iff (P : Primitives) (swarmMasterKey : Bytes 32) (ops : List EngineOp) :
    (machine P swarmMasterKey).final (some new) ops ≠ none ↔
      (machine P swarmMasterKey).Guarded (KeepsToCount P swarmMasterKey) (some new) ops :=
  alive_iff withinLimits_new slotsAsDeclared_new ops

/-- A text that takes three chunks. -/
def threeChunkText : String := String.ofList (List.replicate 161 'a')

/-- The first and the last packet of a text, the first with a lower count in its header. -/
def loweredCount : List EngineOp :=
  match transparentPackets threeChunkText 7 with
  | [first, _, last] =>
    [.ingestPacket 7 { first with header := { first.header with totalChunks := 2 } } ⟨5, 5⟩ (.stored _),
      .ingestPacket 7 last ⟨6, 6⟩ (.stored _)]
  | _ => []

/-- Both open, since the count is not sealed, and the second one panics. -/
theorem panics_loweredCount :
    ¬ (machine transparent (.zero 32)).final (some new) loweredCount ≠ none := by
  have hnone : ((machine transparent (.zero 32)).final (some new) loweredCount).isNone = true := by
    decide +kernel
  exact fun h => h (Option.isNone_iff_eq_none.mp hnone)

/-! ### Making room for a rejected packet -/

/-- There is room for one more message of a sender. -/
def HasRoomFor (e : ChunkEngine) (srcNodeId : UInt32) : Prop :=
  e.inFlight.countKeys (fun key => decide (key.1 = srcNodeId)) < maxPerSenderInFlight ∧
    e.inFlight.size < maxGlobalInFlight

/-- Making room evicts nothing for a message in flight, or where there is room. -/
theorem makeRoom_eq_self_iff (e : ChunkEngine) (order : InFlightOrder) (key : MessageKey) :
    e.makeRoom order key = e ↔ key ∈ e.inFlight ∨ e.HasRoomFor key.1 := by
  by_cases hmem : key ∈ e.inFlight
  · exact iff_of_true (makeRoom_of_mem hmem) (Or.inl hmem)
  rw [or_iff_right hmem, makeRoom, if_neg hmem, HasRoomFor]
  by_cases hsender : e.inFlight.countKeys (fun k => decide (k.1 = key.1)) ≥ maxPerSenderInFlight
  -- A message of the sender goes, and at most another one.
  · refine iff_of_false ?_ fun h => absurd h.1 (Nat.not_lt.mpr hsender)
    intro heq
    have hcount := congrArg (fun e : ChunkEngine =>
      e.inFlight.countKeys fun k => decide (k.1 = key.1)) heq
    have hevicted := countKeys_evictOldest e order fun k => decide (k.1 = key.1)
    simp only [if_pos hsender] at hcount
    split at hcount
    · have hagain := (shrinks_evictOldest (e.evictOldest order fun k => decide (k.1 = key.1)) order
        fun _ => true).count fun k => decide (k.1 = key.1)
      simp only [maxPerSenderInFlight] at hsender
      omega
    · simp only [maxPerSenderInFlight] at hsender
      omega
  · simp only [if_neg hsender]
    rw [and_iff_right (Nat.not_le.mp hsender)]
    by_cases hglobal : e.inFlight.size ≥ maxGlobalInFlight
    · rw [if_pos hglobal]
      refine iff_of_false ?_ (Nat.not_lt.mpr hglobal)
      intro heq
      have hcount := congrArg (fun e : ChunkEngine => e.inFlight.size) heq
      simp only [HashTable.size_eq_countKeys, countKeys_evictOldest] at hcount
      rw [HashTable.size_eq_countKeys] at hglobal
      simp only [maxGlobalInFlight] at hglobal
      omega
    · rw [if_neg hglobal]
      exact iff_of_true rfl (Nat.not_le.mp hglobal)

/-- **Rejected packets.** A rejected packet leaves the engine as purging alone would
exactly when its counts are bad, its message is in flight, or there is room for it. -/
theorem rejected_intact_iff {err : CryptoError}
    (h : e.ingestPacket P clock order srcNodeId packet swarmMasterKey = some (.error err, e')) :
    e' = e.purgeExpired clock.purge ↔
      packet.header.totalChunks ≤ packet.header.chunkIdx ∨
        keyOf srcNodeId packet ∈ (e.purgeExpired clock.purge).inFlight ∨
        (e.purgeExpired clock.purge).HasRoomFor srcNodeId := by
  have hcases := ingested P e clock order srcNodeId packet swarmMasterKey
  rw [h] at hcases
  generalize hresult : (some (Except.error err, e') :
    Option (Except CryptoError (Option String) × ChunkEngine)) = result at hcases
  cases hcases with
  | malformed counts =>
    obtain ⟨-, rfl⟩ := Prod.mk.inj (Option.some.inj hresult)
    exact iff_of_true rfl (Or.inl counts)
  | rejected err' counts undone sealed_ =>
    obtain ⟨-, rfl⟩ := Prod.mk.inj (Option.some.inj hresult)
    rw [or_iff_right (UInt8.not_le.mpr counts)]
    exact makeRoom_eq_self_iff _ order _
  | overrun => cases hresult
  | duplicate => simp at hresult
  | stored => simp at hresult
  | completed => simp at hresult

/-- A packet that claims to come from a sender and opens under no key. -/
def spoofedPacket : MeshPacket where
  header :=
    { networkTag := defaultNetworkTag
      msgId := 9
      chunkIdx := 0
      totalChunks := 2
      ttl := 7
      hopCount := 0
      flags := flagClipboard }
  payload := .zero _

/-- How a rejection is recognised. -/
theorem exists_rejected {n : ℕ}
    (h : (e.ingestPacket P clock order srcNodeId packet swarmMasterKey).map
      (fun r => (r.1.isOk, r.2.inFlight.size)) = some (false, n)) :
    ∃ err e', e.ingestPacket P clock order srcNodeId packet swarmMasterKey =
      some (.error err, e') ∧ e'.inFlight.size = n := by
  obtain ⟨⟨result, e'⟩, hcall, hresult⟩ := Option.map_eq_some_iff.mp h
  obtain ⟨hfailed, hsize⟩ := Prod.mk.inj hresult
  cases result with
  | error err => exact ⟨err, e', hcall, hsize⟩
  | ok text => cases hfailed

/-- A new engine has room for the packet it rejects. -/
theorem rejected_intact_new :
    ∃ err e', new.ingestPacket transparent ⟨6, 6⟩ (.stored _) 7 spoofedPacket (.zero 32) =
        some (.error err, e') ∧
      (e' = new.purgeExpired 6 ↔
        spoofedPacket.header.totalChunks ≤ spoofedPacket.header.chunkIdx ∨
          keyOf 7 spoofedPacket ∈ (new.purgeExpired 6).inFlight ∨
          (new.purgeExpired 6).HasRoomFor 7) := by
  have hrun : (new.ingestPacket transparent ⟨6, 6⟩ (.stored _) 7 spoofedPacket (.zero 32)).map
      (fun r => (r.1.isOk, r.2.inFlight.size)) = some (false, 0) := by
    decide +kernel
  obtain ⟨err, e', hcall, -⟩ := exists_rejected hrun
  exact ⟨err, e', hcall, rejected_intact_iff hcall⟩

/-- The first packet of a text, sent under some counter. -/
def firstHalf (counter : UInt64) : Option MeshPacket :=
  match (fragmentAndEncrypt transparent twoChunkText defaultNetworkTag 7 (.zero 32)
    ⟨1, counter, 1000⟩ .ok .missing).1 with
  | .ok packets => packets.head?
  | .error _ => none

/-- Two messages of a sender are in flight. -/
def fullShare : List EngineOp :=
  ([firstHalf 0, firstHalf 1].reduceOption).map fun packet =>
    .ingestPacket 7 packet ⟨5, 5⟩ (.stored _)

/-- A spoofed packet costs the sender one of them. -/
theorem not_intact_fullShare :
    ∃ e err e', (machine transparent (.zero 32)).final (some new) fullShare = some e ∧
      e.ingestPacket transparent ⟨6, 6⟩ (.stored _) 7 spoofedPacket (.zero 32) =
        some (.error err, e') ∧
      e' ≠ e.purgeExpired 6 := by
  have hrun : ((machine transparent (.zero 32)).final (some new) fullShare).map (fun e =>
      ((e.purgeExpired 6).inFlight.size,
        (e.ingestPacket transparent ⟨6, 6⟩ (.stored _) 7 spoofedPacket (.zero 32)).map
          fun r => (r.1.isOk, r.2.inFlight.size))) = some (2, some (false, 1)) := by
    decide +kernel
  obtain ⟨e, he, hresult⟩ := Option.map_eq_some_iff.mp hrun
  obtain ⟨hpurged, hrejected⟩ := Prod.mk.inj hresult
  obtain ⟨err, e', hcall, hsize⟩ := exists_rejected hrejected
  refine ⟨e, err, e', he, hcall, ?_⟩
  rintro rfl
  rw [hpurged] at hsize
  cases hsize

end ChunkEngine

end Gibberish.Daemon
