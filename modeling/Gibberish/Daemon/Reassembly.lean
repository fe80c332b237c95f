/-
# Reassembly

What the engine knows of one message is the set of chunk indices it has received.
Ingesting a packet of the message adds an index, whatever else is in flight, as
long as the message is neither evicted nor expired; the call that completes the set
returns what the chunks assemble to.

On a fresh engine, packets of one text that all arrive within the reassembly
timeout meet that condition by themselves. The text they assemble to is the
original without its trailing zero bytes, so it is the original exactly when that
does not end in a zero byte.
-/

import Gibberish.Daemon.EngineRun

set_option autoImplicit false

namespace Gibberish.Daemon

open Gibberish.Foundation Gibberish.Protocol Gibberish.Crypto

/-- The chunks of a text: its pieces, zero padded. -/
def chunkContent (rawBytes : List UInt8) (i : ℕ) : Bytes plaintextChunkLen :=
  paddedChunk (piece rawBytes plaintextChunkLen i)

theorem toList_chunkContent (rawBytes : List UInt8) (i : ℕ) :
    (chunkContent rawBytes i).toList =
      padTo plaintextChunkLen 0 (piece rawBytes plaintextChunkLen i) :=
  toList_paddedChunk (length_piece_le _ _ _)

/-- The first `n` chunks of a text assemble to its first `80 n` bytes, stripped. -/
theorem assemble_slotTable {n : ℕ} {rawBytes : List UInt8} {received : Finset ℕ}
    (h : Finset.range n ⊆ received) :
    assemble (slotTable n (chunkContent rawBytes) received) =
      stripEnd 0 (rawBytes.take (n * plaintextChunkLen)) := by
  rw [assemble, reduceOption_slotTable h, List.flatMap_map]
  simp only [toList_chunkContent]
  rw [flatMap_padTo_piece, stripEnd_padTo]

/-- All chunks of a text assemble to the text, stripped. -/
theorem assemble_all {rawBytes : List UInt8} {received : Finset ℕ}
    (h : Finset.range (pieceCount plaintextChunkLen rawBytes.length) ⊆ received) :
    assemble (slotTable (pieceCount plaintextChunkLen rawBytes.length) (chunkContent rawBytes)
      received) = stripEnd 0 rawBytes := by
  rw [assemble_slotTable h, List.take_of_length_le (le_pieceCount_mul (by decide) _)]

namespace InFlightMessage

variable {m : InFlightMessage} {n i now : ℕ} {content : ℕ → Bytes plaintextChunkLen}
variable {received : Finset ℕ}

/-- Storing a chunk of the content receives its index. -/
theorem storeChunk_slotTable (h : m.receivedChunks = slotTable n content received) (hi : i < n) :
    (m.storeChunk i (content i) now).receivedChunks = slotTable n content (insert i received) := by
  simp only [storeChunk, h, getElem?_slotTable hi]
  -- A second copy of a chunk changes nothing.
  by_cases hmem : i ∈ received
  · simp [hmem, Finset.insert_eq_of_mem hmem, h]
  · simp [hmem, slotTable_set]

theorem isComplete_slotTable (h : m.receivedChunks = slotTable n content received) :
    m.isComplete = true ↔ Finset.range n ⊆ received := by
  rw [isComplete, h, all_isSome_slotTable]

/-- The time of the last chunk is the time of this one or unchanged. -/
theorem lastReceived_storeChunk (m : InFlightMessage) (i : ℕ) (chunk : Bytes plaintextChunkLen)
    (now : ℕ) : (m.storeChunk i chunk now).lastReceived = now ∨
      (m.storeChunk i chunk now).lastReceived = m.lastReceived := by
  simp only [storeChunk]
  split
  · exact Or.inl rfl
  · exact Or.inr rfl

end InFlightMessage

namespace ChunkEngine

variable {P : Primitives} {swarmMasterKey : Bytes 32} {e e' : ChunkEngine}
variable {key : MessageKey} {n : ℕ} {content : ℕ → Bytes plaintextChunkLen}
variable {received : Finset ℕ}

/-! ### What the engine knows of one message -/

/-- The engine has received these of the message's `n` chunks: all of them and
completed it, or some and holds it in flight, or none. -/
def HasReceived (e : ChunkEngine) (key : MessageKey) (n : ℕ)
    (content : ℕ → Bytes plaintextChunkLen) (received : Finset ℕ) : Prop :=
  if Finset.range n ⊆ received then key ∈ e.completedCache ∧ key ∉ e.inFlight
  else key ∉ e.completedCache ∧
    match e.inFlight.lookup key with
    | none => received = ∅
    | some m => m.totalChunks = n ∧ m.receivedChunks = slotTable n content received

/-- A packet carries chunk `i` of the message with the given key. -/
structure Carries (P : Primitives) (swarmMasterKey : Bytes 32) (srcNodeId : UInt32)
    (packet : MeshPacket) (key : MessageKey) (n : ℕ) (content : ℕ → Bytes plaintextChunkLen)
    (i : ℕ) : Prop where
  key_eq : keyOf srcNodeId packet = key
  total : packet.header.totalChunks.toNat = n
  index : packet.header.chunkIdx.toNat = i
  lt : i < n
  opens : opensTo P swarmMasterKey srcNodeId packet = .ok (content i)

theorem Carries.counts {srcNodeId : UInt32} {packet : MeshPacket} {i : ℕ}
    (carries : Carries P swarmMasterKey srcNodeId packet key n content i) :
    packet.header.chunkIdx < packet.header.totalChunks := by
  rw [UInt8.lt_iff_toNat_lt, carries.index, carries.total]
  exact carries.lt

/-- The packets are those of one message: the `i`-th of them carries chunk `i`. -/
def CarryInOrder (P : Primitives) (swarmMasterKey : Bytes 32) (packets : List MeshPacket)
    (key : MessageKey) (content : ℕ → Bytes plaintextChunkLen) : Prop :=
  ∀ i packet, packets[i]? = some packet →
    Carries P swarmMasterKey key.1 packet key packets.length content i

namespace CarryInOrder

variable {packets heard : List MeshPacket} {packet : MeshPacket}

theorem index_getElem (h : CarryInOrder P swarmMasterKey packets key content) {i : ℕ}
    (hi : i < packets.length) : packets[i].header.chunkIdx.toNat = i :=
  (h i _ (List.getElem?_eq_getElem hi)).index

/-- A packet stands at the index it declares. -/
theorem getElem?_chunkIdx (h : CarryInOrder P swarmMasterKey packets key content)
    (hmem : packet ∈ packets) : packets[packet.header.chunkIdx.toNat]? = some packet := by
  obtain ⟨i, hi, rfl⟩ := List.getElem_of_mem hmem
  rw [h.index_getElem hi]
  exact List.getElem?_eq_getElem hi

theorem carries (h : CarryInOrder P swarmMasterKey packets key content)
    (hmem : packet ∈ packets) : Carries P swarmMasterKey key.1 packet key packets.length content
      packet.header.chunkIdx.toNat :=
  h _ packet (h.getElem?_chunkIdx hmem)

/-- Among the packets of a message, having heard a packet is having heard its index. -/
theorem mem_indices_iff (h : CarryInOrder P swarmMasterKey packets key content)
    (heard_sent : ∀ packet ∈ heard, packet ∈ packets) (hmem : packet ∈ packets) :
    packet.header.chunkIdx.toNat ∈ (heard.map fun packet => packet.header.chunkIdx.toNat).toFinset ↔
      packet ∈ heard := by
  rw [List.mem_toFinset, List.mem_map]
  constructor
  · intro hidx
    obtain ⟨packet', hpacket', hsame⟩ := hidx
    have hget := h.getElem?_chunkIdx (heard_sent packet' hpacket')
    rw [hsame, h.getElem?_chunkIdx hmem] at hget
    exact Option.some.inj hget ▸ hpacket'
  · exact fun hheard => ⟨packet, hheard, rfl⟩

/-- All indices are heard exactly when all packets are. -/
theorem range_subset_iff (h : CarryInOrder P swarmMasterKey packets key content)
    (heard_sent : ∀ packet ∈ heard, packet ∈ packets) :
    Finset.range packets.length ⊆
        (heard.map fun packet => packet.header.chunkIdx.toNat).toFinset ↔
      ∀ packet ∈ packets, packet ∈ heard := by
  constructor
  · intro hall packet hmem
    exact (h.mem_indices_iff heard_sent hmem).mp (hall (Finset.mem_range.mpr (h.carries hmem).lt))
  · intro hall i hi
    have hlt := Finset.mem_range.mp hi
    have hmem : packets[i] ∈ packets := List.getElem_mem hlt
    rw [← h.index_getElem hlt]
    exact (h.mem_indices_iff heard_sent hmem).mpr (hall _ hmem)

end CarryInOrder

/-- Ingesting the packet neither expires nor evicts the message. -/
def KeepsMessage (key : MessageKey) (e : ChunkEngine) (clock : IngestClock) (order : InFlightOrder)
    (srcNodeId : UInt32) (packet : MeshPacket) : Prop :=
  (key ∈ e.inFlight → key ∈ (e.prepared clock order srcNodeId packet).inFlight) ∧
    (key ∈ e.completedCache → key ∈ (e.purgeExpired clock.purge).completedCache)

variable {clock : IngestClock} {order : InFlightOrder} {srcNodeId : UInt32} {packet : MeshPacket}
variable {i : ℕ}

/-- Dropping other messages changes nothing about one that is kept. -/
theorem HasReceived.shrink (h : e.HasReceived key n content received) (hs : Shrinks e e')
    (inFlight_kept : key ∈ e.inFlight → key ∈ e'.inFlight)
    (completed_kept : key ∈ e.completedCache → key ∈ e'.completedCache) :
    e'.HasReceived key n content received := by
  simp only [HasReceived] at h ⊢
  split
  · next hall =>
    rw [if_pos hall] at h
    exact ⟨completed_kept h.1, fun hk => h.2 (hs.mem hk)⟩
  · next hall =>
    rw [if_neg hall] at h
    refine ⟨fun hk => h.1 (hs.completed key hk), ?_⟩
    -- Without the message before there is none after; with it, it is the one kept.
    cases hm : e.inFlight.lookup key with
    | none =>
      have hnone : e'.inFlight.lookup key = none := by
        rw [AList.lookup_eq_none]
        exact fun hk => AList.lookup_eq_none.mp hm (hs.mem hk)
      simpa only [hm, hnone] using h.2
    | some m =>
      obtain ⟨m', hm'⟩ := Option.isSome_iff_exists.mp
        (AList.lookup_isSome.mpr (inFlight_kept (HashTable.mem_of_lookup hm)))
      obtain rfl : m = m' := by
        have := hs.lookup key m' hm'
        rw [hm] at this
        exact Option.some.inj this
      simpa only [hm, hm'] using h.2

theorem HasReceived.purged (h : e.HasReceived key n content received)
    (keeps : KeepsMessage key e clock order srcNodeId packet) :
    (e.purgeExpired clock.purge).HasReceived key n content received :=
  h.shrink (shrinks_purgeExpired e clock.purge)
    (fun hk => (shrinks_makeRoom _ order _).mem (keeps.1 hk)) keeps.2

theorem HasReceived.prepared (h : e.HasReceived key n content received)
    (keeps : KeepsMessage key e clock order srcNodeId packet) :
    (e.prepared clock order srcNodeId packet).HasReceived key n content received :=
  h.shrink (shrinks_prepared e clock order srcNodeId packet) keeps.1 fun hk => by
    rw [completedCache_prepared]
    exact keeps.2 hk

/-- The slots of the entry a packet of the message goes to. -/
theorem HasReceived.slots_entryFor (h : e.HasReceived key n content received)
    (hall : ¬ Finset.range n ⊆ received) (now : ℕ)
    (carries : Carries P swarmMasterKey srcNodeId packet key n content i) :
    (e.entryFor now srcNodeId packet).totalChunks = n ∧
      (e.entryFor now srcNodeId packet).receivedChunks = slotTable n content received := by
  rw [HasReceived, if_neg hall] at h
  cases hm : e.inFlight.lookup key with
  | some m =>
    rw [entryFor_of_lookup (by rwa [carries.key_eq])]
    simpa only [hm] using h.2
  | none =>
    obtain rfl : received = ∅ := by simpa only [hm] using h.2
    rw [entryFor_of_notMem (carries.key_eq ▸ AList.lookup_eq_none.mp hm), carries.total]
    exact ⟨rfl, (slotTable_empty n content).symm⟩

/-- What a call returns on a packet that adds chunk `i` to those received. -/
def reassembled (n : ℕ) (content : ℕ → Bytes plaintextChunkLen) (received : Finset ℕ) (i : ℕ) :
    Option String :=
  if ¬ Finset.range n ⊆ received ∧ Finset.range n ⊆ insert i received then
    fromUtf8 (assemble (slotTable n content (insert i received)))
  else none

/-- A packet of a message that is complete is dropped. -/
theorem HasReceived.ingest_complete (h : e.HasReceived key n content received)
    (hall : Finset.range n ⊆ received)
    (keeps : KeepsMessage key e clock order srcNodeId packet)
    (carries : Carries P swarmMasterKey srcNodeId packet key n content i) :
    e.ingestPacket P clock order srcNodeId packet swarmMasterKey =
      some (.ok none, e.purgeExpired clock.purge) := by
  have hdone : key ∈ (e.purgeExpired clock.purge).completedCache := by
    rw [HasReceived, if_pos hall] at h
    exact keeps.2 h.1
  have hcases := ingested P e clock order srcNodeId packet swarmMasterKey
  generalize e.ingestPacket P clock order srcNodeId packet swarmMasterKey = result at hcases ⊢
  cases hcases with
  | malformed hbad => exact absurd carries.counts (UInt8.not_lt.mpr hbad)
  | duplicate _ _ => rfl
  | rejected _ _ undone _ => exact absurd hdone (carries.key_eq ▸ undone)
  | overrun _ _ undone _ _ => exact absurd hdone (carries.key_eq ▸ undone)
  | stored _ _ _ undone _ _ _ _ => exact absurd hdone (carries.key_eq ▸ undone)
  | completed _ _ _ undone _ _ _ _ => exact absurd hdone (carries.key_eq ▸ undone)

/-- Storing the chunk of a packet of the message receives its index. -/
theorem HasReceived.storeChunk_entryFor (h : e.HasReceived key n content received)
    (hall : ¬ Finset.range n ⊆ received) (now : ℕ)
    (carries : Carries P swarmMasterKey srcNodeId packet key n content i)
    {chunk : Bytes plaintextChunkLen}
    (opens : opensTo P swarmMasterKey srcNodeId packet = .ok chunk) :
    ((e.entryFor now srcNodeId packet).storeChunk packet.header.chunkIdx.toNat chunk
      now).receivedChunks = slotTable n content (insert i received) := by
  obtain rfl : content i = chunk := Except.ok.inj (carries.opens.symm.trans opens)
  rw [carries.index]
  exact InFlightMessage.storeChunk_slotTable (h.slots_entryFor hall now carries).2 carries.lt

/-- A packet of a message that lacks some chunk adds its own. -/
theorem HasReceived.ingest_missing (h : e.HasReceived key n content received)
    (hall : ¬ Finset.range n ⊆ received)
    (keeps : KeepsMessage key e clock order srcNodeId packet)
    (carries : Carries P swarmMasterKey srcNodeId packet key n content i) :
    ∃ e', e.ingestPacket P clock order srcNodeId packet swarmMasterKey =
        some (.ok (reassembled n content received i), e') ∧
      e'.HasReceived key n content (insert i received) := by
  have hprepared := h.prepared keeps
  have hundone : key ∉ (e.purgeExpired clock.purge).completedCache := by
    rw [HasReceived, if_neg hall] at h
    exact fun hk => h.1 ((shrinks_purgeExpired e clock.purge).completed key hk)
  obtain ⟨htotal, hslots⟩ := hprepared.slots_entryFor hall clock.now carries
  have hinside : packet.header.chunkIdx.toNat < ((e.prepared clock order srcNodeId
      packet).entryFor clock.now srcNodeId packet).receivedChunks.length := by
    rw [hslots, length_slotTable, carries.index]
    exact carries.lt
  have hcases := ingested P e clock order srcNodeId packet swarmMasterKey
  generalize e.ingestPacket P clock order srcNodeId packet swarmMasterKey = result at hcases
  -- The message is neither malformed nor done nor sealed, and its index is inside.
  cases hcases with
  | malformed hbad => exact absurd carries.counts (UInt8.not_lt.mpr hbad)
  | duplicate _ done => exact absurd (carries.key_eq ▸ done) hundone
  | rejected err _ _ hsealed => simp [carries.opens] at hsealed
  | overrun _ _ _ _ outside => exact absurd hinside (Nat.not_lt.mpr outside)
  | stored chunk entry _ _ opens _ entry_eq incomplete =>
    subst entry_eq
    have hstored := hprepared.storeChunk_entryFor hall clock.now carries opens
    have hmissing : ¬ Finset.range n ⊆ insert i received := by
      intro hsub
      rw [(InFlightMessage.isComplete_slotTable hstored).mpr hsub] at incomplete
      exact Bool.noConfusion incomplete
    refine ⟨_, by rw [reassembled, if_neg fun hc => hmissing hc.2], ?_⟩
    rw [HasReceived, if_neg hmissing, ← carries.key_eq]
    refine ⟨?_, ?_⟩
    · show keyOf srcNodeId packet ∉ (e.prepared clock order srcNodeId packet).completedCache
      rwa [completedCache_prepared, carries.key_eq]
    · simp only [AList.lookup_insert, totalChunks_storeChunk]
      exact ⟨htotal, hstored⟩
  | completed chunk entry _ _ opens _ entry_eq complete =>
    subst entry_eq
    have hstored := hprepared.storeChunk_entryFor hall clock.now carries opens
    have hsub : Finset.range n ⊆ insert i received :=
      (InFlightMessage.isComplete_slotTable hstored).mp complete
    refine ⟨_, by rw [reassembled, if_pos ⟨hall, hsub⟩, hstored], ?_⟩
    rw [HasReceived, if_pos hsub, ← carries.key_eq]
    refine ⟨?_, ?_⟩
    · show keyOf srcNodeId packet ∈ AList.insert _ _ _
      exact (AList.mem_insert _).mpr (Or.inl rfl)
    · show keyOf srcNodeId packet ∉ AList.erase _ _
      exact fun hk => (AList.mem_erase.mp hk).1 rfl

/-- **A chunk arrives.** Ingesting a packet of a message that is kept returns the
text if this is the last missing chunk and nothing otherwise, and the engine has
received the chunk from then on. -/
theorem HasReceived.ingest (h : e.HasReceived key n content received)
    (keeps : KeepsMessage key e clock order srcNodeId packet)
    (carries : Carries P swarmMasterKey srcNodeId packet key n content i) :
    ∃ e', e.ingestPacket P clock order srcNodeId packet swarmMasterKey =
        some (.ok (reassembled n content received i), e') ∧
      e'.HasReceived key n content (insert i received) := by
  by_cases hall : Finset.range n ⊆ received
  · have hnone : reassembled n content received i = none := if_neg fun hc => hc.1 hall
    have hsub : Finset.range n ⊆ insert i received := hall.trans (Finset.subset_insert i received)
    have hpurged := h.purged keeps
    refine ⟨_, by rw [hnone, h.ingest_complete hall keeps carries], ?_⟩
    rw [HasReceived, if_pos hall] at hpurged
    rwa [HasReceived, if_pos hsub]
  · exact h.ingest_missing hall keeps carries

/-! ### Arrivals of one message -/

/-- What the calls return as chunks of the given indices arrive one by one. -/
def reassembledAll (n : ℕ) (content : ℕ → Bytes plaintextChunkLen) :
    Finset ℕ → List ℕ → List (Except CryptoError (Option String))
  | _, [] => []
  | received, i :: rest =>
    .ok (reassembled n content received i) :: reassembledAll n content (insert i received) rest

/-- After the last missing chunk nothing is returned any more. -/
theorem reassembledAll_of_all (indices : List ℕ) (hall : Finset.range n ⊆ received) :
    reassembledAll n content received indices = List.replicate indices.length (.ok none) := by
  induction indices generalizing received with
  | nil => rfl
  | cons i rest ih =>
    rw [reassembledAll, ih (hall.trans (Finset.subset_insert i received)), reassembled,
      if_neg fun hc => hc.1 hall]
    rfl

/-- **One text.** If all chunks arrive in the end, exactly one call returns a text:
the one whose chunk completes the set. -/
theorem exists_reassembledAll (content : ℕ → Bytes plaintextChunkLen) {indices : List ℕ}
    (hmissing : ¬ Finset.range n ⊆ received)
    (hcover : Finset.range n ⊆ received ∪ indices.toFinset) :
    ∃ before i after, indices = before ++ i :: after ∧
      ¬ Finset.range n ⊆ received ∪ before.toFinset ∧
      Finset.range n ⊆ insert i (received ∪ before.toFinset) ∧
      reassembledAll n content received indices =
        List.replicate before.length (.ok none) ++
          .ok (fromUtf8 (assemble (slotTable n content (insert i (received ∪ before.toFinset))))) ::
            List.replicate after.length (.ok none) := by
  induction indices generalizing received with
  | nil => exact absurd (by simpa using hcover) hmissing
  | cons i rest ih =>
    -- Either this chunk completes the set, or the rest contains the one that does.
    by_cases hlast : Finset.range n ⊆ insert i received
    · refine ⟨[], i, rest, rfl, by simpa using hmissing, by simpa using hlast, ?_⟩
      rw [reassembledAll, reassembledAll_of_all rest hlast, reassembled, if_pos ⟨hmissing, hlast⟩]
      simp
    · have hinsert : ∀ l : List ℕ,
          received ∪ (i :: l).toFinset = insert i received ∪ l.toFinset := by
        intro l
        ext j
        simp only [List.toFinset_cons, Finset.mem_union, Finset.mem_insert]
        tauto
      rw [hinsert] at hcover
      obtain ⟨before, j, after, rfl, hbefore, hafter, heq⟩ := ih hlast hcover
      refine ⟨i :: before, j, after, rfl, by rwa [hinsert], by rwa [hinsert], ?_⟩
      rw [reassembledAll, heq, hinsert, reassembled, if_neg fun hc => hlast hc.2]
      rfl

end ChunkEngine

/-- A packet heard at some time, with the iteration order of the call that ingests it. -/
structure Arrival where
  packet : MeshPacket
  clock : IngestClock
  order : InFlightOrder

/-- The chunk index an arrival declares. -/
def Arrival.index (a : Arrival) : ℕ := a.packet.header.chunkIdx.toNat

/-- No arrival is purged for ten seconds or more after an earlier one was stored. -/
def WithinTimeout (arrivals : List Arrival) : Prop :=
  arrivals.Pairwise fun a b => b.clock.purge < a.clock.now + reassemblyTimeout

namespace ChunkEngine

variable (P : Primitives) (swarmMasterKey : Bytes 32) (srcNodeId : UInt32)

/-- Ingest one arrival from the given node and return the call's result. -/
def arrive : Option ChunkEngine → Arrival →
    Option ChunkEngine × List (Except CryptoError (Option String))
  | none, _ => (none, [])
  | some e, a =>
    match e.ingestPacket P a.clock a.order srcNodeId a.packet swarmMasterKey with
    | none => (none, [])
    | some (result, e) => (some e, [result])

/-- The engine hearing one node, as a machine that emits the results of the calls. -/
def arrivals : Machine (Option ChunkEngine) Arrival (Except CryptoError (Option String)) :=
  ⟨arrive P swarmMasterKey srcNodeId⟩

variable {P swarmMasterKey srcNodeId} {e e' : ChunkEngine} {key : MessageKey} {n : ℕ}
variable {content : ℕ → Bytes plaintextChunkLen} {clock : IngestClock} {order : InFlightOrder}
variable {packet : MeshPacket}

/-- The chunks of the message arrived at times of the past arrivals. -/
structure Dated (e : ChunkEngine) (key : MessageKey) (past : List Arrival) : Prop where
  inFlight : ∀ m, e.inFlight.lookup key = some m → ∃ a ∈ past, m.lastReceived = a.clock.now
  completed : ∀ t, e.completedCache.lookup key = some t → ∃ a ∈ past, t = a.clock.now

/-- A message whose chunks arrived less than ten seconds ago is kept. -/
theorem Dated.keeps {past : List Arrival} (h : Dated e key past)
    (hkey : keyOf srcNodeId packet = key)
    (hsoon : ∀ a ∈ past, clock.purge < a.clock.now + reassemblyTimeout) :
    KeepsMessage key e clock order srcNodeId packet := by
  constructor
  · intro hmem
    obtain ⟨m, hm⟩ := Option.isSome_iff_exists.mp (AList.lookup_isSome.mpr hmem)
    obtain ⟨a, ha, hlast⟩ := h.inFlight m hm
    have hpurge := hsoon a ha
    -- `saturating_duration_since` is zero when the purge reads an earlier clock.
    have hpositive : 0 < reassemblyTimeout := by decide
    have hearly : clock.purge - m.lastReceived < reassemblyTimeout := by omega
    have hkept : key ∈ (e.purgeExpired clock.purge).inFlight :=
      HashTable.mem_retain.mpr ⟨m, hm, decide_eq_true hearly⟩
    rwa [ChunkEngine.prepared, hkey, makeRoom_of_mem hkept]
  · intro hmem
    obtain ⟨t, ht⟩ := Option.isSome_iff_exists.mp (AList.lookup_isSome.mpr hmem)
    obtain ⟨a, ha, heq⟩ := h.completed t ht
    have hpurge := hsoon a ha
    -- Completed messages are kept for longer than the timeout.
    have hearly : clock.purge - t < cacheRetention := by
      simp only [reassemblyTimeout, cacheRetention] at *
      omega
    exact HashTable.mem_retain.mpr ⟨t, ht, decide_eq_true hearly⟩

/-- Ingesting one more packet of the message dates the engine by it. -/
theorem Dated.ingest {past : List Arrival} (h : Dated e key past) (a : Arrival)
    {result : Except CryptoError (Option String)}
    (heq : e.ingestPacket P a.clock a.order srcNodeId a.packet swarmMasterKey =
      some (result, e')) : Dated e' key (past ++ [a]) := by
  have hold : ∀ m, e.inFlight.lookup key = some m →
      ∃ b ∈ past ++ [a], m.lastReceived = b.clock.now := by
    intro m hm
    obtain ⟨b, hb, hlast⟩ := h.inFlight m hm
    exact ⟨b, List.mem_append_left _ hb, hlast⟩
  constructor
  · intro m hm
    rcases inFlight_of_ingestPacket heq hm with hm | ⟨entry, chunk, -, -, hentry, rfl⟩
    · exact hold m hm
    · rcases InFlightMessage.lastReceived_storeChunk entry a.packet.header.chunkIdx.toNat chunk
        a.clock.now with hnow | hlast
      · exact ⟨a, by simp, hnow⟩
      · rw [hlast]
        rcases hentry with hentry | rfl
        · exact hold entry hentry
        · exact ⟨a, by simp, rfl⟩
  · intro t ht
    rcases completed_of_ingestPacket heq ht with ht | ⟨-, rfl⟩
    · obtain ⟨b, hb, heq⟩ := h.completed t ht
      exact ⟨b, List.mem_append_left _ hb, heq⟩
    · exact ⟨a, by simp, rfl⟩

/-- **Run lemma.** Packets of one message that arrive within the timeout return
what their chunk indices reassemble to. -/
theorem outputs_arrivals {past rest : List Arrival} {received : Finset ℕ}
    (h : e.HasReceived key n content received) (dated : Dated e key past)
    (soon : WithinTimeout (past ++ rest))
    (carries : ∀ a ∈ rest, Carries P swarmMasterKey srcNodeId a.packet key n content a.index) :
    (arrivals P swarmMasterKey srcNodeId).outputs (some e) rest =
      reassembledAll n content received (rest.map Arrival.index) := by
  induction rest generalizing e past received with
  | nil => rfl
  | cons a rest ih =>
    -- No earlier arrival has timed out when this one is ingested, so the message is kept.
    have hcarries := carries a List.mem_cons_self
    have hsoon : ∀ b ∈ past, a.clock.purge < b.clock.now + reassemblyTimeout := by
      intro b hb
      exact (List.pairwise_append.mp soon).2.2 b hb a List.mem_cons_self
    obtain ⟨e', heq, h'⟩ := h.ingest (dated.keeps hcarries.key_eq hsoon) hcarries
    have hdated := dated.ingest a heq
    have hrest := ih h' hdated (by rwa [List.append_assoc]) fun b hb =>
      carries b (List.mem_cons_of_mem a hb)
    rw [Machine.outputs_cons, List.map_cons, reassembledAll, ← hrest]
    simp only [Machine.emit, Machine.next, arrivals, arrive, heq]
    rfl

/-! ### The packets of a text -/

/-- The packets a node sends for a text carry its chunks, in order. -/
theorem carries_of_fragmentAndEncrypt (correct : P.DecryptsEncrypted) {text : String}
    {swarmTag : UInt64} {localNodeId : UInt32} {mgr : NonceManager} {io : IoOutcome}
    {file : StateFile} {packets : List MeshPacket} (hne : asBytes text ≠ [])
    (hsent : (fragmentAndEncrypt P text swarmTag localNodeId swarmMasterKey mgr io file).1 =
      .ok packets) :
    CarryInOrder P swarmMasterKey packets
      (localNodeId, messageId localNodeId mgr.currentCounter) (chunkContent (asBytes text)) := by
  obtain ⟨-, hlen, hall⟩ := fragmentAndEncrypt_ok hne hsent
  intro i packet hpacket
  obtain ⟨hheader, hencrypt⟩ := hall i packet hpacket
  have hi : i < packets.length := (List.getElem?_eq_some_iff.mp hpacket).1
  have hbyte : i < 2 ^ 8 := hi.trans (hlen ▸ UInt8.toNat_lt _)
  have hdecrypt := Primitives.decryptChunk_of_encryptChunk correct hencrypt
  exact
    { key_eq := by simp [keyOf, hheader, dataHeader]
      total := by rw [hheader, hlen]; rfl
      index := by rw [hheader]; exact Nat.mod_eq_of_lt hbyte
      lt := hi
      opens := by rw [opensTo, hheader]; exact hdecrypt }

/-- Of a message it does not know, an engine has received nothing. -/
theorem hasReceived_unknown (hn : 0 < n) (inFlight : key ∉ e.inFlight)
    (completed : key ∉ e.completedCache) : e.HasReceived key n content ∅ := by
  have hmissing : ¬ Finset.range n ⊆ ∅ := by simp [hn.ne']
  rw [HasReceived, if_neg hmissing, AList.lookup_eq_none.mpr inFlight]
  exact ⟨completed, rfl⟩

theorem dated_new : Dated new key [] where
  inFlight m hm := by simp [new] at hm
  completed t ht := by simp [new] at ht

/-- When every packet of a message is heard, one arrival brings the last of them, and
the calls return what all chunks assemble to at that arrival only. -/
theorem CarryInOrder.exists_last_missing {packets : List MeshPacket} {heard : List Arrival}
    (h : CarryInOrder P swarmMasterKey packets key content) (hpos : 0 < packets.length)
    (heard_sent : ∀ a ∈ heard, a.packet ∈ packets)
    (all_heard : ∀ packet ∈ packets, ∃ a ∈ heard, a.packet = packet) :
    ∃ before last after, heard = before ++ last :: after ∧
      (∀ a ∈ before, a.packet ≠ last.packet) ∧
      (∀ packet ∈ packets, ∃ a ∈ before ++ [last], a.packet = packet) ∧
      Finset.range packets.length ⊆ insert last.index (before.map Arrival.index).toFinset ∧
      reassembledAll packets.length content ∅ (heard.map Arrival.index) =
        List.replicate before.length (.ok none) ++
          .ok (fromUtf8 (assemble (slotTable packets.length content
            (insert last.index (before.map Arrival.index).toFinset)))) ::
          List.replicate after.length (.ok none) := by
  -- The chunk index of an arrival is that of its packet.
  have hindices : ∀ l : List Arrival, l.map Arrival.index =
      (l.map Arrival.packet).map fun packet => packet.header.chunkIdx.toNat := by
    intro l
    rw [List.map_map]
    rfl
  have hpackets : ∀ l : List Arrival, (∀ a ∈ l, a ∈ heard) →
      ∀ packet ∈ l.map Arrival.packet, packet ∈ packets := by
    intro l hsub packet hmem
    obtain ⟨a, ha, rfl⟩ := List.mem_map.mp hmem
    exact heard_sent a (hsub a ha)
  have hmissing : ¬ Finset.range packets.length ⊆ ∅ := by simp [List.length_pos_iff.mp hpos]
  have hcover : Finset.range packets.length ⊆ ∅ ∪ (heard.map Arrival.index).toFinset := by
    rw [Finset.empty_union, hindices, h.range_subset_iff (hpackets heard fun a ha => ha)]
    intro packet hmem
    exact List.mem_map.mpr (all_heard packet hmem)
  obtain ⟨indices, i, rest, hsplit, hbefore, hafter, hresult⟩ :=
    exists_reassembledAll content hmissing hcover
  rw [Finset.empty_union] at hbefore hafter hresult
  obtain ⟨before, heardRest, rfl, rfl, hmapRest⟩ := List.map_eq_append_iff.mp hsplit
  obtain ⟨last, after, rfl, rfl, rfl⟩ := List.map_eq_cons_iff.mp hmapRest
  refine ⟨before, last, after, rfl, ?_, ?_, hafter, ?_⟩
  · intro a ha heq
    have hmem : last.index ∈ (before.map Arrival.index).toFinset := by
      rw [List.mem_toFinset, Arrival.index, ← heq]
      exact List.mem_map_of_mem ha
    rw [Finset.insert_eq_of_mem hmem] at hafter
    exact hbefore hafter
  · have hall : Finset.range packets.length ⊆
        ((before ++ [last]).map Arrival.index).toFinset := by
      intro i hi
      simpa [eq_comm, or_comm] using hafter hi
    have hsub : ∀ a ∈ before ++ [last], a ∈ before ++ last :: after := by
      intro a ha
      rcases List.mem_append.mp ha with ha | ha
      · exact List.mem_append_left _ ha
      · exact List.mem_append_right _ (by simp [List.mem_singleton.mp ha])
    rw [hindices, h.range_subset_iff (hpackets _ hsub)] at hall
    intro packet hmem
    exact List.mem_map.mp (hall packet hmem)
  · rw [hresult, List.length_map, List.length_map]

/-- Some call returns the text, the others return nothing, and it is the call whose
packet is the last one missing. -/
def ReturnsOnce (P : Primitives) (swarmMasterKey : Bytes 32) (srcNodeId : UInt32)
    (packets : List MeshPacket) (heard : List Arrival) (text : String) : Prop :=
  ∃ before last after, heard = before ++ last :: after ∧
    (∀ a ∈ before, a.packet ≠ last.packet) ∧
    (∀ packet ∈ packets, ∃ a ∈ before ++ [last], a.packet = packet) ∧
    (arrivals P swarmMasterKey srcNodeId).outputs (some new) heard =
      List.replicate before.length (.ok none) ++
        .ok (some text) :: List.replicate after.length (.ok none)

/-- **Round trip in any order.** When all packets of a text are sent and each one
arrives at a fresh engine, in any order and with any duplicates, within the
timeout, the text is returned exactly once, at its last missing packet, if and only
if it does not end in a zero byte. -/
theorem returnsOnce_iff (P : Primitives) (correct : P.DecryptsEncrypted) (text : String)
    (swarmTag : UInt64) (localNodeId : UInt32) (swarmMasterKey : Bytes 32) (mgr : NonceManager)
    (io : IoOutcome) (file : StateFile) (packets : List MeshPacket) (heard : List Arrival)
    (nonempty : asBytes text ≠ [])
    (sent : (fragmentAndEncrypt P text swarmTag localNodeId swarmMasterKey mgr io file).1 =
      .ok packets)
    (all_sent : packets.length = pieceCount plaintextChunkLen (asBytes text).length)
    (heard_sent : ∀ a ∈ heard, a.packet ∈ packets)
    (all_heard : ∀ packet ∈ packets, ∃ a ∈ heard, a.packet = packet)
    (soon : WithinTimeout heard) :
    ReturnsOnce P swarmMasterKey localNodeId packets heard text ↔
      (asBytes text).getLast? ≠ some 0 := by
  have hcarry := carries_of_fragmentAndEncrypt correct nonempty sent
  have hpos : 0 < packets.length :=
    all_sent ▸ pieceCount_pos (by decide) (List.length_pos_iff.mpr nonempty)
  have hfresh : new.HasReceived (localNodeId, messageId localNodeId mgr.currentCounter)
      packets.length (chunkContent (asBytes text)) ∅ :=
    hasReceived_unknown hpos (AList.notMem_empty _) (AList.notMem_empty _)
  have houtputs := outputs_arrivals hfresh dated_new soon
    fun a ha => hcarry.carries (heard_sent a ha)
  obtain ⟨before, last, after, rfl, hfirst, hlast, hcover, hresult⟩ :=
    hcarry.exists_last_missing hpos heard_sent all_heard
  have hassembled := all_sent ▸ assemble_all (all_sent ▸ hcover)
  rw [hassembled] at hresult
  constructor
  · intro h
    obtain ⟨_, _, _, -, -, -, hreturned⟩ := h
    -- The only text among the results is the stripped one.
    have hmem : (.ok (some text) : Except CryptoError (Option String)) ∈
        reassembledAll packets.length (chunkContent (asBytes text)) ∅
          ((before ++ last :: after).map Arrival.index) := by
      rw [← houtputs, hreturned]
      simp
    rw [hresult] at hmem
    have htext : some text = fromUtf8 (stripEnd 0 (asBytes text)) := by
      simpa [List.mem_replicate] using hmem
    exact (stripEnd_eq_self_iff _).mp (asBytes_of_fromUtf8 htext.symm).symm
  · intro hend
    refine ⟨before, last, after, rfl, hfirst, hlast, ?_⟩
    rw [houtputs, hresult, (stripEnd_eq_self_iff _).mpr hend, fromUtf8_asBytes]

/-- All packets heard at once, last one first and each of them twice. -/
def heardBackwardsTwice (packets : List MeshPacket) : List Arrival :=
  (packets.reverse ++ packets).map fun packet => ⟨packet, ⟨0, 0⟩, .stored _⟩

private theorem heardBackwardsTwice_spec (packets : List MeshPacket) :
    (∀ a ∈ heardBackwardsTwice packets, a.packet ∈ packets) ∧
      (∀ packet ∈ packets, ∃ a ∈ heardBackwardsTwice packets, a.packet = packet) ∧
      WithinTimeout (heardBackwardsTwice packets) := by
  refine ⟨?_, ?_, ?_⟩
  · intro a ha
    obtain ⟨packet, hpacket, rfl⟩ := List.mem_map.mp ha
    simpa using hpacket
  · intro packet hpacket
    exact ⟨⟨packet, ⟨0, 0⟩, .stored _⟩, List.mem_map.mpr ⟨packet, by simpa using hpacket, rfl⟩, rfl⟩
  · rw [WithinTimeout, heardBackwardsTwice, List.pairwise_map]
    exact List.pairwise_of_forall fun _ _ => (by decide : 0 < 0 + reassemblyTimeout)

/-- The packets of that text, as node 7 sends them. -/
theorem transparentPackets_sent :
    (fragmentAndEncrypt transparent twoChunkText defaultNetworkTag 7 (.zero 32) ⟨1, 0, 1000⟩ .ok
      .missing).1 = .ok (transparentPackets twoChunkText 7) := by
  have hok : (fragmentAndEncrypt transparent twoChunkText defaultNetworkTag 7 (.zero 32)
      ⟨1, 0, 1000⟩ .ok .missing).1.isOk = true := by
    decide +kernel
  rw [transparentPackets]
  split
  · next hpackets => exact hpackets
  · next herror =>
    rw [herror] at hok
    cases hok

/-- A text of two chunks is returned once. -/
theorem returnsOnce_twoChunkText :
    ReturnsOnce transparent (.zero 32) 7 (transparentPackets twoChunkText 7)
      (heardBackwardsTwice (transparentPackets twoChunkText 7)) twoChunkText :=
  (returnsOnce_iff transparent transparent_decryptsEncrypted twoChunkText defaultNetworkTag 7
    (.zero 32) ⟨1, 0, 1000⟩ .ok .missing _ _ (by decide) transparentPackets_sent (by decide +kernel)
    (heardBackwardsTwice_spec _).1 (heardBackwardsTwice_spec _).2.1
    (heardBackwardsTwice_spec _).2.2).mpr (by decide)

/-- A text that ends in a zero byte loses it. -/
theorem not_returnsOnce_trailingZero :
    ¬ ReturnsOnce transparent (.zero 32) 7 (transparentPackets "a\x00" 7)
      (heardBackwardsTwice (transparentPackets "a\x00" 7)) "a\x00" := by
  have hreturned : (arrivals transparent (.zero 32) 7).outputs (some new)
      (heardBackwardsTwice (transparentPackets "a\x00" 7)) = [.ok (some "a"), .ok none] := by
    decide +kernel
  intro h
  obtain ⟨before, last, after, -, -, -, houtputs⟩ := h
  have hmem : (.ok (some "a\x00") : Except CryptoError (Option String)) ∈
      [.ok (some "a"), .ok none] := by
    rw [← hreturned, houtputs]
    simp
  simp at hmem

end ChunkEngine

end Gibberish.Daemon
