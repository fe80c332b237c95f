/-
# Runs of the chunk engine

The engine as a machine over all its operations, until one panics. In every run the
reassembly state stays within its limits: the number of messages in flight, overall
and per sender, and the shape of each.
-/

import Gibberish.Daemon.ChunkEngine
import Gibberish.Foundation.Machine

set_option autoImplicit false

namespace Gibberish.Daemon

open Gibberish.Foundation Gibberish.Protocol Gibberish.Crypto

/-- A call of the engine with its arguments, clock readings and iteration order. -/
inductive EngineOp where
  | ingestPacket (srcNodeId : UInt32) (packet : MeshPacket) (clock : IngestClock)
      (order : InFlightOrder)
  | cacheOutbound (packets : List MeshPacket) (now : ℕ)
  | handleSack (sackPacket : MeshPacket)
  | checkPendingSacks (localNodeId : UInt32) (swarmTag : UInt64) (now : ℕ) (order : InFlightOrder)
  | suppressSack (msgId : UInt32) (now : ℕ)

/-- A text returned by `ingest_packet`, with the clock readings of that call. -/
structure Delivery where
  key : MessageKey
  clock : IngestClock
  text : String
  deriving DecidableEq

namespace ChunkEngine

variable (P : Primitives) (swarmMasterKey : Bytes 32)

/-- One call; there is no engine left once a call has panicked. -/
def step : Option ChunkEngine → EngineOp → Option ChunkEngine × List Delivery
  | none, _ => (none, [])
  | some e, .ingestPacket srcNodeId packet clock order =>
    match e.ingestPacket P clock order srcNodeId packet swarmMasterKey with
    | none => (none, [])
    | some (.ok (some text), e) => (some e, [⟨keyOf srcNodeId packet, clock, text⟩])
    | some (.ok none, e) => (some e, [])
    | some (.error _, e) => (some e, [])
  | some e, .cacheOutbound packets now => (some (e.cacheOutbound packets now), [])
  | some e, .handleSack _ => (some e, [])
  | some e, .checkPendingSacks localNodeId swarmTag now order =>
    (some (e.checkPendingSacks localNodeId swarmTag now order).2, [])
  | some e, .suppressSack msgId now => (some (e.suppressSack msgId now), [])

/-- The engine as a machine that emits the texts it returns. -/
def machine : Machine (Option ChunkEngine) EngineOp Delivery := ⟨step P swarmMasterKey⟩

variable {P swarmMasterKey} {e e' e'' : ChunkEngine} {order : InFlightOrder} {key : MessageKey}
variable {s : Option ChunkEngine} {op : EngineOp} {d : Delivery}

/-! ### What a call can do -/

/-- The engines differ at most in SACK timers and in the outbox. -/
structure SameChunks (e e' : ChunkEngine) : Prop where
  keys : e'.inFlight.keys = e.inFlight.keys
  lookup : ∀ key m', e'.inFlight.lookup key = some m' → ∃ m, e.inFlight.lookup key = some m ∧
    m'.receivedChunks = m.receivedChunks ∧ m'.totalChunks = m.totalChunks ∧
    m'.lastReceived = m.lastReceived
  completed : e'.completedCache = e.completedCache

theorem SameChunks.mem_iff (h : SameChunks e e') : key ∈ e'.inFlight ↔ key ∈ e.inFlight := by
  rw [AList.mem_keys, h.keys, AList.mem_keys]

/-- Changing the timers of each message in place. -/
theorem sameChunks_mapValues (e : ChunkEngine) (f : MessageKey → InFlightMessage → InFlightMessage)
    (hf : ∀ key m, (f key m).receivedChunks = m.receivedChunks ∧
      (f key m).totalChunks = m.totalChunks ∧ (f key m).lastReceived = m.lastReceived) :
    SameChunks e { e with inFlight := e.inFlight.mapValues f } where
  keys := HashTable.keys_mapValues _ _
  lookup key m' hm' := by
    rw [HashTable.lookup_mapValues] at hm'
    obtain ⟨m, hm, rfl⟩ := Option.map_eq_some_iff.mp hm'
    exact ⟨m, hm, hf key m⟩
  completed := rfl

/-- **Inversion.** A call that does not panic ingests a packet, or leaves all chunks
and completed messages alone. -/
theorem next_cases (h : (machine P swarmMasterKey).next (some e) op = some e') :
    (∃ srcNodeId packet clock order result, op = .ingestPacket srcNodeId packet clock order ∧
        e.ingestPacket P clock order srcNodeId packet swarmMasterKey = some (result, e')) ∨
      ((∀ srcNodeId packet clock order, op ≠ .ingestPacket srcNodeId packet clock order) ∧
        SameChunks e e') := by
  have hrefl : SameChunks e e := ⟨rfl, fun _ m' hm' => ⟨m', hm', rfl, rfl, rfl⟩, rfl⟩
  cases op with
  | ingestPacket srcNodeId packet clock order =>
    left
    simp only [Machine.next, machine, step] at h
    split at h
    · cases h
    all_goals
      next hcall =>
        obtain rfl := Option.some.inj h
        exact ⟨_, _, _, _, _, rfl, hcall⟩
  | cacheOutbound packets now =>
    obtain rfl := Option.some.inj h
    refine Or.inr ⟨by simp, ?_⟩
    -- The outbox is neither of the two caches.
    cases packets with
    | nil => exact hrefl
    | cons first rest => exact ⟨hrefl.keys, hrefl.lookup, hrefl.completed⟩
  | handleSack sackPacket =>
    obtain rfl := Option.some.inj h
    exact Or.inr ⟨by simp, hrefl⟩
  | checkPendingSacks localNodeId swarmTag now order =>
    obtain rfl := Option.some.inj h
    refine Or.inr ⟨by simp, sameChunks_mapValues e _ fun key m => ?_⟩
    split <;> exact ⟨rfl, rfl, rfl⟩
  | suppressSack msgId now =>
    obtain rfl := Option.some.inj h
    refine Or.inr ⟨by simp, sameChunks_mapValues e _ fun key m => ?_⟩
    split <;> exact ⟨rfl, rfl, rfl⟩

/-- There is no engine after a panic. -/
theorem next_none (op : EngineOp) : (machine P swarmMasterKey).next none op = none := rfl

/-- A text is emitted by the call of `ingest_packet` that returns it. -/
theorem emit_cases (h : d ∈ (machine P swarmMasterKey).emit s op) :
    ∃ e e' srcNodeId packet order, s = some e ∧
      op = .ingestPacket srcNodeId packet d.clock order ∧ d.key = keyOf srcNodeId packet ∧
      e.ingestPacket P d.clock order srcNodeId packet swarmMasterKey =
        some (.ok (some d.text), e') ∧
      (machine P swarmMasterKey).next s op = some e' ∧
      (machine P swarmMasterKey).emit s op = [d] := by
  cases s with
  | none => simp [Machine.emit, machine, step] at h
  | some e =>
    cases op with
    | ingestPacket srcNodeId packet clock order =>
      simp only [Machine.emit, machine, step] at h
      split at h
      · simp at h
      · next text e' heq =>
        obtain rfl := List.mem_singleton.mp h
        exact ⟨e, e', srcNodeId, packet, order, rfl, rfl, rfl, heq,
          by simp only [Machine.next, machine, step, heq],
          by simp only [Machine.emit, machine, step, heq]⟩
      · simp at h
      · simp at h
    | _ => simp [Machine.emit, machine, step] at h

/-! ### The limits -/

/-- An in-flight message has some chunk, lacks some chunk, and counts its chunks
in one byte. -/
structure PartlyReceived (m : InFlightMessage) : Prop where
  slots_pos : 1 ≤ m.receivedChunks.length
  slots_le : m.receivedChunks.length ≤ 255
  some_received : ∃ (i : ℕ) (chunk : Bytes plaintextChunkLen),
    m.receivedChunks[i]? = some (some chunk)
  some_missing : ∃ i : ℕ, m.receivedChunks[i]? = some none

/-- The reassembly state is within its limits. -/
structure WithinLimits (e : ChunkEngine) : Prop where
  global : e.inFlight.size ≤ maxGlobalInFlight
  perSender : ∀ src : UInt32,
    e.inFlight.countKeys (fun key => decide (key.1 = src)) ≤ maxPerSenderInFlight
  partlyReceived : ∀ key m, e.inFlight.lookup key = some m → PartlyReceived m
  notBoth : ∀ key, key ∈ e.inFlight → key ∉ e.completedCache

/-- The second engine keeps some of the first one's messages and adds none. -/
structure Shrinks (e e' : ChunkEngine) : Prop where
  lookup : ∀ key m, e'.inFlight.lookup key = some m → e.inFlight.lookup key = some m
  count : ∀ p, e'.inFlight.countKeys p ≤ e.inFlight.countKeys p
  completed : ∀ key, key ∈ e'.completedCache → key ∈ e.completedCache

theorem Shrinks.refl (e : ChunkEngine) : Shrinks e e :=
  ⟨fun _ _ h => h, fun _ => Nat.le_refl _, fun _ h => h⟩

theorem Shrinks.trans (h : Shrinks e e') (h' : Shrinks e' e'') : Shrinks e e'' :=
  ⟨fun key m hm => h.lookup key m (h'.lookup key m hm),
    fun p => (h'.count p).trans (h.count p),
    fun key hk => h.completed key (h'.completed key hk)⟩

theorem Shrinks.mem (h : Shrinks e e') (hk : key ∈ e'.inFlight) : key ∈ e.inFlight := by
  obtain ⟨m, hm⟩ := Option.isSome_iff_exists.mp (AList.lookup_isSome.mpr hk)
  exact HashTable.mem_of_lookup (h.lookup key m hm)

theorem WithinLimits.shrink (h : WithinLimits e) (hs : Shrinks e e') : WithinLimits e' where
  global := by
    rw [HashTable.size_eq_countKeys]
    exact (hs.count _).trans (HashTable.size_eq_countKeys e.inFlight ▸ h.global)
  perSender src := (hs.count _).trans (h.perSender src)
  partlyReceived key m hm := h.partlyReceived key m (hs.lookup key m hm)
  notBoth key hk hc := h.notBoth key (hs.mem hk) (hs.completed key hc)

/-! ### Purging and eviction -/

theorem shrinks_purgeExpired (e : ChunkEngine) (now : ℕ) : Shrinks e (e.purgeExpired now) where
  lookup key m hm := by
    rw [purgeExpired, HashTable.lookup_retain] at hm
    exact (Option.filter_eq_some_iff.mp hm).1
  count p := HashTable.countKeys_retain_le p _
  completed key hk := HashTable.mem_of_mem_retain hk

/-- Evicting removes one matching message as long as there is one. -/
theorem evictOldest_cases (e : ChunkEngine) (order : InFlightOrder) (p : MessageKey → Bool) :
    (e.inFlight.countKeys p = 0 ∧ e.evictOldest order p = e) ∨
      ∃ k, k ∈ e.inFlight ∧ p k = true ∧
        e.evictOldest order p = { e with inFlight := e.inFlight.erase k } := by
  -- `min_by_key` finds a message exactly when one matches.
  by_cases hnone : e.inFlight.countKeys p = 0
  · cases hmin : e.inFlight.minKeyBy order p InFlightMessage.firstReceived with
    | none => exact Or.inl ⟨hnone, by simp only [evictOldest, hmin]⟩
    | some k =>
      obtain ⟨hk, hp⟩ := HashTable.minKeyBy_mem hmin
      exact Or.inr ⟨k, AList.mem_keys.mpr hk, hp, by simp only [evictOldest, hmin]⟩
  · obtain ⟨k, hmin⟩ := HashTable.exists_minKeyBy order InFlightMessage.firstReceived
      (Nat.pos_of_ne_zero hnone)
    obtain ⟨hk, hp⟩ := HashTable.minKeyBy_mem hmin
    exact Or.inr ⟨k, AList.mem_keys.mpr hk, hp, by simp only [evictOldest, hmin]⟩

theorem lookup_of_erase {t : HashTable MessageKey InFlightMessage} {k key : MessageKey}
    {m : InFlightMessage} (h : (t.erase k).lookup key = some m) : t.lookup key = some m := by
  by_cases hk : key = k
  · rw [hk, AList.lookup_erase] at h
    cases h
  · rwa [AList.lookup_erase_ne hk] at h

theorem shrinks_evictOldest (e : ChunkEngine) (order : InFlightOrder) (p : MessageKey → Bool) :
    Shrinks e (e.evictOldest order p) := by
  rcases evictOldest_cases e order p with ⟨-, heq⟩ | ⟨k, -, -, heq⟩
  · rw [heq]
    exact Shrinks.refl e
  · rw [heq]
    exact ⟨fun _ _ h => lookup_of_erase h, fun p => HashTable.countKeys_erase_le p k, fun _ h => h⟩

/-- Eviction brings a count down by one, unless it is zero already. -/
theorem countKeys_evictOldest (e : ChunkEngine) (order : InFlightOrder) (p : MessageKey → Bool) :
    (e.evictOldest order p).inFlight.countKeys p = e.inFlight.countKeys p - 1 := by
  rcases evictOldest_cases e order p with ⟨hzero, heq⟩ | ⟨k, hk, hp, heq⟩
  · rw [heq, hzero]
  · rw [heq, ← HashTable.countKeys_erase_of_mem p hk, if_pos hp]
    exact (Nat.add_sub_cancel _ 1).symm

theorem makeRoom_of_mem (h : key ∈ e.inFlight) : e.makeRoom order key = e := by
  simp only [makeRoom, if_pos h]

theorem shrinks_makeRoom (e : ChunkEngine) (order : InFlightOrder) (key : MessageKey) :
    Shrinks e (e.makeRoom order key) := by
  simp only [makeRoom]
  split
  · exact Shrinks.refl e
  · split <;> split
    · exact (shrinks_evictOldest e order _).trans (shrinks_evictOldest _ order _)
    · exact shrinks_evictOldest e order _
    · exact shrinks_evictOldest e order _
    · exact Shrinks.refl e

/-- For a message not in flight there is room, for its sender and overall. -/
theorem room_of_makeRoom (h : WithinLimits e) (hnew : key ∉ e.inFlight) :
    (e.makeRoom order key).inFlight.countKeys (fun k => decide (k.1 = key.1)) <
        maxPerSenderInFlight ∧
      (e.makeRoom order key).inFlight.size < maxGlobalInFlight := by
  have hsender := h.perSender key.1
  have hglobal := h.global
  simp only [makeRoom, if_neg hnew]
  -- First the sender's share, which the global eviction can only lower.
  have hfirst : ∀ e₁ : ChunkEngine, e₁ = (if e.inFlight.countKeys
      (fun k => decide (k.1 = key.1)) ≥ maxPerSenderInFlight then
        e.evictOldest order (fun k => decide (k.1 = key.1)) else e) →
      e₁.inFlight.countKeys (fun k => decide (k.1 = key.1)) < maxPerSenderInFlight ∧
        e₁.inFlight.size ≤ maxGlobalInFlight := by
    intro e₁ he₁
    subst he₁
    split
    · refine ⟨?_, ?_⟩
      · rw [countKeys_evictOldest]
        simp only [maxPerSenderInFlight] at *
        omega
      · exact (h.shrink (shrinks_evictOldest e order _)).global
    · next hlt => exact ⟨Nat.not_le.mp hlt, hglobal⟩
  generalize he₁ : (if e.inFlight.countKeys (fun k => decide (k.1 = key.1)) ≥ maxPerSenderInFlight
    then e.evictOldest order (fun k => decide (k.1 = key.1)) else e) = e₁
  obtain ⟨hshare, hsize⟩ := hfirst e₁ he₁.symm
  -- Then the table as a whole.
  split
  · refine ⟨Nat.lt_of_le_of_lt ((shrinks_evictOldest e₁ order _).count _) hshare, ?_⟩
    rw [HashTable.size_eq_countKeys, countKeys_evictOldest, ← HashTable.size_eq_countKeys]
    simp only [maxGlobalInFlight] at *
    omega
  · next hlt => exact ⟨hshare, Nat.not_le.mp hlt⟩

theorem shrinks_prepared (e : ChunkEngine) (clock : IngestClock) (order : InFlightOrder)
    (srcNodeId : UInt32) (packet : MeshPacket) :
    Shrinks e (e.prepared clock order srcNodeId packet) :=
  (shrinks_purgeExpired e clock.purge).trans (shrinks_makeRoom _ order _)

@[simp] theorem completedCache_evictOldest (e : ChunkEngine) (order : InFlightOrder)
    (p : MessageKey → Bool) : (e.evictOldest order p).completedCache = e.completedCache := by
  simp only [evictOldest]
  split <;> rfl

@[simp] theorem completedCache_makeRoom (e : ChunkEngine) (order : InFlightOrder)
    (key : MessageKey) : (e.makeRoom order key).completedCache = e.completedCache := by
  simp only [makeRoom]
  split
  · rfl
  · split <;> split <;> simp

@[simp] theorem completedCache_prepared (e : ChunkEngine) (clock : IngestClock)
    (order : InFlightOrder) (srcNodeId : UInt32) (packet : MeshPacket) :
    (e.prepared clock order srcNodeId packet).completedCache =
      (e.purgeExpired clock.purge).completedCache :=
  completedCache_makeRoom _ _ _

/-! ### Storing a chunk -/

@[simp] theorem length_storeChunk (m : InFlightMessage) (i : ℕ) (chunk : Bytes plaintextChunkLen)
    (now : ℕ) : (m.storeChunk i chunk now).receivedChunks.length = m.receivedChunks.length := by
  simp only [InFlightMessage.storeChunk]
  split <;> simp

@[simp] theorem totalChunks_storeChunk (m : InFlightMessage) (i : ℕ)
    (chunk : Bytes plaintextChunkLen) (now : ℕ) :
    (m.storeChunk i chunk now).totalChunks = m.totalChunks := by
  simp only [InFlightMessage.storeChunk]
  split <;> rfl

/-- After storing, the slot holds some chunk, the old one if there was one. -/
theorem getElem?_storeChunk_self (m : InFlightMessage) {i : ℕ} (chunk : Bytes plaintextChunkLen)
    (now : ℕ) (hi : i < m.receivedChunks.length) :
    ∃ stored, (m.storeChunk i chunk now).receivedChunks[i]? = some (some stored) := by
  simp only [InFlightMessage.storeChunk]
  split
  · exact ⟨chunk, List.getElem?_set_self hi⟩
  · next hfull =>
    rw [List.getElem?_eq_getElem hi] at hfull ⊢
    cases hslot : m.receivedChunks[i] with
    | none => simp [hslot] at hfull
    | some stored => exact ⟨stored, rfl⟩

/-- An incomplete message has an empty slot. -/
theorem exists_missing {m : InFlightMessage} (h : m.isComplete = false) :
    ∃ i : ℕ, m.receivedChunks[i]? = some none := by
  simp only [InFlightMessage.isComplete, List.all_eq_false] at h
  obtain ⟨slot, hmem, hslot⟩ := h
  obtain ⟨i, hi, rfl⟩ := List.getElem_of_mem hmem
  exact ⟨i, by rw [List.getElem?_eq_getElem hi]; simpa using hslot⟩

/-- An entry that a packet opens has as many slots as the packet declares. -/
theorem entryFor_of_notMem {now : ℕ} {srcNodeId : UInt32} {packet : MeshPacket}
    (h : keyOf srcNodeId packet ∉ e.inFlight) :
    e.entryFor now srcNodeId packet = .opened packet.header.totalChunks.toNat now := by
  rw [entryFor, AList.lookup_eq_none.mpr h, Option.getD_none]

theorem entryFor_of_lookup {now : ℕ} {srcNodeId : UInt32} {packet : MeshPacket}
    {m : InFlightMessage} (h : e.inFlight.lookup (keyOf srcNodeId packet) = some m) :
    e.entryFor now srcNodeId packet = m := by
  rw [entryFor, h, Option.getD_some]

/-- The entry of a packet was in flight before or is opened by the packet. -/
theorem entryFor_cases (e : ChunkEngine) (clock : IngestClock) (order : InFlightOrder)
    (srcNodeId : UInt32) (packet : MeshPacket) :
    e.inFlight.lookup (keyOf srcNodeId packet) =
        some ((e.prepared clock order srcNodeId packet).entryFor clock.now srcNodeId packet) ∨
      (e.prepared clock order srcNodeId packet).entryFor clock.now srcNodeId packet =
        .opened packet.header.totalChunks.toNat clock.now := by
  cases hm : (e.prepared clock order srcNodeId packet).inFlight.lookup (keyOf srcNodeId packet) with
  | some m =>
    left
    rw [entryFor_of_lookup hm]
    exact (shrinks_prepared e clock order srcNodeId packet).lookup _ m hm
  | none => exact Or.inr (entryFor_of_notMem (AList.lookup_eq_none.mp hm))

/-- **In flight after a packet.** A message was in flight before, or the packet is
one of its own and its chunk was stored in an entry that was in flight or is new. -/
theorem inFlight_of_ingestPacket {clock : IngestClock} {srcNodeId : UInt32} {packet : MeshPacket}
    {result : Except CryptoError (Option String)}
    (heq : e.ingestPacket P clock order srcNodeId packet swarmMasterKey = some (result, e'))
    {m : InFlightMessage} (hm : e'.inFlight.lookup key = some m) :
    e.inFlight.lookup key = some m ∨
      ∃ entry chunk, keyOf srcNodeId packet = key ∧
        key ∉ (e.purgeExpired clock.purge).completedCache ∧
        (e.inFlight.lookup key = some entry ∨
          entry = .opened packet.header.totalChunks.toNat clock.now) ∧
        m = entry.storeChunk packet.header.chunkIdx.toNat chunk clock.now := by
  have hprepared := shrinks_prepared e clock order srcNodeId packet
  have hcases := ingested P e clock order srcNodeId packet swarmMasterKey
  rw [heq] at hcases
  cases hcases with
  | malformed _ => exact Or.inl ((shrinks_purgeExpired e clock.purge).lookup key m hm)
  | duplicate _ _ => exact Or.inl ((shrinks_purgeExpired e clock.purge).lookup key m hm)
  | rejected _ _ _ _ => exact Or.inl (hprepared.lookup key m hm)
  | stored chunk entry _ undone _ _ entry_eq _ =>
    by_cases hkey : key = keyOf srcNodeId packet
    · subst hkey entry_eq
      obtain rfl := Option.some.inj ((AList.lookup_insert _).symm.trans hm)
      exact Or.inr ⟨_, chunk, rfl, undone, entryFor_cases e clock order srcNodeId packet, rfl⟩
    · exact Or.inl (hprepared.lookup key m ((AList.lookup_insert_ne hkey).symm.trans hm))
  | completed _ _ _ _ _ _ _ _ => exact Or.inl (hprepared.lookup key m (lookup_of_erase hm))

/-- **Completed after a packet.** A message was completed before, or is completed by
the packet, at the time the packet is stored. -/
theorem completed_of_ingestPacket {clock : IngestClock} {srcNodeId : UInt32} {packet : MeshPacket}
    {result : Except CryptoError (Option String)}
    (heq : e.ingestPacket P clock order srcNodeId packet swarmMasterKey = some (result, e'))
    {t : ℕ} (ht : e'.completedCache.lookup key = some t) :
    e.completedCache.lookup key = some t ∨ keyOf srcNodeId packet = key ∧ t = clock.now := by
  have hpurged : ∀ t, (e.purgeExpired clock.purge).completedCache.lookup key = some t →
      e.completedCache.lookup key = some t := by
    intro t ht
    rw [purgeExpired, HashTable.lookup_retain] at ht
    exact (Option.filter_eq_some_iff.mp ht).1
  have hprepared : ∀ t, (e.prepared clock order srcNodeId packet).completedCache.lookup key =
      some t → e.completedCache.lookup key = some t := by
    rwa [completedCache_prepared]
  have hcases := ingested P e clock order srcNodeId packet swarmMasterKey
  rw [heq] at hcases
  cases hcases with
  | malformed _ => exact Or.inl (hpurged t ht)
  | duplicate _ _ => exact Or.inl (hpurged t ht)
  | rejected _ _ _ _ => exact Or.inl (hprepared t ht)
  | stored _ _ _ _ _ _ _ _ => exact Or.inl (hprepared t ht)
  | completed _ _ _ _ _ _ _ _ =>
    by_cases hkey : key = keyOf srcNodeId packet
    · subst hkey
      exact Or.inr ⟨rfl, (Option.some.inj ((AList.lookup_insert _).symm.trans ht)).symm⟩
    · exact Or.inl (hprepared t ((AList.lookup_insert_ne hkey).symm.trans ht))

/-- The entry of a packet has between one and 255 slots. -/
theorem WithinLimits.slots_entryFor (h : WithinLimits e) (now : ℕ) (srcNodeId : UInt32)
    {packet : MeshPacket} (counts : packet.header.chunkIdx < packet.header.totalChunks) :
    1 ≤ (e.entryFor now srcNodeId packet).receivedChunks.length ∧
      (e.entryFor now srcNodeId packet).receivedChunks.length ≤ 255 := by
  cases hm : e.inFlight.lookup (keyOf srcNodeId packet) with
  | some m =>
    rw [entryFor_of_lookup hm]
    exact ⟨(h.partlyReceived _ m hm).slots_pos, (h.partlyReceived _ m hm).slots_le⟩
  | none =>
    rw [entryFor_of_notMem (AList.lookup_eq_none.mp hm)]
    -- A packet that opens an entry declares more chunks than its index, in one byte.
    have hlt := UInt8.lt_iff_toNat_lt.mp counts
    have hbyte := packet.header.totalChunks.toNat_lt
    simp only [InFlightMessage.opened, List.length_replicate]
    omega

/-! ### Each operation stays within the limits -/

/-- Putting a partly received message in flight, where there is room for it. -/
theorem WithinLimits.insert (h : WithinLimits e) {m : InFlightMessage} (hm : PartlyReceived m)
    (hdone : key ∉ e.completedCache)
    (hroom : key ∉ e.inFlight → e.inFlight.countKeys (fun k => decide (k.1 = key.1)) <
      maxPerSenderInFlight ∧ e.inFlight.size < maxGlobalInFlight) :
    WithinLimits { e with inFlight := e.inFlight.insert key m } where
  global := by
    show HashTable.size (e.inFlight.insert key m) ≤ maxGlobalInFlight
    -- Only a new key takes up room.
    by_cases hk : key ∈ e.inFlight
    · rw [HashTable.size_eq_countKeys, HashTable.countKeys_insert_of_mem _ _ hk,
        ← HashTable.size_eq_countKeys]
      exact h.global
    · have hsize := (hroom hk).2
      rw [HashTable.size_eq_countKeys, HashTable.countKeys_insert_of_notMem _ _ hk,
        ← HashTable.size_eq_countKeys, if_pos rfl]
      exact hsize
  perSender src := by
    show HashTable.countKeys (e.inFlight.insert key m) _ ≤ maxPerSenderInFlight
    by_cases hk : key ∈ e.inFlight
    · rw [HashTable.countKeys_insert_of_mem _ _ hk]
      exact h.perSender src
    · have hshare := (hroom hk).1
      rw [HashTable.countKeys_insert_of_notMem _ _ hk]
      by_cases hsrc : key.1 = src
      · subst hsrc
        rw [decide_eq_true rfl, if_pos rfl]
        exact hshare
      · simpa [hsrc] using h.perSender src
  partlyReceived k m' hm' := by
    by_cases hk : k = key
    · subst hk
      rw [AList.lookup_insert] at hm'
      exact Option.some.inj hm' ▸ hm
    · rw [AList.lookup_insert_ne hk] at hm'
      exact h.partlyReceived k m' hm'
  notBoth k hk := by
    rcases (AList.mem_insert _).mp hk with heq | hk
    · exact heq ▸ hdone
    · exact h.notBoth k hk

/-- Moving a message from in flight to completed. -/
theorem WithinLimits.complete (h : WithinLimits e) (key : MessageKey) (now : ℕ) :
    WithinLimits { e with
      inFlight := e.inFlight.erase key
      completedCache := e.completedCache.insert key now } where
  global := by
    show HashTable.size (e.inFlight.erase key) ≤ maxGlobalInFlight
    rw [HashTable.size_eq_countKeys]
    exact (HashTable.countKeys_erase_le _ key).trans
      (HashTable.size_eq_countKeys e.inFlight ▸ h.global)
  perSender src := (HashTable.countKeys_erase_le _ key).trans (h.perSender src)
  partlyReceived k m hm := h.partlyReceived k m (lookup_of_erase hm)
  notBoth k hk hc := by
    obtain ⟨hne, hmem⟩ := AList.mem_erase.mp hk
    rcases (AList.mem_insert _).mp hc with heq | hc
    · exact hne heq
    · exact h.notBoth k hmem hc

/-- Changing nothing about the messages in flight but their SACK timers. -/
theorem WithinLimits.sameChunks (h : WithinLimits e) (hs : SameChunks e e') : WithinLimits e' where
  global := by
    rw [HashTable.size, hs.keys]
    exact h.global
  perSender src := by
    rw [HashTable.countKeys, hs.keys]
    exact h.perSender src
  partlyReceived key m' hm' := by
    obtain ⟨m, hm, hslots, -, -⟩ := hs.lookup key m' hm'
    obtain ⟨hpos, hle, hreceived, hmissing⟩ := h.partlyReceived key m hm
    rw [← hslots] at hpos hle hreceived hmissing
    exact ⟨hpos, hle, hreceived, hmissing⟩
  notBoth key hk := by
    rw [hs.completed]
    exact h.notBoth key (hs.mem_iff.mp hk)

/-- Ingesting a packet stays within the limits. -/
theorem WithinLimits.ingestPacket (h : WithinLimits e) {clock : IngestClock} {srcNodeId : UInt32}
    {packet : MeshPacket} {result : Except CryptoError (Option String)}
    (heq : e.ingestPacket P clock order srcNodeId packet swarmMasterKey = some (result, e')) :
    WithinLimits e' := by
  have hpurged := h.shrink (shrinks_purgeExpired e clock.purge)
  have hprepared := h.shrink (shrinks_prepared e clock order srcNodeId packet)
  have hcases := ingested P e clock order srcNodeId packet swarmMasterKey
  rw [heq] at hcases
  cases hcases with
  | malformed _ => exact hpurged
  | duplicate _ _ => exact hpurged
  | rejected _ _ _ _ => exact hprepared
  | stored chunk entry counts undone opens inside entry_eq incomplete =>
    have hslots := hprepared.slots_entryFor clock.now srcNodeId counts
    have hentry : PartlyReceived entry := by
      subst entry_eq
      obtain ⟨stored, hstored⟩ := getElem?_storeChunk_self _ chunk clock.now inside
      exact ⟨by simpa using hslots.1, by simpa using hslots.2, ⟨_, stored, hstored⟩,
        exists_missing incomplete⟩
    have hdone : keyOf srcNodeId packet ∉
        (e.prepared clock order srcNodeId packet).completedCache :=
      fun hk => undone ((shrinks_makeRoom _ order _).completed _ hk)
    refine hprepared.insert hentry hdone fun hnew => ?_
    -- A message that is not in flight after making room was not in flight before.
    have hbefore : keyOf srcNodeId packet ∉ (e.purgeExpired clock.purge).inFlight := by
      intro hmem
      rw [prepared, makeRoom_of_mem hmem] at hnew
      exact hnew hmem
    exact room_of_makeRoom hpurged hbefore
  | completed _ _ _ _ _ _ _ _ => exact hprepared.complete _ _

/-- **Step lemma.** Every call that does not panic stays within the limits. -/
theorem WithinLimits.step (h : WithinLimits e) (op : EngineOp)
    (heq : (machine P swarmMasterKey).next (some e) op = some e') : WithinLimits e' := by
  rcases next_cases heq with ⟨_, _, _, _, _, -, hcall⟩ | ⟨-, hs⟩
  · exact h.ingestPacket hcall
  · exact h.sameChunks hs

theorem withinLimits_new : WithinLimits new where
  global := Nat.zero_le _
  perSender _ := Nat.zero_le _
  partlyReceived _ _ hm := by simp [new] at hm
  notBoth _ hk := by simp [new] at hk

/-- **Anti-DoS limits.** Whatever calls are made, with whatever packets, clock
readings and iteration orders, as long as none panics at most 16 messages are in
flight, at most two of one sender, each has some but not all of its one to 255
chunks, and none of them is also remembered as completed. -/
theorem withinLimits_of_run (P : Primitives) (swarmMasterKey : Bytes 32) (ops : List EngineOp)
    (e : ChunkEngine) (alive : (machine P swarmMasterKey).final (some new) ops = some e) :
    e.inFlight.size ≤ 16 ∧
      (∀ src : UInt32, e.inFlight.countKeys (fun key => decide (key.1 = src)) ≤ 2) ∧
      (∀ key m, e.inFlight.lookup key = some m → PartlyReceived m) ∧
      ∀ key, key ∈ e.inFlight → key ∉ e.completedCache := by
  have preserved : ∀ e op e', WithinLimits e → True →
      (machine P swarmMasterKey).next (some e) op = some e' → WithinLimits e' :=
    fun e op e' h _ hnext => h.step op hnext
  have always : (machine P swarmMasterKey).Guarded (fun _ _ => True) (some new) ops :=
    fun _ _ => trivial
  have hlimits :=
    Machine.invariant_alive WithinLimits next_none preserved withinLimits_new always alive
  obtain ⟨hglobal, hsender, hpartly, hnot⟩ := hlimits
  exact ⟨hglobal, hsender, hpartly, hnot⟩

/-- A text that takes two chunks. -/
def twoChunkText : String :=
  "the quick brown fox jumps over the lazy dog while the radio waits for the second chunk"

/-- Only the first chunk of a text arrives. -/
def halfReceivedRun : List EngineOp :=
  ((transparentPackets twoChunkText 7).take 1).map fun packet =>
    .ingestPacket 7 packet ⟨5, 5⟩ (.stored _)

/-- Then one message is in flight, within the limits. -/
theorem withinLimits_halfReceivedRun :
    ∃ e, (machine transparent (.zero 32)).final (some new) halfReceivedRun = some e ∧
      e.inFlight.size = 1 ∧ e.inFlight.size ≤ 16 ∧
      (∀ src : UInt32, e.inFlight.countKeys (fun key => decide (key.1 = src)) ≤ 2) ∧
      (∀ key m, e.inFlight.lookup key = some m → PartlyReceived m) ∧
      ∀ key, key ∈ e.inFlight → key ∉ e.completedCache := by
  have hone : ((machine transparent (.zero 32)).final (some new) halfReceivedRun).map
      (fun e => e.inFlight.size) = some 1 := by decide +kernel
  obtain ⟨e, he, hsize⟩ := Option.map_eq_some_iff.mp hone
  exact ⟨e, he, hsize, withinLimits_of_run transparent (.zero 32) halfReceivedRun e he⟩

end ChunkEngine

end Gibberish.Daemon
