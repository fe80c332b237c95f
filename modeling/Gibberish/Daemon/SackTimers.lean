/-
# When SACKs are sent

What moves the SACK timers of one in-flight message, from the packet that opens its entry
to the last call that finds it there: newly stored chunks, overheard SACKs and its own
SACKs. The log of these events is spaced as the timers demand, holds at most three SACKs,
and every one of them names exactly the slots that were empty.
-/

import Gibberish.Daemon.Replay
import Gibberish.Daemon.SackRecovery
import Gibberish.Protocol.SackSet

set_option autoImplicit false

namespace Gibberish.Daemon

open Gibberish.Foundation Gibberish.Protocol Gibberish.Crypto

/-- What happens to the timers of an entry, and when. A SACK comes with the slots it was made
from. -/
inductive TimerEvent where
  | stored (now : ℕ)
  | suppressed (now : ℕ)
  | sack (now : ℕ) (packet : MeshPacket) (slots : List (Option (Bytes plaintextChunkLen)))

namespace TimerEvent

def now : TimerEvent → ℕ
  | .stored now => now
  | .suppressed now => now
  | .sack now _ _ => now

def isSack : TimerEvent → Bool
  | .sack _ _ _ => true
  | _ => false

/-- Somebody asked for the missing chunks: this node or another. -/
def asks : TimerEvent → Bool
  | .stored _ => false
  | _ => true

/-- How long a SACK keeps off an earlier event. -/
def delay : TimerEvent → ℕ
  | .stored _ => sackInitialDelay
  | .suppressed _ => sackRetryInterval
  | .sack _ _ _ => sackRetryInterval

/-- If the later event is a SACK, it keeps its delay. -/
def Spaced (earlier later : TimerEvent) : Prop :=
  later.isSack = true → earlier.now + earlier.delay ≤ later.now

/-- A SACK names exactly the empty ones of the slots it was made from. -/
def Exact : TimerEvent → Prop
  | .sack _ packet slots =>
    (SackPayload.deserialize packet.payload).baseChunk = 0 ∧
      ∀ i, (SackPayload.deserialize packet.payload).isMissing i = true ↔ slots[i]? = some none
  | _ => True

end TimerEvent

/-! ### Timers -/

/-- What a message keeps of its history to decide when it may ask again. -/
structure Timers where
  lastReceived : ℕ
  lastSackSent : Option ℕ
  sackCount : UInt8

namespace InFlightMessage

def timers (m : InFlightMessage) : Timers := ⟨m.lastReceived, m.lastSackSent, m.sackCount⟩

end InFlightMessage

namespace Timers

/-- The timers after an event. -/
def after (t : Timers) : TimerEvent → Timers
  | .stored now => { t with lastReceived := now }
  | .suppressed now => { t with lastSackSent := some now }
  | .sack now _ _ => { t with lastSackSent := some now, sackCount := t.sackCount + 1 }

/-- The delay, the retry limit and the retry interval allow a SACK now. -/
def Allows (t : Timers) (now : ℕ) : Prop :=
  t.lastReceived + sackInitialDelay ≤ now ∧ t.sackCount < maxSackRetries ∧
    ∀ lastSent ∈ t.lastSackSent, lastSent + sackRetryInterval ≤ now

/-- The timers are those of a history, whose SACKs were all allowed. -/
structure Timed (t : Timers) (log : List TimerEvent) : Prop where
  received : ∀ now, .stored now ∈ log → now ≤ t.lastReceived
  asked : ∀ ev ∈ log, ev.asks = true → ∃ u ∈ t.lastSackSent, ev.now ≤ u
  count : (log.filter TimerEvent.isSack).length = t.sackCount.toNat
  count_le : t.sackCount.toNat ≤ 3
  spaced : log.Pairwise TimerEvent.Spaced

variable {t : Timers} {log : List TimerEvent} {now : ℕ}

/-- An allowed SACK does not overflow the retry count. -/
theorem toNat_sackCount_succ (allows : t.Allows now) :
    (t.sackCount + 1).toNat = t.sackCount.toNat + 1 := by
  have hlt : t.sackCount.toNat < 3 := UInt8.lt_iff_toNat_lt.mp allows.2.1
  rw [UInt8.toNat_add, UInt8.toNat_one, Nat.mod_eq_of_lt (by omega)]

/-- An allowed SACK keeps its delay from everything before it. -/
theorem Timed.spaced_of_allows (h : Timed t log) (allows : t.Allows now) {ev : TimerEvent}
    (hev : ev ∈ log) : ev.now + ev.delay ≤ now := by
  obtain ⟨hdelay, -, hretry⟩ := allows
  cases ev with
  | stored received =>
    have hle := h.received received hev
    show received + sackInitialDelay ≤ now
    omega
  | suppressed overheard =>
    obtain ⟨u, hu, hle⟩ := h.asked _ hev rfl
    exact (Nat.add_le_add_right hle _).trans (hretry u hu)
  | sack sent packet slots =>
    obtain ⟨u, hu, hle⟩ := h.asked _ hev rfl
    exact (Nat.add_le_add_right hle _).trans (hretry u hu)

/-- **One event.** As long as it does not come before those already there, and is allowed if
it is a SACK, the timers stay those of the history. -/
theorem Timed.event (h : Timed t log) {ev : TimerEvent} (later : ∀ ev' ∈ log, ev'.now ≤ ev.now)
    (allowed : ev.isSack = true → t.Allows ev.now) : Timed (t.after ev) (log ++ [ev]) where
  received now hmem := by
    rcases List.mem_append.mp hmem with hold | hnew
    · cases ev with
      | stored received => exact later _ hold
      | suppressed overheard => exact h.received now hold
      | sack sent packet slots => exact h.received now hold
    · obtain rfl := List.mem_singleton.mp hnew
      exact le_rfl
  asked ev' hmem hasks := by
    rcases List.mem_append.mp hmem with hold | hnew
    · cases ev with
      | stored received => exact h.asked ev' hold hasks
      | suppressed overheard => exact ⟨overheard, rfl, later ev' hold⟩
      | sack sent packet slots => exact ⟨sent, rfl, later ev' hold⟩
    · obtain rfl := List.mem_singleton.mp hnew
      cases ev' with
      | stored received => cases hasks
      | suppressed overheard => exact ⟨overheard, rfl, le_rfl⟩
      | sack sent packet slots => exact ⟨sent, rfl, le_rfl⟩
  count := by
    rw [List.filter_append, List.length_append, h.count]
    cases ev with
    | stored received => rfl
    | suppressed overheard => rfl
    | sack sent packet slots => exact (toNat_sackCount_succ (allowed rfl)).symm
  count_le := by
    cases ev with
    | stored received => exact h.count_le
    | suppressed overheard => exact h.count_le
    | sack sent packet slots =>
      show (t.sackCount + 1).toNat ≤ 3
      rw [toNat_sackCount_succ (allowed rfl)]
      exact UInt8.lt_iff_toNat_lt.mp (allowed rfl).2.1
  spaced := by
    rw [List.pairwise_append]
    refine ⟨h.spaced, List.pairwise_singleton _ _, ?_⟩
    rintro ev' hev' ev₁ hev₁ hsack
    obtain rfl := List.mem_singleton.mp hev₁
    exact h.spaced_of_allows (allowed hsack) hev'

end Timers

namespace ChunkEngine

variable (P : Primitives) (swarmMasterKey : Bytes 32) (key : MessageKey)

/-- The call authenticates a chunk of the message and finds its slot empty. -/
def NewlyStores (e : ChunkEngine) (clock : IngestClock) (order : InFlightOrder)
    (srcNodeId : UInt32) (packet : MeshPacket) : Prop :=
  keyOf srcNodeId packet = key ∧ packet.header.chunkIdx < packet.header.totalChunks ∧
    key ∉ (e.purgeExpired clock.purge).completedCache ∧
    (opensTo P swarmMasterKey srcNodeId packet).toOption.isSome = true ∧
    ((e.prepared clock order srcNodeId packet).entryFor clock.now srcNodeId
      packet).receivedChunks[packet.header.chunkIdx.toNat]? = some none

instance (e : ChunkEngine) (clock : IngestClock) (order : InFlightOrder) (srcNodeId : UInt32)
    (packet : MeshPacket) :
    Decidable (NewlyStores P swarmMasterKey key e clock order srcNodeId packet) :=
  inferInstanceAs (Decidable (_ ∧ _ ∧ _ ∧ _ ∧ _))

instance (sack : MeshPacket) : Decidable (AsksFor key sack) :=
  inferInstanceAs (Decidable (_ ∧ _))

/-- What a call does to the timers of the message. -/
def timerEvents : Option ChunkEngine → EngineOp → List TimerEvent
  | some e, .ingestPacket srcNodeId packet clock order =>
    if NewlyStores P swarmMasterKey key e clock order srcNodeId packet then [.stored clock.now]
    else []
  | some e, .checkPendingSacks localNodeId swarmTag now order =>
    ((e.checkPendingSacks localNodeId swarmTag now order).1.filter (AsksFor key)).map fun packet =>
      .sack now packet ((e.inFlight.lookup key).elim [] (·.receivedChunks))
  | some _, .suppressSack msgId now => if msgId = key.2 then [.suppressed now] else []
  | _, _ => []

/-- What a run does to them. -/
def timerLog (s : Option ChunkEngine) (ops : List EngineOp) : List TimerEvent :=
  ((machine P swarmMasterKey).trace s ops).flatMap fun x => timerEvents P swarmMasterKey key x.1 x.2

/-- The call opens an entry for the message: there is none once room is made for it. -/
def Opens (e : ChunkEngine) : EngineOp → Prop
  | .ingestPacket srcNodeId packet clock order =>
    keyOf srcNodeId packet = key ∧ key ∉ (e.prepared clock order srcNodeId packet).inFlight
  | _ => False

instance (e : ChunkEngine) : DecidablePred (Opens key e) := fun op =>
  match op with
  | .ingestPacket _ _ _ _ => inferInstanceAs (Decidable (_ ∧ ¬ _))
  | .cacheOutbound _ _ => inferInstanceAs (Decidable False)
  | .handleSack _ => inferInstanceAs (Decidable False)
  | .checkPendingSacks _ _ _ _ => inferInstanceAs (Decidable False)
  | .suppressSack _ _ => inferInstanceAs (Decidable False)

/-- The call opens an entry for the message, which is there afterwards. -/
def Opened (s : Option ChunkEngine) (op : EngineOp) : Prop :=
  ∃ e ∈ s, Opens key e op ∧ ∃ e' ∈ (machine P swarmMasterKey).next s op, key ∈ e'.inFlight

/-- The entry of the message outlives the call. -/
def Outlives (s : Option ChunkEngine) (op : EngineOp) : Prop :=
  ∃ e ∈ s, ¬ Opens key e op ∧ ∃ e' ∈ (machine P swarmMasterKey).next s op, key ∈ e'.inFlight

instance (s : Option ChunkEngine) (op : EngineOp) :
    Decidable (Opened P swarmMasterKey key s op) :=
  inferInstanceAs (Decidable (∃ e ∈ s, _ ∧ ∃ e' ∈ _, _))

instance (s : Option ChunkEngine) (op : EngineOp) :
    Decidable (Outlives P swarmMasterKey key s op) :=
  inferInstanceAs (Decidable (∃ e ∈ s, ¬ _ ∧ ∃ e' ∈ _, _))

/-- A lifetime of an entry: the call that opens it, and calls that it outlives. -/
structure Lifetime (s : Option ChunkEngine) (opening : EngineOp) (life : List EngineOp) : Prop where
  opened : Opened P swarmMasterKey key s opening
  outlives : (machine P swarmMasterKey).Guarded (Outlives P swarmMasterKey key)
    ((machine P swarmMasterKey).next s opening) life

variable {P swarmMasterKey key} {e e' : ChunkEngine} {m : InFlightMessage} {order : InFlightOrder}
variable {s : Option ChunkEngine} {op : EngineOp} {ops : List EngineOp}

@[simp] theorem timerLog_nil : timerLog P swarmMasterKey key s [] = [] := rfl

@[simp] theorem timerLog_cons : timerLog P swarmMasterKey key s (op :: ops) =
    timerEvents P swarmMasterKey key s op ++
      timerLog P swarmMasterKey key ((machine P swarmMasterKey).next s op) ops := by
  simp [timerLog]

/-! ### The SACK of one message -/

theorem sackDue_iff {now : ℕ} : m.sackDue now = true ↔
    m.receivedChunks.any Option.isNone = true ∧ m.timers.Allows now := by
  have hwaited : ∀ {last delay : ℕ}, 0 < delay →
      (¬ now - last < delay ↔ last + delay ≤ now) := by
    intro last delay hpos
    omega
  rw [InFlightMessage.sackDue, Bool.and_eq_true, Bool.and_eq_true, Bool.and_eq_true,
    Bool.not_eq_true', Bool.not_eq_true', decide_eq_false_iff_not, decide_eq_false_iff_not,
    hwaited (by decide), and_assoc, and_assoc]
  refine and_congr_right fun _ => and_congr_right fun _ => and_congr ?_ ?_
  · exact UInt8.not_le
  · show _ ↔ ∀ lastSent ∈ m.lastSackSent, lastSent + sackRetryInterval ≤ now
    cases m.lastSackSent with
    | none => simp
    | some lastSent =>
      simp only [Bool.not_eq_true', decide_eq_false_iff_not, Option.mem_some_iff, forall_eq']
      exact hwaited (by decide)

/-- Of all SACKs sent at once, at most one is for the message. -/
theorem filter_asksFor (hm : e.inFlight.lookup key = some m) (localNodeId : UInt32)
    (swarmTag : UInt64) (now : ℕ) :
    (e.checkPendingSacks localNodeId swarmTag now order).1.filter (AsksFor key) =
      if m.sackDue now then [m.sackPacket localNodeId swarmTag key] else [] := by
  have hother : ∀ entry : Σ _ : MessageKey, InFlightMessage, entry.1 ≠ key →
      Option.filter (fun sack => decide (AsksFor key sack))
        (if entry.2.sackDue now then some (entry.2.sackPacket localNodeId swarmTag entry.1)
          else none) = none := by
    intro entry hne
    rw [Option.filter_eq_none_iff]
    intro sack hsack
    split_ifs at hsack
    obtain rfl := Option.some.inj hsack
    simpa [asksFor_sackPacket] using hne
  have hself : AsksFor key (m.sackPacket localNodeId swarmTag key) :=
    (asksFor_sackPacket m localNodeId swarmTag key).mpr rfl
  rw [checkPendingSacks, List.filter_filterMap, HashTable.filterMap_entries _ key hother, hm]
  split
  · next hdue => simp [hdue, hself]
  · next hdue => simp [hdue]

/-- A SACK of an entry names its empty slots. -/
theorem exact_sackPacket (hlen : m.receivedChunks.length ≤ 255) (now : ℕ) (localNodeId : UInt32)
    (swarmTag : UInt64) :
    TimerEvent.Exact (.sack now (m.sackPacket localNodeId swarmTag key) m.receivedChunks) := by
  have hbase : (m.missingIndices.foldl SackPayload.markMissing (.new localNodeId key.1 0)).baseChunk
      = 0 := (foldl_markMissing_ids _ _).2
  have hsmall : ∀ i ∈ m.missingIndices, i < 512 := by
    intro i hi
    exact (List.mem_range.mp (List.mem_filter.mp hi).1).trans_le (hlen.trans (by decide))
  have hempty : ∀ i, i ∈ m.missingIndices ↔ m.receivedChunks[i]? = some none := by
    intro i
    rw [InFlightMessage.missingIndices, List.mem_filter, List.mem_range, decide_eq_true_iff]
    exact and_iff_right_of_imp fun hslot => (List.getElem?_eq_some_iff.mp hslot).1
  have hmarked : ∀ offset, (m.missingIndices.foldl SackPayload.markMissing
      (.new localNodeId key.1 0)).isMarked offset = true ↔ offset ∈ m.missingIndices := by
    intro offset
    rw [SackPayload.isMarked_foldl_markMissing _ _ _ rfl hsmall, SackPayload.isMarked_new,
      Bool.false_or, decide_eq_true_iff]
  simp only [TimerEvent.Exact, InFlightMessage.sackPacket, SackPayload.deserialize_serialize]
  refine ⟨hbase, fun i => ?_⟩
  rw [SackPayload.isMissing_iff, hbase, ← hempty]
  simp only [UInt16.toNat_zero, Nat.zero_add, hmarked]
  constructor
  · rintro ⟨offset, -, rfl, hmem⟩
    exact hmem
  · intro hmem
    exact ⟨i, hsmall i hmem, rfl, hmem⟩

/-! ### One call -/

/-- What a call that the entry outlives does to it: nothing, or one event. -/
inductive TimerStep (m m' : InFlightMessage) : List TimerEvent → Prop
  | quiet (timers_eq : m'.timers = m.timers) : TimerStep m m' []
  | event (ev : TimerEvent) (timers_eq : m'.timers = m.timers.after ev)
      (allowed : ev.isSack = true → m.timers.Allows ev.now) (exact_ : ev.Exact) :
      TimerStep m m' [ev]

/-- A packet is quiet for other messages. -/
theorem timerEvents_of_ne {srcNodeId : UInt32} {packet : MeshPacket} {clock : IngestClock}
    (h : ¬ NewlyStores P swarmMasterKey key e clock order srcNodeId packet) :
    timerEvents P swarmMasterKey key (some e) (.ingestPacket srcNodeId packet clock order) = [] :=
  if_neg h

/-- A message that stays in flight after purging is there once room is made. -/
theorem mem_prepared_of_mem_purged {srcNodeId : UInt32} {packet : MeshPacket} {clock : IngestClock}
    (hkey : keyOf srcNodeId packet = key) (hmem : key ∈ (e.purgeExpired clock.purge).inFlight) :
    key ∈ (e.prepared clock order srcNodeId packet).inFlight := by
  rw [prepared, hkey, makeRoom_of_mem hmem]
  exact hmem

/-- **Opening.** The packet that opens an entry is its first event. -/
theorem Opened.exists_entry (h : Opened P swarmMasterKey key s op) :
    ∃ e' m' now, (machine P swarmMasterKey).next s op = some e' ∧
      e'.inFlight.lookup key = some m' ∧ m'.receivedChunks.length ≤ 255 ∧
      timerEvents P swarmMasterKey key s op = [.stored now] ∧ m'.timers = ⟨now, none, 0⟩ := by
  obtain ⟨e, rfl, hopens, e', hnext, hmem⟩ := h
  rcases next_cases hnext with ⟨srcNodeId, packet, clock, order, result, rfl, hcall⟩ | ⟨hother, -⟩
  · obtain ⟨hkey, hnew⟩ := hopens
    have hcases := ingested P e clock order srcNodeId packet swarmMasterKey
    rw [hcall] at hcases
    cases hcases with
    | malformed _ => exact absurd (mem_prepared_of_mem_purged hkey hmem) hnew
    | duplicate _ _ => exact absurd (mem_prepared_of_mem_purged hkey hmem) hnew
    | rejected _ _ _ _ => exact absurd hmem hnew
    | completed _ _ _ _ _ _ _ _ => exact absurd hkey.symm (AList.mem_erase.mp hmem).1
    | stored chunk entry counts undone opens inside entry_eq incomplete =>
      subst hkey
      have hentry : (e.prepared clock order srcNodeId packet).entryFor clock.now srcNodeId packet =
          .opened packet.header.totalChunks.toNat clock.now := entryFor_of_notMem hnew
      have hcount := packet.header.totalChunks.toNat_lt
      have hslot : ((e.prepared clock order srcNodeId packet).entryFor clock.now srcNodeId
          packet).receivedChunks[packet.header.chunkIdx.toNat]? = some none := by
        rw [hentry, InFlightMessage.opened, List.getElem?_replicate,
          if_pos (UInt8.lt_iff_toNat_lt.mp counts)]
      have hstores : NewlyStores P swarmMasterKey (keyOf srcNodeId packet) e clock order srcNodeId
          packet := ⟨rfl, counts, undone, by rw [opens]; rfl, hslot⟩
      refine ⟨_, entry, clock.now, hnext, AList.lookup_insert _, ?_, if_pos hstores, ?_⟩
      · rw [entry_eq, length_storeChunk, hentry]
        simp only [InFlightMessage.opened, List.length_replicate]
        omega
      · rw [entry_eq, InFlightMessage.storeChunk, if_pos hslot, hentry]
        rfl
  · cases op with
    | ingestPacket srcNodeId packet clock order => exact absurd rfl (hother _ _ _ _)
    | _ => exact hopens.elim

/-- Storing a chunk in the entry is an event when its slot was empty. -/
theorem timerStep_storeChunk {srcNodeId : UInt32} {packet : MeshPacket} {clock : IngestClock}
    {chunk : Bytes plaintextChunkLen}
    (hprepared : (e.prepared clock order srcNodeId packet).inFlight.lookup
      (keyOf srcNodeId packet) = some m)
    (counts : packet.header.chunkIdx < packet.header.totalChunks)
    (undone : keyOf srcNodeId packet ∉ (e.purgeExpired clock.purge).completedCache)
    (opens : opensTo P swarmMasterKey srcNodeId packet = .ok chunk) :
    TimerStep m (m.storeChunk packet.header.chunkIdx.toNat chunk clock.now)
      (timerEvents P swarmMasterKey (keyOf srcNodeId packet) (some e)
        (.ingestPacket srcNodeId packet clock order)) := by
  by_cases hslot : m.receivedChunks[packet.header.chunkIdx.toNat]? = some none
  · have hstores : NewlyStores P swarmMasterKey (keyOf srcNodeId packet) e clock order srcNodeId
        packet := by
      refine ⟨rfl, counts, undone, by rw [opens]; rfl, ?_⟩
      rwa [entryFor_of_lookup hprepared]
    rw [timerEvents, if_pos hstores, InFlightMessage.storeChunk, if_pos hslot]
    exact .event (.stored clock.now) rfl (fun hsack => by cases hsack) trivial
  · have hnot : ¬ NewlyStores P swarmMasterKey (keyOf srcNodeId packet) e clock order srcNodeId
        packet := by
      rintro ⟨-, -, -, -, hempty⟩
      rw [entryFor_of_lookup hprepared] at hempty
      exact hslot hempty
    rw [timerEvents_of_ne hnot, InFlightMessage.storeChunk, if_neg hslot]
    exact .quiet rfl

/-- Ingesting a packet stores a chunk in the entry or is quiet for it. -/
theorem timerStep_ingest {srcNodeId : UInt32} {packet : MeshPacket} {clock : IngestClock}
    {result : Except CryptoError (Option String)}
    (hcall : e.ingestPacket P clock order srcNodeId packet swarmMasterKey = some (result, e'))
    (keeps : ¬ Opens key e (.ingestPacket srcNodeId packet clock order))
    (hm : e.inFlight.lookup key = some m) {m' : InFlightMessage}
    (hm' : e'.inFlight.lookup key = some m') :
    m'.receivedChunks.length = m.receivedChunks.length ∧
      TimerStep m m' (timerEvents P swarmMasterKey key (some e)
        (.ingestPacket srcNodeId packet clock order)) := by
  have hquiet : e.inFlight.lookup key = some m' →
      ¬ NewlyStores P swarmMasterKey key e clock order srcNodeId packet →
      m'.receivedChunks.length = m.receivedChunks.length ∧
        TimerStep m m' (timerEvents P swarmMasterKey key (some e)
          (.ingestPacket srcNodeId packet clock order)) := by
    intro hsame hnot
    obtain rfl : m = m' := Option.some.inj (hm.symm.trans hsame)
    rw [timerEvents_of_ne hnot]
    exact ⟨rfl, .quiet rfl⟩
  by_cases hkey : keyOf srcNodeId packet = key
  · have hprepared : key ∈ (e.prepared clock order srcNodeId packet).inFlight :=
      not_not.mp fun hnew => keeps ⟨hkey, hnew⟩
    have hcases := ingested P e clock order srcNodeId packet swarmMasterKey
    rw [hcall] at hcases
    cases hcases with
    | malformed counts =>
      exact hquiet ((shrinks_purgeExpired e clock.purge).lookup key m' hm')
        fun hstores => absurd hstores.2.1 (UInt8.not_lt.mpr counts)
    | duplicate _ done =>
      subst hkey
      exact hquiet ((shrinks_purgeExpired e clock.purge).lookup _ m' hm')
        fun hstores => hstores.2.2.1 done
    | rejected err _ _ sealed_ =>
      refine hquiet ((shrinks_prepared e clock order srcNodeId packet).lookup key m' hm') ?_
      rintro ⟨-, -, -, hopens, -⟩
      rw [sealed_] at hopens
      cases hopens
    | completed _ _ _ _ _ _ _ _ =>
      -- The entry would be gone.
      subst hkey
      cases (AList.lookup_erase _ _).symm.trans hm'
    | stored chunk entry counts undone opens inside entry_eq incomplete =>
      subst hkey
      obtain ⟨m₁, hm₁⟩ := Option.isSome_iff_exists.mp (AList.lookup_isSome.mpr hprepared)
      obtain rfl : m = m₁ := Option.some.inj (hm.symm.trans
        ((shrinks_prepared e clock order srcNodeId packet).lookup _ m₁ hm₁))
      rw [entryFor_of_lookup hm₁] at entry_eq
      obtain rfl : entry = m' := Option.some.inj ((AList.lookup_insert _).symm.trans hm')
      rw [entry_eq]
      exact ⟨length_storeChunk _ _ _ _, timerStep_storeChunk hm₁ counts undone opens⟩
  · -- A packet of another message.
    rcases inFlight_of_ingestPacket hcall hm' with hsame | ⟨_, _, hsame, -⟩
    · exact hquiet hsame fun hstores => hkey hstores.1
    · exact absurd hsame hkey

/-- **Step lemma.** A call that the entry outlives is quiet or one event for it. -/
theorem Outlives.step (h : Outlives P swarmMasterKey key (some e) op)
    (hm : e.inFlight.lookup key = some m) (hlen : m.receivedChunks.length ≤ 255) :
    ∃ e' m', (machine P swarmMasterKey).next (some e) op = some e' ∧
      e'.inFlight.lookup key = some m' ∧ m'.receivedChunks.length ≤ 255 ∧
      TimerStep m m' (timerEvents P swarmMasterKey key (some e) op) := by
  obtain ⟨e, hstate, hkeeps, e', hnext, hmem⟩ := h
  obtain rfl := Option.some.inj hstate
  obtain ⟨m', hm'⟩ := Option.isSome_iff_exists.mp (AList.lookup_isSome.mpr hmem)
  refine ⟨e', m', hnext, hm', ?_⟩
  cases op with
  | ingestPacket srcNodeId packet clock order =>
    rcases next_cases hnext with ⟨_, _, _, _, result, hop, hcall⟩ | ⟨hother, -⟩
    · obtain ⟨rfl, rfl, rfl, rfl⟩ := EngineOp.ingestPacket.inj hop
      obtain ⟨hlen', hstep⟩ := timerStep_ingest hcall hkeeps hm hm'
      exact ⟨hlen'.trans_le hlen, hstep⟩
    · exact absurd rfl (hother _ _ _ _)
  | cacheOutbound packets now =>
    obtain rfl := Option.some.inj hnext
    have hsame : (e.cacheOutbound packets now).inFlight = e.inFlight := by
      cases packets <;> rfl
    rw [hsame] at hm'
    obtain rfl : m = m' := Option.some.inj (hm.symm.trans hm')
    exact ⟨hlen, .quiet rfl⟩
  | handleSack sackPacket =>
    obtain rfl := Option.some.inj hnext
    obtain rfl : m = m' := Option.some.inj (hm.symm.trans hm')
    exact ⟨hlen, .quiet rfl⟩
  | checkPendingSacks localNodeId swarmTag now order =>
    obtain rfl := Option.some.inj hnext
    obtain rfl : m' = if m.sackDue now then
        { m with lastSackSent := some now, sackCount := m.sackCount + 1 } else m :=
      Option.some.inj (hm'.symm.trans (HashTable.lookup_mapValues_of_lookup hm _))
    rw [timerEvents, filter_asksFor hm, hm]
    by_cases hdue : m.sackDue now = true
    · rw [if_pos hdue, if_pos hdue]
      refine ⟨hlen, .event (.sack now _ _) rfl (fun _ => (sackDue_iff.mp hdue).2) ?_⟩
      exact exact_sackPacket hlen now localNodeId swarmTag
    · rw [if_neg hdue, if_neg hdue]
      exact ⟨hlen, .quiet rfl⟩
  | suppressSack msgId now =>
    obtain rfl := Option.some.inj hnext
    obtain rfl : m' = if key.2 = msgId then { m with lastSackSent := some now } else m :=
      Option.some.inj (hm'.symm.trans (HashTable.lookup_mapValues_of_lookup hm _))
    by_cases hmsg : msgId = key.2
    · rw [timerEvents, if_pos hmsg, if_pos hmsg.symm]
      exact ⟨hlen, .event (.suppressed now) rfl (fun hsack => by cases hsack) trivial⟩
    · rw [timerEvents, if_neg hmsg, if_neg (Ne.symm hmsg)]
      exact ⟨hlen, .quiet rfl⟩

/-! ### A lifetime -/

/-- An event of a call has one of its clock readings. -/
theorem now_mem_readings {ev : TimerEvent} (h : ev ∈ timerEvents P swarmMasterKey key s op) :
    ev.now ∈ op.readings := by
  cases s with
  | none => cases h
  | some e =>
    cases op with
    | ingestPacket srcNodeId packet clock order =>
      rw [timerEvents] at h
      split_ifs at h
      · obtain rfl := List.mem_singleton.mp h
        exact List.mem_cons_of_mem _ List.mem_cons_self
      · cases h
    | checkPendingSacks localNodeId swarmTag now order =>
      obtain ⟨packet, -, rfl⟩ := List.mem_map.mp h
      exact List.mem_cons_self
    | suppressSack msgId now =>
      rw [timerEvents] at h
      split_ifs at h
      · obtain rfl := List.mem_singleton.mp h
        exact List.mem_cons_self
      · cases h
    | _ => cases h

/-- **Run lemma.** Through a life that starts with the timers of a history, the timers stay
those of the history. -/
theorem timed_run {log : List TimerEvent} {life : List EngineOp}
    (hm : e.inFlight.lookup key = some m) (hlen : m.receivedChunks.length ≤ 255)
    (timed : m.timers.Timed log) (exact_ : ∀ ev ∈ log, ev.Exact)
    (later : ∀ ev ∈ log, ∀ r ∈ life.flatMap EngineOp.readings, ev.now ≤ r)
    (monotone : NeverBackwards life)
    (outlives : (machine P swarmMasterKey).Guarded (Outlives P swarmMasterKey key) (some e) life) :
    (∃ t : Timers, t.Timed (log ++ timerLog P swarmMasterKey key (some e) life)) ∧
      ∀ ev ∈ log ++ timerLog P swarmMasterKey key (some e) life, ev.Exact := by
  induction life generalizing e m log with
  | nil =>
    rw [timerLog_nil, List.append_nil]
    exact ⟨⟨_, timed⟩, exact_⟩
  | cons op rest ih =>
    obtain ⟨hop, hrest⟩ := (Machine.guarded_cons _ _ _ _).mp outlives
    obtain ⟨e', m', hnext, hm', hlen', hstep⟩ := hop.step hm hlen
    rw [hnext] at hrest
    rw [NeverBackwards, List.flatMap_cons, List.pairwise_append] at monotone
    obtain ⟨-, hmonotone, hcross⟩ := monotone
    simp only [List.flatMap_cons, List.mem_append] at later
    rw [timerLog_cons, hnext, ← List.append_assoc]
    -- The history with this call's events comes before the rest of the life.
    have hlater : ∀ ev ∈ log ++ timerEvents P swarmMasterKey key (some e) op,
        ∀ r ∈ rest.flatMap EngineOp.readings, ev.now ≤ r := by
      intro ev hev r hr
      rcases List.mem_append.mp hev with hold | hnew
      · exact later ev hold r (Or.inr hr)
      · exact hcross _ (now_mem_readings hnew) r hr
    have hbefore : ∀ ev ∈ timerEvents P swarmMasterKey key (some e) op, ∀ ev' ∈ log,
        ev'.now ≤ ev.now :=
      fun ev hev ev' hev' => later ev' hev' _ (Or.inl (now_mem_readings hev))
    refine ih hm' hlen' ?_ ?_ hlater hmonotone hrest
    all_goals
      generalize timerEvents P swarmMasterKey key (some e) op = events at *
      cases hstep
    · next htimers => rwa [htimers, List.append_nil]
    · next ev htimers allowed hexact =>
      rw [htimers]
      exact timed.event (hbefore ev List.mem_cons_self) allowed
    · rwa [List.append_nil]
    · next ev htimers allowed hexact =>
      intro ev' hev'
      rcases List.mem_append.mp hev' with hold | hnew
      · exact exact_ ev' hold
      · obtain rfl := List.mem_singleton.mp hnew
        exact hexact

/-- A history of one stored chunk. -/
theorem Timers.timed_opened (now : ℕ) : (⟨now, none, 0⟩ : Timers).Timed [.stored now] where
  received now' h := by
    obtain rfl := TimerEvent.stored.inj (List.mem_singleton.mp h)
    exact le_rfl
  asked ev h hasks := by
    obtain rfl := List.mem_singleton.mp h
    cases hasks
  count := rfl
  count_le := Nat.zero_le _
  spaced := List.pairwise_singleton _ _

/-- **SACKs are rare and exact.** In a lifetime of an entry, whatever calls are made, with a
clock that does not go backwards, at most three SACKs are sent for it, each 300 ms after
every chunk stored before it and 500 ms after every SACK sent or overheard before it, and
each names exactly the slots that were empty. -/
theorem sacks_rare_and_exact (P : Primitives) (swarmMasterKey : Bytes 32) (key : MessageKey)
    {s : Option ChunkEngine} {opening : EngineOp} {life : List EngineOp}
    (lifetime : Lifetime P swarmMasterKey key s opening life)
    (monotone : NeverBackwards (opening :: life)) :
    let log := timerLog P swarmMasterKey key s (opening :: life)
    (log.filter TimerEvent.isSack).length ≤ 3 ∧ log.Pairwise TimerEvent.Spaced ∧
      ∀ ev ∈ log, ev.Exact := by
  obtain ⟨e, m, now, hnext, hm, hlen, hevents, htimers⟩ := lifetime.opened.exists_entry
  have hlives := lifetime.outlives
  rw [hnext] at hlives
  rw [NeverBackwards, List.flatMap_cons, List.pairwise_append] at monotone
  obtain ⟨-, hmonotone, hcross⟩ := monotone
  have hnow : now ∈ opening.readings :=
    now_mem_readings (hevents ▸ List.mem_singleton_self (TimerEvent.stored now))
  have hlater : ∀ ev ∈ [TimerEvent.stored now], ∀ r ∈ life.flatMap EngineOp.readings,
      ev.now ≤ r := by
    intro ev hev r hr
    obtain rfl := List.mem_singleton.mp hev
    exact hcross now hnow r hr
  have hexact : ∀ ev ∈ [TimerEvent.stored now], ev.Exact := by
    intro ev hev
    obtain rfl := List.mem_singleton.mp hev
    trivial
  obtain ⟨⟨t, htimed⟩, hall⟩ := timed_run hm hlen (htimers ▸ Timers.timed_opened now) hexact hlater
    hmonotone hlives
  simp only [timerLog_cons, hevents, hnext]
  exact ⟨htimed.count.trans_le htimed.count_le, htimed.spaced, hall⟩

/-- The first chunk of a two-chunk text arrives. -/
def firstChunkArrives : EngineOp :=
  .ingestPacket 7 ((transparentPackets twoChunkText 7).headD (.deserializePayload (.zero _))) ⟨0, 0⟩
    (.stored _)

/-- A node looks what SACKs are due after 300 milliseconds. -/
def looksAfterDelay : EngineOp := .checkPendingSacks 8 defaultNetworkTag sackInitialDelay (.stored _)

theorem lifetime_firstChunk : Lifetime transparent (.zero 32) (7, 0) (some new) firstChunkArrives
    [looksAfterDelay] :=
  ⟨by decide +kernel, by decide +kernel⟩

theorem sacks_rare_and_exact_firstChunk :
    let log := timerLog transparent (.zero 32) (7, 0) (some new) [firstChunkArrives, looksAfterDelay]
    (log.filter TimerEvent.isSack).length ≤ 3 ∧ log.Pairwise TimerEvent.Spaced ∧
      ∀ ev ∈ log, ev.Exact :=
  sacks_rare_and_exact transparent (.zero 32) (7, 0) lifetime_firstChunk (by decide)

/-- A SACK overheard before an entry is opened puts off none of the entry's own. -/
theorem overheard_before_opening : ¬ ∀ (P : Primitives) (swarmMasterKey : Bytes 32)
    (key : MessageKey) (before : List EngineOp) (opening : EngineOp) (life : List EngineOp),
    Lifetime P swarmMasterKey key ((machine P swarmMasterKey).final (some new) before) opening life →
    NeverBackwards (before ++ opening :: life) →
    ∀ overheard, .suppressed overheard ∈ timerLog P swarmMasterKey key (some new) before →
      ∀ ev ∈ timerLog P swarmMasterKey key ((machine P swarmMasterKey).final (some new) before)
        (opening :: life), TimerEvent.Spaced (.suppressed overheard) ev := by
  intro hall
  -- In an empty engine there is nothing to put off.
  have hstart : (machine transparent (.zero 32)).final (some new) [.suppressSack 0 0] = some new :=
    rfl
  have hspaced := hall transparent (.zero 32) (7, 0) [.suppressSack 0 0] firstChunkArrives
    [looksAfterDelay] (hstart ▸ lifetime_firstChunk) (by decide) 0 List.mem_cons_self
  rw [hstart] at hspaced
  have hlog : (true, sackInitialDelay) ∈ (timerLog transparent (.zero 32) (7, 0) (some new)
      [firstChunkArrives, looksAfterDelay]).map fun ev => (ev.isSack, ev.now) := by
    decide +kernel
  obtain ⟨ev, hmem, hev⟩ := List.mem_map.mp hlog
  obtain ⟨hsack, hnow⟩ := Prod.mk.inj hev
  have hlate := hspaced ev hmem hsack
  rw [hnow] at hlate
  exact absurd hlate (by decide)

end ChunkEngine

end Gibberish.Daemon
