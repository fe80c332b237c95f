/-
# Replayed packets

A message that was handed out stays in the completed cache for sixty seconds, and
while it is there its packets are dropped. Once it is purged nothing tells a replay
from a new message. So with a clock that does not go backwards, two texts returned
for one message are at least sixty seconds apart, and a replay after that long does
return the text again.
-/

import Gibberish.Daemon.EngineRun

set_option autoImplicit false

namespace Gibberish.Daemon

open Gibberish.Foundation Gibberish.Protocol Gibberish.Crypto

/-- The clock readings a call makes, in order. -/
def EngineOp.readings : EngineOp → List ℕ
  | .ingestPacket _ _ clock _ => [clock.purge, clock.now]
  | .cacheOutbound _ now => [now]
  | .handleSack _ => []
  | .checkPendingSacks _ _ now _ => [now]
  | .suppressSack _ now => [now]

/-- The clock does not go backwards during a run. -/
def NeverBackwards (ops : List EngineOp) : Prop :=
  (ops.flatMap EngineOp.readings).Pairwise (· ≤ ·)

instance (ops : List EngineOp) : Decidable (NeverBackwards ops) :=
  inferInstanceAs (Decidable (List.Pairwise _ _))

namespace ChunkEngine

variable {P : Primitives} {swarmMasterKey : Bytes 32}
variable {s : Option ChunkEngine} {op : EngineOp} {ops : List EngineOp} {d : Delivery}
variable {key : MessageKey} {t : ℕ}

/-- The readings of a delivery are readings of the run. -/
theorem purge_mem_readings (h : d ∈ (machine P swarmMasterKey).outputs s ops) :
    d.clock.purge ∈ ops.flatMap EngineOp.readings := by
  obtain ⟨x, hx, hd⟩ := List.mem_flatMap.mp h
  obtain ⟨-, -, srcNodeId, packet, order, -, hop, -⟩ := emit_cases hd
  obtain ⟨before, after, rfl, -⟩ := Machine.mem_trace hx
  rw [List.flatMap_append, List.flatMap_cons, hop]
  simp [EngineOp.readings]

/-- The message was completed at the given time, as far as the engine remembers. -/
def Remembers (s : Option ChunkEngine) (key : MessageKey) (t : ℕ) : Prop :=
  ∀ e ∈ s, e.completedCache.lookup key = some t

/-- A call that returns a text remembers its message from then on. -/
theorem remembers_of_emit (h : d ∈ (machine P swarmMasterKey).emit s op) :
    Remembers ((machine P swarmMasterKey).next s op) d.key d.clock.now := by
  obtain ⟨e, e', srcNodeId, packet, order, -, -, hkey, heq, hnext, -⟩ := emit_cases h
  obtain ⟨chunk, -, -, -, -, -, -, rfl⟩ := text_returned heq
  intro e₁ he₁
  rw [hnext] at he₁
  obtain rfl := Option.some.inj he₁
  rw [hkey]
  exact AList.lookup_insert _

/-- A completed message is kept by a purge that comes early enough. -/
theorem lookup_purgeExpired {e : ChunkEngine} {now : ℕ} (h : e.completedCache.lookup key = some t)
    (hearly : now - t < cacheRetention) :
    (e.purgeExpired now).completedCache.lookup key = some t := by
  rw [purgeExpired, HashTable.lookup_retain, h]
  simp [Option.filter, hearly]

/-- Ingesting a packet before the message is purged keeps it and returns no text for it. -/
theorem remembers_ingestPacket {e e' : ChunkEngine} {clock : IngestClock} {order : InFlightOrder}
    {srcNodeId : UInt32} {packet : MeshPacket} {result : Except CryptoError (Option String)}
    (h : e.completedCache.lookup key = some t) (hearly : clock.purge - t < cacheRetention)
    (heq : e.ingestPacket P clock order srcNodeId packet swarmMasterKey = some (result, e')) :
    e'.completedCache.lookup key = some t ∧
      ∀ text, result = .ok (some text) → keyOf srcNodeId packet ≠ key := by
  have hkept := lookup_purgeExpired h hearly
  have hmem : key ∈ (e.purgeExpired clock.purge).completedCache := HashTable.mem_of_lookup hkept
  have hcases := ingested P e clock order srcNodeId packet swarmMasterKey
  rw [heq] at hcases
  cases hcases with
  | malformed _ => exact ⟨hkept, by simp⟩
  | duplicate _ _ => exact ⟨hkept, by simp⟩
  | rejected _ _ _ _ => exact ⟨by rwa [completedCache_prepared], by simp⟩
  | stored _ _ _ _ _ _ _ _ => exact ⟨by rwa [completedCache_prepared], by simp⟩
  | completed chunk entry counts undone _ _ _ _ =>
    have hne : keyOf srcNodeId packet ≠ key := by
      intro hkey
      exact undone (hkey ▸ hmem)
    refine ⟨?_, fun _ _ => hne⟩
    show ((e.prepared clock order srcNodeId packet).completedCache.insert _ _).lookup key = some t
    rw [AList.lookup_insert_ne hne.symm, completedCache_prepared]
    exact hkept

/-- **Step lemma.** A call keeps a remembered message and returns no text for it,
unless it purges the engine after the message's time. -/
theorem Remembers.step (h : Remembers s key t) (op : EngineOp) :
    (Remembers ((machine P swarmMasterKey).next s op) key t ∧
        ∀ d ∈ (machine P swarmMasterKey).emit s op, d.key ≠ key) ∨
      ∃ srcNodeId packet clock order, op = .ingestPacket srcNodeId packet clock order ∧
        t + cacheRetention ≤ clock.purge := by
  by_cases hlate : ∃ srcNodeId packet clock order,
      op = .ingestPacket srcNodeId packet clock order ∧ t + cacheRetention ≤ clock.purge
  · exact Or.inr hlate
  -- Otherwise a packet that is ingested comes early enough to find the message.
  have hearly : ∀ srcNodeId packet clock order, op = .ingestPacket srcNodeId packet clock order →
      clock.purge - t < cacheRetention := by
    intro srcNodeId packet clock order hop
    have hnot : ¬ t + cacheRetention ≤ clock.purge :=
      fun hle => hlate ⟨srcNodeId, packet, clock, order, hop, hle⟩
    have hpositive : 0 < cacheRetention := by decide
    omega
  refine Or.inl ⟨?_, ?_⟩
  · intro e' he'
    cases s with
    | none => cases he'
    | some e =>
      rcases next_cases he' with ⟨srcNodeId, packet, clock, order, result, hop, hcall⟩ | ⟨-, hs⟩
      · exact (remembers_ingestPacket (h e rfl) (hearly _ _ _ _ hop) hcall).1
      · rw [hs.completed]
        exact h e rfl
  · intro d hd
    obtain ⟨e, e', srcNodeId, packet, order, rfl, hop, hkey, hcall, -⟩ := emit_cases hd
    rw [hkey]
    exact (remembers_ingestPacket (h e rfl) (hearly _ _ _ _ hop) hcall).2 _ rfl

/-- **Run lemma.** As long as the clock does not go backwards, no text is returned
for a remembered message until it has been kept for its time. -/
theorem Remembers.run (h : Remembers s key t) (monotone : NeverBackwards ops) :
    ∀ d ∈ (machine P swarmMasterKey).outputs s ops, d.key = key →
      t + cacheRetention ≤ d.clock.purge := by
  induction ops generalizing s with
  | nil => intro d hd; simp at hd
  | cons op rest ih =>
    intro d hd hkey
    rw [NeverBackwards, List.flatMap_cons, List.pairwise_append] at monotone
    obtain ⟨-, hrest, hcross⟩ := monotone
    rw [Machine.outputs_cons] at hd
    rcases h.step op with ⟨hnext, hnone⟩ | ⟨srcNodeId, packet, clock, order, rfl, hlate⟩
    · rcases List.mem_append.mp hd with hd | hd
      · exact absurd hkey (hnone d hd)
      · exact ih hnext hrest d hd hkey
    · rcases List.mem_append.mp hd with hd | hd
      · obtain ⟨-, -, src, packet', order', -, hop, -⟩ := emit_cases hd
        obtain ⟨-, -, hclock, -⟩ := EngineOp.ingestPacket.inj hop
        exact hclock ▸ hlate
      · have hlater := hcross clock.purge (by simp [EngineOp.readings]) _ (purge_mem_readings hd)
        exact hlate.trans hlater

/-- **At most once in sixty seconds.** In a run whose clock does not go backwards,
a second text for one source and message id comes from a call that started at
least sixty seconds after the first one was completed. -/
theorem deliveries_apart (P : Primitives) (swarmMasterKey : Bytes 32) (ops : List EngineOp)
    (monotone : NeverBackwards ops) :
    ((machine P swarmMasterKey).outputs (some new) ops).Pairwise fun d d' =>
      d.key = d'.key → d.clock.now + cacheRetention ≤ d'.clock.purge := by
  generalize some new = s
  induction ops generalizing s with
  | nil => simp
  | cons op rest ih =>
    have hrest : NeverBackwards rest := by
      rw [NeverBackwards, List.flatMap_cons, List.pairwise_append] at monotone
      exact monotone.2.1
    rw [Machine.outputs_cons, List.pairwise_append]
    refine ⟨?_, ih hrest _, ?_⟩
    · cases hemit : (machine P swarmMasterKey).emit s op with
      | nil => exact List.Pairwise.nil
      | cons d _ =>
        have hd : d ∈ (machine P swarmMasterKey).emit s op := by simp [hemit]
        obtain ⟨-, -, -, -, -, -, -, -, -, -, hsingle⟩ := emit_cases hd
        rw [← hemit, hsingle]
        exact List.pairwise_singleton _ _
    · intro d hd d' hd' hkey
      exact (remembers_of_emit hd).run hrest d' hd' hkey.symm

/-- A text of node 7 is delivered, and its packet is captured and delivered again
a minute later. -/
def replayRun : List EngineOp :=
  (transparentPackets "hello" 7).map (fun packet => .ingestPacket 7 packet ⟨0, 0⟩ (.stored _)) ++
    (transparentPackets "hello" 7).map fun packet =>
      .ingestPacket 7 packet ⟨60000000000, 60000000000⟩ (.stored _)

/-- The two texts of that run are a minute apart. -/
theorem deliveries_apart_replayRun :
    ((machine transparent (.zero 32)).outputs (some new) replayRun).Pairwise fun d d' =>
      d.key = d'.key → d.clock.now + cacheRetention ≤ d'.clock.purge :=
  deliveries_apart transparent (.zero 32) replayRun (by decide +kernel)

/-- The replayed message is returned twice. -/
theorem not_delivered_once_replayRun :
    ¬ (((machine transparent (.zero 32)).outputs (some new) replayRun).map Delivery.key).Nodup := by
  decide +kernel

end ChunkEngine

end Gibberish.Daemon
