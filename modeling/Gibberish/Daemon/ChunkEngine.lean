/-
# The chunk engine

Reassembly of inbound packets under the anti-DoS limits, the outbox for
retransmission, and selective acknowledgments. Each function takes the clock
readings it makes, in nanoseconds, and the order in which a loop over a table
visits its entries. `ingestPacket` is partial: it has no result when it would
index past the chunks of the entry it found.
-/

import Gibberish.Daemon.Fragment
import Gibberish.Foundation.HashTable
import Gibberish.Protocol.Sack

set_option autoImplicit false

namespace Gibberish.Daemon

open Gibberish.Foundation Gibberish.Protocol Gibberish.Crypto

def maxGlobalInFlight : ℕ := 16
def maxPerSenderInFlight : ℕ := 2
def maxSackRetries : UInt8 := 3

/-- Ten seconds. -/
def reassemblyTimeout : ℕ := 10000000000

/-- How long completed messages and sent packets are remembered: sixty seconds. -/
def cacheRetention : ℕ := 60000000000

/-- 300 milliseconds. -/
def sackInitialDelay : ℕ := 300000000

/-- 500 milliseconds. -/
def sackRetryInterval : ℕ := 500000000

/-- A message of which some chunks have arrived. -/
structure InFlightMessage where
  totalChunks : ℕ
  receivedChunks : List (Option (Bytes plaintextChunkLen))
  firstReceived : ℕ
  lastReceived : ℕ
  lastSackSent : Option ℕ
  sackCount : UInt8
  deriving DecidableEq

/-- Source node id and message id. -/
abbrev MessageKey := UInt32 × UInt32

structure ChunkEngine where
  inFlight : HashTable MessageKey InFlightMessage
  completedCache : HashTable MessageKey ℕ
  outboxCache : HashTable UInt32 (List MeshPacket × ℕ)

/-- The two clock readings of `ingest_packet`: when it purges and when it stores. -/
structure IngestClock where
  purge : ℕ
  now : ℕ
  deriving DecidableEq

/-- An order in which a loop visits the in-flight messages. -/
abbrev InFlightOrder := IterOrder (Σ _ : MessageKey, InFlightMessage)

namespace InFlightMessage

/-- A message of which nothing has arrived yet. -/
def opened (totalChunks now : ℕ) : InFlightMessage where
  totalChunks := totalChunks
  receivedChunks := List.replicate totalChunks none
  firstReceived := now
  lastReceived := now
  lastSackSent := none
  sackCount := 0

/-- Store a chunk unless its slot is taken. -/
def storeChunk (m : InFlightMessage) (chunkIdx : ℕ) (chunk : Bytes plaintextChunkLen) (now : ℕ) :
    InFlightMessage :=
  if m.receivedChunks[chunkIdx]? = some none then
    { m with receivedChunks := m.receivedChunks.set chunkIdx (some chunk), lastReceived := now }
  else m

/-- Every slot is filled. -/
def isComplete (m : InFlightMessage) : Bool := m.receivedChunks.all Option.isSome

/-- The indices of the empty slots, ascending. -/
def missingIndices (m : InFlightMessage) : List ℕ :=
  (List.range m.receivedChunks.length).filter fun i => m.receivedChunks[i]? = some none

/-- The message is incomplete, and the delay, the retry limit and the retry
interval allow a SACK now. -/
def sackDue (m : InFlightMessage) (now : ℕ) : Bool :=
  m.receivedChunks.any Option.isNone && !(now - m.lastReceived < sackInitialDelay) &&
    !(m.sackCount ≥ maxSackRetries) &&
    match m.lastSackSent with
    | none => true
    | some lastSent => !(now - lastSent < sackRetryInterval)

/-- The SACK that names the missing chunks of a message. -/
def sackPacket (m : InFlightMessage) (localNodeId : UInt32) (swarmTag : UInt64)
    (key : MessageKey) : MeshPacket where
  header :=
    { networkTag := swarmTag
      msgId := key.2
      chunkIdx := 0
      totalChunks := UInt8.ofNat m.totalChunks
      ttl := 5
      hopCount := 0
      flags := flagSack }
  payload := (m.missingIndices.foldl SackPayload.markMissing (.new localNodeId key.1 0)).serialize

end InFlightMessage

/-- The filled slots joined, without trailing zero bytes. -/
def assemble (receivedChunks : List (Option (Bytes plaintextChunkLen))) : List UInt8 :=
  stripEnd 0 (receivedChunks.reduceOption.flatMap Vector.toList)

namespace ChunkEngine

def new : ChunkEngine := ⟨∅, ∅, ∅⟩

/-- Drop in-flight messages, completed messages and sent packets past their time. -/
def purgeExpired (e : ChunkEngine) (now : ℕ) : ChunkEngine where
  inFlight := e.inFlight.retain fun _ m => now - m.lastReceived < reassemblyTimeout
  completedCache := e.completedCache.retain fun _ completedAt => now - completedAt < cacheRetention
  outboxCache := e.outboxCache.retain fun _ c => now - c.2 < cacheRetention

/-- Remove the oldest in-flight message among the given sources. -/
def evictOldest (e : ChunkEngine) (order : InFlightOrder) (p : MessageKey → Bool) : ChunkEngine :=
  match e.inFlight.minKeyBy order p InFlightMessage.firstReceived with
  | some oldKey => { e with inFlight := e.inFlight.erase oldKey }
  | none => e

/-- Enforce the per-sender limit, then the global one, for a message not in flight yet. -/
def makeRoom (e : ChunkEngine) (order : InFlightOrder) (key : MessageKey) : ChunkEngine :=
  if key ∈ e.inFlight then e
  else
    let bySource := fun k : MessageKey => decide (k.1 = key.1)
    let e := if e.inFlight.countKeys bySource ≥ maxPerSenderInFlight then
        e.evictOldest order bySource else e
    if e.inFlight.size ≥ maxGlobalInFlight then e.evictOldest order fun _ => true else e

/-- Ingest a packet heard from a node: reject it, drop it, or store its chunk and
return the text that this completes. -/
def ingestPacket (P : Primitives) (e : ChunkEngine) (clock : IngestClock) (order : InFlightOrder)
    (srcNodeId : UInt32) (packet : MeshPacket) (swarmMasterKey : Bytes 32) :
    Option (Except CryptoError (Option String) × ChunkEngine) :=
  let e := e.purgeExpired clock.purge
  let msgId := packet.header.msgId
  let chunkIdx := packet.header.chunkIdx.toNat
  let totalChunks := packet.header.totalChunks.toNat
  if totalChunks = 0 ∨ totalChunks > maxTotalChunks then some (.error .payloadTooLarge, e)
  else if chunkIdx ≥ totalChunks then some (.error .payloadTooLarge, e)
  else
    let key := (srcNodeId, msgId)
    if key ∈ e.completedCache then some (.ok none, e)
    else
      let e := e.makeRoom order key
      let peerKey := P.deriveSenderSubkey swarmMasterKey srcNodeId
      match P.decryptChunk peerKey msgId packet.header.chunkIdx msgId.toUInt64 packet.payload with
      | .error err => some (.error err, e)
      | .ok decrypted =>
        let entry := (e.inFlight.lookup key).getD (.opened totalChunks clock.now)
        if chunkIdx < entry.receivedChunks.length then
          let entry := entry.storeChunk chunkIdx decrypted clock.now
          if entry.isComplete then
            let e := { e with
              inFlight := e.inFlight.erase key
              completedCache := e.completedCache.insert key clock.now }
            some (.ok (fromUtf8 (assemble entry.receivedChunks)), e)
          else some (.ok none, { e with inFlight := e.inFlight.insert key entry })
        else none

/-- Remember sent packets under their message id. -/
def cacheOutbound (e : ChunkEngine) (packets : List MeshPacket) (now : ℕ) : ChunkEngine :=
  match packets with
  | [] => e
  | first :: _ => { e with outboxCache := e.outboxCache.insert first.header.msgId (packets, now) }

/-- The remembered packets a SACK asks for. -/
def handleSack (e : ChunkEngine) (sackPacket : MeshPacket) : List MeshPacket :=
  if sackPacket.header.flags &&& flagSack = 0 then []
  else
    let sack := SackPayload.deserialize sackPacket.payload
    match e.outboxCache.lookup sackPacket.header.msgId with
    | none => []
    | some (cachedPkts, _) => sack.forEachMissing.filterMap fun missingIdx => cachedPkts[missingIdx]?

/-- Emit a SACK for every in-flight message that is due one. -/
def checkPendingSacks (e : ChunkEngine) (localNodeId : UInt32) (swarmTag : UInt64) (now : ℕ)
    (order : InFlightOrder) : List MeshPacket × ChunkEngine :=
  ((order.arrange e.inFlight.entries).filterMap fun entry =>
      if entry.2.sackDue now then some (entry.2.sackPacket localNodeId swarmTag entry.1) else none,
    { e with
      inFlight := e.inFlight.mapValues fun _ m =>
        if m.sackDue now then { m with lastSackSent := some now, sackCount := m.sackCount + 1 }
        else m })

/-- Put off our own SACKs for a message id that somebody else asked for. -/
def suppressSack (e : ChunkEngine) (msgId : UInt32) (now : ℕ) : ChunkEngine :=
  { e with
    inFlight := e.inFlight.mapValues fun key m =>
      if key.2 = msgId then { m with lastSackSent := some now } else m }

/-! ### What ingesting a packet can do -/

variable {P : Primitives} {e : ChunkEngine} {clock : IngestClock} {order : InFlightOrder}
variable {srcNodeId : UInt32} {packet : MeshPacket} {swarmMasterKey : Bytes 32}

/-- The key of the message a packet belongs to. -/
def keyOf (srcNodeId : UInt32) (packet : MeshPacket) : MessageKey :=
  (srcNodeId, packet.header.msgId)

/-- What the packet decrypts to under the subkey of the node it was heard from. -/
def opensTo (P : Primitives) (swarmMasterKey : Bytes 32) (srcNodeId : UInt32)
    (packet : MeshPacket) : Except CryptoError (Bytes plaintextChunkLen) :=
  P.decryptChunk (P.deriveSenderSubkey swarmMasterKey srcNodeId) packet.header.msgId
    packet.header.chunkIdx packet.header.msgId.toUInt64 packet.payload

/-- The engine in which a packet's chunk is stored: purged, with room made. -/
def prepared (e : ChunkEngine) (clock : IngestClock) (order : InFlightOrder) (srcNodeId : UInt32)
    (packet : MeshPacket) : ChunkEngine :=
  (e.purgeExpired clock.purge).makeRoom order (keyOf srcNodeId packet)

/-- The in-flight message of a packet, new if there is none. -/
def entryFor (e : ChunkEngine) (now : ℕ) (srcNodeId : UInt32) (packet : MeshPacket) :
    InFlightMessage :=
  (e.inFlight.lookup (keyOf srcNodeId packet)).getD
    (.opened packet.header.totalChunks.toNat now)

/-- The six ways a call of `ingest_packet` can end. -/
inductive Ingested (P : Primitives) (e : ChunkEngine) (clock : IngestClock) (order : InFlightOrder)
    (srcNodeId : UInt32) (packet : MeshPacket) (swarmMasterKey : Bytes 32) :
    Option (Except CryptoError (Option String) × ChunkEngine) → Prop
  | malformed (counts : packet.header.totalChunks ≤ packet.header.chunkIdx) :
      Ingested P e clock order srcNodeId packet swarmMasterKey
        (some (.error .payloadTooLarge, e.purgeExpired clock.purge))
  | duplicate (counts : packet.header.chunkIdx < packet.header.totalChunks)
      (done : keyOf srcNodeId packet ∈ (e.purgeExpired clock.purge).completedCache) :
      Ingested P e clock order srcNodeId packet swarmMasterKey
        (some (.ok none, e.purgeExpired clock.purge))
  | rejected (err : CryptoError) (counts : packet.header.chunkIdx < packet.header.totalChunks)
      (undone : keyOf srcNodeId packet ∉ (e.purgeExpired clock.purge).completedCache)
      (sealed_ : opensTo P swarmMasterKey srcNodeId packet = .error err) :
      Ingested P e clock order srcNodeId packet swarmMasterKey
        (some (.error err, e.prepared clock order srcNodeId packet))
  | overrun (chunk : Bytes plaintextChunkLen)
      (counts : packet.header.chunkIdx < packet.header.totalChunks)
      (undone : keyOf srcNodeId packet ∉ (e.purgeExpired clock.purge).completedCache)
      (opens : opensTo P swarmMasterKey srcNodeId packet = .ok chunk)
      (outside : ((e.prepared clock order srcNodeId packet).entryFor clock.now srcNodeId
        packet).receivedChunks.length ≤ packet.header.chunkIdx.toNat) :
      Ingested P e clock order srcNodeId packet swarmMasterKey none
  | stored (chunk : Bytes plaintextChunkLen) (entry : InFlightMessage)
      (counts : packet.header.chunkIdx < packet.header.totalChunks)
      (undone : keyOf srcNodeId packet ∉ (e.purgeExpired clock.purge).completedCache)
      (opens : opensTo P swarmMasterKey srcNodeId packet = .ok chunk)
      (inside : packet.header.chunkIdx.toNat < ((e.prepared clock order srcNodeId packet).entryFor
        clock.now srcNodeId packet).receivedChunks.length)
      (entry_eq : entry = ((e.prepared clock order srcNodeId packet).entryFor clock.now srcNodeId
        packet).storeChunk packet.header.chunkIdx.toNat chunk clock.now)
      (incomplete : entry.isComplete = false) :
      Ingested P e clock order srcNodeId packet swarmMasterKey
        (some (.ok none, { e.prepared clock order srcNodeId packet with
          inFlight := (e.prepared clock order srcNodeId packet).inFlight.insert
            (keyOf srcNodeId packet) entry }))
  | completed (chunk : Bytes plaintextChunkLen) (entry : InFlightMessage)
      (counts : packet.header.chunkIdx < packet.header.totalChunks)
      (undone : keyOf srcNodeId packet ∉ (e.purgeExpired clock.purge).completedCache)
      (opens : opensTo P swarmMasterKey srcNodeId packet = .ok chunk)
      (inside : packet.header.chunkIdx.toNat < ((e.prepared clock order srcNodeId packet).entryFor
        clock.now srcNodeId packet).receivedChunks.length)
      (entry_eq : entry = ((e.prepared clock order srcNodeId packet).entryFor clock.now srcNodeId
        packet).storeChunk packet.header.chunkIdx.toNat chunk clock.now)
      (complete : entry.isComplete = true) :
      Ingested P e clock order srcNodeId packet swarmMasterKey
        (some (.ok (fromUtf8 (assemble entry.receivedChunks)),
          { e.prepared clock order srcNodeId packet with
            inFlight := (e.prepared clock order srcNodeId packet).inFlight.erase
              (keyOf srcNodeId packet)
            completedCache := (e.prepared clock order srcNodeId packet).completedCache.insert
              (keyOf srcNodeId packet) clock.now }))

/-- **Inversion.** Every call of `ingest_packet` ends in one of the six ways. -/
theorem ingested (P : Primitives) (e : ChunkEngine) (clock : IngestClock) (order : InFlightOrder)
    (srcNodeId : UInt32) (packet : MeshPacket) (swarmMasterKey : Bytes 32) :
    Ingested P e clock order srcNodeId packet swarmMasterKey
      (e.ingestPacket P clock order srcNodeId packet swarmMasterKey) := by
  simp only [ingestPacket]
  split
  · next h =>
    -- A one-byte count never exceeds the limit, so only zero is rejected here.
    have hbound : packet.header.totalChunks.toNat < 256 := packet.header.totalChunks.toNat_lt
    simp only [maxTotalChunks] at h
    apply Ingested.malformed
    rw [UInt8.le_iff_toNat_le]
    omega
  · split
    · next h => exact .malformed (UInt8.le_iff_toNat_le.mpr h)
    · next h =>
      have counts : packet.header.chunkIdx < packet.header.totalChunks :=
        UInt8.lt_iff_toNat_lt.mpr (Nat.not_le.mp h)
      split
      · next done => exact .duplicate counts done
      · next undone =>
        split
        · next err sealed_ => exact .rejected err counts undone sealed_
        · next chunk opens =>
          split
          · next inside =>
            split
            · next complete => exact .completed chunk _ counts undone opens inside rfl complete
            · next incomplete =>
              exact .stored chunk _ counts undone opens inside rfl (by simpa using incomplete)
          · next outside => exact .overrun chunk counts undone opens (Nat.not_lt.mp outside)

/-- A returned text is what the completed entry assembles to. -/
theorem text_returned {e' : ChunkEngine} {text : String}
    (h : e.ingestPacket P clock order srcNodeId packet swarmMasterKey =
      some (.ok (some text), e')) :
    ∃ chunk, packet.header.chunkIdx < packet.header.totalChunks ∧
      keyOf srcNodeId packet ∉ (e.purgeExpired clock.purge).completedCache ∧
      opensTo P swarmMasterKey srcNodeId packet = .ok chunk ∧
      packet.header.chunkIdx.toNat < ((e.prepared clock order srcNodeId packet).entryFor clock.now
        srcNodeId packet).receivedChunks.length ∧
      (((e.prepared clock order srcNodeId packet).entryFor clock.now srcNodeId packet).storeChunk
        packet.header.chunkIdx.toNat chunk clock.now).isComplete = true ∧
      fromUtf8 (assemble (((e.prepared clock order srcNodeId packet).entryFor clock.now srcNodeId
        packet).storeChunk packet.header.chunkIdx.toNat chunk clock.now).receivedChunks) =
        some text ∧
      e' = { e.prepared clock order srcNodeId packet with
        inFlight := (e.prepared clock order srcNodeId packet).inFlight.erase
          (keyOf srcNodeId packet)
        completedCache := (e.prepared clock order srcNodeId packet).completedCache.insert
          (keyOf srcNodeId packet) clock.now } := by
  have hcases := ingested P e clock order srcNodeId packet swarmMasterKey
  rw [h] at hcases
  generalize hresult : (some (Except.ok (some text), e') :
    Option (Except CryptoError (Option String) × ChunkEngine)) = result at hcases
  cases hcases with
  | completed chunk entry counts undone opens inside entry_eq complete =>
    simp only [Option.some.injEq, Prod.mk.injEq, Except.ok.injEq] at hresult
    subst entry_eq
    exact ⟨chunk, counts, undone, opens, inside, complete, hresult.1.symm, hresult.2⟩
  | _ => simp at hresult

end ChunkEngine

end Gibberish.Daemon
