/-
# Authenticity against an adversary on the air

Whoever controls the air delivers packets with any header and payload, under any
source id. The cipher binds a chunk to the sender's key, the message id, the chunk
index and the counter, so a chunk that opens is the sender's chunk at that index.
The number of chunks is bound to nothing. An entry has as many slots as the packet
that opened it declared, and the text it assembles to is that leading part of the
sender's text. It is the whole text, without its trailing zero bytes, when enough
chunks were declared.
-/

import Gibberish.Daemon.Reassembly

set_option autoImplicit false

namespace Gibberish.Daemon

open Gibberish.Foundation Gibberish.Protocol Gibberish.Crypto

/-- The text each node sent under each message id: at most one. -/
abbrev SentTexts := UInt32 → UInt32 → Option String

/-- The `encrypt_chunk` invocations of a node that sends a text. -/
def callsFor (P : Primitives) (swarmMasterKey : Bytes 32) (nodeId msgId : UInt32) (text : String) :
    List EncryptCall :=
  let numChunks := pieceCount plaintextChunkLen (asBytes text).length
  if numChunks > maxTotalChunks then []
  else chunkCalls (P.deriveSenderSubkey swarmMasterKey nodeId) msgId (UInt8.ofNat numChunks)
    (asBytes text)

/-- The packet does not open, or its payload is what `encrypt_chunk` returned for
some text that was sent, under the same subkey, message id, chunk index and counter. -/
def Unforged (P : Primitives) (swarmMasterKey : Bytes 32) (sent : SentTexts) (srcNodeId : UInt32)
    (packet : MeshPacket) : Prop :=
  ∀ chunk, ChunkEngine.opensTo P swarmMasterKey srcNodeId packet = .ok chunk →
    ∃ nodeId msgId text, sent nodeId msgId = some text ∧
      ∃ call ∈ callsFor P swarmMasterKey nodeId msgId text,
        call.sessionKey = P.deriveSenderSubkey swarmMasterKey srcNodeId ∧
        call.msgId = packet.header.msgId ∧ call.chunkIdx = packet.header.chunkIdx ∧
        call.ratchetCounter = packet.header.msgId.toUInt64 ∧
        P.encryptChunk call.sessionKey call.msgId call.chunkIdx call.ratchetCounter
          call.plaintext = .ok packet.payload

/-- Every packet of a run is unforged. -/
def AllUnforged (P : Primitives) (swarmMasterKey : Bytes 32) (sent : SentTexts)
    (ops : List EngineOp) : Prop :=
  ∀ srcNodeId packet clock order, .ingestPacket srcNodeId packet clock order ∈ ops →
    Unforged P swarmMasterKey sent srcNodeId packet

namespace ChunkEngine

/-- What a declared number of chunks may be, for a packet that opens a new entry. A packet
whose index is not below its own count opens none. -/
def OpensWith (P : Primitives) (swarmMasterKey : Bytes 32) (sent : SentTexts)
    (enough : String → ℕ → Prop) : Option ChunkEngine → EngineOp → Prop
  | some e, .ingestPacket srcNodeId packet clock order =>
    packet.header.chunkIdx < packet.header.totalChunks →
    (∃ chunk, opensTo P swarmMasterKey srcNodeId packet = .ok chunk) →
    keyOf srcNodeId packet ∉ (e.purgeExpired clock.purge).completedCache →
    keyOf srcNodeId packet ∉ (e.prepared clock order srcNodeId packet).inFlight →
    ∀ text, sent srcNodeId packet.header.msgId = some text →
      enough text packet.header.totalChunks.toNat
  | _, _ => True

/-- Every message in flight holds chunks of its sender's text, in as many slots as
were declared for it. -/
def HoldsSent (sent : SentTexts) (enough : String → ℕ → Prop) (e : ChunkEngine) : Prop :=
  ∀ (key : MessageKey) (m : InFlightMessage), e.inFlight.lookup key = some m →
    ∃ text declared received, sent key.1 key.2 = some text ∧ enough text declared ∧
      m.receivedChunks = slotTable declared (chunkContent (asBytes text)) received

variable {P : Primitives} {swarmMasterKey : Bytes 32} {sent : SentTexts}
variable {enough : String → ℕ → Prop} {e e' : ChunkEngine} {clock : IngestClock}
variable {order : InFlightOrder} {srcNodeId : UInt32} {packet : MeshPacket}

/-- A chunk that opens is the sender's chunk at the packet's index. -/
theorem opened_chunk (correct : P.DecryptsEncrypted)
    (distinct : Function.Injective (P.deriveSenderSubkey swarmMasterKey))
    (unforged : Unforged P swarmMasterKey sent srcNodeId packet)
    {chunk : Bytes plaintextChunkLen}
    (opens : opensTo P swarmMasterKey srcNodeId packet = .ok chunk) :
    ∃ text, sent srcNodeId packet.header.msgId = some text ∧
      chunk = chunkContent (asBytes text) packet.header.chunkIdx.toNat := by
  obtain ⟨nodeId, msgId, text, hsent, call, hcall, hkey, hmsg, hidx, hcounter, hencrypt⟩ :=
    unforged chunk opens
  simp only [callsFor] at hcall
  split at hcall
  · simp at hcall
  · obtain ⟨i, hi, rfl⟩ := List.mem_map.mp hcall
    simp only at hkey hmsg hidx hcounter hencrypt
    -- The subkey names the node and the associated data names message and index.
    obtain rfl := distinct hkey
    subst hmsg
    refine ⟨text, hsent, ?_⟩
    have hbyte : packet.header.chunkIdx.toNat = i := by
      rw [← hidx]
      exact Nat.mod_eq_of_lt ((List.mem_range.mp hi).trans (UInt8.toNat_lt _))
    have hdecrypt := Primitives.decryptChunk_of_encryptChunk correct hencrypt
    rw [opensTo, ← hidx, hdecrypt] at opens
    rw [hbyte]
    exact (Except.ok.inj opens).symm

theorem HoldsSent.shrink (h : e.HoldsSent sent enough) (hs : Shrinks e e') :
    e'.HoldsSent sent enough :=
  fun key m hm => h key m (hs.lookup key m hm)

/-- Changing only SACK timers keeps what is held. -/
theorem HoldsSent.sameChunks (h : e.HoldsSent sent enough) (hs : SameChunks e e') :
    e'.HoldsSent sent enough := by
  intro key m' hm'
  obtain ⟨m, hm, hslots, -, -⟩ := hs.lookup key m' hm'
  rw [hslots]
  exact h key m hm

/-- The entry of a packet that opens, after its chunk is stored. -/
theorem HoldsSent.stored (h : e.HoldsSent sent enough) (correct : P.DecryptsEncrypted)
    (distinct : Function.Injective (P.deriveSenderSubkey swarmMasterKey))
    (unforged : Unforged P swarmMasterKey sent srcNodeId packet)
    (opensWith : OpensWith P swarmMasterKey sent enough (some e)
      (.ingestPacket srcNodeId packet clock order))
    (counts : packet.header.chunkIdx < packet.header.totalChunks)
    (undone : keyOf srcNodeId packet ∉ (e.purgeExpired clock.purge).completedCache)
    {chunk : Bytes plaintextChunkLen}
    (opens : opensTo P swarmMasterKey srcNodeId packet = .ok chunk)
    (inside : packet.header.chunkIdx.toNat < ((e.prepared clock order srcNodeId packet).entryFor
      clock.now srcNodeId packet).receivedChunks.length) :
    ∃ text declared received, sent srcNodeId packet.header.msgId = some text ∧
      enough text declared ∧
      (((e.prepared clock order srcNodeId packet).entryFor clock.now srcNodeId packet).storeChunk
        packet.header.chunkIdx.toNat chunk clock.now).receivedChunks =
      slotTable declared (chunkContent (asBytes text)) received := by
  obtain ⟨text, hsent, rfl⟩ := opened_chunk correct distinct unforged opens
  -- An entry in flight was declared earlier; a new one is declared by this packet.
  have hentry : ∃ declared received, enough text declared ∧
      ((e.prepared clock order srcNodeId packet).entryFor clock.now srcNodeId
        packet).receivedChunks = slotTable declared (chunkContent (asBytes text)) received := by
    cases hm : (e.prepared clock order srcNodeId packet).inFlight.lookup
      (keyOf srcNodeId packet) with
    | some m =>
      rw [entryFor_of_lookup hm]
      obtain ⟨text', declared, received, hsent', henough, hslots⟩ :=
        h.shrink (shrinks_prepared e clock order srcNodeId packet) _ m hm
      obtain rfl : text = text' := Option.some.inj (hsent.symm.trans hsent')
      exact ⟨declared, received, henough, hslots⟩
    | none =>
      have hnew := AList.lookup_eq_none.mp hm
      rw [entryFor_of_notMem hnew]
      exact ⟨_, ∅, opensWith counts ⟨_, opens⟩ undone hnew text hsent, (slotTable_empty _ _).symm⟩
  obtain ⟨declared, received, henough, hslots⟩ := hentry
  rw [hslots, length_slotTable] at inside
  exact ⟨text, declared, _, hsent, henough, InFlightMessage.storeChunk_slotTable hslots inside⟩

/-- **Step lemma.** A call on an unforged packet keeps what the engine holds. -/
theorem HoldsSent.step (h : e.HoldsSent sent enough) (correct : P.DecryptsEncrypted)
    (distinct : Function.Injective (P.deriveSenderSubkey swarmMasterKey)) (op : EngineOp)
    (unforged : AllUnforged P swarmMasterKey sent [op])
    (opensWith : OpensWith P swarmMasterKey sent enough (some e) op) :
    ∀ e' ∈ (machine P swarmMasterKey).next (some e) op, e'.HoldsSent sent enough := by
  intro e' he'
  rcases next_cases he' with ⟨srcNodeId, packet, clock, order, result, rfl, hcall⟩ | ⟨-, hs⟩
  · have hunforged := unforged srcNodeId packet clock order List.mem_cons_self
    have hpurged := h.shrink (shrinks_purgeExpired e clock.purge)
    have hprepared := h.shrink (shrinks_prepared e clock order srcNodeId packet)
    have hcases := ingested P e clock order srcNodeId packet swarmMasterKey
    rw [hcall] at hcases
    cases hcases with
    | malformed _ => exact hpurged
    | duplicate _ _ => exact hpurged
    | rejected _ _ _ _ => exact hprepared
    | stored chunk entry counts undone opens inside entry_eq incomplete =>
      intro key m hm
      by_cases hkey : key = keyOf srcNodeId packet
      · have hstored := h.stored correct distinct hunforged opensWith counts undone opens inside
        subst hkey entry_eq
        obtain rfl := Option.some.inj ((AList.lookup_insert _).symm.trans hm)
        exact hstored
      · exact hprepared key m ((AList.lookup_insert_ne hkey).symm.trans hm)
    | completed chunk entry _ _ _ _ _ _ =>
      intro key m hm
      exact hprepared key m (lookup_of_erase hm)
  · exact h.sameChunks hs

/-- The text is a leading part of the sender's text, of as many chunks as declared. -/
def LeadingPart (sent : SentTexts) (enough : String → ℕ → Prop) (d : Delivery) : Prop :=
  ∃ text declared, sent d.key.1 d.key.2 = some text ∧ enough text declared ∧
    asBytes d.text = stripEnd 0 ((asBytes text).take (declared * plaintextChunkLen))

/-- A text returned by a call is a leading part of the sender's text, as long as was
declared when its entry was opened. -/
theorem HoldsSent.emitted (h : e.HoldsSent sent enough) (correct : P.DecryptsEncrypted)
    (distinct : Function.Injective (P.deriveSenderSubkey swarmMasterKey)) (op : EngineOp)
    (unforged : AllUnforged P swarmMasterKey sent [op])
    (opensWith : OpensWith P swarmMasterKey sent enough (some e) op) {d : Delivery}
    (hd : d ∈ (machine P swarmMasterKey).emit (some e) op) : LeadingPart sent enough d := by
  obtain ⟨e₀, e', srcNodeId, packet, order, hs, rfl, hkey, heq, -, -⟩ := emit_cases hd
  obtain rfl := Option.some.inj hs
  obtain ⟨chunk, counts, undone, opens, inside, complete, htext, -⟩ := text_returned heq
  have hunforged := unforged srcNodeId packet d.clock order List.mem_cons_self
  obtain ⟨text, declared, received, hsent, henough, hslots⟩ :=
    h.stored correct distinct hunforged opensWith counts undone opens inside
  have hall := (InFlightMessage.isComplete_slotTable hslots).mp complete
  refine ⟨text, declared, by rw [hkey]; exact hsent, henough, ?_⟩
  rw [asBytes_of_fromUtf8 htext, hslots, assemble_slotTable hall]

/-- **Run lemma.** Every text a run returns is a leading part of the sender's text,
with the declared number of chunks. -/
theorem deliveries_leading (correct : P.DecryptsEncrypted)
    (distinct : Function.Injective (P.deriveSenderSubkey swarmMasterKey)) {ops : List EngineOp}
    (unforged : AllUnforged P swarmMasterKey sent ops)
    (opensWith : (machine P swarmMasterKey).Guarded (OpensWith P swarmMasterKey sent enough)
      (some new) ops) :
    ∀ d ∈ (machine P swarmMasterKey).outputs (some new) ops, LeadingPart sent enough d := by
  have hsteps : (machine P swarmMasterKey).Guarded (fun s op =>
      AllUnforged P swarmMasterKey sent [op] ∧ OpensWith P swarmMasterKey sent enough s op)
      (some new) ops := by
    intro x hx
    refine ⟨?_, opensWith x hx⟩
    obtain ⟨before, after, rfl, -⟩ := Machine.mem_trace hx
    intro src packet clock order hmem
    have hop := List.mem_singleton.mp hmem
    exact unforged src packet clock order
      (hop ▸ List.mem_append_right _ List.mem_cons_self)
  -- The invariant: what is held is the senders', and so is all that was returned.
  have preserved : ∀ (s : Option ChunkEngine) (past : List Delivery) (op : EngineOp),
      ((∀ e ∈ s, HoldsSent sent enough e) ∧ ∀ d ∈ past, LeadingPart sent enough d) →
      AllUnforged P swarmMasterKey sent [op] ∧ OpensWith P swarmMasterKey sent enough s op →
      (∀ e ∈ (machine P swarmMasterKey).next s op, HoldsSent sent enough e) ∧
        ∀ d ∈ past ++ (machine P swarmMasterKey).emit s op, LeadingPart sent enough d := by
    intro s past op hinv hop
    cases s with
    | none => exact ⟨(fun _ he => by cases he), by simpa [Machine.emit, machine, step] using hinv.2⟩
    | some e =>
      have holds := hinv.1 e rfl
      refine ⟨holds.step correct distinct op hop.1 hop.2, ?_⟩
      intro d hd
      rcases List.mem_append.mp hd with hd | hd
      · exact hinv.2 d hd
      · exact holds.emitted correct distinct op hop.1 hop.2 hd
  have hinitial : (∀ e ∈ some new, HoldsSent sent enough e) ∧
      ∀ d ∈ ([] : List Delivery), LeadingPart sent enough d := by
    refine ⟨?_, by simp⟩
    intro e he key m hm
    obtain rfl := Option.some.inj he
    simp [new] at hm
  exact (Machine.history_invariant_nil preserved hinitial hsteps).2

/-- Enough chunks are declared to hold the text without its trailing zero bytes. -/
def Covers (text : String) (declared : ℕ) : Prop :=
  (stripEnd 0 (asBytes text)).length ≤ declared * plaintextChunkLen

/-- **Message authenticity, where the declared chunks cover the text.** An adversary
may deliver any packets as long as it does not forge ciphertexts. If whatever packet
opens a new entry declares enough chunks for the sender's text, every text returned
for a source and message id is the sender's text without its trailing zero bytes. -/
theorem deliveries_authentic (P : Primitives) (correct : P.DecryptsEncrypted)
    (swarmMasterKey : Bytes 32)
    (distinct : Function.Injective (P.deriveSenderSubkey swarmMasterKey)) (sent : SentTexts)
    (ops : List EngineOp) (unforged : AllUnforged P swarmMasterKey sent ops)
    (covered : (machine P swarmMasterKey).Guarded (OpensWith P swarmMasterKey sent Covers)
      (some new) ops) :
    ∀ d ∈ (machine P swarmMasterKey).outputs (some new) ops, ∃ text,
      sent d.key.1 d.key.2 = some text ∧ asBytes d.text = stripEnd 0 (asBytes text) := by
  intro d hd
  obtain ⟨text, declared, hsent, hcovers, hbytes⟩ :=
    deliveries_leading correct distinct unforged covered d hd
  exact ⟨text, hsent, hbytes.trans (stripEnd_take hcovers)⟩

/-! ### The chunk count is not authenticated -/

/-- Packets that a node returned from `fragment_and_encrypt` are unforged. -/
theorem unforged_of_fragmentAndEncrypt {text : String} {swarmTag : UInt64} {localNodeId : UInt32}
    {mgr : NonceManager} {io : IoOutcome} {file : StateFile} {packets : List MeshPacket}
    (hne : asBytes text ≠ [])
    (h : (fragmentAndEncrypt P text swarmTag localNodeId swarmMasterKey mgr io file).1 =
      .ok packets)
    (hsent : sent localNodeId (messageId localNodeId mgr.currentCounter) = some text)
    {packet : MeshPacket} (hpacket : packet ∈ packets) :
    Unforged P swarmMasterKey sent localNodeId packet := by
  obtain ⟨hfits, hlen, hall⟩ := fragmentAndEncrypt_ok hne h
  obtain ⟨i, hi, rfl⟩ := List.getElem_of_mem hpacket
  obtain ⟨hheader, hencrypt⟩ := hall i _ (List.getElem?_eq_getElem hi)
  intro chunk _
  refine ⟨localNodeId, _, text, hsent,
    ⟨P.deriveSenderSubkey swarmMasterKey localNodeId, _, UInt8.ofNat i, _, _⟩, ?_, rfl, ?_, ?_, ?_,
    hencrypt⟩
  · rw [callsFor, if_neg (Nat.not_lt.mpr hfits)]
    exact List.mem_map.mpr ⟨i, List.mem_range.mpr (hlen ▸ hi), rfl⟩
  · rw [hheader]
    rfl
  · rw [hheader]
    rfl
  · rw [hheader]
    rfl

/-- Node 7 sent one text, under message id zero. -/
def sentTwoChunkText : SentTexts := fun nodeId msgId =>
  if nodeId = 7 ∧ msgId = 0 then some twoChunkText else none

theorem unforged_transparentPackets :
    ∀ packet ∈ transparentPackets twoChunkText 7,
      Unforged transparent (.zero 32) sentTwoChunkText 7 packet :=
  fun _ hpacket => unforged_of_fragmentAndEncrypt (by decide) transparentPackets_sent (by decide)
    hpacket

/-- The packets arrive as they were sent. -/
def untouchedRun : List EngineOp :=
  (transparentPackets twoChunkText 7).map fun packet =>
    .ingestPacket 7 packet ⟨0, 0⟩ (.stored _)

/-- Then one text is returned, and it is the one that was sent. -/
theorem deliveries_authentic_untouchedRun :
    ((machine transparent (.zero 32)).outputs (some new) untouchedRun).length = 1 ∧
      ∀ d ∈ (machine transparent (.zero 32)).outputs (some new) untouchedRun, ∃ text,
        sentTwoChunkText d.key.1 d.key.2 = some text ∧
          asBytes d.text = stripEnd 0 (asBytes text) := by
  refine ⟨by decide +kernel, deliveries_authentic transparent transparent_decryptsEncrypted
    (.zero 32) (transparent_subkey_injective _) _ _ ?_ ?_⟩
  · intro src packet clock order hmem
    obtain ⟨packet', hpacket, heq⟩ := List.mem_map.mp hmem
    obtain ⟨rfl, rfl, rfl, rfl⟩ := EngineOp.ingestPacket.inj heq
    exact unforged_transparentPackets _ hpacket
  · intro x hx
    obtain ⟨before, after, hops, -⟩ := Machine.mem_trace hx
    have hmem : x.2 ∈ untouchedRun := hops ▸ List.mem_append_right _ List.mem_cons_self
    obtain ⟨packet, hpacket, heq⟩ := List.mem_map.mp hmem
    have htotal : ∀ packet ∈ transparentPackets twoChunkText 7, packet.header.totalChunks = 2 := by
      decide +kernel
    rw [← heq]
    cases x.1 with
    | none => trivial
    | some e =>
      intro _ _ _ _ text hsent
      obtain rfl : twoChunkText = text := by
        simp only [sentTwoChunkText] at hsent
        split at hsent
        · exact Option.some.inj hsent
        · cases hsent
      rw [htotal packet hpacket]
      exact (by decide : (stripEnd 0 (asBytes twoChunkText)).length ≤ 2 * 80)

/-- The first packet alone, relabelled as the only chunk of its message. -/
def truncatedRun : List EngineOp :=
  ((transparentPackets twoChunkText 7).take 1).map fun packet =>
    .ingestPacket 7 { packet with header := { packet.header with totalChunks := 1 } } ⟨0, 0⟩
      (.stored _)

/-- What fits in its first chunk. -/
def firstChunkText : String :=
  "the quick brown fox jumps over the lazy dog while the radio waits for the second"

/-- No ciphertext is forged, and a text is returned that nobody sent. -/
theorem not_deliveries_authentic_truncatedRun :
    AllUnforged transparent (.zero 32) sentTwoChunkText truncatedRun ∧
      ¬ ∀ d ∈ (machine transparent (.zero 32)).outputs (some new) truncatedRun, ∃ text,
        sentTwoChunkText d.key.1 d.key.2 = some text ∧
          asBytes d.text = stripEnd 0 (asBytes text) := by
  constructor
  · intro src packet clock order hmem
    obtain ⟨packet', hpacket, heq⟩ := List.mem_map.mp hmem
    obtain ⟨rfl, rfl, rfl, rfl⟩ := EngineOp.ingestPacket.inj heq
    -- Only the declared count differs, which the cipher never sees.
    have hunforged := unforged_transparentPackets packet' (List.mem_of_mem_take hpacket)
    exact hunforged
  · have hreturned : (machine transparent (.zero 32)).outputs (some new) truncatedRun =
        [⟨(7, 0), ⟨0, 0⟩, firstChunkText⟩] := by
      decide +kernel
    rw [hreturned]
    intro h
    obtain ⟨text, hsent, hbytes⟩ := h _ List.mem_cons_self
    obtain rfl : twoChunkText = text := Option.some.inj hsent
    exact absurd hbytes (by decide)

end ChunkEngine

end Gibberish.Daemon
