/-
# The node id a station encrypts under

Receivers take the sender's node id from the frame, so from the dongle that sent it. A
station encrypts under the id it learned last, or under a default, and always sends
through its first dongle, while it answers a SACK through the dongle that heard it. The
two ids agree in a run exactly when every text is encrypted under the id of the first
dongle and every answer goes out through a dongle of that id.
-/

import Gibberish.Daemon.Station

set_option autoImplicit false

namespace Gibberish.Daemon

open Gibberish.Foundation Gibberish.Protocol Gibberish.Crypto

/-! ### What the outbox holds -/

namespace ChunkEngine

variable {P : Primitives} {e e' : ChunkEngine} {packet : MeshPacket}

/-- The outbox holds the packet. -/
def Caches (e : ChunkEngine) (packet : MeshPacket) : Prop :=
  ∃ msgId cached, e.outboxCache.lookup msgId = some cached ∧ packet ∈ cached.1

theorem not_caches_new : ¬ new.Caches packet := by
  rintro ⟨msgId, cached, hlookup, -⟩
  cases hlookup

theorem caches_of_purgeExpired {now : ℕ} (h : (e.purgeExpired now).Caches packet) :
    e.Caches packet := by
  obtain ⟨msgId, cached, hlookup, hmem⟩ := h
  rw [purgeExpired, HashTable.lookup_retain] at hlookup
  exact ⟨msgId, cached, (Option.filter_eq_some_iff.mp hlookup).1, hmem⟩

@[simp] theorem outboxCache_evictOldest (e : ChunkEngine) (order : InFlightOrder)
    (p : MessageKey → Bool) : (e.evictOldest order p).outboxCache = e.outboxCache := by
  rw [evictOldest]
  split
  · rfl
  · rfl

@[simp] theorem outboxCache_makeRoom (e : ChunkEngine) (order : InFlightOrder) (key : MessageKey) :
    (e.makeRoom order key).outboxCache = e.outboxCache := by
  simp only [makeRoom]
  split
  · rfl
  · split <;> split <;> simp

/-- Ingesting a packet adds nothing to the outbox. -/
theorem caches_of_ingestPacket {clock : IngestClock} {order : InFlightOrder}
    {srcNodeId : UInt32} {received : MeshPacket} {swarmMasterKey : Bytes 32}
    {result : Except CryptoError (Option String)}
    (ingest : e.ingestPacket P clock order srcNodeId received swarmMasterKey = some (result, e'))
    (h : e'.Caches packet) : e.Caches packet := by
  have hprepared : ∀ {e₁ : ChunkEngine},
      e₁.outboxCache = (e.prepared clock order srcNodeId received).outboxCache →
        e₁.Caches packet → e.Caches packet := by
    rintro e₁ houtbox ⟨msgId, cached, hlookup, hmem⟩
    rw [houtbox, prepared, outboxCache_makeRoom] at hlookup
    exact caches_of_purgeExpired ⟨msgId, cached, hlookup, hmem⟩
  have hcases := ingested P e clock order srcNodeId received swarmMasterKey
  rw [ingest] at hcases
  generalize hout : some (result, e') = out at hcases
  cases hcases with
  | malformed counts =>
    obtain ⟨-, rfl⟩ := Prod.mk.inj (Option.some.inj hout)
    exact caches_of_purgeExpired h
  | duplicate counts done =>
    obtain ⟨-, rfl⟩ := Prod.mk.inj (Option.some.inj hout)
    exact caches_of_purgeExpired h
  | rejected err counts undone sealed_ =>
    obtain ⟨-, rfl⟩ := Prod.mk.inj (Option.some.inj hout)
    exact hprepared rfl h
  | overrun => cases hout
  | stored =>
    obtain ⟨-, rfl⟩ := Prod.mk.inj (Option.some.inj hout)
    exact hprepared rfl h
  | completed =>
    obtain ⟨-, rfl⟩ := Prod.mk.inj (Option.some.inj hout)
    exact hprepared rfl h

theorem caches_of_cacheOutbound {packets : List MeshPacket} {now : ℕ}
    (h : (e.cacheOutbound packets now).Caches packet) :
    packet ∈ packets ∨ e.Caches packet := by
  cases packets with
  | nil => exact Or.inr h
  | cons first rest =>
    obtain ⟨msgId, cached, hlookup, hmem⟩ := h
    by_cases hid : msgId = first.header.msgId
    · rw [hid, cacheOutbound, AList.lookup_insert] at hlookup
      obtain rfl := Option.some.inj hlookup
      exact Or.inl hmem
    · rw [cacheOutbound, AList.lookup_insert_ne hid] at hlookup
      exact Or.inr ⟨msgId, cached, hlookup, hmem⟩

/-- An answer to a SACK comes from the outbox. -/
theorem caches_of_mem_handleSack {sackPacket : MeshPacket}
    (h : packet ∈ e.handleSack sackPacket) : e.Caches packet := by
  rw [handleSack] at h
  split at h
  · cases h
  · simp only at h
    split at h
    · cases h
    · rename_i cached cachedAt hlookup
      obtain ⟨missingIdx, -, hget⟩ := List.mem_filterMap.mp h
      exact ⟨_, _, hlookup, List.mem_of_getElem? hget⟩

end ChunkEngine

namespace Station

variable {P : Primitives} {setup : StationSetup} {hardwareId : ℕ → UInt32} {s s' : Station}
variable {input : StationInput} {dongle : ℕ} {localNodeId : UInt32} {packet : MeshPacket}

/-! ### What an input sends -/

/-- The packets that an input encrypts. -/
def encryptedBy (P : Primitives) (setup : StationSetup) (s : Station) :
    StationInput → List MeshPacket
  | .push text io now _ => (s.encrypt P setup text io now).2
  | .clipboard text io now => (s.encrypt P setup text io now).2
  | _ => []

/-- The packets that an input sends again, for a peer that misses them. -/
def answeredBy (s : Station) : StationInput → List MeshPacket
  | .wirePacket _ wirePkt _ _ => s.chunkEngine.handleSack wirePkt.packet
  | _ => []

theorem exists_mem_eq_iff {α : Type} {packets : List MeshPacket} {packet : MeshPacket} {a b : α} :
    (∃ p ∈ packets, a = b ∧ p = packet) ↔ b = a ∧ packet ∈ packets := by
  constructor
  · rintro ⟨p, hp, rfl, rfl⟩
    exact ⟨rfl, hp⟩
  · rintro ⟨rfl, hp⟩
    exact ⟨packet, hp, rfl, rfl⟩

theorem mem_broadcast {packets : List MeshPacket} :
    .sent dongle packet ∈ broadcast setup packets ↔
      0 < setup.dongles ∧ dongle = 0 ∧ packet ∈ packets := by
  rw [broadcast]
  split
  · rename_i hdongles
    simp only [List.mem_map, StationEvent.sent.injEq, hdongles, true_and]
    exact exists_mem_eq_iff
  · rename_i hdongles
    exact ⟨fun h => absurd h List.not_mem_nil, fun h => absurd h.1 hdongles⟩

theorem not_encrypted_mem_broadcast {packets : List MeshPacket} :
    .encrypted localNodeId packet ∉ broadcast setup packets := by
  rw [broadcast]
  split
  · simp
  · exact List.not_mem_nil

/-- A text is encrypted under one id, and some of it is sent. -/
theorem encrypted_mem_text {id : UInt32} {packets sends : List MeshPacket} :
    .encrypted localNodeId packet ∈
        packets.map (StationEvent.encrypted id) ++ broadcast setup sends ↔
      localNodeId = id ∧ packet ∈ packets := by
  rw [List.mem_append, or_iff_left not_encrypted_mem_broadcast]
  simp only [List.mem_map, StationEvent.encrypted.injEq]
  exact exists_mem_eq_iff

theorem sent_mem_text {id : UInt32} {packets sends : List MeshPacket} :
    .sent dongle packet ∈ packets.map (StationEvent.encrypted id) ++ broadcast setup sends ↔
      0 < setup.dongles ∧ dongle = 0 ∧ packet ∈ sends := by
  rw [List.mem_append, mem_broadcast, or_iff_right]
  simp

/-- A packet off a dongle has nothing encrypted, and only answers sent, through that dongle. -/
theorem mem_receive {wirePkt : ReceivedWirePacket} {clock : IngestClock} {order : InFlightOrder}
    {event : StationEvent} (h : event ∈ (s.receive P setup dongle wirePkt clock order).2) :
    ∃ p ∈ s.chunkEngine.handleSack wirePkt.packet, event = .sent dongle p := by
  rw [receive] at h
  split at h
  · obtain ⟨p, hp, rfl⟩ := List.mem_map.mp h
    exact ⟨p, hp, rfl⟩
  · split at h
    · cases h
    · cases h

/-- What is encrypted is encrypted under the id in force. -/
theorem encrypted_mem_emit_iff :
    .encrypted localNodeId packet ∈ (machine P setup).emit (some s) input ↔
      localNodeId = s.localNodeId ∧ packet ∈ s.encryptedBy P setup input := by
  have hnone : ∀ {event : StationEvent} {events : List StationEvent},
      event ∉ events → (event ∈ events ↔ localNodeId = s.localNodeId ∧ packet ∈ []) :=
    fun h => ⟨fun hmem => absurd hmem h, fun hmem => absurd hmem.2 List.not_mem_nil⟩
  cases input with
  | probe logs => exact hnone List.not_mem_nil
  | push text io now written => exact encrypted_mem_text
  | logLine line => exact hnone List.not_mem_nil
  | wirePacket dongle wirePkt clock order =>
    refine hnone fun h => ?_
    obtain ⟨p, -, hp⟩ := mem_receive h
    cases hp
  | clipboard text io now => exact encrypted_mem_text
  | pendingSacks now order => exact hnone not_encrypted_mem_broadcast

/-- A SACK is flagged as one. -/
theorem flagSack_of_mem_checkPendingSacks {e : ChunkEngine} {swarmTag : UInt64} {now : ℕ}
    {order : InFlightOrder} (h : packet ∈ (e.checkPendingSacks localNodeId swarmTag now order).1) :
    packet.header.flags &&& flagSack ≠ 0 := by
  obtain ⟨entry, -, hentry⟩ := List.mem_filterMap.mp h
  split at hentry
  · obtain rfl := Option.some.inj hentry
    show flagSack &&& flagSack ≠ 0
    decide
  · cases hentry

/-- What is sent is a text for the first dongle, an answer through the dongle that was asked,
or a SACK. -/
theorem sent_mem_emit (h : .sent dongle packet ∈ (machine P setup).emit (some s) input) :
    (dongle = 0 ∧ packet ∈ s.encryptedBy P setup input) ∨
      ((∃ wirePkt clock order, input = .wirePacket dongle wirePkt clock order) ∧
        packet ∈ s.answeredBy input) ∨
      packet.header.flags &&& flagSack ≠ 0 := by
  cases input with
  | probe logs => cases h
  | push text io now written =>
    obtain ⟨-, hdongle, hmem⟩ := sent_mem_text.mp h
    exact Or.inl ⟨hdongle, List.mem_of_mem_take hmem⟩
  | logLine line => cases h
  | wirePacket dongle' wirePkt clock order =>
    obtain ⟨p, hp, heq⟩ := mem_receive h
    obtain ⟨rfl, rfl⟩ := StationEvent.sent.inj heq
    exact Or.inr (Or.inl ⟨⟨wirePkt, clock, order, rfl⟩, hp⟩)
  | clipboard text io now =>
    obtain ⟨-, hdongle, hmem⟩ := sent_mem_text.mp h
    exact Or.inl ⟨hdongle, hmem⟩
  | pendingSacks now order =>
    obtain ⟨-, -, hmem⟩ := mem_broadcast.mp h
    exact Or.inr (Or.inr (flagSack_of_mem_checkPendingSacks hmem))

/-- What is remembered was remembered, or was just encrypted. -/
theorem caches_next (h : (machine P setup).next (some s) input = some s')
    (hp : s'.chunkEngine.Caches packet) :
    packet ∈ s.encryptedBy P setup input ∨ s.chunkEngine.Caches packet := by
  have hdetect : ∀ {detectedId : Option UInt32}, some (s.detect setup detectedId) = some s' →
      s.chunkEngine.Caches packet := by
    intro detectedId heq
    obtain rfl := Option.some.inj heq
    rw [detect] at hp
    split at hp
    · exact hp
    · exact hp
  cases input with
  | probe logs => exact Or.inr (hdetect h)
  | push text io now written => cases h
  | logLine line => exact Or.inr (hdetect h)
  -- An answer leaves the cache alone, and so does a packet that comes in.
  | wirePacket dongle wirePkt clock order =>
    right
    change (s.receive P setup dongle wirePkt clock order).1 = some s' at h
    rw [receive] at h
    split at h
    · obtain rfl := Option.some.inj h
      exact hp
    · split at h
      · cases h
      · rename_i result e hingest
        obtain rfl := Option.some.inj h
        exact ChunkEngine.caches_of_ingestPacket hingest hp
  | clipboard text io now =>
    change some (s.encrypt P setup text io now).1 = some s' at h
    obtain rfl := Option.some.inj h
    show packet ∈ (s.encrypt P setup text io now).2 ∨ _
    rw [encrypt] at hp ⊢
    split at hp
    · exact ChunkEngine.caches_of_cacheOutbound hp
    · exact Or.inr hp
  | pendingSacks now order =>
    obtain rfl := Option.some.inj h
    exact Or.inr hp

/-- An encrypted packet carries a chunk under the subkey of the id in force. -/
theorem carriesChunk_of_mem_encryptedBy (h : packet ∈ s.encryptedBy P setup input) :
    ∃ msgId totalChunks rawBytes i, CarriesChunk P setup.swarmTag
      (P.deriveSenderSubkey setup.swarmMasterKey s.localNodeId) msgId totalChunks rawBytes i
      packet := by
  have hencrypt : ∀ {text : String} {io : IoOutcome} {now : ℕ},
      packet ∈ (s.encrypt P setup text io now).2 →
        ∃ msgId totalChunks rawBytes i, CarriesChunk P setup.swarmTag
          (P.deriveSenderSubkey setup.swarmMasterKey s.localNodeId) msgId totalChunks rawBytes i
          packet := by
    intro text io now hmem
    rw [encrypt] at hmem
    split at hmem
    -- The subkey is derived anew for each text, from the id in force then.
    · rename_i packets nonceMgr stateFile hfragment
      obtain ⟨i, -, hcarries⟩ := exists_carriesChunk (congrArg Prod.fst hfragment) hmem
      exact ⟨_, _, _, i, hcarries⟩
    · cases hmem
  cases input with
  | push text io now written => exact hencrypt h
  | clipboard text io now => exact hencrypt h
  | _ => cases h

/-- What a run encrypted for a node id, it encrypted under the subkey of that id. -/
theorem carriesChunk_of_encrypted {o : Option Station} {inputs : List StationInput}
    (h : .encrypted localNodeId packet ∈ (machine P setup).outputs o inputs) :
    ∃ msgId totalChunks rawBytes i, CarriesChunk P setup.swarmTag
      (P.deriveSenderSubkey setup.swarmMasterKey localNodeId) msgId totalChunks rawBytes i
      packet := by
  obtain ⟨⟨o', input⟩, -, hmem⟩ := List.mem_flatMap.mp h
  cases o' with
  | none => cases hmem
  | some s =>
    obtain ⟨rfl, hencrypted⟩ := encrypted_mem_emit_iff.mp hmem
    exact carriesChunk_of_mem_encryptedBy hencrypted

/-- A packet that is no SACK. -/
def IsData (packet : MeshPacket) : Prop := packet.header.flags &&& flagSack = 0

theorem isData_of_mem_encryptedBy (h : packet ∈ s.encryptedBy P setup input) : IsData packet := by
  obtain ⟨msgId, totalChunks, rawBytes, i, hheader, -⟩ := carriesChunk_of_mem_encryptedBy h
  rw [IsData, hheader]
  show flagClipboard &&& flagSack = 0
  decide

/-! ### The two ids -/

/-- Every data packet sent through a dongle was encrypted under the id of that dongle. -/
def IdentityMatches (hardwareId : ℕ → UInt32) (events : List StationEvent) : Prop :=
  ∀ dongle packet, .sent dongle packet ∈ events → IsData packet →
    (∃ localNodeId, .encrypted localNodeId packet ∈ events) ∧
      ∀ localNodeId, .encrypted localNodeId packet ∈ events → localNodeId = hardwareId dongle

/-- Texts are encrypted under the id of the first dongle, and answers go out through a dongle
of that id. -/
def UnderOwnId (P : Primitives) (setup : StationSetup) (hardwareId : ℕ → UInt32) :
    Option Station → StationInput → Prop
  | some s, .push text io now _ =>
    (s.encrypt P setup text io now).2 ≠ [] → s.localNodeId = hardwareId 0
  | some s, .clipboard text io now =>
    (s.encrypt P setup text io now).2 ≠ [] → s.localNodeId = hardwareId 0
  | some s, .wirePacket dongle wirePkt _ _ =>
    s.chunkEngine.handleSack wirePkt.packet ≠ [] → hardwareId dongle = hardwareId 0
  | _, _ => True

instance : ∀ (o : Option Station) (input : StationInput),
    Decidable (UnderOwnId P setup hardwareId o input)
  | none, _ => isTrue (by trivial)
  | some _, .push _ _ _ _ => inferInstanceAs (Decidable (_ → _))
  | some _, .clipboard _ _ _ => inferInstanceAs (Decidable (_ → _))
  | some _, .wirePacket _ _ _ _ => inferInstanceAs (Decidable (_ → _))
  | some _, .probe _ => isTrue trivial
  | some _, .logLine _ => isTrue trivial
  | some _, .pendingSacks _ _ => isTrue trivial

theorem underOwnId_iff : UnderOwnId P setup hardwareId (some s) input ↔
    (s.encryptedBy P setup input ≠ [] → s.localNodeId = hardwareId 0) ∧
      ∀ dongle wirePkt clock order, input = .wirePacket dongle wirePkt clock order →
        s.answeredBy input ≠ [] → hardwareId dongle = hardwareId 0 := by
  cases input with
  | wirePacket dongle wirePkt clock order =>
    constructor
    · rintro h
      refine ⟨fun hne => absurd rfl hne, ?_⟩
      rintro dongle' wirePkt' clock' order' heq hne
      obtain ⟨rfl, -, -, -⟩ := StationInput.wirePacket.inj heq
      exact h hne
    · rintro ⟨-, h⟩
      exact h dongle wirePkt clock order rfl
  | push text io now written => exact ⟨fun h => ⟨h, fun _ _ _ _ heq => nomatch heq⟩, And.left⟩
  | clipboard text io now => exact ⟨fun h => ⟨h, fun _ _ _ _ heq => nomatch heq⟩, And.left⟩
  | _ =>
    refine ⟨fun _ => ⟨fun hne => absurd rfl hne, ?_⟩, fun _ => trivial⟩
    exact fun _ _ _ _ heq => nomatch heq

/-- What holds after a run under the station's own id. -/
structure OwnIdOnly (hardwareId : ℕ → UInt32) (s : Option Station) (past : List StationEvent) :
    Prop where
  encrypted : ∀ localNodeId packet, .encrypted localNodeId packet ∈ past →
    localNodeId = hardwareId 0 ∧ IsData packet
  remembered : ∀ s' ∈ s, ∀ packet, s'.chunkEngine.Caches packet →
    ∃ localNodeId, .encrypted localNodeId packet ∈ past
  sent : ∀ dongle packet, .sent dongle packet ∈ past → IsData packet →
    hardwareId dongle = hardwareId 0 ∧ ∃ localNodeId, .encrypted localNodeId packet ∈ past

/-- **Step lemma.** An input under the station's own id keeps to it. -/
theorem OwnIdOnly.next {past : List StationEvent} (h : OwnIdOnly hardwareId (some s) past)
    (ok : UnderOwnId P setup hardwareId (some s) input) :
    OwnIdOnly hardwareId ((machine P setup).next (some s) input)
      (past ++ (machine P setup).emit (some s) input) := by
  obtain ⟨htext, hanswer⟩ := underOwnId_iff.mp ok
  have hnew : ∀ {packet}, packet ∈ s.encryptedBy P setup input →
      .encrypted s.localNodeId packet ∈ past ++ (machine P setup).emit (some s) input :=
    fun hmem => List.mem_append_right _ (encrypted_mem_emit_iff.mpr ⟨rfl, hmem⟩)
  -- What is sent again was encrypted before this input.
  have hold : ∀ {packet}, s.chunkEngine.Caches packet →
      ∃ localNodeId, .encrypted localNodeId packet ∈
        past ++ (machine P setup).emit (some s) input := by
    intro packet hcaches
    obtain ⟨localNodeId, hmem⟩ := h.remembered s rfl packet hcaches
    exact ⟨localNodeId, List.mem_append_left _ hmem⟩
  constructor
  · intro localNodeId packet hmem
    rcases List.mem_append.mp hmem with hmem | hmem
    · exact h.encrypted localNodeId packet hmem
    · obtain ⟨rfl, htexts⟩ := encrypted_mem_emit_iff.mp hmem
      exact ⟨htext (List.ne_nil_of_mem htexts), isData_of_mem_encryptedBy htexts⟩
  · intro s' hs' packet hcaches
    rcases caches_next hs' hcaches with hmem | hcaches
    · exact ⟨_, hnew hmem⟩
    · exact hold hcaches
  · intro dongle packet hmem hdata
    rcases List.mem_append.mp hmem with hmem | hmem
    · obtain ⟨hid, localNodeId, hencrypted⟩ := h.sent dongle packet hmem hdata
      exact ⟨hid, localNodeId, List.mem_append_left _ hencrypted⟩
    · rcases sent_mem_emit hmem with ⟨rfl, hnow⟩ | ⟨⟨wirePkt, clock, order, rfl⟩, hagain⟩ | hsack
      · exact ⟨rfl, _, hnew hnow⟩
      · exact ⟨hanswer _ _ _ _ rfl (List.ne_nil_of_mem hagain),
          hold (ChunkEngine.caches_of_mem_handleSack hagain)⟩
      · exact absurd hdata hsack

theorem ownIdOnly_start (nonceMgr : NonceManager) (stateFile : StateFile) :
    OwnIdOnly hardwareId (some (start setup nonceMgr stateFile)) [] where
  encrypted _ _ h := absurd h List.not_mem_nil
  remembered s' hs' packet hcaches := by
    obtain rfl := Option.some.inj hs'
    exact absurd hcaches ChunkEngine.not_caches_new
  sent _ _ h := absurd h List.not_mem_nil

/-- **Run lemma.** A run under the station's own id keeps to it. -/
theorem ownIdOnly_of_guarded {nonceMgr : NonceManager} {stateFile : StateFile}
    {inputs : List StationInput} (guarded : (machine P setup).Guarded
      (UnderOwnId P setup hardwareId) (some (start setup nonceMgr stateFile)) inputs) :
    OwnIdOnly hardwareId
      ((machine P setup).final (some (start setup nonceMgr stateFile)) inputs)
      ((machine P setup).outputs (some (start setup nonceMgr stateFile)) inputs) := by
  refine Machine.history_invariant_nil (fun s past input h ok => ?_)
    (ownIdOnly_start nonceMgr stateFile) guarded
  cases s with
  | none =>
    show OwnIdOnly hardwareId none (past ++ [])
    rwa [List.append_nil]
  | some s => exact h.next ok

/-- What an input encrypts goes to the first dongle, all of it or its first packet. -/
theorem exists_sent_of_encryptedBy (attached : 0 < setup.dongles)
    (h : s.encryptedBy P setup input ≠ []) : ∃ packet ∈ s.encryptedBy P setup input,
      .sent 0 packet ∈ (machine P setup).emit (some s) input := by
  obtain ⟨first, rest, heq⟩ := List.exists_cons_of_ne_nil h
  refine ⟨first, heq ▸ List.mem_cons_self, ?_⟩
  cases input with
  | push text io now written =>
    refine sent_mem_text.mpr ⟨attached, rfl, ?_⟩
    change (s.encrypt P setup text io now).2 = _ at heq
    rw [heq, List.take_succ_cons]
    exact List.mem_cons_self
  | clipboard text io now =>
    refine sent_mem_text.mpr ⟨attached, rfl, ?_⟩
    show first ∈ s.encryptedBy P setup (.clipboard text io now)
    rw [heq]
    exact List.mem_cons_self
  | _ => exact absurd rfl h

/-- What a dongle is asked for goes out through it. -/
theorem sent_of_answeredBy {wirePkt : ReceivedWirePacket} {clock : IngestClock}
    {order : InFlightOrder} (h : packet ∈ s.answeredBy (.wirePacket dongle wirePkt clock order)) :
    .sent dongle packet ∈
      (machine P setup).emit (some s) (.wirePacket dongle wirePkt clock order) := by
  show _ ∈ (s.receive P setup dongle wirePkt clock order).2
  rw [receive]
  -- Only a SACK is answered.
  have hsack : wirePkt.packet.header.flags &&& flagSack ≠ 0 := by
    intro hzero
    change packet ∈ s.chunkEngine.handleSack wirePkt.packet at h
    rw [ChunkEngine.handleSack, if_pos hzero] at h
    cases h
  rw [if_pos hsack]
  exact List.mem_map_of_mem h

/-- A station that kept to its own id keeps to it in an input whose ids match. -/
theorem OwnIdOnly.underOwnId (attached : 0 < setup.dongles) {past later : List StationEvent}
    (h : OwnIdOnly hardwareId (some s) past)
    (idsMatch : IdentityMatches hardwareId
      (past ++ ((machine P setup).emit (some s) input ++ later))) :
    UnderOwnId P setup hardwareId (some s) input := by
  have hemit : ∀ {event}, event ∈ (machine P setup).emit (some s) input →
      event ∈ past ++ ((machine P setup).emit (some s) input ++ later) :=
    fun hmem => List.mem_append_right _ (List.mem_append_left _ hmem)
  refine underOwnId_iff.mpr ⟨fun hne => ?_, ?_⟩
  · obtain ⟨packet, hmem, hsent⟩ := exists_sent_of_encryptedBy attached hne
    have hencrypted := encrypted_mem_emit_iff.mpr ⟨rfl, hmem⟩
    exact (idsMatch 0 packet (hemit hsent) (isData_of_mem_encryptedBy hmem)).2 _ (hemit hencrypted)
  -- What is sent again was encrypted before, under the id of the first dongle.
  · rintro dongle wirePkt clock order rfl hne
    obtain ⟨packet, hmem⟩ := List.exists_mem_of_ne_nil _ hne
    obtain ⟨localNodeId, hpast⟩ :=
      h.remembered s rfl packet (ChunkEngine.caches_of_mem_handleSack hmem)
    obtain ⟨hid, hdata⟩ := h.encrypted localNodeId packet hpast
    have hsame := (idsMatch dongle packet (hemit (sent_of_answeredBy hmem)) hdata).2 localNodeId
      (List.mem_append_left _ hpast)
    exact hsame.symm.trans hid

/-- **Station identity.** With at least one dongle, every data packet that a run sends was
encrypted under the id of the dongle it goes out through iff every text is encrypted
under the id of the first dongle and every answer to a SACK goes out through a dongle of
that id. -/
theorem identityMatches_iff (attached : 0 < setup.dongles) (hardwareId : ℕ → UInt32)
    (nonceMgr : NonceManager) (stateFile : StateFile) (inputs : List StationInput) :
    IdentityMatches hardwareId
        ((machine P setup).outputs (some (start setup nonceMgr stateFile)) inputs) ↔
      (machine P setup).Guarded (UnderOwnId P setup hardwareId)
        (some (start setup nonceMgr stateFile)) inputs := by
  constructor
  · intro hmatches
    by_contra hunguarded
    -- The first input that breaks the condition breaks the property too.
    obtain ⟨before, input, after, rfl, hbefore, hbad⟩ :=
      Machine.exists_first_unguarded hunguarded
    have hown := ownIdOnly_of_guarded hbefore
    rw [Machine.outputs_append, Machine.outputs_cons] at hmatches
    cases hstation : (machine P setup).final (some (start setup nonceMgr stateFile)) before with
    | none =>
      rw [hstation] at hbad
      exact hbad trivial
    | some s =>
      rw [hstation] at hown hbad hmatches
      exact hbad (hown.underOwnId attached hmatches)
  · intro hguarded dongle packet hsent hdata
    have hown := ownIdOnly_of_guarded hguarded
    obtain ⟨hid, hencrypted⟩ := hown.sent dongle packet hsent hdata
    refine ⟨hencrypted, fun localNodeId hmem => ?_⟩
    exact (hown.encrypted localNodeId packet hmem).1.trans hid.symm

/-! ### A push before the dongle has spoken -/

/-- One dongle, and no node id from the user. -/
def oneDongle : StationSetup := ⟨defaultNetworkTag, .zero 32, none, 1⟩

def freshStation : Station := start oneDongle ⟨1, 0, 1000⟩ .missing

/-- A push; the probe reads the dongle's banner. -/
def bannerRun : List StationInput :=
  daemonInputs [asBytes "Node ID: BEBD82B4 (MAC: [38, 44, BE, BD, 82, B4])\n"]
    (.push "hi" .ok 0 0)

/-- A push; the probe reads nothing. -/
def silentRun : List StationInput := daemonInputs [[]] (.push "hi" .ok 0 0)

theorem identityMatches_bannerRun : IdentityMatches (fun _ => 0xBEBD82B4)
    ((machine transparent oneDongle).outputs (some freshStation) bannerRun) :=
  (identityMatches_iff (by decide) _ _ _ _).mpr (by decide +kernel)

/-- The packet goes out under the default id. -/
theorem not_identityMatches_silentRun : ¬ IdentityMatches (fun _ => 0xBEBD82B4)
    ((machine transparent oneDongle).outputs (some freshStation) silentRun) := by
  intro h
  have hne : freshStation.encryptedBy transparent oneDongle (.push "hi" .ok 0 0) ≠ [] := by
    decide +kernel
  obtain ⟨packet, hmem, hsent⟩ := exists_sent_of_encryptedBy (by decide) hne
  have hencrypted := encrypted_mem_emit_iff.mpr ⟨rfl, hmem⟩
  have hid := (h 0 packet (List.mem_append_left [] hsent) (isData_of_mem_encryptedBy hmem)).2 _
    (List.mem_append_left [] hencrypted)
  exact absurd hid (by decide)

end Station

end Gibberish.Daemon
