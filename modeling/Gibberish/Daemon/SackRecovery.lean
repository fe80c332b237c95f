/-
# Recovery by selective acknowledgment

A receiver that has some chunks of a message, whatever else it hears meanwhile,
asks for exactly the others. The sender answers from its outbox with the packets
asked for, and once these have arrived the message is complete and is not asked for
again.
-/

import Gibberish.Daemon.Reassembly

set_option autoImplicit false

namespace Gibberish.Daemon

open Gibberish.Foundation Gibberish.Protocol Gibberish.Crypto

/-- The packets of one message that a run delivers, in order. -/
def arrivalsOf (key : MessageKey) (ops : List EngineOp) : List MeshPacket :=
  ops.filterMap fun
    | .ingestPacket srcNodeId packet _ _ =>
      if ChunkEngine.keyOf srcNodeId packet = key then some packet else none
    | _ => none

theorem arrivalsOf_append (key : MessageKey) (before after : List EngineOp) :
    arrivalsOf key (before ++ after) = arrivalsOf key before ++ arrivalsOf key after :=
  List.filterMap_append

/-- The chunk indices of some packets. -/
def indicesOf (packets : List MeshPacket) : Finset ℕ :=
  (packets.map fun packet => packet.header.chunkIdx.toNat).toFinset

namespace ChunkEngine

/-- No call expires or evicts the message. -/
def Keeps (key : MessageKey) : Option ChunkEngine → EngineOp → Prop
  | some e, .ingestPacket srcNodeId packet clock order =>
    KeepsMessage key e clock order srcNodeId packet
  | _, _ => True

variable {P : Primitives} {swarmMasterKey : Bytes 32} {e e' : ChunkEngine}
variable {key : MessageKey} {n : ℕ} {content : ℕ → Bytes plaintextChunkLen}
variable {received : Finset ℕ} {clock : IngestClock} {order : InFlightOrder}
variable {srcNodeId : UInt32} {packet : MeshPacket}

/-! ### Other traffic leaves a message alone -/

/-- What is received of a message depends on its own entries only. -/
theorem HasReceived.congr (h : e.HasReceived key n content received)
    (inFlight_eq : e'.inFlight.lookup key = e.inFlight.lookup key)
    (completed_iff : key ∈ e'.completedCache ↔ key ∈ e.completedCache) :
    e'.HasReceived key n content received := by
  have hmem : key ∈ e'.inFlight ↔ key ∈ e.inFlight := by
    rw [← AList.lookup_isSome, ← AList.lookup_isSome, inFlight_eq]
  simpa only [HasReceived, inFlight_eq, completed_iff, hmem] using h

/-- Changing only SACK timers changes nothing about what is received. -/
theorem HasReceived.sameChunks (h : e.HasReceived key n content received) (hs : SameChunks e e') :
    e'.HasReceived key n content received := by
  simp only [HasReceived, hs.completed, hs.mem_iff] at h ⊢
  split
  · next hall => simpa only [if_pos hall] using h
  · next hall =>
    rw [if_neg hall] at h
    refine ⟨h.1, ?_⟩
    cases hm' : e'.inFlight.lookup key with
    | none =>
      have hm : e.inFlight.lookup key = none :=
        AList.lookup_eq_none.mpr fun hk => AList.lookup_eq_none.mp hm' (hs.mem_iff.mpr hk)
      simpa only [hm] using h.2
    | some m' =>
      obtain ⟨m, hm, hslots, htotal, -⟩ := hs.lookup key m' hm'
      have hreceived := h.2
      simp only [hm] at hreceived
      exact ⟨htotal.trans hreceived.1, hslots.trans hreceived.2⟩

/-- Ingesting a packet of another message. -/
theorem HasReceived.ingest_other (h : e.HasReceived key n content received)
    (keeps : KeepsMessage key e clock order srcNodeId packet)
    (hother : keyOf srcNodeId packet ≠ key) {result : Except CryptoError (Option String)}
    (heq : e.ingestPacket P clock order srcNodeId packet swarmMasterKey = some (result, e')) :
    e'.HasReceived key n content received := by
  have hprepared := h.prepared keeps
  have hcases := ingested P e clock order srcNodeId packet swarmMasterKey
  rw [heq] at hcases
  cases hcases with
  | malformed _ => exact h.purged keeps
  | duplicate _ _ => exact h.purged keeps
  | rejected _ _ _ _ => exact hprepared
  | stored _ _ _ _ _ _ _ _ =>
    exact hprepared.congr (AList.lookup_insert_ne hother.symm) Iff.rfl
  | completed _ _ _ _ _ _ _ _ =>
    -- Completing another message marks only that one.
    refine hprepared.congr (AList.lookup_erase_ne hother.symm) ?_
    exact (AList.mem_insert _).trans (or_iff_right hother.symm)

/-- **Step lemma.** A call adds the chunk it ingests to those received, if it is one
of the message. -/
theorem HasReceived.step (h : e.HasReceived key n content received) (op : EngineOp)
    (keeps : Keeps key (some e) op)
    (carries : ∀ srcNodeId packet clock order, op = .ingestPacket srcNodeId packet clock order →
      keyOf srcNodeId packet = key →
        Carries P swarmMasterKey srcNodeId packet key n content packet.header.chunkIdx.toNat)
    (heq : (machine P swarmMasterKey).next (some e) op = some e') :
    e'.HasReceived key n content (received ∪ indicesOf (arrivalsOf key [op])) := by
  have hnothing : arrivalsOf key [op] = [] →
      received ∪ indicesOf (arrivalsOf key [op]) = received := by
    intro hop
    simp [hop, indicesOf]
  rcases next_cases heq with ⟨srcNodeId, packet, clock, order, result, rfl, hcall⟩ | ⟨hother, hs⟩
  · by_cases hkey : keyOf srcNodeId packet = key
    · obtain ⟨e₁, hcall', h'⟩ := h.ingest keeps (carries _ _ _ _ rfl hkey)
      obtain ⟨-, rfl⟩ := Prod.mk.inj (Option.some.inj (hcall.symm.trans hcall'))
      have hindices : received ∪ indicesOf (arrivalsOf key
          [.ingestPacket srcNodeId packet clock order]) =
          insert packet.header.chunkIdx.toNat received := by
        simp [arrivalsOf, indicesOf, hkey]
      rwa [hindices]
    · rw [hnothing (by simp [arrivalsOf, hkey])]
      exact h.ingest_other keeps hkey hcall
  · have hempty : arrivalsOf key [op] = [] := by
      cases op with
      | ingestPacket srcNodeId packet clock order => exact absurd rfl (hother _ _ _ _)
      | _ => rfl
    rw [hnothing hempty]
    exact h.sameChunks hs

/-- **Run lemma.** After a run that keeps the message, the engine has received the
chunks it had and those the run delivered. -/
theorem HasReceived.run (h : e.HasReceived key n content received) {ops : List EngineOp}
    (kept : (machine P swarmMasterKey).Guarded (Keeps key) (some e) ops)
    (carries : ∀ packet ∈ arrivalsOf key ops,
      Carries P swarmMasterKey key.1 packet key n content packet.header.chunkIdx.toNat)
    (alive : (machine P swarmMasterKey).final (some e) ops = some e') :
    e'.HasReceived key n content (received ∪ indicesOf (arrivalsOf key ops)) := by
  induction ops generalizing e received with
  | nil =>
    obtain rfl := Option.some.inj alive
    simpa [arrivalsOf, indicesOf] using h
  | cons op rest ih =>
    obtain ⟨hkeeps, hrest⟩ := (Machine.guarded_cons _ _ _ _).mp kept
    obtain ⟨e₁, hnext, halive⟩ := Machine.next_of_final_cons next_none alive
    have hsplit := arrivalsOf_append key [op] rest
    rw [List.singleton_append] at hsplit
    have hstep : e₁.HasReceived key n content (received ∪ indicesOf (arrivalsOf key [op])) := by
      refine h.step op hkeeps ?_ hnext
      intro srcNodeId packet clock order hop hkey
      have hmem : packet ∈ arrivalsOf key (op :: rest) := by
        rw [hsplit, hop]
        simp [arrivalsOf, hkey]
      have hsrc : srcNodeId = key.1 := congrArg Prod.fst hkey
      rw [hsrc]
      exact carries packet hmem
    rw [hnext] at hrest
    have hrun := ih hstep hrest
      (fun packet hp => carries packet (by rw [hsplit]; exact List.mem_append_right _ hp)) halive
    -- The chunks of the run are those of its first call and those of the rest.
    have hindices : received ∪ indicesOf (arrivalsOf key (op :: rest)) =
        received ∪ indicesOf (arrivalsOf key [op]) ∪ indicesOf (arrivalsOf key rest) := by
      rw [hsplit, Finset.union_assoc]
      simp [indicesOf]
    rwa [hindices]

/-- A message of which some but not all chunks were received is in flight with these. -/
theorem HasReceived.exists_inFlight (h : e.HasReceived key n content received)
    (hmissing : ¬ Finset.range n ⊆ received) (hsome : received ≠ ∅) :
    ∃ m, e.inFlight.lookup key = some m ∧ m.receivedChunks = slotTable n content received := by
  rw [HasReceived, if_neg hmissing] at h
  cases hm : e.inFlight.lookup key with
  | some m =>
    simp only [hm] at h
    exact ⟨m, rfl, h.2.2⟩
  | none =>
    simp only [hm] at h
    exact absurd h.2 hsome

/-! ### The SACK of an incomplete message -/

/-- The SACK asks for chunks of the message with this key. -/
def AsksFor (key : MessageKey) (sack : MeshPacket) : Prop :=
  sack.header.msgId = key.2 ∧ (SackPayload.deserialize sack.payload).senderNodeId = key.1

/-- Marking chunks as missing leaves the rest of a SACK alone. -/
theorem foldl_markMissing_ids (indices : List ℕ) (sack : SackPayload) :
    (indices.foldl SackPayload.markMissing sack).senderNodeId = sack.senderNodeId ∧
      (indices.foldl SackPayload.markMissing sack).baseChunk = sack.baseChunk := by
  induction indices generalizing sack with
  | nil => exact ⟨rfl, rfl⟩
  | cons i rest ih =>
    obtain ⟨hsender, hbase⟩ := ih (sack.markMissing i)
    have hmark : (sack.markMissing i).senderNodeId = sack.senderNodeId := by
      simp only [SackPayload.markMissing]
      split <;> rfl
    exact ⟨hsender.trans hmark, hbase.trans (SackPayload.baseChunk_markMissing sack i)⟩

theorem asksFor_sackPacket (m : InFlightMessage) (localNodeId : UInt32) (swarmTag : UInt64)
    (k : MessageKey) : AsksFor key (m.sackPacket localNodeId swarmTag k) ↔ k = key := by
  have hsender :
      (SackPayload.deserialize (m.sackPacket localNodeId swarmTag k).payload).senderNodeId = k.1 := by
    simp only [InFlightMessage.sackPacket, SackPayload.deserialize_serialize]
    exact (foldl_markMissing_ids _ _).1
  rw [AsksFor, hsender]
  constructor
  · intro h
    exact Prod.ext h.2 h.1
  · intro h
    exact ⟨congrArg Prod.snd h, congrArg Prod.fst h⟩

/-- Every SACK comes from an in-flight message that is due one. -/
theorem mem_checkPendingSacks {localNodeId : UInt32} {swarmTag : UInt64} {now : ℕ}
    {sack : MeshPacket} :
    sack ∈ (e.checkPendingSacks localNodeId swarmTag now order).1 ↔
      ∃ k m, e.inFlight.lookup k = some m ∧ m.sackDue now = true ∧
        m.sackPacket localNodeId swarmTag k = sack := by
  simp only [checkPendingSacks, List.mem_filterMap, IterOrder.mem_arrange]
  constructor
  · intro h
    obtain ⟨⟨k, m⟩, hmem, heq⟩ := h
    split at heq
    · next hdue =>
      exact ⟨k, m, AList.mem_lookup_iff.mpr hmem, hdue, Option.some.inj heq⟩
    · cases heq
  · intro h
    obtain ⟨k, m, hlookup, hdue, heq⟩ := h
    exact ⟨⟨k, m⟩, AList.mem_lookup_iff.mp hlookup, by simp only [hdue, if_true, heq]⟩

/-- The empty slots are those of the indices not received. -/
theorem missingIndices_slotTable {m : InFlightMessage}
    (h : m.receivedChunks = slotTable n content received) :
    m.missingIndices = (List.range n).filter fun i => i ∉ received := by
  rw [InFlightMessage.missingIndices, h, length_slotTable]
  apply List.filter_congr
  intro i hi
  rw [getElem?_slotTable (List.mem_range.mp hi)]
  by_cases hmem : i ∈ received <;> simp [hmem]

/-- Iterating over the SACK of a message visits its missing indices, ascending. -/
theorem forEachMissing_sackPacket {m : InFlightMessage} (hn : n ≤ 512)
    (h : m.receivedChunks = slotTable n content received) (localNodeId : UInt32)
    (swarmTag : UInt64) :
    (SackPayload.deserialize (m.sackPacket localNodeId swarmTag key).payload).forEachMissing =
      (List.range n).filter fun i => i ∉ received := by
  have hsmall : ∀ i ∈ m.missingIndices, i < 512 := by
    intro i hi
    rw [missingIndices_slotTable h] at hi
    exact (List.mem_range.mp (List.mem_filter.mp hi).1).trans_le hn
  have hbase : (m.missingIndices.foldl SackPayload.markMissing (.new localNodeId key.1 0)).baseChunk
      = 0 := (foldl_markMissing_ids _ _).2
  have hmarked : (m.missingIndices.foldl SackPayload.markMissing
      (.new localNodeId key.1 0)).isMarked = fun i => decide (i ∈ m.missingIndices) := by
    funext offset
    rw [SackPayload.isMarked_foldl_markMissing _ _ _ rfl hsmall, SackPayload.isMarked_new,
      Bool.false_or]
  simp only [InFlightMessage.sackPacket, SackPayload.deserialize_serialize]
  rw [SackPayload.forEachMissing_eq, hbase, hmarked]
  simp only [UInt16.toNat_zero, Nat.zero_add, List.map_id']
  -- Beyond the last slot nothing is missing.
  obtain ⟨k, hk⟩ := Nat.exists_eq_add_of_le hn
  rw [hk, List.range_add, List.filter_append, missingIndices_slotTable h]
  have hbeyond : ((List.range k).map (n + ·)).filter (fun i => decide (i ∈ (List.range n).filter
      fun i => decide (i ∉ received))) = [] := by
    rw [List.filter_eq_nil_iff]
    intro i hi
    obtain ⟨j, -, rfl⟩ := List.mem_map.mp hi
    simp
  rw [hbeyond, List.append_nil]
  apply List.filter_congr
  intro i hi
  simp [List.mem_range.mp hi]

/-- Looking up the selected indices of a list selects its members. -/
private theorem filterMap_getElem?_range {α : Type*} (l : List α) (index : α → ℕ)
    (hindex : ∀ i x, l[i]? = some x → index x = i) (p : ℕ → Bool) :
    ((List.range l.length).filter p).filterMap (fun i => l[i]?) =
      l.filter fun x => p (index x) := by
  -- By induction on the last element, which stands at the last index.
  induction l using List.reverseRecOn with
  | nil => rfl
  | append_singleton l x ih =>
    have hlast : index x = l.length := hindex l.length x (by simp)
    have hinit := ih fun i y hy => hindex i y (by
      rw [List.getElem?_append_left (List.getElem?_eq_some_iff.mp hy).1, hy])
    have hsame : ((List.range l.length).filter p).filterMap (fun i => (l ++ [x])[i]?) =
        ((List.range l.length).filter p).filterMap fun i => l[i]? := by
      apply List.filterMap_congr
      intro i hi
      exact List.getElem?_append_left (List.mem_range.mp (List.mem_filter.mp hi).1)
    have hsucc : List.range (l.length + 1) = List.range l.length ++ [l.length] := List.range_succ
    rw [List.length_append, List.length_singleton, hsucc, List.filter_append,
      List.filterMap_append, hsame, hinit, List.filter_append]
    by_cases hp : p l.length = true
    · simp [hp, hlast]
    · simp [hp, hlast]

/-! ### The sender's answer -/

/-- The sender answers a SACK for a message whose packets it remembers with the
packets whose indices were not received. -/
theorem handleSack_sackPacket {packets : List MeshPacket}
    (hcarry : CarryInOrder P swarmMasterKey packets key content) (sender : ChunkEngine)
    (sentAt : ℕ) {m : InFlightMessage} (hnonempty : packets ≠ []) (hn : packets.length ≤ 512)
    (h : m.receivedChunks = slotTable packets.length content received) (localNodeId : UInt32)
    (swarmTag : UInt64) :
    (sender.cacheOutbound packets sentAt).handleSack (m.sackPacket localNodeId swarmTag key) =
      packets.filter fun packet => packet.header.chunkIdx.toNat ∉ received := by
  have hflag : ¬ (m.sackPacket localNodeId swarmTag key).header.flags &&& flagSack = 0 := by
    show ¬ flagSack &&& flagSack = 0
    decide
  have hcached : (sender.cacheOutbound packets sentAt).outboxCache.lookup
      (m.sackPacket localNodeId swarmTag key).header.msgId = some (packets, sentAt) := by
    cases packets with
    | nil => exact absurd rfl hnonempty
    | cons first rest =>
      have hfirst : first.header.msgId = key.2 :=
        congrArg Prod.snd (hcarry.carries List.mem_cons_self).key_eq
      show AList.lookup key.2 (AList.insert first.header.msgId _ _) = _
      rw [hfirst]
      exact AList.lookup_insert _
  rw [handleSack, if_neg hflag]
  simp only [hcached]
  rw [forEachMissing_sackPacket hn h,
    filterMap_getElem?_range packets (fun packet => packet.header.chunkIdx.toNat)
      fun i packet hpacket => (hcarry i packet hpacket).index]

/-- A SACK that asks for a message in flight comes from its entry. -/
theorem sack_of_asksFor {m : InFlightMessage} (hm : e.inFlight.lookup key = some m)
    {localNodeId : UInt32} {swarmTag : UInt64} {now : ℕ} {sack : MeshPacket}
    (hsack : sack ∈ (e.checkPendingSacks localNodeId swarmTag now order).1)
    (hasks : AsksFor key sack) : sack = m.sackPacket localNodeId swarmTag key := by
  obtain ⟨k, m', hm', -, rfl⟩ := mem_checkPendingSacks.mp hsack
  obtain rfl := (asksFor_sackPacket m' localNodeId swarmTag k).mp hasks
  obtain rfl : m = m' := Option.some.inj (hm.symm.trans hm')
  rfl

/-! ### When a SACK is due -/

/-- The last chunk of the message came no later than the given time, and no SACK
has been sent or overheard for it. -/
def Unasked (key : MessageKey) (receivedBy : ℕ) (e : ChunkEngine) : Prop :=
  ∀ m, e.inFlight.lookup key = some m →
    m.lastReceived ≤ receivedBy ∧ m.lastSackSent = none ∧ m.sackCount = 0

/-- A call that neither sends nor suppresses SACKs, and stores what it ingests no
later than the given time. -/
def ReceivesBy (receivedBy : ℕ) : EngineOp → Prop
  | .ingestPacket _ _ clock _ => clock.now ≤ receivedBy
  | .cacheOutbound _ _ => True
  | .handleSack _ => True
  | .checkPendingSacks _ _ _ _ => False
  | .suppressSack _ _ => False

/-- Storing a chunk resets no SACK timer. -/
theorem sackTimer_storeChunk (m : InFlightMessage) (i : ℕ)
    (chunk : Bytes plaintextChunkLen) (now : ℕ) :
    (m.storeChunk i chunk now).lastSackSent = m.lastSackSent ∧
      (m.storeChunk i chunk now).sackCount = m.sackCount := by
  simp only [InFlightMessage.storeChunk]
  split <;> exact ⟨rfl, rfl⟩

theorem Unasked.step {receivedBy : ℕ} (h : Unasked key receivedBy e) (op : EngineOp)
    (receives : ReceivesBy receivedBy op)
    (heq : (machine P swarmMasterKey).next (some e) op = some e') : Unasked key receivedBy e' := by
  cases op with
  | ingestPacket srcNodeId packet clock order =>
    rcases next_cases heq with ⟨_, _, _, _, result, hop, hcall⟩ | ⟨hother, -⟩
    · obtain ⟨rfl, rfl, rfl, rfl⟩ := EngineOp.ingestPacket.inj hop
      intro m hm
      rcases inFlight_of_ingestPacket hcall hm with hm | ⟨entry, chunk, -, -, hentry, rfl⟩
      · exact h m hm
      · -- A new entry has no SACK timer, and storing a chunk moves only `last_received`.
        have hunasked : entry.lastReceived ≤ receivedBy ∧ entry.lastSackSent = none ∧
            entry.sackCount = 0 := by
          rcases hentry with hentry | rfl
          · exact h entry hentry
          · exact ⟨receives, rfl, rfl⟩
        obtain ⟨hlast, hsent, hcount⟩ := hunasked
        obtain ⟨htimer, hretries⟩ := sackTimer_storeChunk entry packet.header.chunkIdx.toNat chunk
          clock.now
        refine ⟨?_, htimer.trans hsent, hretries.trans hcount⟩
        rcases InFlightMessage.lastReceived_storeChunk entry packet.header.chunkIdx.toNat chunk
          clock.now with hnow | hold
        · exact hnow.trans_le receives
        · exact hold.trans_le hlast
    · exact absurd rfl (hother _ _ _ _)
  | cacheOutbound packets now =>
    obtain rfl := Option.some.inj heq
    cases packets <;> exact h
  | handleSack sackPacket =>
    obtain rfl := Option.some.inj heq
    exact h
  | checkPendingSacks _ _ _ _ => exact receives.elim
  | suppressSack _ _ => exact receives.elim

theorem Unasked.run {receivedBy : ℕ} (h : Unasked key receivedBy e) {ops : List EngineOp}
    (receives : ∀ op ∈ ops, ReceivesBy receivedBy op)
    (alive : (machine P swarmMasterKey).final (some e) ops = some e') :
    Unasked key receivedBy e' := by
  have preserved : ∀ e op e', Unasked key receivedBy e → ReceivesBy receivedBy op →
      (machine P swarmMasterKey).next (some e) op = some e' → Unasked key receivedBy e' :=
    fun e op e' h hop hnext => h.step op hop hnext
  have guarded : (machine P swarmMasterKey).Guarded (fun _ op => ReceivesBy receivedBy op) (some e)
      ops := by
    intro x hx
    obtain ⟨before, after, rfl, -⟩ := Machine.mem_trace hx
    exact receives x.2 (List.mem_append_right _ List.mem_cons_self)
  exact Machine.invariant_alive (Unasked key receivedBy) next_none preserved h guarded alive

/-- An incomplete message nobody asked about is due a SACK after the initial delay. -/
theorem sackDue_of_unasked {m : InFlightMessage} {receivedBy now : ℕ}
    (hslots : m.receivedChunks = slotTable n content received)
    (hmissing : ¬ Finset.range n ⊆ received) (hlast : m.lastReceived ≤ receivedBy)
    (hsent : m.lastSackSent = none) (hcount : m.sackCount = 0)
    (hdelay : receivedBy + sackInitialDelay ≤ now) : m.sackDue now = true := by
  -- A missing chunk is an empty slot.
  have hany : m.receivedChunks.any Option.isNone = true := by
    have hincomplete : m.isComplete = false := by
      cases hc : m.isComplete with
      | false => rfl
      | true => exact absurd ((InFlightMessage.isComplete_slotTable hslots).mp hc) hmissing
    obtain ⟨i, hi⟩ := exists_missing hincomplete
    exact List.any_eq_true.mpr ⟨none, List.mem_of_getElem? hi, rfl⟩
  have hwaited : ¬ now - m.lastReceived < sackInitialDelay := by omega
  simp [InFlightMessage.sackDue, hany, hwaited, hsent, hcount, maxSackRetries]

/-! ### No SACK after completion -/

/-- A packet of the message is ingested only while the message is remembered. -/
def StillKnown (key : MessageKey) : Option ChunkEngine → EngineOp → Prop
  | some e, .ingestPacket srcNodeId packet clock _ =>
    keyOf srcNodeId packet = key → key ∈ (e.purgeExpired clock.purge).completedCache
  | _, _ => True

/-- A completed message does not get back in flight. -/
theorem notMem_inFlight_step (h : key ∉ e.inFlight) (op : EngineOp)
    (known : StillKnown key (some e) op)
    (heq : (machine P swarmMasterKey).next (some e) op = some e') : key ∉ e'.inFlight := by
  rcases next_cases heq with ⟨srcNodeId, packet, clock, order, result, rfl, hcall⟩ | ⟨-, hs⟩
  · intro hk
    obtain ⟨m, hm⟩ := Option.isSome_iff_exists.mp (AList.lookup_isSome.mpr hk)
    rcases inFlight_of_ingestPacket hcall hm with hm | ⟨_, _, hkey, undone, -, -⟩
    · exact h (HashTable.mem_of_lookup hm)
    · exact undone (known hkey)
  · exact fun hk => h (hs.mem_iff.mp hk)

theorem notMem_inFlight_run (h : key ∉ e.inFlight) {ops : List EngineOp}
    (known : (machine P swarmMasterKey).Guarded (StillKnown key) (some e) ops)
    (alive : (machine P swarmMasterKey).final (some e) ops = some e') : key ∉ e'.inFlight :=
  Machine.invariant_alive (fun e => key ∉ e.inFlight) next_none
    (fun _ op _ h hop hnext => notMem_inFlight_step h op hop hnext) h known alive

/-! ### The whole exchange -/

/-- From this engine on no SACK asks for the message, as long as it is remembered
whenever one of its packets arrives late. -/
def NeverAsksAgain (P : Primitives) (swarmMasterKey : Bytes 32) (key : MessageKey)
    (e : ChunkEngine) : Prop :=
  ∀ later e', (machine P swarmMasterKey).Guarded (StillKnown key) (some e) later →
    (machine P swarmMasterKey).final (some e) later = some e' →
    ∀ nodeId swarmTag now order, ∀ sack ∈ (e'.checkPendingSacks nodeId swarmTag now order).1,
      ¬ AsksFor key sack

/-- An engine that heard some packets of a message asks for it in time, its SACK is
answered with exactly the other packets, and once these have arrived too the message
is complete for good. -/
structure ClosesGaps (P : Primitives) (swarmMasterKey : Bytes 32) (key : MessageKey)
    (packets : List MeshPacket) (ops : List EngineOp) (e : ChunkEngine) : Prop where
  ascending : packets.Pairwise fun p q => p.header.chunkIdx < q.header.chunkIdx
  asks : ∀ receivedBy, (∀ op ∈ ops, ReceivesBy receivedBy op) →
    ∀ nodeId swarmTag now order, receivedBy + sackInitialDelay ≤ now →
      ∃ sack ∈ (e.checkPendingSacks nodeId swarmTag now order).1, AsksFor key sack
  answered : ∀ nodeId swarmTag now order,
    ∀ sack ∈ (e.checkPendingSacks nodeId swarmTag now order).1, AsksFor key sack →
      ∀ (sender : ChunkEngine) (sentAt : ℕ), (sender.cacheOutbound packets sentAt).handleSack sack =
        packets.filter fun packet => packet ∉ arrivalsOf key ops
  completes : ∀ nodeId swarmTag now order more e',
    (∀ packet ∈ arrivalsOf key more,
      packet ∈ packets.filter fun packet => packet ∉ arrivalsOf key ops) →
    (∀ packet ∈ packets.filter fun packet => packet ∉ arrivalsOf key ops,
      packet ∈ arrivalsOf key more) →
    (machine P swarmMasterKey).Guarded (Keeps key)
      (some (e.checkPendingSacks nodeId swarmTag now order).2) more →
    (machine P swarmMasterKey).final
      (some (e.checkPendingSacks nodeId swarmTag now order).2) more = some e' →
    key ∈ e'.completedCache ∧ NeverAsksAgain P swarmMasterKey key e'

/-- A message that is not in flight is never asked for again. -/
theorem neverAsksAgain_of_notMem (h : key ∉ e.inFlight) :
    NeverAsksAgain P swarmMasterKey key e := by
  intro later e' hknown halive nodeId tag now order sack hsack hasks
  obtain ⟨k, m, hm, -, rfl⟩ := mem_checkPendingSacks.mp hsack
  obtain rfl := (asksFor_sackPacket m nodeId tag k).mp hasks
  exact notMem_inFlight_run h hknown halive (HashTable.mem_of_lookup hm)

theorem CarryInOrder.ascending {packets : List MeshPacket}
    (h : CarryInOrder P swarmMasterKey packets key content) :
    packets.Pairwise fun p q => p.header.chunkIdx < q.header.chunkIdx := by
  rw [List.pairwise_iff_getElem]
  intro i j hi hj hlt
  rw [UInt8.lt_iff_toNat_lt, h.index_getElem hi, h.index_getElem hj]
  exact hlt

/-- Once the rest of a message has arrived, the message is complete. -/
theorem HasReceived.run_rest {packets heard : List MeshPacket} {more : List EngineOp}
    (h : e.HasReceived key packets.length content (indicesOf heard))
    (hcarry : CarryInOrder P swarmMasterKey packets key content)
    (heard_sent : ∀ packet ∈ heard, packet ∈ packets)
    (more_sent : ∀ packet ∈ arrivalsOf key more, packet ∈ packets)
    (all_heard : ∀ packet ∈ packets, packet ∈ heard ∨ packet ∈ arrivalsOf key more)
    (kept : (machine P swarmMasterKey).Guarded (Keeps key) (some e) more)
    (alive : (machine P swarmMasterKey).final (some e) more = some e') :
    key ∈ e'.completedCache ∧ key ∉ e'.inFlight := by
  have hdone := h.run kept (fun packet hp => hcarry.carries (more_sent packet hp)) alive
  have hunion : indicesOf heard ∪ indicesOf (arrivalsOf key more) =
      indicesOf (heard ++ arrivalsOf key more) := by
    simp [indicesOf]
  have hsent : ∀ packet ∈ heard ++ arrivalsOf key more, packet ∈ packets := by
    intro packet hp
    exact (List.mem_append.mp hp).elim (heard_sent packet) (more_sent packet)
  have hall : Finset.range packets.length ⊆ indicesOf (heard ++ arrivalsOf key more) :=
    (hcarry.range_subset_iff hsent).mpr
      fun packet hmem => List.mem_append.mpr (all_heard packet hmem)
  rwa [hunion, HasReceived, if_pos hall] at hdone

/-- **SACK recovery closes every gap.** A node fragments a text into packets. Some
but not all of them reach a receiver that knew nothing of the message, in any order,
with any duplicates and among any other calls that neither evict nor expire it. Then
the receiver asks for exactly the missing packets, the sender returns them in order
and unaltered, and they complete the message. -/
theorem sack_closesGaps (P : Primitives) (correct : P.DecryptsEncrypted) (text : String)
    (swarmTag : UInt64) (localNodeId : UInt32) (swarmMasterKey : Bytes 32) (mgr : NonceManager)
    (io : IoOutcome) (file : StateFile) (packets : List MeshPacket) (key : MessageKey)
    (receiver e : ChunkEngine) (ops : List EngineOp) (nonempty : packets ≠ [])
    (sent : (fragmentAndEncrypt P text swarmTag localNodeId swarmMasterKey mgr io file).1 =
      .ok packets)
    (key_eq : key = (localNodeId, messageId localNodeId mgr.currentCounter))
    (unknown : key ∉ receiver.inFlight ∧ key ∉ receiver.completedCache)
    (heard_sent : ∀ packet ∈ arrivalsOf key ops, packet ∈ packets)
    (some_heard : arrivalsOf key ops ≠ [])
    (some_missing : ∃ packet ∈ packets, packet ∉ arrivalsOf key ops)
    (kept : (machine P swarmMasterKey).Guarded (Keeps key) (some receiver) ops)
    (alive : (machine P swarmMasterKey).final (some receiver) ops = some e) :
    ClosesGaps P swarmMasterKey key packets ops e := by
  obtain ⟨missed, missed_sent, unheard⟩ := some_missing
  have htext : asBytes text ≠ [] := asBytes_ne_nil_of_mem sent missed_sent
  have hcarry := carries_of_fragmentAndEncrypt correct htext sent
  rw [← key_eq] at hcarry
  have hn : packets.length ≤ 512 := by
    rw [(fragmentAndEncrypt_ok htext sent).2.1]
    exact (UInt8.toNat_lt _).le.trans (by decide)
  have hfresh : receiver.HasReceived key packets.length (chunkContent (asBytes text)) ∅ :=
    hasReceived_unknown (List.length_pos_iff.mpr nonempty) unknown.1 unknown.2
  have hreceived := hfresh.run kept (fun packet hp => hcarry.carries (heard_sent packet hp)) alive
  rw [Finset.empty_union] at hreceived
  have hmissing : ¬ Finset.range packets.length ⊆ indicesOf (arrivalsOf key ops) :=
    fun hall => unheard ((hcarry.range_subset_iff heard_sent).mp hall missed missed_sent)
  have hsome : indicesOf (arrivalsOf key ops) ≠ ∅ := by simpa [indicesOf] using some_heard
  obtain ⟨m, hm, hslots⟩ := hreceived.exists_inFlight hmissing hsome
  refine ⟨hcarry.ascending, ?_, ?_, ?_⟩
  · intro receivedBy hreceives nodeId tag now order hdelay
    have hinitial : Unasked key receivedBy receiver := by
      intro m' hm'
      rw [AList.lookup_eq_none.mpr unknown.1] at hm'
      cases hm'
    obtain ⟨hlast, hsent, hcount⟩ := hinitial.run hreceives alive m hm
    have hdue := sackDue_of_unasked hslots hmissing hlast hsent hcount hdelay
    exact ⟨m.sackPacket nodeId tag key, mem_checkPendingSacks.mpr ⟨key, m, hm, hdue, rfl⟩,
      (asksFor_sackPacket m nodeId tag key).mpr rfl⟩
  · intro nodeId tag now order sack hsack hasks sender sentAt
    rw [sack_of_asksFor hm hsack hasks,
      handleSack_sackPacket hcarry sender sentAt nonempty hn hslots]
    -- Among the packets sent, not having received an index is not having heard its packet.
    apply List.filter_congr
    intro packet hmem
    exact decide_eq_decide.mpr (not_congr (hcarry.mem_indices_iff heard_sent hmem))
  · intro nodeId tag now order more e' more_missing missing_more hkept halive
    -- Asking moves SACK timers only.
    have hasked : (e.checkPendingSacks nodeId tag now order).2.HasReceived key packets.length
        (chunkContent (asBytes text)) (indicesOf (arrivalsOf key ops)) := by
      have hnext : (machine P swarmMasterKey).next (some e)
          (.checkPendingSacks nodeId tag now order) =
          some (e.checkPendingSacks nodeId tag now order).2 := rfl
      rcases next_cases hnext with ⟨_, _, _, _, _, hop, -⟩ | ⟨-, hs⟩
      · cases hop
      · exact hreceived.sameChunks hs
    have more_sent : ∀ packet ∈ arrivalsOf key more, packet ∈ packets :=
      fun packet hp => (List.mem_filter.mp (more_missing packet hp)).1
    have all_heard : ∀ packet ∈ packets, packet ∈ arrivalsOf key ops ∨
        packet ∈ arrivalsOf key more := by
      intro packet hmem
      by_cases hheard : packet ∈ arrivalsOf key ops
      · exact Or.inl hheard
      · exact Or.inr (missing_more packet (List.mem_filter.mpr ⟨hmem, decide_eq_true hheard⟩))
    obtain ⟨hdone, hgone⟩ :=
      hasked.run_rest hcarry heard_sent more_sent all_heard hkept halive
    exact ⟨hdone, neverAsksAgain_of_notMem hgone⟩

/-- An empty engine has nothing to lose. -/
theorem keeps_new (key : MessageKey) (op : EngineOp) : Keeps key (some new) op := by
  cases op with
  | ingestPacket srcNodeId packet clock order =>
    exact ⟨fun hk => absurd hk (AList.notMem_empty key),
      fun hk => absurd hk (AList.notMem_empty key)⟩
  | _ => trivial

/-- After the first chunk of a two-chunk text, the exchange recovers the second. -/
theorem sack_closesGaps_halfReceivedRun :
    ∃ e, (machine transparent (.zero 32)).final (some new) halfReceivedRun = some e ∧
      ClosesGaps transparent (.zero 32) (7, 0) (transparentPackets twoChunkText 7)
        halfReceivedRun e := by
  have halive : ((machine transparent (.zero 32)).final (some new)
      halfReceivedRun).isSome = true := by
    decide +kernel
  obtain ⟨e, he⟩ := Option.isSome_iff_exists.mp halive
  have harrivals : arrivalsOf (7, 0) halfReceivedRun =
      (transparentPackets twoChunkText 7).take 1 := by decide +kernel
  have hkept : (machine transparent (.zero 32)).Guarded (Keeps (7, 0)) (some new)
      halfReceivedRun := by
    have hlength : halfReceivedRun.length = 1 := by decide +kernel
    obtain ⟨op, hop⟩ := List.length_eq_one_iff.mp hlength
    rw [hop, Machine.guarded_cons]
    exact ⟨keeps_new (7, 0) op, Machine.guarded_nil _ _⟩
  refine ⟨e, he, sack_closesGaps transparent transparent_decryptsEncrypted twoChunkText
    defaultNetworkTag 7 (.zero 32) ⟨1, 0, 1000⟩ .ok .missing _ (7, 0) new e halfReceivedRun
    (by decide +kernel) transparentPackets_sent (by decide)
    ⟨AList.notMem_empty _, AList.notMem_empty _⟩ ?_ ?_ ?_ hkept he⟩
  · rw [harrivals]
    exact fun packet hp => List.mem_of_mem_take hp
  · rw [harrivals]
    decide +kernel
  · rw [harrivals]
    decide +kernel

end ChunkEngine

end Gibberish.Daemon
