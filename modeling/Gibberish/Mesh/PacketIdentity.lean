/-
# Packet keys across nodes

Two nodes send texts and are restarted in between, with file operations that may fail.
The message id of a packet has the upper half of the node id and the low half of the
message counter, and every node counts from zero. Packets of the two nodes have
different keys unless the upper halves of the ids agree and the counters of two messages
agree in their low 16 bits; then the first packets of the two messages share a key, by
which a dongle drops the one as a copy of the other and cancels it in its queue.
-/

import Gibberish.Daemon.NonceReuse
import Gibberish.Firmware.BackoffQueue
import Gibberish.Firmware.MainLoop

set_option autoImplicit false

namespace Gibberish.Mesh

open Gibberish.Foundation Gibberish.Protocol Gibberish.Crypto Gibberish.Daemon Gibberish.Firmware

/-! ### Message ids of two nodes -/

/-- A message id keeps the upper half of the node id. -/
theorem messageId_div (localNodeId : UInt32) (counter : UInt64) :
    (messageId localNodeId counter).toNat / 2 ^ 16 = localNodeId.toNat / 2 ^ 16 := by
  have hlow : (counter.toNat &&& 65535) = counter.toNat % 2 ^ 16 :=
    Nat.and_two_pow_sub_one_eq_mod counter.toNat 16
  have hlt : counter.toNat % 2 ^ 16 < 2 ^ 16 := Nat.mod_lt _ (by decide)
  have hnone : (counter.toNat % 2 ^ 16) >>> 16 = 0 := by
    rw [Nat.shiftRight_eq_div_pow]
    exact Nat.div_eq_of_lt hlt
  have hupper : localNodeId.toNat >>> 16 < 2 ^ 16 := by
    rw [Nat.shiftRight_eq_div_pow]
    exact Nat.div_lt_of_lt_mul localNodeId.toNat_lt
  rw [← Nat.shiftRight_eq_div_pow, ← Nat.shiftRight_eq_div_pow]
  simp only [messageId, UInt32.toNat_or, UInt32.toNat_and, UInt64.toNat_toUInt32, UInt64.toNat_and]
  show (localNodeId.toNat &&& 4294901760 ||| (counter.toNat &&& 65535) % 2 ^ 32) >>> 16 = _
  rw [hlow, Nat.mod_eq_of_lt (hlt.trans (by decide)), Nat.shiftRight_or_distrib,
    Nat.shiftRight_and_distrib, hnone, Nat.or_zero]
  -- The mask, shifted down, covers the upper half.
  show localNodeId.toNat >>> 16 &&& 2 ^ 16 - 1 = _
  rw [Nat.and_two_pow_sub_one_eq_mod, Nat.mod_eq_of_lt hupper]

/-- Two message ids are equal exactly when both halves are. -/
theorem messageId_eq_messageId_iff (a b : UInt32) (c c' : UInt64) :
    messageId a c = messageId b c' ↔
      a.toNat / 2 ^ 16 = b.toNat / 2 ^ 16 ∧ c.toNat % 2 ^ 16 = c'.toNat % 2 ^ 16 := by
  constructor
  · intro h
    rw [← messageId_div a c, ← messageId_div b c', ← Sender.messageId_mod a c,
      ← Sender.messageId_mod b c', h]
    exact ⟨rfl, rfl⟩
  · rintro ⟨hupper, hlower⟩
    apply UInt32.toNat_inj.mp
    rw [← Nat.div_add_mod (messageId a c).toNat (2 ^ 16),
      ← Nat.div_add_mod (messageId b c').toNat (2 ^ 16), messageId_div, messageId_div,
      Sender.messageId_mod, Sender.messageId_mod, hupper, hlower]

/-! ### A node that sends and restarts -/

/-- A start of the daemon, or a text it sends, with the outcomes of its file operations. -/
inductive OriginEvent where
  | restart (nowSecs : UInt32) (createDir persist : IoOutcome)
  | send (text : String) (io : IoOutcome)

namespace Origin

variable (P : Primitives) (swarmTag : UInt64) (swarmMasterKey : Bytes 32) (localNodeId : UInt32)

/-- One event, with the packets it sends. -/
def step (s : Sender) : OriginEvent → Sender × List MeshPacket
  | .restart nowSecs createDir persist =>
    match NonceManager.new nowSecs createDir persist s.file with
    | (.ok mgr, file) => (⟨some mgr, file⟩, [])
    | (.error _, file) => (⟨none, file⟩, [])
  | .send text io =>
    match s.mgr with
    | none => (s, [])
    | some mgr =>
      match fragmentAndEncrypt P text swarmTag localNodeId swarmMasterKey mgr io s.file with
      | (.ok packets, mgr, file) => (⟨some mgr, file⟩, packets)
      | (.error _, mgr, file) => (⟨some mgr, file⟩, [])

/-- The node as a machine that emits the packets it sends. -/
def machine : Machine Sender OriginEvent MeshPacket :=
  ⟨step P swarmTag swarmMasterKey localNodeId⟩

/-- The counter of a message of which some packet is sent. -/
def counterSent (s : Sender) (event : OriginEvent) : Option UInt64 :=
  if (machine P swarmTag swarmMasterKey localNodeId).emit s event = [] then none
  else s.mgr.map NonceManager.currentCounter

/-- The counters of the messages that a run sends packets of. -/
def countersSent (s : Sender) (events : List OriginEvent) : List UInt64 :=
  ((machine P swarmTag swarmMasterKey localNodeId).trace s events).filterMap fun x =>
    counterSent P swarmTag swarmMasterKey localNodeId x.1 x.2

variable {P swarmTag swarmMasterKey localNodeId} {s : Sender} {event : OriginEvent}
variable {packet : MeshPacket}

/-- What a send emits, when it succeeds. -/
theorem emit_send {text : String} {io : IoOutcome}
    (h : packet ∈ (machine P swarmTag swarmMasterKey localNodeId).emit s (.send text io)) :
    ∃ mgr, s.mgr = some mgr ∧
      (fragmentAndEncrypt P text swarmTag localNodeId swarmMasterKey mgr io s.file).1 =
        .ok ((machine P swarmTag swarmMasterKey localNodeId).emit s (.send text io)) := by
  rw [Machine.emit, machine] at h ⊢
  simp only [step] at h ⊢
  cases hmgr : s.mgr with
  | none =>
    rw [hmgr] at h
    cases h
  | some mgr =>
    rw [hmgr] at h
    refine ⟨mgr, rfl, ?_⟩
    dsimp only at h ⊢
    generalize fragmentAndEncrypt P text swarmTag localNodeId swarmMasterKey mgr io s.file =
      outcome at h ⊢
    obtain ⟨result, mgr', file⟩ := outcome
    cases result with
    | error e => cases h
    | ok packets => rfl

/-- **Step lemma.** A packet that is sent has the message id of its counter, and with any
packet the one of chunk 0 is sent. -/
theorem emit_cases (h : packet ∈ (machine P swarmTag swarmMasterKey localNodeId).emit s event) :
    ∃ counter, counterSent P swarmTag swarmMasterKey localNodeId s event = some counter ∧
      packet.header.msgId = messageId localNodeId counter ∧
      ∃ first ∈ (machine P swarmTag swarmMasterKey localNodeId).emit s event,
        packetKey first = (messageId localNodeId counter, 0) := by
  cases event with
  | restart nowSecs createDir persist =>
    rw [Machine.emit, machine] at h
    simp only [step] at h
    split at h
    · cases h
    · cases h
  | send text io =>
    obtain ⟨mgr, hmgr, hok⟩ := emit_send h
    have hcounter : counterSent P swarmTag swarmMasterKey localNodeId s (.send text io) =
        some mgr.currentCounter := by
      rw [counterSent, if_neg (List.ne_nil_of_mem h), hmgr, Option.map_some]
    obtain ⟨i, -, hheader, -⟩ := exists_carriesChunk hok h
    obtain ⟨first, hfirst, hkey⟩ := exists_firstChunk hok h
    have hid : packet.header.msgId = messageId localNodeId mgr.currentCounter := by
      rw [hheader]
      rfl
    exact ⟨mgr.currentCounter, hcounter, hid, first, hfirst, hid ▸ hkey⟩

variable (P swarmTag swarmMasterKey localNodeId) in
/-- **Run lemma.** The packets of a run have the message ids of the counters sent, and of
each of these the packet of chunk 0 is among them. -/
theorem mem_outputs (s : Sender) (events : List OriginEvent) :
    (∀ packet ∈ (machine P swarmTag swarmMasterKey localNodeId).outputs s events,
        ∃ counter ∈ countersSent P swarmTag swarmMasterKey localNodeId s events,
          packet.header.msgId = messageId localNodeId counter) ∧
      ∀ counter ∈ countersSent P swarmTag swarmMasterKey localNodeId s events,
        ∃ first ∈ (machine P swarmTag swarmMasterKey localNodeId).outputs s events,
          packetKey first = (messageId localNodeId counter, 0) := by
  constructor
  · intro packet hmem
    obtain ⟨x, hx, hemit⟩ := List.mem_flatMap.mp hmem
    obtain ⟨counter, hcounter, hid, -⟩ := emit_cases hemit
    exact ⟨counter, List.mem_filterMap.mpr ⟨x, hx, hcounter⟩, hid⟩
  · intro counter hmem
    obtain ⟨x, hx, hcounter⟩ := List.mem_filterMap.mp hmem
    -- A counter is sent with some packet, and that packet's own counter is the same.
    have hne : (machine P swarmTag swarmMasterKey localNodeId).emit x.1 x.2 ≠ [] := by
      intro hnil
      rw [counterSent, if_pos hnil] at hcounter
      cases hcounter
    obtain ⟨packet, hpacket⟩ := List.exists_mem_of_ne_nil _ hne
    obtain ⟨counter', hcounter', -, first, hfirst, hkey⟩ := emit_cases hpacket
    obtain rfl : counter = counter' := Option.some.inj (hcounter.symm.trans hcounter')
    exact ⟨first, List.mem_flatMap.mpr ⟨x, hx, hfirst⟩, hkey⟩

end Origin

/-! ### Dongles that hear both nodes -/

/-- Whether a dongle's queue and filter tell a packet from one of another node: the two
have different keys, recording the other never makes the filter hold the packet's key,
and overhearing the other cancels no copy of the packet. -/
structure KeptApart (packet other : MeshPacket) : Prop where
  key : packetKey packet ≠ packetKey other
  filter : ∀ keys,
    (Generations.ofKeys epochThreshold (keys ++ [packetKey other])).Holds (packetKey packet) →
      (Generations.ofKeys epochThreshold keys).Holds (packetKey packet)
  queue : ∀ (b : BackoffController) (copy : MeshPacket), packetKey copy = packetKey packet →
    copy ∈ b.packets →
      copy ∈ (b.onOverhear other.header.msgId other.header.chunkIdx).2.packets

/-- Cancelling leaves every packet with another key. -/
theorem mem_packetsOf_cancelSlots {key : PacketKey} {slots : List (Option MeshPacket)}
    {packet : MeshPacket} (h : packet ∈ TxQueue.packetsOf slots) (other : packetKey packet ≠ key) :
    packet ∈ TxQueue.packetsOf (TxQueue.cancelSlots key slots) := by
  induction slots with
  | nil => cases h
  | cons slot rest ih =>
    rw [TxQueue.cancelSlots]
    split
    -- The slot that is emptied held a packet with the key.
    · rename_i hkey
      cases slot with
      | none => exact h
      | some queued =>
        rcases List.mem_cons.mp h with rfl | hrest
        · have hhas : HasKey key packet := of_decide_eq_true hkey
          exact absurd (Prod.ext hhas.1 hhas.2) other
        · exact hrest
    · cases slot with
      | none => exact ih h
      | some queued =>
        rcases List.mem_cons.mp h with rfl | hrest
        · exact List.mem_cons_self
        · exact List.mem_cons_of_mem _ (ih hrest)

/-- Insertion of another key makes no key held. -/
theorem holds_of_holds_insert {g : Generations PacketKey} {key other : PacketKey}
    (h : (g.insert epochThreshold other).Holds key) (hne : key ≠ other) : g.Holds key := by
  rw [Generations.insert] at h
  split at h
  · rcases h with hmem | hmem
    · exact absurd (List.mem_singleton.mp hmem) hne
    · exact Or.inl hmem
  · rcases h with hmem | hmem
    · rcases List.mem_append.mp hmem with hmem | hmem
      · exact Or.inl hmem
      · exact absurd (List.mem_singleton.mp hmem) hne
    · exact Or.inr hmem

/-- Different keys are all it takes. -/
theorem keptApart_iff {packet other : MeshPacket} :
    KeptApart packet other ↔ packetKey packet ≠ packetKey other := by
  refine ⟨KeptApart.key, fun hne => ⟨hne, ?_, ?_⟩⟩
  · intro keys h
    rw [Generations.ofKeys, List.foldl_append] at h
    exact holds_of_holds_insert h hne
  · intro b copy hcopy hmem
    rw [BackoffController.packets, BackoffController.toQueue_onOverhear]
    exact mem_packetsOf_cancelSlots hmem (hcopy ▸ hne)

/-- A dongle drops every packet whose key its filter holds. -/
theorem not_admits_of_holds {localMac : Bytes 8} {inputs : List DongleInput} {packet : MeshPacket}
    (h : (Generations.ofKeys epochThreshold
      ((Dongle.boot localMac).insertedKeys inputs)).Holds (packetKey packet)) :
    (Dongle.machine.final (Dongle.boot localMac) inputs).admits packet = false := by
  have hcontains := (SlidingBloomFilter.represents_ofKeys _).contains h
  rw [← Dongle.bloomFilter_final] at hcontains
  change SlidingBloomFilter.contains _ packet.header.msgId packet.header.chunkIdx = true
    at hcontains
  rw [Dongle.admits, hcontains, Bool.not_true, Bool.and_false]

/-- A filter that reports a key only once another is recorded has a bit of both: the key is
the other one, or the report is a false positive. -/
theorem exists_probe_of_contains_insert {f : SlidingBloomFilter} {key other : PacketKey}
    (unseen : f.contains key.1 key.2 = false)
    (seen : (f.insert other.1 other.2).contains key.1 key.2 = true) :
    ∃ i ∈ SlidingBloomFilter.probes key, i ∈ SlidingBloomFilter.probes other := by
  rw [SlidingBloomFilter.contains, Bool.or_eq_false_iff, List.all_eq_false] at unseen
  rw [SlidingBloomFilter.contains, Bool.or_eq_true] at seen
  obtain ⟨hlru, i, hi, hunset⟩ := unseen
  refine ⟨i, hi, ?_⟩
  rcases seen with hrecent | hbits
  · obtain ⟨j, hj, heq⟩ := Vector.any_eq_true.mp hrecent
    simp only [SlidingBloomFilter.insert, Vector.getElem_set] at heq
    split at heq
    · obtain rfl : other = key := beq_iff_eq.mp heq
      exact hi
    · have hold : f.recentLru.any (· == (key.1, key.2)) = true :=
        Vector.any_eq_true.mpr ⟨j, hj, heq⟩
      exact absurd (hlru.symm.trans hold) Bool.false_ne_true
  · have hset := List.all_eq_true.mp hbits i hi
    simp only [SlidingBloomFilter.insert, Bitmap.isSet_foldl_mark, Bool.or_eq_true,
      List.contains_iff_mem] at hset
    have hold : f.activeEpoch.isSet i = false ∧ f.previousEpoch.isSet i = false :=
      Bool.or_eq_false_iff.mp (Bool.eq_false_iff.mpr hunset)
    -- After a turnover the active bits are the previous ones, and no new bit is one of them.
    by_cases hfull : f.entriesInEpoch ≥ epochThreshold
    · rw [if_pos hfull, if_pos hfull, Bitmap.isSet_replicate_zero, hold.1] at hset
      simpa using hset
    · rw [if_neg hfull, if_neg hfull, hold.1, hold.2] at hset
      simpa using hset

/-! ### The two nodes -/

section TwoNodes

variable (P : Primitives) (swarmTag : UInt64) (swarmMasterKey : Bytes 32) (a b : UInt32)

/-- **Packet identity.** The packets that two nodes send in any two runs are kept apart iff
the upper halves of their ids differ, or no counter of a message of the one agrees with one
of the other in its low 16 bits. -/
theorem packets_keptApart_iff (s s' : Sender) (events events' : List OriginEvent) :
    (∀ packet ∈ (Origin.machine P swarmTag swarmMasterKey a).outputs s events,
        ∀ other ∈ (Origin.machine P swarmTag swarmMasterKey b).outputs s' events',
          KeptApart packet other ∧ KeptApart other packet) ↔
      a.toNat / 2 ^ 16 ≠ b.toNat / 2 ^ 16 ∨
        ∀ c ∈ Origin.countersSent P swarmTag swarmMasterKey a s events,
          ∀ c' ∈ Origin.countersSent P swarmTag swarmMasterKey b s' events',
            c.toNat % 2 ^ 16 ≠ c'.toNat % 2 ^ 16 := by
  obtain ⟨hids, hfirst⟩ := Origin.mem_outputs P swarmTag swarmMasterKey a s events
  obtain ⟨hids', hfirst'⟩ := Origin.mem_outputs P swarmTag swarmMasterKey b s' events'
  constructor
  · intro hapart
    by_contra hshared
    push Not at hshared
    obtain ⟨hupper, c, hc, c', hc', hlower⟩ := hshared
    -- The first packets of the two messages share their key.
    obtain ⟨packet, hpacket, hkey⟩ := hfirst c hc
    obtain ⟨other, hother, hkey'⟩ := hfirst' c' hc'
    apply (hapart packet hpacket other hother).1.key
    rw [hkey, hkey', (messageId_eq_messageId_iff a b c c').mpr ⟨hupper, hlower⟩]
  · intro hapart packet hpacket other hother
    have hne : packetKey packet ≠ packetKey other := by
      intro hkey
      obtain ⟨c, hc, hid⟩ := hids packet hpacket
      obtain ⟨c', hc', hid'⟩ := hids' other hother
      have hsame : messageId a c = messageId b c' :=
        hid.symm.trans ((congrArg Prod.fst hkey).trans hid')
      obtain ⟨hupper, hlower⟩ := (messageId_eq_messageId_iff a b c c').mp hsame
      rcases hapart with hupper' | hlower'
      · exact hupper' hupper
      · exact hlower' c hc c' hc' hlower
    exact ⟨keptApart_iff.mpr hne, keptApart_iff.mpr hne.symm⟩

end TwoNodes

/-- A start from nothing, and one text. -/
def firstText : List OriginEvent := [.restart 0 .ok .ok, .send "a" .ok]

/-- The first texts of two nodes whose ids differ in the lower half share their key. -/
theorem not_packets_keptApart_firstText : (0x12340001 : UInt32) ≠ 0x12340002 ∧
    ¬ ∀ packet ∈ (Origin.machine transparent defaultNetworkTag (.zero 32) 0x12340001).outputs
        ⟨none, .missing⟩ firstText,
      ∀ other ∈ (Origin.machine transparent defaultNetworkTag (.zero 32) 0x12340002).outputs
        ⟨none, .missing⟩ firstText,
        KeptApart packet other ∧ KeptApart other packet := by
  refine ⟨by decide, fun h => ?_⟩
  have hfirst := fun localNodeId => (Origin.mem_outputs transparent defaultNetworkTag (.zero 32)
    localNodeId ⟨none, .missing⟩ firstText).2
  obtain ⟨packet, hpacket, hkey⟩ := hfirst 0x12340001 0 (by decide +kernel)
  obtain ⟨other, hother, hkey'⟩ := hfirst 0x12340002 0 (by decide +kernel)
  apply (h packet hpacket other hother).1.key
  rw [hkey, hkey']
  decide

end Gibberish.Mesh
