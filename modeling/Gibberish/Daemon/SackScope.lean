/-
# What a SACK touches

A SACK names a message by its sender and its id. In flight a message is kept under both, but
the daemon puts off its own SACKs, and looks for packets to send again, by the id alone. So
a SACK reaches a message of another sender that happens to have the same id, and nothing
beyond that.
-/

import Gibberish.Daemon.Station
import Gibberish.Protocol.SackSet

set_option autoImplicit false

namespace Gibberish.Daemon

open Gibberish.Foundation Gibberish.Protocol Gibberish.Crypto

/-- The message that a SACK names. -/
def sackedKey (packet : MeshPacket) : MessageKey :=
  ((SackPayload.deserialize packet.payload).senderNodeId, packet.header.msgId)

namespace ChunkEngine

/-- The SACK timer of the in-flight entry of a message. -/
def sackTimer (e : ChunkEngine) (key : MessageKey) : Option (Option ℕ) :=
  (e.inFlight.lookup key).map InFlightMessage.lastSackSent

/-- The outbox holds a packet, under the message id of a SACK, that the SACK asks for. -/
def HoldsAskedFor (e : ChunkEngine) (packet : MeshPacket) : Prop :=
  ∃ c ∈ e.outboxCache.lookup packet.header.msgId, ∃ i < c.1.length,
    (SackPayload.deserialize packet.payload).isMissing i = true

/-! ### The two halves of the handling -/

variable (e : ChunkEngine) (packet : MeshPacket)

/-- Putting off SACKs sets the timers of the entries with the message id. -/
theorem sackTimer_suppressSack (msgId : UInt32) (now : ℕ) (key : MessageKey) :
    (e.suppressSack msgId now).sackTimer key =
      if key.2 = msgId then (e.sackTimer key).map fun _ => some now else e.sackTimer key := by
  simp only [sackTimer, suppressSack, HashTable.lookup_mapValues, Option.map_map]
  split
  · rfl
  · rfl

/-- A timer stays as it is when the entry has another message id, is not there, or was put
off at this very instant. -/
theorem sackTimer_suppressSack_eq_iff {msgId : UInt32} {now : ℕ} {key : MessageKey} :
    (e.suppressSack msgId now).sackTimer key = e.sackTimer key ↔
      (key.2 = msgId → ∀ timer ∈ e.sackTimer key, timer = some now) := by
  rw [sackTimer_suppressSack]
  split
  · next hmsg =>
    cases e.sackTimer key with
    | none => simp
    | some timer => simp [hmsg, eq_comm]
  · next hmsg => simp [hmsg]

/-- Something is sent again when the outbox holds it. -/
theorem handleSack_ne_nil_iff (hflag : packet.header.flags &&& flagSack ≠ 0) :
    e.handleSack packet ≠ [] ↔ e.HoldsAskedFor packet := by
  rw [handleSack, if_neg hflag, HoldsAskedFor]
  cases e.outboxCache.lookup packet.header.msgId with
  | none => simp
  | some c =>
    simp only [ne_eq, List.filterMap_eq_nil_iff, SackPayload.mem_forEachMissing,
      List.getElem?_eq_none_iff, Option.mem_some_iff, exists_eq_left', not_forall, not_le,
      exists_prop]
    constructor
    · rintro ⟨i, hmissing, hlt⟩
      exact ⟨i, hlt, hmissing⟩
    · rintro ⟨i, hlt, hmissing⟩
      exact ⟨i, hmissing, hlt⟩

end ChunkEngine

namespace Station

/-- The handling of a SACK changes no timer but that of the message it names, and sends
packets again only on the node it names. -/
structure TouchesOnlyNamed (P : Primitives) (setup : StationSetup) (s : Station) (dongle : ℕ)
    (wirePkt : ReceivedWirePacket) (clock : IngestClock) (order : InFlightOrder) : Prop where
  timers : ∀ s' ∈ (s.receive P setup dongle wirePkt clock order).1,
    ∀ key, key ≠ sackedKey wirePkt.packet →
      s'.chunkEngine.sackTimer key = s.chunkEngine.sackTimer key
  retransmits : (s.receive P setup dongle wirePkt clock order).2 ≠ [] →
    s.localNodeId = (sackedKey wirePkt.packet).1

/-- The SACKs that a run hears touch only the messages they name. -/
def SackInScope (P : Primitives) (setup : StationSetup) : Option Station → StationInput → Prop
  | some s, .wirePacket dongle wirePkt clock order =>
    wirePkt.packet.header.flags &&& flagSack ≠ 0 →
      TouchesOnlyNamed P setup s dongle wirePkt clock order
  | _, _ => True

/-- No message of another sender has the id of the SACK: none in flight whose SACKs are not
already put off at this instant, and, unless this node is the sender, none in the outbox
with a chunk that is asked for. -/
structure IdUnshared (s : Station) (packet : MeshPacket) (now : ℕ) : Prop where
  inFlight : ∀ sender, sender ≠ (sackedKey packet).1 →
    ∀ timer ∈ s.chunkEngine.sackTimer (sender, packet.header.msgId), timer = some now
  outbox : s.localNodeId ≠ (sackedKey packet).1 → ¬ s.chunkEngine.HoldsAskedFor packet

/-- The SACKs that a run hears have the id of one message only. -/
def SackIdUnshared : Option Station → StationInput → Prop
  | some s, .wirePacket _ wirePkt clock _ =>
    wirePkt.packet.header.flags &&& flagSack ≠ 0 → s.IdUnshared wirePkt.packet clock.now
  | _, _ => True

variable {P : Primitives} {setup : StationSetup} {s : Station} {dongle : ℕ}
variable {wirePkt : ReceivedWirePacket} {clock : IngestClock} {order : InFlightOrder}

/-- **One SACK.** Its handling touches only the message it names exactly when no other
message has that id. -/
theorem touchesOnlyNamed_iff (hflag : wirePkt.packet.header.flags &&& flagSack ≠ 0) :
    TouchesOnlyNamed P setup s dongle wirePkt clock order ↔
      s.IdUnshared wirePkt.packet clock.now := by
  have hreceive : s.receive P setup dongle wirePkt clock order =
      (some { s with chunkEngine :=
        s.chunkEngine.suppressSack wirePkt.packet.header.msgId clock.now },
      ((s.chunkEngine.suppressSack wirePkt.packet.header.msgId clock.now).handleSack
        wirePkt.packet).map (.sent dongle)) := if_pos hflag
  -- The outbox is searched after the timers were set, which leaves it alone.
  have hsent : (s.receive P setup dongle wirePkt clock order).2 ≠ [] ↔
      s.chunkEngine.HoldsAskedFor wirePkt.packet := by
    rw [hreceive, ne_eq, List.map_eq_nil_iff]
    exact ChunkEngine.handleSack_ne_nil_iff _ _ hflag
  constructor
  · intro h
    refine ⟨fun sender hsender => ?_, fun hother hholds => hother (h.retransmits (hsent.mpr hholds))⟩
    have hkey : (sender, wirePkt.packet.header.msgId) ≠ sackedKey wirePkt.packet :=
      fun heq => hsender (congrArg Prod.fst heq)
    have htimer := h.timers _ (congrArg Prod.fst hreceive) _ hkey
    exact (ChunkEngine.sackTimer_suppressSack_eq_iff _).mp htimer rfl
  · intro h
    refine ⟨fun s' hs' key hkey => ?_, fun hne => ?_⟩
    · rw [hreceive] at hs'
      obtain rfl := Option.some.inj hs'
      apply (ChunkEngine.sackTimer_suppressSack_eq_iff _).mpr
      rintro hmsg timer htimer
      obtain ⟨sender, msgId⟩ := key
      obtain rfl : msgId = wirePkt.packet.header.msgId := hmsg
      exact h.inFlight sender (fun heq => hkey (Prod.ext heq rfl)) timer htimer
    · by_contra hother
      exact h.outbox hother (hsent.mp hne)

theorem sackInScope_iff (P : Primitives) (setup : StationSetup) (o : Option Station)
    (input : StationInput) : SackInScope P setup o input ↔ SackIdUnshared o input := by
  cases o with
  | none => exact Iff.rfl
  | some s =>
    cases input with
    | wirePacket dongle wirePkt clock order =>
      exact forall_congr' fun hflag => touchesOnlyNamed_iff hflag
    | _ => exact Iff.rfl

/-- **The scope of a SACK.** In any run of a daemon, every SACK touches only the message it
names exactly when every SACK has an id that no message of another sender shares. -/
theorem sacks_in_scope_iff (P : Primitives) (setup : StationSetup) (nonceMgr : NonceManager)
    (stateFile : StateFile) (inputs : List StationInput) :
    (machine P setup).Guarded (SackInScope P setup) (some (start setup nonceMgr stateFile)) inputs ↔
      (machine P setup).Guarded SackIdUnshared (some (start setup nonceMgr stateFile)) inputs :=
  Machine.guarded_congr (sackInScope_iff P setup) _ _

/-! ### Two senders with one message id -/

/-- A daemon of node 8 with one dongle. -/
def node8 : StationSetup := ⟨defaultNetworkTag, .zero 32, some 8, 1⟩

/-- Node 8 sends a text under message id 0, and the first chunk of message 0 of node 7
arrives. -/
def sharedIdRun : List StationInput :=
  .clipboard "hi" .ok 0 :: ((transparentPackets ChunkEngine.twoChunkText 7).take 1).map fun packet =>
    .wirePacket 0 ⟨7, packet⟩ ⟨1, 1⟩ (.stored _)

/-- Node 5 lacks the first chunk of message 0 of node 9. -/
def sackForNode9 : MeshPacket :=
  ((InFlightMessage.opened 2 0).storeChunk 1 (.zero _) 0).sackPacket 5 defaultNetworkTag (9, 0)

/-- When that SACK is heard, node 8 sends its own text again. -/
theorem shared_id_touched : ¬ ∀ (P : Primitives) (setup : StationSetup) (nonceMgr : NonceManager)
    (stateFile : StateFile) (inputs : List StationInput),
    (machine P setup).Guarded (SackInScope P setup) (some (start setup nonceMgr stateFile))
      inputs := by
  intro hall
  have hguarded := hall transparent node8 ⟨1, 0, 1000⟩ .missing
    (sharedIdRun ++ [.wirePacket 0 ⟨5, sackForNode9⟩ ⟨2, 2⟩ (.stored _)])
  have hstate : ∃ s ∈ (machine transparent node8).final
      (some (start node8 ⟨1, 0, 1000⟩ .missing)) sharedIdRun, s.localNodeId = 8 ∧
        (s.receive transparent node8 0 ⟨5, sackForNode9⟩ ⟨2, 2⟩ (.stored _)).2 ≠ [] := by
    decide +kernel
  obtain ⟨s, hs, hid, hsent⟩ := hstate
  rw [Machine.guarded_append, Machine.guarded_cons, hs] at hguarded
  have hscope : TouchesOnlyNamed transparent node8 s 0 ⟨5, sackForNode9⟩ ⟨2, 2⟩ (.stored _) :=
    hguarded.2.1 (by decide +kernel)
  have hnamed : (sackedKey sackForNode9).1 = 9 := by decide +kernel
  exact absurd (hid.symm.trans ((hscope.retransmits hsent).trans hnamed)) (by decide)

/-- It also puts off the SACKs that node 7's message would have got. -/
example : ∃ s ∈ (machine transparent node8).final (some (start node8 ⟨1, 0, 1000⟩ .missing))
    (sharedIdRun ++ [.wirePacket 0 ⟨5, sackForNode9⟩ ⟨2, 2⟩ (.stored _)]),
    s.chunkEngine.sackTimer (7, 0) = some (some 2) := by
  decide +kernel

end Station

end Gibberish.Daemon
