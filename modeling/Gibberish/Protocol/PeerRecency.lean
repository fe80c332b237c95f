/-
# The peers heard last

After any records, the table of peers holds the nodes that were recorded last, as many as it
has slots, the least recently recorded one first. Each has the link of its latest record and
counts its records since it last came into the table.
-/

import Gibberish.Foundation.ByteBuffer
import Gibberish.Protocol.PeerTable

set_option autoImplicit false

namespace Gibberish.Protocol

open Gibberish.Foundation RecentlyUsed

/-- The arguments of one call of `record_peer`. -/
structure PeerRecord where
  nodeId : UInt32
  rssi : Int8
  lqi : UInt8
  deriving DecidableEq

namespace PeerTable

/-- The table after some records. -/
def recordAll (records : List PeerRecord) : PeerTable :=
  records.foldl (fun t r => t.recordPeer r.nodeId r.rssi r.lqi) new

/-- The nodes that were recorded, in order. -/
def heardIds (records : List PeerRecord) : List UInt32 :=
  (records.map PeerRecord.nodeId).filter fun nodeId => nodeId ≠ 0

/-- The latest record of a node. -/
def latestRecord (records : List PeerRecord) (nodeId : UInt32) : Option PeerRecord :=
  (records.filter fun r => r.nodeId = nodeId).getLast?

variable {records : List PeerRecord} {r : PeerRecord} {t : PeerTable} {peer : PeerMetric}
variable {l l' : List PeerMetric} {nodeId : UInt32} {rssi : Int8} {lqi : UInt8}

/-! ### Histories -/

theorem recordAll_concat (records : List PeerRecord) (r : PeerRecord) :
    recordAll (records ++ [r]) = (recordAll records).recordPeer r.nodeId r.rssi r.lqi := by
  rw [recordAll, List.foldl_append]
  rfl

theorem heardIds_concat (records : List PeerRecord) (r : PeerRecord) :
    heardIds (records ++ [r]) =
      if r.nodeId = 0 then heardIds records else heardIds records ++ [r.nodeId] := by
  rw [heardIds, List.map_append, List.filter_append]
  split
  · next hzero => simp [heardIds, hzero]
  · next hzero => simp [heardIds, hzero]

theorem zero_notMem_heardIds (records : List PeerRecord) : 0 ∉ heardIds records := by
  simp [heardIds]

theorem latestRecord_concat_self (records : List PeerRecord) (r : PeerRecord) :
    latestRecord (records ++ [r]) r.nodeId = some r := by
  simp [latestRecord, List.filter_append]

theorem latestRecord_concat_of_ne (records : List PeerRecord) (h : r.nodeId ≠ nodeId) :
    latestRecord (records ++ [r]) nodeId = latestRecord records nodeId := by
  simp [latestRecord, List.filter_append, h]

/-! ### What an entry keeps -/

/-- An entry has the link of the latest record, and counts the records since the node last
came into the table. -/
structure Keeps (records : List PeerRecord) (peer : PeerMetric) : Prop where
  latest : latestRecord records peer.nodeId =
    some ⟨peer.nodeId, peer.lastRssi, peer.lastLqi⟩
  counted : ∃ before after,
    LastEntry peerTableCapacity (heardIds records) peer.nodeId before after ∧
      peer.packetCount.toNat = min ((peer.nodeId :: after).count peer.nodeId) (2 ^ 32 - 1)

/-- A record of another node changes nothing, as long as the entry stays. -/
theorem Keeps.other (h : Keeps records peer) (hne : r.nodeId ≠ peer.nodeId)
    (hstays : peer.nodeId ∈ recent peerTableCapacity (heardIds (records ++ [r]))) :
    Keeps (records ++ [r]) peer where
  latest := (latestRecord_concat_of_ne records hne).trans h.latest
  counted := by
    obtain ⟨before, after, hentry, hcount⟩ := h.counted
    rw [heardIds_concat] at hstays ⊢
    split
    · exact ⟨before, after, hentry, hcount⟩
    · next hzero =>
      rw [if_neg hzero] at hstays
      refine ⟨before, after ++ [r.nodeId], hentry.concat hstays, ?_⟩
      rw [hcount, ← List.cons_append, List.count_append, List.count_singleton,
        if_neg (by simpa using hne), Nat.add_zero]

/-- A record of the node itself is counted. -/
theorem Keeps.again (h : Keeps records peer) (hnode : peer.nodeId = r.nodeId)
    (nonzero : r.nodeId ≠ 0) : Keeps (records ++ [r]) (peer.heardAgain r.rssi r.lqi) where
  latest := by
    show latestRecord (records ++ [r]) peer.nodeId = some ⟨peer.nodeId, r.rssi, r.lqi⟩
    rw [hnode, latestRecord_concat_self]
  counted := by
    obtain ⟨before, after, hentry, hcount⟩ := h.counted
    have hids : heardIds (records ++ [r]) = heardIds records ++ [peer.nodeId] := by
      rw [heardIds_concat, if_neg nonzero, hnode]
    refine ⟨before, after ++ [peer.nodeId], ?_, ?_⟩
    · rw [hids]
      exact hentry.concat (mem_recent_concat_self (by decide) _ _)
    · show (peer.heardAgain r.rssi r.lqi).packetCount.toNat =
        min ((peer.nodeId :: (after ++ [peer.nodeId])).count peer.nodeId) (2 ^ 32 - 1)
      rw [PeerMetric.heardAgain, toNat_saturatingAdd_one, hcount, ← List.cons_append,
        List.count_append, List.count_singleton_self]
      omega

/-- A node that was not in the table comes in. -/
theorem keeps_new (nonzero : r.nodeId ≠ 0)
    (absent : r.nodeId ∉ recent peerTableCapacity (heardIds records)) :
    Keeps (records ++ [r]) (.new r.nodeId r.rssi r.lqi) where
  latest := latestRecord_concat_self records r
  counted := by
    refine ⟨heardIds records, [], ?_, ?_⟩
    · rw [heardIds_concat, if_neg nonzero]
      exact lastEntry_concat_self (by decide) absent
    · show (1 : UInt32).toNat = min ([r.nodeId].count r.nodeId) (2 ^ 32 - 1)
      rw [List.count_singleton_self]
      rfl

/-! ### One record -/

theorem notMem_map_nodeId (absent : ∀ peer ∈ l, peer.nodeId ≠ nodeId) :
    nodeId ∉ l.map PeerMetric.nodeId := by
  intro hmem
  obtain ⟨peer, hpeer, heq⟩ := List.mem_map.mp hmem
  exact absent peer hpeer heq

/-- The nodes of the entries, after recording. -/
theorem Recorded.map_nodeId (h : Recorded l nodeId rssi lqi l') (nonzero : nodeId ≠ 0) :
    l'.map PeerMetric.nodeId = touch peerTableCapacity (l.map PeerMetric.nodeId) nodeId := by
  cases h with
  | ignored zero => exact absurd zero nonzero
  | promoted front back peer _ split found absent =>
    have hmem : nodeId ∈ l.map PeerMetric.nodeId :=
      List.mem_map.mpr ⟨peer, by simp [split], found⟩
    have herase : (l.map PeerMetric.nodeId).erase nodeId = (front ++ back).map PeerMetric.nodeId := by
      rw [split, List.map_append, List.map_cons, found,
        List.erase_append_right _ (notMem_map_nodeId absent), List.erase_cons_head, List.map_append]
    rw [touch, if_pos hmem, herase, List.map_append, ← found]
    rfl
  | added _ absent room =>
    rw [touch, if_neg (notMem_map_nodeId absent), if_pos (by rwa [List.length_map]), List.map_append]
    rfl
  | replaced _ absent full =>
    rw [touch, if_neg (notMem_map_nodeId absent),
      if_neg (by rw [List.length_map, full]; exact lt_irrefl _), List.map_append, List.map_tail]
    rfl

/-- Where an entry comes from. -/
theorem Recorded.origin (h : Recorded l nodeId rssi lqi l') (nonzero : nodeId ≠ 0)
    (nodup : (l.map PeerMetric.nodeId).Nodup) (hpeer : peer ∈ l') :
    (peer ∈ l ∧ peer.nodeId ≠ nodeId) ∨
      (∃ old ∈ l, old.nodeId = nodeId ∧ peer = old.heardAgain rssi lqi) ∨
      (nodeId ∉ l.map PeerMetric.nodeId ∧ peer = .new nodeId rssi lqi) := by
  cases h with
  | ignored zero => exact absurd zero nonzero
  | promoted front back old _ split found absent =>
    rcases List.mem_append.mp hpeer with hother | hlast
    · left
      rcases List.mem_append.mp hother with hfront | hback
      · exact ⟨split ▸ List.mem_append_left _ hfront, absent peer hfront⟩
      · refine ⟨by simp [split, hback], fun heq => ?_⟩
        -- Each node has one entry.
        rw [split, List.map_append, List.map_cons] at nodup
        have hnodup := (List.nodup_cons.mp (List.nodup_append.mp nodup).2.1).1
        exact hnodup (List.mem_map.mpr ⟨peer, hback, heq.trans found.symm⟩)
    · right
      left
      exact ⟨old, by simp [split], found, List.mem_singleton.mp hlast⟩
  | added _ absent room =>
    rcases List.mem_append.mp hpeer with hold | hlast
    · exact Or.inl ⟨hold, absent peer hold⟩
    · exact Or.inr (Or.inr ⟨notMem_map_nodeId absent, List.mem_singleton.mp hlast⟩)
  | replaced _ absent full =>
    rcases List.mem_append.mp hpeer with hold | hlast
    · exact Or.inl ⟨List.mem_of_mem_tail hold, absent peer (List.mem_of_mem_tail hold)⟩
    · exact Or.inr (Or.inr ⟨notMem_map_nodeId absent, List.mem_singleton.mp hlast⟩)

/-! ### Any records -/

/-- The table is what the records make it. -/
structure Tracks (records : List PeerRecord) (t : PeerTable) : Prop where
  compact : t.Compact
  ids : t.entries.map PeerMetric.nodeId = recent peerTableCapacity (heardIds records)
  keeps : ∀ peer ∈ t.entries, Keeps records peer

theorem tracks_new : Tracks [] new where
  compact := rfl
  ids := recent_nil.symm
  keeps peer hpeer := by cases hpeer

theorem Tracks.zero_notMem (h : Tracks records t) : 0 ∉ t.entries.map PeerMetric.nodeId := by
  rw [h.ids]
  exact fun hmem => zero_notMem_heardIds records (mem_of_mem_recent hmem)

theorem Tracks.nodup (h : Tracks records t) : (t.entries.map PeerMetric.nodeId).Nodup := by
  rw [h.ids]
  exact nodup_recent _ _

/-- **Step lemma.** -/
theorem Tracks.record (h : Tracks records t) (r : PeerRecord) :
    Tracks (records ++ [r]) (t.recordPeer r.nodeId r.rssi r.lqi) := by
  by_cases hzero : r.nodeId = 0
  · rw [recordPeer, if_pos hzero]
    have hids : heardIds (records ++ [r]) = heardIds records := by
      rw [heardIds_concat, if_pos hzero]
    refine ⟨h.compact, hids ▸ h.ids, fun peer hpeer => ?_⟩
    have hmem : peer.nodeId ∈ t.entries.map PeerMetric.nodeId := List.mem_map_of_mem hpeer
    refine (h.keeps peer hpeer).other (fun heq => ?_) (hids ▸ h.ids ▸ hmem)
    exact h.zero_notMem (hzero ▸ heq ▸ hmem)
  · obtain ⟨hcompact, hrecorded⟩ := recordPeer_recorded h.compact r.nodeId r.rssi r.lqi
    have hids : (t.recordPeer r.nodeId r.rssi r.lqi).entries.map PeerMetric.nodeId =
        recent peerTableCapacity (heardIds (records ++ [r])) := by
      rw [hrecorded.map_nodeId hzero, h.ids, heardIds_concat, if_neg hzero,
        recent_concat (by decide)]
    refine ⟨hcompact, hids, fun peer hpeer => ?_⟩
    rcases hrecorded.origin hzero h.nodup hpeer with ⟨hold, hne⟩ | ⟨old, hold, hnode, rfl⟩ |
      ⟨hnew, rfl⟩
    · exact (h.keeps peer hold).other hne.symm (hids ▸ List.mem_map_of_mem hpeer)
    · exact (h.keeps old hold).again hnode hzero
    · exact keeps_new hzero (h.ids ▸ hnew)

/-- **Run lemma.** -/
theorem tracks_recordAll (records : List PeerRecord) : Tracks records (recordAll records) := by
  induction records using List.reverseRecOn with
  | nil => exact tracks_new
  | append_singleton records r ih =>
    rw [recordAll_concat]
    exact ih.record r

/-! ### Reading the table -/

theorem primaryPeer_eq (t : PeerTable) : t.primaryPeer = t.entries.getLast? := by
  rw [primaryPeer, ← List.head?_filterMap, List.filterMap_reverse, List.head?_reverse]
  rfl

theorem secondOf_one (slots : List (Option PeerMetric)) :
    secondOf 1 slots = slots.reduceOption.head? := by
  induction slots with
  | nil => rfl
  | cons slot rest ih =>
    cases slot with
    | none => exact ih
    | some peer => rfl

theorem secondOf_zero (slots : List (Option PeerMetric)) :
    secondOf 0 slots = slots.reduceOption.tail.head? := by
  induction slots with
  | nil => rfl
  | cons slot rest ih =>
    cases slot with
    | none => exact ih
    | some peer => exact secondOf_one rest

theorem secondaryPeer_eq (t : PeerTable) : t.secondaryPeer = t.entries.dropLast.getLast? := by
  have hreverse : t.peers.toList.reverse.reduceOption = t.entries.reverse :=
    List.filterMap_reverse
  rw [secondaryPeer, secondOf_zero, hreverse, List.tail_reverse, List.head?_reverse]

theorem mem_entries : peer ∈ t.entries ↔ some peer ∈ t.peers.toList := by
  rw [entries, List.reduceOption_mem_iff]

/-- A lookup finds the entry of the node. -/
theorem getPeer_eq_some_iff (nodup : (t.entries.map PeerMetric.nodeId).Nodup)
    (zero : 0 ∉ t.entries.map PeerMetric.nodeId) :
    t.getPeer nodeId = some peer ↔ peer ∈ t.entries ∧ peer.nodeId = nodeId := by
  rw [getPeer]
  split
  · next hzero =>
    simp only [reduceCtorEq, false_iff, not_and]
    rintro hpeer hnode
    exact zero (List.mem_map.mpr ⟨peer, hpeer, hnode.trans hzero⟩)
  · have hfound : ∀ {found : PeerMetric},
        t.peers.toList.findSome? (fun p => p.filter fun peer => peer.nodeId = nodeId) =
          some found → found ∈ t.entries ∧ found.nodeId = nodeId := by
      intro found h
      obtain ⟨slot, hslot, hfilter⟩ := List.exists_of_findSome?_eq_some h
      obtain ⟨rfl, hnode⟩ := Option.filter_eq_some_iff.mp hfilter
      exact ⟨mem_entries.mpr hslot, of_decide_eq_true hnode⟩
    constructor
    · exact hfound
    · rintro ⟨hpeer, hnode⟩
      cases hlookup : t.peers.toList.findSome?
          (fun p => p.filter fun peer => peer.nodeId = nodeId) with
      | none =>
        have hnone := List.findSome?_eq_none_iff.mp hlookup _ (mem_entries.mp hpeer)
        simp [hnode] at hnone
      | some found =>
        -- Each node has one entry.
        obtain ⟨hmem, hsame⟩ := hfound hlookup
        rw [List.inj_on_of_nodup_map nodup hmem hpeer (hsame.trans hnode.symm)]

/-- **An exact list of recent peers.** After any records, the table has no gaps, no node twice
and never node zero. It lists the most recently recorded nodes, as many as there are slots,
least recently recorded first, each with the link of its latest record and a count of its
records since it last came into the table. The primary and the secondary peer are the last and
the last but one, and a lookup finds exactly these nodes. -/
theorem peer_table_exact_lru (records : List PeerRecord) :
    let t := recordAll records
    let ids := heardIds records
    t.Compact ∧ t.entries.map PeerMetric.nodeId = recent peerTableCapacity ids ∧
      (t.entries.map PeerMetric.nodeId).Nodup ∧ 0 ∉ t.entries.map PeerMetric.nodeId ∧
      (∀ peer ∈ t.entries,
        latestRecord records peer.nodeId = some ⟨peer.nodeId, peer.lastRssi, peer.lastLqi⟩ ∧
        (∃ before after, LastEntry peerTableCapacity ids peer.nodeId before after) ∧
        ∀ before after, LastEntry peerTableCapacity ids peer.nodeId before after →
          peer.packetCount.toNat = min ((peer.nodeId :: after).count peer.nodeId) (2 ^ 32 - 1)) ∧
      t.primaryPeer = t.entries.getLast? ∧ t.secondaryPeer = t.entries.dropLast.getLast? ∧
      ∀ nodeId peer, t.getPeer nodeId = some peer ↔ peer ∈ t.entries ∧ peer.nodeId = nodeId := by
  have htracks := tracks_recordAll records
  refine ⟨htracks.compact, htracks.ids, htracks.nodup, htracks.zero_notMem, fun peer hpeer => ?_,
    primaryPeer_eq _, secondaryPeer_eq _, fun nodeId peer => ?_⟩
  · have hkeeps := htracks.keeps peer hpeer
    obtain ⟨before, after, hentry, hcount⟩ := hkeeps.counted
    refine ⟨hkeeps.latest, ⟨before, after, hentry⟩, fun before' after' hentry' => ?_⟩
    obtain ⟨-, rfl⟩ := hentry.unique hentry'
    exact hcount
  · exact getPeer_eq_some_iff htracks.nodup htracks.zero_notMem

end PeerTable

end Gibberish.Protocol
