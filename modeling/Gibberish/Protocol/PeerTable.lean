/-
# The table of recent peers

Four slots of peers, the least recently heard one first. A peer that is heard again moves
to the end of the entries, a new one takes the first free slot, and in a full table the
entries move down over the first slot to make one free.
-/

import Gibberish.Foundation.RecentlyUsed
import Mathlib.Data.List.ReduceOption

set_option autoImplicit false

namespace Gibberish.Protocol

open Gibberish.Foundation

/-- The link to a peer when it was last heard, and how many packets were counted. -/
structure PeerMetric where
  nodeId : UInt32
  lastRssi : Int8
  lastLqi : UInt8
  packetCount : UInt32
  deriving DecidableEq

namespace PeerMetric

def new (nodeId : UInt32) (lastRssi : Int8) (lastLqi : UInt8) : PeerMetric :=
  ⟨nodeId, lastRssi, lastLqi, 1⟩

/-- The peer is heard again; the count saturates. -/
def heardAgain (peer : PeerMetric) (rssi : Int8) (lqi : UInt8) : PeerMetric :=
  { peer with
    lastRssi := rssi
    lastLqi := lqi
    packetCount := if peer.packetCount = 0xFFFFFFFF then 0xFFFFFFFF else peer.packetCount + 1 }

end PeerMetric

abbrev peerTableCapacity : ℕ := 4

structure PeerTable where
  peers : Vector (Option PeerMetric) peerTableCapacity
  deriving DecidableEq

namespace PeerTable

def new : PeerTable := ⟨.replicate peerTableCapacity none⟩

/-- The slot, if it has the peer. -/
def matching (nodeId : UInt32) (x : Option PeerMetric × ℕ) : Option (ℕ × PeerMetric) :=
  x.1.bind fun peer => if peer.nodeId = nodeId then some (x.2, peer) else none

/-- The first slot with the peer. -/
def findExisting (t : PeerTable) (nodeId : UInt32) : Option (ℕ × PeerMetric) :=
  t.peers.toList.zipIdx.findSome? (matching nodeId)

/-- The last slot from this one on that is not empty. -/
def lastActive (t : PeerTable) (i : ℕ) : ℕ :=
  (t.peers.toList.zipIdx.drop (i + 1)).foldl (fun lastIdx x => if x.1.isSome then x.2 else lastIdx) i

/-- Copy the slots behind `i`, up to `lastIdx`, down by one. -/
def shiftDown (peers : Vector (Option PeerMetric) peerTableCapacity) (i lastIdx : ℕ) :
    Vector (Option PeerMetric) peerTableCapacity :=
  (List.range' i (lastIdx - i)).foldl (fun peers j => peers.setIfInBounds j peers[j + 1]?.join) peers

/-- Record that a node was heard. Id zero is no node. -/
def recordPeer (t : PeerTable) (nodeId : UInt32) (rssi : Int8) (lqi : UInt8) : PeerTable :=
  if nodeId = 0 then t
  else
    match t.findExisting nodeId with
    -- The peer moves behind the others, which close the gap.
    | some (i, peer) =>
      let lastIdx := t.lastActive i
      ⟨(shiftDown t.peers i lastIdx).setIfInBounds lastIdx (some (peer.heardAgain rssi lqi))⟩
    | none =>
      match t.peers.toList.findIdx? Option.isNone with
      | some i => ⟨t.peers.setIfInBounds i (some (.new nodeId rssi lqi))⟩
      -- All slots are taken, and the one heard longest ago is dropped.
      | none =>
        ⟨(shiftDown t.peers 0 (peerTableCapacity - 1)).setIfInBounds (peerTableCapacity - 1)
          (some (.new nodeId rssi lqi))⟩

def getPeer (t : PeerTable) (nodeId : UInt32) : Option PeerMetric :=
  if nodeId = 0 then none
  else t.peers.toList.findSome? fun p => p.filter fun peer => peer.nodeId = nodeId

/-- The last entry. -/
def primaryPeer (t : PeerTable) : Option PeerMetric := t.peers.toList.reverse.findSome? id

/-- The second entry of some slots, of which so many were seen before. -/
def secondOf : ℕ → List (Option PeerMetric) → Option PeerMetric
  | _, [] => none
  | count, none :: rest => secondOf count rest
  | count, some peer :: rest => if count = 1 then some peer else secondOf (count + 1) rest

/-- The last entry but one. -/
def secondaryPeer (t : PeerTable) : Option PeerMetric := secondOf 0 t.peers.toList.reverse

/-! ### Tables without gaps -/

/-- The entries, from the first slot on. -/
def entries (t : PeerTable) : List PeerMetric := t.peers.toList.reduceOption

/-- All empty slots come behind the entries. -/
def Compact (t : PeerTable) : Prop :=
  t.peers.toList =
    t.entries.map some ++ List.replicate (peerTableCapacity - t.entries.length) none

variable {t : PeerTable} {l : List PeerMetric}

/-- The slots of a compact table determine its entries. -/
theorem compact_of_toList {room : ℕ}
    (h : t.peers.toList = l.map some ++ List.replicate room none) :
    t.Compact ∧ t.entries = l ∧ l.length + room = peerTableCapacity := by
  have hentries : t.entries = l := by
    rw [entries, h, List.reduceOption_append, List.reduceOption_replicate_none, List.append_nil,
      List.reduceOption, List.filterMap_map]
    exact List.filterMap_some
  have hlength : l.length + room = peerTableCapacity := by
    have hcount := congrArg List.length h
    rw [Vector.length_toList, List.length_append, List.length_map, List.length_replicate] at hcount
    exact hcount.symm
  refine ⟨?_, hentries, hlength⟩
  rw [Compact, hentries, h, ← hlength, Nat.add_sub_cancel_left]

/-! ### The loops of recording -/

section Loops

variable {front back : List PeerMetric} {peer : PeerMetric} {nodeId : UInt32} {room : ℕ}

theorem matching_eq_none {slot : Option PeerMetric} {i : ℕ}
    (absent : ∀ peer ∈ slot, peer.nodeId ≠ nodeId) : matching nodeId (slot, i) = none := by
  cases slot with
  | none => rfl
  | some peer => exact if_neg (absent peer rfl)

theorem findExisting_eq_none (h : t.peers.toList = l.map some ++ List.replicate room none)
    (absent : ∀ peer ∈ l, peer.nodeId ≠ nodeId) : t.findExisting nodeId = none := by
  rw [findExisting, List.findSome?_eq_none_iff, h]
  rintro ⟨slot, i⟩ hmem
  apply matching_eq_none
  rintro peer rfl
  rcases List.mem_append.mp (List.fst_mem_of_mem_zipIdx hmem) with hpeer | hempty
  · exact absent peer (by simpa using hpeer)
  · cases List.eq_of_mem_replicate hempty

theorem findExisting_eq_some
    (h : t.peers.toList = (front ++ peer :: back).map some ++ List.replicate room none)
    (hpeer : peer.nodeId = nodeId) (absent : ∀ peer ∈ front, peer.nodeId ≠ nodeId) :
    t.findExisting nodeId = some (front.length, peer) := by
  have hfront : ((front.map some).zipIdx).findSome? (matching nodeId) = none := by
    rw [List.findSome?_eq_none_iff]
    rintro ⟨slot, i⟩ hmem
    obtain ⟨other, hother, rfl⟩ := List.mem_map.mp (List.fst_mem_of_mem_zipIdx hmem)
    exact if_neg (absent other hother)
  have hmatch : ∀ i, matching nodeId (some peer, i) = some (i, peer) := fun i => if_pos hpeer
  rw [findExisting, h, List.map_append, List.append_assoc, List.zipIdx_append,
    List.findSome?_append, hfront, Option.none_or, List.map_cons, List.cons_append,
    List.zipIdx_cons, List.findSome?_cons, hmatch, List.length_map, Nat.zero_add]

/-- Empty slots do not move the last one. -/
private theorem foldl_lastActive_none (room k lastIdx : ℕ) :
    ((List.replicate room (none : Option PeerMetric)).zipIdx k).foldl
      (fun lastIdx (x : Option PeerMetric × ℕ) => if x.1.isSome then x.2 else lastIdx) lastIdx =
        lastIdx := by
  induction room generalizing k with
  | zero => rfl
  | succ room ih => exact ih (k + 1)

private theorem foldl_lastActive (back : List PeerMetric) (room lastIdx : ℕ) :
    ((back.map some ++ List.replicate room none).zipIdx (lastIdx + 1)).foldl
      (fun lastIdx (x : Option PeerMetric × ℕ) => if x.1.isSome then x.2 else lastIdx) lastIdx =
        lastIdx + back.length := by
  induction back generalizing lastIdx with
  | nil => exact foldl_lastActive_none room (lastIdx + 1) lastIdx
  | cons peer back ih =>
    rw [List.length_cons, Nat.add_comm back.length, ← Nat.add_assoc]
    exact ih (lastIdx + 1)

/-- The last entry behind an entry of a compact table. -/
theorem lastActive_eq
    (h : t.peers.toList = (front ++ peer :: back).map some ++ List.replicate room none) :
    t.lastActive front.length = front.length + back.length := by
  have hsplit : t.peers.toList =
      (front.map some ++ [some peer]) ++ (back.map some ++ List.replicate room none) := by
    simp [h]
  have hlength : ((front.map some ++ [some peer]).zipIdx).length = front.length + 1 := by simp
  have hstart : 0 + (front.map some ++ [some peer]).length = front.length + 1 := by simp
  rw [lastActive, hsplit, List.zipIdx_append, List.drop_left' hlength, hstart]
  exact foldl_lastActive back room front.length

/-- Copying slots down leaves a slot to fill behind those that were copied. -/
private theorem foldl_shiftDown (front mid behind : List (Option PeerMetric))
    (x : Option PeerMetric) : ∃ y,
    (List.range' front.length mid.length).foldl (fun slots j => slots.set j slots[j + 1]?.join)
      (front ++ x :: mid ++ behind) = front ++ mid ++ y :: behind := by
  induction mid generalizing front x with
  | nil => exact ⟨x, by simp⟩
  | cons m mid ih =>
    -- One copy moves the gap on by a slot.
    have hstep : (front ++ x :: m :: mid ++ behind).set front.length
        ((front ++ x :: m :: mid ++ behind)[front.length + 1]?.join) =
          (front ++ [m]) ++ m :: mid ++ behind := by
      simp
    have hlength : (front ++ [m]).length = front.length + 1 := by simp
    obtain ⟨y, hy⟩ := ih (front ++ [m]) m
    refine ⟨y, ?_⟩
    rw [List.length_cons, List.range'_succ, List.foldl_cons, hstep, ← hlength, hy]
    simp

/-- Moving the slots behind a slot down and filling the last one. -/
theorem toList_shiftDown {front mid behind : List (Option PeerMetric)} {x : Option PeerMetric}
    {peers : Vector (Option PeerMetric) peerTableCapacity} (z : Option PeerMetric) {i lastIdx : ℕ}
    (h : peers.toList = front ++ x :: mid ++ behind) (hi : i = front.length)
    (hlast : lastIdx = front.length + mid.length) :
    ((shiftDown peers i lastIdx).setIfInBounds lastIdx z).toList = front ++ mid ++ z :: behind := by
  subst hi hlast
  have hlist : (shiftDown peers front.length (front.length + mid.length)).toList =
      (List.range' front.length mid.length).foldl (fun slots j => slots.set j slots[j + 1]?.join)
        peers.toList := by
    rw [shiftDown, Nat.add_sub_cancel_left]
    refine (List.foldl_hom Vector.toList fun peers j => ?_).symm
    rw [Vector.toList_setIfInBounds, Vector.getElem?_toList]
  obtain ⟨y, hy⟩ := foldl_shiftDown front mid behind x
  rw [Vector.toList_setIfInBounds, hlist, h, hy, ← List.length_append, List.set_append_right _ _
    (Nat.le_refl _), Nat.sub_self, List.set_cons_zero]

end Loops

/-! ### One record -/

section Records

variable {nodeId : UInt32} {rssi : Int8} {lqi : UInt8}

/-- What recording does to the entries. -/
inductive Recorded (l : List PeerMetric) (nodeId : UInt32) (rssi : Int8) (lqi : UInt8) :
    List PeerMetric → Prop
  | ignored (zero : nodeId = 0) : Recorded l nodeId rssi lqi l
  | promoted (front back : List PeerMetric) (peer : PeerMetric) (nonzero : nodeId ≠ 0)
      (split : l = front ++ peer :: back) (found : peer.nodeId = nodeId)
      (absent : ∀ peer ∈ front, peer.nodeId ≠ nodeId) :
      Recorded l nodeId rssi lqi (front ++ back ++ [peer.heardAgain rssi lqi])
  | added (nonzero : nodeId ≠ 0) (absent : ∀ peer ∈ l, peer.nodeId ≠ nodeId)
      (room : l.length < peerTableCapacity) :
      Recorded l nodeId rssi lqi (l ++ [.new nodeId rssi lqi])
  | replaced (nonzero : nodeId ≠ 0) (absent : ∀ peer ∈ l, peer.nodeId ≠ nodeId)
      (full : l.length = peerTableCapacity) :
      Recorded l nodeId rssi lqi (l.tail ++ [.new nodeId rssi lqi])

/-- The first free slot is the one behind the entries. -/
theorem findIdx?_isNone {room : ℕ}
    (h : t.peers.toList = l.map some ++ List.replicate room none) :
    t.peers.toList.findIdx? Option.isNone = if room = 0 then none else some l.length := by
  have hentries : (l.map some).findIdx? Option.isNone = none := by
    rw [List.findIdx?_eq_none_iff]
    intro slot hslot
    obtain ⟨peer, -, rfl⟩ := List.mem_map.mp hslot
    rfl
  rw [h, List.findIdx?_append, hentries, Option.none_or]
  cases room with
  | zero => rfl
  | succ room => simp [List.replicate_succ, List.findIdx?_cons]

/-- A peer that is there moves behind the other entries. -/
theorem toList_recordPeer_existing {front back : List PeerMetric} {peer : PeerMetric} {room : ℕ}
    (nonzero : nodeId ≠ 0)
    (h : t.peers.toList = (front ++ peer :: back).map some ++ List.replicate room none)
    (found : peer.nodeId = nodeId) (absent : ∀ peer ∈ front, peer.nodeId ≠ nodeId) :
    (t.recordPeer nodeId rssi lqi).peers.toList =
      (front ++ back ++ [peer.heardAgain rssi lqi]).map some ++ List.replicate room none := by
  have hslots : t.peers.toList =
      front.map some ++ some peer :: back.map some ++ List.replicate room none := by
    rw [h, List.map_append, List.map_cons]
  have hloop := toList_shiftDown (some (peer.heardAgain rssi lqi)) hslots
    (List.length_map _).symm rfl
  rw [List.length_map, List.length_map] at hloop
  rw [recordPeer, if_neg nonzero, findExisting_eq_some h found absent]
  simp only [lastActive_eq h, hloop, List.map_append, List.map_cons, List.map_nil,
    List.append_assoc, List.singleton_append]

/-- A new peer takes the first free slot. -/
theorem toList_recordPeer_room {room : ℕ} (nonzero : nodeId ≠ 0)
    (h : t.peers.toList = l.map some ++ List.replicate (room + 1) none)
    (absent : ∀ peer ∈ l, peer.nodeId ≠ nodeId) :
    (t.recordPeer nodeId rssi lqi).peers.toList =
      (l ++ [PeerMetric.new nodeId rssi lqi]).map some ++ List.replicate room none := by
  have hfree := findIdx?_isNone h
  rw [if_neg (Nat.succ_ne_zero room)] at hfree
  have hlength : (l.map some).length = l.length := List.length_map _
  rw [recordPeer, if_neg nonzero, findExisting_eq_none h absent, hfree]
  show (t.peers.setIfInBounds l.length _).toList = _
  rw [Vector.toList_setIfInBounds, h, ← hlength, List.set_append_right _ _ (Nat.le_refl _),
    Nat.sub_self, List.replicate_succ, List.set_cons_zero, List.map_append, List.append_assoc]
  rfl

/-- In a full table the first entry makes room for a new peer. -/
theorem toList_recordPeer_full {oldest : PeerMetric} {rest : List PeerMetric}
    (nonzero : nodeId ≠ 0) (h : t.peers.toList = (oldest :: rest).map some)
    (absent : ∀ peer ∈ oldest :: rest, peer.nodeId ≠ nodeId) :
    (t.recordPeer nodeId rssi lqi).peers.toList =
      (rest ++ [PeerMetric.new nodeId rssi lqi]).map some := by
  have hempty : t.peers.toList = (oldest :: rest).map some ++ List.replicate 0 none := by
    rw [h, List.replicate_zero, List.append_nil]
  have hslots : t.peers.toList = [] ++ some oldest :: rest.map some ++ [] := by
    rw [h, List.nil_append, List.append_nil, List.map_cons]
  have hlast : peerTableCapacity - 1 = ([] : List (Option PeerMetric)).length +
      (rest.map some).length := by
    have hcap := congrArg List.length h
    rw [Vector.length_toList, List.length_map, List.length_cons] at hcap
    rw [hcap, List.length_nil, List.length_map, Nat.add_sub_cancel, Nat.zero_add]
  rw [recordPeer, if_neg nonzero, findExisting_eq_none hempty absent, findIdx?_isNone hempty,
    if_pos rfl]
  show ((shiftDown t.peers 0 (peerTableCapacity - 1)).setIfInBounds (peerTableCapacity - 1)
    _).toList = _
  rw [toList_shiftDown _ hslots List.length_nil.symm hlast, List.nil_append, List.map_append]
  rfl

/-- **Step lemma.** Recording keeps a table compact and does to its entries one of the four
things. -/
theorem recordPeer_recorded (h : t.Compact) (nodeId : UInt32) (rssi : Int8) (lqi : UInt8) :
    (t.recordPeer nodeId rssi lqi).Compact ∧
      Recorded t.entries nodeId rssi lqi (t.recordPeer nodeId rssi lqi).entries := by
  have hslots : t.peers.toList = t.entries.map some ++
    List.replicate (peerTableCapacity - t.entries.length) none := h
  have hcap := (compact_of_toList hslots).2.2
  generalize peerTableCapacity - t.entries.length = room at hslots hcap
  by_cases hzero : nodeId = 0
  · rw [recordPeer, if_pos hzero]
    exact ⟨h, .ignored hzero⟩
  cases hfind : t.entries.find? fun peer => peer.nodeId = nodeId with
  | some peer =>
    obtain ⟨hfound, front, back, hsplit, hfront⟩ := List.find?_eq_some_iff_append.mp hfind
    have hpeer : peer.nodeId = nodeId := of_decide_eq_true hfound
    have habsent : ∀ peer ∈ front, peer.nodeId ≠ nodeId := by simpa using hfront
    rw [hsplit] at hslots
    obtain ⟨hcompact, hentries, -⟩ :=
      compact_of_toList (toList_recordPeer_existing hzero hslots hpeer habsent)
    rw [hentries]
    exact ⟨hcompact, .promoted front back peer hzero hsplit hpeer habsent⟩
  | none =>
    have habsent : ∀ peer ∈ t.entries, peer.nodeId ≠ nodeId := by simpa using hfind
    cases room with
    | succ room =>
      obtain ⟨hcompact, hentries, -⟩ :=
        compact_of_toList (toList_recordPeer_room hzero hslots habsent)
      rw [hentries]
      exact ⟨hcompact, .added hzero habsent (by omega)⟩
    | zero =>
      have hfull : t.entries.length = peerTableCapacity := hcap
      obtain ⟨oldest, rest, hsplit⟩ :=
        List.exists_cons_of_length_pos (hfull ▸ Nat.succ_pos 3 : 0 < t.entries.length)
      have hall : t.peers.toList = (oldest :: rest).map some := by
        rw [hslots, hsplit, List.replicate_zero, List.append_nil]
      have hresult : (t.recordPeer nodeId rssi lqi).peers.toList =
          (rest ++ [PeerMetric.new nodeId rssi lqi]).map some ++ List.replicate 0 none := by
        rw [List.replicate_zero, List.append_nil]
        exact toList_recordPeer_full hzero hall (hsplit ▸ habsent)
      have hreplaced :
          Recorded t.entries nodeId rssi lqi (t.entries.tail ++ [.new nodeId rssi lqi]) :=
        .replaced hzero habsent hfull
      rw [hsplit, List.tail_cons] at hreplaced
      obtain ⟨hcompact, hentries, -⟩ := compact_of_toList hresult
      rw [hentries, hsplit]
      exact ⟨hcompact, hreplaced⟩

end Records

end PeerTable

end Gibberish.Protocol
