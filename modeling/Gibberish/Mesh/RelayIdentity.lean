/-
# Packets that come over relays

A relay parses the frame it heard, takes one hop off the packet and broadcasts it in
a frame of its own. Message id, chunk index and payload stay, so the chunk would
still open under its sender's subkey. The source address does not stay: every relay
writes its own. The receiver derives the subkey from the source address, so it opens
the packet exactly when the last transmitter has the sender's node id.
-/

import Gibberish.Daemon.ChunkEngine
import Gibberish.Firmware.Radio

set_option autoImplicit false

namespace Gibberish.Mesh

open Gibberish.Foundation Gibberish.Protocol Gibberish.Crypto Gibberish.Firmware Gibberish.Daemon

/-- One hop: parse, take the hop, broadcast. -/
def relay (radio : RadioManager) (frame : Bytes phyMtu) : Option (Bytes phyMtu) :=
  match parsePhyFrameSwarm (frame.slice 0 125) with
  | none => none
  | some packet =>
    match packet.decrementTtl with
    | none => none
    | some packet => some (radio.transmit packet).1

/-- A frame after a chain of relays, if every one of them passes it on. -/
def relayed (frame : Bytes phyMtu) : List RadioManager → Option (Bytes phyMtu)
  | [] => some frame
  | radio :: rest =>
    match relay radio frame with
    | none => none
    | some frame => relayed frame rest

/-- The dongle that broadcast last. -/
def lastTransmitter (origin : RadioManager) (relays : List RadioManager) : RadioManager :=
  relays.getLastD origin

/-! ### What a hop keeps -/

/-- The packets differ in their hops only. -/
def SameSeal (packet packet' : MeshPacket) : Prop :=
  packet' = { packet with
    header := { packet.header with
      ttl := packet'.header.ttl
      hopCount := packet'.header.hopCount } }

theorem SameSeal.refl (packet : MeshPacket) : SameSeal packet packet := rfl

theorem SameSeal.trans {packet packet' packet'' : MeshPacket} (h : SameSeal packet packet')
    (h' : SameSeal packet' packet'') : SameSeal packet packet'' := by
  rw [SameSeal, h', h]

theorem SameSeal.networkTag_eq {packet packet' : MeshPacket} (h : SameSeal packet packet') :
    packet'.header.networkTag = packet.header.networkTag := by
  rw [h]

/-- Taking a hop lowers the TTL by one and keeps the rest. -/
theorem decrementTtl_of_pos {packet : MeshPacket} (h : 0 < packet.header.ttl.toNat) :
    ∃ packet', packet.decrementTtl = some packet' ∧ SameSeal packet packet' ∧
      packet'.header.ttl.toNat + 1 = packet.header.ttl.toNat := by
  have hpos : packet.header.ttl > 0 := UInt8.lt_iff_toNat_lt.mpr h
  have hle : (1 : UInt8) ≤ packet.header.ttl := UInt8.le_iff_toNat_le.mpr h
  refine ⟨_, if_pos hpos, rfl, ?_⟩
  show (packet.header.ttl - 1).toNat + 1 = packet.header.ttl.toNat
  rw [UInt8.toNat_sub_of_le _ _ hle]
  exact Nat.sub_add_cancel h

/-- A frame on the air: some dongle's broadcast of a packet. -/
def Broadcast (radio : RadioManager) (packet : MeshPacket) (frame : Bytes phyMtu) : Prop :=
  frame = (radio.transmit packet).1

/-- A relay passes on a packet that has hops left, under its own address. -/
theorem relay_broadcast (radio : RadioManager) {origin : RadioManager} {packet : MeshPacket}
    {frame : Bytes phyMtu}
    (broadcast : Broadcast origin packet frame)
    (validTag : isValidNetworkTag packet.header.networkTag) (hops : 0 < packet.header.ttl.toNat) :
    ∃ frame' packet', relay radio frame = some frame' ∧ Broadcast radio packet' frame' ∧
      SameSeal packet packet' ∧ packet'.header.ttl.toNat + 1 = packet.header.ttl.toNat := by
  obtain ⟨packet', hdecrement, hseal, httl⟩ := decrementTtl_of_pos hops
  -- The relay parses all but the check sequence, which is all of the packet.
  have hparse : parsePhyFrameSwarm (frame.slice 0 125) = some packet := by
    have hstarts : StartsLike (frame.slice 0 125) (origin.transmit packet).1 := by
      rw [broadcast, StartsLike, Bytes.slice, List.take_take, Nat.min_self]
    exact parsePhyFrameSwarm_of_startsLike validTag hstarts
  exact ⟨_, packet', by simp only [relay, hparse, hdecrement], rfl, hseal, httl⟩

/-- After a chain no longer than the TTL, the last relay broadcasts the packet with
its seal intact. -/
theorem relayed_broadcast {origin : RadioManager} {packet : MeshPacket} {frame : Bytes phyMtu}
    (broadcast : Broadcast origin packet frame)
    (validTag : isValidNetworkTag packet.header.networkTag) {relays : List RadioManager}
    (hops : relays.length ≤ packet.header.ttl.toNat) :
    ∃ frame' packet', relayed frame relays = some frame' ∧
      Broadcast (lastTransmitter origin relays) packet' frame' ∧ SameSeal packet packet' := by
  induction relays generalizing origin packet frame with
  | nil => exact ⟨frame, packet, rfl, broadcast, SameSeal.refl packet⟩
  | cons radio rest ih =>
    -- Each relay takes one hop, so the rest of the chain has as many as it needs.
    rw [List.length_cons] at hops
    obtain ⟨frame₁, packet₁, hrelay, hbroadcast, hseal, httl⟩ :=
      relay_broadcast radio broadcast validTag (by omega)
    obtain ⟨frame', packet', hrelayed, hlast, hseal'⟩ :=
      ih hbroadcast (hseal.networkTag_eq ▸ validTag) (by omega)
    refine ⟨frame', packet', by simp only [relayed, hrelay, hrelayed], ?_, hseal.trans hseal'⟩
    rwa [lastTransmitter, List.getLastD_cons]

/-! ### What the receiver makes of it -/

variable {P : Primitives} {swarmMasterKey : Bytes 32}

/-- Opening a packet does not look at its hops. -/
theorem SameSeal.opensTo_eq {packet packet' : MeshPacket} (h : SameSeal packet packet')
    (srcNodeId : UInt32) :
    ChunkEngine.opensTo P swarmMasterKey srcNodeId packet' =
      ChunkEngine.opensTo P swarmMasterKey srcNodeId packet := by
  rw [ChunkEngine.opensTo, h, ChunkEngine.opensTo]

/-- Whether the engine may reject a packet as forged, in some state, at some time. -/
def NeverRejected (P : Primitives) (swarmMasterKey : Bytes 32) (srcNodeId : UInt32)
    (packet : MeshPacket) : Prop :=
  ∀ (e e' : ChunkEngine) (clock : IngestClock) (order : InFlightOrder),
    e.ingestPacket P clock order srcNodeId packet swarmMasterKey ≠
      some (.error .authenticationFailed, e')

/-- A packet with proper counts is never rejected iff it opens. -/
theorem neverRejected_iff {srcNodeId : UInt32} {packet : MeshPacket}
    (counts : packet.header.chunkIdx < packet.header.totalChunks) :
    NeverRejected P swarmMasterKey srcNodeId packet ↔
      ∃ chunk, ChunkEngine.opensTo P swarmMasterKey srcNodeId packet = .ok chunk := by
  constructor
  · intro never
    -- An engine that has completed nothing does look at the payload.
    have hnew := never .new
    have hcases := ChunkEngine.ingested P .new ⟨0, 0⟩ (.stored _) srcNodeId packet swarmMasterKey
    generalize hresult : ChunkEngine.ingestPacket P .new ⟨0, 0⟩ (.stored _) srcNodeId packet
      swarmMasterKey = result at hcases
    cases hcases with
    | malformed hcounts => exact absurd counts (UInt8.not_lt.mpr hcounts)
    | duplicate _ done => exact absurd done (AList.notMem_empty _)
    | rejected err _ _ sealed_ =>
      obtain rfl := Primitives.decryptChunk_error sealed_
      exact absurd hresult (hnew _ _ _)
    | overrun chunk _ _ opens => exact ⟨chunk, opens⟩
    | stored chunk _ _ _ opens => exact ⟨chunk, opens⟩
    | completed chunk _ _ _ opens => exact ⟨chunk, opens⟩
  -- Only a payload that does not open is rejected as forged.
  · rintro ⟨chunk, opens⟩ e e' clock order hrejected
    have hcases := ChunkEngine.ingested P e clock order srcNodeId packet swarmMasterKey
    rw [hrejected] at hcases
    generalize hresult : (some (Except.error CryptoError.authenticationFailed, e') :
      Option (Except CryptoError (Option String) × ChunkEngine)) = result at hcases
    cases hcases with
    | rejected err _ _ sealed_ =>
      rw [opens] at sealed_
      cases sealed_
    | _ => simp at hresult

/-- A packet of a text has proper counts and opens under its sender's node id alone. -/
theorem opens_iff_of_sent (correct : P.DecryptsEncrypted)
    (only : P.OpensOnlyAsEncrypted swarmMasterKey)
    (distinct : Function.Injective (P.deriveSenderSubkey swarmMasterKey))
    {text : String} {swarmTag : UInt64} {localNodeId : UInt32} {mgr : NonceManager}
    {io : IoOutcome} {file : StateFile} {packets : List MeshPacket} {packet : MeshPacket}
    (sent : (fragmentAndEncrypt P text swarmTag localNodeId swarmMasterKey mgr io file).1 =
      .ok packets) (mem : packet ∈ packets) :
    packet.header.networkTag = swarmTag ∧ packet.header.chunkIdx < packet.header.totalChunks ∧
      ∀ srcNodeId, (∃ chunk, ChunkEngine.opensTo P swarmMasterKey srcNodeId packet = .ok chunk) ↔
        srcNodeId = localNodeId := by
  obtain ⟨i, hidx, hheader, hencrypt⟩ := exists_carriesChunk sent mem
  refine ⟨by rw [hheader]; rfl, ?_, fun srcNodeId => ?_⟩
  · rw [hheader, UInt8.lt_iff_toNat_lt]
    have hbyte : (UInt8.ofNat i).toNat = i := Nat.mod_eq_of_lt (hidx.trans (UInt8.toNat_lt _))
    exact hbyte.symm ▸ hidx
  · rw [ChunkEngine.opensTo, hheader]
    constructor
    · rintro ⟨chunk, opens⟩
      exact distinct (Primitives.subkey_of_decryptChunk only hencrypt opens)
    · rintro rfl
      exact ⟨_, Primitives.decryptChunk_of_encryptChunk correct hencrypt⟩

/-- **Relayed packets.** A packet of a text, broadcast and passed on by a chain of
relays within its TTL, reaches a receiver that hears the last frame. It is never
rejected as forged iff the last transmitter has the node id the text was sent under. -/
theorem relayed_decryptable_iff (correct : P.DecryptsEncrypted)
    (only : P.OpensOnlyAsEncrypted swarmMasterKey)
    (distinct : Function.Injective (P.deriveSenderSubkey swarmMasterKey))
    {text : String} {swarmTag : UInt64} {localNodeId : UInt32} {mgr : NonceManager}
    {io : IoOutcome} {file : StateFile} {packets : List MeshPacket} {packet : MeshPacket}
    (sent : (fragmentAndEncrypt P text swarmTag localNodeId swarmMasterKey mgr io file).1 =
      .ok packets) (mem : packet ∈ packets) (validTag : isValidNetworkTag swarmTag)
    (origin : RadioManager) (relays : List RadioManager)
    (hops : relays.length ≤ packet.header.ttl.toNat) :
    ∃ frame, relayed (origin.transmit packet).1 relays = some frame ∧
      ∀ (receiver : RadioManager) (data : List UInt8) (rx : ReceivedMeshPacket),
        Hears data frame → receiver.receiveRaw data = some rx →
          (NeverRejected P swarmMasterKey rx.srcNodeId rx.packet ↔
            nodeIdOf (lastTransmitter origin relays).localMac = localNodeId) := by
  obtain ⟨htag, hcounts, hopens⟩ := opens_iff_of_sent correct only distinct sent mem
  have hvalid : isValidNetworkTag packet.header.networkTag := htag ▸ validTag
  obtain ⟨frame, packet', hrelayed, hlast, hseal⟩ :=
    relayed_broadcast (rfl : Broadcast origin packet _) hvalid hops
  refine ⟨frame, hrelayed, fun receiver data rx heard received => ?_⟩
  rw [hlast] at heard
  rw [receiveRaw_of_hears receiver (hseal.networkTag_eq ▸ hvalid) heard] at received
  split at received
  · cases received
  · obtain rfl := Option.some.inj received
    have hcounts' : packet'.header.chunkIdx < packet'.header.totalChunks := by
      rw [hseal]
      exact hcounts
    rw [neverRejected_iff hcounts']
    simp only [hseal.opensTo_eq]
    exact hopens _

/-- The dongle whose MAC ends in a given byte. -/
def dongleWithTail (tail : UInt8) : RadioManager :=
  .new ((Bytes.zero 8).copyFromSlice 7 [tail])

/-- A frame as a radio delivers it, the check sequence left in place. -/
def delivered (frame : Bytes phyMtu) : List UInt8 := 127 :: frame.toList

theorem hears_delivered (frame : Bytes phyMtu) : Hears (delivered frame) frame where
  covers := (by decide : 125 ≤ (127 : UInt8).toNat)
  within := by
    have hlen : (delivered frame).length = 128 := congrArg Nat.succ (Bytes.toList_length frame)
    rw [hlen]
    exact (by decide : (127 : UInt8).toNat < 128)
  startsLike := by
    rw [StartsLike, Bytes.slice]
    rfl

/-- What dongle 9 hears of the first packet of a text of node 7 after some relays. -/
def heardBy9 (relays : List RadioManager) : Option ReceivedMeshPacket :=
  match transparentPackets "a" 7 with
  | [] => none
  | packet :: _ =>
    match relayed ((dongleWithTail 7).transmit packet).1 relays with
    | none => none
    | some frame => (dongleWithTail 9).receiveRaw (delivered frame)

/-- Heard directly, the packet is never rejected. -/
theorem relayed_decryptable_direct :
    ∃ rx, heardBy9 [] = some rx ∧ NeverRejected transparent (.zero 32) rx.srcNodeId rx.packet := by
  have hsent : (fragmentAndEncrypt transparent "a" defaultNetworkTag 7 (.zero 32) ⟨1, 0, 1000⟩ .ok
      .missing).1 = .ok (transparentPackets "a" 7) := by
    decide +kernel
  obtain ⟨rx, hrx⟩ : ∃ rx, heardBy9 [] = some rx :=
    Option.isSome_iff_exists.mp (by decide +kernel)
  obtain ⟨packet, rest, hpackets⟩ : ∃ packet rest, transparentPackets "a" 7 = packet :: rest :=
    List.exists_cons_of_ne_nil (by decide +kernel)
  obtain ⟨frame, hrelayed, hheard⟩ := relayed_decryptable_iff transparent_decryptsEncrypted
    (transparent_opensOnlyAsEncrypted _) (transparent_subkey_injective _) hsent
    (hpackets ▸ List.mem_cons_self) (by decide) (dongleWithTail 7) [] (Nat.zero_le _)
  have hreceived : (dongleWithTail 9).receiveRaw (delivered frame) = some rx := by
    simpa only [heardBy9, hpackets, hrelayed] using hrx
  exact ⟨rx, hrx, (hheard _ _ rx (hears_delivered frame) hreceived).mpr (by decide)⟩

/-- Heard over one relay, it is rejected by a fresh engine. -/
theorem not_relayed_decryptable_oneRelay :
    ([dongleWithTail 7, dongleWithTail 8, dongleWithTail 9].map RadioManager.localMac).Nodup ∧
    ∃ rx, heardBy9 [dongleWithTail 8] = some rx ∧
      (ChunkEngine.new.ingestPacket transparent ⟨0, 0⟩ (.stored _) rx.srcNodeId rx.packet
        (.zero 32)).map Prod.fst = some (.error .authenticationFailed) := by
  refine ⟨by decide, ?_⟩
  have hrejected : (heardBy9 [dongleWithTail 8]).map (fun rx =>
      (ChunkEngine.new.ingestPacket transparent ⟨0, 0⟩ (.stored _) rx.srcNodeId rx.packet
        (.zero 32)).map Prod.fst) = some (some (.error .authenticationFailed)) := by
    decide +kernel
  exact Option.map_eq_some_iff.mp hrejected

end Gibberish.Mesh
