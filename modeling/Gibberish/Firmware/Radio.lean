/-
# The radio transceiver

A dongle broadcasts a packet in a 127-byte physical frame: MAC header, mesh header,
payload, and room for the check sequence. The source address in the MAC header is
the tail of the transmitting dongle's MAC, whoever the packet comes from, and it is
what a receiver reports as the source node of a packet it hears.
-/

import Gibberish.Protocol.Frame

set_option autoImplicit false

namespace Gibberish.Firmware

open Gibberish.Foundation Gibberish.Protocol

/-- The node id of a dongle, from the last bytes of its MAC. -/
def nodeIdOf (localMac : Bytes 8) : UInt32 := u32FromBeBytes (localMac.slice 4 4)

/-- The MAC header of every frame a dongle sends. -/
def macHeader (localMac : Bytes 8) (frameSeq : UInt8) : List UInt8 :=
  -- Frame control, sequence number, broadcast PAN id and address.
  [0x41, 0x08, frameSeq, 0xFF, 0xFF, 0xFF, 0xFF] ++ localMac.slice 4 4

/-- Write a packet's physical frame. -/
def assemblePhyFrame (localMac : Bytes 8) (packet : MeshPacket) (frameSeq : UInt8)
    (out : Bytes phyMtu) : Bytes phyMtu :=
  let meshHdrBytes := packet.header.serialize (.zero meshHeaderLen)
  (((out.copyFromSlice 0 (macHeader localMac frameSeq)).copyFromSlice mhrLen
    meshHdrBytes.toList).copyFromSlice (mhrLen + meshHeaderLen) packet.payload.toList).copyFromSlice
    125 [0, 0]

/-- Read the packet from a physical frame whose network tag is admitted. -/
def parsePhyFrameWithValidator (frame : List UInt8) (tagValidator : UInt64 → Bool) :
    Option MeshPacket :=
  if frame.length < mhrLen + meshHeaderLen + ciphertextLen then none
  else
    let meshHdrBuf := (Bytes.zero meshHeaderLen).copyFromSlice 0
      ((frame.drop mhrLen).take meshHeaderLen)
    let header := MeshHeader.deserialize meshHdrBuf
    if tagValidator header.networkTag then
      some ⟨header, (Bytes.zero ciphertextLen).copyFromSlice 0
        ((frame.drop (mhrLen + meshHeaderLen)).take ciphertextLen)⟩
    else none

/-- Read a packet admitted under one expected tag. -/
def parsePhyFrame (frame : List UInt8) (expectedTag : UInt64) : Option MeshPacket :=
  parsePhyFrameWithValidator frame fun tag => tag = expectedTag

/-- Read a packet admitted under any known tag. -/
def parsePhyFrameSwarm (frame : List UInt8) : Option MeshPacket :=
  parsePhyFrameWithValidator frame isValidNetworkTag

/-- Signal strength in dBm as a link quality. -/
def rssiToLqi (rssi : Int8) : UInt8 :=
  if rssi < -80 then 0
  else if rssi > -30 then 255
  else
    -- `rssi as u32` extends the sign.
    let lqiConvert := (UInt32.ofInt rssi.toInt + 80) * 255
    (lqiConvert / 50).toUInt8

/-- A packet with the source address and link metrics of the frame it came in. -/
structure ReceivedMeshPacket where
  packet : MeshPacket
  srcNodeId : UInt32
  rssi : Int8
  lqi : UInt8
  deriving DecidableEq

/-- The transceiver's own state. -/
structure RadioManager where
  localMac : Bytes 8
  frameSeq : UInt8
  deriving DecidableEq

namespace RadioManager

def new (localMac : Bytes 8) : RadioManager := ⟨localMac, 0⟩

/-- The frame a packet is broadcast in, under the next sequence number. -/
def transmit (radio : RadioManager) (packet : MeshPacket) : Bytes phyMtu × RadioManager :=
  let radio := { radio with frameSeq := radio.frameSeq + 1 }
  (assemblePhyFrame radio.localMac packet radio.frameSeq (.zero phyMtu), radio)

/-- One frame as the radio delivers it, its length first: the packet it holds,
unless it is malformed or this node's own. -/
def receiveRaw (radio : RadioManager) (data : List UInt8) : Option ReceivedMeshPacket :=
  let len := (data.getD 0 0).toNat
  if len ≥ mhrLen + meshHeaderLen + ciphertextLen ∧ len < data.length then
    match parsePhyFrameSwarm ((data.drop 1).take len) with
    | none => none
    | some packet =>
      if (data.drop 8).take 4 = radio.localMac.slice 4 4 then none
      else
        let rssi := (data.getD (len - 1) 0).toInt8
        some ⟨packet, u32FromBeBytes ((data.drop 8).take 4), rssi, rssiToLqi rssi⟩
  else none

/-- Take frames off the radio's queue up to the first that holds a packet. -/
def pollRx (radio : RadioManager) :
    List (List UInt8) → Option ReceivedMeshPacket × List (List UInt8)
  | [] => (none, [])
  | data :: rest =>
    match radio.receiveRaw data with
    | none => pollRx radio rest
    | some rx => (some rx, rest)

end RadioManager

/-! ### What is read from an assembled frame -/

variable {localMac : Bytes 8} {packet : MeshPacket} {frameSeq : UInt8} {out : Bytes phyMtu}

@[simp] theorem length_macHeader (localMac : Bytes 8) (frameSeq : UInt8) :
    (macHeader localMac frameSeq).length = mhrLen := by
  simp [macHeader, Bytes.slice]

theorem macHeader_assemblePhyFrame :
    (assemblePhyFrame localMac packet frameSeq out).slice 0 mhrLen =
      macHeader localMac frameSeq := by
  simp only [assemblePhyFrame]
  iterate 3 rw [Bytes.slice_copyFromSlice_of_disjoint _ (Or.inl (by decide))]
  exact Bytes.slice_copyFromSlice _ (by simp) (by decide)

theorem meshHeader_assemblePhyFrame :
    (assemblePhyFrame localMac packet frameSeq out).slice mhrLen meshHeaderLen =
      (packet.header.serialize (.zero meshHeaderLen)).toList := by
  simp only [assemblePhyFrame]
  iterate 2 rw [Bytes.slice_copyFromSlice_of_disjoint _ (Or.inl (by decide))]
  exact Bytes.slice_copyFromSlice _ (by simp) (by decide)

theorem payload_assemblePhyFrame :
    (assemblePhyFrame localMac packet frameSeq out).slice (mhrLen + meshHeaderLen) ciphertextLen =
      packet.payload.toList := by
  simp only [assemblePhyFrame]
  rw [Bytes.slice_copyFromSlice_of_disjoint _ (Or.inl (by decide))]
  exact Bytes.slice_copyFromSlice _ (by simp) (by decide)

/-- Lists that agree on a prefix agree on every part of it. -/
private theorem take_drop_of_take_eq {l l' : List UInt8} {n off len : ℕ} (h : l.take n = l'.take n)
    (hle : off + len ≤ n) : (l.drop off).take len = (l'.drop off).take len := by
  have hpart : ∀ l : List UInt8, (l.drop off).take len = ((l.take n).drop off).take len := by
    intro l
    rw [List.drop_take, List.take_take, Nat.min_eq_left (by omega)]
  rw [hpart l, h, ← hpart l']

/-- A frame that agrees with a sent one up to the check sequence. -/
def StartsLike (frame : List UInt8) (sent : Bytes phyMtu) : Prop :=
  frame.take 125 = sent.slice 0 125

theorem StartsLike.part {frame : List UInt8} {sent : Bytes phyMtu} (h : StartsLike frame sent)
    {off len : ℕ} (hle : off + len ≤ 125) : (frame.drop off).take len = sent.slice off len :=
  take_drop_of_take_eq h hle

/-- The source address of a frame is the tail of the transmitter's MAC. -/
theorem sourceAddress_of_startsLike {frame : List UInt8}
    (h : StartsLike frame (assemblePhyFrame localMac packet frameSeq out)) :
    (frame.drop 7).take 4 = localMac.slice 4 4 := by
  have hheader : frame.take mhrLen = macHeader localMac frameSeq := by
    rw [← List.drop_zero (l := frame), ← macHeader_assemblePhyFrame]
    exact h.part (by decide)
  have hdrop : (frame.take mhrLen).drop 7 = (frame.drop 7).take (mhrLen - 7) := List.drop_take
  rw [hheader, macHeader] at hdrop
  exact hdrop.symm

/-- Whatever stands for the check sequence, the packet is read back. -/
theorem parsePhyFrameSwarm_of_startsLike (validTag : isValidNetworkTag packet.header.networkTag)
    {frame : List UInt8}
    (h : StartsLike frame (assemblePhyFrame localMac packet frameSeq out)) :
    parsePhyFrameSwarm frame = some packet := by
  -- What starts like a sent frame has all 125 bytes of header and payload.
  have hlen : ¬ frame.length < mhrLen + meshHeaderLen + ciphertextLen := by
    have hcount := congrArg List.length h
    simp only [Bytes.slice, List.length_take, List.length_drop, Bytes.toList_length] at hcount
    have hmtu : phyMtu = 127 := rfl
    show ¬ frame.length < 125
    omega
  have hheader : (frame.drop mhrLen).take meshHeaderLen = _ := h.part (by decide)
  have hpayload : (frame.drop (mhrLen + meshHeaderLen)).take ciphertextLen = _ :=
    h.part (by decide)
  rw [meshHeader_assemblePhyFrame] at hheader
  rw [payload_assemblePhyFrame] at hpayload
  simp only [parsePhyFrameSwarm, parsePhyFrameWithValidator, if_neg hlen, hheader, hpayload,
    Bytes.copyFromSlice_toList, MeshHeader.deserialize_serialize, validTag, if_true]

/-- What a radio delivers for a frame on the air: a length byte, then the frame, with
anything in place of the check sequence. -/
structure Hears (data : List UInt8) (sent : Bytes phyMtu) : Prop where
  covers : 125 ≤ (data.getD 0 0).toNat
  within : (data.getD 0 0).toNat < data.length
  startsLike : StartsLike (data.drop 1) sent

/-- The signal strength found behind a frame. -/
def rssiOf (data : List UInt8) : Int8 := (data.getD ((data.getD 0 0).toNat - 1) 0).toInt8

/-- **Reception.** A frame heard from a dongle yields its packet and, as source, that
dongle's node id, unless the dongle's MAC ends like the receiver's own. -/
theorem receiveRaw_of_hears (radio : RadioManager) {data : List UInt8}
    (validTag : isValidNetworkTag packet.header.networkTag)
    (heard : Hears data (assemblePhyFrame localMac packet frameSeq out)) :
    radio.receiveRaw data =
      if localMac.slice 4 4 = radio.localMac.slice 4 4 then none
      else some ⟨packet, nodeIdOf localMac, rssiOf data, rssiToLqi (rssiOf data)⟩ := by
  have hlen : (data.getD 0 0).toNat ≥ mhrLen + meshHeaderLen + ciphertextLen ∧
      (data.getD 0 0).toNat < data.length := ⟨heard.covers, heard.within⟩
  have hpsdu : StartsLike ((data.drop 1).take (data.getD 0 0).toNat)
      (assemblePhyFrame localMac packet frameSeq out) := by
    rw [StartsLike, List.take_take, Nat.min_eq_left heard.covers]
    exact heard.startsLike
  -- The source address is read behind the length byte.
  have hsource : (data.drop 8).take 4 = localMac.slice 4 4 := by
    have h := sourceAddress_of_startsLike heard.startsLike
    rwa [List.drop_drop] at h
  simp only [RadioManager.receiveRaw, if_pos hlen, parsePhyFrameSwarm_of_startsLike validTag hpsdu,
    hsource]
  rfl

end Gibberish.Firmware
