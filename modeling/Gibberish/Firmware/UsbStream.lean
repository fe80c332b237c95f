/-
# The USB receiver on any stream

Whatever bytes arrive, the receiver takes the packets that a search for the frame header
takes. What it has read and not yet used up is the start of a header, or a header and the
start of a packet: these bytes, put before the bytes to come, are the stream that is still
to be searched.
-/

import Gibberish.Daemon.Transport
import Gibberish.Firmware.UsbReceiver
import Gibberish.Foundation.Framing

set_option autoImplicit false

namespace Gibberish.Firmware

open Gibberish.Foundation Gibberish.Protocol Gibberish.Daemon

namespace UsbReceiver

/-- The frames from the host. -/
def format : FrameFormat UInt8 := ⟨0xAA, [0x55, 0x72], by decide, MeshPacket.wirePayloadLen⟩

/-- The bytes that are read and not yet used up. -/
def pending (usb : UsbReceiver) : List UInt8 :=
  match usb.rxState with
  | .sync0 => []
  | .sync1 => [0xAA]
  | .length => [0xAA, 0x55]
  | .payload => format.header ++ usb.pktBuf.toList.take usb.pktIdx

/-! ### One byte -/

section Search

variable {b : UInt8} {rest : List UInt8}

/-- A byte other than the first sync byte starts no frame. -/
theorem extract_cons_of_ne (h : b ≠ 0xAA) : format.extract (b :: rest) = format.extract rest :=
  FrameFormat.extract_cons fun hfront => h (List.cons_prefix_cons.mp hfront).1.symm

theorem extract_sync1_of_ne (h : b ≠ 0x55) :
    format.extract (0xAA :: b :: rest) = format.extract (b :: rest) := by
  refine FrameFormat.extract_cons fun hfront => ?_
  have htail := (List.cons_prefix_cons.mp hfront).2
  exact h (List.cons_prefix_cons.mp htail).1.symm

theorem extract_length_of_ne (h : b ≠ 0x72) :
    format.extract (0xAA :: 0x55 :: b :: rest) = format.extract (b :: rest) := by
  have hsync : ¬ format.header <+: 0xAA :: 0x55 :: b :: rest := by
    intro hfront
    have htail := (List.cons_prefix_cons.mp (List.cons_prefix_cons.mp hfront).2).2
    exact h (List.cons_prefix_cons.mp htail).1.symm
  rw [FrameFormat.extract_cons hsync, extract_cons_of_ne (by decide)]

end Search

/-- What is pending is less than a frame. -/
theorem extract_pending (usb : UsbReceiver) : format.extract usb.pending = [] := by
  apply FrameFormat.extract_eq_nil_of_length
  have hidx := usb.pktIdx.isLt
  unfold pending
  split
  · decide
  · decide
  · decide
  · rw [List.length_append, List.length_take, Bytes.toList_length]
    show _ < _ + MeshPacket.wirePayloadLen
    omega

/-- The buffer up to and with the byte just written. -/
theorem take_set (buf : Bytes MeshPacket.wirePayloadLen) (i : Fin MeshPacket.wirePayloadLen)
    (b : UInt8) :
    (buf.set i b i.isLt).toList.take (i.val + 1) = buf.toList.take i.val ++ [b] := by
  rw [Vector.toList_set, List.take_add_one, List.take_set_of_le (Nat.le_refl _)]
  simp

/-- **One byte.** Reading a byte completes what the search takes from the pending bytes
and this one, and leaves the rest pending. -/
theorem extract_readByte (usb : UsbReceiver) (b : UInt8) (rest : List UInt8) :
    format.extract (usb.pending ++ b :: rest) =
      (usb.readByte b).2.toList.map Vector.toList ++
        format.extract ((usb.readByte b).1.pending ++ rest) := by
  cases hstate : usb.rxState with
  | sync0 =>
    by_cases hb : b = 0xAA
    · simp [readByte, pending, hstate, hb]
    · simpa [readByte, pending, hstate, hb] using extract_cons_of_ne hb
  | sync1 =>
    by_cases hlen : b = 0x55
    · simp [readByte, pending, hstate, hlen]
    · by_cases hb : b = 0xAA
      · -- Of two first sync bytes the second may start a frame.
        simpa [readByte, pending, hstate, hlen, hb] using extract_sync1_of_ne hlen
      · simpa [readByte, pending, hstate, hlen, hb] using
          (extract_sync1_of_ne hlen).trans (extract_cons_of_ne hb)
  | length =>
    by_cases hpay : b = 0x72
    · simp [readByte, pending, hstate, hpay, format, FrameFormat.header]
    · by_cases hb : b = 0xAA
      · simpa [readByte, pending, hstate, hpay, hb] using extract_length_of_ne hpay
      · simpa [readByte, pending, hstate, hpay, hb] using
          (extract_length_of_ne hpay).trans (extract_cons_of_ne hb)
  | payload =>
    have hpending : usb.pending ++ b :: rest =
        format.header ++ (usb.pktBuf.set usb.pktIdx b).toList.take (usb.pktIdx.val + 1) ++ rest := by
      rw [take_set]
      simp [pending, hstate]
    rw [hpending]
    by_cases hmore : usb.pktIdx.val + 1 < MeshPacket.wirePayloadLen
    · have hread : usb.readByte b = (⟨.payload, usb.pktBuf.set usb.pktIdx b,
          ⟨usb.pktIdx.val + 1, hmore⟩⟩, none) := by
        simp only [readByte, hstate, dif_pos hmore]
      rw [hread]
      rfl
    · -- The last byte completes the packet.
      have hread : usb.readByte b = (⟨.sync0, usb.pktBuf.set usb.pktIdx b, 0⟩,
          some (usb.pktBuf.set usb.pktIdx b)) := by
        simp only [readByte, hstate, dif_neg hmore]
      have hwhole : (usb.pktBuf.set usb.pktIdx b).toList.length ≤ usb.pktIdx.val + 1 := by
        rw [Bytes.toList_length]
        omega
      rw [hread, List.take_of_length_le hwhole]
      exact FrameFormat.extract_frame (Bytes.toList_length _) rest

/-! ### Any stream -/

/-- **The parser is the search.** From any state, the buffers completed are those that the
search takes from the pending bytes and the stream. -/
theorem outputs_eq_extract (usb : UsbReceiver) (stream : List UInt8) :
    (machine.outputs usb stream).map Vector.toList = format.extract (usb.pending ++ stream) := by
  induction stream generalizing usb with
  | nil => rw [List.append_nil, extract_pending]; rfl
  | cons b rest ih =>
    rw [extract_readByte, Machine.outputs_cons, List.map_append, ih]
    rfl

/-- Between frames nothing is pending. -/
theorem outputs_eq_extract_of_waiting {usb : UsbReceiver} (waiting : usb.rxState = .sync0)
    (stream : List UInt8) :
    (machine.outputs usb stream).map Vector.toList = format.extract stream := by
  have hpending : usb.pending = [] := by rw [pending, waiting]
  rw [outputs_eq_extract, hpending, List.nil_append]

/-- Buffers are the same when their bytes are. -/
theorem map_toList_injective {n : ℕ} :
    Function.Injective (List.map (Vector.toList (α := UInt8) (n := n))) :=
  List.map_injective_iff.mpr fun _ _ => Vector.toList_inj.mp

/-- Frames of packets, as the search sees them. -/
theorem flatMap_frame (wires : List (Bytes MeshPacket.wirePayloadLen)) :
    wires.flatMap frame = (wires.map Vector.toList).flatMap format.frame := by
  rw [List.flatMap_map]
  rfl

theorem length_of_mem_map {wires : List (Bytes MeshPacket.wirePayloadLen)} :
    ∀ items ∈ wires.map Vector.toList, items.length = format.size := by
  intro items hitems
  obtain ⟨wire, -, rfl⟩ := List.mem_map.mp hitems
  exact Bytes.toList_length wire

/-- **Exact on every stream.** A receiver that waits for a frame completes the buffers that
a search finds: leftmost header first, 114 bytes behind it, and on from there. Behind noise
without a header, whatever its end, it takes every frame. -/
theorem usb_parser_exact {usb : UsbReceiver} (waiting : usb.rxState = .sync0) :
    (∀ stream, (machine.outputs usb stream).map Vector.toList = format.extract stream) ∧
      ∀ noise wires, ¬ hostToDongleFrameHeader <:+: noise →
        machine.outputs usb (noise ++ wires.flatMap frame) = wires := by
  refine ⟨outputs_eq_extract_of_waiting waiting, fun noise wires absent => ?_⟩
  apply map_toList_injective
  rw [outputs_eq_extract_of_waiting waiting, flatMap_frame]
  exact FrameFormat.extract_noise_frames (f := format) absent length_of_mem_map

theorem usb_parser_exact_new :
    (∀ stream, (machine.outputs new stream).map Vector.toList = format.extract stream) ∧
      ∀ noise wires, ¬ hostToDongleFrameHeader <:+: noise →
        machine.outputs new (noise ++ wires.flatMap frame) = wires :=
  usb_parser_exact rfl

/-! ### A damaged frame -/

/-- What the daemon sends for some packets, frame by frame. -/
def sentFrames (packets : List MeshPacket) : List (List UInt8) :=
  packets.map fun packet => (sendPacket packet).toList

/-- The packets as the receiver takes them. -/
def wires (packets : List MeshPacket) : List (Bytes MeshPacket.wirePayloadLen) :=
  packets.map fun packet => packet.serializePayload (.zero _)

theorem wires_tail (packets : List MeshPacket) : wires packets.tail = (wires packets).tail :=
  List.map_tail

theorem sentFrames_eq (packets : List MeshPacket) :
    sentFrames packets = ((wires packets).map Vector.toList).map format.frame := by
  rw [sentFrames, wires, List.map_map, List.map_map]
  exact List.map_congr_left fun packet _ => toList_sendPacket packet

/-- **Back in step.** Between other frames, one frame loses some of its bytes. Unless a
header stands where no frame starts, the receiver takes every other packet, or all but the
one behind the damaged frame with one spurious buffer in its place. -/
theorem usb_link_resynchronises {usb : UsbReceiver} (waiting : usb.rxState = .sync0)
    {before after : List MeshPacket} {damaged : MeshPacket} {front lost back : List UInt8}
    (sent : (sendPacket damaged).toList = front ++ lost ++ back) (loss : lost ≠ [])
    (starts : format.OnlyAtStarts (sentFrames before ++ (front ++ back) :: sentFrames after)) :
    machine.outputs usb (sentFrames before ++ (front ++ back) :: sentFrames after).flatten =
        wires before ++ wires after ∨
      ∃ spurious, machine.outputs usb
          (sentFrames before ++ (front ++ back) :: sentFrames after).flatten =
        wires before ++ spurious :: wires after.tail := by
  have hshort : (front ++ back).length < format.header.length + format.size := by
    have hlen := congrArg List.length sent
    have hlost := List.length_pos_iff.mpr loss
    rw [Bytes.toList_length] at hlen
    simp only [List.length_append] at hlen ⊢
    have htotal : hostToDongleTotalLen = format.header.length + format.size := rfl
    omega
  have hstream : (sentFrames before ++ (front ++ back) :: sentFrames after).flatten =
      ((wires before).map Vector.toList).flatMap format.frame ++
        ((front ++ back) ++ ((wires after).map Vector.toList).flatMap format.frame) := by
    rw [List.flatten_append, List.flatten_cons, sentFrames_eq, sentFrames_eq,
      List.flatMap_def, List.flatMap_def]
  have hafter := starts.of_append
  rw [sentFrames_eq after] at hafter
  -- The frames before are taken whole.
  have hmap := outputs_eq_extract_of_waiting waiting
    (sentFrames before ++ (front ++ back) :: sentFrames after).flatten
  rw [hstream, FrameFormat.extract_frames_append length_of_mem_map] at hmap
  rw [hstream]
  rcases FrameFormat.extract_damaged length_of_mem_map hafter hshort with h | ⟨spurious, h⟩
  · left
    rw [h, ← List.map_append] at hmap
    exact map_toList_injective hmap
  · right
    rw [h, ← List.map_tail] at hmap
    obtain ⟨taken, rest, hout, htaken, hrest⟩ := List.map_eq_append_iff.mp hmap
    obtain ⟨buf, later, rfl, -, hlater⟩ := List.map_eq_cons_iff.mp hrest
    refine ⟨buf, ?_⟩
    rw [hout, map_toList_injective htaken, map_toList_injective hlater, wires_tail]

/-- The packet of zeros. -/
def zeroPacket : MeshPacket := .deserializePayload (.zero _)

theorem toList_sendPacket_zeroPacket :
    (sendPacket zeroPacket).toList = format.header ++ List.replicate 114 0 := by
  rw [toList_sendPacket, zeroPacket, MeshPacket.serializePayload_deserializePayload, Bytes.zero,
    Vector.toList_replicate]
  rfl

/-- Of three such packets, the first loses the byte behind its header. -/
theorem usb_link_resynchronises_zeros :
    let received := (format.header ++ List.replicate 113 0) :: sentFrames [zeroPacket, zeroPacket]
    machine.outputs new received.flatten = wires [zeroPacket, zeroPacket] ∨
      ∃ spurious, machine.outputs new received.flatten = spurious :: wires [zeroPacket] := by
  have sent : (sendPacket zeroPacket).toList = format.header ++ [0] ++ List.replicate 113 0 :=
    toList_sendPacket_zeroPacket
  have starts : format.OnlyAtStarts
      ((format.header ++ List.replicate 113 0) :: sentFrames [zeroPacket, zeroPacket]) := by
    simp only [sentFrames, List.map_cons, List.map_nil, toList_sendPacket_zeroPacket]
    decide +kernel
  exact @usb_link_resynchronises new rfl [] [zeroPacket, zeroPacket] zeroPacket format.header [0]
    (List.replicate 113 0) sent (List.cons_ne_nil _ _) starts

end UsbReceiver

end Gibberish.Firmware
