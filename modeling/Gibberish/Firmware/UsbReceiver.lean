/-
# The USB receiver

The host sends each packet behind three sync bytes, 114 bytes to a packet. The
receiver is a four-state parser. Between frames it waits for the first sync byte, and
from there a whole frame yields its packet's bytes and leaves it waiting again.
-/

import Gibberish.Foundation.Machine
import Gibberish.Protocol.Frame

set_option autoImplicit false

namespace Gibberish.Firmware

open Gibberish.Foundation Gibberish.Protocol

inductive UsbRxState where
  | sync0
  | sync1
  | length
  | payload
  deriving DecidableEq, Repr

/-- The four-state parser of frames from the host. -/
structure UsbReceiver where
  rxState : UsbRxState
  pktBuf : Bytes MeshPacket.wirePayloadLen
  pktIdx : Fin MeshPacket.wirePayloadLen

namespace UsbReceiver

def new : UsbReceiver := ⟨.sync0, .zero _, 0⟩

/-- Take one byte; a buffer, when this byte completes one. -/
def readByte (usb : UsbReceiver) (b : UInt8) :
    UsbReceiver × Option (Bytes MeshPacket.wirePayloadLen) :=
  match usb.rxState with
  | .sync0 => if b = 0xAA then ({ usb with rxState := .sync1 }, none) else (usb, none)
  | .sync1 =>
    if b = 0x55 then ({ usb with rxState := .length }, none)
    else if b = 0xAA then (usb, none)
    else ({ usb with rxState := .sync0 }, none)
  | .length =>
    if b = 0x72 then ({ usb with pktIdx := 0, rxState := .payload }, none)
    else if b = 0xAA then ({ usb with rxState := .sync1 }, none)
    else ({ usb with rxState := .sync0 }, none)
  | .payload =>
    let pktBuf := usb.pktBuf.set usb.pktIdx b
    if h : usb.pktIdx.val + 1 < MeshPacket.wirePayloadLen then
      ({ usb with pktBuf := pktBuf, pktIdx := ⟨usb.pktIdx.val + 1, h⟩ }, none)
    else (⟨.sync0, pktBuf, 0⟩, some pktBuf)

/-- The receiver as a machine that emits the buffers it completes. -/
def machine : Machine UsbReceiver UInt8 (Bytes MeshPacket.wirePayloadLen) :=
  ⟨fun usb b => ((usb.readByte b).1, (usb.readByte b).2.toList)⟩

/-! ### Whole frames -/

/-- A packet's bytes behind the sync bytes. -/
def frame (wire : Bytes MeshPacket.wirePayloadLen) : List UInt8 := [0xAA, 0x55, 0x72] ++ wire.toList

/-- In the payload state, the bytes that are still missing complete the buffer. -/
theorem run_payload (bytes : List UInt8) {usb : UsbReceiver} (hstate : usb.rxState = .payload)
    (hlen : usb.pktIdx.val + bytes.length = MeshPacket.wirePayloadLen) :
    machine.outputs usb bytes = [usb.pktBuf.copyFromSlice usb.pktIdx bytes] ∧
      (machine.final usb bytes).rxState = .sync0 := by
  induction bytes generalizing usb with
  | nil =>
    -- The index is inside the buffer, so some byte is still missing.
    have hlt := usb.pktIdx.isLt
    rw [List.length_nil] at hlen
    omega
  | cons b rest ih =>
    rw [List.length_cons] at hlen
    rw [Machine.outputs_cons, Machine.final_cons, ← Bytes.copyFromSlice_set]
    by_cases hmore : usb.pktIdx.val + 1 < MeshPacket.wirePayloadLen
    · have hread : usb.readByte b = (⟨.payload, usb.pktBuf.set usb.pktIdx b,
          ⟨usb.pktIdx.val + 1, hmore⟩⟩, none) := by
        simp only [readByte, hstate, dif_pos hmore]
      simp only [Machine.emit, Machine.next, machine, hread]
      exact ih rfl (by show usb.pktIdx.val + 1 + rest.length = _; omega)
    · -- The last byte: the index starts over.
      have hread : usb.readByte b = (⟨.sync0, usb.pktBuf.set usb.pktIdx b, 0⟩,
          some (usb.pktBuf.set usb.pktIdx b)) := by
        simp only [readByte, hstate, dif_neg hmore]
      obtain rfl : rest = [] := List.length_eq_zero_iff.mp (by omega)
      simp only [Machine.emit, Machine.next, machine, hread]
      refine ⟨?_, rfl⟩
      simp [Bytes.copyFromSlice]

/-- **Whole frames.** A receiver that waits for a frame takes its packet and waits again. -/
theorem run_frame (wire : Bytes MeshPacket.wirePayloadLen) {usb : UsbReceiver}
    (hstate : usb.rxState = .sync0) :
    machine.outputs usb (frame wire) = [wire] ∧
      (machine.final usb (frame wire)).rxState = .sync0 := by
  have hsync : machine.outputs usb [0xAA, 0x55, 0x72] = [] ∧
      machine.final usb [0xAA, 0x55, 0x72] = ⟨.payload, usb.pktBuf, 0⟩ := by
    simp [Machine.emit, Machine.next, machine, readByte, hstate]
  -- Behind the sync bytes the buffer is overwritten from its start.
  have hpayload := run_payload wire.toList
    (rfl : (UsbReceiver.mk .payload usb.pktBuf 0).rxState = .payload) (by simp)
  rw [frame, Machine.outputs_append, Machine.final_append, hsync.1, hsync.2, hpayload.1]
  exact ⟨by simp, hpayload.2⟩

/-- Frame after frame, every packet is taken, in order. -/
theorem outputs_frames (wires : List (Bytes MeshPacket.wirePayloadLen)) {usb : UsbReceiver}
    (hstate : usb.rxState = .sync0) : machine.outputs usb (wires.flatMap frame) = wires := by
  induction wires generalizing usb with
  | nil => rfl
  | cons wire rest ih =>
    obtain ⟨hout, hstate'⟩ := run_frame wire hstate
    rw [List.flatMap_cons, Machine.outputs_append, hout, ih hstate', List.singleton_append]

end UsbReceiver

end Gibberish.Firmware
