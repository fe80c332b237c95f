/-
# The light

The driver moves two pins, one bit at a time: zeros to start, the pixel, ones to end. A
light that takes the 32 bits behind 32 zeros shows every pixel that is set, and one that
was caught in the middle of something follows from the second pixel on.
-/

import Gibberish.Foundation.Machine
import Gibberish.Storage.SdDriver

set_option autoImplicit false

namespace Gibberish.Firmware

open Gibberish.Foundation Gibberish.Storage

/-- A colour and a brightness of five bits. -/
structure LedPixel where
  red : UInt8
  green : UInt8
  blue : UInt8
  brightness : UInt8
  deriving DecidableEq

/-- A move of a pin. -/
inductive PinEvent where
  | data (level : Level)
  | clk (level : Level)

namespace Apa102

def writeByte (byte : UInt8) : List PinEvent :=
  (List.range 8).reverse.flatMap fun bit =>
    [.data (if byte &&& (1 <<< UInt8.ofNat bit) ≠ 0 then .high else .low), .clk .high, .clk .low]

/-- The bytes of a pixel, between those of the start and the end. -/
def frame (pixel : LedPixel) : List UInt8 :=
  List.replicate 4 0x00 ++
    [min pixel.brightness 31 ||| 0xE0, pixel.blue, pixel.green, pixel.red] ++
    List.replicate 4 0xFF

def setPixel (pixel : LedPixel) : List PinEvent := (frame pixel).flatMap writeByte

def amberPulse (step : UInt8) : LedPixel := ⟨255, 140, 0, 2 + step % 12⟩

def green : LedPixel := ⟨0, 255, 0, 5⟩

def cyan : LedPixel := ⟨0, 255, 255, 8⟩

def magenta : LedPixel := ⟨255, 0, 255, 8⟩

def idleBlue : LedPixel := ⟨0, 40, 180, 2⟩

def off : LedPixel := ⟨0, 0, 0, 0⟩

end Apa102

/-! ### The wires -/

/-- The levels of the two pins. -/
structure LedWires where
  data : Level
  clk : Level

namespace LedWires

/-- A bit is taken as the clock rises. -/
def step (w : LedWires) : PinEvent → LedWires × List Bool
  | .data level => ({ w with data := level }, [])
  | .clk .high =>
    ({ w with clk := .high },
      -- A clock that is high already does not rise.
      match w.clk with
      | .low => [w.data == .high]
      | .high => [])
  | .clk .low => ({ w with clk := .low }, [])

/-- The wires as a machine that emits the bits a light takes. -/
def machine : Machine LedWires PinEvent Bool := ⟨step⟩

end LedWires

namespace Apa102

/-- A byte on the wires, its highest bit first. -/
def bits (byte : UInt8) : List Bool :=
  (List.range 8).reverse.map fun bit => byte &&& (1 <<< UInt8.ofNat bit) ≠ 0

/-- One bit of some byte takes its place while the clock is low. -/
theorem outputs_bits {w : LedWires} (low : w.clk = .low) (byte : UInt8) (order : List ℕ) :
    let events := order.flatMap fun bit =>
      [.data (if byte &&& (1 <<< UInt8.ofNat bit) ≠ 0 then .high else .low), .clk .high, .clk .low]
    LedWires.machine.outputs w events =
        order.map (fun bit => decide (byte &&& (1 <<< UInt8.ofNat bit) ≠ 0)) ∧
      (LedWires.machine.final w events).clk = .low := by
  intro events
  induction order generalizing w with
  | nil => exact ⟨rfl, low⟩
  | cons bit order ih =>
    obtain ⟨data, clk⟩ := w
    obtain rfl : clk = .low := low
    obtain ⟨houtputs, hfinal⟩ := @ih
      ⟨if byte &&& (1 <<< UInt8.ofNat bit) ≠ 0 then .high else .low, .low⟩ rfl
    have hlevel : ((if byte &&& (1 <<< UInt8.ofNat bit) ≠ 0 then Level.high else .low) == .high) =
        decide (byte &&& (1 <<< UInt8.ofNat bit) ≠ 0) := by
      by_cases h : byte &&& (1 <<< UInt8.ofNat bit) ≠ 0
      · rw [if_pos h, decide_eq_true h]
        rfl
      · rw [if_neg h, decide_eq_false h]
        rfl
    refine ⟨?_, hfinal⟩
    rw [List.map_cons, ← hlevel, ← houtputs]
    rfl

/-- **The waveform.** The pins carry the bits of the bytes, and the clock is left low. -/
theorem outputs_writeBytes {w : LedWires} (low : w.clk = .low) (bytes : List UInt8) :
    LedWires.machine.outputs w (bytes.flatMap writeByte) = bytes.flatMap bits ∧
      (LedWires.machine.final w (bytes.flatMap writeByte)).clk = .low := by
  induction bytes generalizing w with
  | nil => exact ⟨rfl, low⟩
  | cons byte bytes ih =>
    obtain ⟨hbyte, hlow⟩ : LedWires.machine.outputs w (writeByte byte) = bits byte ∧
        (LedWires.machine.final w (writeByte byte)).clk = .low := outputs_bits low byte _
    obtain ⟨hrest, hfinal⟩ := ih hlow
    rw [List.flatMap_cons, Machine.outputs_append, Machine.final_append, List.flatMap_cons, hbyte,
      hrest]
    exact ⟨rfl, hfinal⟩

end Apa102

/-! ### The light -/

/-- A light waits for zeros, or has taken the first bits of a frame. -/
inductive Light where
  | waiting (zeros : ℕ)
  | taking (bits : List Bool) (short : bits.length < 32)

namespace Light

/-- The number that bits stand for. -/
def byteOf (bits : List Bool) : UInt8 :=
  bits.foldl (fun byte bit => 2 * byte + if bit then 1 else 0) 0

/-- The pixel of a frame, if it starts as one. -/
def pixelOf (bits : List Bool) : List LedPixel :=
  if bits.take 3 = [true, true, true] then
    [{ red := byteOf (bits.drop 24)
       green := byteOf ((bits.drop 16).take 8)
       blue := byteOf ((bits.drop 8).take 8)
       brightness := byteOf ((bits.drop 3).take 5) }]
  else []

/-- A light takes 32 bits from the first one that follows 32 zeros. -/
def step : Light → Bool → Light × List LedPixel
  | waiting zeros, false => (waiting (zeros + 1), [])
  | waiting zeros, true =>
    -- Any one that comes too early starts the count over.
    (if 32 ≤ zeros then taking [true] (by decide) else waiting 0, [])
  | taking bits _, bit =>
    if short : (bits ++ [bit]).length < 32 then (taking (bits ++ [bit]) short, [])
    else (waiting 0, pixelOf (bits ++ [bit]))

/-- The light as a machine that emits the pixels it shows. -/
def machine : Machine Light Bool LedPixel := ⟨step⟩

/-- Zeros are counted. -/
theorem run_zeros (zeros n : ℕ) :
    machine.final (waiting zeros) (List.replicate n false) = waiting (zeros + n) ∧
      machine.outputs (waiting zeros) (List.replicate n false) = [] := by
  induction n generalizing zeros with
  | zero => exact ⟨rfl, rfl⟩
  | succ n ih =>
    obtain ⟨hfinal, houtputs⟩ := ih (zeros + 1)
    rw [List.replicate_succ, Machine.final_cons, Machine.outputs_cons]
    have hnext : machine.next (waiting zeros) false = waiting (zeros + 1) := rfl
    rw [hnext, hfinal, houtputs, Nat.add_right_comm, Nat.add_assoc]
    exact ⟨rfl, rfl⟩

/-- Too few bits for 32 zeros show nothing. -/
theorem run_few {zeros : ℕ} {bits : List Bool} (few : zeros + bits.length < 32) :
    ∃ zeros' < 32, machine.final (waiting zeros) bits = waiting zeros' ∧
      machine.outputs (waiting zeros) bits = [] := by
  induction bits generalizing zeros with
  | nil => exact ⟨zeros, few, rfl, rfl⟩
  | cons bit bits ih =>
    rw [List.length_cons] at few
    cases bit with
    | false => exact ih (show zeros + 1 + bits.length < 32 by omega)
    | true =>
      -- The zeros so far were too few, and the count starts over.
      have hnext : machine.next (waiting zeros) true = waiting 0 := if_neg (by omega)
      rw [Machine.final_cons, Machine.outputs_cons, hnext]
      exact ih (by omega)

/-- A light that waits for zeros does not take ones. -/
theorem run_ones {zeros : ℕ} (few : zeros < 32) (n : ℕ) :
    machine.final (waiting zeros) (List.replicate (n + 1) true) = waiting 0 ∧
      machine.outputs (waiting zeros) (List.replicate (n + 1) true) = [] := by
  induction n generalizing zeros with
  | zero => exact ⟨if_neg (by omega), rfl⟩
  | succ n ih =>
    have hnext : machine.next (waiting zeros) true = waiting 0 := if_neg (by omega)
    rw [List.replicate_succ, Machine.final_cons, Machine.outputs_cons, hnext]
    exact ih (by omega)

/-- The rest of a frame. -/
theorem run_taking {taken bits : List Bool} (short : taken.length < 32)
    (rest : taken.length + bits.length = 32) :
    machine.final (taking taken short) bits = waiting 0 ∧
      machine.outputs (taking taken short) bits = pixelOf (taken ++ bits) := by
  induction bits generalizing taken with
  | nil => exact absurd rest (Nat.ne_of_lt short)
  | cons bit bits ih =>
    rw [List.length_cons] at rest
    -- The bit is taken into the frame, or ends it.
    by_cases hshort : (taken ++ [bit]).length < 32
    · have hstep : step (taking taken short) bit = (taking (taken ++ [bit]) hshort, []) :=
        dif_pos hshort
      have hrest : (taken ++ [bit]).length + bits.length = 32 := by
        rw [List.length_append, List.length_singleton]
        omega
      obtain ⟨hfinal, houtputs⟩ := ih hshort hrest
      have hnext : machine.next (taking taken short) bit = taking (taken ++ [bit]) hshort :=
        congrArg Prod.fst hstep
      have hemit : machine.emit (taking taken short) bit = [] := congrArg Prod.snd hstep
      rw [List.append_assoc] at houtputs
      rw [Machine.final_cons, Machine.outputs_cons, hnext, hemit]
      exact ⟨hfinal, houtputs⟩
    · have hstep : step (taking taken short) bit = (waiting 0, pixelOf (taken ++ [bit])) :=
        dif_neg hshort
      obtain rfl : bits = [] := by
        rw [List.length_append, List.length_singleton] at hshort
        exact List.length_eq_zero_iff.mp (by omega)
      have hnext : machine.next (taking taken short) bit = waiting 0 := congrArg Prod.fst hstep
      have hemit : machine.emit (taking taken short) bit = pixelOf (taken ++ [bit]) :=
        congrArg Prod.snd hstep
      rw [Machine.final_cons, Machine.outputs_cons, hnext, hemit]
      exact ⟨rfl, List.append_nil _⟩

end Light

/-! ### Pixels -/

namespace Apa102

open Light

theorem forall_byte {p : UInt8 → Prop} (all : ∀ n < 256, p (.ofNat n)) (byte : UInt8) : p byte := by
  have hbyte := all byte.toNat byte.toNat_lt
  rwa [UInt8.ofNat_toNat] at hbyte

theorem byteOf_bits (byte : UInt8) : byteOf (bits byte) = byte :=
  forall_byte (p := fun byte => byteOf (bits byte) = byte) (by decide +kernel) byte

/-- The first byte of a frame. -/
theorem bits_brightness (brightness : UInt8) :
    (bits (min brightness 31 ||| 0xE0)).take 3 = [true, true, true] ∧
      byteOf ((bits (min brightness 31 ||| 0xE0)).drop 3) = min brightness 31 :=
  forall_byte (p := fun brightness =>
    (bits (min brightness 31 ||| 0xE0)).take 3 = [true, true, true] ∧
      byteOf ((bits (min brightness 31 ||| 0xE0)).drop 3) = min brightness 31)
    (by decide +kernel) brightness

/-- A pixel as a light can show it. -/
def shown (pixel : LedPixel) : LedPixel := { pixel with brightness := min pixel.brightness 31 }

/-- The bits of a pixel, between those of the start and the end. -/
def pixelBits (pixel : LedPixel) : List Bool :=
  bits (min pixel.brightness 31 ||| 0xE0) ++ bits pixel.blue ++ bits pixel.green ++ bits pixel.red

theorem bits_frame (pixel : LedPixel) :
    (frame pixel).flatMap bits =
      List.replicate 32 false ++ (pixelBits pixel ++ List.replicate 32 true) := rfl

theorem pixelOf_pixelBits (pixel : LedPixel) : pixelOf (pixelBits pixel) = [shown pixel] := by
  obtain ⟨hstart, hbrightness⟩ := bits_brightness pixel.brightness
  have hpixel : pixelOf (pixelBits pixel) =
      if (bits (min pixel.brightness 31 ||| 0xE0)).take 3 = [true, true, true] then
        [⟨byteOf (bits pixel.red), byteOf (bits pixel.green), byteOf (bits pixel.blue),
          byteOf ((bits (min pixel.brightness 31 ||| 0xE0)).drop 3)⟩]
      else [] := rfl
  rw [hpixel, if_pos hstart, hbrightness, byteOf_bits, byteOf_bits, byteOf_bits]
  rfl

/-- A pixel starts with a one. -/
theorem pixelBits_eq (pixel : LedPixel) :
    ∃ rest, pixelBits pixel = true :: rest ∧ rest.length = 31 := by
  have hstart := (bits_brightness pixel.brightness).1
  have hbits : bits (min pixel.brightness 31 ||| 0xE0) =
      (bits (min pixel.brightness 31 ||| 0xE0)).take 3 ++
        (bits (min pixel.brightness 31 ||| 0xE0)).drop 3 := (List.take_append_drop _ _).symm
  rw [hstart] at hbits
  rw [pixelBits, hbits]
  exact ⟨_, rfl, rfl⟩

/-- **Step lemma.** A light that waits shows the pixel that is set. -/
theorem run_waiting (zeros : ℕ) (pixel : LedPixel) :
    Light.machine.final (waiting zeros) ((frame pixel).flatMap bits) = waiting 0 ∧
      Light.machine.outputs (waiting zeros) ((frame pixel).flatMap bits) = [shown pixel] := by
  obtain ⟨rest, hrest, hlen⟩ := pixelBits_eq pixel
  -- Zeros to start with, the pixel, and ones that a light lets pass.
  obtain ⟨hzeros, hquiet⟩ := run_zeros zeros 32
  obtain ⟨hones, hquiet'⟩ := run_ones (show 0 < 32 by decide) 31
  have hone : [true].length < 32 := by decide
  have hfirst : Light.machine.next (waiting (zeros + 32)) true = taking [true] hone := by
    show (if 32 ≤ zeros + 32 then taking [true] hone else waiting 0) = taking [true] hone
    exact if_pos (Nat.le_add_left _ _)
  obtain ⟨htaken, hpixel⟩ := run_taking hone (show [true].length + rest.length = 32 by rw [hlen]; rfl)
  rw [List.singleton_append, ← hrest, pixelOf_pixelBits] at hpixel
  have hshown : Light.machine.outputs (waiting (zeros + 32)) (pixelBits pixel) = [shown pixel] := by
    rw [hrest, Machine.outputs_cons, hfirst]
    exact hpixel
  have hdone : Light.machine.final (waiting (zeros + 32)) (pixelBits pixel) = waiting 0 := by
    rw [hrest, Machine.final_cons, hfirst, htaken]
  rw [bits_frame, Machine.final_append, Machine.outputs_append, hzeros, hquiet,
    Machine.final_append, Machine.outputs_append, hshown, hdone, hones, hquiet']
  exact ⟨rfl, rfl⟩

/-- **Step lemma.** A light in the middle of something waits once a pixel was set. -/
theorem run_taking_frame {taken : List Bool} (short : taken.length < 32) (pixel : LedPixel) :
    Light.machine.final (taking taken short) ((frame pixel).flatMap bits) = waiting 0 := by
  obtain ⟨rest, hrest, hlen⟩ := pixelBits_eq pixel
  have hsplit : List.replicate 32 false =
      List.replicate (32 - taken.length) false ++ List.replicate taken.length false := by
    rw [← List.replicate_add]
    congr 1
    omega
  obtain ⟨htaken, -⟩ := run_taking short
    (show taken.length + (List.replicate (32 - taken.length) false).length = 32 by
      rw [List.length_replicate]; omega)
  obtain ⟨hzeros, -⟩ := run_zeros 0 taken.length
  have hfirst : Light.machine.next (waiting (0 + taken.length)) true = waiting 0 :=
    if_neg (by omega)
  obtain ⟨zeros, hzeros', hwaits, -⟩ := run_few (show 0 + rest.length < 32 by omega)
  obtain ⟨hones, -⟩ := run_ones hzeros' 31
  rw [bits_frame, hsplit, List.append_assoc, Machine.final_append, htaken, Machine.final_append,
    hzeros, Machine.final_append, hrest, Machine.final_cons, hfirst, hwaits, hones]

/-- A light that waits shows all pixels that are set. -/
theorem run_waiting_frames (zeros : ℕ) (pixels : List LedPixel) :
    Light.machine.outputs (waiting zeros) (pixels.flatMap fun pixel => (frame pixel).flatMap bits) =
      pixels.map shown := by
  induction pixels generalizing zeros with
  | nil => rfl
  | cons pixel pixels ih =>
    obtain ⟨hfinal, houtputs⟩ := run_waiting zeros pixel
    rw [List.flatMap_cons, Machine.outputs_append, houtputs, hfinal, ih]
    rfl

/-- **The light shows the pixels that are set.** Whatever the data pin was left at: a light that
waits shows every pixel, with a brightness of at most 31. A light in any state shows every
pixel from the second one on, and nothing after them. -/
theorem light_shows_pixels (data : Level) (zeros : ℕ) (light : Light) (pixels : List LedPixel) :
    let taken := LedWires.machine.outputs ⟨data, .low⟩ (pixels.flatMap setPixel)
    Light.machine.outputs (waiting zeros) taken = pixels.map shown ∧
      (pixels.drop 1).map shown <:+ Light.machine.outputs light taken := by
  intro taken
  have htaken : taken = pixels.flatMap fun pixel => (frame pixel).flatMap bits := by
    have hbytes : pixels.flatMap setPixel = (pixels.flatMap frame).flatMap writeByte :=
      List.flatMap_assoc.symm
    rw [← List.flatMap_assoc]
    exact (congrArg _ hbytes).trans (outputs_writeBytes (w := ⟨data, .low⟩) rfl _).1
  rw [htaken]
  refine ⟨run_waiting_frames zeros pixels, ?_⟩
  cases pixels with
  | nil => exact List.nil_suffix
  | cons pixel pixels =>
    have hwaits : Light.machine.final light ((frame pixel).flatMap bits) = waiting 0 := by
      cases light with
      | waiting zeros => exact (run_waiting zeros pixel).1
      | taking taken short => exact run_taking_frame short pixel
    rw [List.flatMap_cons, Machine.outputs_append, hwaits, run_waiting_frames]
    exact List.suffix_append _ _

end Apa102

end Gibberish.Firmware
