/-
# The bus of the card and the panel

The card and the panel of the display hang on one bus. Every byte goes to both, and each
has a line that selects it.
-/

import Gibberish.Storage.SdDriver

set_option autoImplicit false

namespace Gibberish.Storage

open Gibberish.Foundation

/-- A card: what it gives for a byte, selected or not. -/
class SdCard (κ : Type) where
  clock : κ → Level → UInt8 → UInt8 × κ

/-- A panel, with a line that tells commands from data. -/
class LcdPanel (π : Type) where
  clock : π → Level → Level → UInt8 → π

/-- A panel that is not selected hears nothing. -/
class LawfulPanel (π : Type) [LcdPanel π] : Prop where
  clock_high : ∀ (panel : π) (dc : Level) (b : UInt8), LcdPanel.clock panel .high dc b = panel

/-- The bus, with both devices and the levels of their lines. -/
structure SharedBus (κ π : Type) where
  card : κ
  panel : π
  sdCs : Level
  lcdCs : Level
  lcdDc : Level
  khz : ℕ

namespace SharedBus

variable {κ π : Type} [SdCard κ] [LcdPanel π]

/-- One byte out and one in. A card that is not selected lets go of its line, which is
pulled up. -/
def clockByte (bus : SharedBus κ π) (b : UInt8) : UInt8 × SharedBus κ π :=
  let (miso, card) := SdCard.clock bus.card bus.sdCs b
  (if bus.sdCs = .low then miso else 0xFF,
    { bus with card := card, panel := LcdPanel.clock bus.panel bus.lcdCs bus.lcdDc b })

/-- Bytes out and bytes in, one by one. -/
def clockBytes : List UInt8 → SharedBus κ π → List UInt8 × SharedBus κ π
  | [], bus => ([], bus)
  | b :: rest, bus =>
    let (miso, bus) := bus.clockByte b
    let (misos, bus) := clockBytes rest bus
    (miso :: misos, bus)

theorem length_clockBytes (bytes : List UInt8) (bus : SharedBus κ π) :
    (clockBytes bytes bus).1.length = bytes.length := by
  induction bytes generalizing bus with
  | nil => rfl
  | cons b rest ih => exact congrArg (· + 1) (ih _)

instance : SdBus (SharedBus κ π) where
  setCs bus level := { bus with sdCs := level }
  applyConfig bus khz := (true, { bus with khz := khz })
  write bus bytes := (true, (clockBytes bytes bus).2)
  transfer bus words :=
    let r := clockBytes words.toList bus
    (true, ⟨r.1.toArray, by simp [r, length_clockBytes]⟩, r.2)
  delayMillis bus _ := bus

end SharedBus

end Gibberish.Storage
