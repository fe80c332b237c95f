/-
# One synthesizer for two links

The mesh and the companion share the radio in a cycle of 200 milliseconds, with guard
bands of two at the seams. The loop looks at the clock every five milliseconds, which is
too coarse for the guard bands, and finds the mesh in 34 of any 40 turns.
-/

import Gibberish.Foundation.Machine
import Mathlib.Data.Nat.Count

set_option autoImplicit false

namespace Gibberish.Firmware

open Gibberish.Foundation

def tdmCycleMs : UInt32 := 200
def slotAEndMs : UInt32 := 168
def guard1EndMs : UInt32 := 170
def slotBEndMs : UInt32 := 198

inductive RadioSlot where
  | ieee802154Mesh
  | guardBand
  | bleCompanion
  deriving DecidableEq, Repr

structure TdmArbiter where
  currentTimeMs : UInt32
  usbDesktopMode : Bool
  currentSlot : RadioSlot

namespace TdmArbiter

def new : TdmArbiter := ⟨0, false, .ieee802154Mesh⟩

/-- On a desktop the companion sleeps. -/
def setDesktopMode (t : TdmArbiter) (enabled : Bool) : TdmArbiter :=
  { t with usbDesktopMode := enabled }

def isDesktopMode (t : TdmArbiter) : Bool := t.usbDesktopMode

/-- The slot at a time of the cycle. -/
def slotAt (timeMs : UInt32) : RadioSlot :=
  if timeMs < slotAEndMs then .ieee802154Mesh
  else if timeMs < guard1EndMs then .guardBand
  else if timeMs < slotBEndMs then .bleCompanion
  else .guardBand

/-- Time passes, and the slot is found. -/
def advance (t : TdmArbiter) (deltaMs : UInt32) : RadioSlot × TdmArbiter :=
  if t.usbDesktopMode then (.ieee802154Mesh, { t with currentSlot := .ieee802154Mesh })
  else
    let currentTimeMs := (t.currentTimeMs + deltaMs) % tdmCycleMs
    (slotAt currentTimeMs,
      { t with currentTimeMs := currentTimeMs, currentSlot := slotAt currentTimeMs })

/-! ### Turns of five milliseconds -/

/-- The arbiter after this many turns of the loop. -/
def afterTurns : ℕ → TdmArbiter
  | 0 => new
  | n + 1 => ((afterTurns n).advance 5).2

/-- The slot of a turn. -/
def slotOfTurn (n : ℕ) : RadioSlot := ((afterTurns n).advance 5).1

theorem usbDesktopMode_afterTurns (n : ℕ) : (afterTurns n).usbDesktopMode = false := by
  induction n with
  | zero => rfl
  | succ n ih => rw [afterTurns, advance, ih, if_neg Bool.false_ne_true]

/-- The clock counts turns. -/
theorem toNat_currentTimeMs_afterTurns (n : ℕ) :
    (afterTurns n).currentTimeMs.toNat = 5 * n % 200 := by
  induction n with
  | zero => rfl
  | succ n ih =>
    rw [afterTurns, advance, usbDesktopMode_afterTurns, if_neg Bool.false_ne_true]
    have hclock : (((afterTurns n).currentTimeMs + 5) % tdmCycleMs).toNat =
        ((afterTurns n).currentTimeMs.toNat + 5) % 2 ^ 32 % 200 := by
      rw [UInt32.toNat_mod, UInt32.toNat_add]
      rfl
    have hsmall : 5 * n % 200 + 5 < 2 ^ 32 := by omega
    show (((afterTurns n).currentTimeMs + 5) % tdmCycleMs).toNat = _
    rw [hclock, ih, Nat.mod_eq_of_lt hsmall, Nat.mod_add_mod]
    rfl

/-- The slot of a turn repeats after forty. -/
theorem slotOfTurn_eq (n : ℕ) :
    slotOfTurn n = if (n + 1) % 40 < 34 then .ieee802154Mesh else .bleCompanion := by
  rw [slotOfTurn, advance, usbDesktopMode_afterTurns, if_neg Bool.false_ne_true]
  have hclock := toNat_currentTimeMs_afterTurns (n + 1)
  rw [afterTurns, advance, usbDesktopMode_afterTurns, if_neg Bool.false_ne_true] at hclock
  dsimp only at hclock ⊢
  generalize ((afterTurns n).currentTimeMs + 5) % tdmCycleMs = time at hclock ⊢
  have hA : slotAEndMs.toNat = 168 := rfl
  have hG : guard1EndMs.toNat = 170 := rfl
  have hB : slotBEndMs.toNat = 198 := rfl
  simp only [slotAt, UInt32.lt_iff_toNat_lt, hA, hG, hB, hclock]
  split
  · next hmesh => rw [if_pos (by omega)]
  · next hmesh =>
    -- The clock stands at a multiple of five, so no guard band is ever met.
    rw [if_neg (by omega), if_pos (by omega), if_neg (by omega)]

/-- A turn in which the mesh has the radio. -/
def IsMeshTurn (n : ℕ) : Prop := slotOfTurn n = .ieee802154Mesh

instance : DecidablePred IsMeshTurn := fun n => inferInstanceAs (Decidable (slotOfTurn n = _))

theorem isMeshTurn_iff (n : ℕ) : IsMeshTurn n ↔ (n + 1) % 40 < 34 := by
  rw [IsMeshTurn, slotOfTurn_eq, ite_eq_left_iff]
  constructor
  · intro h
    by_contra hnot
    cases h hnot
  · intro h hnot
    exact absurd h hnot

/-- How many of the first turns are the mesh's. -/
def meshTurns (n : ℕ) : ℕ := n.count IsMeshTurn

theorem meshTurns_succ (n : ℕ) :
    meshTurns (n + 1) = meshTurns n + if slotOfTurn n = .ieee802154Mesh then 1 else 0 :=
  Nat.count_succ _ _

theorem meshTurns_eq (n : ℕ) : meshTurns n = n / 40 * 34 + min (n % 40) 33 := by
  induction n with
  | zero => rfl
  | succ n ih =>
    have hmesh := isMeshTurn_iff n
    rw [IsMeshTurn] at hmesh
    rw [meshTurns_succ, ih]
    simp only [hmesh]
    split
    · omega
    · omega

end TdmArbiter

end Gibberish.Firmware
