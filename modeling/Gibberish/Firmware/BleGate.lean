/-
# The pairing gate

A request to pair shows a PIN and waits thirty seconds for a press of the button. The gate
keeps the time that is left; its log tells what that is. So a press succeeds exactly when a
request is live: not reset, not used, and not thirty seconds old.
-/

import Gibberish.Foundation.Machine
import Gibberish.Foundation.Since

set_option autoImplicit false

namespace Gibberish.Firmware

open Gibberish.Foundation

def bleAuthTimeoutMs : UInt32 := 30000

inductive BleAuthState where
  | idle
  | pairingRequested (pin remainingMs : UInt32)
  | authorized
  | rejected
  deriving DecidableEq

structure BleSecurityGate where
  state : BleAuthState
  bonded : Bool
  deriving DecidableEq

namespace BleSecurityGate

def new : BleSecurityGate := ⟨.idle, false⟩

def isBonded (gate : BleSecurityGate) : Bool := gate.bonded

/-- An unbonded client asks to pair; the PIN it must show is returned. -/
def requestPairing (gate : BleSecurityGate) (randomSeed : UInt32) : UInt32 × BleSecurityGate :=
  let pin := 100000 + randomSeed % 900000
  (pin, { gate with state := .pairingRequested pin bleAuthTimeoutMs })

/-- Time passes for a request. -/
def tick (gate : BleSecurityGate) (deltaMs : UInt32) : BleSecurityGate :=
  match gate.state with
  | .pairingRequested pin remainingMs =>
    if deltaMs ≥ remainingMs then { gate with state := .rejected }
    else { gate with state := .pairingRequested pin (remainingMs - deltaMs) }
  | _ => gate

/-- The button is pressed; it counts only for a request. -/
def onButtonPress (gate : BleSecurityGate) : Bool × BleSecurityGate :=
  match gate.state with
  | .pairingRequested _ _ => (true, ⟨.authorized, true⟩)
  | _ => (false, gate)

def reset (gate : BleSecurityGate) : BleSecurityGate := { gate with state := .idle }

/-- Every PIN has six digits. -/
theorem pin_range (gate : BleSecurityGate) (randomSeed : UInt32) :
    100000 ≤ (gate.requestPairing randomSeed).1.toNat ∧
      (gate.requestPairing randomSeed).1.toNat ≤ 999999 := by
  have hlt : (randomSeed % 900000).toNat < 900000 := by
    rw [UInt32.toNat_mod]
    exact Nat.mod_lt _ (by decide)
  have hpin : (gate.requestPairing randomSeed).1.toNat = 100000 + (randomSeed % 900000).toNat := by
    show (100000 + randomSeed % 900000 : UInt32).toNat = _
    rw [UInt32.toNat_add]
    exact Nat.mod_eq_of_lt ((Nat.add_lt_add_left hlt 100000).trans (by decide))
  omega

end BleSecurityGate

/-! ### Calls and their log -/

inductive BleCall where
  | requestPairing (randomSeed : UInt32)
  | tick (deltaMs : UInt32)
  | onButtonPress
  | reset

/-- A call, with what it returned. -/
inductive BleEvent where
  | requested (pin : UInt32)
  | ticked (deltaMs : UInt32)
  | pressed (succeeded : Bool)
  | reset
  deriving DecidableEq

namespace BleSecurityGate

def step (gate : BleSecurityGate) : BleCall → BleSecurityGate × List BleEvent
  | .requestPairing randomSeed =>
    ((gate.requestPairing randomSeed).2, [.requested (gate.requestPairing randomSeed).1])
  | .tick deltaMs => (gate.tick deltaMs, [.ticked deltaMs])
  | .onButtonPress => (gate.onButtonPress.2, [.pressed gate.onButtonPress.1])
  | .reset => (gate.reset, [.reset])

/-- The gate as a machine that logs its calls. -/
def machine : Machine BleSecurityGate BleCall BleEvent := ⟨step⟩

end BleSecurityGate

namespace BleEvent

def isRequest : BleEvent → Bool
  | requested _ => true
  | _ => false

def deltaMs : BleEvent → ℕ
  | ticked deltaMs => deltaMs.toNat
  | _ => 0

/-- A request was made after the last reset and the last press that succeeded. -/
def Pending (log : List BleEvent) : Prop :=
  Since (fun ev => ev.isRequest = true) (fun ev => ev = .reset ∨ ev = .pressed true) log

/-- A press succeeded and no request and no reset came later. -/
def Granted (log : List BleEvent) : Prop :=
  Since (fun ev => ev = .pressed true) (fun ev => ev.isRequest = true ∨ ev = .reset) log

/-- The time since the latest request. -/
def elapsedMs (log : List BleEvent) : ℕ := sumSince isRequest deltaMs log

end BleEvent

/-! ### What the gate keeps of its log -/

namespace BleAuthState

/-- The time left for a press. -/
def timeLeft : BleAuthState → ℕ
  | pairingRequested _ remainingMs => remainingMs.toNat
  | _ => 0

end BleAuthState

namespace BleSecurityGate

open BleEvent

/-- The state is that of the log. -/
structure Reflects (gate : BleSecurityGate) (log : List BleEvent) : Prop where
  pending : Pending log → gate.state.timeLeft = 30000 - elapsedMs log
  notPending : ¬ Pending log → gate.state.timeLeft = 0
  positive : ∀ pin, gate.state ≠ .pairingRequested pin 0
  granted : gate.state = .authorized ↔ Granted log
  bonded : gate.bonded = true ↔ .pressed true ∈ log

variable {gate : BleSecurityGate} {log : List BleEvent}

theorem reflects_new : Reflects new [] where
  pending h := absurd h not_since_nil
  notPending _ := rfl
  positive _ h := by cases h
  granted := ⟨fun h => (by cases h), fun h => absurd h not_since_nil⟩
  bonded := ⟨fun h => (by cases h), fun h => (by cases h)⟩

/-- A press succeeds when there is time left. -/
theorem onButtonPress_iff (h : Reflects gate log) :
    gate.onButtonPress.1 = true ↔ 0 < gate.state.timeLeft := by
  rw [onButtonPress]
  cases hstate : gate.state with
  | pairingRequested pin remainingMs =>
    have hne : remainingMs ≠ 0 := fun hzero => h.positive pin (hzero ▸ hstate)
    have hpos : 0 < remainingMs.toNat := Nat.pos_of_ne_zero fun hzero =>
      hne (UInt32.toNat_inj.mp hzero)
    exact iff_of_true rfl hpos
  | _ => exact iff_of_false Bool.false_ne_true (lt_irrefl 0)

/-- Time runs out for a request, or some of it is left, or nothing waits for a press. -/
theorem tick_cases (gate : BleSecurityGate) (deltaMs : UInt32) :
    (∃ pin remainingMs, gate.state = .pairingRequested pin remainingMs ∧
      ((remainingMs.toNat ≤ deltaMs.toNat ∧ gate.tick deltaMs = { gate with state := .rejected }) ∨
        (deltaMs.toNat < remainingMs.toNat ∧ gate.tick deltaMs =
          { gate with state := .pairingRequested pin (remainingMs - deltaMs) }))) ∨
      (gate.state.timeLeft = 0 ∧ gate.tick deltaMs = gate) := by
  rw [tick]
  cases hstate : gate.state with
  | pairingRequested pin remainingMs =>
    refine Or.inl ⟨pin, remainingMs, rfl, ?_⟩
    by_cases hle : deltaMs ≥ remainingMs
    · exact Or.inl ⟨UInt32.le_iff_toNat_le.mp hle, if_pos hle⟩
    · exact Or.inr ⟨UInt32.lt_iff_toNat_lt.mp (UInt32.not_le.mp hle), if_neg hle⟩
  | _ => exact Or.inr ⟨rfl, rfl⟩

/-! ### Any calls -/

/-- An event that starts nothing and ends nothing leaves what is pending and granted. -/
theorem Reflects.goes (h : Reflects gate log) {gate' : BleSecurityGate} {ev : BleEvent}
    (hrequest : ev.isRequest = false) (hreset : ev ≠ .reset) (hpress : ev ≠ .pressed true)
    (hleft : gate'.state.timeLeft = gate.state.timeLeft - ev.deltaMs)
    (hpositive : ∀ pin, gate'.state ≠ .pairingRequested pin 0)
    (hauthorized : gate'.state = .authorized ↔ gate.state = .authorized)
    (hbonded : gate'.bonded = gate.bonded) : Reflects gate' (log ++ [ev]) := by
  have hpending : Pending (log ++ [ev]) ↔ Pending log :=
    since_concat_of_goes (by simp [hrequest]) (by simp [hreset, hpress])
  have hgranted : Granted (log ++ [ev]) ↔ Granted log :=
    since_concat_of_goes hpress (by simp [hrequest, hreset])
  have helapsed : elapsedMs (log ++ [ev]) = elapsedMs log + ev.deltaMs := sumSince_concat hrequest
  refine ⟨fun hlive => ?_, fun hdead => ?_, hpositive, ?_, ?_⟩
  · rw [hleft, h.pending (hpending.mp hlive), helapsed, Nat.sub_sub]
  · rw [hleft, h.notPending (fun hlive => hdead (hpending.mpr hlive)), Nat.zero_sub]
  · rw [hauthorized, hgranted, h.granted]
  · rw [hbonded, h.bonded]
    simp [hpress.symm]

theorem Reflects.request (h : Reflects gate log) (randomSeed : UInt32) :
    Reflects (gate.requestPairing randomSeed).2
      (log ++ [.requested (gate.requestPairing randomSeed).1]) where
  pending _ := by
    have helapsed : elapsedMs (log ++ [.requested (gate.requestPairing randomSeed).1]) = 0 :=
      sumSince_concat_of_starts rfl
    rw [helapsed]
    rfl
  notPending hdead := (hdead (since_concat_of_starts rfl)).elim
  positive pin hzero := absurd (BleAuthState.pairingRequested.inj hzero).2 (by decide)
  granted := iff_of_false (fun hstate => by cases hstate)
    (not_since_concat (by simp) (Or.inl rfl))
  bonded := by
    rw [List.mem_append]
    exact h.bonded.trans (or_iff_left (by simp)).symm

theorem reflects_success (hpress : gate.onButtonPress.1 = true) :
    Reflects gate.onButtonPress.2 (log ++ [.pressed true]) := by
  have hgate : gate.onButtonPress.2 = ⟨.authorized, true⟩ := by
    rw [onButtonPress] at hpress ⊢
    split at hpress
    · rfl
    · cases hpress
  rw [hgate]
  refine ⟨fun hlive => ?_, fun _ => rfl, fun pin hzero => ?_, ?_, ?_⟩
  · exact absurd hlive (not_since_concat (by simp [isRequest]) (Or.inr rfl))
  · cases hzero
  · exact iff_of_true rfl (since_concat_of_starts rfl)
  · exact iff_of_true rfl (by simp)

theorem Reflects.reset (h : Reflects gate log) : Reflects gate.reset (log ++ [.reset]) where
  pending hlive := absurd hlive (not_since_concat (by simp [isRequest]) (Or.inl rfl))
  notPending _ := rfl
  positive pin hzero := by cases hzero
  granted := iff_of_false (fun hstate => by cases hstate) (not_since_concat (by simp) (Or.inr rfl))
  bonded := by
    rw [List.mem_append]
    exact h.bonded.trans (or_iff_left (by simp)).symm

theorem Reflects.tick (h : Reflects gate log) (deltaMs : UInt32) :
    Reflects (gate.tick deltaMs) (log ++ [.ticked deltaMs]) := by
  rcases tick_cases gate deltaMs with ⟨pin, remainingMs, hstate, ⟨hle, htick⟩ | ⟨hlt, htick⟩⟩ |
    ⟨hleft, htick⟩
  · rw [htick]
    apply h.goes rfl (by simp) (by simp)
    · rw [hstate]
      exact (Nat.sub_eq_zero_of_le hle).symm
    · intro pin hzero
      cases hzero
    · simp [hstate]
    · rfl
  · have hsub := UInt32.toNat_sub_of_le _ _ (UInt32.le_iff_toNat_le.mpr hlt.le)
    rw [htick]
    apply h.goes rfl (by simp) (by simp)
    · rw [hstate]
      exact hsub
    · intro pin hzero
      -- What is left is more than nothing.
      rw [(BleAuthState.pairingRequested.inj hzero).2, UInt32.toNat_zero] at hsub
      omega
    · simp [hstate]
    · rfl
  · rw [htick]
    apply h.goes rfl (by simp) (by simp) _ h.positive Iff.rfl rfl
    rw [hleft, Nat.zero_sub]

/-- **Step lemma.** -/
theorem Reflects.step (h : Reflects gate log) (call : BleCall) :
    Reflects (machine.next gate call) (log ++ machine.emit gate call) := by
  cases call with
  | requestPairing randomSeed => exact h.request randomSeed
  | tick deltaMs => exact h.tick deltaMs
  | reset => exact h.reset
  | onButtonPress =>
    show Reflects gate.onButtonPress.2 (log ++ [.pressed gate.onButtonPress.1])
    cases hpress : gate.onButtonPress.1 with
    | true => exact reflects_success hpress
    | false =>
      have hsame : gate.onButtonPress.2 = gate := by
        rw [onButtonPress] at hpress ⊢
        split at hpress
        · cases hpress
        · rfl
      rw [hsame]
      exact h.goes rfl (by simp) (by simp) (Nat.sub_zero _).symm h.positive Iff.rfl rfl

/-- **Run lemma.** After any calls, the gate reflects its log. -/
theorem reflects_final (calls : List BleCall) :
    Reflects (machine.final new calls) (machine.outputs new calls) := by
  have hall : machine.Guarded (fun _ _ => True) new calls := fun _ _ => trivial
  exact Machine.history_invariant_nil (fun _ _ call h _ => h.step call) reflects_new hall

/-- **The gate opens only for a live request.** After any calls, a press succeeds exactly when
a request was made after the last reset and the last successful press, and less than thirty
seconds have passed since the latest request. The gate is bonded exactly when some press has
succeeded, and authorized exactly when one has, with no later request or reset. -/
theorem gate_opens_for_live_request (calls : List BleCall) :
    let gate := machine.final new calls
    let log := machine.outputs new calls
    (gate.onButtonPress.1 = true ↔ Pending log ∧ elapsedMs log < 30000) ∧
      (gate.isBonded = true ↔ .pressed true ∈ log) ∧
      (gate.state = .authorized ↔ Granted log) := by
  have h := reflects_final calls
  refine ⟨?_, h.bonded, h.granted⟩
  rw [onButtonPress_iff h]
  constructor
  · intro hpos
    have hlive : Pending (machine.outputs new calls) := by
      by_contra hdead
      exact hpos.ne' (h.notPending hdead)
    rw [h.pending hlive] at hpos
    exact ⟨hlive, Nat.lt_of_sub_pos hpos⟩
  · rintro ⟨hlive, hlt⟩
    rw [h.pending hlive]
    exact Nat.sub_pos_of_lt hlt

end BleSecurityGate

end Gibberish.Firmware
