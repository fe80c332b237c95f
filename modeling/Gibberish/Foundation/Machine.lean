/-
# Runs of a state machine that emits outputs

A machine has a total step function: from a state and an action it produces the
next state and the outputs of that step. A run feeds it a list of actions. The
trace of a run pairs every action with the state it was taken in, so a condition
on steps is a condition on the members of the trace, and the outputs of a run are
the outputs of its trace, concatenated.

The invariant rules carry a property of the current state, or of the state
together with everything emitted so far, along a run all of whose steps meet a
guard.
-/

import Mathlib.Data.List.Basic
import Mathlib.Data.List.Nodup

set_option autoImplicit false

namespace Gibberish.Foundation

/-- A deterministic machine: each step yields the next state and what it emits. -/
structure Machine (State Action Output : Type*) where
  step : State → Action → State × List Output

namespace Machine

variable {State Action Output : Type*}
variable (m : Machine State Action Output)

/-- The state after one action. -/
def next (s : State) (a : Action) : State := (m.step s a).1

/-- What one action emits. -/
def emit (s : State) (a : Action) : List Output := (m.step s a).2

/-- The state reached by a list of actions. -/
def final : State → List Action → State
  | s, [] => s
  | s, a :: rest => final (m.next s a) rest

/-- Every action of a run with the state it was taken in. -/
def trace : State → List Action → List (State × Action)
  | _, [] => []
  | s, a :: rest => (s, a) :: trace (m.next s a) rest

/-- Everything a run emits, in order. -/
def outputs (s : State) (actions : List Action) : List Output :=
  (m.trace s actions).flatMap fun x => m.emit x.1 x.2

/-- Every step of the run meets the guard. -/
def Guarded (ok : State → Action → Prop) (s : State) (actions : List Action) : Prop :=
  ∀ x ∈ m.trace s actions, ok x.1 x.2

instance (ok : State → Action → Prop) [∀ s a, Decidable (ok s a)] (s : State)
    (actions : List Action) : Decidable (m.Guarded ok s actions) :=
  inferInstanceAs (Decidable (∀ x ∈ m.trace s actions, ok x.1 x.2))

variable {m}

@[simp] theorem final_nil (s : State) : m.final s [] = s := rfl

@[simp] theorem final_cons (s : State) (a : Action) (rest : List Action) :
    m.final s (a :: rest) = m.final (m.next s a) rest := rfl

@[simp] theorem trace_nil (s : State) : m.trace s [] = [] := rfl

@[simp] theorem trace_cons (s : State) (a : Action) (rest : List Action) :
    m.trace s (a :: rest) = (s, a) :: m.trace (m.next s a) rest := rfl

@[simp] theorem outputs_nil (s : State) : m.outputs s [] = [] := rfl

@[simp] theorem outputs_cons (s : State) (a : Action) (rest : List Action) :
    m.outputs s (a :: rest) = m.emit s a ++ m.outputs (m.next s a) rest := by
  simp [outputs]

theorem final_append (s : State) (before after : List Action) :
    m.final s (before ++ after) = m.final (m.final s before) after := by
  induction before generalizing s with
  | nil => rfl
  | cons a rest ih => exact ih (m.next s a)

theorem trace_append (s : State) (before after : List Action) :
    m.trace s (before ++ after) = m.trace s before ++ m.trace (m.final s before) after := by
  induction before generalizing s with
  | nil => rfl
  | cons a rest ih => simp [ih]

/-- The actions of a trace are those of the run. -/
theorem map_snd_trace (s : State) (actions : List Action) :
    (m.trace s actions).map Prod.snd = actions := by
  induction actions generalizing s with
  | nil => rfl
  | cons a rest ih => exact congrArg (a :: ·) (ih _)

theorem outputs_append (s : State) (before after : List Action) :
    m.outputs s (before ++ after) = m.outputs s before ++ m.outputs (m.final s before) after := by
  simp [outputs, trace_append]

@[simp] theorem guarded_nil (ok : State → Action → Prop) (s : State) : m.Guarded ok s [] := by
  simp [Guarded]

@[simp] theorem guarded_cons (ok : State → Action → Prop) (s : State) (a : Action)
    (rest : List Action) :
    m.Guarded ok s (a :: rest) ↔ ok s a ∧ m.Guarded ok (m.next s a) rest := by
  simp [Guarded]

theorem guarded_append (ok : State → Action → Prop) (s : State) (before after : List Action) :
    m.Guarded ok s (before ++ after) ↔
      m.Guarded ok s before ∧ m.Guarded ok (m.final s before) after := by
  simp only [Guarded, trace_append, List.mem_append]
  constructor
  · exact fun h => ⟨fun x hx => h x (Or.inl hx), fun x hx => h x (Or.inr hx)⟩
  · rintro ⟨hbefore, hafter⟩ x (hx | hx)
    · exact hbefore x hx
    · exact hafter x hx

theorem Guarded.mono {ok ok' : State → Action → Prop} {s : State} {actions : List Action}
    (h : m.Guarded ok s actions) (himp : ∀ s a, ok s a → ok' s a) : m.Guarded ok' s actions :=
  fun x hx => himp _ _ (h x hx)

theorem guarded_congr {ok ok' : State → Action → Prop} (hiff : ∀ s a, ok s a ↔ ok' s a) (s : State)
    (actions : List Action) : m.Guarded ok s actions ↔ m.Guarded ok' s actions :=
  forall₂_congr fun x _ => hiff x.1 x.2

/-- A run splits at any action of its trace. -/
theorem mem_trace {s : State} {actions : List Action} {x : State × Action}
    (hx : x ∈ m.trace s actions) :
    ∃ before after, actions = before ++ x.2 :: after ∧ x.1 = m.final s before := by
  induction actions generalizing s with
  | nil => simp at hx
  | cons a rest ih =>
    rcases List.mem_cons.mp hx with rfl | hx
    · exact ⟨[], rest, rfl, rfl⟩
    · obtain ⟨before, after, rfl, hstate⟩ := ih hx
      exact ⟨a :: before, after, rfl, hstate⟩

/-- A run that is not guarded has a first step that misses the guard. -/
theorem exists_first_unguarded {ok : State → Action → Prop} {s : State} {actions : List Action}
    (unguarded : ¬ m.Guarded ok s actions) :
    ∃ before a after, actions = before ++ a :: after ∧ m.Guarded ok s before ∧
      ¬ ok (m.final s before) a := by
  induction actions generalizing s with
  | nil => exact absurd (guarded_nil ok s) unguarded
  | cons a rest ih =>
    by_cases hok : ok s a
    · have hrest : ¬ m.Guarded ok (m.next s a) rest :=
        fun h => unguarded ((guarded_cons ok s a rest).mpr ⟨hok, h⟩)
      -- This step meets the guard, so the first that does not is in the rest.
      obtain ⟨before, b, after, rfl, hbefore, hb⟩ := ih hrest
      exact ⟨a :: before, b, after, rfl, (guarded_cons ok s a before).mpr ⟨hok, hbefore⟩, hb⟩
    · exact ⟨[], a, rest, rfl, guarded_nil ok s, hok⟩

/-- **Invariant rule.** A state property preserved by each guarded step holds
after every guarded run. -/
theorem invariant {Inv : State → Prop} {ok : State → Action → Prop}
    (preserved : ∀ s a, Inv s → ok s a → Inv (m.next s a))
    {s : State} (initial : Inv s) {actions : List Action} (guarded : m.Guarded ok s actions) :
    Inv (m.final s actions) := by
  induction actions generalizing s with
  | nil => exact initial
  | cons a rest ih =>
    obtain ⟨hok, hrest⟩ := (guarded_cons ok s a rest).mp guarded
    exact ih (preserved s a initial hok) hrest

/-- **Frame rule.** What only some actions change is the same after a run without them. -/
theorem frame {α : Type*} (part : State → α) {touches : Action → Bool}
    (untouched : ∀ s a, touches a = false → part (m.next s a) = part s)
    {s : State} {actions : List Action} (none : actions.countP touches = 0) :
    part (m.final s actions) = part s := by
  induction actions generalizing s with
  | nil => rfl
  | cons a rest ih =>
    have huntouched := List.countP_eq_zero.mp none
    have hrest : rest.countP touches = 0 :=
      List.countP_eq_zero.mpr fun b hb => huntouched b (List.mem_cons_of_mem a hb)
    have hfirst := Bool.eq_false_iff.mpr (huntouched a List.mem_cons_self)
    exact (ih hrest).trans (untouched s a hfirst)

/-- **History invariant rule.** A property of the state and of everything emitted
so far, preserved by each guarded step, holds after every guarded run. -/
theorem history_invariant {Inv : State → List Output → Prop} {ok : State → Action → Prop}
    (preserved : ∀ s past a, Inv s past → ok s a → Inv (m.next s a) (past ++ m.emit s a))
    {s : State} {past : List Output} (initial : Inv s past) {actions : List Action}
    (guarded : m.Guarded ok s actions) :
    Inv (m.final s actions) (past ++ m.outputs s actions) := by
  induction actions generalizing s past with
  | nil => simpa using initial
  | cons a rest ih =>
    obtain ⟨hok, hrest⟩ := (guarded_cons ok s a rest).mp guarded
    have hstep := ih (preserved s past a initial hok) hrest
    simpa [List.append_assoc] using hstep

/-- The history rule from an empty history. -/
theorem history_invariant_nil {Inv : State → List Output → Prop} {ok : State → Action → Prop}
    (preserved : ∀ s past a, Inv s past → ok s a → Inv (m.next s a) (past ++ m.emit s a))
    {s : State} (initial : Inv s []) {actions : List Action}
    (guarded : m.Guarded ok s actions) : Inv (m.final s actions) (m.outputs s actions) := by
  simpa using history_invariant preserved initial guarded

/-! ### Simulations

One machine does, step by step, what another one does in some steps of its own. -/

section Simulation

variable {State' Action' : Type*} {m' : Machine State' Action' Output}

/-- **Simulation rule.** When what is seen of each guarded step is what the other machine
emits on the actions that the step stands for, and leads to related states, so does every
guarded run. -/
theorem simulation {Seen : Type*} {m' : Machine State' Action' Seen} {R : State → State' → Prop}
    {ok : State → Action → Prop} {means : State → Action → List Action'}
    {see : Output → Option Seen}
    (step : ∀ s s' a, R s s' → ok s a →
      (m.emit s a).filterMap see = m'.outputs s' (means s a) ∧
        R (m.next s a) (m'.final s' (means s a)))
    {s : State} {s' : State'} (related : R s s') {actions : List Action}
    (guarded : m.Guarded ok s actions) :
    (m.outputs s actions).filterMap see =
        m'.outputs s' ((m.trace s actions).flatMap fun x => means x.1 x.2) ∧
      R (m.final s actions) (m'.final s' ((m.trace s actions).flatMap fun x => means x.1 x.2)) := by
  induction actions generalizing s s' with
  | nil => exact ⟨rfl, related⟩
  | cons a rest ih =>
    obtain ⟨hok, hrest⟩ := (guarded_cons ok s a rest).mp guarded
    obtain ⟨hemit, hrelated⟩ := step s s' a related hok
    obtain ⟨houtputs, hfinal⟩ := ih hrelated hrest
    rw [outputs_cons, List.filterMap_append, trace_cons, List.flatMap_cons, outputs_append,
      final_append, hemit, houtputs]
    exact ⟨rfl, hfinal⟩

/-- **Guard rule.** When the actions that each guarded step stands for are guarded in the other
machine, so are those of every guarded run. -/
theorem simulation_guarded {Seen : Type*} {m' : Machine State' Action' Seen}
    {R : State → State' → Prop} {ok : State → Action → Prop}
    {ok' : State' → Action' → Prop} {means : State → Action → List Action'}
    (step : ∀ s s' a, R s s' → ok s a →
      m'.Guarded ok' s' (means s a) ∧ R (m.next s a) (m'.final s' (means s a)))
    {s : State} {s' : State'} (related : R s s') {actions : List Action}
    (guarded : m.Guarded ok s actions) :
    m'.Guarded ok' s' ((m.trace s actions).flatMap fun x => means x.1 x.2) := by
  induction actions generalizing s s' with
  | nil => exact guarded_nil _ _
  | cons a rest ih =>
    obtain ⟨hok, hrest⟩ := (guarded_cons ok s a rest).mp guarded
    obtain ⟨hmeans, hrelated⟩ := step s s' a related hok
    rw [trace_cons, List.flatMap_cons, guarded_append]
    exact ⟨hmeans, ih hrelated hrest⟩

/-- The simulation rule, when an action stands for the same actions in every state. -/
theorem simulation_flatMap {R : State → State' → Prop} {ok : Action → Prop}
    {means : Action → List Action'}
    (step : ∀ s s' a, R s s' → ok a →
      m.emit s a = m'.outputs s' (means a) ∧ R (m.next s a) (m'.final s' (means a)))
    {s : State} {s' : State'} (related : R s s') {actions : List Action}
    (allowed : ∀ a ∈ actions, ok a) :
    m.outputs s actions = m'.outputs s' (actions.flatMap means) ∧
      R (m.final s actions) (m'.final s' (actions.flatMap means)) := by
  have hguarded : m.Guarded (fun _ a => ok a) s actions := fun x hx =>
    allowed x.2 ((m.map_snd_trace s actions) ▸ List.mem_map_of_mem hx)
  have hmeans : ((m.trace s actions).flatMap fun x => means x.2) = actions.flatMap means := by
    rw [← List.flatMap_map, map_snd_trace]
  have hstep : ∀ s s' a, R s s' → ok a →
      (m.emit s a).filterMap some = m'.outputs s' (means a) ∧
        R (m.next s a) (m'.final s' (means a)) := by
    intro s s' a hrelated hok
    rw [List.filterMap_some]
    exact step s s' a hrelated hok
  have hrun := simulation hstep related hguarded
  rwa [List.filterMap_some, hmeans] at hrun

/-- The simulation rule for machines with the same actions. -/
theorem simulation_actions {m' : Machine State' Action Output} {R : State → State' → Prop}
    {ok : Action → Prop}
    (step : ∀ s s' a, R s s' → ok a →
      m.emit s a = m'.emit s' a ∧ R (m.next s a) (m'.next s' a))
    {s : State} {s' : State'} (related : R s s') {actions : List Action}
    (allowed : ∀ a ∈ actions, ok a) :
    m.outputs s actions = m'.outputs s' actions ∧
      R (m.final s actions) (m'.final s' actions) := by
  have hstep : ∀ s s' a, R s s' → ok a →
      m.emit s a = m'.outputs s' [a] ∧ R (m.next s a) (m'.final s' [a]) := by
    intro s s' a hrelated hok
    rw [outputs_cons, outputs_nil, List.append_nil]
    exact step s s' a hrelated hok
  have hrun := simulation_flatMap hstep related allowed
  rwa [List.flatMap_singleton'] at hrun

end Simulation

/-! ### Machines that can stop

The state is optional: once it is gone, it stays gone. -/

section Stopping

variable {m : Machine (Option State) Action Output} {s s' : State}

theorem final_none (stopped : ∀ a, m.next none a = none) (actions : List Action) :
    m.final none actions = none := by
  induction actions with
  | nil => rfl
  | cons a rest ih => rwa [final_cons, stopped a]

/-- A run that does not stop does not stop at its first action. -/
theorem next_of_final_cons (stopped : ∀ a, m.next none a = none) {a : Action} {rest : List Action}
    (alive : m.final (some s) (a :: rest) = some s') :
    ∃ s₁, m.next (some s) a = some s₁ ∧ m.final (some s₁) rest = some s' := by
  rw [final_cons] at alive
  cases hnext : m.next (some s) a with
  | none =>
    rw [hnext, final_none stopped] at alive
    cases alive
  | some s₁ => exact ⟨s₁, rfl, by rwa [hnext] at alive⟩

/-- **Invariant rule, while the machine runs.** What every guarded step that does not
stop preserves holds after every guarded run that does not stop. -/
theorem invariant_alive (Inv : State → Prop) {ok : Option State → Action → Prop}
    (stopped : ∀ a, m.next none a = none)
    (preserved : ∀ s a s', Inv s → ok (some s) a → m.next (some s) a = some s' → Inv s')
    (initial : Inv s) {actions : List Action} (guarded : m.Guarded ok (some s) actions)
    (alive : m.final (some s) actions = some s') : Inv s' := by
  -- The property of the state, if there is one, is an invariant of the machine.
  have hopt : ∀ o a, (∀ s ∈ o, Inv s) → ok o a → ∀ s ∈ m.next o a, Inv s := by
    intro o a hinv hok s₁ hs₁
    cases o with
    | none =>
      rw [stopped a] at hs₁
      cases hs₁
    | some s => exact preserved s a s₁ (hinv s rfl) hok hs₁
  have hinitial : ∀ s₀ ∈ some s, Inv s₀ := by
    intro s₀ hs₀
    obtain rfl := Option.some.inj hs₀
    exact initial
  exact invariant hopt hinitial guarded s' alive

end Stopping

/-- **Freshness rule.** Give some steps a key. When steps without a key are silent, one
step repeats no mark, and two steps have a mark in common exactly when their keys
agree, a run repeats no mark iff it repeats no key. -/
theorem nodup_outputs_iff {Key Mark : Type*} {key : State → Action → Option Key}
    {mark : Output → Mark} (silent : ∀ s a, key s a = none → m.emit s a = [])
    (nodup : ∀ s a, ((m.emit s a).map mark).Nodup)
    (apart : ∀ s a s' a' k k', key s a = some k → key s' a' = some k' →
      (((m.emit s a).map mark).Disjoint ((m.emit s' a').map mark) ↔ k ≠ k'))
    (s : State) (actions : List Action) :
    ((m.outputs s actions).map mark).Nodup ↔
      ((m.trace s actions).filterMap fun x => key x.1 x.2).Nodup := by
  have hkeys : ((m.trace s actions).filterMap fun x => key x.1 x.2).Nodup ↔
      (m.trace s actions).Pairwise fun x y =>
        ∀ k, key x.1 x.2 = some k → ∀ k', key y.1 y.2 = some k' → k ≠ k' :=
    List.pairwise_filterMap
  rw [outputs, List.map_flatMap, List.nodup_flatMap, hkeys]
  constructor
  · rintro ⟨_, hpairs⟩
    refine hpairs.imp fun {x y} hxy k hk k' hk' => ?_
    exact (apart _ _ _ _ k k' hk hk').mp hxy
  · intro hdistinct
    -- A step without a key has no mark to share.
    refine ⟨fun x _ => nodup x.1 x.2, hdistinct.imp fun {x y} hxy => ?_⟩
    cases hk : key x.1 x.2 with
    | none =>
      have hempty := silent _ _ hk
      simp [Function.onFun, hempty]
    | some k =>
      cases hk' : key y.1 y.2 with
      | none =>
        have hempty := silent _ _ hk'
        simp [Function.onFun, hempty]
      | some k' => exact (apart _ _ _ _ k k' hk hk').mpr (hxy k hk k' hk')

end Machine

end Gibberish.Foundation
