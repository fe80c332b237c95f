/-
# Runs without some of their actions

Of two runs of one machine, the second leaves some actions out. The rule compares what
an observer sees of both: when the states stay related, an action that is left out shows
nothing, and an action of both runs shows the same, the observer cannot tell the runs
apart. Actions of both runs may have to meet a condition on the two states they are
taken in.

A machine may also be run through an image of its states.
-/

import Gibberish.Foundation.Machine

set_option autoImplicit false

namespace Gibberish.Foundation.Machine

variable {State State' Action Output : Type*}

/-! ### The run that leaves actions out -/

section Purge

variable (m : Machine State Action Output) (dropped : Action → Prop) [DecidablePred dropped]

/-- The actions that are kept. -/
def purge (actions : List Action) : List Action := actions.filter fun a => ¬ dropped a

/-- Two copies of the machine; the second misses the actions that are dropped. -/
def beside : Machine (State × State) Action Empty where
  step p a := ((m.next p.1 a, if dropped a then p.2 else m.next p.2 a), [])

variable {m dropped}

theorem purge_cons_of_dropped {a : Action} (h : dropped a) (rest : List Action) :
    purge dropped (a :: rest) = purge dropped rest :=
  List.filter_cons_of_neg (by simp [h])

theorem purge_cons_of_kept {a : Action} (h : ¬ dropped a) (rest : List Action) :
    purge dropped (a :: rest) = a :: purge dropped rest :=
  List.filter_cons_of_pos (by simp [h])

theorem next_beside_of_dropped {a : Action} (h : dropped a) (p : State × State) :
    (m.beside dropped).next p a = (m.next p.1 a, p.2) :=
  Prod.ext rfl (if_pos h)

theorem next_beside_of_kept {a : Action} (h : ¬ dropped a) (p : State × State) :
    (m.beside dropped).next p a = (m.next p.1 a, m.next p.2 a) :=
  Prod.ext rfl (if_neg h)

/-- **Unwinding.** When related states stay related, dropped actions show nothing, and
kept actions show the same from related states, both runs show the same. -/
theorem unwinding {Visible : Type*} {view : Output → Option Visible}
    {Rel : State × State → Prop} {ok : State × State → Action → Prop}
    (related : ∀ p a, Rel p → ok p a → Rel ((m.beside dropped).next p a))
    (silent : ∀ p a, Rel p → dropped a → (m.emit p.1 a).filterMap view = [])
    (alike : ∀ p a, Rel p → ok p a → ¬ dropped a →
      (m.emit p.1 a).filterMap view = (m.emit p.2 a).filterMap view)
    {s t : State} (initial : Rel (s, t)) {actions : List Action}
    (guarded : (m.beside dropped).Guarded ok (s, t) actions) :
    (m.outputs s actions).filterMap view =
      (m.outputs t (purge dropped actions)).filterMap view := by
  induction actions generalizing s t with
  | nil => rfl
  | cons a rest ih =>
    obtain ⟨hok, hrest⟩ := (guarded_cons _ _ _ _).mp guarded
    have hrel := related (s, t) a initial hok
    rw [outputs_cons, List.filterMap_append]
    by_cases ha : dropped a
    · rw [next_beside_of_dropped ha] at hrel hrest
      rw [purge_cons_of_dropped ha, silent (s, t) a initial ha, List.nil_append]
      exact ih hrel hrest
    · rw [next_beside_of_kept ha] at hrel hrest
      rw [purge_cons_of_kept ha, outputs_cons, List.filterMap_append,
        alike (s, t) a initial hok ha, ih hrel hrest]

end Purge

/-! ### The image of a run -/

section Image

variable {m : Machine State Action Output} {m' : Machine State' Action Output}
  {image : State → State'}

/-- A machine that steps as the image does, and emits the same, emits the same in a run. -/
theorem outputs_image (steps : ∀ s a, m'.step (image s) a = (image (m.next s a), m.emit s a))
    (s : State) (actions : List Action) : m'.outputs (image s) actions = m.outputs s actions := by
  induction actions generalizing s with
  | nil => rfl
  | cons a rest ih =>
    rw [outputs_cons, outputs_cons, next, emit, steps, ih]

/-- It ends in the image of the state. -/
theorem final_image (steps : ∀ s a, m'.step (image s) a = (image (m.next s a), m.emit s a))
    (s : State) (actions : List Action) :
    m'.final (image s) actions = image (m.final s actions) := by
  induction actions generalizing s with
  | nil => rfl
  | cons a rest ih => rw [final_cons, final_cons, next, steps, ih]

/-- A run of two copies passes through images of the states. -/
theorem guarded_beside_image {dropped : Action → Prop} [DecidablePred dropped]
    (steps : ∀ s a, m'.step (image s) a = (image (m.next s a), m.emit s a))
    (ok : State' × State' → Action → Prop) (p : State × State) (actions : List Action) :
    (m'.beside dropped).Guarded ok (image p.1, image p.2) actions ↔
      (m.beside dropped).Guarded (fun p => ok (image p.1, image p.2)) p actions := by
  have hnext : ∀ s a, m'.next (image s) a = image (m.next s a) :=
    fun s a => congrArg Prod.fst (steps s a)
  induction actions generalizing p with
  | nil => simp only [guarded_nil]
  | cons a rest ih =>
    rw [guarded_cons, guarded_cons]
    by_cases ha : dropped a
    · rw [next_beside_of_dropped ha, next_beside_of_dropped ha, hnext]
      exact and_congr_right fun _ => ih (m.next p.1 a, p.2)
    · rw [next_beside_of_kept ha, next_beside_of_kept ha, hnext, hnext]
      exact and_congr_right fun _ => ih (m.next p.1 a, m.next p.2 a)

end Image

end Gibberish.Foundation.Machine
