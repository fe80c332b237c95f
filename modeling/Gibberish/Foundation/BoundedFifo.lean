/-
# Bounded queues

A queue of at most so many elements, as a list with the oldest first. A push onto a full
queue first takes the oldest element off. What leaves a queue leaves it in the order of the
pushes, and nothing is lost otherwise.
-/

import Gibberish.Foundation.Machine

set_option autoImplicit false

namespace Gibberish.Foundation

/-- The calls on a queue. -/
inductive FifoOp (α : Type*) where
  | push (x : α)
  | pop
  | peek
  | clear
  deriving DecidableEq

namespace Fifo

variable {α : Type*}

/-- One call, with what it returns. Only clearing returns nothing at all. -/
def step (capacity : ℕ) (held : List α) : FifoOp α → List α × List (Option α)
  | .push x =>
    if held.length = capacity then (held.tail ++ [x], [held.head?]) else (held ++ [x], [none])
  | .pop => (held.tail, [held.head?])
  | .peek => (held, [held.head?])
  | .clear => ([], [])

def machine (α : Type*) (capacity : ℕ) : Machine (List α) (FifoOp α) (Option α) :=
  ⟨step capacity⟩

/-- The call is a push onto a full queue. -/
def Evicts (capacity : ℕ) (held : List α) : FifoOp α → Prop
  | .push _ => held.length = capacity
  | _ => False

instance (capacity : ℕ) (held : List α) : DecidablePred (Evicts capacity held) := fun op =>
  match op with
  | .push _ => inferInstanceAs (Decidable (held.length = capacity))
  | .pop | .peek | .clear => inferInstanceAs (Decidable False)

/-- How many calls of a run are pushes onto a full queue. -/
def evictions (capacity : ℕ) (held : List α) (ops : List (FifoOp α)) : ℕ :=
  ((machine α capacity).trace held ops).countP fun x => Evicts capacity x.1 x.2

/-- What is taken off the queue: one element, or all of them. -/
def departs (capacity : ℕ) (held : List α) : FifoOp α → List α
  | .push _ => if held.length = capacity then held.take 1 else []
  | .pop => held.take 1
  | .peek => []
  | .clear => held

/-- What is put onto the queue. -/
def pushed : FifoOp α → List α
  | .push x => [x]
  | _ => []

/-- Everything a run takes off the queue, in order. -/
def departed (capacity : ℕ) (held : List α) (ops : List (FifoOp α)) : List α :=
  ((machine α capacity).trace held ops).flatMap fun x => departs capacity x.1 x.2

variable {capacity : ℕ} {held : List α}

@[simp] theorem evictions_nil : evictions capacity held [] = 0 := rfl

theorem evictions_cons (op : FifoOp α) (rest : List (FifoOp α)) :
    evictions capacity held (op :: rest) =
      (if Evicts capacity held op then 1 else 0) +
        evictions capacity ((machine α capacity).next held op) rest := by
  rw [evictions, Machine.trace_cons, List.countP_cons, Nat.add_comm]
  simp only [decide_eq_true_eq, evictions]

@[simp] theorem departed_nil : departed capacity held [] = [] := rfl

@[simp] theorem departed_cons (op : FifoOp α) (rest : List (FifoOp α)) :
    departed capacity held (op :: rest) =
      departs capacity held op ++ departed capacity ((machine α capacity).next held op) rest := by
  simp [departed]

/-- **Step lemma.** What was held or is pushed departs or is held afterwards. -/
theorem departs_append_next (op : FifoOp α) :
    departs capacity held op ++ (machine α capacity).next held op = held ++ pushed op := by
  cases op with
  | push x =>
    show departs capacity held (.push x) ++ (step capacity held (.push x)).1 = held ++ [x]
    rw [departs, step]
    split
    · rw [← List.append_assoc, ← List.drop_one, List.take_append_drop]
    · rfl
  | pop =>
    show held.take 1 ++ held.tail = held ++ []
    rw [← List.drop_one, List.take_append_drop, List.append_nil]
  | peek =>
    show [] ++ held = held ++ []
    rw [List.nil_append, List.append_nil]
  | clear => rfl

/-- **First in, first out.** In any run, what departs and then what is still held is what was
held at first and then what was pushed, each element once and in this order. -/
theorem departed_append_final (held : List α) (ops : List (FifoOp α)) :
    departed capacity held ops ++ (machine α capacity).final held ops =
      held ++ ops.flatMap pushed := by
  induction ops generalizing held with
  | nil => simp
  | cons op rest ih =>
    rw [departed_cons, Machine.final_cons, List.append_assoc, ih, ← List.append_assoc,
      departs_append_next, List.append_assoc, List.flatMap_cons]

/-- A call keeps within the capacity. -/
theorem length_next_le (hpos : 0 < capacity) (h : held.length ≤ capacity) (op : FifoOp α) :
    ((machine α capacity).next held op).length ≤ capacity := by
  cases op with
  | push x =>
    show (step capacity held (.push x)).1.length ≤ capacity
    rw [step]
    split
    · simp only [List.length_append, List.length_tail, List.length_singleton]
      omega
    · simp only [List.length_append, List.length_singleton]
      omega
  | pop =>
    show held.tail.length ≤ capacity
    rw [List.length_tail]
    omega
  | peek => exact h
  | clear => exact Nat.zero_le capacity

/-- **Bound.** No run exceeds the capacity. -/
theorem length_final_le (hpos : 0 < capacity) (h : held.length ≤ capacity)
    (ops : List (FifoOp α)) : ((machine α capacity).final held ops).length ≤ capacity := by
  induction ops generalizing held with
  | nil => exact h
  | cons op rest ih => exact ih (length_next_le hpos h op)

end Fifo

end Gibberish.Foundation
