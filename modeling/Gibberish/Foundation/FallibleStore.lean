/-
# Stores whose calls may fail

A store of cells that are read and written one at a time. A call that fails reads
nothing, and a write that fails may have taken effect or not. What a read can give is
therefore the value of the last write that was acknowledged, or that of a write that has
failed since.
-/

import Mathlib.Data.List.Basic
import Mathlib.Logic.Function.Basic

set_option autoImplicit false

namespace Gibberish.Foundation

/-- A call to a store, with its answer. -/
inductive StoreCall (α β ε : Type*) where
  | read (a : α) (answer : Except ε β)
  | write (a : α) (v : β) (answer : Except ε Unit)

namespace StoreCall

variable {α β ε : Type*} [DecidableEq α]

/-- What a call may do to the cells. -/
def Effect (cells cells' : α → β) : StoreCall α β ε → Prop
  | .read a (.ok v) => v = cells a ∧ cells' = cells
  | .read _ (.error _) => cells' = cells
  | .write a v (.ok _) => cells' = Function.update cells a v
  | .write a v (.error _) => cells' = cells ∨ cells' = Function.update cells a v

/-- What calls may do to the cells, one after the other. -/
def Run : (α → β) → List (StoreCall α β ε) → (α → β) → Prop
  | cells, [], cells' => cells' = cells
  | cells, call :: rest, cells' => ∃ cells₁, call.Effect cells cells₁ ∧ Run cells₁ rest cells'

/-- What a cell may hold behind a call, when it may have held these values before. -/
def candidatesAfter (a : α) (before : List β) : StoreCall α β ε → List β
  | .write a' v (.ok _) => if a' = a then [v] else before
  | .write a' v (.error _) => if a' = a then v :: before else before
  | .read _ _ => before

/-- What a cell may hold behind some calls: the value of the last acknowledged write, or
of one that failed since. -/
def candidates (a : α) (v : β) (calls : List (StoreCall α β ε)) : List β :=
  calls.foldl (candidatesAfter a) [v]

variable {cells cells' cells₁ : α → β} {calls calls' : List (StoreCall α β ε)}

theorem run_append :
    Run cells (calls ++ calls') cells' ↔ ∃ cells₁, Run cells calls cells₁ ∧ Run cells₁ calls' cells' := by
  induction calls generalizing cells with
  | nil => simp [Run]
  | cons call calls ih =>
    simp only [List.cons_append, Run, ih]
    constructor
    · rintro ⟨cells₁, heffect, cells₂, hrun, hrun'⟩
      exact ⟨cells₂, ⟨cells₁, heffect, hrun⟩, hrun'⟩
    · rintro ⟨cells₂, ⟨cells₁, heffect, hrun⟩, hrun'⟩
      exact ⟨cells₁, heffect, cells₂, hrun, hrun'⟩

@[simp] theorem run_singleton {call : StoreCall α β ε} :
    Run cells [call] cells' ↔ call.Effect cells cells' := by
  simp [Run]

/-- A call leaves a cell with one of its candidates. -/
theorem Effect.mem_candidatesAfter {call : StoreCall α β ε} (effect : call.Effect cells cells')
    {a : α} {before : List β} (held : cells a ∈ before) :
    cells' a ∈ candidatesAfter a before call := by
  cases call with
  | read a' answer =>
    have hsame : cells' = cells := by
      cases answer with
      | ok v => exact effect.2
      | error e => exact effect
    rwa [candidatesAfter, hsame]
  | write a' v answer =>
    by_cases ha : a' = a
    · subst ha
      cases answer with
      | ok _ =>
        rw [candidatesAfter, if_pos rfl, show cells' = Function.update cells a' v from effect,
          Function.update_self]
        exact List.mem_singleton_self v
      | error e =>
        rw [candidatesAfter, if_pos rfl]
        rcases effect with rfl | rfl
        · exact List.mem_cons_of_mem v held
        · rw [Function.update_self]
          exact List.mem_cons_self
    · cases answer with
      | ok _ =>
        rw [candidatesAfter, if_neg ha, show cells' = Function.update cells a' v from effect,
          Function.update_of_ne (Ne.symm ha)]
        exact held
      | error e =>
        rw [candidatesAfter, if_neg ha]
        rcases effect with rfl | rfl
        · exact held
        · rwa [Function.update_of_ne (Ne.symm ha)]

/-- A run leaves a cell with one of its candidates. -/
theorem Run.mem_candidates (run : Run cells calls cells') (a : α) :
    cells' a ∈ candidates a (cells a) calls := by
  have hrun : ∀ before : List β, cells a ∈ before →
      cells' a ∈ calls.foldl (candidatesAfter a) before := by
    induction calls generalizing cells with
    | nil =>
      intro before held
      rwa [List.foldl_nil, show cells' = cells from run]
    | cons call calls ih =>
      intro before held
      obtain ⟨cells₁, heffect, hrest⟩ := run
      exact ih hrest _ (heffect.mem_candidatesAfter held)
  exact hrun [cells a] (List.mem_singleton_self _)

/-- Every read that succeeds gives the value of the last acknowledged write to its cell,
or of a write to it that failed since. -/
def ReadsCandidates (cells : α → β) (calls : List (StoreCall α β ε)) : Prop :=
  ∀ before a v after, calls = before ++ .read a (.ok v) :: after →
    v ∈ candidates a (cells a) before

/-- **What is read.** The reads of a run give candidates. -/
theorem Run.readsCandidates (run : Run cells calls cells') : ReadsCandidates cells calls := by
  rintro before a v after rfl
  obtain ⟨cells₁, hbefore, cells₂, ⟨rfl, -⟩, -⟩ := run_append.mp run
  exact hbefore.mem_candidates a

end StoreCall

end Gibberish.Foundation
