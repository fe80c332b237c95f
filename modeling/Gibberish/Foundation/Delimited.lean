/-
# Streams cut at a separator

A stream is cut behind every separator into complete pieces, and what follows the last
separator is pending. Cutting a stream as it comes in gives the pieces of the whole
stream: what is pending is put before what comes next.
-/

import Mathlib.Data.List.Basic

set_option autoImplicit false

namespace Gibberish.Foundation

/-- A piece with its separator at the end, and only there. -/
def Terminated {α : Type*} (sep : α) (piece : List α) : Prop :=
  ∃ content, piece = content ++ [sep] ∧ sep ∉ content

variable {α : Type*} [DecidableEq α] {sep : α}

/-- The complete pieces of a stream, each with its separator, and what is pending. -/
def cut (sep : α) (stream : List α) : List (List α) × List α :=
  match h : stream.idxOf? sep with
  | none => ([], stream)
  | some pos =>
    let rest := cut sep (stream.drop (pos + 1))
    (stream.take (pos + 1) :: rest.1, rest.2)
termination_by stream.length
decreasing_by
  obtain ⟨hlt, -⟩ := List.findIdx?_eq_some_iff_getElem.mp h
  rw [List.length_drop]
  omega

/-- The first separator of a stream ends its first piece. -/
theorem idxOf?_append {content : List α} (h : sep ∉ content) (rest : List α) :
    (content ++ sep :: rest).idxOf? sep = some content.length := by
  induction content with
  | nil => rw [List.nil_append, List.idxOf?_cons, if_pos (beq_self_eq_true sep), List.length_nil]
  | cons a content ih =>
    rw [List.mem_cons, not_or] at h
    have hne : (a == sep) = false := beq_false_of_ne (Ne.symm h.1)
    rw [List.cons_append, List.idxOf?_cons, hne, ih h.2]
    rfl

/-- Without a separator nothing is complete. -/
theorem cut_of_notMem {stream : List α} (h : sep ∉ stream) : cut sep stream = ([], stream) := by
  rw [cut]
  split
  · rfl
  · rename_i pos hpos
    rw [List.idxOf?_eq_none_iff.mpr h] at hpos
    cases hpos

/-- A piece at the front is cut off. -/
theorem cut_append_of_terminated {piece : List α} (h : Terminated sep piece) (rest : List α) :
    cut sep (piece ++ rest) = (piece :: (cut sep rest).1, (cut sep rest).2) := by
  obtain ⟨content, rfl, hcontent⟩ := h
  have hidx : (content ++ [sep] ++ rest).idxOf? sep = some content.length := by
    rw [List.append_assoc]
    exact idxOf?_append hcontent rest
  have hlen : (content ++ [sep]).length = content.length + 1 := List.length_append
  rw [cut]
  split
  · rename_i hnone
    rw [hidx] at hnone
    cases hnone
  · rename_i pos hpos
    obtain rfl : content.length = pos := Option.some.inj (hidx.symm.trans hpos)
    rw [← hlen, List.take_left, List.drop_left]

omit [DecidableEq α] in
/-- A stream with a separator has a piece at the front. -/
theorem exists_terminated_append {stream : List α} (h : sep ∈ stream) :
    ∃ piece rest, Terminated sep piece ∧ stream = piece ++ rest := by
  obtain ⟨content, rest, rfl, hcontent⟩ := List.eq_append_cons_of_mem h
  exact ⟨content ++ [sep], rest, ⟨content, rfl, hcontent⟩, by rw [List.append_assoc]; rfl⟩

omit [DecidableEq α] in
/-- A piece at the front reaches beyond what has no separator. -/
theorem Terminated.length_lt {piece rest stream more : List α} (h : Terminated sep piece)
    (hstream : sep ∉ stream) (heq : piece ++ rest = stream ++ more) :
    stream.length < piece.length := by
  obtain ⟨content, rfl, -⟩ := h
  by_contra hle
  rw [Nat.not_lt] at hle
  -- Otherwise the piece and its separator would be part of the stream.
  have hfront : content ++ [sep] <+: stream :=
    List.prefix_of_prefix_length_le (heq ▸ List.prefix_append _ _) (List.prefix_append _ _) hle
  exact hstream (hfront.subset (List.mem_append_right _ (List.mem_singleton_self sep)))

omit [DecidableEq α] in
/-- **Induction on pieces.** What holds of streams without a separator, and of a stream with
one more piece at the front, holds of every stream. -/
theorem piece_induction (sep : α) {P : List α → Prop} (pending : ∀ stream, sep ∉ stream → P stream)
    (piece : ∀ piece rest, Terminated sep piece → P rest → P (piece ++ rest)) (stream : List α) :
    P stream := by
  induction hlen : stream.length using Nat.strongRecOn generalizing stream with
  | _ n ih =>
    by_cases hmem : sep ∈ stream
    · obtain ⟨first, rest, hfirst, rfl⟩ := exists_terminated_append hmem
      have hshorter : rest.length < n := by
        obtain ⟨content, rfl, -⟩ := hfirst
        rw [← hlen, List.length_append, List.length_append, List.length_singleton]
        omega
      exact piece first rest hfirst (ih _ hshorter rest rfl)
    · exact pending stream hmem

/-- Cutting loses nothing. -/
theorem flatten_cut (sep : α) (stream : List α) :
    (cut sep stream).1.flatten ++ (cut sep stream).2 = stream := by
  induction stream using piece_induction sep with
  | pending stream hstream => rw [cut_of_notMem hstream, List.flatten_nil, List.nil_append]
  | piece first rest hfirst ih =>
    rw [cut_append_of_terminated hfirst, List.flatten_cons, List.append_assoc, ih]

/-- What is pending has no separator. -/
theorem notMem_pending (sep : α) (stream : List α) : sep ∉ (cut sep stream).2 := by
  induction stream using piece_induction sep with
  | pending stream hstream => rwa [cut_of_notMem hstream]
  | piece first rest hfirst ih => rwa [cut_append_of_terminated hfirst]

/-- **Cutting as the stream comes in.** What is pending is put before what comes next. -/
theorem cut_append (sep : α) (stream more : List α) :
    cut sep (stream ++ more) =
      ((cut sep stream).1 ++ (cut sep ((cut sep stream).2 ++ more)).1,
        (cut sep ((cut sep stream).2 ++ more)).2) := by
  induction stream using piece_induction sep with
  | pending stream hstream => rw [cut_of_notMem hstream, List.nil_append]
  | piece first rest hfirst ih =>
    rw [List.append_assoc, cut_append_of_terminated hfirst, cut_append_of_terminated hfirst, ih,
      List.cons_append]

/-- Complete pieces one after the other are cut apart again. -/
theorem cut_flatten {pieces : List (List α)} (h : ∀ piece ∈ pieces, Terminated sep piece) :
    cut sep pieces.flatten = (pieces, []) := by
  induction pieces with
  | nil => exact cut_of_notMem List.not_mem_nil
  | cons piece rest ih =>
    obtain ⟨hpiece, hrest⟩ := List.forall_mem_cons.mp h
    rw [List.flatten_cons, cut_append_of_terminated hpiece, ih hrest]

end Gibberish.Foundation
