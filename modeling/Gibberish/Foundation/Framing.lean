/-
# Frames in a stream

A frame is a header and a fixed number of items behind it. A stream is read by search:
find the leftmost header, take the items behind it, go on right behind them. No header
overlaps another, as its first item does not come again in it, so noise that holds no
header hides none, and where some of one frame's items are lost the search is in step
again with the second frame behind it.
-/

import Mathlib.Data.List.Infix

set_option autoImplicit false

namespace Gibberish.Foundation

/-! ### Unbordered patterns -/

section Unbordered

variable {α : Type*} {c : α} {tail : List α}

/-- A pattern whose first item does not come again in it starts, behind a text without
it, no earlier than that text ends. -/
theorem length_le_of_occurrence {pre rest front back : List α} (unbordered : c ∉ tail)
    (absent : ¬ (c :: tail) <:+: pre)
    (heq : pre ++ ((c :: tail) ++ rest) = front ++ ((c :: tail) ++ back)) :
    pre.length ≤ front.length := by
  rw [List.append_eq_append_iff] at heq
  rcases heq with ⟨between, rfl, -⟩ | ⟨between, rfl, heq⟩
  · rw [List.length_append]
    exact Nat.le_add_right _ _
  · cases between with
    | nil => simp
    | cons d between =>
      -- A pattern found earlier neither ends in the text nor goes on past its end.
      exfalso
      rw [List.append_eq_append_iff] at heq
      rcases heq with ⟨beyond, hbeyond, -⟩ | ⟨beyond, hbeyond, hrest⟩
      · rw [hbeyond] at absent
        exact absent ⟨front, beyond, List.append_assoc _ _ _⟩
      · cases beyond with
        | nil =>
          rw [List.append_nil] at hbeyond
          rw [hbeyond] at absent
          exact absent (List.suffix_append _ _).isInfix
        | cons e beyond =>
          obtain rfl : c = e := (List.cons.inj hrest).1
          have htail : tail = between ++ c :: beyond := (List.cons.inj hbeyond).2
          exact unbordered (by simp [htail])

end Unbordered

/-- A header whose first item does not come again in it, and how many items follow it. -/
structure FrameFormat (α : Type*) where
  first : α
  tail : List α
  unbordered : first ∉ tail
  size : ℕ

namespace FrameFormat

variable {α : Type*} (f : FrameFormat α)

def header : List α := f.first :: f.tail

/-- Some items behind the header. -/
def frame (items : List α) : List α := f.header ++ items

variable [DecidableEq α]

/-- Find the leftmost header, take the items behind it, go on right behind them, and stop
when too few are left. -/
def extract (stream : List α) : List (List α) :=
  match _h : stream.dropInfix? f.header with
  | none => []
  | some (_, behind) =>
    if f.size ≤ behind.length then behind.take f.size :: extract (behind.drop f.size) else []
termination_by stream.length
decreasing_by
  obtain ⟨⟨found, rfl, hfound⟩, -⟩ := List.dropInfix?_eq_some_iff.mp _h
  obtain rfl := eq_of_beq hfound
  simp only [List.length_drop, List.length_append, header, List.length_cons]
  omega

variable {f}

/-! ### One search -/

/-- The leftmost header is the one found. -/
theorem dropInfix?_header_eq_some {stream noise behind : List α} :
    stream.dropInfix? f.header = some (noise, behind) ↔
      stream = noise ++ (f.header ++ behind) ∧
        ∀ front back, stream = front ++ (f.header ++ back) → noise.length ≤ front.length := by
  rw [List.dropInfix?_eq_some_iff]
  constructor
  · rintro ⟨⟨found, hstream, hfound⟩, leftmost⟩
    obtain rfl := eq_of_beq hfound
    refine ⟨by rw [hstream, List.append_assoc], fun front back heq => ?_⟩
    exact leftmost front f.header back (by rw [heq, List.append_assoc]) (beq_self_eq_true _)
  · rintro ⟨hstream, leftmost⟩
    refine ⟨⟨f.header, by rw [hstream, List.append_assoc], beq_self_eq_true _⟩, ?_⟩
    rintro front found back heq hfound
    obtain rfl := eq_of_beq hfound
    exact leftmost front back (by rw [heq, List.append_assoc])

theorem extract_of_none {stream : List α} (h : stream.dropInfix? f.header = none) :
    f.extract stream = [] := by
  rw [extract]
  split
  · rfl
  · next heq => rw [h] at heq; cases heq

theorem extract_of_some {stream noise behind : List α}
    (h : stream.dropInfix? f.header = some (noise, behind)) :
    f.extract stream =
      if f.size ≤ behind.length then behind.take f.size :: f.extract (behind.drop f.size)
      else [] := by
  rw [extract]
  split
  · next heq => rw [h] at heq; cases heq
  · next heq =>
    rw [h] at heq
    cases heq
    rfl

/-- A header at the front is found there. -/
theorem extract_header (behind : List α) :
    f.extract (f.header ++ behind) =
      if f.size ≤ behind.length then behind.take f.size :: f.extract (behind.drop f.size) else [] :=
  extract_of_some (dropInfix?_header_eq_some.mpr
    ⟨(List.nil_append _).symm, fun _ _ _ => Nat.zero_le _⟩)

/-- **Frames are taken whole.** -/
theorem extract_frame {items : List α} (hsize : items.length = f.size) (rest : List α) :
    f.extract (f.frame items ++ rest) = items :: f.extract rest := by
  have hle : f.size ≤ (items ++ rest).length := by
    rw [List.length_append, hsize]
    exact Nat.le_add_right _ _
  rw [frame, List.append_assoc, extract_header, if_pos hle, List.take_left' hsize,
    List.drop_left' hsize]

/-- Nothing is found in less than a frame. -/
theorem extract_eq_nil_of_length {stream : List α}
    (hshort : stream.length < f.header.length + f.size) : f.extract stream = [] := by
  cases h : stream.dropInfix? f.header with
  | none => exact extract_of_none h
  | some found =>
    obtain ⟨noise, behind⟩ := found
    obtain ⟨rfl, -⟩ := dropInfix?_header_eq_some.mp h
    rw [extract_of_some h, if_neg]
    simp only [List.length_append] at hshort
    omega

/-- Behind noise in which no header starts, the search finds what it finds without it. -/
theorem dropInfix?_skip {noise stream : List α}
    (quiet : ∀ front back, noise ++ stream = front ++ (f.header ++ back) →
      noise.length ≤ front.length) {between behind : List α} :
    (noise ++ stream).dropInfix? f.header = some (noise ++ between, behind) ↔
      stream.dropInfix? f.header = some (between, behind) := by
  rw [dropInfix?_header_eq_some, dropInfix?_header_eq_some, List.append_assoc,
    List.append_cancel_left_eq]
  refine and_congr_right fun _ => ⟨fun leftmost front back heq => ?_, fun leftmost front back heq => ?_⟩
  · have hle := leftmost (noise ++ front) back (by rw [heq, List.append_assoc])
    simpa using hle
  · obtain ⟨front, rfl⟩ : noise <+: front :=
      List.prefix_of_prefix_length_le ⟨_, rfl⟩ ⟨_, heq.symm⟩ (quiet _ _ heq)
    rw [List.append_assoc, List.append_cancel_left_eq] at heq
    simpa using leftmost front back heq

/-- **Noise is skipped.** Items in which no header starts are as good as absent. -/
theorem extract_skip {noise stream : List α}
    (quiet : ∀ front back, noise ++ stream = front ++ (f.header ++ back) →
      noise.length ≤ front.length) : f.extract (noise ++ stream) = f.extract stream := by
  cases h : (noise ++ stream).dropInfix? f.header with
  | some found =>
    obtain ⟨front, behind⟩ := found
    have heq := (dropInfix?_header_eq_some.mp h).1
    -- What is found is behind the noise.
    obtain ⟨between, rfl⟩ : noise <+: front :=
      List.prefix_of_prefix_length_le ⟨stream, rfl⟩ ⟨_, heq.symm⟩ (quiet _ _ heq)
    rw [extract_of_some h, extract_of_some ((dropInfix?_skip quiet).mp h)]
  | none =>
    have hstream : stream.dropInfix? f.header = none := by
      rw [Option.eq_none_iff_forall_ne_some]
      intro found hfound
      rw [(dropInfix?_skip quiet).mpr hfound] at h
      cases h
    rw [extract_of_none h, extract_of_none hstream]

/-- An item that starts no header is as good as absent. -/
theorem extract_cons {x : α} {stream : List α} (hx : ¬ f.header <+: x :: stream) :
    f.extract (x :: stream) = f.extract stream := by
  have quiet : ∀ front back, [x] ++ stream = front ++ (f.header ++ back) →
      [x].length ≤ front.length := by
    intro front back heq
    cases front with
    | nil => exact absurd ⟨back, heq.symm⟩ hx
    | cons y front => simp
  exact extract_skip quiet

/-- No header starts in noise without one that stands right before a header. -/
theorem extract_skip_of_absent {noise : List α} (absent : ¬ f.header <:+: noise)
    (behind : List α) :
    f.extract (noise ++ (f.header ++ behind)) = f.extract (f.header ++ behind) :=
  extract_skip fun _ _ heq => length_le_of_occurrence f.unbordered absent heq

/-! ### Many frames -/

theorem extract_frames_append {frames : List (List α)}
    (hsize : ∀ items ∈ frames, items.length = f.size) (rest : List α) :
    f.extract (frames.flatMap f.frame ++ rest) = frames ++ f.extract rest := by
  induction frames with
  | nil => rfl
  | cons items frames ih =>
    obtain ⟨hitems, hframes⟩ := List.forall_mem_cons.mp hsize
    rw [List.flatMap_cons, List.append_assoc, extract_frame hitems, ih hframes, List.cons_append]

/-- Frames back to back are taken one by one. -/
theorem extract_frames {frames : List (List α)} (hsize : ∀ items ∈ frames, items.length = f.size) :
    f.extract (frames.flatMap f.frame) = frames := by
  have hnil : f.extract [] = [] := extract_eq_nil_of_length (by simp [header, Nat.add_right_comm])
  simpa [hnil] using extract_frames_append hsize []

/-- **Noise before frames.** Noise without a header, its end included, costs no frame. -/
theorem extract_noise_frames {noise : List α} (absent : ¬ f.header <:+: noise)
    {frames : List (List α)} (hsize : ∀ items ∈ frames, items.length = f.size) :
    f.extract (noise ++ frames.flatMap f.frame) = frames := by
  cases frames with
  | nil =>
    rw [List.flatMap_nil, List.append_nil]
    cases h : noise.dropInfix? f.header with
    | none => exact extract_of_none h
    | some found =>
      obtain ⟨heq, -⟩ := dropInfix?_header_eq_some.mp h
      exact absurd ⟨found.1, found.2, by rw [heq, List.append_assoc]⟩ absent
  | cons items rest =>
    rw [List.flatMap_cons, frame, List.append_assoc, extract_skip_of_absent absent,
      ← List.append_assoc, ← frame, ← List.flatMap_cons, extract_frames hsize]

/-! ### Losing items -/

/-- In pieces put together, a header stands only where a piece starts. -/
def OnlyAtStarts (f : FrameFormat α) (pieces : List (List α)) : Prop :=
  ∀ front back, pieces.flatten = front ++ (f.header ++ back) → ∃ n, front = (pieces.take n).flatten

omit [DecidableEq α] in
/-- Only finitely many places are to be looked at. -/
theorem onlyAtStarts_iff {pieces : List (List α)} :
    f.OnlyAtStarts pieces ↔
      ∀ pos < pieces.flatten.length, f.header <+: pieces.flatten.drop pos →
        ∃ n < pieces.length + 1, (pieces.take n).flatten.length = pos := by
  constructor
  · rintro h pos hpos ⟨back, hback⟩
    obtain ⟨n, hn⟩ := h (pieces.flatten.take pos) back (by rw [hback, List.take_append_drop])
    have hlen : (pieces.flatten.take pos).length = pos := List.length_take_of_le hpos.le
    refine ⟨min n pieces.length, by omega, ?_⟩
    have htake : pieces.take (min n pieces.length) = pieces.take n := List.take_eq_take_min.symm
    rw [htake, ← hn, hlen]
  · intro h front back heq
    have hlt : front.length < pieces.flatten.length := by
      rw [heq]
      simp [header]
    have hdrop : pieces.flatten.drop front.length = f.header ++ back := by
      rw [heq, List.drop_left]
    obtain ⟨n, -, hn⟩ := h front.length hlt ⟨back, hdrop.symm⟩
    have hwhole : front <+: pieces.flatten := ⟨_, heq.symm⟩
    have hle := List.prefix_of_prefix_length_le hwhole (List.take_prefix n pieces).flatten hn.ge
    exact ⟨n, hle.eq_of_length hn.symm⟩

instance (pieces : List (List α)) : Decidable (f.OnlyAtStarts pieces) :=
  decidable_of_iff _ onlyAtStarts_iff.symm

omit [DecidableEq α] in
theorem OnlyAtStarts.of_append {pieces pieces' : List (List α)}
    (h : f.OnlyAtStarts (pieces ++ pieces')) : f.OnlyAtStarts pieces' := by
  intro front back heq
  obtain ⟨n, hn⟩ := h (pieces.flatten ++ front) back
    (by rw [List.flatten_append, heq, List.append_assoc])
  rw [List.take_append, List.flatten_append] at hn
  rcases Nat.le_total pieces.length n with hle | hle
  · rw [List.take_of_length_le hle, List.append_cancel_left_eq] at hn
    exact ⟨_, hn⟩
  · -- A start inside the first pieces is also the end of all of them.
    have hlen := congrArg List.length hn
    have hfront : (pieces.take n).flatten.length ≤ pieces.flatten.length :=
      ((List.take_prefix n pieces).flatten).length_le
    rw [Nat.sub_eq_zero_of_le hle, List.take_zero, List.flatten_nil, List.append_nil,
      List.length_append] at hlen
    exact ⟨0, List.length_eq_zero_iff.mp (by omega)⟩

omit [DecidableEq α] in
/-- A header that starts in what stands before a frame is inside it. -/
theorem header_prefix_of_prefix {received items rest : List α} (hne : received ≠ [])
    (hfront : f.header <+: received ++ (f.frame items ++ rest)) : f.header <+: received := by
  rcases List.prefix_or_prefix_of_prefix hfront (List.prefix_append _ _) with h | ⟨others, h⟩
  · exact h
  · cases others with
    | nil => exact ⟨[], by rw [List.append_nil, ← h, List.append_nil]⟩
    | cons x others =>
      -- The frame behind would start inside the header.
      exfalso
      rw [← h, List.prefix_append_right_inj, frame, header] at hfront
      obtain rfl : x = f.first := (List.cons_prefix_cons.mp hfront).1
      cases received with
      | nil => exact hne rfl
      | cons y received =>
        have htail : f.tail = received ++ f.first :: others := (List.cons.inj h.symm).2
        exact f.unbordered (by simp [htail])

/-- A header taken up by a damaged frame ends inside the next one, and the search is in
step again at its end. -/
theorem extract_overrun {received items : List α} {rest : List (List α)}
    (hsize : ∀ items' ∈ items :: rest, items'.length = f.size)
    (starts : f.OnlyAtStarts ((f.header ++ received) :: (items :: rest).map f.frame))
    (hshort : received.length < f.size) :
    ∃ spurious, f.extract ((f.header ++ received) ++ (items :: rest).flatMap f.frame) =
      spurious :: rest := by
  obtain ⟨hitems, hrest⟩ := List.forall_mem_cons.mp hsize
  have hframe : (f.frame items).length = f.header.length + f.size := by
    rw [frame, List.length_append, hitems]
  -- The front of the next frame is swallowed.
  obtain ⟨swallowed, left, hsplit, hswallowed⟩ : ∃ swallowed left,
      f.frame items = swallowed ++ left ∧ swallowed.length = f.size - received.length := by
    refine ⟨_, _, (List.take_append_drop (f.size - received.length) _).symm, ?_⟩
    rw [List.length_take, hframe]
    omega
  have hsum : swallowed.length + left.length = f.header.length + f.size := by
    rw [← hframe, hsplit, List.length_append]
  -- No header starts in what is left of it.
  have quiet : ∀ front back, left ++ rest.flatMap f.frame = front ++ (f.header ++ back) →
      left.length ≤ front.length := by
    intro front back heq
    obtain ⟨n, hn⟩ := starts (f.header ++ received ++ swallowed ++ front) back (by
      rw [List.flatten_cons, List.map_cons, List.flatten_cons, ← List.flatMap_def, hsplit]
      simp only [List.append_assoc, heq])
    have hlen := congrArg List.length hn
    rcases n with _ | _ | n
    · simp [header] at hlen
    · simp only [List.take_succ_cons, List.take_zero, List.flatten_cons, List.flatten_nil,
        List.length_append, List.length_nil] at hlen
      omega
    · simp only [List.map_cons, List.take_succ_cons, List.flatten_cons, List.length_append,
        hframe] at hlen
      omega
  have hstream : f.header ++ received ++ (items :: rest).flatMap f.frame =
      f.frame (received ++ swallowed) ++ (left ++ rest.flatMap f.frame) := by
    rw [List.flatMap_cons, hsplit, frame]
    simp only [List.append_assoc]
  refine ⟨received ++ swallowed, ?_⟩
  rw [hstream, extract_frame (by rw [List.length_append]; omega), extract_skip quiet,
    extract_frames hrest]

/-- **Back in step.** Where items of a frame are lost, and no header stands where no
frame starts, all frames behind it are taken, or one spurious one in place of the first
of them. -/
theorem extract_damaged {received : List α} {frames : List (List α)}
    (hsize : ∀ items ∈ frames, items.length = f.size)
    (starts : f.OnlyAtStarts (received :: frames.map f.frame))
    (hshort : received.length < f.header.length + f.size) :
    f.extract (received ++ frames.flatMap f.frame) = frames ∨
      ∃ spurious, f.extract (received ++ frames.flatMap f.frame) = spurious :: frames.tail := by
  by_cases hfront : f.header <+: received ++ frames.flatMap f.frame
  · cases frames with
    | nil =>
      left
      rw [List.flatMap_nil, List.append_nil]
      exact extract_eq_nil_of_length hshort
    | cons items rest =>
      by_cases hne : received = []
      · left
        rw [hne, List.nil_append, extract_frames hsize]
      · right
        obtain ⟨others, rfl⟩ := header_prefix_of_prefix hne hfront
        exact extract_overrun hsize starts (by simpa using hshort)
  · left
    have quiet : ∀ front back, received ++ frames.flatMap f.frame = front ++ (f.header ++ back) →
        received.length ≤ front.length := by
      intro front back heq
      obtain ⟨n, hn⟩ := starts front back (by rw [List.flatten_cons, ← List.flatMap_def, heq])
      cases n with
      | zero =>
        obtain rfl : front = [] := hn
        exact absurd ⟨back, heq.symm⟩ hfront
      | succ n =>
        rw [hn, List.take_succ_cons, List.flatten_cons, List.length_append]
        exact Nat.le_add_right _ _
    rw [extract_skip quiet, extract_frames hsize]

end FrameFormat

end Gibberish.Foundation
