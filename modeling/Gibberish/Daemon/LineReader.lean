/-
# Reading lines from a stream

A dongle's lines arrive in reads that may end anywhere, even inside a character. The
reader keeps what is pending between reads. Its safety limit applies to all that is
pending after a read, and what it then drops is one complete line, so it returns every
line exactly when every line it drops is blank.
-/

import Gibberish.Daemon.Transport
import Gibberish.Foundation.Machine

set_option autoImplicit false

namespace Gibberish.Daemon

open Gibberish.Foundation Gibberish.Foundation.Text Gibberish.Protocol

namespace SerialTransport

/-- The reader as a machine: each read yields its packets and its log lines. -/
def machine :
    Machine SerialTransport (List UInt8) (List ReceivedWirePacket × List (List Char)) :=
  ⟨fun t chunk => ((t.pollStream chunk).1, [(t.pollStream chunk).2])⟩

/-- The packets returned by some polls. -/
def packetsOf (polls : List (List ReceivedWirePacket × List (List Char))) :
    List ReceivedWirePacket :=
  polls.flatMap Prod.fst

/-- The log lines returned by some polls. -/
def logsOf (polls : List (List ReceivedWirePacket × List (List Char))) : List (List Char) :=
  polls.flatMap Prod.snd

/-- The items behind the packets and log lines that polls return. -/
def Returns (polls : List (List ReceivedWirePacket × List (List Char))) (items : List LineItem) :
    Prop :=
  packetsOf polls = items.filterMap LineItem.packet? ∧ logsOf polls = items.filterMap LineItem.log?

/-- What is pending at a read: the unfinished line before it, and the read. -/
def pendingAt (before : List (List UInt8)) (chunk : List UInt8) : List UInt8 :=
  (cut newline before.flatten).2 ++ chunk

/-- A line of whitespace only. -/
def Blank (lineBytes : List UInt8) : Prop := ∃ text, lineBytes = encode text ∧ trim text = []

/-- Wherever a read makes more bytes pending than the limit, the first line of them is blank. -/
def BlankWhereOverfull (reads : List (List UInt8)) : Prop :=
  ∀ before chunk after, reads = before ++ chunk :: after →
    dongleToHostLineLimit < (pendingAt before chunk).length →
      ∀ line ∈ (cut newline (pendingAt before chunk)).1.head?, Blank line

/-! ### One poll -/

/-- The lines that a poll reads: all that are complete, without the first if there is too much. -/
def keptLines (pending : List UInt8) : List (List UInt8) :=
  if dongleToHostLineLimit < pending.length then (cut newline pending).1.tail
  else (cut newline pending).1

/-- A pending line that is longer than the limit is never met. -/
def Fits (t : SerialTransport) (chunk : List UInt8) : Prop :=
  chunk ≠ [] ∧ (dongleToHostLineLimit < (t.readBuf ++ chunk).length → newline ∈ t.readBuf ++ chunk)

/-- The limit drops the first line, if anything. -/
theorem cut_enforceLimit {pending : List UInt8}
    (h : dongleToHostLineLimit < pending.length → newline ∈ pending) :
    cut newline (enforceLimit pending) = (keptLines pending, (cut newline pending).2) := by
  rw [enforceLimit, keptLines]
  by_cases hlimit : dongleToHostLineLimit < pending.length
  · rw [if_pos hlimit, if_pos hlimit]
    obtain ⟨line, rest, hline, rfl⟩ := exists_terminated_append (h hlimit)
    rw [cut_append_of_terminated hline, List.tail_cons]
    obtain ⟨content, rfl, hcontent⟩ := hline
    have hidx : (content ++ [newline] ++ rest).idxOf? newline = some content.length := by
      rw [List.append_assoc]
      exact idxOf?_append hcontent rest
    have hlen : (content ++ [newline]).length = content.length + 1 := List.length_append
    rw [hidx]
    dsimp only
    rw [← hlen, List.drop_left]
  · rw [if_neg hlimit, if_neg hlimit]

/-- **Step lemma.** A poll reads the lines it keeps, and keeps what is pending behind them. -/
theorem pollStream_of_fits {t : SerialTransport} {chunk : List UInt8} (h : t.Fits chunk) :
    t.pollStream chunk =
      (⟨(cut newline (t.readBuf ++ chunk)).2⟩,
        ((keptLines (t.readBuf ++ chunk)).filterMap itemOfLine).filterMap LineItem.packet?,
        ((keptLines (t.readBuf ++ chunk)).filterMap itemOfLine).filterMap LineItem.log?) := by
  rw [pollStream, if_neg h.1, cut_enforceLimit h.2]

/-! ### A run of polls -/

/-- The items of the lines a run keeps. -/
def keptItems (t : SerialTransport) (reads : List (List UInt8)) : List LineItem :=
  (machine.trace t reads).flatMap fun x => (keptLines (x.1.readBuf ++ x.2)).filterMap itemOfLine

/-- The items of all lines that a run completes. -/
def allItems (t : SerialTransport) (reads : List (List UInt8)) : List LineItem :=
  (machine.trace t reads).flatMap fun x =>
    (cut newline (x.1.readBuf ++ x.2)).1.filterMap itemOfLine

/-- **Run lemma.** A run returns the items of the lines it keeps. -/
theorem returns_keptItems {t : SerialTransport} {reads : List (List UInt8)}
    (fits : machine.Guarded Fits t reads) : Returns (machine.outputs t reads) (keptItems t reads) := by
  induction reads generalizing t with
  | nil => exact ⟨rfl, rfl⟩
  | cons chunk rest ih =>
    obtain ⟨hchunk, hrest⟩ := (Machine.guarded_cons _ _ _ _).mp fits
    obtain ⟨hpackets, hlogs⟩ := ih hrest
    have hemit : machine.emit t chunk = [(t.pollStream chunk).2] := rfl
    have hitems : keptItems t (chunk :: rest) =
        (keptLines (t.readBuf ++ chunk)).filterMap itemOfLine ++
          keptItems (machine.next t chunk) rest := by
      rw [keptItems, Machine.trace_cons, List.flatMap_cons, keptItems]
    rw [Machine.outputs_cons, hemit, pollStream_of_fits hchunk, hitems]
    constructor
    · rw [packetsOf, List.flatMap_append, List.filterMap_append, ← hpackets, packetsOf,
        List.flatMap_singleton]
    · rw [logsOf, List.flatMap_append, List.filterMap_append, ← hlogs, logsOf,
        List.flatMap_singleton]

/-- The lines that a run completes are those of the whole stream. -/
theorem allItems_eq {t : SerialTransport} {reads : List (List UInt8)}
    (start : newline ∉ t.readBuf) (fits : machine.Guarded Fits t reads) :
    allItems t reads = (cut newline (t.readBuf ++ reads.flatten)).1.filterMap itemOfLine := by
  induction reads generalizing t with
  | nil =>
    rw [List.flatten_nil, List.append_nil, cut_of_notMem start]
    rfl
  | cons chunk rest ih =>
    obtain ⟨hchunk, hrest⟩ := (Machine.guarded_cons _ _ _ _).mp fits
    have hnext : machine.next t chunk = ⟨(cut newline (t.readBuf ++ chunk)).2⟩ :=
      congrArg Prod.fst (pollStream_of_fits hchunk)
    have htail := ih (by rw [hnext]; exact notMem_pending newline _) hrest
    rw [allItems, Machine.trace_cons, List.flatMap_cons, ← allItems, htail, hnext,
      List.flatten_cons, ← List.append_assoc, cut_append newline (t.readBuf ++ chunk),
      List.filterMap_append]

/-! ### Streams of short lines -/

/-- What dongles send: newline-terminated texts within the limit. -/
structure ShortLines (lines : List (List Char)) : Prop where
  terminated : ∀ line ∈ lines, Terminated '\n' line
  short : ∀ line ∈ lines, (encode line).length ≤ dongleToHostLineLimit

/-- A terminated text is a terminated line of bytes. -/
theorem terminated_encode {line : List Char} (h : Terminated '\n' line) :
    Terminated newline (encode line) := by
  obtain ⟨content, rfl, hcontent⟩ := h
  exact ⟨encode content, by rw [encode_append]; rfl, newline_notMem_encode hcontent⟩

/-- The lines are what the stream is cut into. -/
theorem cut_lines {lines : List (List Char)} (h : ShortLines lines) :
    cut newline (lines.flatMap encode) = (lines.map encode, []) := by
  rw [List.flatMap_def]
  refine cut_flatten fun row hrow => ?_
  obtain ⟨line, hline, rfl⟩ := List.mem_map.mp hrow
  exact terminated_encode (h.terminated line hline)

variable {lines : List (List Char)}

/-- Whatever is pending over the limit holds a whole line. -/
theorem newline_mem_of_overfull (h : ShortLines lines) {before after : List (List UInt8)}
    {chunk : List UInt8} (split : (before ++ chunk :: after).flatten = lines.flatMap encode)
    (overfull : dongleToHostLineLimit < (pendingAt before chunk).length) :
    newline ∈ pendingAt before chunk := by
  by_contra hnone
  have hcut := cut_lines h
  rw [← split, List.flatten_append, List.flatten_cons, cut_append, ← List.append_assoc,
    ← pendingAt] at hcut
  obtain ⟨hrows, hrest⟩ := Prod.mk.inj hcut
  -- The stream ends in a newline, so the pending line is completed later.
  have hmem : newline ∈ pendingAt before chunk ++ after.flatten := by
    by_contra hnewline
    rw [cut_of_notMem hnewline] at hrest
    obtain ⟨hpending, -⟩ := List.append_eq_nil_iff.mp hrest
    rw [hpending] at overfull
    exact absurd overfull (Nat.not_lt_zero _)
  obtain ⟨row, rest, hrow, hfront⟩ := exists_terminated_append hmem
  have hlong := hrow.length_lt hnone hfront.symm
  -- Then it is one of the lines, and none of them is that long.
  rw [hfront, cut_append_of_terminated hrow] at hrows
  have hmap : row ∈ lines.map encode :=
    hrows ▸ List.mem_append_right _ List.mem_cons_self
  obtain ⟨line, hline, rfl⟩ := List.mem_map.mp hmap
  exact absurd (overfull.trans hlong) (Nat.not_lt.mpr (h.short line hline))

variable {reads : List (List UInt8)}

/-- After some of the reads, what follows the last newline is buffered. -/
theorem final_of_shortLines (h : ShortLines lines) (nonempty : ∀ chunk ∈ reads, chunk ≠ [])
    (split : reads.flatten = lines.flatMap encode) (before after : List (List UInt8))
    (hreads : reads = before ++ after) :
    machine.final opened before = ⟨(cut newline before.flatten).2⟩ ∧
      machine.Guarded Fits opened before := by
  induction before using List.reverseRecOn generalizing after with
  | nil =>
    rw [List.flatten_nil, cut_of_notMem List.not_mem_nil]
    exact ⟨rfl, Machine.guarded_nil _ _⟩
  | append_singleton before chunk ih =>
    rw [List.append_assoc, List.singleton_append] at hreads
    obtain ⟨hfinal, hguarded⟩ := ih (chunk :: after) hreads
    have hfits : Fits (machine.final opened before) chunk := by
      rw [hfinal]
      refine ⟨nonempty chunk (hreads ▸ List.mem_append_right _ List.mem_cons_self), ?_⟩
      exact newline_mem_of_overfull h (hreads ▸ split)
    constructor
    · have hnext : machine.next (machine.final opened before) chunk =
          ⟨(cut newline ((machine.final opened before).readBuf ++ chunk)).2⟩ :=
        congrArg Prod.fst (pollStream_of_fits hfits)
      rw [Machine.final_append, Machine.final_cons, Machine.final_nil, hnext, hfinal,
        List.flatten_append, List.flatten_singleton, cut_append newline before.flatten]
    · refine (Machine.guarded_append _ _ _ _).mpr ⟨hguarded, ?_⟩
      exact (Machine.guarded_cons _ _ _ _).mpr ⟨hfits, Machine.guarded_nil _ _⟩

/-- A line of text is read as that text. -/
theorem itemOfLine_encode (line : List Char) : itemOfLine (encode line) = itemOfText line := by
  rw [itemOfLine, fromUtf8_encode]
  dsimp only
  rw [String.toList_ofList]

/-- Only blank lines hold nothing. -/
theorem itemOfLine_encode_eq_none_iff (line : List Char) :
    itemOfLine (encode line) = none ↔ Blank (encode line) := by
  rw [itemOfLine_encode, itemOfText]
  constructor
  · intro h
    split at h
    · exact ⟨line, rfl, ‹_›⟩
    · split at h
      · cases h
      · cases h
  · rintro ⟨text, htext, htrim⟩
    obtain rfl := encode_injective htext
    rw [if_pos htrim]

/-! ### When nothing is lost -/

/-- Lists that shrink to the same total length did not shrink. -/
private theorem eq_of_length_flatMap {β γ : Type*} {l : List β} {f g : β → List γ}
    (sub : ∀ x ∈ l, (f x).Sublist (g x)) (hlen : (l.flatMap g).length ≤ (l.flatMap f).length) :
    ∀ x ∈ l, f x = g x := by
  induction l with
  | nil => exact fun x hx => absurd hx List.not_mem_nil
  | cons y rest ih =>
    obtain ⟨hy, hrest⟩ := List.forall_mem_cons.mp sub
    have hrestSub : (rest.flatMap f).Sublist (rest.flatMap g) := by
      clear ih hlen sub
      induction rest with
      | nil => exact List.Sublist.refl []
      | cons z rest ih =>
        obtain ⟨hz, hrest⟩ := List.forall_mem_cons.mp hrest
        rw [List.flatMap_cons, List.flatMap_cons]
        exact hz.append (ih hrest)
    rw [List.flatMap_cons, List.flatMap_cons, List.length_append, List.length_append] at hlen
    have hyLen := hy.length_le
    have hrestLen := hrestSub.length_le
    -- Neither the first list nor the rest can be shorter.
    refine List.forall_mem_cons.mpr ⟨hy.eq_of_length (by omega), ih hrest (by omega)⟩

/-- As many packets and log lines as items. -/
theorem length_packets_add_length_logs (items : List LineItem) :
    (items.filterMap LineItem.packet?).length + (items.filterMap LineItem.log?).length =
      items.length := by
  induction items with
  | nil => rfl
  | cons item rest ih =>
    cases item with
    | packet wirePkt =>
      simp only [List.filterMap_cons, LineItem.packet?, LineItem.log?, List.length_cons]
      omega
    | log text =>
      simp only [List.filterMap_cons, LineItem.packet?, LineItem.log?, List.length_cons]
      omega

/-- The lines a poll keeps are some of those it completes. -/
theorem keptLines_sublist (pending : List UInt8) :
    ((keptLines pending).filterMap itemOfLine).Sublist
      ((cut newline pending).1.filterMap itemOfLine) := by
  rw [keptLines]
  split
  · exact (List.tail_sublist _).filterMap _
  · exact List.Sublist.refl _

/-- A run returns all items iff every poll keeps all of its own. -/
theorem returns_allItems_iff {t : SerialTransport} (fits : machine.Guarded Fits t reads) :
    Returns (machine.outputs t reads) (allItems t reads) ↔
      ∀ x ∈ machine.trace t reads, (keptLines (x.1.readBuf ++ x.2)).filterMap itemOfLine =
        (cut newline (x.1.readBuf ++ x.2)).1.filterMap itemOfLine := by
  obtain ⟨hpackets, hlogs⟩ := returns_keptItems fits
  constructor
  · rintro ⟨hpackets', hlogs'⟩
    have hcount := length_packets_add_length_logs (keptItems t reads)
    rw [← hpackets, ← hlogs, hpackets', hlogs', length_packets_add_length_logs] at hcount
    exact eq_of_length_flatMap (fun x _ => keptLines_sublist _) hcount.le
  · intro hkept
    have hitems : keptItems t reads = allItems t reads := List.flatMap_congr hkept
    exact ⟨hitems ▸ hpackets, hitems ▸ hlogs⟩

/-- A poll keeps all items of its lines iff the line it drops, if any, holds none. -/
theorem keptLines_eq_iff (pending : List UInt8) :
    (keptLines pending).filterMap itemOfLine = (cut newline pending).1.filterMap itemOfLine ↔
      (dongleToHostLineLimit < pending.length →
        ∀ line ∈ (cut newline pending).1.head?, itemOfLine line = none) := by
  rw [keptLines]
  by_cases hlimit : dongleToHostLineLimit < pending.length
  · rw [if_pos hlimit]
    cases (cut newline pending).1 with
    | nil => exact ⟨fun _ _ line hline => absurd hline (by simp), fun _ => rfl⟩
    | cons line rest =>
      rw [List.tail_cons, List.head?_cons]
      cases hitem : itemOfLine line with
      | none =>
        rw [List.filterMap_cons_none hitem]
        refine ⟨fun _ _ line' hline' => ?_, fun _ => rfl⟩
        obtain rfl := Option.some.inj hline'
        exact hitem
      | some item =>
        rw [List.filterMap_cons_some hitem]
        constructor
        · intro heq
          exact absurd (congrArg List.length heq) (by rw [List.length_cons]; omega)
        · intro hblank
          rw [hblank hlimit line rfl] at hitem
          cases hitem
  · rw [if_neg hlimit]
    exact ⟨fun _ h => absurd h hlimit, fun _ => rfl⟩

/-- All items of a run are those of the lines. -/
theorem allItems_of_shortLines (h : ShortLines lines) (nonempty : ∀ chunk ∈ reads, chunk ≠ [])
    (split : reads.flatten = lines.flatMap encode) :
    machine.Guarded Fits opened reads ∧ allItems opened reads = lines.filterMap itemOfText := by
  obtain ⟨-, fits⟩ := final_of_shortLines h nonempty split reads [] (List.append_nil _).symm
  have hmap : itemOfLine ∘ encode = itemOfText := by
    funext line
    exact itemOfLine_encode line
  have hstart : newline ∉ opened.readBuf := List.not_mem_nil
  have hstream : opened.readBuf ++ reads.flatten = lines.flatMap encode := split
  rw [allItems_eq hstart fits, hstream, cut_lines h, List.filterMap_map, hmap]
  exact ⟨fits, rfl⟩

/-- **Reading lines.** However short lines are split into reads, what the polls return is
what the lines hold, each read once and in order, iff wherever a read makes more bytes
pending than the limit, the first line of them is blank. -/
theorem polls_return_lines_iff (h : ShortLines lines)
    (sizes : ∀ chunk ∈ reads, 1 ≤ chunk.length ∧ chunk.length ≤ 1024)
    (split : reads.flatten = lines.flatMap encode) :
    Returns (machine.outputs opened reads) (lines.filterMap itemOfText) ↔
      BlankWhereOverfull reads := by
  have nonempty : ∀ chunk ∈ reads, chunk ≠ [] :=
    fun chunk hchunk => List.ne_nil_of_length_pos (sizes chunk hchunk).1
  obtain ⟨fits, hall⟩ := allItems_of_shortLines h nonempty split
  rw [← hall, returns_allItems_iff fits]
  -- A line that a poll could drop is one of the lines, so it holds nothing iff it is blank.
  have hblank : ∀ before chunk after, reads = before ++ chunk :: after →
      ∀ line ∈ (cut newline (pendingAt before chunk)).1, itemOfLine line = none ↔ Blank line := by
    intro before chunk after hreads line hline
    have hcut := cut_lines h
    rw [← split, hreads, List.flatten_append, List.flatten_cons, cut_append, ← List.append_assoc,
      ← pendingAt, cut_append newline (pendingAt before chunk)] at hcut
    have hmem : line ∈ lines.map encode := by
      rw [← (Prod.mk.inj hcut).1]
      exact List.mem_append_right _ (List.mem_append_left _ hline)
    obtain ⟨text, -, rfl⟩ := List.mem_map.mp hmem
    exact itemOfLine_encode_eq_none_iff text
  constructor
  · intro hkept before chunk after hreads hlimit line hline
    obtain ⟨hfinal, -⟩ := final_of_shortLines h nonempty split before (chunk :: after) hreads
    have hmem : (machine.final opened before, chunk) ∈ machine.trace opened reads := by
      rw [hreads, Machine.trace_append, Machine.trace_cons]
      exact List.mem_append_right _ List.mem_cons_self
    have hthis := hkept _ hmem
    rw [hfinal, keptLines_eq_iff] at hthis
    exact (hblank before chunk after hreads line (List.mem_of_mem_head? hline)).mp
      (hthis hlimit line hline)
  · intro hoverfull x hx
    obtain ⟨before, after, hreads, hstate⟩ := Machine.mem_trace hx
    obtain ⟨hfinal, -⟩ := final_of_shortLines h nonempty split before (x.2 :: after) hreads
    rw [hstate, hfinal, keptLines_eq_iff]
    intro hlimit line hline
    exact (hblank before x.2 after hreads line (List.mem_of_mem_head? hline)).mpr
      (hoverfull before x.2 after hreads hlimit line hline)

/-- No more is pending than was sent. -/
theorem length_pendingAt_le (before after : List (List UInt8)) (chunk : List UInt8) :
    (pendingAt before chunk).length ≤ (before ++ chunk :: after).flatten.length := by
  have hcut := congrArg List.length (flatten_cut newline before.flatten)
  rw [List.length_append] at hcut
  rw [pendingAt, List.flatten_append, List.flatten_cons, List.length_append, List.length_append,
    List.length_append]
  omega

/-- Two lines of a log, and one of a packet of dongle 7 between them. -/
def mixedLines : List (List Char) :=
  ["ok\n".toList,
    pktMarker ++ "00000007 ".toList ++ List.replicate (MeshPacket.wirePayloadLen * 2) '0' ++ ['\n'],
    "done\n".toList]

/-- Their stream in three reads, none of which ends with a line. -/
def cutReads : List (List UInt8) :=
  [(mixedLines.flatMap encode).take 2, ((mixedLines.flatMap encode).drop 2).take 100,
    (mixedLines.flatMap encode).drop 102]

/-- Lines that are cut by the reads are read once each. -/
theorem polls_return_lines_cutReads :
    Returns (machine.outputs opened cutReads)
      [.log ['o', 'k'], .packet ⟨7, .deserializePayload (.zero _)⟩, .log ['d', 'o', 'n', 'e']] := by
  have hshort : ShortLines mixedLines := by
    refine ⟨?_, by decide +kernel⟩
    intro line hline
    simp only [mixedLines, List.mem_cons, List.not_mem_nil, or_false] at hline
    obtain rfl | rfl | rfl := hline
    · exact ⟨['o', 'k'], rfl, by decide⟩
    · exact ⟨pktMarker ++ "00000007 ".toList ++
        List.replicate (MeshPacket.wirePayloadLen * 2) '0', rfl, by decide +kernel⟩
    · exact ⟨['d', 'o', 'n', 'e'], rfl, by decide⟩
  have hitems : mixedLines.filterMap itemOfText =
      [.log ['o', 'k'], .packet ⟨7, .deserializePayload (.zero _)⟩, .log ['d', 'o', 'n', 'e']] := by
    decide +kernel
  rw [← hitems]
  refine (polls_return_lines_iff hshort (by decide +kernel) (by decide +kernel)).mpr ?_
  -- The stream is within the limit.
  intro before chunk after hreads hlimit
  have hle := length_pendingAt_le before after chunk
  rw [← hreads] at hle
  exact absurd (hlimit.trans_le hle) (by decide +kernel)

/-- A line of 600 letters and another one. -/
def twoLongLines : List (List Char) :=
  [List.replicate 600 'a' ++ ['\n'], List.replicate 600 'b' ++ ['\n']]

/-- Their stream in two reads. -/
def twoLongReads : List (List UInt8) :=
  [(twoLongLines.flatMap encode).take 500, (twoLongLines.flatMap encode).drop 500]

/-- The first line of two is lost when the second read brings the rest of both. -/
theorem not_polls_return_lines_twoLongLines :
    ShortLines twoLongLines ∧ (∀ chunk ∈ twoLongReads, 1 ≤ chunk.length ∧ chunk.length ≤ 1024) ∧
      twoLongReads.flatten = twoLongLines.flatMap encode ∧
      ¬ Returns (machine.outputs opened twoLongReads) (twoLongLines.filterMap itemOfText) := by
  have hshort : ShortLines twoLongLines := by
    refine ⟨?_, by decide +kernel⟩
    intro line hline
    rcases List.mem_cons.mp hline with rfl | hline
    · exact ⟨_, rfl, by decide +kernel⟩
    · obtain rfl := List.mem_singleton.mp hline
      exact ⟨_, rfl, by decide +kernel⟩
  have hsizes : ∀ chunk ∈ twoLongReads, 1 ≤ chunk.length ∧ chunk.length ≤ 1024 := by
    decide +kernel
  have hsplit : twoLongReads.flatten = twoLongLines.flatMap encode := by
    rw [twoLongReads, List.flatten_cons, List.flatten_singleton, List.take_append_drop]
  refine ⟨hshort, hsizes, hsplit, ?_⟩
  have nonempty : ∀ chunk ∈ twoLongReads, chunk ≠ [] :=
    fun chunk hchunk => List.ne_nil_of_length_pos (hsizes chunk hchunk).1
  obtain ⟨fits, hall⟩ := allItems_of_shortLines hshort nonempty hsplit
  rw [← hall, returns_allItems_iff fits]
  intro hkept
  -- Nothing is complete after the first read, so the second makes the whole stream pending.
  have hfirst : newline ∉ (twoLongLines.flatMap encode).take 500 := by decide +kernel
  obtain ⟨hfinal, -⟩ := final_of_shortLines hshort nonempty hsplit
    [(twoLongLines.flatMap encode).take 500] [(twoLongLines.flatMap encode).drop 500] rfl
  rw [List.flatten_singleton, cut_of_notMem hfirst] at hfinal
  have hsecond := hkept (machine.final opened [(twoLongLines.flatMap encode).take 500],
    (twoLongLines.flatMap encode).drop 500) (List.mem_cons_of_mem _ List.mem_cons_self)
  rw [hfinal, keptLines_eq_iff] at hsecond
  simp only [List.take_append_drop, cut_lines hshort] at hsecond
  have hlost := hsecond (by decide +kernel) _ rfl
  rw [itemOfLine_encode] at hlost
  exact absurd (congrArg Option.isSome hlost) (by decide +kernel)

end SerialTransport

end Gibberish.Daemon
