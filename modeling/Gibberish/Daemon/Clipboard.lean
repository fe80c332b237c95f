/-
# The clipboard

The daemon polls the clipboard for user copies and writes received texts into it. It
remembers the hash of the last text it returned or wrote, and for half a second the hash
of the last text it wrote. The hash is noted before the write is tried, so after a
failed write the clipboard still holds a text whose hash is no longer the last one.
-/

import Gibberish.Daemon.Fragment
import Gibberish.Foundation.Machine

set_option autoImplicit false

namespace Gibberish.Daemon

open Gibberish.Foundation

/-- 500 milliseconds, in nanoseconds. -/
def echoSuppressionWindow : ℕ := 500000000

structure ClipboardManager where
  lastHash : Bytes 32
  suppressUntil : ℕ
  suppressedHash : Bytes 32
  deriving DecidableEq

namespace ClipboardManager

variable (blake3 : List UInt8 → Bytes 32)

def new (now : ℕ) : ClipboardManager where
  lastHash := .zero 32
  suppressUntil := now
  suppressedHash := .zero 32

/-- Return the clipboard's text, unless it is empty, suppressed or returned before. -/
def readClipboard (mgr : ClipboardManager) (clipboard : String) (now : ℕ) :
    Option String × ClipboardManager :=
  if clipboard = "" then (none, mgr)
  else
    let hash := blake3 (asBytes clipboard)
    if now < mgr.suppressUntil ∧ hash = mgr.suppressedHash then (none, mgr)
    else if hash ≠ mgr.lastHash then (some clipboard, { mgr with lastHash := hash })
    else (none, mgr)

/-- Remember a text as written from now on. -/
def armSuppression (mgr : ClipboardManager) (text : String) (now : ℕ) : ClipboardManager :=
  { mgr with
    suppressedHash := blake3 (asBytes text)
    suppressUntil := now + echoSuppressionWindow
    lastHash := blake3 (asBytes text) }

/-- Write a received text into the clipboard. The suppression is armed first. -/
def writeClipboard (mgr : ClipboardManager) (text : String) (now : ℕ) (io : IoOutcome)
    (clipboard : String) : Except String Unit × ClipboardManager × String :=
  match io with
  | .ok => (.ok (), mgr.armSuppression blake3 text now, text)
  -- The suppression stays armed for a text that was never written.
  | .failed =>
    (.error "Clipboard write failed (no display or clipboard server available)",
      mgr.armSuppression blake3 text now, clipboard)

end ClipboardManager

/-! ### The desktop -/

/-- What happens to the clipboard, at some time. -/
inductive ClipboardOp where
  | copy (text : String)
  | write (text : String) (now : ℕ) (io : IoOutcome)
  | read (now : ℕ)

/-- A change of the clipboard, or a text that a read returns. -/
inductive ClipboardEvent where
  | copied (text : String)
  | written (text : String)
  | returned (text : String)
  deriving DecidableEq

/-- The clipboard with its manager, the last event, and the text of the last write that
failed since. -/
structure Desktop where
  manager : ClipboardManager
  clipboard : String
  lastEvent : ClipboardEvent
  refused : Option String

namespace Desktop

variable (blake3 : List UInt8 → Bytes 32)

/-- A text in the clipboard at the start counts as copied. -/
def opened (start : String) (now : ℕ) : Desktop := ⟨.new now, start, .copied start, none⟩

/-- The event just happened. -/
def happened (manager : ClipboardManager) (clipboard : String) (event : ClipboardEvent) :
    Desktop × List ClipboardEvent :=
  (⟨manager, clipboard, event, none⟩, [event])

def operate (d : Desktop) : ClipboardOp → Desktop × List ClipboardEvent
  | .copy text => happened d.manager text (.copied text)
  | .write text now io =>
    match d.manager.writeClipboard blake3 text now io d.clipboard with
    | (.ok _, manager, clipboard) => happened manager clipboard (.written text)
    | (.error _, manager, clipboard) => (⟨manager, clipboard, d.lastEvent, some text⟩, [])
  | .read now =>
    match d.manager.readClipboard blake3 d.clipboard now with
    | (some text, manager) => happened manager d.clipboard (.returned text)
    | (none, manager) => ({ d with manager := manager }, [])

def machine : Machine Desktop ClipboardOp ClipboardEvent := ⟨operate blake3⟩

/-! ### The property and its condition -/

/-- A returned text is what the user has just copied. -/
def Follows (before after : ClipboardEvent) : Prop :=
  ∀ text, after = .returned text → before = .copied text

/-- Every text that is returned was put into the clipboard by a user copy, or was there
at the start, and has not been returned since. -/
def NoEcho (start : String) (now : ℕ) (ops : List ClipboardOp) : Prop :=
  (.copied start :: (machine blake3).outputs (opened start now) ops).IsChain Follows

/-- A text that is written by the daemon or was returned is not read after a failed write
of another text. -/
def Undisturbed (d : Desktop) : ClipboardOp → Prop
  | .read _ => d.lastEvent ≠ .copied d.clipboard → d.clipboard ≠ "" →
      ∀ text ∈ d.refused, blake3 (asBytes text) = blake3 (asBytes d.clipboard)
  | _ => True

/-! ### What a read does -/

/-- The clipboard's text is neither empty, nor suppressed, nor the last one hashed. -/
def Reports (d : Desktop) (now : ℕ) : Prop :=
  d.clipboard ≠ "" ∧
    ¬ (now < d.manager.suppressUntil ∧ blake3 (asBytes d.clipboard) = d.manager.suppressedHash) ∧
    blake3 (asBytes d.clipboard) ≠ d.manager.lastHash

instance (d : Desktop) (now : ℕ) : Decidable (d.Reports blake3 now) :=
  inferInstanceAs (Decidable (_ ∧ _ ∧ _))

variable {blake3 : List UInt8 → Bytes 32} {d : Desktop}

theorem operate_read (now : ℕ) :
    d.operate blake3 (.read now) =
      if d.Reports blake3 now then
        happened { d.manager with lastHash := blake3 (asBytes d.clipboard) } d.clipboard
          (.returned d.clipboard)
      else (d, []) := by
  rw [operate, ClipboardManager.readClipboard]
  by_cases hempty : d.clipboard = ""
  · rw [if_pos hempty, if_neg fun h => h.1 hempty]
  -- Suppressed, new, or the last one hashed, in the order of the source.
  · rw [if_neg hempty]
    by_cases hsuppressed : now < d.manager.suppressUntil ∧
        blake3 (asBytes d.clipboard) = d.manager.suppressedHash
    · simp only [if_pos hsuppressed]
      rw [if_neg fun h => h.2.1 hsuppressed]
    · simp only [if_neg hsuppressed]
      by_cases hnew : blake3 (asBytes d.clipboard) ≠ d.manager.lastHash
      · rw [if_pos hnew, if_pos ⟨hempty, hsuppressed, hnew⟩]
      · rw [if_neg hnew, if_neg fun h => hnew h.2.2]

/-! ### What the manager remembers -/

/-- Unless the user has just copied it, the clipboard's text is the last one hashed, but
for a write that failed since, whose text is also the suppressed one. -/
structure Remembers (blake3 : List UInt8 → Bytes 32) (d : Desktop) : Prop where
  lastHash : d.lastEvent ≠ .copied d.clipboard →
    d.manager.lastHash = blake3 (asBytes (d.refused.getD d.clipboard))
  suppressedHash : ∀ text ∈ d.refused, d.manager.suppressedHash = blake3 (asBytes text)

theorem remembers_opened (start : String) (now : ℕ) : Remembers blake3 (opened start now) where
  lastHash h := absurd rfl h
  suppressedHash _ htext := by cases htext

/-- **Step lemma.** -/
theorem Remembers.next (h : Remembers blake3 d) (op : ClipboardOp) :
    Remembers blake3 ((machine blake3).next d op) := by
  show Remembers blake3 (d.operate blake3 op).1
  cases op with
  | copy text => exact ⟨fun hcopied => absurd rfl hcopied, fun _ htext => by cases htext⟩
  | write text now io =>
    -- Either way the text is hashed; a failed write is remembered as refused.
    cases io with
    | ok => exact ⟨fun _ => rfl, fun _ htext => by cases htext⟩
    | failed =>
      refine ⟨fun _ => rfl, fun text' htext => ?_⟩
      obtain rfl := Option.some.inj htext
      rfl
  | read now =>
    rw [operate_read]
    split
    · exact ⟨fun _ => rfl, fun _ htext => by cases htext⟩
    · exact h

/-- A text that the user has not just copied is reported only after another text could
not be written. -/
theorem Remembers.reports_iff (h : Remembers blake3 d)
    (old : d.lastEvent ≠ .copied d.clipboard) (now : ℕ) :
    d.Reports blake3 now ↔ d.clipboard ≠ "" ∧
      ∃ text ∈ d.refused, blake3 (asBytes text) ≠ blake3 (asBytes d.clipboard) := by
  have hlast := h.lastHash old
  rw [Reports, hlast]
  cases hrefused : d.refused with
  | none => simp
  | some text =>
    have hsuppressed := h.suppressedHash text hrefused
    rw [hsuppressed, Option.getD_some]
    constructor
    · rintro ⟨hne, -, hother⟩
      exact ⟨hne, text, rfl, hother.symm⟩
    · rintro ⟨hne, text', htext', hother⟩
      obtain rfl := Option.some.inj htext'
      exact ⟨hne, fun hsame => hother hsame.2.symm, hother.symm⟩

/-- **Step lemma.** What a step emits follows the last event iff it is undisturbed. -/
theorem Remembers.follows_iff (h : Remembers blake3 d) (op : ClipboardOp) :
    (∀ event ∈ (machine blake3).emit d op, Follows d.lastEvent event) ↔
      d.Undisturbed blake3 op := by
  show (∀ event ∈ (d.operate blake3 op).2, _) ↔ _
  cases op with
  | copy text => simp [operate, happened, Follows, Undisturbed]
  | write text now io =>
    cases io with
    | ok => simp [operate, happened, Follows, Undisturbed, ClipboardManager.writeClipboard]
    | failed => simp [operate, Undisturbed, ClipboardManager.writeClipboard]
  | read now =>
    rw [operate_read]
    by_cases hcopied : d.lastEvent = .copied d.clipboard
    · refine iff_of_true ?_ fun hold => absurd hcopied hold
      split
      · simp [happened, Follows, hcopied]
      · simp
    -- The text is an old one, and a read that returns it is an echo.
    · have hreports := h.reports_iff hcopied now
      constructor
      · intro hfollows _ hne text htext
        by_contra hother
        rw [if_pos (hreports.mpr ⟨hne, text, htext, hother⟩)] at hfollows
        exact hcopied (hfollows _ (List.mem_singleton_self _) _ rfl)
      · intro hundisturbed
        rw [if_neg]
        · simp
        · intro hreport
          obtain ⟨hne, text, htext, hother⟩ := hreports.mp hreport
          exact hother (hundisturbed hcopied hne text htext)

/-- A step emits the event that it leaves as the last one, or nothing. -/
theorem emit_cases (d : Desktop) (op : ClipboardOp) :
    (machine blake3).emit d op = [] ∧ ((machine blake3).next d op).lastEvent = d.lastEvent ∨
      (machine blake3).emit d op = [((machine blake3).next d op).lastEvent] := by
  show (d.operate blake3 op).2 = [] ∧ (d.operate blake3 op).1.lastEvent = d.lastEvent ∨
    (d.operate blake3 op).2 = [(d.operate blake3 op).1.lastEvent]
  cases op with
  | copy text => exact Or.inr rfl
  | write text now io =>
    cases io with
    | ok => exact Or.inr rfl
    | failed => exact Or.inl ⟨rfl, rfl⟩
  | read now =>
    rw [operate_read]
    split
    · exact Or.inr rfl
    · exact Or.inl ⟨rfl, rfl⟩

/-- **Run lemma.** -/
theorem Remembers.isChain_iff (h : Remembers blake3 d) (ops : List ClipboardOp) :
    (d.lastEvent :: (machine blake3).outputs d ops).IsChain Follows ↔
      (machine blake3).Guarded (Undisturbed blake3) d ops := by
  induction ops generalizing d with
  | nil => simp
  | cons op rest ih =>
    rw [Machine.outputs_cons, Machine.guarded_cons, ← ih (h.next op), ← h.follows_iff op]
    rcases d.emit_cases op with ⟨hsilent, hlast⟩ | hevent
    · rw [hsilent, hlast]
      simp
    · rw [hevent, List.singleton_append, List.isChain_cons_cons]
      simp

/-- **No echo.** No text is sent back and no copy returned twice exactly in the runs that
never read an old text after the write of another one failed. -/
theorem noEcho_iff (blake3 : List UInt8 → Bytes 32) (start : String) (now : ℕ)
    (ops : List ClipboardOp) :
    NoEcho blake3 start now ops ↔
      (machine blake3).Guarded (Undisturbed blake3) (opened start now) ops :=
  (remembers_opened start now).isChain_iff ops

/-! ### A copy that is returned twice -/

/-- A hash that keeps short texts apart. -/
def leadingBytes (bytes : List UInt8) : Bytes 32 := (Bytes.zero 32).copyFromSlice 0 (bytes.take 32)

/-- The user copies a text, and the write of a received one fails. -/
def failedWrite : List ClipboardOp := [.copy "A", .read 1, .write "B" 2 .failed, .read 3]

/-- The copy is returned again. -/
theorem not_noEcho_failedWrite : ¬ NoEcho leadingBytes "" 0 failedWrite := by
  intro h
  have houtputs : (machine leadingBytes).outputs (opened "" 0) failedWrite =
      [.copied "A", .returned "A", .returned "A"] := by
    decide +kernel
  rw [NoEcho, houtputs] at h
  simp [Follows] at h

end Desktop

end Gibberish.Daemon
