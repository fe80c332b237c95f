/-
# What a card does in a transaction

A card that keeps to the description, byte by byte: what it yields while the driver polls
it, how it takes a command and the data of a sector, and how it is left when it is
deselected.
-/

import Gibberish.Storage.SdCard

set_option autoImplicit false

namespace Gibberish.Storage

open Gibberish.Foundation Gibberish.Foundation.CyclicRedundancy CardState CardPhase

namespace SdCard

variable {κ : Type} [SdCard κ]

/-- Clock one byte in, with the card selected. -/
def poll (c : κ) : UInt8 × κ := SdCard.clock c .low 0xFF

/-- Clock bytes out, with the card selected. -/
def send (bytes : List UInt8) (c : κ) : κ := bytes.foldl (fun c b => (SdCard.clock c .low b).2) c

/-- Clock bytes with the card deselected. -/
def pass (bytes : List UInt8) (c : κ) : κ := bytes.foldl (fun c b => (SdCard.clock c .high b).2) c

@[simp] theorem send_nil (c : κ) : send [] c = c := rfl

@[simp] theorem send_cons (b : UInt8) (bytes : List UInt8) (c : κ) :
    send (b :: bytes) c = send bytes (SdCard.clock c .low b).2 := rfl

theorem send_append (bytes bytes' : List UInt8) (c : κ) :
    send (bytes ++ bytes') c = send bytes' (send bytes c) := List.foldl_append

@[simp] theorem pass_nil (c : κ) : pass [] c = c := rfl

@[simp] theorem pass_cons (b : UInt8) (bytes : List UInt8) (c : κ) :
    pass (b :: bytes) c = pass bytes (SdCard.clock c .high b).2 := rfl

end SdCard

open SdCard

section Conforms

variable {κ : Type} [SdCard κ] {prompt : Prop} {view : κ → CardState}
variable (conforms : Conforms prompt view) {c : κ}
include conforms

/-! ### Polling -/

/-- A ready card idles. -/
theorem poll_ready (ready : (view c).phase = .ready) :
    (poll c).1 = 0xFF ∧ view (poll c).2 = view c := by
  exact (allows_ready ready).mp (conforms.allows c .low 0xFF)

/-- The next byte that the card owes. -/
theorem poll_play {b : UInt8} {rest : List UInt8} {next : CardPhase}
    (owes : (view c).phase = play (b :: rest) next) :
    (poll c).1 = b ∧ view (poll c).2 = (view c).inPhase (play rest next) := by
  exact (allows_play owes).mp (conforms.allows c .low 0xFF) rfl

/-- While it works, a card shows it. -/
theorem poll_busy {left : ℕ} (busy : (view c).phase = settle (left + 1)) :
    (poll c).1 ≠ 0xFF ∧ view (poll c).2 = (view c).inPhase (settle left) := by
  exact (allows_settle busy).mp (conforms.allows c .low 0xFF)

theorem yields_ready (ready : (view c).phase = .ready) (n : ℕ) :
    ∃ c', Yields poll c (List.replicate n 0xFF) c' ∧ view c' = view c := by
  induction n generalizing c with
  | zero => exact ⟨c, rfl, rfl⟩
  | succ n ih =>
    obtain ⟨hbyte, hview⟩ := poll_ready conforms ready
    obtain ⟨c', hyields, hview'⟩ := ih (hview ▸ ready)
    exact ⟨c', ⟨hbyte, hyields⟩, hview'.trans hview⟩

/-- A card yields the bytes it owes, in order. -/
theorem yields_play {bytes rest : List UInt8} {next : CardPhase}
    (owes : (view c).phase = play (bytes ++ rest) next) :
    ∃ c', Yields poll c bytes c' ∧ view c' = (view c).inPhase (play rest next) := by
  induction bytes generalizing c with
  | nil =>
    rw [List.nil_append] at owes
    exact ⟨c, rfl, (inPhase_eq_self owes).symm⟩
  | cons b bytes ih =>
    obtain ⟨hbyte, hview⟩ := poll_play conforms owes
    have howes : (view (poll c).2).phase = play (bytes ++ rest) next := by
      rw [hview]
      rfl
    obtain ⟨c', hyields, hview'⟩ := ih howes
    exact ⟨c', ⟨hbyte, hyields⟩, by rw [hview', hview, inPhase_inPhase]⟩

/-- A wait for a byte behind a gap ends with this byte, if the gap is short enough. -/
theorem pollUntil_gap (stop : UInt8 → Bool) {n delay : ℕ} {b : UInt8} {rest : List UInt8}
    {next : CardPhase} (owes : (view c).phase = play (gap delay ++ b :: rest) next)
    (idle : stop 0xFF = false) (hit : stop b = true) (short : delay < n) :
    ∃ c', pollUntil poll stop n c = (some b, c') ∧
      view c' = (view c).inPhase (play rest next) := by
  rw [List.append_cons] at owes
  obtain ⟨c', hyields, hview⟩ := yields_play conforms owes
  refine ⟨c', pollUntil_hit hyields ?_ hit (by simpa [gap] using short), hview⟩
  intro y hy
  rwa [List.eq_of_mem_replicate hy]

/-- A wait for a byte behind a longer gap is given up. -/
theorem pollUntil_long_gap (stop : UInt8 → Bool) {n delay : ℕ} {rest : List UInt8}
    {next : CardPhase} (owes : (view c).phase = play (gap delay ++ rest) next)
    (idle : stop 0xFF = false) (long : n ≤ delay) :
    ∃ c', pollUntil poll stop n c = (none, c') ∧
      view c' = (view c).inPhase (play (gap (delay - n) ++ rest) next) := by
  have hgap : gap delay ++ rest = gap n ++ (gap (delay - n) ++ rest) := by
    rw [← List.append_assoc, gap, gap, gap, List.replicate_append_replicate,
      Nat.add_sub_cancel' long]
  rw [hgap] at owes
  obtain ⟨c', hyields, hview⟩ := yields_play conforms owes
  have hmiss : pollUntil poll stop (gap n).length c = (none, c') :=
    pollUntil_miss hyields fun y hy => by rwa [List.eq_of_mem_replicate hy]
  rw [gap, List.length_replicate] at hmiss
  exact ⟨c', hmiss, hview⟩

/-- A wait for a byte that the card does not owe is given up. -/
theorem pollUntil_silent (stop : UInt8 → Bool) (n : ℕ) (ready : (view c).phase = .ready)
    (idle : stop 0xFF = false) :
    ∃ c', pollUntil poll stop n c = (none, c') ∧ view c' = view c := by
  obtain ⟨c', hyields, hview⟩ := yields_ready conforms ready n
  have hmiss : pollUntil poll stop (gap n).length c = (none, c') :=
    pollUntil_miss hyields fun y hy => by rwa [List.eq_of_mem_replicate hy]
  rw [gap, List.length_replicate] at hmiss
  exact ⟨c', hmiss, hview⟩

/-- A card that works is ready after so many polls, or the wait for it is given up. -/
theorem pollUntil_settle {left : ℕ} (n : ℕ) (works : (view c).phase = settle left) :
    (left < n ∧ ∃ c', pollUntil poll (· = 0xFF) n c = (some 0xFF, c') ∧
      view c' = (view c).inPhase .ready) ∨
    (n ≤ left ∧ ∃ c', pollUntil poll (· = 0xFF) n c = (none, c') ∧
      view c' = (view c).inPhase (settle (left - n))) := by
  induction n generalizing c left with
  | zero => exact Or.inr ⟨Nat.zero_le left, c, rfl, (inPhase_eq_self works).symm⟩
  | succ n ih =>
    -- A poll finds the card done, or takes one byte of its work.
    cases left with
    | zero =>
      obtain ⟨hbyte, hview⟩ := poll_ready conforms works
      refine Or.inl ⟨Nat.succ_pos n, (poll c).2, ?_, ?_⟩
      · simp [pollUntil_succ, hbyte]
      · rw [hview]
        exact (inPhase_eq_self works).symm
    | succ left =>
      obtain ⟨hbyte, hview⟩ := poll_busy conforms works
      have hnext : pollUntil poll (· = 0xFF) (n + 1) c =
          pollUntil poll (· = 0xFF) n (poll c).2 := by
        simp [pollUntil_succ, hbyte]
      have hworks : (view (poll c).2).phase = settle left := by rw [hview, phase_inPhase]
      rw [hnext]
      rcases ih hworks with ⟨hlt, c', heq, hview'⟩ | ⟨hle, c', heq, hview'⟩
      · exact Or.inl ⟨Nat.succ_lt_succ hlt, c', heq, by rw [hview', hview, inPhase_inPhase]⟩
      · exact Or.inr ⟨Nat.succ_le_succ hle, c', heq, by
          rw [hview', hview, inPhase_inPhase, Nat.add_sub_add_right]⟩

/-! ### Commands -/

omit conforms in
theorem length_cmdBytes (cmd : UInt8) (arg : UInt32) : (cmdBytes cmd arg).length = 6 := by
  simp [cmdBytes]

omit [SdCard κ] conforms in
/-- What the driver sends is a command. -/
theorem isCommand_cmdBytes {cmd : UInt8} (hcmd : cmd < 64) (arg : UInt32) :
    IsCommand (cmdBytes cmd arg) cmd arg := by
  have hmask : cmd &&& 0x3F = cmd := by
    apply UInt8.toNat_inj.mp
    have hlt : cmd.toNat < 64 := UInt8.lt_iff_toNat_lt.mp hcmd
    rw [UInt8.toNat_and]
    exact (Nat.and_two_pow_sub_one_eq_mod cmd.toNat 6).trans (Nat.mod_eq_of_lt hlt)
  refine ⟨hcmd, crc7 ((0x40 ||| cmd) :: u32ToBeBytes arg), by rw [cmdBytes, hmask], ?_⟩
  rw [crc7, UInt8.toNat_or, toNat_foldl_bytes]
  exact (Nat.two_pow_add_eq_or_of_lt (i := 1) (by decide) _).symm

/-- The first bytes of a command. -/
theorem send_frame {received : List UInt8} (bytes : List UInt8) (phase : (view c).phase = .frame received)
    (short : received.length + bytes.length ≤ 5) :
    view (send bytes c) = (view c).inPhase (.frame (received ++ bytes)) := by
  induction bytes generalizing c received with
  | nil =>
    rw [List.append_nil]
    exact (inPhase_eq_self phase).symm
  | cons b bytes ih =>
    rw [List.length_cons] at short
    have hallows := (allows_frame phase).mp (conforms.allows c .low b)
    rw [if_pos (by omega)] at hallows
    have hphase : (view (SdCard.clock c .low b).2).phase = .frame (received ++ [b]) := by
      rw [hallows, phase_inPhase]
    rw [send_cons, ih hphase (by simpa using by omega), hallows, inPhase_inPhase,
      List.append_assoc, List.singleton_append]

omit [SdCard κ] conforms in
/-- A command starts with a start bit and a transmission bit. -/
theorem start_bits {cmd : UInt8} (hcmd : cmd < 64) :
    (0x40 ||| cmd) ≠ 0xFF ∧ (0x40 ||| cmd) &&& 0xC0 = 0x40 := by
  -- There are 64 commands.
  have hall : ∀ n < 64, (0x40 ||| UInt8.ofNat n) ≠ 0xFF ∧
      (0x40 ||| UInt8.ofNat n) &&& 0xC0 = 0x40 := by decide
  have hlt : cmd.toNat < 64 := UInt8.lt_iff_toNat_lt.mp hcmd
  have h := hall cmd.toNat hlt
  rwa [UInt8.ofNat_toNat] at h

/-- **A command.** A ready card that has taken a command answers it. -/
theorem send_cmdBytes {cmd : UInt8} (hcmd : cmd < 64) (arg : UInt32)
    (ready : (view c).phase = .ready) :
    (view c).Answers prompt cmd arg (view (send (cmdBytes cmd arg) c)) := by
  have hcommand := isCommand_cmdBytes hcmd arg
  obtain ⟨last, hbytes, -⟩ := hcommand.2
  rw [hbytes] at hcommand ⊢
  -- The first byte opens the frame, the argument fills it, the last closes it.
  have hstart := (allows_ready ready).mp (conforms.allows c .low (0x40 ||| cmd))
  rw [if_neg (start_bits hcmd).1] at hstart
  replace hstart := hstart (start_bits hcmd).2
  rw [List.cons_append, send_cons, send_append]
  generalize hc₁ : (SdCard.clock c .low (0x40 ||| cmd)).2 = c₁ at hstart ⊢
  have hmiddle := send_frame conforms (c := c₁) (u32ToBeBytes arg)
    (by rw [hstart, phase_inPhase]) (by simp)
  generalize hc₂ : send (u32ToBeBytes arg) c₁ = c₂ at hmiddle ⊢
  have hphase : (view c₂).phase = .frame ([0x40 ||| cmd] ++ u32ToBeBytes arg) := by
    rw [hmiddle, phase_inPhase]
  have hlast := (allows_frame hphase).mp (conforms.allows c₂ .low last)
  rw [if_neg (by simp)] at hlast
  have hanswers := hlast cmd arg hcommand
  rw [hmiddle] at hanswers
  rw [hstart] at hanswers
  exact hanswers

/-! ### The data of a sector -/

/-- Before the token, idle bytes are passed over. -/
theorem send_token {lba : UInt32} (phase : (view c).phase = .token lba) :
    view (send [0xFF, 0xFE] c) = (view c).inPhase (.data lba []) := by
  -- The driver sends an idle byte before the token.
  have hidle := (allows_token phase).mp (conforms.allows c .low 0xFF)
  rw [if_neg (by decide)] at hidle
  have hview := hidle rfl
  have hphase : (view (SdCard.clock c .low 0xFF).2).phase = .token lba := by rw [hview, phase]
  have htoken := (allows_token hphase).mp
    (conforms.allows (SdCard.clock c .low 0xFF).2 .low 0xFE)
  rw [if_pos rfl, hview] at htoken
  exact htoken

theorem send_data {lba : UInt32} {received : List UInt8} (bytes : List UInt8)
    (phase : (view c).phase = .data lba received)
    (short : received.length + bytes.length ≤ 513) :
    view (send bytes c) = (view c).inPhase (.data lba (received ++ bytes)) := by
  induction bytes generalizing c received with
  | nil =>
    rw [List.append_nil]
    exact (inPhase_eq_self phase).symm
  | cons b bytes ih =>
    rw [List.length_cons] at short
    have hallows := (allows_data phase).mp (conforms.allows c .low b)
    rw [if_pos (by omega)] at hallows
    have hphase : (view (SdCard.clock c .low b).2).phase = .data lba (received ++ [b]) := by
      rw [hallows, phase_inPhase]
    rw [send_cons, ih hphase (by simpa using by omega), hallows, inPhase_inPhase,
      List.append_assoc, List.singleton_append]

omit [SdCard κ] conforms in
theorem blockOf_append (buf : Bytes sectorSize) (crc : List UInt8) :
    blockOf (buf.toList ++ crc) = buf := by
  ext i hi
  have hlen : i < buf.toList.length := by rwa [Vector.length_toList]
  rw [blockOf, Vector.getElem_ofFn, List.getD_append _ _ _ _ hlen, List.getD_eq_getElem _ _ hlen,
    Vector.getElem_toList]

/-- **The data.** A card that waits for a sector takes it with its checksum, and accepts
or refuses it. -/
theorem send_sector {lba : UInt32} (phase : (view c).phase = .token lba) (buf : Bytes sectorSize) :
    (view c).Accepts prompt lba (buf.toList ++ [0xFF, 0xFF])
      (view (send [0xFF, 0xFF] (send buf.toList (send [0xFF, 0xFE] c)))) := by
  have htoken := send_token conforms phase
  generalize send [0xFF, 0xFE] c = c₁ at htoken ⊢
  have hdata := send_data conforms (c := c₁) (buf.toList ++ [0xFF])
    (by rw [htoken, phase_inPhase]) (by simp)
  rw [send_append] at hdata
  generalize send buf.toList c₁ = c₂ at hdata ⊢
  generalize hc₃ : send [0xFF] c₂ = c₃ at hdata
  have hsplit : send [0xFF, 0xFF] c₂ = (SdCard.clock c₃ .low 0xFF).2 := by
    rw [← hc₃]
    rfl
  have hphase : (view c₃).phase = .data lba (buf.toList ++ [0xFF]) := by
    rw [hdata, phase_inPhase, List.nil_append]
  have hlast := (allows_data hphase).mp (conforms.allows c₃ .low 0xFF)
  rw [if_neg (by simp), hdata, htoken, List.append_assoc, List.singleton_append] at hlast
  rw [hsplit]
  exact hlast

/-! ### Deselected -/

/-- **Deselected.** A card that hears bytes while it is deselected is left at rest, with
no more work to do than before, and keeps its sectors. -/
theorem view_pass (c : κ) {bytes : List UInt8} (some : bytes ≠ []) :
    ∃ left ≤ (view c).phase.backlog, view (pass bytes c) = (view c).deselected bytes.length left := by
  induction bytes generalizing c with
  | nil => exact absurd rfl some
  | cons b bytes ih =>
    obtain ⟨left, hleft, hview⟩ := allows_high.mp (conforms.allows c .high b)
    cases bytes with
    | nil => exact ⟨left, hleft, hview⟩
    | cons b' bytes =>
      obtain ⟨left', hleft', hview'⟩ := ih (SdCard.clock c .high b).2 (List.cons_ne_nil _ _)
      rw [hview, deselected, backlog_settle] at hleft'
      refine ⟨left', hleft'.trans hleft, ?_⟩
      rw [pass_cons, hview', hview]
      rfl

end Conforms

end Gibberish.Storage
