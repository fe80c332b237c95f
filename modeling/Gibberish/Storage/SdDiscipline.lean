/-
# The driver on any bus

Whatever the bus answers, the driver keeps its manners. The card is selected only within a
transaction, which ends with two bytes clocked behind it, no transaction goes on for
longer than its waits allow, and bringing the card up ends with the bus at its full rate,
with or without a card. Without one, it ends soon.
-/

import Gibberish.Storage.SdBlocks

set_option autoImplicit false

namespace Gibberish.Storage

open Gibberish.Foundation

/-- What is done with a bus. A configuration is noted with its answer. -/
inductive BusEvent where
  | select
  | deselect
  | rate (khz : ℕ) (accepted : Bool)
  | bytes (n : ℕ)
  | delay (ms : ℕ)
  deriving DecidableEq

/-- A bus that keeps what is done with it. -/
structure Traced (B : Type) where
  bus : B
  log : List BusEvent

variable {B : Type} [SdBus B]

/-- The event of a pin. -/
def Level.event : Level → BusEvent
  | .low => .select
  | .high => .deselect

instance : SdBus (Traced B) where
  setCs t level := ⟨SdBus.setCs t.bus level, t.log ++ [level.event]⟩
  applyConfig t khz :=
    let (accepted, bus) := SdBus.applyConfig t.bus khz
    (accepted, ⟨bus, t.log ++ [.rate khz accepted]⟩)
  write t bytes :=
    let (written, bus) := SdBus.write t.bus bytes
    (written, ⟨bus, t.log ++ [.bytes bytes.length]⟩)
  transfer {n} t words :=
    let (read, words, bus) := SdBus.transfer t.bus words
    (read, words, ⟨bus, t.log ++ [.bytes n]⟩)
  delayMillis t ms := ⟨SdBus.delayMillis t.bus ms, t.log ++ [.delay ms]⟩

/-- A transaction with so many bytes, piece by piece. -/
def transaction (pieces : List ℕ) : List BusEvent :=
  .select :: (pieces.map .bytes ++ [.deselect, .bytes 2])

/-- How long a log takes from a clock rate on, in nanoseconds of clocks and delays. -/
def nanos : ℕ → List BusEvent → ℕ
  | _, [] => 0
  | _, .rate khz true :: rest => nanos khz rest
  | khz, .bytes n :: rest => n * (8000000 / khz) + nanos khz rest
  | khz, .delay ms :: rest => ms * 1000000 + nanos khz rest
  | khz, _ :: rest => nanos khz rest

/-- A log of transactions, delays and clocks of the deselected card. -/
inductive Framed : List BusEvent → Prop
  | nil : Framed []
  | delay (ms : ℕ) {rest : List BusEvent} : Framed rest → Framed (.delay ms :: rest)
  | bytes (n : ℕ) {rest : List BusEvent} : Framed rest → Framed (.bytes n :: rest)
  | transaction (pieces : List ℕ) {rest : List BusEvent} :
      Framed rest → Framed (transaction pieces ++ rest)

theorem Framed.append {log log' : List BusEvent} (h : Framed log) (h' : Framed log') :
    Framed (log ++ log') := by
  induction h with
  | nil => exact h'
  | delay ms _ ih => exact ih.delay ms
  | bytes n _ ih => exact ih.bytes n
  | transaction pieces _ ih =>
    rw [List.append_assoc]
    exact ih.transaction pieces

theorem nanos_bytes (khz : ℕ) (pieces : List ℕ) (rest : List BusEvent) :
    nanos khz (pieces.map .bytes ++ rest) = pieces.sum * (8000000 / khz) + nanos khz rest := by
  induction pieces with
  | nil => simp
  | cons n pieces ih =>
    rw [List.map_cons, List.cons_append, nanos, ih, List.sum_cons, Nat.add_mul, Nat.add_assoc]

theorem nanos_transaction (khz : ℕ) (pieces : List ℕ) (rest : List BusEvent) :
    nanos khz (transaction pieces ++ rest) =
      (pieces.sum + 2) * (8000000 / khz) + nanos khz rest := by
  rw [transaction, List.cons_append, List.append_assoc]
  show nanos khz (pieces.map .bytes ++ .deselect :: .bytes 2 :: rest) = _
  rw [nanos_bytes, Nat.add_mul, Nat.add_assoc]
  rfl

theorem Framed.nanos_append {khz : ℕ} {log : List BusEvent} (h : Framed log)
    (rest : List BusEvent) : nanos khz (log ++ rest) = nanos khz log + nanos khz rest := by
  induction h with
  | nil => exact (Nat.zero_add _).symm
  | delay ms _ ih => rw [List.cons_append, nanos, nanos, ih, Nat.add_assoc]
  | bytes n _ ih => rw [List.cons_append, nanos, nanos, ih, Nat.add_assoc]
  | transaction pieces _ ih =>
    rw [List.append_assoc, nanos_transaction, nanos_transaction, ih, Nat.add_assoc]

/-! ### Within a transaction -/

/-- From one bus to the other at most so many bytes are clocked. -/
def Clocks (most : ℕ) (t t' : Traced B) : Prop :=
  ∃ pieces : List ℕ, t'.log = t.log ++ pieces.map .bytes ∧ pieces.sum ≤ most

variable {t t' t'' : Traced B} {most most' : ℕ}

omit [SdBus B] in
theorem Clocks.refl (t : Traced B) : Clocks 0 t t :=
  ⟨[], (List.append_nil _).symm, Nat.le_refl 0⟩

omit [SdBus B] in
theorem Clocks.trans (h : Clocks most t t') (h' : Clocks most' t' t'') :
    Clocks (most + most') t t'' := by
  obtain ⟨pieces, hlog, hsum⟩ := h
  obtain ⟨pieces', hlog', hsum'⟩ := h'
  refine ⟨pieces ++ pieces', ?_, ?_⟩
  · rw [hlog', hlog, List.map_append, List.append_assoc]
  · rw [List.sum_append]
    exact Nat.add_le_add hsum hsum'

omit [SdBus B] in
theorem Clocks.mono (h : Clocks most t t') (le : most ≤ most') : Clocks most' t t' := by
  obtain ⟨pieces, hlog, hsum⟩ := h
  exact ⟨pieces, hlog, hsum.trans le⟩

theorem clocks_write (t : Traced B) (bytes : List UInt8) :
    Clocks bytes.length t (SdBus.write t bytes).2 :=
  ⟨[bytes.length], rfl, by simp⟩

theorem clocks_transfer {n : ℕ} (t : Traced B) (words : Bytes n) :
    Clocks n t (SdBus.transfer t words).2.2 :=
  ⟨[n], rfl, by simp⟩

theorem clocks_readByte (t : Traced B) : Clocks 1 t (readByte t).2 := clocks_transfer t _

/-- A wait clocks a byte each time. -/
theorem clocks_pollUntil (stop : UInt8 → Bool) (n : ℕ) (t : Traced B) :
    Clocks n t (pollUntil readByte stop n t).2 := by
  induction n generalizing t with
  | zero => exact .refl t
  | succ n ih =>
    have hbyte := clocks_readByte t
    rw [pollUntil_succ]
    -- A byte that ends the wait, or one that is waited behind.
    split
    · exact hbyte.mono (Nat.le_add_left 1 n)
    · exact (hbyte.trans (ih _)).mono (Nat.le_of_eq (Nat.add_comm 1 n))

theorem clocks_waitR1 (n : ℕ) (t : Traced B) : Clocks n t (waitR1 n t).2 := by
  have hpoll := clocks_pollUntil (fun b => b &&& 0x80 = 0) n t
  rw [waitR1]
  generalize pollUntil readByte (fun b => b &&& 0x80 = 0) n t = r at hpoll ⊢
  obtain ⟨answer | answer, t'⟩ := r
  · exact hpoll
  · exact hpoll

theorem clocks_sendCmd (cmd : UInt8) (arg : UInt32) (t : Traced B) :
    Clocks 6 t (sendCmd cmd arg t) := by
  have hwrite := clocks_write t (cmdBytes cmd arg)
  rwa [length_cmdBytes] at hwrite

/-! ### Transactions -/

/-- From one bus to the other there is one transaction, of at most so many bytes. -/
def Transacts (most : ℕ) (t t' : Traced B) : Prop :=
  ∃ pieces : List ℕ, t'.log = t.log ++ transaction pieces ∧ pieces.sum ≤ most

theorem Clocks.transacts (h : Clocks most (SdBus.setCs t .low) t') :
    Transacts most t (deassert t') := by
  obtain ⟨pieces, hlog, hsum⟩ := h
  refine ⟨pieces, ?_, hsum⟩
  show t'.log ++ [.deselect] ++ [.bytes 2] = t.log ++ transaction pieces
  have hselect : (SdBus.setCs t .low).log = t.log ++ [.select] := rfl
  rw [hlog, hselect, transaction]
  simp

theorem transacts_command (cmd : UInt8) (arg : UInt32) (n : ℕ) (t : Traced B) :
    Transacts (6 + n) t (command cmd arg n t).2 :=
  ((clocks_sendCmd cmd arg _).trans (clocks_waitR1 n _)).transacts

theorem transacts_checkVersion (t : Traced B) : Transacts 110 t (checkVersion t).2 := by
  have hwait := (clocks_sendCmd 8 0x1AA (SdBus.setCs t .low)).trans (clocks_waitR1 100 _)
  rw [checkVersion]
  generalize waitR1 100 (sendCmd 8 0x1AA (SdBus.setCs t .low)) = r at hwait ⊢
  obtain ⟨answer | r1, t'⟩ := r
  · exact (hwait.mono (by decide)).transacts
  · dsimp only
    -- Only a card of the second version sends its four bytes.
    split
    · exact (hwait.trans (clocks_transfer t' _)).transacts
    · split
      · exact (hwait.mono (by decide)).transacts
      · exact (hwait.mono (by decide)).transacts

theorem transacts_readOcr (t : Traced B) : Transacts 110 t (readOcr t).2 := by
  have hwait := (clocks_sendCmd 58 0 (SdBus.setCs t .low)).trans (clocks_waitR1 100 _)
  rw [readOcr]
  generalize waitR1 100 (sendCmd 58 0 (SdBus.setCs t .low)) = r at hwait ⊢
  obtain ⟨r1, t'⟩ := r
  dsimp only
  split
  · exact (hwait.trans (clocks_transfer t' _)).transacts
  · exact (hwait.mono (by decide)).transacts

namespace SpiSdBlockDevice

variable {d : SpiSdBlockDevice (Traced B)}

theorem transacts_readReply (h : Clocks most (SdBus.setCs d.bus .low) t) :
    Transacts (most + 101514) d.bus (d.readReply t).2.bus := by
  have hsector : sectorSize = 512 := rfl
  have hwait := h.trans (clocks_waitR1 1000 t)
  rw [readReply]
  generalize waitR1 1000 t = r at hwait ⊢
  obtain ⟨r1, t₁⟩ := r
  dsimp only
  -- Each way out of a read deselects the card, so each is one transaction.
  split
  · exact (hwait.mono (by omega)).transacts
  · have htoken := hwait.trans (clocks_pollUntil (· ≠ 0xFF) 100000 t₁)
    generalize pollUntil readByte (· ≠ 0xFF) 100000 t₁ = r at htoken ⊢
    obtain ⟨answer | token, t₂⟩ := r
    · exact (htoken.mono (by omega)).transacts
    · dsimp only
      split
      · exact (htoken.mono (by omega)).transacts
      · have hread := htoken.trans (clocks_transfer t₂ (Vector.replicate sectorSize 0xFF))
        generalize SdBus.transfer t₂ (Vector.replicate sectorSize 0xFF) = r at hread ⊢
        obtain ⟨read, buf, t₃⟩ := r
        dsimp only
        split
        · exact (hread.mono (by omega)).transacts
        · have hcrc := hread.trans (clocks_transfer t₃ (Vector.replicate 2 0xFF))
          exact (hcrc.mono (by omega)).transacts

/-- A read is one transaction. -/
theorem transacts_readBlock (d : SpiSdBlockDevice (Traced B)) (lba : UInt32) :
    Transacts 103520 d.bus (d.readBlock lba).2.bus := by
  have hready := clocks_pollUntil (· = 0xFF) 2000 (SdBus.setCs d.bus .low)
  rw [readBlock]
  generalize pollUntil readByte (· = 0xFF) 2000 (SdBus.setCs d.bus .low) = r at hready ⊢
  obtain ⟨answer | b, t⟩ := r
  · exact (hready.mono (by decide)).transacts
  · exact transacts_readReply (hready.trans (clocks_sendCmd 17 (d.addr lba) t))

theorem transacts_writeReply (h : Clocks most (SdBus.setCs d.bus .low) t) :
    Transacts (most + 250200) d.bus (d.writeReply t).2.bus := by
  have htoken := h.trans (clocks_pollUntil (· ≠ 0xFF) 200 t)
  rw [writeReply]
  generalize pollUntil readByte (· ≠ 0xFF) 200 t = r at htoken ⊢
  obtain ⟨answer | resp, t₁⟩ := r
  · exact (htoken.mono (by omega)).transacts
  · dsimp only
    split
    · exact (htoken.mono (by omega)).transacts
    -- After the answer the host waits for the card to have written.
    · have hbusy := htoken.trans (clocks_pollUntil (· = 0xFF) 250000 t₁)
      generalize pollUntil readByte (· = 0xFF) 250000 t₁ = r at hbusy ⊢
      obtain ⟨answer | b, t₂⟩ := r
      · exact (hbusy.mono (by omega)).transacts
      · exact (hbusy.mono (by omega)).transacts

theorem transacts_writeData (buf : Bytes sectorSize) (h : Clocks most (SdBus.setCs d.bus .low) t) :
    Transacts (most + 251716) d.bus (d.writeData buf t).2.bus := by
  have hsector : sectorSize = 512 := rfl
  have hwait := h.trans (clocks_waitR1 1000 t)
  rw [writeData]
  generalize waitR1 1000 t = r at hwait ⊢
  obtain ⟨r1, t₁⟩ := r
  dsimp only
  split
  · exact (hwait.mono (by omega)).transacts
  · have htoken := hwait.trans (clocks_write t₁ [0xFF, 0xFE])
    generalize SdBus.write t₁ [0xFF, 0xFE] = r at htoken ⊢
    obtain ⟨sent, t₂⟩ := r
    have hdata := htoken.trans (clocks_write t₂ buf.toList)
    rw [Vector.length_toList] at hdata
    dsimp only
    generalize SdBus.write t₂ buf.toList = r at hdata ⊢
    obtain ⟨written, t₃⟩ := r
    dsimp only
    split
    · exact (hdata.mono (by rw [List.length_cons, List.length_singleton]; omega)).transacts
    -- The data have gone out, and the rest of the write is the reply.
    · obtain ⟨pieces, hlog, hsum⟩ :=
        transacts_writeReply (d := d) (hdata.trans (clocks_write t₃ [0xFF, 0xFF]))
      refine ⟨pieces, hlog, hsum.trans ?_⟩
      rw [List.length_cons, List.length_singleton, List.length_cons, List.length_singleton]
      omega

/-- A write is one transaction. -/
theorem transacts_writeBlock (d : SpiSdBlockDevice (Traced B)) (lba : UInt32)
    (buf : Bytes sectorSize) : Transacts 256722 d.bus (d.writeBlock lba buf).2.bus := by
  have hready := clocks_pollUntil (· = 0xFF) 5000 (SdBus.setCs d.bus .low)
  rw [writeBlock]
  generalize pollUntil readByte (· = 0xFF) 5000 (SdBus.setCs d.bus .low) = r at hready ⊢
  obtain ⟨answer | b, t⟩ := r
  · exact (hready.mono (by decide)).transacts
  · exact transacts_writeData buf (hready.trans (clocks_sendCmd 24 (d.addr lba) t))

/-- The most bytes that a call clocks while the card is selected. -/
def SectorOp.patience : SectorOp → ℕ
  | .read _ => 103520
  | .write _ _ => 256722

/-- **Any bus.** Whatever the bus answers, calls are transactions on it, one for each, and
no wait goes on forever. -/
theorem calls_are_transactions (d : SpiSdBlockDevice (Traced B)) (ops : List SectorOp) :
    ∃ transactions : List (List ℕ),
      (machine.final d ops).bus.log = d.bus.log ++ transactions.flatMap transaction ∧
      List.Forall₂ (fun op pieces => pieces.sum ≤ op.patience) ops transactions := by
  induction ops generalizing d with
  | nil => exact ⟨[], (List.append_nil _).symm, .nil⟩
  | cons op ops ih =>
    have hstep : Transacts op.patience d.bus (machine.next d op).bus := by
      cases op with
      | read lba => exact transacts_readBlock d lba
      | write lba block => exact transacts_writeBlock d lba block
    obtain ⟨pieces, hlog, hsum⟩ := hstep
    obtain ⟨transactions, hrest, hsums⟩ := ih (machine.next d op)
    refine ⟨pieces :: transactions, ?_, .cons hsum hsums⟩
    rw [Machine.final_cons, hrest, hlog, List.flatMap_cons, List.append_assoc]

end SpiSdBlockDevice

/-! ### Bringing the card up -/

/-- From one bus to the other there are transactions and delays, for at most so long at
400 kHz. -/
def Spends (most : ℕ) (t t' : Traced B) : Prop :=
  ∃ log, t'.log = t.log ++ log ∧ Framed log ∧ nanos 400 log ≤ most

omit [SdBus B] in
theorem Spends.refl (t : Traced B) : Spends 0 t t :=
  ⟨[], (List.append_nil _).symm, .nil, Nat.le_refl 0⟩

omit [SdBus B] in
theorem Spends.trans (h : Spends most t t') (h' : Spends most' t' t'') :
    Spends (most + most') t t'' := by
  obtain ⟨log, hlog, hframed, hnanos⟩ := h
  obtain ⟨log', hlog', hframed', hnanos'⟩ := h'
  refine ⟨log ++ log', by rw [hlog', hlog, List.append_assoc], hframed.append hframed', ?_⟩
  rw [hframed.nanos_append]
  exact Nat.add_le_add hnanos hnanos'

omit [SdBus B] in
theorem Spends.mono (h : Spends most t t') (le : most ≤ most') : Spends most' t t' := by
  obtain ⟨log, hlog, hframed, hnanos⟩ := h
  exact ⟨log, hlog, hframed, hnanos.trans le⟩

omit [SdBus B] in
theorem Transacts.spends (h : Transacts most t t') : Spends ((most + 2) * 20000) t t' := by
  obtain ⟨pieces, hlog, hsum⟩ := h
  refine ⟨transaction pieces, hlog, ?_, ?_⟩
  · have hframed := Framed.transaction pieces .nil
    rwa [List.append_nil] at hframed
  · have hnanos := nanos_transaction 400 pieces []
    rw [List.append_nil] at hnanos
    have hrate : 8000000 / 400 = 20000 := by decide
    rw [hnanos, hrate, nanos, Nat.add_zero]
    exact Nat.mul_le_mul_right 20000 (Nat.add_le_add_right hsum 2)

theorem spends_delay (t : Traced B) (ms : ℕ) :
    Spends (ms * 1000000) t (SdBus.delayMillis t ms) :=
  ⟨[.delay ms], rfl, Framed.nil.delay ms, by rw [nanos, nanos, Nat.add_zero]⟩

theorem spends_wake (t : Traced B) :
    Spends 10200000 t (SdBus.write (SdBus.delayMillis t 10) (List.replicate 10 0xFF)).2 :=
  ⟨[.delay 10, .bytes 10], List.append_assoc _ _ _, (Framed.nil.bytes 10).delay 10, by decide⟩

theorem spends_capacity (isV2 : Bool) (t : Traced B) :
    Spends 2240000 t (if isV2 then readOcr t else (false, t)).2 := by
  split
  · exact (transacts_readOcr t).spends
  · exact (Spends.refl t).mono (by decide)

theorem spends_blockLen (isSdhc : Bool) (t : Traced B) :
    Spends 2160000 t (if isSdhc then t else (command 16 512 100 t).2) := by
  split
  · exact (Spends.refl t).mono (by decide)
  · exact (transacts_command 16 512 100 t).spends

theorem spends_enterIdle (n : ℕ) (t : Traced B) :
    Spends (n * 3160000) t (enterIdle n t).2 := by
  induction n generalizing t with
  | zero => exact Spends.refl t
  | succ n ih =>
    have hcommand := (transacts_command 0 0 50 t).spends
    rw [enterIdle]
    generalize command 0 0 50 t = r at hcommand ⊢
    obtain ⟨r1, t₁⟩ := r
    dsimp only
    split
    · exact hcommand.mono (by omega)
    · exact ((hcommand.trans (spends_delay t₁ 2)).trans (ih _)).mono (by omega)

theorem spends_leaveIdle (hcsArg : UInt32) (n : ℕ) (t : Traced B) :
    Spends (n * 9320000) t (leaveIdle hcsArg n t).2 := by
  induction n generalizing t with
  | zero => exact Spends.refl t
  | succ n ih =>
    have hannounce := (transacts_command 55 0 100 t).spends
    rw [leaveIdle]
    generalize command 55 0 100 t = r at hannounce ⊢
    obtain ⟨r1, t₁⟩ := r
    dsimp only
    have hcommand := hannounce.trans (transacts_command 41 hcsArg 100 t₁).spends
    generalize command 41 hcsArg 100 t₁ = r at hcommand ⊢
    obtain ⟨r1', t₂⟩ := r
    dsimp only
    split
    · exact hcommand.mono (by omega)
    · exact ((hcommand.trans (spends_delay t₂ 5)).trans (ih _)).mono (by omega)

namespace SpiSdBlockDevice

/-- How the start ends: at the full rate, and deselected with two bytes behind if there is
a card. -/
inductive StartEnds : Except (StorageError × Traced B) (SpiSdBlockDevice (Traced B)) →
    List BusEvent → Prop
  | brought_up (d : SpiSdBlockDevice (Traced B)) :
      StartEnds (.ok d) [.rate 16000 true, .deselect, .bytes 2]
  | given_up (t : Traced B) (accepted : Bool) :
      StartEnds (.error (.deviceError, t)) [.rate 16000 accepted]
  | refused (t : Traced B) (accepted : Bool) :
      StartEnds (.error (.deviceError, t)) [.rate 16000 false, .rate 16000 accepted]

/-- What a start does on a bus from where it has been configured: for at most so long, it
brings the card up or gives up. -/
def Starts (most : ℕ) (t : Traced B)
    (r : Except (StorageError × Traced B) (SpiSdBlockDevice (Traced B))) : Prop :=
  ∃ log ending, (busAfter r).log = t.log ++ (log ++ ending) ∧ Framed log ∧
    nanos 400 log ≤ most ∧ StartEnds r ending

theorem starts_of_given_up (h : Spends most t t') (le : most ≤ most') :
    Starts most' t (.error (.deviceError, restoreSpi16m t')) := by
  obtain ⟨log, hlog, hframed, hnanos⟩ := h
  refine ⟨log, [.rate 16000 (SdBus.applyConfig t'.bus 16000).1], ?_, hframed, hnanos.trans le,
    .given_up _ _⟩
  rw [← List.append_assoc, ← hlog]
  rfl

/-- The end of a start, on a card that has come up. -/
theorem starts_of_came_up (h : Spends most t t') (isSdhc : Bool) :
    Starts most t (match SdBus.applyConfig t' 16000 with
      | (configured, bus) =>
        if !configured then .error (.deviceError, restoreSpi16m bus)
        else .ok ⟨deassert bus, isSdhc⟩) := by
  obtain ⟨log, hlog, hframed, hnanos⟩ := h
  have hconfig : (SdBus.applyConfig t' 16000).2.log =
      t'.log ++ [.rate 16000 (SdBus.applyConfig t' 16000).1] := rfl
  generalize SdBus.applyConfig t' 16000 = r at hconfig ⊢
  obtain ⟨configured, t₁⟩ := r
  cases configured with
  | false =>
    refine ⟨log, [.rate 16000 false, .rate 16000 (SdBus.applyConfig t₁.bus 16000).1], ?_, hframed,
      hnanos, .refused _ _⟩
    show t₁.log ++ [.rate 16000 (SdBus.applyConfig t₁.bus 16000).1] = _
    rw [hconfig, hlog]
    simp
  | true =>
    refine ⟨log, [.rate 16000 true, .deselect, .bytes 2], ?_, hframed, hnanos, .brought_up _⟩
    show t₁.log ++ [.deselect] ++ [.bytes 2] = _
    rw [hconfig, hlog]
    simp

/-- **The start on any bus.** Whatever the bus answers, the start configures it for 400 kHz,
spends less than two seconds on delays and transactions there, and its last configuration
is that of 16 MHz, with or without a card. -/
theorem new_restores_bus (t : Traced B) :
    ∃ accepted log ending,
      (busAfter (new t)).log = t.log ++ .deselect :: .rate 400 accepted :: (log ++ ending) ∧
      Framed log ∧ nanos 400 log ≤ 1896640000 ∧ StartEnds (new t) ending := by
  have hconfig : (SdBus.applyConfig (SdBus.setCs t .high) 400).2.log =
      t.log ++ [.deselect, .rate 400 (SdBus.applyConfig (SdBus.setCs t .high) 400).1] := by
    show t.log ++ [.deselect] ++ [.rate 400 _] = _
    rw [List.append_assoc]
    rfl
  suffices h : Starts 1896640000 (SdBus.applyConfig (SdBus.setCs t .high) 400).2 (new t) by
    obtain ⟨log, ending, hlog, hframed, hnanos, hending⟩ := h
    refine ⟨(SdBus.applyConfig (SdBus.setCs t .high) 400).1, log, ending, ?_, hframed, hnanos,
      hending⟩
    rw [hlog, hconfig, List.append_assoc]
    rfl
  rw [new]
  dsimp only
  generalize SdBus.applyConfig (SdBus.setCs t .high) 400 = r
  obtain ⟨configured, t₁⟩ := r
  cases configured with
  | false => exact starts_of_given_up (.refl t₁) (Nat.zero_le _)
  | true =>
    dsimp only
    rw [Bool.not_true, if_neg Bool.false_ne_true]
    have hwake := spends_wake t₁
    generalize (SdBus.write (SdBus.delayMillis t₁ 10) (List.replicate 10 0xFF)) = r at hwake ⊢
    obtain ⟨woken, t₂⟩ := r
    dsimp only at hwake ⊢
    have hidle := hwake.trans (spends_enterIdle 5 t₂)
    generalize enterIdle 5 t₂ = r at hidle ⊢
    obtain ⟨idle, t₃⟩ := r
    cases idle with
    | false => exact starts_of_given_up hidle (by decide)
    | true =>
      have hversion := hidle.trans (transacts_checkVersion t₃).spends
      dsimp only
      generalize checkVersion t₃ = r at hversion ⊢
      obtain ⟨version | isV2, t₄⟩ := r
      · exact starts_of_given_up hversion (by decide)
      · dsimp only
        have hup := hversion.trans
          (spends_leaveIdle (if isV2 then 0x40000000 else 0x00000000) 200 t₄)
        generalize leaveIdle (if isV2 then 0x40000000 else 0x00000000) 200 t₄ = r at hup ⊢
        obtain ⟨up, t₅⟩ := r
        cases up with
        | false => exact starts_of_given_up hup (by decide)
        | true =>
          dsimp only
          have hocr := spends_capacity isV2 t₅
          generalize (if isV2 then readOcr t₅ else (false, t₅)) = r at hocr ⊢
          obtain ⟨isSdhc, t₆⟩ := r
          dsimp only at hocr ⊢
          have hlen := spends_blockLen isSdhc t₆
          generalize (if isSdhc then t₆ else (command 16 512 100 t₆).2) = t₇ at hlen ⊢
          exact starts_of_came_up (((hup.trans hocr).trans hlen).mono (by decide)) isSdhc

end SpiSdBlockDevice

/-! ### Without a card -/

/-- A bus whose line is pulled up and never driven, and which runs at either rate. -/
structure Mute (B : Type) [SdBus B] : Prop where
  transfer : ∀ {n : ℕ} (bus : B) (words : Bytes n),
    (SdBus.transfer bus words).2.1 = Vector.replicate n 0xFF
  configures : ∀ (bus : B) (khz : ℕ), khz = 400 ∨ khz = 16000 →
    (SdBus.applyConfig bus khz).1 = true

/-- A slot without a card. -/
structure EmptySlot where

instance : SdCard EmptySlot := ⟨fun slot _ _ => (0xFF, slot)⟩

theorem mute_emptySlot {π : Type} [LcdPanel π] : Mute (SharedBus EmptySlot π) := by
  have hclock : ∀ (bytes : List UInt8) (bus : SharedBus EmptySlot π),
      (SharedBus.clockBytes bytes bus).1 = List.replicate bytes.length 0xFF := by
    intro bytes
    induction bytes with
    | nil => exact fun _ => rfl
    | cons b rest ih =>
      intro bus
      have hbyte : (bus.clockByte b).1 = 0xFF := ite_self _
      rw [SharedBus.clockBytes, List.length_cons, List.replicate_succ]
      exact congrArg₂ List.cons hbyte (ih _)
  refine ⟨fun {n} bus words => Vector.toList_inj.mp ?_, fun _ _ _ => rfl⟩
  show (SharedBus.clockBytes words.toList bus).1 = _
  rw [hclock, Vector.length_toList, Vector.toList_replicate]

section Mute

variable (mute : Mute B)
include mute

theorem readByte_of_mute (t : Traced B) : (readByte t).1 = 0xFF := by
  have htransfer := mute.transfer t.bus #v[0xFF]
  show ((SdBus.transfer t.bus (#v[0xFF] : Bytes 1)).2.1).get 0 = 0xFF
  rw [htransfer]
  rfl

/-- A wait for anything else is given up. -/
theorem pollUntil_of_mute (stop : UInt8 → Bool) (idle : stop 0xFF = false) (n : ℕ) (t : Traced B) :
    (pollUntil readByte stop n t).1 = none ∧
      (pollUntil readByte stop n t).2.log = t.log ++ (List.replicate n 1).map .bytes := by
  induction n generalizing t with
  | zero => exact ⟨rfl, (List.append_nil _).symm⟩
  | succ n ih =>
    have hlog : (readByte t).2.log = t.log ++ [.bytes 1] := rfl
    obtain ⟨hnone, hrest⟩ := ih (readByte t).2
    rw [pollUntil_succ, readByte_of_mute mute, idle, if_neg Bool.false_ne_true]
    refine ⟨hnone, ?_⟩
    rw [hrest, hlog, List.append_assoc, List.replicate_succ]
    rfl

/-- What a reset without an answer leaves in the log. -/
def unansweredReset : List BusEvent := transaction (6 :: List.replicate 50 1) ++ [.delay 2]

theorem command_of_mute (t : Traced B) :
    ∃ t', command 0 0 50 t = (.error .deviceError, t') ∧
      (SdBus.delayMillis t' 2).log = t.log ++ unansweredReset := by
  have hsent : (sendCmd 0 0 (SdBus.setCs t .low)).log = t.log ++ [.select] ++ [.bytes 6] := by
    show t.log ++ [.select] ++ [.bytes (cmdBytes 0 0).length] = _
    rw [length_cmdBytes]
  obtain ⟨hnone, hpolled⟩ := pollUntil_of_mute mute (fun b => b &&& 0x80 = 0) (by decide) 50
    (sendCmd 0 0 (SdBus.setCs t .low))
  rw [command, waitR1]
  generalize pollUntil readByte (fun b => b &&& 0x80 = 0) 50 (sendCmd 0 0 (SdBus.setCs t .low)) = r
    at hnone hpolled ⊢
  obtain ⟨answer, t₁⟩ := r
  obtain rfl : answer = none := hnone
  refine ⟨deassert t₁, rfl, ?_⟩
  show t₁.log ++ [.deselect] ++ [.bytes 2] ++ [.delay 2] = _
  rw [show t₁.log = _ from hpolled, hsent, unansweredReset, transaction]
  simp

theorem enterIdle_of_mute (n : ℕ) (t : Traced B) :
    ∃ t', enterIdle n t = (false, t') ∧
      t'.log = t.log ++ (List.replicate n unansweredReset).flatten := by
  induction n generalizing t with
  | zero => exact ⟨t, rfl, (List.append_nil _).symm⟩
  | succ n ih =>
    obtain ⟨t₁, hcommand, hlog⟩ := command_of_mute mute t
    obtain ⟨t', hidle, hrest⟩ := ih (SdBus.delayMillis t₁ 2)
    refine ⟨t', ?_, ?_⟩
    · rw [enterIdle, hcommand]
      exact hidle
    · rw [hrest, hlog, List.append_assoc, List.replicate_succ, List.flatten_cons]

/-- What a start without a card does, once the bus is configured for it. -/
def emptyStart : List BusEvent :=
  .delay 10 :: .bytes 10 :: (List.replicate 5 unansweredReset).flatten

omit [SdBus B] mute in
theorem nanos_emptyStart (rest : List BusEvent) :
    nanos 400 (emptyStart ++ rest) = 26000000 + nanos 400 rest := by
  have hreset : ∀ n rest, nanos 400 ((List.replicate n unansweredReset).flatten ++ rest) =
      n * 3160000 + nanos 400 rest := by
    intro n rest
    induction n with
    | zero => simp
    | succ n ih =>
      have hsum : (6 :: List.replicate 50 1).sum = 56 := by decide
      rw [List.replicate_succ, List.flatten_cons, List.append_assoc]
      nth_rewrite 1 [unansweredReset]
      rw [List.append_assoc, List.singleton_append, nanos_transaction, nanos, ih, hsum]
      omega
  show 10 * 1000000 + (10 * 20000 + nanos 400 ((List.replicate 5 unansweredReset).flatten ++ rest)) = _
  rw [hreset]
  omega

end Mute

namespace SpiSdBlockDevice

/-- **Without a card.** The start gives up after 26 milliseconds of clocks and delays, with
the bus configured for 16 MHz. -/
theorem new_of_mute (mute : Mute B) (t : Traced B) :
    ∃ t', new t = .error (.deviceError, t') ∧
      t'.log = t.log ++ .deselect :: .rate 400 true :: (emptyStart ++ [.rate 16000 true]) ∧
      nanos 400 (emptyStart ++ [.rate 16000 true]) = 26000000 := by
  have hconfig : (SdBus.applyConfig (SdBus.setCs t .high) 400).1 = true :=
    mute.configures _ 400 (.inl rfl)
  have hlog : (SdBus.applyConfig (SdBus.setCs t .high) 400).2.log =
      t.log ++ [.deselect] ++ [.rate 400 (SdBus.applyConfig (SdBus.setCs t .high) 400).1] := rfl
  rw [new]
  dsimp only
  generalize SdBus.applyConfig (SdBus.setCs t .high) 400 = r at hconfig hlog ⊢
  obtain ⟨configured, t₁⟩ := r
  obtain rfl : configured = true := hconfig
  obtain ⟨t₂, hidle, hrest⟩ := enterIdle_of_mute mute 5
    (SdBus.write (SdBus.delayMillis t₁ 10) (List.replicate 10 0xFF)).2
  dsimp only
  rw [Bool.not_true, if_neg Bool.false_ne_true, hidle]
  have hback : (SdBus.applyConfig t₂.bus 16000).1 = true := mute.configures _ 16000 (.inr rfl)
  refine ⟨_, rfl, ?_, ?_⟩
  · have hwake : (SdBus.write (SdBus.delayMillis t₁ 10) (List.replicate 10 0xFF)).2.log =
        t₁.log ++ [.delay 10] ++ [.bytes 10] := rfl
    show t₂.log ++ [.rate 16000 (SdBus.applyConfig t₂.bus 16000).1] = _
    rw [hback, hrest, hwake, show t₁.log = _ from hlog, emptyStart]
    simp
  · rw [nanos_emptyStart]
    rfl

/-- The bus without a card, at power on. -/
def atEmptySlot : Traced (SharedBus EmptySlot BlindPanel) where
  bus := { card := ⟨⟩, panel := ⟨⟩, sdCs := .low, lcdCs := .high, lcdDc := .low, khz := 0 }
  log := []

theorem new_of_mute_emptySlot :
    ∃ t', new atEmptySlot = .error (.deviceError, t') ∧
      t'.log = atEmptySlot.log ++ .deselect :: .rate 400 true ::
        (emptyStart ++ [.rate 16000 true]) ∧
      nanos 400 (emptyStart ++ [.rate 16000 true]) = 26000000 :=
  new_of_mute mute_emptySlot atEmptySlot

end SpiSdBlockDevice

end Gibberish.Storage
