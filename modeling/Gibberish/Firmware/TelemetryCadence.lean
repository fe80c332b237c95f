/-
# How often the telemetry timer fires

The interval is drawn anew whenever the timer fires and runs down in the turns of the mesh.
So the firings in any stretch of a run are bounded from both sides by its turns: they are
never closer than the shortest interval, and further apart than the longest one, by the
turns of the companion. Each firing makes a packet and offers it to the queue, which
refuses it while user traffic waits: a packet that is refused is not made again.
-/

import Gibberish.Firmware.LoopClocks

set_option autoImplicit false

namespace Gibberish.Firmware

open Gibberish.Foundation Gibberish.Protocol Gibberish.Storage

namespace MainLoop

/-- The shortest interval in turns of the mesh. -/
def shortestTurns : TelemetryTier → ℕ
  | .debug => 900
  | .prod => 11000

/-- The longest interval in turns of the mesh. -/
def longestTurns : TelemetryTier → ℕ
  | .debug => 1100
  | .prod => 13000

/-- The longest interval in turns of either kind. -/
def longestWait : TelemetryTier → ℕ
  | .debug => 1298
  | .prod => 15298

variable {tier : TelemetryTier}

/-- A number drawn from a span behind a base. -/
theorem toNat_add_mod {base span : UInt32} (random : UInt32) (some : 0 < span.toNat)
    (fits : base.toNat + span.toNat ≤ 2 ^ 32) :
    base.toNat ≤ (base + random % span).toNat ∧
      (base + random % span).toNat < base.toNat + span.toNat := by
  have hlt : (random % span).toNat < span.toNat := by
    rw [UInt32.toNat_mod]
    exact Nat.mod_lt _ some
  have hsum : (base + random % span).toNat = base.toNat + (random % span).toNat := by
    rw [UInt32.toNat_add]
    exact Nat.mod_eq_of_lt (by omega)
  omega

theorem interval_range (tier : TelemetryTier) (random : UInt32) :
    5 * shortestTurns tier ≤ (calcNextTelemInterval tier random).toNat ∧
      (calcNextTelemInterval tier random).toNat ≤ 5 * longestTurns tier := by
  cases tier with
  | debug =>
    have hdrawn := toNat_add_mod random (show 0 < (1001 : UInt32).toNat by decide)
      (show (4500 : UInt32).toNat + (1001 : UInt32).toNat ≤ 2 ^ 32 by decide)
    exact ⟨hdrawn.1, Nat.le_of_lt_succ hdrawn.2⟩
  | prod =>
    have hdrawn := toNat_add_mod random (show 0 < (10001 : UInt32).toNat by decide)
      (show (55000 : UInt32).toNat + (10001 : UInt32).toNat ≤ 2 ^ 32 by decide)
    exact ⟨hdrawn.1, Nat.le_of_lt_succ hdrawn.2⟩

/-- After so many turns the time that has passed is short of an interval. -/
structure Paced (tier : TelemetryTier) (n : ℕ) (c : Clocks) : Prop where
  turns : c.tdmArbiter = .afterTurns n
  shortest : 5 * shortestTurns tier ≤ c.nextTelemIntervalMs.toNat
  longest : c.nextTelemIntervalMs.toNat ≤ 5 * longestTurns tier
  early : c.telemElapsedMs.toNat < c.nextTelemIntervalMs.toNat
  steps : 5 ∣ c.telemElapsedMs.toNat

theorem shortestTurns_pos (tier : TelemetryTier) : 0 < 5 * shortestTurns tier := by
  cases tier with
  | debug => decide
  | prod => decide

theorem longestTurns_le (tier : TelemetryTier) : longestTurns tier ≤ 13000 := by
  cases tier with
  | debug => decide
  | prod => decide

theorem Paced.toNat_elapsed {n : ℕ} {c : Clocks} (paced : Paced tier n c) :
    (saturatingAdd32 c.telemElapsedMs 5).toNat = c.telemElapsedMs.toNat + 5 := by
  have hlongest := longestTurns_le tier
  have hearly := paced.early
  have hinterval := paced.longest
  have hfive : (5 : UInt32).toNat = 5 := rfl
  have hroom : c.telemElapsedMs.toNat + (5 : UInt32).toNat < 2 ^ 32 := by omega
  rw [saturatingAdd32, if_pos hroom, UInt32.toNat_add]
  exact Nat.mod_eq_of_lt hroom

theorem Paced.due_iff {n : ℕ} {c : Clocks} (paced : Paced tier n c) :
    c.Due ↔ c.nextTelemIntervalMs.toNat ≤ c.telemElapsedMs.toNat + 5 := by
  rw [← paced.toNat_elapsed]
  exact UInt32.le_iff_toNat_le

/-- Whether the timer fires in the next turn. -/
def Clocks.fires (c : Clocks) : ℕ :=
  if (c.tdmArbiter.advance 5).1 = .ieee802154Mesh ∧ c.Due then 1 else 0

/-- How much sooner the timer fires than the shortest interval would have it. -/
def saved (tier : TelemetryTier) (c : Clocks) : ℕ :=
  5 * shortestTurns tier - (c.nextTelemIntervalMs.toNat - c.telemElapsedMs.toNat)

theorem Paced.begin {n : ℕ} {c : Clocks} (paced : Paced tier n c) (btnIsPressed : Bool) :
    Paced tier (n + 1) (c.begin btnIsPressed) where
  turns := by
    show (c.tdmArbiter.advance 5).2 = .afterTurns (n + 1)
    rw [paced.turns]
    rfl
  shortest := paced.shortest
  longest := paced.longest
  early := paced.early
  steps := paced.steps

/-- Time of the mesh that passes goes towards the next firing, also in the turn of one. -/
theorem Paced.pace {n : ℕ} {c : Clocks} (paced : Paced tier n c) (intervalRandom : UInt32) :
    Paced tier n (c.pace tier intervalRandom) ∧
      5 * shortestTurns tier * (if c.Due then 1 else 0) + saved tier (c.pace tier intervalRandom) ≤
        5 + saved tier c ∧
      5 + c.telemElapsedMs.toNat ≤
        5 * longestTurns tier * (if c.Due then 1 else 0) +
          (c.pace tier intervalRandom).telemElapsedMs.toNat := by
  have hearly := paced.early
  have hlongest := paced.longest
  have hsteps := paced.steps
  rw [Clocks.pace, saved, saved]
  by_cases h : c.Due
  -- The timer fires, and an interval is drawn.
  · have hready := paced.due_iff.mp h
    obtain ⟨hlow, hhigh⟩ := interval_range tier intervalRandom
    have hpositive := (shortestTurns_pos tier).trans_le hlow
    rw [if_pos h, if_pos h]
    refine ⟨⟨paced.turns, hlow, hhigh, hpositive, ⟨0, rfl⟩⟩, ?_, ?_⟩
    · show _ + (_ - ((calcNextTelemInterval tier intervalRandom).toNat - 0)) ≤ _
      omega
    · show _ ≤ _ + 0
      omega
  · have hnot := mt paced.due_iff.mpr h
    have helapsed := paced.toNat_elapsed
    rw [if_neg h, if_neg h]
    dsimp only
    refine ⟨⟨paced.turns, paced.shortest, hlongest, ?_, ?_⟩, ?_, ?_⟩
    · show (saturatingAdd32 c.telemElapsedMs 5).toNat < c.nextTelemIntervalMs.toNat
      omega
    · show 5 ∣ (saturatingAdd32 c.telemElapsedMs 5).toNat
      omega
    · omega
    · omega

/-- From turn `n` to turn `n'` the timer fires so many times, and the turns of the mesh are
the time that goes towards this. -/
structure Accounts (tier : TelemetryTier) (n : ℕ) (c : Clocks) (fired n' : ℕ) (c' : Clocks) :
    Prop where
  paced : Paced tier n' c'
  quickest : 5 * shortestTurns tier * fired + saved tier c' + 5 * TdmArbiter.meshTurns n ≤
    5 * TdmArbiter.meshTurns n' + saved tier c
  slowest : 5 * TdmArbiter.meshTurns n' + c.telemElapsedMs.toNat ≤
    5 * longestTurns tier * fired + c'.telemElapsedMs.toNat + 5 * TdmArbiter.meshTurns n

theorem Accounts.refl {n : ℕ} {c : Clocks} (paced : Paced tier n c) : Accounts tier n c 0 n c where
  paced := paced
  quickest := by omega
  slowest := by omega

theorem Accounts.trans {n n' n'' q q' : ℕ} {c c' c'' : Clocks} (h : Accounts tier n c q n' c')
    (h' : Accounts tier n' c' q' n'' c'') : Accounts tier n c (q + q') n'' c'' where
  paced := h'.paced
  quickest := by
    have hfirst := h.quickest
    have hsecond := h'.quickest
    rw [Nat.mul_add]
    omega
  slowest := by
    have hfirst := h.slowest
    have hsecond := h'.slowest
    rw [Nat.mul_add]
    omega

/-- **Step lemma.** A turn of the mesh is time that passes towards the next firing. -/
theorem Paced.turn {n : ℕ} {c : Clocks} (paced : Paced tier n c) (around : Surroundings) :
    Accounts tier n c c.fires (n + 1) (c.turn tier around) := by
  have hslot : (c.tdmArbiter.advance 5).1 = TdmArbiter.slotOfTurn n := by
    rw [paced.turns]
    rfl
  have hbegin := paced.begin around.btnIsPressed
  have hcount := TdmArbiter.meshTurns_succ n
  rw [Clocks.fires, Clocks.turn, hslot]
  cases hs : TdmArbiter.slotOfTurn n with
  | ieee802154Mesh =>
    obtain ⟨hpaced, hquickest, hslowest⟩ := hbegin.pace around.intervalRandom
    -- Whether telemetry is due does not change where a turn begins.
    change _ * (if c.Due then 1 else 0) + _ ≤ 5 + saved tier c at hquickest
    change 5 + c.telemElapsedMs.toNat ≤ _ * (if c.Due then 1 else 0) + _ at hslowest
    rw [if_pos hs] at hcount
    simp only [true_and]
    exact ⟨hpaced, by omega, by omega⟩
  -- Outside the mesh's slot no time passes for telemetry.
  | guardBand | bleCompanion =>
    rw [hs, if_neg (by decide)] at hcount
    rw [if_neg fun h => absurd h.1 (by decide)]
    refine ⟨hbegin, ?_, ?_⟩
    · show _ + saved tier c + _ ≤ _
      omega
    · show _ ≤ _ + c.telemElapsedMs.toNat + _
      omega

/-! ### Runs -/

variable {D : Type} [BlockDevice D] (crc32 : Checksum) (postcard : Postcard)

/-- How many times the telemetry timer fires in a run. Each time one packet is offered to the
queue, and those it refuses are counted. -/
def telemetryFirings (crc32 : Checksum) (tier : TelemetryTier) (postcard : Postcard) (s : MainLoop D)
    (arounds : List Surroundings) : ℕ :=
  (runInputs crc32 tier postcard s arounds).countP DongleInput.isTelemetry

theorem telemetryFirings_cons (s : MainLoop D) (around : Surroundings)
    (rest : List Surroundings) :
    telemetryFirings crc32 tier postcard s (around :: rest) = s.clocks.fires +
      telemetryFirings crc32 tier postcard ((machine crc32 tier postcard).next s around) rest := by
  rw [telemetryFirings, runInputs_cons, List.countP_append,
    (byKind_turnInputs tier postcard s around).telemetry]
  rfl

/-- **Run lemma.** The turns of the mesh are time that passes towards firings. -/
theorem Paced.run {n : ℕ} {s : MainLoop D} (paced : Paced tier n s.clocks)
    (arounds : List Surroundings) :
    Accounts tier n s.clocks (telemetryFirings crc32 tier postcard s arounds) (n + arounds.length)
      ((machine crc32 tier postcard).final s arounds).clocks := by
  induction arounds generalizing s n with
  | nil => exact .refl paced
  | cons around rest ih =>
    have hturn := paced.turn around
    rw [← clocks_next tier postcard crc32 s around] at hturn
    have hlen : n + (around :: rest).length = n + 1 + rest.length := by
      rw [List.length_cons]
      omega
    rw [telemetryFirings_cons, Machine.final_cons, hlen]
    exact hturn.trans (ih hturn.paced)

variable (tier) in
omit [BlockDevice D] in
theorem paced_boot (fullMac : Bytes 8) (storage : DynamicStorageManager D) (random : UInt32) :
    Paced tier 0 (boot tier fullMac storage random).clocks := by
  obtain ⟨hshortest, hlongest⟩ := interval_range tier random
  exact ⟨rfl, hshortest, hlongest, (shortestTurns_pos tier).trans_le hshortest, ⟨0, rfl⟩⟩

/-- The longest wait holds a longest interval, wherever in the cycle it begins. -/
theorem meshTurns_add_longestWait (tier : TelemetryTier) (n : ℕ) :
    TdmArbiter.meshTurns n + longestTurns tier ≤ TdmArbiter.meshTurns (n + longestWait tier) := by
  rw [TdmArbiter.meshTurns_eq, TdmArbiter.meshTurns_eq]
  cases tier with
  | debug =>
    show _ + 1100 ≤ (n + 1298) / 40 * 34 + min ((n + 1298) % 40) 33
    omega
  | prod =>
    show _ + 13000 ≤ (n + 15298) / 40 * 34 + min ((n + 15298) % 40) 33
    omega

theorem meshTurns_add_longestWaits (tier : TelemetryTier) (n waits : ℕ) :
    TdmArbiter.meshTurns n + longestTurns tier * waits ≤
      TdmArbiter.meshTurns (n + longestWait tier * waits) := by
  induction waits with
  | zero => exact Nat.le_refl _
  | succ waits ih =>
    have hnext := meshTurns_add_longestWait tier (n + longestWait tier * waits)
    rw [Nat.mul_succ, Nat.mul_succ, ← Nat.add_assoc, ← Nat.add_assoc]
    omega

/-- The turns of the mesh in a stretch of turns. -/
theorem meshTurns_stretch (tier : TelemetryTier) (n k : ℕ) :
    TdmArbiter.meshTurns n + longestTurns tier * (k / longestWait tier) ≤
        TdmArbiter.meshTurns (n + k) ∧
      TdmArbiter.meshTurns (n + k) ≤ TdmArbiter.meshTurns n + k := by
  constructor
  · refine (meshTurns_add_longestWaits tier n (k / longestWait tier)).trans ?_
    exact Nat.count_monotone _ (Nat.add_le_add_left (Nat.mul_div_le k _) n)
  · rw [TdmArbiter.meshTurns_eq, TdmArbiter.meshTurns_eq]
    omega

theorem Paced.saved_lt {n : ℕ} {c : Clocks} (paced : Paced tier n c) :
    saved tier c < 5 * shortestTurns tier := by
  have hearly := paced.early
  have hpositive := shortestTurns_pos tier
  rw [saved]
  omega

/-- **The cadence of telemetry.** In any stretch of any run, the timer fires at least once for
each longest interval and at most once for each shortest one, and the once in whose
interval the stretch began. In a debug build that is once in 6.49 seconds at the slowest,
and once in 4.5 at the quickest. Each firing offers one packet to the queue. -/
theorem telemetry_cadence (fullMac : Bytes 8) (storage : DynamicStorageManager D)
    (random : UInt32) (before after : List Surroundings) :
    let s := (machine crc32 tier postcard).final (boot tier fullMac storage random) before
    let turns := TdmArbiter.meshTurns (before.length + after.length) -
      TdmArbiter.meshTurns before.length
    turns / longestTurns tier ≤ telemetryFirings crc32 tier postcard s after ∧
      telemetryFirings crc32 tier postcard s after ≤ turns / shortestTurns tier + 1 ∧
      after.length / longestWait tier ≤ telemetryFirings crc32 tier postcard s after ∧
      telemetryFirings crc32 tier postcard s after ≤ after.length / shortestTurns tier + 1 := by
  intro s turns
  have hpaced :=
    (Paced.run crc32 postcard (paced_boot tier fullMac storage random) before).paced
  rw [Nat.zero_add] at hpaced
  obtain ⟨hfinal, hlow, hhigh⟩ := hpaced.run crc32 postcard after
  obtain ⟨hmost, hleast⟩ := meshTurns_stretch tier before.length after.length
  have hsaved := hpaced.saved_lt
  have hlongest := hfinal.longest
  have hearly := hfinal.early
  have hsteps := hfinal.steps
  generalize hwaits : after.length / longestWait tier = waits at hmost ⊢
  have hturns : turns = TdmArbiter.meshTurns (before.length + after.length) -
    TdmArbiter.meshTurns before.length := rfl
  generalize telemetryFirings crc32 tier postcard s after = q at hlow hhigh ⊢
  generalize TdmArbiter.meshTurns (before.length + after.length) = b at hlow hhigh hmost hleast hturns
  generalize TdmArbiter.meshTurns before.length = a at hlow hhigh hmost hleast hturns
  cases tier with
  | debug =>
    simp only [shortestTurns, longestTurns] at *
    omega
  | prod =>
    simp only [shortestTurns, longestTurns] at *
    omega

end MainLoop

end Gibberish.Firmware
