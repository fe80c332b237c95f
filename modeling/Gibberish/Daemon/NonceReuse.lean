/-
# Reuse of key and nonce

One node sends texts and is restarted in between; every write of its state file
succeeds. Its subkey never changes, and the nonce of a chunk is derived from the
message id, the chunk index and the message id again. The message id keeps the low
16 bits of the message counter, so two messages whose counters agree in these bits
encrypt their first chunks under one key and nonce. Restarts bring that closer: each
one skips what is left of a block of a thousand counters.
-/

import Gibberish.Daemon.Fragment
import Gibberish.Foundation.Machine

set_option autoImplicit false

namespace Gibberish.Daemon

open Gibberish.Foundation Gibberish.Protocol Gibberish.Crypto

/-- What makes a nonce: key, message id, chunk index and ratchet counter. -/
def EncryptCall.coordinates (call : EncryptCall) : Bytes 32 × UInt32 × UInt8 × UInt64 :=
  (call.sessionKey, call.msgId, call.chunkIdx, call.ratchetCounter)

variable (P : Primitives)

/-- The key and nonce an invocation feeds to the cipher. -/
def EncryptCall.keyAndNonce (call : EncryptCall) : Bytes 32 × Bytes 12 :=
  (call.sessionKey,
    P.deriveImplicitNonce call.sessionKey call.msgId call.chunkIdx call.ratchetCounter)

/-- The invocations made by a loop that stops at the first failure. -/
def attempted : List EncryptCall → List EncryptCall
  | [] => []
  | call :: rest =>
    call ::
      match P.encryptChunk call.sessionKey call.msgId call.chunkIdx call.ratchetCounter
          call.plaintext with
      | .error _ => []
      | .ok _ => attempted rest

/-- The `encrypt_chunk` invocations of one call of `fragment_and_encrypt`. -/
def encryptCalls (text : String) (localNodeId : UInt32) (swarmMasterKey : Bytes 32)
    (mgr : NonceManager) (io : IoOutcome) (file : StateFile) : List EncryptCall :=
  let rawBytes := asBytes text
  if rawBytes.isEmpty then []
  else
    let numChunks := pieceCount plaintextChunkLen rawBytes.length
    if numChunks > maxTotalChunks then []
    else
      match mgr.allocateMsg io file with
      | (.error _, _, _) => []
      | (.ok (_, counter), _, _) =>
        attempted P (chunkCalls (P.deriveSenderSubkey swarmMasterKey localNodeId)
          (messageId localNodeId counter) (UInt8.ofNat numChunks) rawBytes)

/-- A start of the daemon, or a text it sends. -/
inductive SenderEvent where
  | restart (nowSecs : UInt32)
  | send (text : String)
  deriving DecidableEq

/-- The daemon of a node, if it runs, and its state file. -/
structure Sender where
  mgr : Option NonceManager
  file : StateFile
  deriving DecidableEq

namespace Sender

variable (localNodeId : UInt32) (swarmTag : UInt64) (swarmMasterKey : Bytes 32)

/-- One event, with the `encrypt_chunk` invocations it makes. -/
def step (s : Sender) : SenderEvent → Sender × List EncryptCall
  | .restart nowSecs =>
    match NonceManager.new nowSecs .ok .ok s.file with
    | (.ok mgr, file) => (⟨some mgr, file⟩, [])
    | (.error _, file) => (⟨none, file⟩, [])
  | .send text =>
    match s.mgr with
    | none => (s, [])
    | some mgr =>
      match fragmentAndEncrypt P text swarmTag localNodeId swarmMasterKey mgr .ok s.file with
      | (_, mgr', file) =>
        (⟨some mgr', file⟩, encryptCalls P text localNodeId swarmMasterKey mgr .ok s.file)

/-- The node as a machine that emits its `encrypt_chunk` invocations. -/
def machine : Machine Sender SenderEvent EncryptCall :=
  ⟨step P localNodeId swarmTag swarmMasterKey⟩

/-- How many chunks of a text are encrypted, in the one byte that counts them. -/
def chunksEncrypted (text : String) : UInt8 :=
  if pieceCount plaintextChunkLen (asBytes text).length > maxTotalChunks then 0
  else UInt8.ofNat (pieceCount plaintextChunkLen (asBytes text).length)

/-- The low 16 bits of the counter, for a text of which some chunk is encrypted. -/
def counterBits (s : Sender) : SenderEvent → Option ℕ
  | .restart _ => none
  | .send text =>
    match s.mgr with
    | none => none
    | some mgr =>
      if chunksEncrypted text = 0 then none else some (mgr.currentCounter.toNat % 2 ^ 16)

/-! ### Message ids -/

/-- A message id keeps the low 16 bits of the counter. -/
theorem messageId_mod (localNodeId : UInt32) (counter : UInt64) :
    (messageId localNodeId counter).toNat % 2 ^ 16 = counter.toNat % 2 ^ 16 := by
  have hlow : (counter.toNat &&& 65535) = counter.toNat % 2 ^ 16 :=
    Nat.and_two_pow_sub_one_eq_mod counter.toNat 16
  have hbound : counter.toNat % 2 ^ 16 < 2 ^ 32 :=
    (Nat.mod_lt _ (by decide)).trans (by decide)
  -- The node id is masked to the upper half.
  have hnode : (localNodeId.toNat &&& 4294901760) % 2 ^ 16 = 0 := by
    rw [Nat.and_mod_two_pow]
    exact Nat.and_zero _
  simp only [messageId, UInt32.toNat_or, UInt32.toNat_and, UInt64.toNat_toUInt32, UInt64.toNat_and]
  show (localNodeId.toNat &&& 4294901760 ||| (counter.toNat &&& 65535) % 2 ^ 32) % 2 ^ 16 = _
  rw [Nat.or_mod_two_pow, hnode, Nat.zero_or, hlow, Nat.mod_eq_of_lt hbound, Nat.mod_mod]

/-- Two counters get one message id exactly when they agree in their low 16 bits. -/
theorem messageId_eq_iff (localNodeId : UInt32) (c c' : UInt64) :
    messageId localNodeId c = messageId localNodeId c' ↔ c.toNat % 2 ^ 16 = c'.toNat % 2 ^ 16 := by
  constructor
  · intro h
    rw [← messageId_mod localNodeId c, h, messageId_mod]
  · intro h
    have hand : c &&& 0xFFFF = c' &&& 0xFFFF := by
      apply UInt64.toNat_inj.mp
      rw [UInt64.toNat_and, UInt64.toNat_and]
      show c.toNat &&& 2 ^ 16 - 1 = c'.toNat &&& 2 ^ 16 - 1
      rw [Nat.and_two_pow_sub_one_eq_mod, Nat.and_two_pow_sub_one_eq_mod, h]
    rw [messageId, messageId, hand]

/-! ### The invocations of one step -/

variable {P}

/-- A loop that stops early has made the first invocations it would have made. -/
theorem attempted_initial (calls : List EncryptCall) : attempted P calls <+: calls := by
  induction calls with
  | nil => exact List.prefix_rfl
  | cons call rest ih =>
    rw [attempted, List.prefix_cons_inj]
    split
    · exact List.nil_prefix
    · exact ih

/-- The first invocation is made in any case. -/
theorem head?_attempted (calls : List EncryptCall) : (attempted P calls).head? = calls.head? := by
  cases calls with
  | nil => rfl
  | cons call rest => rfl

/-- With the state file writable, the invocations of one call of `fragment_and_encrypt`
start from the manager's current counter. -/
theorem encryptCalls_ok (text : String) (mgr : NonceManager) (file : StateFile) :
    encryptCalls P text localNodeId swarmMasterKey mgr .ok file =
      attempted P (chunkCalls (P.deriveSenderSubkey swarmMasterKey localNodeId)
        (messageId localNodeId mgr.currentCounter) (chunksEncrypted text) (asBytes text)) := by
  simp only [encryptCalls, chunksEncrypted]
  by_cases hempty : asBytes text = []
  · simp [hempty, pieceCount, plaintextChunkLen, chunkCalls, attempted]
  · rw [if_neg (by simpa using hempty)]
    split
    · simp [chunkCalls, attempted]
    · rcases Nat.lt_or_ge mgr.currentCounter.toNat mgr.blockLimit.toNat with hlt | hge
      · rw [NonceManager.allocateMsg_of_lt (UInt64.lt_iff_toNat_lt.mpr hlt)]
        rfl
      · rw [NonceManager.allocateMsg_extend (UInt64.le_iff_toNat_le.mpr hge)]

/-- A loop that seals every chunk made every invocation. -/
theorem attempted_of_sealChunks {totalChunks : UInt8} {calls : List EncryptCall}
    {packets : List MeshPacket} (h : sealChunks P swarmTag totalChunks calls = .ok packets) :
    attempted P calls = calls := by
  induction calls generalizing packets with
  | nil => rfl
  | cons call rest ih =>
    simp only [sealChunks] at h
    cases hencrypt : P.encryptChunk call.sessionKey call.msgId call.chunkIdx call.ratchetCounter
        call.plaintext with
    | error e => simp [sealChunk, hencrypt] at h
    | ok ciphertext =>
      cases hrest : sealChunks P swarmTag totalChunks rest with
      | error e => simp [sealChunk, hencrypt, hrest] at h
      | ok packets' =>
        simp only [attempted, hencrypt]
        rw [ih hrest]

/-- The packets of a successful call seal the chunks of its text, under the manager's
current counter. -/
theorem sealChunks_of_fragmentAndEncrypt {text : String} {mgr : NonceManager} {file : StateFile}
    {packets : List MeshPacket}
    (h : (fragmentAndEncrypt P text swarmTag localNodeId swarmMasterKey mgr .ok file).1 =
      .ok packets) :
    sealChunks P swarmTag (chunksEncrypted text)
      (chunkCalls (P.deriveSenderSubkey swarmMasterKey localNodeId)
        (messageId localNodeId mgr.currentCounter) (chunksEncrypted text) (asBytes text)) =
      .ok packets := by
  simp only [fragmentAndEncrypt] at h
  split at h
  · next hempty =>
    obtain rfl := Except.ok.inj h
    have hnone : chunksEncrypted text = 0 := by
      simp [chunksEncrypted, List.isEmpty_iff.mp hempty, pieceCount, plaintextChunkLen]
    rw [hnone]
    rfl
  · split at h
    · cases h
    · next hfits =>
      rw [chunksEncrypted, if_neg hfits]
      split at h
      · cases h
      · next halloc =>
        rw [← NonceManager.counter_of_allocateMsg (congrArg Prod.fst halloc)]
        exact h

/-- The packets of a successful call seal the invocations it made, one by one. -/
theorem encryptCalls_sealed {text : String} {mgr : NonceManager} {file : StateFile}
    {packets : List MeshPacket}
    (h : (fragmentAndEncrypt P text swarmTag localNodeId swarmMasterKey mgr .ok file).1 =
      .ok packets) :
    List.Forall₂ (fun call packet => sealChunk P swarmTag (chunksEncrypted text) call = .ok packet)
      (encryptCalls P text localNodeId swarmMasterKey mgr .ok file) packets := by
  have hsealed := sealChunks_of_fragmentAndEncrypt localNodeId swarmTag swarmMasterKey h
  rw [encryptCalls_ok, attempted_of_sealChunks swarmTag hsealed]
  exact sealChunks_ok hsealed

/-- A step without a keyed counter encrypts nothing. -/
theorem emit_of_counterBits_none {s : Sender} {event : SenderEvent}
    (h : s.counterBits event = none) :
    (machine P localNodeId swarmTag swarmMasterKey).emit s event = [] := by
  cases event with
  | restart nowSecs =>
    simp only [Machine.emit, machine, step]
    split <;> rfl
  | send text =>
    cases hmgr : s.mgr with
    | none => simp only [Machine.emit, machine, step, hmgr]
    | some mgr =>
      simp only [counterBits, hmgr] at h
      split at h
      · next hzero =>
        simp only [Machine.emit, machine, step, hmgr, encryptCalls_ok, hzero]
        rfl
      · cases h

/-- A step with a keyed counter makes first invocations of a message whose id has
these low bits, at least one. -/
theorem emit_of_counterBits {s : Sender} {event : SenderEvent} {bits : ℕ}
    (h : s.counterBits event = some bits) :
    ∃ (counter : UInt64) (totalChunks : UInt8) (rawBytes : List UInt8),
      counter.toNat % 2 ^ 16 = bits ∧ totalChunks ≠ 0 ∧
      (machine P localNodeId swarmTag swarmMasterKey).emit s event =
        attempted P (chunkCalls (P.deriveSenderSubkey swarmMasterKey localNodeId)
          (messageId localNodeId counter) totalChunks rawBytes) := by
  cases event with
  | restart nowSecs => cases h
  | send text =>
    cases hmgr : s.mgr with
    | none => simp [counterBits, hmgr] at h
    | some mgr =>
      simp only [counterBits, hmgr] at h
      split at h
      · cases h
      · next hchunks =>
        refine ⟨mgr.currentCounter, chunksEncrypted text, asBytes text, Option.some.inj h, hchunks,
          ?_⟩
        simp only [Machine.emit, machine, step, hmgr, encryptCalls_ok]

/-! ### Marks of invocations

A mark that tells apart message ids and chunk indices, whatever the plaintext. -/

section Marks

variable {Mark : Type*} {mark : EncryptCall → Mark} {senderKey : Bytes 32}

/-- The mark of a sender's invocation determines message id and chunk index. -/
def MarksApart (senderKey : Bytes 32) (mark : EncryptCall → Mark) : Prop :=
  ∀ (m m' : UInt32) (i i' : UInt8) (text text' : List UInt8),
    mark ⟨senderKey, m, i, m.toUInt64, text⟩ = mark ⟨senderKey, m', i', m'.toUInt64, text'⟩ ↔
      m = m' ∧ i = i'

/-- The invocations of one message have different marks. -/
theorem nodup_marks (apart : MarksApart senderKey mark) (msgId : UInt32) (totalChunks : UInt8)
    (rawBytes : List UInt8) :
    ((attempted P (chunkCalls senderKey msgId totalChunks rawBytes)).map mark).Nodup := by
  -- The indices count up from zero and stay below the one-byte number of chunks.
  have hinitial := (attempted_initial (P := P)
    (chunkCalls senderKey msgId totalChunks rawBytes)).sublist
  refine List.Nodup.sublist (hinitial.map mark) ?_
  rw [chunkCalls, List.map_map]
  refine List.Nodup.map_on ?_ List.nodup_range
  intro i hi j hj hij
  have hidx := ((apart _ _ _ _ _ _).mp hij).2
  have hlt : totalChunks.toNat < 256 := totalChunks.toNat_lt
  simp only [List.mem_range] at hi hj
  have htoNat := congrArg UInt8.toNat hidx
  rw [UInt8.toNat_ofNat', UInt8.toNat_ofNat'] at htoNat
  omega

/-- Two messages share a mark exactly when they share their id. -/
theorem disjoint_marks_iff (apart : MarksApart senderKey mark) {m m' : UInt32} {n n' : UInt8}
    (hn : n ≠ 0) (hn' : n' ≠ 0) (rawBytes rawBytes' : List UInt8) :
    ((attempted P (chunkCalls senderKey m n rawBytes)).map mark).Disjoint
        ((attempted P (chunkCalls senderKey m' n' rawBytes')).map mark) ↔ m ≠ m' := by
  -- The first chunk of a nonempty message is encrypted under index 0.
  have hfirst : ∀ {m : UInt32} {n : UInt8} (rawBytes : List UInt8), n ≠ 0 →
      ⟨senderKey, m, 0, m.toUInt64, piece rawBytes plaintextChunkLen 0⟩ ∈
        attempted P (chunkCalls senderKey m n rawBytes) := by
    intro m n rawBytes hn
    have hpos : n.toNat ≠ 0 := fun h => hn (UInt8.toNat_inj.mp h)
    apply List.mem_of_mem_head?
    rw [head?_attempted, chunkCalls, List.head?_map, List.head?_range, if_neg hpos]
    rfl
  constructor
  · rintro hdisjoint rfl
    exact hdisjoint (List.mem_map_of_mem (hfirst rawBytes hn))
      (by
        have hmem := List.mem_map_of_mem (f := mark) (hfirst (m := m) rawBytes' hn')
        rwa [(apart m m 0 0 _ _).mpr ⟨rfl, rfl⟩] at hmem)
  -- A shared mark gives away a shared message id.
  · intro hne x hx hx'
    obtain ⟨call, hcall, rfl⟩ := List.mem_map.mp hx
    obtain ⟨call', hcall', hmark⟩ := List.mem_map.mp hx'
    have hmem := (attempted_initial _).subset hcall
    have hmem' := (attempted_initial _).subset hcall'
    simp only [chunkCalls, List.mem_map] at hmem hmem'
    obtain ⟨i, _, rfl⟩ := hmem
    obtain ⟨j, _, rfl⟩ := hmem'
    exact hne ((apart _ _ _ _ _ _).mp hmark.symm).1

/-- In a run, no mark occurs twice iff no two encrypting sends start from counters
that agree in their low 16 bits. -/
theorem nodup_marks_iff (apart : MarksApart (P.deriveSenderSubkey swarmMasterKey localNodeId) mark)
    (s : Sender) (events : List SenderEvent) :
    (((machine P localNodeId swarmTag swarmMasterKey).outputs s events).map mark).Nodup ↔
      (((machine P localNodeId swarmTag swarmMasterKey).trace s events).filterMap
        fun x => x.1.counterBits x.2).Nodup := by
  refine Machine.nodup_outputs_iff
    (fun s a h => emit_of_counterBits_none localNodeId swarmTag swarmMasterKey h) ?_ ?_ s events
  · intro s a
    cases hbits : s.counterBits a with
    | none =>
      rw [emit_of_counterBits_none localNodeId swarmTag swarmMasterKey hbits]
      exact List.nodup_nil
    | some bits =>
      obtain ⟨counter, totalChunks, rawBytes, _, _, hemit⟩ :=
        emit_of_counterBits localNodeId swarmTag swarmMasterKey hbits
      rw [hemit]
      exact nodup_marks apart _ _ _
  · intro s a s' a' bits bits' hbits hbits'
    obtain ⟨c, n, text, rfl, hn, hemit⟩ :=
      emit_of_counterBits localNodeId swarmTag swarmMasterKey hbits
    obtain ⟨c', n', text', rfl, hn', hemit'⟩ :=
      emit_of_counterBits localNodeId swarmTag swarmMasterKey hbits'
    rw [hemit, hemit', disjoint_marks_iff apart hn hn', ne_eq, ne_eq, messageId_eq_iff]

end Marks

/-- The coordinates of a nonce tell chunks apart. -/
theorem coordinates_apart (senderKey : Bytes 32) :
    MarksApart senderKey EncryptCall.coordinates := by
  intro m m' i i' text text'
  simp only [EncryptCall.coordinates, Prod.mk.injEq, true_and]
  constructor
  · rintro ⟨hid, hidx, _⟩
    exact ⟨hid, hidx⟩
  · rintro ⟨rfl, rfl⟩
    exact ⟨rfl, rfl, rfl⟩

/-- So do key and nonce, when the nonces of the key do not collide. -/
theorem keyAndNonce_apart {senderKey : Bytes 32} (noncesApart : P.NoncesApart senderKey) :
    MarksApart senderKey (EncryptCall.keyAndNonce P) := by
  intro m m' i i' text text'
  simp only [EncryptCall.keyAndNonce, Prod.mk.injEq, true_and]
  constructor
  · exact noncesApart m i m' i'
  · rintro ⟨rfl, rfl⟩
    rfl

/-- **Nonce uniqueness.** In a run of sends and restarts no coordinates are encrypted
twice, and no key and nonce are fed to the cipher twice, exactly when no two sends
that encrypt anything start from counters congruent modulo `2 ^ 16`. -/
theorem nonces_unique_iff
    (noncesApart : P.NoncesApart (P.deriveSenderSubkey swarmMasterKey localNodeId))
    (file : StateFile) (events : List SenderEvent) :
    ((((machine P localNodeId swarmTag swarmMasterKey).outputs ⟨none, file⟩ events).map
          EncryptCall.coordinates).Nodup ∧
        (((machine P localNodeId swarmTag swarmMasterKey).outputs ⟨none, file⟩ events).map
          (EncryptCall.keyAndNonce P)).Nodup) ↔
      (((machine P localNodeId swarmTag swarmMasterKey).trace ⟨none, file⟩ events).filterMap
        fun x => x.1.counterBits x.2).Nodup := by
  rw [nodup_marks_iff localNodeId swarmTag swarmMasterKey (coordinates_apart _),
    nodup_marks_iff localNodeId swarmTag swarmMasterKey (keyAndNonce_apart noncesApart), and_self]

/-- Three texts over two starts. -/
def twoStartsRun : List SenderEvent :=
  [.restart 7, .send "a", .send "b", .restart 9, .send "c"]

/-- Over two starts from a fresh file, all nonces differ. -/
theorem nonces_unique_twoStartsRun :
    (transparent.NoncesApart (transparent.deriveSenderSubkey (.zero 32) 7)) ∧
    (((machine transparent 7 defaultNetworkTag (.zero 32)).outputs ⟨none, .missing⟩ twoStartsRun).map
          EncryptCall.coordinates).Nodup ∧
    (((machine transparent 7 defaultNetworkTag (.zero 32)).outputs ⟨none, .missing⟩ twoStartsRun).map
          (EncryptCall.keyAndNonce transparent)).Nodup :=
  ⟨transparent_noncesApart _,
    (nonces_unique_iff 7 defaultNetworkTag (.zero 32) (transparent_noncesApart _) .missing
      twoStartsRun).mpr (by decide +kernel)⟩

/-! ### Restarts that come back to the same message id -/

/-- A start whose writes succeed begins at the counter on file and reserves a block. -/
theorem next_restart {s : Sender} {disk : NonceDiskState} (hdisk : s.file.diskState = some disk)
    (nowSecs : UInt32) :
    (machine P localNodeId swarmTag swarmMasterKey).next s (.restart nowSecs) =
      ⟨some (NonceManager.load nowSecs disk),
        .saved ⟨NonceManager.safeEpoch nowSecs disk,
          disk.nextAllocatedBlock + nonceBlockSize⟩⟩ := by
  simp only [Machine.next, machine, step, NonceManager.new, hdisk,
    NonceManager.persistBlockReservation]
  rfl

/-- After `k + 1` starts in a row the manager is `k` blocks past the counter on file. -/
theorem final_restarts (nowSecs : UInt32) (k : ℕ) {s : Sender} {disk : NonceDiskState}
    (hdisk : s.file.diskState = some disk) :
    ∃ mgr file, (machine P localNodeId swarmTag swarmMasterKey).final s
        (List.replicate (k + 1) (.restart nowSecs)) = ⟨some mgr, file⟩ ∧
      mgr.currentCounter = disk.nextAllocatedBlock + UInt64.ofNat k * nonceBlockSize := by
  induction k generalizing s disk with
  | zero =>
    refine ⟨_, _, next_restart localNodeId swarmTag swarmMasterKey hdisk nowSecs, ?_⟩
    simp [NonceManager.load]
  | succ k ih =>
    -- The first start saves the next block, from which the others go on.
    rw [List.replicate_succ, Machine.final_cons,
      next_restart localNodeId swarmTag swarmMasterKey hdisk nowSecs]
    obtain ⟨mgr, file, hfinal, hcounter⟩ := ih (s := ⟨_, .saved ⟨_, _⟩⟩) rfl
    refine ⟨mgr, file, hfinal, ?_⟩
    show mgr.currentCounter =
      disk.nextAllocatedBlock + UInt64.ofNat (k + 1) * nonceBlockSize
    rw [hcounter, UInt64.ofNat_add, UInt64.add_mul, UInt64.add_comm (UInt64.ofNat k * _),
      ← UInt64.add_assoc]
    rfl

/-- One text, then 8192 starts, then another text. -/
def manyRestartsRun : List SenderEvent :=
  [.restart 0, .send "a"] ++ (List.replicate (8191 + 1) (.restart 0) ++ [.send "b"])

/-- 8192 blocks of a thousand counters are a multiple of `2 ^ 16`. -/
theorem counterBits_manyRestartsRun :
    [0, 0].Sublist (((machine P localNodeId swarmTag swarmMasterKey).trace ⟨none, .missing⟩
      manyRestartsRun).filterMap fun x => x.1.counterBits x.2) := by
  obtain ⟨mgr, file, hfinal, hcounter⟩ := final_restarts (P := P) localNodeId swarmTag
    swarmMasterKey 0 8191 (s := ⟨some ⟨1, 1, 1000⟩, .saved ⟨1, 1000⟩⟩) rfl
  have hstart : (machine P localNodeId swarmTag swarmMasterKey).final ⟨none, .missing⟩
      [.restart 0, .send "a"] = ⟨some ⟨1, 1, 1000⟩, .saved ⟨1, 1000⟩⟩ := by
    rfl
  have hfirst : ((machine P localNodeId swarmTag swarmMasterKey).trace ⟨none, .missing⟩
      [.restart 0, .send "a"]).filterMap (fun x => x.1.counterBits x.2) = [0] := by
    rfl
  -- `8192 * 1000` is `125 * 2 ^ 16`, so the low bits are zero again.
  have hlast : ((machine P localNodeId swarmTag swarmMasterKey).trace ⟨some mgr, file⟩
      [.send "b"]).filterMap (fun x => x.1.counterBits x.2) = [0] := by
    have hchunks : chunksEncrypted "b" ≠ 0 := by decide
    simp [counterBits, hchunks, hcounter]
    rfl
  rw [manyRestartsRun, Machine.trace_append, Machine.trace_append, hstart, hfinal,
    List.filterMap_append, List.filterMap_append, hfirst, hlast]
  exact (List.Sublist.refl [0]).append (List.sublist_append_right _ [0])

/-- The two texts around these starts are encrypted under the same coordinates, so
under the same key and nonce. -/
theorem not_nonces_unique_manyRestartsRun :
    ¬ (((machine transparent 7 defaultNetworkTag (.zero 32)).outputs ⟨none, .missing⟩
        manyRestartsRun).map EncryptCall.coordinates).Nodup ∧
    ¬ (((machine transparent 7 defaultNetworkTag (.zero 32)).outputs ⟨none, .missing⟩
        manyRestartsRun).map (EncryptCall.keyAndNonce transparent)).Nodup := by
  have hrepeats := counterBits_manyRestartsRun (P := transparent) 7 defaultNetworkTag (.zero 32)
  rw [nodup_marks_iff _ _ _ (coordinates_apart _),
    nodup_marks_iff _ _ _ (keyAndNonce_apart (transparent_noncesApart _))]
  have hnot : ¬ [0, 0].Nodup := by decide
  exact ⟨fun h => hnot (h.sublist hrepeats), fun h => hnot (h.sublist hrepeats)⟩

end Sender

end Gibberish.Daemon
