import NoKV.Meta.Engine.Invariant

/-!
# Reading the recovery log back

A running shard finds its durable tail (`Inv.recoveryState_runAt`), and under every position of the
log the record that was written there (`Inv.recordAt_runAt`). A dedupe record is bound to the record
of its command (`Inv.replayedResult_runAt`).
-/

namespace NoKV.Meta

open Lib Store State List
open Prog hiding bind pure get

/-! ### The rows of a record -/

lemma mem_chunkRows {lsn : UInt64} {chunks : List Bytes} {index : ℕ} {key value : Bytes} :
    (key, value) ∈ chunkRows lsn chunks index ↔
      ∃ i, chunks[i]? = some value ∧ key = recoveryChunkKey lsn (index + i) := by
  induction chunks generalizing index with
  | nil => simp [chunkRows]
  | cons _ _ ih =>
    rw [chunkRows, mem_cons, ih]
    constructor
    · rintro (heq | ⟨i, hi, rfl⟩)
      · obtain ⟨rfl, rfl⟩ := Prod.mk.inj heq
        exact ⟨0, rfl, rfl⟩
      · exact ⟨i + 1, hi, by rw [Nat.add_right_comm, Nat.add_assoc]⟩
    · rintro ⟨i, hi, rfl⟩
      cases i with
      | zero =>
        cases Option.some.inj hi
        exact .inl rfl
      | succ i => exact .inr ⟨i, hi, by rw [Nat.add_right_comm, Nat.add_assoc]⟩

lemma encodeRecoveryLsn_length (lsn : UInt64) : (encodeRecoveryLsn lsn).length = 20 := by
  simp [encodeRecoveryLsn, RECOVERY_LSN_DECIMAL_BYTES]

lemma recoveryOutboxKey_length (lsn : UInt64) : (recoveryOutboxKey lsn).length = 21 := by
  simp [recoveryOutboxKey, encodeRecoveryLsn_length]

lemma recoveryChunkKey_length (lsn : UInt64) (index : ℕ) : (recoveryChunkKey lsn index).length = 25 := by
  simp [recoveryChunkKey, encodeRecoveryLsn_length]

lemma legacyRecoveryOutboxKey_length (lsn : UInt64) : (legacyRecoveryOutboxKey lsn).length = 9 := by
  simp [legacyRecoveryOutboxKey]

section Rows

variable [Sha256] {shard : LogicalShardId} {s : State} {log : List RecoveryOutboxRecord}
  {row : RecoveryOutboxRecord} {header : Bytes} {chunks : List Bytes}

variable (h : LogInv shard s log)
include h

lemma LogInv.get_chunk (hrow : row ∈ log) (hstored : StoredAs row header chunks) {i : ℕ} {chunk : Bytes}
    (hi : chunks[i]? = some chunk) :
    s.get ⟨RECOVERY_OUTBOX.id, recoveryChunkKey row.recoveryLsn i⟩ = some chunk := by
  refine (h.outbox _ _).2 ⟨row, hrow, header, chunks, hstored, mem_cons_of_mem _ ?_⟩
  exact mem_chunkRows.2 ⟨i, hi, by rw [Nat.zero_add]⟩

lemma LogInv.key_tag {key value : Bytes} (hget : s.get ⟨RECOVERY_OUTBOX.id, key⟩ = some value) :
    (∃ row ∈ log, key = recoveryOutboxKey row.recoveryLsn) ∨
      ∃ row ∈ log, ∃ i, key = recoveryChunkKey row.recoveryLsn i := by
  obtain ⟨row, hrow, _, _, -, hmem⟩ := (h.outbox key value).1 hget
  rcases mem_cons.1 hmem with heq | hmem
  · exact .inl ⟨row, hrow, (Prod.mk.inj heq).1⟩
  · obtain ⟨i, -, rfl⟩ := mem_chunkRows.1 hmem
    exact .inr ⟨row, hrow, 0 + i, rfl⟩

lemma LogInv.get_legacy (lsn : UInt64) : s.get ⟨RECOVERY_OUTBOX.id, legacyRecoveryOutboxKey lsn⟩ = none := by
  refine Option.eq_none_iff_forall_ne_some.2 fun value hget => ?_
  rcases h.key_tag hget with ⟨row, -, heq⟩ | ⟨row, -, i, heq⟩
  · exact absurd (List.cons.inj heq).1 (by decide)
  · exact absurd (List.cons.inj heq).1 (by decide)

end Rows

/-! ### Reading one record -/

section Reads

variable [Pager] {s : State}

lemma readChunks_runAt {lsn : UInt64} {chunks : List Bytes} {index : ℕ}
    (h : ∀ i chunk, chunks[i]? = some chunk →
      s.get ⟨RECOVERY_OUTBOX.id, recoveryChunkKey lsn (index + i)⟩ = some chunk) :
    (readChunks ⟨lsn, .format9⟩ chunks.length index).runAt s = .ok chunks := by
  induction chunks generalizing index with
  | nil => rfl
  | cons chunk rest ih =>
    have hhead := h 0 chunk rfl
    have hrest : (readChunks ⟨lsn, .format9⟩ rest.length (index + 1)).runAt s = .ok rest := by
      refine ih fun i c hi => ?_
      rw [Nat.add_right_comm, Nat.add_assoc]
      exact h (i + 1) c hi
    have hlength : (recoveryChunkKeyForLayout .format9 lsn index).length ≤ 8205 := by
      show (recoveryChunkKey lsn index).length ≤ 8205
      rw [recoveryChunkKey_length]
      omega
    show (okOr (s.get ⟨RECOVERY_OUTBOX.id, recoveryChunkKey lsn (index + 0)⟩) _ >>= _ :
      Shard (List Bytes)).runAt s = _
    rw [hhead, runAt_bind]
    show (readChunks _ _ _ >>= _ : Shard (List Bytes)).runAt s = _
    rw [runAt_bind, hrest]
    rfl

variable [Sha256] {shard : LogicalShardId} {log : List RecoveryOutboxRecord} {row : RecoveryOutboxRecord}

omit [Pager] in
lemma encode_length_pos {logical : Bytes} (h : row.encode = .ok logical) : 0 < logical.length := by
  obtain ⟨m, r, -, rfl⟩ := RecoveryOutboxRecord.encode_eq_ok h
  simp only [flatten_cons, length_append, length_cons, length_nil]
  omega

lemma readRecoveryRecord_runAt {header : Bytes} {chunks : List Bytes}
    (hstored : StoredAs row header chunks)
    (hfits : (chunks.map List.length).sum ≤ storeLimits.maxTransactionBytes)
    (hchunks : ∀ i chunk, chunks[i]? = some chunk →
      s.get ⟨RECOVERY_OUTBOX.id, recoveryChunkKey row.recoveryLsn (0 + i)⟩ = some chunk) :
    (readRecoveryRecord ⟨row.recoveryLsn, .format9⟩ header).runAt s = .ok row := by
  obtain ⟨logical, hencode, hsplit⟩ := hstored.stored
  have hlength : logical.length ≤ MAX_RECOVERY_BYTES :=
    (length_le_of_split hsplit).1.trans (hfits.trans (by decide))
  obtain ⟨hassemble, hcount, -⟩ := assemble_split hsplit (encode_length_pos hencode) hlength
  have hdecode := RecoveryOutboxRecord.decode_encode hencode hstored.version_eq
  unfold readRecoveryRecord corruptRecovery
  rw [runAt_bind, runAt_liftM, hcount]
  show ((readChunks _ _ _ >>= _ : Shard RecoveryOutboxRecord)).runAt s = _
  rw [runAt_bind, readChunks_runAt hchunks, ok_bind, runAt_bind, runAt_liftM, hassemble]
  show (liftM (Except.mapError _ (RecoveryOutboxRecord.decode logical)) : Shard _).runAt s = _
  rw [runAt_liftM, hdecode]
  rfl

omit [Pager] in
lemma LogInv.lsn_ne (h : LogInv shard s log) (hrow : row ∈ log) : row.recoveryLsn ≠ 0 := by
  intro heq
  have hpos : 0 < row.recoveryLsn.toNat := (h.chain.pos_bounds hrow).1
  rw [heq] at hpos
  exact absurd hpos (by decide)

lemma LogInv.recordAt_runAt (h : LogInv shard s log) (hrow : row ∈ log) :
    (recoveryRecordAtUnlocked row.recoveryLsn).runAt s = .ok row := by
  obtain ⟨header, chunks, hstored, hfits⟩ := h.stored row hrow
  have hread : (readRecoveryRecord ⟨row.recoveryLsn, .format9⟩ header).runAt s = .ok row :=
    readRecoveryRecord_runAt hstored hfits fun i chunk hi => by
      rw [Nat.zero_add]
      exact h.get_chunk hrow hstored hi
  have hlegacy : (recoveryOutboxScanStart .format8 row.recoveryLsn).length ≤ 8205 := by
    show (legacyRecoveryOutboxKey _).length ≤ _
    rw [legacyRecoveryOutboxKey_length]
    omega
  have hkey : (recoveryOutboxScanStart .format9 row.recoveryLsn).length ≤ 8205 := by
    show (recoveryOutboxKey _).length ≤ _
    rw [recoveryOutboxKey_length]
    omega
  have hnone : s.get ⟨RECOVERY_OUTBOX.id, recoveryOutboxScanStart .format8 row.recoveryLsn⟩ = none :=
    h.get_legacy _
  have hsome : s.get ⟨RECOVERY_OUTBOX.id, recoveryOutboxScanStart .format9 row.recoveryLsn⟩ = some header :=
    (h.outbox _ _).2 ⟨row, hrow, header, chunks, hstored, mem_cons_self ..⟩
  have hfound : (findRecord row.recoveryLsn RecoveryKeyLayout.ordered none).runAt s = .ok (some row) := by
    unfold RecoveryKeyLayout.ordered findRecord
    rw [runAt_bind, readValue_runAt hlegacy, ok_bind, hnone]
    unfold findRecord
    rw [runAt_bind, readValue_runAt hkey, ok_bind, hsome]
    rw [runAt_bind, runAt_refuseIf, refuseIf_of_not (by simp), ok_bind, runAt_bind, hread,
      ok_bind, runAt_bind, runAt_refuseIf, refuseIf_of_not (not_not.2 rfl)]
    rfl
  unfold recoveryRecordAtUnlocked
  rw [runAt_bind, runAt_refuseIf, refuseIf_of_not (h.lsn_ne hrow), ok_bind, runAt_bind,
    hfound]
  rfl

/-- The durable tail of a running shard. -/
def tailAfter (shard : LogicalShardId) (log : List RecoveryOutboxRecord) : RecoveryState :=
  ⟨(systemAfter shard log).lsn, (systemAfter shard log).digest⟩

omit [Sha256] in
lemma SystemInv.recoveryState_runAt {sys : SystemRecords} (h : SystemInv shard s sys) :
    recoveryStateUnlocked.runAt s = .ok ⟨sys.lsn, sys.digest⟩ :=
  recoveryStateUnlocked_eq_ok.2 ⟨h.lsn, h.digest⟩

/-! ### Dedupe records -/

variable {command : MetadataCommand} {leaseDeadlineMs : Option UInt64} {commitVersion : CommitVersion}
  {deterministicResult : Bytes}

section

variable (h : LogInv shard s log) (hrow : row ∈ log)
  (hmutation : row.mutation = .metadataCommand command leaseDeadlineMs)
  (hresult : row.result = .metadataCommand commitVersion deterministicResult)
include h hrow hmutation hresult

omit [Pager] in
lemma LogInv.get_dedupe :
    ∃ value, s.get ⟨COMMAND_DEDUPE.id, commandDedupeKey command.rootId command.requestId⟩ = some value ∧
      CommandDedupeRecord.decode value =
        .ok ⟨command.commandDigest, commitVersion, row.recoveryLsn, deterministicResult⟩ := by
  obtain ⟨key, value, hdedupe⟩ := h.deduped row hrow (isCommand_of_mutation hmutation)
  have hget := (h.dedupe key value).2 ⟨row, hrow, hdedupe⟩
  cases hdedupe with
  | intro hmutation' hresult' hencode =>
    cases hmutation.symm.trans hmutation'
    cases hresult.symm.trans hresult'
    exact ⟨value, hget, CommandDedupeRecord.decode_encode hencode⟩

/-- A dedupe record is bound to the record of its command. -/
lemma LogInv.binding_runAt :
    (validateDedupeRecoveryBinding (commandDedupeKey command.rootId command.requestId)
      ⟨command.commandDigest, commitVersion, row.recoveryLsn, deterministicResult⟩).runAt s = .ok row := by
  unfold validateDedupeRecoveryBinding
  rw [runAt_bind, h.recordAt_runAt hrow, ok_bind, hmutation, hresult]
  rw [runAt_bind, runAt_refuseIf, refuseIf_of_not (by simp)]
  rfl

/-- A request that was applied is answered from its record, unless its digest differs. -/
lemma LogInv.replayedResult_runAt (digest : CommandDigest) :
    (replayedResult (commandDedupeKey command.rootId command.requestId) digest).runAt s =
      if command.commandDigest = digest then
        .ok (some ⟨commitVersion, deterministicResult, row.recoveryLsn, row.chainDigest, true⟩)
      else .error MetaError.requestIdReused := by
  obtain ⟨_, hget, hdecode⟩ := h.get_dedupe hrow hmutation hresult
  unfold replayedResult
  rw [runAt_bind, readValue_runAt (commandDedupeKey_length ..), ok_bind, hget]
  rw [runAt_bind, runAt_liftM, hdecode]
  show (refuseIf (command.commandDigest ≠ digest) MetaError.requestIdReused >>= _ :
    Shard (Option MetadataCommandResult)).runAt s = _
  rw [runAt_bind, runAt_refuseIf]
  by_cases hdigest : command.commandDigest = digest
  · rw [refuseIf_of_not (not_not.2 hdigest), ok_bind, if_pos hdigest, runAt_bind,
      h.binding_runAt hrow hmutation hresult]
    rfl
  · rw [refuseIf_of hdigest, if_neg hdigest]
    rfl

end

/-- What the shard answers from a dedupe row. -/
structure AnsweredFrom (s : State) (key value : Bytes) (record : CommandDedupeRecord) (row : RecoveryOutboxRecord) :
    Prop where
  decoded : CommandDedupeRecord.decode value = .ok record
  bound : (validateDedupeRecoveryBinding key record).runAt s = .ok row
  answered : ∀ digest, (replayedResult key digest).runAt s = if record.commandDigest = digest then
      .ok (some ⟨record.commitVersion, record.deterministicResult, record.recoveryLsn, row.chainDigest, true⟩)
    else .error MetaError.requestIdReused

/-- Every dedupe row is answered from the record of its command. -/
lemma LogInv.replays (h : LogInv shard s log) {key value : Bytes}
    (hget : s.get ⟨COMMAND_DEDUPE.id, key⟩ = some value) :
    ∃ record row, AnsweredFrom s key value record row := by
  obtain ⟨row, hrow, hdedupe⟩ := (h.dedupe key value).1 hget
  cases hdedupe with
  | intro hmutation hresult hencode =>
    exact ⟨_, row, CommandDedupeRecord.decode_encode hencode, h.binding_runAt hrow hmutation hresult,
      h.replayedResult_runAt hrow hmutation hresult⟩

end Reads

end NoKV.Meta
