import NoKV.Control.Frontier

/-!
# Finishing a recovery upload

An upload intent is admitted only when the record that completes it passes the check of a stored
record. Every call that replaces the record, the acquisitions included, checks this again, so

* the owner of a shard can always publish the segment of the pending upload
  (`prepareRecoveryUploadFinalization_pending`);
* publishing it again, or giving it up afterwards, answers with the stored record
  (`prepareRecoveryUploadFinalization_published`, `prepareRecoveryUploadAbort_published`);
* only a recovering owner gives up a pending upload, and the frontier stays
  (`prepareRecoveryUploadAbort_frontier`).
-/

namespace NoKV.Control

open Lib RecordError ControlError

/-! ### What the check of a record promises -/

section Valid

variable {record : LogicalShardRecord}

lemma validate_log (h : validateLogicalShardRecord record = .ok ()) {log : LogRef}
    (hlog : record.log = some log) : validateLogRef record none log = .ok () := by
  replace h := ok_of_bind h
  replace h := ok_of_bind h
  replace h := ok_of_bind h
  obtain ⟨_, hcheck, _⟩ := bind_eq_ok.1 h
  exact mapError_eq_ok.1 (ifSome_eq_ok.1 hcheck log hlog)

variable (h : validateLogicalShardRecord record = .ok ()) {intent : RecoveryUploadIntent}
  (hpending : record.pendingRecoveryUpload = some intent)
include h hpending

/-- **The room of a pending upload.** The record that completes it is valid now. -/
theorem validate_completed : ∃ completed,
      applyRecoveryPublication record (recoveryPublicationAfterIntent record intent) = .ok completed ∧
        validateLogicalShardRecord { completed with pendingRecoveryUpload := none } = .ok () := by
  unfold validateLogicalShardRecord at h
  replace h := ok_of_bind h
  replace h := ok_of_bind h
  replace h := ok_of_bind h
  replace h := ok_of_bind h
  obtain ⟨_, hcheck, _⟩ := bind_eq_ok.1 h
  obtain ⟨_, _, hfinal⟩ := bind_eq_ok.1 (ifSome_eq_ok.1 hcheck intent hpending)
  obtain ⟨completed, happly, hvalid⟩ := bind_eq_ok.1 (mapError_eq_ok.1 hfinal)
  refine ⟨completed, happly, ?_⟩
  unfold validateLogicalShardRecord
  exact hvalid

lemma validate_shape : validateRecoveryUploadIntentShape intent = .ok () := by
  have hcheck := (validate_frontier h).2.1 intent hpending
  replace hcheck := ok_of_bind hcheck
  obtain ⟨_, hshape, _⟩ := bind_eq_ok.1 hcheck
  exact hshape

end Valid

/-! ### Publications -/

variable {next : LogicalShardRecord}

lemma applyRecoveryPublication_log {record : LogicalShardRecord} {log : LogRef} {lsn : UInt64} :
    applyRecoveryPublication record ⟨none, some log, lsn⟩ = .ok next ↔
      checkPublication record ⟨none, some log, lsn⟩ = .ok () ∧
        mergePublication record ⟨none, some log, lsn⟩ = next := by
  unfold applyRecoveryPublication
  simp only [reduceCtorEq, and_false, if_false, bind_eq_ok, ifSome_eq_ok, mapError_eq_ok, pure_eq_ok]
  constructor
  · rintro ⟨_, _, _, hcheck, hmerge⟩
    exact ⟨hcheck, hmerge⟩
  · rintro ⟨hcheck, hmerge⟩
    exact ⟨(), by simp, (), hcheck, hmerge⟩

/-- The log of a record published once more changes nothing. -/
lemma applyRecoveryPublication_again {record : LogicalShardRecord} (hinv : FrontierInv record)
    {log : LogRef} (hlog : record.log = some log) :
    applyRecoveryPublication record ⟨none, some log, log.durableLsn⟩ = .ok record := by
  have hdurable := hinv.durable_of_log hlog
  have htail : durableTailDigest record = .ok (some log.digest) := by
    rw [hinv.durableTailDigest_eq, tailDigest, hlog]
  refine applyRecoveryPublication_log.2 ⟨?_, ?_⟩
  · unfold checkPublication
    simp [bind_eq_ok, referenceLsn, validate_log hinv.valid hlog, htail, hlog, hdurable]
  · have hkept : logBeyond record.checkpoint (some log) = some log :=
      logBeyond_of_lt (hinv.beyond log hlog)
    simp only [mergePublication, Option.none_or, Option.some_or, hkept]
    rw [← hlog, ← hdurable]

/-- What completing an upload makes of the record. -/
lemma applyRecoveryPublication_afterIntent {record completed : LogicalShardRecord}
    (hinv : FrontierInv record) {intent : RecoveryUploadIntent}
    (hpending : record.pendingRecoveryUpload = some intent)
    (h : applyRecoveryPublication record (recoveryPublicationAfterIntent record intent) = .ok completed) :
    completed = { record with
      log := (recoveryPublicationAfterIntent record intent).log
      durableLsn := intent.lastLsn } := by
  have hfirst := (hinv.pending hpending).1
  have hrange : intent.firstLsn.toNat ≤ intent.lastLsn.toNat := by
    have hshape := validate_shape hinv.valid hpending
    obtain ⟨hrange, _⟩ := refuseIf_bind hshape
    have := (not_or.1 hrange).2
    rw [UInt64.lt_iff_toNat_lt] at this
    omega
  have hcheckpoint : (checkpointLsn record.checkpoint).toNat ≤ record.durableLsn.toNat := by
    have := (validate_frontier hinv.valid).2.2
    omega
  obtain ⟨_, hmerge⟩ := applyRecoveryPublication_log.1 h
  rw [← hmerge]
  -- the new tail is beyond the checkpoint, so the merge keeps the log
  simp only [mergePublication, recoveryPublicationAfterIntent, Option.none_or, Option.some_or]
  rw [logBeyond_of_lt (by simp only; omega)]

/-! ### Calls of the owner -/

section Prepare

variable {record : LogicalShardRecord} {lease : LogicalShardLease} {intent : RecoveryUploadIntent}

/-- The record with its pending upload published. -/
def completedRecord (record : LogicalShardRecord) (intent : RecoveryUploadIntent) : LogicalShardRecord :=
  { record with
    log := (recoveryPublicationAfterIntent record intent).log
    durableLsn := intent.lastLsn
    pendingRecoveryUpload := none }

lemma recoveryUploadIsPublished_completedRecord (record : LogicalShardRecord)
    (intent : RecoveryUploadIntent) :
    recoveryUploadIsPublished (completedRecord record intent) intent = true := by
  simp [recoveryUploadIsPublished, completedRecord, recoveryPublicationAfterIntent]

lemma prepareRecoveryUploadFinalization_pending (hinv : FrontierInv record) (hnames : Names record lease)
    (hpending : record.pendingRecoveryUpload = some intent) :
    prepareRecoveryUploadFinalization record lease intent (recoveryPublicationAfterIntent record intent) =
      .ok (completedRecord record intent) := by
  obtain ⟨completed, happly, hvalid⟩ := validate_completed hinv.valid hpending
  have hcompleted : { completed with pendingRecoveryUpload := none } = completedRecord record intent := by
    rw [applyRecoveryPublication_afterIntent hinv hpending happly]
    rfl
  unfold prepareRecoveryUploadFinalization
  simp only [bind_eq_ok, mapError_eq_ok, validateRecordLease_eq_ok]
  refine ⟨(), hnames, (), validate_shape hinv.valid hpending, ?_⟩
  rw [hpending]
  simp only [bind_eq_ok, mapError_eq_ok, refuseIf_eq_ok, not_not, ne_eq, pure_eq_ok, validateRecord_eq_ok]
  refine ⟨(), trivial, (), ?_, completed, happly, (), hvalid, hcompleted⟩
  simp [validateUploadPublication, recoveryPublicationAfterIntent, bind_eq_ok]

lemma prepareRecoveryUploadFinalization_published (hinv : FrontierInv record)
    (hnames : Names record lease) (hshape : validateRecoveryUploadIntentShape intent = .ok ())
    (hpending : record.pendingRecoveryUpload = none)
    (hpublished : recoveryUploadIsPublished record intent = true) {log : LogRef}
    (hlog : record.log = some log) :
    prepareRecoveryUploadFinalization record lease intent ⟨none, some log, log.durableLsn⟩ =
      .ok record := by
  unfold prepareRecoveryUploadFinalization
  simp only [bind_eq_ok, mapError_eq_ok, validateRecordLease_eq_ok]
  refine ⟨(), hnames, (), hshape, ?_⟩
  rw [hpending]
  simp only [bind_eq_ok, mapError_eq_ok, refuseIf_eq_ok, not_not, pure_eq_ok]
  exact ⟨record, applyRecoveryPublication_again hinv hlog, (), ⟨rfl, hpublished⟩, trivial⟩

lemma prepareRecoveryUploadAbort_published (hnames : Names record lease)
    (hshape : validateRecoveryUploadIntentShape intent = .ok ())
    (hpending : record.pendingRecoveryUpload = none)
    (hpublished : recoveryUploadIsPublished record intent = true) :
    prepareRecoveryUploadAbort record lease intent = .ok record := by
  unfold prepareRecoveryUploadAbort
  simp only [bind_eq_ok, mapError_eq_ok, validateRecordLease_eq_ok]
  refine ⟨(), hnames, (), hshape, ?_⟩
  rw [hpending]
  simp only [bind_eq_ok, refuseIf_eq_ok, pure_eq_ok, hpublished]
  exact ⟨(), by decide, trivial⟩

/-- A successful abort gave up a pending upload of a recovering owner, or found it published. -/
lemma prepareRecoveryUploadAbort_frontier {next : LogicalShardRecord}
    (h : prepareRecoveryUploadAbort record lease intent = .ok next) :
    SameFrontier record next ∧
      ((record.pendingRecoveryUpload = some intent ∧ record.state = .recovering) ∨
        (record.pendingRecoveryUpload = none ∧ recoveryUploadIsPublished record intent = true ∧
          next = record)) := by
  replace h := ok_of_bind h
  replace h := ok_of_bind h
  split at h
  next actual hpending =>
    obtain ⟨_, hintent, h⟩ := bind_eq_ok.1 h
    obtain ⟨_, hstate, h⟩ := bind_eq_ok.1 h
    obtain ⟨_, -, rfl⟩ := bind_pure_eq_ok h
    rw [refuseIf_eq_ok, not_not] at hintent hstate
    exact ⟨⟨rfl, rfl, rfl⟩, Or.inl ⟨hintent ▸ hpending, hstate⟩⟩
  next hpending =>
    obtain ⟨_, hpublished, rfl⟩ := bind_pure_eq_ok h
    rw [refuseIf_eq_ok, Bool.not_eq_false] at hpublished
    exact ⟨.refl _, Or.inr ⟨hpending, hpublished, rfl⟩⟩

end Prepare

/-! ### Calls of the store -/

variable {state : State} {shard : LogicalShardId} {record : LogicalShardRecord} {lease : LogicalShardLease}

lemma State.putRecord_self (h : state.logicalShards.get shard = some record) :
    state.putRecord shard record = state := by
  have hself : state.logicalShards.insert shard record = state.logicalShards := by
    refine OrdMap.ext_get fun other => ?_
    rw [OrdMap.get_insert]
    split
    next heq => rw [heq, h]
    next => rfl
  unfold State.putRecord
  rw [hself]

section

variable (hinv : Inv state) {prepare : LogicalShardRecord → Except ControlError LogicalShardRecord}
  (hrecord : state.logicalShards.get shard = some record) (hlive : state.ownerSessions.get shard = some lease)
include hinv hrecord hlive

lemma replaceRecord_ok (hprepare : Names record lease → prepare record = .ok next) :
    replaceRecord state lease prepare = .ok (next, state.putRecord shard next) := by
  obtain ⟨rfl, _, hother, hnames⟩ := hinv.session _ _ hlive
  cases hrecord.symm.trans hother
  unfold replaceRecord
  rw [provedRecord_eq_ok.2 ⟨hrecord, hnames, hlive⟩, ok_bind, hprepare hnames]
  rfl

lemma replaceRecord_same (hprepare : Names record lease → prepare record = .ok record) :
    replaceRecord state lease prepare = .ok (record, state) := by
  have hcall := replaceRecord_ok hinv hrecord hlive hprepare
  rwa [State.putRecord_self hrecord] at hcall

end

/-- What holds of the pending and the published uploads of a store. -/
structure UploadFinishes (state : State) : Prop where
  /-- the owner publishes the pending upload of its shard -/
  finish : ∀ shard record intent lease, state.logicalShards.get shard = some record →
    record.pendingRecoveryUpload = some intent → state.ownerSessions.get shard = some lease →
    finalizeRecoveryUpload state lease intent (recoveryPublicationAfterIntent record intent) =
      .ok (completedRecord record intent, state.putRecord shard (completedRecord record intent))
  /-- once published, and as long as the frontier of the shard ends there, publishing it again or giving
  it up changes nothing, whoever the owner is by then -/
  again : ∀ shard record intent lease published stored, state.logicalShards.get shard = some record →
    record.pendingRecoveryUpload = some intent → state.ownerSessions.get shard = some lease →
    finalizeRecoveryUpload state lease intent (recoveryPublicationAfterIntent record intent) =
      .ok (published, stored) →
    ∀ rest later current, (run stored rest).logicalShards.get shard = some later →
      SameFrontier published later → later.pendingRecoveryUpload = none →
      (run stored rest).ownerSessions.get shard = some current →
      finalizeRecoveryUpload (run stored rest) current intent
          (recoveryPublicationAfterIntent record intent) = .ok (later, run stored rest) ∧
        abortRecoveryUpload (run stored rest) current intent = .ok (later, run stored rest)
  /-- only a recovering owner gives up a pending upload, and the frontier stays -/
  abort : ∀ shard record intent lease next stored, state.logicalShards.get shard = some record →
    lease.logicalShardId = shard → abortRecoveryUpload state lease intent = .ok (next, stored) →
    SameFrontier record next ∧ stored = state.putRecord shard next ∧
      (record.pendingRecoveryUpload ≠ none → record.state = .recovering)

/-- The store after a successful call is a later state of the same run. -/
lemma run_finalize {stored : State} {intent : RecoveryUploadIntent} {publication : RecoveryPublication}
    (h : finalizeRecoveryUpload state lease intent publication = .ok (next, stored)) (rest : List Op) :
    run state (.finalizeRecoveryUpload lease intent publication :: rest) = run stored rest := by
  simp only [run, step, outcome, h]

/-- **Prepared uploads can be finished.** Over every sequence of calls, by any owners, the owner of a
shard with a pending upload can publish it, repeating that is harmless, and only a recovering owner can
give it up. -/
theorem upload_finishes (ops : List Op) : UploadFinishes (run .init ops) := by
  have hinv : ∀ ops, Inv (run .init ops) := fun ops => inv_init.run ops
  have hfrontier : ∀ ops, FrontierInvs (run .init ops) := fun ops => (frontier_run frontierInvs_init ops).1
  have hfinish : ∀ shard record intent lease, (run .init ops).logicalShards.get shard = some record →
      record.pendingRecoveryUpload = some intent → (run .init ops).ownerSessions.get shard = some lease →
      finalizeRecoveryUpload (run .init ops) lease intent (recoveryPublicationAfterIntent record intent) =
        .ok (completedRecord record intent,
          (run .init ops).putRecord shard (completedRecord record intent)) := by
    intro shard record intent lease hrecord hpending hlive
    exact replaceRecord_ok (hinv ops) hrecord hlive fun hnames =>
      prepareRecoveryUploadFinalization_pending (hfrontier ops _ _ hrecord) hnames hpending
  refine ⟨hfinish, ?_, ?_⟩
  · -- the same call again, however much later, and an abort of what is published
    intro shard record intent lease published stored hrecord hpending hlease hfinal rest later current hlater
      hsame hnone hlive
    have hpublished : published = completedRecord record intent :=
      congrArg Prod.fst (Except.ok.inj (hfinal.symm.trans (hfinish _ _ _ _ hrecord hpending hlease)))
    have hrun := run_finalize hfinal rest
    rw [← run_append] at hrun
    rw [← hrun] at hlater hlive ⊢
    have hlog : later.log = (recoveryPublicationAfterIntent record intent).log := by
      rw [hsame.log, hpublished]
      rfl
    have hshape := validate_shape ((hinv ops).valid _ _ hrecord) hpending
    have hpublished : recoveryUploadIsPublished later intent = true := by
      rw [← recoveryUploadIsPublished_completedRecord record intent, ← hpublished]
      unfold recoveryUploadIsPublished
      rw [hsame.log, hsame.durableLsn]
    constructor
    · exact replaceRecord_same (hinv _) hlater hlive fun hnames =>
        prepareRecoveryUploadFinalization_published (hfrontier _ _ _ hlater) hnames hshape hnone hpublished
          hlog
    · exact replaceRecord_same (hinv _) hlater hlive fun hnames =>
        prepareRecoveryUploadAbort_published hnames hshape hnone hpublished
  · -- an abort that comes first
    intro shard record intent lease next stored hrecord hshard hcall
    subst hshard
    obtain ⟨_, hproved, hprepare⟩ := bind_eq_ok.1 hcall
    obtain ⟨_, hprepared, ⟨⟩⟩ := bind_pure_eq_ok hprepare
    cases hrecord.symm.trans (provedRecord_eq_ok.1 hproved).1
    obtain ⟨hsame, hcases⟩ := prepareRecoveryUploadAbort_frontier hprepared
    refine ⟨hsame, rfl, fun hpending => ?_⟩
    rcases hcases with ⟨_, hstate⟩ | ⟨hnone, _⟩
    · exact hstate
    · exact absurd hnone hpending

/-- The successor of a lost owner publishes the upload that the lost owner prepared. -/
example :
    (finalizeRecoveryUpload
        (run .init (sampleOps.take 5 ++ [.sessionLoss sampleShard,
          .acquireSuccessor sampleShard ⟨1, by decide⟩ sampleNode "host-b:1"]))
        ⟨sampleShard, sampleNode, ⟨2, by decide⟩, 2⟩ sampleIntent
        ⟨none, some ⟨[segmentOfIntent sampleIntent], 2, sampleDigest 'a'⟩, 2⟩).toOption.map
      (fun call => (call.1.durableLsn, call.1.state)) = some (2, .recovering) := by
  decide +kernel

end NoKV.Control
