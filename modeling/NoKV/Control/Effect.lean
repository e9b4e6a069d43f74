import NoKV.Control.Store

/-!
# What a step of the control store does

Every step of the store has one of six effects (`step_effect`): it keeps the records, creates the
record of a shard, replaces the record of a proved owner, releases it, or installs a new lease. What
holds over whole runs is derived from this classification alone.
-/

namespace NoKV.Control

open Lib RecordError ControlError

/-! ### Steps of one record -/

section Record

variable {current next : LogicalShardRecord} {lease : LogicalShardLease} {publication : RecoveryPublication}
  {intent : RecoveryUploadIntent} {owner : NodeId} {endpoint : String} {leaseId : UInt64}

structure SameFrontier (a b : LogicalShardRecord) : Prop where
  checkpoint : b.checkpoint = a.checkpoint
  log : b.log = a.log
  durableLsn : b.durableLsn = a.durableLsn

structure SameOwner (a b : LogicalShardRecord) : Prop where
  logicalShardId : b.logicalShardId = a.logicalShardId
  owner : b.owner = a.owner
  ownerEpoch : b.ownerEpoch = a.ownerEpoch
  leaseId : b.leaseId = a.leaseId

lemma SameOwner.refl (a : LogicalShardRecord) : SameOwner a a := ⟨rfl, rfl, rfl, rfl⟩

lemma SameFrontier.refl (a : LogicalShardRecord) : SameFrontier a a := ⟨rfl, rfl, rfl⟩

/-- The frontier stays, or one publication is merged into it. -/
inductive FrontierStep (a b : LogicalShardRecord) : Prop where
  | same (h : SameFrontier a b)
  | publish (publication : RecoveryPublication)
      (hsome : ¬ (publication.checkpoint = none ∧ publication.log = none))
      (hok : checkPublication a publication = .ok ())
      (h : SameFrontier (mergePublication a publication) b)

section

variable {record next : LogicalShardRecord} (h : applyRecoveryPublication record publication = .ok next)
include h

lemma applyRecoveryPublication_ok :
    next = record ∨ (¬ (publication.checkpoint = none ∧ publication.log = none) ∧
      checkPublication record publication = .ok () ∧ next = mergePublication record publication) := by
  replace h := ok_of_bind h
  split at h
  next =>
    replace h := ok_of_bind h
    exact Or.inl (pure_eq_ok.1 h).symm
  next hsome =>
    obtain ⟨_, hcheck, h⟩ := bind_eq_ok.1 h
    exact Or.inr ⟨hsome, mapError_eq_ok.1 hcheck, (pure_eq_ok.1 h).symm⟩

lemma applyRecoveryPublication_spec : SameOwner record next ∧ FrontierStep record next ∧
      next.pendingRecoveryUpload = record.pendingRecoveryUpload ∧ next.state = record.state := by
  rcases applyRecoveryPublication_ok h with rfl | ⟨hsome, hcheck, rfl⟩
  · exact ⟨.refl _, .same (.refl _), rfl, rfl⟩
  · exact ⟨⟨rfl, rfl, rfl, rfl⟩, .publish publication hsome hcheck (.refl _), rfl, rfl⟩

end

/-- What an owner's call makes of its record. -/
structure OwnerStep (current next : LogicalShardRecord) : Prop where
  owner : SameOwner current next
  frontier : FrontierStep current next
  valid : next = current ∨ validateLogicalShardRecord next = .ok ()

lemma OwnerStep.refl (current : LogicalShardRecord) : OwnerStep current current :=
  ⟨.refl _, .same (.refl _), Or.inl rfl⟩

lemma FrontierStep.of_same {a b c : LogicalShardRecord} (h : FrontierStep a b) (hc : SameFrontier b c) :
    FrontierStep a c := by
  cases h with
  | same h =>
    exact .same ⟨hc.checkpoint.trans h.checkpoint, hc.log.trans h.log, hc.durableLsn.trans h.durableLsn⟩
  | publish publication hsome hok h =>
    exact .publish publication hsome hok
      ⟨hc.checkpoint.trans h.checkpoint, hc.log.trans h.log, hc.durableLsn.trans h.durableLsn⟩

lemma validateRecord_eq_ok {record : LogicalShardRecord} {u : Unit} :
    validateRecord record = .ok u ↔ validateLogicalShardRecord record = .ok () := mapError_eq_ok

lemma prepareMarkServing_spec (h : prepareMarkServing current lease publication = .ok next) :
    OwnerStep current next := by
  replace h := ok_of_bind h
  obtain ⟨_, hmerged, h⟩ := bind_eq_ok.1 h
  replace h := ok_of_bind h
  obtain ⟨_, hvalid, rfl⟩ := bind_pure_eq_ok h
  obtain ⟨howner, hfrontier, -, -⟩ := applyRecoveryPublication_spec (mapError_eq_ok.1 hmerged)
  exact ⟨⟨howner.logicalShardId, howner.owner, howner.ownerEpoch, howner.leaseId⟩,
    hfrontier.of_same ⟨rfl, rfl, rfl⟩, Or.inr (validateRecord_eq_ok.1 hvalid)⟩

lemma prepareRecoveryUploadIntent_spec (h : prepareRecoveryUploadIntent current lease intent = .ok next) :
    OwnerStep current next := by
  replace h := ok_of_bind h
  replace h := ok_of_bind h
  split at h
  · obtain ⟨_, -, rfl⟩ := bind_pure_eq_ok h
    exact .refl _
  · obtain ⟨_, hvalid, rfl⟩ := bind_pure_eq_ok h
    exact ⟨⟨rfl, rfl, rfl, rfl⟩, .same ⟨rfl, rfl, rfl⟩, Or.inr (validateRecord_eq_ok.1 hvalid)⟩

lemma prepareRecoveryUploadFinalization_spec
    (h : prepareRecoveryUploadFinalization current lease intent publication = .ok next) :
    OwnerStep current next := by
  replace h := ok_of_bind h
  replace h := ok_of_bind h
  split at h
  · replace h := ok_of_bind h
    replace h := ok_of_bind h
    obtain ⟨_, hmerged, h⟩ := bind_eq_ok.1 h
    obtain ⟨_, hvalid, rfl⟩ := bind_pure_eq_ok h
    obtain ⟨howner, hfrontier, -, -⟩ := applyRecoveryPublication_spec (mapError_eq_ok.1 hmerged)
    exact ⟨⟨howner.logicalShardId, howner.owner, howner.ownerEpoch, howner.leaseId⟩,
      hfrontier.of_same ⟨rfl, rfl, rfl⟩, Or.inr (validateRecord_eq_ok.1 hvalid)⟩
  · obtain ⟨_, -, h⟩ := bind_eq_ok.1 h
    obtain ⟨_, -, rfl⟩ := bind_pure_eq_ok h
    exact .refl _

lemma prepareRecoveryUploadAbort_spec (h : prepareRecoveryUploadAbort current lease intent = .ok next) :
    OwnerStep current next := by
  replace h := ok_of_bind h
  replace h := ok_of_bind h
  split at h
  · replace h := ok_of_bind h
    replace h := ok_of_bind h
    obtain ⟨_, hvalid, rfl⟩ := bind_pure_eq_ok h
    exact ⟨⟨rfl, rfl, rfl, rfl⟩, .same ⟨rfl, rfl, rfl⟩, Or.inr (validateRecord_eq_ok.1 hvalid)⟩
  · obtain ⟨_, -, rfl⟩ := bind_pure_eq_ok h
    exact .refl _

lemma prepareOwnerRelease_spec (h : prepareOwnerRelease current lease = .ok next) :
    next = { current with owner := none, leaseId := 0, state := .unassigned, endpoint := none } ∧
      validateLogicalShardRecord next = .ok () := by
  replace h := ok_of_bind h
  replace h := ok_of_bind h
  replace h := ok_of_bind h
  obtain ⟨_, hvalid, rfl⟩ := bind_pure_eq_ok h
  exact ⟨rfl, validateRecord_eq_ok.1 hvalid⟩

/-! ### Acquisitions -/

/-- The number of an optional epoch; a shard that never had an owner stands at zero. -/
def epochNumber (epoch : Option OwnerEpoch) : ℕ := epoch.elim 0 NonZeroU64.get

/-- The record an acquisition installs under the given lease. -/
structure Installed (current next : LogicalShardRecord) (lease : LogicalShardLease) : Prop where
  logicalShardId : next.logicalShardId = current.logicalShardId
  leaseShard : lease.logicalShardId = current.logicalShardId
  owner : next.owner = some lease.owner
  ownerEpoch : next.ownerEpoch = some lease.ownerEpoch
  leaseId : next.leaseId = lease.leaseId
  frontier : SameFrontier current next
  valid : validateLogicalShardRecord next = .ok ()

lemma nextOwnerEpoch_ok {shard : LogicalShardId} {epoch : Option OwnerEpoch} {next : OwnerEpoch}
    (h : nextOwnerEpoch shard epoch = .ok next) : next.get = epochNumber epoch + 1 := by
  cases epoch with
  | none =>
    cases pure_eq_ok.1 h
    rfl
  | some epoch =>
    obtain ⟨value, hvalue, h⟩ := bind_eq_ok.1 h
    have hnext : next.val = value := NonZeroU64.new_eq_some (okOr_eq_ok.1 h)
    show next.val.toNat = epoch.val.toNat + 1
    rw [hnext]
    exact checkedAdd_eq_some.1 (okOr_eq_ok.1 hvalue)

lemma prepareOwnerAcquisition_spec {expected : Option OwnerEpoch}
    (h : prepareOwnerAcquisition current expected owner endpoint leaseId = .ok (next, lease)) :
    Installed current next lease ∧ lease.leaseId = leaseId ∧
      lease.ownerEpoch.get = epochNumber current.ownerEpoch + 1 ∧
      (expected = none → current.owner = none) := by
  replace h := ok_of_bind h
  replace h := ok_of_bind h
  replace h := ok_of_bind h
  obtain ⟨hexpected, h⟩ := refuseIf_not_bind h
  obtain ⟨_, hprevious, h⟩ := bind_eq_ok.1 h
  obtain ⟨_, hnext, h⟩ := bind_eq_ok.1 h
  obtain ⟨_, hvalid, ⟨⟩⟩ := bind_pure_eq_ok h
  have hepoch : current.ownerEpoch = expected := hexpected
  refine ⟨⟨rfl, rfl, rfl, rfl, rfl, ⟨rfl, rfl, rfl⟩, validateRecord_eq_ok.1 hvalid⟩, rfl, ?_, ?_⟩
  · rw [hepoch]
    exact nextOwnerEpoch_ok hnext
  · rintro rfl
    unfold checkPreviousOwner at hprevious
    dsimp only at hprevious
    split at hprevious
    · cases hprevious
    · cases hprevious
    · assumption

lemma prepareRecoveryReacquisition_spec {epoch : OwnerEpoch}
    (h : prepareRecoveryReacquisition current epoch owner endpoint leaseId = .ok (next, lease)) :
    Installed current next lease ∧ lease.leaseId = leaseId ∧
      lease.ownerEpoch.get = epochNumber current.ownerEpoch := by
  replace h := ok_of_bind h
  replace h := ok_of_bind h
  replace h := ok_of_bind h
  obtain ⟨_, hepoch, h⟩ := bind_eq_ok.1 h
  replace h := ok_of_bind h
  obtain ⟨_, hvalid, ⟨⟩⟩ := bind_pure_eq_ok h
  have hepoch : current.ownerEpoch = some epoch := of_refuseIf_not hepoch
  refine ⟨⟨rfl, rfl, rfl, hepoch, rfl, ⟨rfl, rfl, rfl⟩, validateRecord_eq_ok.1 hvalid⟩, rfl, ?_⟩
  rw [hepoch]
  rfl

end Record

/-! ### Steps of the store -/

/-- A call that consumes an owner epoch. -/
def Op.isFresh : Op → Bool
  | .acquireOwner .. => true
  | .acquireSuccessor .. => true
  | _ => false

def Op.lease : Op → Option LogicalShardLease
  | .renewOwner lease => some lease
  | .proveOwner lease => some lease
  | .markServing lease _ => some lease
  | .prepareRecoveryUpload lease _ => some lease
  | .finalizeRecoveryUpload lease _ _ => some lease
  | .abortRecoveryUpload lease _ => some lease
  | .suspendRecovery lease => some lease
  | .releaseOwner lease => some lease
  | _ => none

/-- The shard whose session a transition reads. -/
def Op.shard : Op → Option LogicalShardId
  | .acquireOwner shard _ _ => some shard
  | .acquireSuccessor shard _ _ _ => some shard
  | .reacquireRecovery shard _ _ _ => some shard
  | .markServing lease _ => some lease.logicalShardId
  | .prepareRecoveryUpload lease _ => some lease.logicalShardId
  | .finalizeRecoveryUpload lease _ _ => some lease.logicalShardId
  | .abortRecoveryUpload lease _ => some lease.logicalShardId
  | .suspendRecovery lease => some lease.logicalShardId
  | .releaseOwner lease => some lease.logicalShardId
  | _ => none

section Store

variable {state next : State} {op : Op} {lease : LogicalShardLease} {record : LogicalShardRecord}
  {answer : Answer}

inductive Effect (state : State) (op : Op) : Answer → State → Prop where
  | keep {answer : Answer} {next : State} (hanswer : ∀ lease, answer ≠ .lease lease)
      (hrecords : next.logicalShards = state.logicalShards)
      (hlease : state.nextLeaseId.toNat ≤ next.nextLeaseId.toNat)
      (hsessions : ∀ shard lease, next.ownerSessions.get shard = some lease →
        state.ownerSessions.get shard = some lease) : Effect state op answer next
  | create {shard : LogicalShardId} {record : LogicalShardRecord}
      (hnew : state.logicalShards.get shard = none) :
      Effect state op (.record record) (state.putRecord shard (.unassigned shard))
  | replace {lease : LogicalShardLease} {current next record : LogicalShardRecord}
      (hproved : provedRecord state lease = .ok current) (hstep : OwnerStep current next) :
      Effect state op (.record record) (state.putRecord lease.logicalShardId next)
  | release {lease : LogicalShardLease} {current next record : LogicalShardRecord}
      (hproved : provedRecord state lease = .ok current)
      (hnext : next = { current with owner := none, leaseId := 0, state := .unassigned, endpoint := none })
      (hvalid : validateLogicalShardRecord next = .ok ()) :
      Effect state op (.record record)
        ((state.putRecord lease.logicalShardId next).endSession lease.logicalShardId)
  | acquire {shard : LogicalShardId} {lease : LogicalShardLease} {current next : LogicalShardRecord}
      (hcurrent : state.logicalShards.get shard = some current)
      (hfree : current.owner = none ∨ state.ownerSessions.get shard = none)
      (hid : lease.leaseId.toNat = state.nextLeaseId.toNat + 1)
      (hinstalled : Installed current next lease)
      (hepoch : lease.ownerEpoch.get = epochNumber current.ownerEpoch + if op.isFresh then 1 else 0) :
      Effect state op (.lease lease)
        ((({ state with nextLeaseId := lease.leaseId } : State).putRecord shard next).putSession shard lease)

/-- What a step did, together with the call that did it. -/
inductive Did (state : State) (op : Op) : Answer → State → Prop where
  | stay {answer : Answer} (hanswer : ∀ lease, answer ≠ .lease lease) : Did state op answer state
  | place {placement answer : RootPlacement}
      (hvalid : validateNewRootPlacement placement = .ok () ∨
        ∃ expected, validateRootPlacementUpdate expected placement = .ok () ∧
          state.rootPlacements.get expected.rootId = some expected) :
      Did state op (.placement answer)
        { state with rootPlacements := state.rootPlacements.insert placement.rootId placement }
  | create {shard : LogicalShardId} {record : LogicalShardRecord} (hop : op = .createLogicalShard shard)
      (hnew : state.logicalShards.get shard = none) :
      Did state op (.record record) (state.putRecord shard (.unassigned shard))
  | replace {lease : LogicalShardLease} {current next record : LogicalShardRecord}
      (hlease : op.lease = some lease) (hshard : op.shard = some lease.logicalShardId)
      (hproved : provedRecord state lease = .ok current) (hstep : OwnerStep current next) :
      Did state op (.record record) (state.putRecord lease.logicalShardId next)
  | suspend {lease : LogicalShardLease} {record : LogicalShardRecord} (hop : op = .suspendRecovery lease) :
      Did state op (.record record) (state.endSession lease.logicalShardId)
  | release {lease : LogicalShardLease} {current next record : LogicalShardRecord}
      (hop : op = .releaseOwner lease) (hproved : provedRecord state lease = .ok current)
      (hnext : next = { current with owner := none, leaseId := 0, state := .unassigned, endpoint := none })
      (hvalid : validateLogicalShardRecord next = .ok ()) :
      Did state op (.record record)
        ((state.putRecord lease.logicalShardId next).endSession lease.logicalShardId)
  | allocate {error : ControlError} {leaseId : UInt64} (hid : leaseId.toNat = state.nextLeaseId.toNat + 1) :
      Did state op (.error error) { state with nextLeaseId := leaseId }
  | acquire {shard : LogicalShardId} {lease : LogicalShardLease} {current next : LogicalShardRecord}
      (hlease : op.lease = none) (hshard : op.shard = some shard)
      (hcurrent : state.logicalShards.get shard = some current)
      (hfree : current.owner = none ∨ state.ownerSessions.get shard = none)
      (hid : lease.leaseId.toNat = state.nextLeaseId.toNat + 1)
      (hinstalled : Installed current next lease)
      (hepoch : lease.ownerEpoch.get = epochNumber current.ownerEpoch + if op.isFresh then 1 else 0) :
      Did state op (.lease lease)
        ((({ state with nextLeaseId := lease.leaseId } : State).putRecord shard next).putSession shard lease)
  | lose {shard : LogicalShardId} (hop : op = .sessionLoss shard) :
      Did state op .lost (state.endSession shard)

/-- A call that fails keeps the store. -/
lemma did_outcome {α : Type} {wrap : α → Answer} {result : Except ControlError (α × State)}
    (h : ∀ value next, result = .ok (value, next) → Did state op (wrap value) next) :
    Did state op (outcome state wrap result).1 (outcome state wrap result).2 := by
  cases result with
  | error => exact .stay fun _ h => nomatch h
  | ok result => exact h result.1 result.2 rfl

lemma did_replaceRecord {prepare : LogicalShardRecord → Except ControlError LogicalShardRecord}
    (hlease : op.lease = some lease) (hshard : op.shard = some lease.logicalShardId)
    (hprepare : ∀ current next, prepare current = .ok next → OwnerStep current next)
    (h : replaceRecord state lease prepare = .ok (record, next)) : Did state op (.record record) next := by
  obtain ⟨_, hproved, h⟩ := bind_eq_ok.1 h
  obtain ⟨_, hreplaced, ⟨⟩⟩ := bind_pure_eq_ok h
  exact .replace hlease hshard hproved (hprepare _ _ hreplaced)

lemma did_releaseOwner (h : releaseOwner state lease = .ok (record, next)) :
    Did state (.releaseOwner lease) (.record record) next := by
  obtain ⟨_, h', ⟨⟩⟩ := bind_pure_eq_ok h
  obtain ⟨_, hproved, h'⟩ := bind_eq_ok.1 h'
  obtain ⟨_, hreleased, ⟨⟩⟩ := bind_pure_eq_ok h'
  obtain ⟨hnext, hvalid⟩ := prepareOwnerRelease_spec hreleased
  exact .release rfl hproved hnext hvalid

lemma did_suspendRecovery (h : suspendRecovery state lease = .ok (record, next)) :
    Did state (.suspendRecovery lease) (.record record) next := by
  obtain ⟨_, -, h⟩ := bind_eq_ok.1 h
  obtain ⟨_, -, h⟩ := bind_eq_ok.1 h
  split at h
  · cases pure_eq_ok.1 h
    exact .stay fun _ h => nomatch h
  · obtain ⟨_, -, ⟨⟩⟩ := bind_pure_eq_ok h
    exact .suspend rfl

lemma did_createLogicalShard {shard : LogicalShardId}
    (h : createLogicalShard state shard = .ok (record, next)) :
    Did state (.createLogicalShard shard) (.record record) next := by
  unfold createLogicalShard at h
  split at h
  · obtain ⟨_, -, ⟨⟩⟩ := bind_pure_eq_ok h
    exact .stay fun _ h => nomatch h
  next hnew =>
    cases pure_eq_ok.1 h
    exact .create rfl hnew

lemma did_createRootPlacement {placement answer : RootPlacement}
    (h : createRootPlacement state placement = .ok (answer, next)) :
    Did state op (.placement answer) next := by
  obtain ⟨_, hvalid, h⟩ := bind_eq_ok.1 h
  replace h := ok_of_bind h
  split at h
  · split at h
    · cases pure_eq_ok.1 h
      exact .stay fun _ h => nomatch h
    · replace h := ok_of_bind h
      cases h
  · cases pure_eq_ok.1 h
    exact .place (Or.inl hvalid)

lemma did_compareAndSetRootPlacement {expected placement answer : RootPlacement}
    (h : compareAndSetRootPlacement state expected placement = .ok (answer, next)) :
    Did state op (.placement answer) next := by
  obtain ⟨_, hvalid, h⟩ := bind_eq_ok.1 h
  dsimp only at h
  split at h
  · cases pure_eq_ok.1 h
    exact .stay fun _ h => nomatch h
  · obtain ⟨hactual, h⟩ := refuseIf_not_bind h
    cases pure_eq_ok.1 h
    exact .place (Or.inr ⟨expected, hvalid, hactual⟩)

/-- An acquisition keeps the records, or installs a lease under the next lease id. -/
lemma did_install {shard : LogicalShardId} {endpoint : String}
    {allow : LogicalShardRecord → Except ControlError Unit}
    {prepare : LogicalShardRecord → UInt64 → Except ControlError (LogicalShardRecord × LogicalShardLease)}
    (hlease : op.lease = none) (hshard : op.shard = some shard)
    (hprepare : ∀ current leaseId next lease, allow current = .ok () →
      prepare current leaseId = .ok (next, lease) →
      Installed current next lease ∧ lease.leaseId = leaseId ∧
      lease.ownerEpoch.get = epochNumber current.ownerEpoch + (if op.isFresh then 1 else 0) ∧
      (current.owner = none ∨ state.ownerSessions.get shard = none)) :
    Did state op (acquired (install state shard endpoint allow prepare)).1
      (acquired (install state shard endpoint allow prepare)).2 := by
  unfold install
  split
  · exact .stay fun _ h => nomatch h
  next current hadmit =>
    replace hadmit := ok_of_bind hadmit
    replace hadmit := ok_of_bind hadmit
    obtain ⟨_, hcurrent, hadmit⟩ := bind_eq_ok.1 hadmit
    obtain ⟨_, hown, rfl⟩ := bind_pure_eq_ok hadmit
    split
    · exact .stay fun _ h => nomatch h
    next leaseId hid =>
      have hid := checkedAdd_eq_some.1 hid
      split
      · exact .allocate hid
      next next lease hprepared =>
        obtain ⟨hinstalled, hleaseId, hepoch, hfree⟩ := hprepare _ _ _ _ hown hprepared
        cases hleaseId
        exact .acquire hlease hshard (okOr_eq_ok.1 hcurrent) hfree hid hinstalled hepoch

lemma step_did (state : State) (op : Op) : Did state op (step state op).1 (step state op).2 := by
  cases op with
  | createRootPlacement => exact did_outcome fun _ _ h => did_createRootPlacement h
  | compareAndSetRootPlacement =>
    exact did_outcome fun _ _ h => did_compareAndSetRootPlacement h
  | createLogicalShard => exact did_outcome fun _ _ h => did_createLogicalShard h
  | acquireOwner =>
    refine did_install rfl rfl fun current leaseId next lease _ h => ?_
    obtain ⟨hinstalled, hid, hepoch, hnone⟩ := prepareOwnerAcquisition_spec h
    exact ⟨hinstalled, hid, hepoch, Or.inl (hnone rfl)⟩
  | acquireSuccessor =>
    refine did_install rfl rfl fun current leaseId next lease hadmit h => ?_
    -- the last check of an admission is that the session before is gone
    replace hadmit := ok_of_bind hadmit
    replace hadmit := ok_of_bind hadmit
    obtain ⟨hinstalled, hid, hepoch, _⟩ := prepareOwnerAcquisition_spec h
    exact ⟨hinstalled, hid, hepoch, Or.inr (of_refuseIf_not hadmit)⟩
  | reacquireRecovery =>
    refine did_install rfl rfl fun current leaseId next lease hadmit h => ?_
    replace hadmit := ok_of_bind hadmit
    obtain ⟨hinstalled, hid, hepoch⟩ := prepareRecoveryReacquisition_spec h
    exact ⟨hinstalled, hid, hepoch, Or.inr (of_refuseIf_not hadmit)⟩
  | renewOwner lease | proveOwner lease =>
    refine did_outcome fun value next h => ?_
    -- renewing and proving answer without a change of the state
    obtain ⟨_, _, h⟩ := map_eq_ok.1 h
    cases h
    exact .stay fun _ h => nomatch h
  | markServing =>
    exact did_outcome fun _ _ h => did_replaceRecord rfl rfl (fun _ _ => prepareMarkServing_spec) h
  | prepareRecoveryUpload =>
    exact did_outcome fun _ _ h => did_replaceRecord rfl rfl (fun _ _ => prepareRecoveryUploadIntent_spec) h
  | finalizeRecoveryUpload =>
    exact did_outcome fun _ _ h =>
      did_replaceRecord rfl rfl (fun _ _ => prepareRecoveryUploadFinalization_spec) h
  | abortRecoveryUpload =>
    exact did_outcome fun _ _ h => did_replaceRecord rfl rfl (fun _ _ => prepareRecoveryUploadAbort_spec) h
  | suspendRecovery => exact did_outcome fun _ _ h => did_suspendRecovery h
  | releaseOwner => exact did_outcome fun _ _ h => did_releaseOwner h
  | sessionLoss => exact .lose rfl

lemma Did.effect (h : Did state op answer next) : Effect state op answer next := by
  cases h with
  | stay hanswer => exact .keep hanswer rfl le_rfl fun _ _ h => h
  | place _ => exact .keep (fun _ h => nomatch h) rfl le_rfl fun _ _ h => h
  | allocate hid => exact .keep (fun _ h => nomatch h) rfl (Nat.le.intro hid.symm) fun _ _ h => h
  | suspend _ | lose _ =>
    exact .keep (fun _ h => nomatch h) rfl le_rfl fun _ _ hget => OrdMap.get_of_get_erase hget
  | create _ hnew => exact .create hnew
  | replace _ _ hproved hstep => exact .replace hproved hstep
  | release _ hproved hnext hvalid => exact .release hproved hnext hvalid
  | acquire _ _ hcurrent hfree hid hinstalled hepoch =>
    exact .acquire hcurrent hfree hid hinstalled hepoch

/-- **Every step has one of the effects.** -/
theorem step_effect (state : State) (op : Op) : Effect state op (step state op).1 (step state op).2 :=
  (step_did state op).effect

end Store

end NoKV.Control
