import NoKV.Control.Record

/-!
# The control store

The transitions of the control store: root placements, ownership of a logical shard, its recovery
frontier and its owner session. Every call runs alone, so a run of the store is a sequence of calls
and of sessions that end by themselves.

A call leaves the state behind even when it fails: an acquisition that fails late has consumed a
lease id.
-/

namespace NoKV.Control

open Lib RecordError ControlError

/-- Control records plus the owner sessions that are live for them. -/
structure State where
  rootPlacements : OrdMap RootId RootPlacement
  logicalShards : OrdMap LogicalShardId LogicalShardRecord
  ownerSessions : OrdMap LogicalShardId LogicalShardLease
  nextLeaseId : UInt64

def State.init : State := ⟨.empty, .empty, .empty, 0⟩

def State.putRecord (state : State) (shard : LogicalShardId) (record : LogicalShardRecord) : State :=
  { state with logicalShards := state.logicalShards.insert shard record }

def State.putSession (state : State) (shard : LogicalShardId) (lease : LogicalShardLease) : State :=
  { state with ownerSessions := state.ownerSessions.insert shard lease }

def State.endSession (state : State) (shard : LogicalShardId) : State :=
  { state with ownerSessions := state.ownerSessions.erase shard }

/-! ### Root placements -/

/-- A placement starts at generation one. -/
def validateNewRootPlacement (placement : RootPlacement) : Except ControlError Unit := do
  refuseIf (placement.placementGeneration.get ≠ 1)
    (invalidPlacementMutation placement.rootId "initial placement generation must be 1")
  refuseIf (placement.lifecycle ≠ .provisioning)
    (invalidPlacementMutation placement.rootId "initial placement lifecycle must be Provisioning")

/-- The lifecycle changes a placement can make. -/
def placementTransition : RootPlacementLifecycle → RootPlacementLifecycle → Bool
  | .provisioning, .active => true
  | .provisioning, .retired => true
  | .active, .draining => true
  | .draining, .active => true
  | .draining, .retired => true
  | _, _ => false

def validateRootPlacementUpdate (expected next : RootPlacement) : Except ControlError Unit := do
  refuseIf (next.rootId ≠ expected.rootId) (invalidPlacementMutation expected.rootId "root id is immutable")
  refuseIf (next.logicalShardId ≠ expected.logicalShardId)
    (immutableShardAffinity expected.rootId expected.logicalShardId next.logicalShardId)
  let generation ← okOr (checkedAdd expected.placementGeneration.val 1)
    (invalidPlacementMutation expected.rootId "placement generation is exhausted")
  refuseIf (next.placementGeneration.val ≠ generation)
    (invalidPlacementMutation expected.rootId
      s!"next placement generation must be {generation}, got {next.placementGeneration.val}")
  refuseIf (placementTransition expected.lifecycle next.lifecycle = false)
    (invalidPlacementMutation expected.rootId
      s!"lifecycle transition {expected.lifecycle.debug} -> {next.lifecycle.debug} is not allowed")

/-- Create the placement of a root; an exact replay answers with the placement. -/
def createRootPlacement (state : State) (placement : RootPlacement) :
    Except ControlError (RootPlacement × State) := do
  validateNewRootPlacement placement
  refuseIf (state.logicalShards.get placement.logicalShardId = none)
    (logicalShardNotFound placement.logicalShardId)
  match state.rootPlacements.get placement.rootId with
  | some current =>
    if current = placement then
      pure (current, state)
    else do
      refuseIf (current.logicalShardId ≠ placement.logicalShardId)
        (immutableShardAffinity placement.rootId current.logicalShardId placement.logicalShardId)
      throw (rootPlacementAlreadyExists placement.rootId)
  | none =>
    pure (placement,
      { state with rootPlacements := state.rootPlacements.insert placement.rootId placement })

def compareAndSetRootPlacement (state : State) (expected next : RootPlacement) :
    Except ControlError (RootPlacement × State) := do
  validateRootPlacementUpdate expected next
  let actual := state.rootPlacements.get expected.rootId
  if actual = some next then
    pure (next, state)
  else do
    refuseIf (actual ≠ some expected) (rootPlacementCasConflict expected actual)
    pure (next, { state with rootPlacements := state.rootPlacements.insert next.rootId next })

/-- Create the record of a shard; an exact replay answers with the record. -/
def createLogicalShard (state : State) (shard : LogicalShardId) :
    Except ControlError (LogicalShardRecord × State) :=
  let desired := LogicalShardRecord.unassigned shard
  match state.logicalShards.get shard with
  | some current => do
    refuseIf (current ≠ desired) (logicalShardAlreadyExists shard)
    pure (current, state)
  | none => pure (desired, state.putRecord shard desired)

/-! ### Transitions of one record -/

def validateEndpoint (endpoint : String) : Except ControlError Unit :=
  refuseIf (endpointIsCanonical endpoint = false) (invalidEndpoint endpoint)

def validateRecord (record : LogicalShardRecord) : Except ControlError Unit :=
  (validateLogicalShardRecord record).mapError .record

/-- The epoch a fresh acquisition installs. -/
def nextOwnerEpoch (shard : LogicalShardId) : Option OwnerEpoch → Except ControlError OwnerEpoch
  | none => pure ⟨1, by decide⟩
  | some epoch => do
    let next ← okOr (checkedAdd epoch.val 1) (ownerEpochExhausted shard)
    okOr (NonZeroU64.new next) (ownerEpochExhausted shard)

/-- The previous owner has finished its recovery, or there was none. -/
def checkPreviousOwner (current : LogicalShardRecord) : Option OwnerEpoch → Except ControlError Unit
  | some epoch =>
    refuseIf (current.state = .recovering) (recoveryAttemptPending current.logicalShardId epoch)
  | none =>
    match current.owner, current.ownerEpoch with
    | some currentOwner, some epoch =>
      throw (logicalShardAlreadyOwned current.logicalShardId currentOwner epoch)
    | some _, none => throw (ControlError.record (invalidRecord "owned shard is missing its owner epoch"))
    | none, _ => pure ()

def prepareOwnerAcquisition (current : LogicalShardRecord) (expected : Option OwnerEpoch) (owner : NodeId)
    (endpoint : String) (leaseId : UInt64) :
    Except ControlError (LogicalShardRecord × LogicalShardLease) := do
  validateRecord current
  validateEndpoint endpoint
  refuseIf (leaseId = 0) (ControlError.record (invalidRecord "active owner lease id must be non-zero"))
  refuseIf (current.ownerEpoch ≠ expected)
    (staleOwnerEpoch current.logicalShardId expected current.ownerEpoch)
  checkPreviousOwner current expected
  let nextEpoch ← nextOwnerEpoch current.logicalShardId expected
  let next := { current with
    owner := some owner
    ownerEpoch := some nextEpoch
    leaseId := leaseId
    state := .recovering
    endpoint := some endpoint }
  validateRecord next
  pure (next, ⟨current.logicalShardId, owner, nextEpoch, leaseId⟩)

/-- The record and the lease of an owner that takes up an unfinished recovery. -/
def prepareRecoveryReacquisition (current : LogicalShardRecord) (recoveryEpoch : OwnerEpoch)
    (owner : NodeId) (endpoint : String) (leaseId : UInt64) :
    Except ControlError (LogicalShardRecord × LogicalShardLease) := do
  validateRecord current
  validateEndpoint endpoint
  refuseIf (current.state ≠ .recovering) (recoveryStateConflict current.logicalShardId current.state)
  refuseIf (current.ownerEpoch ≠ some recoveryEpoch)
    (staleOwnerEpoch current.logicalShardId (some recoveryEpoch) current.ownerEpoch)
  refuseIf (leaseId = 0) (ControlError.record (invalidRecord "active owner lease id must be non-zero"))
  let next := { current with owner := some owner, leaseId := leaseId, endpoint := some endpoint }
  validateRecord next
  pure (next, ⟨current.logicalShardId, owner, recoveryEpoch, leaseId⟩)

def validateRecordLease (record : LogicalShardRecord) (lease : LogicalShardLease) :
    Except ControlError Unit := do
  refuseIf (record.owner ≠ some lease.owner) (notOwner lease.logicalShardId)
  refuseIf (record.logicalShardId ≠ lease.logicalShardId ∨ record.ownerEpoch ≠ some lease.ownerEpoch ∨
      record.leaseId ≠ lease.leaseId)
    (staleLease lease)

/-- The record of an owner that publishes its frontier and serves. -/
def prepareMarkServing (current : LogicalShardRecord) (lease : LogicalShardLease)
    (publication : RecoveryPublication) : Except ControlError LogicalShardRecord := do
  validateRecordLease current lease
  let next ← (applyRecoveryPublication current publication).mapError .record
  refuseIf (next.pendingRecoveryUpload ≠ none)
    (ControlError.record (recoveryUploadConflict current.logicalShardId
      "logical shard cannot become Serving with a pending recovery upload"))
  let next := { next with state := .serving }
  validateRecord next
  pure next

def prepareRecoveryUploadIntent (current : LogicalShardRecord) (lease : LogicalShardLease)
    (intent : RecoveryUploadIntent) : Except ControlError LogicalShardRecord := do
  validateRecordLease current lease
  (validateRecoveryUploadIntent current intent).mapError .record
  match current.pendingRecoveryUpload with
  | some pending => do
    refuseIf (pending ≠ intent)
      (ControlError.record (recoveryUploadConflict current.logicalShardId
        "another recovery upload intent is already pending"))
    pure current
  | none => do
    let next := { current with pendingRecoveryUpload := some intent }
    validateRecord next
    pure next

def prepareRecoveryUploadFinalization (current : LogicalShardRecord) (lease : LogicalShardLease)
    (expectedIntent : RecoveryUploadIntent) (publication : RecoveryPublication) :
    Except ControlError LogicalShardRecord := do
  let conflict := fun reason => ControlError.record (recoveryUploadConflict current.logicalShardId reason)
  validateRecordLease current lease
  (validateRecoveryUploadIntentShape expectedIntent).mapError conflict
  match current.pendingRecoveryUpload with
  | some actual => do
    refuseIf (actual ≠ expectedIntent)
      (conflict "pending recovery upload does not match finalization intent")
    (validateUploadPublication expectedIntent publication).mapError conflict
    let next ← (applyRecoveryPublication current publication).mapError .record
    let next := { next with pendingRecoveryUpload := none }
    validateRecord next
    pure next
  | none => do
    let completed ← (applyRecoveryPublication current publication).mapError .record
    refuseIf (¬ (completed = current ∧ recoveryUploadIsPublished current expectedIntent))
      (conflict "recovery upload intent is not pending and its publication is not current")
    pure current

def prepareRecoveryUploadAbort (current : LogicalShardRecord) (lease : LogicalShardLease)
    (expectedIntent : RecoveryUploadIntent) : Except ControlError LogicalShardRecord := do
  let conflict := fun reason => ControlError.record (recoveryUploadConflict current.logicalShardId reason)
  validateRecordLease current lease
  (validateRecoveryUploadIntentShape expectedIntent).mapError conflict
  match current.pendingRecoveryUpload with
  | some actual => do
    refuseIf (actual ≠ expectedIntent) (conflict "pending recovery upload does not match abort intent")
    refuseIf (current.state ≠ .recovering) (recoveryStateConflict current.logicalShardId current.state)
    let next := { current with pendingRecoveryUpload := none }
    validateRecord next
    pure next
  | none => do
    refuseIf (recoveryUploadIsPublished current expectedIntent = false)
      (conflict "recovery upload intent is neither pending nor exactly published")
    pure current

def prepareOwnerRelease (current : LogicalShardRecord) (lease : LogicalShardLease) :
    Except ControlError LogicalShardRecord := do
  validateRecordLease current lease
  refuseIf (current.pendingRecoveryUpload ≠ none)
    (ControlError.record (recoveryUploadConflict current.logicalShardId
      "owner cannot be released while a recovery upload is pending"))
  refuseIf (current.state = .recovering) (recoveryAttemptPending current.logicalShardId lease.ownerEpoch)
  let next := { current with owner := none, leaseId := 0, state := .unassigned, endpoint := none }
  validateRecord next
  pure next

/-- The record an owner keeps when it ends the session of an unfinished recovery. -/
def prepareRecoverySuspension (current : LogicalShardRecord) (lease : LogicalShardLease) :
    Except ControlError LogicalShardRecord := do
  validateRecordLease current lease
  refuseIf (current.state ≠ .recovering) (recoveryStateConflict current.logicalShardId current.state)
  pure current

/-! ### Acquisitions -/

/-- Some root that is not retired is placed on the shard. -/
def ensureRootPlacement (state : State) (shard : LogicalShardId) : Except ControlError Unit :=
  refuseIf (¬ state.rootPlacements.rows.any fun row =>
      row.2.logicalShardId = shard && row.2.lifecycle ≠ .retired)
    (rootPlacementRequired shard)

/-- The record of a shard that must exist. -/
def shardRecord (state : State) (shard : LogicalShardId) : Except ControlError LogicalShardRecord :=
  okOr (state.logicalShards.get shard) (logicalShardNotFound shard)

/-- The record an acquisition starts from. `allow` is the acquisition's own check. -/
def admitAcquisition (state : State) (shard : LogicalShardId) (endpoint : String)
    (allow : LogicalShardRecord → Except ControlError Unit) : Except ControlError LogicalShardRecord := do
  validateEndpoint endpoint
  ensureRootPlacement state shard
  let current ← shardRecord state shard
  allow current
  pure current

/-- Install a new lease: check, allocate a lease id, prepare the record, store it and its session. A
failed preparation keeps the allocated lease id. -/
def install (state : State) (shard : LogicalShardId) (endpoint : String)
    (allow : LogicalShardRecord → Except ControlError Unit)
    (prepare : LogicalShardRecord → UInt64 → Except ControlError (LogicalShardRecord × LogicalShardLease)) :
    Except ControlError LogicalShardLease × State :=
  match admitAcquisition state shard endpoint allow with
  | .error error => (.error error, state)
  | .ok current =>
    match checkedAdd state.nextLeaseId 1 with
    | none => (.error (leaseIdExhausted shard), state)
    | some leaseId =>
      let allocated := { state with nextLeaseId := leaseId }
      match prepare current leaseId with
      | .error error => (.error error, allocated)
      | .ok (next, lease) => (.ok lease, (allocated.putRecord shard next).putSession shard lease)

def acquireOwner (state : State) (shard : LogicalShardId) (owner : NodeId) (endpoint : String) :
    Except ControlError LogicalShardLease × State :=
  install state shard endpoint
    (fun current =>
      match current.owner, current.ownerEpoch with
      | some currentOwner, some epoch => throw (logicalShardAlreadyOwned shard currentOwner epoch)
      | _, _ => pure ())
    (fun current leaseId => prepareOwnerAcquisition current none owner endpoint leaseId)

/-- Acquire a shard behind the owner of the given epoch, whose session is gone. -/
def acquireSuccessor (state : State) (shard : LogicalShardId) (expectedEpoch : OwnerEpoch)
    (owner : NodeId) (endpoint : String) : Except ControlError LogicalShardLease × State :=
  install state shard endpoint
    (fun current => do
      refuseIf (current.ownerEpoch ≠ some expectedEpoch)
        (staleOwnerEpoch shard (some expectedEpoch) current.ownerEpoch)
      refuseIf (current.state = .recovering) (recoveryAttemptPending shard expectedEpoch)
      refuseIf (state.ownerSessions.get shard ≠ none) (previousOwnerSessionLive shard expectedEpoch))
    (fun current leaseId => prepareOwnerAcquisition current (some expectedEpoch) owner endpoint leaseId)

/-- Take up the unfinished recovery of the given epoch, whose session is gone. -/
def reacquireRecovery (state : State) (shard : LogicalShardId) (recoveryEpoch : OwnerEpoch)
    (owner : NodeId) (endpoint : String) : Except ControlError LogicalShardLease × State :=
  install state shard endpoint
    (fun current => do
      refuseIf (current.ownerEpoch ≠ some recoveryEpoch)
        (staleOwnerEpoch shard (some recoveryEpoch) current.ownerEpoch)
      refuseIf (state.ownerSessions.get shard ≠ none) (previousOwnerSessionLive shard recoveryEpoch))
    (fun current leaseId => prepareRecoveryReacquisition current recoveryEpoch owner endpoint leaseId)

/-! ### Calls of an owner -/

/-- The lease is the live session of its shard. -/
def validateInMemorySession (state : State) (lease : LogicalShardLease) : Except ControlError Unit :=
  refuseIf (state.ownerSessions.get lease.logicalShardId ≠ some lease) (staleLease lease)

/-- The record of the shard whose owner the lease proves to be. -/
def provedRecord (state : State) (lease : LogicalShardLease) : Except ControlError LogicalShardRecord := do
  let current ← shardRecord state lease.logicalShardId
  validateRecordLease current lease
  validateInMemorySession state lease
  pure current

def renewOwner (state : State) (lease : LogicalShardLease) : Except ControlError LogicalShardRecord :=
  provedRecord state lease

/-- Prove a lease without renewing it: the store renews. -/
def proveOwner (state : State) (lease : LogicalShardLease) : Except ControlError LogicalShardRecord :=
  renewOwner state lease

/-- A call that replaces the record of the owner it proves. -/
def replaceRecord (state : State) (lease : LogicalShardLease)
    (prepare : LogicalShardRecord → Except ControlError LogicalShardRecord) :
    Except ControlError (LogicalShardRecord × State) := do
  let current ← provedRecord state lease
  let next ← prepare current
  pure (next, state.putRecord lease.logicalShardId next)

def markServing (state : State) (lease : LogicalShardLease) (publication : RecoveryPublication) :
    Except ControlError (LogicalShardRecord × State) :=
  replaceRecord state lease fun current => prepareMarkServing current lease publication

def prepareRecoveryUpload (state : State) (lease : LogicalShardLease) (intent : RecoveryUploadIntent) :
    Except ControlError (LogicalShardRecord × State) :=
  replaceRecord state lease fun current => prepareRecoveryUploadIntent current lease intent

def finalizeRecoveryUpload (state : State) (lease : LogicalShardLease) (intent : RecoveryUploadIntent)
    (publication : RecoveryPublication) : Except ControlError (LogicalShardRecord × State) :=
  replaceRecord state lease fun current =>
    prepareRecoveryUploadFinalization current lease intent publication

def abortRecoveryUpload (state : State) (lease : LogicalShardLease) (intent : RecoveryUploadIntent) :
    Except ControlError (LogicalShardRecord × State) :=
  replaceRecord state lease fun current => prepareRecoveryUploadAbort current lease intent

def suspendRecovery (state : State) (lease : LogicalShardLease) :
    Except ControlError (LogicalShardRecord × State) := do
  let current ← shardRecord state lease.logicalShardId
  let retained ← prepareRecoverySuspension current lease
  match state.ownerSessions.get lease.logicalShardId with
  | none => pure (retained, state)
  | some session => do
    refuseIf (session ≠ lease) (staleLease lease)
    pure (retained, state.endSession lease.logicalShardId)

def releaseOwner (state : State) (lease : LogicalShardLease) :
    Except ControlError (LogicalShardRecord × State) := do
  let (next, stored) ← replaceRecord state lease fun current => prepareOwnerRelease current lease
  pure (next, stored.endSession lease.logicalShardId)

/-! ### Runs -/

/-- One call on the store, or a session that ends by itself. -/
inductive Op where
  | createRootPlacement (placement : RootPlacement)
  | compareAndSetRootPlacement (expected next : RootPlacement)
  | createLogicalShard (shard : LogicalShardId)
  | acquireOwner (shard : LogicalShardId) (owner : NodeId) (endpoint : String)
  | acquireSuccessor (shard : LogicalShardId) (expectedEpoch : OwnerEpoch) (owner : NodeId)
      (endpoint : String)
  | reacquireRecovery (shard : LogicalShardId) (recoveryEpoch : OwnerEpoch) (owner : NodeId)
      (endpoint : String)
  | renewOwner (lease : LogicalShardLease)
  | proveOwner (lease : LogicalShardLease)
  | markServing (lease : LogicalShardLease) (publication : RecoveryPublication)
  | prepareRecoveryUpload (lease : LogicalShardLease) (intent : RecoveryUploadIntent)
  | finalizeRecoveryUpload (lease : LogicalShardLease) (intent : RecoveryUploadIntent)
      (publication : RecoveryPublication)
  | abortRecoveryUpload (lease : LogicalShardLease) (intent : RecoveryUploadIntent)
  | suspendRecovery (lease : LogicalShardLease)
  | releaseOwner (lease : LogicalShardLease)
  | sessionLoss (shard : LogicalShardId)

inductive Answer where
  | placement (placement : RootPlacement)
  | record (record : LogicalShardRecord)
  | lease (lease : LogicalShardLease)
  | error (error : ControlError)
  | lost

/-- The outcome of a call that changes nothing when it fails. -/
def outcome {α : Type} (state : State) (wrap : α → Answer) :
    Except ControlError (α × State) → Answer × State
  | .error error => (.error error, state)
  | .ok (value, next) => (wrap value, next)

def acquired : Except ControlError LogicalShardLease × State → Answer × State
  | (.error error, next) => (.error error, next)
  | (.ok lease, next) => (.lease lease, next)

def step (state : State) : Op → Answer × State
  | .createRootPlacement placement => outcome state .placement (createRootPlacement state placement)
  | .compareAndSetRootPlacement expected next =>
    outcome state .placement (compareAndSetRootPlacement state expected next)
  | .createLogicalShard shard => outcome state .record (createLogicalShard state shard)
  | .acquireOwner shard owner endpoint => acquired (acquireOwner state shard owner endpoint)
  | .acquireSuccessor shard epoch owner endpoint =>
    acquired (acquireSuccessor state shard epoch owner endpoint)
  | .reacquireRecovery shard epoch owner endpoint =>
    acquired (reacquireRecovery state shard epoch owner endpoint)
  | .renewOwner lease => outcome state .record ((·, state) <$> renewOwner state lease)
  | .proveOwner lease => outcome state .record ((·, state) <$> proveOwner state lease)
  | .markServing lease publication => outcome state .record (markServing state lease publication)
  | .prepareRecoveryUpload lease intent =>
    outcome state .record (prepareRecoveryUpload state lease intent)
  | .finalizeRecoveryUpload lease intent publication =>
    outcome state .record (finalizeRecoveryUpload state lease intent publication)
  | .abortRecoveryUpload lease intent => outcome state .record (abortRecoveryUpload state lease intent)
  | .suspendRecovery lease => outcome state .record (suspendRecovery state lease)
  | .releaseOwner lease => outcome state .record (releaseOwner state lease)
  | .sessionLoss shard => (.lost, state.endSession shard)

def run (state : State) : List Op → State
  | [] => state
  | op :: ops => run (step state op).2 ops

/-- The leases a sequence of steps grants, in order. -/
def granted (state : State) : List Op → List LogicalShardLease
  | [] => []
  | op :: ops =>
    (match (step state op).1 with
      | .lease lease => [lease]
      | _ => []) ++ granted (step state op).2 ops

@[simp] lemma run_append (state : State) (ops rest : List Op) :
    run state (ops ++ rest) = run (run state ops) rest := by
  induction ops generalizing state with
  | nil => rfl
  | cons _ _ ih => exact ih _

end NoKV.Control
