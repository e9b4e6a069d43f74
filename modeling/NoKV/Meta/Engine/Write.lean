import NoKV.Meta.Engine.Command

/-!
# Writes of the metadata shard

The three write entrypoints and the sessions that run them. An entrypoint is a read program that
either answers at once or plans one transaction; a session runs the plan and submits the transaction
while no other session of the shard is active. `Faults` are the ways in which the store may fail a
session: a submission may be lost, may apply without being acknowledged, or the acknowledgement that
ends the session may fail.
-/

namespace NoKV.Meta

open Lib Store
open Prog hiding bind pure get

/-- What a write entrypoint decided from its reads: the answer, or a transaction with its answer for
each definite outcome. -/
inductive Planned (α : Type) where
  | done (result : α)
  | commit (operation : String) (txn : WriteTxn) (applied : α) (conflict : Shard α)

/-- The answers of a plan, seen through `f`. -/
def Planned.map {α β : Type} (f : α → β) : Planned α → Planned β
  | done result => .done (f result)
  | commit operation txn applied conflict => .commit operation txn (f applied) (f <$> conflict)

/-! ### Admission -/

section Programs

variable [Pager]

def admitSchema : Shard Bytes := do
  let schema ← requiredValue SYSTEM.id SYSTEM_SCHEMA_KEY "System(schema)"
  liftM ((validateSchemaMarker schema).mapError fun error => MetaError.schemaGate error.display)
  return schema

def admitShard (expected : LogicalShardId) : Shard Bytes := do
  let shard ← requiredValue SYSTEM.id SYSTEM_SHARD_IDENTITY_KEY "System(shard_identity)"
  let actual ← liftM (decodeShardIdentity shard)
  refuseIf (actual ≠ expected) MetaError.placementMismatch
  return shard

/-- A system counter, raw and decoded. -/
def requiredU64 (key : Bytes) (record : String) : Shard (Bytes × UInt64) := do
  let raw ← requiredValue SYSTEM.id key record
  let value ← liftM (decodeSystemU64 raw record)
  return (raw, value)

/-- The lease clock a command with a deadline was admitted at. -/
def admitDeadline : Option UInt64 → Shard (Option Bytes)
  | none => return none
  | some requestedDeadlineMs => do
    let (clock, leaseClockMs) ← requiredU64 SYSTEM_LEASE_CLOCK_HIGH_WATER_KEY
      "System(lease_clock_high_water)"
    refuseIf (requestedDeadlineMs.toNat ≤ leaseClockMs.toNat)
      (MetaError.leaseDeadlineReached leaseClockMs.toNat requestedDeadlineMs.toNat)
    return some clock

/-- The root fence of a lease observation. -/
def admitRootFence (shard : LogicalShardId) (rootId : RootId)
    (placementGeneration : PlacementGeneration) : Shard Bytes := do
  let rootFence ← readValue ROOT_FENCE.id rootId.bytes "read RootFence"
  let rootFence ← okOr rootFence MetaError.rootFenceMissing
  let fence ← liftM (corruptValue "RootFence" (RootFence.decode rootFence))
  refuseIf (fence.logicalShardId ≠ shard ∨ fence.placementGeneration ≠ placementGeneration)
    MetaError.placementMismatch
  refuseIf (fence.activationState ≠ .active)
    (MetaError.rootFenceStateMismatch .active fence.activationState)
  return rootFence

/-! ### The entrypoints -/

/-- The version a command commits at, and the rows that decide it. -/
def nextCommitVersion (command : MetadataCommand) : Shard (Bytes × CommitVersion) := do
  let (clock, currentVersion) ← requiredU64 SYSTEM_COMMIT_CLOCK_KEY "System(commit_clock)"
  refuseIf (command.readVersion.val ≠ currentVersion)
    (MetaError.writeReadVersionMismatch command.readVersion.get currentVersion.toNat)
  let nextVersionRaw ← okOr (checkedAdd currentVersion 1) MetaError.versionOverflow
  let nextVersion ← okOr (NonZeroU64.new nextVersionRaw) MetaError.versionOverflow
  return (clock, nextVersion)

variable [Sha256]

/-- The rows a fresh command is planned from. -/
def planCommand (command : MetadataCommand) (leaseDeadlineMs : Option UInt64) :
    Shard CommandTxnState := do
  let schema ← admitSchema
  let shard ← admitShard command.logicalShardId
  let (owner, actualOwner) ← requiredU64 SYSTEM_OWNER_FENCE_KEY "System(owner_fence)"
  refuseIf (actualOwner ≠ command.ownerEpoch.val)
    (MetaError.ownerEpochMismatch command.ownerEpoch.get actualOwner.toNat)
  let (clock, nextVersion) ← nextCommitVersion command
  let rootPlan ← planRootFence command
  let leaseClock ← admitDeadline leaseDeadlineMs
  let predicatePlan ← planPredicates command
  liftM (validateHistoryProjection command predicatePlan)
  let recovery ← planRecovery (.metadataCommand command leaseDeadlineMs)
    (.metadataCommand nextVersion command.deterministicResult)
  return ⟨nextVersion, schema, shard, owner, clock, leaseClock, rootPlan, predicatePlan, recovery⟩

/-- The answer after a conflict: another copy of the request may have been applied. -/
def resolveConflict (dedupeKey : Bytes) (digest : CommandDigest) : Shard MetadataCommandResult := do
  let replayed ← replayedResult dedupeKey digest
  okOr replayed MetaError.writeConflict

def executeUnlocked (command : MetadataCommand) (leaseDeadlineMs : Option UInt64) :
    Shard (Planned MetadataCommandResult) := do
  let dedupeKey := commandDedupeKey command.rootId command.requestId
  match ← replayedResult dedupeKey command.commandDigest with
  | some result => return .done result
  | none =>
    let state ← planCommand command leaseDeadlineMs
    let txn ← liftM (buildCommandTxn command state)
    return .commit "execute metadata command" txn
      ⟨state.nextVersion, command.deterministicResult, state.recovery.row.recoveryLsn,
        state.recovery.row.chainDigest, false⟩
      (resolveConflict dedupeKey command.commandDigest)

def executeWithLeaseDeadline (shard : LogicalShardId) (command : MetadataCommand)
    (leaseDeadlineMs : Option UInt64) : Shard (Planned MetadataCommandResult) := do
  liftM (validateCommand shard command)
  refuseIf (command.commandDigest ≠ command.canonicalDigest) MetaError.commandDigestMismatch
  executeUnlocked command leaseDeadlineMs

def observeLeaseClock (shard : LogicalShardId) (rootId : RootId)
    (placementGeneration : PlacementGeneration) (ownerEpoch : OwnerEpoch) (observedMs : UInt64) :
    Shard (Planned UInt64) := do
  let schema ← admitSchema
  let identity ← admitShard shard
  let (owner, actualOwner) ← requiredU64 SYSTEM_OWNER_FENCE_KEY "System(owner_fence)"
  refuseIf (actualOwner ≠ ownerEpoch.val)
    (MetaError.ownerEpochMismatch ownerEpoch.get actualOwner.toNat)
  let rootFence ← admitRootFence shard rootId placementGeneration
  let (clock, current) ← requiredU64 SYSTEM_LEASE_CLOCK_HIGH_WATER_KEY
    "System(lease_clock_high_water)"
  if observedMs.toNat ≤ current.toNat then return .done current
  else do
    let recovery ← planRecovery
      (.observeLeaseClock rootId placementGeneration ownerEpoch observedMs) (.leaseClock observedMs)
    return .commit "advance lease clock"
      (enqueueRecovery {
        checks := [
          valueCheck SYSTEM.id SYSTEM_SCHEMA_KEY schema,
          valueCheck SYSTEM.id SYSTEM_SHARD_IDENTITY_KEY identity,
          valueCheck SYSTEM.id SYSTEM_OWNER_FENCE_KEY owner,
          valueCheck ROOT_FENCE.id rootId.bytes rootFence,
          valueCheck SYSTEM.id SYSTEM_LEASE_CLOCK_HIGH_WATER_KEY clock]
        mutations := [.put (systemKey SYSTEM_LEASE_CLOCK_HIGH_WATER_KEY) (encodeSystemU64 observedMs)] }
        recovery)
      observedMs (throw MetaError.writeConflict)

def advanceOwnerEpoch (shard : LogicalShardId) (expected : Option OwnerEpoch) (next : OwnerEpoch) :
    Shard (Planned Unit) := do
  let expectedRaw : UInt64 := (expected.map NonZeroU64.val).getD 0
  let schema ← admitSchema
  let identity ← admitShard shard
  let (owner, current) ← requiredU64 SYSTEM_OWNER_FENCE_KEY "System(owner_fence)"
  if current = next.val then return .done ()
  else do
    refuseIf (current ≠ expectedRaw)
      (MetaError.ownerEpochMismatch expectedRaw.toNat current.toNat)
    refuseIf (next.get ≤ current.toNat) (MetaError.ownerEpochNotMonotonic current.toNat next.get)
    let recovery ← planRecovery (.advanceOwnerEpoch expected next) (.ownerEpoch next)
    return .commit "advance owner epoch"
      (enqueueRecovery {
        checks := [
          valueCheck SYSTEM.id SYSTEM_SCHEMA_KEY schema,
          valueCheck SYSTEM.id SYSTEM_SHARD_IDENTITY_KEY identity,
          valueCheck SYSTEM.id SYSTEM_OWNER_FENCE_KEY owner]
        mutations := [.put (systemKey SYSTEM_OWNER_FENCE_KEY) (encodeSystemU64 next.val)] } recovery)
      () (throw MetaError.writeConflict)

end Programs

/-! ### Sessions -/

/-- How the store fails a session: the submission is lost (applied or not), and the wait for the
acknowledgement or the durability barrier at the end of the session fails. -/
structure Faults where
  submit : Option (StoreError × Bool)
  settle : Option MetaError

/-- A store that answers. -/
def Faults.none : Faults := ⟨.none, .none⟩

def submit {α : Type} (s : State) (fault : Option (StoreError × Bool)) (operation : String)
    (txn : WriteTxn) (applied : α) (conflict : Shard α) : Except MetaError α × State :=
  match txn.validate storeLimits with
  | .error error => (.error (.store operation error), s)
  | .ok () =>
    match fault, s.commit txn with
    | some (error, isApplied), outcome =>
      (.error (.store operation error), if isApplied then outcome.2 else s)
    | none, (.applied, s') => (.ok applied, s')
    | none, (.conflict, s') => (conflict.runAt s', s')

/-- Run one entrypoint and submit what it planned. -/
def attempt {α : Type} (fault : Option (StoreError × Bool)) (work : Shard (Planned α)) (s : State) :
    Except MetaError α × State :=
  match work.runAt s with
  | .error error => (.error error, s)
  | .ok (.done result) => (.ok result, s)
  | .ok (.commit operation txn applied conflict) => submit s fault operation txn applied conflict

/-- Run one entrypoint as one sequenced write session. -/
def writeSession {α : Type} (faults : Faults) (work : Shard (Planned α)) (s : State) :
    Except MetaError α × State :=
  match faults.settle with
  | some error => (.error error, (attempt faults.submit work s).2)
  | none => attempt faults.submit work s

/-! ### Runs -/

inductive Call where
  | execute (command : MetadataCommand) (leaseDeadlineMs : Option UInt64)
  | observeLeaseClock (rootId : RootId) (placementGeneration : PlacementGeneration)
      (ownerEpoch : OwnerEpoch) (observedMs : UInt64)
  | advanceOwnerEpoch (expected : Option OwnerEpoch) (next : OwnerEpoch)

inductive Reply where
  | command (result : MetadataCommandResult)
  | leaseClock (effectiveHighWaterMs : UInt64)
  | ownerEpoch
  deriving DecidableEq

def Call.plan [Pager] [Sha256] (shard : LogicalShardId) : Call → Shard (Planned Reply)
  | execute command leaseDeadlineMs =>
    Planned.map .command <$> executeWithLeaseDeadline shard command leaseDeadlineMs
  | observeLeaseClock rootId placementGeneration ownerEpoch observedMs =>
    Planned.map .leaseClock <$>
      Meta.observeLeaseClock shard rootId placementGeneration ownerEpoch observedMs
  | advanceOwnerEpoch expected next =>
    Planned.map (fun _ => .ownerEpoch) <$> Meta.advanceOwnerEpoch shard expected next

/-- The recovery input that a call is recorded as. -/
def Call.mutation : Call → RecoveryMutationV1
  | execute command leaseDeadlineMs => .metadataCommand command leaseDeadlineMs
  | observeLeaseClock rootId placementGeneration ownerEpoch observedMs =>
    .observeLeaseClock rootId placementGeneration ownerEpoch observedMs
  | advanceOwnerEpoch expected next => .advanceOwnerEpoch expected next

/-- A call and what the store does to its session. -/
structure Request where
  call : Call
  faults : Faults

def serve [Pager] [Sha256] (shard : LogicalShardId) (s : State) (request : Request) :
    Except MetaError Reply × State :=
  writeSession request.faults (request.call.plan shard) s

def systemBootstrapRows [Sha256] (shard : LogicalShardId) : List (Bytes × Bytes) := [
  (SYSTEM_SCHEMA_KEY, encodeSchemaMarker),
  (SYSTEM_SHARD_IDENTITY_KEY, encodeShardIdentity shard),
  (SYSTEM_OWNER_FENCE_KEY, encodeSystemU64 0),
  (SYSTEM_COMMIT_CLOCK_KEY, encodeSystemU64 INITIAL_COMMIT_VERSION),
  (SYSTEM_LEASE_CLOCK_HIGH_WATER_KEY, encodeSystemU64 0),
  (SYSTEM_APPLIED_RECOVERY_LSN_KEY, encodeSystemU64 0),
  (SYSTEM_RECOVERY_CHAIN_DIGEST_KEY, encodeSystemDigest (recoveryGenesisDigest shard))]

/-- The transaction that initializes an empty store. -/
def initializeTxn [Sha256] (shard : LogicalShardId) : WriteTxn where
  checks := keyspaces.map (fun definition => .emptyPrefix definition.id []) ++
    (systemBootstrapRows shard).map fun row => .absent (systemKey row.1)
  mutations := (systemBootstrapRows shard).map fun row => .put (systemKey row.1) row.2

/-- The rows of a freshly initialized shard. -/
def initialized [Sha256] (shard : LogicalShardId) : State := (State.empty.commit (initializeTxn shard)).2

def serveAll [Pager] [Sha256] (shard : LogicalShardId) (s : State) (requests : List Request) : State :=
  requests.foldl (fun s request => (serve shard s request).2) s

/-- The states a run passes through. -/
def Along [Pager] [Sha256] (shard : LogicalShardId) (requests : List Request) (s : State) : Prop :=
  ∃ pre, pre <+: requests ∧ s = serveAll shard (initialized shard) pre

/-! ### What an applied transaction was planned from -/

section Inversion

variable [Pager] {s : State} {command : MetadataCommand}

lemma admitSchema_eq_ok {schema : Bytes} (h : admitSchema.runAt s = .ok schema) :
    s.get (systemKey SYSTEM_SCHEMA_KEY) = some schema ∧ schema = encodeSchemaMarker := by
  unfold admitSchema at h
  simp only [runAt_bind, runAt_liftM, runAt_pure] at h
  obtain ⟨_, hvalue, h⟩ := bind_eq_ok.1 h
  obtain ⟨_, hmarker, rfl⟩ := bind_pure_eq_ok h
  exact ⟨requiredValue_eq_ok hvalue, validateSchemaMarker_eq_ok (mapError_eq_ok.1 hmarker)⟩

lemma admitShard_eq_ok {expected : LogicalShardId} {shard : Bytes}
    (h : (admitShard expected).runAt s = .ok shard) :
    s.get (systemKey SYSTEM_SHARD_IDENTITY_KEY) = some shard ∧ shard = encodeShardIdentity expected := by
  unfold admitShard at h
  simp only [runAt_bind, runAt_liftM, runAt_refuseIf, runAt_pure] at h
  obtain ⟨_, hvalue, h⟩ := bind_eq_ok.1 h
  obtain ⟨_, hactual, h⟩ := bind_eq_ok.1 h
  obtain ⟨heq, h⟩ := refuseIf_not_bind h
  cases pure_eq_ok.1 h
  refine ⟨requiredValue_eq_ok hvalue, ?_⟩
  rw [systemPayload_eq_ok hactual, heq]
  rfl

lemma requiredU64_eq_ok {key : Bytes} {record : String} {raw : Bytes} {value : UInt64}
    (h : (requiredU64 key record).runAt s = .ok (raw, value)) :
    s.get (systemKey key) = some raw ∧ raw = encodeSystemU64 value := by
  unfold requiredU64 at h
  simp only [runAt_bind, runAt_liftM, runAt_pure] at h
  obtain ⟨_, hraw, h⟩ := bind_eq_ok.1 h
  obtain ⟨_, hvalue, ⟨⟩⟩ := bind_pure_eq_ok h
  exact ⟨requiredValue_eq_ok hraw, decodeSystemU64_eq_ok hvalue⟩

lemma nextCommitVersion_eq_ok {clock : Bytes} {nextVersion : CommitVersion}
    (h : (nextCommitVersion command).runAt s = .ok (clock, nextVersion)) :
    s.get (systemKey SYSTEM_COMMIT_CLOCK_KEY) = some clock ∧
      clock = encodeSystemU64 command.readVersion.val ∧
      nextVersion.get = command.readVersion.get + 1 := by
  unfold nextCommitVersion at h
  simp only [runAt_bind, runAt_refuseIf, runAt_okOr, runAt_pure] at h
  obtain ⟨⟨_, current⟩, hclock, h⟩ := bind_eq_ok.1 h
  obtain ⟨hversion, h⟩ := refuseIf_not_bind h
  obtain ⟨_, hraw, h⟩ := bind_eq_ok.1 h
  obtain ⟨_, hnext, ⟨⟩⟩ := bind_pure_eq_ok h
  obtain ⟨hget, hraw'⟩ := requiredU64_eq_ok hclock
  have hcurrent : command.readVersion.val = current := hversion
  refine ⟨hget, hcurrent ▸ hraw', ?_⟩
  have hsucc := checkedAdd_eq_some.1 (okOr_eq_ok.1 hraw)
  unfold NonZeroU64.get
  rw [NonZeroU64.new_eq_some (okOr_eq_ok.1 hnext), hsucc, hcurrent]

variable [Sha256]

/-- The rows a command was planned from, and what was derived from them. -/
structure CommandTxnState.PlannedAt (s : State) (command : MetadataCommand)
    (leaseDeadlineMs : Option UInt64) (state : CommandTxnState) : Prop where
  schema : s.get (systemKey SYSTEM_SCHEMA_KEY) = some state.schema
  shard : s.get (systemKey SYSTEM_SHARD_IDENTITY_KEY) = some state.shard
  shard_eq : state.shard = encodeShardIdentity command.logicalShardId
  owner : s.get (systemKey SYSTEM_OWNER_FENCE_KEY) = some state.owner
  owner_eq : state.owner = encodeSystemU64 command.ownerEpoch.val
  clock : s.get (systemKey SYSTEM_COMMIT_CLOCK_KEY) = some state.clock
  clock_eq : state.clock = encodeSystemU64 command.readVersion.val
  next_eq : state.nextVersion.get = command.readVersion.get + 1
  root : rootFencePlan command (s.get ⟨ROOT_FENCE.id, command.rootId.bytes⟩) = .ok state.rootPlan
  predicates : state.predicatePlan.PlannedAt s command
  history : validateHistoryProjection command state.predicatePlan = .ok ()
  recovery : (planRecovery (.metadataCommand command leaseDeadlineMs)
    (.metadataCommand state.nextVersion command.deterministicResult)).runAt s = .ok state.recovery

lemma planCommand_eq_ok {leaseDeadlineMs : Option UInt64} {state : CommandTxnState}
    (h : (planCommand command leaseDeadlineMs).runAt s = .ok state) :
    state.PlannedAt s command leaseDeadlineMs := by
  unfold planCommand at h
  simp only [runAt_bind, runAt_refuseIf, runAt_liftM, runAt_pure] at h
  obtain ⟨_, hschema, h⟩ := bind_eq_ok.1 h
  obtain ⟨_, hshard, h⟩ := bind_eq_ok.1 h
  obtain ⟨⟨_, actualOwner⟩, howner, h⟩ := bind_eq_ok.1 h
  obtain ⟨hepoch, h⟩ := refuseIf_not_bind h
  obtain ⟨⟨_, _⟩, hclock, h⟩ := bind_eq_ok.1 h
  obtain ⟨_, hroot, h⟩ := bind_eq_ok.1 h
  obtain ⟨_, _, h⟩ := bind_eq_ok.1 h
  obtain ⟨_, hpredicates, h⟩ := bind_eq_ok.1 h
  obtain ⟨_, hhistory, h⟩ := bind_eq_ok.1 h
  obtain ⟨_, hrecovery, rfl⟩ := bind_pure_eq_ok h
  obtain ⟨hownerGet, hownerRaw⟩ := requiredU64_eq_ok howner
  obtain ⟨hclockGet, hclockRaw, hnext⟩ := nextCommitVersion_eq_ok hclock
  have hepoch' : actualOwner = command.ownerEpoch.val := hepoch
  exact ⟨(admitSchema_eq_ok hschema).1, (admitShard_eq_ok hshard).1, (admitShard_eq_ok hshard).2,
    hownerGet, hepoch' ▸ hownerRaw, hclockGet, hclockRaw, hnext, planRootFence_eq_ok hroot,
    planPredicates_eq_ok hpredicates, hhistory, hrecovery⟩

end Inversion

end NoKV.Meta
