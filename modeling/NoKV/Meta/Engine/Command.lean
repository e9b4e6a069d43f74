import Mathlib.Data.Prod.Lex
import NoKV.Meta.Engine.Recovery

/-!
# Planning a metadata command

Validation of the command itself, the plan made from the rows it reads, and the transaction derived
from the plan. Every row the plan was made from is checked again by the transaction.
-/

namespace NoKV.Meta

open Lib Store List
open Prog hiding bind pure get

/-! ### Keys of derived rows -/

def historyPrefix (family : MetadataFamily) (key : Bytes) : Bytes :=
  List.flatten [[family.formatTag], be 4 key.length, key]

def historyKey (family : MetadataFamily) (key : Bytes) (transitionVersion : CommitVersion) : Bytes :=
  historyPrefix family key ++ be 8 (~~~transitionVersion.val).toNat

def changeEventKey (root : RootId) (version : CommitVersion) (sequence : ℕ) : Bytes :=
  List.flatten [root.bytes, be 8 version.get, be 4 sequence]

/-! ### Validation of the command -/

def validateRootScopedBytes (root : RootId) (value : Bytes) (kind : String) :
    Except MetaError Unit := do
  refuseIf (MAX_COMMAND_KEY_BYTES < value.length) (invalid s!"{kind} exceeds size bound")
  refuseIf (root.bytes.isPrefixOf value = false) (invalid s!"{kind} is outside command root")

def validateValueBytes (value : Bytes) (kind : String) : Except MetaError Unit :=
  refuseIf (MAX_COMMAND_VALUE_BYTES < value.length) (invalid s!"{kind} exceeds size bound")

def validateCount (name : String) (count : ℕ) : Except MetaError Unit :=
  refuseIf (MAX_COMMAND_ITEMS < count) (invalid s!"{name} count {count} exceeds {MAX_COMMAND_ITEMS}")

def validatePredicate (root : RootId) : CommandPredicate → Except MetaError Unit
  | .value _ key expected => do
    validateRootScopedBytes root key "predicate key"
    match expected with
    | some value => validateValueBytes value "predicate value"
    | none => .ok ()
  | .prefixEmpty _ keyPrefix => validateRootScopedBytes root keyPrefix "predicate prefix"

def validateMutationValue : CommandMutation → Except MetaError Unit
  | .put _ _ value => validateValueBytes value "mutation value"
  | .delete _ _ => .ok ()

/-- The mutations, given those already seen. -/
def validateCommandMutations (root : RootId) :
    List CommandMutation → List (MetadataFamily × Bytes) → Except MetaError Unit
  | [], _ => .ok ()
  | mutation :: rest, mutationKeys => do
    validateRootScopedBytes root mutation.key "mutation key"
    refuseIf ((mutation.family, mutation.key) ∈ mutationKeys) (invalid "duplicate mutation key")
    validateMutationValue mutation
    validateCommandMutations root rest ((mutation.family, mutation.key) :: mutationKeys)

def validateCommand (shard : LogicalShardId) (command : MetadataCommand) : Except MetaError Unit := do
  refuseIf (command.schemaId ≠ SCHEMA_ID)
    (MetaError.schemaGate s!"expected schema {SCHEMA_ID}, found {command.schemaId}")
  refuseIf (command.logicalShardId ≠ shard) MetaError.placementMismatch
  refuseIf (command.objectNamespaceId = none)
    (invalid "metadata command requires an object namespace identity")
  validateCount "predicates" command.predicates.length
  validateCount "mutations" command.mutations.length
  validateCount "history projections" command.historyProjection.length
  validateCount "event projections" command.eventProjection.length
  refuseIf (MAX_DETERMINISTIC_RESULT_BYTES < command.deterministicResult.length)
    (invalid "deterministic result exceeds size bound")
  refuseIf (command.rootFenceAction ≠ .requireActive ∧ (command.predicates ≠ [] ∨
    command.mutations ≠ [] ∨ command.historyProjection ≠ [] ∨ command.eventProjection ≠ []))
    (invalid "root-fence installation/transition cannot carry domain mutations")
  command.predicates.forM (validatePredicate command.rootId)
  validateCommandMutations command.rootId command.mutations []
  command.historyProjection.forM fun projection =>
    validateRootScopedBytes command.rootId projection.key "history key"
  refuseIf (command.eventProjection.any fun event => MAX_EVENT_BYTES < event.payload.length)
    (invalid "event projection exceeds size bound")

/-- What a validated command satisfies. -/
structure MetadataCommand.Valid (shard : LogicalShardId) (command : MetadataCommand) : Prop where
  shard_eq : command.logicalShardId = shard
  fenceOnly : command.rootFenceAction ≠ .requireActive → command.mutations = []
  predicates : ∀ p ∈ command.predicates, validatePredicate command.rootId p = .ok ()
  key_le : ∀ m ∈ command.mutations, m.key.length ≤ MAX_COMMAND_KEY_BYTES
  inRoot : ∀ m ∈ command.mutations, command.rootId.bytes.isPrefixOf m.key = true
  nodup : (command.mutations.map fun m => (m.family, m.key)).Nodup
  events_le : command.eventProjection.length ≤ MAX_COMMAND_ITEMS

lemma validateRootScopedBytes_eq_ok {root : RootId} {value : Bytes} {kind : String} {u : Unit} :
    validateRootScopedBytes root value kind = .ok u ↔
      value.length ≤ MAX_COMMAND_KEY_BYTES ∧ root.bytes.isPrefixOf value = true := by
  unfold validateRootScopedBytes
  rw [bind_eq_ok]
  constructor
  · rintro ⟨_, hle, hscope⟩
    exact ⟨not_lt.1 (refuseIf_eq_ok.1 hle), by simpa using refuseIf_eq_ok.1 hscope⟩
  · rintro ⟨hle, hscope⟩
    exact ⟨(), refuseIf_of_not (not_lt.2 hle), refuseIf_of_not (by simp [hscope])⟩

lemma validateCommandMutations_eq_ok {root : RootId} {mutations : List CommandMutation}
    {keys : List (MetadataFamily × Bytes)}
    (h : validateCommandMutations root mutations keys = .ok ()) :
    (∀ m ∈ mutations, m.key.length ≤ MAX_COMMAND_KEY_BYTES ∧ root.bytes.isPrefixOf m.key = true ∧
      (m.family, m.key) ∉ keys) ∧ (mutations.map fun m => (m.family, m.key)).Nodup := by
  induction mutations generalizing keys with
  | nil => simp
  | cons _ _ ih =>
    obtain ⟨_, hkey, h⟩ := bind_eq_ok.1 h
    obtain ⟨hfresh, h⟩ := refuseIf_bind h
    replace h := ok_of_bind h
    obtain ⟨hrest, hnd⟩ := ih h
    obtain ⟨hle, hscope⟩ := validateRootScopedBytes_eq_ok.1 hkey
    refine ⟨fun m' hm' => ?_, ?_⟩
    · rcases mem_cons.1 hm' with rfl | hm'
      · exact ⟨hle, hscope, hfresh⟩
      · obtain ⟨hle', hscope', hnot⟩ := hrest m' hm'
        exact ⟨hle', hscope', fun hmem => hnot (mem_cons_of_mem _ hmem)⟩
    · rw [map_cons, nodup_cons]
      refine ⟨fun hmem => ?_, hnd⟩
      obtain ⟨m', hm', heq⟩ := mem_map.1 hmem
      exact (hrest m' hm').2.2 (heq ▸ mem_cons_self ..)

variable {command : MetadataCommand} {s : State}

lemma validateCommand_spec {shard : LogicalShardId} (h : validateCommand shard command = .ok ()) :
    command.Valid shard ∧ command.objectNamespaceId.isSome ∧
      (command.rootFenceAction ≠ .requireActive → command.eventProjection = []) := by
  replace h := ok_of_bind h
  obtain ⟨hshard, h⟩ := refuseIf_not_bind h
  obtain ⟨hnamespace, h⟩ := refuseIf_bind h
  replace h := ok_of_bind h
  replace h := ok_of_bind h
  replace h := ok_of_bind h
  obtain ⟨hevents, h⟩ := refuseIf_bind h
  replace h := ok_of_bind h
  obtain ⟨_, hfence, h⟩ := bind_eq_ok.1 h
  obtain ⟨_, hpredicates, h⟩ := bind_eq_ok.1 h
  obtain ⟨_, hmutations, h⟩ := bind_eq_ok.1 h
  obtain ⟨hmut, hnd⟩ := validateCommandMutations_eq_ok hmutations
  have hfence := refuseIf_eq_ok.1 hfence
  push Not at hfence
  exact ⟨⟨hshard, fun hne => (hfence hne).2.1, forM_eq_ok.1 hpredicates,
    fun m hm => (hmut m hm).1, fun m hm => (hmut m hm).2.1, hnd, not_lt.1 hevents⟩,
    Option.isSome_iff_ne_none.2 hnamespace, fun hne => (hfence hne).2.2.2⟩

lemma validateCommand_eq_ok {shard : LogicalShardId} (h : validateCommand shard command = .ok ()) :
    command.Valid shard := (validateCommand_spec h).1

/-! ### The root fence -/

inductive RootFencePlan where
  | install (value : Bytes)
  | assert (expected : Bytes)
  | replace (expected value : Bytes)

def validateRootPlacementIdentity (command : MetadataCommand) (fence : RootFence) :
    Except MetaError Unit :=
  refuseIf (¬ (fence.logicalShardId = command.logicalShardId ∧
    fence.placementGeneration = command.placementGeneration)) MetaError.placementMismatch

def validateRootPlacement (command : MetadataCommand) (fence : RootFence) : Except MetaError Unit :=
  refuseIf (¬ (validateRootPlacementIdentity command fence = .ok () ∧
    fence.objectNamespaceId = command.objectNamespaceId)) MetaError.placementMismatch

def validRootTransition (origin target : RootActivationState) : Bool :=
  match origin, target with
  | .installing, .active => true
  | .active, .draining => true
  | .active, .fenced => true
  | .draining, .fenced => true
  | _, _ => false

/-- The bytes of a fence, which always fits its fixed format. -/
def encodeFence (fence : RootFence) : Except MetaError Bytes := corruptValue "RootFence" fence.encode

/-- The fence row a command plans against, decoded. -/
def currentFence (current : Option Bytes) : Except MetaError (Bytes × RootFence) := do
  let current ← okOr current MetaError.rootFenceMissing
  let fence ← corruptValue "RootFence" (RootFence.decode current)
  return (current, fence)

def rootFencePlan (command : MetadataCommand) (current : Option Bytes) :
    Except MetaError RootFencePlan :=
  match command.rootFenceAction with
  | .install => do
    refuseIf current.isSome MetaError.rootFenceAlreadyInstalled
    let value ← encodeFence ⟨command.logicalShardId, command.objectNamespaceId,
      command.placementGeneration, .installing⟩
    return .install value
  | .bindObjectNamespace expected => do
    let (current, fence) ← currentFence current
    validateRootPlacementIdentity command fence
    refuseIf (fence.activationState ≠ expected)
      (MetaError.rootFenceStateMismatch expected fence.activationState)
    let objectNamespaceId ← okOr command.objectNamespaceId
      (invalid "object namespace binding requires a namespace id")
    match fence.objectNamespaceId with
    | none => do
      let value ← encodeFence { fence with objectNamespaceId := some objectNamespaceId }
      return .replace current value
    | some actual =>
      if actual = objectNamespaceId then return .assert current
      else throw MetaError.placementMismatch
  | .requireActive => do
    let (current, fence) ← currentFence current
    validateRootPlacement command fence
    refuseIf (fence.activationState ≠ .active)
      (MetaError.rootFenceStateMismatch .active fence.activationState)
    return .assert current
  | .transition expected next => do
    refuseIf (validRootTransition expected next = false)
      (MetaError.invalidRootFenceTransition expected next)
    let (current, fence) ← currentFence current
    validateRootPlacement command fence
    refuseIf (fence.activationState ≠ expected)
      (MetaError.rootFenceStateMismatch expected fence.activationState)
    let value ← encodeFence { fence with activationState := next }
    return .replace current value

def planRootFence [Pager] (command : MetadataCommand) : Shard RootFencePlan := do
  let current ← readValue ROOT_FENCE.id command.rootId.bytes "read RootFence"
  liftM (rootFencePlan command current)

/-! ### Predicates -/

structure PlannedExactPredicate where
  family : MetadataFamily
  key : Bytes
  current : Option CurrentValue
  raw : Option Bytes

/-- The order of planned predicates: by family tag, then by key. -/
abbrev PlanKey := UInt8 ×ₗ Bytes

def planKey (family : MetadataFamily) (key : Bytes) : PlanKey := toLex (family.formatTag, key)

structure PredicatePlan where
  exact : OrdMap PlanKey PlannedExactPredicate
  prefixEmpty : List (MetadataFamily × Bytes)

def decodeCurrent (family : MetadataFamily) (raw : Option Bytes) :
    Except MetaError (Option CurrentValue) :=
  match raw with
  | some value => some <$> corruptValue family.name (CurrentValue.decode value)
  | none => .ok none

def planPredicate [Pager] (plan : PredicatePlan) : CommandPredicate → Shard PredicatePlan
  | .value family key expected => do
    refuseIf (plan.exact.get (planKey family key)).isSome (invalid "duplicate exact predicate")
    let raw ← readFamilyValue family key "plan exact predicate"
    let current ← liftM (decodeCurrent family raw)
    refuseIf (current.map CurrentValue.payload ≠ expected) MetaError.predicateFailed
    return { plan with exact := plan.exact.insert (planKey family key) ⟨family, key, current, raw⟩ }
  | .prefixEmpty family keyPrefix => do
    let page ← scanPage family.keyspace keyPrefix none 1 none 0 "plan prefix-empty predicate"
    refuseIf (page.items ≠ []) MetaError.predicateFailed
    return { plan with prefixEmpty := plan.prefixEmpty ++ [(family, keyPrefix)] }

/-- The rules of the families on the value a mutation replaces. -/
def validatePlannedMutation (plan : PredicatePlan) (mutation : CommandMutation) :
    Except MetaError Unit := do
  let predicate ← okOr (plan.exact.get (planKey mutation.family mutation.key))
    (invalid "every mutation requires one exact value/absence predicate")
  refuseIf (mutation.family = .workspaceIncarnationClaim ∧
    (mutation.isDelete ∨ predicate.current.isSome))
    (invalid "workspace incarnation claims are append-only and permanent")
  refuseIf (mutation.family = .artifactInlineBody ∧ mutation.isDelete = false ∧
    predicate.current.isSome) (invalid "artifact inline bodies are write-once")
  refuseIf (mutation.isDelete ∧ predicate.current = none)
    (invalid "delete mutation requires an existing value")

def validatePredicatePlan (command : MetadataCommand) (plan : PredicatePlan) : Except MetaError Unit :=
  command.mutations.forM (validatePlannedMutation plan)

def planPredicates [Pager] (command : MetadataCommand) : Shard PredicatePlan := do
  let plan ← command.predicates.foldlM planPredicate ⟨OrdMap.empty, []⟩
  liftM (validatePredicatePlan command plan)
  return plan

/-- The rows whose previous value must be kept: every overwritten or deleted value, except inline
bodies. -/
def expectedHistory (command : MetadataCommand) (plan : PredicatePlan) : List HistoryProjection :=
  (command.mutations.filter fun mutation => mutation.family ≠ .artifactInlineBody).filterMap
    fun mutation => do
      let planned ← plan.exact.get (planKey mutation.family mutation.key)
      let _ ← planned.current
      return ⟨mutation.family, mutation.key⟩

def validateHistoryProjection (command : MetadataCommand) (plan : PredicatePlan) :
    Except MetaError Unit := do
  refuseIf (¬ command.historyProjection.Nodup) (invalid "duplicate history projection")
  refuseIf (¬ (command.historyProjection ⊆ expectedHistory command plan ∧
    expectedHistory command plan ⊆ command.historyProjection))
    (invalid "history projection must exactly cover overwritten/deleted values")

/-! ### The transaction -/

structure CommandTxnState where
  nextVersion : CommitVersion
  schema : Bytes
  shard : Bytes
  owner : Bytes
  clock : Bytes
  leaseClock : Option Bytes
  rootPlan : RootFencePlan
  predicatePlan : PredicatePlan
  recovery : RecoveryPlan

def valueCheck (keyspace : Keyspace) (key expected : Bytes) : Check := .value ⟨keyspace, key⟩ expected

/-- An encoding that fails after planning. -/
def internalEncode {α : Type} (operation : String) (x : Except RecordCodecError α) :
    Except MetaError α := x.mapError fun error => MetaError.internal operation error.display

def rootFenceChecks (root : RootId) : RootFencePlan → List Check
  | .install _ => [.absent ⟨ROOT_FENCE.id, root.bytes⟩]
  | .assert expected => [.value ⟨ROOT_FENCE.id, root.bytes⟩ expected]
  | .replace expected _ => [.value ⟨ROOT_FENCE.id, root.bytes⟩ expected]

def rootFenceMutations (root : RootId) : RootFencePlan → List Mutation
  | .install value => [.put ⟨ROOT_FENCE.id, root.bytes⟩ value]
  | .assert _ => []
  | .replace _ value => [.put ⟨ROOT_FENCE.id, root.bytes⟩ value]

def exactGuard (predicate : PlannedExactPredicate) : Check :=
  match predicate.raw with
  | some expected => .value ⟨predicate.family.keyspace, predicate.key⟩ expected
  | none => .absent ⟨predicate.family.keyspace, predicate.key⟩

def predicateGuards (plan : PredicatePlan) : List Check :=
  plan.exact.rows.map (fun row => exactGuard row.2) ++
    plan.prefixEmpty.map fun entry => .emptyPrefix entry.1.keyspace entry.2

/-- The rows of a derived family: absent before, put together with the command. -/
def rowChecks (keyspace : Keyspace) (rows : List (Bytes × Bytes)) : List Check :=
  rows.map fun row => .absent ⟨keyspace, row.1⟩

def rowMutations (keyspace : Keyspace) (rows : List (Bytes × Bytes)) : List Mutation :=
  rows.map fun row => .put ⟨keyspace, row.1⟩ row.2

/-- The history row of one planned predicate, when the command projects it. -/
def historyRow (command : MetadataCommand) (nextVersion : CommitVersion)
    (planned : PlannedExactPredicate) : Except MetaError (List (Bytes × Bytes)) :=
  match planned.current with
  | none => .ok []
  | some previous =>
    if (⟨planned.family, planned.key⟩ : HistoryProjection) ∈ command.historyProjection then do
      let value ← internalEncode "derive command history" (HistoryValue.encode ⟨nextVersion,
        previous.createdVersion, previous.modifiedVersion, some previous.payload⟩)
      return [(historyKey planned.family planned.key nextVersion, value)]
    else .ok []

def historyRows (command : MetadataCommand) (state : CommandTxnState) :
    Except MetaError (List (Bytes × Bytes)) := do
  let rows ← state.predicatePlan.exact.rows.mapM fun row =>
    historyRow command state.nextVersion row.2
  return rows.flatten

def commandMutation (state : CommandTxnState) : CommandMutation → Except MetaError Mutation
  | .put family key value => do
    let planned ← okOr (state.predicatePlan.exact.get (planKey family key))
      (MetaError.internal "execute metadata command" "every mutation has one exact predicate")
    let createdVersion := (planned.current.map CurrentValue.createdVersion).getD state.nextVersion
    let encoded ← internalEncode "derive command value"
      (CurrentValue.encode ⟨createdVersion, state.nextVersion, value⟩)
    return .put ⟨family.keyspace, key⟩ encoded
  | .delete family key => return .delete ⟨family.keyspace, key⟩

/-- The event rows from sequence number `sequence` on. -/
def eventRows (root : RootId) (version : CommitVersion) :
    List EventProjection → ℕ → Except MetaError (List (Bytes × Bytes))
  | [], _ => .ok []
  | projection :: rest, sequence => do
    let value ← internalEncode "derive command event"
      (CurrentValue.encode ⟨version, version, projection.payload⟩)
    let rows ← eventRows root version rest (sequence + 1)
    return (changeEventKey root version sequence, value) :: rows

/-- The chunk rows of a record from `index` on. -/
def chunkRows (recoveryLsn : UInt64) : List Bytes → ℕ → List (Bytes × Bytes)
  | [], _ => []
  | chunk :: rest, index =>
    (recoveryChunkKey recoveryLsn index, chunk) :: chunkRows recoveryLsn rest (index + 1)

def outboxRows (plan : RecoveryPlan) : List (Bytes × Bytes) :=
  (recoveryOutboxKey plan.row.recoveryLsn, plan.header) :: chunkRows plan.row.recoveryLsn plan.chunks 0

/-- What a recovery record adds to a transaction. -/
def enqueueRecovery (txn : WriteTxn) (plan : RecoveryPlan) : WriteTxn where
  checks := txn.checks ++ [
    valueCheck SYSTEM.id SYSTEM_APPLIED_RECOVERY_LSN_KEY plan.lsnValue,
    valueCheck SYSTEM.id SYSTEM_RECOVERY_CHAIN_DIGEST_KEY plan.digestValue] ++
    rowChecks RECOVERY_OUTBOX.id (outboxRows plan)
  mutations := txn.mutations ++ [
    .put (systemKey SYSTEM_APPLIED_RECOVERY_LSN_KEY) (encodeSystemU64 plan.row.recoveryLsn),
    .put (systemKey SYSTEM_RECOVERY_CHAIN_DIGEST_KEY) (encodeSystemDigest plan.row.chainDigest)] ++
    rowMutations RECOVERY_OUTBOX.id (outboxRows plan)

def buildCommandTxn (command : MetadataCommand) (state : CommandTxnState) :
    Except MetaError WriteTxn := do
  let dedupeKey := commandDedupeKey command.rootId command.requestId
  let dedupeRecord ← internalEncode "derive command dedupe" (CommandDedupeRecord.encode
    ⟨command.commandDigest, state.nextVersion, state.recovery.row.recoveryLsn,
      command.deterministicResult⟩)
  let history ← historyRows command state
  let mutations ← command.mutations.mapM (commandMutation state)
  let events ← eventRows command.rootId state.nextVersion command.eventProjection 0
  let leaseCheck := match state.leaseClock with
    | some leaseClock => [valueCheck SYSTEM.id SYSTEM_LEASE_CLOCK_HIGH_WATER_KEY leaseClock]
    | none => []
  return enqueueRecovery {
    checks := [
        valueCheck SYSTEM.id SYSTEM_SCHEMA_KEY state.schema,
        valueCheck SYSTEM.id SYSTEM_SHARD_IDENTITY_KEY state.shard,
        valueCheck SYSTEM.id SYSTEM_OWNER_FENCE_KEY state.owner,
        valueCheck SYSTEM.id SYSTEM_COMMIT_CLOCK_KEY state.clock] ++
      leaseCheck ++ rootFenceChecks command.rootId state.rootPlan ++
      predicateGuards state.predicatePlan ++ rowChecks HISTORY.id history ++
      rowChecks CHANGE_EVENT.id events ++ rowChecks COMMAND_DEDUPE.id [(dedupeKey, dedupeRecord)]
    mutations := [.put (systemKey SYSTEM_COMMIT_CLOCK_KEY) (encodeSystemU64 state.nextVersion.val)] ++
      rootFenceMutations command.rootId state.rootPlan ++ rowMutations HISTORY.id history ++
      mutations ++ rowMutations CHANGE_EVENT.id events ++
      rowMutations COMMAND_DEDUPE.id [(dedupeKey, dedupeRecord)] } state.recovery

/-! ### What a plan was made from -/

lemma planKey_injective {f g : MetadataFamily} {k l : Bytes} (h : planKey f k = planKey g l) :
    f = g ∧ k = l := by
  have := Prod.mk.inj (toLex.injective h)
  exact ⟨MetadataFamily.formatTag_injective this.1, this.2⟩

lemma decodeCurrent_eq_ok {family : MetadataFamily} {raw : Option Bytes}
    {current : Option CurrentValue} (h : decodeCurrent family raw = .ok current) :
    (raw = none ∧ current = none) ∨
      ∃ bytes value, raw = some bytes ∧ current = some value ∧ CurrentValue.decode bytes = .ok value := by
  cases raw with
  | none =>
    cases Except.ok.inj h
    exact .inl ⟨rfl, rfl⟩
  | some bytes =>
    obtain ⟨value, hvalue, rfl⟩ := map_eq_ok.1 h
    exact .inr ⟨bytes, value, rfl, rfl, mapError_eq_ok.1 hvalue⟩

/-- A planned predicate holds the row of the state. -/
structure PlannedExactPredicate.ReadFrom (s : State) (planned : PlannedExactPredicate) : Prop where
  raw_eq : s.get ⟨planned.family.keyspace, planned.key⟩ = planned.raw
  decoded : decodeCurrent planned.family planned.raw = .ok planned.current

/-- Every planned predicate stands under its own key and holds the row of the state. -/
def PredicatePlan.ReadFrom (s : State) (plan : PredicatePlan) : Prop :=
  ∀ k planned, plan.exact.get k = some planned →
    k = planKey planned.family planned.key ∧ planned.ReadFrom s

/-- A value predicate is planned with the payload it expects. -/
def PredicatePlan.Covers (plan : PredicatePlan) : CommandPredicate → Prop
  | .value family key expected =>
    ∃ planned, plan.exact.get (planKey family key) = some planned ∧
      planned.current.map CurrentValue.payload = expected
  | .prefixEmpty _ _ => True

lemma planPredicate_eq_ok [Pager] {plan plan' : PredicatePlan} {predicate : CommandPredicate}
    (h : (planPredicate plan predicate).runAt s = .ok plan') :
    (∀ k planned, plan.exact.get k = some planned → plan'.exact.get k = some planned) ∧
      (plan.ReadFrom s → plan'.ReadFrom s) ∧ plan'.Covers predicate := by
  cases predicate with
  | value family key =>
    unfold planPredicate at h
    simp only [runAt_bind, runAt_refuseIf, runAt_liftM, runAt_pure] at h
    obtain ⟨hfresh, h⟩ := refuseIf_bind h
    obtain ⟨raw, hraw, h⟩ := bind_eq_ok.1 h
    obtain ⟨current, hcurrent, h⟩ := bind_eq_ok.1 h
    obtain ⟨hexpected, h⟩ := refuseIf_not_bind h
    cases pure_eq_ok.1 h
    have hnone : plan.exact.get (planKey family key) = none := by
      simpa using hfresh
    refine ⟨fun k planned hk => ?_, fun hplan k planned hk => ?_, ?_⟩
    · have hne : k ≠ planKey family key := by
        rintro rfl
        rw [hnone] at hk
        cases hk
      exact (OrdMap.get_insert_of_ne _ hne).trans hk
    · rcases OrdMap.get_insert_cases hk with ⟨hkey, rfl⟩ | ⟨-, hk⟩
      · exact ⟨hkey, readValue_eq_ok hraw, hcurrent⟩
      · exact hplan k planned hk
    · exact ⟨⟨family, key, current, raw⟩, OrdMap.get_insert_self .., hexpected⟩
  | prefixEmpty =>
    unfold planPredicate at h
    simp only [runAt_bind, runAt_refuseIf, runAt_pure] at h
    obtain ⟨_, -, h⟩ := bind_eq_ok.1 h
    obtain ⟨_, -, rfl⟩ := bind_pure_eq_ok h
    exact ⟨fun k planned hk => hk, fun hplan => hplan, trivial⟩

/-- The predicates planned so far stay planned while the rest is planned. -/
lemma foldlM_planPredicate_eq_ok [Pager] {predicates : List CommandPredicate} {plan plan' : PredicatePlan}
    (h : predicates.foldlM (fun plan predicate => (planPredicate plan predicate).runAt s) plan = .ok plan') :
    (∀ k planned, plan.exact.get k = some planned → plan'.exact.get k = some planned) ∧
      (plan.ReadFrom s → plan'.ReadFrom s) ∧ ∀ predicate ∈ predicates, plan'.Covers predicate := by
  induction predicates generalizing plan with
  | nil =>
    cases Except.ok.inj h
    exact ⟨fun _ _ hk => hk, fun hplan => hplan, fun _ hp => absurd hp not_mem_nil⟩
  | cons _ _ ih =>
    obtain ⟨_, hone, h⟩ := bind_eq_ok.1 h
    obtain ⟨hkeep₁, hread₁, hcover₁⟩ := planPredicate_eq_ok hone
    obtain ⟨hkeep, hread, hcover⟩ := ih h
    refine ⟨fun k planned hk => hkeep k planned (hkeep₁ k planned hk), fun hplan => hread (hread₁ hplan),
      fun p hp => ?_⟩
    rcases mem_cons.1 hp with rfl | hp
    · cases p with
      | value =>
        obtain ⟨planned, hget, heq⟩ := hcover₁
        exact ⟨planned, hkeep _ _ hget, heq⟩
      | prefixEmpty => trivial
    · exact hcover p hp

/-- What planning the predicates of a command establishes. -/
structure PredicatePlan.PlannedAt (s : State) (command : MetadataCommand) (plan : PredicatePlan) :
    Prop where
  readFrom : plan.ReadFrom s
  covers : ∀ predicate ∈ command.predicates, plan.Covers predicate
  mutations : ∀ mutation ∈ command.mutations, validatePlannedMutation plan mutation = .ok ()

lemma planPredicates_eq_ok [Pager] {plan : PredicatePlan}
    (h : (planPredicates command).runAt s = .ok plan) : plan.PlannedAt s command := by
  unfold planPredicates at h
  rw [runAt_bind, runAt_foldlM] at h
  obtain ⟨_, hfold, h⟩ := bind_eq_ok.1 h
  rw [runAt_bind, runAt_liftM] at h
  obtain ⟨_, hvalid, rfl⟩ := bind_pure_eq_ok h
  obtain ⟨-, hread, hcover⟩ := foldlM_planPredicate_eq_ok hfold
  exact ⟨hread fun k planned hk => (by cases hk), hcover, forM_eq_ok.1 hvalid⟩

lemma planRootFence_eq_ok [Pager] {plan : RootFencePlan} (h : (planRootFence command).runAt s = .ok plan) :
    rootFencePlan command (s.get ⟨ROOT_FENCE.id, command.rootId.bytes⟩) = .ok plan := by
  unfold planRootFence at h
  rw [runAt_bind] at h
  obtain ⟨_, hread, h⟩ := bind_eq_ok.1 h
  rw [readValue_eq_ok hread]
  simpa using h

end NoKV.Meta
