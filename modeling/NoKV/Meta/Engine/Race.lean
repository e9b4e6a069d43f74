import NoKV.Meta.Engine.Trace

/-!
# Racing clients

Sessions of one shard are sequenced by a gate, but the transactions do not rely on it: every row that
a plan was made from is checked again when its transaction is submitted. So a transaction that still
applies is one that would be planned now (`Wrote.transport`), and the invariant of a shard holds when
clients plan and submit in any interleaving (`Races.inv`).
-/

namespace NoKV.Meta

open Lib Store State List

/-! ### The rows behind a plan -/

variable {s : State} {current : Option Bytes} {fence : RootFence} {command : MetadataCommand}

lemma holds_of_all {checks : List Check} (h : checks.all s.holds = true) {check : Check}
    (hmem : check ∈ checks) : s.holds check = true := all_eq_true.1 h check hmem

/-- The row that a fence plan was made from. -/
def RootFencePlan.reads : RootFencePlan → Option Bytes
  | .install _ => none
  | .assert expected => some expected
  | .replace expected _ => some expected

/-- How the fence of a root was found and what it becomes. -/
inductive FencePlanned (command : MetadataCommand) : Option Bytes → RootFencePlan → Prop
  | install {value : Bytes} (action : command.rootFenceAction = .install)
      (encoded : RootFence.encode ⟨command.logicalShardId, command.objectNamespaceId,
        command.placementGeneration, .installing⟩ = .ok value) :
      FencePlanned command none (.install value)
  | bind {raw value : Bytes} {fence : RootFence} {expected : RootActivationState}
      {objectNamespaceId : ObjectNamespaceId}
      (action : command.rootFenceAction = .bindObjectNamespace expected)
      (decoded : RootFence.decode raw = .ok fence) (unbound : fence.objectNamespaceId = none)
      (encoded : RootFence.encode { fence with objectNamespaceId := some objectNamespaceId } = .ok value) :
      FencePlanned command (some raw) (.replace raw value)
  | bound {raw : Bytes} {fence : RootFence} {expected : RootActivationState}
      (action : command.rootFenceAction = .bindObjectNamespace expected)
      (decoded : RootFence.decode raw = .ok fence) (state : fence.activationState = expected)
      (same : fence.objectNamespaceId = command.objectNamespaceId) :
      FencePlanned command (some raw) (.assert raw)
  | requireActive {raw : Bytes} (action : command.rootFenceAction = .requireActive)
      (decoded : RootFence.decode raw = .ok ⟨command.logicalShardId, command.objectNamespaceId,
        command.placementGeneration, .active⟩) :
      FencePlanned command (some raw) (.assert raw)
  | transition {raw value : Bytes} {fence : RootFence} {next : RootActivationState}
      (action : command.rootFenceAction = .transition fence.activationState next)
      (decoded : RootFence.decode raw = .ok fence)
      (valid : validRootTransition fence.activationState next = true)
      (encoded : RootFence.encode { fence with activationState := next } = .ok value) :
      FencePlanned command (some raw) (.replace raw value)

lemma validateRootPlacement_eq_ok (h : validateRootPlacement command fence = .ok ()) :
    fence.logicalShardId = command.logicalShardId ∧
      fence.placementGeneration = command.placementGeneration ∧
      fence.objectNamespaceId = command.objectNamespaceId := by
  obtain ⟨hidentity, hnamespace⟩ := of_refuseIf_not h
  obtain ⟨hshard, hgeneration⟩ := of_refuseIf_not hidentity
  exact ⟨hshard, hgeneration, hnamespace⟩

lemma currentFence_eq_ok {raw : Bytes} (h : currentFence current = .ok (raw, fence)) :
    current = some raw ∧ RootFence.decode raw = .ok fence := by
  obtain ⟨_, hraw, h⟩ := bind_eq_ok.1 h
  obtain ⟨_, hdecode, ⟨⟩⟩ := bind_pure_eq_ok h
  exact ⟨okOr_eq_ok.1 hraw, mapError_eq_ok.1 hdecode⟩

lemma encodeFence_eq_ok {value : Bytes} (h : encodeFence fence = .ok value) : fence.encode = .ok value := by
  unfold encodeFence corruptValue at h
  exact mapError_eq_ok.1 h

lemma rootFencePlan_planned {plan : RootFencePlan} (h : rootFencePlan command current = .ok plan) :
    FencePlanned command current plan := by
  unfold rootFencePlan at h
  split at h
  next hact =>
    -- install
    obtain ⟨hnone, h⟩ := refuseIf_bind h
    obtain ⟨value, hvalue, rfl⟩ := bind_pure_eq_ok h
    rw [Option.not_isSome_iff_eq_none.1 hnone]
    exact .install hact (encodeFence_eq_ok hvalue)
  next expected hact =>
    -- bind the object namespace: the first time, or the one that is bound
    obtain ⟨⟨raw, fence⟩, hcurrent, h⟩ := bind_eq_ok.1 h
    replace h := ok_of_bind h
    obtain ⟨_, hstate, h⟩ := bind_eq_ok.1 h
    obtain ⟨_, hnamespace, h⟩ := bind_eq_ok.1 h
    have hnamespace := okOr_eq_ok.1 hnamespace
    obtain ⟨hraw, hdecode⟩ := currentFence_eq_ok hcurrent
    rw [hraw]
    split at h
    next hunbound =>
      obtain ⟨value, hvalue, rfl⟩ := bind_pure_eq_ok h
      exact .bind hact hdecode hunbound (encodeFence_eq_ok hvalue)
    next actual hbound =>
      split at h
      next hsame =>
        cases pure_eq_ok.1 h
        refine .bound hact hdecode (of_refuseIf_not hstate) ?_
        rw [hbound, hnamespace, hsame]
      · cases h
  next hact =>
    -- the root is active, with the placement and namespace of the command
    obtain ⟨⟨raw, fence⟩, hcurrent, h⟩ := bind_eq_ok.1 h
    obtain ⟨_, hplacement, h⟩ := bind_eq_ok.1 h
    obtain ⟨_, hstate, rfl⟩ := bind_pure_eq_ok h
    obtain ⟨hraw, hdecode⟩ := currentFence_eq_ok hcurrent
    rw [hraw]
    obtain ⟨hshard, hgeneration, hnamespace⟩ := validateRootPlacement_eq_ok hplacement
    have hstate : fence.activationState = .active := of_refuseIf_not hstate
    refine .requireActive hact (hdecode.trans (congrArg Except.ok ?_))
    cases fence
    cases hshard
    cases hgeneration
    cases hnamespace
    cases hstate
    rfl
  next expected next hact =>
    -- a transition along an edge
    obtain ⟨hvalid, h⟩ := refuseIf_bind h
    obtain ⟨⟨_, fence⟩, hcurrent, h⟩ := bind_eq_ok.1 h
    replace h := ok_of_bind h
    obtain ⟨_, hstate, h⟩ := bind_eq_ok.1 h
    obtain ⟨_, hvalue, rfl⟩ := bind_pure_eq_ok h
    obtain ⟨hraw, hdecode⟩ := currentFence_eq_ok hcurrent
    rw [hraw]
    have hstate : fence.activationState = expected := of_refuseIf_not hstate
    subst hstate
    exact .transition hact hdecode (by simpa using hvalid) (encodeFence_eq_ok hvalue)

lemma rootFencePlan_reads {plan : RootFencePlan} (h : rootFencePlan command current = .ok plan) :
    plan.reads = current := by
  cases rootFencePlan_planned h <;> rfl

lemma get_of_rootFenceChecks {root : RootId} {plan : RootFencePlan}
    (h : ∀ check ∈ rootFenceChecks root plan, s.holds check = true) :
    s.get ⟨ROOT_FENCE.id, root.bytes⟩ = plan.reads := by
  cases plan with
  | install => exact holds_absent.1 (h _ (mem_singleton_self _))
  | assert expected | replace expected value => exact holds_value.1 (h _ (mem_singleton_self _))

lemma get_of_exactGuard {planned : PlannedExactPredicate} (h : s.holds (exactGuard planned) = true) :
    s.get ⟨planned.family.keyspace, planned.key⟩ = planned.raw := by
  unfold exactGuard at h
  split at h
  next expected hraw => rw [hraw, holds_value.1 h]
  next hraw => rw [hraw, holds_absent.1 h]

lemma get_of_enqueueRecovery {base : WriteTxn} {plan : RecoveryPlan}
    (h : (enqueueRecovery base plan).checks.all s.holds = true) :
    s.get (systemKey SYSTEM_APPLIED_RECOVERY_LSN_KEY) = some plan.lsnValue ∧
      s.get (systemKey SYSTEM_RECOVERY_CHAIN_DIGEST_KEY) = some plan.digestValue := by
  constructor
  · refine holds_value.1 (holds_of_all h ?_)
    exact mem_append_left _ (mem_append_right _ (mem_cons_self ..))
  · refine holds_value.1 (holds_of_all h ?_)
    exact mem_append_left _ (mem_append_right _ (mem_cons_of_mem _ (mem_cons_self ..)))

section Transport

variable {s s₀ : State} {command : MetadataCommand} {state : CommandTxnState} {txn : WriteTxn}

/-- The checks of a command cover the rows it was planned from. -/
lemma buildCommandTxn_checks (h : buildCommandTxn command state = .ok txn) :
    (∀ check ∈ [valueCheck SYSTEM.id SYSTEM_SCHEMA_KEY state.schema,
        valueCheck SYSTEM.id SYSTEM_SHARD_IDENTITY_KEY state.shard,
        valueCheck SYSTEM.id SYSTEM_OWNER_FENCE_KEY state.owner,
        valueCheck SYSTEM.id SYSTEM_COMMIT_CLOCK_KEY state.clock], check ∈ txn.checks) ∧
      (∀ check ∈ rootFenceChecks command.rootId state.rootPlan, check ∈ txn.checks) ∧
      (∀ check ∈ predicateGuards state.predicatePlan, check ∈ txn.checks) ∧
      .absent ⟨COMMAND_DEDUPE.id, commandDedupeKey command.rootId command.requestId⟩ ∈ txn.checks ∧
      ∀ leaseClock ∈ state.leaseClock,
        valueCheck SYSTEM.id SYSTEM_LEASE_CLOCK_HIGH_WATER_KEY leaseClock ∈ txn.checks := by
  obtain ⟨_, -, h⟩ := bind_eq_ok.1 h
  obtain ⟨_, -, h⟩ := bind_eq_ok.1 h
  obtain ⟨_, -, h⟩ := bind_eq_ok.1 h
  obtain ⟨_, -, rfl⟩ := bind_pure_eq_ok h
  unfold enqueueRecovery
  refine ⟨fun check hcheck => ?_, fun check hcheck => ?_, fun check hcheck => ?_, ?_, fun leaseClock hlease => ?_⟩
  · simp only [mem_append]
    tauto
  · simp only [mem_append]
    tauto
  · simp only [mem_append]
    tauto
  · simp [rowChecks]
  · rw [Option.mem_def.1 hlease]
    simp

variable [Pager] [Sha256] {mutation : RecoveryMutationV1} {result : RecoveryResultV1} {plan : RecoveryPlan}

lemma planRecovery_transport {base : WriteTxn} (h : (planRecovery mutation result).runAt s₀ = .ok plan)
    (hchecks : (enqueueRecovery base plan).checks.all s.holds = true) :
    (planRecovery mutation result).runAt s = .ok plan := by
  obtain ⟨_, _, -, -, hbuild⟩ := planRecovery_eq_ok.1 h
  obtain ⟨hlsn, hdigest⟩ := get_of_enqueueRecovery hchecks
  obtain ⟨rfl, rfl, -⟩ := buildRecoveryPlan_eq_ok hbuild
  exact planRecovery_eq_ok.2 ⟨_, _, hlsn, hdigest, hbuild⟩

/-- The plan of a command is one that would be made now if its checks hold now. -/
lemma CommandTxnState.PlannedAt.transport {leaseDeadlineMs : Option UInt64}
    (h : state.PlannedAt s₀ command leaseDeadlineMs) (hbuilt : buildCommandTxn command state = .ok txn)
    (hchecks : txn.checks.all s.holds = true) : state.PlannedAt s command leaseDeadlineMs := by
  obtain ⟨hsystem, hfence, hguards, -⟩ := buildCommandTxn_checks hbuilt
  have hget : ∀ key value, valueCheck SYSTEM.id key value ∈ [
      valueCheck SYSTEM.id SYSTEM_SCHEMA_KEY state.schema,
      valueCheck SYSTEM.id SYSTEM_SHARD_IDENTITY_KEY state.shard,
      valueCheck SYSTEM.id SYSTEM_OWNER_FENCE_KEY state.owner,
      valueCheck SYSTEM.id SYSTEM_COMMIT_CLOCK_KEY state.clock] →
      s.get (systemKey key) = some value := fun key value hmem =>
    holds_value.1 (holds_of_all hchecks (hsystem _ hmem))
  have hroot : s.get ⟨ROOT_FENCE.id, command.rootId.bytes⟩ =
      s₀.get ⟨ROOT_FENCE.id, command.rootId.bytes⟩ := by
    rw [get_of_rootFenceChecks fun check hcheck => holds_of_all hchecks (hfence check hcheck),
      rootFencePlan_reads h.root]
  have hpredicates : state.predicatePlan.PlannedAt s command := by
    refine ⟨fun k planned hplanned => ?_, h.predicates.covers, h.predicates.mutations⟩
    obtain ⟨hkey, hread⟩ := h.predicates.readFrom k planned hplanned
    refine ⟨hkey, get_of_exactGuard (holds_of_all hchecks (hguards _ ?_)), hread.decoded⟩
    exact mem_append_left _ (mem_map.2 ⟨(k, planned), OrdMap.mem_rows.2 hplanned, rfl⟩)
  have hrecovery : (planRecovery (.metadataCommand command leaseDeadlineMs)
      (.metadataCommand state.nextVersion command.deterministicResult)).runAt s = .ok state.recovery := by
    obtain ⟨_, _, _, _, _, hfrom⟩ := buildCommandTxn_eq_ok hbuilt
    rw [hfrom.txn_eq] at hchecks
    exact planRecovery_transport h.recovery hchecks
  exact ⟨hget _ _ (by simp), hget _ _ (by simp), h.shard_eq, hget _ _ (by simp), h.owner_eq,
    hget _ _ (by simp), h.clock_eq, h.next_eq, hroot ▸ h.root, hpredicates, h.history, hrecovery⟩

/-- A transaction that applies now writes what it would write if it were planned now. -/
lemma Wrote.transport {shard : LogicalShardId} (h : Wrote shard s₀ mutation result plan txn)
    (hchecks : txn.checks.all s.holds = true) : Wrote shard s mutation result plan txn := by
  cases h with
  | command valid digest _ planned built =>
    obtain ⟨-, -, -, hdedupe, -⟩ := buildCommandTxn_checks built
    exact .command valid digest (holds_absent.1 (holds_of_all hchecks hdedupe))
      (planned.transport built hchecks) built
  | observeLeaseClock _ _ later checked recovery =>
    have hget : ∀ check ∈ _, s.holds check = true := fun check hcheck =>
      holds_of_all hchecks (mem_append_left _ (mem_append_left _ (checked check hcheck)))
    exact .observeLeaseClock (holds_value.1 (hget _ (mem_cons_self ..)))
      (holds_value.1 (hget _ (mem_cons_of_mem _ (mem_cons_self ..)))) later checked
      (planRecovery_transport recovery hchecks)
  | advanceOwnerEpoch _ current_eq later checked recovery =>
    have hget := holds_of_all hchecks (mem_append_left _ (mem_append_left _ checked))
    exact .advanceOwnerEpoch (holds_value.1 hget) current_eq later checked
      (planRecovery_transport recovery hchecks)

end Transport

/-! ### Interleavings -/

section Races

variable [Pager] [Sha256]

structure Pending where
  call : Call
  operation : String
  txn : WriteTxn
  applied : Reply
  conflict : Shard Reply

/-- Clients that plan calls on the current store and submit their plans at any later time, any number
of times: the store, the plans made so far, and the calls applied so far with their answers. -/
inductive Races (shard : LogicalShardId) : State → List Pending → List (Call × Reply) → Prop
  | initialized : Races shard (initialized shard) [] []
  | plan {s : State} {made : List Pending} {done : List (Call × Reply)} {call : Call} {operation : String}
      {txn : WriteTxn} {applied : Reply} {conflict : Shard Reply} (races : Races shard s made done)
      (planned : (call.plan shard).runAt s = .ok (.commit operation txn applied conflict)) :
      Races shard s (⟨call, operation, txn, applied, conflict⟩ :: made) done
  | apply {s : State} {made : List Pending} {done : List (Call × Reply)} {p : Pending}
      (races : Races shard s made done) (mem : p ∈ made) (valid : p.txn.validate storeLimits = .ok ())
      (checks : p.txn.checks.all s.holds = true) :
      Races shard (s.writeAll p.txn.mutations) made (done ++ [(p.call, p.applied)])

/-- What holds under every interleaving: the calls applied so far are the log of the shard. -/
structure RaceInv (shard : LogicalShardId) (s : State) (made : List Pending) (done : List (Call × Reply))
    (log : List RecoveryOutboxRecord) : Prop where
  inv : Inv shard s log
  records : List.Forall₂ (fun (call : Call × Reply) row =>
    row.mutation = call.1.mutation ∧ row.reply = call.2) done log
  accepted : ∀ command leaseDeadlineMs reply, (.execute command leaseDeadlineMs, reply) ∈ done →
    validateCommand shard command = .ok () ∧ command.commandDigest = command.canonicalDigest
  planned : ∀ p ∈ made, ∃ s₀ sys, SystemInv shard s₀ sys ∧
    (p.call.plan shard).runAt s₀ = .ok (.commit p.operation p.txn p.applied p.conflict)

variable {shard : LogicalShardId} {s : State} {made : List Pending} {done : List (Call × Reply)}

lemma Races.inv (h : Races shard s made done) : ∃ log, RaceInv shard s made done log := by
  induction h with
  | initialized =>
    exact ⟨[], inv_initialized shard, .nil, fun _ _ _ hp => absurd hp not_mem_nil,
      fun p hp => absurd hp not_mem_nil⟩
  | plan _ planned ih =>
    obtain ⟨log, hinv⟩ := ih
    refine ⟨log, hinv.inv, hinv.records, hinv.accepted, fun p hp => ?_⟩
    rcases mem_cons.1 hp with rfl | hp
    · exact ⟨_, _, hinv.inv.system, planned⟩
    · exact hinv.planned p hp
  | @apply _ _ _ p _ mem valid checks ih =>
    obtain ⟨log, hinv⟩ := ih
    obtain ⟨_, _, hsys, hplan⟩ := hinv.planned p mem
    obtain ⟨plan, hwrote, hreply⟩ := Plans.answers hsys ⟨_, _, hplan⟩
    refine ⟨log ++ [plan.row], hinv.inv.step (hwrote.transport checks) valid checks, ?_, ?_, hinv.planned⟩
    · exact rel_append hinv.records (.cons ⟨(hwrote.continues hsys).mutation_eq, hreply⟩ .nil)
    · intro command leaseDeadlineMs reply hmem
      rcases mem_append.1 hmem with hmem | hmem
      · exact hinv.accepted command leaseDeadlineMs reply hmem
      · have hcall : Call.execute command leaseDeadlineMs = p.call :=
          congrArg Prod.fst (mem_singleton.1 hmem)
        rw [← hcall] at hplan
        obtain ⟨_, hwrote, -⟩ := Plans.execute_cases ⟨_, _, hplan⟩
        exact ⟨hwrote.accepted.1, hwrote.accepted.2.1⟩

/-- The sequenced sessions of a shard are one of the interleavings. -/
lemma races_serveAll (shard : LogicalShardId) (requests : List Request) :
    ∃ made done, Races shard (serveAll shard (Meta.initialized shard) requests) made done := by
  suffices h : ∀ s made done, Races shard s made done →
      ∃ made done, Races shard (serveAll shard s requests) made done from
    h _ _ _ .initialized
  induction requests with
  | nil => exact fun s made done h => ⟨made, done, h⟩
  | cons request rest ih =>
    intro s made done h
    show ∃ made done, Races shard (serveAll shard (serve shard s request).2 rest) made done
    rcases serve_cases shard s request with heq | ⟨_, _, happlied, heq⟩
    · rw [heq]
      exact ih s made done h
    · obtain ⟨_, _, hplan⟩ := happlied.plan
      rw [heq]
      exact ih _ _ _ (.apply (.plan h hplan) (mem_cons_self ..) happlied.valid happlied.checks)

end Races

end NoKV.Meta
