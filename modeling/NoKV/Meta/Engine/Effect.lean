import NoKV.Meta.Engine.Step

/-!
# The effect of a write on each keyspace

Every write appends one recovery record (`RecoveryEffect`). A command moves the commit clock and
writes its own rows and the rows derived from them (`CommandEffect`); a lease observation and an
owner advance write one system record (`SystemEffect`).
-/

namespace NoKV.Meta

open Lib Store State List

/-- The keyspaces without the system records and the outbox. -/
def IsPlain (ks : Keyspace) : Prop := ks ≠ SYSTEM.id ∧ ks ≠ RECOVERY_OUTBOX.id

lemma MetadataFamily.isPlain (f : MetadataFamily) : IsPlain f.keyspace :=
  ⟨f.keyspace_ne SYSTEM (by decide), f.keyspace_ne RECOVERY_OUTBOX (by decide)⟩

lemma isPlain_history : IsPlain HISTORY.id := by
  unfold IsPlain
  decide

section Writes

variable (base : WriteTxn) (plan : RecoveryPlan)

lemma writesTo_enqueueRecovery_plain {ks : Keyspace} (h : IsPlain ks) :
    writesTo ks (enqueueRecovery base plan).mutations = writesTo ks base.mutations := by
  unfold enqueueRecovery
  simp [writesTo_cons, Mutation.key, systemKey, h.1.symm, h.2.symm]

lemma writesTo_enqueueRecovery_outbox :
    writesTo RECOVERY_OUTBOX.id (enqueueRecovery base plan).mutations =
      writesTo RECOVERY_OUTBOX.id base.mutations ++
        rowMutations RECOVERY_OUTBOX.id (outboxRows plan) := by
  have h : SYSTEM.id ≠ RECOVERY_OUTBOX.id := by decide
  unfold enqueueRecovery
  simp [writesTo_cons, Mutation.key, systemKey, h]

lemma writesTo_enqueueRecovery_system :
    writesTo SYSTEM.id (enqueueRecovery base plan).mutations =
      writesTo SYSTEM.id base.mutations ++ [
        .put (systemKey SYSTEM_APPLIED_RECOVERY_LSN_KEY) (encodeSystemU64 plan.row.recoveryLsn),
        .put (systemKey SYSTEM_RECOVERY_CHAIN_DIGEST_KEY)
          (encodeSystemDigest plan.row.chainDigest)] := by
  have h : RECOVERY_OUTBOX.id ≠ SYSTEM.id := by decide
  unfold enqueueRecovery
  simp [writesTo_cons, Mutation.key, systemKey, h]

end Writes

/-- What appending a recovery record does. -/
structure RecoveryEffect (s s' : State) (plan : RecoveryPlan) : Prop where
  outbox : Adds s s' RECOVERY_OUTBOX.id (outboxRows plan)
  lsn : s'.get (systemKey SYSTEM_APPLIED_RECOVERY_LSN_KEY) =
    some (encodeSystemU64 plan.row.recoveryLsn)
  digest : s'.get (systemKey SYSTEM_RECOVERY_CHAIN_DIGEST_KEY) =
    some (encodeSystemDigest plan.row.chainDigest)

lemma recoveryEffect_of_enqueueRecovery {s : State} {base : WriteTxn} {plan : RecoveryPlan}
    (hnd : ((enqueueRecovery base plan).mutations.map Mutation.key).Nodup)
    (hchecks : (enqueueRecovery base plan).checks.all s.holds = true)
    (hbase : writesTo RECOVERY_OUTBOX.id base.mutations = []) :
    RecoveryEffect s (s.writeAll (enqueueRecovery base plan).mutations) plan := by
  have hsystem := writesTo_enqueueRecovery_system base plan
  refine ⟨adds_of_rowMutations hnd ?_ fun row hrow => ?_, ?_, ?_⟩
  · rw [writesTo_enqueueRecovery_outbox, hbase, nil_append]
  · refine holds_absent.1 (all_eq_true.1 hchecks _ ?_)
    exact mem_append_right _ (mem_map_of_mem hrow)
  · refine get_writeAll_of_writesTo (m := .put (systemKey SYSTEM_APPLIED_RECOVERY_LSN_KEY)
      (encodeSystemU64 plan.row.recoveryLsn)) hnd ?_
    show _ ∈ writesTo SYSTEM.id _
    rw [hsystem]
    simp
  · refine get_writeAll_of_writesTo (m := .put (systemKey SYSTEM_RECOVERY_CHAIN_DIGEST_KEY)
      (encodeSystemDigest plan.row.chainDigest)) hnd ?_
    show _ ∈ writesTo SYSTEM.id _
    rw [hsystem]
    simp

/-- What writing one system record does to the other rows. -/
structure SystemEffect (s s' : State) (key value : Bytes) : Prop where
  put : s'.get (systemKey key) = some value
  system : ∀ k, k ≠ key → k ≠ SYSTEM_APPLIED_RECOVERY_LSN_KEY → k ≠ SYSTEM_RECOVERY_CHAIN_DIGEST_KEY →
    s'.get (systemKey k) = s.get (systemKey k)
  plain : ∀ ks, IsPlain ks → ∀ k, s'.get ⟨ks, k⟩ = s.get ⟨ks, k⟩

lemma systemEffect_of_enqueueRecovery {s : State} {checks : List Check} {key value : Bytes}
    {plan : RecoveryPlan}
    (hnd : ((enqueueRecovery ⟨checks, [.put (systemKey key) value]⟩ plan).mutations.map
      Mutation.key).Nodup) :
    SystemEffect s
      (s.writeAll (enqueueRecovery ⟨checks, [.put (systemKey key) value]⟩ plan).mutations) key value := by
  have hsystem := writesTo_enqueueRecovery_system ⟨checks, [.put (systemKey key) value]⟩ plan
  have hbase : writesTo SYSTEM.id [Mutation.put (systemKey key) value] =
      [.put (systemKey key) value] := rfl
  rw [hbase] at hsystem
  refine ⟨?_, fun k hk hlsn hdigest => ?_, fun ks hks k => ?_⟩
  · refine get_writeAll_of_writesTo (m := .put (systemKey key) value) hnd ?_
    show _ ∈ writesTo SYSTEM.id _
    rw [hsystem]
    simp
  · refine get_writeAll_of_notMem_writesTo fun m hm heq => ?_
    rw [show (systemKey k).keyspace = SYSTEM.id from rfl, hsystem] at hm
    simp only [cons_append, nil_append, mem_cons, not_mem_nil, or_false] at hm
    rcases hm with rfl | rfl | rfl
    · exact hk (congrArg Key.bytes heq).symm
    · exact hlsn (congrArg Key.bytes heq).symm
    · exact hdigest (congrArg Key.bytes heq).symm
  · refine get_writeAll_of_notMem_writesTo fun m hm heq => ?_
    rw [show (⟨ks, k⟩ : Key).keyspace = ks from rfl, writesTo_enqueueRecovery_plain _ _ hks] at hm
    have := (mem_writesTo.1 hm).2
    obtain ⟨hm, -⟩ := mem_writesTo.1 hm
    cases mem_singleton.1 hm
    exact hks.1 this.symm

/-! ### Commands -/

/-- The rows of a command transaction. -/
structure BuiltFrom (command : MetadataCommand) (state : CommandTxnState) (txn : WriteTxn)
    (dedupeRecord : Bytes) (history events : List (Bytes × Bytes)) (mutations : List Mutation)
    (checks : List Check) : Prop where
  dedupe_eq : CommandDedupeRecord.encode ⟨command.commandDigest, state.nextVersion,
    state.recovery.row.recoveryLsn, command.deterministicResult⟩ = .ok dedupeRecord
  history_eq : historyRows command state = .ok history
  mutations_eq : List.Forall₂ (fun m out => commandMutation state m = .ok out) command.mutations mutations
  events_eq : eventRows command.rootId state.nextVersion command.eventProjection 0 = .ok events
  txn_eq : txn = enqueueRecovery ⟨checks,
    [.put (systemKey SYSTEM_COMMIT_CLOCK_KEY) (encodeSystemU64 state.nextVersion.val)] ++
      rootFenceMutations command.rootId state.rootPlan ++ rowMutations HISTORY.id history ++
      mutations ++ rowMutations CHANGE_EVENT.id events ++ rowMutations COMMAND_DEDUPE.id
        [(commandDedupeKey command.rootId command.requestId, dedupeRecord)]⟩ state.recovery
  checks_of : ∀ check ∈ rowChecks HISTORY.id history ++ rowChecks CHANGE_EVENT.id events ++
    rowChecks COMMAND_DEDUPE.id [(commandDedupeKey command.rootId command.requestId, dedupeRecord)],
    check ∈ checks

variable {state : CommandTxnState}

lemma buildCommandTxn_eq_ok {command : MetadataCommand} {txn : WriteTxn}
    (h : buildCommandTxn command state = .ok txn) : ∃ dedupeRecord history events mutations checks,
      BuiltFrom command state txn dedupeRecord history events mutations checks := by
  obtain ⟨dedupeRecord, hdedupe, h⟩ := bind_eq_ok.1 h
  obtain ⟨history, hhistory, h⟩ := bind_eq_ok.1 h
  obtain ⟨mutations, hmutations, h⟩ := bind_eq_ok.1 h
  obtain ⟨events, hevents, rfl⟩ := bind_pure_eq_ok h
  refine ⟨dedupeRecord, history, events, mutations, _, mapError_eq_ok.1 hdedupe, hhistory,
    mapM_eq_ok.1 hmutations, hevents, rfl, fun check hcheck => ?_⟩
  rw [append_assoc] at hcheck
  rw [append_assoc, append_assoc]
  exact mem_append_right _ hcheck

lemma commandMutation_put {family : MetadataFamily} {key value : Bytes} {out : Mutation}
    (h : commandMutation state (.put family key value) = .ok out) :
    ∃ planned encoded, state.predicatePlan.exact.get (planKey family key) = some planned ∧
      CurrentValue.encode ⟨(planned.current.map CurrentValue.createdVersion).getD state.nextVersion,
        state.nextVersion, value⟩ = .ok encoded ∧ out = .put ⟨family.keyspace, key⟩ encoded := by
  obtain ⟨planned, hplanned, h⟩ := bind_eq_ok.1 h
  obtain ⟨encoded, hencoded, h⟩ := bind_eq_ok.1 h
  exact ⟨planned, encoded, okOr_eq_ok.1 hplanned, mapError_eq_ok.1 hencoded, (pure_eq_ok.1 h).symm⟩

lemma commandMutation_key {m : CommandMutation} {out : Mutation} (h : commandMutation state m = .ok out) :
    out.key = ⟨m.family.keyspace, m.key⟩ := by
  cases m with
  | put =>
    obtain ⟨-, -, -, -, rfl⟩ := commandMutation_put h
    rfl
  | delete =>
    cases Except.ok.inj h
    rfl

/-- The value a command leaves under a key it mutates. -/
def CommandMutation.Leaves (state : CommandTxnState) (raw : Option Bytes) : CommandMutation → Prop
  | .put family key value =>
    ∃ planned encoded, state.predicatePlan.exact.get (planKey family key) = some planned ∧
      CurrentValue.encode ⟨(planned.current.map CurrentValue.createdVersion).getD state.nextVersion,
        state.nextVersion, value⟩ = .ok encoded ∧ raw = some encoded
  | .delete _ _ => raw = none

/-- What a command does to the rows outside the outbox. -/
structure CommandEffect (s s' : State) (command : MetadataCommand) (state : CommandTxnState) : Prop where
  clock : s'.get (systemKey SYSTEM_COMMIT_CLOCK_KEY) = some (encodeSystemU64 state.nextVersion.val)
  system : ∀ k, k ≠ SYSTEM_COMMIT_CLOCK_KEY → k ≠ SYSTEM_APPLIED_RECOVERY_LSN_KEY →
    k ≠ SYSTEM_RECOVERY_CHAIN_DIGEST_KEY → s'.get (systemKey k) = s.get (systemKey k)
  history : ∃ rows, historyRows command state = .ok rows ∧ Adds s s' HISTORY.id rows
  events : ∃ rows, eventRows command.rootId state.nextVersion command.eventProjection 0 = .ok rows ∧
    Adds s s' CHANGE_EVENT.id rows
  dedupe : ∃ record, CommandDedupeRecord.encode ⟨command.commandDigest, state.nextVersion,
      state.recovery.row.recoveryLsn, command.deterministicResult⟩ = .ok record ∧
    Adds s s' COMMAND_DEDUPE.id [(commandDedupeKey command.rootId command.requestId, record)]
  fence_of_ne : ∀ k, k ≠ command.rootId.bytes → s'.get ⟨ROOT_FENCE.id, k⟩ = s.get ⟨ROOT_FENCE.id, k⟩
  fence : s'.get ⟨ROOT_FENCE.id, command.rootId.bytes⟩ = match state.rootPlan with
    | .install value => some value
    | .assert _ => s.get ⟨ROOT_FENCE.id, command.rootId.bytes⟩
    | .replace _ value => some value
  mutated : ∀ m ∈ command.mutations, m.Leaves state (s'.get ⟨m.family.keyspace, m.key⟩)
  unmutated : ∀ (f : MetadataFamily) (k : Bytes), (∀ m ∈ command.mutations, ¬ (m.family = f ∧ m.key = k)) →
    s'.get ⟨f.keyspace, k⟩ = s.get ⟨f.keyspace, k⟩

section CommandWrites

variable {command : MetadataCommand} {state : CommandTxnState} {txn : WriteTxn} {dedupeRecord : Bytes}
  {history events : List (Bytes × Bytes)} {mutations : List Mutation} {checks : List Check} {ks : Keyspace}

lemma writesTo_rootFenceMutations (root : RootId) (plan : RootFencePlan) (ks : Keyspace) :
    writesTo ks (rootFenceMutations root plan) =
      if ROOT_FENCE.id = ks then rootFenceMutations root plan else [] := by
  by_cases h : ROOT_FENCE.id = ks <;> cases plan <;>
    simp [rootFenceMutations, writesTo_cons, Mutation.key, h]

lemma writesTo_commandMutations
    (h : List.Forall₂ (fun m out => commandMutation state m = .ok out) command.mutations mutations)
    (hks : ∀ f : MetadataFamily, f.keyspace ≠ ks) : writesTo ks mutations = [] := by
  refine filter_eq_nil_iff.2 fun out hout => ?_
  obtain ⟨m, -, hm⟩ := exists_of_forall₂_right h hout
  rw [commandMutation_key hm]
  simpa using hks m.family

section

variable (h : BuiltFrom command state txn dedupeRecord history events mutations checks)
include h

lemma BuiltFrom.writesTo_executor (hks : ∀ f : MetadataFamily, f.keyspace ≠ ks) (hplain : IsPlain ks) :
    writesTo ks txn.mutations =
      (if ROOT_FENCE.id = ks then rootFenceMutations command.rootId state.rootPlan else []) ++
      (if HISTORY.id = ks then rowMutations HISTORY.id history else []) ++
      (if CHANGE_EVENT.id = ks then rowMutations CHANGE_EVENT.id events else []) ++
      (if COMMAND_DEDUPE.id = ks then rowMutations COMMAND_DEDUPE.id
        [(commandDedupeKey command.rootId command.requestId, dedupeRecord)] else []) := by
  rw [h.txn_eq, writesTo_enqueueRecovery_plain _ _ hplain]
  simp only [writesTo_append, writesTo_cons, writesTo_nil, writesTo_rowMutations,
    writesTo_rootFenceMutations, writesTo_commandMutations h.mutations_eq hks, Mutation.key, systemKey,
    hplain.1.symm, nil_append, append_nil, reduceIte]

lemma BuiltFrom.writesTo_family (f : MetadataFamily) :
    writesTo f.keyspace txn.mutations = writesTo f.keyspace mutations := by
  have hne : ∀ d ∈ executorKeyspaces, d.id ≠ f.keyspace := fun d hd => (f.keyspace_ne d hd).symm
  have h1 : ROOT_FENCE.id ≠ f.keyspace := hne ROOT_FENCE (by decide)
  have h2 : HISTORY.id ≠ f.keyspace := hne HISTORY (by decide)
  have h3 : CHANGE_EVENT.id ≠ f.keyspace := hne CHANGE_EVENT (by decide)
  have h4 : COMMAND_DEDUPE.id ≠ f.keyspace := hne COMMAND_DEDUPE (by decide)
  rw [h.txn_eq, writesTo_enqueueRecovery_plain _ _ f.isPlain]
  simp only [writesTo_append, writesTo_cons, writesTo_nil, writesTo_rowMutations,
    writesTo_rootFenceMutations, Mutation.key, systemKey, f.isPlain.1.symm, h1,
    h2, h3, h4, nil_append, append_nil, reduceIte]

end

lemma executor_keyspace_ne {d : KeyspaceDef} (hd : d ∈ executorKeyspaces) (f : MetadataFamily) :
    f.keyspace ≠ d.id := f.keyspace_ne d hd

section

variable (h : BuiltFrom command state txn dedupeRecord history events mutations checks)
include h

lemma BuiltFrom.writesTo_system : writesTo SYSTEM.id txn.mutations = [
      .put (systemKey SYSTEM_COMMIT_CLOCK_KEY) (encodeSystemU64 state.nextVersion.val),
      .put (systemKey SYSTEM_APPLIED_RECOVERY_LSN_KEY) (encodeSystemU64 state.recovery.row.recoveryLsn),
      .put (systemKey SYSTEM_RECOVERY_CHAIN_DIGEST_KEY)
        (encodeSystemDigest state.recovery.row.chainDigest)] := by
  have hmut : writesTo SYSTEM.id mutations = [] :=
    writesTo_commandMutations h.mutations_eq (executor_keyspace_ne (by decide))
  have h1 : ROOT_FENCE.id ≠ SYSTEM.id := by decide
  have h2 : HISTORY.id ≠ SYSTEM.id := by decide
  have h3 : CHANGE_EVENT.id ≠ SYSTEM.id := by decide
  have h4 : COMMAND_DEDUPE.id ≠ SYSTEM.id := by decide
  rw [h.txn_eq, writesTo_enqueueRecovery_system]
  simp only [writesTo_append, writesTo_cons, writesTo_rowMutations, hmut,
    writesTo_rootFenceMutations, Mutation.key, systemKey, h1,
    h2, h3, h4, nil_append, append_nil, cons_append, reduceIte]

lemma BuiltFrom.writesTo_outbox_base : writesTo RECOVERY_OUTBOX.id (
      [.put (systemKey SYSTEM_COMMIT_CLOCK_KEY) (encodeSystemU64 state.nextVersion.val)] ++
      rootFenceMutations command.rootId state.rootPlan ++ rowMutations HISTORY.id history ++
      mutations ++ rowMutations CHANGE_EVENT.id events ++ rowMutations COMMAND_DEDUPE.id
        [(commandDedupeKey command.rootId command.requestId, dedupeRecord)]) = [] := by
  have hmut : writesTo RECOVERY_OUTBOX.id mutations = [] :=
    writesTo_commandMutations h.mutations_eq (executor_keyspace_ne (by decide))
  have h0 : SYSTEM.id ≠ RECOVERY_OUTBOX.id := by decide
  have h1 : ROOT_FENCE.id ≠ RECOVERY_OUTBOX.id := by decide
  have h2 : HISTORY.id ≠ RECOVERY_OUTBOX.id := by decide
  have h3 : CHANGE_EVENT.id ≠ RECOVERY_OUTBOX.id := by decide
  have h4 : COMMAND_DEDUPE.id ≠ RECOVERY_OUTBOX.id := by decide
  simp only [writesTo_append, writesTo_cons, writesTo_nil, writesTo_rowMutations, hmut,
    writesTo_rootFenceMutations, Mutation.key, systemKey, h0, h1,
    h2, h3, h4, append_nil, reduceIte]

end

variable {s : State}

variable (h : BuiltFrom command state txn dedupeRecord history events mutations checks)
include h

lemma BuiltFrom.unmutated {f : MetadataFamily} {k : Bytes}
    (hm : ∀ m ∈ command.mutations, ¬ (m.family = f ∧ m.key = k)) :
    (s.writeAll txn.mutations).get ⟨f.keyspace, k⟩ = s.get ⟨f.keyspace, k⟩ := by
  refine get_writeAll_of_notMem_writesTo fun out hout heq => ?_
  rw [show (⟨f.keyspace, k⟩ : Key).keyspace = f.keyspace from rfl, h.writesTo_family] at hout
  obtain ⟨m, hmem, hok⟩ := exists_of_forall₂_right h.mutations_eq (mem_writesTo.1 hout).1
  rw [commandMutation_key hok] at heq
  have hfamily : m.family.keyspace = f.keyspace := congrArg Key.keyspace heq
  exact hm m hmem ⟨MetadataFamily.keyspace_injective hfamily, congrArg Key.bytes heq⟩

variable (hnd : (txn.mutations.map Mutation.key).Nodup)
include hnd

/-- A keyspace whose rows are only derived from the command gains those rows. -/
lemma BuiltFrom.adds {rows : List (Bytes × Bytes)} (hchecks : txn.checks.all s.holds = true)
    (hwrites : writesTo ks txn.mutations = rowMutations ks rows)
    (hrows : ∀ check ∈ rowChecks ks rows, check ∈ rowChecks HISTORY.id history ++
      rowChecks CHANGE_EVENT.id events ++ rowChecks COMMAND_DEDUPE.id
        [(commandDedupeKey command.rootId command.requestId, dedupeRecord)]) :
    Adds s (s.writeAll txn.mutations) ks rows := by
  refine adds_of_rowMutations hnd hwrites fun row hrow => ?_
  refine holds_absent.1 (all_eq_true.1 hchecks (.absent ⟨ks, row.1⟩) ?_)
  have hmem : Check.absent ⟨ks, row.1⟩ ∈ rowChecks ks rows := mem_map.2 ⟨row, hrow, rfl⟩
  have hcheck := h.checks_of _ (hrows _ hmem)
  rw [h.txn_eq]
  exact mem_append_left _ (mem_append_left _ hcheck)

lemma BuiltFrom.mutated {m : CommandMutation} (hm : m ∈ command.mutations) :
    m.Leaves state ((s.writeAll txn.mutations).get ⟨m.family.keyspace, m.key⟩) := by
  obtain ⟨out, hout, hok⟩ := exists_of_forall₂_left h.mutations_eq hm
  have hkey := commandMutation_key hok
  have hmem : out ∈ writesTo out.key.keyspace txn.mutations := by
    rw [hkey, h.writesTo_family]
    exact mem_writesTo.2 ⟨hout, by rw [hkey]⟩
  have hget : (s.writeAll txn.mutations).get ⟨m.family.keyspace, m.key⟩ = out.result := by
    rw [← hkey]
    exact get_writeAll_of_writesTo hnd hmem
  rw [hget]
  cases m with
  | put =>
    obtain ⟨planned, encoded, hplanned, hencoded, rfl⟩ := commandMutation_put hok
    exact ⟨planned, encoded, hplanned, hencoded, rfl⟩
  | delete =>
    cases Except.ok.inj hok
    rfl

lemma BuiltFrom.commandEffect (hchecks : txn.checks.all s.holds = true) :
    CommandEffect s (s.writeAll txn.mutations) command state := by
  -- what the transaction writes, keyspace by keyspace
  have hhistory : writesTo HISTORY.id txn.mutations = rowMutations HISTORY.id history := by
    rw [h.writesTo_executor (executor_keyspace_ne (by decide)) (by unfold IsPlain; decide)]
    simp +decide
  have hevents : writesTo CHANGE_EVENT.id txn.mutations = rowMutations CHANGE_EVENT.id events := by
    rw [h.writesTo_executor (executor_keyspace_ne (by decide)) (by unfold IsPlain; decide)]
    simp +decide
  have hdedupe : writesTo COMMAND_DEDUPE.id txn.mutations = rowMutations COMMAND_DEDUPE.id
      [(commandDedupeKey command.rootId command.requestId, dedupeRecord)] := by
    rw [h.writesTo_executor (executor_keyspace_ne (by decide)) (by unfold IsPlain; decide)]
    simp +decide
  have hfence : writesTo ROOT_FENCE.id txn.mutations =
      rootFenceMutations command.rootId state.rootPlan := by
    rw [h.writesTo_executor (executor_keyspace_ne (by decide)) (by unfold IsPlain; decide)]
    simp +decide
  have hclock : Mutation.put (systemKey SYSTEM_COMMIT_CLOCK_KEY) (encodeSystemU64 state.nextVersion.val) ∈
      writesTo SYSTEM.id txn.mutations := by
    rw [h.writesTo_system]
    exact mem_cons_self ..
  refine
    { clock := get_writeAll_of_writesTo hnd hclock
      system := fun k hk hlsn hdigest => ?_
      history := ⟨history, h.history_eq, h.adds hnd hchecks hhistory fun c hc =>
        mem_append_left _ (mem_append_left _ hc)⟩
      events := ⟨events, h.events_eq, h.adds hnd hchecks hevents fun c hc =>
        mem_append_left _ (mem_append_right _ hc)⟩
      dedupe := ⟨dedupeRecord, h.dedupe_eq, h.adds hnd hchecks hdedupe fun c hc =>
        mem_append_right _ hc⟩
      fence_of_ne := fun k hk => ?_
      fence := ?_
      mutated := fun m hm => h.mutated hnd hm
      unmutated := fun f k hm => h.unmutated hm }
  · -- the other rows of the system
    refine get_writeAll_of_notMem_writesTo fun m hm heq => ?_
    rw [show (systemKey k).keyspace = SYSTEM.id from rfl, h.writesTo_system] at hm
    simp only [mem_cons, not_mem_nil, or_false] at hm
    rcases hm with rfl | rfl | rfl
    · exact hk (congrArg Key.bytes heq).symm
    · exact hlsn (congrArg Key.bytes heq).symm
    · exact hdigest (congrArg Key.bytes heq).symm
  · -- the fences of other roots
    refine get_writeAll_of_notMem_writesTo fun m hm heq => ?_
    rw [show (⟨ROOT_FENCE.id, k⟩ : Key).keyspace = ROOT_FENCE.id from rfl, hfence] at hm
    have hkey : m.key = ⟨ROOT_FENCE.id, command.rootId.bytes⟩ := by
      revert hm
      cases state.rootPlan <;> simp [rootFenceMutations] <;> rintro rfl <;> rfl
    rw [hkey] at heq
    exact hk (congrArg Key.bytes heq).symm
  · -- the fence of the root, by its plan
    have hput : ∀ value, Mutation.put ⟨ROOT_FENCE.id, command.rootId.bytes⟩ value ∈
        rootFenceMutations command.rootId state.rootPlan →
        (s.writeAll txn.mutations).get ⟨ROOT_FENCE.id, command.rootId.bytes⟩ = some value := by
      intro value hmem
      rw [← hfence] at hmem
      exact get_writeAll_of_writesTo hnd hmem
    cases hplan : state.rootPlan with
    | install value => exact hput value (by simp [hplan, rootFenceMutations])
    | assert =>
      refine get_writeAll_of_notMem_writesTo fun m hm => ?_
      rw [show (⟨ROOT_FENCE.id, command.rootId.bytes⟩ : Key).keyspace = ROOT_FENCE.id from rfl, hfence,
        hplan] at hm
      cases hm
    | replace _ value => exact hput value (by simp [hplan, rootFenceMutations])

end CommandWrites

end NoKV.Meta
