import NoKV.Meta.Engine.Write

/-!
# What one session does to the rows

A session leaves the store as it was or applies one planned transaction (`serve_cases`). For each
entrypoint the transaction is described keyspace by keyspace: derived keyspaces only gain rows that
were absent (`Adds`), and every transaction appends one recovery record.
-/

namespace NoKV.Meta

open Lib Store State
open Prog hiding bind pure get

/-! ### Rows gained by a keyspace -/

/-- The keyspace gains exactly `rows`, none of whose keys was there. -/
structure Adds (s s' : State) (ks : Keyspace) (rows : List (Bytes × Bytes)) : Prop where
  fresh : ∀ row ∈ rows, s.get ⟨ks, row.1⟩ = none
  get_eq_some : ∀ key value,
    s'.get ⟨ks, key⟩ = some value ↔ s.get ⟨ks, key⟩ = some value ∨ (key, value) ∈ rows

variable {rows : List (Bytes × Bytes)}

lemma Adds.keep {s s' : State} {ks : Keyspace} (h : Adds s s' ks rows) {key value : Bytes}
    (hget : s.get ⟨ks, key⟩ = some value) :
    s'.get ⟨ks, key⟩ = some value := (h.get_eq_some key value).2 (.inl hget)

@[simp] lemma writesTo_rowMutations (ks ks' : Keyspace) (rows : List (Bytes × Bytes)) :
    writesTo ks (rowMutations ks' rows) = if ks' = ks then rowMutations ks' rows else [] := by
  have hkey : ∀ m ∈ rowMutations ks' rows, m.key.keyspace = ks' := by
    intro m hm
    obtain ⟨_, -, rfl⟩ := List.mem_map.1 hm
    rfl
  split
  next h => exact List.filter_eq_self.2 fun m hm => by simp [hkey m hm, h]
  next h => exact List.filter_eq_nil_iff.2 fun m hm => by simp [hkey m hm, h]

lemma adds_of_rowMutations {s : State} {txn : WriteTxn} {ks : Keyspace}
    (hnd : (txn.mutations.map Mutation.key).Nodup) (hwrites : writesTo ks txn.mutations = rowMutations ks rows)
    (hfresh : ∀ row ∈ rows, s.get ⟨ks, row.1⟩ = none) : Adds s (s.writeAll txn.mutations) ks rows := by
  have hput : ∀ row ∈ rows, (s.writeAll txn.mutations).get ⟨ks, row.1⟩ = some row.2 := by
    intro row hrow
    refine get_writeAll_of_writesTo (m := .put ⟨ks, row.1⟩ row.2) hnd ?_
    show _ ∈ writesTo ks txn.mutations
    rw [hwrites]
    exact List.mem_map_of_mem hrow
  refine ⟨hfresh, fun key value => ?_⟩
  by_cases hkey : ∃ row ∈ rows, row.1 = key
  · obtain ⟨row, hrow, rfl⟩ := hkey
    rw [hput row hrow, hfresh row hrow]
    constructor
    · intro h
      cases h
      exact .inr hrow
    · rintro (h | h)
      · cases h
      · exact ((hput row hrow).symm.trans (hput _ h))
  · have hkeep : (s.writeAll txn.mutations).get ⟨ks, key⟩ = s.get ⟨ks, key⟩ := by
      refine get_writeAll_of_notMem_writesTo fun m hm heq => ?_
      rw [show (⟨ks, key⟩ : Key).keyspace = ks from rfl, hwrites] at hm
      obtain ⟨row, hrow, rfl⟩ := List.mem_map.1 hm
      exact hkey ⟨row, hrow, congrArg Key.bytes heq⟩
    rw [hkeep]
    exact ⟨.inl, fun h => h.resolve_right fun hmem => hkey ⟨_, hmem, rfl⟩⟩

/-! ### Applied transactions -/

variable {α : Type} {command : MetadataCommand} {leaseDeadlineMs : Option UInt64}

/-- The state after a submission is the state before it or the state with the whole transaction
applied. -/
lemma submit_cases (s : State) (fault : Option (StoreError × Bool)) (operation : String) (txn : WriteTxn)
    (applied : α) (conflict : Shard α) :
    (submit s fault operation txn applied conflict).2 = s ∨
      (txn.validate storeLimits = .ok () ∧ txn.checks.all s.holds = true ∧
        (submit s fault operation txn applied conflict).2 = s.writeAll txn.mutations) := by
  unfold submit
  cases hvalid : txn.validate storeLimits with
  | error => exact .inl rfl
  | ok u =>
    cases u
    unfold State.commit
    by_cases hchecks : txn.checks.all s.holds = true
    · simp only [if_pos hchecks]
      cases fault with
      | none => exact .inr ⟨trivial, hchecks, rfl⟩
      | some fault =>
        obtain ⟨error, isApplied⟩ := fault
        cases isApplied with
        | false => exact .inl rfl
        | true => exact .inr ⟨trivial, hchecks, rfl⟩
    · simp only [if_neg hchecks]
      left
      cases fault with
      | none => rfl
      | some fault =>
        obtain ⟨_, isApplied⟩ := fault
        cases isApplied <;> rfl

/-- An entrypoint changes nothing or applies the transaction that it planned. -/
lemma attempt_cases (fault : Option (StoreError × Bool)) (work : Shard (Planned α)) (s : State) :
    (attempt fault work s).2 = s ∨ ∃ operation txn applied conflict,
      work.runAt s = .ok (.commit operation txn applied conflict) ∧ txn.validate storeLimits = .ok () ∧
        txn.checks.all s.holds = true ∧ (attempt fault work s).2 = s.writeAll txn.mutations := by
  unfold attempt
  cases work.runAt s with
  | error => exact .inl rfl
  | ok planned =>
    cases planned with
    | done => exact .inl rfl
    | commit operation txn applied conflict =>
      refine (submit_cases s fault operation txn applied conflict).imp id ?_
      rintro ⟨hvalid, hchecks, heq⟩
      exact ⟨operation, txn, applied, conflict, rfl, hvalid, hchecks, heq⟩

variable [Pager] [Sha256]

/-- The call plans the transaction at `s`. -/
def Plans (shard : LogicalShardId) (s : State) (call : Call) (txn : WriteTxn) (reply : Reply) : Prop :=
  ∃ operation conflict, (call.plan shard).runAt s = .ok (.commit operation txn reply conflict)

/-- The call planned the transaction at `s`, and the transaction applies there. -/
structure Applied (shard : LogicalShardId) (s : State) (call : Call) (txn : WriteTxn) (reply : Reply) :
    Prop where
  plan : Plans shard s call txn reply
  valid : txn.validate storeLimits = .ok ()
  checks : txn.checks.all s.holds = true

lemma Applied.nodup {shard : LogicalShardId} {s : State} {call : Call} {txn : WriteTxn}
    {reply : Reply} (h : Applied shard s call txn reply) : (txn.mutations.map Mutation.key).Nodup :=
  (WriteTxn.valid_of_validate h.valid).nodup

/-- A session changes nothing or applies the transaction of its call. -/
lemma serve_cases (shard : LogicalShardId) (s : State) (request : Request) :
    (serve shard s request).2 = s ∨
      ∃ txn reply, Applied shard s request.call txn reply ∧
        (serve shard s request).2 = s.writeAll txn.mutations := by
  have hsettle : (serve shard s request).2 =
      (attempt request.faults.submit (request.call.plan shard) s).2 := by
    unfold serve writeSession
    cases request.faults.settle <;> rfl
  rw [hsettle]
  refine (attempt_cases request.faults.submit (request.call.plan shard) s).imp id ?_
  rintro ⟨operation, txn, reply, conflict, hplan, hvalid, hchecks, heq⟩
  exact ⟨txn, reply, ⟨⟨operation, conflict, hplan⟩, hvalid, hchecks⟩, heq⟩

/-! ### The transaction of each entrypoint -/

lemma replayedResult_eq_none {s : State} {key : Bytes} {digest : CommandDigest}
    (h : (replayedResult key digest).runAt s = .ok none) : s.get ⟨COMMAND_DEDUPE.id, key⟩ = none := by
  unfold replayedResult at h
  rw [runAt_bind] at h
  obtain ⟨found, hread, h⟩ := bind_eq_ok.1 h
  rw [readValue_eq_ok hread]
  cases found with
  | none => rfl
  | some =>
    simp only [runAt_bind, runAt_liftM, runAt_refuseIf, runAt_pure] at h
    obtain ⟨_, -, h⟩ := bind_eq_ok.1 h
    replace h := ok_of_bind h
    obtain ⟨_, -, h⟩ := bind_eq_ok.1 h
    cases Except.ok.inj h

/-- The write that a transaction planned at `s` makes, as its recovery record names it. -/
inductive Wrote (shard : LogicalShardId) (s : State) :
    RecoveryMutationV1 → RecoveryResultV1 → RecoveryPlan → WriteTxn → Prop
  | command {command : MetadataCommand} {leaseDeadlineMs : Option UInt64} {state : CommandTxnState}
      {txn : WriteTxn} (valid : validateCommand shard command = .ok ())
      (digest : command.commandDigest = command.canonicalDigest)
      (fresh : s.get ⟨COMMAND_DEDUPE.id, commandDedupeKey command.rootId command.requestId⟩ = none)
      (planned : state.PlannedAt s command leaseDeadlineMs)
      (built : buildCommandTxn command state = .ok txn) :
      Wrote shard s (.metadataCommand command leaseDeadlineMs)
        (.metadataCommand state.nextVersion command.deterministicResult) state.recovery txn
  | observeLeaseClock {rootId : RootId} {placementGeneration : PlacementGeneration}
      {ownerEpoch : OwnerEpoch} {observedMs current : UInt64} {plan : RecoveryPlan}
      {checks : List Check}
      (owner : s.get (systemKey SYSTEM_OWNER_FENCE_KEY) = some (encodeSystemU64 ownerEpoch.val))
      (clock : s.get (systemKey SYSTEM_LEASE_CLOCK_HIGH_WATER_KEY) = some (encodeSystemU64 current))
      (later : current.toNat < observedMs.toNat)
      (checked : ∀ check ∈ [valueCheck SYSTEM.id SYSTEM_OWNER_FENCE_KEY (encodeSystemU64 ownerEpoch.val),
        valueCheck SYSTEM.id SYSTEM_LEASE_CLOCK_HIGH_WATER_KEY (encodeSystemU64 current)], check ∈ checks)
      (recovery : (planRecovery (.observeLeaseClock rootId placementGeneration ownerEpoch observedMs)
        (.leaseClock observedMs)).runAt s = .ok plan) :
      Wrote shard s (.observeLeaseClock rootId placementGeneration ownerEpoch observedMs)
        (.leaseClock observedMs) plan
        (enqueueRecovery ⟨checks, [.put (systemKey SYSTEM_LEASE_CLOCK_HIGH_WATER_KEY)
          (encodeSystemU64 observedMs)]⟩ plan)
  | advanceOwnerEpoch {expected : Option OwnerEpoch} {next : OwnerEpoch} {current : UInt64}
      {plan : RecoveryPlan} {checks : List Check}
      (owner : s.get (systemKey SYSTEM_OWNER_FENCE_KEY) = some (encodeSystemU64 current))
      (current_eq : current = (expected.map NonZeroU64.val).getD 0)
      (later : current.toNat < next.get)
      (checked : valueCheck SYSTEM.id SYSTEM_OWNER_FENCE_KEY (encodeSystemU64 current) ∈ checks)
      (recovery : (planRecovery (.advanceOwnerEpoch expected next) (.ownerEpoch next)).runAt s =
        .ok plan) :
      Wrote shard s (.advanceOwnerEpoch expected next) (.ownerEpoch next) plan
        (enqueueRecovery ⟨checks, [.put (systemKey SYSTEM_OWNER_FENCE_KEY)
          (encodeSystemU64 next.val)]⟩ plan)

variable {shard : LogicalShardId} {s : State} {txn : WriteTxn} {reply : Reply}

/-- A command is written once it was validated and its request is new. -/
lemma Wrote.accepted {result : RecoveryResultV1} {plan : RecoveryPlan}
    (h : Wrote shard s (.metadataCommand command leaseDeadlineMs) result plan txn) :
    validateCommand shard command = .ok () ∧ command.commandDigest = command.canonicalDigest ∧
      s.get ⟨COMMAND_DEDUPE.id, commandDedupeKey command.rootId command.requestId⟩ = none := by
  cases h with
  | command valid digest fresh => exact ⟨valid, digest, fresh⟩

omit [Pager] [Sha256] in
lemma map_runAt_commit {f : α → Reply} {p : Shard (Planned α)} {operation : String}
    {conflict : Shard Reply}
    (h : (Planned.map f <$> p).runAt s = .ok (.commit operation txn reply conflict)) :
    ∃ applied conflict', p.runAt s = .ok (.commit operation txn applied conflict') ∧
      reply = f applied := by
  rw [runAt_map] at h
  obtain ⟨planned, hplan, h⟩ := map_eq_ok.1 h
  cases planned with
  | done => cases h
  | commit _ _ applied conflict' =>
    cases h
    exact ⟨applied, conflict', hplan, rfl⟩

lemma executeWithLeaseDeadline_eq_ok {planned : Planned MetadataCommandResult}
    (h : (executeWithLeaseDeadline shard command leaseDeadlineMs).runAt s = .ok planned) :
    validateCommand shard command = .ok () ∧ command.commandDigest = command.canonicalDigest ∧
      (executeUnlocked command leaseDeadlineMs).runAt s = .ok planned := by
  unfold executeWithLeaseDeadline at h
  simp only [runAt_bind, runAt_liftM, runAt_refuseIf] at h
  obtain ⟨_, hvalid, h⟩ := bind_eq_ok.1 h
  obtain ⟨hdigest, h⟩ := refuseIf_not_bind h
  exact ⟨hvalid, hdigest, h⟩

/-- A command plans nothing once its request was answered, or its transaction. -/
lemma executeUnlocked_eq_ok {planned : Planned MetadataCommandResult}
    (h : (executeUnlocked command leaseDeadlineMs).runAt s = .ok planned) :
    (∃ result, (replayedResult (commandDedupeKey command.rootId command.requestId)
        command.commandDigest).runAt s = .ok (some result) ∧ planned = .done result) ∨
      ∃ state operation txn, (replayedResult (commandDedupeKey command.rootId command.requestId)
          command.commandDigest).runAt s = .ok none ∧
        (planCommand command leaseDeadlineMs).runAt s = .ok state ∧ buildCommandTxn command state = .ok txn ∧
        planned = .commit operation txn ⟨state.nextVersion, command.deterministicResult,
          state.recovery.row.recoveryLsn, state.recovery.row.chainDigest, false⟩
          (resolveConflict (commandDedupeKey command.rootId command.requestId) command.commandDigest) := by
  unfold executeUnlocked at h
  rw [runAt_bind] at h
  obtain ⟨replayed, hreplayed, h⟩ := bind_eq_ok.1 h
  cases replayed with
  | some result => exact .inl ⟨result, hreplayed, (Except.ok.inj h).symm⟩
  | none =>
    simp only [runAt_bind, runAt_liftM, runAt_pure] at h
    obtain ⟨state, hstate, h⟩ := bind_eq_ok.1 h
    obtain ⟨txn, htxn, rfl⟩ := bind_pure_eq_ok h
    exact .inr ⟨state, _, txn, hreplayed, hstate, htxn, rfl⟩

/-- An observation is for the current owner, and a conflict fails it. -/
lemma observeLeaseClock_eq_ok {rootId : RootId} {placementGeneration : PlacementGeneration}
    {ownerEpoch : OwnerEpoch} {observedMs : UInt64} {planned : Planned UInt64}
    (h : (Meta.observeLeaseClock shard rootId placementGeneration ownerEpoch observedMs).runAt s =
      .ok planned) :
    s.get (systemKey SYSTEM_OWNER_FENCE_KEY) = some (encodeSystemU64 ownerEpoch.val) ∧
      ((∃ current, planned = .done current) ∨ ∃ operation txn plan,
        planned = .commit operation txn observedMs (throw MetaError.writeConflict) ∧
        Wrote shard s (.observeLeaseClock rootId placementGeneration ownerEpoch observedMs)
          (.leaseClock observedMs) plan txn) := by
  unfold Meta.observeLeaseClock at h
  simp only [runAt_bind, runAt_refuseIf] at h
  obtain ⟨_, -, h⟩ := bind_eq_ok.1 h
  obtain ⟨_, -, h⟩ := bind_eq_ok.1 h
  obtain ⟨⟨_, actualOwner⟩, howner, h⟩ := bind_eq_ok.1 h
  obtain ⟨hepoch, h⟩ := refuseIf_not_bind h
  obtain ⟨_, -, h⟩ := bind_eq_ok.1 h
  obtain ⟨⟨_, _⟩, hclock, h⟩ := bind_eq_ok.1 h
  obtain ⟨hownerGet, hownerRaw⟩ := requiredU64_eq_ok howner
  obtain ⟨hclockGet, hclockRaw⟩ := requiredU64_eq_ok hclock
  have hepoch' : actualOwner = ownerEpoch.val := hepoch
  have hget : s.get (systemKey SYSTEM_OWNER_FENCE_KEY) = some (encodeSystemU64 ownerEpoch.val) := by
    rw [hownerGet, hownerRaw, hepoch']
  refine ⟨hget, ?_⟩
  split at h
  · cases Except.ok.inj h
    exact .inl ⟨_, rfl⟩
  next hlater =>
    simp only [runAt_bind, runAt_pure] at h
    obtain ⟨plan, hrecovery, rfl⟩ := bind_pure_eq_ok h
    refine .inr ⟨_, _, plan, rfl, .observeLeaseClock hget (hclockRaw ▸ hclockGet) (not_le.1 hlater) ?_ hrecovery⟩
    rw [hownerRaw, hclockRaw, hepoch']
    simp

/-- An advance finds its epoch there already or plans it, and a conflict fails it. -/
lemma advanceOwnerEpoch_eq_ok {expected : Option OwnerEpoch} {next : OwnerEpoch} {planned : Planned Unit}
    (h : (Meta.advanceOwnerEpoch shard expected next).runAt s = .ok planned) : (planned = .done () ∧
        s.get (systemKey SYSTEM_OWNER_FENCE_KEY) = some (encodeSystemU64 next.val)) ∨
      ∃ operation txn plan, planned = .commit operation txn () (throw MetaError.writeConflict) ∧
        Wrote shard s (.advanceOwnerEpoch expected next) (.ownerEpoch next) plan txn := by
  unfold Meta.advanceOwnerEpoch at h
  simp only [runAt_bind] at h
  obtain ⟨_, -, h⟩ := bind_eq_ok.1 h
  obtain ⟨_, -, h⟩ := bind_eq_ok.1 h
  obtain ⟨⟨_, current⟩, howner, h⟩ := bind_eq_ok.1 h
  obtain ⟨hget, hraw⟩ := requiredU64_eq_ok howner
  split at h
  next hnext =>
    cases Except.ok.inj h
    have hnext' : current = next.val := hnext
    exact .inl ⟨rfl, by rw [hget, hraw, hnext']⟩
  · simp only [runAt_bind, runAt_refuseIf, runAt_pure] at h
    obtain ⟨hexpected, h⟩ := refuseIf_not_bind h
    obtain ⟨hlater, h⟩ := refuseIf_bind h
    obtain ⟨plan, hrecovery, rfl⟩ := bind_pure_eq_ok h
    refine .inr ⟨_, _, plan, rfl, .advanceOwnerEpoch (hraw ▸ hget) hexpected (not_le.1 hlater) ?_ hrecovery⟩
    rw [hraw]
    simp

lemma Plans.execute_cases (h : Plans shard s (.execute command leaseDeadlineMs) txn reply) :
    ∃ state : CommandTxnState, Wrote shard s (.metadataCommand command leaseDeadlineMs)
        (.metadataCommand state.nextVersion command.deterministicResult) state.recovery txn ∧
      reply = .command ⟨state.nextVersion, command.deterministicResult,
        state.recovery.row.recoveryLsn, state.recovery.row.chainDigest, false⟩ := by
  obtain ⟨_, _, hplan⟩ := h
  obtain ⟨_, _, hwork, rfl⟩ := map_runAt_commit hplan
  obtain ⟨hvalid, hdigest, hwork⟩ := executeWithLeaseDeadline_eq_ok hwork
  obtain ⟨_, -, ⟨⟩⟩ | ⟨state, _, _, hreplayed, hstate, htxn, ⟨⟩⟩ := executeUnlocked_eq_ok hwork
  exact ⟨state, .command hvalid hdigest
    (replayedResult_eq_none hreplayed) (planCommand_eq_ok hstate) htxn, rfl⟩

lemma Plans.observeLeaseClock_cases {rootId : RootId} {placementGeneration : PlacementGeneration}
    {ownerEpoch : OwnerEpoch} {observedMs : UInt64}
    (h : Plans shard s (.observeLeaseClock rootId placementGeneration ownerEpoch observedMs) txn reply) :
    ∃ plan, Wrote shard s (.observeLeaseClock rootId placementGeneration ownerEpoch observedMs)
      (.leaseClock observedMs) plan txn ∧ reply = .leaseClock observedMs := by
  obtain ⟨_, _, hplan⟩ := h
  obtain ⟨_, _, hwork, rfl⟩ := map_runAt_commit hplan
  obtain ⟨-, ⟨_, ⟨⟩⟩ | ⟨_, _, plan, ⟨⟩, hwrote⟩⟩ := observeLeaseClock_eq_ok hwork
  exact ⟨plan, hwrote, rfl⟩

lemma Plans.advanceOwnerEpoch_cases {expected : Option OwnerEpoch} {next : OwnerEpoch}
    (h : Plans shard s (.advanceOwnerEpoch expected next) txn reply) :
    ∃ plan, Wrote shard s (.advanceOwnerEpoch expected next) (.ownerEpoch next) plan txn ∧
      reply = .ownerEpoch := by
  obtain ⟨_, _, hplan⟩ := h
  obtain ⟨_, _, hwork, rfl⟩ := map_runAt_commit hplan
  obtain ⟨⟨⟩, -⟩ | ⟨_, _, plan, ⟨⟩, hwrote⟩ := advanceOwnerEpoch_eq_ok hwork
  exact ⟨plan, hwrote, rfl⟩

lemma Plans.wrote {call : Call} (h : Plans shard s call txn reply) :
    ∃ result plan, Wrote shard s call.mutation result plan txn := by
  cases call with
  | execute =>
    obtain ⟨_, hwrote, -⟩ := h.execute_cases
    exact ⟨_, _, hwrote⟩
  | observeLeaseClock =>
    obtain ⟨plan, hwrote, -⟩ := h.observeLeaseClock_cases
    exact ⟨_, _, hwrote⟩
  | advanceOwnerEpoch =>
    obtain ⟨_, hwrote, -⟩ := h.advanceOwnerEpoch_cases
    exact ⟨_, _, hwrote⟩

end NoKV.Meta
