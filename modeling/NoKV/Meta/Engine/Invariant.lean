import Mathlib.Data.List.Induction
import NoKV.Meta.Engine.System
import NoKV.Meta.Engine.Version

/-!
# The invariant of a running shard

`Inv shard s log`: the store `s` was left by a run whose writes are the recovery records `log`. The
invariant holds of a freshly initialized shard and is kept by every session (`inv_initialized`,
`Inv.serve`), so it holds after every run (`inv_serveAll`).
-/

namespace NoKV.Meta

open Lib Store State Mvcc List

/-! ### The parts of the invariant -/

/-- Every row is within the limits of the store. -/
def Bounded (s : State) : Prop :=
  ∀ key value, s.get key = some value →
    key.bytes.length ≤ MAX_DERIVED_KEY_BYTES ∧ value.length ≤ MAX_STORED_VALUE_BYTES

/-- Metadata rows and History rows decode, and form well-formed cells under the clock. -/
structure RowsInv (s : State) (clock : ℕ) : Prop where
  current : ∀ (f : MetadataFamily) (k raw : Bytes), s.get ⟨f.keyspace, k⟩ = some raw →
    k.length ≤ MAX_COMMAND_KEY_BYTES ∧
      ∃ value, CurrentValue.decode raw = .ok value ∧ value.modifiedVersion.get ≤ clock
  history : ∀ key raw, s.get ⟨HISTORY.id, key⟩ = some raw →
    ∃ (f : MetadataFamily) (k : Bytes) (history : HistoryValue), k.length ≤ MAX_COMMAND_KEY_BYTES ∧
      key = historyKey f k history.transitionVersion ∧ HistoryValue.decode raw = .ok history ∧
      history.previousPayload.isSome
  cell : ∀ f : MetadataFamily, f ≠ .artifactInlineBody → ∀ k : Bytes, k.length ≤ MAX_COMMAND_KEY_BYTES →
    (cellOf s f k).Wf clock

def recordRows (lsn : UInt64) (header : Bytes) (chunks : List Bytes) : List (Bytes × Bytes) :=
  (recoveryOutboxKey lsn, header) :: chunkRows lsn chunks 0

lemma outboxRows_eq (plan : RecoveryPlan) :
    outboxRows plan = recordRows plan.row.recoveryLsn plan.header plan.chunks := rfl

/-- The dedupe row of a command record. -/
inductive DedupeRow (row : RecoveryOutboxRecord) : Bytes → Bytes → Prop
  | intro {command : MetadataCommand} {leaseDeadlineMs : Option UInt64} {commitVersion : CommitVersion}
      {deterministicResult value : Bytes}
      (mutation_eq : row.mutation = .metadataCommand command leaseDeadlineMs)
      (result_eq : row.result = .metadataCommand commitVersion deterministicResult)
      (encoded : CommandDedupeRecord.encode ⟨command.commandDigest, commitVersion, row.recoveryLsn,
        deterministicResult⟩ = .ok value) :
      DedupeRow row (commandDedupeKey command.rootId command.requestId) value

/-- Does the record stem from a command? -/
def RecoveryOutboxRecord.isCommand (row : RecoveryOutboxRecord) : Bool :=
  match row.mutation with
  | .metadataCommand _ _ => true
  | _ => false

lemma isCommand_of_mutation {row : RecoveryOutboxRecord} {command : MetadataCommand}
    {leaseDeadlineMs : Option UInt64} (h : row.mutation = .metadataCommand command leaseDeadlineMs) :
    row.isCommand = true := by
  unfold RecoveryOutboxRecord.isCommand
  rw [h]

section Sha

variable [Sha256]

/-- The outbox and the dedupe rows are those of the log. -/
structure LogInv (shard : LogicalShardId) (s : State) (log : List RecoveryOutboxRecord) : Prop where
  chain : recordLink.ChainFrom 0 (recoveryGenesisDigest shard) log
  stored : ∀ row ∈ log, ∃ header chunks, StoredAs row header chunks ∧
    (chunks.map List.length).sum ≤ storeLimits.maxTransactionBytes
  outbox : ∀ key value, s.get ⟨RECOVERY_OUTBOX.id, key⟩ = some value ↔
    ∃ row ∈ log, ∃ header chunks, StoredAs row header chunks ∧
      (key, value) ∈ recordRows row.recoveryLsn header chunks
  dedupe : ∀ key value, s.get ⟨COMMAND_DEDUPE.id, key⟩ = some value ↔
    ∃ row ∈ log, DedupeRow row key value
  deduped : ∀ row ∈ log, row.isCommand = true → ∃ key value, DedupeRow row key value

/-- The system records behind a log. -/
def systemAfter (shard : LogicalShardId) (log : List RecoveryOutboxRecord) : SystemRecords :=
  log.foldl SystemRecords.apply (SystemRecords.initial shard)

@[simp] lemma systemAfter_concat (shard : LogicalShardId) (log : List RecoveryOutboxRecord)
    (row : RecoveryOutboxRecord) :
    systemAfter shard (log ++ [row]) = (systemAfter shard log).apply row := by
  unfold systemAfter
  rw [foldl_append]
  rfl

lemma systemAfter_digest (shard : LogicalShardId) (log : List RecoveryOutboxRecord) :
    (systemAfter shard log).digest = recordLink.tail (recoveryGenesisDigest shard) log := by
  induction log using reverseRecOn with
  | nil => rfl
  | append_singleton =>
    rw [systemAfter_concat, SystemRecords.apply_digest, Link.tail_append]
    rfl

/-- The clock behind a log. -/
def clockAfter (shard : LogicalShardId) (log : List RecoveryOutboxRecord) : ℕ :=
  (systemAfter shard log).clock.toNat

/-- The store after a run whose writes are `log`. -/
structure Inv (shard : LogicalShardId) (s : State) (log : List RecoveryOutboxRecord) : Prop where
  system : SystemInv shard s (systemAfter shard log)
  lsn_eq : (systemAfter shard log).lsn.toNat = log.length
  clock_eq : (systemAfter shard log).clock.toNat = 1 + log.countP RecoveryOutboxRecord.isCommand
  bounded : Bounded s
  rows : RowsInv s (systemAfter shard log).clock.toNat
  log : LogInv shard s log

end Sha

/-! ### The initial state -/

section Initial

variable [Sha256] (shard : LogicalShardId)

lemma initialized_eq : initialized shard = State.empty.writeAll (initializeTxn shard).mutations := by
  have hchecks : (initializeTxn shard).checks.all State.empty.holds = true := by
    refine all_eq_true.2 fun check hcheck => ?_
    rcases mem_append.1 hcheck with h | h
    · obtain ⟨_, -, rfl⟩ := mem_map.1 h
      rfl
    · obtain ⟨_, -, rfl⟩ := mem_map.1 h
      rfl
  unfold initialized State.commit
  rw [if_pos hchecks]

lemma initializeTxn_nodup : ((initializeTxn shard).mutations.map Mutation.key).Nodup := by
  have : (initializeTxn shard).mutations.map Mutation.key = [
      systemKey SYSTEM_SCHEMA_KEY, systemKey SYSTEM_SHARD_IDENTITY_KEY,
      systemKey SYSTEM_OWNER_FENCE_KEY, systemKey SYSTEM_COMMIT_CLOCK_KEY,
      systemKey SYSTEM_LEASE_CLOCK_HIGH_WATER_KEY, systemKey SYSTEM_APPLIED_RECOVERY_LSN_KEY,
      systemKey SYSTEM_RECOVERY_CHAIN_DIGEST_KEY] := rfl
  rw [this]
  decide

lemma initialized_get_system {row : Bytes × Bytes} (h : row ∈ systemBootstrapRows shard) :
    (initialized shard).get (systemKey row.1) = some row.2 := by
  refine get_writeAll_of_mem (m := .put (systemKey row.1) row.2) (initializeTxn_nodup shard) ?_
  exact mem_map.2 ⟨row, h, rfl⟩

lemma initialized_get_other {ks : Keyspace} (h : ks ≠ SYSTEM.id) (key : Bytes) :
    (initialized shard).get ⟨ks, key⟩ = none := by
  refine get_writeAll_of_notMem fun m hm heq => ?_
  obtain ⟨_, -, rfl⟩ := mem_map.1 hm
  exact h (congrArg Key.keyspace heq).symm

lemma bounded_initialized : Bounded (initialized shard) := by
  have hlength : ∀ row ∈ systemBootstrapRows shard, row.1.length ≤ 22 ∧ row.2.length ≤ 33 := by
    simp only [systemBootstrapRows, forall_mem_cons, encodeShardIdentity, encodeSystemDigest,
      encodeSystemU64, length_cons, be_length, FixedBytes.length_bytes]
    decide
  intro key value hget
  rw [initialized_eq] at hget
  by_cases hkey : ∃ m ∈ (initializeTxn shard).mutations, m.key = key
  · obtain ⟨m, hm, rfl⟩ := hkey
    rw [get_writeAll_of_mem (initializeTxn_nodup shard) hm] at hget
    obtain ⟨row, hrow, rfl⟩ := mem_map.1 hm
    cases Option.some.inj hget
    have := hlength row hrow
    exact ⟨this.1.trans (by decide), this.2.trans (by decide)⟩
  · rw [get_writeAll_of_notMem fun m hm heq => hkey ⟨m, hm, heq⟩] at hget
    cases hget

lemma rowsInv_initialized (clock : ℕ) : RowsInv (initialized shard) clock := by
  have hhistory : ∀ key, (initialized shard).get ⟨HISTORY.id, key⟩ = none :=
    initialized_get_other shard (by decide)
  have hfamily : ∀ (f : MetadataFamily) k, (initialized shard).get ⟨f.keyspace, k⟩ = none :=
    fun f => initialized_get_other shard f.isPlain.1
  refine ⟨fun f k raw h => ?_, fun key raw h => ?_, fun f _ k _ => ?_⟩
  · rw [hfamily] at h
    cases h
  · cases h
  · have hcell : cellOf (initialized shard) f k = Cell.fresh := by
      unfold cellOf currentOf Cell.fresh
      rw [hfamily]
      congr 1
      refine Set.eq_empty_of_forall_notMem ?_
      rintro _ ⟨_, ⟨_, hget, -⟩, -⟩
      cases hget
    rw [hcell]
    exact Cell.wf_fresh clock

lemma inv_initialized : Inv shard (initialized shard) [] where
  system := by
    have hrow : ∀ row ∈ systemBootstrapRows shard,
        (initialized shard).get (systemKey row.1) = some row.2 := fun row => initialized_get_system shard
    simp only [systemBootstrapRows, forall_mem_cons] at hrow
    obtain ⟨hschema, hshard, howner, hclock, hlease, hlsn, hdigest, -⟩ := hrow
    exact ⟨hschema, hshard, howner, hclock, hlease, hlsn, hdigest⟩
  lsn_eq := rfl
  clock_eq := rfl
  bounded := bounded_initialized shard
  rows := rowsInv_initialized shard _
  log := {
    chain := trivial
    stored := fun row h => absurd h not_mem_nil
    outbox := fun key value => by
      rw [initialized_get_other shard (by decide)]
      simp
    dedupe := fun key value => by
      rw [initialized_get_other shard (by decide)]
      simp
    deduped := fun row h => absurd h not_mem_nil }

end Initial

/-! ### One write -/

section Step

variable [Pager] [Sha256] {shard : LogicalShardId} {s : State} {mutation : RecoveryMutationV1}
  {result : RecoveryResultV1} {plan : RecoveryPlan} {txn : WriteTxn} {sys : SystemRecords}
  {log : List RecoveryOutboxRecord}

omit [Pager] [Sha256] in
lemma Bounded.step (h : Bounded s) (hvalid : txn.Valid storeLimits) :
    Bounded (s.writeAll txn.mutations) := by
  intro key value hget
  by_cases hkey : ∃ m ∈ txn.mutations, m.key = key
  · obtain ⟨m, hm, rfl⟩ := hkey
    rw [get_writeAll_of_mem hvalid.nodup hm] at hget
    have hrow := hvalid.row_le m hm
    cases m with
    | put =>
      cases Option.some.inj hget
      exact hrow
    | delete => cases hget
  · rw [get_writeAll_of_notMem fun m hm heq => hkey ⟨m, hm, heq⟩] at hget
    exact h key value hget

variable {s' : State} {clock : ℕ} {leaseDeadlineMs : Option UInt64} {state : CommandTxnState}

omit [Pager] [Sha256] in
/-- Rows that no plain keyspace lost or gained keep their invariant. -/
lemma RowsInv.of_plain (h : RowsInv s clock)
    (hplain : ∀ ks, IsPlain ks → ∀ k, s'.get ⟨ks, k⟩ = s.get ⟨ks, k⟩) : RowsInv s' clock := by
  have hhistory : ∀ k, s'.get ⟨HISTORY.id, k⟩ = s.get ⟨HISTORY.id, k⟩ :=
    hplain _ (by unfold IsPlain; decide)
  refine ⟨fun f k raw hget => ?_, fun key raw hget => ?_, fun f hf k hk => ?_⟩
  · rw [hplain _ f.isPlain] at hget
    exact h.current f k raw hget
  · rw [hhistory] at hget
    exact h.history key raw hget
  · rw [cellOf_congr (hplain _ f.isPlain k) hhistory]
    exact h.cell f hf k hk

omit [Pager] in
lemma StoredAs.unique {row : RecoveryOutboxRecord} {header header' : Bytes} {chunks chunks' : List Bytes}
    (h : StoredAs row header chunks) (h' : StoredAs row header' chunks') :
    header = header' ∧ chunks = chunks' := by
  obtain ⟨_, hencode, hsplit⟩ := h.stored
  obtain ⟨_, hencode', hsplit'⟩ := h'.stored
  cases Except.ok.inj (hencode.symm.trans hencode')
  exact Prod.mk.inj (Except.ok.inj (hsplit.symm.trans hsplit'))

/-- A command is planned at the clock and commits at the next version. -/
lemma CommandTxnState.PlannedAt.clock_succ {command : MetadataCommand} (hsys : SystemInv shard s sys)
    (h : state.PlannedAt s command leaseDeadlineMs) :
    command.readVersion.val = sys.clock ∧ state.nextVersion.val.toNat = sys.clock.toNat + 1 := by
  have hclock : command.readVersion.val = sys.clock := by
    refine encodeSystemU64_injective (Option.some.inj ?_)
    rw [← h.clock_eq, ← h.clock, hsys.clock]
  refine ⟨hclock, ?_⟩
  rw [← hclock]
  exact h.next_eq

/-- What a reader at a version up to `clock` saw in `s`, it sees in `s'`. -/
def KeepsPast (s s' : State) (clock : ℕ) : Prop :=
  ∀ f : MetadataFamily, f ≠ .artifactInlineBody → ∀ k : Bytes, k.length ≤ MAX_COMMAND_KEY_BYTES →
    ∀ v ≤ clock, ∀ p, (cellOf s' f k).Shows v p ↔ (cellOf s f k).Shows v p

omit [Pager] [Sha256] in
lemma keepsPast_of_plain (clock : ℕ) (hplain : ∀ ks, IsPlain ks → ∀ k, s'.get ⟨ks, k⟩ = s.get ⟨ks, k⟩) :
    KeepsPast s s' clock := by
  intro f _ k _ v _ p
  rw [cellOf_congr (hplain _ f.isPlain k) (hplain _ (by unfold IsPlain; decide))]

/-- How the metadata rows of a state and of a later one are related. -/
structure RowsStep (s s' : State) (clock clock' : ℕ) : Prop where
  rows : RowsInv s' clock'
  keeps : KeepsPast s s' clock
  mono : clock ≤ clock'
  plain : clock' = clock → ∀ ks, IsPlain ks → ∀ k, s'.get ⟨ks, k⟩ = s.get ⟨ks, k⟩

omit [Pager] [Sha256] in
lemma RowsStep.refl (h : RowsInv s clock) : RowsStep s s clock clock :=
  ⟨h, fun _ _ _ _ _ _ _ => Iff.rfl, le_refl _, fun _ _ _ _ => rfl⟩

omit [Pager] [Sha256] in
lemma RowsStep.trans {s₁ s₂ : State} {c c₁ c₂ : ℕ} (h₁ : RowsStep s s₁ c c₁)
    (h₂ : RowsStep s₁ s₂ c₁ c₂) : RowsStep s s₂ c c₂ := by
  have hmono₁ := h₁.mono
  have hmono₂ := h₂.mono
  refine ⟨h₂.rows, fun f hf k hk v hv p => ?_, hmono₁.trans hmono₂, fun heq ks hks k => ?_⟩
  · exact (h₂.keeps f hf k hk v (hv.trans hmono₁) p).trans (h₁.keeps f hf k hk v hv p)
  · exact (h₂.plain (by omega) ks hks k).trans (h₁.plain (by omega) ks hks k)

lemma RowsStep.command {command : MetadataCommand} (h : RowsInv s clock) (hvalid : command.Valid shard)
    (hplanned : state.PlannedAt s command leaseDeadlineMs) (heffect : CommandEffect s s' command state)
    (hnext : state.nextVersion.get = clock + 1) : RowsStep s s' clock (clock + 1) := by
  -- a cell is untouched or gets one write at the new version
  have hcell : ∀ f ≠ .artifactInlineBody, ∀ k : Bytes, k.length ≤ MAX_COMMAND_KEY_BYTES →
      cellOf s' f k = cellOf s f k ∨ ∃ payload, cellOf s' f k = (cellOf s f k).write (clock + 1) payload := by
    intro f hf k hk
    by_cases hm : ∃ m ∈ command.mutations, m.family = f ∧ m.key = k
    · obtain ⟨m, hm, rfl, rfl⟩ := hm
      rw [cellOf_mutated hvalid hplanned heffect hm hf, hnext]
      exact .inr ⟨_, rfl⟩
    · exact .inl (cellOf_unmutated hvalid hplanned heffect hk hf fun m hmem heq => hm ⟨m, hmem, heq⟩)
  refine ⟨⟨fun f k raw hget => ?_, fun key raw hget => ?_, fun f hf k hk => ?_⟩, fun f hf k hk v hv p => ?_,
    Nat.le_succ _, fun heq => absurd heq (Nat.succ_ne_self _)⟩
  · -- the current rows
    by_cases hm : ∃ m ∈ command.mutations, m.family = f ∧ m.key = k
    · obtain ⟨m, hm, rfl, rfl⟩ := hm
      have hleaves := heffect.mutated m hm
      rw [hget] at hleaves
      cases m with
      | put =>
        obtain ⟨planned, _, -, hencode, heq⟩ := hleaves
        cases Option.some.inj heq
        exact ⟨hvalid.key_le _ hm, _, CurrentValue.decode_encode hencode, hnext.le⟩
      | delete => cases hleaves
    · rw [heffect.unmutated f k fun m hmem heq => hm ⟨m, hmem, heq⟩] at hget
      obtain ⟨hk, value, hdecode, hle⟩ := h.current f k raw hget
      exact ⟨hk, value, hdecode, hle.trans (Nat.le_succ _)⟩
  · -- the history rows
    obtain ⟨_, hrows, hadds⟩ := heffect.history
    rcases (hadds.get_eq_some _ _).1 hget with hold | hnew
    · exact h.history key raw hold
    · obtain ⟨_, planned, previous, _, -, -, hproj, hencode, heq⟩ := (mem_historyRows hrows).1 hnew
      cases heq
      obtain ⟨m, hm, -, -, -, -, -, hproj⟩ :=
        mem_expectedHistory.1 ((mem_historyProjection hplanned.history).1 hproj)
      have hkey : planned.key.length ≤ MAX_COMMAND_KEY_BYTES := by
        rw [(HistoryProjection.mk.inj hproj).2]
        exact hvalid.key_le m hm
      exact ⟨planned.family, planned.key, ⟨state.nextVersion, previous.createdVersion,
        previous.modifiedVersion, some previous.payload⟩, hkey, rfl,
        HistoryValue.decode_encode hencode, rfl⟩
  · -- the cells, and what they show at earlier versions
    rcases hcell f hf k hk with heq | ⟨_, heq⟩
    · exact heq ▸ (h.cell f hf k hk).mono (Nat.le_succ _)
    · exact heq ▸ (h.cell f hf k hk).write _
  · rcases hcell f hf k hk with heq | ⟨_, heq⟩
    · rw [heq]
    · exact heq ▸ Cell.shows_write (h.cell f hf k hk) hv _ p

lemma RowsInv.step (hsys : SystemInv shard s sys) (hrows : RowsInv s sys.clock.toNat)
    (h : Wrote shard s mutation result plan txn) (hnd : (txn.mutations.map Mutation.key).Nodup)
    (hchecks : txn.checks.all s.holds = true) :
    RowsStep s (s.writeAll txn.mutations) sys.clock.toNat (sys.apply plan.row).clock.toNat := by
  have hresult := (h.continues hsys).result_eq
  unfold SystemRecords.apply
  rw [hresult]
  cases h with
  | command valid _ _ planned built =>
    obtain ⟨_, _, _, _, _, hbuilt⟩ := buildCommandTxn_eq_ok built
    have heffect := hbuilt.commandEffect hnd hchecks
    have hvalid := validateCommand_eq_ok valid
    have hnext := (planned.clock_succ hsys).2
    rw [hnext]
    exact .command hrows hvalid planned heffect hnext
  | observeLeaseClock owner clock later checked recovery
  | advanceOwnerEpoch =>
    have hplain := (systemEffect_of_enqueueRecovery (s := s) hnd).plain
    exact ⟨hrows.of_plain hplain, keepsPast_of_plain _ hplain, le_refl _, fun _ => hplain⟩

lemma Wrote.dedupe (hsys : SystemInv shard s sys) (h : Wrote shard s mutation result plan txn)
    (hnd : (txn.mutations.map Mutation.key).Nodup) (hchecks : txn.checks.all s.holds = true)
    (key value : Bytes) :
    (s.writeAll txn.mutations).get ⟨COMMAND_DEDUPE.id, key⟩ = some value ↔
      s.get ⟨COMMAND_DEDUPE.id, key⟩ = some value ∨ DedupeRow plan.row key value := by
  have hcont := h.continues hsys
  cases h with
  | @command _ _ _ _ _ _ _ _ built =>
    obtain ⟨_, _, _, _, _, hbuilt⟩ := buildCommandTxn_eq_ok built
    obtain ⟨_, hrecord, hadds⟩ := (hbuilt.commandEffect hnd hchecks).dedupe
    rw [hadds.get_eq_some, mem_singleton]
    refine or_congr_right ⟨?_, ?_⟩
    · rintro heq
      obtain ⟨rfl, rfl⟩ := Prod.mk.inj heq
      exact .intro hcont.mutation_eq hcont.result_eq hrecord
    · rintro ⟨hmutation, hresult, hencode⟩
      cases hcont.mutation_eq.symm.trans hmutation
      cases hcont.result_eq.symm.trans hresult
      rw [hrecord] at hencode
      rw [Except.ok.inj hencode]
  | observeLeaseClock owner clock later checked recovery
  | advanceOwnerEpoch =>
    have hplain := (systemEffect_of_enqueueRecovery (s := s) hnd).plain COMMAND_DEDUPE.id
      (by unfold IsPlain; decide) key
    rw [hplain]
    refine (or_iff_left ?_).symm
    rintro ⟨hmutation, -, -⟩
    cases hcont.mutation_eq.symm.trans hmutation

lemma Wrote.deduped (hsys : SystemInv shard s sys) (h : Wrote shard s mutation result plan txn)
    (hcommand : plan.row.isCommand = true) : ∃ key value, DedupeRow plan.row key value := by
  have hcont := h.continues hsys
  cases h with
  | @command _ _ _ _ _ _ _ _ built =>
    obtain ⟨_, _, _, _, _, hbuilt⟩ := buildCommandTxn_eq_ok built
    exact ⟨_, _, .intro hcont.mutation_eq hcont.result_eq hbuilt.dedupe_eq⟩
  | observeLeaseClock owner clock later checked recovery
  | advanceOwnerEpoch =>
    unfold RecoveryOutboxRecord.isCommand at hcommand
    rw [hcont.mutation_eq] at hcommand
    cases hcommand

/-- The log grows by the record of the write. -/
lemma LogInv.step (hlog : LogInv shard s log) (hsys : SystemInv shard s (systemAfter shard log))
    (hlsn : (systemAfter shard log).lsn.toNat = log.length)
    (h : Wrote shard s mutation result plan txn) (hvalid : txn.Valid storeLimits)
    (hchecks : txn.checks.all s.holds = true) :
    LogInv shard (s.writeAll txn.mutations) (log ++ [plan.row]) := by
  have hnd := hvalid.nodup
  have hcont := h.continues hsys
  have hrec := h.recoveryEffect hnd hchecks
  refine ⟨?_, fun row hrow => ?_, fun key value => ?_, fun key value => ?_, fun row hrow hcommand => ?_⟩
  · rw [Link.chainFrom_concat, ← systemAfter_digest]
    refine ⟨hlog.chain, ?_, hcont.previous_eq⟩
    show plan.row.recoveryLsn.toNat = _
    rw [hcont.lsn_eq, hlsn, Nat.zero_add]
  · rcases mem_append.1 hrow with hrow | hrow
    · exact hlog.stored row hrow
    · cases mem_singleton.1 hrow
      exact ⟨_, _, hcont.storedAs, h.chunks_le hvalid⟩
  · rw [hrec.outbox.get_eq_some, hlog.outbox, outboxRows_eq]
    simp only [mem_append, mem_singleton, or_and_right, exists_or, exists_eq_left]
    refine or_congr_right ⟨fun hmem => ⟨_, _, hcont.storedAs, hmem⟩, ?_⟩
    rintro ⟨_, _, hstored, hmem⟩
    obtain ⟨rfl, rfl⟩ := hcont.storedAs.unique hstored
    exact hmem
  · rw [h.dedupe hsys hnd hchecks, hlog.dedupe]
    simp only [mem_append, mem_singleton, or_and_right, exists_or, exists_eq_left]
  · rcases mem_append.1 hrow with hrow | hrow
    · exact hlog.deduped row hrow hcommand
    · cases mem_singleton.1 hrow
      exact h.deduped hsys hcommand

/-- A write keeps the invariant and appends its record to the log. -/
lemma Inv.step (hinv : Inv shard s log) (h : Wrote shard s mutation result plan txn)
    (hvalid : txn.validate storeLimits = .ok ()) (hchecks : txn.checks.all s.holds = true) :
    Inv shard (s.writeAll txn.mutations) (log ++ [plan.row]) := by
  have hvalid := WriteTxn.valid_of_validate hvalid
  have hnd := hvalid.nodup
  have hcont := h.continues hinv.system
  refine ⟨?_, ?_, ?_, hinv.bounded.step hvalid, ?_,
    hinv.log.step hinv.system hinv.lsn_eq h hvalid hchecks⟩
  · rw [systemAfter_concat]
    exact hinv.system.step h hnd hchecks
  · rw [systemAfter_concat, SystemRecords.apply_lsn, hcont.lsn_eq, hinv.lsn_eq, length_append]
    rfl
  · rw [systemAfter_concat, countP_append, ← Nat.add_assoc, ← hinv.clock_eq]
    unfold SystemRecords.apply RecoveryOutboxRecord.isCommand
    rw [countP_singleton, hcont.result_eq, hcont.mutation_eq]
    cases h with
    | command _ _ _ planned => exact (planned.clock_succ hinv.system).2
    | observeLeaseClock => rfl
    | advanceOwnerEpoch => rfl
  · rw [systemAfter_concat]
    exact (hinv.rows.step hinv.system h hnd hchecks).rows

end Step

/-! ### Runs -/

section Runs

variable [Pager] [Sha256] {shard : LogicalShardId} {s : State} {log : List RecoveryOutboxRecord}

lemma Inv.serve (hinv : Inv shard s log) (request : Request) :
    ∃ more, more.length ≤ 1 ∧ Inv shard (serve shard s request).2 (log ++ more) ∧
      RowsStep s (serve shard s request).2 (clockAfter shard log) (clockAfter shard (log ++ more)) := by
  rcases serve_cases shard s request with heq | ⟨_, _, happlied, heq⟩
  · refine ⟨[], Nat.zero_le _, ?_, ?_⟩
    · rw [heq, append_nil]
      exact hinv
    · rw [heq, append_nil]
      exact .refl hinv.rows
  · obtain ⟨_, plan, hwrote⟩ := happlied.plan.wrote
    rw [heq]
    refine ⟨[plan.row], le_refl _, hinv.step hwrote happlied.valid happlied.checks, ?_⟩
    unfold clockAfter
    rw [systemAfter_concat]
    exact hinv.rows.step hinv.system hwrote happlied.nodup happlied.checks

lemma Inv.serveAll (hinv : Inv shard s log) (requests : List Request) :
    ∃ more, Inv shard (serveAll shard s requests) (log ++ more) ∧
      RowsStep s (serveAll shard s requests) (clockAfter shard log) (clockAfter shard (log ++ more)) := by
  induction requests generalizing s log with
  | nil =>
    refine ⟨[], ?_, ?_⟩
    · rw [append_nil]
      exact hinv
    · rw [append_nil]
      exact .refl hinv.rows
  | cons request _ ih =>
    obtain ⟨one, -, hinv₁, hstep₁⟩ := hinv.serve request
    obtain ⟨more, hinv₂, hstep₂⟩ := ih hinv₁
    rw [append_assoc] at hinv₂ hstep₂
    exact ⟨one ++ more, hinv₂, hstep₁.trans hstep₂⟩

lemma inv_serveAll (shard : LogicalShardId) (requests : List Request) :
    ∃ log, Inv shard (serveAll shard (initialized shard) requests) log := by
  obtain ⟨log, hinv, -⟩ := (inv_initialized shard).serveAll requests
  exact ⟨log, hinv⟩

end Runs

end NoKV.Meta
