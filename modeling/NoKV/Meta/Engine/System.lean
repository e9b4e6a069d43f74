import Mathlib.Algebra.Order.BigOperators.Group.List
import NoKV.Meta.Engine.Effect

/-!
# The system records of a running shard

The system keyspace holds seven records. After any run they are what the recovery records of the run
make of the initial ones (`SystemRecords.apply`): a write is planned from them (`Wrote.continues`)
and leaves the records of its own recovery record behind (`SystemInv.step`).
-/

namespace NoKV.Meta

open Lib Store State

/-- The mutable system records. -/
structure SystemRecords where
  owner : UInt64
  clock : UInt64
  leaseClock : UInt64
  lsn : UInt64
  digest : Digest

namespace SystemRecords

def initial [Sha256] (shard : LogicalShardId) : SystemRecords :=
  ⟨0, INITIAL_COMMIT_VERSION, 0, 0, recoveryGenesisDigest shard⟩

/-- The records behind one more recovery record. -/
def apply (sys : SystemRecords) (row : RecoveryOutboxRecord) : SystemRecords :=
  let sys := { sys with lsn := row.recoveryLsn, digest := row.chainDigest }
  match row.result with
  | .metadataCommand commitVersion _ => { sys with clock := commitVersion.val }
  | .leaseClock effectiveHighWaterMs => { sys with leaseClock := effectiveHighWaterMs }
  | .ownerEpoch appliedOwnerEpoch => { sys with owner := appliedOwnerEpoch.val }

@[simp] lemma apply_lsn (sys : SystemRecords) (row : RecoveryOutboxRecord) :
    (sys.apply row).lsn = row.recoveryLsn := by
  unfold apply
  cases row.result <;> rfl

@[simp] lemma apply_digest (sys : SystemRecords) (row : RecoveryOutboxRecord) :
    (sys.apply row).digest = row.chainDigest := by
  unfold apply
  cases row.result <;> rfl

end SystemRecords

/-- The store holds the system records of the shard. -/
structure SystemInv (shard : LogicalShardId) (s : State) (sys : SystemRecords) : Prop where
  schema : s.get (systemKey SYSTEM_SCHEMA_KEY) = some encodeSchemaMarker
  shard_eq : s.get (systemKey SYSTEM_SHARD_IDENTITY_KEY) = some (encodeShardIdentity shard)
  owner : s.get (systemKey SYSTEM_OWNER_FENCE_KEY) = some (encodeSystemU64 sys.owner)
  clock : s.get (systemKey SYSTEM_COMMIT_CLOCK_KEY) = some (encodeSystemU64 sys.clock)
  leaseClock : s.get (systemKey SYSTEM_LEASE_CLOCK_HIGH_WATER_KEY) =
    some (encodeSystemU64 sys.leaseClock)
  lsn : s.get (systemKey SYSTEM_APPLIED_RECOVERY_LSN_KEY) = some (encodeSystemU64 sys.lsn)
  digest : s.get (systemKey SYSTEM_RECOVERY_CHAIN_DIGEST_KEY) = some (encodeSystemDigest sys.digest)

lemma State.ext_system {shard : LogicalShardId} {s : State} {sys sys' : SystemRecords}
    (h : SystemInv shard s sys) (h' : SystemInv shard s sys') : sys = sys' := by
  have howner := encodeSystemU64_injective (Option.some.inj (h.owner.symm.trans h'.owner))
  have hclock := encodeSystemU64_injective (Option.some.inj (h.clock.symm.trans h'.clock))
  have hlease := encodeSystemU64_injective (Option.some.inj (h.leaseClock.symm.trans h'.leaseClock))
  have hlsn := encodeSystemU64_injective (Option.some.inj (h.lsn.symm.trans h'.lsn))
  have hdigest := encodeSystemDigest_injective (Option.some.inj (h.digest.symm.trans h'.digest))
  cases sys
  cases sys'
  cases howner
  cases hclock
  cases hlease
  cases hlsn
  cases hdigest
  rfl

section Wrote

variable [Pager] [Sha256] {shard : LogicalShardId} {s : State} {mutation : RecoveryMutationV1}
  {result : RecoveryResultV1} {plan : RecoveryPlan} {txn : WriteTxn} {sys : SystemRecords}

omit [Pager] [Sha256] in
lemma sum_chunkRows (lsn : UInt64) (chunks : List Bytes) (index : ℕ) :
    ((chunkRows lsn chunks index).map fun row => row.2.length).sum = (chunks.map List.length).sum := by
  induction chunks generalizing index with
  | nil => rfl
  | cons _ _ ih => simp [chunkRows, ih]

section

variable (h : Wrote shard s mutation result plan txn)
include h

lemma Wrote.planned : (planRecovery mutation result).runAt s = .ok plan := by
  cases h with
  | command _ _ _ planned => exact planned.recovery
  | observeLeaseClock owner clock later checked recovery
  | advanceOwnerEpoch _ _ _ _ recovery => exact recovery

lemma Wrote.enqueued :
    ∃ base, txn = enqueueRecovery base plan ∧ writesTo RECOVERY_OUTBOX.id base.mutations = [] := by
  cases h with
  | command _ _ _ _ built =>
    obtain ⟨_, _, _, _, _, hbuilt⟩ := buildCommandTxn_eq_ok built
    exact ⟨_, hbuilt.txn_eq, hbuilt.writesTo_outbox_base⟩
  | observeLeaseClock owner clock later checked recovery
  | advanceOwnerEpoch => exact ⟨_, rfl, rfl⟩

lemma Wrote.recoveryEffect (hnd : (txn.mutations.map Mutation.key).Nodup)
    (hchecks : txn.checks.all s.holds = true) : RecoveryEffect s (s.writeAll txn.mutations) plan := by
  obtain ⟨_, rfl, hbase⟩ := h.enqueued
  exact recoveryEffect_of_enqueueRecovery hnd hchecks hbase

/-- The chunks of a record fit the transaction that stores it. -/
lemma Wrote.chunks_le (hvalid : txn.Valid storeLimits) :
    (plan.chunks.map List.length).sum ≤ storeLimits.maxTransactionBytes := by
  obtain ⟨base, rfl, hbase⟩ := h.enqueued
  have hwrites := writesTo_enqueueRecovery_outbox base plan
  rw [hbase, List.nil_append] at hwrites
  have hsublist : (rowMutations RECOVERY_OUTBOX.id (outboxRows plan)).Sublist
      (enqueueRecovery base plan).mutations := by
    rw [← hwrites]
    exact List.filter_sublist
  have hsum : ((rowMutations RECOVERY_OUTBOX.id (outboxRows plan)).map Mutation.valueLength).sum ≤
      storeLimits.maxTransactionBytes :=
    ((hsublist.map _).sum_le_sum fun _ _ => Nat.zero_le _).trans hvalid.sum_le
  have hlength : ∀ rows : List (Bytes × Bytes), (rowMutations RECOVERY_OUTBOX.id rows).map
      Mutation.valueLength = rows.map fun row => row.2.length := by
    intro rows
    simp [rowMutations, Mutation.valueLength]
  rw [hlength, outboxRows, List.map_cons, List.sum_cons, sum_chunkRows] at hsum
  omega

end

variable (hsys : SystemInv shard s sys) (h : Wrote shard s mutation result plan txn)
include hsys h

lemma Wrote.continues : plan.Continues sys.lsn sys.digest mutation result := by
  obtain ⟨lsn, digest, hlsn, hdigest, hcont⟩ := planRecovery_continues h.planned
  have hlsnEq : lsn = sys.lsn := encodeSystemU64_injective (Option.some.inj (hlsn.symm.trans hsys.lsn))
  have hdigestEq : digest = sys.digest :=
    encodeSystemDigest_injective (Option.some.inj (hdigest.symm.trans hsys.digest))
  rw [← hlsnEq, ← hdigestEq]
  exact hcont

/-- A write leaves the system records of its recovery record. -/
lemma SystemInv.step (hnd : (txn.mutations.map Mutation.key).Nodup) (hchecks : txn.checks.all s.holds = true) :
    SystemInv shard (s.writeAll txn.mutations) (sys.apply plan.row) := by
  have hresult := (h.continues hsys).result_eq
  have hrec := h.recoveryEffect hnd hchecks
  have hlsn := hrec.lsn
  have hdigest := hrec.digest
  -- every write moves the two recovery rows; the others are split by what is written
  rw [← SystemRecords.apply_lsn sys] at hlsn
  rw [← SystemRecords.apply_digest sys] at hdigest
  unfold SystemRecords.apply at hlsn hdigest ⊢
  rw [hresult] at hlsn hdigest ⊢
  cases h with
  | command _ _ _ _ built =>
    obtain ⟨_, _, _, _, _, hbuilt⟩ := buildCommandTxn_eq_ok built
    have heffect := hbuilt.commandEffect hnd hchecks
    have hkeep := heffect.system
    exact ⟨(hkeep _ (by decide) (by decide) (by decide)).trans hsys.schema,
      (hkeep _ (by decide) (by decide) (by decide)).trans hsys.shard_eq,
      (hkeep _ (by decide) (by decide) (by decide)).trans hsys.owner, heffect.clock,
      (hkeep _ (by decide) (by decide) (by decide)).trans hsys.leaseClock, hlsn, hdigest⟩
  | observeLeaseClock owner clock =>
    have heffect := systemEffect_of_enqueueRecovery (s := s) hnd
    have hkeep := heffect.system
    exact ⟨(hkeep _ (by decide) (by decide) (by decide)).trans hsys.schema,
      (hkeep _ (by decide) (by decide) (by decide)).trans hsys.shard_eq,
      (hkeep _ (by decide) (by decide) (by decide)).trans hsys.owner,
      (hkeep _ (by decide) (by decide) (by decide)).trans hsys.clock, heffect.put, hlsn, hdigest⟩
  | advanceOwnerEpoch =>
    have heffect := systemEffect_of_enqueueRecovery (s := s) hnd
    have hkeep := heffect.system
    exact ⟨(hkeep _ (by decide) (by decide) (by decide)).trans hsys.schema,
      (hkeep _ (by decide) (by decide) (by decide)).trans hsys.shard_eq, heffect.put,
      (hkeep _ (by decide) (by decide) (by decide)).trans hsys.clock,
      (hkeep _ (by decide) (by decide) (by decide)).trans hsys.leaseClock, hlsn, hdigest⟩

end Wrote

end NoKV.Meta
