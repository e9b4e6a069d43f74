import NoKV.Meta.Engine.PlanShape
import NoKV.Meta.Engine.RecoveryLog

/-!
# Reaching the last position of the log

An owner epoch can be advanced as long as the log has a next position: the plan is made, the
transaction is valid and its checks hold (`Races.advance`). So every position is reached, also the
last one of a machine word, where the recovery checks stop with an overflow
(`verifyRecoveryChain_overflow`).
-/

namespace NoKV.Meta

open Lib Store State List
open Prog hiding bind pure get

/-! ### The record of an owner epoch -/

section Record

variable [Sha256]

lemma splitRecoveryStorage_small {logical : Bytes} (hpos : 0 < logical.length)
    (hle : logical.length ≤ 1024) :
    ∃ header chunk, splitRecoveryStorage logical = .ok (header, [chunk]) ∧ header.length = 45 ∧
      chunk.length = 13 + logical.length := by
  have hcount : divCeil logical.length MAX_STORAGE_CHUNK_DATA_BYTES = 1 := by
    unfold divCeil MAX_STORAGE_CHUNK_DATA_BYTES
    omega
  have htake : logical.take MAX_STORAGE_CHUNK_DATA_BYTES = logical :=
    take_of_length_le (hle.trans (by decide))
  have hchunks : chunksOf MAX_STORAGE_CHUNK_DATA_BYTES 1 logical = [logical] := by
    rw [chunksOf, chunksOf, htake]
  have hdata : ¬ (logical = [] ∨ MAX_STORAGE_CHUNK_DATA_BYTES < logical.length ∨ 1 ≤ 0) := by
    rintro (rfl | h | h)
    · exact absurd hpos (by decide)
    · unfold MAX_STORAGE_CHUNK_DATA_BYTES at h
      omega
    · omega
  have hlen : u32Len "recovery_chunk_data" logical.length = .ok logical.length := if_pos (by omega)
  have hone : u32Len "recovery_chunk_count" 1 = .ok 1 := rfl
  refine ⟨RecoveryStorageHeader.encode ⟨logical.length, 1, sha256 logical⟩,
    List.flatten [[STORAGE_CHUNK_VERSION], be 4 0, be 4 1, be 4 logical.length ++ logical], ?_, ?_, ?_⟩
  · unfold splitRecoveryStorage
    rw [hcount]
    dsimp only
    rw [hone, ok_bind, hchunks, encodeChunks, encodeStorageChunk, refuseIf_of_not hdata, ok_bind,
      hlen]
    rfl
  · simp [RecoveryStorageHeader.encode, FixedBytes.length_bytes]
  · simp only [flatten_cons, flatten_nil, length_append, length_cons, length_nil,
      be_length]
    omega

variable {expected : Option OwnerEpoch} {next : OwnerEpoch}

lemma encodeCanonical_advance (h : ∀ e, expected = some e → e < next) :
    ∃ bytes, (RecoveryMutationV1.advanceOwnerEpoch expected next).encodeCanonical = .ok bytes ∧
      (bytes.length = 10 ∨ bytes.length = 18) := by
  have hlater : ¬ (expected.any fun expected => next ≤ expected) = true := by
    cases expected with
    | none => simp
    | some e => exact fun hle => absurd (of_decide_eq_true hle) (Nat.not_le.2 (h e rfl))
  have hlen : (List.flatten [[3], encodeOptionalU64 (expected.map NonZeroU64.val), be 8 next.get] :
      Bytes).length = if expected = none then 10 else 18 := by
    cases expected <;> simp [encodeOptionalU64]
  refine ⟨_, ?_, by rw [hlen]; split <;> simp⟩
  unfold RecoveryMutationV1.encodeCanonical RecoveryMutationV1.encodeCanonicalForVersion
    RecoveryMutationV1.encodeBytes
  dsimp only
  rw [refuseIf_of_not hlater]
  show (refuseIf _ _ >>= _ : Except RecoveryCodecError Bytes) = _
  rw [refuseIf_of_not (by rw [hlen]; split <;> decide)]
  rfl

/-- The record of an owner epoch is made at every tail that has a next position. -/
lemma buildRecoveryPlan_advance (h : ∀ e, expected = some e → e < next) {lsn : UInt64}
    (hlsn : lsn.toNat + 1 < 2 ^ 64) (digest : Digest) :
    ∃ plan, buildRecoveryPlan (encodeSystemU64 lsn) (encodeSystemDigest digest)
        (.advanceOwnerEpoch expected next) (.ownerEpoch next) = .ok plan ∧
      plan.header.length = 45 ∧
        ∃ chunk, plan.chunks = [chunk] ∧ (chunk.length = 113 ∨ chunk.length = 121) := by
  obtain ⟨nextLsn, hnext, hnextNat⟩ := checkedAdd_one hlsn
  obtain ⟨mutation, hmutation, _⟩ := encodeCanonical_advance h
  have hzero : nextLsn ≠ 0 := by
    rintro rfl
    rw [UInt64.toNat_zero] at hnextNat
    omega
  have hpair : validatePair (.advanceOwnerEpoch expected next) (.ownerEpoch next) = .ok () := by
    refine refuseIf_of_not (not_not.2 ⟨rfl, ?_⟩)
    cases expected with
    | none => rfl
    | some e => simpa using h e rfl
  have hresult : (RecoveryResultV1.ownerEpoch next).encodeCanonical =
      .ok (List.flatten [[3], be 8 next.get]) := by
    unfold RecoveryResultV1.encodeCanonical RecoveryResultV1.encodeBytes
    rw [ok_bind, refuseIf_of_not]
    · rfl
    · simp [MAX_RECOVERY_BYTES]
  have hresultLen : (List.flatten [[3], be 8 next.get] : Bytes).length = 9 := by simp
  generalize List.flatten [[3], be 8 next.get] = result at hresult hresultLen
  -- the record, and its encoding of a known length
  obtain ⟨row, hrow⟩ : ∃ row : RecoveryOutboxRecord, row = ⟨RECOVERY_OUTBOX_VALUE_FORMAT_VERSION, nextLsn, digest,
      recoveryChainDigest digest nextLsn mutation result, .advanceOwnerEpoch expected next, .ownerEpoch next⟩ :=
    ⟨_, rfl⟩
  have hnew : RecoveryOutboxRecord.new nextLsn digest (.advanceOwnerEpoch expected next)
      (.ownerEpoch next) = .ok row := by
    unfold RecoveryOutboxRecord.new
    rw [hrow, refuseIf_of_not hzero, ok_bind, hpair, ok_bind, hmutation, ok_bind, hresult]
    rfl
  obtain ⟨logical, hlogical, _⟩ : ∃ logical, row.encode = .ok logical ∧
      logical.length = 90 + mutation.length := by
    have hmutationU32 : u32Len "mutation" mutation.length = .ok mutation.length := if_pos (by omega)
    have hresultU32 : u32Len "result" result.length = .ok result.length := if_pos (by omega)
    have hforVersion : (RecoveryMutationV1.advanceOwnerEpoch expected next).encodeCanonicalForVersion
        RECOVERY_OUTBOX_VALUE_FORMAT_VERSION = .ok mutation := hmutation
    refine ⟨List.flatten [[RECOVERY_OUTBOX_VALUE_FORMAT_VERSION], be 8 nextLsn.toNat, digest.bytes,
      (recoveryChainDigest digest nextLsn mutation result).bytes, be 4 mutation.length ++ mutation,
      be 4 result.length ++ result], ?_, ?_⟩
    · unfold RecoveryOutboxRecord.encode
      rw [hrow]
      rw [hpair, ok_bind, hforVersion, ok_bind, hresult, ok_bind, refuseIf_of_not hzero, ok_bind,
        refuseIf_of_not (not_not.2 rfl), ok_bind, hmutationU32, ok_bind, hresultU32]
      rfl
    · simp only [flatten_cons, flatten_nil, length_append, length_cons,
        length_nil, be_length, FixedBytes.length_bytes]
      omega
  -- it is small enough for one chunk
  obtain ⟨header, chunk, hsplit, hheader, _⟩ :=
    splitRecoveryStorage_small (show 0 < logical.length by omega) (by omega)
  refine ⟨⟨encodeSystemU64 lsn, encodeSystemDigest digest, header, [chunk], row⟩, ?_, hheader, chunk, rfl,
    by omega⟩
  · unfold buildRecoveryPlan corruptRecovery
    rw [decodeSystemU64_encode, ok_bind, hnext, okOr_eq_ok.2 rfl, ok_bind, decodeSystemDigest_encode,
      ok_bind, hnew]
    show (Except.mapError _ (RecoveryOutboxRecord.encode _) >>= _ : Except MetaError RecoveryPlan) = _
    rw [hlogical]
    show (Except.mapError _ (splitRecoveryStorage logical) >>= _ : Except MetaError RecoveryPlan) = _
    rw [hsplit]
    rfl

end Record

/-! ### Advancing the owner -/

section Advance

variable [Pager] [Sha256] {shard : LogicalShardId} {s : State} {log : List RecoveryOutboxRecord}
  {expected : Option OwnerEpoch} {next : OwnerEpoch} {sys : SystemRecords} {plan : RecoveryPlan}

omit [Sha256] in
lemma SystemInv.admitSchema_runAt (h : SystemInv shard s sys) :
    admitSchema.runAt s = .ok encodeSchemaMarker := by
  unfold admitSchema
  rw [runAt_bind, requiredValue_runAt (by decide)]
  show (okOr (s.get (systemKey SYSTEM_SCHEMA_KEY)) _ >>= _) = _
  rw [h.schema, okOr_eq_ok.2 rfl, ok_bind, runAt_bind, runAt_liftM, validateSchemaMarker_encode]
  rfl

omit [Sha256] in
lemma SystemInv.admitShard_runAt (h : SystemInv shard s sys) :
    (admitShard shard).runAt s = .ok (encodeShardIdentity shard) := by
  unfold admitShard
  rw [runAt_bind, requiredValue_runAt (by decide)]
  show (okOr (s.get (systemKey SYSTEM_SHARD_IDENTITY_KEY)) _ >>= _) = _
  rw [h.shard_eq, okOr_eq_ok.2 rfl, ok_bind, runAt_bind, runAt_liftM,
    decodeShardIdentity_encode, ok_bind, runAt_bind, runAt_refuseIf,
    refuseIf_of_not (not_not.2 rfl)]
  rfl

omit [Sha256] in
lemma SystemInv.owner_runAt (h : SystemInv shard s sys) :
    (requiredU64 SYSTEM_OWNER_FENCE_KEY "System(owner_fence)").runAt s =
      .ok (encodeSystemU64 sys.owner, sys.owner) := by
  unfold requiredU64
  rw [runAt_bind, requiredValue_runAt (by decide)]
  show (okOr (s.get (systemKey SYSTEM_OWNER_FENCE_KEY)) _ >>= _) = _
  rw [h.owner, okOr_eq_ok.2 rfl, ok_bind, runAt_bind, runAt_liftM, decodeSystemU64_encode]
  rfl

omit [Pager] in
lemma LogInv.outbox_free (h : LogInv shard s log) {lsn : UInt64} (hlsn : log.length < lsn.toNat) :
    s.get ⟨RECOVERY_OUTBOX.id, recoveryOutboxKey lsn⟩ = none ∧
      ∀ index, s.get ⟨RECOVERY_OUTBOX.id, recoveryChunkKey lsn index⟩ = none := by
  have hfresh : ∀ row ∈ log, row.recoveryLsn ≠ lsn := by
    rintro row hrow rfl
    have hle : row.recoveryLsn.toNat ≤ 0 + log.length := (h.chain.pos_bounds hrow).2
    omega
  constructor
  · refine Option.eq_none_iff_forall_ne_some.2 fun value hget => ?_
    rcases h.key_tag hget with ⟨row, hrow, heq⟩ | ⟨row, -, i, heq⟩
    · exact hfresh row hrow (recoveryOutboxKey_injective heq).symm
    · exact recoveryOutboxKey_ne_recoveryChunkKey _ _ _ heq
  · refine fun index => Option.eq_none_iff_forall_ne_some.2 fun value hget => ?_
    rcases h.key_tag hget with ⟨row, -, heq⟩ | ⟨row, hrow, i, heq⟩
    · exact recoveryOutboxKey_ne_recoveryChunkKey _ _ _ heq.symm
    · obtain ⟨hl, -⟩ := append_inj (List.cons.inj heq).2
        (by rw [encodeRecoveryLsn_length, encodeRecoveryLsn_length])
      exact hfresh row hrow (encodeRecoveryLsn_injective hl).symm

/-- A plan for the first record, in one chunk of the given length. -/
def firstPlan (chunk : ℕ) : RecoveryPlan where
  lsnValue := encodeSystemU64 0
  digestValue := encodeSystemDigest (.fill 32 0)
  header := List.replicate 45 0
  chunks := [List.replicate chunk 0]
  row := ⟨RECOVERY_OUTBOX_VALUE_FORMAT_VERSION, 1, .fill 32 0, .fill 32 0,
    .advanceOwnerEpoch none ⟨1, NonZeroU64.one_ne_zero⟩, .ownerEpoch ⟨1, NonZeroU64.one_ne_zero⟩⟩

/-- The transaction of a later owner epoch. -/
def advanceTxn (shard : LogicalShardId) (owner : UInt64) (next : OwnerEpoch) (plan : RecoveryPlan) :
    WriteTxn :=
  enqueueRecovery {
    checks := [
      valueCheck SYSTEM.id SYSTEM_SCHEMA_KEY encodeSchemaMarker,
      valueCheck SYSTEM.id SYSTEM_SHARD_IDENTITY_KEY (encodeShardIdentity shard),
      valueCheck SYSTEM.id SYSTEM_OWNER_FENCE_KEY (encodeSystemU64 owner)]
    mutations := [.put (systemKey SYSTEM_OWNER_FENCE_KEY) (encodeSystemU64 next.val)] } plan

lemma advanceOwnerEpoch_runAt (h : SystemInv shard s sys)
    (hexpected : sys.owner = (expected.map NonZeroU64.val).getD 0) (hlater : sys.owner.toNat < next.get)
    (hrecovery : (planRecovery (.advanceOwnerEpoch expected next) (.ownerEpoch next)).runAt s = .ok plan) :
    ((Call.advanceOwnerEpoch expected next).plan shard).runAt s =
      .ok (.commit "advance owner epoch" (advanceTxn shard sys.owner next plan) .ownerEpoch
        ((fun _ : Unit => Reply.ownerEpoch) <$> throw MetaError.writeConflict)) := by
  have hne : sys.owner ≠ next.val := fun heq => by
    rw [heq] at hlater
    exact absurd hlater (Nat.lt_irrefl _)
  have hwork : (advanceOwnerEpoch shard expected next).runAt s = .ok (.commit "advance owner epoch"
      (advanceTxn shard sys.owner next plan) () (throw MetaError.writeConflict)) := by
    unfold advanceOwnerEpoch
    rw [runAt_bind, h.admitSchema_runAt, ok_bind, runAt_bind, h.admitShard_runAt, ok_bind,
      runAt_bind, h.owner_runAt, ok_bind]
    dsimp only
    rw [if_neg hne, runAt_bind, runAt_refuseIf, refuseIf_of_not (not_not.2 hexpected), ok_bind,
      runAt_bind, runAt_refuseIf, refuseIf_of_not (not_le.2 hlater), ok_bind, runAt_bind,
      hrecovery]
    rfl
  unfold Call.plan
  rw [runAt_map, hwork]
  rfl

omit [Pager] [Sha256] in
/-- An advance has the shape of the first one, which is valid. -/
lemma advanceTxn_valid (shard : LogicalShardId) (owner : UInt64) (next : OwnerEpoch) {lsn : UInt64}
    {digest : Digest} {chunk : Bytes} (hlsn : plan.lsnValue = encodeSystemU64 lsn)
    (hdigest : plan.digestValue = encodeSystemDigest digest) (hheader : plan.header.length = 45)
    (hchunks : plan.chunks = [chunk]) (hchunk : chunk.length = 113 ∨ chunk.length = 121) :
    (advanceTxn shard owner next plan).validate storeLimits = .ok () := by
  have hsystem : ∀ {key}, Renames plan.row.recoveryLsn 1 (systemKey key) (systemKey key) :=
    .same (show SYSTEM.id ≠ RECOVERY_OUTBOX.id by decide)
  have hu64 : ∀ v w, (encodeSystemU64 v).length = (encodeSystemU64 w).length := by simp [encodeSystemU64]
  have hdig : ∀ v w, (encodeSystemDigest v).length = (encodeSystemDigest w).length := by
    simp [encodeSystemDigest]
  have hlike : (advanceTxn shard owner next plan).Like (Renames plan.row.recoveryLsn 1)
      (advanceTxn (.fill 16 0) 0 ⟨1, NonZeroU64.one_ne_zero⟩ (firstPlan chunk.length)) := by
    unfold advanceTxn enqueueRecovery outboxRows
    rw [hchunks, hlsn, hdigest]
    refine ⟨.cons (.value hsystem rfl) <| .cons (.value hsystem (by simp [encodeShardIdentity])) <|
      .cons (.value hsystem (hu64 ..)) <| .cons (.value hsystem (hu64 ..)) <|
      .cons (.value hsystem (hdig ..)) <| .cons (.absent .header) <| .cons (.absent (.chunk 0)) .nil,
      .cons (.put hsystem (hu64 ..)) <| .cons (.put hsystem (hu64 ..)) <| .cons (.put hsystem (hdig ..)) <|
      .cons (.put .header ?_) <| .cons (.put (.chunk 0) ?_) .nil⟩
    · rw [hheader]
      rfl
    · exact length_replicate.symm
  rw [hlike.validate_eq (renames_keyMatch ..)]
  rcases hchunk with h | h <;> rw [h] <;> decide +kernel

/-- While the log has a next position, a later owner epoch is planned, valid and accepted. -/
lemma Inv.advance_total (h : Inv shard s log) (hlt : log.length + 1 < 2 ^ 64)
    (hexpected : (systemAfter shard log).owner = (expected.map NonZeroU64.val).getD 0)
    (hlater : (systemAfter shard log).owner.toNat < next.get) :
    ∃ operation txn conflict, ((Call.advanceOwnerEpoch expected next).plan shard).runAt s =
        .ok (.commit operation txn .ownerEpoch conflict) ∧
      txn.validate storeLimits = .ok () ∧ txn.checks.all s.holds = true ∧
      Mutation.put (systemKey SYSTEM_OWNER_FENCE_KEY) (encodeSystemU64 next.val) ∈ txn.mutations := by
  have hlsn := h.lsn_eq
  have hsys := h.system
  generalize systemAfter shard log = sys at hlsn hsys hexpected hlater
  have hbefore : ∀ e, expected = some e → e < next := by
    rintro e rfl
    rw [hexpected] at hlater
    exact hlater
  obtain ⟨plan, hplan, hheader, _, hchunks, hchunk⟩ :=
    buildRecoveryPlan_advance hbefore (show sys.lsn.toNat + 1 < 2 ^ 64 by omega) sys.digest
  obtain ⟨hlsnValue, hdigestValue, lsn, digest, hcont⟩ := buildRecoveryPlan_eq_ok hplan
  have hrow : plan.row.recoveryLsn.toNat = sys.lsn.toNat + 1 := by
    rw [hcont.lsn_eq, encodeSystemU64_injective (hlsnValue.symm.trans hcont.lsnValue_eq)]
  -- the position behind the log is free, so the checks on it hold
  obtain ⟨hfreeHeader, hfreeChunk⟩ :=
    h.log.outbox_free (show log.length < plan.row.recoveryLsn.toNat by omega)
  refine ⟨_, _, _, advanceOwnerEpoch_runAt hsys hexpected hlater
    (planRecovery_eq_ok.2 ⟨_, _, hsys.lsn, hsys.digest, hplan⟩),
    advanceTxn_valid shard sys.owner next hlsnValue hdigestValue hheader hchunks hchunk, ?_, ?_⟩
  · have hvalue : ∀ {key value : Bytes}, s.get (systemKey key) = some value →
        s.holds (valueCheck SYSTEM.id key value) = true := fun hget => holds_value.2 hget
    unfold advanceTxn enqueueRecovery outboxRows
    rw [hchunks, hlsnValue, hdigestValue]
    -- the system rows are those that were read
    refine all_eq_true.2 ?_
    simp only [rowChecks, chunkRows, map_cons, map_nil, cons_append, nil_append,
      forall_mem_cons]
    exact ⟨hvalue hsys.schema, hvalue hsys.shard_eq, hvalue hsys.owner, hvalue hsys.lsn,
      hvalue hsys.digest, holds_absent.2 hfreeHeader, holds_absent.2 (hfreeChunk 0), forall_mem_nil _⟩
  · exact mem_cons_self ..

omit [Pager] [Sha256] in
/-- Every number is an owner epoch, or stands for none, and its successor is one. -/
lemma exists_epochs {n : ℕ} (hn : n + 1 < 2 ^ 64) : ∃ (expected : Option OwnerEpoch) (next : OwnerEpoch),
    UInt64.ofNat n = (expected.map NonZeroU64.val).getD 0 ∧ next.val = UInt64.ofNat (n + 1) ∧
      (UInt64.ofNat n).toNat < next.get := by
  have hnat : ∀ m < 2 ^ 64, (UInt64.ofNat m).toNat = m := fun m hm => by
    rw [UInt64.toNat_ofNat', Nat.mod_eq_of_lt hm]
  have hne : ∀ m < 2 ^ 64, 0 < m → UInt64.ofNat m ≠ 0 := fun m hm hpos heq => by
    have := hnat m hm
    rw [heq, UInt64.toNat_zero] at this
    omega
  have hlater : (UInt64.ofNat n).toNat < NonZeroU64.get ⟨UInt64.ofNat (n + 1), hne _ hn (by omega)⟩ := by
    unfold NonZeroU64.get
    rw [hnat _ (by omega), hnat _ hn]
    omega
  rcases Nat.eq_zero_or_pos n with rfl | hpos
  · exact ⟨none, _, rfl, rfl, hlater⟩
  · exact ⟨some ⟨UInt64.ofNat n, hne _ (by omega) hpos⟩, _, rfl, rfl, hlater⟩

/-- The next owner epoch is one more write. -/
lemma Races.advance {made : List Pending} {done : List (Call × Reply)} (h : Races shard s made done)
    (hlt : done.length + 1 < 2 ^ 64)
    (howner : s.get (systemKey SYSTEM_OWNER_FENCE_KEY) = some (encodeSystemU64 (UInt64.ofNat done.length))) :
    ∃ s' made' call, Races shard s' made' (done ++ [call]) ∧
      s'.get (systemKey SYSTEM_OWNER_FENCE_KEY) =
        some (encodeSystemU64 (UInt64.ofNat (done.length + 1))) := by
  obtain ⟨log, hinv⟩ := h.inv
  have hlength : done.length = log.length := hinv.records.length_eq
  have howner' : (systemAfter shard log).owner = UInt64.ofNat done.length :=
    encodeSystemU64_injective (Option.some.inj (hinv.inv.system.owner.symm.trans howner))
  obtain ⟨_, _, hexpected, hnext, hlater⟩ := exists_epochs hlt
  obtain ⟨_, _, _, hplan, hvalid, hchecks, hmem⟩ :=
    hinv.inv.advance_total (hlength ▸ hlt) (howner'.trans hexpected) (howner' ▸ hlater)
  refine ⟨_, _, _, (h.plan hplan).apply (mem_cons_self ..) hvalid hchecks, ?_⟩
  rw [← hnext]
  exact get_writeAll_of_mem (WriteTxn.valid_of_validate hvalid).nodup hmem

/-- Every number of writes of a machine word is reached. -/
lemma races_of_length (shard : LogicalShardId) (n : ℕ) (hn : n < 2 ^ 64) :
    ∃ s made done, Races shard s made done ∧ done.length = n ∧
      s.get (systemKey SYSTEM_OWNER_FENCE_KEY) = some (encodeSystemU64 (UInt64.ofNat n)) := by
  induction n with
  | zero => exact ⟨_, [], [], .initialized, rfl, (inv_initialized shard).system.owner⟩
  | succ n ih =>
    obtain ⟨s, _, done, hraces, rfl, howner⟩ := ih (by omega)
    obtain ⟨s', made', call, hraces', howner'⟩ := hraces.advance hn howner
    exact ⟨s', made', done ++ [call], hraces', by simp, howner'⟩

/-- **The last position is reached, and there the recovery checks overflow.** -/
theorem exists_overflow (shard : LogicalShardId) : ∃ s made done, Races shard s made done ∧
    ∃ bound, ∀ fuel > bound,
      (verifyRecoveryChain shard fuel).runAt s = .error (.err .versionOverflow) ∧
      (fsckRecovery shard fuel).runAt s = .error (.err .versionOverflow) := by
  obtain ⟨s, made, done, hraces, hlength, -⟩ := races_of_length shard (2 ^ 64 - 1) (by decide)
  obtain ⟨log, hinv⟩ := hraces.inv
  have hlast : log.length + 1 = 2 ^ 64 := by
    rw [← hinv.records.length_eq, hlength]
    decide
  exact ⟨s, made, done, hraces, _, fun fuel hfuel => hinv.inv.recovery_overflow hlast hfuel⟩

end Advance

/-- A shard that has reached the last position cannot be verified any more. -/
theorem verifyRecoveryChain_overflow : ∃ s made done,
    @Races memoryPager sha256Digest (sampleId 2) s made done ∧ ∃ bound, ∀ fuel > bound,
      (@verifyRecoveryChain memoryPager sha256Digest (sampleId 2) fuel).runAt s =
        .error (.err .versionOverflow) ∧
      (@fsckRecovery memoryPager sha256Digest (sampleId 2) fuel).runAt s =
        .error (.err .versionOverflow) :=
  @exists_overflow memoryPager sha256Digest (sampleId 2)

end NoKV.Meta
