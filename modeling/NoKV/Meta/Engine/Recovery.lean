import NoKV.Meta.Engine.Read

/-!
# Recovery records of the shard

The durable tail, the stored record of a log position, and the binding between a dedupe record and
the recovery record of the same write.
-/

namespace NoKV.Meta

open Lib Store

/-- A recovery record ready to be stored behind the tail it was planned at. -/
structure RecoveryPlan where
  lsnValue : Bytes
  digestValue : Bytes
  header : Bytes
  chunks : List Bytes
  row : RecoveryOutboxRecord

def buildRecoveryPlan [Sha256] (lsnValue digestValue : Bytes) (mutation : RecoveryMutationV1)
    (result : RecoveryResultV1) : Except MetaError RecoveryPlan := do
  let appliedLsn ← decodeSystemU64 lsnValue "System(applied_recovery_lsn)"
  let recoveryLsn ← okOr (checkedAdd appliedLsn 1) MetaError.versionOverflow
  let previousChainDigest ← decodeSystemDigest digestValue "System(recovery_chain_digest)"
  let row ← corruptRecovery "RecoveryOutbox"
    (RecoveryOutboxRecord.new recoveryLsn previousChainDigest mutation result)
  let logical ← corruptRecovery "RecoveryOutbox" row.encode
  let (header, chunks) ← corruptRecovery "RecoveryOutbox storage" (splitRecoveryStorage logical)
  return ⟨lsnValue, digestValue, header, chunks, row⟩

/-- The stored form of a record. -/
structure StoredAs [Sha256] (row : RecoveryOutboxRecord) (header : Bytes) (chunks : List Bytes) :
    Prop where
  version_eq : row.formatVersion = RECOVERY_OUTBOX_VALUE_FORMAT_VERSION
  stored : ∃ logical, row.encode = .ok logical ∧ splitRecoveryStorage logical = .ok (header, chunks)

/-- A planned record continues the tail it was planned at. -/
structure RecoveryPlan.Continues [Sha256] (plan : RecoveryPlan) (lsn : UInt64) (digest : Digest)
    (mutation : RecoveryMutationV1) (result : RecoveryResultV1) : Prop where
  lsnValue_eq : plan.lsnValue = encodeSystemU64 lsn
  digestValue_eq : plan.digestValue = encodeSystemDigest digest
  lsn_eq : plan.row.recoveryLsn.toNat = lsn.toNat + 1
  previous_eq : plan.row.previousChainDigest = digest
  mutation_eq : plan.row.mutation = mutation
  result_eq : plan.row.result = result
  storedAs : StoredAs plan.row plan.header plan.chunks

lemma buildRecoveryPlan_eq_ok [Sha256] {lsnValue digestValue : Bytes}
    {mutation : RecoveryMutationV1} {result : RecoveryResultV1} {plan : RecoveryPlan}
    (h : buildRecoveryPlan lsnValue digestValue mutation result = .ok plan) :
    plan.lsnValue = lsnValue ∧ plan.digestValue = digestValue ∧
      ∃ lsn digest, plan.Continues lsn digest mutation result := by
  obtain ⟨appliedLsn, hlsn, h⟩ := bind_eq_ok.1 h
  obtain ⟨_, hnext, h⟩ := bind_eq_ok.1 h
  obtain ⟨previous, hdigest, h⟩ := bind_eq_ok.1 h
  obtain ⟨_, hrow, h⟩ := bind_eq_ok.1 h
  obtain ⟨logical, hlogical, h⟩ := bind_eq_ok.1 h
  obtain ⟨⟨_, _⟩, hsplit, rfl⟩ := bind_pure_eq_ok h
  obtain ⟨hversion, hrowLsn, hprevious, hmutation, hresult⟩ :=
    RecoveryOutboxRecord.new_eq_ok (mapError_eq_ok.1 hrow)
  refine ⟨rfl, rfl, appliedLsn, previous, decodeSystemU64_eq_ok hlsn, decodeSystemDigest_eq_ok hdigest,
    ?_, hprevious, hmutation, hresult, hversion, logical, mapError_eq_ok.1 hlogical,
    mapError_eq_ok.1 hsplit⟩
  rw [hrowLsn]
  exact checkedAdd_eq_some.1 (okOr_eq_ok.1 hnext)

section Programs

variable [Pager] {s : State} {mutation : RecoveryMutationV1} {result : RecoveryResultV1} {plan : RecoveryPlan}

def recoveryTailValues : Shard (Bytes × Bytes) := do
  let results ← readBatch [.get (systemKey SYSTEM_APPLIED_RECOVERY_LSN_KEY),
    .get (systemKey SYSTEM_RECOVERY_CHAIN_DIGEST_KEY)] "read recovery tail"
  match results with
  | .get lsn :: .get digest :: _ =>
    let lsn ← okOr lsn (MetaError.corruptRecord "System(applied_recovery_lsn)" "record is missing")
    let digest ← okOr digest
      (MetaError.corruptRecord "System(recovery_chain_digest)" "record is missing")
    return (lsn, digest)
  | .get _ :: _ => throw (corrupt "System(recovery tail)" "chain digest result is missing")
  | _ => throw (corrupt "System(recovery tail)" "LSN result is missing")

lemma recoveryTailValues_runAt (s : State) : recoveryTailValues.runAt s = do
    let lsn ← okOr (s.get (systemKey SYSTEM_APPLIED_RECOVERY_LSN_KEY))
      (MetaError.corruptRecord "System(applied_recovery_lsn)" "record is missing")
    let digest ← okOr (s.get (systemKey SYSTEM_RECOVERY_CHAIN_DIGEST_KEY))
      (MetaError.corruptRecord "System(recovery_chain_digest)" "record is missing")
    return (lsn, digest) := by
  have hvalid : validateBatch [.get (systemKey SYSTEM_APPLIED_RECOVERY_LSN_KEY),
      .get (systemKey SYSTEM_RECOVERY_CHAIN_DIGEST_KEY)] storeLimits = .ok () := by decide
  unfold recoveryTailValues
  rw [Prog.runAt_bind, readBatch_runAt hvalid, ok_bind]
  simp only [State.read, List.map_cons, Prog.runAt_bind, Prog.runAt_okOr, Prog.runAt_pure]
  rfl

lemma recoveryTailValues_eq_ok {lsn digest : Bytes} : recoveryTailValues.runAt s = .ok (lsn, digest) ↔
      s.get (systemKey SYSTEM_APPLIED_RECOVERY_LSN_KEY) = some lsn ∧
        s.get (systemKey SYSTEM_RECOVERY_CHAIN_DIGEST_KEY) = some digest := by
  rw [recoveryTailValues_runAt]
  constructor
  · intro h
    obtain ⟨_, hlsn, h⟩ := bind_eq_ok.1 h
    obtain ⟨_, hdigest, ⟨⟩⟩ := bind_pure_eq_ok h
    exact ⟨okOr_eq_ok.1 hlsn, okOr_eq_ok.1 hdigest⟩
  · rintro ⟨hlsn, hdigest⟩
    rw [hlsn, hdigest]
    rfl

def recoveryStateUnlocked : Shard RecoveryState := do
  let (lsnValue, digestValue) ← recoveryTailValues
  let lsn ← liftM (decodeSystemU64 lsnValue "System(applied_recovery_lsn)")
  let chainDigest ← liftM (decodeSystemDigest digestValue "System(recovery_chain_digest)")
  return ⟨lsn, chainDigest⟩

def planRecovery [Sha256] (mutation : RecoveryMutationV1) (result : RecoveryResultV1) :
    Shard RecoveryPlan := do
  let (lsnValue, digestValue) ← recoveryTailValues
  liftM (buildRecoveryPlan lsnValue digestValue mutation result)

lemma planRecovery_eq_ok [Sha256] : (planRecovery mutation result).runAt s = .ok plan ↔
      ∃ lsn digest, s.get (systemKey SYSTEM_APPLIED_RECOVERY_LSN_KEY) = some lsn ∧
        s.get (systemKey SYSTEM_RECOVERY_CHAIN_DIGEST_KEY) = some digest ∧
        buildRecoveryPlan lsn digest mutation result = .ok plan := by
  unfold planRecovery
  rw [Prog.runAt_bind, bind_eq_ok]
  constructor
  · rintro ⟨⟨lsn, digest⟩, htail, h⟩
    obtain ⟨hlsn, hdigest⟩ := recoveryTailValues_eq_ok.1 htail
    exact ⟨lsn, digest, hlsn, hdigest, by simpa using h⟩
  · rintro ⟨lsn, digest, hlsn, hdigest, h⟩
    exact ⟨(lsn, digest), recoveryTailValues_eq_ok.2 ⟨hlsn, hdigest⟩, by simpa using h⟩

lemma planRecovery_continues [Sha256] (h : (planRecovery mutation result).runAt s = .ok plan) :
    ∃ lsn digest, s.get (systemKey SYSTEM_APPLIED_RECOVERY_LSN_KEY) = some (encodeSystemU64 lsn) ∧
      s.get (systemKey SYSTEM_RECOVERY_CHAIN_DIGEST_KEY) = some (encodeSystemDigest digest) ∧
      plan.Continues lsn digest mutation result := by
  obtain ⟨_, _, hlsn, hdigest, hbuild⟩ := planRecovery_eq_ok.1 h
  obtain ⟨hlsnValue, hdigestValue, lsn, digest, hcont⟩ := buildRecoveryPlan_eq_ok hbuild
  refine ⟨lsn, digest, ?_, ?_, hcont⟩
  · rw [hlsn, ← hlsnValue, hcont.lsnValue_eq]
  · rw [hdigest, ← hdigestValue, hcont.digestValue_eq]

lemma recoveryStateUnlocked_eq_ok {tail : RecoveryState} : recoveryStateUnlocked.runAt s = .ok tail ↔
      s.get (systemKey SYSTEM_APPLIED_RECOVERY_LSN_KEY) = some (encodeSystemU64 tail.appliedRecoveryLsn) ∧
        s.get (systemKey SYSTEM_RECOVERY_CHAIN_DIGEST_KEY) = some (encodeSystemDigest tail.chainDigest) := by
  unfold recoveryStateUnlocked
  simp only [Prog.runAt_bind, Prog.runAt_liftM, Prog.runAt_pure]
  constructor
  · intro h
    obtain ⟨⟨_, _⟩, htail, h⟩ := bind_eq_ok.1 h
    obtain ⟨_, hlsn, h⟩ := bind_eq_ok.1 h
    obtain ⟨_, hdigest, rfl⟩ := bind_pure_eq_ok h
    obtain ⟨hlsnGet, hdigestGet⟩ := recoveryTailValues_eq_ok.1 htail
    exact ⟨decodeSystemU64_eq_ok hlsn ▸ hlsnGet, decodeSystemDigest_eq_ok hdigest ▸ hdigestGet⟩
  · rintro ⟨hlsn, hdigest⟩
    rw [recoveryTailValues_eq_ok.2 ⟨hlsn, hdigest⟩, ok_bind, decodeSystemU64_encode, ok_bind,
      decodeSystemDigest_encode]
    rfl

/-- The chunk rows of one record from `index` on. -/
def readChunks (decoded : DecodedRecoveryOutboxKey) : ℕ → ℕ → Shard (List Bytes)
  | 0, _ => return []
  | n + 1, index => do
    let value ← readValue RECOVERY_OUTBOX.id
      (recoveryChunkKeyForLayout decoded.layout decoded.recoveryLsn index) "read RecoveryOutbox chunk"
    let value ← okOr value (MetaError.corruptRecord "RecoveryOutbox chunk"
      s!"missing LSN {decoded.recoveryLsn} chunk {index}")
    let rest ← readChunks decoded n (index + 1)
    return value :: rest

variable [Sha256]

def readRecoveryRecord (decoded : DecodedRecoveryOutboxKey) (header : Bytes) :
    Shard RecoveryOutboxRecord := do
  let chunkCount ← liftM
    (corruptRecovery "RecoveryOutbox storage header" (recoveryStorageChunkCount header))
  let chunks ← readChunks decoded chunkCount 0
  let logical ← liftM
    (corruptRecovery "RecoveryOutbox storage" (assembleRecoveryStorage header chunks))
  liftM (corruptRecovery "RecoveryOutbox" (RecoveryOutboxRecord.decode logical))

/-- The record of one layout, after those of the layouts before it. -/
def findRecord (recoveryLsn : UInt64) :
    List RecoveryKeyLayout → Option RecoveryOutboxRecord → Shard (Option RecoveryOutboxRecord)
  | [], found => return found
  | layout :: rest, found => do
    let header ← readValue RECOVERY_OUTBOX.id (recoveryOutboxScanStart layout recoveryLsn)
      "read RecoveryOutbox header"
    match header with
    | none => findRecord recoveryLsn rest found
    | some header =>
      refuseIf found.isSome (corrupt "RecoveryOutbox"
        s!"duplicate storage layouts contain LSN {recoveryLsn}")
      let row ← readRecoveryRecord ⟨recoveryLsn, layout⟩ header
      refuseIf (row.recoveryLsn ≠ recoveryLsn) (corrupt "RecoveryOutbox"
        s!"key LSN {recoveryLsn} does not match row LSN {row.recoveryLsn}")
      findRecord recoveryLsn rest (some row)

def recoveryRecordAtUnlocked (recoveryLsn : UInt64) : Shard RecoveryOutboxRecord := do
  refuseIf (recoveryLsn = 0) (corrupt "RecoveryOutbox" "LSN zero has no outbox row")
  let found ← findRecord recoveryLsn RecoveryKeyLayout.ordered none
  okOr found (corrupt "RecoveryOutbox" s!"missing recovery row at LSN {recoveryLsn}")

/-! ### Replayed requests -/

def commandDedupeKey (root : RootId) (request : RequestId) : Bytes := root.bytes ++ request.bytes

omit [Pager] [Sha256] in
lemma commandDedupeKey_length (root : RootId) (request : RequestId) :
    (commandDedupeKey root request).length ≤ 8205 := by
  unfold commandDedupeKey
  rw [List.length_append, root.length_eq, request.length_eq]
  omega

omit [Pager] [Sha256] in
lemma commandDedupeKey_injective {root root' : RootId} {request request' : RequestId}
    (h : commandDedupeKey root request = commandDedupeKey root' request') :
    root = root' ∧ request = request' := by
  obtain ⟨hroot, hrequest⟩ := List.append_inj h (by rw [root.length_eq, root'.length_eq])
  exact ⟨FixedBytes.ext_bytes hroot, FixedBytes.ext_bytes hrequest⟩

def validateDedupeRecoveryBinding (dedupeKey : Bytes) (dedupe : CommandDedupeRecord) :
    Shard RecoveryOutboxRecord := do
  let row ← recoveryRecordAtUnlocked dedupe.recoveryLsn
  match row.mutation, row.result with
  | .metadataCommand command _, .metadataCommand commitVersion deterministicResult =>
    refuseIf (commandDedupeKey command.rootId command.requestId ≠ dedupeKey ∨
      command.commandDigest ≠ dedupe.commandDigest ∨ commitVersion ≠ dedupe.commitVersion ∨
      deterministicResult ≠ dedupe.deterministicResult)
      (corrupt "CommandDedupe recovery binding"
        s!"dedupe result does not match RecoveryOutbox LSN {dedupe.recoveryLsn}")
    return row
  | _, _ => throw (corrupt "CommandDedupe recovery binding"
      s!"dedupe LSN {dedupe.recoveryLsn} does not name a metadata command")

def replayedResult (key : Bytes) (digest : CommandDigest) : Shard (Option MetadataCommandResult) := do
  match ← readValue COMMAND_DEDUPE.id key "read CommandDedupe" with
  | none => return none
  | some value =>
    let record ← liftM (corruptValue "CommandDedupe" (CommandDedupeRecord.decode value))
    refuseIf (record.commandDigest ≠ digest) MetaError.requestIdReused
    let recovery ← validateDedupeRecoveryBinding key record
    return some ⟨record.commitVersion, record.deterministicResult, record.recoveryLsn,
      recovery.chainDigest, true⟩

end Programs

end NoKV.Meta
