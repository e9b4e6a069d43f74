import NoKV.Control.Types
import NoKV.Lib.Json

/-!
# Checking and advancing one shard record

The checks a record passes before it is stored and the merge of a recovery publication into it.

* `validateLogRef`: the log is a non-empty chain of segments behind the checkpoint;
* `applyRecoveryPublication`: a checkpoint dominates the log it covers, a longer log keeps the
  segments that are already there;
* `validateLogicalShardRecord`: the check of a whole record, the completed record of its pending
  upload included.
-/

namespace NoKV.Control

open Lib RecordError

def MAX_RECOVERY_UPLOAD_PLAN_BYTES : ℕ := 64 * 1024
def MAX_RECOVERY_UPLOAD_RECEIPT_BYTES : ℕ := 64 * 1024
def MAX_LOGICAL_SHARD_RECORD_BYTES : ℕ := 448 * 1024
def MAX_RECOVERY_LOG_RECEIPT_BYTES : ℕ := 1024 * 1024
def MAX_RECOVERY_LOG_SEGMENTS : ℕ := 4096

/-! ### Encoded size -/

def encodeFixedId {n : ℕ} (id : FixedBytes n) : Bytes := Json.text (Json.hex id.bytes)

def encodeByteArray (bytes : Bytes) : Bytes := Json.arr (bytes.map fun b => Json.num b.toNat)

def encodeText (text : String) : Bytes := Json.text (utf8 text)

/-- The client-facing routing record: every recovery field is cleared. -/
def encodeLogicalShardRoutingRecordWire (record : LogicalShardRecord) : Bytes :=
  Json.obj
    [("version", Json.num 1),
     ("logical_shard_id", encodeFixedId record.logicalShardId),
     ("owner", Json.opt (fun owner => encodeText owner.value) record.owner),
     ("owner_epoch", Json.opt (fun epoch => Json.num epoch.get) record.ownerEpoch),
     ("lease_id", Json.num record.leaseId.toNat),
     ("state", Json.num record.state.toU8.toNat),
     ("endpoint", Json.opt encodeText record.endpoint),
     ("checkpoint", Json.null),
     ("log", Json.null),
     ("durable_lsn", Json.num 0)]

def encodeCheckpointRefWire (checkpoint : CheckpointRef) : Bytes :=
  Json.obj
    [("object_key", encodeText checkpoint.objectKey),
     ("lsn", Json.num checkpoint.lsn.toNat),
     ("image_bytes", Json.num checkpoint.imageBytes.toNat),
     ("image_digest", encodeText checkpoint.imageDigest),
     ("digest", encodeText checkpoint.digest),
     ("receipt", encodeByteArray checkpoint.receipt)]

def encodeLogSegmentRefWire (segment : LogSegmentRef) : Bytes :=
  Json.obj
    [("segment_key", encodeText segment.segmentKey),
     ("first_lsn", Json.num segment.firstLsn.toNat),
     ("last_lsn", Json.num segment.lastLsn.toNat),
     ("digest", encodeText segment.digest),
     ("receipt", encodeByteArray segment.receipt)]

def encodeLogRefWire (log : LogRef) : Bytes :=
  Json.obj
    [("segments", Json.arr (log.segments.map encodeLogSegmentRefWire)),
     ("durable_lsn", Json.num log.durableLsn.toNat),
     ("digest", encodeText log.digest)]

def encodeRecoveryUploadIntentWire (intent : RecoveryUploadIntent) : Bytes :=
  Json.obj
    [("object_namespace_id", encodeFixedId intent.objectNamespaceId),
     ("first_lsn", Json.num intent.firstLsn.toNat),
     ("last_lsn", Json.num intent.lastLsn.toNat),
     ("previous_chain_digest", encodeText intent.previousChainDigest),
     ("last_chain_digest", encodeText intent.lastChainDigest),
     ("segment_digest", encodeText intent.segmentDigest),
     ("manifest_key", encodeText intent.manifestKey),
     ("receipt", encodeByteArray intent.receipt),
     ("plan", encodeByteArray intent.plan)]

/-- The owner-side recovery state, absent when there is none. -/
def encodeLogicalShardRecoveryStateWire (record : LogicalShardRecord) : Option Bytes :=
  if record.hasRecoveryState then
    some <| Json.obj
      [("version", Json.num 1),
       ("logical_shard_id", encodeFixedId record.logicalShardId),
       ("checkpoint", Json.opt encodeCheckpointRefWire record.checkpoint),
       ("log", Json.opt encodeLogRefWire record.log),
       ("durable_lsn", Json.num record.durableLsn.toNat),
       ("pending_recovery_upload", Json.opt encodeRecoveryUploadIntentWire record.pendingRecoveryUpload)]
  else none

/-- Both encoded parts of a record fit. -/
def validateLogicalShardRecordEncodedSize (record : LogicalShardRecord) : Except RecordError Unit := do
  let routing := (encodeLogicalShardRoutingRecordWire record).length
  refuseIf (MAX_LOGICAL_SHARD_RECORD_BYTES < routing)
    (invalidRecord s!"encoded logical shard routing record is {routing} bytes; maximum is {MAX_LOGICAL_SHARD_RECORD_BYTES}")
  ifSome (encodeLogicalShardRecoveryStateWire record) fun recovery =>
    refuseIf (MAX_LOGICAL_SHARD_RECORD_BYTES < recovery.length)
      (invalidRecord s!"encoded logical shard recovery state is {recovery.length} bytes; maximum is {MAX_LOGICAL_SHARD_RECORD_BYTES}")

/-! ### References -/

def validateCheckpointRef (checkpoint : CheckpointRef) : Except String Unit := do
  refuseIf (checkpoint.objectKey = "") "checkpoint object key must not be empty"
  refuseIf (checkpoint.imageBytes = 0) "checkpoint image size must be non-zero"
  refuseIf (checkpoint.imageDigest = "") "checkpoint image digest must not be empty"
  refuseIf (checkpoint.digest = "") "checkpoint state digest must not be empty"
  refuseIf (checkpoint.receipt = [] ∨ MAX_RECOVERY_UPLOAD_RECEIPT_BYTES < checkpoint.receipt.length)
    s!"checkpoint receipt length {checkpoint.receipt.length} is outside 1..={MAX_RECOVERY_UPLOAD_RECEIPT_BYTES}"

/-- Where the walk over a log's segments stands. -/
structure LogWalk where
  index : ℕ
  receiptBytes : ℕ
  previous : Option LogSegmentRef

/-- The checks of one segment behind the ones already walked. -/
def checkLogSegment (walk : LogWalk) (segment : LogSegmentRef) : Except String LogWalk := do
  refuseIf (segment.segmentKey = "") s!"log segment {walk.index} has an empty object key"
  refuseIf (segment.digest = "") s!"log segment {walk.index} has an empty digest"
  refuseIf (segment.receipt = [] ∨ MAX_RECOVERY_UPLOAD_RECEIPT_BYTES < segment.receipt.length)
    s!"log segment {walk.index} receipt length {segment.receipt.length} is outside 1..={MAX_RECOVERY_UPLOAD_RECEIPT_BYTES}"
  let receiptBytes := walk.receiptBytes + segment.receipt.length
  refuseIf (2 ^ 64 ≤ receiptBytes) "log receipt byte total overflows"
  refuseIf (MAX_RECOVERY_LOG_RECEIPT_BYTES < receiptBytes)
    s!"log receipt byte total {receiptBytes} exceeds {MAX_RECOVERY_LOG_RECEIPT_BYTES}"
  refuseIf (segment.firstLsn = 0 ∨ segment.lastLsn < segment.firstLsn)
    s!"log segment {walk.index} has invalid LSN range {segment.firstLsn}..{segment.lastLsn}"
  ifSome walk.previous fun previous => do
    let expected ← okOr (checkedAdd previous.lastLsn 1) "log segment LSN range is exhausted"
    refuseIf (segment.firstLsn ≠ expected)
      s!"log segment {walk.index} starts at {segment.firstLsn}, expected {expected}"
  pure ⟨walk.index + 1, receiptBytes, some segment⟩

def checkpointLsn (checkpoint : Option CheckpointRef) : UInt64 :=
  checkpoint.elim 0 CheckpointRef.lsn

/-- A log beyond the checkpoint starts right behind it. A log that ends at the checkpoint may start
anywhere: the merge drops it. -/
def checkFirstSegment (checkpointLsn : UInt64) (log : LogRef) (first : LogSegmentRef) :
    Except String Unit :=
  if checkpointLsn < log.durableLsn then do
    let expectedFirst ← okOr (checkedAdd checkpointLsn 1) "checkpoint LSN is exhausted"
    refuseIf (first.firstLsn ≠ expectedFirst)
      s!"log chain starts at LSN {first.firstLsn}, expected {expectedFirst} after checkpoint"
  else pure ()

/-- The checks of a log behind the incoming checkpoint, or behind the record's own. -/
def validateLogRef (record : LogicalShardRecord) (incoming : Option CheckpointRef) (log : LogRef) :
    Except String Unit := do
  refuseIf (log.segments = []) "log segment chain is empty"
  refuseIf (MAX_RECOVERY_LOG_SEGMENTS < log.segments.length)
    s!"log segment chain has {log.segments.length} rows; maximum is {MAX_RECOVERY_LOG_SEGMENTS}"
  refuseIf (log.digest = "") "log tail digest must not be empty"
  let checkpointLsn := checkpointLsn (incoming.or record.checkpoint)
  refuseIf (log.durableLsn < checkpointLsn)
    s!"log durable LSN {log.durableLsn} is behind checkpoint LSN {checkpointLsn}"
  let _ ← log.segments.foldlM checkLogSegment ⟨0, 0, none⟩
  let first ← okOr log.segments.head? "non-empty segment chain has a first segment"
  checkFirstSegment checkpointLsn log first
  let last ← okOr log.segments.getLast? "non-empty segment chain has a last segment"
  refuseIf (last.lastLsn ≠ log.durableLsn)
    s!"log tail segment ends at LSN {last.lastLsn}, durable LSN is {log.durableLsn}"
  refuseIf (last.digest ≠ log.digest) "log tail digest does not match the final segment digest"
  ifSome record.log fun current =>
    -- the durable segments stay in front unless a checkpoint covers them
    refuseIf (checkpointLsn < current.durableLsn ∧ current.durableLsn < log.durableLsn ∧
        (log.segments.length < current.segments.length ∨
          log.segments.take current.segments.length ≠ current.segments))
      "advanced log chain does not preserve the durable segment prefix"

def durableTailDigest (record : LogicalShardRecord) : Except String (Option String) := do
  let checkpoint := record.checkpoint.filter fun checkpoint => checkpoint.lsn = record.durableLsn
  let log := record.log.filter fun log => log.durableLsn = record.durableLsn
  ifSome checkpoint fun checkpoint => ifSome log fun log =>
    refuseIf (checkpoint.digest ≠ log.digest)
      s!"stored checkpoint and log digests differ at durable LSN {record.durableLsn}"
  pure ((log.map LogRef.digest).or (checkpoint.map CheckpointRef.digest))

/-- The last LSN that a checkpoint and a log reach together. -/
def referenceLsn : Option CheckpointRef → Option LogRef → UInt64
  | some checkpoint, some log => max checkpoint.lsn log.durableLsn
  | some checkpoint, none => checkpoint.lsn
  | none, some log => log.durableLsn
  | none, none => 0

/-! ### Merging a publication -/

/-- The checks of a publication that names a checkpoint or a log. -/
def checkPublication (record : LogicalShardRecord) (publication : RecoveryPublication) :
    Except String Unit := do
  let reference := referenceLsn publication.checkpoint publication.log
  refuseIf (publication.durableLsn ≠ reference)
    s!"publication durable LSN {publication.durableLsn} does not match reference tail {reference}"
  ifSome publication.checkpoint fun checkpoint =>
    refuseIf (checkpoint.lsn < record.durableLsn)
      s!"checkpoint LSN {checkpoint.lsn} is behind durable LSN {record.durableLsn}"
  ifSome publication.log fun log => do
    refuseIf (log.durableLsn < record.durableLsn)
      s!"log LSN {log.durableLsn} is behind durable LSN {record.durableLsn}"
    validateLogRef record publication.checkpoint log
    ifSome record.log fun current =>
      refuseIf (current.durableLsn = log.durableLsn ∧ current ≠ log)
        s!"log identity differs at LSN {log.durableLsn}"
  ifSome publication.checkpoint fun checkpoint => ifSome publication.log fun log =>
    refuseIf (checkpoint.lsn = log.durableLsn ∧ checkpoint.digest ≠ log.digest)
      s!"checkpoint and log digests differ at LSN {checkpoint.lsn}"
  let tail ← durableTailDigest record
  ifSome tail fun expected => do
    ifSome publication.checkpoint fun checkpoint =>
      refuseIf (checkpoint.lsn = record.durableLsn ∧ checkpoint.digest ≠ expected)
        s!"checkpoint digest differs from durable tail at LSN {checkpoint.lsn}"
    ifSome publication.log fun log =>
      refuseIf (log.durableLsn = record.durableLsn ∧ log.digest ≠ expected)
        s!"log digest differs from durable tail at LSN {log.durableLsn}"

/-- A log that reaches beyond the checkpoint. -/
def logBeyond (checkpoint : Option CheckpointRef) (log : Option LogRef) : Option LogRef :=
  log.filter fun log => ¬ checkpoint.any fun checkpoint => log.durableLsn ≤ checkpoint.lsn

def mergePublication (record : LogicalShardRecord) (publication : RecoveryPublication) :
    LogicalShardRecord :=
  let checkpoint := publication.checkpoint.or record.checkpoint
  { record with
    checkpoint := checkpoint
    log := logBeyond checkpoint (publication.log.or record.log)
    durableLsn := publication.durableLsn }

/-- Merge one owner-fenced recovery publication. -/
def applyRecoveryPublication (record : LogicalShardRecord) (publication : RecoveryPublication) :
    Except RecordError LogicalShardRecord := do
  let conflict := RecordError.recoveryPublicationConflict record.logicalShardId
  ifSome publication.checkpoint fun checkpoint => (validateCheckpointRef checkpoint).mapError conflict
  if publication.checkpoint = none ∧ publication.log = none then
    refuseIf (publication.durableLsn ≠ record.durableLsn)
      (conflict s!"empty publication durable LSN {publication.durableLsn} does not confirm current durable LSN {record.durableLsn}")
    pure record
  else
    (checkPublication record publication).mapError conflict
    pure (mergePublication record publication)

/-! ### Uploads -/

/-- A lower-case SHA-256 digest in hexadecimal. -/
def canonicalSha256Hex (value : String) : Bool :=
  (utf8 value).length = 64 &&
    (utf8 value).all fun b => (48 ≤ b.toNat && b.toNat ≤ 57) || (97 ≤ b.toNat && b.toNat ≤ 102)

def validateRecoveryUploadIntentShape (intent : RecoveryUploadIntent) : Except String Unit := do
  refuseIf (intent.firstLsn = 0 ∨ intent.lastLsn < intent.firstLsn) "recovery upload has an invalid LSN range"
  [("previous chain", intent.previousChainDigest), ("last chain", intent.lastChainDigest),
    ("segment", intent.segmentDigest)].forM fun (name, digest) =>
      refuseIf (canonicalSha256Hex digest = false)
        s!"recovery upload {name} digest is not canonical SHA-256 hex"
  refuseIf (endpointIsCanonical intent.manifestKey = false)
    "recovery upload manifest key is empty or non-canonical"
  refuseIf (intent.receipt = [] ∨ MAX_RECOVERY_UPLOAD_RECEIPT_BYTES < intent.receipt.length)
    s!"recovery upload receipt length {intent.receipt.length} is outside 1..={MAX_RECOVERY_UPLOAD_RECEIPT_BYTES}"
  refuseIf (intent.plan = [] ∨ MAX_RECOVERY_UPLOAD_PLAN_BYTES < intent.plan.length)
    s!"recovery upload plan length {intent.plan.length} is outside 1..={MAX_RECOVERY_UPLOAD_PLAN_BYTES}"

def segmentsOf (log : Option LogRef) : List LogSegmentRef := log.elim [] LogRef.segments

/-- The checks of an upload intent against the record it would extend. -/
def checkRecoveryUploadIntent (record : LogicalShardRecord) (intent : RecoveryUploadIntent) :
    Except String Unit := do
  refuseIf (record.state ≠ .recovering ∧ record.state ≠ .serving)
    s!"recovery upload requires Recovering or Serving state, actual {record.state.debug}"
  validateRecoveryUploadIntentShape intent
  let retainedSegments := (segmentsOf record.log).length
  refuseIf (MAX_RECOVERY_LOG_SEGMENTS ≤ retainedSegments)
    s!"shared recovery log already retains {retainedSegments} segments; publish a checkpoint before preparing another upload"
  let retainedReceiptBytes ← (segmentsOf record.log).foldlM (fun total segment => do
    refuseIf (2 ^ 64 ≤ total + segment.receipt.length) "log receipt byte total overflows"
    pure (total + segment.receipt.length)) 0
  let preparedReceiptBytes := retainedReceiptBytes + intent.receipt.length
  refuseIf (2 ^ 64 ≤ preparedReceiptBytes) "prepared log receipt byte total overflows"
  refuseIf (MAX_RECOVERY_LOG_RECEIPT_BYTES < preparedReceiptBytes)
    s!"prepared log receipt byte total {preparedReceiptBytes} exceeds {MAX_RECOVERY_LOG_RECEIPT_BYTES}"
  let expectedFirst ← okOr (checkedAdd record.durableLsn 1) "durable recovery LSN is exhausted"
  refuseIf (intent.firstLsn ≠ expectedFirst)
    s!"upload starts at LSN {intent.firstLsn}, expected {expectedFirst}"
  let tail ← durableTailDigest record
  ifSome tail fun expected =>
    refuseIf (intent.previousChainDigest ≠ expected) "upload previous digest differs from the durable tail"

/-- The checks of an upload intent, as an error of its shard. -/
def validateRecoveryUploadIntent (record : LogicalShardRecord) (intent : RecoveryUploadIntent) :
    Except RecordError Unit :=
  (checkRecoveryUploadIntent record intent).mapError (.recoveryUploadConflict record.logicalShardId)

def segmentOfIntent (intent : RecoveryUploadIntent) : LogSegmentRef where
  segmentKey := intent.manifestKey
  firstLsn := intent.firstLsn
  lastLsn := intent.lastLsn
  digest := intent.lastChainDigest
  receipt := intent.receipt

def recoveryPublicationAfterIntent (current : LogicalShardRecord) (intent : RecoveryUploadIntent) :
    RecoveryPublication where
  checkpoint := none
  log := some ⟨segmentsOf current.log ++ [segmentOfIntent intent], intent.lastLsn, intent.lastChainDigest⟩
  durableLsn := intent.lastLsn

/-- The publication ends in the segment of the upload. -/
def validateUploadPublication (intent : RecoveryUploadIntent) (publication : RecoveryPublication) :
    Except String Unit := do
  refuseIf (publication.durableLsn ≠ intent.lastLsn) "publication durable LSN does not match upload intent"
  let log ← okOr publication.log "upload finalization requires a log publication"
  refuseIf (log.durableLsn ≠ intent.lastLsn ∨ log.digest ≠ intent.lastChainDigest)
    "log tail does not match upload intent"
  let segment ← okOr log.segments.getLast? "upload finalization log has no segment"
  refuseIf (segment ≠ segmentOfIntent intent) "log segment does not match upload intent"

/-- The record's log ends in the segment of the upload. -/
def recoveryUploadIsPublished (record : LogicalShardRecord) (intent : RecoveryUploadIntent) : Bool :=
  record.durableLsn = intent.lastLsn && record.log.any fun log =>
    log.durableLsn = intent.lastLsn && log.digest = intent.lastChainDigest &&
      log.segments.getLast? = some (segmentOfIntent intent)

/-! ### The whole record -/

/-- The owner, the lease and the endpoint of a record agree. -/
def validateOwnership (record : LogicalShardRecord) : Except RecordError Unit :=
  match record.owner with
  | none => do
    refuseIf (record.endpoint ≠ none) (invalidRecord "unowned logical shard must not have an endpoint")
    refuseIf (record.leaseId ≠ 0) (invalidRecord "unowned logical shard must have lease id zero")
    refuseIf (record.state ≠ .unassigned) (invalidRecord "unowned logical shard must be Unassigned")
  | some _ => do
    refuseIf (record.ownerEpoch = none) (invalidRecord "owned logical shard must have an owner epoch")
    refuseIf (record.leaseId = 0) (invalidRecord "owned logical shard must have a non-zero lease id")
    let endpoint ← okOr record.endpoint
      (invalidRecord "owned logical shard must have a reachable endpoint")
    refuseIf (endpointIsCanonical endpoint = false)
      (invalidRecord "logical-shard endpoint is empty or non-canonical")
    refuseIf (record.state = .unassigned) (invalidRecord "owned logical shard cannot be Unassigned")

/-- The check of a record; `final` checks the completed record of a pending upload. -/
def validateRecordWith (final : LogicalShardRecord → Except RecordError Unit)
    (record : LogicalShardRecord) : Except RecordError Unit := do
  refuseIf (record.ownerEpoch = none ∧ record.hasRecoveryState)
    (invalidRecord "never-owned logical shard cannot have recovery state")
  validateOwnership record
  ifSome record.checkpoint fun checkpoint => (validateCheckpointRef checkpoint).mapError .invalidRecord
  ifSome record.log fun log => (validateLogRef record none log).mapError .invalidRecord
  ifSome record.pendingRecoveryUpload fun intent => do
    (validateRecoveryUploadIntent record intent).mapError fun error =>
      .invalidRecord s!"pending recovery upload is invalid: {error.display}"
    Except.mapError
      (fun error =>
        .invalidRecord s!"pending recovery upload cannot produce a durable final record: {error.display}")
      (do
        let completed ← applyRecoveryPublication record (recoveryPublicationAfterIntent record intent)
        final { completed with pendingRecoveryUpload := none })
  let reference := referenceLsn record.checkpoint record.log
  refuseIf (record.durableLsn ≠ reference)
    (invalidRecord s!"durable LSN {record.durableLsn} does not match recovery reference tail {reference}")
  let _ ← (durableTailDigest record).mapError .invalidRecord
  validateLogicalShardRecordEncodedSize record

/-- The check of a stored record. The completed record of a pending upload has no pending upload
itself, so the check descends once. -/
def validateLogicalShardRecord (record : LogicalShardRecord) : Except RecordError Unit :=
  validateRecordWith (validateRecordWith fun _ => pure ()) record

end NoKV.Control
