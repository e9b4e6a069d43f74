import NoKV.Meta.Command

/-!
# Recovery records

Strictly ordered, hash-chained material for exporting and replaying metadata writes. A record holds
the canonical input of one write and its deterministic result; the canonical encoding is inverted
by the strict decoder (`RecoveryOutboxRecord.decode_encode`).
-/

namespace NoKV.Meta

open Lib

def RECOVERY_OUTBOX_VALUE_FORMAT_VERSION : UInt8 := 4
def MAX_RECOVERY_BYTES : ℕ := 64 * 1024 * 1024
/-- Shared admission and recovery-codec item budget of one metadata command. -/
def MAX_COMMAND_ITEMS : ℕ := 260

/-- One canonical input to a real metadata write entrypoint. -/
inductive RecoveryMutationV1 where
  | metadataCommand (command : MetadataCommand) (leaseDeadlineMs : Option UInt64)
  | observeLeaseClock (rootId : RootId) (placementGeneration : PlacementGeneration)
      (ownerEpoch : OwnerEpoch) (observedMs : UInt64)
  | advanceOwnerEpoch (expected : Option OwnerEpoch) (next : OwnerEpoch)
  deriving DecidableEq

/-- Deterministic evidence returned by the write of the same row. -/
inductive RecoveryResultV1 where
  | metadataCommand (commitVersion : CommitVersion) (deterministicResult : Bytes)
  | leaseClock (effectiveHighWaterMs : UInt64)
  | ownerEpoch (appliedOwnerEpoch : OwnerEpoch)
  deriving DecidableEq

/-- One hash-chained recovery outbox row. -/
structure RecoveryOutboxRecord where
  formatVersion : UInt8
  recoveryLsn : UInt64
  previousChainDigest : Digest
  chainDigest : Digest
  mutation : RecoveryMutationV1
  result : RecoveryResultV1
  deriving DecidableEq

/-- Durable tail, advanced with every row. -/
structure RecoveryState where
  appliedRecoveryLsn : UInt64
  chainDigest : Digest
  deriving DecidableEq

inductive RecoveryCodecError where
  | unsupportedVersion (actual expected : UInt8)
  | unknownDiscriminant (typeName : String) (value : UInt8)
  | zeroScalar (field : String)
  | invalidValue (field : String)
  | lengthOverflow (field : String) (length : ℕ)
  | lengthBound (field : String) (length max : ℕ)
  | truncated (field : String) (needed remaining : ℕ)
  | trailingBytes (count : ℕ)
  | chainDigestMismatch
  | emptySegment
  | duplicateRecoveryLsn (lsn : ℕ)
  | recoveryLsnGap (expected actual : ℕ)
  | recoveryLsnRegression (previous actual : ℕ)
  | unexpectedLogicalShard (expected actual : LogicalShardId)
  | segmentHeaderMismatch
  | segmentDigestMismatch
  deriving DecidableEq

/-- The debug text of a shard identity. -/
def debugShard (shard : LogicalShardId) : String :=
  "LogicalShardId([" ++ ", ".intercalate (shard.bytes.map toString) ++ "])"

def RecoveryCodecError.display : RecoveryCodecError → String
  | unsupportedVersion actual expected =>
    s!"unsupported recovery format version {actual}, expected {expected}"
  | unknownDiscriminant typeName value => s!"unknown {typeName} discriminant {value}"
  | zeroScalar field => s!"{field} must be non-zero"
  | invalidValue field => s!"invalid {field}"
  | lengthOverflow field length => s!"{field} length {length} exceeds u32"
  | lengthBound field length max => s!"{field} length {length} exceeds {max}"
  | truncated field needed remaining =>
    s!"truncated {field}: need {needed} bytes, have {remaining}"
  | trailingBytes count => s!"recovery value has {count} trailing bytes"
  | chainDigestMismatch => "recovery chain digest mismatch"
  | emptySegment => "recovery segment is empty"
  | duplicateRecoveryLsn lsn => s!"recovery segment contains duplicate LSN {lsn}"
  | recoveryLsnGap expected actual =>
    s!"recovery segment expected LSN {expected}, found {actual}"
  | recoveryLsnRegression previous actual =>
    s!"recovery segment LSN regressed from {previous} to {actual}"
  | unexpectedLogicalShard expected actual =>
    s!"recovery command targets logical shard {debugShard actual}, expected {debugShard expected}"
  | segmentHeaderMismatch => "recovery segment header does not match its records"
  | segmentDigestMismatch => "recovery segment digest mismatch"

/-! ### Encoding -/

def u32Len (field : String) (length : ℕ) : Except RecoveryCodecError ℕ :=
  if length < 2 ^ 32 then .ok length else .error (.lengthOverflow field length)

def putBytes (field : String) (value : Bytes) : Except RecoveryCodecError Bytes := do
  let length ← u32Len field value.length
  return be 4 length ++ value

def putCount (field : String) (count : ℕ) : Except RecoveryCodecError Bytes := do
  refuseIf (MAX_COMMAND_ITEMS < count) (RecoveryCodecError.lengthBound field count MAX_COMMAND_ITEMS)
  let count ← u32Len field count
  return be 4 count

def encodeOptionalU64 : Option UInt64 → Bytes
  | none => [0]
  | some value => [1] ++ be 8 value.toNat

def encodeInitiator : Option PrincipalId → Bytes
  | none => [0]
  | some initiator => [1] ++ initiator.bytes

def encodeRootAction : RootFenceAction → Bytes
  | .install => [1]
  | .bindObjectNamespace expected => [4] ++ [expected.toU8]
  | .requireActive => [2]
  | .transition expected next => [3] ++ ([expected.toU8] ++ [next.toU8])

def encodeExpected : Option Bytes → Except RecoveryCodecError Bytes
  | none => .ok [0]
  | some value => do
    let value ← putBytes "predicate_value" value
    return [1] ++ value

def encodePredicate : CommandPredicate → Except RecoveryCodecError Bytes
  | .value family key expected => do
    let key ← putBytes "predicate_key" key
    let expected ← encodeExpected expected
    return List.flatten [[1], [family.formatTag], key, expected]
  | .prefixEmpty family keyPrefix => do
    let keyPrefix ← putBytes "predicate_prefix" keyPrefix
    return List.flatten [[2], [family.formatTag], keyPrefix]

def encodeMutation : CommandMutation → Except RecoveryCodecError Bytes
  | .put family key value => do
    let key ← putBytes "mutation_key" key
    let value ← putBytes "mutation_value" value
    return List.flatten [[1], [family.formatTag], key, value]
  | .delete family key => do
    let key ← putBytes "mutation_key" key
    return List.flatten [[2], [family.formatTag], key]

def encodeHistoryProjection (projection : HistoryProjection) : Except RecoveryCodecError Bytes := do
  let key ← putBytes "history_key" projection.key
  return List.flatten [[projection.family.formatTag], key]

def encodeEventProjection (projection : EventProjection) : Except RecoveryCodecError Bytes :=
  putBytes "event_payload" projection.payload

def encodeAll {α : Type} (encode : α → Except RecoveryCodecError Bytes) (items : List α) :
    Except RecoveryCodecError Bytes := do
  let encoded ← items.mapM encode
  return encoded.flatten

def encodeCommand [Sha256] (formatVersion : UInt8) (command : MetadataCommand)
    (leaseDeadlineMs : Option UInt64) : Except RecoveryCodecError Bytes := do
  refuseIf (command.schemaId ≠ SCHEMA_ID ∨ command.commandDigest ≠ command.canonicalDigest ∨
    leaseDeadlineMs = some 0) (RecoveryCodecError.invalidValue "metadata_command")
  let schemaId ← putBytes "schema_id" (utf8 command.schemaId)
  refuseIf (formatVersion ≠ RECOVERY_OUTBOX_VALUE_FORMAT_VERSION)
    (RecoveryCodecError.invalidValue "object_namespace_id")
  let objectNamespaceId ← okOr command.objectNamespaceId
    (RecoveryCodecError.invalidValue "object_namespace_id")
  let predicateCount ← putCount "predicates" command.predicates.length
  let predicates ← encodeAll encodePredicate command.predicates
  let mutationCount ← putCount "mutations" command.mutations.length
  let mutations ← encodeAll encodeMutation command.mutations
  let historyCount ← putCount "history_projection" command.historyProjection.length
  let historyProjection ← encodeAll encodeHistoryProjection command.historyProjection
  let eventCount ← putCount "event_projection" command.eventProjection.length
  let eventProjection ← encodeAll encodeEventProjection command.eventProjection
  let deterministicResult ← putBytes "deterministic_result" command.deterministicResult
  return List.flatten [
    [1],
    schemaId,
    command.rootId.bytes,
    command.logicalShardId.bytes,
    objectNamespaceId.bytes,
    be 8 command.placementGeneration.get,
    be 8 command.ownerEpoch.get,
    command.requestId.bytes,
    encodeInitiator command.initiator,
    command.commandDigest.bytes,
    be 8 command.readVersion.get,
    encodeRootAction command.rootFenceAction,
    predicateCount, predicates,
    mutationCount, mutations,
    historyCount, historyProjection,
    eventCount, eventProjection,
    deterministicResult,
    encodeOptionalU64 leaseDeadlineMs]

namespace RecoveryMutationV1

/-- The canonical bytes, before their length is checked. -/
def encodeBytes [Sha256] (formatVersion : UInt8) :
    RecoveryMutationV1 → Except RecoveryCodecError Bytes
  | metadataCommand command leaseDeadlineMs => encodeCommand formatVersion command leaseDeadlineMs
  | observeLeaseClock rootId placementGeneration ownerEpoch observedMs => do
    refuseIf (observedMs = 0) (RecoveryCodecError.zeroScalar "observed_ms")
    return List.flatten [[2], rootId.bytes, be 8 placementGeneration.get, be 8 ownerEpoch.get,
      be 8 observedMs.toNat]
  | advanceOwnerEpoch expected next => do
    refuseIf (expected.any fun expected => next ≤ expected)
      (RecoveryCodecError.invalidValue "owner_epoch_transition")
    return List.flatten [[3], encodeOptionalU64 (expected.map NonZeroU64.val), be 8 next.get]

def encodeCanonicalForVersion [Sha256] (formatVersion : UInt8) (mutation : RecoveryMutationV1) :
    Except RecoveryCodecError Bytes := do
  let bytes ← mutation.encodeBytes formatVersion
  refuseIf (MAX_RECOVERY_BYTES < bytes.length)
    (RecoveryCodecError.lengthBound "mutation" bytes.length MAX_RECOVERY_BYTES)
  return bytes

def encodeCanonical [Sha256] (mutation : RecoveryMutationV1) : Except RecoveryCodecError Bytes :=
  mutation.encodeCanonicalForVersion RECOVERY_OUTBOX_VALUE_FORMAT_VERSION

end RecoveryMutationV1

namespace RecoveryResultV1

/-- The canonical bytes, before their length is checked. -/
def encodeBytes : RecoveryResultV1 → Except RecoveryCodecError Bytes
  | metadataCommand commitVersion deterministicResult => do
    let deterministicResult ← putBytes "deterministic_result" deterministicResult
    return List.flatten [[1], be 8 commitVersion.get, deterministicResult]
  | leaseClock effectiveHighWaterMs => .ok (List.flatten [[2], be 8 effectiveHighWaterMs.toNat])
  | ownerEpoch appliedOwnerEpoch => .ok (List.flatten [[3], be 8 appliedOwnerEpoch.get])

def encodeCanonical (result : RecoveryResultV1) : Except RecoveryCodecError Bytes := do
  let bytes ← result.encodeBytes
  refuseIf (MAX_RECOVERY_BYTES < bytes.length)
    (RecoveryCodecError.lengthBound "result" bytes.length MAX_RECOVERY_BYTES)
  return bytes

end RecoveryResultV1

/-! ### Fields of the decoder -/

abbrev RecoveryDecoder := Cursor RecoveryCodecError

namespace RecoveryDecoder

def u8 (field : String) : RecoveryDecoder UInt8 := Cursor.u8 .truncated field
def u32 (field : String) : RecoveryDecoder ℕ := Cursor.u32 .truncated field
def u64 (field : String) : RecoveryDecoder UInt64 := Cursor.u64 .truncated field
def fixed (n : ℕ) (field : String) : RecoveryDecoder (FixedBytes n) :=
  Cursor.fixed .truncated field n
def finish : RecoveryDecoder Unit := Cursor.finish .trailingBytes

def recoveryVersion : RecoveryDecoder UInt8 := do
  let actual ← u8 "value_format_version"
  refuseIf (actual ≠ RECOVERY_OUTBOX_VALUE_FORMAT_VERSION)
    (RecoveryCodecError.unsupportedVersion actual RECOVERY_OUTBOX_VALUE_FORMAT_VERSION)
  return actual

def count (field : String) : RecoveryDecoder ℕ := do
  let count ← u32 field
  refuseIf (MAX_COMMAND_ITEMS < count) (RecoveryCodecError.lengthBound field count MAX_COMMAND_ITEMS)
  return count

def optionalU64 (field : String) : RecoveryDecoder (Option UInt64) := do
  let tag ← u8 field
  if tag = 0 then return none
  else if tag = 1 then some <$> u64 field
  else throw (.unknownDiscriminant field tag)

def bytes (field : String) : RecoveryDecoder Bytes := do
  let length ← u32 field
  refuseIf (MAX_RECOVERY_BYTES < length)
    (RecoveryCodecError.lengthBound field length MAX_RECOVERY_BYTES)
  Cursor.take .truncated field length

def nonzero (field : String) : RecoveryDecoder NonZeroU64 := do
  let value ← u64 field
  okOr (NonZeroU64.new value) (RecoveryCodecError.zeroScalar field)

def initiator : RecoveryDecoder (Option PrincipalId) := do
  let tag ← u8 "initiator"
  if tag = 0 then return none
  else if tag = 1 then some <$> fixed 16 "initiator"
  else throw (.invalidValue "initiator")

def family (field : String) : RecoveryDecoder MetadataFamily := do
  let value ← u8 field
  okOr (MetadataFamily.fromFormatTag value)
    (RecoveryCodecError.unknownDiscriminant "MetadataFamily" value)

def rootState (field : String) : RecoveryDecoder RootActivationState := do
  let value ← u8 field
  okOr (RootActivationState.ofU8 value)
    (RecoveryCodecError.unknownDiscriminant "RootActivationState" value)

def rootAction : RecoveryDecoder RootFenceAction := do
  let kind ← u8 "root_fence_action"
  if kind = 1 then return .install
  else if kind = 2 then return .requireActive
  else if kind = 3 then do
    let expected ← rootState "expected_root_state"
    let next ← rootState "next_root_state"
    return .transition expected next
  else if kind = 4 then do
    let expected ← rootState "expected_root_state"
    return .bindObjectNamespace expected
  else throw (.unknownDiscriminant "RootFenceAction" kind)

def expected : RecoveryDecoder (Option Bytes) := do
  let tag ← u8 "predicate_value_tag"
  if tag = 0 then return none
  else if tag = 1 then some <$> bytes "predicate_value"
  else throw (.unknownDiscriminant "predicate_value_tag" tag)

def predicate : RecoveryDecoder CommandPredicate := do
  let kind ← u8 "predicate_kind"
  if kind = 1 then do
    let family ← family "predicate_family"
    let key ← bytes "predicate_key"
    let expected ← expected
    return .value family key expected
  else if kind = 2 then do
    let family ← family "predicate_family"
    let keyPrefix ← bytes "predicate_prefix"
    return .prefixEmpty family keyPrefix
  else throw (.unknownDiscriminant "CommandPredicate" kind)

def mutation : RecoveryDecoder CommandMutation := do
  let kind ← u8 "command_mutation_kind"
  if kind = 1 then do
    let family ← family "mutation_family"
    let key ← bytes "mutation_key"
    let value ← bytes "mutation_value"
    return .put family key value
  else if kind = 2 then do
    let family ← family "mutation_family"
    let key ← bytes "mutation_key"
    return .delete family key
  else throw (.unknownDiscriminant "CommandMutation" kind)

def historyProjection : RecoveryDecoder HistoryProjection := do
  let family ← family "history_family"
  let key ← bytes "history_key"
  return ⟨family, key⟩

def eventProjection : RecoveryDecoder EventProjection := do
  let payload ← bytes "event_payload"
  return ⟨payload⟩

def expectedOwner : RecoveryDecoder (Option OwnerEpoch) := do
  match ← optionalU64 "expected_owner_epoch" with
  | none => return none
  | some value =>
    let owner ← okOr (NonZeroU64.new value) (RecoveryCodecError.zeroScalar "expected_owner_epoch")
    return some owner

/-- `String::from_utf8`. -/
def fromUtf8 (value : Bytes) : Option String := String.fromUTF8? ⟨value.toArray⟩

end RecoveryDecoder

open RecoveryDecoder in
/-- The fields of a command after its kind. -/
def decodeCommand [Sha256] (formatVersion : UInt8) : RecoveryDecoder RecoveryMutationV1 := do
  let schemaBytes ← bytes "schema_id"
  let schemaId ← okOr (fromUtf8 schemaBytes) (RecoveryCodecError.invalidValue "schema_id")
  let rootId ← fixed 16 "root_id"
  let logicalShardId ← fixed 16 "logical_shard_id"
  refuseIf (formatVersion ≠ RECOVERY_OUTBOX_VALUE_FORMAT_VERSION)
    (RecoveryCodecError.unsupportedVersion formatVersion RECOVERY_OUTBOX_VALUE_FORMAT_VERSION)
  let objectNamespaceId ← fixed 16 "object_namespace_id"
  let placementGeneration ← nonzero "placement_generation"
  let ownerEpoch ← nonzero "owner_epoch"
  let requestId ← fixed 16 "request_id"
  let initiator ← initiator
  let commandDigest ← fixed 32 "command_digest"
  let readVersion ← nonzero "read_version"
  let rootFenceAction ← rootAction
  let predicateCount ← count "predicates"
  let predicates ← Cursor.repeatN predicate predicateCount
  let mutationCount ← count "mutations"
  let mutations ← Cursor.repeatN mutation mutationCount
  let historyCount ← count "history_projection"
  let historyProjection ← Cursor.repeatN historyProjection historyCount
  let eventCount ← count "event_projection"
  let eventProjection ← Cursor.repeatN eventProjection eventCount
  let deterministicResult ← bytes "deterministic_result"
  let leaseDeadlineMs ← optionalU64 "lease_deadline_ms"
  let command : MetadataCommand := ⟨schemaId, rootId, logicalShardId, some objectNamespaceId,
    placementGeneration, ownerEpoch, requestId, initiator, commandDigest, readVersion,
    rootFenceAction, predicates, mutations, historyProjection, eventProjection,
    deterministicResult⟩
  refuseIf (command.commandDigest ≠ command.canonicalDigest)
    (RecoveryCodecError.invalidValue "command_digest")
  return .metadataCommand command leaseDeadlineMs

namespace RecoveryMutationV1

open RecoveryDecoder in
def decoder [Sha256] (formatVersion : UInt8) : RecoveryDecoder RecoveryMutationV1 := do
  let kind ← u8 "mutation_kind"
  if kind = 1 then decodeCommand formatVersion
  else if kind = 2 then do
    let rootId ← fixed 16 "root_id"
    let placementGeneration ← nonzero "placement_generation"
    let ownerEpoch ← nonzero "owner_epoch"
    let observedMs ← u64 "observed_ms"
    return .observeLeaseClock rootId placementGeneration ownerEpoch observedMs
  else if kind = 3 then do
    let expected ← expectedOwner
    let next ← nonzero "next_owner_epoch"
    return .advanceOwnerEpoch expected next
  else throw (.unknownDiscriminant "RecoveryMutationV1" kind)

def decodeCanonicalForVersion [Sha256] (encoded : Bytes) (formatVersion : UInt8) :
    Except RecoveryCodecError RecoveryMutationV1 := do
  refuseIf (MAX_RECOVERY_BYTES < encoded.length)
    (RecoveryCodecError.lengthBound "mutation" encoded.length MAX_RECOVERY_BYTES)
  let mutation ← Cursor.decode
    (do let mutation ← decoder formatVersion; RecoveryDecoder.finish; return mutation) encoded
  let canonical ← mutation.encodeCanonicalForVersion formatVersion
  refuseIf (canonical ≠ encoded) (RecoveryCodecError.invalidValue "canonical_mutation")
  return mutation

end RecoveryMutationV1

namespace RecoveryResultV1

open RecoveryDecoder in
def decoder : RecoveryDecoder RecoveryResultV1 := do
  let kind ← u8 "result_kind"
  if kind = 1 then do
    let commitVersion ← nonzero "commit_version"
    let deterministicResult ← bytes "deterministic_result"
    return .metadataCommand commitVersion deterministicResult
  else if kind = 2 then do
    let effectiveHighWaterMs ← u64 "effective_high_water_ms"
    return .leaseClock effectiveHighWaterMs
  else if kind = 3 then do
    let appliedOwnerEpoch ← nonzero "applied_owner_epoch"
    return .ownerEpoch appliedOwnerEpoch
  else throw (.unknownDiscriminant "RecoveryResultV1" kind)

def decodeCanonical (encoded : Bytes) : Except RecoveryCodecError RecoveryResultV1 := do
  refuseIf (MAX_RECOVERY_BYTES < encoded.length)
    (RecoveryCodecError.lengthBound "result" encoded.length MAX_RECOVERY_BYTES)
  let result ← Cursor.decode
    (do let result ← decoder; RecoveryDecoder.finish; return result) encoded
  let canonical ← result.encodeCanonical
  refuseIf (canonical ≠ encoded) (RecoveryCodecError.invalidValue "canonical_result")
  return result

end RecoveryResultV1

/-! ### Round trips of the fields -/

lemma u32Len_eq_ok {field : String} {length n : ℕ} (h : u32Len field length = .ok n) :
    n = length ∧ length < 2 ^ 32 := by
  unfold u32Len at h
  split at h
  next hlt => exact ⟨(Except.ok.inj h).symm, hlt⟩
  next => cases h

lemma putBytes_eq_ok {field : String} {value e : Bytes} (h : putBytes field value = .ok e) :
    value.length < 2 ^ 32 ∧ e = be 4 value.length ++ value := by
  obtain ⟨_, hlen, h⟩ := bind_eq_ok.1 h
  obtain ⟨rfl, hlt⟩ := u32Len_eq_ok hlen
  exact ⟨hlt, (pure_eq_ok.1 h).symm⟩

namespace RecoveryDecoder

/-- A decoder that inverts an encoder on every output of admissible length. -/
def Inverts {α : Type} (decoder : RecoveryDecoder α) (encode : α → Except RecoveryCodecError Bytes) :
    Prop :=
  ∀ a e, encode a = .ok e → e.length ≤ MAX_RECOVERY_BYTES → decoder.Decodes e a

lemma decodes_bytes (field field' : String) : Inverts (bytes field) (putBytes field') := by
  intro value e h hle
  obtain ⟨hlt, rfl⟩ := putBytes_eq_ok h
  rw [List.length_append] at hle
  exact (Cursor.decodes_u32 hlt).bind
    ((Cursor.Decodes.refuseIf (by omega)).nil_bind (Cursor.decodes_take rfl))

lemma decodes_count {field field' : String} {n : ℕ} {e : Bytes} (h : putCount field' n = .ok e) :
    (count field).Decodes e n := by
  obtain ⟨hle, hrest⟩ := refuseIf_bind h
  obtain ⟨_, hlen, rfl⟩ := bind_pure_eq_ok hrest
  obtain ⟨rfl, hlt⟩ := u32Len_eq_ok hlen
  exact (Cursor.decodes_u32 hlt).bind_nil
    ((Cursor.Decodes.refuseIf hle).nil_bind (.pure _))

lemma decodes_nonzero (field : String) (v : NonZeroU64) :
    (nonzero field).Decodes (be 8 v.get) v :=
  (Cursor.decodes_u64 v.val).bind_nil (.okOr (NonZeroU64.new_val v))

lemma decodes_optionalU64 (field : String) (v : Option UInt64) :
    (optionalU64 field).Decodes (encodeOptionalU64 v) v := by
  cases v with
  | none => exact (Cursor.decodes_u8 0).bind_nil (.pure none)
  | some v => exact (Cursor.decodes_u8 1).bind ((Cursor.decodes_u64 v).map some)

lemma decodes_initiator (v : Option PrincipalId) : initiator.Decodes (encodeInitiator v) v := by
  cases v with
  | none => exact (Cursor.decodes_u8 0).bind_nil (.pure none)
  | some v => exact (Cursor.decodes_u8 1).bind ((Cursor.decodes_fixed v).map some)

lemma decodes_family (field : String) (f : MetadataFamily) :
    (family field).Decodes [f.formatTag] f :=
  (Cursor.decodes_u8 _).bind_nil (.okOr (MetadataFamily.fromFormatTag_formatTag f))

lemma decodes_rootState (field : String) (state : RootActivationState) :
    (rootState field).Decodes [state.toU8] state :=
  (Cursor.decodes_u8 _).bind_nil (.okOr (RootActivationState.ofU8_toU8 state))

lemma decodes_rootAction (action : RootFenceAction) :
    rootAction.Decodes (encodeRootAction action) action := by
  cases action with
  | install => exact (Cursor.decodes_u8 1).bind_nil (.pure _)
  | requireActive => exact (Cursor.decodes_u8 2).bind_nil (.pure _)
  | transition expected next =>
    exact (Cursor.decodes_u8 3).bind
      ((decodes_rootState _ expected).bind ((decodes_rootState _ next).bind_nil (.pure _)))
  | bindObjectNamespace expected =>
    exact (Cursor.decodes_u8 4).bind ((decodes_rootState _ expected).bind_nil (.pure _))

lemma decodes_expected : Inverts expected encodeExpected := by
  intro value e h hle
  cases value with
  | none =>
    cases Except.ok.inj h
    exact (Cursor.decodes_u8 0).bind_nil (.pure none)
  | some =>
    obtain ⟨v, hv, rfl⟩ := bind_pure_eq_ok h
    rw [List.length_append] at hle
    exact (Cursor.decodes_u8 1).bind ((decodes_bytes _ _ _ _ hv (by omega)).map some)

lemma length_le_of_mem {e : Bytes} {es : List Bytes} {n : ℕ} (h : es.flatten.length ≤ n)
    (he : e ∈ es) : e.length ≤ n :=
  (List.sublist_flatten_of_mem he).length_le.trans h

lemma decodes_predicate : Inverts predicate encodePredicate := by
  intro p e h hle
  cases p with
  | value f =>
    obtain ⟨k, hk, h⟩ := bind_eq_ok.1 h
    obtain ⟨v, hv, rfl⟩ := bind_pure_eq_ok h
    exact (Cursor.decodes_u8 1).cons <| (decodes_family _ f).cons <|
      (decodes_bytes _ _ _ _ hk (length_le_of_mem hle (by simp))).cons <|
      (decodes_expected _ _ hv (length_le_of_mem hle (by simp))).cons <| .pure _
  | prefixEmpty f =>
    obtain ⟨k, hk, rfl⟩ := bind_pure_eq_ok h
    exact (Cursor.decodes_u8 2).cons <| (decodes_family _ f).cons <|
      (decodes_bytes _ _ _ _ hk (length_le_of_mem hle (by simp))).cons <| .pure _

lemma decodes_mutation : Inverts mutation encodeMutation := by
  intro m e h hle
  cases m with
  | put f =>
    obtain ⟨k, hk, h⟩ := bind_eq_ok.1 h
    obtain ⟨v, hv, rfl⟩ := bind_pure_eq_ok h
    exact (Cursor.decodes_u8 1).cons <| (decodes_family _ f).cons <|
      (decodes_bytes _ _ _ _ hk (length_le_of_mem hle (by simp))).cons <|
      (decodes_bytes _ _ _ _ hv (length_le_of_mem hle (by simp))).cons <| .pure _
  | delete f =>
    obtain ⟨k, hk, rfl⟩ := bind_pure_eq_ok h
    exact (Cursor.decodes_u8 2).cons <| (decodes_family _ f).cons <|
      (decodes_bytes _ _ _ _ hk (length_le_of_mem hle (by simp))).cons <| .pure _

lemma decodes_historyProjection : Inverts historyProjection encodeHistoryProjection := by
  intro p e h hle
  obtain ⟨k, hk, rfl⟩ := bind_pure_eq_ok h
  exact (decodes_family _ p.family).cons <|
    (decodes_bytes _ _ _ _ hk (length_le_of_mem hle (by simp))).cons <| .pure _

lemma decodes_eventProjection : Inverts eventProjection encodeEventProjection := by
  intro p e h hle
  exact (decodes_bytes _ _ _ _ h hle).bind_nil (.pure _)

variable {α : Type} {decoder : RecoveryDecoder α} {encode : α → Except RecoveryCodecError Bytes}
  (hinv : Inverts decoder encode) {xs : List α}
include hinv

lemma decodes_mapM {es : List Bytes} (h : xs.mapM encode = .ok es)
    (hle : ∀ e ∈ es, e.length ≤ MAX_RECOVERY_BYTES) : List.Forall₂ decoder.Decodes es xs := by
  induction xs generalizing es with
  | nil =>
    cases pure_eq_ok.1 h
    exact .nil
  | cons x _ ih =>
    rw [List.mapM_cons] at h
    obtain ⟨e, hx, h⟩ := bind_eq_ok.1 h
    obtain ⟨_, hxs, rfl⟩ := bind_pure_eq_ok h
    refine .cons (hinv x e hx (hle e (List.mem_cons_self ..))) (ih hxs ?_)
    exact fun e' he' => hle e' (List.mem_cons_of_mem _ he')

lemma decodes_all {e : Bytes} (h : encodeAll encode xs = .ok e) (hle : e.length ≤ MAX_RECOVERY_BYTES) :
    (Cursor.repeatN decoder xs.length).Decodes e xs := by
  obtain ⟨_, hes, rfl⟩ := bind_pure_eq_ok h
  exact .repeatN (decodes_mapM hinv hes fun _ he' => length_le_of_mem hle he')

end RecoveryDecoder

/-! ### Round trips of mutations and results -/

open RecoveryDecoder in
lemma decodes_command [Sha256] {command : MetadataCommand} {deadline : Option UInt64} {v : UInt8}
    {e : Bytes} (h : encodeCommand v command deadline = .ok e)
    (hle : e.length ≤ MAX_RECOVERY_BYTES) :
    (RecoveryMutationV1.decoder v).Decodes e (.metadataCommand command deadline) := by
  -- what the encoder has checked and encoded, in its order
  obtain ⟨_, hvalid, h⟩ := bind_eq_ok.1 h
  obtain ⟨_, hschema, h⟩ := bind_eq_ok.1 h
  obtain ⟨hversion, h⟩ := refuseIf_bind h
  obtain ⟨ns, hns, h⟩ := bind_eq_ok.1 h
  obtain ⟨_, hpc, h⟩ := bind_eq_ok.1 h
  obtain ⟨_, hps, h⟩ := bind_eq_ok.1 h
  obtain ⟨_, hmc, h⟩ := bind_eq_ok.1 h
  obtain ⟨_, hms, h⟩ := bind_eq_ok.1 h
  obtain ⟨_, hhc, h⟩ := bind_eq_ok.1 h
  obtain ⟨_, hhs, h⟩ := bind_eq_ok.1 h
  obtain ⟨_, hec, h⟩ := bind_eq_ok.1 h
  obtain ⟨_, hes, h⟩ := bind_eq_ok.1 h
  obtain ⟨r, hr, rfl⟩ := bind_pure_eq_ok h
  rw [refuseIf_eq_ok, not_or, not_or, not_not, not_not] at hvalid
  obtain ⟨hid, hdigest, -⟩ := hvalid
  have hutf8 : fromUtf8 (utf8 command.schemaId) = some command.schemaId := by
    rw [hid]
    decide
  have hns := okOr_eq_ok.1 hns
  have field : ∀ {f : Bytes}, f ∈ _ → f.length ≤ MAX_RECOVERY_BYTES :=
    fun hf => length_le_of_mem hle hf
  obtain ⟨_, _⟩ := command
  cases hns
  -- the decoder reads the fields one by one
  refine (Cursor.decodes_u8 1).cons <| ?_
  exact (decodes_bytes _ _ _ _ hschema (field (by simp))).cons <|
    (Cursor.Decodes.okOr hutf8).nil_bind <|
    (Cursor.decodes_fixed _).cons <| (Cursor.decodes_fixed _).cons <|
    (Cursor.Decodes.refuseIf hversion).nil_bind <|
    (Cursor.decodes_fixed ns).cons <|
    (decodes_nonzero _ _).cons <| (decodes_nonzero _ _).cons <|
    (Cursor.decodes_fixed _).cons <| (decodes_initiator _).cons <|
    (Cursor.decodes_fixed _).cons <| (decodes_nonzero _ _).cons <|
    (decodes_rootAction _).cons <|
    (decodes_count hpc).cons <|
    (decodes_all decodes_predicate hps (field (by simp))).cons <|
    (decodes_count hmc).cons <|
    (decodes_all decodes_mutation hms (field (by simp))).cons <|
    (decodes_count hhc).cons <|
    (decodes_all decodes_historyProjection hhs (field (by simp))).cons <|
    (decodes_count hec).cons <|
    (decodes_all decodes_eventProjection hes (field (by simp))).cons <|
    (decodes_bytes _ _ _ _ hr (field (by simp))).cons <|
    (decodes_optionalU64 _ _).cons <|
    (Cursor.Decodes.refuseIf (not_not.2 hdigest)).nil_bind <| .pure _

namespace RecoveryMutationV1

open RecoveryDecoder in
lemma decodes_expectedOwner (expected : Option OwnerEpoch) :
    expectedOwner.Decodes (encodeOptionalU64 (expected.map NonZeroU64.val)) expected := by
  refine (decodes_optionalU64 _ _).bind_nil ?_
  cases expected with
  | none => exact .pure none
  | some owner => exact (Cursor.Decodes.okOr (NonZeroU64.new_val owner)).bind_nil (.pure _)

variable {mutation : RecoveryMutationV1} {v : UInt8} {e : Bytes}

open RecoveryDecoder in
lemma decodes [Sha256] (h : mutation.encodeBytes v = .ok e) (hle : e.length ≤ MAX_RECOVERY_BYTES) :
    (decoder v).Decodes e mutation := by
  cases mutation with
  | metadataCommand => exact decodes_command h hle
  | observeLeaseClock root generation owner observed =>
    obtain ⟨_, -, rfl⟩ := bind_pure_eq_ok h
    exact (Cursor.decodes_u8 2).cons <| (Cursor.decodes_fixed root).cons <|
      (decodes_nonzero _ generation).cons <| (decodes_nonzero _ owner).cons <|
      (Cursor.decodes_u64 observed).cons <| .pure _
  | advanceOwnerEpoch expected next =>
    obtain ⟨_, -, rfl⟩ := bind_pure_eq_ok h
    exact (Cursor.decodes_u8 3).cons <| (decodes_expectedOwner expected).cons <|
      (decodes_nonzero _ next).cons <| .pure _

lemma encodeCanonicalForVersion_eq_ok [Sha256] (h : mutation.encodeCanonicalForVersion v = .ok e) :
    mutation.encodeBytes v = .ok e ∧ e.length ≤ MAX_RECOVERY_BYTES := by
  obtain ⟨_, hbytes, h⟩ := bind_eq_ok.1 h
  obtain ⟨hle, h⟩ := refuseIf_bind h
  cases pure_eq_ok.1 h
  exact ⟨hbytes, not_lt.1 hle⟩

lemma decode_encode [Sha256] (h : mutation.encodeCanonicalForVersion v = .ok e) :
    decodeCanonicalForVersion e v = .ok mutation := by
  obtain ⟨hbytes, hle⟩ := encodeCanonicalForVersion_eq_ok h
  have hdec := (decodes hbytes hle).decode (t := .trailingBytes)
  unfold decodeCanonicalForVersion RecoveryDecoder.finish
  rw [refuseIf_of_not (not_lt.2 hle), ok_bind, hdec, ok_bind, h, ok_bind,
    refuseIf_of_not (not_not.2 rfl)]
  rfl

end RecoveryMutationV1

namespace RecoveryResultV1

variable {result : RecoveryResultV1}

open RecoveryDecoder in
lemma decodes {e : Bytes} (h : result.encodeBytes = .ok e) (hle : e.length ≤ MAX_RECOVERY_BYTES) :
    decoder.Decodes e result := by
  cases result with
  | metadataCommand version =>
    obtain ⟨r, hr, rfl⟩ := bind_pure_eq_ok h
    exact (Cursor.decodes_u8 1).cons <| (decodes_nonzero _ version).cons <|
      (decodes_bytes _ _ _ _ hr (length_le_of_mem hle (by simp))).cons <| .pure _
  | leaseClock effective =>
    cases Except.ok.inj h
    exact (Cursor.decodes_u8 2).cons <| (Cursor.decodes_u64 effective).cons <| .pure _
  | ownerEpoch applied =>
    cases Except.ok.inj h
    exact (Cursor.decodes_u8 3).cons <| (decodes_nonzero _ applied).cons <| .pure _

lemma decode_encode {e : Bytes} (h : result.encodeCanonical = .ok e) :
    decodeCanonical e = .ok result ∧ e.length ≤ MAX_RECOVERY_BYTES := by
  obtain ⟨_, hbytes, hrest⟩ := bind_eq_ok.1 h
  obtain ⟨_, hle, rfl⟩ := bind_pure_eq_ok hrest
  have hle := not_lt.1 (refuseIf_eq_ok.1 hle)
  have hdec := (decodes hbytes hle).decode (t := .trailingBytes)
  refine ⟨?_, hle⟩
  unfold decodeCanonical RecoveryDecoder.finish
  rw [refuseIf_of_not (not_lt.2 hle), ok_bind, hdec, ok_bind, h, ok_bind,
    refuseIf_of_not (not_not.2 rfl)]
  rfl

end RecoveryResultV1

end NoKV.Meta
