import NoKV.Types

/-!
# Durable record codecs

The value envelopes of the metadata store and their strict decoders. Every decoder inverts its
encoder (`RootFence.decode_encode`, `CurrentValue.decode_encode`, `HistoryValue.decode_encode`,
`CommandDedupeRecord.decode_encode`).
-/

namespace NoKV.Meta

open Lib

/-- Initial value format of every durable workspace record. -/
def VALUE_FORMAT_VERSION : UInt8 := 1
def ROOT_FENCE_VALUE_FORMAT_VERSION : UInt8 := 2
def COMMAND_DEDUPE_VALUE_FORMAT_VERSION : UInt8 := 2

/-- Installed shard-local placement fence of one root. -/
structure RootFence where
  logicalShardId : LogicalShardId
  objectNamespaceId : Option ObjectNamespaceId
  placementGeneration : PlacementGeneration
  activationState : RootActivationState
  deriving DecidableEq

/-- Versioned envelope stored by a current-state metadata family. -/
structure CurrentValue where
  createdVersion : CommitVersion
  modifiedVersion : CommitVersion
  payload : Bytes
  deriving DecidableEq

/-- Previous current-state value retained in the ordered history family. -/
structure HistoryValue where
  transitionVersion : CommitVersion
  previousCreatedVersion : CommitVersion
  previousModifiedVersion : CommitVersion
  previousPayload : Option Bytes
  deriving DecidableEq

/-- Exact replay result persisted for one metadata command request id. -/
structure CommandDedupeRecord where
  commandDigest : CommandDigest
  commitVersion : CommitVersion
  recoveryLsn : UInt64
  deterministicResult : Bytes
  deriving DecidableEq

/-- Strict durable-record decode or encode failure. -/
inductive RecordCodecError where
  | unsupportedValueVersion (actual expected : UInt8)
  | unknownDiscriminant (typeName : String) (value : UInt8)
  | zeroScalar (field : String)
  | invalidVersionOrder (created modified : ℕ)
  | invalidHistoryTransition (transition previousModified : ℕ)
  | invalidOptionalTag (field : String) (value : UInt8)
  | lengthOverflow (field : String) (length : ℕ)
  | truncated (field : String) (needed remaining : ℕ)
  | trailingBytes (count : ℕ)
  deriving DecidableEq

def RecordCodecError.display : RecordCodecError → String
  | unsupportedValueVersion actual expected =>
    s!"unsupported value format version {actual}, expected {expected}"
  | unknownDiscriminant typeName value => s!"unknown {typeName} discriminant {value}"
  | zeroScalar field => s!"{field} must be non-zero"
  | invalidVersionOrder created modified =>
    s!"modified version {modified} is older than created version {created}"
  | invalidHistoryTransition transition previousModified =>
    s!"history transition {transition} must be newer than previous modified version " ++
      s!"{previousModified}"
  | invalidOptionalTag field value => s!"invalid optional tag {value} for {field}"
  | lengthOverflow field length => s!"{field} length {length} exceeds u32"
  | truncated field needed remaining =>
    s!"truncated {field}: need {needed} bytes, have {remaining}"
  | trailingBytes count => s!"durable value has {count} trailing bytes"

def checkedU32Length (field : String) (length : ℕ) : Except RecordCodecError ℕ :=
  if length < 2 ^ 32 then .ok length else .error (.lengthOverflow field length)

/-! ### Fields -/

abbrev Decoder := Cursor RecordCodecError

namespace Decoder

def u8 (field : String) : Decoder UInt8 := Cursor.u8 .truncated field
def u32 (field : String) : Decoder ℕ := Cursor.u32 .truncated field
def u64 (field : String) : Decoder UInt64 := Cursor.u64 .truncated field
def fixed (n : ℕ) (field : String) : Decoder (FixedBytes n) := Cursor.fixed .truncated field n
def finish : Decoder Unit := Cursor.finish .trailingBytes

def requireVersion (expected : UInt8) : Decoder Unit := do
  let actual ← u8 "value_format_version"
  refuseIf (actual ≠ expected) (RecordCodecError.unsupportedValueVersion actual expected)

def commitVersion (field : String) : Decoder CommitVersion := do
  let version ← u64 field
  okOr (NonZeroU64.new version) (RecordCodecError.zeroScalar field)

def lengthPrefixedBytes (field : String) : Decoder Bytes := do
  let length ← u32 field
  Cursor.take .truncated field length

lemma decodes_requireVersion (v : UInt8) : (requireVersion v).Decodes [v] () :=
  (Cursor.decodes_u8 v).bind_nil (.refuseIf (not_not.2 rfl))

lemma decodes_commitVersion (field : String) (v : CommitVersion) :
    (commitVersion field).Decodes (be 8 v.get) v :=
  (Cursor.decodes_u64 v.val).bind_nil (.okOr (NonZeroU64.new_val v))

lemma decodes_lengthPrefixedBytes (field : String) {xs : Bytes} (h : xs.length < 2 ^ 32) :
    (lengthPrefixedBytes field).Decodes (be 4 xs.length ++ xs) xs :=
  (Cursor.decodes_u32 h).bind (Cursor.decodes_take rfl)

end Decoder

lemma checkedU32Length_eq_ok {field : String} {length n : ℕ}
    (h : checkedU32Length field length = .ok n) : n = length ∧ length < 2 ^ 32 := by
  unfold checkedU32Length at h
  split at h
  next hlt => exact ⟨(Except.ok.inj h).symm, hlt⟩
  next => cases h

/-! ### Root fences -/

namespace RootFence

def encode (fence : RootFence) : Except RecordCodecError Bytes :=
  .ok (List.flatten [
    [if fence.objectNamespaceId.isSome then ROOT_FENCE_VALUE_FORMAT_VERSION
      else VALUE_FORMAT_VERSION],
    fence.logicalShardId.bytes,
    match fence.objectNamespaceId with
      | some objectNamespaceId => objectNamespaceId.bytes
      | none => [],
    be 8 fence.placementGeneration.get,
    [fence.activationState.toU8]])

open Decoder in
/-- The namespace field, which the first format does not have. -/
def decodeNamespace (version : UInt8) : Decoder (Option ObjectNamespaceId) :=
  if version = ROOT_FENCE_VALUE_FORMAT_VERSION then some <$> fixed 16 "object_namespace_id"
  else pure none

open Decoder in
def decoder : Decoder RootFence := do
  let version ← u8 "value_format_version"
  refuseIf (version ≠ VALUE_FORMAT_VERSION ∧ version ≠ ROOT_FENCE_VALUE_FORMAT_VERSION)
    (RecordCodecError.unsupportedValueVersion version ROOT_FENCE_VALUE_FORMAT_VERSION)
  let logicalShardId ← fixed 16 "logical_shard_id"
  let objectNamespaceId ← decodeNamespace version
  let placementGeneration ← commitVersion "placement_generation"
  let activationDiscriminant ← u8 "activation_state"
  let activationState ← okOr (RootActivationState.ofU8 activationDiscriminant)
    (RecordCodecError.unknownDiscriminant "RootActivationState" activationDiscriminant)
  return ⟨logicalShardId, objectNamespaceId, placementGeneration, activationState⟩

def decode (encoded : Bytes) : Except RecordCodecError RootFence :=
  Cursor.decode (do let fence ← decoder; Decoder.finish; return fence) encoded

lemma decodes {fence : RootFence} {e : Bytes} (h : fence.encode = .ok e) :
    decoder.Decodes e fence := by
  obtain ⟨shard, namespace?, generation, state⟩ := fence
  cases Except.ok.inj h
  cases namespace? with
  | none =>
    exact (Cursor.decodes_u8 VALUE_FORMAT_VERSION).cons <|
      (Cursor.Decodes.refuseIf (by decide)).nil_bind <|
      (Cursor.decodes_fixed shard).cons <|
      Cursor.Decodes.cons (Cursor.Decodes.pure none) <|
      (Decoder.decodes_commitVersion _ generation).cons <|
      (Cursor.decodes_u8 _).cons <|
      (Cursor.Decodes.okOr (RootActivationState.ofU8_toU8 state)).nil_bind <| .pure _
  | some ns =>
    exact (Cursor.decodes_u8 ROOT_FENCE_VALUE_FORMAT_VERSION).cons <|
      (Cursor.Decodes.refuseIf (by decide)).nil_bind <|
      (Cursor.decodes_fixed shard).cons <|
      ((Cursor.decodes_fixed ns).map some).cons <|
      (Decoder.decodes_commitVersion _ generation).cons <|
      (Cursor.decodes_u8 _).cons <|
      (Cursor.Decodes.okOr (RootActivationState.ofU8_toU8 state)).nil_bind <| .pure _

lemma decode_encode {fence : RootFence} {e : Bytes} (h : fence.encode = .ok e) :
    decode e = .ok fence :=
  (decodes h).decode

end RootFence

/-! ### Current values -/

namespace CurrentValue

def encode (value : CurrentValue) : Except RecordCodecError Bytes := do
  refuseIf (value.modifiedVersion < value.createdVersion)
    (RecordCodecError.invalidVersionOrder value.createdVersion.get value.modifiedVersion.get)
  let payloadLength ← checkedU32Length "payload" value.payload.length
  return List.flatten [
    [VALUE_FORMAT_VERSION],
    be 8 value.createdVersion.get,
    be 8 value.modifiedVersion.get,
    be 4 payloadLength ++ value.payload]

open Decoder in
def decoder : Decoder CurrentValue := do
  requireVersion VALUE_FORMAT_VERSION
  let createdVersion ← commitVersion "created_version"
  let modifiedVersion ← commitVersion "modified_version"
  refuseIf (modifiedVersion < createdVersion)
    (RecordCodecError.invalidVersionOrder createdVersion.get modifiedVersion.get)
  let payload ← lengthPrefixedBytes "payload"
  return ⟨createdVersion, modifiedVersion, payload⟩

def decode (encoded : Bytes) : Except RecordCodecError CurrentValue :=
  Cursor.decode (do let value ← decoder; Decoder.finish; return value) encoded

lemma encode_eq_ok {value : CurrentValue} {e : Bytes} (h : value.encode = .ok e) :
    ¬ value.modifiedVersion < value.createdVersion ∧ value.payload.length < 2 ^ 32 ∧
      e = List.flatten [[VALUE_FORMAT_VERSION], be 8 value.createdVersion.get,
        be 8 value.modifiedVersion.get, be 4 value.payload.length ++ value.payload] := by
  obtain ⟨hle, h⟩ := refuseIf_bind h
  obtain ⟨_, hlen, h⟩ := bind_eq_ok.1 h
  obtain ⟨rfl, hlt⟩ := checkedU32Length_eq_ok hlen
  exact ⟨hle, hlt, (pure_eq_ok.1 h).symm⟩

lemma decode_encode {value : CurrentValue} {e : Bytes} (h : value.encode = .ok e) :
    decode e = .ok value := by
  obtain ⟨hle, hlen, rfl⟩ := encode_eq_ok h
  refine Cursor.Decodes.decode (a := value) ?_
  exact (Decoder.decodes_requireVersion _).cons <|
    (Decoder.decodes_commitVersion _ _).cons <|
    (Decoder.decodes_commitVersion _ _).cons <|
    (Cursor.Decodes.refuseIf hle).nil_bind <|
    (Decoder.decodes_lengthPrefixedBytes _ hlen).cons <| .pure _

end CurrentValue

/-! ### History values -/

namespace HistoryValue

/-- The optional payload, with its tag. -/
def encodePayload : Option Bytes → Except RecordCodecError Bytes
  | none => .ok [0]
  | some payload => do
    let payloadLength ← checkedU32Length "previous_payload" payload.length
    return [1] ++ (be 4 payloadLength ++ payload)

def encode (value : HistoryValue) : Except RecordCodecError Bytes := do
  refuseIf (value.previousModifiedVersion < value.previousCreatedVersion)
    (RecordCodecError.invalidVersionOrder value.previousCreatedVersion.get
      value.previousModifiedVersion.get)
  refuseIf (value.transitionVersion ≤ value.previousModifiedVersion)
    (RecordCodecError.invalidHistoryTransition value.transitionVersion.get
      value.previousModifiedVersion.get)
  let previousPayload ← encodePayload value.previousPayload
  return List.flatten [
    [VALUE_FORMAT_VERSION],
    be 8 value.transitionVersion.get,
    be 8 value.previousCreatedVersion.get,
    be 8 value.previousModifiedVersion.get,
    previousPayload]

open Decoder in
def decodePayload : Decoder (Option Bytes) := do
  let tag ← u8 "previous_payload tag"
  if tag = 0 then return none
  else if tag = 1 then some <$> lengthPrefixedBytes "previous_payload"
  else throw (.invalidOptionalTag "previous_payload" tag)

open Decoder in
def decoder : Decoder HistoryValue := do
  requireVersion VALUE_FORMAT_VERSION
  let transitionVersion ← commitVersion "transition_version"
  let previousCreatedVersion ← commitVersion "previous_created_version"
  let previousModifiedVersion ← commitVersion "previous_modified_version"
  refuseIf (previousModifiedVersion < previousCreatedVersion)
    (RecordCodecError.invalidVersionOrder previousCreatedVersion.get previousModifiedVersion.get)
  refuseIf (transitionVersion ≤ previousModifiedVersion)
    (RecordCodecError.invalidHistoryTransition transitionVersion.get previousModifiedVersion.get)
  let previousPayload ← decodePayload
  return ⟨transitionVersion, previousCreatedVersion, previousModifiedVersion, previousPayload⟩

def decode (encoded : Bytes) : Except RecordCodecError HistoryValue :=
  Cursor.decode (do let value ← decoder; Decoder.finish; return value) encoded

lemma decodes_payload {payload : Option Bytes} {e : Bytes} (h : encodePayload payload = .ok e) :
    decodePayload.Decodes e payload := by
  cases payload with
  | none =>
    cases Except.ok.inj h
    exact (Cursor.decodes_u8 0).bind_nil (.pure none)
  | some =>
    obtain ⟨_, hlen, rfl⟩ := bind_pure_eq_ok h
    obtain ⟨rfl, hlt⟩ := checkedU32Length_eq_ok hlen
    exact (Cursor.decodes_u8 1).bind ((Decoder.decodes_lengthPrefixedBytes _ hlt).map some)

lemma encode_eq_ok {value : HistoryValue} {e : Bytes} (h : value.encode = .ok e) :
    ¬ value.previousModifiedVersion < value.previousCreatedVersion ∧
      ¬ value.transitionVersion ≤ value.previousModifiedVersion ∧
      ∃ payload, encodePayload value.previousPayload = .ok payload ∧
        e = List.flatten [[VALUE_FORMAT_VERSION], be 8 value.transitionVersion.get,
          be 8 value.previousCreatedVersion.get, be 8 value.previousModifiedVersion.get,
          payload] := by
  obtain ⟨h1, h⟩ := refuseIf_bind h
  obtain ⟨h2, h⟩ := refuseIf_bind h
  obtain ⟨payload, hp, h⟩ := bind_eq_ok.1 h
  exact ⟨h1, h2, payload, hp, (pure_eq_ok.1 h).symm⟩

lemma decode_encode {value : HistoryValue} {e : Bytes} (h : value.encode = .ok e) :
    decode e = .ok value := by
  obtain ⟨h1, h2, _, hp, rfl⟩ := encode_eq_ok h
  refine Cursor.Decodes.decode (a := value) ?_
  exact (Decoder.decodes_requireVersion _).cons <|
    (Decoder.decodes_commitVersion _ _).cons <|
    (Decoder.decodes_commitVersion _ _).cons <|
    (Decoder.decodes_commitVersion _ _).cons <|
    (Cursor.Decodes.refuseIf h1).nil_bind <|
    (Cursor.Decodes.refuseIf h2).nil_bind <|
    (decodes_payload hp).cons <| .pure _

end HistoryValue

/-! ### Command dedupe records -/

namespace CommandDedupeRecord

def encode (record : CommandDedupeRecord) : Except RecordCodecError Bytes := do
  refuseIf (record.recoveryLsn = 0) (RecordCodecError.zeroScalar "recovery_lsn")
  let resultLength ← checkedU32Length "deterministic_result" record.deterministicResult.length
  return List.flatten [
    [COMMAND_DEDUPE_VALUE_FORMAT_VERSION],
    record.commandDigest.bytes,
    be 8 record.commitVersion.get,
    be 8 record.recoveryLsn.toNat,
    be 4 resultLength ++ record.deterministicResult]

open Decoder in
def decoder : Decoder CommandDedupeRecord := do
  requireVersion COMMAND_DEDUPE_VALUE_FORMAT_VERSION
  let commandDigest ← fixed 32 "command_digest"
  let commitVersion ← Decoder.commitVersion "commit_version"
  let recoveryLsn ← u64 "recovery_lsn"
  refuseIf (recoveryLsn = 0) (RecordCodecError.zeroScalar "recovery_lsn")
  let deterministicResult ← lengthPrefixedBytes "deterministic_result"
  return ⟨commandDigest, commitVersion, recoveryLsn, deterministicResult⟩

def decode (encoded : Bytes) : Except RecordCodecError CommandDedupeRecord :=
  Cursor.decode (do let record ← decoder; Decoder.finish; return record) encoded

lemma encode_eq_ok {record : CommandDedupeRecord} {e : Bytes} (h : record.encode = .ok e) :
    record.recoveryLsn ≠ 0 ∧ record.deterministicResult.length < 2 ^ 32 ∧
      e = List.flatten [[COMMAND_DEDUPE_VALUE_FORMAT_VERSION], record.commandDigest.bytes,
        be 8 record.commitVersion.get, be 8 record.recoveryLsn.toNat,
        be 4 record.deterministicResult.length ++ record.deterministicResult] := by
  obtain ⟨hne, h⟩ := refuseIf_bind h
  obtain ⟨_, hlen, h⟩ := bind_eq_ok.1 h
  obtain ⟨rfl, hlt⟩ := checkedU32Length_eq_ok hlen
  exact ⟨hne, hlt, (pure_eq_ok.1 h).symm⟩

lemma decode_encode {record : CommandDedupeRecord} {e : Bytes} (h : record.encode = .ok e) :
    decode e = .ok record := by
  obtain ⟨hne, hlen, rfl⟩ := encode_eq_ok h
  refine Cursor.Decodes.decode (a := record) ?_
  exact (Decoder.decodes_requireVersion _).cons <|
    (Cursor.decodes_fixed _).cons <|
    (Decoder.decodes_commitVersion _ _).cons <|
    (Cursor.decodes_u64 _).cons <|
    (Cursor.Decodes.refuseIf hne).nil_bind <|
    (Decoder.decodes_lengthPrefixedBytes _ hlen).cons <| .pure _

end CommandDedupeRecord

end NoKV.Meta
