import NoKV.Lib.Chain
import NoKV.Meta.Recovery

/-!
# The recovery chain

A record links to the record before it by its chain digest. Its strict decoder inverts its encoder
(`RecoveryOutboxRecord.decode_encode`).
-/

namespace NoKV.Meta

open Lib

def recoveryGenesisDigest [Sha256] (logicalShardId : LogicalShardId) : Digest :=
  sha256 (utf8 "nokv.metadata.recovery.genesis.v1\x00" ++ logicalShardId.bytes)

def recoveryChainDigest [Sha256] (previous : Digest) (recoveryLsn : UInt64)
    (mutation result : Bytes) : Digest :=
  sha256 (List.flatten [utf8 "nokv.metadata.recovery.chain.v1\x00", previous.bytes,
    be 8 recoveryLsn.toNat, hashBytes mutation, hashBytes result])

/-- The chain of recovery records. -/
def recordLink : Link RecoveryOutboxRecord Digest where
  pos row := row.recoveryLsn.toNat
  prev := RecoveryOutboxRecord.previousChainDigest
  digest := RecoveryOutboxRecord.chainDigest

/-- A mutation and the result of its own kind. -/
def validatePair (mutation : RecoveryMutationV1) (result : RecoveryResultV1) :
    Except RecoveryCodecError Unit :=
  match mutation, result with
  | .metadataCommand command _, .metadataCommand commitVersion deterministicResult =>
    refuseIf (¬ (deterministicResult = command.deterministicResult ∧
      checkedAdd command.readVersion.val 1 = some commitVersion.val))
      (RecoveryCodecError.invalidValue "mutation_result_pair")
  | .observeLeaseClock _ _ _ observedMs, .leaseClock effectiveHighWaterMs =>
    refuseIf (¬ (observedMs ≠ 0 ∧ observedMs = effectiveHighWaterMs))
      (RecoveryCodecError.invalidValue "mutation_result_pair")
  | .advanceOwnerEpoch expected next, .ownerEpoch appliedOwnerEpoch =>
    refuseIf (¬ (next = appliedOwnerEpoch ∧ expected.all fun expected => expected < next))
      (RecoveryCodecError.invalidValue "mutation_result_pair")
  | _, _ => .error (.invalidValue "mutation_result_pair")

namespace RecoveryOutboxRecord

variable [Sha256]

def new (recoveryLsn : UInt64) (previousChainDigest : Digest) (mutation : RecoveryMutationV1)
    (result : RecoveryResultV1) : Except RecoveryCodecError RecoveryOutboxRecord := do
  refuseIf (recoveryLsn = 0) (RecoveryCodecError.zeroScalar "recovery_lsn")
  validatePair mutation result
  let mutationBytes ← mutation.encodeCanonical
  let resultBytes ← result.encodeCanonical
  let chainDigest := recoveryChainDigest previousChainDigest recoveryLsn mutationBytes resultBytes
  return ⟨RECOVERY_OUTBOX_VALUE_FORMAT_VERSION, recoveryLsn, previousChainDigest, chainDigest,
    mutation, result⟩

def encode (record : RecoveryOutboxRecord) : Except RecoveryCodecError Bytes := do
  validatePair record.mutation record.result
  let mutation ← record.mutation.encodeCanonicalForVersion record.formatVersion
  let result ← record.result.encodeCanonical
  let expected := recoveryChainDigest record.previousChainDigest record.recoveryLsn mutation result
  refuseIf (record.recoveryLsn = 0) (RecoveryCodecError.zeroScalar "recovery_lsn")
  refuseIf (expected ≠ record.chainDigest) RecoveryCodecError.chainDigestMismatch
  let mutationLen ← u32Len "mutation" mutation.length
  let resultLen ← u32Len "result" result.length
  return List.flatten [
    [record.formatVersion],
    be 8 record.recoveryLsn.toNat,
    record.previousChainDigest.bytes,
    record.chainDigest.bytes,
    be 4 mutationLen ++ mutation,
    be 4 resultLen ++ result]

open RecoveryDecoder in
def decoder : RecoveryDecoder RecoveryOutboxRecord := do
  let formatVersion ← recoveryVersion
  let recoveryLsn ← u64 "recovery_lsn"
  refuseIf (recoveryLsn = 0) (RecoveryCodecError.zeroScalar "recovery_lsn")
  let previousChainDigest ← fixed 32 "previous_chain_digest"
  let chainDigest ← fixed 32 "chain_digest"
  let mutationBytes ← bytes "mutation"
  let mutation ← liftM (RecoveryMutationV1.decodeCanonicalForVersion mutationBytes formatVersion)
  let resultBytes ← bytes "result"
  let result ← liftM (RecoveryResultV1.decodeCanonical resultBytes)
  return ⟨formatVersion, recoveryLsn, previousChainDigest, chainDigest, mutation, result⟩

def decode (encoded : Bytes) : Except RecoveryCodecError RecoveryOutboxRecord := do
  let record ← Cursor.decode
    (do let record ← decoder; RecoveryDecoder.finish; return record) encoded
  validatePair record.mutation record.result
  let mutationBytes ← record.mutation.encodeCanonicalForVersion record.formatVersion
  let resultBytes ← record.result.encodeCanonical
  refuseIf (recoveryChainDigest record.previousChainDigest record.recoveryLsn mutationBytes
    resultBytes ≠ record.chainDigest) RecoveryCodecError.chainDigestMismatch
  return record

def verify (record : RecoveryOutboxRecord) : Except RecoveryCodecError Unit := do
  let _ ← record.encode

/-- What the encoding of a record establishes. -/
structure Encodes (record : RecoveryOutboxRecord) (mutation result : Bytes) : Prop where
  pair : validatePair record.mutation record.result = .ok ()
  mutation_eq : record.mutation.encodeCanonicalForVersion record.formatVersion = .ok mutation
  result_eq : record.result.encodeCanonical = .ok result
  lsn_ne : record.recoveryLsn ≠ 0
  digest_eq : recoveryChainDigest record.previousChainDigest record.recoveryLsn mutation result =
    record.chainDigest

variable {record : RecoveryOutboxRecord}

lemma encode_eq_ok {e : Bytes} (h : record.encode = .ok e) :
    ∃ mutation result, record.Encodes mutation result ∧
      e = List.flatten [[record.formatVersion], be 8 record.recoveryLsn.toNat,
        record.previousChainDigest.bytes, record.chainDigest.bytes,
        be 4 mutation.length ++ mutation, be 4 result.length ++ result] := by
  obtain ⟨_, hpair, h⟩ := bind_eq_ok.1 h
  obtain ⟨m, hm, h⟩ := bind_eq_ok.1 h
  obtain ⟨r, hr, h⟩ := bind_eq_ok.1 h
  obtain ⟨hlsn, h⟩ := refuseIf_bind h
  obtain ⟨hdigest, h⟩ := refuseIf_not_bind h
  obtain ⟨_, hml, h⟩ := bind_eq_ok.1 h
  obtain ⟨_, hrl, h⟩ := bind_eq_ok.1 h
  obtain ⟨rfl, -⟩ := u32Len_eq_ok hml
  obtain ⟨rfl, -⟩ := u32Len_eq_ok hrl
  exact ⟨m, r, ⟨hpair, hm, hr, hlsn, hdigest⟩,
    (pure_eq_ok.1 h).symm⟩

lemma verify_eq_ok {u : Unit} : record.verify = .ok u ↔ ∃ e, record.encode = .ok e := by
  constructor
  · intro h
    obtain ⟨e, he, -⟩ := bind_eq_ok.1 h
    exact ⟨e, he⟩
  · rintro ⟨e, he⟩
    unfold verify
    rw [he]
    rfl

/-- A new record is well formed, and encodes unless it is too long for its length fields. -/
lemma new_eq_ok {lsn : UInt64} {previous : Digest} {mutation : RecoveryMutationV1}
    {result : RecoveryResultV1} (h : new lsn previous mutation result = .ok record) :
    record.formatVersion = RECOVERY_OUTBOX_VALUE_FORMAT_VERSION ∧ record.recoveryLsn = lsn ∧
      record.previousChainDigest = previous ∧ record.mutation = mutation ∧
      record.result = result := by
  replace h := ok_of_bind h
  replace h := ok_of_bind h
  obtain ⟨m, -, h⟩ := bind_eq_ok.1 h
  obtain ⟨r, -, rfl⟩ := bind_pure_eq_ok h
  exact ⟨rfl, rfl, rfl, rfl, rfl⟩

open RecoveryDecoder in
lemma decodes {m r : Bytes} (h : record.Encodes m r)
    (hv : record.formatVersion = RECOVERY_OUTBOX_VALUE_FORMAT_VERSION) :
    decoder.Decodes (List.flatten [[record.formatVersion], be 8 record.recoveryLsn.toNat,
      record.previousChainDigest.bytes, record.chainDigest.bytes,
      be 4 m.length ++ m, be 4 r.length ++ r]) record := by
  have hm := (RecoveryMutationV1.encodeCanonicalForVersion_eq_ok h.mutation_eq).2
  have hr := (RecoveryResultV1.decode_encode h.result_eq).2
  have hbytes : ∀ {field : String} {xs : Bytes}, xs.length ≤ MAX_RECOVERY_BYTES →
      (bytes field).Decodes (be 4 xs.length ++ xs) xs := by
    intro field xs hxs
    have hlt : xs.length < 2 ^ 32 := by unfold MAX_RECOVERY_BYTES at hxs; omega
    exact (Cursor.decodes_u32 hlt).bind
      ((Cursor.Decodes.refuseIf (not_lt.2 hxs)).nil_bind (Cursor.decodes_take rfl))
  have hversion : recoveryVersion.Decodes [record.formatVersion] record.formatVersion :=
    (Cursor.decodes_u8 _).bind_nil ((Cursor.Decodes.refuseIf (not_not.2 hv)).nil_bind (.pure _))
  exact hversion.cons <| (Cursor.decodes_u64 _).cons <|
    (Cursor.Decodes.refuseIf h.lsn_ne).nil_bind <|
    (Cursor.decodes_fixed _).cons <| (Cursor.decodes_fixed _).cons <|
    (hbytes hm).cons <| (Cursor.Decodes.lift (RecoveryMutationV1.decode_encode h.mutation_eq)).nil_bind <|
    (hbytes hr).cons <| (Cursor.Decodes.lift (RecoveryResultV1.decode_encode h.result_eq).1).nil_bind <|
    .pure _

lemma decode_encode {e : Bytes} (h : record.encode = .ok e)
    (hv : record.formatVersion = RECOVERY_OUTBOX_VALUE_FORMAT_VERSION) : decode e = .ok record := by
  obtain ⟨m, r, henc, rfl⟩ := encode_eq_ok h
  have hdec := (decodes henc hv).decode (t := .trailingBytes)
  unfold decode RecoveryDecoder.finish
  rw [hdec, ok_bind, henc.pair, ok_bind, henc.mutation_eq, ok_bind, henc.result_eq, ok_bind,
    refuseIf_of_not (not_not.2 henc.digest_eq)]
  rfl

end RecoveryOutboxRecord

end NoKV.Meta
