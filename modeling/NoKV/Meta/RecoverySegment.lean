import NoKV.Meta.RecoveryRecord

/-!
# Recovery segments

Consecutive records of one shard, sealed under one digest for export. A segment verifies exactly when
it is the seal of its records (`verify_eq_ok`), and the records of a seal are a chain (`seal_eq_ok`).
-/

namespace NoKV.Meta

open Lib List

def MAX_RECOVERY_SEGMENT_BYTES : ℕ := MAX_RECOVERY_BYTES
def MAX_RECOVERY_SEGMENT_RECORDS : ℕ := 1024
def RECOVERY_SEGMENT_FORMAT_VERSION : UInt8 := 1
def RECOVERY_SEGMENT_FIXED_BYTES : ℕ := 8 + 1 + 16 + 8 + 8 + 32 + 32 + 32 + 4

structure RecoveryOutboxSegment where
  formatVersion : UInt8
  logicalShardId : LogicalShardId
  firstLsn : UInt64
  lastLsn : UInt64
  previousChainDigest : Digest
  lastChainDigest : Digest
  records : List RecoveryOutboxRecord
  segmentDigest : Digest
  deriving DecidableEq

/-- What is wrong with a position that does not follow another. -/
def lsnError (previous expected actual : UInt64) : RecoveryCodecError :=
  if actual = previous then .duplicateRecoveryLsn actual.toNat
  else if actual.toNat < expected.toNat then .recoveryLsnRegression previous.toNat actual.toNat
  else .recoveryLsnGap expected.toNat actual.toNat

/-- A command names the shard of its segment. -/
def checkTarget (logicalShardId : LogicalShardId) (record : RecoveryOutboxRecord) :
    Except RecoveryCodecError Unit :=
  match record.mutation with
  | .metadataCommand command _ =>
    refuseIf (command.logicalShardId ≠ logicalShardId)
      (RecoveryCodecError.unexpectedLogicalShard logicalShardId command.logicalShardId)
  | _ => .ok ()

def checkFollows (previous record : RecoveryOutboxRecord) : Except RecoveryCodecError Unit := do
  let expected ← okOr (checkedAdd previous.recoveryLsn 1) (RecoveryCodecError.invalidValue "recovery_lsn")
  refuseIf (record.recoveryLsn ≠ expected) (lsnError previous.recoveryLsn expected record.recoveryLsn)
  refuseIf (record.previousChainDigest ≠ previous.chainDigest) RecoveryCodecError.chainDigestMismatch

/-- The encodings of consecutive records, behind the record before them. -/
def encodeSegmentRecords [Sha256] (logicalShardId : LogicalShardId) :
    Option RecoveryOutboxRecord → List RecoveryOutboxRecord → Except RecoveryCodecError (List Bytes)
  | _, [] => .ok []
  | previous, record :: rest => do
    checkTarget logicalShardId record
    let encoded ← record.encode
    match previous with
    | some previous => checkFollows previous record
    | none => .ok ()
    let more ← encodeSegmentRecords logicalShardId (some record) rest
    return encoded :: more

def validateSegmentRecords [Sha256] (logicalShardId : LogicalShardId) (records : List RecoveryOutboxRecord) :
    Except RecoveryCodecError (List Bytes) := do
  refuseIf (records = []) RecoveryCodecError.emptySegment
  refuseIf (MAX_RECOVERY_SEGMENT_RECORDS < records.length)
    (RecoveryCodecError.lengthBound "recovery_segment_records" records.length
      MAX_RECOVERY_SEGMENT_RECORDS)
  encodeSegmentRecords logicalShardId none records

/-- One more record in the length of a segment. -/
def addRecordLength (length : ℕ) (record : Bytes) : Except RecoveryCodecError ℕ := do
  refuseIf (2 ^ 64 ≤ length + 4 + record.length)
    (RecoveryCodecError.lengthOverflow "recovery_segment" (2 ^ 64 - 1))
  return length + 4 + record.length

def recoverySegmentEncodedLength (encodedRecords : List Bytes) : Except RecoveryCodecError ℕ :=
  encodedRecords.foldlM addRecordLength RECOVERY_SEGMENT_FIXED_BYTES

def recoverySegmentDigest [Sha256] (logicalShardId : LogicalShardId) (firstLsn lastLsn : UInt64)
    (previousChainDigest lastChainDigest : Digest) (encodedRecords : List Bytes) : Digest :=
  sha256 (List.flatten [utf8 "nokv.metadata.recovery.segment.v1\x00", logicalShardId.bytes,
    be 8 firstLsn.toNat, be 8 lastLsn.toNat, previousChainDigest.bytes, lastChainDigest.bytes,
    be 8 encodedRecords.length, (encodedRecords.map hashBytes).flatten])

namespace RecoveryOutboxSegment

variable [Sha256]

def sealRecords (logicalShardId : LogicalShardId) (records : List RecoveryOutboxRecord) :
    Except RecoveryCodecError RecoveryOutboxSegment := do
  let encodedRecords ← validateSegmentRecords logicalShardId records
  let first ← okOr records.head? RecoveryCodecError.emptySegment
  let last ← okOr records.getLast? RecoveryCodecError.emptySegment
  let encodedLength ← recoverySegmentEncodedLength encodedRecords
  refuseIf (MAX_RECOVERY_SEGMENT_BYTES < encodedLength)
    (RecoveryCodecError.lengthBound "recovery_segment" encodedLength MAX_RECOVERY_SEGMENT_BYTES)
  let segmentDigest := recoverySegmentDigest logicalShardId first.recoveryLsn last.recoveryLsn
    first.previousChainDigest last.chainDigest encodedRecords
  return ⟨RECOVERY_SEGMENT_FORMAT_VERSION, logicalShardId, first.recoveryLsn, last.recoveryLsn,
    first.previousChainDigest, last.chainDigest, records, segmentDigest⟩

def verify (segment : RecoveryOutboxSegment) : Except RecoveryCodecError Unit := do
  refuseIf (segment.formatVersion ≠ RECOVERY_SEGMENT_FORMAT_VERSION)
    (RecoveryCodecError.unsupportedVersion segment.formatVersion RECOVERY_SEGMENT_FORMAT_VERSION)
  let expected ← sealRecords segment.logicalShardId segment.records
  refuseIf (segment.firstLsn ≠ expected.firstLsn ∨ segment.lastLsn ≠ expected.lastLsn ∨
    segment.previousChainDigest ≠ expected.previousChainDigest ∨
    segment.lastChainDigest ≠ expected.lastChainDigest) RecoveryCodecError.segmentHeaderMismatch
  refuseIf (segment.segmentDigest ≠ expected.segmentDigest) RecoveryCodecError.segmentDigestMismatch

def verifyFollows (segment : RecoveryOutboxSegment) (boundary : RecoveryState) :
    Except RecoveryCodecError RecoveryState := do
  segment.verify
  let expectedLsn ← okOr (checkedAdd boundary.appliedRecoveryLsn 1)
    (RecoveryCodecError.invalidValue "recovery_segment_boundary_lsn")
  refuseIf (segment.firstLsn ≠ expectedLsn)
    (lsnError boundary.appliedRecoveryLsn expectedLsn segment.firstLsn)
  refuseIf (segment.previousChainDigest ≠ boundary.chainDigest) RecoveryCodecError.chainDigestMismatch
  return ⟨segment.lastLsn, segment.lastChainDigest⟩

lemma verifyFollows_eq_ok {segment : RecoveryOutboxSegment} {boundary tail : RecoveryState} :
    segment.verifyFollows boundary = .ok tail ↔ segment.verify = .ok () ∧
      segment.firstLsn.toNat = boundary.appliedRecoveryLsn.toNat + 1 ∧
      segment.previousChainDigest = boundary.chainDigest ∧ ⟨segment.lastLsn, segment.lastChainDigest⟩ = tail := by
  unfold verifyFollows
  simp only [bind_eq_ok, okOr_eq_ok, checkedAdd_eq_some, refuseIf_eq_ok, ne_eq, not_not, pure_eq_ok]
  constructor
  · rintro ⟨_, hverify, _, hlsn, _, rfl, _, hdigest, htail⟩
    exact ⟨hverify, hlsn, hdigest, htail⟩
  · rintro ⟨hverify, hlsn, hdigest, htail⟩
    exact ⟨(), hverify, _, hlsn, (), rfl, (), hdigest, htail⟩

/-! ### What a seal establishes -/

/-- The records of a segment: a chain of encodable records of the shard. -/
structure Sealed (logicalShardId : LogicalShardId) (records : List RecoveryOutboxRecord)
    (segment : RecoveryOutboxSegment) : Prop where
  format : segment.formatVersion = RECOVERY_SEGMENT_FORMAT_VERSION
  shard_eq : segment.logicalShardId = logicalShardId
  records_eq : segment.records = records
  first : ∃ first rest, records = first :: rest ∧ segment.firstLsn = first.recoveryLsn ∧
    segment.previousChainDigest = first.previousChainDigest
  chain : ∃ n, segment.firstLsn.toNat = n + 1 ∧
    recordLink.ChainFrom n segment.previousChainDigest records
  last : ∃ last, records.getLast? = some last ∧ segment.lastLsn = last.recoveryLsn ∧
    segment.lastChainDigest = last.chainDigest
  target : ∀ record ∈ records, checkTarget logicalShardId record = .ok ()
  encodes : ∀ record ∈ records, ∃ e, record.encode = .ok e

variable {logicalShardId : LogicalShardId} {records : List RecoveryOutboxRecord} {encoded : List Bytes}
  {previous : Option RecoveryOutboxRecord} {segment : RecoveryOutboxSegment} {record p : RecoveryOutboxRecord}

omit [Sha256] in
lemma checkFollows_eq_ok {u : Unit} : checkFollows p record = .ok u ↔
    record.recoveryLsn.toNat = p.recoveryLsn.toNat + 1 ∧ record.previousChainDigest = p.chainDigest := by
  unfold checkFollows
  constructor
  · intro h
    obtain ⟨_, hexpected, h⟩ := bind_eq_ok.1 h
    obtain ⟨hlsn, h⟩ := refuseIf_not_bind h
    rw [hlsn, checkedAdd_eq_some.1 (okOr_eq_ok.1 hexpected)]
    exact ⟨rfl, of_refuseIf_not h⟩
  · rintro ⟨hlsn, hdigest⟩
    rw [okOr_eq_ok.2 (checkedAdd_eq_some.2 hlsn), ok_bind, refuseIf_of_not (not_not.2 rfl), ok_bind,
      refuseIf_of_not (not_not.2 hdigest)]

lemma encodeSegmentRecords_cons :
    encodeSegmentRecords logicalShardId previous (record :: records) = .ok encoded ↔
      checkTarget logicalShardId record = .ok () ∧ (∀ p, previous = some p → checkFollows p record = .ok ()) ∧
      ∃ e more, record.encode = .ok e ∧
        encodeSegmentRecords logicalShardId (some record) records = .ok more ∧ e :: more = encoded := by
  cases previous with
  | none => simp [encodeSegmentRecords, bind_eq_ok, map_eq_ok, Unique.exists_iff]
  | some =>
    simp [encodeSegmentRecords, bind_eq_ok, map_eq_ok, Unique.exists_iff]
    tauto

lemma encodeSegmentRecords_eq_ok : encodeSegmentRecords logicalShardId (some p) records = .ok encoded ↔
    (∀ record ∈ records, checkTarget logicalShardId record = .ok ()) ∧
      List.Forall₂ (fun record e => RecoveryOutboxRecord.encode record = .ok e) records encoded ∧
      recordLink.ChainFrom p.recoveryLsn.toNat p.chainDigest records := by
  induction records generalizing p encoded with
  | nil => simp [encodeSegmentRecords, Link.ChainFrom, eq_comm]
  | cons _ _ ih =>
    rw [encodeSegmentRecords_cons, forall_mem_cons, forall₂_cons_left_iff, Link.ChainFrom]
    simp only [ih, checkFollows_eq_ok]
    constructor
    · rintro ⟨htarget, hfollows, e, more, he, ⟨htargets, hencoded, hchain⟩, rfl⟩
      obtain ⟨hlsn, hprevious⟩ := hfollows p rfl
      exact ⟨⟨htarget, htargets⟩, ⟨e, more, he, hencoded, rfl⟩, hlsn, hprevious, hlsn ▸ hchain⟩
    · rintro ⟨⟨htarget, htargets⟩, ⟨e, more, he, hencoded, rfl⟩, hlsn, hprevious, hchain⟩
      rw [← hlsn] at hchain
      refine ⟨htarget, ?_, e, more, he, ⟨htargets, hencoded, hchain⟩, rfl⟩
      rintro _ ⟨⟩
      exact ⟨hlsn, hprevious⟩

lemma lsn_pos_of_encode {e : Bytes} (h : record.encode = .ok e) : 0 < record.recoveryLsn.toNat := by
  obtain ⟨m, r, hencodes, -⟩ := RecoveryOutboxRecord.encode_eq_ok h
  refine Nat.pos_of_ne_zero fun hzero => hencodes.lsn_ne ?_
  exact UInt64.toNat_inj.1 hzero

/-- The records of a segment are those of a chain of the shard that can be encoded. -/
lemma validateSegmentRecords_eq_ok : validateSegmentRecords logicalShardId records = .ok encoded ↔
    records ≠ [] ∧ records.length ≤ MAX_RECOVERY_SEGMENT_RECORDS ∧
      (∀ record ∈ records, checkTarget logicalShardId record = .ok ()) ∧
      List.Forall₂ (fun record e => RecoveryOutboxRecord.encode record = .ok e) records encoded ∧
      ∃ n d, recordLink.ChainFrom n d records := by
  unfold validateSegmentRecords
  cases records with
  | nil => simp [refuseIf_of]
  | cons =>
    rw [refuseIf_of_not (cons_ne_nil _ _), ok_bind, bind_eq_ok]
    simp only [refuseIf_eq_ok, not_lt, exists_const, encodeSegmentRecords_cons, encodeSegmentRecords_eq_ok,
      forall_mem_cons, forall₂_cons_left_iff, Link.ChainFrom]
    constructor
    · rintro ⟨hcount, htarget, -, e, more, he, ⟨htargets, hencoded, hchain⟩, rfl⟩
      obtain ⟨n, hlsn⟩ := Nat.exists_eq_succ_of_ne_zero (lsn_pos_of_encode he).ne'
      rw [hlsn] at hchain
      exact ⟨cons_ne_nil _ _, hcount, ⟨htarget, htargets⟩, ⟨e, more, he, hencoded, rfl⟩, n, _, hlsn, rfl,
        hchain⟩
    · rintro ⟨-, hcount, ⟨htarget, htargets⟩, ⟨e, more, he, hencoded, rfl⟩, n, d, hlsn, -, hchain⟩
      rw [← hlsn] at hchain
      exact ⟨hcount, htarget, fun p hp => (by cases hp), e, more, he, ⟨htargets, hencoded, hchain⟩, rfl⟩

lemma sealRecords_eq_ok (h : sealRecords logicalShardId records = .ok segment) :
    Sealed logicalShardId records segment := by
  obtain ⟨_, hvalid, h⟩ := bind_eq_ok.1 h
  obtain ⟨first, hfirst, h⟩ := bind_eq_ok.1 h
  obtain ⟨last, hlast, h⟩ := bind_eq_ok.1 h
  obtain ⟨_, -, h⟩ := bind_eq_ok.1 h
  obtain ⟨_, -, rfl⟩ := bind_pure_eq_ok h
  obtain ⟨-, -, htarget, hencoded, n, d, hchain⟩ := validateSegmentRecords_eq_ok.1 hvalid
  cases records with
  | nil => cases okOr_eq_ok.1 hfirst
  | cons head rest =>
    obtain rfl : head = first := Option.some.inj (okOr_eq_ok.1 hfirst)
    obtain ⟨hlsn, rfl, hrest⟩ := hchain
    refine ⟨rfl, rfl, rfl, ⟨head, rest, rfl, rfl, rfl⟩, ⟨n, hlsn, hlsn, rfl, hrest⟩,
      ⟨last, okOr_eq_ok.1 hlast, rfl, rfl⟩, htarget, fun record hrecord => ?_⟩
    obtain ⟨e, -, he⟩ := exists_of_forall₂_left hencoded hrecord
    exact ⟨e, he⟩

/-- A segment verifies exactly when it is the seal of its records. -/
lemma verify_eq_ok {u : Unit} :
    segment.verify = .ok u ↔ sealRecords segment.logicalShardId segment.records = .ok segment := by
  unfold verify
  constructor
  · intro h
    obtain ⟨_, hversion, h⟩ := bind_eq_ok.1 h
    obtain ⟨expected, hexpected, h⟩ := bind_eq_ok.1 h
    obtain ⟨_, hheader, h⟩ := bind_eq_ok.1 h
    have hversion := of_refuseIf_not hversion
    have hdigest := of_refuseIf_not h
    simp only [refuseIf_eq_ok, not_or, not_not] at hheader
    obtain ⟨hfirst, hlast, hprevious, hlastDigest⟩ := hheader
    have hsealed := sealRecords_eq_ok hexpected
    have hformat := hsealed.format
    have heq : segment = expected := by
      obtain ⟨v, _⟩ := segment
      obtain ⟨_, _⟩ := expected
      cases hversion
      cases hformat
      cases hfirst
      cases hlast
      cases hprevious
      cases hlastDigest
      cases hdigest
      cases hsealed.shard_eq
      cases hsealed.records_eq
      rfl
    rw [hexpected, ← heq]
  · intro h
    rw [refuseIf_of_not (not_not.2 (sealRecords_eq_ok h).format), ok_bind, h, ok_bind, refuseIf_of_not (by simp), ok_bind,
      refuseIf_of_not (by simp)]

/-! ### What can be sealed -/

omit [Sha256] in
lemma recoverySegmentEncodedLength_eq
    (h : RECOVERY_SEGMENT_FIXED_BYTES + (encoded.map fun e => 4 + e.length).sum < 2 ^ 64) :
    recoverySegmentEncodedLength encoded =
      .ok (RECOVERY_SEGMENT_FIXED_BYTES + (encoded.map fun e => 4 + e.length).sum) := by
  unfold recoverySegmentEncodedLength
  generalize RECOVERY_SEGMENT_FIXED_BYTES = length at h
  induction encoded generalizing length with
  | nil => rfl
  | cons e _ ih =>
    rw [map_cons, sum_cons] at h ⊢
    rw [foldlM_cons, addRecordLength, refuseIf_of_not (by omega), ok_bind]
    refine (ih (length + 4 + e.length) (by omega)).trans ?_
    congr 1
    omega

/-- A chain of records within the bounds of a segment can be sealed. -/
lemma sealRecords_total {n : ℕ} {d : Digest} (hne : records ≠ [])
    (hcount : records.length ≤ MAX_RECOVERY_SEGMENT_RECORDS)
    (htarget : ∀ record ∈ records, checkTarget logicalShardId record = .ok ())
    (hchain : recordLink.ChainFrom n d records)
    (hencoded : List.Forall₂ (fun record e => RecoveryOutboxRecord.encode record = .ok e) records encoded)
    (hlength : RECOVERY_SEGMENT_FIXED_BYTES + (encoded.map fun e => 4 + e.length).sum ≤
      MAX_RECOVERY_SEGMENT_BYTES) : ∃ segment, sealRecords logicalShardId records = .ok segment := by
  have hvalid := validateSegmentRecords_eq_ok.2 ⟨hne, hcount, htarget, hencoded, n, d, hchain⟩
  have hbound : MAX_RECOVERY_SEGMENT_BYTES < 2 ^ 64 := by decide
  obtain ⟨head, _, rfl⟩ := exists_cons_of_ne_nil hne
  unfold sealRecords
  rw [hvalid, ok_bind, head?_cons, getLast?_cons, okOr_eq_ok.2 rfl, ok_bind, okOr_eq_ok.2 rfl, ok_bind,
    recoverySegmentEncodedLength_eq (by omega), ok_bind, refuseIf_of_not (not_lt.2 hlength)]
  exact ⟨_, rfl⟩

end RecoveryOutboxSegment

end NoKV.Meta
