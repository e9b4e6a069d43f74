import NoKV.Meta.RecoveryRecord

/-!
# Storage of recovery records

A record is stored as a header row and numbered chunk rows, under keys whose byte order is the
order of the log positions.

* `decodeRecoveryOutboxKey_recoveryOutboxKey`: a log position is read back from its key;
* `assemble_split`: header and chunks are put together to the bytes they were cut from.
-/

namespace NoKV.Meta

open Lib List

def STORAGE_HEADER_VERSION : UInt8 := 1
def STORAGE_CHUNK_VERSION : UInt8 := 1
def LEGACY_STORAGE_HEADER_KEY_TAG : UInt8 := 0
def LEGACY_STORAGE_CHUNK_KEY_TAG : UInt8 := 1
def STORAGE_HEADER_KEY_TAG : UInt8 := 2
def STORAGE_CHUNK_KEY_TAG : UInt8 := 3
def RECOVERY_LSN_DECIMAL_BYTES : ℕ := 20
def RECOVERY_OUTBOX_KEY_BYTES : ℕ := 1 + RECOVERY_LSN_DECIMAL_BYTES
def MAX_STORAGE_CHUNK_DATA_BYTES : ℕ := 60 * 1024
def USIZE_MAX : ℕ := 2 ^ 64 - 1

/-- `usize::div_ceil`. -/
def divCeil (a b : ℕ) : ℕ := (a + (b - 1)) / b

/-! ### Keys -/

inductive RecoveryKeyLayout where
  | format8
  | format9
  deriving DecidableEq

namespace RecoveryKeyLayout

def ordered : List RecoveryKeyLayout := [format8, format9]

def headerTag : RecoveryKeyLayout → UInt8
  | format8 => LEGACY_STORAGE_HEADER_KEY_TAG
  | format9 => STORAGE_HEADER_KEY_TAG

def fromHeaderTag (tag : UInt8) : Option RecoveryKeyLayout :=
  if tag = LEGACY_STORAGE_HEADER_KEY_TAG then some format8
  else if tag = STORAGE_HEADER_KEY_TAG then some format9
  else none

def fromChunkTag (tag : UInt8) : Option RecoveryKeyLayout :=
  if tag = LEGACY_STORAGE_CHUNK_KEY_TAG then some format8
  else if tag = STORAGE_CHUNK_KEY_TAG then some format9
  else none

end RecoveryKeyLayout

structure DecodedRecoveryOutboxKey where
  recoveryLsn : UInt64
  layout : RecoveryKeyLayout
  deriving DecidableEq

def encodeRecoveryLsn (recoveryLsn : UInt64) : Bytes :=
  dec RECOVERY_LSN_DECIMAL_BYTES recoveryLsn.toNat

/-- Header key of the current format. -/
def recoveryOutboxKey (recoveryLsn : UInt64) : Bytes :=
  STORAGE_HEADER_KEY_TAG :: encodeRecoveryLsn recoveryLsn

def legacyRecoveryOutboxKey (recoveryLsn : UInt64) : Bytes :=
  LEGACY_STORAGE_HEADER_KEY_TAG :: be 8 recoveryLsn.toNat

def recoveryOutboxScanStart (layout : RecoveryKeyLayout) (recoveryLsn : UInt64) : Bytes :=
  match layout with
  | .format8 => legacyRecoveryOutboxKey recoveryLsn
  | .format9 => recoveryOutboxKey recoveryLsn

def recoveryChunkKey (recoveryLsn : UInt64) (index : ℕ) : Bytes :=
  STORAGE_CHUNK_KEY_TAG :: (encodeRecoveryLsn recoveryLsn ++ be 4 index)

def recoveryChunkKeyForLayout (layout : RecoveryKeyLayout) (recoveryLsn : UInt64) (index : ℕ) :
    Bytes :=
  match layout with
  | .format8 => LEGACY_STORAGE_CHUNK_KEY_TAG :: (be 8 recoveryLsn.toNat ++ be 4 index)
  | .format9 => recoveryChunkKey recoveryLsn index

/-- One decimal digit, with overflow of the machine word refused. -/
def decodeDigit (recoveryLsn : ℕ) (digit : UInt8) : Except RecoveryCodecError ℕ := do
  refuseIf (digit.toNat < 48 ∨ 57 < digit.toNat)
    (RecoveryCodecError.invalidValue "recovery_outbox_key")
  refuseIf (2 ^ 64 ≤ recoveryLsn * 10 + (digit.toNat - 48))
    (RecoveryCodecError.invalidValue "recovery_outbox_key")
  return recoveryLsn * 10 + (digit.toNat - 48)

def decodeRecoveryLsn (encoded : Bytes) : Except RecoveryCodecError UInt64 := do
  let recoveryLsn ← encoded.foldlM decodeDigit 0
  return UInt64.ofNat recoveryLsn

/-- The layout and position of a header key. -/
def decodeHeaderKey (key : Bytes) : Except RecoveryCodecError DecodedRecoveryOutboxKey :=
  match key with
  | [] => .error (.invalidValue "recovery_outbox_key")
  | tag :: rest =>
    if tag = LEGACY_STORAGE_HEADER_KEY_TAG ∧ key.length = 9 then
      .ok ⟨UInt64.ofNat (ofBe rest), .format8⟩
    else if tag = STORAGE_HEADER_KEY_TAG ∧ key.length = RECOVERY_OUTBOX_KEY_BYTES then do
      let lsn ← decodeRecoveryLsn rest
      return ⟨lsn, .format9⟩
    else .error (.invalidValue "recovery_outbox_key")

def decodeRecoveryOutboxKey (key : Bytes) : Except RecoveryCodecError DecodedRecoveryOutboxKey := do
  let decoded ← decodeHeaderKey key
  refuseIf (decoded.recoveryLsn = 0) (RecoveryCodecError.zeroScalar "recovery_lsn")
  return decoded

lemma foldlM_decodeDigit_dec (w n acc : ℕ) (h : acc * 10 ^ w + n % 10 ^ w < 2 ^ 64) :
    (dec w n).foldlM decodeDigit acc = .ok (acc * 10 ^ w + n % 10 ^ w) := by
  induction w generalizing acc with
  | zero => simp [dec, digits, Nat.mod_one, pure, Except.pure]
  | succ w ih =>
    have hcons : dec (w + 1) n = UInt8.ofNat (48 + n / 10 ^ w % 10) :: dec w n := rfl
    have hdigit : (UInt8.ofNat (48 + n / 10 ^ w % 10)).toNat = 48 + n / 10 ^ w % 10 :=
      toNat_ofNat_lt (by omega)
    have hvalue : (acc * 10 + n / 10 ^ w % 10) * 10 ^ w + n % 10 ^ w =
        acc * 10 ^ (w + 1) + n % 10 ^ (w + 1) := by
      rw [pow_succ, Nat.mod_mul]
      ring
    have hpos : 1 ≤ 10 ^ w := Nat.one_le_pow _ _ (by omega)
    have hstep : acc * 10 + n / 10 ^ w % 10 < 2 ^ 64 := by
      rw [← hvalue] at h
      exact lt_of_le_of_lt ((Nat.le_mul_of_pos_right _ hpos).trans (Nat.le_add_right _ _)) h
    have hone : decodeDigit acc (UInt8.ofNat (48 + n / 10 ^ w % 10)) =
        .ok (acc * 10 + n / 10 ^ w % 10) := by
      unfold decodeDigit
      rw [hdigit, refuseIf_of_not (by omega), ok_bind, Nat.add_sub_cancel_left,
        refuseIf_of_not (by omega)]
      rfl
    rw [hcons, foldlM_cons, hone, ok_bind, ih _ (hvalue ▸ h), hvalue]

lemma decodeRecoveryLsn_encodeRecoveryLsn (lsn : UInt64) :
    decodeRecoveryLsn (encodeRecoveryLsn lsn) = .ok lsn := by
  have hlt : lsn.toNat < 2 ^ 64 := lsn.toNat_lt
  have hmod : lsn.toNat % 10 ^ 20 = lsn.toNat := Nat.mod_eq_of_lt (by omega)
  have := foldlM_decodeDigit_dec 20 lsn.toNat 0 (by omega)
  rw [hmod, Nat.zero_mul, Nat.zero_add] at this
  unfold decodeRecoveryLsn encodeRecoveryLsn RECOVERY_LSN_DECIMAL_BYTES
  rw [this, ok_bind, UInt64.ofNat_toNat]
  rfl

lemma decodeRecoveryOutboxKey_recoveryOutboxKey {lsn : UInt64} (h : lsn ≠ 0) :
    decodeRecoveryOutboxKey (recoveryOutboxKey lsn) = .ok ⟨lsn, .format9⟩ := by
  have hlen : (recoveryOutboxKey lsn).length = RECOVERY_OUTBOX_KEY_BYTES := by
    simp [recoveryOutboxKey, encodeRecoveryLsn, RECOVERY_OUTBOX_KEY_BYTES, Nat.add_comm]
  have hhead : decodeHeaderKey (recoveryOutboxKey lsn) = .ok ⟨lsn, .format9⟩ := by
    unfold recoveryOutboxKey at hlen ⊢
    unfold decodeHeaderKey
    dsimp only
    rw [if_neg fun h => absurd h.1 (by decide), if_pos ⟨rfl, hlen⟩,
      decodeRecoveryLsn_encodeRecoveryLsn]
    rfl
  unfold decodeRecoveryOutboxKey
  rw [hhead, ok_bind, refuseIf_of_not h]
  rfl

lemma encodeRecoveryLsn_lt {a b : UInt64} (h : a < b) :
    encodeRecoveryLsn a < encodeRecoveryLsn b := by
  have hb : b.toNat < 2 ^ 64 := b.toNat_lt
  exact dec_lt_dec (by unfold RECOVERY_LSN_DECIMAL_BYTES; omega) (UInt64.lt_iff_toNat_lt.1 h)

lemma encodeRecoveryLsn_injective {a b : UInt64} (h : encodeRecoveryLsn a = encodeRecoveryLsn b) :
    a = b := by
  have ha : a.toNat < 2 ^ 64 := a.toNat_lt
  have hb : b.toNat < 2 ^ 64 := b.toNat_lt
  unfold encodeRecoveryLsn RECOVERY_LSN_DECIMAL_BYTES at h
  exact UInt64.toNat_inj.1 (dec_injective (by omega) (by omega) h)

lemma recoveryOutboxKey_injective {a b : UInt64} (h : recoveryOutboxKey a = recoveryOutboxKey b) :
    a = b := encodeRecoveryLsn_injective (List.cons.inj h).2

lemma recoveryOutboxKey_ne_recoveryChunkKey (a b : UInt64) (i : ℕ) :
    recoveryOutboxKey a ≠ recoveryChunkKey b i :=
  fun h => absurd (List.cons.inj h).1 (by decide)

/-! ### Header and chunks -/

structure RecoveryStorageHeader where
  logicalLength : ℕ
  chunkCount : ℕ
  logicalDigest : Digest
  deriving DecidableEq

namespace RecoveryStorageHeader

def encode (header : RecoveryStorageHeader) : Bytes := List.flatten [
  [STORAGE_HEADER_VERSION],
  be 8 header.logicalLength,
  be 4 header.chunkCount,
  header.logicalDigest.bytes]

open RecoveryDecoder in
def decoder : RecoveryDecoder RecoveryStorageHeader := do
  let actual ← u8 "storage_header_version"
  refuseIf (actual ≠ STORAGE_HEADER_VERSION)
    (RecoveryCodecError.unsupportedVersion actual STORAGE_HEADER_VERSION)
  let logicalLength ← u64 "recovery_logical_length"
  let chunkCount ← u32 "recovery_chunk_count"
  let logicalDigest ← fixed 32 "recovery_logical_digest"
  return ⟨logicalLength.toNat, chunkCount, logicalDigest⟩

def decode (encoded : Bytes) : Except RecoveryCodecError RecoveryStorageHeader := do
  let header ← Cursor.decode
    (do let header ← decoder; RecoveryDecoder.finish; return header) encoded
  refuseIf (header.logicalLength = 0 ∨ MAX_RECOVERY_BYTES < header.logicalLength ∨
    header.chunkCount = 0 ∨ header.chunkCount ≠ divCeil header.logicalLength MAX_STORAGE_CHUNK_DATA_BYTES)
    (RecoveryCodecError.invalidValue "recovery_storage_shape")
  return header

end RecoveryStorageHeader

def encodeStorageChunk (index total : ℕ) (data : Bytes) : Except RecoveryCodecError Bytes := do
  refuseIf (data = [] ∨ MAX_STORAGE_CHUNK_DATA_BYTES < data.length ∨ total ≤ index)
    (RecoveryCodecError.invalidValue "recovery_storage_chunk")
  let length ← u32Len "recovery_chunk_data" data.length
  return List.flatten [[STORAGE_CHUNK_VERSION], be 4 index, be 4 total, be 4 length ++ data]

open RecoveryDecoder in
def chunkDecoder : RecoveryDecoder (ℕ × ℕ × Bytes) := do
  let actual ← u8 "storage_chunk_version"
  refuseIf (actual ≠ STORAGE_CHUNK_VERSION)
    (RecoveryCodecError.unsupportedVersion actual STORAGE_CHUNK_VERSION)
  let index ← u32 "recovery_chunk_index"
  let total ← u32 "recovery_chunk_total"
  let data ← bytes "recovery_chunk_data"
  return (index, total, data)

def decodeStorageChunk (encoded : Bytes) (expectedIndex expectedTotal : ℕ) :
    Except RecoveryCodecError Bytes := do
  let (index, total, data) ← Cursor.decode
    (do let chunk ← chunkDecoder; RecoveryDecoder.finish; return chunk) encoded
  refuseIf (index ≠ expectedIndex ∨ total ≠ expectedTotal ∨ data = [] ∨
    MAX_STORAGE_CHUNK_DATA_BYTES < data.length)
    (RecoveryCodecError.invalidValue "recovery_storage_chunk")
  return data

/-- The first `k` pieces of `n` bytes. -/
def chunksOf (n : ℕ) : ℕ → Bytes → List Bytes
  | 0, _ => []
  | k + 1, bytes => bytes.take n :: chunksOf n k (bytes.drop n)

/-- Encode consecutive pieces, numbered from `index`. -/
def encodeChunks (total : ℕ) : List Bytes → ℕ → Except RecoveryCodecError (List Bytes)
  | [], _ => .ok []
  | data :: rest, index => do
    let chunk ← encodeStorageChunk index total data
    let chunks ← encodeChunks total rest (index + 1)
    return chunk :: chunks

def splitRecoveryStorage [Sha256] (logical : Bytes) :
    Except RecoveryCodecError (Bytes × List Bytes) := do
  let chunkCount := divCeil logical.length MAX_STORAGE_CHUNK_DATA_BYTES
  let chunkCountU32 ← u32Len "recovery_chunk_count" chunkCount
  let header := RecoveryStorageHeader.encode ⟨logical.length, chunkCountU32, sha256 logical⟩
  let chunks ← encodeChunks chunkCountU32
    (chunksOf MAX_STORAGE_CHUNK_DATA_BYTES chunkCount logical) 0
  return (header, chunks)

/-- The data of consecutive chunks, numbered from `observed`. -/
def assembleChunks (total : ℕ) : List Bytes → ℕ → Bytes → Except RecoveryCodecError (ℕ × Bytes)
  | [], observed, logical => .ok (observed, logical)
  | chunk :: rest, observed, logical => do
    let data ← decodeStorageChunk chunk observed total
    refuseIf (2 ^ 32 ≤ observed + 1)
      (RecoveryCodecError.lengthOverflow "recovery_chunk_count" USIZE_MAX)
    assembleChunks total rest (observed + 1) (logical ++ data)

def assembleRecoveryStorage [Sha256] (header : Bytes) (chunks : List Bytes) :
    Except RecoveryCodecError Bytes := do
  let header ← RecoveryStorageHeader.decode header
  let (observed, logical) ← assembleChunks header.chunkCount chunks 0 []
  refuseIf (observed ≠ header.chunkCount ∨ logical.length ≠ header.logicalLength)
    (RecoveryCodecError.invalidValue "recovery_storage_shape")
  refuseIf (sha256 logical ≠ header.logicalDigest)
    (RecoveryCodecError.invalidValue "recovery_storage_digest")
  return logical

def recoveryStorageChunkCount (header : Bytes) : Except RecoveryCodecError ℕ :=
  RecoveryStorageHeader.chunkCount <$> RecoveryStorageHeader.decode header

def recoveryStorageLogicalLength (header : Bytes) : Except RecoveryCodecError ℕ :=
  RecoveryStorageHeader.logicalLength <$> RecoveryStorageHeader.decode header

/-! ### Cutting and putting together -/

lemma length_chunksOf (n k : ℕ) (bytes : Bytes) : (chunksOf n k bytes).length = k := by
  induction k generalizing bytes with
  | zero => rfl
  | succ k ih => simp [chunksOf, ih]

lemma flatten_chunksOf (n k : ℕ) (bytes : Bytes) :
    (chunksOf n k bytes).flatten = bytes.take (n * k) := by
  induction k generalizing bytes with
  | zero => simp [chunksOf]
  | succ k ih =>
    rw [chunksOf, flatten_cons, ih, Nat.mul_succ, Nat.add_comm, take_add]

lemma le_mul_divCeil {a b : ℕ} (hb : 0 < b) : a ≤ b * divCeil a b := by
  have h1 := Nat.div_add_mod (a + (b - 1)) b
  have h2 := Nat.mod_lt (a + (b - 1)) hb
  unfold divCeil
  omega

lemma RecoveryStorageHeader.decode_encode (header : RecoveryStorageHeader)
    (hpos : 0 < header.logicalLength) (hmax : header.logicalLength ≤ MAX_RECOVERY_BYTES)
    (hcount : header.chunkCount = divCeil header.logicalLength MAX_STORAGE_CHUNK_DATA_BYTES) :
    decode header.encode = .ok header := by
  obtain ⟨length, count, digest⟩ := header
  dsimp only at hpos hmax hcount
  unfold divCeil MAX_STORAGE_CHUNK_DATA_BYTES at hcount
  unfold MAX_RECOVERY_BYTES at hmax
  have hword : (UInt64.ofNat length).toNat = length := by
    rw [UInt64.toNat_ofNat']
    exact Nat.mod_eq_of_lt (by omega)
  have hlength : (RecoveryDecoder.u64 "recovery_logical_length").Decodes (be 8 length)
      (UInt64.ofNat length) := by
    have := Cursor.decodes_u64 (t := RecoveryCodecError.truncated) (f := "recovery_logical_length")
      (UInt64.ofNat length)
    rwa [hword] at this
  have hlt : count < 2 ^ 32 := by omega
  have hdec : decoder.Decodes (encode ⟨length, count, digest⟩) ⟨length, count, digest⟩ := by
    refine (Cursor.decodes_u8 STORAGE_HEADER_VERSION).cons <|
      (Cursor.Decodes.refuseIf (not_not.2 rfl)).nil_bind <| hlength.cons <|
      (Cursor.decodes_u32 hlt).cons <| (Cursor.decodes_fixed digest).cons ?_
    rw [hword]
    exact .pure _
  unfold decode RecoveryDecoder.finish
  rw [hdec.decode, ok_bind, refuseIf_of_not]
  · rfl
  · unfold MAX_RECOVERY_BYTES MAX_STORAGE_CHUNK_DATA_BYTES divCeil
    dsimp only
    omega

lemma decodeStorageChunk_encodeStorageChunk {index total : ℕ} {data e : Bytes}
    (ht : total < 2 ^ 32) (h : encodeStorageChunk index total data = .ok e) :
    decodeStorageChunk e index total = .ok data ∧ data.length ≤ e.length := by
  obtain ⟨_, hshape, hrest⟩ := bind_eq_ok.1 h
  obtain ⟨_, hlen, rfl⟩ := bind_pure_eq_ok hrest
  obtain ⟨rfl, hlt⟩ := u32Len_eq_ok hlen
  rw [refuseIf_eq_ok, not_or, not_or, not_lt, not_le] at hshape
  obtain ⟨hne, hmax, _⟩ := hshape
  have hdec : chunkDecoder.Decodes
      (List.flatten [[STORAGE_CHUNK_VERSION], be 4 index, be 4 total, be 4 data.length ++ data])
      (index, total, data) := by
    have hbytes : (RecoveryDecoder.bytes "recovery_chunk_data").Decodes
        (be 4 data.length ++ data) data := by
      refine (Cursor.decodes_u32 hlt).bind
        ((Cursor.Decodes.refuseIf ?_).nil_bind (Cursor.decodes_take rfl))
      unfold MAX_STORAGE_CHUNK_DATA_BYTES at hmax
      unfold MAX_RECOVERY_BYTES
      omega
    exact (Cursor.decodes_u8 STORAGE_CHUNK_VERSION).cons <|
      (Cursor.Decodes.refuseIf (not_not.2 rfl)).nil_bind <|
      (Cursor.decodes_u32 (by omega)).cons <| (Cursor.decodes_u32 ht).cons <| hbytes.cons <| .pure _
  refine ⟨?_, ?_⟩
  · unfold decodeStorageChunk RecoveryDecoder.finish
    rw [hdec.decode, ok_bind]
    dsimp only
    rw [refuseIf_of_not]
    · rfl
    · simp only [ne_eq, not_true_eq_false, false_or, not_or, not_lt]
      exact ⟨hne, hmax⟩
  · simp only [flatten_cons, length_append]
    omega

variable {chunks : List Bytes}

/-- The chunks of consecutive pieces give back the pieces. -/
lemma assembleChunks_encodeChunks {total : ℕ} (ht : total < 2 ^ 32) {datas : List Bytes} {index : ℕ}
    (h : encodeChunks total datas index = .ok chunks) (hle : index + datas.length ≤ total) (logical : Bytes) :
    assembleChunks total chunks index logical =
        .ok (index + datas.length, logical ++ datas.flatten) ∧
      chunks.length = datas.length ∧ datas.flatten.length ≤ (chunks.map List.length).sum := by
  induction datas generalizing index chunks logical with
  | nil =>
    cases Except.ok.inj h
    simp [assembleChunks]
  | cons data _ ih =>
    obtain ⟨_, hchunk, hmore⟩ := bind_eq_ok.1 h
    obtain ⟨_, hrest, rfl⟩ := bind_pure_eq_ok hmore
    rw [length_cons] at hle
    obtain ⟨hdec, _⟩ := decodeStorageChunk_encodeStorageChunk ht hchunk
    obtain ⟨hasm, hcount, _⟩ := ih hrest (by omega) (logical ++ data)
    refine ⟨?_, ?_, ?_⟩
    · rw [assembleChunks, hdec, ok_bind, refuseIf_of_not (by omega), ok_bind, hasm,
        length_cons, flatten_cons, append_assoc, Nat.add_assoc, Nat.add_comm 1]
    · rw [length_cons, length_cons, hcount]
    · rw [flatten_cons, length_append, map_cons, sum_cons]
      omega

variable [Sha256] {logical header : Bytes} (h : splitRecoveryStorage logical = .ok (header, chunks))
include h

lemma splitRecoveryStorage_eq_ok : chunks.length < 2 ^ 32 ∧
    header = RecoveryStorageHeader.encode ⟨logical.length, chunks.length, sha256 logical⟩ ∧
    chunks.length = divCeil logical.length MAX_STORAGE_CHUNK_DATA_BYTES ∧
    assembleChunks chunks.length chunks 0 [] = .ok (chunks.length, logical) ∧
    logical.length ≤ (chunks.map List.length).sum := by
  obtain ⟨_, hcount, hrest⟩ := bind_eq_ok.1 h
  obtain ⟨_, hchunks, ⟨⟩⟩ := bind_pure_eq_ok hrest
  obtain ⟨rfl, hlt⟩ := u32Len_eq_ok hcount
  obtain ⟨hasm, hlen, hsum⟩ := assembleChunks_encodeChunks hlt hchunks
    (by rw [length_chunksOf, Nat.zero_add]) []
  rw [length_chunksOf] at hlen
  rw [length_chunksOf, Nat.zero_add, nil_append, flatten_chunksOf,
    take_of_length_le (le_mul_divCeil (by decide))] at hasm
  rw [flatten_chunksOf, take_of_length_le (le_mul_divCeil (by decide))] at hsum
  rw [hlen]
  exact ⟨hlt, rfl, rfl, hasm, hsum⟩

/-- A stored record is put together from its header and chunks. -/
lemma assemble_split (hpos : 0 < logical.length) (hmax : logical.length ≤ MAX_RECOVERY_BYTES) :
    assembleRecoveryStorage header chunks = .ok logical ∧
      recoveryStorageChunkCount header = .ok chunks.length ∧
      recoveryStorageLogicalLength header = .ok logical.length := by
  obtain ⟨-, rfl, hcount, hasm, -⟩ := splitRecoveryStorage_eq_ok h
  have hheader := RecoveryStorageHeader.decode_encode ⟨logical.length, chunks.length, sha256 logical⟩
    hpos hmax hcount
  unfold assembleRecoveryStorage recoveryStorageChunkCount recoveryStorageLogicalLength
  rw [hheader, ok_bind, hasm, ok_bind]
  refine ⟨?_, rfl, rfl⟩
  dsimp only
  rw [refuseIf_of_not (by simp), ok_bind, refuseIf_of_not (by simp)]
  rfl

/-- The chunks of a record hold all its bytes. -/
lemma length_le_of_split : logical.length ≤ (chunks.map List.length).sum ∧ chunks.length < 2 ^ 32 := by
  obtain ⟨hlt, -, -, -, hsum⟩ := splitRecoveryStorage_eq_ok h
  exact ⟨hsum, hlt⟩

end NoKV.Meta
