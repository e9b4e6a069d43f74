import NoKV.Lib.Prog
import NoKV.Meta.RecoveryStorage
import NoKV.Meta.Records
import NoKV.Store.Read

/-!
# Reads of the metadata shard

The limits of the shard, its system records, and the reads every operation is built from. A read is
one observation of the store; `readValue_runAt` says what it returns on a store that stands still.
-/

namespace NoKV.Meta

open Lib Store List
open Prog hiding bind pure get

/-! ### Limits -/

def INITIAL_COMMIT_VERSION : UInt64 := 1
def MAX_DELIMITED_SCAN_ITEMS : ℕ := MAX_COMMAND_ITEMS * 2
def MAX_HISTORICAL_SCAN_PAGE_ROWS : ℕ := MAX_COMMAND_ITEMS
def MAX_HISTORICAL_SCAN_ATTEMPTS : ℕ := 4
def MAX_RECOVERY_SCAN_ATTEMPTS : ℕ := 4
def MAX_COMMAND_KEY_BYTES : ℕ := 8 * 1024
def HISTORY_KEY_OVERHEAD_BYTES : ℕ := 1 + 4 + 8
def MAX_DERIVED_KEY_BYTES : ℕ := MAX_COMMAND_KEY_BYTES + HISTORY_KEY_OVERHEAD_BYTES
def MAX_STORED_VALUE_BYTES : ℕ := 65535
def MAX_RECORD_PAYLOAD_BYTES : ℕ := 60 * 1024
def MAX_COMMAND_VALUE_BYTES : ℕ := MAX_RECORD_PAYLOAD_BYTES
def MAX_DETERMINISTIC_RESULT_BYTES : ℕ := MAX_RECORD_PAYLOAD_BYTES
def MAX_EVENT_BYTES : ℕ := MAX_RECORD_PAYLOAD_BYTES

/-- Transaction-store limits of the workspace schema. -/
def storeLimits : StoreLimits where
  maxReads := 8
  maxChecks := 1024
  maxMutations := 1024
  maxKeyBytes := MAX_DERIVED_KEY_BYTES
  maxValueBytes := MAX_STORED_VALUE_BYTES
  maxReadBytes := 8 * 1024 * 1024
  maxTransactionBytes := 16000000
  maxResultRows := 1024
  maxResultBytes := 8 * 1024 * 1024

/-! ### System records -/

def SYSTEM_SCHEMA_KEY : Bytes := utf8 "schema"
def SYSTEM_SHARD_IDENTITY_KEY : Bytes := utf8 "shard_identity"
def SYSTEM_OWNER_FENCE_KEY : Bytes := utf8 "owner_fence"
def SYSTEM_COMMIT_CLOCK_KEY : Bytes := utf8 "commit_clock"
def SYSTEM_LEASE_CLOCK_HIGH_WATER_KEY : Bytes := utf8 "lease_clock_high_water"
def SYSTEM_APPLIED_RECOVERY_LSN_KEY : Bytes := utf8 "applied_recovery_lsn"
def SYSTEM_RECOVERY_CHAIN_DIGEST_KEY : Bytes := utf8 "recovery_chain_digest"
def SYSTEM_VALUE_FORMAT_VERSION : UInt8 := 1
def SYSTEM_FORMAT_VERSION : ℕ := 15

def systemKey (key : Bytes) : Key := ⟨SYSTEM.id, key⟩

def encodeSystemU64 (value : UInt64) : Bytes := SYSTEM_VALUE_FORMAT_VERSION :: be 8 value.toNat

/-- The common shape check of system records. -/
def systemPayload (width : ℕ) (value : Bytes) (record : String) : Except MetaError (FixedBytes width) :=
  match value with
  | [] => .error (.corruptRecord record "invalid version or width")
  | version :: rest =>
    if h : rest.length = width then
      if version = SYSTEM_VALUE_FORMAT_VERSION then .ok ⟨rest, h⟩
      else .error (.corruptRecord record "invalid version or width")
    else .error (.corruptRecord record "invalid version or width")

def decodeSystemU64 (value : Bytes) (record : String) : Except MetaError UInt64 :=
  (fun payload => UInt64.ofNat (ofBe payload.bytes)) <$> systemPayload 8 value record

def encodeShardIdentity (shard : LogicalShardId) : Bytes :=
  SYSTEM_VALUE_FORMAT_VERSION :: shard.bytes

def decodeShardIdentity (value : Bytes) : Except MetaError LogicalShardId :=
  systemPayload 16 value "System(shard_identity)"

def encodeSystemDigest (value : Digest) : Bytes := SYSTEM_VALUE_FORMAT_VERSION :: value.bytes

def decodeSystemDigest (value : Bytes) (record : String) : Except MetaError Digest :=
  systemPayload 32 value record

lemma systemPayload_cons {n : ℕ} (x : FixedBytes n) (record : String) :
    systemPayload n (SYSTEM_VALUE_FORMAT_VERSION :: x.bytes) record = .ok x := by
  obtain ⟨_, rfl⟩ := x
  simp [systemPayload]

@[simp] lemma decodeSystemU64_encode (v : UInt64) (record : String) :
    decodeSystemU64 (encodeSystemU64 v) record = .ok v := by
  have hv : v.toNat < 256 ^ 8 := v.toNat_lt
  have := systemPayload_cons ⟨be 8 v.toNat, be_length 8 _⟩ record
  unfold decodeSystemU64 encodeSystemU64
  show Except.ok (UInt64.ofNat (ofBe (be 8 v.toNat))) = _
  rw [ofBe_be hv, UInt64.ofNat_toNat]

@[simp] lemma decodeShardIdentity_encode (shard : LogicalShardId) :
    decodeShardIdentity (encodeShardIdentity shard) = .ok shard := systemPayload_cons shard _

@[simp] lemma decodeSystemDigest_encode (digest : Digest) (record : String) :
    decodeSystemDigest (encodeSystemDigest digest) record = .ok digest := systemPayload_cons digest _

variable {value : Bytes} {record : String}

lemma systemPayload_eq_ok {n : ℕ} {x : FixedBytes n} (h : systemPayload n value record = .ok x) :
    value = SYSTEM_VALUE_FORMAT_VERSION :: x.bytes := by
  unfold systemPayload at h
  split at h
  · cases h
  · split at h
    · split at h
      next hversion =>
        cases h
        rw [hversion]
      · cases h
    · cases h

/-- The system records have one encoding. -/
lemma decodeSystemU64_eq_ok {v : UInt64} (h : decodeSystemU64 value record = .ok v) :
    value = encodeSystemU64 v := by
  obtain ⟨x, hx, rfl⟩ := map_eq_ok.1 h
  have hlt : ofBe x.bytes < 2 ^ 64 := by
    have := ofBe_lt x.bytes
    rwa [x.length_bytes] at this
  unfold encodeSystemU64
  rw [systemPayload_eq_ok hx, UInt64.toNat_ofNat', Nat.mod_eq_of_lt hlt, be_ofBe x.length_bytes]

lemma decodeSystemDigest_eq_ok {digest : Digest} (h : decodeSystemDigest value record = .ok digest) :
    value = encodeSystemDigest digest :=
  systemPayload_eq_ok h

lemma encodeSystemU64_injective {v w : UInt64} (h : encodeSystemU64 v = encodeSystemU64 w) : v = w := by
  have := decodeSystemU64_encode v ""
  rw [h, decodeSystemU64_encode] at this
  exact (Except.ok.inj this).symm

lemma encodeSystemDigest_injective {v w : Digest} (h : encodeSystemDigest v = encodeSystemDigest w) :
    v = w := by
  have := decodeSystemDigest_encode v ""
  rw [h, decodeSystemDigest_encode] at this
  exact (Except.ok.inj this).symm

/-! ### The schema marker -/

def encodeSchemaMarkerVersion (formatVersion : ℕ) : Bytes :=
  VALUE_FORMAT_VERSION :: (be 4 (utf8 SCHEMA_ID).length ++ utf8 SCHEMA_ID ++ be 4 formatVersion)

def encodeSchemaMarker : Bytes := encodeSchemaMarkerVersion SYSTEM_FORMAT_VERSION

inductive SchemaMarkerError where
  | malformed
  | unsupportedVersion (found supported : ℕ)
  deriving DecidableEq

def SchemaMarkerError.display : SchemaMarkerError → String
  | malformed => "missing, unknown, or malformed workspace schema marker"
  | unsupportedVersion found supported =>
    s!"workspace format {found} is not served by this build, which serves format " ++
      s!"{supported}; a store written by another NoKV generation is not migrated"

/-- The current marker opens; a marker of another format is refused by its version. -/
def validateSchemaMarker (value : Bytes) : Except SchemaMarkerError Unit :=
  if value = encodeSchemaMarker then .ok ()
  else
    let encoded := encodeSchemaMarkerVersion 0
    let markerPrefix := encoded.take (encoded.length - 4)
    if markerPrefix.isPrefixOf value ∧ value.length = markerPrefix.length + 4 then
      .error (.unsupportedVersion (ofBe (value.drop markerPrefix.length)) SYSTEM_FORMAT_VERSION)
    else .error .malformed

@[simp] lemma validateSchemaMarker_encode : validateSchemaMarker encodeSchemaMarker = .ok () :=
  if_pos rfl

lemma validateSchemaMarker_eq_ok (h : validateSchemaMarker value = .ok ()) :
    value = encodeSchemaMarker := by
  unfold validateSchemaMarker at h
  split at h
  next heq => exact heq
  · dsimp only at h
    split at h
    · cases h
    · cases h

/-! ### Point reads -/

/-- A read-only program of the shard. -/
abbrev Shard := Prog State MetaError

def corruptRecovery {α : Type} (record : String) (x : Except RecoveryCodecError α) :
    Except MetaError α := x.mapError fun error => corrupt record error.display

def corruptValue {α : Type} (record : String) (x : Except RecordCodecError α) : Except MetaError α :=
  x.mapError fun error => corrupt record error.display

variable [Pager] {ops : List ReadOp}

/-- One consistent batch, checked against the limits first. -/
def readBatch (ops : List ReadOp) (operation : String) : Shard (List ReadResult) := do
  liftM ((validateBatch ops storeLimits).mapError (MetaError.store operation))
  let s ← Prog.get
  return s.read ops

def readValue (keyspace : Keyspace) (key : Bytes) (operation : String) : Shard (Option Bytes) := do
  match ← readBatch [.get ⟨keyspace, key⟩] operation with
  | .get value :: _ => return value
  | _ => throw (corrupt "transaction-store read" "point result is missing")

def readFamilyValue (family : MetadataFamily) (key : Bytes) (operation : String) :
    Shard (Option Bytes) :=
  readValue family.keyspace key operation

def requiredValue (keyspace : Keyspace) (key : Bytes) (record : String) : Shard Bytes := do
  let value ← readValue keyspace key "read required record"
  okOr value (MetaError.corruptRecord record "record is missing")

/-! ### Fenced reads -/

/-- The route a fenced read claims. -/
structure ReadFenceContext where
  rootId : RootId
  placementGeneration : PlacementGeneration
  ownerEpoch : OwnerEpoch

def requiredGetResult (result : Option ReadResult) (record : String) : Except MetaError Bytes :=
  match result with
  | some (.get value) => okOr value (MetaError.corruptRecord record "record is missing")
  | _ => .error (corrupt "transaction-store read" "point result is missing")

/-- The fence check on the three records read with every fenced read. -/
def admitFence (shard : LogicalShardId) (context : ReadFenceContext) (owner fence clock : Bytes) :
    Except MetaError ReadVersion := do
  let actualOwner ← decodeSystemU64 owner "System(owner_fence)"
  refuseIf (actualOwner ≠ context.ownerEpoch.val)
    (MetaError.ownerEpochMismatch context.ownerEpoch.get actualOwner.toNat)
  let fence ← corruptValue "RootFence" (RootFence.decode fence)
  refuseIf (fence.logicalShardId ≠ shard ∨ fence.placementGeneration ≠ context.placementGeneration)
    MetaError.placementMismatch
  refuseIf (fence.activationState ≠ .active)
    (MetaError.rootFenceStateMismatch .active fence.activationState)
  let clock ← decodeSystemU64 clock "System(commit_clock)"
  okOr (NonZeroU64.new clock) (corrupt "System(commit_clock)" "ReadVersion must be non-zero")

def fenceOps (context : ReadFenceContext) : List ReadOp := [
  .get (systemKey SYSTEM_OWNER_FENCE_KEY),
  .get ⟨ROOT_FENCE.id, context.rootId.bytes⟩,
  .get (systemKey SYSTEM_COMMIT_CLOCK_KEY)]

def readBatchAtFence (shard : LogicalShardId) (context : ReadFenceContext) (dataOps : List ReadOp)
    (operation : String) : Shard (ReadVersion × List ReadResult) := do
  let results ← readBatch (fenceOps context ++ dataOps) operation
  let owner ← liftM (requiredGetResult results[0]? "System(owner_fence)")
  let fence ← liftM (requiredGetResult results[1]? "RootFence")
  let clock ← liftM (requiredGetResult results[2]? "System(commit_clock)")
  let clock ← liftM (admitFence shard context owner fence clock)
  return (clock, results.drop 3)

def validateReadContext (shard : LogicalShardId) (context : ReadFenceContext) : Shard ReadVersion := do
  let (version, _) ← readBatchAtFence shard context [] "validate read context"
  return version

def readValueAtFence (shard : LogicalShardId) (keyspace : Keyspace) (key : Bytes)
    (operation : String) (context : ReadFenceContext) : Shard (ReadVersion × Option Bytes) := do
  let (clock, results) ← readBatchAtFence shard context [.get ⟨keyspace, key⟩] operation
  match results.getLast? with
  | some (.get value) => return (clock, value)
  | _ => throw (corrupt "transaction-store read" "point result is missing")

/-! ### Scans -/

def scanRequest (keyspace : Keyspace) (keyPrefix : Bytes) (after : Option Bytes) (limit : ℕ)
    (delimiter : Option UInt8) (reservedGets : ℕ) : Except MetaError Scan := do
  let reservedBytes := reservedGets * storeLimits.maxValueBytes
  refuseIf (2 ^ 64 ≤ reservedBytes) (MetaError.internal "build scan" "point-read reserve overflow")
  refuseIf (storeLimits.maxResultBytes < reservedBytes)
    (MetaError.internal "build scan" "point reads exhaust result budget")
  let maxBytes := storeLimits.maxResultBytes - reservedBytes
  let minimumRow := storeLimits.maxKeyBytes + storeLimits.maxValueBytes
  refuseIf (2 ^ 64 ≤ minimumRow) (MetaError.internal "build scan" "maximum row size overflow")
  refuseIf (maxBytes < minimumRow)
    (MetaError.internal "build scan" "remaining result budget cannot hold one maximum row")
  return ⟨keyspace, keyPrefix, after, limit, maxBytes, delimiter⟩

def scanPage (keyspace : Keyspace) (keyPrefix : Bytes) (after : Option Bytes) (limit : ℕ)
    (delimiter : Option UInt8) (reservedGets : ℕ) (operation : String) : Shard ScanPage := do
  let scan ← liftM (scanRequest keyspace keyPrefix after limit delimiter reservedGets)
  match ← readBatch [.scan scan] operation with
  | .scan page :: _ => return page
  | _ => throw (corrupt "transaction-store read" "scan result is missing")

/-- One page and the clock of the same snapshot; nothing when the clock has moved. -/
def scanPageAtClock (shard : LogicalShardId) (keyspace : Keyspace) (keyPrefix : Bytes)
    (after : Option Bytes) (limit : ℕ) (delimiter : Option UInt8) (expectedClock : ReadVersion)
    (context : ReadFenceContext) (operation : String) : Shard (Option ScanPage) := do
  let scan ← liftM (scanRequest keyspace keyPrefix after limit delimiter 3)
  let (clock, results) ← readBatchAtFence shard context [.scan scan] operation
  match results.getLast? with
  | some (.scan page) => return if clock = expectedClock then some page else none
  | _ => throw (corrupt "transaction-store read" "scan result is missing")

/-! ### The read requests of the shard are within the limits -/

section Limits

omit [Pager]

variable {a b c : ℕ} {key : Key} {scan : Scan}

lemma validateOp_get {m : ℕ} (hkey : key.bytes.length ≤ 8205) (ha : a < 2 ^ 32) (hb : b < 2 ^ 32)
    (hc : c < 2 ^ 32) :
    validateOp storeLimits m ⟨a, b, c⟩ (.get key) =
      .ok ⟨a + 1, b + 65535, c + key.bytes.length⟩ := by
  have hlimit : checkKey key.bytes storeLimits = .ok () := checkLimit_eq_ok.2 hkey
  have hvalue : b + storeLimits.maxValueBytes < 2 ^ 64 := by
    show b + 65535 < 2 ^ 64
    omega
  rw [validateOp]
  dsimp only
  rw [hlimit, ok_bind, add_of_lt (by omega), ok_bind, add_of_lt hvalue, ok_bind,
    add_of_lt (by omega), ok_bind]
  rfl

/-- A scan the shard may ask for. -/
structure ScanOk (scan : Scan) : Prop where
  limit_pos : 0 < scan.limit
  limit_le : scan.limit ≤ 520
  prefix_le : scan.keyPrefix.length ≤ 8205
  bytes_ge : 8205 + 65535 ≤ scan.maxBytes
  bytes_le : scan.maxBytes ≤ 8388608
  cursor_ok : checkCursor scan storeLimits = .ok ()

lemma checkCursor_length (h : checkCursor scan storeLimits = .ok ()) (hp : scan.keyPrefix.length ≤ 8205) :
    (scan.after.map List.length).getD scan.keyPrefix.length ≤ 8205 := by
  unfold checkCursor at h
  cases ha : scan.after with
  | none => exact hp
  | some =>
    rw [ha] at h
    obtain ⟨_, hle, -⟩ := bind_eq_ok.1 h
    exact checkLimit_eq_ok.1 hle

lemma validateOp_scan (h : ScanOk scan) (ha : a < 2 ^ 32) (hb : b < 2 ^ 32) (hc : c < 2 ^ 32) :
    ∃ read, validateOp storeLimits (8205 + 65535) ⟨a, b, c⟩ (.scan scan) =
        .ok ⟨a + scan.limit, b + scan.maxBytes, read⟩ ∧
      read ≤ c + 8205 + 8206 + 521 * 8205 := by
  have hstart := checkCursor_length h.cursor_ok h.prefix_le
  obtain ⟨_, _, hpre, _, hmax, hcur⟩ := h
  have hrow : (scan.limit + 1) * storeLimits.maxKeyBytes ≤ 521 * 8205 :=
    Nat.mul_le_mul (by omega) (le_refl _)
  have hkey : checkKey scan.keyPrefix storeLimits = .ok () := checkLimit_eq_ok.2 hpre
  have hres : checkLimit .resultBytes scan.maxBytes storeLimits.maxResultBytes = .ok () :=
    checkLimit_eq_ok.2 hmax
  refine ⟨c + (scan.after.map List.length).getD scan.keyPrefix.length +
    (scan.keyPrefix.length + 1) + (scan.limit + 1) * storeLimits.maxKeyBytes, ?_, by omega⟩
  rw [validateOp]
  dsimp only
  rw [refuseIf_of_not (by omega), ok_bind, refuseIf_of_not (by omega), ok_bind, hres, ok_bind,
    hkey, ok_bind, hcur, ok_bind, add_of_lt (by omega), ok_bind, add_of_lt (by omega), ok_bind,
    add_of_lt (by omega), ok_bind, add_of_lt (by omega), ok_bind, refuseIf_of_not (by omega),
    ok_bind, add_of_lt (by omega), ok_bind, add_of_lt (by omega), ok_bind, add_of_lt (by omega),
    ok_bind]
  rfl

lemma validateBatch_of_totals {ops : List ReadOp} (hlen : ops.length ≤ 8)
    (hfold : ops.foldlM (validateOp storeLimits (8205 + 65535)) ⟨0, 0, 0⟩ = .ok ⟨a, b, c⟩) (ha : a ≤ 1024)
    (hb : b ≤ 8388608) (hc : c ≤ 8388608) : validateBatch ops storeLimits = .ok () := by
  have hmin : add storeLimits.maxKeyBytes storeLimits.maxValueBytes .resultBytes =
      .ok (8205 + 65535) := rfl
  have hlen' : checkLimit .reads ops.length storeLimits.maxReads = .ok () := checkLimit_eq_ok.2 hlen
  have ha' : checkLimit .resultRows a storeLimits.maxResultRows = .ok () := checkLimit_eq_ok.2 ha
  have hb' : checkLimit .resultBytes b storeLimits.maxResultBytes = .ok () := checkLimit_eq_ok.2 hb
  unfold validateBatch
  rw [hlen', ok_bind, hmin, ok_bind, hfold, ok_bind]
  rw [ha', ok_bind, hb', ok_bind]
  exact checkLimit_eq_ok.2 hc

lemma validateBatch_get (h : key.bytes.length ≤ 8205) : validateBatch [.get key] storeLimits = .ok () := by
  refine validateBatch_of_totals (a := 0 + 1) (b := 0 + 65535) (c := 0 + key.bytes.length)
    (Nat.le_add_left _ _) ?_ (by omega) (by omega) (by omega)
  rw [foldlM_cons, validateOp_get h (by omega) (by omega) (by omega)]
  rfl

lemma validateBatch_scan (h : ScanOk scan) : validateBatch [.scan scan] storeLimits = .ok () := by
  obtain ⟨read, hop, _⟩ :=
    validateOp_scan (a := 0) (b := 0) (c := 0) h (by omega) (by omega) (by omega)
  have := h.limit_le
  have := h.bytes_le
  refine validateBatch_of_totals (a := 0 + scan.limit) (b := 0 + scan.maxBytes) (c := read)
    (Nat.le_add_left _ _) ?_ (by omega) (by omega) (by omega)
  rw [foldlM_cons, hop]
  rfl

variable (context : ReadFenceContext)
include context

lemma foldlM_fenceOps (dataOps : List ReadOp) :
    (fenceOps context ++ dataOps).foldlM (validateOp storeLimits (8205 + 65535)) ⟨0, 0, 0⟩ =
      dataOps.foldlM (validateOp storeLimits (8205 + 65535)) ⟨3, 3 * 65535, 11 + 16 + 12⟩ := by
  have hroot : context.rootId.bytes.length ≤ 8205 := by
    rw [context.rootId.length_bytes]
    omega
  have howner : SYSTEM_OWNER_FENCE_KEY.length = 11 := by decide
  have hclock : SYSTEM_COMMIT_CLOCK_KEY.length = 12 := by decide
  rw [foldlM_append]
  unfold fenceOps
  rw [foldlM_cons, validateOp_get (by simp only [systemKey, howner]; omega) (by omega)
    (by omega) (by omega), ok_bind, foldlM_cons, validateOp_get hroot (by omega) (by omega)
    (by simp only [systemKey, howner]; omega), ok_bind, foldlM_cons,
    validateOp_get (by simp only [systemKey, hclock]; omega) (by omega) (by omega)
    (by simp only [systemKey, howner, context.rootId.length_bytes]; omega), ok_bind]
  simp only [systemKey, howner, hclock, context.rootId.length_bytes]
  rfl

lemma validateBatch_fence_get (h : key.bytes.length ≤ 8205) :
    validateBatch (fenceOps context ++ [.get key]) storeLimits = .ok () := by
  refine validateBatch_of_totals (a := 3 + 1) (b := 3 * 65535 + 65535)
    (c := 11 + 16 + 12 + key.bytes.length) (Nat.le_add_left _ _) ?_ (by omega) (by omega) (by omega)
  rw [foldlM_fenceOps, foldlM_cons, validateOp_get h (by omega) (by omega) (by omega)]
  rfl

lemma validateBatch_fence_scan (h : ScanOk scan) (hbytes : 3 * 65535 + scan.maxBytes ≤ 8388608) :
    validateBatch (fenceOps context ++ [.scan scan]) storeLimits = .ok () := by
  obtain ⟨read, hop, _⟩ := validateOp_scan (a := 3) (b := 3 * 65535) (c := 11 + 16 + 12) h
    (by omega) (by omega) (by omega)
  have := h.limit_le
  refine validateBatch_of_totals (a := 3 + scan.limit) (b := 3 * 65535 + scan.maxBytes) (c := read)
    (Nat.le_add_left _ _) ?_ (by omega) (by omega) (by omega)
  rw [foldlM_fenceOps, foldlM_cons, hop]
  rfl

end Limits

/-! ### What the reads return on a store that stands still -/

lemma readBatch_runAt (h : validateBatch ops storeLimits = .ok ()) (operation : String) (s : State) :
    (readBatch ops operation).runAt s = .ok (s.read ops) := by
  unfold readBatch
  simp only [runAt_bind, runAt_liftM, h, runAt_get, runAt_pure]
  rfl

variable {key : Bytes} {s : State} {keyspace : Keyspace}

@[simp] lemma readValue_runAt (h : key.length ≤ 8205) (keyspace : Keyspace) (operation : String)
    (s : State) : (readValue keyspace key operation).runAt s = .ok (s.get ⟨keyspace, key⟩) := by
  unfold readValue
  rw [runAt_bind, readBatch_runAt (validateBatch_get h)]
  rfl

lemma readBatch_eq_ok {operation : String} {results : List ReadResult}
    (h : (readBatch ops operation).runAt s = .ok results) : results = s.read ops := by
  unfold readBatch at h
  rw [runAt_bind] at h
  replace h := ok_of_bind h
  exact (Except.ok.inj h).symm

lemma readValue_eq_ok {operation : String} {value : Option Bytes}
    (h : (readValue keyspace key operation).runAt s = .ok value) : s.get ⟨keyspace, key⟩ = value := by
  unfold readValue at h
  rw [runAt_bind] at h
  obtain ⟨_, hread, h⟩ := bind_eq_ok.1 h
  cases readBatch_eq_ok hread
  exact Except.ok.inj h

lemma requiredValue_eq_ok {record : String} {value : Bytes}
    (h : (requiredValue keyspace key record).runAt s = .ok value) : s.get ⟨keyspace, key⟩ = some value := by
  unfold requiredValue at h
  rw [runAt_bind] at h
  obtain ⟨_, hread, h⟩ := bind_eq_ok.1 h
  rw [readValue_eq_ok hread]
  rw [runAt_okOr] at h
  exact okOr_eq_ok.1 h

lemma requiredValue_runAt (h : key.length ≤ 8205) (keyspace : Keyspace) (record : String) (s : State) :
    (requiredValue keyspace key record).runAt s =
      okOr (s.get ⟨keyspace, key⟩) (MetaError.corruptRecord record "record is missing") := by
  unfold requiredValue
  rw [runAt_bind, readValue_runAt h, ok_bind, runAt_okOr]

/-- The fence check, on the records of a state. -/
def fenceAt (shard : LogicalShardId) (context : ReadFenceContext) (s : State) :
    Except MetaError ReadVersion := do
  let owner ← okOr (s.get (systemKey SYSTEM_OWNER_FENCE_KEY))
    (MetaError.corruptRecord "System(owner_fence)" "record is missing")
  let fence ← okOr (s.get ⟨ROOT_FENCE.id, context.rootId.bytes⟩)
    (MetaError.corruptRecord "RootFence" "record is missing")
  let clock ← okOr (s.get (systemKey SYSTEM_COMMIT_CLOCK_KEY))
    (MetaError.corruptRecord "System(commit_clock)" "record is missing")
  admitFence shard context owner fence clock

lemma readBatchAtFence_runAt {shard : LogicalShardId} {context : ReadFenceContext}
    {dataOps : List ReadOp} (h : validateBatch (fenceOps context ++ dataOps) storeLimits = .ok ())
    (operation : String) (s : State) :
    (readBatchAtFence shard context dataOps operation).runAt s =
      (fun clock => (clock, s.read dataOps)) <$> fenceAt shard context s := by
  unfold readBatchAtFence fenceAt
  rw [runAt_bind, readBatch_runAt h, ok_bind]
  simp only [runAt_bind, runAt_liftM, runAt_pure, fenceOps, State.read,
    map_cons, cons_append, nil_append, getElem?_cons_zero,
    getElem?_cons_succ, requiredGetResult, drop_succ_cons, drop_zero]
  simp only [map_bind]
  rfl

lemma validateReadContext_runAt (shard : LogicalShardId) (context : ReadFenceContext) (s : State) :
    (validateReadContext shard context).runAt s = fenceAt shard context s := by
  have hbatch : validateBatch (fenceOps context ++ []) storeLimits = .ok () := by
    have := foldlM_fenceOps context []
    exact validateBatch_of_totals (a := 3) (b := 3 * 65535) (c := 39) (Nat.le_add_left 3 5) this (by omega)
      (by omega) (by omega)
  unfold validateReadContext
  rw [runAt_bind, readBatchAtFence_runAt hbatch]
  cases fenceAt shard context s <;> rfl

/-- The scan of one page read together with the fence records. -/
def fencedScan (keyspace : Keyspace) (keyPrefix : Bytes) (after : Option Bytes) (limit : ℕ)
    (delimiter : Option UInt8) : Scan :=
  ⟨keyspace, keyPrefix, after, limit, 8388608 - 3 * 65535, delimiter⟩

omit [Pager] in
lemma scanRequest_eq (keyspace : Keyspace) (keyPrefix : Bytes) (after : Option Bytes) (limit : ℕ)
    (delimiter : Option UInt8) : scanRequest keyspace keyPrefix after limit delimiter 3 =
      .ok (fencedScan keyspace keyPrefix after limit delimiter) := rfl

lemma scanPageAtClock_runAt {keyPrefix : Bytes} {after : Option Bytes} {limit : ℕ}
    {delimiter : Option UInt8} (h : ScanOk (fencedScan keyspace keyPrefix after limit delimiter))
    (shard : LogicalShardId) (expectedClock : ReadVersion) (context : ReadFenceContext) (operation : String)
    (s : State) :
    (scanPageAtClock shard keyspace keyPrefix after limit delimiter expectedClock context
        operation).runAt s =
      (fun clock => if clock = expectedClock then
        some (Pager.page s (fencedScan keyspace keyPrefix after limit delimiter)) else none) <$>
        fenceAt shard context s := by
  have hvalid := validateBatch_fence_scan context h (by dsimp only [fencedScan]; omega)
  unfold scanPageAtClock
  rw [scanRequest_eq, runAt_bind, runAt_liftM, ok_bind, runAt_bind,
    readBatchAtFence_runAt hvalid]
  cases fenceAt shard context s <;> rfl

lemma readValueAtFence_runAt (h : key.length ≤ 8205) (shard : LogicalShardId) (keyspace : Keyspace)
    (operation : String) (context : ReadFenceContext) (s : State) :
    (readValueAtFence shard keyspace key operation context).runAt s =
      (fun clock => (clock, s.get ⟨keyspace, key⟩)) <$> fenceAt shard context s := by
  unfold readValueAtFence
  rw [runAt_bind, readBatchAtFence_runAt (validateBatch_fence_get context h)]
  cases fenceAt shard context s <;> rfl

/-! ### What the reads can return while the store moves -/

section May

variable {P : State → Prop} {shard : LogicalShardId} {context : ReadFenceContext} {operation : String}
  {results : List ReadResult}

lemma readBatch_may {ops : List ReadOp} (h : Prog.May P (readBatch ops operation) results) :
    ∃ s, P s ∧ results = s.read ops := by
  obtain ⟨_, -, h⟩ := may_bind.1 h
  obtain ⟨s, hs, h⟩ := may_bind.1 h
  exact ⟨s, may_get.1 hs, (may_pure.1 h).symm⟩

lemma readBatchAtFence_may {dataOps : List ReadOp} {clock : ReadVersion}
    (h : Prog.May P (readBatchAtFence shard context dataOps operation) (clock, results)) :
    ∃ s, P s ∧ fenceAt shard context s = .ok clock ∧ results = s.read dataOps := by
  obtain ⟨_, hall, h⟩ := may_bind.1 h
  obtain ⟨s, hs, rfl⟩ := readBatch_may hall
  obtain ⟨owner, howner, h⟩ := may_bind.1 h
  obtain ⟨fence, hfence, h⟩ := may_bind.1 h
  obtain ⟨clock', hclock, h⟩ := may_bind.1 h
  obtain ⟨_, hversion, h⟩ := may_bind.1 h
  cases may_pure.1 h
  refine ⟨s, hs, ?_, rfl⟩
  exact bind_eq_ok.2 ⟨owner, may_liftM.1 howner, bind_eq_ok.2 ⟨fence, may_liftM.1 hfence,
    bind_eq_ok.2 ⟨clock', may_liftM.1 hclock, may_liftM.1 hversion⟩⟩⟩

lemma validateReadContext_may {version : ReadVersion}
    (h : Prog.May P (validateReadContext shard context) version) :
    ∃ s, P s ∧ fenceAt shard context s = .ok version := by
  obtain ⟨⟨_, _⟩, hbatch, h⟩ := may_bind.1 h
  cases may_pure.1 h
  obtain ⟨s, hs, hfence, -⟩ := readBatchAtFence_may hbatch
  exact ⟨s, hs, hfence⟩

/-- A page was read at one state whose clock is the expected one. -/
lemma scanPageAtClock_may {keyspace : Keyspace} {keyPrefix : Bytes} {after : Option Bytes} {limit : ℕ}
    {delimiter : Option UInt8} {expectedClock : ReadVersion} {page : ScanPage}
    (h : Prog.May P (scanPageAtClock shard keyspace keyPrefix after limit delimiter
      expectedClock context operation) (some page)) : ∃ s, P s ∧ fenceAt shard context s = .ok expectedClock ∧
      page = Pager.page s (fencedScan keyspace keyPrefix after limit delimiter) := by
  unfold scanPageAtClock at h
  obtain ⟨_, hscan, h⟩ := may_bind.1 h
  cases may_liftM.1 hscan
  obtain ⟨⟨_, _⟩, hbatch, h⟩ := may_bind.1 h
  obtain ⟨s, hs, hfence, rfl⟩ := readBatchAtFence_may hbatch
  have hpage := may_pure.1 h
  split at hpage
  next heq =>
    cases hpage
    exact ⟨s, hs, heq ▸ hfence, rfl⟩
  · cases hpage

end May

end NoKV.Meta
