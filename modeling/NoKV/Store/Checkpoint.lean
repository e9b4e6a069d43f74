import Mathlib.Data.Finset.Dedup
import NoKV.Lib.Table
import NoKV.Store.Target
import NoKV.Types

/-!
# Installing a checkpoint

The entry points of the Holt adapter that deal with a target directory, as programs of file system and
database operations: `installFreshCheckpoint` with its reconciliation of a completed target, the
ordinary `openStore`, `openRecoveryStaging` and `adoptRecoveryStaging`.
-/

namespace NoKV.Store.Target

open Lib

/-- A program on the target directory. -/
abbrev Fs (ε α : Type) := Io Op.Answer IoError ε α

/-- One operation, with the error it is reported as. -/
def perform {ε : Type} (op : Op) (error : IoError → ε) : Fs ε op.Answer := (Io.perform op).mapError error

/-! ### Checkpoints and their identity -/

/-- Canonical storage-neutral envelope around one opaque backend image. -/
structure StoreCheckpointEnvelope where
  formatId : String
  catalogCommitment : Digest
  image : Bytes

inductive CheckpointInstallState where
  /-- No backend state from this attempt can become visible later. -/
  | unchanged
  /-- Installation crossed its durable marker; the target must be discarded. -/
  | poisoned
  deriving DecidableEq

structure CheckpointInstallError where
  state : CheckpointInstallState
  reason : String
  deriving DecidableEq

def unchanged (reason : String) : CheckpointInstallError := ⟨.unchanged, reason⟩

def poisoned (reason : String) : CheckpointInstallError := ⟨.poisoned, reason⟩

/-- The validated options of a file-backed store: its directory, the name of the tree of each keyspace
and its limits. -/
structure HoltOptions where
  path : String
  trees : OrdMap ℕ Bytes
  limits : StoreLimits

/-- Exact checkpoint identity required to reopen one pre-control recovery staging store. -/
structure HoltRecoveryStagingIdentity where
  envelopeDigest : Digest
  catalogCommitment : Digest

def HOLT_CHECKPOINT_FORMAT_ID : String := "holt.0.8.5.checkpoint.v1"
def HOLT_CHECKPOINT_MAGIC : Bytes := utf8 "holtdbi1"
def HOLT_CHECKPOINT_HEADER_BYTES : ℕ := 12
def HOLT_CHECKPOINT_MAX_RECORDS : ℕ := 16 * 1024 * 1024
def MAX_CHECKPOINT_IMAGE_BYTES : ℕ := 512 * 1024 * 1024
def INSTALL_SENTINEL_MAGIC : Bytes := utf8 "nokv.holt-checkpoint-install.v1\x00"
def COMPLETE_MARKER_MAGIC : Bytes := utf8 "nokv.holt-checkpoint-complete.v1\x00"

def markerPath (path : String) : Marker → String
  | .installing => s!"{path}/.nokv-checkpoint-installing-v1"
  | .complete => s!"{path}/.nokv-checkpoint-complete-v1"
  | .adopted => s!"{path}/.nokv-checkpoint-adopted-v1"

def holtPath (path : String) : HoltFile → String
  | .blobs => s!"{path}/blobs.dat"
  | .journal => s!"{path}/journal.wal"
  | .manifestBin => s!"{path}/manifest.bin"
  | .manifestLog => s!"{path}/manifest.log"

section Identity

variable [Sha256]

def checkpointMarkerChecksum (markerIdentity : Bytes) : Digest :=
  sha256 (utf8 "nokv.meta-holt.checkpoint-marker.v1\x00" ++ markerIdentity)

def HoltRecoveryStagingIdentity.markerBytes (identity : HoltRecoveryStagingIdentity) (magic : Bytes) : Bytes :=
  let bytes := magic ++ identity.envelopeDigest.bytes ++ identity.catalogCommitment.bytes
  bytes ++ (checkpointMarkerChecksum bytes).bytes

def catalogCommitment (trees : OrdMap ℕ Bytes) : Digest :=
  sha256 (utf8 "nokv.meta-holt.catalog.v1\x00" ++ be 8 trees.size ++
    trees.rows.flatMap fun tree => be 2 tree.1 ++ be 8 tree.2.length ++ tree.2)

def recoveryStagingIdentity (checkpoint : StoreCheckpointEnvelope) (catalog : Digest) :
    HoltRecoveryStagingIdentity where
  envelopeDigest := sha256 (List.flatten [utf8 "nokv.store-checkpoint-envelope.v1\x00",
    be 8 (utf8 checkpoint.formatId).length, utf8 checkpoint.formatId, checkpoint.catalogCommitment.bytes,
    be 8 checkpoint.image.length, checkpoint.image])
  catalogCommitment := catalog

end Identity

/-! ### The image -/

/-- A length and as many bytes; the bytes behind them. -/
def takeHoltBytes (bytes : Bytes) : Except String (Bytes × Bytes) := do
  refuseIf (bytes.length < 4) "Holt checkpoint image has a truncated length"
  let length := ofBe (bytes.take 4).reverse
  refuseIf (bytes.length < 4 + length) "Holt checkpoint image has a truncated body"
  return ((bytes.drop 4).take length, bytes.drop (4 + length))

/-- The records of a family, in strict key order. A record takes at least eight bytes, so `fuel` may be
the number of bytes. -/
def validateHoltFamilyBlock (limits : StoreLimits) (maxRecords : ℕ) :
    ℕ → Bytes → Option Bytes → ℕ → Except String ℕ
  | 0, _, _, records => pure records
  | fuel + 1, block, previousKey, records =>
    if block = [] then pure records
    else do
      let (key, rest) ← takeHoltBytes block
      let (value, rest) ← takeHoltBytes rest
      let attempted := records + 1
      refuseIf (maxRecords < attempted)
        s!"Holt checkpoint has at least {attempted} records; maximum is {maxRecords}"
      refuseIf (limits.maxKeyBytes < key.length)
        s!"Holt checkpoint key is {key.length} bytes; configured maximum is {limits.maxKeyBytes}"
      refuseIf (limits.maxValueBytes < value.length)
        s!"Holt checkpoint value is {value.length} bytes; configured maximum is {limits.maxValueBytes}"
      refuseIf (∃ previous ∈ previousKey, key ≤ previous)
        "Holt checkpoint keys are not in strict canonical order"
      validateHoltFamilyBlock limits maxRecords fuel rest (some key) attempted

def HoltOptions.names (o : HoltOptions) : List Bytes := (o.trees.rows.map Prod.snd).mergeSort (· ≤ ·)

def validateHoltCheckpointImage (o : HoltOptions) (image : Bytes) : Except String Unit := do
  refuseIf (MAX_CHECKPOINT_IMAGE_BYTES < image.length)
    s!"Holt checkpoint image is {image.length} bytes; maximum is {MAX_CHECKPOINT_IMAGE_BYTES}"
  refuseIf (image.length < HOLT_CHECKPOINT_HEADER_BYTES ∨ image.take 8 ≠ HOLT_CHECKPOINT_MAGIC)
    "Holt checkpoint image has bad magic or a truncated header"
  let familyCount := ofBe ((image.drop 8).take 4).reverse
  refuseIf (familyCount ≠ o.trees.size)
    s!"Holt checkpoint has {familyCount} families; configured catalog has {o.trees.size}"
  let (rest, _) ← o.names.foldlM (fun (bytes, records) expectedName => do
    let (name, rest) ← takeHoltBytes bytes
    refuseIf (name ≠ expectedName) "Holt checkpoint family order or catalog is not canonical"
    let (block, rest) ← takeHoltBytes rest
    let records ←
      validateHoltFamilyBlock o.limits HOLT_CHECKPOINT_MAX_RECORDS block.length block none records
    return (rest, records)) (image.drop HOLT_CHECKPOINT_HEADER_BYTES, 0)
  refuseIf (rest ≠ []) "Holt checkpoint image has trailing bytes"

/-! ### Markers -/

def markerExists (m : Marker) : Fs IoError Bool := do
  return (← perform (.metadata (.marker m)) id).isSome

def inspectMarkerExists (o : HoltOptions) (m : Marker) (phase : String) : Fs StoreError Bool :=
  (markerExists m).mapError fun error =>
    .unavailable s!"inspect {phase} Holt checkpoint marker {markerPath o.path m}: {error.text}"

def rejectIncompleteInstallMarker (o : HoltOptions) : Fs StoreError Unit := do
  let installing ← inspectMarkerExists o .installing "incomplete"
  refuseIf (installing = true) (StoreError.corrupt
    s!"HoltStore directory {o.path} has an incomplete checkpoint installation marker and must be discarded")

def readExactMarker (o : HoltOptions) (m : Marker) (expectedLength : ℕ) : Fs String Bytes := do
  let metadata ← perform (.metadata (.marker m)) fun error =>
    s!"inspect marker {markerPath o.path m}: {error.text}"
  match metadata with
  | none => throw s!"inspect marker {markerPath o.path m}: {Disk.notFound.text}"
  | some (.file length) =>
    refuseIf (length ≠ expectedLength) "marker length does not match expected identity"
    perform (.read m) fun error => s!"read marker {markerPath o.path m}: {error.text}"
  | some _ => throw "marker is not a regular file"

def verifyMarkerBytes (o : HoltOptions) (m : Marker) (expected : Bytes) : Fs String Unit := do
  let actual ← readExactMarker o m expected.length
  refuseIf (actual ≠ expected) "marker does not match expected checkpoint identity"

section Markers

variable [Sha256] (o : HoltOptions)

def verifyIdentityMarker (m : Marker) (expected : HoltRecoveryStagingIdentity) (phase : String) :
    Fs StoreError Unit :=
  (verifyMarkerBytes o m (expected.markerBytes COMPLETE_MARKER_MAGIC)).mapError fun reason =>
    .corrupt s!"HoltStore directory {o.path} {phase} checkpoint marker is invalid: {reason}"

def verifyAdoptedMarkerCatalog (expectedCatalog : Digest) : Fs StoreError Unit := do
  let identityLength := COMPLETE_MARKER_MAGIC.length + 32 + 32
  let bytes ← (readExactMarker o .adopted (identityLength + 32)).mapError fun reason =>
    StoreError.corrupt s!"HoltStore directory {o.path} adopted checkpoint marker is invalid: {reason}"
  refuseIf (¬ COMPLETE_MARKER_MAGIC <+: bytes)
    (StoreError.corrupt s!"HoltStore directory {o.path} adopted checkpoint marker has wrong magic")
  refuseIf (bytes.drop identityLength ≠ (checkpointMarkerChecksum (bytes.take identityLength)).bytes)
    (StoreError.corrupt s!"HoltStore directory {o.path} adopted checkpoint marker checksum is invalid")
  refuseIf ((bytes.drop (COMPLETE_MARKER_MAGIC.length + 32)).take 32 ≠ expectedCatalog.bytes)
    (StoreError.corrupt s!"HoltStore directory {o.path} adopted checkpoint marker has a foreign catalog")

def conflictingMarkers : StoreError :=
  .corrupt s!"HoltStore directory {o.path} has conflicting completed and adopted checkpoint markers"

def validateInstallMarkers (expectedComplete : Option HoltRecoveryStagingIdentity) (expectedCatalog : Digest) :
    Fs StoreError Unit := do
  rejectIncompleteInstallMarker o
  let completeExists ← inspectMarkerExists o .complete "completed"
  let adoptedExists ← inspectMarkerExists o .adopted "adopted"
  match completeExists, adoptedExists, expectedComplete with
  | true, true, _ => throw (conflictingMarkers o)
  | false, false, none => return
  | false, false, some _ =>
    throw (.corrupt s!"HoltStore directory {o.path} lost its expected completed checkpoint marker")
  | true, false, none =>
    throw (.corrupt <| s!"HoltStore directory {o.path} has a completed checkpoint marker " ++
      "that requires exact expected-checkpoint reconciliation")
  | true, false, some expected => verifyIdentityMarker o .complete expected "completed"
  | false, true, none => verifyAdoptedMarkerCatalog o expectedCatalog
  | false, true, some _ =>
    throw (.corrupt s!"HoltStore directory {o.path} was already adopted and is no longer recovery staging")

def validateRecoveryStagingAdoption (expected : HoltRecoveryStagingIdentity) : Fs StoreError Unit := do
  rejectIncompleteInstallMarker o
  let completeExists ← inspectMarkerExists o .complete "completed"
  let adoptedExists ← inspectMarkerExists o .adopted "adopted"
  match completeExists, adoptedExists with
  | true, false => verifyIdentityMarker o .complete expected "completed"
  | false, true => verifyIdentityMarker o .adopted expected "adopted"
  | true, true => throw (conflictingMarkers o)
  | false, false =>
    throw (.corrupt s!"HoltStore directory {o.path} has no exact recovery staging identity marker")

def adoptRecoveryStagingMarker (expected : HoltRecoveryStagingIdentity) : Fs StoreError Unit := do
  validateRecoveryStagingAdoption o expected
  let adopted ← (markerExists .adopted).mapError fun error =>
    StoreError.unavailable s!"inspect adopted Holt recovery staging marker: {error.text}"
  if adopted then
    perform .syncTarget fun error =>
      StoreError.unavailable s!"sync reconciled Holt recovery staging adoption: {error.text}"
  else
    perform (.rename .complete .adopted) fun error =>
      StoreError.unavailable s!"convert completed Holt recovery staging marker to adopted: {error.text}"
    perform .syncTarget fun error =>
      StoreError.unavailable s!"sync Holt recovery staging marker adoption: {error.text}"

end Markers

/-- Create a marker, write it, and sync it and its directory. -/
def writeDurableMarker (m : Marker) (bytes : Bytes) : Fs IoError Unit := do
  perform (.create m) id
  perform (.write m bytes) id
  perform (.syncFile m) id
  perform .syncTarget id

def removeInstallSentinel : Fs IoError Unit := do
  perform (.remove .installing) id
  perform .syncTarget id

/-- Best effort: its own failures are not reported. -/
def restoreInstallSentinel {ε : Type} (bytes : Bytes) : Fs ε Unit := do
  let restored : Except IoError Unit ← Io.attempt do
    perform (.create .installing) id
    perform (.write .installing bytes) id
    perform (.syncFile .installing) id
  match restored with
  | .ok _ =>
    let _ : Except IoError Unit ← Io.attempt (perform .syncTarget id)
    return
  | .error _ => return

/-! ### The target -/

def prepareFreshTarget (o : HoltOptions) : Fs String Unit := do
  match ← perform (.metadata .target) fun error => s!"inspect checkpoint target: {error.text}" with
  | some .directory =>
    let entries ← perform .readDir fun error => s!"inspect checkpoint target: {error.text}"
    refuseIf (entries ≠ []) s!"Holt checkpoint target {o.path} is not empty"
  | some _ => throw s!"{o.path} is not a fresh Holt checkpoint directory"
  | none =>
    match ← perform (.metadata .parent) fun error => s!"inspect checkpoint target parent: {error.text}" with
    | some .directory =>
      perform .createDir fun error => s!"create checkpoint target directory: {error.text}"
      perform .syncParent fun error => s!"sync checkpoint target parent: {error.text}"
    | some _ => throw "Holt checkpoint target parent is not a directory"
    | none => throw s!"inspect checkpoint target parent: {Disk.notFound.text}"

def requireOnlySentinel : Fs String Unit := do
  let entries ← perform .readDir fun error =>
    s!"inspect checkpoint target after marker creation: {error.text}"
  refuseIf (∃ entry ∈ entries, entry ≠ .marker .installing)
    "checkpoint target changed before Holt installation"
  refuseIf (entries.length ≠ 1) "checkpoint installation marker disappeared before Holt open"

def requireExactCatalog (o : HoltOptions) : Fs String Unit := do
  let actual ← perform .listTrees IoError.text
  refuseIf (actual.toFinset ≠ o.names.toFinset)
    "installed Holt tree registry does not match the catalog commitment"

def requireRegularHoltFile (o : HoltOptions) (file : HoltFile) : Fs StoreError Unit := do
  match ← perform (.metadata (.holt file)) fun error =>
      StoreError.unavailable s!"cannot inspect {holtPath o.path file}: {error.text}" with
  | none => throw (.corrupt s!"HoltStore directory is missing {holtPath o.path file}")
  | some (.file _) => return
  | some _ => throw (.corrupt s!"{holtPath o.path file} is not a regular Holt file")

/-- A manifest may be missing, but not be anything else than a file. -/
def manifestExists (o : HoltOptions) (file : HoltFile) : Fs StoreError Bool := do
  match ← perform (.metadata (.holt file)) fun error =>
      StoreError.unavailable s!"cannot inspect {holtPath o.path file}: {error.text}" with
  | none => return false
  | some (.file _) => return true
  | some _ => throw (.corrupt s!"{holtPath o.path file} is not a regular Holt file")

def requireHoltLocation (o : HoltOptions) : Fs StoreError Unit := do
  match ← perform (.metadata .target) fun error =>
      StoreError.unavailable s!"inspect HoltStore directory {o.path}: {error.text}" with
  | none => throw (.invalidRequest s!"HoltStore directory {o.path} does not exist")
  | some .directory =>
    requireRegularHoltFile o .blobs
    requireRegularHoltFile o .journal
    let bin ← manifestExists o .manifestBin
    let log ← manifestExists o .manifestLog
    refuseIf ((bin || log) = false)
      (StoreError.corrupt s!"HoltStore directory {o.path} has no durable manifest")
  | some _ => throw (.invalidRequest s!"{o.path} is not a HoltStore directory")

def mapHoltError (error : IoError) : StoreError :=
  if error.kind = .corrupt then .corrupt error.text else .unavailable error.text

def mapOpenError (error : IoError) : StoreError :=
  if error.kind = .wouldBlock then
    .unavailable <| "another live owner already holds this metadata store; " ++
      s!"stop it before opening the same directory ({error.text})"
  else mapHoltError error

def prepareTrees (o : HoltOptions) : Fs StoreError Unit := do
  let actual ← perform .listTrees mapHoltError
  refuseIf (actual.toFinset ≠ o.names.toFinset)
    (StoreError.corrupt "Holt tree registry does not match the configured physical catalog")

/-- The handles of the trees. -/
def fromParts {ε : Type} (o : HoltOptions) (error : IoError → ε) : Fs ε Unit :=
  o.trees.rows.forM fun tree => perform (.openTree tree.2) error

/-! ### Entry points -/

section Entry

variable [Sha256] (o : HoltOptions)

def validateCheckpointForOptions (checkpoint : StoreCheckpointEnvelope) :
    Except CheckpointInstallError Unit := do
  refuseIf (checkpoint.formatId ≠ HOLT_CHECKPOINT_FORMAT_ID)
    (Target.unchanged "checkpoint format is not supported by this Holt adapter")
  refuseIf (checkpoint.catalogCommitment ≠ catalogCommitment o.trees)
    (Target.unchanged "checkpoint catalog commitment does not match the target catalog")
  (validateHoltCheckpointImage o checkpoint.image).mapError Target.unchanged

def verifyInstalled (image : Bytes) (mismatch : String) : Fs String Unit := do
  perform .openDb IoError.text
  requireExactCatalog o
  let reexported ← perform .exportDb IoError.text
  refuseIf (reexported ≠ image) mismatch

/-- The installation marker goes, and comes back if its removal fails. -/
def finishInstall (sentinelBytes : Bytes) (phase : String) : Fs CheckpointInstallError Unit := do
  let removed : Except IoError Unit ← Io.attempt removeInstallSentinel
  match removed with
  | .ok _ => return
  | .error error =>
    restoreInstallSentinel sentinelBytes
    throw (poisoned s!"{phase} Holt checkpoint installation marker: {error.text}")

def fromInstalledCheckpoint : Fs CheckpointInstallError Unit :=
  fromParts o fun error =>
    if error.kind = .corrupt then poisoned s!"metadata store is corrupt: {error.text}"
    else poisoned s!"metadata store unavailable: {error.text}"

def reconcileCompletedCheckpoint (checkpoint : StoreCheckpointEnvelope) (sentinelBytes completeBytes : Bytes) :
    Fs CheckpointInstallError Unit := do
  (verifyMarkerBytes o .complete completeBytes).mapError poisoned
  (verifyInstalled o checkpoint.image
    "installed Holt checkpoint does not exactly re-export the expected image").mapError poisoned
  let installing ← (markerExists .installing).mapError fun error => poisoned error.text
  if installing then
    (verifyMarkerBytes o .installing sentinelBytes).mapError poisoned
    finishInstall sentinelBytes "reconcile"
  fromInstalledCheckpoint o

/-- From the new installation marker to the verified database. -/
def installDatabase (checkpoint : StoreCheckpointEnvelope) (sentinelBytes : Bytes) : Fs String Unit := do
  perform (.write .installing sentinelBytes) fun error =>
    s!"write checkpoint installation marker: {error.text}"
  perform (.syncFile .installing) fun error => s!"sync checkpoint installation marker: {error.text}"
  perform .syncTarget fun error => s!"sync checkpoint target directory: {error.text}"
  requireOnlySentinel
  perform .openDb IoError.text
  perform (.installDb checkpoint.image) IoError.text
  requireExactCatalog o
  perform .checkpointDb IoError.text
  verifyInstalled o checkpoint.image "installed Holt checkpoint does not exactly re-export the source image"

def installFreshCheckpoint (checkpoint : StoreCheckpointEnvelope) : Fs CheckpointInstallError Unit := do
  validateCheckpointForOptions o checkpoint
  let identity := recoveryStagingIdentity checkpoint (catalogCommitment o.trees)
  let sentinelBytes := identity.markerBytes INSTALL_SENTINEL_MAGIC
  let completeBytes := identity.markerBytes COMPLETE_MARKER_MAGIC
  let adopted ← (markerExists .adopted).mapError fun error => Target.unchanged error.text
  refuseIf (adopted = true) (Target.unchanged "checkpoint target has already been adopted and is not fresh")
  let complete ← (markerExists .complete).mapError fun error => Target.unchanged error.text
  if complete then
    reconcileCompletedCheckpoint o checkpoint sentinelBytes completeBytes
  else
    let installing ← (markerExists .installing).mapError fun error => Target.unchanged error.text
    refuseIf (installing = true)
      (poisoned "checkpoint target already has an incomplete installation marker; discard it")
    (prepareFreshTarget o).mapError Target.unchanged
    perform (.create .installing) fun error =>
      if error.kind = .alreadyExists then
        poisoned "checkpoint target acquired an incomplete installation marker; discard it"
      else Target.unchanged s!"create Holt checkpoint installation marker: {error.text}"
    (installDatabase o checkpoint sentinelBytes).mapError poisoned
    (writeDurableMarker .complete completeBytes).mapError fun error =>
      poisoned s!"publish completed Holt checkpoint identity: {error.text}"
    fromInstalledCheckpoint o
    finishInstall sentinelBytes "finalize"

/-- Open a file-backed namespace with the exact configured tree catalog. -/
def openStore : Fs StoreError Unit := do
  validateInstallMarkers o none (catalogCommitment o.trees)
  requireHoltLocation o
  perform .openDb mapOpenError
  prepareTrees o
  fromParts o mapHoltError

/-- Reopen a pre-control recovery staging target by its exact persisted identity. -/
def openRecoveryStaging (expected : HoltRecoveryStagingIdentity) : Fs StoreError Unit := do
  refuseIf (expected.catalogCommitment ≠ catalogCommitment o.trees)
    (StoreError.corrupt "recovery staging identity has a foreign physical catalog")
  validateInstallMarkers o (some expected) (catalogCommitment o.trees)
  requireHoltLocation o
  perform .openDb mapOpenError
  prepareTrees o
  validateInstallMarkers o (some expected) (catalogCommitment o.trees)
  fromParts o mapHoltError

/-- Adopt recovery staging after the caller durably finalized control state. -/
def adoptRecoveryStaging (expected : HoltRecoveryStagingIdentity) : Fs StoreError Unit := do
  refuseIf (expected.catalogCommitment ≠ catalogCommitment o.trees)
    (StoreError.corrupt "recovery staging adoption identity has a foreign physical catalog")
  validateRecoveryStagingAdoption o expected
  requireHoltLocation o
  perform .openDb mapOpenError
  prepareTrees o
  adoptRecoveryStagingMarker o expected
  fromParts o mapHoltError

end Entry

end NoKV.Store.Target
