import NoKV.Types
import NoKV.Lib.OrdMap

/-!
# Control-plane records

The durable record of one logical shard (its owner, its recovery frontier and the upload that is
under way), the lease that fences an owner, and the errors of the control store.
-/

namespace NoKV

open Lib

namespace Lib.FixedBytes

instance {n : ℕ} : LinearOrder (FixedBytes n) :=
  LinearOrder.lift' FixedBytes.bytes fun _ _ h => ext_bytes h

end Lib.FixedBytes

namespace Control

/-! ### Texts -/

/-- `char::is_control`. -/
def isControl (c : Char) : Bool := c.toNat < 32 || (127 ≤ c.toNat && c.toNat < 160)

/-- `char::is_whitespace`. -/
def isWhitespace (c : Char) : Bool :=
  let n := c.toNat
  (9 ≤ n && n ≤ 13) || n == 0x20 || n == 0x85 || n == 0xA0 || n == 0x1680 ||
    (0x2000 ≤ n && n ≤ 0x200A) || n == 0x2028 || n == 0x2029 || n == 0x202F || n == 0x205F || n == 0x3000

/-- `text.trim() == text`: neither end is white space. -/
def isTrimmed (text : String) : Bool :=
  text.toList.head?.all (fun c => !isWhitespace c) && text.toList.getLast?.all (fun c => !isWhitespace c)

/-- A non-empty text without surrounding white space or control characters. -/
def endpointIsCanonical (endpoint : String) : Bool :=
  !endpoint.isEmpty && isTrimmed endpoint && !endpoint.toList.any isControl

/-- Identity of one physical metadata-shard process. -/
structure NodeId where
  value : String
  canonical : endpointIsCanonical value = true
  deriving DecidableEq

/-! ### Records -/

inductive LogicalShardState where
  | unassigned
  | recovering
  | serving
  | draining
  | readOnly
  deriving DecidableEq, Repr

/-- The durable discriminant. -/
def LogicalShardState.toU8 : LogicalShardState → UInt8
  | unassigned => 1
  | recovering => 2
  | serving => 3
  | draining => 4
  | readOnly => 5

def LogicalShardState.debug : LogicalShardState → String
  | unassigned => "Unassigned"
  | recovering => "Recovering"
  | serving => "Serving"
  | draining => "Draining"
  | readOnly => "ReadOnly"

/-- Immutable checkpoint image published by an owner. -/
structure CheckpointRef where
  objectKey : String
  lsn : UInt64
  imageBytes : UInt64
  imageDigest : String
  digest : String
  receipt : Bytes
  deriving DecidableEq

/-- One immutable segment of the shared log. -/
structure LogSegmentRef where
  segmentKey : String
  firstLsn : UInt64
  lastLsn : UInt64
  digest : String
  receipt : Bytes
  deriving DecidableEq

/-- The shared log above the retained checkpoint. -/
structure LogRef where
  segments : List LogSegmentRef
  durableLsn : UInt64
  digest : String
  deriving DecidableEq

/-- One publication of the durable recovery frontier. -/
structure RecoveryPublication where
  checkpoint : Option CheckpointRef
  log : Option LogRef
  durableLsn : UInt64
  deriving DecidableEq

/-- Durable intent for one immutable recovery-log upload. -/
structure RecoveryUploadIntent where
  objectNamespaceId : ObjectNamespaceId
  firstLsn : UInt64
  lastLsn : UInt64
  previousChainDigest : String
  lastChainDigest : String
  segmentDigest : String
  manifestKey : String
  receipt : Bytes
  plan : Bytes
  deriving DecidableEq

inductive RootPlacementLifecycle where
  | provisioning
  | active
  | draining
  | retired
  deriving DecidableEq, Repr

def RootPlacementLifecycle.debug : RootPlacementLifecycle → String
  | provisioning => "Provisioning"
  | active => "Active"
  | draining => "Draining"
  | retired => "Retired"

/-- Root-to-shard affinity and its compare-and-set fence. -/
structure RootPlacement where
  rootId : RootId
  logicalShardId : LogicalShardId
  placementGeneration : PlacementGeneration
  lifecycle : RootPlacementLifecycle
  deriving DecidableEq

/-- Durable ownership and recovery state of one logical shard. -/
structure LogicalShardRecord where
  logicalShardId : LogicalShardId
  owner : Option NodeId
  ownerEpoch : Option OwnerEpoch
  leaseId : UInt64
  state : LogicalShardState
  endpoint : Option String
  checkpoint : Option CheckpointRef
  log : Option LogRef
  durableLsn : UInt64
  pendingRecoveryUpload : Option RecoveryUploadIntent
  deriving DecidableEq

namespace LogicalShardRecord

/-- The record of a shard that never had an owner. -/
def unassigned (logicalShardId : LogicalShardId) : LogicalShardRecord where
  logicalShardId := logicalShardId
  owner := none
  ownerEpoch := none
  leaseId := 0
  state := .unassigned
  endpoint := none
  checkpoint := none
  log := none
  durableLsn := 0
  pendingRecoveryUpload := none

/-- Whether an owner has published or staged any recovery state. -/
def hasRecoveryState (record : LogicalShardRecord) : Bool :=
  record.checkpoint.isSome || record.log.isSome || record.durableLsn != 0 ||
    record.pendingRecoveryUpload.isSome

end LogicalShardRecord

/-- The owner fence that every owner-only call presents. -/
structure LogicalShardLease where
  logicalShardId : LogicalShardId
  owner : NodeId
  ownerEpoch : OwnerEpoch
  leaseId : UInt64
  deriving DecidableEq

/-! ### Errors -/

inductive RecordError where
  | invalidRecord (reason : String)
  | recoveryPublicationConflict (logicalShardId : LogicalShardId) (reason : String)
  | recoveryUploadConflict (logicalShardId : LogicalShardId) (reason : String)
  deriving DecidableEq

def debugShard (shard : LogicalShardId) : String :=
  let items := ", ".intercalate (shard.bytes.map fun b => toString b.toNat)
  s!"LogicalShardId([{items}])"

def RecordError.display : RecordError → String
  | invalidRecord reason => s!"invalid control record: {reason}"
  | recoveryPublicationConflict shard reason =>
    s!"recovery publication for logical shard {debugShard shard} conflicts with durable state: {reason}"
  | recoveryUploadConflict shard reason =>
    s!"recovery upload for logical shard {debugShard shard} conflicts with durable state: {reason}"

inductive ControlError where
  | record (error : RecordError)
  | invalidEndpoint (endpoint : String)
  | rootPlacementAlreadyExists (rootId : RootId)
  | immutableShardAffinity (rootId : RootId) (existing requested : LogicalShardId)
  | rootPlacementCasConflict (expected : RootPlacement) (actual : Option RootPlacement)
  | invalidPlacementMutation (rootId : RootId) (reason : String)
  | logicalShardNotFound (shard : LogicalShardId)
  | logicalShardAlreadyExists (shard : LogicalShardId)
  | rootPlacementRequired (shard : LogicalShardId)
  | logicalShardAlreadyOwned (shard : LogicalShardId) (owner : NodeId) (ownerEpoch : OwnerEpoch)
  | previousOwnerSessionLive (shard : LogicalShardId) (ownerEpoch : OwnerEpoch)
  | recoveryAttemptPending (shard : LogicalShardId) (ownerEpoch : OwnerEpoch)
  | recoveryStateConflict (shard : LogicalShardId) (actual : LogicalShardState)
  | staleOwnerEpoch (shard : LogicalShardId) (expected actual : Option OwnerEpoch)
  | notOwner (shard : LogicalShardId)
  | staleLease (lease : LogicalShardLease)
  | ownerEpochExhausted (shard : LogicalShardId)
  | leaseIdExhausted (shard : LogicalShardId)
  deriving DecidableEq

end Control

end NoKV
