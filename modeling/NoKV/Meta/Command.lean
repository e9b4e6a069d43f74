import NoKV.Meta.Keyspace
import NoKV.Types

/-!
# Metadata commands

One bounded, root-scoped durable metadata transaction, its canonical digest and the errors of the
metadata shard. The digest covers every field of the command except itself.
-/

namespace NoKV.Meta

open Lib Store

/-- Schema every command names. -/
def SCHEMA_ID : String := "nokv_workspace"

/-- What a command does to the placement fence of its root. -/
inductive RootFenceAction where
  | install
  | bindObjectNamespace (expected : RootActivationState)
  | requireActive
  | transition (expected next : RootActivationState)
  deriving DecidableEq

/-- A condition on the current rows of the root. -/
inductive CommandPredicate where
  | value (family : MetadataFamily) (key : Bytes) (expected : Option Bytes)
  | prefixEmpty (family : MetadataFamily) (keyPrefix : Bytes)
  deriving DecidableEq

/-- A change of one current row of the root. -/
inductive CommandMutation where
  | put (family : MetadataFamily) (key value : Bytes)
  | delete (family : MetadataFamily) (key : Bytes)
  deriving DecidableEq

namespace CommandMutation

def family : CommandMutation → MetadataFamily
  | put family _ _ => family
  | delete family _ => family

def key : CommandMutation → Bytes
  | put _ key _ => key
  | delete _ key => key

def payload : CommandMutation → Option Bytes
  | put _ _ value => some value
  | delete _ _ => none

def isDelete : CommandMutation → Bool
  | put _ _ _ => false
  | delete _ _ => true

end CommandMutation

/-- A row whose previous value the command keeps in History. -/
structure HistoryProjection where
  family : MetadataFamily
  key : Bytes
  deriving DecidableEq

/-- The payload of one change event. -/
structure EventProjection where
  payload : Bytes
  deriving DecidableEq

/-- One bounded, root-scoped durable metadata transaction. -/
structure MetadataCommand where
  schemaId : String
  rootId : RootId
  logicalShardId : LogicalShardId
  objectNamespaceId : Option ObjectNamespaceId
  placementGeneration : PlacementGeneration
  ownerEpoch : OwnerEpoch
  requestId : RequestId
  initiator : Option PrincipalId
  commandDigest : CommandDigest
  readVersion : ReadVersion
  rootFenceAction : RootFenceAction
  predicates : List CommandPredicate
  mutations : List CommandMutation
  historyProjection : List HistoryProjection
  eventProjection : List EventProjection
  deterministicResult : Bytes
  deriving DecidableEq

/-! ### The canonical digest -/

/-- A length-prefixed field of a digest input. -/
def hashBytes (value : Bytes) : Bytes := be 8 value.length ++ value

def hashU64 (value : ℕ) : Bytes := be 8 value

def RootFenceAction.hashInput : RootFenceAction → Bytes
  | install => [1]
  | bindObjectNamespace expected => [4, expected.toU8]
  | requireActive => [2]
  | transition expected next => [3, expected.toU8, next.toU8]

def CommandPredicate.hashInput : CommandPredicate → Bytes
  | value family key expected =>
    [1, family.formatTag] ++ hashBytes key ++
      match expected with
      | some bytes => [1] ++ hashBytes bytes
      | none => [0]
  | prefixEmpty family keyPrefix => [2, family.formatTag] ++ hashBytes keyPrefix

def CommandMutation.hashInput : CommandMutation → Bytes
  | put family key value => [1, family.formatTag] ++ hashBytes key ++ hashBytes value
  | delete family key => [2, family.formatTag] ++ hashBytes key

namespace MetadataCommand

/-- The canonical bytes the digest of a command is taken over. -/
def canonicalInput (command : MetadataCommand) : Bytes := List.flatten [
  utf8 "nokv.metadata.command.v2\x00",
  hashBytes (utf8 command.schemaId),
  command.rootId.bytes,
  command.logicalShardId.bytes,
  match command.objectNamespaceId with
    | some objectNamespaceId => objectNamespaceId.bytes
    | none => [],
  be 8 command.placementGeneration.get,
  be 8 command.ownerEpoch.get,
  command.requestId.bytes,
  match command.initiator with
    | none => [0]
    | some initiator => [1] ++ initiator.bytes,
  be 8 command.readVersion.get,
  command.rootFenceAction.hashInput,
  hashU64 command.predicates.length,
  command.predicates.flatMap CommandPredicate.hashInput,
  hashU64 command.mutations.length,
  command.mutations.flatMap CommandMutation.hashInput,
  hashU64 command.historyProjection.length,
  command.historyProjection.flatMap fun projection =>
    [projection.family.formatTag] ++ hashBytes projection.key,
  hashU64 command.eventProjection.length,
  command.eventProjection.flatMap fun projection => hashBytes projection.payload,
  hashBytes command.deterministicResult]

def canonicalDigest [Sha256] (command : MetadataCommand) : CommandDigest := sha256 command.canonicalInput

def sealCommand [Sha256] (command : MetadataCommand) : MetadataCommand :=
  { command with commandDigest := command.canonicalDigest }

end MetadataCommand

/-! ### Results and errors -/

structure MetadataCommandResult where
  commitVersion : CommitVersion
  deterministicResult : Bytes
  recoveryLsn : UInt64
  recoveryChainDigest : Digest
  replayed : Bool
  deriving DecidableEq

inductive MetaError where
  | store (operation : String) (source : StoreError)
  | internal (operation message : String)
  | schemaGate (reason : String)
  | corruptRecord (record reason : String)
  | invalidCommand (reason : String)
  | commandDigestMismatch
  | requestIdReused
  | ownerEpochMismatch (expected actual : ℕ)
  | ownerEpochNotMonotonic (current next : ℕ)
  | placementMismatch
  | rootFenceAlreadyInstalled
  | rootFenceMissing
  | rootFenceStateMismatch (expected actual : RootActivationState)
  | invalidRootFenceTransition (origin target : RootActivationState)
  | readVersionInFuture (requested current : ℕ)
  | readStabilityExhausted (attempts : ℕ)
  | writeReadVersionMismatch (requested current : ℕ)
  | leaseDeadlineReached (leaseClockMs requestedDeadlineMs : ℕ)
  | predicateFailed
  | writeConflict
  | versionOverflow
  deriving DecidableEq

def invalid (reason : String) : MetaError := .invalidCommand reason
def corrupt (record reason : String) : MetaError := .corruptRecord record reason

end NoKV.Meta
