import NoKV.Store.Txn

/-!
# Keyspaces of the workspace schema

The executor-owned keyspaces and the metadata families that domain commands may mutate. A family
has a durable format tag of one byte; its physical keyspace carries the tag in its low byte and is
disjoint from the executor-owned ones (`MetadataFamily.keyspace_ne`).
-/

namespace NoKV.Meta

open Lib Store

/-- One schema-owned keyspace and its stable logical name. -/
structure KeyspaceDef where
  id : Keyspace
  name : String
  deriving DecidableEq

def SYSTEM : KeyspaceDef := ⟨⟨0x0101⟩, "system"⟩
def ROOT_FENCE : KeyspaceDef := ⟨⟨0x0102⟩, "root_fence"⟩
def COMMAND_DEDUPE : KeyspaceDef := ⟨⟨0x0103⟩, "command_dedupe"⟩
def CHANGE_EVENT : KeyspaceDef := ⟨⟨0x0104⟩, "change_event"⟩
def HISTORY : KeyspaceDef := ⟨⟨0x0105⟩, "history"⟩
def RECOVERY_OUTBOX : KeyspaceDef := ⟨⟨0x0106⟩, "recovery_outbox"⟩

/-- Durable metadata families that domain commands may mutate. -/
inductive MetadataFamily where
  | workspaceCurrent
  | pathCurrent
  | artifactRevision
  | artifactManifest
  | revisionRef
  | commit
  | commitMember
  | workbenchCommitHead
  | tag
  | snapshotRef
  | snapshotAlias
  | historyHold
  | commitConsumer
  | secondaryIndex
  | operation
  | restoreMember
  | stagedObject
  | gcCandidate
  | gcBarrier
  | workspaceIncarnationClaim
  | genericIndexCurrent
  | genericIndexGeneration
  | commitGenericIndexMember
  | artifactInlineBody
  deriving DecidableEq, Repr

namespace MetadataFamily

/-- Durable tag used by recovery and history encodings. -/
def formatTag : MetadataFamily → UInt8
  | workspaceCurrent => 0x02
  | pathCurrent => 0x03
  | artifactRevision => 0x04
  | artifactManifest => 0x05
  | revisionRef => 0x06
  | commit => 0x07
  | commitMember => 0x08
  | workbenchCommitHead => 0x09
  | tag => 0x0a
  | snapshotRef => 0x0b
  | snapshotAlias => 0x0c
  | historyHold => 0x0d
  | commitConsumer => 0x0e
  | secondaryIndex => 0x0f
  | operation => 0x11
  | restoreMember => 0x12
  | stagedObject => 0x13
  | gcCandidate => 0x15
  | gcBarrier => 0x16
  | workspaceIncarnationClaim => 0x17
  | genericIndexCurrent => 0x19
  | genericIndexGeneration => 0x1a
  | commitGenericIndexMember => 0x1b
  | artifactInlineBody => 0x1c

/-- Every family, in tag order. -/
def all : List MetadataFamily :=
  [workspaceCurrent, pathCurrent, artifactRevision, artifactManifest, revisionRef, commit,
    commitMember, workbenchCommitHead, tag, snapshotRef, snapshotAlias, historyHold,
    commitConsumer, secondaryIndex, operation, restoreMember, stagedObject, gcCandidate, gcBarrier,
    workspaceIncarnationClaim, genericIndexCurrent, genericIndexGeneration,
    commitGenericIndexMember, artifactInlineBody]

def fromFormatTag (value : UInt8) : Option MetadataFamily :=
  all.find? fun family => family.formatTag == value

/-- Keyspace used by transaction-store requests. -/
def keyspace (family : MetadataFamily) : Keyspace := ⟨0x0200 ||| family.formatTag.toUInt16⟩

def name : MetadataFamily → String
  | workspaceCurrent => "workspace_current"
  | pathCurrent => "path_current"
  | artifactRevision => "artifact_revision"
  | artifactManifest => "artifact_manifest"
  | revisionRef => "revision_ref"
  | commit => "commit"
  | commitMember => "commit_member"
  | workbenchCommitHead => "workbench_commit_head"
  | tag => "tag"
  | snapshotRef => "snapshot_ref"
  | snapshotAlias => "snapshot_alias"
  | historyHold => "history_hold"
  | commitConsumer => "commit_consumer"
  | secondaryIndex => "secondary_index"
  | operation => "operation"
  | restoreMember => "restore_member"
  | stagedObject => "staged_object"
  | gcCandidate => "gc_candidate"
  | gcBarrier => "gc_barrier"
  | workspaceIncarnationClaim => "workspace_incarnation_claim"
  | genericIndexCurrent => "generic_index_current"
  | genericIndexGeneration => "generic_index_generation"
  | commitGenericIndexMember => "commit_generic_index_member"
  | artifactInlineBody => "artifact_inline_body"

lemma formatTag_injective {f g : MetadataFamily} (h : f.formatTag = g.formatTag) : f = g := by
  cases f <;> cases g <;> first | rfl | exact absurd h (by decide)

@[simp] lemma fromFormatTag_formatTag (f : MetadataFamily) :
    fromFormatTag f.formatTag = some f := by
  cases f <;> rfl

lemma keyspace_injective {f g : MetadataFamily} (h : f.keyspace = g.keyspace) : f = g := by
  cases f <;> cases g <;> first | rfl | exact absurd h (by decide)

end MetadataFamily

def executorKeyspaces : List KeyspaceDef :=
  [SYSTEM, ROOT_FENCE, COMMAND_DEDUPE, CHANGE_EVENT, HISTORY, RECOVERY_OUTBOX]

/-- Exact logical keyspace catalog of the workspace schema. -/
def keyspaces : List KeyspaceDef :=
  executorKeyspaces ++ MetadataFamily.all.map fun family => ⟨family.keyspace, family.name⟩

/-- No family shares a keyspace with the executor. -/
lemma MetadataFamily.keyspace_ne (f : MetadataFamily) :
    ∀ d ∈ executorKeyspaces, f.keyspace ≠ d.id := by
  cases f <;> decide

end NoKV.Meta
