import Mathlib.Logic.Function.Basic
import NoKV.Lib.Io
import NoKV.Store.Txn

/-!
# The directory a checkpoint is installed in

What the file system and Holt keep of one target directory. Creating, unlinking and renaming a marker
changes the directory at once, but a change survives a crash for certain only after the directory was
synced: until then a crash keeps any part of the pending changes. The bytes of a file survive whole
once the file was synced, and up to any length before that.

* `Holt`: what is relied on of Holt itself;
* `Op`, `Disk.effect`, `Disk.step`: the operations and how they go, failures included;
* `Disk.Survives`: the directories a crash may leave; `Disk.crash`: one crash.
-/

namespace NoKV.Store.Target

open Lib

/-- The marker files of an installation. -/
inductive Marker where
  | installing
  | complete
  | adopted
  deriving DecidableEq

inductive HoltFile where
  | blobs
  | journal
  | manifestBin
  | manifestLog

/-- The paths the adapter inspects. -/
inductive Path where
  | parent
  | target
  | marker (m : Marker)
  | holt (file : HoltFile)

/-- What a path names. -/
inductive Kind where
  | directory
  | file (length : ℕ)
  | other
  deriving DecidableEq

inductive Entry where
  | marker (m : Marker)
  | holt
  | other
  deriving DecidableEq

inductive IoErrorKind where
  | alreadyExists
  | notFound
  | wouldBlock
  /-- Holt reports damage. -/
  | corrupt
  | other
  deriving DecidableEq

structure IoError where
  kind : IoErrorKind
  text : String

/-- A file, with the marker it was created as. -/
structure File where
  marker : Marker
  content : Bytes
  synced : Bool
  deriving DecidableEq

/-- The databases of Holt, as far as the adapter relies on them. What an image is installed as is left
open: the adapter compares the trees and the export with the image itself. -/
class Holt where
  Database : Type
  /-- Open what the directory has, or make a database there. -/
  openDb : Option Database → Database
  installDb : Database → Bytes → Database
  listTrees : Database → List Bytes
  openTree : Database → Bytes → Except IoError Unit
  exportDb : Database → Bytes
  /-- What the writes of an open store make of it. -/
  write : Database → Bytes → Database
  /-- A database that is there opens as it is. -/
  openDb_some : ∀ db, openDb (some db) = db
  /-- Every tree of the registry opens. -/
  openTree_of_mem : ∀ db, ∀ name ∈ listTrees db, openTree db name = .ok ()
  /-- Writes leave the registry alone. -/
  listTrees_write : ∀ db rows, listTrees (write db rows) = listTrees db

variable [Holt]

/-- The file each marker names. -/
abbrev Names := Marker → Option ℕ

inductive Change where
  | link (m : Marker) (file : ℕ)
  | unlink (m : Marker)
  | rename (old new : Marker)
  deriving DecidableEq

def Change.apply : Change → Names → Names
  | link m file, names => Function.update names m (some file)
  | unlink m, names => Function.update names m none
  | rename old new, names =>
    match names old with
    | some file => Function.update (Function.update names old none) new (some file)
    | none => names

/-- What has happened in the directory. -/
inductive Event where
  /-- The installation marker was created. -/
  | began
  | installed (image : Bytes)
  | exported (image : Bytes)
  deriving DecidableEq

structure Disk where
  /-- What the target path and its parent name. -/
  kind : Option Kind
  parent : Option Kind
  /-- The target directory itself survives a crash: its parent was synced since it was created. -/
  linked : Bool
  files : List File
  /-- The markers as they were when the directory was last synced, and the changes since then. -/
  durable : Names
  pending : List Change
  /-- There are entries of others in the directory. -/
  others : Bool
  database : Option Holt.Database
  /-- The database survives a crash as it is. -/
  settled : Bool
  log : List Event

/-! ### Operations -/

inductive Op where
  | metadata (path : Path)
  | readDir
  | createDir
  | syncParent
  | create (m : Marker)
  | write (m : Marker) (bytes : Bytes)
  | syncFile (m : Marker)
  | syncTarget
  | read (m : Marker)
  | remove (m : Marker)
  | rename (old new : Marker)
  | openDb
  | listTrees
  | openTree (name : Bytes)
  | installDb (image : Bytes)
  | checkpointDb
  | exportDb

@[reducible] def Op.Answer : Op → Type
  | metadata _ => Option Kind
  | readDir => List Entry
  | read _ => Bytes
  | listTrees => List Bytes
  | exportDb => Bytes
  | _ => Unit

/-- How an operation goes. An operation that reports an error may have taken effect, or a part of it:
the first bytes of a write, or some database of an installation that broke off. -/
inductive Fate where
  | done
  | failed (error : IoError) (took : Bool) (written : ℕ) (left : Option Holt.Database)

namespace Disk

/-- The trees of the database that is there. -/
def trees (d : Disk) : List Bytes := (d.database.map Holt.listTrees).getD []

/-- The markers as a running process sees them. -/
def names (d : Disk) : Names := d.pending.foldl (fun names change => change.apply names) d.durable

def kindOf (d : Disk) : Path → Option Kind
  | .parent => d.parent
  | .target => d.kind
  | .marker m => (d.names m).map fun file => .file ((d.files[file]?.map File.content).getD []).length
  | .holt _ => if d.database.isSome then some (.file 0) else none

def entries (d : Disk) : List Entry :=
  ([.installing, .complete, .adopted].filter fun m => (d.names m).isSome).map .marker ++
    (if d.database.isSome then [.holt] else []) ++ if d.others then [.other] else []

def notFound : IoError := ⟨.notFound, "No such file or directory (os error 2)"⟩

def fileExists : IoError := ⟨.alreadyExists, "File exists (os error 17)"⟩

def change (d : Disk) (change : Change) : Disk := { d with pending := d.pending ++ [change] }

def modify (d : Disk) (m : Marker) (f : File → File) : Disk :=
  match d.names m with
  | some file => { d with files := d.files.modify file f }
  | none => d

def append (bytes : Bytes) (file : File) : File :=
  { file with content := file.content ++ bytes, synced := false }

/-- An operation that goes as it should, with the errors the state of the directory calls for. -/
def effect (d : Disk) : (op : Op) → Except IoError op.Answer × Disk
  | .metadata path => (.ok (d.kindOf path), d)
  | .readDir => if d.kind = some .directory then (.ok d.entries, d) else (.error notFound, d)
  | .createDir =>
    if d.kind.isSome then (.error fileExists, d)
    else (.ok (), { d with kind := some .directory, linked := false })
  | .syncParent => (.ok (), { d with linked := true })
  | .create m =>
    if d.kind ≠ some .directory then (.error notFound, d)
    else if (d.names m).isSome then (.error fileExists, d)
    else
      (.ok (), { d with
        files := d.files ++ [⟨m, [], false⟩]
        pending := d.pending ++ [.link m d.files.length]
        log := if m = .installing then d.log ++ [.began] else d.log })
  | .write m bytes => (.ok (), d.modify m (append bytes))
  | .syncFile m => (.ok (), d.modify m fun file => { file with synced := true })
  | .syncTarget =>
    if d.kind = some .directory then
      (.ok (), { d with durable := d.names, pending := [] })
    else (.error notFound, d)
  | .read m => (
      match d.names m with
      | some file => .ok ((d.files[file]?.map File.content).getD [])
      | none => .error notFound,
      d)
  | .remove m => if (d.names m).isSome then (.ok (), d.change (.unlink m)) else (.error notFound, d)
  | .rename old new =>
    if (d.names old).isSome then (.ok (), d.change (.rename old new)) else (.error notFound, d)
  | .openDb =>
    (.ok (), { d with
      database := some (Holt.openDb d.database)
      settled := d.database.isSome && d.settled })
  | .listTrees => (.ok d.trees, d)
  | .openTree name => (
      match d.database with
      | some db => Holt.openTree db name
      | none => .error notFound,
      d)
  | .installDb image =>
    (.ok (), { d with
      database := d.database.map (Holt.installDb · image)
      settled := false
      log := d.log ++ [.installed image] })
  | .checkpointDb => (.ok (), { d with settled := true })
  | .exportDb =>
    let image := (d.database.map Holt.exportDb).getD []
    (.ok image, { d with log := d.log ++ [.exported image] })

/-- What an operation that broke off has done. -/
def interrupted (d : Disk) (written : ℕ) (left : Option Holt.Database) : Op → Disk
  | .write m bytes => d.modify m (append (bytes.take written))
  | .openDb =>
    match d.database with
    | some _ => d
    | none => { d with database := left, settled := false }
  | .installDb _ => { d with database := left, settled := false }
  | _ => d

def step (op : Op) (fate : Fate) (d : Disk) : Except IoError op.Answer × Disk :=
  match fate with
  | .done => d.effect op
  | .failed error took written left =>
    (.error error, if took then (d.effect op).2 else d.interrupted written left op)

/-! ### Crashes -/

/-- The markers that a crash may leave. -/
def Survives (d : Disk) (names : Names) : Prop :=
  ∃ kept : List Change, kept.Sublist d.pending ∧
    names = kept.foldl (fun names change => change.apply names) d.durable

/-- How a crash goes: which pending changes it keeps, how much of each file that was not synced, what
database it leaves of one that was being written, and whether it takes a directory whose own entry was
not synced. -/
structure Crash where
  kept : List Bool
  lengths : List ℕ
  left : Option Holt.Database
  lost : Bool

def keep : List Change → List Bool → List Change
  | change :: changes, true :: kept => change :: keep changes kept
  | _ :: changes, false :: kept => keep changes kept
  | _, _ => []

def File.torn (file : File) (length : ℕ) : File :=
  if file.synced then file else { file with content := file.content.take length, synced := true }

def crash (d : Disk) (c : Crash) : Disk :=
  if !d.linked && c.lost then
    { d with
      kind := none
      linked := true
      durable := fun _ => none
      pending := []
      others := false
      database := none }
  else
    { d with
      linked := true
      files := d.files.mapIdx fun i file => File.torn file (c.lengths.getD i 0)
      durable := (keep d.pending c.kept).foldl (fun names change => change.apply names) d.durable
      pending := []
      database := if d.settled then d.database else d.database.bind fun _ => c.left
      settled := true }

end Disk

end NoKV.Store.Target
