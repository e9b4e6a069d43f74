import Mathlib.Algebra.GroupWithZero.Nat
import Mathlib.Data.Finset.Lattice.Fold
import Mathlib.Data.List.Induction
import Mathlib.Data.Nat.Log
import Mathlib.Order.Lattice.Nat
import NoKV.Lib.Except
import NoKV.Lib.Fair

/-!
# Which rows an append borrows

The planner of an append (`appendLayout`), the checks with which the server takes a revision, and the
appends of one path. Of a row only its owner and its length matter here, of an artifact its length. A
length is a number: no sum exceeds the size of the body, which the caller has found to fit.

* `layout_bounded`: whatever revisions the server has taken, the revision an append plans is within the
  bounds on owners and depth;
* `Built`: in a body built by appends the owner of the i-th run has depth i;
* `Aged`: a run that is joined by no fewer bytes than it has at least doubles, so a byte of a body of `n`
  bytes moves at most `log₂ n` times. A run that is joined to keep the depth in its bounds need not.
-/

namespace NoKV.Client

open Lib List

variable {Id : Type} [DecidableEq Id]

/-! ### The planner -/

def MAX_ARTIFACT_DEPENDENCY_OWNERS : ℕ := 64
def MAX_ARTIFACT_DEPENDENCY_DEPTH : ℕ := 8
def MAX_INLINE_ARTIFACT_BODY_BYTES : ℕ := 16 * 1024

inductive ClientError where
  | invalidOptions (reason : String)
  | artifactIntegrity (reason : String)

/-- A manifest row: the revision that owns its object, and the length of the object. -/
structure ArtifactManifestRow (Id : Type) where
  owner : Id
  length : ℕ

def bodySize (rows : List (ArtifactManifestRow Id)) : ℕ := (rows.map ArtifactManifestRow.length).sum

structure PathMetadata (Id : Type) where
  artifactRevisionId : Id
  dependencyCount : ℕ
  dependencyDepth : ℕ

structure AppendDependencyPlan (Id : Type) where
  owners : Finset Id
  requiresRematerialization : Bool

structure AppendLayout (Id : Type) where
  reownFromRow : ℕ
  owners : Finset Id

/-- Consecutive rows of one owner. -/
structure OwnerRun (Id : Type) where
  owner : Id
  firstRow : ℕ
  bytes : ℕ

def manifestDependencyOwners (excluded : Id) (rows : List (ArtifactManifestRow Id)) : Finset Id :=
  ((rows.map ArtifactManifestRow.owner).filter (· ≠ excluded)).toFinset

def appendDependencyPlan (metadata : PathMetadata Id) (revision : Id) (rows : List (ArtifactManifestRow Id)) :
    Except ClientError (AppendDependencyPlan Id) := do
  refuseIf (revision = metadata.artifactRevisionId)
    (ClientError.invalidOptions "append revision identity must differ from the current revision")
  let observed := (manifestDependencyOwners metadata.artifactRevisionId rows).card
  let declared := metadata.dependencyCount
  refuseIf (2 ^ 32 ≤ observed) (ClientError.artifactIntegrity "base manifest dependency count exceeds u32")
  refuseIf (observed ≠ declared) (ClientError.artifactIntegrity
    s!"base manifest has {observed} dependency owners but revision metadata declares {declared}")
  let owners := manifestDependencyOwners revision rows
  let baseOwnsObjects := rows.any fun row => row.owner = metadata.artifactRevisionId
  refuseIf (owners ≠ ∅ ∧ baseOwnsObjects = true ∧ metadata.dependencyDepth = 255)
    (ClientError.artifactIntegrity "append dependency depth overflows u8")
  let dependencyDepth :=
    if owners = ∅ then 0
    else if baseOwnsObjects then metadata.dependencyDepth + 1
    else metadata.dependencyDepth
  pure ⟨owners, MAX_ARTIFACT_DEPENDENCY_OWNERS < owners.card ∨ MAX_ARTIFACT_DEPENDENCY_DEPTH < dependencyDepth⟩

/-- A row joins the newest run or begins one. The newest run comes first. -/
def pushRow (runs : List (OwnerRun Id)) (row : ArtifactManifestRow Id × ℕ) : List (OwnerRun Id) :=
  match runs with
  | run :: older =>
    if run.owner = row.1.owner then { run with bytes := run.bytes + row.1.length } :: older
    else ⟨row.1.owner, row.2, row.1.length⟩ :: runs
  | [] => [⟨row.1.owner, row.2, row.1.length⟩]

def ownerRuns (rows : List (ArtifactManifestRow Id)) : List (OwnerRun Id) :=
  rows.zipIdx.foldl pushRow []

/-- The runs that are kept when the newest ones merge into the pending bytes. -/
def keepRuns (pending : ℕ) : List (OwnerRun Id) → List (OwnerRun Id)
  | [] => []
  | run :: older =>
    if run.bytes ≤ pending ∨ MAX_ARTIFACT_DEPENDENCY_DEPTH < older.length + 1 then
      keepRuns (pending + run.bytes) older
    else run :: older

/-- The row behind the first `borrowedRuns` runs. -/
def reownFrom (rows : List (ArtifactManifestRow Id)) (borrowedRuns : ℕ) : ℕ :=
  ((ownerRuns rows).reverse[borrowedRuns]?).elim rows.length OwnerRun.firstRow

def appendChain (metadata : PathMetadata Id) (runs : List (OwnerRun Id)) : Bool :=
  let distinctOwners := (runs.map OwnerRun.owner).toFinset.card = runs.length
  let baseOwnsLastRun := runs.head?.any fun run => run.owner = metadata.artifactRevisionId
  let inferredDepth := runs.length - baseOwnsLastRun.toNat
  distinctOwners ∧ inferredDepth = metadata.dependencyDepth

def appendLayout (metadata : PathMetadata Id) (revision : Id) (rows : List (ArtifactManifestRow Id))
    (deltaLen : ℕ) : Except ClientError (AppendLayout Id) := do
  let dependencyPlan ← appendDependencyPlan metadata revision rows
  let runs := ownerRuns rows
  let borrowed :=
    if appendChain metadata runs then keepRuns deltaLen runs
    else if dependencyPlan.requiresRematerialization then []
    else runs
  let reownFromRow := reownFrom rows borrowed.length
  pure ⟨reownFromRow, manifestDependencyOwners revision (rows.take reownFromRow)⟩

/-! ### The server -/

/-- An artifact is its bytes, or rows of objects. -/
inductive Body (Id : Type) where
  | inline (bytes : ℕ)
  | objects (rows : List (ArtifactManifestRow Id))

def Body.rows : Body Id → List (ArtifactManifestRow Id)
  | .inline _ => []
  | .objects rows => rows

structure Revision (Id : Type) where
  dependencies : Finset Id
  dependencyDepth : ℕ
  body : Body Id

abbrev Revisions (Id : Type) : Type := Id → Option (Revision Id)

def Revisions.depth (revisions : Revisions Id) (owner : Id) : ℕ :=
  (revisions owner).elim 0 Revision.dependencyDepth

/-- One more than the largest depth of the owners. -/
def derivedDependencyDepth (revisions : Revisions Id) (owners : Finset Id) : ℕ :=
  if owners = ∅ then 0 else owners.sup revisions.depth + 1

/-- The owners of staged rows: no row of another owner follows one of the revision itself. -/
def stagedOwners (revision : Id) (dependencies : Finset Id) : Bool → List (ArtifactManifestRow Id) → Bool
  | _, [] => true
  | previousTargetOwned, row :: rows =>
    let targetOwned := decide (row.owner = revision)
    (targetOwned || decide (row.owner ∈ dependencies)) && (targetOwned || !previousTargetOwned) &&
      stagedOwners revision dependencies targetOwned rows

/-- What the server checks of a revision before it takes it. -/
def Admissible (revisions : Revisions Id) (id : Id) (revision : Revision Id) : Prop :=
  id ∉ revision.dependencies ∧ (∀ owner ∈ revision.dependencies, (revisions owner).isSome = true) ∧
    revision.dependencies.card ≤ MAX_ARTIFACT_DEPENDENCY_OWNERS ∧
    revision.dependencyDepth ≤ MAX_ARTIFACT_DEPENDENCY_DEPTH ∧
    revision.dependencyDepth = derivedDependencyDepth revisions revision.dependencies ∧
    stagedOwners id revision.dependencies false revision.body.rows = true

instance decidableAdmissible (revisions : Revisions Id) (id : Id) (revision : Revision Id) :
    Decidable (Admissible revisions id revision) :=
  inferInstanceAs (Decidable (_ ∧ _))

def publish (revisions : Revisions Id) (publication : Id × Revision Id) : Option (Revisions Id) :=
  if (revisions publication.1).isNone ∧ Admissible revisions publication.1 publication.2 then
    some (Function.update revisions publication.1 (some publication.2))
  else none

/-! ### Appends to a path -/

/-- A path: what it shows, and how often each byte of it was uploaded again. -/
structure Path (Id : Type) where
  revisions : Revisions Id
  head : Option Id
  rewrites : List ℕ

def Path.empty : Path Id := ⟨fun _ => none, none, []⟩

structure Append (Id : Type) where
  revision : Id
  blockSize : ℕ
  delta : ℕ

/-- The rows of an upload plan: full blocks, and what is left. -/
def planRows (revision : Id) (blockSize size : ℕ) : List (ArtifactManifestRow Id) :=
  (List.replicate (size / blockSize) blockSize ++
    if size % blockSize = 0 then [] else [size % blockSize]).map (⟨revision, ·⟩)

def publishesInline (size blockSize : ℕ) : Bool :=
  size ≠ 0 ∧ size ≤ min MAX_INLINE_ARTIFACT_BODY_BYTES blockSize

/-- A body that borrows nothing. -/
def Append.whole (a : Append Id) (size : ℕ) : Finset Id × Body Id × List ℕ :=
  (∅, if publishesInline size a.blockSize then .inline size else .objects (planRows a.revision a.blockSize size),
    List.replicate size 0)

/-- What an append publishes: the owners it borrows from, the body, and the uploads of its bytes. -/
def Path.plan (path : Path Id) (a : Append Id) : Option (Finset Id × Body Id × List ℕ) :=
  match path.head with
  | none => some (a.whole a.delta)
  | some base => do
    let revision ← path.revisions base
    match revision.body with
    | .inline bytes => some (a.whole (bytes + a.delta))
    | .objects rows =>
      let metadata := ⟨base, revision.dependencies.card, revision.dependencyDepth⟩
      let layout ← (appendLayout metadata a.revision rows a.delta).toOption
      let borrowed := rows.take layout.reownFromRow
      let reowned := bodySize (rows.drop layout.reownFromRow)
      some (layout.owners, .objects (borrowed ++ planRows a.revision a.blockSize (reowned + a.delta)),
        path.rewrites.take (bodySize borrowed) ++ (path.rewrites.drop (bodySize borrowed)).map (· + 1) ++
          List.replicate a.delta 0)

def Path.append (path : Path Id) (a : Append Id) : Option (Path Id) := do
  guard (a.blockSize ≠ 0)
  let (owners, body, rewrites) ← path.plan a
  let revisions ← publish path.revisions
    (a.revision, ⟨owners, derivedDependencyDepth path.revisions owners, body⟩)
  some ⟨revisions, some a.revision, rewrites⟩

/-! ### Owners of rows -/

section Rows

variable {revisions : Revisions Id} {id owner : Id} {dependencies : Finset Id} {previous : Bool}
  {rows : List (ArtifactManifestRow Id)} {row : ArtifactManifestRow Id} {n : ℕ}

lemma mem_manifestDependencyOwners {excluded : Id} : owner ∈ manifestDependencyOwners excluded rows ↔
    owner ≠ excluded ∧ owner ∈ rows.map ArtifactManifestRow.owner := by
  simp [manifestDependencyOwners, and_comm]

lemma derivedDependencyDepth_le : derivedDependencyDepth revisions dependencies ≤ n ↔
    ∀ owner ∈ dependencies, revisions.depth owner + 1 ≤ n := by
  unfold derivedDependencyDepth
  split
  next h => simp [h]
  next h =>
    obtain ⟨owner, howner⟩ := Finset.nonempty_iff_ne_empty.2 h
    constructor
    · intro hle other hother
      have := Finset.le_sup (f := revisions.depth) hother
      omega
    · intro hall
      have : 0 < n := by have := hall owner howner; omega
      exact (Finset.sup_lt_iff this).2 hall

lemma stagedOwners_mem (h : stagedOwners id dependencies previous rows = true) (hrow : row ∈ rows) :
    row.owner = id ∨ row.owner ∈ dependencies := by
  induction rows generalizing previous with
  | nil => simp at hrow
  | cons _ _ ih =>
    simp only [stagedOwners, Bool.and_eq_true, Bool.or_eq_true, decide_eq_true_eq] at h
    rcases mem_cons.1 hrow with rfl | hrow
    · exact h.1.1
    · exact ih h.2 hrow

/-- A revision that owns a row owns the last one. -/
lemma stagedOwners_last (h : stagedOwners id dependencies previous rows = true)
    (hown : (∃ row ∈ rows, row.owner = id) ∨ (previous = true ∧ rows ≠ [])) :
    ∃ last, rows.getLast? = some last ∧ last.owner = id := by
  induction rows generalizing previous with
  | nil => simp at hown
  | cons first rows ih =>
    simp only [stagedOwners, Bool.and_eq_true, Bool.or_eq_true, decide_eq_true_eq] at h
    by_cases hrest : rows = []
    · subst hrest
      rcases hown with ⟨row, hrow, hid⟩ | ⟨rfl, _⟩
      · simp_all
      · simpa using h.1.2
    · obtain ⟨last, hlast, hid⟩ := ih h.2 <| by
        by_cases hfirst : first.owner = id
        · exact Or.inr ⟨by simpa using hfirst, hrest⟩
        · rcases hown with ⟨row, hrow, hid⟩ | ⟨rfl, _⟩
          · rcases mem_cons.1 hrow with rfl | hrow
            · exact absurd hid hfirst
            · exact Or.inl ⟨row, hrow, hid⟩
          · simp_all
      exact ⟨last, by rw [getLast?_cons, hlast]; rfl, hid⟩

end Rows

/-! ### Runs -/

section Runs

variable {rows : List (ArtifactManifestRow Id)} {row : ArtifactManifestRow Id} {runs kept : List (OwnerRun Id)}

lemma ownerRuns_concat (rows : List (ArtifactManifestRow Id)) (row : ArtifactManifestRow Id) :
    ownerRuns (rows ++ [row]) = pushRow (ownerRuns rows) (row, rows.length) := by
  simp [ownerRuns, zipIdx_append]

lemma pushRow_cases (runs : List (OwnerRun Id)) (row : ArtifactManifestRow Id) (n : ℕ) :
    (∃ run older, runs = run :: older ∧ run.owner = row.owner ∧
      pushRow runs (row, n) = { run with bytes := run.bytes + row.length } :: older) ∨
    ((∀ run older, runs = run :: older → run.owner ≠ row.owner) ∧
      pushRow runs (row, n) = ⟨row.owner, n, row.length⟩ :: runs) := by
  cases runs with
  | nil => exact Or.inr ⟨by simp, rfl⟩
  | cons run older =>
    by_cases h : run.owner = row.owner
    · exact Or.inl ⟨run, older, rfl, h, by simp [pushRow, h]⟩
    · refine Or.inr ⟨?_, by simp [pushRow, h]⟩
      rintro _ _ ⟨⟩
      exact h

lemma mem_owners_ownerRuns {owner : Id} :
    owner ∈ (ownerRuns rows).map OwnerRun.owner ↔ owner ∈ rows.map ArtifactManifestRow.owner := by
  induction rows using reverseRecOn with
  | nil => simp [ownerRuns]
  | append_singleton rows row ih =>
    rw [ownerRuns_concat]
    rcases pushRow_cases (ownerRuns rows) row rows.length with ⟨_, _, heq, hrun, h⟩ | ⟨_, h⟩
    · rw [heq] at ih
      simp only [h, map_cons, mem_cons, map_append, mem_append, ← ih, hrun]
      simp [or_comm]
    · rw [h]
      simp only [map_cons, mem_cons, map_append, mem_append, ← ih]
      simp [or_comm]

lemma ownerRuns_head (rows : List (ArtifactManifestRow Id)) :
    (ownerRuns rows).head?.map OwnerRun.owner = rows.getLast?.map ArtifactManifestRow.owner := by
  induction rows using reverseRecOn with
  | nil => rfl
  | append_singleton rows row _ =>
    rw [ownerRuns_concat]
    rcases pushRow_cases (ownerRuns rows) row rows.length with ⟨run, older, _, hrun, h⟩ | ⟨_, h⟩ <;> simp [h]
    exact hrun

lemma bytes_ownerRuns (rows : List (ArtifactManifestRow Id)) :
    ((ownerRuns rows).map OwnerRun.bytes).sum = bodySize rows := by
  induction rows using reverseRecOn with
  | nil => rfl
  | append_singleton rows row =>
    rw [ownerRuns_concat]
    rcases pushRow_cases (ownerRuns rows) row rows.length with ⟨_, _, _, _, h⟩ | ⟨_, h⟩ <;>
      simp_all [bodySize] <;> omega

/-- Before the first row of a run stand the rows of the older runs. -/
lemma ownerRuns_split {newer : List (OwnerRun Id)} {run : OwnerRun Id}
    (h : ownerRuns rows = newer ++ run :: kept) :
    run.firstRow ≤ rows.length ∧ ownerRuns (rows.take run.firstRow) = kept := by
  induction rows using reverseRecOn generalizing newer run with
  | nil => simp [ownerRuns] at h
  | append_singleton rows row ih =>
    -- the runs before the last row say it, unless the last row begins the run
    have hold : (∃ newer' run', ownerRuns rows = newer' ++ run' :: kept ∧ run'.firstRow = run.firstRow) ∨
        run.firstRow = rows.length ∧ ownerRuns rows = kept := by
      rw [ownerRuns_concat] at h
      rcases pushRow_cases (ownerRuns rows) row rows.length with ⟨first, _, heq, _, hpush⟩ | ⟨_, hpush⟩ <;>
        rw [hpush] at h <;> cases newer <;> simp only [nil_append, cons_append, List.cons.injEq] at h
      · exact Or.inl ⟨[], first, by rw [heq, h.2]; rfl, by rw [← h.1]⟩
      · exact Or.inl ⟨first :: _, run, by rw [heq, h.2]; rfl, rfl⟩
      · exact Or.inr ⟨by rw [← h.1], h.2⟩
      · exact Or.inl ⟨_, run, h.2, rfl⟩
    rcases hold with ⟨_, _, heq, hfirst⟩ | ⟨hfirst, heq⟩
    · obtain ⟨hle, htake⟩ := ih heq
      rw [hfirst] at hle htake
      refine ⟨hle.trans (by simp), ?_⟩
      rw [take_append_of_le_length hle, htake]
    · rw [hfirst]
      exact ⟨by simp, by rw [take_left, heq]⟩

/-- Cutting off the newest runs leaves the rows of the others. -/
lemma ownerRuns_take (h : kept <:+ ownerRuns rows) :
    ownerRuns (rows.take (reownFrom rows kept.length)) = kept := by
  obtain ⟨newer, h⟩ := h
  unfold reownFrom
  rw [← h]
  rcases eq_nil_or_concat newer with rfl | ⟨newer, run, rfl⟩
  · simpa using h.symm
  · have hsplit : ownerRuns rows = newer ++ run :: kept := by simp [← h]
    simpa using (ownerRuns_split hsplit).2

omit [DecidableEq Id] in
lemma keepRuns_suffix (pending : ℕ) (runs : List (OwnerRun Id)) : keepRuns pending runs <:+ runs := by
  induction runs generalizing pending with
  | nil => exact suffix_refl _
  | cons _ _ ih =>
    unfold keepRuns
    split
    · exact (ih _).trans (suffix_cons ..)
    · exact suffix_refl _

omit [DecidableEq Id] in
lemma keepRuns_length (pending : ℕ) (runs : List (OwnerRun Id)) :
    (keepRuns pending runs).length ≤ MAX_ARTIFACT_DEPENDENCY_DEPTH := by
  induction runs generalizing pending with
  | nil => exact Nat.zero_le _
  | cons _ _ ih =>
    unfold keepRuns
    split
    · exact ih _
    · simp only [length_cons]
      omega

end Runs

/-! ### Bounds -/

section Bounds

variable {revisions revisions' : Revisions Id} {id : Id} {revision : Revision Id}
  {rows : List (ArtifactManifestRow Id)} {metadata : PathMetadata Id} {next : Id} {kept : List (OwnerRun Id)} {delta : ℕ} {layout : AppendLayout Id}

/-- The server has checked every revision it has. -/
def Sound (revisions : Revisions Id) : Prop :=
  ∀ id revision, revisions id = some revision → Admissible revisions id revision

lemma publish_eq_some (h : publish revisions (id, revision) = some revisions') :
    revisions id = none ∧ Admissible revisions id revision ∧
      revisions' = Function.update revisions id (some revision) := by
  unfold publish at h
  split at h
  next hok => exact ⟨by simpa using hok.1, hok.2, (Option.some.inj h).symm⟩
  next => cases h

lemma Admissible.update {other : Id} {added : Revision Id} (h : Admissible revisions id revision)
    (hfresh : revisions other = none) :
    Admissible (Function.update revisions other (some added)) id revision := by
  obtain ⟨hother, hknown, hcount, hdepth, hderived, hrows⟩ := h
  have hsame : ∀ owner ∈ revision.dependencies, Function.update revisions other (some added) owner =
      revisions owner := by
    intro owner howner
    refine Function.update_of_ne ?_ _ _
    rintro rfl
    simpa [hfresh] using hknown owner howner
  refine ⟨hother, fun owner howner => ?_, hcount, hdepth, ?_, hrows⟩
  · rw [hsame owner howner]
    exact hknown owner howner
  · rw [hderived]
    unfold derivedDependencyDepth
    rw [Finset.sup_congr rfl fun owner howner => ?_]
    unfold Revisions.depth
    rw [hsame owner howner]

lemma Sound.publish (h : Sound revisions) (hpublish : publish revisions (id, revision) = some revisions') :
    Sound revisions' := by
  obtain ⟨hfresh, hok, rfl⟩ := publish_eq_some hpublish
  intro other found hfound
  by_cases hother : other = id
  · subst hother
    obtain rfl : revision = found := by simpa using hfound
    exact hok.update hfresh
  · rw [Function.update_of_ne hother] at hfound
    exact (h other found hfound).update hfresh

/-- What an append keeps: the runs the counter leaves, nothing, or everything that is in the bounds. -/
inductive Keeps (metadata : PathMetadata Id) (next : Id) (rows : List (ArtifactManifestRow Id)) (delta : ℕ) :
    List (OwnerRun Id) → Prop where
  | chain (h : appendChain metadata (ownerRuns rows) = true) :
    Keeps metadata next rows delta (keepRuns delta (ownerRuns rows))
  | nothing (h : appendChain metadata (ownerRuns rows) = false) : Keeps metadata next rows delta []
  | everything (h : appendChain metadata (ownerRuns rows) = false)
      (hcount : (manifestDependencyOwners next rows).card ≤ MAX_ARTIFACT_DEPENDENCY_OWNERS)
      (hdepth : metadata.artifactRevisionId ∈ manifestDependencyOwners next rows →
        metadata.dependencyDepth + 1 ≤ MAX_ARTIFACT_DEPENDENCY_DEPTH) :
    Keeps metadata next rows delta (ownerRuns rows)

lemma Keeps.suffix (h : Keeps metadata next rows delta kept) : kept <:+ ownerRuns rows := by
  cases h
  · exact keepRuns_suffix _ _
  · exact nil_suffix
  · exact suffix_refl _

lemma appendDependencyPlan_spec {plan : AppendDependencyPlan Id}
    (h : appendDependencyPlan metadata next rows = .ok plan) (hborrow : plan.requiresRematerialization = false) :
    (manifestDependencyOwners next rows).card ≤ MAX_ARTIFACT_DEPENDENCY_OWNERS ∧
      (metadata.artifactRevisionId ∈ manifestDependencyOwners next rows →
        metadata.dependencyDepth + 1 ≤ MAX_ARTIFACT_DEPENDENCY_DEPTH) := by
  unfold appendDependencyPlan at h
  simp only [bind_eq_ok, pure_eq_ok] at h
  obtain ⟨_, -, _, -, _, -, _, -, rfl⟩ := h
  simp only [decide_eq_false_iff_not, not_or, not_lt] at hborrow
  refine ⟨hborrow.1, fun hmem => ?_⟩
  obtain ⟨row, hrow, hid⟩ := mem_map.1 (mem_manifestDependencyOwners.1 hmem).2
  have hown : (rows.any fun row => row.owner = metadata.artifactRevisionId) = true :=
    any_eq_true.2 ⟨row, hrow, by simpa using hid⟩
  simpa [Finset.ne_empty_of_mem hmem, hown] using hborrow.2

lemma appendLayout_spec (h : appendLayout metadata next rows delta = .ok layout) :
    ∃ kept, Keeps metadata next rows delta kept ∧ layout.reownFromRow = reownFrom rows kept.length ∧
      layout.owners = manifestDependencyOwners next (rows.take layout.reownFromRow) := by
  obtain ⟨_, hplan, rfl⟩ := bind_pure_eq_ok h
  refine ⟨_, ?_, rfl, rfl⟩
  split
  next hchain => exact .chain hchain
  next hchain =>
    simp only [Bool.not_eq_true] at hchain
    split
    · exact .nothing hchain
    next hborrow =>
      obtain ⟨hcount, hdepth⟩ := appendDependencyPlan_spec hplan (by simpa using hborrow)
      exact .everything hchain hcount hdepth

/-- The base of a chain owns the newest run only, so that borrowing from it means borrowing all runs. -/
lemma appendChain_base {older : List (OwnerRun Id)} {run : OwnerRun Id}
    (h : appendChain metadata (run :: older) = true) (hrun : run.owner = metadata.artifactRevisionId)
    (hkept : kept <:+ run :: older) (hmem : metadata.artifactRevisionId ∈ kept.map OwnerRun.owner) :
    metadata.dependencyDepth + 1 = kept.length := by
  simp only [appendChain, head?_cons, Option.any_some, hrun, decide_true, Bool.toNat_true,
    length_cons, decide_eq_true_eq, Nat.add_sub_cancel] at h
  rcases suffix_cons_iff.1 hkept with rfl | hold
  · simp [← h.2]
  · have hnodup : ((run :: older).map OwnerRun.owner).Nodup :=
      Multiset.coe_nodup.1 (Multiset.toFinset_card_eq_card_iff_nodup.1 (h.1.trans (by simp)))
    rw [map_cons, nodup_cons, hrun] at hnodup
    exact absurd ((hold.map OwnerRun.owner).subset hmem) hnodup.1

/-- The revision an append plans is within the bounds, whatever its base is. -/
lemma layout_bounded (hsound : Sound revisions) (hbase : revisions id = some revision)
    (h : appendLayout ⟨id, revision.dependencies.card, revision.dependencyDepth⟩ next revision.body.rows delta =
      .ok layout) : derivedDependencyDepth revisions layout.owners ≤ MAX_ARTIFACT_DEPENDENCY_DEPTH ∧
      layout.owners.card ≤ MAX_ARTIFACT_DEPENDENCY_OWNERS := by
  obtain ⟨-, -, -, hdepth, hderived, hrows⟩ := hsound id revision hbase
  obtain ⟨kept, hkeeps, hfrom, howners⟩ := appendLayout_spec h
  have hmem : ∀ {owner}, owner ∈ layout.owners ↔ owner ≠ next ∧ owner ∈ kept.map OwnerRun.owner := by
    intro owner
    rw [howners, hfrom, mem_manifestDependencyOwners, ← mem_owners_ownerRuns, ownerRuns_take hkeeps.suffix]
  have hrow : ∀ {owner}, owner ∈ kept.map OwnerRun.owner → ∃ row ∈ revision.body.rows, row.owner = owner :=
    fun howner => mem_map.1 (mem_owners_ownerRuns.1 ((hkeeps.suffix.map OwnerRun.owner).subset howner))
  constructor
  · refine derivedDependencyDepth_le.2 fun owner howner => ?_
    obtain ⟨row, hin, rfl⟩ := hrow (hmem.1 howner).2
    rcases stagedOwners_mem hrows hin with hself | hdep
    · -- the base lends: it is one deeper than its owners, and so is a chain that keeps its run
      rw [hself] at howner ⊢
      simp only [Revisions.depth, hbase, Option.elim_some]
      have hhead := ownerRuns_head revision.body.rows
      obtain ⟨_, hlast, hid⟩ := stagedOwners_last hrows (Or.inl ⟨row, hin, hself⟩)
      rw [hlast] at hhead
      have hin := (hmem.1 howner).2
      cases hkeeps with
      | chain hchain =>
        cases hruns : ownerRuns revision.body.rows with
        | nil => simp [hruns] at hhead
        | cons =>
          have hlength := keepRuns_length delta (ownerRuns revision.body.rows)
          rw [hruns] at hchain hhead hin hlength
          have := appendChain_base hchain (by simpa [hid] using hhead) (keepRuns_suffix _ _) hin
          simp only at this
          omega
      | nothing => simp at hin
      | everything _ _ hdepth =>
        exact hdepth (mem_manifestDependencyOwners.2 ⟨(hmem.1 howner).1, mem_owners_ownerRuns.1 hin⟩)
    · exact (derivedDependencyDepth_le.1 hderived.ge _ hdep).trans hdepth
  · have hsub : layout.owners ⊆ (kept.map OwnerRun.owner).toFinset := by
      intro owner howner
      simpa using (hmem.1 howner).2
    cases hkeeps with
    | chain =>
      have hlength := keepRuns_length delta (ownerRuns revision.body.rows)
      have := (Finset.card_le_card hsub).trans (toFinset_card_le _)
      simp only [length_map, MAX_ARTIFACT_DEPENDENCY_OWNERS, MAX_ARTIFACT_DEPENDENCY_DEPTH] at *
      omega
    | nothing => simp at hsub; simp [hsub]
    | everything _ hcount _ =>
      refine (Finset.card_le_card fun owner howner => ?_).trans hcount
      have := hmem.1 howner
      exact mem_manifestDependencyOwners.2 ⟨this.1, mem_owners_ownerRuns.1 this.2⟩

end Bounds

/-! ### Bodies built by appends -/

section Built

variable {revisions : Revisions Id} {runs kept : List (OwnerRun Id)} {rows own : List (ArtifactManifestRow Id)}
  {id : Id} {revision : Revision Id} {path path' : Path Id} {a : Append Id} {rewrites : List ℕ}
  {planned : Finset Id × Body Id × List ℕ}

/-- The owner of the i-th run is at depth i, and owns no other run. -/
structure Chain (revisions : Revisions Id) (runs : List (OwnerRun Id)) : Prop where
  nodup : (runs.map OwnerRun.owner).Nodup
  depth : ∀ i run, runs.reverse[i]? = some run →
    ∃ revision, revisions run.owner = some revision ∧ revision.dependencyDepth = i

section

variable (h : Chain revisions runs)
include h

omit [DecidableEq Id] in
lemma Chain.suffix (hkept : kept <:+ runs) : Chain revisions kept := by
  refine ⟨h.nodup.sublist (hkept.sublist.map _), fun i run hrun => h.depth i run ?_⟩
  obtain ⟨_, rfl⟩ := hkept
  rw [reverse_append, getElem?_append_left (List.getElem?_eq_some_iff.1 hrun).1, hrun]

omit [DecidableEq Id] in
lemma Chain.known {owner : Id} (howner : owner ∈ runs.map OwnerRun.owner) :
    ∃ revision, revisions owner = some revision ∧ revision.dependencyDepth < runs.length := by
  obtain ⟨run, hrun, rfl⟩ := mem_map.1 howner
  obtain ⟨i, hi⟩ := mem_iff_getElem?.1 (mem_reverse.2 hrun)
  obtain ⟨revision, hrevision, rfl⟩ := h.depth i run hi
  exact ⟨revision, hrevision, by simpa using (List.getElem?_eq_some_iff.1 hi).1⟩

/-- A revision that borrows the runs of a chain is as deep as they are many. -/
lemma Chain.derived {owners : Finset Id}
    (howners : ∀ {owner}, owner ∈ owners ↔ owner ∈ runs.map OwnerRun.owner) :
    derivedDependencyDepth revisions owners = runs.length := by
  apply le_antisymm
  · refine derivedDependencyDepth_le.2 fun owner howner => ?_
    obtain ⟨revision, hrevision, hdepth⟩ := h.known (howners.1 howner)
    simp only [Revisions.depth, hrevision, Option.elim_some]
    omega
  · cases runs with
    | nil => simp
    | cons run older =>
      obtain ⟨_, hrevision, hdepth⟩ := h.depth older.length run (by simp)
      have := derivedDependencyDepth_le.1 (le_refl (derivedDependencyDepth revisions owners)) run.owner
        (howners.2 (by simp))
      simpa [Revisions.depth, hrevision, hdepth] using this

lemma Chain.update (hfresh : revisions id = none) :
    Chain (Function.update revisions id (some revision)) runs := by
  refine ⟨h.nodup, fun i run hrun => ?_⟩
  obtain ⟨found, hfound, hdepth⟩ := h.depth i run hrun
  refine ⟨found, ?_, hdepth⟩
  rw [Function.update_of_ne, hfound]
  rintro heq
  simp [heq, hfresh] at hfound

end

lemma Chain.fresh (h : Chain revisions (ownerRuns rows)) (hfresh : revisions id = none) :
    id ∉ rows.map ArtifactManifestRow.owner := by
  intro hmem
  obtain ⟨_, hrevision, -⟩ := h.known (mem_owners_ownerRuns.2 hmem)
  simp [hfresh] at hrevision

lemma Chain.cons (h : Chain revisions runs) (hfresh : revisions id = none)
    (hdepth : revision.dependencyDepth = runs.length) {run : OwnerRun Id} (hrun : run.owner = id) :
    Chain (Function.update revisions id (some revision)) (run :: runs) := by
  refine ⟨nodup_cons.2 ⟨fun hmem => ?_, h.nodup⟩, fun i found hfound => ?_⟩
  · obtain ⟨_, hother, -⟩ := h.known (hrun ▸ hmem)
    simp [hfresh] at hother
  · rw [reverse_cons] at hfound
    by_cases hi : i < runs.length
    · rw [getElem?_append_left (by simpa using hi)] at hfound
      exact (h.update hfresh).depth i found hfound
    · obtain ⟨hlt, _⟩ := List.getElem?_eq_some_iff.1 hfound
      obtain rfl : i = runs.length := by simp at hlt; omega
      obtain rfl : run = found := by simpa using hfound
      exact ⟨revision, by simp [hrun], hdepth⟩

lemma ownerRuns_append (hown : ∀ row ∈ own, row.owner = id) (hid : id ∉ rows.map ArtifactManifestRow.owner) :
    ownerRuns (rows ++ own) = if own = [] then ownerRuns rows
      else ⟨id, rows.length, bodySize own⟩ :: ownerRuns rows := by
  induction own using reverseRecOn with
  | nil => simp
  | append_singleton own row ih =>
    have hrow : row.owner = id := hown row (by simp)
    rw [← append_assoc, ownerRuns_concat, ih fun row hrow => hown row (by simp [hrow])]
    by_cases hempty : own = []
    · subst hempty
      rcases pushRow_cases (ownerRuns rows) row rows.length with ⟨_, _, heq, hrun, -⟩ | ⟨-, hpush⟩
      · refine absurd (mem_owners_ownerRuns.1 ?_) hid
        rw [heq]
        simp [hrun, hrow]
      · simp [hpush, hrow, bodySize]
    · simp [hempty, pushRow, hrow, bodySize]

omit [DecidableEq Id] in
lemma planRows_owner {blockSize size : ℕ} : ∀ row ∈ planRows id blockSize size, row.owner = id := by
  intro row hrow
  obtain ⟨_, -, rfl⟩ := mem_map.1 hrow
  rfl

/-- The revision a path shows was built by appends: its runs are a chain, and its depth can be told from
their number. -/
def Path.Built (path : Path Id) : Prop := ∀ base, path.head = some base → ∃ revision,
  path.revisions base = some revision ∧ Chain path.revisions (ownerRuns revision.body.rows) ∧
    appendChain ⟨base, revision.dependencies.card, revision.dependencyDepth⟩ (ownerRuns revision.body.rows) = true

/-- What an append publishes: a whole body, or rows of its base and its own. -/
inductive Plans (path : Path Id) (a : Append Id) : Finset Id × Body Id × List ℕ → Prop where
  | whole (size : ℕ) : Plans path a (a.whole size)
  | borrow {base : Id} {revision : Revision Id} {rows : List (ArtifactManifestRow Id)} {n : ℕ}
      (hbase : path.head = some base) (hrevision : path.revisions base = some revision)
      (hbody : revision.body = .objects rows)
      (hn : n = reownFrom rows (keepRuns a.delta (ownerRuns rows)).length) :
    Plans path a (manifestDependencyOwners a.revision (rows.take n),
      .objects (rows.take n ++ planRows a.revision a.blockSize (bodySize (rows.drop n) + a.delta)),
      path.rewrites.take (bodySize (rows.take n)) ++
        (path.rewrites.drop (bodySize (rows.take n))).map (· + 1) ++ List.replicate a.delta 0)

lemma Path.Built.plans (h : path.Built) (hplan : path.plan a = some planned) : Plans path a planned := by
  unfold Path.plan at hplan
  split at hplan
  · cases hplan
    exact .whole _
  next base hbase =>
    obtain ⟨revision, hrevision, -, hchain⟩ := h base hbase
    simp only [hrevision, Option.bind_eq_bind, Option.bind_some] at hplan
    split at hplan
    · cases hplan
      exact .whole _
    next rows hbody =>
      cases hlayout : appendLayout ⟨base, revision.dependencies.card, revision.dependencyDepth⟩ a.revision
          rows a.delta with
      | error error => simp [hlayout, Except.toOption] at hplan
      | ok layout =>
        simp only [hlayout, Except.toOption, Option.bind_some, Option.some.injEq] at hplan
        obtain ⟨_, hkeeps, hfrom, howners⟩ := appendLayout_spec hlayout
        rw [hbody, Body.rows] at hchain
        cases hkeeps with
        | chain =>
          rw [← hplan, howners]
          exact .borrow hbase hrevision hbody hfrom
        | nothing hnot | everything hnot => simp [hnot] at hchain

/-- The rows of a plan are those of a chain, and rows of the new revision. -/
lemma Plans.onChain (h : Plans path a planned) (hbuilt : path.Built) :
    ∃ borrowed own, planned.2.1.rows = borrowed ++ own ∧ (∀ row ∈ own, row.owner = a.revision) ∧
      planned.1 = manifestDependencyOwners a.revision borrowed ∧ Chain path.revisions (ownerRuns borrowed) := by
  cases h with
  | whole =>
    have hchain : Chain path.revisions (ownerRuns []) := ⟨by simp [ownerRuns], by simp [ownerRuns]⟩
    unfold Append.whole
    split
    · exact ⟨[], [], rfl, by simp, rfl, hchain⟩
    · exact ⟨[], _, rfl, planRows_owner, rfl, hchain⟩
  | borrow hbase hrevision hbody hn =>
    obtain ⟨_, hfound, hchain, -⟩ := hbuilt _ hbase
    cases hrevision.symm.trans hfound
    rw [hbody] at hchain
    refine ⟨_, _, rfl, planRows_owner, rfl, ?_⟩
    rw [hn, ownerRuns_take (keepRuns_suffix _ _)]
    exact hchain.suffix (keepRuns_suffix _ _)

lemma Path.append_eq_some (h : path.append a = some path') :
    ∃ owners body rewrites revision, path.plan a = some (owners, body, rewrites) ∧
      revision = ⟨owners, derivedDependencyDepth path.revisions owners, body⟩ ∧
      path.revisions a.revision = none ∧ Admissible path.revisions a.revision revision ∧
      path' = ⟨Function.update path.revisions a.revision (some revision), some a.revision, rewrites⟩ := by
  obtain ⟨_, -, h⟩ := Option.bind_eq_some_iff.1 h
  obtain ⟨⟨owners, body, rewrites⟩, hplan, h⟩ := Option.bind_eq_some_iff.1 h
  obtain ⟨_, hpublish, h⟩ := Option.bind_eq_some_iff.1 h
  obtain ⟨hfresh, hok, rfl⟩ := publish_eq_some hpublish
  exact ⟨owners, body, rewrites, _, hplan, rfl, hfresh, hok, (Option.some.inj h).symm⟩

lemma Path.Built.append (h : path.Built) (happend : path.append a = some path') : path'.Built := by
  obtain ⟨owners, body, _, revision, hplan, rfl, hfresh, -, rfl⟩ := Path.append_eq_some happend
  obtain ⟨borrowed, own, hrows, hown, howners, hchain⟩ := (h.plans hplan).onChain h
  simp only at hrows howners
  have hnew := hchain.fresh hfresh
  have hdepth : derivedDependencyDepth path.revisions owners = (ownerRuns borrowed).length := by
    refine hchain.derived fun {owner} => ?_
    rw [howners, mem_manifestDependencyOwners, mem_owners_ownerRuns]
    refine ⟨And.right, fun hmem => ⟨?_, hmem⟩⟩
    rintro rfl
    exact hnew hmem
  rintro _ ⟨⟩
  refine ⟨_, Function.update_self .., ?_⟩
  rw [hrows, ownerRuns_append hown hnew]
  have hdistinct : ∀ {runs : List (OwnerRun Id)}, (runs.map OwnerRun.owner).Nodup →
      (runs.map OwnerRun.owner).toFinset.card = runs.length := by
    intro runs hnodup
    rw [toFinset_card_of_nodup hnodup, length_map]
  split
  · -- nothing of its own: it is one deeper than the owner of the newest run
    refine ⟨hchain.update hfresh, ?_⟩
    have hlast : ((ownerRuns borrowed).head?.any fun run => run.owner = a.revision) = false := by
      cases hruns : ownerRuns borrowed with
      | nil => rfl
      | cons =>
        rw [← mem_owners_ownerRuns, hruns, map_cons, mem_cons, not_or] at hnew
        simpa [eq_comm] using hnew.1
    simp [appendChain, hdistinct hchain.nodup, hlast, hdepth]
  · have hchain' : Chain (Function.update path.revisions a.revision
        (some ⟨owners, derivedDependencyDepth path.revisions owners, body⟩))
        (⟨a.revision, borrowed.length, bodySize own⟩ :: ownerRuns borrowed) := hchain.cons hfresh hdepth rfl
    refine ⟨hchain', ?_⟩
    simp only [appendChain, hdistinct hchain'.nodup, head?_cons, Option.any_some, decide_true,
      Bool.toNat_true, length_cons, Nat.add_sub_cancel, hdepth, and_self]

lemma built_empty : (Path.empty : Path Id).Built := by
  rintro _ ⟨⟩

/-- What a client and a server may rely on when appends are planned. -/
structure LayoutBounds (Id : Type) [DecidableEq Id] : Prop where
  bounded : ∀ publications revisions, exec publish (fun _ => none : Revisions Id) publications = some revisions →
    ∀ base revision, revisions base = some revision → ∀ next delta layout,
      appendLayout ⟨base, revision.dependencies.card, revision.dependencyDepth⟩ next revision.body.rows delta =
        .ok layout →
      derivedDependencyDepth revisions layout.owners ≤ MAX_ARTIFACT_DEPENDENCY_DEPTH ∧
        layout.owners.card ≤ MAX_ARTIFACT_DEPENDENCY_OWNERS
  inferred : ∀ appends path, exec Path.append (Path.empty : Path Id) appends = some path →
    ∀ base, path.head = some base → ∃ revision, path.revisions base = some revision ∧
      (∀ i run, (ownerRuns revision.body.rows).reverse[i]? = some run →
        ∃ owner, path.revisions run.owner = some owner ∧ owner.dependencyDepth = i) ∧
      appendChain ⟨base, revision.dependencies.card, revision.dependencyDepth⟩
        (ownerRuns revision.body.rows) = true

/-- **An append stays within the bounds on dependencies.** -/
theorem append_layout_bounds (Id : Type) [DecidableEq Id] : LayoutBounds Id := by
  constructor
  · intro publications revisions h
    have hsound : Sound revisions :=
      exec_invariant (I := Sound) (fun _ _ _ hsound hpublish => hsound.publish hpublish) (by rintro _ _ ⟨⟩) h
    exact fun base revision hbase next delta layout => layout_bounded hsound hbase
  · intro appends path h base hbase
    have hbuilt : path.Built :=
      exec_invariant (I := Path.Built) (fun _ _ _ hbuilt happend => hbuilt.append happend) built_empty h
    obtain ⟨revision, hrevision, hchain, hinferred⟩ := hbuilt base hbase
    exact ⟨revision, hrevision, hchain.depth, hinferred⟩

end Built

/-! ### How often a byte moves -/

section Aged

variable {runs : List (OwnerRun Id)} {path path' : Path Id} {a : Append Id} {rewrites : List ℕ} {pending : ℕ}

/-- The depth bound, and not its size, makes a run join the pending bytes. -/
def forced (pending : ℕ) : List (OwnerRun Id) → Bool
  | [] => false
  | run :: older =>
    if run.bytes ≤ pending then forced (pending + run.bytes) older
    else decide (MAX_ARTIFACT_DEPENDENCY_DEPTH < older.length + 1)

/-- Every byte of a run moved no more often than the run has doubled. -/
inductive Aged : List (OwnerRun Id) → List ℕ → Prop where
  | nil : Aged [] []
  | cons {run : OwnerRun Id} {older : List (OwnerRun Id)} {rewrites moved : List ℕ} (h : Aged older rewrites)
      (hlength : moved.length = run.bytes) (hmoved : ∀ c ∈ moved, 2 ^ c ≤ run.bytes) :
    Aged (run :: older) (rewrites ++ moved)

omit [DecidableEq Id] in
lemma Aged.length (h : Aged runs rewrites) : rewrites.length = (runs.map OwnerRun.bytes).sum := by
  induction h with
  | nil => rfl
  | cons _ hlength _ ih => simp [ih, hlength]; omega

omit [DecidableEq Id] in
/-- The runs that merge: each is at most half of what it becomes part of. -/
lemma Aged.keep (h : Aged runs rewrites) (hgentle : forced pending runs = false) :
    ∃ kept moved, rewrites = kept ++ moved ∧ Aged (keepRuns pending runs) kept ∧
      ∀ c ∈ moved, 2 ^ (c + 1) ≤ pending + moved.length := by
  induction h generalizing pending with
  | nil => exact ⟨[], [], rfl, .nil, by simp⟩
  | @cons _ _ rewrites moved h hlength hmoved ih =>
    unfold forced at hgentle
    unfold keepRuns
    split at hgentle
    next hle =>
      obtain ⟨kept, rest, rfl, hkept, hrest⟩ := ih hgentle
      rw [if_pos (Or.inl hle)]
      refine ⟨kept, rest ++ moved, by simp, hkept, fun c hc => ?_⟩
      rw [length_append, hlength]
      rcases mem_append.1 hc with hc | hc
      · have := hrest c hc
        omega
      · have := hmoved c hc
        omega
    next hgt =>
      rw [if_neg (by simpa [hgt] using hgentle)]
      exact ⟨rewrites ++ moved, [], by simp, .cons h hlength hmoved, by simp⟩

/-- The bytes of an object-backed path are aged. -/
def Path.Aged (path : Path Id) : Prop := ∀ base revision rows, path.head = some base →
  path.revisions base = some revision → revision.body = .objects rows → Client.Aged (ownerRuns rows) path.rewrites

/-- The rows of the body a path shows. -/
def Path.rows (path : Path Id) : List (ArtifactManifestRow Id) :=
  (path.head.bind path.revisions).elim [] fun revision => revision.body.rows

/-- An append of some bytes that no depth bound forces to merge. -/
def Path.appendUnforced (path : Path Id) (a : Append Id) : Option (Path Id) :=
  if a.delta = 0 ∨ forced a.delta (ownerRuns path.rows) = true then none else path.append a

lemma Path.appendUnforced_eq_some (h : path.appendUnforced a = some path') :
    forced a.delta (ownerRuns path.rows) = false ∧ path.append a = some path' := by
  unfold Path.appendUnforced at h
  split at h
  · cases h
  next hunforced =>
    simp only [not_or, Bool.not_eq_true] at hunforced
    exact ⟨hunforced.2, h⟩

lemma Aged.own {borrowed : List (ArtifactManifestRow Id)} {id : Id} {kept moved : List ℕ} {blockSize size : ℕ}
    (h : Client.Aged (ownerRuns borrowed) kept) (hnew : id ∉ borrowed.map ArtifactManifestRow.owner)
    (hlength : moved.length = size) (hmoved : ∀ c ∈ moved, 2 ^ c ≤ size) :
    Client.Aged (ownerRuns (borrowed ++ planRows id blockSize size)) (kept ++ moved) := by
  have hsize : bodySize (planRows id blockSize size) = size := by
    have hdiv := Nat.div_add_mod size blockSize
    rw [Nat.mul_comm] at hdiv
    unfold planRows bodySize
    split <;> simp <;> omega
  rw [ownerRuns_append planRows_owner hnew]
  split
  next hempty =>
    rw [hempty, ← hlength] at hsize
    obtain rfl := eq_nil_of_length_eq_zero hsize.symm
    simpa using h
  next =>
    rw [hsize]
    exact .cons h hlength hmoved

/-- What an append publishes is aged again: the bytes it moves were in runs that it at least doubles. -/
lemma Plans.aged {planned : Finset Id × Body Id × List ℕ} {published : List (ArtifactManifestRow Id)}
    (h : Plans path a planned) (haged : path.Aged) (hbuilt : path.Built) (hfresh : path.revisions a.revision = none)
    (hgentle : forced a.delta (ownerRuns path.rows) = false) (hpublished : planned.2.1 = .objects published) :
    Client.Aged (ownerRuns published) planned.2.2 := by
  cases h with
  | whole =>
    simp only [Append.whole] at hpublished ⊢
    split at hpublished
    · cases hpublished
    · cases hpublished
      -- a body that is written whole has rewritten none of its bytes
      refine Aged.own (show Client.Aged (ownerRuns []) [] from .nil) (by simp) length_replicate fun c hc => ?_
      obtain ⟨hsize, rfl⟩ := mem_replicate.1 hc
      exact Nat.pos_of_ne_zero hsize
  | @borrow base revision rows n hbase hrevision hbody hn =>
    cases hpublished
    obtain ⟨_, hfound, hchain, -⟩ := hbuilt _ hbase
    cases hrevision.symm.trans hfound
    have hrows : path.rows = rows := by simp [Path.rows, hbase, hrevision, hbody, Body.rows]
    have htake := hn ▸ ownerRuns_take (keepRuns_suffix a.delta (ownerRuns rows))
    have hold := haged base revision rows hbase hrevision hbody
    -- an append that is not forced keeps the runs in front and moves the rest once more
    obtain ⟨kept, moved, hrewrites, hkept, hmoved⟩ := hold.keep (hrows ▸ hgentle)
    have hsize : bodySize (rows.take n) = kept.length := by
      rw [hkept.length, ← htake, bytes_ownerRuns]
    have hrest : bodySize (rows.drop n) = moved.length := by
      have hall := hold.length
      rw [bytes_ownerRuns, hrewrites, length_append, ← take_append_drop n rows] at hall
      simp only [bodySize, map_append, sum_append] at hall hsize ⊢
      omega
    simp only [hsize, hrest, hrewrites, take_left, drop_left, append_assoc]
    refine Aged.own (htake ▸ hkept) (Chain.fresh ?_ hfresh) (by simp) fun c hc => ?_
    · rw [htake]
      rw [hbody] at hchain
      exact hchain.suffix (keepRuns_suffix _ _)
    · rcases mem_append.1 hc with hc | hc
      · -- the bytes that were moved, and then the new ones
        obtain ⟨count, hcount, rfl⟩ := mem_map.1 hc
        have := hmoved count hcount
        omega
      · obtain ⟨_, rfl⟩ := mem_replicate.1 hc
        omega

lemma Path.Aged.append (h : path.Aged) (hbuilt : path.Built) (happend : path.appendUnforced a = some path') :
    path'.Aged := by
  obtain ⟨hgentle, happend⟩ := Path.appendUnforced_eq_some happend
  obtain ⟨_, _, _, _, hplan, rfl, hfresh, -, rfl⟩ := Path.append_eq_some happend
  rintro _ _ _ ⟨⟩ hrevision hbody
  simp only [Function.update_self, Option.some.injEq] at hrevision
  subst hrevision
  exact (hbuilt.plans hplan).aged h hbuilt hfresh hgentle hbody

omit [DecidableEq Id] in
lemma Aged.le_length (h : Client.Aged runs rewrites) {c : ℕ} (hc : c ∈ rewrites) : 2 ^ c ≤ rewrites.length := by
  induction h with
  | nil => simp at hc
  | cons _ _ hmoved ih =>
    rw [length_append]
    rcases mem_append.1 hc with hc | hc
    · have := ih hc
      omega
    · have := hmoved c hc
      omega

/-- **Rewriting is logarithmic where no merge is forced.** -/
theorem rewrites_logarithmic {appends : List (Append Id)} {base : Id} {revision : Revision Id}
    {rows : List (ArtifactManifestRow Id)} (h : exec Path.appendUnforced .empty appends = some path)
    (hbase : path.head = some base) (hrevision : path.revisions base = some revision)
    (hbody : revision.body = .objects rows) : path.rewrites.length = bodySize rows ∧
      ∀ c ∈ path.rewrites, c ≤ 1 + Nat.clog 2 (bodySize rows) := by
  have hinv : path.Built ∧ path.Aged := by
    refine exec_invariant (I := fun path => path.Built ∧ path.Aged) (fun _ _ _ hinv happend => ?_)
      ⟨built_empty, by rintro _ _ _ ⟨⟩⟩ h
    exact ⟨hinv.1.append (Path.appendUnforced_eq_some happend).2, hinv.2.append hinv.1 happend⟩
  have haged := hinv.2 base revision rows hbase hrevision hbody
  have hlength : path.rewrites.length = bodySize rows := by rw [haged.length, bytes_ownerRuns]
  refine ⟨hlength, fun c hc => ?_⟩
  have hpow := haged.le_length hc
  have hlog := (Nat.le_log_of_pow_le Nat.one_lt_two hpow).trans (Nat.log_le_clog 2 _)
  rw [hlength] at hlog
  omega

/-- The third append merges the runs of the first two. -/
theorem rewrites_logarithmic_merge : ∃ path : Path ℕ,
    exec Path.appendUnforced .empty [⟨0, 1, 2⟩, ⟨1, 1, 1⟩, ⟨2, 1, 1⟩] = some path ∧ path.rewrites.length = 4 ∧
      ∀ c ∈ path.rewrites, c ≤ 1 + Nat.clog 2 4 := by
  have hrun : (exec Path.appendUnforced (.empty : Path ℕ) [⟨0, 1, 2⟩, ⟨1, 1, 1⟩, ⟨2, 1, 1⟩]).isSome = true := by decide
  refine ⟨_, (Option.some_get hrun).symm, ?_⟩
  have hbody : ((Option.get _ hrun).revisions 2).map Revision.body = some (.objects (planRows 2 1 4)) := rfl
  obtain ⟨_, hrevision, hbody⟩ := Option.map_eq_some_iff.1 hbody
  exact rewrites_logarithmic (Option.some_get hrun).symm rfl hrevision hbody

/-- Eight runs, each a byte shorter than the one before it, and ten bytes that come one at a time. -/
def deepAppends : List (Append ℕ) :=
  [17, 16, 15, 14, 13, 12, 11, 10, 1, 1, 1, 1, 1, 1, 1, 1, 1, 1].zipIdx.map fun (delta, i) => ⟨i, 9, delta⟩

/-- Behind eight runs every append joins the ninth, whatever its size. -/
theorem forced_rewrites_exceed : ¬ ∀ (appends : List (Append ℕ)) (path : Path ℕ), (∀ a ∈ appends, a.delta ≠ 0) →
    exec Path.append .empty appends = some path → ∀ c ∈ path.rewrites, c ≤ 1 + Nat.clog 2 path.rewrites.length := by
  intro h
  have hrun : (exec Path.append .empty deepAppends).map
      (fun path => (decide (9 ∈ path.rewrites), path.rewrites.length)) = some (true, 118) := by decide +kernel
  obtain ⟨path, hpath, heq⟩ := Option.map_eq_some_iff.1 hrun
  obtain ⟨hmem, hlength⟩ := Prod.mk.inj heq
  have hle := h deepAppends path (by decide) hpath 9 (of_decide_eq_true hmem)
  have hclog : Nat.clog 2 118 ≤ 7 := Nat.clog_le_of_le_pow (by decide)
  rw [hlength] at hle
  omega

end Aged

end NoKV.Client
