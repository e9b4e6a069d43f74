import NoKV.Store.TargetInvariant

/-!
# Checkpoint installation is crash-safe

Every entry point of the adapter keeps `Inv` at each of its operations, so that it holds whenever a
process is stopped or the machine crashes.

* `Keeps`: the specification of a program, with its rules;
* `keeps_install`, `reads_openStore`, `reads_openRecoveryStaging`, `keeps_adopt`: the entry points;
* `crash_safe`: every run in which an installation finds no completed marker that may still be lost, and
  in which adoption waits until the installation marker cannot come back;
* `disorderly_runs`: without the first, a crash leaves a database without any marker; without the second,
  adoption is refused.
-/

namespace NoKV.Store.Target

open Lib List

variable [Holt]

/-! ### Specifications -/

section Keeps

variable [Sha256] {o : HoltOptions} {kept : Option HoltRecoveryStagingIdentity} {d : Disk}
  {ε ε' α β : Type} {P : α → Disk → Prop} {p : Fs ε α} {error : IoError → ε} {P' : β → Disk → Prop}
  {f : α → Fs ε β}

/-- The program keeps the invariant at each of its operations, and `P` holds when it returns. -/
def Keeps (o : HoltOptions) (kept : Option HoltRecoveryStagingIdentity) (P : α → Disk → Prop) (p : Fs ε α)
    (d : Disk) : Prop :=
  p.wp Disk.step (fun _ => True) (Inv o kept) (fun r d' => Inv o kept d' ∧ ∀ a, r = .ok a → P a d') d

lemma Keeps.bind (h : Keeps o kept P p d) (hf : ∀ a d', Inv o kept d' → P a d' → Keeps o kept P' (f a) d') :
    Keeps o kept P' (p >>= f) d := by
  refine Io.wp_bind (Io.wp_mono h ?_)
  rintro (e | a) d' ⟨hinv, hP⟩
  · exact ⟨hinv, nofun⟩
  · exact hf a d' hinv (hP a rfl)

lemma Keeps.mono {P P' : α → Disk → Prop} (h : Keeps o kept P p d) (himp : ∀ a d', P a d' → P' a d') :
    Keeps o kept P' p d :=
  Io.wp_mono h fun _ _ hr => ⟨hr.1, fun a ha => himp a _ (hr.2 a ha)⟩

lemma Keeps.mapError (h : Keeps o kept P p d) (f : ε → ε') : Keeps o kept P (p.mapError f) d :=
  Io.wp_mapError (Io.wp_mono h fun _ _ hr => ⟨hr.1, fun a ha => hr.2 a (mapError_eq_ok.1 ha)⟩)

lemma Keeps.attempt (h : Keeps o kept P p d) :
    Keeps o kept (fun r d' => d.log.Sublist d'.log ∧ ∀ a, r = .ok a → P a d') (p.attempt : Fs ε' _) d := by
  have hgrow := Io.wp_stable (R := fun d' => d.log.Sublist d'.log)
    (fun op fate d' hd' => hd'.trans (step_log op fate d')) h (.refl _)
  refine Io.wp_attempt (Io.wp_mono hgrow ?_)
  rintro r _ ⟨⟨hinv, hP⟩, hlog⟩
  exact ⟨hinv, fun r' hr' => by cases hr'; exact ⟨hlog, hP⟩⟩

lemma keeps_pure {a : α} (hinv : Inv o kept d) (h : P a d) : Keeps o kept P (pure a : Fs ε α) d :=
  ⟨hinv, fun _ ha => by cases ha; exact h⟩

lemma keeps_throw (hinv : Inv o kept d) (e : ε) : Keeps o kept P (throw e : Fs ε α) d :=
  ⟨hinv, nofun⟩

section

variable (h : Reads d p) (hinv : Inv o kept d)
include h hinv

lemma Reads.keeps : Keeps o kept (fun a d' => d' = d ∧ eval d p = .ok a) p d :=
  wp_reads h hinv ⟨hinv, fun _ ha => ⟨rfl, ha⟩⟩ fun _ _ => ⟨hinv, nofun⟩

lemma keeps_read (hf : ∀ a, eval d p = .ok a → Keeps o kept P' (f a) d) : Keeps o kept P' (p >>= f) d := by
  refine (h.keeps hinv).bind ?_
  rintro a _ - ⟨rfl, ha⟩
  exact hf a ha

lemma keeps_read_mapError {f : α → Fs ε' β} {g : ε → ε'}
    (hf : ∀ a, eval d p = .ok a → Keeps o kept P' (f a) d) : Keeps o kept P' (p.mapError g >>= f) d := by
  refine keeps_read (h.mapError g) hinv fun a ha => hf a ?_
  rwa [eval_mapError, mapError_eq_ok] at ha

end

/-- An operation with its whole effect, and with the effects it has when it breaks off. -/
lemma keeps_perform (op : Op) (hinv : Inv o kept d) (heffect : Inv o kept (d.effect op).2)
    (hpart : ∀ written left, Inv o kept (d.interrupted written left op)) :
    Keeps o kept (fun a d' => (d.effect op).1 = .ok a ∧ d' = (d.effect op).2) (perform op error) d := by
  refine Io.wp_mapError (Io.wp_perform hinv fun fate _ => ?_)
  cases fate with
  | done => exact ⟨heffect, fun a ha => ⟨mapError_eq_ok.1 ha, rfl⟩⟩
  | failed e took written left =>
    refine ⟨?_, nofun⟩
    cases took with
    | true => exact heffect
    | false => exact hpart written left

/-- An operation that has no effect when it breaks off. -/
lemma keeps_perform_whole (op : Op) (hinv : Inv o kept d) (heffect : Inv o kept (d.effect op).2)
    (hpart : ∀ written left, d.interrupted written left op = d) :
    Keeps o kept (fun a d' => (d.effect op).1 = .ok a ∧ d' = (d.effect op).2) (perform op error) d :=
  keeps_perform op hinv heffect fun written left => by rw [hpart]; exact hinv

lemma keeps_syncTarget (hinv : Inv o kept d) :
    Keeps o kept (fun _ d' => d.kind = some .directory ∧
      d' = { d with durable := d.names, pending := [] }) (perform .syncTarget error) d := by
  have heffect : Inv o kept (d.effect .syncTarget).2 := by
    simp only [Disk.effect]
    split
    · exact hinv.syncTarget
    · exact hinv
  refine (keeps_perform_whole _ hinv heffect fun _ _ => rfl).mono ?_
  rintro a _ ⟨hok, rfl⟩
  simp only [Disk.effect] at hok ⊢
  split at hok
  next hkind => exact ⟨hkind, by rw [if_pos hkind]⟩
  next => cases hok

lemma keeps_write_installing (hinv : Inv o kept d) (bytes : Bytes) :
    Keeps o kept (fun _ d' => d' = d.modify .installing (Disk.append bytes))
      (perform (.write .installing bytes) error) d :=
  (keeps_perform (.write .installing bytes) hinv (hinv.write_installing _) fun _ _ =>
    hinv.write_installing _).mono fun _ _ h => h.2

lemma keeps_syncFile (hinv : Inv o kept d) (m : Marker) :
    Keeps o kept (fun _ d' => d' = d.modify m fun file => { file with synced := true })
      (perform (.syncFile m) error) d :=
  (keeps_perform_whole (.syncFile m) hinv (hinv.syncFile m) fun _ _ => rfl).mono fun _ _ h => h.2

omit [Sha256] in
lemma effect_create {m : Marker} (h : (d.effect (.create m)).1 = .ok ()) :
    d.kind = some .directory ∧ d.names m = none ∧ (d.effect (.create m)).2 = d.created m := by
  simp only [Disk.effect] at h ⊢
  split at h
  next => cases h
  next hkind =>
    split at h
    next => cases h
    next hname =>
      rw [if_neg hkind, if_neg hname]
      exact ⟨not_not.1 hkind, by simpa using hname, rfl⟩

lemma keeps_create_installing (hinv : Inv o kept d) (hbegun : d.database = none ∨ Event.began ∈ d.log) :
    Keeps o kept (fun _ d' => d.kind = some .directory ∧ d' = d.created .installing)
      (perform (.create .installing) error) d := by
  have heffect : Inv o kept (d.effect (.create .installing)).2 := by
    simp only [Disk.effect]
    split
    · exact hinv
    next hkind =>
      split
      · exact hinv
      · exact hinv.create_installing (not_not.1 hkind) hbegun
  refine (keeps_perform_whole _ hinv heffect fun _ _ => rfl).mono ?_
  rintro a _ ⟨hok, rfl⟩
  obtain ⟨hkind, -, heq⟩ := effect_create hok
  exact ⟨hkind, heq⟩

end Keeps

/-! ### The location and the trees -/

section Location

variable {o : HoltOptions} {d : Disk}

lemma reads_requireRegularHoltFile (file : HoltFile) : Reads d (requireRegularHoltFile o file) := by
  refine (reads_metadata _).bind fun kind _ => ?_
  rcases kind with _ | _ | _ | _ <;> trivial

lemma reads_manifestExists (file : HoltFile) : Reads d (manifestExists o file) := by
  refine (reads_metadata _).bind fun kind _ => ?_
  rcases kind with _ | _ | _ | _ <;> trivial

lemma reads_requireHoltLocation : Reads d (requireHoltLocation o) := by
  refine (reads_metadata _).bind fun kind _ => ?_
  rcases kind with _ | _ | _ | _
  · trivial
  · exact (reads_requireRegularHoltFile _).bind fun _ _ => (reads_requireRegularHoltFile _).bind fun _ _ =>
      (reads_manifestExists _).bind fun _ _ => (reads_manifestExists _).bind fun _ _ => reads_refuseIf _ _
  · trivial
  · trivial

lemma eval_requireRegularHoltFile (file : HoltFile) :
    eval d (requireRegularHoltFile o file) = .ok () ↔ d.database.isSome := by
  unfold requireRegularHoltFile
  rw [eval_bind (reads_metadata _), eval_perform]
  simp only [Disk.effect, Disk.kindOf]
  cases d.database <;> simp [Except.mapError]

lemma eval_manifestExists (file : HoltFile) (h : d.database.isSome) :
    eval d (manifestExists o file) = .ok true := by
  unfold manifestExists
  rw [eval_bind (reads_metadata _), eval_perform]
  simp only [Disk.effect, Disk.kindOf, if_pos h]
  rfl

lemma eval_requireHoltLocation :
    eval d (requireHoltLocation o) = .ok () ↔ d.kind = some .directory ∧ d.database.isSome := by
  unfold requireHoltLocation
  rw [eval_bind (reads_metadata _), eval_perform]
  simp only [Disk.effect, Disk.kindOf]
  rcases hkind : d.kind with _ | _ | _ | _
  · simp [Except.mapError]
  · simp only [Except.mapError, ok_bind, true_and]
    rw [eval_bind (reads_requireRegularHoltFile _), bind_eq_ok]
    constructor
    · rintro ⟨_, hfile, -⟩
      exact (eval_requireRegularHoltFile _).1 hfile
    · intro h
      refine ⟨(), (eval_requireRegularHoltFile _).2 h, ?_⟩
      rw [eval_bind (reads_requireRegularHoltFile _), (eval_requireRegularHoltFile _).2 h, ok_bind,
        eval_bind (reads_manifestExists _), eval_manifestExists _ h, ok_bind,
        eval_bind (reads_manifestExists _), eval_manifestExists _ h, ok_bind, eval_refuseIf]
      exact refuseIf_eq_ok.2 (by rintro ⟨⟩)
  · simp [Except.mapError]
  · simp [Except.mapError]

lemma reads_prepareTrees : Reads d (prepareTrees o) := reads_listTrees.bind fun _ _ => reads_refuseIf _ _

lemma eval_prepareTrees : eval d (prepareTrees o) = .ok () ↔ d.trees.toFinset = o.names.toFinset := by
  unfold prepareTrees
  rw [eval_bind reads_listTrees, eval_perform]
  simp [Disk.effect, Except.mapError, Disk.trees]

lemma reads_requireExactCatalog : Reads d (requireExactCatalog o) :=
  reads_listTrees.bind fun _ _ => reads_refuseIf _ _

lemma eval_requireExactCatalog :
    eval d (requireExactCatalog o) = .ok () ↔ d.trees.toFinset = o.names.toFinset := by
  unfold requireExactCatalog
  rw [eval_bind reads_listTrees, eval_perform]
  simp [Disk.effect, Except.mapError, Disk.trees]

lemma reads_fromParts {ε : Type} (error : IoError → ε) : Reads d (fromParts o error) := by
  unfold fromParts
  induction o.trees.rows with
  | nil => trivial
  | cons tree _ ih => exact (reads_openTree tree.2).bind fun _ _ => ih

lemma eval_fromParts {ε : Type} (error : IoError → ε) (h : d.trees.toFinset = o.names.toFinset) :
    eval d (fromParts o error) = .ok () := by
  have hmem : ∀ tree ∈ o.trees.rows, tree.2 ∈ d.trees := by
    intro tree htree
    rw [← mem_toFinset, h, mem_toFinset, HoltOptions.names, mem_mergeSort]
    exact mem_map_of_mem htree
  unfold fromParts
  generalize o.trees.rows = rows at hmem
  induction rows with
  | nil => rfl
  | cons tree rows ih =>
    show eval d (perform (.openTree tree.2) error >>= fun _ => rows.forM _) = _
    rw [eval_bind (reads_openTree tree.2), eval_perform]
    have hopens : (d.effect (.openTree tree.2)).1 = .ok () := by
      have htree := hmem tree mem_cons_self
      simp only [Disk.effect, Disk.trees] at htree ⊢
      cases hdb : d.database with
      | none => simp [hdb] at htree
      | some db => exact Holt.openTree_of_mem db _ (by simpa [hdb] using htree)
    rw [hopens]
    exact ih fun tree' htree' => hmem tree' (mem_cons_of_mem _ htree')

end Location

/-! ### Programs that only read -/

section Reads

variable [Sha256] {o : HoltOptions} {d : Disk}

lemma reads_verifyIdentityMarker (m : Marker) (expected : HoltRecoveryStagingIdentity) (phase : String) :
    Reads d (verifyIdentityMarker o m expected phase) :=
  (reads_verifyMarkerBytes m _).mapError _

lemma eval_verifyIdentityMarker (m : Marker) (expected : HoltRecoveryStagingIdentity) (phase : String) :
    eval d (verifyIdentityMarker o m expected phase) = .ok () ↔
      (d.names m).isSome ∧ d.content m = expected.markerBytes COMPLETE_MARKER_MAGIC := by
  unfold verifyIdentityMarker
  rw [eval_mapError, mapError_eq_ok, eval_verifyMarkerBytes]

lemma reads_verifyAdoptedMarkerCatalog (catalog : Digest) : Reads d (verifyAdoptedMarkerCatalog o catalog) :=
  ((reads_readExactMarker _ _).mapError _).bind fun _ _ => (reads_refuseIf _ _).bind fun _ _ =>
    (reads_refuseIf _ _).bind fun _ _ => reads_refuseIf _ _

lemma reads_validateInstallMarkers (expected : Option HoltRecoveryStagingIdentity) (catalog : Digest) :
    Reads d (validateInstallMarkers o expected catalog) := by
  refine reads_rejectIncomplete.bind fun _ _ => (reads_inspectMarkerExists _ _).bind fun complete _ =>
    (reads_inspectMarkerExists _ _).bind fun adopted _ => ?_
  match complete, adopted, expected with
  | false, false, none => trivial
  | false, false, some _ => trivial
  | false, true, none => exact reads_verifyAdoptedMarkerCatalog _
  | false, true, some _ => trivial
  | true, false, none => trivial
  | true, false, some _ => exact reads_verifyIdentityMarker _ _ _
  | true, true, none => trivial
  | true, true, some _ => trivial

lemma eval_validateInstallMarkers (expected : Option HoltRecoveryStagingIdentity) (catalog : Digest) :
    eval d (validateInstallMarkers o expected catalog) = .ok () →
      d.names .installing = none ∧
      (expected = none → d.names .complete = none) ∧
      ∀ identity ∈ expected,
        (d.names .complete).isSome ∧ d.content .complete = identity.markerBytes COMPLETE_MARKER_MAGIC := by
  intro h
  unfold validateInstallMarkers at h
  rw [eval_bind reads_rejectIncomplete, bind_eq_ok] at h
  obtain ⟨_, hinstalling, h⟩ := h
  rw [eval_bind (reads_inspectMarkerExists _ _), eval_inspectMarkerExists, ok_bind,
    eval_bind (reads_inspectMarkerExists _ _), eval_inspectMarkerExists, ok_bind] at h
  refine ⟨eval_rejectIncomplete.1 hinstalling, ?_, ?_⟩
  · rintro rfl
    cases hcomplete : d.names .complete with
    | none => rfl
    | some => cases hadopted : d.names .adopted <;> rw [hcomplete, hadopted] at h <;> cases h
  · intro identity hidentity
    cases hidentity
    cases hcomplete : d.names .complete <;> cases hadopted : d.names .adopted <;> rw [hcomplete, hadopted] at h
    · cases h
    · cases h
    · rw [← hcomplete]
      exact (eval_verifyIdentityMarker _ _ _).1 h
    · cases h

lemma reads_validateRecoveryStagingAdoption (expected : HoltRecoveryStagingIdentity) :
    Reads d (validateRecoveryStagingAdoption o expected) := by
  refine reads_rejectIncomplete.bind fun _ _ => (reads_inspectMarkerExists _ _).bind fun complete _ =>
    (reads_inspectMarkerExists _ _).bind fun adopted _ => ?_
  match complete, adopted with
  | false, false => trivial
  | false, true => exact reads_verifyIdentityMarker _ _ _
  | true, false => exact reads_verifyIdentityMarker _ _ _
  | true, true => trivial

lemma reads_openStore : Reads d (openStore o) := by
  refine (reads_validateInstallMarkers _ _).bind fun _ _ => reads_requireHoltLocation.bind fun _ hlocation =>
    (reads_openDb (eval_requireHoltLocation.1 hlocation).2).bind fun _ _ =>
      reads_prepareTrees.bind fun _ _ => reads_fromParts _

lemma reads_openRecoveryStaging (expected : HoltRecoveryStagingIdentity) :
    Reads d (openRecoveryStaging o expected) := by
  refine (reads_refuseIf _ _).bind fun _ _ => (reads_validateInstallMarkers _ _).bind fun _ _ =>
    reads_requireHoltLocation.bind fun _ hlocation =>
      (reads_openDb (eval_requireHoltLocation.1 hlocation).2).bind fun _ _ =>
        reads_prepareTrees.bind fun _ _ => (reads_validateInstallMarkers _ _).bind fun _ _ => reads_fromParts _

end Reads

/-! ### Installing -/

section Install

variable [Sha256] {o : HoltOptions} {kept : Option HoltRecoveryStagingIdentity} {d : Disk}
  {checkpoint : StoreCheckpointEnvelope}

lemma Inv.createDir (h : Inv o kept d) (hkind : d.kind = none) :
    Inv o kept { d with kind := some .directory, linked := false } := by
  obtain ⟨hdatabase, hnone⟩ := h.place.resolve_left (by rw [hkind]; exact nofun)
  refine ⟨fun s hs => ?_, .inl rfl⟩
  have hgood := h.good s hs
  refine ⟨hgood.begun, fun _ _ => hdatabase, hgood.exclusive, hgood.installing, fun m i _ hi => ?_,
    fun identity hid => ?_⟩
  · cases (hnone s hs m).symm.trans hi
  · obtain ⟨-, m, i, -, hi, -⟩ := hgood.kept identity hid
    cases (hnone s hs m).symm.trans hi

lemma keeps_prepareFreshTarget (hinv : Inv o kept d) (hnone : ∀ m, d.names m = none) :
    Keeps o kept (fun _ d' => d'.kind = some .directory ∧ d'.database = none ∧ ∀ m, d'.names m = none)
      (prepareFreshTarget o) d := by
  refine keeps_read (reads_metadata _) hinv fun kind hkind => ?_
  rw [eval_perform, mapError_eq_ok] at hkind
  obtain rfl : d.kind = kind := Except.ok.inj hkind
  rcases hkind : d.kind with _ | _ | _ | _
  · -- nothing is there: the directory is made under its parent and synced
    refine keeps_read (reads_metadata _) hinv fun parent _ => ?_
    rcases parent with _ | _ | _ | _
    · exact keeps_throw hinv _
    · have heffect : d.effect .createDir =
          (.ok (), { d with kind := some .directory, linked := false }) := by
        simp [Disk.effect, hkind]
      refine (keeps_perform_whole .createDir hinv (by rw [heffect]; exact hinv.createDir hkind)
        fun _ _ => rfl).bind ?_
      rintro _ d₁ hinv₁ ⟨-, rfl⟩
      rw [heffect] at hinv₁ ⊢
      have hdatabase := (hinv.place.resolve_left (by rw [hkind]; rintro ⟨⟩)).1
      refine (keeps_perform_whole .syncParent hinv₁ ?_ fun _ _ => rfl).mono ?_
      · exact hinv₁.later { Later.refl _ with linked := fun _ => rfl } fun _ => id
      · rintro _ _ ⟨-, rfl⟩
        exact ⟨rfl, hdatabase, hnone⟩
    · exact keeps_throw hinv _
    · exact keeps_throw hinv _
  · -- a directory is there, which has to be empty
    refine keeps_read reads_readDir hinv fun entries hentries => ?_
    rw [eval_perform, mapError_eq_ok] at hentries
    simp only [Disk.effect, hkind, if_true, Except.ok.injEq] at hentries
    refine ((reads_refuseIf _ _).keeps hinv).mono ?_
    rintro _ d₁ ⟨rfl, hempty⟩
    rw [eval_refuseIf, refuseIf_eq_ok, not_not] at hempty
    refine ⟨hkind, ?_, hnone⟩
    rw [← hentries] at hempty
    cases hdatabase : d₁.database with
    | none => rfl
    | some => simp [Disk.entries, hdatabase] at hempty
  · exact keeps_throw hinv _
  · exact keeps_throw hinv _

/-- The database is the one of the checkpoint, with the trees of the options. -/
def Holds (o : HoltOptions) (d : Disk) (image : Bytes) : Prop :=
  ∃ db, d.database = some db ∧ Holt.exportDb db = image ∧ (Holt.listTrees db).toFinset = o.names.toFinset

lemma keeps_verifyInstalled {image : Bytes} {mismatch : String} (hinv : Inv o kept d)
    (hdatabase : d.database.isSome) :
    Keeps o kept (fun _ d' => d' = { d with log := d.log ++ [.exported image] } ∧ Holds o d' image)
      (verifyInstalled o image mismatch) d := by
  obtain ⟨db, hdb⟩ := Option.isSome_iff_exists.1 hdatabase
  refine keeps_read (reads_openDb hdatabase) hinv fun _ _ => ?_
  refine keeps_read reads_requireExactCatalog hinv fun _ htrees => ?_
  rw [eval_requireExactCatalog] at htrees
  refine (keeps_perform_whole .exportDb hinv (hinv.logged nofun) fun _ _ => rfl).bind ?_
  rintro exported _ hinv₃ ⟨hexported, rfl⟩
  obtain rfl : (d.database.map Holt.exportDb).getD [] = exported := Except.ok.inj hexported
  refine ((reads_refuseIf _ _).keeps hinv₃).mono ?_
  rintro _ _ ⟨rfl, hsame⟩
  rw [eval_refuseIf, refuseIf_eq_ok, not_not] at hsame
  simp only [hdb, Option.map_some, Option.getD_some] at hsame
  simp only [Disk.trees, hdb, Option.map_some, Option.getD_some] at htrees
  refine ⟨?_, db, hdb, hsame, htrees⟩
  simp only [Disk.effect, hdb, Option.map_some, Option.getD_some, hsame]

/-- Between the durable installation marker and the verified database. -/
lemma keeps_installDatabase (hinv : Inv o kept d) (hkind : d.kind = some .directory) (sentinelBytes : Bytes)
    (hinstalling : d.names .installing ≠ none) (hcomplete : d.names .complete = none)
    (hadopted : d.names .adopted = none) :
    Keeps o kept (fun _ d' => Locked d' ∧ d'.settled = true ∧ Verified d'.log checkpoint.image ∧
      Holds o d' checkpoint.image) (installDatabase o checkpoint sentinelBytes) d := by
  refine (keeps_write_installing hinv _).bind ?_
  rintro _ _ hinv₁ rfl
  refine (keeps_syncFile hinv₁ _).bind ?_
  rintro _ _ hinv₂ rfl
  refine (keeps_syncTarget hinv₂).bind ?_
  rintro _ d₃ hinv₃ ⟨-, heq⟩
  have hlocked : Locked d₃ := by
    subst heq
    refine ⟨by simpa using hkind, fun s hs => ?_⟩
    rw [(survives_nil rfl).1 hs]
    simpa using ⟨hinstalling, hcomplete, hadopted⟩
  have honly : Reads d₃ requireOnlySentinel :=
    reads_readDir.bind fun _ _ => (reads_refuseIf _ _).bind fun _ _ => reads_refuseIf _ _
  refine keeps_read honly hinv₃ fun _ _ => ?_
  -- from here on nothing depends on the database that is there
  have hany : ∀ database settled, Inv o kept { d₃ with database := database, settled := settled } :=
    fun database settled => hinv₃.of_locked hlocked database settled (.refl _)
  refine (keeps_perform .openDb hinv₃ (hany _ _) fun written left => ?_).bind ?_
  · simp only [Disk.interrupted]
    split
    · exact hinv₃
    · exact hany _ _
  rintro _ d₅ hinv₅ ⟨-, heq⟩
  have hlocked₅ : Locked d₅ := by
    rw [heq]
    exact hlocked
  have hsome₅ : d₅.database.isSome := by
    rw [heq]
    rfl
  refine (keeps_perform (.installDb checkpoint.image) hinv₅
    (hinv₅.of_locked hlocked₅ _ _ (sublist_append_left ..)) fun written left =>
      hinv₅.of_locked hlocked₅ _ _ (.refl _)).bind ?_
  rintro _ _ hinv₆ ⟨-, rfl⟩
  refine keeps_read reads_requireExactCatalog hinv₆ fun _ _ => ?_
  refine (keeps_perform_whole .checkpointDb hinv₆
    (hinv₆.of_locked hlocked₅ _ _ (.refl _)) fun _ _ => rfl).bind ?_
  rintro _ _ hinv₈ ⟨-, rfl⟩
  refine (keeps_verifyInstalled hinv₈ (by simpa [Disk.effect] using hsome₅)).mono ?_
  rintro _ _ ⟨rfl, hholds⟩
  refine ⟨hlocked₅, rfl, ?_, hholds⟩
  show [Event.installed checkpoint.image, .exported checkpoint.image].Sublist
    (d₅.log ++ [.installed checkpoint.image] ++ [.exported checkpoint.image])
  rw [append_assoc]
  exact sublist_append_right ..

/-- The completed marker is durable in every directory that may be found. -/
structure Completed (o : HoltOptions) (d : Disk) (checkpoint : StoreCheckpointEnvelope) : Prop where
  all : ∃ i, (∀ s, d.Survives s → s .complete = some i) ∧
    d.files[i]? = some ⟨.complete, completeBytes o checkpoint, true⟩
  verified : ∃ verified, completeBytes o verified = completeBytes o checkpoint ∧ Verified d.log verified.image

lemma keeps_writeDurableMarker (hinv : Inv o kept d) (hlocked : Locked d) (hheld : Held o d)
    (hverified : Verified d.log checkpoint.image) :
    Keeps o kept (fun _ d' => Completed o d' checkpoint ∧ d'.database = d.database)
      (writeDurableMarker .complete (completeBytes o checkpoint)) d := by
  obtain rfl := hlocked.kept_eq_none hinv
  obtain ⟨hcreated, hcompleting⟩ := hinv.create_complete hlocked hverified hheld
  have hname : d.names .complete = none := (hlocked.2 _ (survives_names d)).2.1
  have heffect : d.effect (.create .complete) = (.ok (), d.created .complete) := by
    simp [Disk.effect, hheld.kind, hname, Disk.created]
  refine (keeps_perform_whole (.create .complete) hinv (by rw [heffect]; exact hcreated)
    fun _ _ => rfl).bind ?_
  -- created: the marker is there and empty
  rintro _ _ hinv₁ ⟨-, rfl⟩
  rw [heffect] at hinv₁ ⊢
  have hfile := created_file d .complete
  refine (keeps_perform (.write .complete (completeBytes o checkpoint)) hinv₁
    (hcompleting.write hinv₁ hfile prefix_rfl).1 fun written _ =>
      (hcompleting.write hinv₁ hfile ( take_prefix written _)).1).bind ?_
  -- written, though a crash may have kept a first part of it only
  rintro _ _ hinv₂ ⟨-, rfl⟩
  obtain ⟨-, hcompleting₂, hfile₂⟩ :=
    hcompleting.write hinv₁ hfile (prefix_refl (completeBytes o checkpoint))
  refine (keeps_syncFile hinv₂ _).bind ?_
  -- the file is synced, and then the directory
  rintro _ d₃ hinv₃ rfl
  refine (keeps_syncTarget hinv₃).mono ?_
  rintro _ _ ⟨-, rfl⟩
  refine ⟨⟨⟨d.files.length, fun s hs => ?_, ?_⟩, checkpoint, rfl, ?_⟩, ?_⟩
  · rw [(survives_nil rfl).1 hs]
    exact (congrFun (modify_names ..) _).trans hcompleting₂.name
  · refine (modify_files .complete _ _).trans ?_
    simp only [Disk.effect]
    rw [hfile₂, Option.map_some]
    simp only [hcompleting₂.name, if_true]
  · simp only [Disk.effect, modify_log]
    exact hverified
  · simp only [Disk.effect, modify_database]
    rfl

lemma keeps_restoreInstallSentinel {ε : Type} (hinv : Inv o kept d) (hbegan : Event.began ∈ d.log)
    (bytes : Bytes) : Keeps o kept (fun _ _ => True) (restoreInstallSentinel bytes : Fs ε Unit) d := by
  have hcreate : Keeps o kept (fun _ _ => True) (do
      perform (.create .installing) id
      perform (.write .installing bytes) id
      perform (.syncFile .installing) id : Fs IoError Unit) d := by
    refine (keeps_create_installing hinv (.inr hbegan)).bind fun _ _ hinv₁ _ => ?_
    refine (keeps_write_installing hinv₁ bytes).bind fun _ _ hinv₂ _ => ?_
    exact (keeps_syncFile hinv₂ _).mono fun _ _ _ => trivial
  refine hcreate.attempt.bind fun restored d₁ hinv₁ _ => ?_
  cases restored with
  | error => exact keeps_pure hinv₁ trivial
  | ok =>
    exact (keeps_syncTarget hinv₁).attempt.bind fun _ _ hinv₂ _ => keeps_pure hinv₂ trivial

lemma keeps_finishInstall (hinv : Inv o kept d) (hcompleted : Completed o d checkpoint)
    (sentinelBytes : Bytes) (phase : String) :
    Keeps o kept (fun _ d' => d'.database = d.database ∧ d'.log = d.log)
      (finishInstall sentinelBytes phase) d := by
  obtain ⟨⟨i, hall, hfile⟩, _, hbytes, hverified⟩ := hcompleted
  rw [← hbytes] at hfile
  have hbegan : Event.began ∈ d.log :=
    hinv.now.begun ⟨.complete, by rw [hall _ (survives_names d)]; exact nofun⟩
  have hremoved := hinv.remove_installing hall hverified hfile
  have heffect : (d.effect (.remove .installing)).2 = d ∨
      (d.effect (.remove .installing)).2 = d.change (.unlink .installing) := by
    simp only [Disk.effect]
    split
    · exact .inr rfl
    · exact .inl rfl
  have hremove : Keeps o kept (fun _ d' => d'.database = d.database ∧ d'.log = d.log)
      removeInstallSentinel d := by
    refine (keeps_perform_whole (.remove .installing) hinv ?_ fun _ _ => rfl).bind ?_
    · rcases heffect with h | h <;> rw [h]
      · exact hinv
      · exact hremoved
    rintro _ d₁ hinv₁ ⟨-, heq⟩
    have hsame : d₁.database = d.database ∧ d₁.log = d.log := by
      rcases heffect with h | h <;> rw [heq, h] <;> exact ⟨rfl, rfl⟩
    exact (keeps_syncTarget hinv₁).mono fun _ d₂ h => by rw [h.2]; exact hsame
  refine hremove.attempt.bind ?_
  rintro (_ | _) _ hinv₁ ⟨hlog, hsame⟩
  · exact (keeps_restoreInstallSentinel hinv₁ (hlog.subset hbegan) _).bind fun _ _ hinv₂ _ =>
      keeps_throw hinv₂ _
  · exact keeps_pure hinv₁ (hsame _ rfl)

omit [Holt] in
lemma markerBytes_length (identity : HoltRecoveryStagingIdentity) (magic : Bytes) :
    (identity.markerBytes magic).length = magic.length + 96 := by
  simp [HoltRecoveryStagingIdentity.markerBytes]

omit [Holt] in
lemma markerBytes_injective (magic : Bytes) {a b : HoltRecoveryStagingIdentity}
    (h : a.markerBytes magic = b.markerBytes magic) : a = b := by
  obtain ⟨⟨_, hdigestA⟩, ⟨_, hcatalogA⟩⟩ := a
  obtain ⟨⟨_, hdigestB⟩, ⟨_, hcatalogB⟩⟩ := b
  simp only [HoltRecoveryStagingIdentity.markerBytes, append_assoc, append_cancel_left_eq] at h
  obtain ⟨rfl, h⟩ := append_inj h (hdigestA.trans hdigestB.symm)
  obtain ⟨rfl, -⟩ := append_inj h (hcatalogA.trans hcatalogB.symm)
  rfl

/-- The completed marker a process reads is the marker of a verified checkpoint. -/
lemma Inv.verified (h : Inv o kept d) {identity : HoltRecoveryStagingIdentity}
    (hsome : (d.names .complete).isSome)
    (hcontent : d.content .complete = identity.markerBytes COMPLETE_MARKER_MAGIC) :
    Held o d ∧ ∃ checkpoint, identity = recoveryStagingIdentity checkpoint (catalogCommitment o.trees) ∧
      Verified d.log checkpoint.image := by
  obtain ⟨i, hi⟩ := Option.isSome_iff_exists.1 hsome
  obtain ⟨hheld, checkpoint, file, hverified, hfile, -, hpart, -⟩ := h.now.stamped .complete i nofun hi
  refine ⟨hheld, checkpoint, markerBytes_injective COMPLETE_MARKER_MAGIC ?_, hverified⟩
  have hread : d.content .complete = file.content := by
    simp [Disk.content, hi, hfile]
  rw [← hcontent, hread]
  refine hpart.eq_of_length ?_
  rw [← hread, hcontent, completeBytes, markerBytes_length, markerBytes_length]

/-- What an installation that returned has made of the directory. -/
structure Installed (o : HoltOptions) (checkpoint : StoreCheckpointEnvelope) (d : Disk) : Prop where
  holds : Holds o d checkpoint.image
  verified : ∃ verified, recoveryStagingIdentity verified (catalogCommitment o.trees) =
    recoveryStagingIdentity checkpoint (catalogCommitment o.trees) ∧ Verified d.log verified.image

/-- A completed marker that is there cannot be lost any more. -/
def CompleteDurable (d : Disk) : Prop :=
  ∀ i, d.names .complete = some i →
    (∀ s, d.Survives s → s .complete = some i) ∧ ∀ file ∈ d.files[i]?, file.synced = true

lemma keeps_reconcile (hinv : Inv o kept d) (hdurable : CompleteDurable d) (sentinelBytes : Bytes) :
    Keeps o kept (fun _ => Installed o checkpoint)
      (reconcileCompletedCheckpoint o checkpoint sentinelBytes (completeBytes o checkpoint)) d := by
  refine keeps_read_mapError (reads_verifyMarkerBytes _ _) hinv fun _ hmarker => ?_
  obtain ⟨hsome, hcontent⟩ := (eval_verifyMarkerBytes _ _).1 hmarker
  obtain ⟨hheld, verified, hidentity, hverified⟩ := hinv.verified hsome hcontent
  obtain ⟨db, hdb, -⟩ := hheld.trees
  -- the complete marker is durable and has the bytes of this checkpoint
  have hcompleted : Completed o { d with log := d.log ++ [.exported checkpoint.image] } checkpoint := by
    obtain ⟨i, hi⟩ := Option.isSome_iff_exists.1 hsome
    obtain ⟨-, -, ⟨marker, content, synced⟩, -, hfile, hcomplete, -⟩ := hinv.now.stamped .complete i nofun hi
    obtain ⟨hall, hsynced⟩ := hdurable i hi
    refine ⟨⟨i, hall, hfile.trans ?_⟩, verified, ?_, hverified.trans (sublist_append_left ..)⟩
    · have hsame : content = completeBytes o checkpoint := by
        simpa [Disk.content, hi, hfile] using hcontent
      rw [show marker = .complete from hcomplete, hsame, show synced = true from hsynced _ hfile]
    · rw [completeBytes, ← hidentity]
      rfl
  refine ((keeps_verifyInstalled hinv (by rw [hdb]; rfl)).mapError _).bind ?_
  rintro _ _ hinv₁ ⟨rfl, hholds⟩
  refine keeps_read_mapError (reads_markerExists _) hinv₁ fun installing _ => ?_
  -- the store is opened as the installed one, with or without the sentinel before
  have hfinish : ∀ d₃, Inv o kept d₃ → d₃.database = d.database →
      d₃.log = d.log ++ [.exported checkpoint.image] →
      Keeps o kept (fun _ => Installed o checkpoint) (fromInstalledCheckpoint o) d₃ := by
    intro d₃ hinv₃ hdatabase hlog
    refine ((reads_fromParts _).keeps hinv₃).mono ?_
    rintro _ _ ⟨rfl, -⟩
    refine ⟨?_, verified, hidentity.symm, ?_⟩
    · obtain ⟨db, hdb, himage⟩ := hholds
      exact ⟨db, hdatabase.trans hdb, himage⟩
    · rw [hlog]
      exact hverified.trans (sublist_append_left ..)
  cases installing with
  | false => exact hfinish _ hinv₁ rfl rfl
  -- the sentinel is left from the install that was interrupted
  | true =>
    refine keeps_read_mapError (reads_verifyMarkerBytes _ _) hinv₁ fun _ _ => ?_
    refine (keeps_finishInstall hinv₁ hcompleted _ _).bind ?_
    rintro _ d₄ hinv₄ ⟨hdatabase, hlog⟩
    exact hfinish d₄ hinv₄ hdatabase hlog

/-- **Installation keeps the invariant** at each of its operations, and what it returns is the
checkpoint. -/
theorem keeps_install (hinv : Inv o kept d) (hdurable : CompleteDurable d) :
    Keeps o kept (fun _ => Installed o checkpoint) (installFreshCheckpoint o checkpoint) d := by
  refine (Keeps.bind (P := fun _ d' => d' = d) ?_ ?_)
  · exact Io.wp_ofExcept ⟨hinv, fun _ _ => rfl⟩
  rintro _ d - rfl
  -- the markers decide: adopted, completed, installing, or none of them
  refine keeps_read_mapError (reads_markerExists _) hinv fun adopted hadopted => ?_
  rw [eval_markerExists] at hadopted
  refine keeps_read (reads_refuseIf _ _) hinv fun _ hnot => ?_
  rw [eval_refuseIf, refuseIf_eq_ok] at hnot
  refine keeps_read_mapError (reads_markerExists _) hinv fun complete hcomplete => ?_
  rw [eval_markerExists] at hcomplete
  cases complete with
  | true => exact keeps_reconcile hinv hdurable _
  | false =>
    refine keeps_read_mapError (reads_markerExists _) hinv fun installing hinstalling => ?_
    rw [eval_markerExists] at hinstalling
    refine keeps_read (reads_refuseIf _ _) hinv fun _ hnone => ?_
    rw [eval_refuseIf, refuseIf_eq_ok] at hnone
    have hempty : ∀ m, d.names m = none := by
      rintro (_ | _ | _)
      · simp_all
      · simp_all
      · simp_all
    -- a fresh directory: the installation marker, the database, the completed marker
    refine ((keeps_prepareFreshTarget hinv hempty).mapError _).bind ?_
    rintro _ _ hinv₁ ⟨hkind, hdatabase, hempty₁⟩
    refine (keeps_create_installing hinv₁ (.inl hdatabase)).bind ?_
    rintro _ _ hinv₂ ⟨-, rfl⟩
    refine ((keeps_installDatabase hinv₂ hkind _ ?_ ?_ ?_).mapError _).bind ?_
    · rw [names_created]
      exact nofun
    · rw [names_created]
      exact hempty₁ .complete
    · rw [names_created]
      exact hempty₁ .adopted
    rintro _ d₃ hinv₃ ⟨hlocked, hsettled, hverified, hholds⟩
    obtain ⟨db, hdb, himage, htrees⟩ := hholds
    have hheld : Held o d₃ := ⟨hlocked.1, hsettled, db, hdb, htrees⟩
    -- from here on a crash finds the completed marker, and the installation marker goes
    refine ((keeps_writeDurableMarker hinv₃ hlocked hheld hverified).mapError _).bind ?_
    rintro _ _ hinv₄ ⟨hcompleted, hsame⟩
    refine keeps_read (reads_fromParts _) hinv₄ fun _ _ => ?_
    refine (keeps_finishInstall hinv₄ hcompleted _ _).mono ?_
    rintro _ _ ⟨hdatabase₆, hlog₆⟩
    obtain ⟨-, verified, hbytes, hverified₅⟩ := hcompleted
    refine ⟨⟨db, hdatabase₆.trans (hsame.trans hdb), himage, htrees⟩, verified,
      markerBytes_injective _ hbytes, ?_⟩
    rw [hlog₆]
    exact hverified₅

end Install

/-! ### Opening and adopting -/

section Adopt

variable {o : HoltOptions} {kept : Option HoltRecoveryStagingIdentity} {d : Disk}
  {identity : HoltRecoveryStagingIdentity}

lemma runWith_reads {ε α β : Type} {p : Fs ε α} {f : α → Fs ε β} {a : α} (h : Reads d p)
    (ha : eval d p = .ok a) :
    (p >>= f).runWith Disk.step .done d = (f a).runWith Disk.step .done d :=
  Io.runWith_bind_of_ok (h.runWith.trans (by rw [ha]))

lemma runWith_perform {ε : Type} (op : Op) (error : IoError → ε) :
    (perform op error).runWith Disk.step .done d = ((d.effect op).1.mapError error, (d.effect op).2) := by
  show Io.runWith _ _ (Io.mapError error (Io.ofExcept (d.effect op).1)) _ = _
  cases (d.effect op).1 <;> rfl

variable [Sha256]

lemma eval_openStore (hinv : Inv o kept d) (h : eval d (openStore o) = .ok ()) :
    Event.began ∉ d.log ∨ (d.names .adopted).isSome := by
  unfold openStore at h
  rw [eval_bind (reads_validateInstallMarkers _ _), bind_eq_ok] at h
  obtain ⟨_, hmarkers, h⟩ := h
  rw [eval_bind reads_requireHoltLocation, bind_eq_ok] at h
  obtain ⟨_, hlocation, -⟩ := h
  obtain ⟨hinstalling, hcomplete, -⟩ := eval_validateInstallMarkers _ _ hmarkers
  obtain ⟨-, hdatabase⟩ := eval_requireHoltLocation.1 hlocation
  by_contra! hcontra
  obtain ⟨hbegan, hadopted⟩ := hcontra
  have hnone : d.database = none := by
    refine hinv.now.marked hbegan fun m => ?_
    cases m with
    | installing => exact hinstalling
    | complete => exact hcomplete rfl
    | adopted => simpa using hadopted
  rw [hnone] at hdatabase
  cases hdatabase

lemma eval_openRecoveryStaging (hinv : Inv o kept d)
    (h : eval d (openRecoveryStaging o identity) = .ok ()) :
    ∃ checkpoint, identity = recoveryStagingIdentity checkpoint (catalogCommitment o.trees) ∧
      Verified d.log checkpoint.image := by
  unfold openRecoveryStaging at h
  rw [eval_bind (reads_refuseIf _ _), bind_eq_ok] at h
  obtain ⟨_, -, h⟩ := h
  rw [eval_bind (reads_validateInstallMarkers _ _), bind_eq_ok] at h
  obtain ⟨_, hmarkers, -⟩ := h
  obtain ⟨hsome, hcontent⟩ := (eval_validateInstallMarkers _ _ hmarkers).2.2 identity rfl
  exact (hinv.verified hsome hcontent).2

lemma keeps_adopt (hinv : Inv o kept d) (hnone : ∀ s, d.Survives s → s .installing = none)
    (identity : HoltRecoveryStagingIdentity) :
    Keeps o kept (fun _ _ => True) (adoptRecoveryStaging o identity) d := by
  refine keeps_read (reads_refuseIf _ _) hinv fun _ _ => ?_
  refine keeps_read (reads_validateRecoveryStagingAdoption _) hinv fun _ _ => ?_
  refine keeps_read reads_requireHoltLocation hinv fun _ hlocation => ?_
  obtain ⟨hkind, hdatabase⟩ := eval_requireHoltLocation.1 hlocation
  refine keeps_read (reads_openDb hdatabase) hinv fun _ _ => ?_
  refine keeps_read reads_prepareTrees hinv fun _ _ => ?_
  refine Keeps.bind (P := fun _ _ => True) ?_ fun _ _ hinv₁ _ => ((reads_fromParts _).keeps hinv₁).mono ?_
  · refine keeps_read (reads_validateRecoveryStagingAdoption _) hinv fun _ _ => ?_
    refine keeps_read_mapError (reads_markerExists _) hinv fun adopted _ => ?_
    cases adopted with
    | true => exact (keeps_syncTarget hinv).mono fun _ _ _ => trivial
    | false =>
      refine (keeps_perform_whole (.rename .complete .adopted) hinv ?_ fun _ _ => rfl).bind ?_
      · simp only [Disk.effect]
        split
        · exact hinv.rename hkind hnone
        · exact hinv
      · rintro _ d₁ hinv₁ -
        exact (keeps_syncTarget hinv₁).mono fun _ _ _ => trivial
  · exact fun _ _ _ => trivial

lemma eval_validateRecoveryStagingAdoption {m other : Marker}
    (hm : m = .complete ∧ other = .adopted ∨ m = .adopted ∧ other = .complete)
    (hinstalling : d.names .installing = none) (hsome : (d.names m).isSome) (hnone : d.names other = none)
    (hcontent : d.content m = identity.markerBytes COMPLETE_MARKER_MAGIC) :
    eval d (validateRecoveryStagingAdoption o identity) = .ok () := by
  unfold validateRecoveryStagingAdoption
  rw [eval_bind reads_rejectIncomplete, eval_rejectIncomplete.2 hinstalling, ok_bind,
    eval_bind (reads_inspectMarkerExists _ _), eval_inspectMarkerExists, ok_bind,
    eval_bind (reads_inspectMarkerExists _ _), eval_inspectMarkerExists, ok_bind]
  have hverify := fun phase => (eval_verifyIdentityMarker (o := o) m identity phase).2 ⟨hsome, hcontent⟩
  rcases hm with ⟨rfl, rfl⟩ | ⟨rfl, rfl⟩
  · rw [hsome, hnone]
    exact hverify _
  · rw [hsome, hnone]
    exact hverify _

lemma adoptMarker_succeeds (hvalid : eval d (validateRecoveryStagingAdoption o identity) = .ok ())
    (hkind : d.kind = some .directory) (hsome : d.names .adopted = none → (d.names .complete).isSome) :
    ∃ d', (adoptRecoveryStagingMarker o identity).runWith Disk.step .done d = (.ok (), d') ∧
      d'.trees = d.trees := by
  have hsync : ∀ {ε : Type} (d : Disk) (error : IoError → ε), d.kind = some .directory →
      (perform .syncTarget error).runWith Disk.step .done d =
        (.ok (), { d with durable := d.names, pending := [] }) := by
    intro ε d error hkind
    rw [runWith_perform]
    simp [Disk.effect, hkind, Except.mapError]
  unfold adoptRecoveryStagingMarker
  rw [runWith_reads (reads_validateRecoveryStagingAdoption _) hvalid,
    runWith_reads ((reads_markerExists _).mapError _) (by rw [eval_mapError, eval_markerExists]; rfl)]
  cases hadopted : d.names .adopted with
  | some => exact ⟨_, hsync d _ hkind, rfl⟩
  | none =>
    have hrename : (perform (.rename .complete .adopted) fun error => StoreError.unavailable
        s!"convert completed Holt recovery staging marker to adopted: {error.text}").runWith Disk.step .done d =
          (.ok (), d.change (.rename .complete .adopted)) := by
      rw [runWith_perform]
      simp [Disk.effect, hsome hadopted, Except.mapError]
    exact ⟨_, (Io.runWith_bind_of_ok hrename).trans (hsync _ _ hkind), rfl⟩

/-- With the marker of the identity and without an installation marker, adoption succeeds. -/
lemma adopt_succeeds (hinv : Inv o (some identity) d) (hnone : d.names .installing = none) :
    ((adoptRecoveryStaging o identity).runWith Disk.step .done d).1 = .ok () := by
  obtain ⟨-, m, i, hm, hi, hfile⟩ := hinv.now.kept identity rfl
  obtain ⟨hheld, _, _, -, hfile', -, -, hwhole⟩ := hinv.now.stamped m i hm hi
  cases hfile.symm.trans hfile'
  -- the marker that is kept was written whole, so it names the identity
  have hidentity := markerBytes_injective _ (hwhole hnone).1
  have hcatalog : identity.catalogCommitment = catalogCommitment o.trees := by
    rw [hidentity]
    rfl
  obtain ⟨_, hdb, htrees⟩ := hheld.trees
  have hdatabase : d.database.isSome := by
    rw [hdb]
    rfl
  have hnames : d.trees.toFinset = o.names.toFinset := by
    simpa [Disk.trees, hdb] using htrees
  have hcontent : d.content m = identity.markerBytes COMPLETE_MARKER_MAGIC := by
    simp [Disk.content, hi, hfile]
  -- one of the two markers stands alone, and the checks accept either
  have hvalid : eval d (validateRecoveryStagingAdoption o identity) = .ok () ∧
      (d.names .adopted = none → (d.names .complete).isSome) := by
    have hsome : (d.names m).isSome := by rw [hi]; rfl
    cases m with
    | installing => exact absurd rfl hm
    | complete =>
      have hadopted := hinv.now.exclusive.resolve_left (by rw [hi]; rintro ⟨⟩)
      exact ⟨eval_validateRecoveryStagingAdoption (.inl ⟨rfl, rfl⟩) hnone hsome hadopted hcontent,
        fun _ => hsome⟩
    | adopted =>
      have hcomplete := hinv.now.exclusive.resolve_right (by rw [hi]; rintro ⟨⟩)
      refine ⟨eval_validateRecoveryStagingAdoption (.inr ⟨rfl, rfl⟩) hnone hsome hcomplete hcontent,
        fun h => ?_⟩
      cases h.symm.trans hi
  obtain ⟨_, hmarker, hsame⟩ := adoptMarker_succeeds hvalid.1 hheld.kind hvalid.2
  -- every check in front of the marker reads the disk as it is
  unfold adoptRecoveryStaging
  rw [runWith_reads (reads_refuseIf _ _) (by rw [eval_refuseIf]; exact refuseIf_of_not (not_not.2 hcatalog)),
    runWith_reads (reads_validateRecoveryStagingAdoption _) hvalid.1,
    runWith_reads reads_requireHoltLocation (eval_requireHoltLocation.2 ⟨hheld.kind, hdatabase⟩),
    runWith_reads (reads_openDb hdatabase) (eval_openDb hdatabase),
    runWith_reads reads_prepareTrees (eval_prepareTrees.2 hnames), Io.runWith_bind_of_ok hmarker]
  exact eval_fromParts _ (by rw [hsame]; exact hnames)

end Adopt

/-! ### Runs -/

inductive Call where
  | install (checkpoint : StoreCheckpointEnvelope)
  | openStore
  | openStaging (identity : HoltRecoveryStagingIdentity)
  | adopt (identity : HoltRecoveryStagingIdentity)

/-- A call with the fates of its operations, which stops where they end; a crash; or writes of an open
store, which are durable and leave the trees as they are. -/
inductive Action where
  | call (call : Call) (fates : List Fate)
  | crash (crash : Disk.Crash)
  | use (image : Bytes)

section Runs

variable [Sha256] (o : HoltOptions)

/-- Whether a program returned, and with success. -/
def report {ε : Type} (p : Fs ε Unit) (d : Disk) (fates : List Fate) : Option Bool × Disk :=
  let r := p.exec Disk.step fates d
  (r.1.map Except.isOk, r.2)

def Call.exec (d : Disk) (fates : List Fate) : Call → Option Bool × Disk
  | .install checkpoint => report (installFreshCheckpoint o checkpoint) d fates
  | .openStore => report (Target.openStore o) d fates
  | .openStaging identity => report (openRecoveryStaging o identity) d fates
  | .adopt identity => report (adoptRecoveryStaging o identity) d fates

def Disk.act (d : Disk) : Action → Disk
  | .call call fates => (call.exec o d fates).2
  | .crash crash => d.crash crash
  | .use rows => { d with database := d.database.map (Holt.write · rows) }

def Disk.acts (d : Disk) (actions : List Action) : Disk := actions.foldl (Disk.act o) d

/-- A directory in which nothing was ever installed. -/
structure Untouched (d : Disk) : Prop where
  log : d.log = []
  durable : ∀ m, d.durable m = none
  pending : d.pending = []
  place : d.kind = some .directory ∨ d.database = none

/-- An installation finds no completed marker that may still be lost, and adoption waits until the
installation marker cannot come back. -/
def Action.Admissible (d : Disk) : Action → Prop
  | .call (.install _) _ => CompleteDurable d
  | .call (.adopt _) _ => ∀ s, d.Survives s → s .installing = none
  | _ => True

/-- Every action is admissible where it is made. -/
def Orderly (d : Disk) : List Action → Prop
  | [] => True
  | action :: actions => action.Admissible d ∧ Orderly (d.act o action) actions

variable {o} {d : Disk} {kept : Option HoltRecoveryStagingIdentity}

lemma Untouched.inv (h : Untouched d) : Inv o none d := by
  have hnone : ∀ s, d.Survives s → ∀ m, s m = none := by
    intro s hs m
    rw [(survives_nil h.pending).1 hs]
    exact h.durable m
  refine ⟨fun s hs => good_of_unmarked (hnone s hs) fun hbegan => ?_, ?_⟩
  · rw [h.log] at hbegan
    cases hbegan
  · exact h.place.imp id fun hdatabase => ⟨hdatabase, hnone⟩

/-- What a run of a program that keeps the invariant leaves. -/
lemma Keeps.exec {ε α : Type} {P : α → Disk → Prop} {p : Fs ε α} (h : Keeps o kept P p d)
    (fates : List Fate) :
    Inv o kept (p.exec Disk.step fates d).2 ∧
      ∀ a, (p.exec Disk.step fates d).1 = some (.ok a) → P a (p.exec Disk.step fates d).2 := by
  have hexec := Io.exec_of_wp h (fun _ _ => trivial : ∀ fate ∈ fates, True)
  split at hexec
  next r d' heq =>
    rw [heq]
    exact ⟨hexec.1, fun a ha => hexec.2 a (Option.some.inj ha)⟩
  next d' heq =>
    rw [heq]
    exact ⟨hexec, nofun⟩

omit [Holt] [Sha256] in
lemma isOk_map {ε : Type} {x : Option (Except ε Unit)} (h : x.map Except.isOk = some true) :
    x = some (.ok ()) := by
  rcases x with _ | (_ | _)
  · cases h
  · cases h
  · rfl

lemma Inv.act (h : Inv o kept d) {action : Action} (hadmissible : action.Admissible d) :
    Inv o kept (d.act o action) := by
  cases action with
  | crash crash => exact h.crash crash
  | use rows =>
    refine h.later { Later.refl d with absent := fun hnone => ?_, present := fun db hdb => ?_ } fun _ => id
    · exact congrArg (Option.map _) hnone
    · exact ⟨Holt.write db rows, congrArg (Option.map _) hdb, Holt.listTrees_write db rows⟩
  | call call fates =>
    cases call with
    | install => exact ((keeps_install h hadmissible).exec fates).1
    | openStore => exact ((reads_openStore.keeps h).exec fates).1
    | openStaging identity => exact (((reads_openRecoveryStaging identity).keeps h).exec fates).1
    | adopt identity => exact ((keeps_adopt h hadmissible identity).exec fates).1

lemma Inv.acts {actions : List Action} (h : Inv o kept d) (horderly : Orderly o d actions) :
    Inv o kept (d.acts o actions) := by
  induction actions generalizing d with
  | nil => exact h
  | cons _ _ ih => exact ih (h.act horderly.1) horderly.2

/-- The completed marker of the identity is durable. -/
def DurablyCompleted (d : Disk) (identity : HoltRecoveryStagingIdentity) : Prop :=
  d.linked = true ∧ ∀ s, d.Survives s → ∃ i, s .complete = some i ∧
    d.files[i]? = some ⟨.complete, identity.markerBytes COMPLETE_MARKER_MAGIC, true⟩

lemma Inv.keep (h : Inv o kept d) {identity : HoltRecoveryStagingIdentity}
    (hdurable : DurablyCompleted d identity) : Inv o (some identity) d := by
  refine ⟨fun s hs => ?_, h.place⟩
  obtain ⟨begun, marked, exclusive, installing, stamped, -⟩ := h.good s hs
  refine ⟨begun, marked, exclusive, installing, stamped, fun id hid => ?_⟩
  cases hid
  obtain ⟨i, hi, hfile⟩ := hdurable.2 s hs
  exact ⟨hdurable.1, .complete, i, nofun, hi, hfile⟩

variable (o)

/-- The calls on a directory, with any failures, and the runs behind it. -/
structure CrashSafe (d : Disk) : Prop where
  /-- An ordinary open succeeds only where no installation began or the adoption took effect. -/
  opened : ∀ fates, (Call.openStore.exec o d fates).1 = some true →
    Event.began ∉ d.log ∨ (d.names .adopted).isSome
  /-- A staging open succeeds only for the identity of a checkpoint that was installed and verified. -/
  staged : ∀ identity fates, ((Call.openStaging identity).exec o d fates).1 = some true →
    ∃ checkpoint, identity = recoveryStagingIdentity checkpoint (catalogCommitment o.trees) ∧
      Verified d.log checkpoint.image
  /-- An installation is refused or yields the database of its checkpoint, whose identity was installed
  and verified. -/
  installed : CompleteDurable d → ∀ checkpoint fates, ((Call.install checkpoint).exec o d fates).1 = some true →
    Installed o checkpoint ((Call.install checkpoint).exec o d fates).2
  /-- Once a completed marker was durable, an adoption none of whose operations fails succeeds. -/
  adopted : ∀ identity, DurablyCompleted d identity → ∀ later, Orderly o d later →
    (Action.call (.adopt identity) []).Admissible (d.acts o later) →
    ((adoptRecoveryStaging o identity).runWith Disk.step .done (d.acts o later)).1 = .ok ()

variable {o}

/-- **Checkpoint installation is crash-safe**, over every orderly run of calls, failures and crashes on a
directory in which nothing was installed before. -/
theorem crash_safe {start : Disk} (hstart : Untouched start) {actions : List Action}
    (horderly : Orderly o start actions) : CrashSafe o (start.acts o actions) := by
  have hinv : Inv o none (start.acts o actions) := hstart.inv.acts horderly
  refine ⟨fun fates hopened => ?_, fun identity fates hstaged => ?_,
    fun hdurable checkpoint fates hinstalled => ?_, fun identity hdurable later hlater hadopt => ?_⟩
  · obtain ⟨-, hok⟩ := (reads_openStore (o := o)).keeps hinv |>.exec fates
    exact eval_openStore hinv (hok _ (isOk_map hopened)).2
  · obtain ⟨-, hok⟩ := (reads_openRecoveryStaging (o := o) identity).keeps hinv |>.exec fates
    exact eval_openRecoveryStaging hinv (hok _ (isOk_map hstaged)).2
  · exact ((keeps_install hinv hdurable).exec fates).2 () (isOk_map hinstalled)
  · exact adopt_succeeds ((hinv.keep hdurable).acts hlater) (hadopt _ (survives_names _))

end Runs

/-! ### A database without a marker -/

section Sample

def emptyTarget : Disk where
  kind := some .directory
  parent := some .directory
  linked := true
  files := []
  durable _ := none
  pending := []
  others := false
  database := none
  settled := true
  log := []

/-- The families of an image: a magic number, a count, and a name and a block for each. -/
def familyNames : ℕ → Bytes → List Bytes
  | 0, _ => []
  | n + 1, bytes =>
    let length := ofBe (bytes.take 4).reverse
    let rest := bytes.drop (4 + length)
    (bytes.drop 4).take length :: familyNames n (rest.drop (4 + ofBe (rest.take 4).reverse))

/-- Databases that keep the image they were installed from. -/
@[reducible] def imageHolt : Holt where
  Database := List Bytes × Bytes
  openDb db := db.getD ([], [])
  installDb _ image := (familyNames (ofBe ((image.drop 8).take 4).reverse) (image.drop 12), image)
  listTrees := Prod.fst
  openTree db name := if name ∈ db.1 then .ok () else .error ⟨.corrupt, "tree not found"⟩
  exportDb := Prod.snd
  write db rows := (db.1, rows)
  openDb_some _ := rfl
  openTree_of_mem _ _ h := if_pos h
  listTrees_write _ _ := rfl

/-- A store with one tree. -/
def sampleOptions : HoltOptions where
  path := "/store"
  trees := OrdMap.empty.insert 1 (utf8 "t")
  limits := ⟨10, 10, 10, 100, 100, 1000, 1000, 100, 1000⟩

/-- The image of its empty database. -/
def sampleImage : Bytes := utf8 "holtdbi1" ++ [1, 0, 0, 0, 1, 0, 0, 0] ++ utf8 "t" ++ [0, 0, 0, 0]

def sampleCheckpoint [Sha256] : StoreCheckpointEnvelope :=
  ⟨HOLT_CHECKPOINT_FORMAT_ID, catalogCommitment sampleOptions.trees, sampleImage⟩

lemma untouched_emptyTarget : Untouched emptyTarget := ⟨rfl, fun _ => rfl, rfl, .inl rfl⟩

omit [Holt] in
/-- An installation, and a crash after it. -/
theorem crash_safe_sample :
    letI := imageHolt
    letI := sha256Digest
    CrashSafe sampleOptions (emptyTarget.acts sampleOptions [
      .call (.install sampleCheckpoint) (List.replicate 24 .done),
      .crash ⟨[], [], none, true⟩]) :=
  @crash_safe imageHolt sha256Digest _ _ (@untouched_emptyTarget imageHolt) _
    ⟨fun _ hcomplete => (nomatch hcomplete), trivial, trivial⟩

/-- The sync of the directory fails once the completed marker is written. The installation is repeated at
once: it finds the marker and unlinks the installation marker before it syncs the directory. A crash then
keeps the unlinking and loses the marker. -/
def lostMarker [Sha256] : List Action := [
  .call (.install sampleCheckpoint)
    (List.replicate 20 .done ++ [.failed ⟨.other, "Input/output error"⟩ false 0 none]),
  .call (.install sampleCheckpoint) (List.replicate 11 .done),
  .crash ⟨[false, true], [], none, false⟩]

/-- A crash between the durable completed marker and the removal of the installation marker. -/
def stoppedInstall [Sha256] : List Action := [
  .call (.install sampleCheckpoint) (List.replicate 21 .done),
  .crash ⟨[], [], none, false⟩]

omit [Holt] in
/-- **Without order**: a database that was installed and not adopted opens as an ordinary one, and adoption
is refused while the installation marker is there, the completed one being durable. -/
theorem disorderly_runs :
    letI := imageHolt
    letI := sha256Digest
    (let d := emptyTarget.acts sampleOptions lostMarker
     (Call.openStore.exec sampleOptions d (List.replicate 13 .done)).1 = some true ∧
       Event.began ∈ d.log ∧ d.names .adopted = none) ∧
    (let d := emptyTarget.acts sampleOptions stoppedInstall
     let identity := recoveryStagingIdentity sampleCheckpoint (catalogCommitment sampleOptions.trees)
     d.pending = [] ∧ d.durable .complete = some 1 ∧
       d.files[1]? = some ⟨.complete, identity.markerBytes COMPLETE_MARKER_MAGIC, true⟩ ∧
       ((Call.adopt identity).exec sampleOptions d (List.replicate 13 .done)).1 = some false) := by
  decide +kernel

end Sample

end NoKV.Store.Target
