import NoKV.Store.Checkpoint

/-!
# Markers and crashes

What the markers of a target directory stand for in every directory that a crash may leave, and the
operations that keep it so.

* `Reads`, `eval`, `wp_reads`: a program that only reads goes as on the state it finds, or fails;
* `Good`, `Inv`: a completed or adopted marker is (a part of) the marker of a checkpoint that was
  installed and verified, all of it once the installation marker is gone;
* `Inv.crash`, and one lemma for each change the adapter makes.
-/

namespace NoKV.Store.Target

open Lib List

variable [Holt]

/-! ### Programs that only read -/

section Reads

variable {ε ε' α β : Type} {d : Disk} {p : Fs ε α}

/-- Some operation may fail. -/
def Fails (F : Fate → Prop) : Prop := ∃ fate, F fate ∧ fate ≠ .done

/-- The outcome when no operation fails. -/
def eval (d : Disk) (p : Fs ε α) : Except ε α := (p.runWith Disk.step .done d).1

/-- No operation of the program changes the state, and every failure ends it. -/
def Reads (d : Disk) : Fs ε α → Prop
  | .pure _ => True
  | .fail _ => True
  | .call op k => (∀ fate, (Disk.step op fate d).2 = d) ∧ (∀ error, ∃ e, k (.error error) = .fail e) ∧
      Reads d (k (d.effect op).1)

lemma eval_call {op : Op} {k : Except IoError op.Answer → Fs ε α} (h : (Disk.step op .done d).2 = d) :
    eval d (.call op k) = eval d (k (d.effect op).1) := by
  show (Io.runWith _ _ (k (Disk.step op .done d).1) (Disk.step op .done d).2).1 = _
  rw [h]
  rfl

lemma Reads.runWith (h : Reads d p) : p.runWith Disk.step .done d = (eval d p, d) := by
  induction p with
  | pure => rfl
  | fail => rfl
  | call op k ih =>
    have hstate := h.1 .done
    show Io.runWith _ _ (k (Disk.step op .done d).1) (Disk.step op .done d).2 =
      ((Io.runWith _ _ (k (Disk.step op .done d).1) (Disk.step op .done d).2).1, d)
    rw [hstate]
    exact ih _ h.2.2

lemma wp_reads {F : Fate → Prop} {C : Disk → Prop} {Q : Except ε α → Disk → Prop} (h : Reads d p)
    (hstop : C d) (hok : Q (eval d p) d) (hfail : ∀ e, Fails F → Q (.error e) d) : p.wp Disk.step F C Q d := by
  induction p with
  | pure a | fail e => exact hok
  | call _ k ih =>
    refine ⟨hstop, fun fate hfate => ?_⟩
    have hstate := h.1
    rw [hstate]
    cases fate with
    | done =>
      refine ih _ h.2.2 ?_
      rw [eval_call (hstate .done)] at hok
      exact hok
    | failed error =>
      obtain ⟨e, he⟩ := h.2.1 error
      show Io.wp _ F C Q (k (.error error)) d
      rw [he]
      exact hfail e ⟨_, hfate, nofun⟩

lemma Reads.bind {f : α → Fs ε β} (h : Reads d p) (hf : ∀ a, eval d p = .ok a → Reads d (f a)) :
    Reads d (p >>= f) := by
  induction p with
  | pure a => exact hf a rfl
  | fail => trivial
  | call _ _ ih =>
    refine ⟨h.1, fun error => ?_, ih _ h.2.2 fun a ha => hf a ?_⟩
    · obtain ⟨e, he⟩ := h.2.1 error
      exact ⟨e, congrArg (Io.bind · f) he⟩
    · rw [eval_call (h.1 .done)]
      exact ha

lemma Reads.mapError (h : Reads d p) (f : ε → ε') : Reads d (p.mapError f) := by
  induction p with
  | pure a | fail e => trivial
  | call _ _ ih =>
    refine ⟨h.1, fun error => ?_, ih _ h.2.2⟩
    obtain ⟨e, he⟩ := h.2.1 error
    exact ⟨f e, congrArg (Io.mapError f) he⟩

lemma reads_perform {op : Op} (h : ∀ fate, (Disk.step op fate d).2 = d) (error : IoError → ε) :
    Reads d (perform op error) := by
  refine ⟨h, fun e => ⟨error e, rfl⟩, ?_⟩
  cases (d.effect op).1 <;> trivial

lemma reads_refuseIf (c : Prop) [Decidable c] (e : ε) : Reads d (refuseIf c e : Fs ε Unit) := by
  unfold refuseIf
  split <;> trivial

lemma eval_bind {f : α → Fs ε β} (h : Reads d p) : eval d (p >>= f) = eval d p >>= fun a => eval d (f a) := by
  induction p with
  | pure => rfl
  | fail => rfl
  | call op k ih =>
    show eval d (.call op fun answer => (k answer).bind f) = _
    rw [eval_call (h.1 .done), eval_call (h.1 .done)]
    exact ih _ h.2.2

lemma eval_mapError (p : Fs ε α) (f : ε → ε') : eval d (p.mapError f) = (eval d p).mapError f := by
  generalize d = s
  induction p generalizing s with
  | pure => rfl
  | fail => rfl
  | call _ _ ih => exact ih _ _

@[simp] lemma eval_pure (a : α) : eval d (pure a : Fs ε α) = .ok a := rfl

@[simp] lemma eval_throw (e : ε) : eval d (throw e : Fs ε α) = .error e := rfl

@[simp] lemma eval_refuseIf (c : Prop) [Decidable c] (e : ε) :
    eval d (refuseIf c e : Fs ε Unit) = refuseIf c e := by
  unfold refuseIf
  split <;> rfl

@[simp] lemma eval_perform (op : Op) (error : IoError → ε) :
    eval d (perform op error) = (d.effect op).1.mapError error := by
  show (Io.runWith _ _ (Io.mapError error (Io.ofExcept (d.effect op).1)) _).1 = _
  cases (d.effect op).1 <;> rfl

end Reads

/-! ### Reading markers -/

section Read

variable {d : Disk} {ε : Type} {error : IoError → ε}

lemma reads_metadata (path : Path) : Reads d (perform (.metadata path) error) :=
  reads_perform (fun fate => by cases fate <;> simp [Disk.step, Disk.effect, Disk.interrupted]) _

lemma reads_readDir : Reads d (perform .readDir error) := by
  refine reads_perform (fun fate => ?_) _
  cases fate <;> simp only [Disk.step, Disk.effect, Disk.interrupted] <;> split <;> (try split) <;> rfl

lemma reads_read (m : Marker) : Reads d (perform (.read m) error) :=
  reads_perform (fun fate => by cases fate <;> simp [Disk.step, Disk.effect, Disk.interrupted]) _

lemma reads_listTrees : Reads d (perform .listTrees error) :=
  reads_perform (fun fate => by cases fate <;> simp [Disk.step, Disk.effect, Disk.interrupted]) _

lemma reads_openTree (name : Bytes) : Reads d (perform (.openTree name) error) :=
  reads_perform (fun fate => by cases fate <;> simp [Disk.step, Disk.effect, Disk.interrupted]) _

lemma reads_openDb (h : d.database.isSome) : Reads d (perform .openDb error) := by
  obtain ⟨db, hdb⟩ := Option.isSome_iff_exists.1 h
  refine reads_perform (fun fate => ?_) _
  have hopen : { d with database := some db, settled := d.settled } = d := by rw [← hdb]
  cases fate <;> simp [Disk.step, Disk.effect, Disk.interrupted, hdb, Holt.openDb_some, hopen]

lemma eval_openDb (h : d.database.isSome) : eval d (perform .openDb error) = .ok () := by
  obtain ⟨_, hdb⟩ := Option.isSome_iff_exists.1 h
  rw [eval_perform]
  simp [Disk.effect, hdb, Except.mapError]

def Disk.content (d : Disk) (m : Marker) : Bytes :=
  ((d.names m).bind fun file => d.files[file]?.map File.content).getD []

lemma reads_markerExists (m : Marker) : Reads d (markerExists m) :=
  (reads_metadata _).bind fun _ _ => trivial

@[simp] lemma eval_markerExists (m : Marker) : eval d (markerExists m) = .ok (d.names m).isSome := by
  unfold markerExists
  rw [eval_bind (reads_metadata _), eval_perform]
  simp only [Disk.effect, Disk.kindOf]
  cases d.names m <;> rfl

variable {o : HoltOptions}

lemma reads_inspectMarkerExists (m : Marker) (phase : String) : Reads d (inspectMarkerExists o m phase) :=
  (reads_markerExists m).mapError _

@[simp] lemma eval_inspectMarkerExists (m : Marker) (phase : String) :
    eval d (inspectMarkerExists o m phase) = .ok (d.names m).isSome := by
  unfold inspectMarkerExists
  rw [eval_mapError, eval_markerExists]
  rfl

lemma reads_rejectIncomplete : Reads d (rejectIncompleteInstallMarker o) :=
  (reads_inspectMarkerExists _ _).bind fun _ _ => reads_refuseIf _ _

lemma eval_rejectIncomplete :
    eval d (rejectIncompleteInstallMarker o) = .ok () ↔ d.names .installing = none := by
  unfold rejectIncompleteInstallMarker
  rw [eval_bind (reads_inspectMarkerExists _ _), eval_inspectMarkerExists, ok_bind, eval_refuseIf,
    refuseIf_eq_ok]
  simp

lemma reads_readExactMarker (m : Marker) (n : ℕ) : Reads d (readExactMarker o m n) := by
  refine (reads_metadata _).bind fun kind _ => ?_
  rcases kind with _ | _ | length | _
  · trivial
  · trivial
  · exact (reads_refuseIf _ _).bind fun _ _ => reads_read m
  · trivial

lemma eval_readExactMarker (m : Marker) (n : ℕ) (bytes : Bytes) :
    eval d (readExactMarker o m n) = .ok bytes ↔
      (d.names m).isSome ∧ d.content m = bytes ∧ bytes.length = n := by
  unfold readExactMarker
  rw [eval_bind (reads_metadata _), eval_perform]
  simp only [Disk.effect, Disk.kindOf, Disk.content]
  cases hname : d.names m with
  | none => simp [Except.mapError]
  | some file =>
    simp only [Option.map_some, Except.mapError, ok_bind, Option.isSome_some, Option.bind_some, true_and]
    rw [eval_bind (reads_refuseIf _ _), eval_refuseIf, bind_eq_ok]
    have hread : eval d (perform (.read m) fun error => s!"read marker {markerPath o.path m}: {error.text}") =
        .ok ((d.files[file]?.map File.content).getD []) := by
      rw [eval_perform]
      simp only [Disk.effect, hname, Except.mapError]
    simp only [refuseIf_eq_ok, not_not]
    rw [hread]
    constructor
    · rintro ⟨-, hlength, heq⟩
      cases heq
      exact ⟨rfl, hlength⟩
    · rintro ⟨rfl, hlength⟩
      exact ⟨(), hlength, rfl⟩

lemma reads_verifyMarkerBytes (m : Marker) (bytes : Bytes) : Reads d (verifyMarkerBytes o m bytes) :=
  (reads_readExactMarker m _).bind fun _ _ => reads_refuseIf _ _

lemma eval_verifyMarkerBytes (m : Marker) (bytes : Bytes) :
    eval d (verifyMarkerBytes o m bytes) = .ok () ↔ (d.names m).isSome ∧ d.content m = bytes := by
  unfold verifyMarkerBytes
  rw [eval_bind (reads_readExactMarker m _), bind_eq_ok]
  simp only [eval_readExactMarker, eval_refuseIf, refuseIf_eq_ok, not_not]
  constructor
  · rintro ⟨_, ⟨hname, hcontent, -⟩, rfl⟩
    exact ⟨hname, hcontent⟩
  · rintro ⟨hname, hcontent⟩
    exact ⟨_, ⟨hname, hcontent, rfl⟩, rfl⟩

end Read

/-! ### The directories a crash may leave -/

section Survives

variable {d : Disk} {s : Names} {c : Change}

lemma survives_names (d : Disk) : d.Survives d.names := ⟨d.pending, .refl _, rfl⟩

lemma survives_change :
    (d.change c).Survives s ↔ d.Survives s ∨ ∃ s', d.Survives s' ∧ s = c.apply s' := by
  constructor
  · rintro ⟨kept, hkept, rfl⟩
    obtain ⟨front, _, rfl, hfront, hback⟩ := sublist_append_iff.1 hkept
    rcases sublist_singleton.1 hback with rfl | rfl
    · exact .inl ⟨front, hfront, by rw [append_nil]; rfl⟩
    · exact .inr ⟨_, ⟨front, hfront, rfl⟩, foldl_concat ..⟩
  · rintro (⟨kept, hkept, rfl⟩ | ⟨_, ⟨kept, hkept, rfl⟩, rfl⟩)
    · exact ⟨kept, hkept.trans (sublist_append_left ..), rfl⟩
    · exact ⟨kept ++ [c], hkept.append (.refl _), by rw [foldl_concat]; rfl⟩

lemma survives_nil (h : d.pending = []) : d.Survives s ↔ s = d.durable := by
  constructor
  · rintro ⟨_, hkept, rfl⟩
    rw [h] at hkept
    rw [sublist_nil.1 hkept]
    rfl
  · rintro rfl
    exact ⟨[], nil_sublist _, rfl⟩

omit [Holt] in
lemma keep_sublist (changes : List Change) (kept : List Bool) : (Disk.keep changes kept).Sublist changes := by
  induction changes generalizing kept with
  | nil => cases kept <;> exact .slnil
  | cons change _ ih =>
    rcases kept with _ | ⟨_ | _, kept⟩
    · exact nil_sublist _
    · exact (ih kept).cons change
    · exact (ih kept).cons_cons change

omit [Holt] in
@[simp] lemma apply_link (m : Marker) (i : ℕ) (s : Names) (m' : Marker) :
    (Change.link m i).apply s m' = if m' = m then some i else s m' := Function.update_apply ..

omit [Holt] in
@[simp] lemma apply_unlink (m : Marker) (s : Names) (m' : Marker) :
    (Change.unlink m).apply s m' = if m' = m then none else s m' := Function.update_apply ..

section

variable (m : Marker) (f : File → File)
include m f

lemma modify_files (j : ℕ) :
    (d.modify m f).files[j]? = d.files[j]?.map fun file => if d.names m = some j then f file else file := by
  unfold Disk.modify
  cases d.names m with
  | none => simp
  | some =>
    rw [getElem?_modify]
    cases d.files[j]? <;> simp

@[simp] lemma modify_names : (d.modify m f).names = d.names := by
  unfold Disk.modify
  split <;> rfl

@[simp] lemma modify_database : (d.modify m f).database = d.database := by
  unfold Disk.modify
  split <;> rfl

@[simp] lemma modify_kind : (d.modify m f).kind = d.kind := by
  unfold Disk.modify
  split <;> rfl

@[simp] lemma modify_log : (d.modify m f).log = d.log := by
  unfold Disk.modify
  split <;> rfl

end

lemma effect_log (op : Op) : d.log.Sublist (d.effect op).2.log := by
  cases op with
  | create =>
    simp only [Disk.effect]
    split
    · exact .refl _
    split
    · exact .refl _
    split
    · exact sublist_append_left ..
    · exact .refl _
  | write m bytes | syncFile m => simp [Disk.effect]
  | installDb image | exportDb => exact sublist_append_left ..
  | _ => simp only [Disk.effect]; first | exact .refl _ | (split <;> exact .refl _)

lemma step_log (op : Op) (fate : Fate) (d : Disk) : d.log.Sublist (Disk.step op fate d).2.log := by
  cases fate with
  | done => exact effect_log op
  | failed _ took written left =>
    cases took with
    | true => exact effect_log op
    | false =>
      show d.log.Sublist (d.interrupted written left op).log
      unfold Disk.interrupted
      split
      · simp
      · split <;> exact .refl _
      · exact .refl _
      · exact .refl _

end Survives

/-! ### Later states -/

section Later

variable {d d' : Disk} {s : Names}

/-- A later state of the disk: files may grow and be synced where no completed marker is written, and the
database keeps its trees. -/
structure Later (d d' : Disk) : Prop where
  files : ∀ (i : ℕ) (file : File), d.files[i]? = some file → ∃ file' : File, d'.files[i]? = some file' ∧
    file'.marker = file.marker ∧
    (file.marker = .complete → file'.content = file.content ∧ (file.synced = true → file'.synced = true))
  log : d.log.Sublist d'.log
  began : Event.began ∈ d'.log → Event.began ∈ d.log ∨ d.database = none
  kind : d.kind = some .directory → d'.kind = some .directory
  linked : d.linked = true → d'.linked = true
  settled : d.settled = true → d'.settled = true
  absent : d.database = none → d'.database = none
  present : ∀ db, d.database = some db →
    ∃ db', d'.database = some db' ∧ Holt.listTrees db' = Holt.listTrees db

lemma Later.refl (d : Disk) : Later d d :=
  ⟨fun _ file hfile => ⟨file, hfile, rfl, fun _ => ⟨rfl, id⟩⟩, .refl _, .inl, id, id, id, id,
    fun db hdb => ⟨db, hdb, rfl⟩⟩

lemma later_change (d : Disk) (c : Change) : Later d (d.change c) := { Later.refl d with }

def Disk.created (d : Disk) (m : Marker) : Disk :=
  { d with
    files := d.files ++ [⟨m, [], false⟩]
    pending := d.pending ++ [.link m d.files.length]
    log := if m = .installing then d.log ++ [.began] else d.log }

lemma survives_created {m : Marker} : (d.created m).Survives s ↔
    d.Survives s ∨ ∃ s', d.Survives s' ∧ s = (Change.link m d.files.length).apply s' :=
  survives_change (d := d)

lemma names_created (d : Disk) (m m' : Marker) :
    (d.created m).names m' = if m' = m then some d.files.length else d.names m' :=
  (congrFun (foldl_concat ..) m').trans (apply_link ..)

lemma created_file (d : Disk) (m : Marker) : (d.created m).files[d.files.length]? = some ⟨m, [], false⟩ := by
  simp [Disk.created]

lemma later_created {m : Marker} (h : m = .installing → d.database = none ∨ Event.began ∈ d.log) :
    Later d (d.created m) := by
  have hlog : d.log.Sublist (d.created m).log := by
    unfold Disk.created
    split
    · exact sublist_append_left ..
    · exact .refl _
  refine { Later.refl d with files := fun i file hfile => ?_, log := hlog, began := fun hbegan => ?_ }
  · refine ⟨file, ?_, rfl, fun _ => ⟨rfl, id⟩⟩
    exact (getElem?_append_left (List.getElem?_eq_some_iff.1 hfile).1).trans hfile
  · by_cases hm : m = .installing
    · exact (h hm).symm
    · unfold Disk.created at hbegan
      rw [if_neg hm] at hbegan
      exact .inl hbegan

end Later

/-! ### What the markers stand for -/

section Invariant

variable [Sha256] {o : HoltOptions} {kept : Option HoltRecoveryStagingIdentity} {d d' : Disk} {s : Names}

/-- The completed marker of a checkpoint. -/
def completeBytes (o : HoltOptions) (checkpoint : StoreCheckpointEnvelope) : Bytes :=
  (recoveryStagingIdentity checkpoint (catalogCommitment o.trees)).markerBytes COMPLETE_MARKER_MAGIC

/-- The image was installed, and a database was found to export it. -/
def Verified (log : List Event) (image : Bytes) : Prop :=
  [Event.installed image, .exported image].Sublist log

/-- The database of the directory is durable and has the trees of the options. -/
structure Held (o : HoltOptions) (d : Disk) : Prop where
  kind : d.kind = some .directory
  settled : d.settled = true
  trees : ∃ db, d.database = some db ∧ (Holt.listTrees db).toFinset = o.names.toFinset

/-- The file is a part of the completed marker of a verified checkpoint, and all of it without an
installation marker. -/
def Stamped (o : HoltOptions) (d : Disk) (s : Names) (i : ℕ) : Prop :=
  ∃ checkpoint file, Verified d.log checkpoint.image ∧ d.files[i]? = some file ∧ file.marker = .complete ∧
    file.content <+: completeBytes o checkpoint ∧
    (s .installing = none → file.content = completeBytes o checkpoint ∧ file.synced = true)

/-- A directory that may be found: `s` are its markers. With `kept`, it still has the durable marker of
that identity. -/
structure Good (o : HoltOptions) (kept : Option HoltRecoveryStagingIdentity) (d : Disk) (s : Names) : Prop where
  begun : (∃ m, s m ≠ none) → Event.began ∈ d.log
  marked : Event.began ∈ d.log → (∀ m, s m = none) → d.database = none
  exclusive : s .complete = none ∨ s .adopted = none
  installing : ∀ i, s .installing = some i → ∃ file, d.files[i]? = some file ∧ file.marker = .installing
  stamped : ∀ m i, m ≠ .installing → s m = some i → Held o d ∧ Stamped o d s i
  kept : ∀ identity ∈ kept, d.linked = true ∧ ∃ m i, m ≠ .installing ∧ s m = some i ∧
    d.files[i]? = some ⟨.complete, identity.markerBytes COMPLETE_MARKER_MAGIC, true⟩

structure Inv (o : HoltOptions) (kept : Option HoltRecoveryStagingIdentity) (d : Disk) : Prop where
  good : ∀ s, d.Survives s → Good o kept d s
  place : d.kind = some .directory ∨ d.database = none ∧ ∀ s, d.Survives s → ∀ m, s m = none

lemma Inv.now (h : Inv o kept d) : Good o kept d d.names := h.good _ (survives_names d)

/-- A directory without markers, where nothing began or no database is left. -/
lemma good_of_unmarked (hnone : ∀ m, s m = none) (hdatabase : Event.began ∈ d.log → d.database = none) :
    Good o none d s := by
  refine ⟨fun ⟨m, hm⟩ => absurd (hnone m) hm, fun hbegan _ => hdatabase hbegan, .inl (hnone _), fun i hi => ?_,
    fun m i _ hi => ?_, fun _ hid => nomatch hid⟩
  · cases (hnone _).symm.trans hi
  · cases (hnone _).symm.trans hi

omit [Holt] in
omit [Sha256] in
/-- Without an adopted marker, a marker that stands for a checkpoint is the completed one. -/
lemma complete_of_some {m : Marker} {i : ℕ} (hm : m ≠ .installing) (hadopted : s .adopted = none)
    (hi : s m = some i) : s .complete = some i := by
  cases m with
  | installing => exact absurd rfl hm
  | complete => exact hi
  | adopted => cases hadopted.symm.trans hi

/-- Every directory that may be found is being installed and not complete. -/
def Locked (d : Disk) : Prop :=
  d.kind = some .directory ∧
    ∀ s, d.Survives s → s .installing ≠ none ∧ s .complete = none ∧ s .adopted = none

omit [Sha256] in
lemma Later.held (h : Later d d') (hheld : Held o d) : Held o d' := by
  obtain ⟨db, hdb, htrees⟩ := hheld.trees
  obtain ⟨db', hdb', hsame⟩ := h.present db hdb
  exact ⟨h.kind hheld.kind, h.settled hheld.settled, db', hdb', by rw [hsame, htrees]⟩

lemma Good.later (hgood : Good o kept d s) (h : Later d d') : Good o kept d' s := by
  refine ⟨fun hm => h.log.subset (hgood.begun hm), ?_, hgood.exclusive, ?_, ?_, ?_⟩
  · intro hbegan hnone
    obtain hbegan | hdatabase := h.began hbegan
    · exact h.absent (hgood.marked hbegan hnone)
    · exact h.absent hdatabase
  · intro i hi
    obtain ⟨file, hfile, hmarker⟩ := hgood.installing i hi
    obtain ⟨file', hfile', hmarker', -⟩ := h.files i file hfile
    exact ⟨file', hfile', hmarker'.trans hmarker⟩
  · intro m i hm hi
    obtain ⟨hheld, checkpoint, file, hverified, hfile, hmarker, _, hwhole⟩ := hgood.stamped m i hm hi
    obtain ⟨file', hfile', hmarker', hsame⟩ := h.files i file hfile
    obtain ⟨hcontent, hsynced⟩ := hsame hmarker
    refine ⟨h.held hheld, checkpoint, file', hverified.trans h.log, hfile', hmarker'.trans hmarker,
      by rwa [hcontent], fun hnone => ?_⟩
    rw [hcontent]
    exact ⟨(hwhole hnone).1, hsynced (hwhole hnone).2⟩
  · intro identity hidentity
    obtain ⟨hlinked, m, i, hm, hi, hfile⟩ := hgood.kept identity hidentity
    obtain ⟨⟨marker, content, synced⟩, hfile', hmarker, hsame⟩ := h.files i _ hfile
    obtain ⟨hcontent, hsynced⟩ := hsame rfl
    refine ⟨h.linked hlinked, m, i, hm, hi, hfile'.trans ?_⟩
    rw [show marker = .complete from hmarker, show content = _ from hcontent,
      show synced = true from hsynced rfl]

section

variable (h : Inv o kept d)
include h

lemma Inv.later (hlater : Later d d') (hsurvives : ∀ s, d'.Survives s → d.Survives s) : Inv o kept d' := by
  refine ⟨fun s hs => (h.good s (hsurvives s hs)).later hlater, ?_⟩
  obtain hkind | ⟨hdatabase, hnone⟩ := h.place
  · exact .inl (hlater.kind hkind)
  · exact .inr ⟨hlater.absent hdatabase, fun s hs => hnone s (hsurvives s hs)⟩

/-! ### Operations that keep it -/

lemma Inv.later_modify {m : Marker} {f : File → File}
    (hf : ∀ file i, d.names m = some i → d.files[i]? = some file → (f file).marker = file.marker ∧
      (file.marker = .complete →
        (f file).content = file.content ∧ (file.synced = true → (f file).synced = true))) :
    Inv o kept (d.modify m f) := by
  have hfiles := fun j => modify_files (d := d) m f j
  unfold Disk.modify at hfiles ⊢
  cases hname : d.names m with
  | none => exact h
  | some =>
    rw [hname] at hfiles
    refine h.later { Later.refl d with files := fun i file hfile => ⟨_, by rw [hfiles i, hfile]; rfl, ?_⟩ }
      fun _ => id
    split
    next heq => exact hf file i (hname.trans heq) hfile
    next => exact ⟨rfl, fun _ => ⟨rfl, id⟩⟩

lemma Inv.write_installing (bytes : Bytes) : Inv o kept (d.modify .installing (Disk.append bytes)) := by
  refine h.later_modify fun file i hname hfile => ⟨rfl, fun hmarker => ?_⟩
  obtain ⟨_, hfile', hmarker'⟩ := h.now.installing i hname
  cases hfile.symm.trans hfile'
  cases hmarker.symm.trans hmarker'

lemma Inv.syncFile (m : Marker) : Inv o kept (d.modify m fun file => { file with synced := true }) :=
  h.later_modify fun _ _ _ _ => ⟨rfl, fun _ => ⟨rfl, fun _ => rfl⟩⟩

lemma Inv.syncTarget : Inv o kept { d with durable := d.names, pending := [] } := by
  refine h.later { Later.refl d with } fun s hs => ?_
  rw [(survives_nil rfl).1 hs]
  exact survives_names d

lemma Inv.logged {event : Event} (hevent : event ≠ .began) :
    Inv o kept { d with log := d.log ++ [event] } := by
  refine h.later { Later.refl d with log := sublist_append_left .., began := fun hbegan => ?_ } fun _ => id
  rcases mem_append.1 hbegan with hbegan | hbegan
  · exact .inl hbegan
  · exact absurd (mem_singleton.1 hbegan).symm hevent

end

variable {i : ℕ} {checkpoint : StoreCheckpointEnvelope}

/-- With an installation marker the completed marker need not be whole. -/
lemma Good.link_installing (h : Good o kept d s) {file : File} (hbegan : Event.began ∈ d.log)
    (hfile : d.files[i]? = some file) (hmarker : file.marker = .installing) :
    Good o kept d ((Change.link .installing i).apply s) := by
  have hother : ∀ m, m ≠ .installing → (Change.link .installing i).apply s m = s m := fun m hm => by
    rw [apply_link, if_neg hm]
  refine ⟨fun _ => hbegan, fun _ hnone => ?_, ?_, fun j hj => ?_, fun m j hm hj => ?_, fun identity hid => ?_⟩
  · have := hnone .installing
    simp at this
  · rw [hother .complete nofun, hother .adopted nofun]
    exact h.exclusive
  · simp only [apply_link, if_true, Option.some.injEq] at hj
    subst hj
    exact ⟨file, hfile, hmarker⟩
  · rw [hother m hm] at hj
    obtain ⟨hheld, checkpoint, file, hverified, hfile, hcomplete, hpart, -⟩ := h.stamped m j hm hj
    refine ⟨hheld, checkpoint, file, hverified, hfile, hcomplete, hpart, fun hnone => ?_⟩
    simp at hnone
  · obtain ⟨hlinked, m, j, hm, hj, hkept⟩ := h.kept identity hid
    exact ⟨hlinked, m, j, hm, by rw [hother m hm, hj], hkept⟩

lemma Inv.create_installing (h : Inv o kept d) (hkind : d.kind = some .directory)
    (hbegun : d.database = none ∨ Event.began ∈ d.log) : Inv o kept (d.created .installing) := by
  have hlater := later_created (m := .installing) fun _ => hbegun
  refine ⟨fun s hs => ?_, .inl hkind⟩
  obtain hs | ⟨s', hs', rfl⟩ := survives_created.1 hs
  · exact (h.good s hs).later hlater
  · refine ((h.good s' hs').later hlater).link_installing ?_ (created_file d _) rfl
    simp [Disk.created]

/-- Without a completed or adopted marker there is no identity to keep. -/
lemma Locked.kept_eq_none (h : Inv o kept d) (hlocked : Locked d) : kept = none := by
  rw [Option.eq_none_iff_forall_not_mem]
  intro identity hid
  obtain ⟨-, m, i, hm, hi, -⟩ := h.now.kept identity hid
  obtain ⟨-, hcomplete, hadopted⟩ := hlocked.2 _ (survives_names d)
  cases hcomplete.symm.trans (complete_of_some hm hadopted hi)

/-- While the installation marker is durable, the database may become anything. -/
lemma Inv.of_locked (h : Inv o kept d) (hlocked : Locked d) (database : Option Holt.Database) (settled : Bool)
    {log : List Event} (hlog : d.log.Sublist log) :
    Inv o kept { d with database := database, settled := settled, log := log } := by
  refine ⟨fun s hs => ?_, .inl hlocked.1⟩
  have hgood := h.good s hs
  obtain ⟨hinstalling, hcomplete, hadopted⟩ := hlocked.2 s hs
  refine ⟨fun hm => hlog.subset (hgood.begun hm), fun _ hnone => absurd (hnone _) hinstalling, hgood.exclusive,
    hgood.installing, fun m i hm hi => ?_, fun identity hid => ?_⟩
  · cases hcomplete.symm.trans (complete_of_some hm hadopted hi)
  · cases (hlocked.kept_eq_none h).symm ▸ hid

/-- A completed marker is being written. -/
structure Completing (o : HoltOptions) (d : Disk) (i : ℕ) (checkpoint : StoreCheckpointEnvelope) : Prop where
  verified : Verified d.log checkpoint.image
  held : Held o d
  name : d.names .complete = some i
  dirs : ∀ s, d.Survives s →
    s .installing ≠ none ∧ s .adopted = none ∧ (s .complete = none ∨ s .complete = some i)

/-- While a completed marker is being written, a part of it is there. -/
lemma Completing.inv (hc : Completing o d i checkpoint) (h : Inv o none d')
    (hsurvives : ∀ s, d.Survives s → ∃ s', d'.Survives s' ∧ s' .installing = s .installing)
    (hbegan : Event.began ∈ d.log) (hfiles : ∀ (j : ℕ) (file : File), d'.files[j]? = some file →
      file.marker = .installing → d.files[j]? = some file) {file : File} (hfile : d.files[i]? = some file)
    (hmarker : file.marker = .complete) (hpart : file.content <+: completeBytes o checkpoint) :
    Inv o none d := by
  refine ⟨fun s hs => ?_, .inl hc.held.kind⟩
  obtain ⟨hinstalling, hadopted, hcomplete⟩ := hc.dirs s hs
  refine ⟨fun _ => hbegan, fun _ hnone => absurd (hnone _) hinstalling, .inr hadopted, fun j hj => ?_,
    fun m j hm hj => ⟨hc.held, checkpoint, file, hc.verified, ?_, hmarker, hpart, fun hnone => ?_⟩,
    fun _ hid => nomatch hid⟩
  · obtain ⟨s', hs', hsame⟩ := hsurvives s hs
    obtain ⟨file', hfile', hmarker'⟩ := (h.good s' hs').installing j (hsame.trans hj)
    exact ⟨file', hfiles j file' hfile' hmarker', hmarker'⟩
  · replace hj := complete_of_some hm hadopted hj
    obtain hnone | hsome := hcomplete
    · cases hnone.symm.trans hj
    · cases hsome.symm.trans hj
      exact hfile
  · exact absurd hnone hinstalling

lemma Inv.create_complete (h : Inv o kept d) (hlocked : Locked d)
    (hverified : Verified d.log checkpoint.image) (hheld : Held o d) :
    Inv o kept (d.created .complete) ∧ Completing o (d.created .complete) d.files.length checkpoint := by
  obtain rfl := hlocked.kept_eq_none h
  have hbegan : Event.began ∈ d.log := h.now.begun ⟨_, (hlocked.2 _ (survives_names d)).1⟩
  have hlater : Later d (d.created .complete) := later_created nofun
  have hold : ∀ s, (d.created .complete).Survives s → ∃ s', d.Survives s' ∧ s' .installing = s .installing := by
    intro s hs
    obtain hs | ⟨s', hs', rfl⟩ := survives_created.1 hs
    · exact ⟨s, hs, rfl⟩
    · exact ⟨s', hs', rfl⟩
  have hcompleting : Completing o (d.created .complete) d.files.length checkpoint := by
    refine ⟨hverified, hlater.held hheld, names_created d _ _, fun s hs => ?_⟩
    obtain hs | ⟨s', hs', rfl⟩ := survives_created.1 hs
    · obtain ⟨hinstalling, hcomplete, hadopted⟩ := hlocked.2 s hs
      exact ⟨hinstalling, hadopted, .inl hcomplete⟩
    · obtain ⟨hinstalling, -, hadopted⟩ := hlocked.2 s' hs'
      exact ⟨hinstalling, hadopted, .inr rfl⟩
  refine ⟨hcompleting.inv h hold hbegan (fun j file hfile _ => ?_) (created_file d _) rfl nil_prefix,
    hcompleting⟩
  exact (getElem?_append_left (List.getElem?_eq_some_iff.1 hfile).1).trans hfile

/-- The bytes of the new completed marker are written, or the first of them. -/
lemma Completing.write (hc : Completing o d i checkpoint) (h : Inv o none d) {bytes : Bytes}
    {synced : Bool} (hfile : d.files[i]? = some ⟨.complete, [], synced⟩)
    (hpart : bytes <+: completeBytes o checkpoint) :
    Inv o none (d.modify .complete (Disk.append bytes)) ∧
      Completing o (d.modify .complete (Disk.append bytes)) i checkpoint ∧
      (d.modify .complete (Disk.append bytes)).files[i]? = some ⟨.complete, bytes, false⟩ := by
  have hfiles := fun j => modify_files (d := d) .complete (Disk.append bytes) j
  have hbegan : Event.began ∈ d.log := h.now.begun ⟨_, (hc.dirs _ (survives_names d)).1⟩
  unfold Disk.modify at hfiles ⊢
  rw [hc.name] at hfiles ⊢
  have hnew := hfiles i
  rw [hfile] at hnew
  simp only [Option.map_some, if_true, Disk.append, nil_append] at hnew
  have hcompleting : Completing o { d with files := d.files.modify i (Disk.append bytes) } i checkpoint :=
    ⟨hc.verified, ⟨hc.held.kind, hc.held.settled, hc.held.trees⟩, hc.name, hc.dirs⟩
  refine ⟨hcompleting.inv h (fun s hs => ⟨s, hs, rfl⟩) hbegan (fun j file hj hmarker => ?_) hnew rfl hpart,
    hcompleting, hnew⟩
  refine (hfiles j).trans ?_
  rw [hj, Option.map_some, if_neg]
  rintro heq
  cases heq
  cases hj.symm.trans hfile
  cases hmarker

/-- The installation marker may go once the completed marker is durable. -/
lemma Inv.remove_installing (h : Inv o kept d) (hall : ∀ s, d.Survives s → s .complete = some i)
    (hverified : Verified d.log checkpoint.image)
    (hfile : d.files[i]? = some ⟨.complete, completeBytes o checkpoint, true⟩) :
    Inv o kept (d.change (.unlink .installing)) := by
  refine ⟨fun s hs => ?_, .inl (h.place.resolve_right fun hplace => ?_)⟩
  · refine Good.later (d := d) ?_ (later_change ..)
    obtain hold | ⟨s, hold, rfl⟩ := survives_change.1 hs
    · exact h.good s hold
    have hgood := h.good s hold
    have hcomplete := hall s hold
    have hadopted : s .adopted = none := hgood.exclusive.resolve_left (by rw [hcomplete]; exact nofun)
    have hother : ∀ m, m ≠ .installing → (Change.unlink .installing).apply s m = s m := fun m hm => by
      rw [apply_unlink, if_neg hm]
    refine ⟨fun _ => hgood.begun ⟨.complete, by rw [hcomplete]; exact nofun⟩, fun _ hnone => ?_, .inr ?_,
      fun j hj => ?_, fun m j hm hj => ?_, fun identity hid => ?_⟩
    · cases hcomplete.symm.trans ((hother .complete nofun).symm.trans (hnone .complete))
    · rw [hother .adopted nofun, hadopted]
    · simp at hj
    · rw [hother m hm] at hj
      obtain ⟨hheld, -⟩ := hgood.stamped m j hm hj
      refine ⟨hheld, checkpoint, ⟨.complete, completeBytes o checkpoint, true⟩, hverified, ?_, rfl,
        prefix_rfl, fun _ => ⟨rfl, rfl⟩⟩
      cases hcomplete.symm.trans (complete_of_some hm hadopted hj)
      exact hfile
    · obtain ⟨hlinked, m, j, hm, hj, hkept⟩ := hgood.kept identity hid
      exact ⟨hlinked, m, j, hm, by rw [hother m hm, hj], hkept⟩
  · cases (hall _ (survives_names d)).symm.trans (hplace.2 _ (survives_names d) .complete)

/-- The completed marker may become the adopted one where no installation marker can come back. -/
lemma Inv.rename (h : Inv o kept d) (hkind : d.kind = some .directory)
    (hnone : ∀ s, d.Survives s → s .installing = none) :
    Inv o kept (d.change (.rename .complete .adopted)) := by
  refine ⟨fun s hs => ?_, .inl hkind⟩
  refine Good.later (d := d) ?_ (later_change ..)
  obtain hold | ⟨s, hold, rfl⟩ := survives_change.1 hs
  · exact h.good s hold
  have hgood := h.good s hold
  cases hcomplete : s .complete with
  | none =>
    simp only [Change.apply, hcomplete]
    exact hgood
  | some i =>
    have hadopted : s .adopted = none := hgood.exclusive.resolve_left (by rw [hcomplete]; exact nofun)
    obtain ⟨hheld, checkpoint, file, hverified, hfile, hmarker, hpart, hwhole⟩ :=
      hgood.stamped .complete i nofun hcomplete
    simp only [Change.apply, hcomplete]
    refine ⟨fun _ => hgood.begun ⟨.complete, by rw [hcomplete]; exact nofun⟩, fun _ hall => ?_, .inl rfl,
      fun j hj => ?_, fun m j hm hj => ?_, fun identity hid => ?_⟩
    · cases hall .adopted
    · cases (hnone s hold).symm.trans hj
    · cases m with
      | installing => exact absurd rfl hm
      | complete => cases hj
      | adopted =>
        cases hj
        exact ⟨hheld, checkpoint, file, hverified, hfile, hmarker, hpart, fun _ => hwhole (hnone s hold)⟩
    · obtain ⟨hlinked, m, j, hm, hj, hkept⟩ := hgood.kept identity hid
      cases hcomplete.symm.trans (complete_of_some hm hadopted hj)
      exact ⟨hlinked, .adopted, i, nofun, rfl, hkept⟩

lemma Inv.crash (h : Inv o kept d) (c : Disk.Crash) : Inv o kept (d.crash c) := by
  unfold Disk.crash
  split
  next hlost =>
    -- no marker of a verified checkpoint is in a directory that can be lost
    have hkept : kept = none := by
      rw [Option.eq_none_iff_forall_not_mem]
      intro identity hid
      obtain ⟨hlinked, -⟩ := h.now.kept identity hid
      simp [hlinked] at hlost
    subst hkept
    have hgone : ∀ s, Disk.Survives { d with
        kind := none, linked := true, durable := fun _ => none, pending := [], others := false,
        database := none } s → ∀ m, s m = none := by
      intro s hs m
      rw [(survives_nil rfl).1 hs]
    exact ⟨fun s hs => good_of_unmarked (hgone s hs) fun _ => rfl, .inr ⟨rfl, hgone⟩⟩
  next =>
    -- what a crash leaves, another crash could have left before
    have hold : ∀ s, Disk.Survives { d with
        linked := true
        files := d.files.mapIdx fun i file => Disk.File.torn file (c.lengths.getD i 0)
        durable := (Disk.keep d.pending c.kept).foldl (fun names change => change.apply names) d.durable
        pending := []
        database := if d.settled then d.database else d.database.bind fun _ => c.left
        settled := true } s → d.Survives s := by
      intro s hs
      rw [(survives_nil rfl).1 hs]
      exact ⟨_, keep_sublist _ _, rfl⟩
    -- files keep their place and marker, and synced ones their bytes
    have hfiles : ∀ (i : ℕ) (file : File), d.files[i]? = some file →
        (d.files.mapIdx fun i file => Disk.File.torn file (c.lengths.getD i 0))[i]? =
          some (Disk.File.torn file (c.lengths.getD i 0)) := by
      intro i file hfile
      rw [getElem?_mapIdx, hfile]
      rfl
    have hmarker : ∀ (file : File) (n : ℕ), (Disk.File.torn file n).marker = file.marker := by
      intro file n
      unfold Disk.File.torn
      split <;> rfl
    have hsynced : ∀ (file : File) (n : ℕ), file.synced = true → Disk.File.torn file n = file := by
      intro file n hsynced
      rw [Disk.File.torn, if_pos hsynced]
    refine ⟨fun s hs => ?_, ?_⟩
    · have hgood := h.good s (hold s hs)
      refine ⟨hgood.begun, fun hbegan hnone => ?_, hgood.exclusive, fun i hi => ?_, fun m i hm hi => ?_,
        fun identity hid => ?_⟩
      · simp [hgood.marked hbegan hnone]
      · obtain ⟨file, hfile, hinstalling⟩ := hgood.installing i hi
        exact ⟨_, hfiles i file hfile, (hmarker _ _).trans hinstalling⟩
      · -- a marker may be torn only while the installation marker is there
        obtain ⟨hheld, checkpoint, file, hverified, hfile, hcomplete, hpart, hwhole⟩ := hgood.stamped m i hm hi
        refine ⟨⟨hheld.kind, rfl, ?_⟩, checkpoint, _, hverified, hfiles i file hfile,
          (hmarker _ _).trans hcomplete, ?_, fun hnone => ?_⟩
        · simpa [hheld.settled] using hheld.trees
        · unfold Disk.File.torn
          split
          · exact hpart
          · exact List.IsPrefix.trans ( take_prefix _ _) hpart
        · rw [hsynced file _ (hwhole hnone).2]
          exact hwhole hnone
      · obtain ⟨-, m, i, hm, hi, hkept⟩ := hgood.kept identity hid
        exact ⟨rfl, m, i, hm, hi, (hfiles i _ hkept).trans (by rw [hsynced _ _ rfl])⟩
    · -- the directory itself
      obtain hkind | ⟨hdatabase, hnone⟩ := h.place
      · exact .inl hkind
      · exact .inr ⟨by simp [hdatabase], fun s hs => hnone s (hold s hs)⟩

end Invariant

end NoKV.Store.Target
