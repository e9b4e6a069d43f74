import NoKV.Control.Owner

/-!
# The durable recovery frontier

What the recovery frontier of a shard guarantees over every sequence of calls, by any owners.

* `FrontierInv.covered`: the checkpoint and the log segments cover the log from 1 to the durable LSN
  without a gap;
* `Progress`: from one moment to a later one the durable LSN does not fall, its digest does not change
  while it stands, and published segments stay in front unless a checkpoint covers them all;
* `durable_frontier`: both hold in every run.
-/

namespace NoKV.Control

open Lib RecordError ControlError List

/-! ### Contiguous segments -/

/-- The segments continue LSN `start` without a gap and end at LSN `stop`. -/
def Contiguous (start : ℕ) : List LogSegmentRef → ℕ → Prop
  | [], stop => start = stop
  | segment :: rest, stop => segment.firstLsn.toNat = start + 1 ∧
    segment.firstLsn.toNat ≤ segment.lastLsn.toNat ∧ Contiguous segment.lastLsn.toNat rest stop

variable {segments : List LogSegmentRef} {walk next : LogWalk} {record : LogicalShardRecord}
  {checkpoint : Option CheckpointRef} {log : LogRef} {state : State}

lemma Contiguous.le {start stop : ℕ} (h : Contiguous start segments stop) : start ≤ stop := by
  induction segments generalizing start with
  | nil => exact le_of_eq h
  | cons _ _ ih =>
    obtain ⟨_, _, hrest⟩ := h
    have := ih hrest
    omega

lemma Contiguous.start_lt {start stop : ℕ} (h : Contiguous start segments stop) :
    ∀ segment ∈ segments, start < segment.firstLsn.toNat := by
  induction segments generalizing start with
  | nil => exact fun segment hmem => absurd hmem not_mem_nil
  | cons _ _ ih =>
    obtain ⟨_, _, hrest⟩ := h
    intro other hmem
    rcases mem_cons.1 hmem with rfl | hmem
    · omega
    · have := ih hrest other hmem
      omega

lemma checkLogSegment_ok {segment : LogSegmentRef} (h : checkLogSegment walk segment = .ok next) :
    next.previous = some segment ∧ 1 ≤ segment.firstLsn.toNat ∧
      segment.firstLsn.toNat ≤ segment.lastLsn.toNat ∧
      ∀ previous, walk.previous = some previous →
        segment.firstLsn.toNat = previous.lastLsn.toNat + 1 := by
  unfold checkLogSegment at h
  simp only [bind_eq_ok, refuseIf_eq_ok, ifSome_eq_ok, okOr_eq_ok, pure_eq_ok, not_or, not_not,
    ne_eq] at h
  obtain ⟨_, _, _, _, _, _, _, _, _, _, _, ⟨hzero, hrange⟩, _, hprevious, rfl⟩ := h
  refine ⟨rfl, ?_, ?_, fun previous hwalk => ?_⟩
  · have : segment.firstLsn.toNat ≠ 0 := fun h => hzero (UInt64.toNat_inj.1 h)
    omega
  · rw [UInt64.lt_iff_toNat_lt] at hrange
    omega
  · obtain ⟨_, hexpected, heq⟩ := hprevious previous hwalk
    rw [heq]
    exact checkedAdd_eq_some.1 hexpected

/-- A walked log is contiguous from its first segment to its last. -/
lemma contiguous_of_walk {start : ℕ} (h : segments.foldlM checkLogSegment walk = .ok next)
    (hstart : ∀ segment, segments.head? = some segment → segment.firstLsn.toNat = start + 1) :
    Contiguous start segments (segments.getLast?.elim start fun last => last.lastLsn.toNat) := by
  induction segments generalizing walk start with
  | nil => exact rfl
  | cons segment rest ih =>
    obtain ⟨_, hwalked, h⟩ := bind_eq_ok.1 h
    obtain ⟨hprevious, _, hrange, _⟩ := checkLogSegment_ok hwalked
    refine ⟨hstart segment rfl, hrange, ?_⟩
    -- the next segment starts behind this one
    have hnext : ∀ other, rest.head? = some other → other.firstLsn.toNat = segment.lastLsn.toNat + 1 := by
      intro other hother
      cases rest with
      | nil => cases hother
      | cons _ =>
        cases hother
        obtain ⟨_, hstep, _⟩ := bind_eq_ok.1 h
        exact (checkLogSegment_ok hstep).2.2.2 segment hprevious
    have hrest := ih h hnext
    cases rest with
    | nil => exact hrest
    | cons => rwa [getLast?_cons_cons]

/-! ### What an accepted log says -/

/-- A log that passed its checks behind a checkpoint at `start`. -/
structure LogOk (start : ℕ) (log : LogRef) : Prop where
  nonempty : log.segments ≠ []
  pos : 1 ≤ log.durableLsn.toNat
  start_le : start ≤ log.durableLsn.toNat
  contiguous : start < log.durableLsn.toNat → Contiguous start log.segments log.durableLsn.toNat

lemma walk_pos {last : LogSegmentRef} (h : segments.foldlM checkLogSegment walk = .ok next)
    (hlast : segments.getLast? = some last) : 1 ≤ last.lastLsn.toNat := by
  cases segments with
  | nil => cases hlast
  | cons segment rest =>
    have hhead := h
    obtain ⟨_, hstep, _⟩ := bind_eq_ok.1 hhead
    obtain ⟨_, _⟩ := checkLogSegment_ok hstep
    have hcontiguous : Contiguous (segment.firstLsn.toNat - 1) (segment :: rest) _ :=
      contiguous_of_walk h fun other hother => by cases hother; omega
    rw [hlast] at hcontiguous
    obtain ⟨_, _, hrest⟩ := hcontiguous
    have := hrest.le
    simp only [Option.elim_some] at this
    omega

lemma validateLogRef_ok {incoming : Option CheckpointRef} (h : validateLogRef record incoming log = .ok ()) :
    LogOk (checkpointLsn (incoming.or record.checkpoint)).toNat log ∧
      ∀ current, record.log = some current →
        (checkpointLsn (incoming.or record.checkpoint)).toNat < current.durableLsn.toNat →
        current.durableLsn.toNat < log.durableLsn.toNat → current.segments <+: log.segments := by
  unfold validateLogRef at h
  simp only [bind_eq_ok, refuseIf_eq_ok, ifSome_eq_ok, okOr_eq_ok, not_not, ne_eq] at h
  obtain ⟨_, hne, _, _, _, _, _, hstart, _, hwalk, _, hfirst, _, hbehind, _, hlast, _, hlsn, _, _,
    hkeep⟩ := h
  generalize checkpointLsn (incoming.or record.checkpoint) = start at *
  rw [UInt64.lt_iff_toNat_lt] at hstart
  refine ⟨⟨hne, hlsn ▸ walk_pos hwalk hlast, by omega, fun hlt => ?_⟩, fun current hcurrent hcovered hlonger => ?_⟩
  · have hcontiguous := contiguous_of_walk hwalk fun segment hsegment => by
      cases hfirst.symm.trans hsegment
      unfold checkFirstSegment at hbehind
      rw [if_pos (UInt64.lt_iff_toNat_lt.2 hlt)] at hbehind
      obtain ⟨_, hexpected, hbehind⟩ := bind_eq_ok.1 hbehind
      rw [of_refuseIf_not hbehind]
      exact checkedAdd_eq_some.1 (okOr_eq_ok.1 hexpected)
    rw [hlast, Option.elim_some, hlsn] at hcontiguous
    exact hcontiguous
  · have hnot := hkeep current hcurrent
    have htake : log.segments.take current.segments.length = current.segments := by
      by_contra hne
      exact hnot ⟨hcovered, hlonger, Or.inr hne⟩
    exact htake ▸ take_prefix ..

/-! ### Valid records -/

def logLsn (log : Option LogRef) : UInt64 := log.elim 0 LogRef.durableLsn

lemma referenceLsn_toNat (checkpoint : Option CheckpointRef) (log : Option LogRef) :
    (referenceLsn checkpoint log).toNat = max (checkpointLsn checkpoint).toNat (logLsn log).toNat := by
  cases checkpoint with
  | none => cases log <;> simp [referenceLsn, checkpointLsn, logLsn]
  | some checkpoint =>
    cases log with
    | none => simp [referenceLsn, checkpointLsn, logLsn]
    | some log =>
      show (if checkpoint.lsn ≤ log.durableLsn then log.durableLsn else checkpoint.lsn).toNat =
        max checkpoint.lsn.toNat log.durableLsn.toNat
      split
      next h => rw [UInt64.le_iff_toNat_le] at h; omega
      next h => rw [UInt64.le_iff_toNat_le] at h; omega

lemma validate_frontier (h : validateLogicalShardRecord record = .ok ()) :
    (∀ log, record.log = some log → LogOk (checkpointLsn record.checkpoint).toNat log) ∧
      (∀ intent, record.pendingRecoveryUpload = some intent →
        checkRecoveryUploadIntent record intent = .ok ()) ∧
      record.durableLsn.toNat = max (checkpointLsn record.checkpoint).toNat (logLsn record.log).toNat := by
  replace h := ok_of_bind h
  replace h := ok_of_bind h
  replace h := ok_of_bind h
  obtain ⟨_, hlog, h⟩ := bind_eq_ok.1 h
  obtain ⟨_, hpending, h⟩ := bind_eq_ok.1 h
  obtain ⟨hlsn, h⟩ := refuseIf_not_bind h
  refine ⟨fun log hsome => ?_, fun intent hsome => ?_, ?_⟩
  · exact (validateLogRef_ok (mapError_eq_ok.1 (ifSome_eq_ok.1 hlog log hsome))).1
  · obtain ⟨_, hintent, _⟩ := bind_eq_ok.1 (ifSome_eq_ok.1 hpending intent hsome)
    exact mapError_eq_ok.1 (mapError_eq_ok.1 hintent)
  · rw [← referenceLsn_toNat]
    exact congrArg UInt64.toNat hlsn

/-- A valid record whose log reaches beyond its checkpoint. -/
structure FrontierInv (record : LogicalShardRecord) : Prop where
  valid : validateLogicalShardRecord record = .ok ()
  beyond : ∀ log, record.log = some log →
    (checkpointLsn record.checkpoint).toNat < log.durableLsn.toNat

/-- The digest at the end of a frontier. -/
def tailDigest (record : LogicalShardRecord) : Option String :=
  match record.log with
  | some log => some log.digest
  | none => record.checkpoint.map CheckpointRef.digest

namespace FrontierInv

variable {record : LogicalShardRecord}

variable (h : FrontierInv record)
include h

lemma durable_of_log {log : LogRef} (hlog : record.log = some log) : record.durableLsn = log.durableLsn := by
  have hlsn := (validate_frontier h.valid).2.2
  have hbeyond := h.beyond log hlog
  rw [hlog] at hlsn
  simp only [logLsn, Option.elim_some] at hlsn
  exact UInt64.toNat_inj.1 (by omega)

lemma durable_of_no_log (hlog : record.log = none) : record.durableLsn = checkpointLsn record.checkpoint := by
  have hlsn := (validate_frontier h.valid).2.2
  rw [hlog] at hlsn
  simp only [logLsn, Option.elim_none, UInt64.toNat_zero, Nat.max_zero] at hlsn
  exact UInt64.toNat_inj.1 hlsn

/-- The checkpoint and the segments cover the whole log. -/
lemma covered :
    Contiguous (checkpointLsn record.checkpoint).toNat (segmentsOf record.log) record.durableLsn.toNat := by
  cases hlog : record.log with
  | none =>
    rw [h.durable_of_no_log hlog]
    exact rfl
  | some log =>
    rw [h.durable_of_log hlog]
    exact ((validate_frontier h.valid).1 log hlog).contiguous (h.beyond log hlog)

/-- The recorded digest is the digest of the log, or of the checkpoint when there is no log. -/
lemma durableTailDigest_eq : durableTailDigest record = .ok (tailDigest record) := by
  unfold durableTailDigest tailDigest
  cases hlog : record.log with
  | none =>
    have hdurable := h.durable_of_no_log hlog
    cases hcheckpoint : record.checkpoint with
    | none => rfl
    | some checkpoint =>
      rw [hcheckpoint] at hdurable
      have hlsn : checkpoint.lsn = record.durableLsn := hdurable.symm
      simp only [Option.filter_some, hlsn, decide_true, if_true]
      rfl
  | some log =>
    have hdurable := h.durable_of_log hlog
    have hbeyond := h.beyond log hlog
    have hnone : record.checkpoint.filter (fun checkpoint => checkpoint.lsn = record.durableLsn) = none := by
      cases hcheckpoint : record.checkpoint with
      | none => rfl
      | some checkpoint =>
        rw [hcheckpoint] at hbeyond
        rw [Option.filter_some, if_neg]
        intro heq
        have heq : checkpoint.lsn = log.durableLsn := (of_decide_eq_true heq).trans hdurable
        exact absurd (congrArg UInt64.toNat heq) (Nat.ne_of_lt hbeyond)
    rw [hnone, hdurable]
    simp only [Option.filter_some, decide_true, if_true]
    rfl

lemma pending {intent : RecoveryUploadIntent} (hpending : record.pendingRecoveryUpload = some intent) :
    intent.firstLsn.toNat = record.durableLsn.toNat + 1 ∧
      ∀ digest, durableTailDigest record = .ok (some digest) → intent.previousChainDigest = digest := by
  have hcheck := (validate_frontier h.valid).2.1 intent hpending
  unfold checkRecoveryUploadIntent at hcheck
  simp only [bind_eq_ok, refuseIf_eq_ok, ifSome_eq_ok, okOr_eq_ok, not_not, ne_eq] at hcheck
  obtain ⟨_, _, _, _, _, _, _, _, _, _, _, _, _, hexpected, _, hfirst, _, htail, hprevious⟩ :=
    hcheck
  refine ⟨?_, fun digest hdigest => ?_⟩
  · rw [hfirst]
    exact checkedAdd_eq_some.1 hexpected
  · cases htail.symm.trans hdigest
    exact hprevious digest rfl

end FrontierInv

/-! ### Progress -/

/-- How a frontier changes from one moment to a later one. -/
structure Progress (earlier later : LogicalShardRecord) : Prop where
  durable : earlier.durableLsn.toNat ≤ later.durableLsn.toNat
  checkpoint : (checkpointLsn earlier.checkpoint).toNat ≤ (checkpointLsn later.checkpoint).toNat
  tail : later.durableLsn = earlier.durableLsn → ∀ digest, tailDigest earlier = some digest →
    tailDigest later = some digest
  segments : ∀ log, earlier.log = some log →
    (∃ log', later.log = some log' ∧ log.segments <+: log'.segments) ∨
      log.durableLsn.toNat ≤ (checkpointLsn later.checkpoint).toNat

lemma SameFrontier.progress {earlier later : LogicalShardRecord} (h : SameFrontier earlier later) :
    Progress earlier later := by
  refine ⟨by rw [h.durableLsn], by rw [h.checkpoint], fun _ digest hdigest => ?_, fun log hlog => ?_⟩
  · unfold tailDigest at hdigest ⊢
    rwa [h.log, h.checkpoint]
  · exact Or.inl ⟨log, h.log.trans hlog, prefix_rfl⟩

lemma Progress.refl (record : LogicalShardRecord) : Progress record record :=
  (SameFrontier.refl record).progress

lemma Progress.trans {a b c : LogicalShardRecord} (ha : FrontierInv a) (hb : FrontierInv b)
    (hab : Progress a b) (hbc : Progress b c) : Progress a c := by
  refine ⟨hab.durable.trans hbc.durable, hab.checkpoint.trans hbc.checkpoint,
    fun heq digest hdigest => ?_, fun log hlog => ?_⟩
  · -- the frontier stands still in between as well
    have hac := congrArg UInt64.toNat heq
    have h₁ := hab.durable
    have h₂ := hbc.durable
    have hb : b.durableLsn = a.durableLsn := UInt64.toNat_inj.1 (by omega)
    exact hbc.tail (heq.trans hb.symm) digest (hab.tail hb digest hdigest)
  · rcases hab.segments log hlog with ⟨log', hlog', hprefix⟩ | hcovered
    · rcases hbc.segments log' hlog' with ⟨log'', hlog'', hprefix'⟩ | hcovered
      · exact Or.inl ⟨log'', hlog'', hprefix.trans hprefix'⟩
      · right
        have hle := hab.durable
        rw [ha.durable_of_log hlog, hb.durable_of_log hlog'] at hle
        exact hle.trans hcovered
    · exact Or.inr (hcovered.trans hbc.checkpoint)

/-- What an accepted publication says. -/
structure PublicationOk (record : LogicalShardRecord) (publication : RecoveryPublication) : Prop where
  durable : publication.durableLsn.toNat =
    max (checkpointLsn publication.checkpoint).toNat (logLsn publication.log).toNat
  checkpoint : ∀ checkpoint, publication.checkpoint = some checkpoint →
    record.durableLsn.toNat ≤ checkpoint.lsn.toNat
  log : ∀ log, publication.log = some log → record.durableLsn.toNat ≤ log.durableLsn.toNat ∧
    validateLogRef record publication.checkpoint log = .ok ()
  same : ∀ log current, publication.log = some log → record.log = some current →
    current.durableLsn = log.durableLsn → current = log
  digest : ∀ digest, durableTailDigest record = .ok (some digest) →
    (∀ checkpoint, publication.checkpoint = some checkpoint → checkpoint.lsn = record.durableLsn →
      checkpoint.digest = digest) ∧
    (∀ log, publication.log = some log → log.durableLsn = record.durableLsn → log.digest = digest)

lemma checkPublication_ok {publication : RecoveryPublication}
    (h : checkPublication record publication = .ok ()) : PublicationOk record publication := by
  unfold checkPublication at h
  simp only [bind_eq_ok, refuseIf_eq_ok, ifSome_eq_ok, not_not, not_and, ne_eq] at h
  obtain ⟨_, hdurable, _, hcheckpoint, _, hlog, _, _, _, htail, hdigest⟩ := h
  refine ⟨?_, fun checkpoint hsome => ?_, fun log hsome => ?_, fun log current hsome hcurrent => ?_,
    fun digest heq => ?_⟩
  · rw [hdurable, referenceLsn_toNat]
  · have := hcheckpoint checkpoint hsome
    rw [UInt64.lt_iff_toNat_lt] at this
    omega
  · obtain ⟨_, hle, _, hvalid, _⟩ := hlog log hsome
    rw [UInt64.lt_iff_toNat_lt] at hle
    exact ⟨by omega, hvalid⟩
  · obtain ⟨_, _, _, _, hsame⟩ := hlog log hsome
    exact hsame current hcurrent
  · cases htail.symm.trans heq
    obtain ⟨_, hfirst, hsecond⟩ := hdigest digest rfl
    exact ⟨hfirst, hsecond⟩

lemma logBeyond_of_lt (h : (checkpointLsn checkpoint).toNat < log.durableLsn.toNat) :
    logBeyond checkpoint (some log) = some log := by
  unfold logBeyond
  cases checkpoint with
  | none => rfl
  | some checkpoint =>
    have h : ¬ log.durableLsn ≤ checkpoint.lsn := by
      exact Nat.not_le.2 h
    simp [Option.filter_some, h]

lemma logBeyond_of_le {checkpoint : CheckpointRef} {log : Option LogRef}
    (h : (logLsn log).toNat ≤ checkpoint.lsn.toNat) : logBeyond (some checkpoint) log = none := by
  cases log with
  | none => rfl
  | some log =>
    have h : log.durableLsn ≤ checkpoint.lsn := UInt64.le_iff_toNat_le.2 h
    simp [logBeyond, Option.filter_some, h]

lemma logBeyond_eq_some {log : Option LogRef} {kept : LogRef} (h : logBeyond checkpoint log = some kept) :
    log = some kept ∧ ∀ c, checkpoint = some c → c.lsn.toNat < kept.durableLsn.toNat := by
  obtain ⟨hlog, hbeyond⟩ := Option.filter_eq_some_iff.1 h
  refine ⟨hlog, fun c hc => ?_⟩
  rw [hc] at hbeyond
  simp only [Option.any_some, decide_eq_true_eq, decide_not, Bool.not_eq_eq_eq_not, Bool.not_true,
    decide_eq_false_iff_not, UInt64.le_iff_toNat_le] at hbeyond
  omega

section Publish

variable {record : LogicalShardRecord} {publication : RecoveryPublication}

/-- A publication covers the frontier it is merged into. -/
lemma PublicationOk.durable_le (hok : PublicationOk record publication)
    (hsome : ¬ (publication.checkpoint = none ∧ publication.log = none)) :
    record.durableLsn.toNat ≤ publication.durableLsn.toNat := by
  rw [hok.durable]
  cases hcheckpoint : publication.checkpoint with
  | some checkpoint => exact le_max_of_le_left (hok.checkpoint checkpoint hcheckpoint)
  | none =>
    cases hlog : publication.log with
    | some log => exact le_max_of_le_right (hok.log log hlog).1
    | none => exact absurd ⟨hcheckpoint, hlog⟩ hsome

variable (hinv : FrontierInv record) (hok : PublicationOk record publication)
include hinv hok

/-- A published checkpoint covers the checkpoint and the log that are there. -/
lemma merge_progress_checkpoint {checkpoint : CheckpointRef}
    (hcheckpoint : publication.checkpoint = some checkpoint) :
    Progress record (mergePublication record publication) := by
  have hle := hok.checkpoint checkpoint hcheckpoint
  have hlsn := (validate_frontier hinv.valid).2.2
  have hmerged : (mergePublication record publication).checkpoint = some checkpoint := by
    simp [mergePublication, hcheckpoint]
  have hdurable := hok.durable
  rw [hcheckpoint] at hdurable
  refine ⟨hok.durable_le fun h => absurd (h.1.symm.trans hcheckpoint) nofun, ?_,
    fun heq digest hdigest => ?_, fun log hlog => ?_⟩
  · rw [hmerged]
    show (checkpointLsn record.checkpoint).toNat ≤ checkpoint.lsn.toNat
    omega
  · -- the frontier stands still, so the checkpoint sits on it and no log reaches beyond
    have heq : publication.durableLsn = record.durableLsn := heq
    have hdurable : publication.durableLsn.toNat = max checkpoint.lsn.toNat (logLsn publication.log).toNat :=
      hdurable
    rw [heq] at hdurable
    have hat : checkpoint.lsn = record.durableLsn := UInt64.toNat_inj.1 (by omega)
    have hnone : (mergePublication record publication).log = none := by
      show logBeyond (publication.checkpoint.or record.checkpoint) (publication.log.or record.log) = none
      rw [hcheckpoint]
      refine logBeyond_of_le ?_
      cases hlog : publication.log with
      | none =>
        show (logLsn record.log).toNat ≤ _
        omega
      | some log =>
        rw [hlog] at hdurable
        show (logLsn (some log)).toNat ≤ _
        omega
    have hrecorded := hinv.durableTailDigest_eq.trans (congrArg Except.ok hdigest)
    unfold tailDigest
    rw [hnone, hmerged]
    exact congrArg some ((hok.digest digest hrecorded).1 checkpoint hcheckpoint hat)
  · right
    rw [hmerged, ← hinv.durable_of_log hlog]
    exact hle

/-- A published log alone extends the log that is there. -/
lemma merge_progress_log (hcheckpoint : publication.checkpoint = none) {log : LogRef}
    (hlog : publication.log = some log) : Progress record (mergePublication record publication) := by
  obtain ⟨hle, hvalid⟩ := hok.log log hlog
  have hmerged : (mergePublication record publication).checkpoint = record.checkpoint := by
    simp [mergePublication, hcheckpoint]
  have hmergedLog : (mergePublication record publication).log = logBeyond record.checkpoint (some log) := by
    simp [mergePublication, hcheckpoint, hlog]
  have hdurable : publication.durableLsn = log.durableLsn := by
    have := hok.durable
    rw [hcheckpoint, hlog] at this
    exact UInt64.toNat_inj.1 this
  refine ⟨hok.durable_le fun h => absurd (h.2.symm.trans hlog) nofun, by rw [hmerged],
    fun heq digest hdigest => ?_, fun current hcurrent => ?_⟩
  · -- an equal end has an equal digest
    have heq : log.durableLsn = record.durableLsn := hdurable.symm.trans heq
    have hrecorded := hinv.durableTailDigest_eq.trans (congrArg Except.ok hdigest)
    have hsame := (hok.digest digest hrecorded).2 log hlog heq
    by_cases hlt : (checkpointLsn record.checkpoint).toNat < log.durableLsn.toNat
    · unfold tailDigest
      rw [hmergedLog, logBeyond_of_lt hlt]
      exact congrArg some hsame
    · -- a log that ends at the checkpoint is dropped; the checkpoint keeps the digest
      have hnolog : record.log = none := by
        refine Option.eq_none_iff_forall_ne_some.2 fun current hcurrent => ?_
        have := hinv.beyond current hcurrent
        rw [← hinv.durable_of_log hcurrent, ← heq] at this
        exact hlt this
      have hpos := (validateLogRef_ok hvalid).1.pos
      unfold tailDigest at hdigest ⊢
      rw [hmergedLog, hmerged]
      rw [hnolog] at hdigest
      cases hsome : record.checkpoint with
      | none =>
        rw [hsome] at hlt
        exact absurd hpos hlt
      | some =>
        rw [hsome] at hlt hdigest
        rw [logBeyond_of_le (Nat.le_of_not_lt hlt)]
        exact hdigest
  · -- the log that was there is a first part of the new one
    left
    have hbeyond := hinv.beyond current hcurrent
    rw [hinv.durable_of_log hcurrent] at hle
    refine ⟨log, hmergedLog.trans (logBeyond_of_lt (hbeyond.trans_le hle)), ?_⟩
    obtain ⟨_, hkeep⟩ := validateLogRef_ok hvalid
    rw [hcheckpoint] at hkeep
    rcases Nat.lt_or_eq_of_le hle with hlonger | hequal
    · exact hkeep current hcurrent hbeyond hlonger
    · have hsame := hok.same log current hlog hcurrent (UInt64.toNat_inj.1 hequal)
      exact hsame ▸ prefix_rfl

/-- **A merged publication makes progress.** -/
theorem merge_progress (hsome : ¬ (publication.checkpoint = none ∧ publication.log = none)) :
    Progress record (mergePublication record publication) := by
  cases hcheckpoint : publication.checkpoint with
  | some => exact merge_progress_checkpoint hinv hok hcheckpoint
  | none =>
    cases hlog : publication.log with
    | some => exact merge_progress_log hinv hok hcheckpoint hlog
    | none => exact absurd ⟨hcheckpoint, hlog⟩ hsome

end Publish

lemma Progress.of_same {a b c : LogicalShardRecord} (h : Progress a b) (hc : SameFrontier b c) :
    Progress a c := by
  refine ⟨by rw [hc.durableLsn]; exact h.durable, by rw [hc.checkpoint]; exact h.checkpoint,
    fun heq digest hdigest => ?_, fun log hlog => ?_⟩
  · have := h.tail (hc.durableLsn.symm.trans heq) digest hdigest
    unfold tailDigest at this ⊢
    rwa [hc.log, hc.checkpoint]
  · rw [hc.log, hc.checkpoint]
    exact h.segments log hlog

section

variable {a b : LogicalShardRecord} (hinv : FrontierInv a) (h : FrontierStep a b)
include hinv h

lemma FrontierStep.progress : Progress a b := by
  cases h with
  | same h => exact h.progress
  | publish _ hsome hok h =>
    exact (merge_progress hinv (checkPublication_ok hok) hsome).of_same h

/-- Every step of a frontier leaves a log beyond its checkpoint. -/
lemma FrontierStep.inv (hvalid : validateLogicalShardRecord b = .ok ()) : FrontierInv b := by
  refine ⟨hvalid, fun log hlog => ?_⟩
  cases h with
  | same h =>
    rw [h.checkpoint]
    exact hinv.beyond log (h.log.symm.trans hlog)
  | publish _ _ _ h =>
    have hpos := ((validate_frontier hvalid).1 log hlog).pos
    rw [h.log] at hlog
    obtain ⟨_, hbeyond⟩ := logBeyond_eq_some hlog
    cases hcheckpoint : b.checkpoint with
    | none => exact hpos
    | some checkpoint =>
      rw [h.checkpoint] at hcheckpoint
      exact hbeyond checkpoint hcheckpoint

end

/-! ### Runs -/

/-- The frontier of every record of the store. -/
def FrontierInvs (state : State) : Prop :=
  ∀ shard record, state.logicalShards.get shard = some record → FrontierInv record

lemma frontierInv_unassigned (shard : LogicalShardId) : FrontierInv (.unassigned shard) :=
  ⟨validate_unassigned shard, fun _ h => nomatch h⟩

lemma frontier_putRecord (hinv : FrontierInvs state) {shard : LogicalShardId} {next : LogicalShardRecord}
    (hnext : FrontierInv next)
    (hprogress : ∀ current, state.logicalShards.get shard = some current → Progress current next) :
    FrontierInvs (state.putRecord shard next) ∧
      ∀ other record, state.logicalShards.get other = some record → ∃ later,
        (state.putRecord shard next).logicalShards.get other = some later ∧ Progress record later := by
  refine ⟨fun other record h => ?_, fun other record h => ?_⟩
  · rcases OrdMap.get_insert_cases h with ⟨-, rfl⟩ | ⟨-, h⟩
    · exact hnext
    · exact hinv _ _ h
  · rw [State.putRecord, OrdMap.get_insert]
    split
    next heq =>
      subst heq
      exact ⟨next, rfl, hprogress record h⟩
    next => exact ⟨record, h, .refl _⟩

lemma frontier_effect {next : State} {op : Op} {answer : Answer} (hinv : FrontierInvs state)
    (heffect : Effect state op answer next) :
    FrontierInvs next ∧ ∀ shard record, state.logicalShards.get shard = some record → ∃ later,
      next.logicalShards.get shard = some later ∧ Progress record later := by
  cases heffect with
  | keep _ hrecords _ _ =>
    refine ⟨fun shard record h => hinv shard record (hrecords ▸ h), fun shard record h => ?_⟩
    exact ⟨record, hrecords ▸ h, .refl _⟩
  | create hnew =>
    exact frontier_putRecord hinv (frontierInv_unassigned _) fun current h => absurd (hnew.symm.trans h) nofun
  | @replace _ _ _ _ hproved hstep =>
    obtain ⟨hcurrent, _⟩ := provedRecord_eq_ok.1 hproved
    have hbefore := hinv _ _ hcurrent
    refine frontier_putRecord hinv ?_ fun other h => ?_
    · -- the record is the one before, or it was checked
      rcases hstep.valid with rfl | hvalid
      · exact hbefore
      · exact hstep.frontier.inv hbefore hvalid
    · cases hcurrent.symm.trans h
      exact hstep.frontier.progress hbefore
  | @release _ current next _ hproved hnext hvalid =>
    obtain ⟨hcurrent, _⟩ := provedRecord_eq_ok.1 hproved
    -- a release leaves the frontier alone
    have hsame : SameFrontier current next := by
      rw [hnext]
      exact ⟨rfl, rfl, rfl⟩
    have hbefore := hinv _ _ hcurrent
    refine frontier_putRecord hinv ((FrontierStep.same hsame).inv hbefore hvalid) fun other h => ?_
    cases hcurrent.symm.trans h
    exact hsame.progress
  | @acquire _ _ _ _ hcurrent _ _ hinstalled _ =>
    have hbefore := hinv _ _ hcurrent
    refine frontier_putRecord hinv ((FrontierStep.same hinstalled.frontier).inv hbefore hinstalled.valid)
      fun other h => ?_
    cases hcurrent.symm.trans h
    exact hinstalled.frontier.progress

lemma frontierInvs_init : FrontierInvs State.init := by
  intro shard record h
  simp [State.init] at h

lemma frontier_run (hinv : FrontierInvs state) (ops : List Op) : FrontierInvs (run state ops) ∧
      ∀ shard record, state.logicalShards.get shard = some record → ∃ later,
        (run state ops).logicalShards.get shard = some later ∧ Progress record later := by
  induction ops generalizing state with
  | nil => exact ⟨hinv, fun shard record h => ⟨record, h, .refl _⟩⟩
  | cons op _ ih =>
    obtain ⟨hnext, hstep⟩ := frontier_effect hinv (step_effect state op)
    obtain ⟨hlast, hrun⟩ := ih hnext
    refine ⟨hlast, fun shard record h => ?_⟩
    obtain ⟨middle, hmiddle, hfirst⟩ := hstep shard record h
    obtain ⟨later, hlater, hsecond⟩ := hrun shard middle hmiddle
    exact ⟨later, hlater, hfirst.trans (hinv _ _ h) (hnext _ _ hmiddle) hsecond⟩

/-- What holds of a stored record. -/
structure DurableFrontier (record : LogicalShardRecord) : Prop where
  /-- the checkpoint and the segments cover the log up to the durable LSN -/
  covered : Contiguous (checkpointLsn record.checkpoint).toNat (segmentsOf record.log)
    record.durableLsn.toNat
  /-- a frontier behind the first LSN has a recorded digest -/
  recorded : record.durableLsn ≠ 0 → ∃ digest, durableTailDigest record = .ok (some digest)
  /-- a pending upload continues the frontier -/
  pending : ∀ intent, record.pendingRecoveryUpload = some intent →
    intent.firstLsn.toNat = record.durableLsn.toNat + 1 ∧
      ∀ digest, durableTailDigest record = .ok (some digest) → intent.previousChainDigest = digest

/-- What a later record keeps of an earlier one. -/
structure FrontierKept (earlier later : LogicalShardRecord) : Prop where
  durable : earlier.durableLsn.toNat ≤ later.durableLsn.toNat
  /-- the recorded digest stays while the durable LSN stays -/
  tail : later.durableLsn = earlier.durableLsn → ∀ digest,
    durableTailDigest earlier = .ok (some digest) → durableTailDigest later = .ok (some digest)
  /-- published segments stay in front, or a checkpoint at or beyond the end of their log replaced
  them all -/
  segments : ∀ log, earlier.log = some log →
    (∃ log', later.log = some log' ∧ log.segments <+: log'.segments) ∨
      ∃ checkpoint, later.checkpoint = some checkpoint ∧ log.durableLsn.toNat ≤ checkpoint.lsn.toNat ∧
        ∀ segment ∈ segmentsOf later.log, log.durableLsn.toNat < segment.firstLsn.toNat

lemma FrontierInv.durableFrontier (h : FrontierInv record) : DurableFrontier record := by
  refine ⟨h.covered, fun hne => ?_, fun intent => h.pending⟩
  rw [h.durableTailDigest_eq]
  unfold tailDigest
  cases hlog : record.log with
  | some log => exact ⟨log.digest, rfl⟩
  | none =>
    cases hcheckpoint : record.checkpoint with
    | some checkpoint => exact ⟨checkpoint.digest, rfl⟩
    | none =>
      have := h.durable_of_no_log hlog
      rw [hcheckpoint] at this
      exact absurd this hne

lemma Progress.kept {earlier later : LogicalShardRecord} (hearlier : FrontierInv earlier)
    (hlater : FrontierInv later) (h : Progress earlier later) : FrontierKept earlier later := by
  refine ⟨h.durable, fun heq digest hdigest => ?_, fun log hlog => ?_⟩
  · rw [hearlier.durableTailDigest_eq] at hdigest
    rw [hlater.durableTailDigest_eq, h.tail heq digest (Except.ok.inj hdigest)]
  · rcases h.segments log hlog with hkept | hcovered
    · exact Or.inl hkept
    · right
      have hpos := ((validate_frontier hearlier.valid).1 log hlog).pos
      cases hcheckpoint : later.checkpoint with
      | none =>
        rw [hcheckpoint] at hcovered
        exact absurd (hpos.trans hcovered) (by decide)
      | some checkpoint =>
        rw [hcheckpoint] at hcovered
        refine ⟨checkpoint, rfl, hcovered, fun segment hsegment => ?_⟩
        have hstart := hlater.covered.start_lt segment hsegment
        rw [hcheckpoint] at hstart
        exact lt_of_le_of_lt hcovered hstart

/-- **The durable recovery frontier.** Over every sequence of calls, by any owners, a stored record
covers its whole log, and whatever happens later keeps its frontier. -/
theorem durable_frontier (ops rest : List Op) (shard : LogicalShardId) (record : LogicalShardRecord)
    (h : (run .init ops).logicalShards.get shard = some record) :
    DurableFrontier record ∧ ∃ later,
      (run .init (ops ++ rest)).logicalShards.get shard = some later ∧ FrontierKept record later := by
  obtain ⟨hinv, _⟩ := frontier_run frontierInvs_init ops
  obtain ⟨hlast, hrun⟩ := frontier_run hinv rest
  obtain ⟨later, hlater, hprogress⟩ := hrun shard record h
  rw [run_append]
  exact ⟨(hinv _ _ h).durableFrontier, later, hlater,
    hprogress.kept (hinv _ _ h) (hlast _ _ hlater)⟩

section Sample

def sampleShard : LogicalShardId := .fill 16 2

def sampleNode : NodeId := ⟨"node-a", by decide⟩

def sampleLease : LogicalShardLease := ⟨sampleShard, sampleNode, ⟨1, NonZeroU64.one_ne_zero⟩, 1⟩

def sampleDigest (c : Char) : String := String.ofList (List.replicate 64 c)

def sampleIntent : RecoveryUploadIntent where
  objectNamespaceId := .fill 16 3
  firstLsn := 1
  lastLsn := 2
  previousChainDigest := sampleDigest '0'
  lastChainDigest := sampleDigest 'a'
  segmentDigest := sampleDigest 'b'
  manifestKey := "segment-1"
  receipt := [1]
  plan := [2]

/-- A first owner that serves and publishes one segment. -/
def sampleOps : List Op :=
  [.createLogicalShard sampleShard,
   .createRootPlacement ⟨.fill 16 1, sampleShard, ⟨1, NonZeroU64.one_ne_zero⟩, .provisioning⟩,
   .acquireOwner sampleShard sampleNode "host-a:1",
   .markServing sampleLease ⟨none, none, 0⟩,
   .prepareRecoveryUpload sampleLease sampleIntent,
   .finalizeRecoveryUpload sampleLease sampleIntent
     ⟨none, some ⟨[segmentOfIntent sampleIntent], 2, sampleDigest 'a'⟩, 2⟩]

def sampleRecord : LogicalShardRecord where
  logicalShardId := sampleShard
  owner := some sampleNode
  ownerEpoch := some ⟨1, NonZeroU64.one_ne_zero⟩
  leaseId := 1
  state := .serving
  endpoint := some "host-a:1"
  checkpoint := none
  log := some ⟨[segmentOfIntent sampleIntent], 2, sampleDigest 'a'⟩
  durableLsn := 2
  pendingRecoveryUpload := none

/-- The published segment survives the loss of the owner and its successor. -/
theorem durable_frontier_sample : DurableFrontier sampleRecord ∧ ∃ later,
    (run .init (sampleOps ++ [.sessionLoss sampleShard,
      .acquireSuccessor sampleShard ⟨1, by decide⟩ sampleNode "host-b:1"])).logicalShards.get sampleShard
      = some later ∧ FrontierKept sampleRecord later :=
  durable_frontier sampleOps _ sampleShard sampleRecord (by decide +kernel)

end Sample

end NoKV.Control
