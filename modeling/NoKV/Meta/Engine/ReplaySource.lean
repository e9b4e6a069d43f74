import NoKV.Meta.Engine.SegmentExport

/-!
# A target that follows a source

The recovery log of a reachable shard rebuilds it: any deliveries without a gap take an empty target
through the stores that the source itself went through (`replayAll_follows_source`). A delivery that
leaves a gap or continues another history is rejected before anything is written (`Refuses`).
-/

namespace NoKV.Meta

open Lib Store State List

variable [Pager] [Sha256] {shard : LogicalShardId} {t : State} {log : List RecoveryOutboxRecord}
  {row found : RecoveryOutboxRecord} {segment : RecoveryOutboxSegment}

/-! ### Rejected deliveries -/

/-- The session fails and leaves the store as it was. -/
def Rejects (x : Session State MetaError RecoveryState) (t : State) : Prop := ∃ e, x.exec t = (.error e, t)

omit [Pager] [Sha256] in
/-- A session is rejected behind observations that leave the store as it was. -/
lemma rejects_bind {α : Type} {x : Session State MetaError α} {f : α → Session State MetaError RecoveryState}
    (hkept : (x.exec t).2 = t) (hf : ∀ a, (x.exec t).1 = .ok a → Rejects (f a) t) : Rejects (x >>= f) t := by
  obtain ⟨e, s', hx, hbind⟩ | ⟨a, s', hx, hbind⟩ := Session.bind_cases x f t
  all_goals
    rw [hx] at hkept hf
    cases hkept
  · exact ⟨e, hbind⟩
  · obtain ⟨e, he⟩ := hf a rfl
    exact ⟨e, hbind.trans he⟩

/-- A record is rejected when the check against the applied records fails. -/
lemma rejects_record (h : Trace shard t log)
    (hbad : if row.recoveryLsn.toNat ≤ log.length then (compareLocal row "existing").runAt t ≠ .ok ()
      else checkNext (tailAfter shard log) row ≠ .ok ()) :
    Rejects (replayRecoveryRecord shard row) t := by
  refine rejects_bind rfl fun _ _ => rejects_bind rfl fun _ _ => rejects_bind rfl fun before hbefore => ?_
  cases h.recoveryState_runAt.symm.trans hbefore
  rw [h.tail_lsn]
  split at hbad
  next hle =>
    rw [if_pos hle]
    exact rejects_bind rfl fun _ hok => absurd hok hbad
  next hlt =>
    rw [if_neg hlt]
    exact rejects_bind rfl fun _ hok => absurd hok hbad

variable {before : RecoveryState} {u : Unit}

lemma compareLocal_eq_ok {place : String} (h : (compareLocal row place).runAt t = .ok u) :
    (recoveryRecordAtUnlocked row.recoveryLsn).runAt t = .ok row := by
  unfold compareLocal at h
  simp only [Prog.runAt_bind, Prog.runAt_refuseIf] at h
  obtain ⟨_, hfound, h⟩ := bind_eq_ok.1 h
  rw [hfound, of_refuseIf_not h]

/-- A segment is rejected when it does not verify or does not join the applied records. -/
lemma rejects_segment (h : Trace shard t log)
    (hbad : segment.verify = .ok () → (checkJoins (tailAfter shard log) segment).runAt t ≠ .ok ()) :
    Rejects (replayRecoverySegment shard segment) t := by
  refine rejects_bind rfl fun _ hverify => rejects_bind (by rw [Session.exec_refuseIf]) fun _ _ =>
    rejects_bind rfl fun before hbefore => ?_
  cases h.recoveryState_runAt.symm.trans hbefore
  exact rejects_bind rfl fun _ hjoins => absurd hjoins (hbad (mapError_eq_ok.1 hverify))

/-- A segment that starts behind the tail joins it only as its continuation. -/
lemma checkJoins_follows (h : (checkJoins before segment).runAt t = .ok u)
    (hlt : before.appliedRecoveryLsn.toNat < segment.firstLsn.toNat) :
    segment.firstLsn.toNat = before.appliedRecoveryLsn.toNat + 1 ∧
      segment.previousChainDigest = before.chainDigest := by
  unfold checkJoins at h
  rw [if_pos hlt, Prog.runAt_bind] at h
  obtain ⟨_, hfollows, -⟩ := bind_eq_ok.1 h
  rw [Prog.runAt_liftM] at hfollows
  obtain ⟨-, hlsn, hdigest, -⟩ := RecoveryOutboxSegment.verifyFollows_eq_ok.1 (mapError_eq_ok.1 hfollows)
  exact ⟨hlsn, hdigest⟩

/-- An overlapping segment joins only if every overlapping record is the stored one. -/
lemma checkJoins_overlap (h : (checkJoins before segment).runAt t = .ok u)
    (hverify : segment.verify = .ok ()) (hrow : row ∈ segment.records)
    (hle : row.recoveryLsn.toNat ≤ before.appliedRecoveryLsn.toNat) :
    (recoveryRecordAtUnlocked row.recoveryLsn).runAt t = .ok row := by
  have hsealed := RecoveryOutboxSegment.sealRecords_eq_ok (RecoveryOutboxSegment.verify_eq_ok.1 hverify)
  obtain ⟨n, _, hchain⟩ := hsealed.chain
  have hpos : n < row.recoveryLsn.toNat := (hchain.pos_bounds hrow).1
  unfold checkJoins at h
  rw [if_neg (by omega)] at h
  unfold checkOverlap at h
  rw [Prog.runAt_bind, Prog.runAt_forM] at h
  obtain ⟨_, hall, -⟩ := bind_eq_ok.1 h
  refine compareLocal_eq_ok (forM_eq_ok.1 hall row ?_)
  -- the positions of a segment increase, so the records before `row` overlap as well
  obtain ⟨init, _, hsplit⟩ := append_of_mem hrow
  rw [hsplit] at hchain ⊢
  obtain ⟨hinit, hrest⟩ := Link.chainFrom_append.1 hchain
  have hrowPos : row.recoveryLsn.toNat = n + init.length + 1 := hrest.1
  have hbefore : ∀ record ∈ init,
      decide (record.recoveryLsn.toNat ≤ before.appliedRecoveryLsn.toNat) = true := by
    intro record hrecord
    have : record.recoveryLsn.toNat ≤ n + init.length := (hinit.pos_bounds hrecord).2
    exact decide_eq_true (by omega)
  rw [takeWhile_append_of_pos hbefore, takeWhile_cons, if_pos (decide_eq_true hle)]
  simp

/-- The applied position of a store. -/
def AppliedLsn (t : State) (n : ℕ) : Prop :=
  ∃ tail, recoveryStateUnlocked.runAt t = .ok tail ∧ tail.appliedRecoveryLsn.toNat = n

/-- What a target refuses with its store unchanged: records and segments that leave a gap, that differ
in their chain digest from a record that was applied, or that continue another digest than its tail. -/
structure Refuses (shard : LogicalShardId) (t : State) : Prop where
  record_gap : ∀ n row, AppliedLsn t n → n + 1 < row.recoveryLsn.toNat →
    Rejects (replayRecoveryRecord shard row) t
  record_differs : ∀ n row found, AppliedLsn t n → row.recoveryLsn.toNat ≤ n →
    (recoveryRecordAtUnlocked row.recoveryLsn).runAt t = .ok found →
    row.chainDigest ≠ found.chainDigest → Rejects (replayRecoveryRecord shard row) t
  record_forks : ∀ tail row, recoveryStateUnlocked.runAt t = .ok tail →
    row.recoveryLsn.toNat = tail.appliedRecoveryLsn.toNat + 1 →
    row.previousChainDigest ≠ tail.chainDigest → Rejects (replayRecoveryRecord shard row) t
  segment_gap : ∀ n segment, AppliedLsn t n → n + 1 < segment.firstLsn.toNat →
    Rejects (replayRecoverySegment shard segment) t
  segment_broken : ∀ segment before first second after,
    segment.records = before ++ first :: second :: after →
    second.recoveryLsn.toNat ≠ first.recoveryLsn.toNat + 1 →
    Rejects (replayRecoverySegment shard segment) t
  segment_differs : ∀ n segment row found, AppliedLsn t n → row ∈ segment.records →
    row.recoveryLsn.toNat ≤ n → (recoveryRecordAtUnlocked row.recoveryLsn).runAt t = .ok found →
    row.chainDigest ≠ found.chainDigest → Rejects (replayRecoverySegment shard segment) t
  segment_forks : ∀ tail segment, recoveryStateUnlocked.runAt t = .ok tail →
    segment.firstLsn.toNat = tail.appliedRecoveryLsn.toNat + 1 →
    segment.previousChainDigest ≠ tail.chainDigest → Rejects (replayRecoverySegment shard segment) t

lemma Trace.appliedLsn (h : Trace shard t log) : AppliedLsn t log.length :=
  ⟨_, h.recoveryState_runAt, h.tail_lsn⟩

lemma Trace.appliedLsn_eq {n : ℕ} (h : Trace shard t log) (hn : AppliedLsn t n) : n = log.length := by
  obtain ⟨_, hread, rfl⟩ := hn
  rw [h.recoveryState_runAt] at hread
  rw [← Except.ok.inj hread, h.tail_lsn]

/-- Every reachable shard refuses other histories. -/
lemma Trace.refuses (h : Trace shard t log) : Refuses shard t := by
  have htail : ∀ {tail}, recoveryStateUnlocked.runAt t = .ok tail → tail = tailAfter shard log :=
    fun hread => (Except.ok.inj (h.recoveryState_runAt.symm.trans hread)).symm
  constructor
  case record_gap =>
    intro n row hn hgap
    obtain rfl := h.appliedLsn_eq hn
    refine rejects_record h ?_
    rw [if_neg (by omega)]
    intro hok
    have := (checkNext_eq_ok.1 hok).1
    rw [h.tail_lsn] at this
    omega
  case record_differs =>
    intro n row found hn hle hfound hdigest
    obtain rfl := h.appliedLsn_eq hn
    refine rejects_record h ?_
    rw [if_pos hle]
    intro hok
    rw [compareLocal_eq_ok hok] at hfound
    exact hdigest (congrArg _ (Except.ok.inj hfound))
  case record_forks =>
    intro tail row hread hlsn hdigest
    -- a record at the next position whose previous digest is not the tail
    obtain rfl := htail hread
    rw [h.tail_lsn] at hlsn
    refine rejects_record h ?_
    rw [if_neg (by omega)]
    exact fun hok => hdigest (checkNext_eq_ok.1 hok).2
  case segment_gap =>
    intro n segment hn hgap
    obtain rfl := h.appliedLsn_eq hn
    refine rejects_segment h fun _ hok => ?_
    have := (checkJoins_follows hok (by rw [h.tail_lsn]; omega)).1
    rw [h.tail_lsn] at this
    omega
  case segment_broken =>
    intro segment before first second after hrecords hbroken
    refine rejects_segment h fun hverify _ => hbroken ?_
    -- a segment that verifies is one chain, so two neighbours of it have neighbouring positions
    have hsealed :=
      RecoveryOutboxSegment.sealRecords_eq_ok (RecoveryOutboxSegment.verify_eq_ok.1 hverify)
    obtain ⟨n, -, hchain⟩ := hsealed.chain
    rw [hrecords] at hchain
    obtain ⟨hfirst, -, hsecond, -⟩ := (Link.chainFrom_append.1 hchain).2
    have hfirst : first.recoveryLsn.toNat = n + before.length + 1 := hfirst
    rw [hfirst]
    exact hsecond
  case segment_differs =>
    intro n segment row found hn hrow hle hfound hdigest
    obtain rfl := h.appliedLsn_eq hn
    refine rejects_segment h fun hverify hok => ?_
    -- where the segment overlaps the log it is compared with it record by record
    rw [checkJoins_overlap hok hverify hrow (by rw [h.tail_lsn]; exact hle)] at hfound
    exact hdigest (congrArg _ (Except.ok.inj hfound))
  case segment_forks =>
    intro tail segment hread hlsn hdigest
    obtain rfl := htail hread
    refine rejects_segment h fun _ hok => hdigest ?_
    exact (checkJoins_follows hok (by rw [hlsn]; exact Nat.lt_succ_self _)).2

/-! ### A target behind a source -/

/-- The recovery records of a shard in the order of their positions. -/
structure Outbox (s : State) (log : List RecoveryOutboxRecord) : Prop where
  applied : AppliedLsn s log.length
  record : ∀ i row, log[i]? = some row → row.recoveryLsn.toNat = i + 1 ∧
    (recoveryRecordAtUnlocked row.recoveryLsn).runAt s = .ok row

lemma Trace.outbox {s : State} (h : Trace shard s log) : Outbox s log :=
  ⟨h.appliedLsn, fun _ _ hi => ⟨h.lsn_getElem hi, h.inv.log.recordAt_runAt (mem_of_getElem? hi)⟩⟩

/-- Every record fits a segment of its own. -/
lemma Trace.seal_one {s : State} (h : Trace shard s log) (hrow : row ∈ log) :
    ∃ segment, RecoveryOutboxSegment.sealRecords shard [row] = .ok segment := by
  obtain ⟨_, _, rfl⟩ := append_of_mem hrow
  refine h.inv.log.seals (fun other hother => ?_) (cons_ne_nil _ _)
    (show 1 ≤ MAX_RECOVERY_SEGMENT_RECORDS by decide) (.inr le_rfl)
  cases mem_singleton.1 hother
  exact h.accepted hrow

omit [Pager] in
/-- A log can be delivered record by record. -/
lemma delivers_records {n m : ℕ} (hnm : n ≤ m) (hm : m ≤ log.length) :
    ∃ deliveries, Delivers shard log n deliveries m := by
  obtain ⟨k, rfl⟩ := Nat.exists_eq_add_of_le hnm
  induction k generalizing n with
  | zero => exact ⟨[], .done n⟩
  | succ k ih =>
    obtain ⟨rest, _⟩ := ih (n := n + 1) (by omega) (by omega)
    refine ⟨.record (log.get ⟨n, by omega⟩) :: rest, .record (le_refl n) (getElem?_eq_getElem _) ?_⟩
    rw [Nat.max_eq_right (Nat.le_succ n)]
    rwa [show n + (k + 1) = n + 1 + k by omega]

/-- **Replay follows the source.** The recovery log of a reachable shard, delivered to an empty one in
any grouping and with any repetition, succeeds and ends in the store that the source had at the last
delivered position. Any reachable shard refuses a delivery with a gap or of another history. -/
theorem replayAll_follows_source (shard : LogicalShardId) (requests : List Request) :
    ∃ log, Outbox (serveAll shard (initialized shard) requests) log ∧
      (∀ deliveries m, Delivers shard log 0 deliveries m →
        ∃ t, (replayAll shard deliveries).exec (initialized shard) = (.ok (), t) ∧ AppliedLsn t m ∧
          Along shard requests t ∧ ∀ t', Along shard requests t' → AppliedLsn t' m → t' = t) ∧
      (∀ m ≤ log.length, ∃ deliveries, Delivers shard log 0 deliveries m) ∧
      (∀ row ∈ log, ∃ segment, RecoveryOutboxSegment.sealRecords shard [row] = .ok segment) ∧
      ∀ others, Refuses shard (serveAll shard (initialized shard) others) := by
  obtain ⟨log, htrace, halong⟩ := trace_along shard requests
  refine ⟨log, htrace.outbox, fun deliveries m hdelivers => ?_,
    fun m hm => delivers_records (Nat.zero_le m) hm, fun row hrow => htrace.seal_one hrow, fun others => ?_⟩
  · obtain ⟨t, hexec, ht, hm⟩ :=
      replayAll_delivers (n := 0) htrace .initialized (Nat.zero_le _) hdelivers
    obtain ⟨_, ht₀, htrace₀⟩ := halong m hm
    obtain rfl := ht.unique htrace₀
    have hlength : (log.take m).length = m := length_take_of_le hm
    refine ⟨t, hexec, hlength ▸ ht.appliedLsn, ht₀, fun t' ht' hm' => ?_⟩
    obtain ⟨n, hn, htrace'⟩ := htrace.along ht'
    have hnm : m = n := (htrace'.appliedLsn_eq hm').trans (length_take_of_le hn)
    subst hnm
    exact htrace'.unique ht
  · obtain ⟨_, htrace'⟩ := trace_serveAll shard others
    exact htrace'.refuses

end NoKV.Meta
