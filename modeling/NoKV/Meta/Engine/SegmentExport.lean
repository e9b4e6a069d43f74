import NoKV.Meta.Engine.RecoveryLog
import NoKV.Meta.Engine.Replay

/-!
# Exporting the recovery log

A reader takes the log of a shard in segments, each behind the tail of the one before
(`recoverySegmentAfter`). The segments verify, follow each other and are the log behind the place where
the reader started (`export_log`).
-/

namespace NoKV.Meta

open Lib Store State List
open Prog hiding bind pure get

/-! ### The programs -/

def recoverySegmentRecordBudget (recordLimit : ℕ) : ℕ :=
  MAX_RECOVERY_SEGMENT_BYTES -
    (RECOVERY_SEGMENT_FIXED_BYTES + 4 * min recordLimit MAX_RECOVERY_SEGMENT_RECORDS)

section Programs

variable [Pager] [Sha256] (shard : LogicalShardId)

/-- Consecutive records behind a boundary, sealed. -/
def sealBehind (boundary : RecoveryState) (rows : List RecoveryOutboxRecord) :
    Except MetaError RecoveryOutboxSegment := do
  refuseIf (rows = []) (corrupt "RecoveryOutbox segment"
    "local tail is newer than boundary but no following row exists")
  let segment ← corruptRecovery "RecoveryOutbox segment" (RecoveryOutboxSegment.sealRecords shard rows)
  let _ ← corruptRecovery "RecoveryOutbox segment" (segment.verifyFollows boundary)
  return segment

/-- The digest of the log at a position. -/
def boundaryDigest (lsn : UInt64) : Shard Digest :=
  if lsn = 0 then pure (recoveryGenesisDigest shard)
  else RecoveryOutboxRecord.chainDigest <$> recoveryRecordAtUnlocked lsn

/-- The tail of the shard, for a boundary that its log has. -/
def checkBoundary (boundary : RecoveryState) : Shard RecoveryState := do
  let current ← recoveryStateUnlocked
  refuseIf (current.appliedRecoveryLsn < boundary.appliedRecoveryLsn)
    (corrupt "RecoveryOutbox segment boundary" (s!"boundary LSN {boundary.appliedRecoveryLsn} " ++
      s!"is newer than local tail {current.appliedRecoveryLsn}"))
  let expectedBoundaryDigest ← boundaryDigest shard boundary.appliedRecoveryLsn
  refuseIf (boundary.chainDigest ≠ expectedBoundaryDigest)
    (corrupt "RecoveryOutbox segment boundary" "boundary digest does not match its local LSN")
  return current

/-- Seal one bounded segment behind an exact local tail. -/
def recoverySegmentAfter (boundary : RecoveryState) (limit fuel : ℕ) : Loop (Option RecoveryOutboxSegment) := do
  refuseIf (limit = 0 ∨ MAX_RECOVERY_SEGMENT_RECORDS < limit)
    (Halt.err (invalid s!"recovery segment limit must be in 1..={MAX_RECOVERY_SEGMENT_RECORDS}"))
  let current ← liftM (checkBoundary shard boundary)
  if boundary = current then return none
  else do
    let rows ← recoveryOutboxAfterUnlocked boundary.appliedRecoveryLsn limit
      (recoverySegmentRecordBudget limit) fuel
    some <$> liftM ((sealBehind shard boundary rows).mapError Halt.err)

/-- A reader takes segments until there is none; each call has a limit of its own. -/
def exportSegments (limits : ℕ → ℕ) (fuel : ℕ) : ℕ → RecoveryState → Loop (List RecoveryOutboxSegment)
  | 0, _ => throw .fuel
  | calls + 1, boundary => do
    match ← recoverySegmentAfter shard boundary (limits calls) fuel with
    | none => return []
    | some segment =>
      (segment :: ·) <$> exportSegments limits fuel calls ⟨segment.lastLsn, segment.lastChainDigest⟩

end Programs

/-! ### One segment -/

section Segment

variable [Pager] [Sha256] {shard : LogicalShardId} {s : State} {made : List Pending} {done : List (Call × Reply)}
  {log before rest rows : List RecoveryOutboxRecord} {row : RecoveryOutboxRecord} {limit : ℕ}

omit [Pager] in
lemma RecoveryOutboxRecord.Accepted.checkTarget (h : row.Accepted shard) : Meta.checkTarget shard row = .ok () := by
  unfold Meta.checkTarget
  cases hmutation : row.mutation with
  | metadataCommand =>
    exact refuseIf_of_not (not_not.2 (validateCommand_eq_ok (h _ _ hmutation).1).shard_eq)
  | observeLeaseClock | advanceOwnerEpoch => rfl

lemma RaceInv.rowAccepted (h : RaceInv shard s made done log) (hrow : row ∈ log) : row.Accepted shard := by
  obtain ⟨⟨call, _⟩, hcall, hcallMutation, -⟩ := exists_of_forall₂_right h.records hrow
  intro command leaseDeadlineMs hmutation
  rw [hcallMutation] at hmutation
  cases call with
  | execute => cases hmutation; exact h.accepted _ _ _ hcall
  | observeLeaseClock | advanceOwnerEpoch => cases hmutation

lemma LogInv.boundaryDigest_runAt (h : LogInv shard s (before ++ rest)) :
    (boundaryDigest shard (tailAfter shard before).appliedRecoveryLsn).runAt s =
      .ok (tailAfter shard before).chainDigest := by
  unfold boundaryDigest
  rcases eq_nil_or_concat' before with rfl | ⟨before, row, rfl⟩
  · rfl
  · have hrow : row ∈ before ++ [row] ++ rest := by simp
    rw [tailAfter_concat, if_neg (h.lsn_ne hrow), runAt_map, h.recordAt_runAt hrow]
    rfl

/-- A tail of the log is a boundary. -/
lemma Inv.checkBoundary_runAt (h : Inv shard s (before ++ rest)) :
    (checkBoundary shard (tailAfter shard before)).runAt s = .ok (tailAfter shard (before ++ rest)) := by
  have hread : recoveryStateUnlocked.runAt s = .ok (tailAfter shard (before ++ rest)) :=
    h.system.recoveryState_runAt
  have hnewer : ¬ (tailAfter shard (before ++ rest)).appliedRecoveryLsn <
      (tailAfter shard before).appliedRecoveryLsn := by
    rw [UInt64.lt_iff_toNat_lt, tailAfter_lsn (Link.chainFrom_append.1 h.log.chain).1,
      tailAfter_lsn h.log.chain, length_append]
    omega
  unfold checkBoundary
  rw [runAt_bind, hread, ok_bind, runAt_bind, runAt_refuseIf, refuseIf_of_not hnewer, ok_bind,
    runAt_bind, h.log.boundaryDigest_runAt, ok_bind, runAt_bind, runAt_refuseIf,
    refuseIf_of_not (not_not.2 rfl)]
  rfl

omit [Pager] in
/-- Consecutive records of the log that fit a segment can be sealed, and a single one always fits. -/
lemma LogInv.seals (h : LogInv shard s (before ++ (rows ++ rest)))
    (haccepted : ∀ row ∈ rows, row.Accepted shard) (hne : rows ≠ [])
    (hcount : rows.length ≤ MAX_RECOVERY_SEGMENT_RECORDS)
    (hbytes : RECOVERY_SEGMENT_FIXED_BYTES + 4 * rows.length + (rows.map encodedLength).sum ≤
      MAX_RECOVERY_SEGMENT_BYTES ∨ rows.length ≤ 1) :
    ∃ segment, RecoveryOutboxSegment.sealRecords shard rows = .ok segment := by
  have hencode : ∀ row ∈ rows, ∃ e, row.encode = .ok e ∧ e.length ≤ storeLimits.maxTransactionBytes := by
    intro row hrow
    obtain ⟨_, _, hstored, hfits⟩ := h.stored row (by simp [hrow])
    obtain ⟨e, he, hsplit⟩ := hstored.stored
    exact ⟨e, he, (length_le_of_split hsplit).1.trans hfits⟩
  obtain ⟨encoded, hencoded⟩ := mapM_total fun row hrow => (hencode row hrow).imp fun _ he => he.1
  rw [mapM_eq_ok] at hencoded
  have hsum : (encoded.map fun e => 4 + e.length).sum = 4 * rows.length + (rows.map encodedLength).sum := by
    clear hbytes hcount hencode haccepted hne h
    induction hencoded with
    | nil => rfl
    | cons he _ ih =>
      simp only [map_cons, sum_cons, length_cons, ih, encodedLength_eq he]
      omega
  refine RecoveryOutboxSegment.sealRecords_total hne hcount (fun row hrow => (haccepted row hrow).checkTarget)
    (Link.chainFrom_append.1 (Link.chainFrom_append.1 h.chain).2).1 hencoded ?_
  rw [hsum, ← Nat.add_assoc]
  rcases hbytes with hbytes | hone
  · exact hbytes
  · have hmax : RECOVERY_SEGMENT_FIXED_BYTES + (4 + storeLimits.maxTransactionBytes) ≤
        MAX_RECOVERY_SEGMENT_BYTES := by decide
    obtain ⟨row, rfl⟩ := length_eq_one_iff.1 (le_antisymm hone (length_pos_of_ne_nil hne))
    obtain ⟨e, he, _⟩ := hencode row mem_cons_self
    simp only [length_singleton, map_singleton, sum_singleton, encodedLength_eq he]
    omega

/-- Records that a bounded read returns are sealed behind their boundary. -/
lemma RaceInv.sealBehind_eq (h : RaceInv shard s made done (before ++ (rows ++ rest))) (hne : rows ≠ [])
    (hcount : rows.length ≤ limit) (hlimit : limit ≤ MAX_RECOVERY_SEGMENT_RECORDS)
    (hbytes : (rows.map encodedLength).sum ≤ recoverySegmentRecordBudget limit ∨ rows.length ≤ 1) :
    ∃ segment, segment.records = rows ∧ sealBehind shard (tailAfter shard before) rows = .ok segment ∧
      segment.verifyFollows (tailAfter shard before) = .ok (tailAfter shard (before ++ rows)) := by
  have hchain := h.inv.log.chain
  rw [← append_assoc] at hchain
  have hbudget : (rows.map encodedLength).sum ≤ recoverySegmentRecordBudget limit →
      RECOVERY_SEGMENT_FIXED_BYTES + 4 * rows.length + (rows.map encodedLength).sum ≤
        MAX_RECOVERY_SEGMENT_BYTES := by
    have hfixed : RECOVERY_SEGMENT_FIXED_BYTES + 4 * MAX_RECOVERY_SEGMENT_RECORDS ≤
      MAX_RECOVERY_SEGMENT_BYTES := by decide
    unfold recoverySegmentRecordBudget
    omega
  obtain ⟨segment, hseal⟩ := h.inv.log.seals (fun row hrow => h.rowAccepted (by simp [hrow])) hne
    (hcount.trans hlimit) (hbytes.imp_left hbudget)
  have hfollows := verifyFollows_of_seal (Link.chainFrom_append.1 hchain).1 hseal
  refine ⟨segment, (RecoveryOutboxSegment.sealRecords_eq_ok hseal).records_eq, ?_, hfollows⟩
  unfold sealBehind
  rw [refuseIf_of_not hne, hseal]
  show (corruptRecovery _ (segment.verifyFollows _) >>= _) = _
  rw [hfollows]
  rfl

/-- Behind a tail of the log stands nothing, or a segment of the records behind it. -/
lemma RaceInv.segmentAfter_runAt (h : RaceInv shard s made done (before ++ rest)) (hpos : 0 < limit)
    (hlimit : limit ≤ MAX_RECOVERY_SEGMENT_RECORDS) {fuel : ℕ} (hfuel : (before ++ rest).length < fuel) :
    (rest = [] ∧ (recoverySegmentAfter shard (tailAfter shard before) limit fuel).runAt s = .ok none) ∨
      ∃ segment later, rest = segment.records ++ later ∧ segment.records ≠ [] ∧
        segment.verifyFollows (tailAfter shard before) = .ok (tailAfter shard (before ++ segment.records)) ∧
        (recoverySegmentAfter shard (tailAfter shard before) limit fuel).runAt s = .ok (some segment) := by
  have hlsn := tailAfter_lsn (Link.chainFrom_append.1 h.inv.log.chain).1
  unfold recoverySegmentAfter
  rw [runAt_bind, runAt_refuseIf, refuseIf_of_not (by omega), ok_bind, runAt_bind,
    runAt_liftM_bounded, h.inv.checkBoundary_runAt]
  show _ ∧ (if _ then _ else _ : Loop _).runAt s = _ ∨ _
  by_cases hnil : rest = []
  · subst hnil
    rw [append_nil, if_pos rfl]
    exact .inl ⟨rfl, rfl⟩
  · obtain ⟨_, later, hdrop, hne, hcount, hbytes, hread⟩ := h.inv.outboxAfter_runAt
      (tailAfter shard before).appliedRecoveryLsn hpos hlimit (recoverySegmentRecordBudget limit)
    rw [hlsn, drop_left] at hdrop hne
    subst hdrop
    obtain ⟨segment, rfl, hseal, hfollows⟩ := h.sealBehind_eq (hne hnil) hcount hlimit hbytes
    refine .inr ⟨segment, later, rfl, hne hnil, hfollows, ?_⟩
    have htail : tailAfter shard before ≠ tailAfter shard (before ++ (segment.records ++ later)) := by
      intro heq
      have hlength := congrArg (fun tail => tail.appliedRecoveryLsn.toNat) heq
      rw [hlsn, tailAfter_lsn h.inv.log.chain, length_append] at hlength
      exact hnil (eq_nil_of_length_eq_zero (by omega))
    show (if _ then _ else _ : Loop _).runAt s = _
    rw [runAt_ite, if_neg htail, runAt_bind, hread fuel hfuel, ok_bind, runAt_map,
      runAt_liftM, hseal]
    rfl

/-! ### The export -/

/-- The segments of an export. -/
lemma RaceInv.exportSegments_runAt (h : RaceInv shard s made done (before ++ rest)) {limits : ℕ → ℕ}
    (hlimits : ∀ n, 0 < limits n ∧ limits n ≤ MAX_RECOVERY_SEGMENT_RECORDS) {fuel calls : ℕ}
    (hfuel : (before ++ rest).length < fuel) (hcalls : rest.length < calls) :
    ∃ segments, (exportSegments shard limits fuel calls (tailAfter shard before)).runAt s = .ok segments ∧
      segments.foldlM (fun boundary segment => segment.verifyFollows boundary) (tailAfter shard before) =
        .ok (tailAfter shard (before ++ rest)) ∧
      (segments.map RecoveryOutboxSegment.records).flatten = rest ∧ ∀ segment ∈ segments, segment.records ≠ [] := by
  induction calls generalizing before rest with
  | zero => exact absurd hcalls (Nat.not_lt_zero _)
  | succ calls ih =>
    unfold exportSegments
    rw [runAt_bind]
    rcases h.segmentAfter_runAt (hlimits calls).1 (hlimits calls).2 hfuel with
      ⟨rfl, hrun⟩ | ⟨segment, later, rfl, hne, hfollows, hrun⟩
    · rw [hrun, append_nil]
      exact ⟨[], rfl, rfl, rfl, fun _ hsegment => absurd hsegment not_mem_nil⟩
    · have hpos := length_pos_of_ne_nil hne
      rw [length_append] at hcalls
      rw [← append_assoc] at h hfuel
      obtain ⟨segments, hsegments, hfold, hflat, hall⟩ := ih h hfuel (by omega)
      refine ⟨segment :: segments, ?_, ?_, ?_, forall_mem_cons.2 ⟨hne, hall⟩⟩
      · have htail := (RecoveryOutboxSegment.verifyFollows_eq_ok.1 hfollows).2.2.2
        rw [hrun, ok_bind]
        show ((segment :: ·) <$> exportSegments shard limits fuel calls _ : Loop _).runAt s = _
        rw [htail, runAt_map, hsegments]
        rfl
      · rw [foldlM_cons, hfollows, ok_bind, hfold, append_assoc]
      · rw [map_cons, flatten_cons, hflat]

/-- **Every export is the log.** From any position of the log of a reachable shard, and with any limits
that the shard accepts, the calls succeed until the high water is reached. Their segments verify and follow
each other, none is empty, and together they are the records behind the position. -/
theorem export_log (h : Races shard s made done) : ∃ log, RecoveryLog shard s done log ∧
    ∀ start ≤ log.length, ∀ limits : ℕ → ℕ,
      (∀ n, 0 < limits n ∧ limits n ≤ MAX_RECOVERY_SEGMENT_RECORDS) →
      ∀ fuel > log.length, ∀ calls > log.length - start, ∃ segments,
        (exportSegments shard limits fuel calls (tailAfter shard (log.take start))).runAt s = .ok segments ∧
        segments.foldlM (fun boundary segment => segment.verifyFollows boundary)
          (tailAfter shard (log.take start)) = .ok (tailAfter shard log) ∧
        (segments.map RecoveryOutboxSegment.records).flatten = log.drop start ∧
        ∀ segment ∈ segments, segment.records ≠ [] := by
  obtain ⟨log, hinv⟩ := h.inv
  refine ⟨log, hinv.recoveryLog, fun start hstart limits hlimits fuel hfuel calls hcalls => ?_⟩
  rw [← take_append_drop start log] at hinv hfuel
  have hexport := hinv.exportSegments_runAt hlimits hfuel (length_drop ▸ hcalls)
  rwa [take_append_drop] at hexport

end Segment

/-- A limit behind the largest segment is refused. -/
theorem recoverySegmentAfter_refused :
    (@recoverySegmentAfter memoryPager sha256Digest (sampleId 2) (@tailAfter sha256Digest (sampleId 2) []) 1025
        6).runAt (@sampleState memoryPager sha256Digest) =
      .error (.err (invalid "recovery segment limit must be in 1..=1024")) := rfl

/-- The sample run is exported record by record. -/
theorem export_log_sample : ∃ made done log, @Races memoryPager sha256Digest (sampleId 2)
      (@sampleState memoryPager sha256Digest) made done ∧
    ∃ segments, (@exportSegments memoryPager sha256Digest (sampleId 2) (fun _ => 1) (List.length log + 1)
        (log.length + 1) (@tailAfter sha256Digest (sampleId 2) [])).runAt (@sampleState memoryPager sha256Digest) =
        .ok segments ∧
      (segments.map RecoveryOutboxSegment.records).flatten = log := by
  obtain ⟨made, done, hraces⟩ :=
    @races_serveAll memoryPager sha256Digest (sampleId 2) (@sampleRequests sha256Digest)
  obtain ⟨log, -, hexport⟩ := @export_log memoryPager sha256Digest _ _ _ _ hraces
  obtain ⟨segments, hrun, -, hrecords, -⟩ := hexport 0 (Nat.zero_le _) (fun _ => 1) (fun _ => by decide) _
    (Nat.lt_succ_self _) _ (Nat.lt_succ_self _)
  exact ⟨made, done, log, hraces, segments, hrun, hrecords⟩

end NoKV.Meta
