import NoKV.Lib.Session
import NoKV.Meta.Engine.Trace
import NoKV.Meta.RecoverySegment

/-!
# Replaying a recovery log

A target shard replays the recovery records of a source through its own write entrypoints, one record
or one sealed segment at a time.

* `replayRecoveryRecord_next`, `replayRecoveryRecord_applied`: the next record of a log moves the
  target to the next store of the source, and a record that was applied moves nothing;
* `replayRecoverySegment_delivers`: so does a segment, whatever part of it was applied before;
* `replayAll_delivers`: any sequence of deliveries without a gap ends in a store of the source.
-/

namespace NoKV.Meta

open Lib Store State List

/-- A store on which sessions run the programs and the entrypoints of a shard. -/
class Serves (σ : Type) where
  observe {α : Type} : Shard α → Session σ MetaError α
  runEntrypoint {α : Type} : Shard (Planned α) → Session σ MetaError α

export Serves (runEntrypoint)

instance (priority := low) {σ : Type} [Serves σ] : MonadLift Shard (Session σ MetaError) := ⟨Serves.observe⟩

/-- A store that answers. -/
instance : Serves State := ⟨Session.observe, attempt none⟩

section Programs

variable [Pager] [Sha256] {σ : Type} [Serves σ]

def REPLAY : String := "RecoveryOutbox replay"

/-- Run the write of a record and compare its result with the recorded one. -/
def replayMutation (shard : LogicalShardId) (record : RecoveryOutboxRecord) :
    Session σ MetaError Unit :=
  match record.mutation, record.result with
  | .metadataCommand command leaseDeadlineMs, .metadataCommand commitVersion deterministicResult => do
    let result ← runEntrypoint (executeUnlocked command leaseDeadlineMs)
    refuseIf (result.commitVersion ≠ commitVersion ∨ result.deterministicResult ≠ deterministicResult ∨
      result.recoveryLsn ≠ record.recoveryLsn ∨ result.recoveryChainDigest ≠ record.chainDigest)
      (corrupt REPLAY s!"metadata result changed at LSN {record.recoveryLsn}")
  | .observeLeaseClock rootId placementGeneration ownerEpoch observedMs,
    .leaseClock effectiveHighWaterMs => do
    let effective ←
      runEntrypoint (observeLeaseClock shard rootId placementGeneration ownerEpoch observedMs)
    refuseIf (effective ≠ effectiveHighWaterMs)
      (corrupt REPLAY s!"lease-clock result changed at LSN {record.recoveryLsn}")
  | .advanceOwnerEpoch expected next, .ownerEpoch appliedOwnerEpoch => do
    runEntrypoint (advanceOwnerEpoch shard expected next)
    refuseIf (next ≠ appliedOwnerEpoch)
      (corrupt REPLAY s!"owner result changed at LSN {record.recoveryLsn}")
  | _, _ => throw (corrupt REPLAY "mutation and deterministic result variants differ")

/-- The record stored under the position of `record` is `record`. -/
def compareLocal (record : RecoveryOutboxRecord) (place : String) : Shard Unit := do
  let localRecord ← recoveryRecordAtUnlocked record.recoveryLsn
  refuseIf (localRecord ≠ record)
    (corrupt REPLAY s!"target diverges at {place} LSN {record.recoveryLsn}")

/-- The record is the next one behind the tail. -/
def checkNext (before : RecoveryState) (record : RecoveryOutboxRecord) : Except MetaError Unit := do
  let expectedLsn ← okOr (checkedAdd before.appliedRecoveryLsn 1) MetaError.versionOverflow
  refuseIf (record.recoveryLsn ≠ expectedLsn)
    (corrupt REPLAY s!"expected next LSN {expectedLsn}, found {record.recoveryLsn}")
  refuseIf (record.previousChainDigest ≠ before.chainDigest)
    (corrupt REPLAY s!"LSN {expectedLsn} does not follow the target chain digest")

def replayRecoveryRecordUnlocked (shard : LogicalShardId) (record : RecoveryOutboxRecord) :
    Session σ MetaError RecoveryState := do
  let before ← liftM recoveryStateUnlocked
  if record.recoveryLsn.toNat ≤ before.appliedRecoveryLsn.toNat then do
    liftM (compareLocal record "existing")
    return before
  else do
    liftM (checkNext before record)
    replayMutation shard record
    let after ← liftM recoveryStateUnlocked
    refuseIf (after ≠ ⟨record.recoveryLsn, record.chainDigest⟩)
      (corrupt REPLAY s!"authoritative write produced a different tail at LSN {record.recoveryLsn}")
    return after

/-- A command replays on the shard it names. -/
def checkCommandShard (shard : LogicalShardId) (record : RecoveryOutboxRecord) : Except MetaError Unit :=
  match record.mutation with
  | .metadataCommand command _ =>
    refuseIf (command.logicalShardId ≠ shard)
      (corrupt REPLAY "metadata command targets a different logical shard")
  | _ => .ok ()

def replayRecoveryRecord (shard : LogicalShardId) (record : RecoveryOutboxRecord) :
    Session σ MetaError RecoveryState := do
  liftM (corruptRecovery REPLAY record.verify)
  liftM (checkCommandShard shard record)
  replayRecoveryRecordUnlocked shard record

/-- A segment that overlaps the target agrees with it. -/
def checkOverlap (before : RecoveryState) (segment : RecoveryOutboxSegment) : Shard Unit := do
  (segment.records.takeWhile fun record =>
    record.recoveryLsn.toNat ≤ before.appliedRecoveryLsn.toNat).forM fun record =>
      compareLocal record "overlapping"
  if before.appliedRecoveryLsn.toNat < segment.lastLsn.toNat then do
    let overlap ← recoveryRecordAtUnlocked before.appliedRecoveryLsn
    refuseIf (overlap.chainDigest ≠ before.chainDigest)
      (corrupt REPLAY "target tail digest disagrees with its overlapping row")
  else return ()

/-- A segment joins the tail of the target. -/
def checkJoins (before : RecoveryState) (segment : RecoveryOutboxSegment) : Shard Unit :=
  if before.appliedRecoveryLsn.toNat < segment.firstLsn.toNat then do
    let _ ← liftM (corruptRecovery REPLAY (segment.verifyFollows before))
    return ()
  else checkOverlap before segment

/-- Replay the records of a segment that the target misses. -/
def replayMissing (shard : LogicalShardId) (before : RecoveryState) :
    List RecoveryOutboxRecord → Session σ MetaError Unit
  | [] => return ()
  | record :: rest =>
    if before.appliedRecoveryLsn.toNat < record.recoveryLsn.toNat then do
      let _ ← replayRecoveryRecordUnlocked shard record
      replayMissing shard before rest
    else replayMissing shard before rest

def replayRecoverySegment (shard : LogicalShardId) (segment : RecoveryOutboxSegment) :
    Session σ MetaError RecoveryState := do
  liftM (corruptRecovery REPLAY segment.verify)
  refuseIf (segment.logicalShardId ≠ shard) (corrupt REPLAY "segment targets a different logical shard")
  let before ← liftM recoveryStateUnlocked
  liftM (checkJoins before segment)
  replayMissing shard before segment.records
  liftM recoveryStateUnlocked

end Programs

/-! ### The next record -/

section Next

variable {shard : LogicalShardId} {s : State} {call : Call} {txn : WriteTxn} {row : RecoveryOutboxRecord}
  {log : List RecoveryOutboxRecord}

lemma checkNext_eq_ok {before : RecoveryState} : checkNext before row = .ok () ↔
    row.recoveryLsn.toNat = before.appliedRecoveryLsn.toNat + 1 ∧
      row.previousChainDigest = before.chainDigest := by
  unfold checkNext
  simp only [bind_eq_ok, okOr_eq_ok, checkedAdd_eq_some, refuseIf_eq_ok, ne_eq, not_not]
  constructor
  · rintro ⟨_, hlsn, _, rfl, hdigest⟩
    exact ⟨hlsn, hdigest⟩
  · rintro ⟨hlsn, hdigest⟩
    exact ⟨_, hlsn, (), rfl, hdigest⟩

/-- An entrypoint whose plan applies is answered with what it planned. -/
lemma runEntrypoint_of_plan {α : Type} {work : Shard (Planned α)} {operation : String} {applied : α}
    {conflict : Shard α} (hplan : work.runAt s = .ok (.commit operation txn applied conflict))
    (hvalid : txn.validate storeLimits = .ok ()) (hchecks : txn.checks.all s.holds = true) :
    (runEntrypoint work).exec s = (.ok applied, s.writeAll txn.mutations) := by
  show attempt none work s = _
  unfold attempt submit State.commit
  rw [hplan]
  dsimp only
  rw [hvalid, if_pos hchecks]

variable [Pager] [Sha256]

/-- The write of a record replays with the recorded result. -/
lemma replayMutation_of_writes {sys : SystemRecords} (hsys : SystemInv shard s sys)
    (h : Writes shard s call txn row) :
    (replayMutation shard row).exec s = (.ok (), s.writeAll txn.mutations) := by
  have hmutation := h.mutation_eq hsys
  obtain ⟨plan, hwrote, -⟩ := h.wrote
  obtain ⟨_, _, hplan⟩ := h.applied.plan
  have hvalid := h.applied.valid
  have hchecks := h.applied.checks
  unfold RecoveryOutboxRecord.reply at hplan
  unfold replayMutation
  -- the write was planned for the call of the record, so planning it again gives the same transaction
  generalize row.result = result at hwrote hplan ⊢
  cases call with
  | execute command =>
    cases hwrote with
    | command =>
      obtain ⟨applied, conflict', hwork, hreply⟩ := map_runAt_commit hplan
      cases hreply
      rw [hmutation]
      dsimp only [Call.mutation]
      have hunlocked := (executeWithLeaseDeadline_eq_ok hwork).2.2
      rw [Session.bind_of_ok (runEntrypoint_of_plan hunlocked hvalid hchecks),
        Session.exec_refuseIf, refuseIf_of_not (by simp)]
  | observeLeaseClock =>
    cases hwrote with
    | observeLeaseClock =>
      obtain ⟨applied, conflict', hwork, hreply⟩ := map_runAt_commit hplan
      cases hreply
      rw [hmutation]
      dsimp only [Call.mutation]
      rw [Session.bind_of_ok (runEntrypoint_of_plan hwork hvalid hchecks), Session.exec_refuseIf,
        refuseIf_of_not (by simp)]
  | advanceOwnerEpoch =>
    cases hwrote with
    | advanceOwnerEpoch =>
      obtain ⟨_, _, hwork, _⟩ := map_runAt_commit hplan
      rw [hmutation]
      dsimp only [Call.mutation]
      rw [Session.bind_of_ok (runEntrypoint_of_plan hwork hvalid hchecks), Session.exec_refuseIf,
        refuseIf_of_not (by simp)]

omit [Pager] in
lemma tailAfter_concat (shard : LogicalShardId) (log : List RecoveryOutboxRecord)
    (row : RecoveryOutboxRecord) :
    tailAfter shard (log ++ [row]) = ⟨row.recoveryLsn, row.chainDigest⟩ := by
  unfold tailAfter
  rw [systemAfter_concat, SystemRecords.apply_lsn, SystemRecords.apply_digest]

omit [Pager] in
lemma tailAfter_lsn (h : recordLink.ChainFrom 0 (recoveryGenesisDigest shard) log) :
    (tailAfter shard log).appliedRecoveryLsn.toNat = log.length := by
  rcases eq_nil_or_concat' log with rfl | ⟨_, _, rfl⟩
  · rfl
  · rw [tailAfter_concat, length_append]
    exact (Link.chainFrom_concat.1 h).2.1.trans (by rw [Nat.zero_add]; rfl)

omit [Pager] in
/-- Sealed records of a log follow what is before them. -/
lemma verifyFollows_of_seal {segment : RecoveryOutboxSegment} {before records : List RecoveryOutboxRecord}
    (hchain : recordLink.ChainFrom 0 (recoveryGenesisDigest shard) (before ++ records))
    (hseal : RecoveryOutboxSegment.sealRecords shard records = .ok segment) :
    segment.verifyFollows (tailAfter shard before) = .ok (tailAfter shard (before ++ records)) := by
  obtain ⟨hbefore, hrecords⟩ := Link.chainFrom_append.1 hchain
  have hsealed := RecoveryOutboxSegment.sealRecords_eq_ok hseal
  obtain ⟨first, _, rfl, hfirst, hprevious⟩ := hsealed.first
  obtain ⟨last, hlast, hlastLsn, hlastDigest⟩ := hsealed.last
  refine RecoveryOutboxSegment.verifyFollows_eq_ok.2
    ⟨RecoveryOutboxSegment.verify_eq_ok.2 (by rw [hsealed.shard_eq, hsealed.records_eq, hseal]), ?_, ?_, ?_⟩
  · rw [hfirst, tailAfter_lsn hbefore]
    exact hrecords.1.trans (by rw [Nat.zero_add])
  · rw [hprevious]
    exact hrecords.2.1.trans (systemAfter_digest shard before).symm
  · obtain ⟨_, hinit⟩ := getLast?_eq_some_iff.1 hlast
    rw [hinit, ← append_assoc, tailAfter_concat, hlastLsn, hlastDigest]

variable (h : Trace shard s log)
include h

/-- The tail that a running shard reports. -/
lemma Trace.recoveryState_runAt :
    recoveryStateUnlocked.runAt s = .ok (tailAfter shard log) := h.inv.system.recoveryState_runAt

lemma Trace.tail_lsn : (tailAfter shard log).appliedRecoveryLsn.toNat = log.length := h.inv.lsn_eq

/-- The next record of a log moves the target to the store behind it. -/
lemma replayUnlocked_next (hwrites : Writes shard s call txn row) :
    (replayRecoveryRecordUnlocked shard row).exec s =
      (.ok ⟨row.recoveryLsn, row.chainDigest⟩, s.writeAll txn.mutations) := by
  have hsys := h.inv.system
  have hafter : recoveryStateUnlocked.runAt (s.writeAll txn.mutations) =
      .ok ⟨row.recoveryLsn, row.chainDigest⟩ := by
    rw [(Trace.write h hwrites).recoveryState_runAt, tailAfter_concat]
  have hlsn : row.recoveryLsn.toNat = (tailAfter shard log).appliedRecoveryLsn.toNat + 1 := by
    obtain ⟨plan, hwrote, rfl⟩ := hwrites.wrote
    exact (hwrote.continues hsys).lsn_eq
  have hprevious : row.previousChainDigest = (tailAfter shard log).chainDigest := by
    obtain ⟨_, hwrote, rfl⟩ := hwrites.wrote
    exact (hwrote.continues hsys).previous_eq
  have hnext := checkNext_eq_ok.2 ⟨hlsn, hprevious⟩
  unfold replayRecoveryRecordUnlocked
  rw [Session.observe_bind_of_ok h.recoveryState_runAt, if_neg (by omega),
    Session.bind_of_ok (by rw [Session.exec_liftM_except, hnext]),
    Session.bind_of_ok (replayMutation_of_writes hsys hwrites), Session.observe_bind_of_ok hafter,
    Session.refuseIf_bind_of_not (not_not.2 rfl)]
  rfl

lemma compareLocal_runAt (hrow : row ∈ log) (place : String) : (compareLocal row place).runAt s = .ok () := by
  unfold compareLocal
  rw [Prog.runAt_bind, h.inv.log.recordAt_runAt hrow, ok_bind, Prog.runAt_refuseIf,
    refuseIf_of_not (not_not.2 rfl)]

/-- A record that was applied moves nothing. -/
lemma replayUnlocked_applied (hrow : row ∈ log) :
    (replayRecoveryRecordUnlocked shard row).exec s = (.ok (tailAfter shard log), s) := by
  have hle : row.recoveryLsn.toNat ≤ (tailAfter shard log).appliedRecoveryLsn.toNat := by
    have : row.recoveryLsn.toNat ≤ 0 + log.length := (h.inv.log.chain.pos_bounds hrow).2
    rw [h.tail_lsn]
    omega
  unfold replayRecoveryRecordUnlocked
  rw [Session.observe_bind_of_ok h.recoveryState_runAt, if_pos hle,
    Session.observe_bind_of_ok (compareLocal_runAt h hrow _)]
  rfl

end Next

/-! ### Deliveries -/

section Deliveries

variable [Pager] [Sha256] {shard : LogicalShardId} {s t : State} {log : List RecoveryOutboxRecord}
  {row : RecoveryOutboxRecord} {n : ℕ} {i : ℕ}

lemma Trace.lsn_getElem (h : Trace shard s log) (hi : log[i]? = some row) :
    row.recoveryLsn.toNat = i + 1 := by
  obtain ⟨hlt, rfl⟩ := List.getElem?_eq_some_iff.1 hi
  have : log[i].recoveryLsn.toNat = 0 + i + 1 := h.inv.log.chain.pos_getElem hlt
  omega

lemma Trace.mem_take (h : Trace shard s log) (hrow : row ∈ log) (hle : row.recoveryLsn.toNat ≤ n) :
    row ∈ log.take n := by
  obtain ⟨i, hi⟩ := mem_iff_getElem?.1 hrow
  have hlsn := h.lsn_getElem hi
  refine mem_iff_getElem?.2 ⟨i, ?_⟩
  rw [getElem?_take_of_lt (by omega), hi]

lemma Trace.checkCommandShard (h : Trace shard s log) (hrow : row ∈ log) :
    Meta.checkCommandShard shard row = .ok () := by
  have haccepted := h.accepted hrow
  unfold Meta.checkCommandShard
  cases hmutation : row.mutation with
  | metadataCommand =>
    exact refuseIf_of_not (not_not.2 (validateCommand_eq_ok (haccepted _ _ hmutation).1).shard_eq)
  | observeLeaseClock | advanceOwnerEpoch => rfl

section

variable (hs : Trace shard s log) (ht : Trace shard t (log.take n)) (hin : i ≤ n) (hi : log[i]? = some row)
include hs ht hin hi

/-- A record of the source at a position up to the next one. -/
lemma replayUnlocked_delivers : ∃ t', (replayRecoveryRecordUnlocked shard row).exec t =
        (.ok (tailAfter shard (log.take (max n (i + 1)))), t') ∧
      Trace shard t' (log.take (max n (i + 1))) := by
  rcases Nat.lt_or_eq_of_le hin with hlt | rfl
  · have hrow : row ∈ log.take n :=
      hs.mem_take (mem_of_getElem? hi) (by rw [hs.lsn_getElem hi]; omega)
    rw [Nat.max_eq_left hlt]
    exact ⟨t, replayUnlocked_applied ht hrow, ht⟩
  · obtain ⟨_, _, hwrites, hnext⟩ := hs.next hi ht
    rw [Nat.max_eq_right (Nat.le_succ i)]
    refine ⟨_, ?_, hnext⟩
    rw [replayUnlocked_next ht hwrites, take_add_one, hi]
    exact congrArg (fun tail => (Except.ok tail, _)) (tailAfter_concat shard _ row).symm

lemma replayRecoveryRecord_delivers : ∃ t', (replayRecoveryRecord shard row).exec t =
        (.ok (tailAfter shard (log.take (max n (i + 1)))), t') ∧
      Trace shard t' (log.take (max n (i + 1))) := by
  have hrow : row ∈ log := mem_of_getElem? hi
  have hverify : corruptRecovery REPLAY row.verify = .ok () := by
    obtain ⟨_, _, hstored, -⟩ := hs.inv.log.stored row hrow
    obtain ⟨_, hencode, -⟩ := hstored.stored
    unfold corruptRecovery RecoveryOutboxRecord.verify
    rw [hencode]
    rfl
  obtain ⟨t', hexec, ht'⟩ := replayUnlocked_delivers hs ht hin hi
  refine ⟨t', ?_, ht'⟩
  unfold replayRecoveryRecord
  rw [Session.bind_of_ok (by rw [Session.exec_liftM_except, hverify]),
    Session.bind_of_ok (by rw [Session.exec_liftM_except, hs.checkCommandShard hrow]), hexec]

end

/-- The records that are missing are replayed in order. -/
lemma replayMissing_delivers {records : List RecoveryOutboxRecord} (hs : Trace shard s log)
    (ht : Trace shard t (log.take (max n i))) {before : RecoveryState}
    (hbefore : before.appliedRecoveryLsn.toNat = n) (hrecords : records <+: log.drop i) :
    ∃ t', (replayMissing shard before records).exec t = (.ok (), t') ∧
      Trace shard t' (log.take (max n (i + records.length))) := by
  induction records generalizing i t with
  | nil => exact ⟨t, rfl, ht⟩
  | cons record rest ih =>
    obtain ⟨tail, htail⟩ := hrecords
    have hi : log[i]? = some record := by
      have := congrArg (fun l => l[0]?) htail
      simpa using this.symm
    have hrest : rest <+: log.drop (i + 1) := by
      refine ⟨tail, ?_⟩
      have := congrArg List.tail htail
      simpa using this
    have hlength : i + (record :: rest).length = i + 1 + rest.length := by
      rw [length_cons]
      omega
    rw [hlength, replayMissing, hbefore, hs.lsn_getElem hi]
    by_cases hmissing : n < i + 1
    · rw [if_pos hmissing]
      obtain ⟨_, hexec, ht₁⟩ := replayUnlocked_delivers hs ht (le_max_right n i) hi
      rw [show max (max n i) (i + 1) = max n (i + 1) by omega] at ht₁
      obtain ⟨t', hexec', ht'⟩ := ih ht₁ hrest
      exact ⟨t', by rw [Session.bind_of_ok hexec, hexec'], ht'⟩
    · rw [if_neg hmissing]
      refine ih ?_ hrest
      rw [show max n (i + 1) = max n i by omega]
      exact ht

variable {segment : RecoveryOutboxSegment} {records : List RecoveryOutboxRecord} {i : ℕ}

section

variable (hs : Trace shard s log) (ht : Trace shard t (log.take n)) (hn : n ≤ log.length) (hin : i ≤ n)
  (hrecords : records <+: log.drop i) (hseal : RecoveryOutboxSegment.sealRecords shard records = .ok segment)
include hs ht hn hin hrecords hseal

/-- A segment of the source joins a target that has every record before it. -/
lemma checkJoins_runAt : (checkJoins (tailAfter shard (log.take n)) segment).runAt t = .ok () := by
  have hsealed := RecoveryOutboxSegment.sealRecords_eq_ok hseal
  have hchain : recordLink.ChainFrom 0 (recoveryGenesisDigest shard) (log.take i ++ records) := by
    have hlog := hs.inv.log.chain
    obtain ⟨_, hrest⟩ := hrecords
    rw [← take_append_drop i log, ← hrest, ← append_assoc, Link.chainFrom_append] at hlog
    exact hlog.1
  have hfollows := verifyFollows_of_seal hchain hseal
  have hlsn : segment.firstLsn.toNat = i + 1 := by
    rw [(RecoveryOutboxSegment.verifyFollows_eq_ok.1 hfollows).2.1,
      tailAfter_lsn (Link.chainFrom_append.1 hchain).1, length_take, Nat.min_eq_left (hin.trans hn)]
  have htail : (tailAfter shard (log.take n)).appliedRecoveryLsn.toNat = n := by
    rw [ht.tail_lsn, length_take, Nat.min_eq_left hn]
  unfold checkJoins
  rw [htail, hlsn]
  by_cases hnext : n < i + 1
  · -- nothing of the segment was applied
    obtain rfl : i = n := by omega
    rw [if_pos hnext, Prog.runAt_bind, Prog.runAt_liftM, corruptRecovery, hfollows]
    rfl
  · -- the follower has a part of the segment: its records there are those of the log
    rw [if_neg hnext]
    unfold checkOverlap
    have hoverlap : ∀ record ∈ segment.records.takeWhile (fun record =>
        decide (record.recoveryLsn.toNat ≤ (tailAfter shard (log.take n)).appliedRecoveryLsn.toNat)),
        (compareLocal record "overlapping").runAt t = .ok () := by
      intro record hrecord
      have hle := of_decide_eq_true (all_eq_true.1 all_takeWhile record hrecord)
      rw [htail] at hle
      have hmem : record ∈ log := by
        have := (takeWhile_sublist _).subset hrecord
        rw [hsealed.records_eq] at this
        exact mem_of_mem_drop (hrecords.subset this)
      exact compareLocal_runAt ht (hs.mem_take hmem hle) _
    rw [Prog.runAt_bind, Prog.runAt_forM, (forM_eq_ok (u := ())).2 hoverlap, ok_bind, Prog.runAt_ite]
    split
    · -- the last applied record carries the digest of the tail
      have hne : log.take n ≠ [] := by
        intro hnil
        have := congrArg List.length hnil
        rw [length_take, length_nil] at this
        omega
      obtain ⟨_, row, hrow⟩ := (eq_nil_or_concat' (log.take n)).resolve_left hne
      have hmem : row ∈ log.take n := by
        rw [hrow]
        simp
      have hread := ht.inv.log.recordAt_runAt hmem
      rw [hrow, tailAfter_concat, Prog.runAt_bind, hread, ok_bind, Prog.runAt_refuseIf,
        refuseIf_of_not (not_not.2 rfl)]
    · rfl

/-- A segment of the source, whatever part of it was applied before. -/
lemma replayRecoverySegment_delivers : ∃ t', (replayRecoverySegment shard segment).exec t =
        (.ok (tailAfter shard (log.take (max n (i + records.length)))), t') ∧
      Trace shard t' (log.take (max n (i + records.length))) := by
  have hsealed := RecoveryOutboxSegment.sealRecords_eq_ok hseal
  have hverify : corruptRecovery REPLAY segment.verify = .ok () := by
    unfold corruptRecovery
    rw [mapError_eq_ok, RecoveryOutboxSegment.verify_eq_ok, hsealed.shard_eq, hsealed.records_eq, hseal]
  have htail : (tailAfter shard (log.take n)).appliedRecoveryLsn.toNat = n := by
    rw [ht.tail_lsn, length_take, Nat.min_eq_left hn]
  have ht₀ : Trace shard t (log.take (max n i)) := by
    rw [Nat.max_eq_left hin]
    exact ht
  obtain ⟨t', hexec, ht'⟩ := replayMissing_delivers hs ht₀ htail hrecords
  refine ⟨t', ?_, ht'⟩
  unfold replayRecoverySegment
  rw [Session.bind_of_ok (by rw [Session.exec_liftM_except, hverify]),
    Session.refuseIf_bind_of_not (not_not.2 hsealed.shard_eq),
    Session.observe_bind_of_ok ht.recoveryState_runAt,
    Session.observe_bind_of_ok (checkJoins_runAt hs ht hn hin hrecords hseal), hsealed.records_eq,
    Session.bind_of_ok hexec, Session.exec_liftM, ht'.recoveryState_runAt]

end

/-- What is delivered to a target at once. -/
inductive Delivery where
  | record (record : RecoveryOutboxRecord)
  | segment (segment : RecoveryOutboxSegment)

def Delivery.replay (shard : LogicalShardId) : Delivery → Session State MetaError RecoveryState
  | .record row => replayRecoveryRecord shard row
  | .segment part => replayRecoverySegment shard part

def replayAll (shard : LogicalShardId) : List Delivery → Session State MetaError Unit
  | [] => return ()
  | delivery :: rest => do
    let _ ← delivery.replay shard
    replayAll shard rest

/-- Deliveries out of a log that take a target from its first `n` records to its first `m`: single
records and sealed segments that start no later than the first missing record, in any grouping and
with any repetition. -/
inductive Delivers (shard : LogicalShardId) (log : List RecoveryOutboxRecord) :
    ℕ → List Delivery → ℕ → Prop
  | done (n : ℕ) : Delivers shard log n [] n
  | record {n m i : ℕ} {row : RecoveryOutboxRecord} {rest : List Delivery} :
      i ≤ n → log[i]? = some row → Delivers shard log (max n (i + 1)) rest m →
      Delivers shard log n (.record row :: rest) m
  | segment {n m i : ℕ} {records : List RecoveryOutboxRecord} {segment : RecoveryOutboxSegment}
      {rest : List Delivery} :
      i ≤ n → records <+: log.drop i → RecoveryOutboxSegment.sealRecords shard records = .ok segment →
      Delivers shard log (max n (i + records.length)) rest m →
      Delivers shard log n (.segment segment :: rest) m

/-- Deliveries without a gap succeed and leave the store of the source behind the delivered records. -/
lemma replayAll_delivers {deliveries : List Delivery} {m : ℕ} (hs : Trace shard s log)
    (ht : Trace shard t (log.take n)) (hn : n ≤ log.length) (h : Delivers shard log n deliveries m) :
    ∃ t', (replayAll shard deliveries).exec t = (.ok (), t') ∧ Trace shard t' (log.take m) ∧
      m ≤ log.length := by
  induction h generalizing t with
  | done => exact ⟨t, rfl, ht, hn⟩
  | @record _ _ _ _ _ hin hi _ ih =>
    obtain ⟨t₁, hexec, ht₁⟩ := replayRecoveryRecord_delivers hs ht hin hi
    have hlt := (List.getElem?_eq_some_iff.1 hi).1
    obtain ⟨t', hexec', ht'⟩ := ih ht₁ (by omega)
    refine ⟨t', ?_, ht'⟩
    rw [replayAll, Delivery.replay, Session.bind_of_ok hexec, hexec']
  | @segment _ _ _ _ _ _ hin hrecords hseal _ ih =>
    obtain ⟨_, hexec, ht₁⟩ := replayRecoverySegment_delivers hs ht hn hin hrecords hseal
    have hle := hrecords.length_le
    rw [length_drop] at hle
    obtain ⟨t', hexec', ht'⟩ := ih ht₁ (by omega)
    refine ⟨t', ?_, ht'⟩
    rw [replayAll, Delivery.replay, Session.bind_of_ok hexec, hexec']

end Deliveries

end NoKV.Meta
