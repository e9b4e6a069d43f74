import NoKV.Meta.Engine.SegmentExport

/-!
# Fencing by owner epoch and lease clock

The moves of a shard whose clients plan and submit in any interleaving (`RaceStep`), and what its two
fences guarantee along every run of such moves.

* `raceRun_serve`, `raceRun_replayRecoverySegment`: sequenced sessions and replayed segments are such runs;
* `Wrote.ownerEpoch_eq`, `Plans.before_deadline`: a transaction applies only for the owner that it was
  planned for, and before its deadline;
* `owner_fencing`: neither fence moves back, and a call for another owner changes nothing.
-/

namespace NoKV.Meta

open Lib Store State
open Prog hiding bind pure get

/-! ### Moves -/

section Moves

variable [Pager] [Sha256]

/-- A shard and its clients: the rows, the plans made so far and the calls applied so far. -/
structure Racing where
  rows : State
  made : List Pending
  done : List (Call × Reply)

def Racing.start (shard : LogicalShardId) : Racing := ⟨initialized shard, [], []⟩

/-- A client plans a call on the current rows, or submits one of the plans made so far. -/
inductive RaceStep (shard : LogicalShardId) (c : Racing) : Racing → Prop
  | plan {call : Call} {operation : String} {txn : WriteTxn} {applied : Reply} {conflict : Shard Reply}
      (planned : (call.plan shard).runAt c.rows = .ok (.commit operation txn applied conflict)) :
      RaceStep shard c { c with made := ⟨call, operation, txn, applied, conflict⟩ :: c.made }
  | apply {p : Pending} (mem : p ∈ c.made) (valid : p.txn.validate storeLimits = .ok ())
      (checks : p.txn.checks.all c.rows.holds = true) :
      RaceStep shard c
        { c with rows := c.rows.writeAll p.txn.mutations, done := c.done ++ [(p.call, p.applied)] }

def RaceRun (shard : LogicalShardId) : Racing → Racing → Prop := Relation.ReflTransGen (RaceStep shard)

variable {shard : LogicalShardId} {c c' : Racing}

lemma RaceStep.races (h : RaceStep shard c c') (hc : Races shard c.rows c.made c.done) :
    Races shard c'.rows c'.made c'.done := by
  cases h with
  | plan planned => exact .plan hc planned
  | apply mem valid checks => exact .apply hc mem valid checks

lemma RaceRun.races (h : RaceRun shard c c') (hc : Races shard c.rows c.made c.done) :
    Races shard c'.rows c'.made c'.done := by
  induction h with
  | refl => exact hc
  | tail _ hstep ih => exact hstep.races ih

lemma RaceRun.reachable (h : RaceRun shard (.start shard) c) : Races shard c.rows c.made c.done :=
  h.races .initialized

lemma raceRun_applied {call : Call} {txn : WriteTxn} {reply : Reply}
    (h : Applied shard c.rows call txn reply) :
    ∃ c', RaceRun shard c c' ∧ c'.rows = c.rows.writeAll txn.mutations := by
  obtain ⟨_, _, hplan⟩ := h.plan
  refine ⟨_, Relation.ReflTransGen.head (.plan hplan) (.single (.apply (List.mem_cons_self ..) ?_ ?_)), rfl⟩
  · exact h.valid
  · exact h.checks

def CallStep (shard : LogicalShardId) (s s' : State) : Prop :=
  ∃ call txn reply, Applied shard s call txn reply ∧ s' = s.writeAll txn.mutations

/-- What calls do one after the other is one of the runs. -/
lemma raceRun_of_callSteps {s : State} (h : Relation.ReflTransGen (CallStep shard) c.rows s) :
    ∃ c', RaceRun shard c c' ∧ c'.rows = s := by
  induction h with
  | refl => exact ⟨c, .refl, rfl⟩
  | tail _ hstep ih =>
    obtain ⟨_, hrun, rfl⟩ := ih
    obtain ⟨_, _, _, happlied, rfl⟩ := hstep
    obtain ⟨c₂, hrun', hrows⟩ := raceRun_applied happlied
    exact ⟨c₂, hrun.trans hrun', hrows⟩

lemma raceRun_serve (request : Request) :
    ∃ c', RaceRun shard c c' ∧ c'.rows = (serve shard c.rows request).2 := by
  rcases serve_cases shard c.rows request with heq | ⟨_, _, happlied, heq⟩
  · exact ⟨c, .refl, heq.symm⟩
  · rw [heq]
    exact raceRun_applied happlied

lemma raceRun_serveAll (requests : List Request) :
    ∃ c', RaceRun shard c c' ∧ c'.rows = serveAll shard c.rows requests := by
  induction requests generalizing c with
  | nil => exact ⟨c, .refl, rfl⟩
  | cons request _ ih =>
    obtain ⟨c₁, hrun₁, hrows₁⟩ : ∃ c', RaceRun shard c c' ∧ c'.rows = (serve shard c.rows request).2 :=
      raceRun_serve request
    obtain ⟨c₂, hrun₂, hrows₂⟩ := ih (c := c₁)
    refine ⟨c₂, hrun₁.trans hrun₂, ?_⟩
    rw [hrows₂, hrows₁]
    rfl

end Moves

/-! ### Replayed records are moves -/

section Replay

variable {shard : LogicalShardId} {c : Racing} {s : State}

/-- An entrypoint that plans a transaction plans it as a call. -/
lemma map_runAt_of_commit {α : Type} {f : α → Reply} {p : Shard (Planned α)} {operation : String}
    {txn : WriteTxn} {applied : α} {conflict : Shard α}
    (h : p.runAt s = .ok (.commit operation txn applied conflict)) :
    (Planned.map f <$> p).runAt s = .ok (.commit operation txn (f applied) (f <$> conflict)) := by
  rw [runAt_map, h]
  rfl

variable [Pager] [Sha256]

variable {row : RecoveryOutboxRecord}

/-- An accepted command is not validated again when its record is replayed. -/
lemma executeWithLeaseDeadline_of_accepted {command : MetadataCommand} (leaseDeadlineMs : Option UInt64)
    (hvalid : validateCommand shard command = .ok ())
    (hdigest : command.commandDigest = command.canonicalDigest) :
    (executeWithLeaseDeadline shard command leaseDeadlineMs).runAt s =
      (executeUnlocked command leaseDeadlineMs).runAt s := by
  unfold executeWithLeaseDeadline
  rw [runAt_bind, runAt_liftM, hvalid, ok_bind, runAt_bind, runAt_refuseIf,
    refuseIf_of_not (not_not.2 hdigest), ok_bind]

/-- An entrypoint that plans what a call plans does what the call does. -/
lemma moves_runEntrypoint {α : Type} {work : Shard (Planned α)} (call : Call) (f : α → Reply)
    (hplan : ∀ s, (call.plan shard).runAt s = (Planned.map f <$> work).runAt s) :
    Session.Moves (CallStep shard) (runEntrypoint work : Session State MetaError α) := by
  intro s
  rcases attempt_cases none work s with heq | ⟨_, txn, applied, _, hwork, hvalid, hchecks, heq⟩
  · show Relation.ReflTransGen _ s (attempt none work s).2
    rw [heq]
  · have hcall := (hplan s).trans (map_runAt_of_commit hwork)
    exact .single ⟨call, txn, f applied, ⟨⟨_, _, hcall⟩, hvalid, hchecks⟩, heq⟩

section

variable (haccepted : row.Accepted shard)
include haccepted

lemma moves_replayMutation :
    Session.Moves (CallStep shard) (replayMutation shard row : Session State MetaError Unit) := by
  unfold replayMutation
  split
  next command leaseDeadlineMs commitVersion deterministicResult hmutation hresult =>
    obtain ⟨hvalid, hdigest⟩ := haccepted command leaseDeadlineMs hmutation
    refine (moves_runEntrypoint (.execute command leaseDeadlineMs) .command fun s => ?_).bind fun _ =>
      Session.moves_refuseIf _ _
    show (Planned.map Reply.command <$> executeWithLeaseDeadline shard command leaseDeadlineMs).runAt s = _
    rw [runAt_map, executeWithLeaseDeadline_of_accepted leaseDeadlineMs hvalid hdigest,
      ← runAt_map]
  next rootId placementGeneration ownerEpoch observedMs effectiveHighWaterMs hmutation hresult =>
    exact (moves_runEntrypoint (.observeLeaseClock rootId placementGeneration ownerEpoch observedMs)
      .leaseClock fun _ => rfl).bind fun _ => Session.moves_refuseIf _ _
  next expected next appliedOwnerEpoch hmutation hresult =>
    exact (moves_runEntrypoint (.advanceOwnerEpoch expected next) (fun _ => .ownerEpoch)
      fun _ => rfl).bind fun _ => Session.moves_refuseIf _ _
  · exact Session.moves_throw _

lemma moves_replayUnlocked : Session.Moves (CallStep shard)
    (replayRecoveryRecordUnlocked shard row : Session State MetaError RecoveryState) := by
  refine (Session.moves_liftM _).bind fun before => ?_
  split
  · exact (Session.moves_liftM _).bind fun _ => Session.moves_pure _
  · exact (Session.moves_liftM_except _).bind fun _ => (moves_replayMutation haccepted).bind fun _ =>
      (Session.moves_liftM _).bind fun _ => (Session.moves_refuseIf _ _).bind fun _ => Session.moves_pure _

end

lemma moves_replayMissing {before : RecoveryState} {records : List RecoveryOutboxRecord}
    (haccepted : ∀ row ∈ records, row.Accepted shard) :
    Session.Moves (CallStep shard) (replayMissing shard before records : Session State MetaError Unit) := by
  induction records with
  | nil => exact Session.moves_pure _
  | cons _ _ ih =>
    obtain ⟨hrecord, hrest⟩ := List.forall_mem_cons.1 haccepted
    unfold replayMissing
    split
    · exact (moves_replayUnlocked hrecord).bind fun _ => ih hrest
    · exact ih hrest

/-- Replaying a segment of accepted records is one of the runs. -/
theorem raceRun_replayRecoverySegment {segment : RecoveryOutboxSegment}
    (haccepted : ∀ row ∈ segment.records, row.Accepted shard) :
    ∃ c', RaceRun shard c c' ∧ c'.rows = ((replayRecoverySegment shard segment).exec c.rows).2 :=
  raceRun_of_callSteps <| (Session.moves_liftM_except _).bind (fun _ => (Session.moves_refuseIf _ _).bind fun _ =>
    (Session.moves_liftM _).bind fun _ => (Session.moves_liftM _).bind fun _ =>
      (moves_replayMissing haccepted).bind fun _ => Session.moves_liftM _) c.rows

end Replay

/-- The first segment that the sample run exports, on an empty shard. -/
theorem raceRun_replay_sample :
    letI := memoryPager
    letI := sha256Digest
    ∃ segment : RecoveryOutboxSegment, segment.records ≠ [] ∧
      (recoverySegmentAfter (sampleId 2) (tailAfter (sampleId 2) []) 1024 6).runAt sampleState =
        .ok (some segment) ∧
      ∃ c, RaceRun (sampleId 2) (.start (sampleId 2)) c ∧
        c.rows = ((replayRecoverySegment (sampleId 2) segment).exec (initialized (sampleId 2))).2 := by
  let := memoryPager
  let := sha256Digest
  obtain ⟨made, done, hraces⟩ := races_serveAll (sampleId 2) sampleRequests
  obtain ⟨log, hinv⟩ := hraces.inv
  have hlength : log.length = 5 := sampleState_length hinv.recoveryLog
  have hall : RaceInv (sampleId 2) sampleState made done ([] ++ log) := hinv
  rcases hall.segmentAfter_runAt (show 0 < 1024 by decide) (show 1024 ≤ MAX_RECOVERY_SEGMENT_RECORDS by decide)
    (show ([] ++ log).length < 6 by simp [hlength]) with ⟨rfl, -⟩ | ⟨segment, later, rfl, hne, -, hrun⟩
  · cases hlength
  · refine ⟨segment, hne, hrun, raceRun_replayRecoverySegment fun row hrow => ?_⟩
    exact hinv.rowAccepted (List.mem_append_left _ hrow)

/-! ### The two fences -/

/-- The owner epoch that a call acts for. -/
def Call.ownerEpoch : Call → UInt64
  | .execute command _ => command.ownerEpoch.val
  | .observeLeaseClock _ _ ownerEpoch _ => ownerEpoch.val
  | .advanceOwnerEpoch expected _ => (expected.map NonZeroU64.val).getD 0

/-- The deadline that a call must meet. -/
def Call.leaseDeadlineMs : Call → Option UInt64
  | .execute _ leaseDeadlineMs => leaseDeadlineMs
  | _ => none

section Fences

variable {shard : LogicalShardId} {s s₀ : State} {sys : SystemRecords}
  {state : CommandTxnState} {plan : RecoveryPlan}

variable [Pager] [Sha256]

variable {d : UInt64} {command : MetadataCommand} {txn : WriteTxn}

/-- A command with a deadline is planned before it. -/
lemma planCommand_deadline (h : (planCommand command (some d)).runAt s = .ok state) :
    ∃ current : UInt64, state.leaseClock = some (encodeSystemU64 current) ∧ current.toNat < d.toNat := by
  unfold planCommand at h
  simp only [runAt_bind, runAt_refuseIf, runAt_liftM, runAt_pure] at h
  obtain ⟨_, -, h⟩ := bind_eq_ok.1 h
  obtain ⟨_, -, h⟩ := bind_eq_ok.1 h
  obtain ⟨_, -, h⟩ := bind_eq_ok.1 h
  replace h := ok_of_bind h
  obtain ⟨_, -, h⟩ := bind_eq_ok.1 h
  obtain ⟨_, -, h⟩ := bind_eq_ok.1 h
  obtain ⟨_, hlease, h⟩ := bind_eq_ok.1 h
  obtain ⟨_, -, h⟩ := bind_eq_ok.1 h
  replace h := ok_of_bind h
  obtain ⟨_, -, rfl⟩ := bind_pure_eq_ok h
  unfold admitDeadline at hlease
  simp only [runAt_bind, runAt_refuseIf, runAt_pure] at hlease
  obtain ⟨⟨_, current⟩, hclock, hlease⟩ := bind_eq_ok.1 hlease
  obtain ⟨hlater, hlease⟩ := refuseIf_bind hlease
  cases pure_eq_ok.1 hlease
  exact ⟨current, congrArg some (requiredU64_eq_ok hclock).2, not_le.1 hlater⟩

/-- A transaction that applies was planned before its deadline, by the clock of the rows it applies to. -/
lemma Plans.before_deadline {reply : Reply} (h : Plans shard s₀ (.execute command (some d)) txn reply)
    (hsys : SystemInv shard s sys) (hchecks : txn.checks.all s.holds = true) :
    sys.leaseClock.toNat < d.toNat := by
  obtain ⟨_, _, hplan⟩ := h
  obtain ⟨_, _, hwork, rfl⟩ := map_runAt_commit hplan
  obtain ⟨_, -, ⟨⟩⟩ | ⟨_, _, _, -, hstate, hbuilt, ⟨⟩⟩ :=
    executeUnlocked_eq_ok (executeWithLeaseDeadline_eq_ok hwork).2.2
  obtain ⟨current, hlease, hlt⟩ := planCommand_deadline hstate
  obtain ⟨-, -, -, -, hchecked⟩ := buildCommandTxn_checks hbuilt
  have hget := holds_value.1 (holds_of_all hchecks (hchecked _ hlease))
  have hcurrent : current = sys.leaseClock :=
    encodeSystemU64_injective (Option.some.inj (hget.symm.trans hsys.leaseClock))
  exact hcurrent ▸ hlt

/-- A transaction that applies acts for the owner of the rows it applies to. -/
lemma Wrote.ownerEpoch_eq {call : Call} {result : RecoveryResultV1}
    (h : Wrote shard s call.mutation result plan txn) (hsys : SystemInv shard s sys) :
    call.ownerEpoch = sys.owner := by
  have hrow : s.get (systemKey SYSTEM_OWNER_FENCE_KEY) = some (encodeSystemU64 call.ownerEpoch) := by
    cases call with
    | execute command =>
      cases h with
      | command _ _ _ planned => exact planned.owner.trans (congrArg some planned.owner_eq)
    | observeLeaseClock =>
      cases h with
      | observeLeaseClock owner => exact owner
    | advanceOwnerEpoch =>
      cases h with
      | advanceOwnerEpoch owner current_eq =>
        rw [owner, current_eq]
        rfl
  exact encodeSystemU64_injective (Option.some.inj (hrow.symm.trans hsys.owner))

/-- A write moves neither fence back. -/
lemma Wrote.fences_mono {mutation : RecoveryMutationV1} {result : RecoveryResultV1}
    (h : Wrote shard s mutation result plan txn) (hsys : SystemInv shard s sys) :
    sys.owner.toNat ≤ (sys.apply plan.row).owner.toNat ∧
      sys.leaseClock.toNat ≤ (sys.apply plan.row).leaseClock.toNat := by
  have hresult := (h.continues hsys).result_eq
  unfold SystemRecords.apply
  rw [hresult]
  cases h with
  | command => exact ⟨le_refl _, le_refl _⟩
  | @observeLeaseClock _ _ _ _ current _ _ _ clock later =>
    have hcurrent : current = sys.leaseClock :=
      encodeSystemU64_injective (Option.some.inj (clock.symm.trans hsys.leaseClock))
    exact ⟨le_refl _, hcurrent ▸ later.le⟩
  | @advanceOwnerEpoch _ _ current _ _ owner _ later =>
    have hcurrent : current = sys.owner :=
      encodeSystemU64_injective (Option.some.inj (owner.symm.trans hsys.owner))
    exact ⟨hcurrent ▸ later.le, le_refl _⟩

end Fences

/-! ### Every run -/

/-- The answers that a call for another owner can still get: results that were recorded before. -/
def Call.Recorded (done : List (Call × Reply)) (owner : UInt64) : Call → Reply → Prop
  | .execute command _, reply => ∃ first firstDeadlineMs result,
      (.execute first firstDeadlineMs, .command result) ∈ done ∧ first.rootId = command.rootId ∧
        first.requestId = command.requestId ∧ reply = .command { result with replayed := true }
  | .observeLeaseClock _ _ _ _, _ => False
  | .advanceOwnerEpoch _ next, reply => next.val = owner ∧ reply = .ownerEpoch

section Runs

variable [Pager] [Sha256] {shard : LogicalShardId} {s : State} {c c' : Racing} {sys : SystemRecords}
  {made : List Pending} {done : List (Call × Reply)} {log : List RecoveryOutboxRecord} {reply : Reply}
  {result : MetadataCommandResult} {expected : Option OwnerEpoch} {digest : CommandDigest} {operation : String} {next : OwnerEpoch}

/-- A plan that applies now writes the record of its call. -/
lemma RaceInv.wrote (h : RaceInv shard s made done log) {p : Pending} (hp : p ∈ made)
    (hchecks : p.txn.checks.all s.holds = true) :
    ∃ result plan, Wrote shard s p.call.mutation result plan p.txn := by
  obtain ⟨_, _, hsys, hplan⟩ := h.planned p hp
  obtain ⟨plan, hwrote, -⟩ := Plans.answers hsys ⟨_, _, hplan⟩
  exact ⟨_, plan, hwrote.transport hchecks⟩

/-- A move takes neither fence back. -/
lemma RaceStep.fences (h : RaceStep shard c c') (hc : Races shard c.rows c.made c.done)
    (hsys : SystemInv shard c.rows sys) :
    ∃ sys', SystemInv shard c'.rows sys' ∧ sys.owner.toNat ≤ sys'.owner.toNat ∧
      sys.leaseClock.toNat ≤ sys'.leaseClock.toNat := by
  cases h with
  | plan => exact ⟨sys, hsys, le_refl _, le_refl _⟩
  | apply mem valid checks =>
    obtain ⟨_, hinv⟩ := hc.inv
    obtain ⟨_, _, hwrote⟩ := hinv.wrote mem checks
    exact ⟨_, hsys.step hwrote (WriteTxn.valid_of_validate valid).nodup checks, hwrote.fences_mono hsys⟩

lemma RaceRun.fences (h : RaceRun shard c c') (hc : Races shard c.rows c.made c.done)
    (hsys : SystemInv shard c.rows sys) :
    ∃ sys', SystemInv shard c'.rows sys' ∧ sys.owner.toNat ≤ sys'.owner.toNat ∧
      sys.leaseClock.toNat ≤ sys'.leaseClock.toNat := by
  induction h with
  | refl => exact ⟨sys, hsys, le_refl _, le_refl _⟩
  | tail hrun hstep ih =>
    obtain ⟨_, hsys₁, howner₁, hlease₁⟩ := ih
    obtain ⟨sys₂, hsys₂, howner₂, hlease₂⟩ := hstep.fences (RaceRun.races hrun hc) hsys₁
    exact ⟨sys₂, hsys₂, howner₁.trans howner₂, hlease₁.trans hlease₂⟩

lemma RaceInv.replayed (h : RaceInv shard s made done log) {command : MetadataCommand}
    (hreplayed : (replayedResult (commandDedupeKey command.rootId command.requestId) digest).runAt s =
      .ok (some result)) :
    ∃ first firstDeadlineMs firstResult, (.execute first firstDeadlineMs, .command firstResult) ∈ done ∧
      first.rootId = command.rootId ∧ first.requestId = command.requestId ∧
      result = { firstResult with replayed := true } := by
  cases hrow : s.get ⟨COMMAND_DEDUPE.id, commandDedupeKey command.rootId command.requestId⟩ with
  | none =>
    unfold replayedResult at hreplayed
    rw [runAt_bind] at hreplayed
    obtain ⟨_, hread, hreplayed⟩ := bind_eq_ok.1 hreplayed
    rw [readValue_eq_ok hread] at hrow
    cases hrow
    cases hreplayed
  | some =>
    obtain ⟨_, hmem, hdedupe⟩ := (h.inv.log.dedupe _ _).1 hrow
    generalize hkey : commandDedupeKey command.rootId command.requestId = key at hdedupe
    cases hdedupe with
    | @intro first firstDeadlineMs _ _ _ hmutation hresult =>
      obtain ⟨hroot, hrequest⟩ := commandDedupeKey_injective hkey
      obtain ⟨⟨call, reply⟩, hdone, hcall, hreply⟩ := exists_of_forall₂_right h.records hmem
      obtain rfl : call = .execute first firstDeadlineMs :=
        Call.mutation_injective (hcall.symm.trans hmutation)
      unfold RecoveryOutboxRecord.reply at hreply
      rw [hresult] at hreply
      subst hreply
      rw [hroot, hrequest, h.inv.log.replayedResult_runAt hmem hmutation hresult] at hreplayed
      split at hreplayed
      · cases hreplayed
        exact ⟨first, firstDeadlineMs, _, hdone, hroot.symm, hrequest.symm, rfl⟩
      · cases hreplayed

lemma resolveConflict_eq_ok {key : Bytes} (h : (resolveConflict key digest).runAt s = .ok result) :
    (replayedResult key digest).runAt s = .ok (some result) := by
  unfold resolveConflict at h
  rw [runAt_bind] at h
  obtain ⟨_, hreplayed, h⟩ := bind_eq_ok.1 h
  rw [runAt_okOr] at h
  rw [hreplayed, okOr_eq_ok.1 h]

/-- Only a command can be answered after a conflict, and only from its dedupe row. -/
lemma plan_conflict_eq_ok {s₀ : State} {call : Call} {txn : WriteTxn} {applied : Reply}
    {conflict : Shard Reply} (h : (call.plan shard).runAt s₀ = .ok (.commit operation txn applied conflict))
    (hreply : conflict.runAt s = .ok reply) :
    ∃ command leaseDeadlineMs result, call = .execute command leaseDeadlineMs ∧ reply = .command result ∧
      (replayedResult (commandDedupeKey command.rootId command.requestId) command.commandDigest).runAt s =
        .ok (some result) := by
  cases call with
  | execute command leaseDeadlineMs =>
    rw [plan_execute_conflict h, runAt_map] at hreply
    obtain ⟨result, hresult, rfl⟩ := map_eq_ok.1 hreply
    exact ⟨command, leaseDeadlineMs, result, rfl, rfl, resolveConflict_eq_ok hresult⟩
  | observeLeaseClock =>
    rw [Call.plan, runAt_map] at h
    obtain ⟨planned, hwork, h⟩ := map_eq_ok.1 h
    obtain ⟨-, ⟨_, rfl⟩ | ⟨_, _, _, rfl, -⟩⟩ := observeLeaseClock_eq_ok hwork
    · cases h
    · cases h
      cases hreply
  | advanceOwnerEpoch =>
    rw [Call.plan, runAt_map] at h
    obtain ⟨_, hwork, h⟩ := map_eq_ok.1 h
    obtain ⟨rfl, -⟩ | ⟨_, _, _, rfl, -⟩ := advanceOwnerEpoch_eq_ok hwork
    · cases h
    · cases h
      cases hreply

omit [Pager] [Sha256] in
/-- A submission is answered by its transaction or, where that conflicts, by the rows. -/
lemma submit_eq_ok {α : Type} {fault : Option (StoreError × Bool)} {txn : WriteTxn} {applied reply : α}
    {conflict : Shard α} (h : (submit s fault operation txn applied conflict).1 = .ok reply) :
    (reply = applied ∧ txn.validate storeLimits = .ok () ∧ txn.checks.all s.holds = true ∧
        (submit s fault operation txn applied conflict).2 = s.writeAll txn.mutations) ∨
      (conflict.runAt s = .ok reply ∧ (submit s fault operation txn applied conflict).2 = s) := by
  unfold submit State.commit at h ⊢
  cases hvalid : txn.validate storeLimits with
  | error =>
    rw [hvalid] at h
    cases h
  | ok u =>
    cases u
    rw [hvalid] at h
    cases fault with
    | some => cases h
    | none =>
      by_cases hchecks : txn.checks.all s.holds = true
      · rw [if_pos hchecks] at h
        rw [if_pos hchecks]
        exact .inl ⟨(Except.ok.inj h).symm, rfl, hchecks, rfl⟩
      · rw [if_neg hchecks] at h
        rw [if_neg hchecks]
        exact .inr ⟨h, rfl⟩

/-- How a session comes to its answer. -/
lemma serve_eq_ok {request : Request} (h : (serve shard s request).1 = .ok reply) :
    ((request.call.plan shard).runAt s = .ok (.done reply) ∧ (serve shard s request).2 = s) ∨
      (∃ txn, Applied shard s request.call txn reply ∧
        (serve shard s request).2 = s.writeAll txn.mutations) ∨
      ∃ operation txn applied conflict,
        (request.call.plan shard).runAt s = .ok (.commit operation txn applied conflict) ∧
          conflict.runAt s = .ok reply ∧ (serve shard s request).2 = s := by
  unfold serve writeSession at h ⊢
  cases hsettle : request.faults.settle with
  | some =>
    rw [hsettle] at h
    cases h
  | none =>
    rw [hsettle] at h
    unfold attempt at h ⊢
    cases hplan : (request.call.plan shard).runAt s with
    | error =>
      rw [hplan] at h
      cases h
    | ok planned =>
      rw [hplan] at h
      cases planned with
      | done =>
        cases Except.ok.inj h
        exact .inl ⟨rfl, rfl⟩
      | commit operation txn applied conflict =>
        rcases submit_eq_ok h with ⟨rfl, hvalid, hchecks, heq⟩ | ⟨hconflict, heq⟩
        · exact .inr (.inl ⟨txn, ⟨⟨operation, conflict, hplan⟩, hvalid, hchecks⟩, heq⟩)
        · exact .inr (.inr ⟨operation, txn, applied, conflict, rfl, hconflict, heq⟩)

section

variable (h : RaceInv shard s made done log) (hsys : SystemInv shard s sys)
include h hsys

/-- A call for another owner that plans nothing is answered with a recorded result. -/
lemma RaceInv.recorded_of_done {call : Call} (hstale : call.ownerEpoch ≠ sys.owner)
    (hplan : (call.plan shard).runAt s = .ok (.done reply)) : call.Recorded done sys.owner reply := by
  have howner : ∀ {epoch : UInt64},
      s.get (systemKey SYSTEM_OWNER_FENCE_KEY) = some (encodeSystemU64 epoch) → epoch = sys.owner :=
    fun hget => encodeSystemU64_injective (Option.some.inj (hget.symm.trans hsys.owner))
  cases call with
  | execute =>
    rw [Call.plan, runAt_map] at hplan
    obtain ⟨planned, hwork, hplan⟩ := map_eq_ok.1 hplan
    obtain ⟨_, hreplayed, rfl⟩ | ⟨_, _, _, -, -, -, rfl⟩ :=
      executeUnlocked_eq_ok (executeWithLeaseDeadline_eq_ok hwork).2.2
    · cases hplan
      obtain ⟨first, firstDeadlineMs, firstResult, hdone, hroot, hrequest, rfl⟩ := h.replayed hreplayed
      exact ⟨first, firstDeadlineMs, firstResult, hdone, hroot, hrequest, rfl⟩
    · cases hplan
  | observeLeaseClock =>
    rw [Call.plan, runAt_map] at hplan
    obtain ⟨planned, hwork, -⟩ := map_eq_ok.1 hplan
    exact absurd (howner (observeLeaseClock_eq_ok hwork).1) hstale
  | advanceOwnerEpoch =>
    rw [Call.plan, runAt_map] at hplan
    obtain ⟨_, hwork, hplan⟩ := map_eq_ok.1 hplan
    obtain ⟨rfl, hget⟩ | ⟨_, _, _, rfl, -⟩ := advanceOwnerEpoch_eq_ok hwork
    · cases hplan
      exact ⟨howner hget, rfl⟩
    · cases hplan

/-- A stale plan changes nothing, and is answered with a recorded result if at all. -/
lemma RaceInv.stale_plan {p : Pending} (hp : p ∈ made) (hstale : p.call.ownerEpoch ≠ sys.owner)
    (fault : Option (StoreError × Bool)) : (submit s fault p.operation p.txn p.applied p.conflict).2 = s ∧
      ∀ reply, (submit s fault p.operation p.txn p.applied p.conflict).1 = .ok reply →
        p.call.Recorded done sys.owner reply := by
  have hfails : ¬ p.txn.checks.all s.holds = true := by
    intro hchecks
    obtain ⟨result, _, hwrote⟩ := h.wrote hp hchecks
    exact hstale (hwrote.ownerEpoch_eq hsys)
  constructor
  · rcases submit_cases s fault p.operation p.txn p.applied p.conflict with heq | ⟨-, hchecks, -⟩
    · exact heq
    · exact absurd hchecks hfails
  · intro reply hreply
    obtain ⟨_, -, -, hplan⟩ := h.planned p hp
    rcases submit_eq_ok hreply with ⟨-, -, hchecks, -⟩ | ⟨hconflict, -⟩
    · exact absurd hchecks hfails
    · obtain ⟨_, _, _, hcall, rfl, hreplayed⟩ := plan_conflict_eq_ok hplan hconflict
      obtain ⟨first, firstDeadlineMs, firstResult, hdone, hroot, hrequest, rfl⟩ := h.replayed hreplayed
      rw [hcall]
      exact ⟨first, firstDeadlineMs, firstResult, hdone, hroot, hrequest, rfl⟩

/-- A stale call changes nothing, and is answered with a recorded result if at all. -/
lemma RaceInv.stale_call {request : Request} (hstale : request.call.ownerEpoch ≠ sys.owner) :
    (serve shard s request).2 = s ∧ ∀ reply, (serve shard s request).1 = .ok reply →
      request.call.Recorded done sys.owner reply := by
  have hnot : ∀ {txn reply}, ¬ Plans shard s request.call txn reply := by
    intro txn reply hplans
    obtain ⟨_, plan, hwrote⟩ := hplans.wrote
    exact hstale (hwrote.ownerEpoch_eq hsys)
  constructor
  · rcases serve_cases shard s request with heq | ⟨txn, reply, happlied, -⟩
    · exact heq
    · exact absurd happlied.plan hnot
  · intro reply hreply
    rcases serve_eq_ok hreply with ⟨hdone, -⟩ | ⟨_, happlied, -⟩ | ⟨_, _, _, _, hplan, -, -⟩
    · exact h.recorded_of_done hsys hstale hdone
    · exact absurd happlied.plan hnot
    · exact absurd ⟨_, _, hplan⟩ hnot

end

/-- The epoch that a successful advance leaves behind. -/
lemma serve_advanceOwnerEpoch {faults : Faults}
    (hreply : (serve shard s ⟨.advanceOwnerEpoch expected next, faults⟩).1 = .ok reply) :
    (serve shard s ⟨.advanceOwnerEpoch expected next, faults⟩).2.get (systemKey SYSTEM_OWNER_FENCE_KEY) =
      some (encodeSystemU64 next.val) := by
  rcases serve_eq_ok hreply with ⟨hdone, heq⟩ | ⟨_, happlied, heq⟩ | ⟨_, _, _, _, hplan, hconflict, -⟩
  · rw [heq]
    rw [Call.plan, runAt_map] at hdone
    obtain ⟨_, hwork, hdone⟩ := map_eq_ok.1 hdone
    obtain ⟨-, hget⟩ | ⟨_, _, _, rfl, -⟩ := advanceOwnerEpoch_eq_ok hwork
    · exact hget
    · cases hdone
  · rw [heq]
    obtain ⟨plan, hwrote, -⟩ := happlied.plan.advanceOwnerEpoch_cases
    have hnd := happlied.nodup
    cases hwrote with
    | advanceOwnerEpoch =>
      exact (systemEffect_of_enqueueRecovery (s := s) hnd).put
  · obtain ⟨_, _, _, hcall, -⟩ := plan_conflict_eq_ok hplan hconflict
    cases hcall

/-- What the fences of a shard guarantee at a moment of a run. A plan that still applies acts for the
current owner, before its deadline. A plan or a call for another owner changes nothing and is answered
with a recorded result if at all. A successful advance leaves its epoch behind. -/
structure OwnerFencing (shard : LogicalShardId) (c : Racing) (sys : SystemRecords) : Prop where
  applies : ∀ p ∈ c.made, p.txn.checks.all c.rows.holds = true →
    p.call.ownerEpoch = sys.owner ∧
      ∀ d, p.call.leaseDeadlineMs = some d → sys.leaseClock.toNat < d.toNat
  stale_plan : ∀ p ∈ c.made, p.call.ownerEpoch ≠ sys.owner → ∀ fault,
    (submit c.rows fault p.operation p.txn p.applied p.conflict).2 = c.rows ∧
      ∀ reply, (submit c.rows fault p.operation p.txn p.applied p.conflict).1 = .ok reply →
        p.call.Recorded c.done sys.owner reply
  stale_call : ∀ request : Request, request.call.ownerEpoch ≠ sys.owner →
    (serve shard c.rows request).2 = c.rows ∧
      ∀ reply, (serve shard c.rows request).1 = .ok reply → request.call.Recorded c.done sys.owner reply
  advanced : ∀ expected next faults reply sys₁,
    (serve shard c.rows ⟨.advanceOwnerEpoch expected next, faults⟩).1 = .ok reply →
      SystemInv shard (serve shard c.rows ⟨.advanceOwnerEpoch expected next, faults⟩).2 sys₁ →
        sys₁.owner = next.val

lemma Races.ownerFencing (h : Races shard c.rows c.made c.done) (hsys : SystemInv shard c.rows sys) :
    OwnerFencing shard c sys := by
  obtain ⟨_, hinv⟩ := h.inv
  refine ⟨fun p hp hchecks => ⟨?_, fun d hd => ?_⟩, fun p hp hstale => hinv.stale_plan hsys hp hstale,
    fun request hstale => hinv.stale_call hsys hstale, fun expected next faults reply sys₁ hreply hsys₁ => ?_⟩
  · obtain ⟨_, _, hwrote⟩ := hinv.wrote hp hchecks
    exact hwrote.ownerEpoch_eq hsys
  · obtain ⟨_, -, -, hplan⟩ := hinv.planned p hp
    cases hcall : p.call with
    | execute =>
      rw [hcall] at hd hplan
      cases hd
      exact Plans.before_deadline ⟨_, _, hplan⟩ hsys hchecks
    | observeLeaseClock | advanceOwnerEpoch =>
      rw [hcall] at hd
      cases hd
  · have hget := serve_advanceOwnerEpoch hreply
    exact encodeSystemU64_injective (Option.some.inj (hsys₁.owner.symm.trans hget))

/-- **Owner fencing and the lease clock.** Along every run of a shard, with clients planning and
submitting in any interleaving, the owner epoch and the lease clock never decrease, and at every moment
only the current owner's calls apply, each before its deadline by the clock that it commits against. -/
theorem owner_fencing (h : RaceRun shard (.start shard) c) (h' : RaceRun shard c c') :
    ∃ sys sys', SystemInv shard c.rows sys ∧ SystemInv shard c'.rows sys' ∧
      sys.owner.toNat ≤ sys'.owner.toNat ∧ sys.leaseClock.toNat ≤ sys'.leaseClock.toNat ∧
      OwnerFencing shard c' sys' := by
  obtain ⟨_, hinv⟩ := h.reachable.inv
  obtain ⟨sys', hsys', howner, hlease⟩ := h'.fences h.reachable hinv.inv.system
  exact ⟨_, sys', hinv.inv.system, hsys', howner, hlease, (h'.races h.reachable).ownerFencing hsys'⟩

end Runs

/-- The sample run, from its start. -/
theorem owner_fencing_sample : ∃ c sys sys', @RaceRun memoryPager sha256Digest (sampleId 2)
      (@Racing.start sha256Digest (sampleId 2)) c ∧ c.rows = @sampleState memoryPager sha256Digest ∧
    SystemInv (sampleId 2) (@initialized sha256Digest (sampleId 2)) sys ∧
    SystemInv (sampleId 2) c.rows sys' ∧ sys.owner.toNat ≤ sys'.owner.toNat ∧
    sys.leaseClock.toNat ≤ sys'.leaseClock.toNat ∧
    @OwnerFencing memoryPager sha256Digest (sampleId 2) c sys' := by
  obtain ⟨c, hrun, hrows⟩ := @raceRun_serveAll memoryPager sha256Digest (sampleId 2)
    (@Racing.start sha256Digest (sampleId 2)) (@sampleRequests sha256Digest)
  obtain ⟨sys, sys', h⟩ := @owner_fencing memoryPager sha256Digest (sampleId 2) _ c .refl hrun
  exact ⟨c, sys, sys', hrun, hrows, h⟩

end NoKV.Meta
