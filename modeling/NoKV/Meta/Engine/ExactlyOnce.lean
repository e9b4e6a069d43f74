import NoKV.Meta.Engine.Race
import NoKV.Meta.Engine.Snapshot

/-!
# Exactly-once commands

A request is named by its root and its request id. Under every interleaving of clients that resend
requests, its effects are applied at most once, and every later copy is answered from the recovery
log without touching a row (`exactly_once`).
-/

namespace NoKV.Meta

open Lib Store State

def Call.requests (root : RootId) (request : RequestId) : Call → Bool
  | .execute command _ => command.rootId = root ∧ command.requestId = request
  | _ => false

lemma Call.requests_eq_true {root : RootId} {request : RequestId} {call : Call}
    (h : call.requests root request = true) : ∃ command leaseDeadlineMs,
      call = .execute command leaseDeadlineMs ∧ command.rootId = root ∧ command.requestId = request := by
  cases call with
  | execute => exact ⟨_, _, rfl, of_decide_eq_true h⟩
  | observeLeaseClock | advanceOwnerEpoch => cases h

section Log

variable [Sha256] {shard : LogicalShardId} {s : State} {log : List RecoveryOutboxRecord}
  {row row' : RecoveryOutboxRecord} {command command' : MetadataCommand}
  {leaseDeadlineMs leaseDeadlineMs' : Option UInt64}

lemma LogInv.result_eq (h : LogInv shard s log) (hrow : row ∈ log)
    (hmutation : row.mutation = .metadataCommand command leaseDeadlineMs) :
    ∃ commitVersion deterministicResult,
      row.result = .metadataCommand commitVersion deterministicResult := by
  obtain ⟨_, _, hdedupe⟩ := h.deduped row hrow (isCommand_of_mutation hmutation)
  cases hdedupe with
  | intro _ hresult _ => exact ⟨_, _, hresult⟩

lemma LogInv.eq_of_request (h : LogInv shard s log) (hrow : row ∈ log) (hrow' : row' ∈ log)
    (hmutation : row.mutation = .metadataCommand command leaseDeadlineMs)
    (hmutation' : row'.mutation = .metadataCommand command' leaseDeadlineMs')
    (hroot : command.rootId = command'.rootId) (hrequest : command.requestId = command'.requestId) :
    row = row' := by
  obtain ⟨_, _, hresult⟩ := h.result_eq hrow hmutation
  obtain ⟨_, _, hresult'⟩ := h.result_eq hrow' hmutation'
  obtain ⟨_, hget, hdecode⟩ := h.get_dedupe hrow hmutation hresult
  obtain ⟨_, hget', hdecode'⟩ := h.get_dedupe hrow' hmutation' hresult'
  rw [hroot, hrequest, hget'] at hget
  cases Option.some.inj hget
  have hlsn := (CommandDedupeRecord.mk.inj (Except.ok.inj (hdecode.symm.trans hdecode'))).2.2.1
  exact h.chain.eq_of_pos hrow hrow' (congrArg UInt64.toNat hlsn)

end Log

section Resend

variable [Pager] [Sha256] {shard : LogicalShardId} {s : State} {command : MetadataCommand}
  {leaseDeadlineMs : Option UInt64} {conflict : Shard Reply} {operation : String}

/-- A request that has a dedupe row plans nothing. -/
lemma serve_of_dedupe {value : Bytes}
    (hdedupe : s.get ⟨COMMAND_DEDUPE.id, commandDedupeKey command.rootId command.requestId⟩ = some value)
    (faults : Faults) : (serve shard s ⟨.execute command leaseDeadlineMs, faults⟩).2 = s := by
  rcases serve_cases shard s ⟨.execute command leaseDeadlineMs, faults⟩ with heq | ⟨_, _, happlied, -⟩
  · exact heq
  · obtain ⟨_, hwrote, -⟩ := Plans.execute_cases happlied.plan
    cases hdedupe.symm.trans hwrote.accepted.2.2

/-- A request that was applied is answered as its dedupe record says. -/
lemma serve_of_replayed {r : Except MetaError MetadataCommandResult}
    (hvalid : validateCommand shard command = .ok ())
    (hdigest : command.commandDigest = command.canonicalDigest)
    (hreplayed : (replayedResult (commandDedupeKey command.rootId command.requestId)
      command.commandDigest).runAt s = some <$> r) :
    serve shard s ⟨.execute command leaseDeadlineMs, .none⟩ = (Reply.command <$> r, s) := by
  have hwork : (executeWithLeaseDeadline shard command leaseDeadlineMs).runAt s = .done <$> r := by
    unfold executeWithLeaseDeadline
    rw [Prog.runAt_bind, Prog.runAt_liftM, hvalid, ok_bind, Prog.runAt_bind, Prog.runAt_refuseIf,
      refuseIf_of_not (not_not.2 hdigest), ok_bind]
    unfold executeUnlocked
    rw [Prog.runAt_bind, hreplayed]
    cases r <;> rfl
  show attempt none (Planned.map Reply.command <$> executeWithLeaseDeadline shard command leaseDeadlineMs)
    s = _
  unfold attempt
  rw [Prog.runAt_map, hwork]
  cases r <;> rfl

/-- The answer of a planned command after a conflict. -/
lemma plan_execute_conflict {txn : WriteTxn} {reply : Reply}
    (h : ((Call.execute command leaseDeadlineMs).plan shard).runAt s =
      .ok (.commit operation txn reply conflict)) : conflict = Reply.command <$>
      resolveConflict (commandDedupeKey command.rootId command.requestId) command.commandDigest := by
  unfold Call.plan at h
  rw [Prog.runAt_map] at h
  obtain ⟨_, hplan, h⟩ := map_eq_ok.1 h
  obtain ⟨_, -, rfl⟩ | ⟨_, _, _, -, -, -, rfl⟩ :=
    executeUnlocked_eq_ok (executeWithLeaseDeadline_eq_ok hplan).2.2
  · cases h
  · cases h
    rfl

/-- A planned copy of a request that has a dedupe row meets a conflict. -/
lemma submit_of_dedupe {s₀ : State} {txn : WriteTxn} {reply : Reply} {value : Bytes}
    (hplan : ((Call.execute command leaseDeadlineMs).plan shard).runAt s₀ =
      .ok (.commit operation txn reply conflict))
    (hdedupe : s.get ⟨COMMAND_DEDUPE.id, commandDedupeKey command.rootId command.requestId⟩ = some value) :
    (∀ fault, (submit s fault operation txn reply conflict).2 = s) ∧
      (txn.validate storeLimits = .ok () →
        (submit s none operation txn reply conflict).1 = conflict.runAt s) := by
  have hfails : ¬ txn.checks.all s.holds = true := by
    intro hchecks
    obtain ⟨_, hwrote, -⟩ := Plans.execute_cases ⟨_, _, hplan⟩
    cases hdedupe.symm.trans (hwrote.transport hchecks).accepted.2.2
  refine ⟨fun fault => ?_, fun hvalid => ?_⟩
  · rcases submit_cases s fault operation txn reply conflict with heq | ⟨-, hchecks, -⟩
    · exact heq
    · exact absurd hchecks hfails
  · unfold submit State.commit
    rw [hvalid, if_neg hfails]

end Resend

/-! ### Requests under every interleaving -/

section ExactlyOnce

variable [Pager] [Sha256] {shard : LogicalShardId} {s : State} {made : List Pending}
  {done : List (Call × Reply)} {log : List RecoveryOutboxRecord}

/-- The answer to a copy of a request whose first copy was applied with `result`. -/
def resendResult (first command : MetadataCommand) (result : MetadataCommandResult) :
    Except MetaError MetadataCommandResult :=
  if first.canonicalDigest = command.canonicalDigest then .ok { result with replayed := true }
  else .error .requestIdReused

/-- How a shard treats the copies of a request that was applied: no copy changes a row, whatever the
store does to its session, and an accepted copy is answered from the first one. A copy that was planned
before is treated the same way when it is submitted. -/
structure AnswersCopies (shard : LogicalShardId) (s : State) (made : List Pending) (first : MetadataCommand)
    (result : MetadataCommandResult) (command : MetadataCommand) (leaseDeadlineMs : Option UInt64) :
    Prop where
  unchanged : ∀ faults, (serve shard s ⟨.execute command leaseDeadlineMs, faults⟩).2 = s
  answered : validateCommand shard command = .ok () → command.commandDigest = command.canonicalDigest →
    serve shard s ⟨.execute command leaseDeadlineMs, .none⟩ = (Reply.command <$> resendResult first command result, s)
  stale_unchanged : ∀ p ∈ made, p.call = .execute command leaseDeadlineMs →
    ∀ fault, (submit s fault p.operation p.txn p.applied p.conflict).2 = s
  stale_answered : ∀ p ∈ made, p.call = .execute command leaseDeadlineMs →
    p.txn.validate storeLimits = .ok () →
    submit s none p.operation p.txn p.applied p.conflict = (Reply.command <$> resendResult first command result, s)

section

variable (h : RaceInv shard s made done log)
include h

lemma RaceInv.row_of_done {i : ℕ} {call : Call × Reply} (hi : done[i]? = some call) :
    ∃ row, log[i]? = some row ∧ row.mutation = call.1.mutation ∧ row.reply = call.2 := by
  obtain ⟨hlt, rfl⟩ := List.getElem?_eq_some_iff.1 hi
  have hlt' : i < log.length := h.records.length_eq ▸ hlt
  exact ⟨log[i], List.getElem?_eq_getElem hlt', h.records.get hlt hlt'⟩

/-- The effects of a request are applied at most once. -/
lemma RaceInv.at_most_once {root : RootId} {request : RequestId} {i j : ℕ} {a b : Call × Reply}
    (hi : done[i]? = some a) (hj : done[j]? = some b) (ha : a.1.requests root request = true)
    (hb : b.1.requests root request = true) : i = j := by
  obtain ⟨row, hrow, hmutation, -⟩ := h.row_of_done hi
  obtain ⟨row', hrow', hmutation', -⟩ := h.row_of_done hj
  obtain ⟨_, _, hcall, hroot, hrequest⟩ := Call.requests_eq_true ha
  obtain ⟨_, _, hcall', hroot', hrequest'⟩ := Call.requests_eq_true hb
  rw [hcall] at hmutation
  rw [hcall'] at hmutation'
  have hlog := h.inv.log
  have heq : row = row' := hlog.eq_of_request (List.mem_of_getElem? hrow) (List.mem_of_getElem? hrow')
    hmutation hmutation' (hroot.trans hroot'.symm) (hrequest.trans hrequest'.symm)
  -- a record stands at the position that its LSN names
  obtain ⟨hlt, hget⟩ := List.getElem?_eq_some_iff.1 hrow
  obtain ⟨hlt', hget'⟩ := List.getElem?_eq_some_iff.1 hrow'
  have hpos : recordLink.pos log[i] = 0 + i + 1 := hlog.chain.pos_getElem hlt
  have hpos' : recordLink.pos log[j] = 0 + j + 1 := hlog.chain.pos_getElem hlt'
  rw [hget, heq, ← hget', hpos'] at hpos
  omega

/-- Every copy of an applied request is answered from its record. -/
lemma RaceInv.answersCopies {first : MetadataCommand} {firstDeadlineMs : Option UInt64} {reply : Reply}
    (hdone : (.execute first firstDeadlineMs, reply) ∈ done) :
    ∃ result, reply = .command result ∧ result.replayed = false ∧
      ∀ command leaseDeadlineMs, command.rootId = first.rootId → command.requestId = first.requestId →
        AnswersCopies shard s made first result command leaseDeadlineMs := by
  obtain ⟨i, hi⟩ := List.mem_iff_getElem?.1 hdone
  -- the call that was done left its record and its dedupe row
  obtain ⟨row, hrow, hmutation, hreply⟩ := h.row_of_done hi
  have hmem := List.mem_of_getElem? hrow
  obtain ⟨commitVersion, deterministicResult, hresult⟩ := h.inv.log.result_eq hmem hmutation
  obtain ⟨_, hdedupe, -⟩ := h.inv.log.get_dedupe hmem hmutation hresult
  have hdigest := (h.accepted first firstDeadlineMs reply hdone).2
  unfold RecoveryOutboxRecord.reply at hreply
  rw [hresult] at hreply
  refine ⟨_, hreply.symm, rfl, fun command leaseDeadlineMs hroot hrequest => ?_⟩
  rw [← hroot, ← hrequest] at hdedupe
  -- a copy finds that row, and compares its own digest with it
  have hreplayed : command.commandDigest = command.canonicalDigest →
      (replayedResult (commandDedupeKey command.rootId command.requestId) command.commandDigest).runAt s =
        some <$> resendResult first command
          ⟨commitVersion, deterministicResult, row.recoveryLsn, row.chainDigest, false⟩ := by
    intro hsealed
    rw [hroot, hrequest, h.inv.log.replayedResult_runAt hmem hmutation hresult, hdigest, hsealed]
    unfold resendResult
    split <;> rfl
  refine ⟨serve_of_dedupe hdedupe, fun hvalid hsealed => serve_of_replayed hvalid hsealed (hreplayed hsealed),
    fun p hp hcall => ?_, fun p hp hcall hvalid => ?_⟩
  · -- a copy that was planned before the row was there fails its checks
    obtain ⟨s₀, -, -, hplan⟩ := h.planned p hp
    rw [hcall] at hplan
    exact (submit_of_dedupe hplan hdedupe).1
  · obtain ⟨_, -, -, hplan⟩ := h.planned p hp
    rw [hcall] at hplan
    obtain ⟨_, hwrote, -⟩ := Plans.execute_cases ⟨_, _, hplan⟩
    obtain ⟨hunchanged, hanswer⟩ := submit_of_dedupe hplan hdedupe
    refine Prod.ext ?_ (hunchanged none)
    rw [hanswer hvalid, plan_execute_conflict hplan, Prog.runAt_map, resolveConflict, Prog.runAt_bind,
      hreplayed hwrote.accepted.2.1]
    cases resendResult first command _ <;> rfl

end

/-- **Exactly-once commands.** Under every interleaving of clients, the effects of a request are applied
at most once; after that no copy of the request changes a row, a copy with the same digest is answered
with the first result, marked as replayed, and a copy with another digest is refused. -/
theorem exactly_once (h : Races shard s made done) (root : RootId) (request : RequestId) :
    (∀ (i j : ℕ) (a b : Call × Reply), done[i]? = some a → done[j]? = some b →
        a.1.requests root request = true → b.1.requests root request = true → i = j) ∧
      ∀ first firstDeadlineMs reply, (.execute first firstDeadlineMs, reply) ∈ done →
        first.rootId = root → first.requestId = request →
        ∃ result, reply = .command result ∧ result.replayed = false ∧
          ∀ command leaseDeadlineMs, command.rootId = root → command.requestId = request →
            AnswersCopies shard s made first result command leaseDeadlineMs := by
  obtain ⟨_, hinv⟩ := h.inv
  refine ⟨fun i j a b hi hj ha hb => hinv.at_most_once hi hj ha hb, ?_⟩
  rintro first firstDeadlineMs reply hdone rfl rfl
  exact hinv.answersCopies hdone

/-- The clock moves with the commands that were applied. -/
lemma Races.exists_execute (h : Races shard s made done) (hclock : 1 < clockOf s) :
    ∃ first firstDeadlineMs reply, (.execute first firstDeadlineMs, reply) ∈ done := by
  obtain ⟨log, hinv⟩ := h.inv
  have heq : 1 + log.countP RecoveryOutboxRecord.isCommand = clockOf s := by
    rw [← hinv.inv.clock_eq, hinv.inv.clockOf_eq]
    rfl
  have hpos : 0 < log.countP RecoveryOutboxRecord.isCommand := by omega
  obtain ⟨_, hrow, hcommand⟩ := List.countP_pos_iff.1 hpos
  obtain ⟨⟨call, reply⟩, hdone, hmutation, -⟩ := exists_of_forall₂_right hinv.records hrow
  unfold RecoveryOutboxRecord.isCommand at hcommand
  rw [hmutation] at hcommand
  cases call with
  | execute first firstDeadlineMs => exact ⟨first, firstDeadlineMs, reply, hdone⟩
  | observeLeaseClock | advanceOwnerEpoch => cases hcommand

end ExactlyOnce

/-- The sample run applies commands, whose copies are answered from the log. -/
theorem exactly_once_sample : ∃ made done, @Races memoryPager sha256Digest (sampleId 2)
      (@sampleState memoryPager sha256Digest) made done ∧
    ∃ first firstDeadlineMs reply, (.execute first firstDeadlineMs, reply) ∈ done ∧
      ∃ result, reply = .command result ∧ result.replayed = false ∧
        ∀ command leaseDeadlineMs, command.rootId = first.rootId → command.requestId = first.requestId →
          @AnswersCopies memoryPager sha256Digest (sampleId 2) (@sampleState memoryPager sha256Digest) made
            first result command leaseDeadlineMs := by
  obtain ⟨made, done, hraces⟩ :=
    @races_serveAll memoryPager sha256Digest (sampleId 2) (@sampleRequests sha256Digest)
  have hclock : 1 < clockOf (@sampleState memoryPager sha256Digest) := by
    rw [sampleState_eq.1]
    omega
  obtain ⟨first, firstDeadlineMs, reply, hdone⟩ :=
    @Races.exists_execute memoryPager sha256Digest _ _ _ _ hraces hclock
  exact ⟨made, done, hraces, first, firstDeadlineMs, reply, hdone,
    (@exactly_once memoryPager sha256Digest _ _ _ _ hraces first.rootId first.requestId).2 first
      firstDeadlineMs reply hdone rfl rfl⟩

end NoKV.Meta
