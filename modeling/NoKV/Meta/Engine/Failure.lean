import NoKV.Meta.Engine.Fencing

/-!
# Calls that fail

The write calls of a shard on a store that may fail any read, any submission and the wait at the end
of a session (`Answers`), within the contract of the store (`Answers.Lawful`). The thread of a call may
have a write session open (`Thread`): on the same shard the call is a part of it, on another shard the call
is refused.

* `attempted_attempt`, `replayed_replayUnlocked`, `runSegment_replays`: what a call has done to the rows
  when it ends, whatever it answers;
* `all_or_nothing`: a definite error means that nothing was written, exactly if the durability barrier of
  the session does not hide a lost submission of the call and the read behind a replayed record does not
  fail;
* `masked_advance`: such a barrier, on the store of a fresh shard.
-/

namespace NoKV.Meta

open Lib Store State List
open Prog hiding bind pure get

/-! ### A store that fails -/

/-- The error leaves it open whether the write applied. -/
def MetaError.isOutcomeUnknown : MetaError → Bool
  | .store _ (.outcomeUnknown _ _) => true
  | _ => false

/-- How the store answers one call: the error of each read (`read k n` is the one with number `n`
after `k` submissions), the error of each submission and whether the transaction applied in spite of
it, the error of the acknowledgement that a session waits for and the error of the durability barrier
of a session without one. -/
structure Answers where
  read : ℕ → ℕ → Option MetaError
  submit : ℕ → Option (StoreError × Bool)
  acknowledge : Option StoreError
  barrier : Option StoreError

/-- The contract of the store: a failure that may hide an applied transaction is an unknown outcome. -/
structure Answers.Lawful (answers : Answers) : Prop where
  submit : ∀ n error operation, answers.submit n = some (error, true) →
    (MetaError.store operation error).isOutcomeUnknown = true
  acknowledge : ∀ error operation, answers.acknowledge = some error →
    (MetaError.store operation error).isOutcomeUnknown = true

/-- The rows of a store during a session, the number of submissions and of reads since the last one,
and whether a submission waits for its acknowledgement. -/
structure Live (answers : Answers) where
  rows : State
  reads : ℕ
  submits : ℕ
  pending : Bool

namespace Live

variable {answers : Answers} {α : Type}

/-- What a program of reads finds, and the number of the next read. -/
def found (live : Live answers) (p : Shard α) : Except MetaError α × ℕ :=
  p.runFailing (answers.read live.submits) live.rows live.reads

def observe (p : Shard α) : Session (Live answers) MetaError α := fun live =>
  let (result, reads) := live.found p
  (result, { live with reads })

/-- Submit one planned transaction: `none` is a conflict. -/
def submitPlanned (operation : String) (txn : WriteTxn) (applied : α) :
    Session (Live answers) MetaError (Option α) := fun live =>
  let (result, rows) :=
    submit live.rows (answers.submit live.submits) operation txn (some applied) (pure none)
  let pending := match result with
    | .ok (some _) => true
    | _ => live.pending
  (result, ⟨rows, 0, live.submits + 1, pending⟩)

def attempt (work : Shard (Planned α)) : Session (Live answers) MetaError α := do
  match ← observe work with
  | .done result => return result
  | .commit operation txn applied conflict =>
    match ← submitPlanned operation txn applied with
    | some result => return result
    | none => observe conflict

end Live

instance {answers : Answers} : Serves (Live answers) := ⟨Live.observe, Live.attempt⟩

abbrev Work (answers : Answers) (α : Type) : Type := Session (Live answers) MetaError α

/-- The wait at the end of a session. -/
def Answers.settle (answers : Answers) (pending : Bool) : Option MetaError :=
  if pending then answers.acknowledge.map (.store "acknowledge write session")
  else answers.barrier.map (.store "write session durability barrier")

/-- Where the thread of a call stands: outside of every write session, inside one of the shard, or inside
one of another shard. -/
inductive Thread (answers : Answers) where
  | outside (rows : State)
  | inside (live : Live answers)
  | elsewhere (rows : State)

namespace Thread

variable {answers : Answers}

/-- The rows of the shard. -/
def rows : Thread answers → State
  | outside rows => rows
  | inside live => live.rows
  | elsewhere rows => rows

/-- The store as a session of the thread finds it, if the thread gets one. -/
def enter : Thread answers → Except MetaError (Live answers)
  | outside rows => .ok ⟨rows, 0, 0, false⟩
  | inside live => .ok live
  | elsewhere _ => .error (.internal "begin write session"
      "the thread already holds a write session on another metadata shard")

/-- What the thread waits for behind its work. -/
def wait (pending : Bool) : Thread answers → Option MetaError
  | outside _ => answers.settle pending
  | _ => none

end Thread

/-- Run work as one write session of the shard. A session that is open on the shard takes the work in; an
outermost session ends with a wait, and a wait that fails replaces the result of the work. -/
def openSession {α : Type} {answers : Answers} (work : Work answers α) (thread : Thread answers) :
    Except MetaError α × Thread answers :=
  match thread with
  | .inside live =>
    let (result, live) := work.exec live
    (result, .inside live)
  | .elsewhere rows =>
    (.error (.internal "begin write session"
      "the thread already holds a write session on another metadata shard"), .elsewhere rows)
  | .outside rows =>
    let (result, live) := work.exec ⟨rows, 0, 0, false⟩
    match answers.settle live.pending with
    | some error => (.error error, .outside live.rows)
    | none => (result, .outside live.rows)

/-! ### The calls -/

section Calls

variable [Pager] [Sha256] {answers : Answers}

/-- What a call checks before its session. -/
def Call.accept (shard : LogicalShardId) : Call → Except MetaError Unit
  | execute command _ => do
    validateCommand shard command
    refuseIf (command.commandDigest ≠ command.canonicalDigest) MetaError.commandDigestMismatch
  | _ => .ok ()

/-- What a call plans in its session. -/
def Call.planUnlocked (shard : LogicalShardId) : Call → Shard (Planned Reply)
  | execute command leaseDeadlineMs => Planned.map .command <$> executeUnlocked command leaseDeadlineMs
  | observeLeaseClock rootId placementGeneration ownerEpoch observedMs =>
    Planned.map .leaseClock <$>
      Meta.observeLeaseClock shard rootId placementGeneration ownerEpoch observedMs
  | advanceOwnerEpoch expected next =>
    Planned.map (fun _ => .ownerEpoch) <$> Meta.advanceOwnerEpoch shard expected next

def Call.run (shard : LogicalShardId) (call : Call) (thread : Thread answers) :
    Except MetaError Reply × Thread answers :=
  match call.accept shard with
  | .error error => (.error error, thread)
  | .ok () => openSession (runEntrypoint (call.planUnlocked shard)) thread

/-- What the replay of a record checks before its session. -/
def admitRecord (shard : LogicalShardId) (record : RecoveryOutboxRecord) : Except MetaError Unit := do
  corruptRecovery REPLAY record.verify
  checkCommandShard shard record

def runRecord (shard : LogicalShardId) (record : RecoveryOutboxRecord) (thread : Thread answers) :
    Except MetaError RecoveryState × Thread answers :=
  match admitRecord shard record with
  | .error error => (.error error, thread)
  | .ok () => openSession (replayRecoveryRecordUnlocked shard record) thread

/-- What the replay of a segment checks before its session. -/
def admitSegment (shard : LogicalShardId) (segment : RecoveryOutboxSegment) : Except MetaError Unit := do
  corruptRecovery REPLAY segment.verify
  refuseIf (segment.logicalShardId ≠ shard) (corrupt REPLAY "segment targets a different logical shard")

def replayRecoverySegmentUnlocked {σ : Type} [Serves σ] (shard : LogicalShardId)
    (segment : RecoveryOutboxSegment) : Session σ MetaError RecoveryState := do
  let before ← liftM recoveryStateUnlocked
  liftM (checkJoins before segment)
  replayMissing shard before segment.records
  liftM recoveryStateUnlocked

def runSegment (shard : LogicalShardId) (segment : RecoveryOutboxSegment) (thread : Thread answers) :
    Except MetaError RecoveryState × Thread answers :=
  match admitSegment shard segment with
  | .error error => (.error error, thread)
  | .ok () => openSession (replayRecoverySegmentUnlocked shard segment) thread

end Calls

/-! ### What a session has done -/

section Sessions

variable {answers : Answers} {α : Type} {live : Live answers}

/-- The store takes the transaction. -/
structure Applies (s : State) (txn : WriteTxn) : Prop where
  valid : txn.validate storeLimits = .ok ()
  checks : txn.checks.all s.holds = true

lemma Live.exec_observe (p : Shard α) : (liftM p : Work answers α).exec live =
    ((live.found p).1, { live with reads := (live.found p).2 }) := rfl

lemma Live.runAt_of_found {p : Shard α} {a : α} (h : (live.found p).1 = .ok a) : p.runAt live.rows = .ok a :=
  runAt_of_runFailing h

/-- A session that starts with a read ends there, or goes on with what the read found. -/
lemma Live.bind_observe {β : Type} (p : Shard α) (f : α → Work answers β) (live : Live answers) :
    (∃ e n, live.found p = (.error e, n) ∧
      (liftM p >>= f).exec live = (.error e, { live with reads := n })) ∨
    ∃ a n, live.found p = (.ok a, n) ∧ (liftM p >>= f).exec live = (f a).exec { live with reads := n } := by
  rcases hfound : live.found p with ⟨e | a, n⟩
  · exact .inl ⟨e, n, rfl, Session.bind_of_error (by rw [exec_observe, hfound])⟩
  · exact .inr ⟨a, n, rfl, Session.bind_of_ok (by rw [exec_observe, hfound])⟩

/-- The session writes nothing. -/
def Reads (x : Work answers α) : Prop :=
  ∀ live, (x.exec live).2.rows = live.rows ∧ (x.exec live).2.pending = live.pending

lemma reads_observe (p : Shard α) : Reads (liftM p : Work answers α) :=
  fun _ => ⟨rfl, rfl⟩

lemma reads_pure (a : α) : Reads (pure a : Work answers α) := fun _ => ⟨rfl, rfl⟩

lemma reads_refuseIf (c : Prop) [Decidable c] (e : MetaError) :
    Reads (refuseIf c e : Work answers Unit) := by
  intro live
  rw [Session.exec_refuseIf]
  exact ⟨rfl, rfl⟩

variable {x : Work answers α}

lemma Reads.bind {β : Type} {f : α → Work answers β} (hx : Reads x)
    (hf : ∀ a, Reads (f a)) : Reads (x >>= f) := by
  intro live
  have hlive := hx live
  rcases Session.bind_cases x f live with ⟨e, live', hexec, heq⟩ | ⟨a, live', hexec, heq⟩
  · rw [hexec] at hlive
    rw [heq]
    exact hlive
  · rw [hexec] at hlive
    rw [heq]
    exact ⟨(hf a live').1.trans hlive.1, (hf a live').2.trans hlive.2⟩

lemma rows_bind_of_reads {β : Type} {f : α → Work answers β} (hf : ∀ a, Reads (f a))
    (live : Live answers) : ((x >>= f).exec live).2.rows = (x.exec live).2.rows := by
  rcases Session.bind_cases x f live with ⟨e, live', hexec, heq⟩ | ⟨a, live', hexec, heq⟩
  · rw [heq, hexec]
  · rw [heq, hexec]
    exact (hf a live').1

/-- The submission fails and the transaction did not apply. -/
def Answers.Refuses (answers : Answers) (n : ℕ) : Prop := ∃ error, answers.submit n = some (error, false)

/-- A submission keeps the rows, or applies the transaction and answers so or loses the answer. -/
lemma Live.submitPlanned_cases (operation : String) (txn : WriteTxn) (applied : α)
    (live : Live answers) :
    (∃ result live', (submitPlanned operation txn applied).exec live = (result, live') ∧
      (∀ a, result ≠ .ok (some a)) ∧ live'.rows = live.rows ∧ live'.pending = live.pending ∧
      (Applies live.rows txn → answers.Refuses live.submits)) ∨
    (Applies live.rows txn ∧ answers.submit live.submits = none ∧
      (submitPlanned operation txn applied).exec live = (.ok (some applied),
        ⟨live.rows.writeAll txn.mutations, 0, live.submits + 1, true⟩)) ∨
    ∃ error, Applies live.rows txn ∧ answers.submit live.submits = some (error, true) ∧
      (submitPlanned operation txn applied).exec live = (.error (.store operation error),
        ⟨live.rows.writeAll txn.mutations, 0, live.submits + 1, live.pending⟩) := by
  unfold submitPlanned Session.exec submit
  cases hvalid : txn.validate storeLimits with
  | error =>
    refine .inl ⟨_, _, rfl, (fun _ h => nomatch h), rfl, rfl, fun happlies => ?_⟩
    cases hvalid.symm.trans happlies.valid
  | ok u =>
    cases u
    unfold State.commit
    by_cases hchecks : txn.checks.all live.rows.holds = true
    · simp only [if_pos hchecks]
      rcases hsubmit : answers.submit live.submits with _ | ⟨error, isApplied⟩
      · exact .inr (.inl ⟨⟨hvalid, hchecks⟩, rfl, rfl⟩)
      · cases isApplied with
        | false => exact .inl ⟨_, _, rfl, (fun _ h => nomatch h), rfl, rfl, fun _ => ⟨error, hsubmit⟩⟩
        | true => exact .inr (.inr ⟨error, ⟨hvalid, hchecks⟩, rfl, rfl⟩)
    · have hnever : Applies live.rows txn → answers.Refuses live.submits :=
        fun happlies => absurd happlies.checks hchecks
      simp only [if_neg hchecks]
      left
      rcases answers.submit live.submits with _ | ⟨_, isApplied⟩
      · exact ⟨_, _, rfl, (fun _ h => nomatch h), rfl, rfl, hnever⟩
      · cases isApplied <;> exact ⟨_, _, rfl, (fun _ h => nomatch h), rfl, rfl, hnever⟩

/-- The store behind a submission that applied. -/
def Live.written (live : Live answers) (txn : WriteTxn) (pending : Bool) : Live answers :=
  ⟨live.rows.writeAll txn.mutations, 0, live.submits + 1, pending⟩

/-- The entrypoint plans the transaction with the reads that the store answers, and the store takes it. -/
structure Live.Writes (live : Live answers) (work : Shard (Planned α)) (txn : WriteTxn) : Prop where
  plan : ∃ operation applied conflict, (live.found work).1 = .ok (.commit operation txn applied conflict)
  applies : Applies live.rows txn

/-- What an entrypoint has done: nothing, its transaction, or its transaction without an answer. -/
inductive Attempted (work : Shard (Planned α)) (live : Live answers) :
    Except MetaError α × Live answers → Prop
  | kept {result : Except MetaError α} {live' : Live answers} (rows : live'.rows = live.rows)
      (pending : live'.pending = live.pending)
      (skipped : ∀ txn, live.Writes work txn → answers.Refuses live.submits) :
      Attempted work live (result, live')
  | applied {operation : String} {txn : WriteTxn} {applied : α} {conflict : Shard α}
      (plan : (live.found work).1 = .ok (.commit operation txn applied conflict))
      (applies : Applies live.rows txn) (submitted : answers.submit live.submits = none) :
      Attempted work live (.ok applied, live.written txn true)
  | lost {operation : String} {txn : WriteTxn} {applied : α} {conflict : Shard α} {error : StoreError}
      (plan : (live.found work).1 = .ok (.commit operation txn applied conflict))
      (applies : Applies live.rows txn) (submitted : answers.submit live.submits = some (error, true)) :
      Attempted work live (.error (.store operation error), live.written txn live.pending)

lemma attempted_attempt (work : Shard (Planned α)) (live : Live answers) :
    Attempted work live ((runEntrypoint work : Work answers α).exec live) := by
  show Attempted work live ((liftM work >>= _ : Work answers α).exec live)
  obtain ⟨e, n, hfound, heq⟩ | ⟨planned, n, hfound, heq⟩ := Live.bind_observe work _ live
  · rw [show _ = _ from heq]
    refine .kept rfl rfl fun txn ⟨⟨_, _, _, hplan⟩, _⟩ => ?_
    rw [hfound] at hplan
    cases hplan
  rw [show _ = _ from heq]
  have hplan : (live.found work).1 = .ok planned := by rw [hfound]
  cases planned with
  | done =>
    refine .kept rfl rfl fun txn ⟨⟨_, _, _, hplan'⟩, _⟩ => ?_
    cases hplan.symm.trans hplan'
  | commit operation txn applied =>
    have honly : ∀ txn', live.Writes work txn' → Applies live.rows txn := by
      rintro txn' ⟨⟨_, _, _, hplan'⟩, happlies⟩
      cases hplan.symm.trans hplan'
      exact happlies
    rcases Live.submitPlanned_cases operation txn applied { live with reads := n } with
      ⟨result, live₂, hsubmit, hresult, hrows, hpending, hskipped⟩ | ⟨happlies, hanswered, hsubmit⟩ |
      ⟨error, happlies, hlost, hsubmit⟩
    · -- the transaction is refused, or finds the rows changed
      cases result with
      | error =>
        rw [Session.bind_of_error hsubmit]
        exact .kept hrows hpending fun txn' h => hskipped (honly txn' h)
      | ok found =>
        cases found with
        | some a => exact absurd rfl (hresult a)
        | none =>
          rw [Session.bind_of_ok hsubmit]
          exact .kept hrows hpending fun txn' h => hskipped (honly txn' h)
    · rw [Session.bind_of_ok hsubmit]
      exact .applied hplan happlies hanswered
    · rw [Session.bind_of_error hsubmit]
      exact .lost hplan happlies hlost

end Sessions

/-! ### Records that are written again -/

section Recorded

variable [Sha256] {mutation : RecoveryMutationV1} {record : RecoveryOutboxRecord} {result : RecoveryResultV1}

/-- A mutation with the result that is recorded for it. -/
inductive Paired : RecoveryMutationV1 → RecoveryResultV1 → Prop
  | command {command : MetadataCommand} {leaseDeadlineMs : Option UInt64} {commitVersion : CommitVersion}
      (version : checkedAdd command.readVersion.val 1 = some commitVersion.val) :
      Paired (.metadataCommand command leaseDeadlineMs)
        (.metadataCommand commitVersion command.deterministicResult)
  | leaseClock (rootId : RootId) (placementGeneration : PlacementGeneration) (ownerEpoch : OwnerEpoch)
      (observedMs : UInt64) :
      Paired (.observeLeaseClock rootId placementGeneration ownerEpoch observedMs) (.leaseClock observedMs)
  | ownerEpoch (expected : Option OwnerEpoch) (next : OwnerEpoch) :
      Paired (.advanceOwnerEpoch expected next) (.ownerEpoch next)

omit [Sha256] in
lemma paired_of_validatePair (h : validatePair mutation result = .ok ()) : Paired mutation result := by
  unfold validatePair at h
  split at h
  · obtain ⟨rfl, hversion⟩ := of_refuseIf_not h
    exact .command hversion
  · obtain ⟨-, rfl⟩ := of_refuseIf_not h
    exact .leaseClock ..
  · obtain ⟨rfl, -⟩ := of_refuseIf_not h
    exact .ownerEpoch ..
  · cases h

omit [Sha256] in
lemma Paired.unique {result' : RecoveryResultV1} (h : Paired mutation result) (h' : Paired mutation result') :
    result = result' := by
  cases h with
  | command version =>
    cases h' with
    | command version' =>
      rw [NonZeroU64.ext_get (congrArg UInt64.toNat (Option.some.inj (version.symm.trans version')))]
  | leaseClock | ownerEpoch =>
    cases h'
    rfl

lemma encodeCommand_version {command : MetadataCommand} {leaseDeadlineMs : Option UInt64} {v : UInt8}
    {e : Bytes} (h : encodeCommand v command leaseDeadlineMs = .ok e) :
    v = RECOVERY_OUTBOX_VALUE_FORMAT_VERSION := by
  replace h := ok_of_bind h
  obtain ⟨_, -, h⟩ := bind_eq_ok.1 h
  obtain ⟨_, hversion, -⟩ := bind_eq_ok.1 h
  exact of_refuseIf_not hversion

/-- The canonical bytes of a mutation are the same in every format that has them. -/
lemma encodeCanonicalForVersion_unique {v v' : UInt8} {e e' : Bytes}
    (h : mutation.encodeCanonicalForVersion v = .ok e) (h' : mutation.encodeCanonicalForVersion v' = .ok e') :
    e = e' := by
  obtain ⟨_, hbytes, h⟩ := bind_eq_ok.1 h
  replace h := ok_of_bind h
  obtain ⟨_, hbytes', h'⟩ := bind_eq_ok.1 h'
  replace h' := ok_of_bind h'
  rw [← pure_eq_ok.1 h, ← pure_eq_ok.1 h']
  cases mutation with
  | metadataCommand =>
    have hversion : v = v' := (encodeCommand_version hbytes).trans (encodeCommand_version hbytes').symm
    rw [hversion] at hbytes
    exact Except.ok.inj (hbytes.symm.trans hbytes')
  | observeLeaseClock =>
    exact Except.ok.inj (hbytes.symm.trans hbytes')
  | advanceOwnerEpoch => exact Except.ok.inj (hbytes.symm.trans hbytes')

/-- The record that is planned for the mutation of a verified record behind the same tail is that
record again. -/
lemma RecoveryPlan.Continues.again {plan : RecoveryPlan} {lsn : UInt64} {digest : Digest}
    (hplan : plan.Continues lsn digest record.mutation result) (hverify : record.verify = .ok ())
    (hlsn : record.recoveryLsn.toNat = lsn.toNat + 1) (hprevious : record.previousChainDigest = digest) :
    plan.row.recoveryLsn = record.recoveryLsn ∧ plan.row.result = record.result ∧
      plan.row.chainDigest = record.chainDigest := by
  obtain ⟨e, he⟩ := RecoveryOutboxRecord.verify_eq_ok.1 hverify
  obtain ⟨m, r, henc, -⟩ := RecoveryOutboxRecord.encode_eq_ok he
  obtain ⟨_, hlogical, -⟩ := hplan.storedAs.stored
  obtain ⟨m', r', henc', -⟩ := RecoveryOutboxRecord.encode_eq_ok hlogical
  have hpair := henc'.pair
  have hmutation := henc'.mutation_eq
  rw [hplan.mutation_eq] at hpair hmutation
  have hresult : plan.row.result = record.result :=
    (paired_of_validatePair hpair).unique (paired_of_validatePair henc.pair)
  have hrow : plan.row.recoveryLsn = record.recoveryLsn :=
    UInt64.toNat_inj.1 (hplan.lsn_eq.trans hlsn.symm)
  have hm : m' = m := encodeCanonicalForVersion_unique hmutation henc.mutation_eq
  have hr : r' = r := Except.ok.inj (henc'.result_eq.symm.trans (hresult ▸ henc.result_eq))
  refine ⟨hrow, hresult, ?_⟩
  rw [← henc'.digest_eq, ← henc.digest_eq, hrow, hplan.previous_eq, hprevious, hm, hr]

end Recorded

section Records

/-- The call whose recovery input a mutation is. -/
def RecoveryMutationV1.call : RecoveryMutationV1 → Call
  | .metadataCommand command leaseDeadlineMs => .execute command leaseDeadlineMs
  | .observeLeaseClock rootId placementGeneration ownerEpoch observedMs =>
    .observeLeaseClock rootId placementGeneration ownerEpoch observedMs
  | .advanceOwnerEpoch expected next => .advanceOwnerEpoch expected next

lemma call_mutation (call : Call) : call.mutation.call = call := by cases call <;> rfl

lemma mutation_call (mutation : RecoveryMutationV1) : mutation.call.mutation = mutation := by
  cases mutation <;> rfl

variable {shard : LogicalShardId} {s : State} {record : RecoveryOutboxRecord} {call : Call} {operation : String}
  {txn : WriteTxn} {reply : Reply} {conflict : Shard Reply}

lemma Applies.nodup (h : Applies s txn) : (txn.mutations.map Mutation.key).Nodup :=
  (WriteTxn.valid_of_validate h.valid).nodup

variable [Pager]

lemma readBatch_once {ops : List ReadOp} (h : validateBatch ops storeLimits = .ok ())
    (operation : String) : (readBatch ops operation).Once := by
  unfold readBatch
  rw [h]
  exact once_get.bind fun _ => blind_pure _

lemma recoveryStateUnlocked_once : recoveryStateUnlocked.Once := by
  have hvalid : validateBatch [.get (systemKey SYSTEM_APPLIED_RECOVERY_LSN_KEY),
      .get (systemKey SYSTEM_RECOVERY_CHAIN_DIGEST_KEY)] storeLimits = .ok () := by decide
  have htail : recoveryTailValues.Once := by
    refine (readBatch_once hvalid _).bind fun results => ?_
    split
    · exact (blind_okOr _ _).bind fun _ => (blind_okOr _ _).bind fun _ => blind_pure _
    · exact blind_throw _
    · exact blind_throw _
  exact htail.bind fun _ => (blind_liftM _).bind fun _ => (blind_liftM _).bind fun _ =>
    blind_pure _

variable [Sha256]

/-- The write of the record plans the transaction at `s`, and the transaction applies there. -/
structure Rewrites (shard : LogicalShardId) (s : State) (record : RecoveryOutboxRecord) (txn : WriteTxn) :
    Prop where
  plan : ∃ operation reply conflict,
    (record.mutation.call.planUnlocked shard).runAt s = .ok (.commit operation txn reply conflict)
  applies : Applies s txn

section

variable (h : (call.planUnlocked shard).runAt s = .ok (.commit operation txn reply conflict))
include h

/-- A planned transaction appends the record of its call, and answers as the record says. -/
lemma planUnlocked_recorded : ∃ result plan base, (planRecovery call.mutation result).runAt s = .ok plan ∧
      txn = enqueueRecovery base plan ∧ writesTo RECOVERY_OUTBOX.id base.mutations = [] ∧
      reply = plan.row.reply := by
  have hreply : ∀ {result : RecoveryResultV1} {plan : RecoveryPlan},
      (planRecovery call.mutation result).runAt s = .ok plan → plan.row.result = result := by
    intro result plan hplan
    obtain ⟨_, _, -, -, hcont⟩ := planRecovery_continues hplan
    exact hcont.result_eq
  unfold RecoveryOutboxRecord.reply
  cases call with
  | execute =>
    obtain ⟨_, _, hwork, rfl⟩ := map_runAt_commit h
    obtain ⟨_, -, ⟨⟩⟩ | ⟨state, _, _, -, hstate, hbuilt, ⟨⟩⟩ := executeUnlocked_eq_ok hwork
    have hrecovery := (planCommand_eq_ok hstate).recovery
    obtain ⟨_, _, _, _, _, hfrom⟩ := buildCommandTxn_eq_ok hbuilt
    refine ⟨_, state.recovery, _, hrecovery, hfrom.txn_eq, hfrom.writesTo_outbox_base, ?_⟩
    rw [hreply hrecovery]
  | observeLeaseClock =>
    obtain ⟨plan, hwrote, rfl⟩ := Plans.observeLeaseClock_cases ⟨operation, conflict, h⟩
    obtain ⟨base, hbase, hout⟩ := hwrote.enqueued
    refine ⟨_, plan, base, hwrote.planned, hbase, hout, ?_⟩
    rw [hreply hwrote.planned]
  | advanceOwnerEpoch =>
    obtain ⟨plan, hwrote, rfl⟩ := Plans.advanceOwnerEpoch_cases ⟨operation, conflict, h⟩
    obtain ⟨base, hbase, hout⟩ := hwrote.enqueued
    refine ⟨_, plan, base, hwrote.planned, hbase, hout, ?_⟩
    rw [hreply hwrote.planned]

lemma planUnlocked_moves (happlies : Applies s txn) : s.writeAll txn.mutations ≠ s := by
  obtain ⟨_, _, _, hplan, rfl, hout, -⟩ := planUnlocked_recorded h
  obtain ⟨lsn, _, hlsn, -, hcont⟩ := planRecovery_continues hplan
  have heffect := recoveryEffect_of_enqueueRecovery happlies.nodup happlies.checks hout
  intro heq
  have hget := heffect.lsn
  rw [heq, hlsn] at hget
  have := congrArg UInt64.toNat (encodeSystemU64_injective (Option.some.inj hget))
  have := hcont.lsn_eq
  omega

end

/-- Writing a verified record behind its own tail answers as recorded and moves the tail to it. -/
lemma replanned {before : RecoveryState} (hverify : record.verify = .ok ())
    (htail : recoveryStateUnlocked.runAt s = .ok before) (hnext : checkNext before record = .ok ())
    (hmutation : call.mutation = record.mutation)
    (hplan : (call.planUnlocked shard).runAt s = .ok (.commit operation txn reply conflict))
    (happlies : Applies s txn) :
    reply = record.reply ∧ recoveryStateUnlocked.runAt (s.writeAll txn.mutations) =
      .ok ⟨record.recoveryLsn, record.chainDigest⟩ := by
  obtain ⟨_, _, _, hrecovery, rfl, hout, rfl⟩ := planUnlocked_recorded hplan
  obtain ⟨lsn, digest, hlsn, hdigest, hcont⟩ := planRecovery_continues hrecovery
  obtain ⟨hlsn', hdigest'⟩ := recoveryStateUnlocked_eq_ok.1 htail
  cases encodeSystemU64_injective (Option.some.inj (hlsn.symm.trans hlsn'))
  cases encodeSystemDigest_injective (Option.some.inj (hdigest.symm.trans hdigest'))
  obtain ⟨hrecordLsn, hprevious⟩ := checkNext_eq_ok.1 hnext
  rw [hmutation] at hcont
  obtain ⟨hrow, hresult, hchain⟩ := hcont.again hverify hrecordLsn hprevious
  have heffect := recoveryEffect_of_enqueueRecovery happlies.nodup happlies.checks hout
  refine ⟨?_, recoveryStateUnlocked_eq_ok.2 ⟨?_, ?_⟩⟩
  · unfold RecoveryOutboxRecord.reply
    rw [hresult, hrow, hchain]
  · rw [heffect.lsn, hrow]
  · rw [heffect.digest, hchain]

variable {answers : Answers} {before : RecoveryState} {live : Live answers}

lemma Live.Writes.rewrites (h : live.Writes (record.mutation.call.planUnlocked shard) txn) :
    Rewrites shard live.rows record txn := by
  obtain ⟨operation, reply, conflict, hplan⟩ := h.plan
  exact ⟨⟨operation, reply, conflict, runAt_of_found hplan⟩, h.applies⟩

/-- What the write of a record has done: nothing, the write, or the write without an answer. The write
of a verified record is answered as recorded. -/
inductive Rewritten (shard : LogicalShardId) (record : RecoveryOutboxRecord) (live : Live answers) :
    Except MetaError Unit × Live answers → Prop
  | kept {result : Except MetaError Unit} {live' : Live answers} (rows : live'.rows = live.rows)
      (pending : live'.pending = live.pending)
      (skipped : record.verify = .ok () →
        ∀ txn, live.Writes (record.mutation.call.planUnlocked shard) txn → answers.Refuses live.submits) :
      Rewritten shard record live (result, live')
  | applied {txn : WriteTxn} {result : Except MetaError Unit}
      (writes : live.Writes (record.mutation.call.planUnlocked shard) txn)
      (submitted : answers.submit live.submits = none)
      (answered : record.verify = .ok () → result = .ok ()) :
      Rewritten shard record live (result, live.written txn true)
  | lost {txn : WriteTxn} {operation : String} {error : StoreError}
      (writes : live.Writes (record.mutation.call.planUnlocked shard) txn)
      (submitted : answers.submit live.submits = some (error, true)) :
      Rewritten shard record live (.error (.store operation error), live.written txn live.pending)

/-- An entrypoint and the comparison with the recorded answer. -/
lemma rewritten_entrypoint {α : Type} {work : Shard (Planned α)} {differs : α → Prop}
    [DecidablePred differs] {error : MetaError} (call : Call) (f : α → Reply) (live : Live answers)
    (htail : recoveryStateUnlocked.runAt live.rows = .ok before) (hnext : checkNext before record = .ok ())
    (hmutation : call.mutation = record.mutation) (hwork : call.planUnlocked shard = Planned.map f <$> work)
    (hsame : record.verify = .ok () → ∀ a, f a = record.reply → ¬ differs a) :
    Rewritten shard record live
      ((runEntrypoint work >>= fun a => refuseIf (differs a) error :
        Work answers Unit).exec live) := by
  have hattempted := attempted_attempt work live
  -- the entrypoint plans what the call of the record plans, up to the reply
  have hplanned : (live.found (record.mutation.call.planUnlocked shard)).1 =
      Planned.map f <$> (live.found work).1 := by
    rw [← hmutation, call_mutation, hwork]
    exact runFailing_map ..
  have hwrites : ∀ {operation txn a conflict}, (live.found work).1 = .ok (.commit operation txn a conflict) →
      Applies live.rows txn → live.Writes (record.mutation.call.planUnlocked shard) txn := by
    intro operation txn a conflict hplan happlies
    refine ⟨⟨operation, f a, f <$> conflict, ?_⟩, happlies⟩
    rw [hplanned, hplan]
    rfl
  rw [Session.exec_bind]
  revert hattempted
  generalize (runEntrypoint work : Work answers α).exec live = out
  intro hattempted
  cases hattempted with
  | @kept result _ rows pending skipped =>
    -- what the call would submit is what the entrypoint would
    have hskipped : record.verify = .ok () → ∀ txn,
        live.Writes (record.mutation.call.planUnlocked shard) txn → answers.Refuses live.submits := by
      rintro - txn ⟨⟨_, _, _, hplan⟩, happlies⟩
      rw [hplanned] at hplan
      obtain ⟨planned, hfound, hmap⟩ := map_eq_ok.1 hplan
      cases planned with
      | done => cases hmap
      | commit =>
        cases hmap
        exact skipped txn ⟨⟨_, _, _, hfound⟩, happlies⟩
    cases result with
    | error => exact .kept rows pending hskipped
    | ok =>
      dsimp only
      rw [Session.exec_refuseIf]
      exact .kept rows pending hskipped
  | applied plan applies submitted =>
    dsimp only
    rw [Session.exec_refuseIf]
    refine .applied (hwrites plan applies) submitted fun hverify => ?_
    -- a write that is planned again gives the reply of the record
    have hcall := map_runAt_of_commit (f := f) (Live.runAt_of_found plan)
    rw [← hwork] at hcall
    exact refuseIf_of_not (hsame hverify _ (replanned hverify htail hnext hmutation hcall applies).1)
  | lost plan applies submitted =>
    exact .lost (hwrites plan applies) submitted

lemma rewritten_replayMutation (live : Live answers)
    (htail : recoveryStateUnlocked.runAt live.rows = .ok before) (hnext : checkNext before record = .ok ()) :
    Rewritten shard record live
      ((replayMutation shard record : Work answers Unit).exec live) := by
  unfold replayMutation
  split
  next command leaseDeadlineMs commitVersion deterministicResult hmutation hresult =>
    refine rewritten_entrypoint (.execute command leaseDeadlineMs) .command live htail hnext
      hmutation.symm rfl fun _ a ha => ?_
    unfold RecoveryOutboxRecord.reply at ha
    rw [hresult] at ha
    cases ha
    simp
  next rootId placementGeneration ownerEpoch observedMs effectiveHighWaterMs hmutation hresult =>
    refine rewritten_entrypoint (.observeLeaseClock rootId placementGeneration ownerEpoch observedMs)
      .leaseClock live htail hnext hmutation.symm rfl fun _ a ha => ?_
    unfold RecoveryOutboxRecord.reply at ha
    rw [hresult] at ha
    cases ha
    simp
  next expected next appliedOwnerEpoch hmutation hresult =>
    -- the answer of an advance is empty, so the recorded epoch is compared with the requested one
    refine rewritten_entrypoint (.advanceOwnerEpoch expected next) (fun _ => .ownerEpoch) live htail hnext
      hmutation.symm rfl fun hverify _ _ => not_not.2 ?_
    obtain ⟨e, he⟩ := RecoveryOutboxRecord.verify_eq_ok.1 hverify
    obtain ⟨m, r, henc, -⟩ := RecoveryOutboxRecord.encode_eq_ok he
    have hpair := paired_of_validatePair henc.pair
    rw [hmutation, hresult] at hpair
    cases hpair
    rfl
  next hcommand hclock howner =>
    -- a verified record has the result of its own mutation
    refine .kept rfl rfl fun hverify => ?_
    obtain ⟨e, he⟩ := RecoveryOutboxRecord.verify_eq_ok.1 hverify
    obtain ⟨m, r, henc, -⟩ := RecoveryOutboxRecord.encode_eq_ok he
    have hpair := paired_of_validatePair henc.pair
    generalize record.mutation = mutation at hpair hcommand hclock howner
    generalize record.result = result at hpair hcommand hclock howner
    cases hpair with
    | command => exact absurd rfl (hcommand _ _ _ _ rfl)
    | leaseClock => exact absurd rfl (hclock _ _ _ _ _ rfl)
    | ownerEpoch => exact absurd rfl (howner _ _ _ rfl)

/-- The record is the next one behind the tail that is read, and its write reaches the store. -/
def RecordWrites (shard : LogicalShardId) (record : RecoveryOutboxRecord) (live : Live answers)
    (txn : WriteTxn) : Prop :=
  ∃ before n, live.found recoveryStateUnlocked = (.ok before, n) ∧ checkNext before record = .ok () ∧
    ({ live with reads := n } : Live answers).Writes (record.mutation.call.planUnlocked shard) txn

lemma RecordWrites.rewrites (h : RecordWrites shard record live txn) : Rewrites shard live.rows record txn := by
  obtain ⟨_, _, _, _, hwrites⟩ := h
  exact hwrites.rewrites

/-- What the replay of a record has done: nothing, the write of the record, or that write without an
answer. A record is skipped only where it is already there, and a verified record that was written is
answered unless the read of the tail behind it fails. -/
inductive Replayed (shard : LogicalShardId) (record : RecoveryOutboxRecord) (live : Live answers) :
    Except MetaError RecoveryState × Live answers → Prop
  | kept {result : Except MetaError RecoveryState} {live' : Live answers} (rows : live'.rows = live.rows)
      (pending : live'.pending = live.pending)
      (present : ∀ tail, result = .ok tail → ∃ before, recoveryStateUnlocked.runAt live.rows = .ok before ∧
        record.recoveryLsn.toNat ≤ before.appliedRecoveryLsn.toNat)
      (skipped : record.verify = .ok () → ∀ txn, RecordWrites shard record live txn →
        answers.Refuses live.submits) :
      Replayed shard record live (result, live')
  | applied {txn : WriteTxn} {result : Except MetaError RecoveryState} {live' : Live answers}
      (writes : RecordWrites shard record live txn) (submitted : answers.submit live.submits = none)
      (rows : live'.rows = live.rows.writeAll txn.mutations) (pending : live'.pending = true)
      (answered : record.verify = .ok () → result = match answers.read (live.submits + 1) 0 with
        | some e => .error e
        | none => .ok ⟨record.recoveryLsn, record.chainDigest⟩) :
      Replayed shard record live (result, live')
  | lost {txn : WriteTxn} {operation : String} {error : StoreError} {live' : Live answers}
      (writes : RecordWrites shard record live txn)
      (submitted : answers.submit live.submits = some (error, true))
      (rows : live'.rows = live.rows.writeAll txn.mutations) (pending : live'.pending = live.pending) :
      Replayed shard record live (.error (.store operation error), live')

/-- The comparison of the tail with the record behind its write. -/
def checkTail {σ : Type} [Serves σ] (record : RecoveryOutboxRecord) : Session σ MetaError RecoveryState := do
  let after ← liftM recoveryStateUnlocked
  refuseIf (after ≠ ⟨record.recoveryLsn, record.chainDigest⟩)
    (corrupt REPLAY s!"authoritative write produced a different tail at LSN {record.recoveryLsn}")
  return after

omit [Sha256] in
lemma reads_checkTail (record : RecoveryOutboxRecord) :
    Reads (checkTail record : Work answers RecoveryState) :=
  (reads_observe _).bind fun _ => (reads_refuseIf _ _).bind fun _ => reads_pure _

omit [Sha256] in
lemma checkTail_eq_ok {live live' : Live answers} {tail : RecoveryState}
    (h : (checkTail record).exec live = (.ok tail, live')) :
    recoveryStateUnlocked.runAt live.rows = .ok ⟨record.recoveryLsn, record.chainDigest⟩ := by
  unfold checkTail at h
  obtain ⟨e, n, -, heq⟩ | ⟨after, n, hafter, heq⟩ := Live.bind_observe recoveryStateUnlocked _ live
  · rw [show _ = _ from heq] at h
    cases congrArg Prod.fst h
  · rw [show _ = _ from heq] at h
    by_cases hsame : after = ⟨record.recoveryLsn, record.chainDigest⟩
    · exact Live.runAt_of_found (by rw [hafter, hsame])
    · rw [Session.refuseIf_bind_of hsame] at h
      cases congrArg Prod.fst h

omit [Sha256] in
lemma checkTail_of_tail {live : Live answers}
    (htail : recoveryStateUnlocked.runAt live.rows = .ok ⟨record.recoveryLsn, record.chainDigest⟩) :
    ((checkTail record).exec live).1 = match answers.read live.submits live.reads with
      | some e => .error e
      | none => .ok ⟨record.recoveryLsn, record.chainDigest⟩ := by
  have hread : (live.found recoveryStateUnlocked).1 = _ :=
    recoveryStateUnlocked_once.runFailing (answers.read live.submits) live.rows live.reads
  unfold checkTail
  cases hfailed : answers.read live.submits live.reads with
  | some =>
    rw [hfailed] at hread
    rw [Session.bind_of_error (by rw [Live.exec_observe, hread])]
  | none =>
    rw [hfailed, htail] at hread
    rw [Session.bind_of_ok (by rw [Live.exec_observe, hread]), Session.refuseIf_bind_of_not (not_not.2 rfl)]
    rfl

lemma replayed_write (live : Live answers) {n : ℕ} (hfound : live.found recoveryStateUnlocked = (.ok before, n))
    (hnext : checkNext before record = .ok ())
    (hmissing : ¬ record.recoveryLsn.toNat ≤ before.appliedRecoveryLsn.toNat) :
    Replayed shard record live ((replayMutation shard record >>= fun _ => checkTail record :
      Work answers RecoveryState).exec { live with reads := n }) := by
  have htail : recoveryStateUnlocked.runAt live.rows = .ok before := Live.runAt_of_found (by rw [hfound])
  have hrewritten : Rewritten shard record ({ live with reads := n } : Live answers) _ :=
    rewritten_replayMutation _ htail hnext
  rw [Session.exec_bind]
  revert hrewritten
  generalize (replayMutation shard record : Work answers Unit).exec { live with reads := n } = out
  intro hrewritten
  cases hrewritten with
  | @kept result live' rows pending skipped =>
    have hskipped : record.verify = .ok () → ∀ txn, RecordWrites shard record live txn →
        answers.Refuses live.submits := by
      rintro hverify txn ⟨_, _, hfound', -, hwrites⟩
      cases hfound.symm.trans hfound'
      exact skipped hverify txn hwrites
    cases result with
    | error => exact .kept rows pending (fun _ h => nomatch h) hskipped
    | ok =>
      obtain ⟨hrows, hpending⟩ := reads_checkTail record live'
      refine .kept (hrows.trans rows) (hpending.trans pending) (fun tail hok => ?_) hskipped
      -- a tail that is the record and did not move was the record before
      have hafter := checkTail_eq_ok (Prod.ext hok rfl)
      rw [rows, htail] at hafter
      cases hafter
      exact absurd le_rfl hmissing
  | @applied txn result writes submitted answered =>
    have hwrites : RecordWrites shard record live txn := ⟨before, n, hfound, hnext, writes⟩
    cases result with
    | error => exact .applied hwrites submitted rfl rfl fun hverify => nomatch answered hverify
    | ok =>
      obtain ⟨hrows, hpending⟩ := reads_checkTail record (Live.written _ txn true)
      refine .applied hwrites submitted hrows hpending fun hverify => ?_
      obtain ⟨_, _, _, hplan⟩ := writes.rewrites.plan
      exact checkTail_of_tail (replanned hverify htail hnext (mutation_call _) hplan writes.applies).2
  | lost writes submitted => exact .lost ⟨before, n, hfound, hnext, writes⟩ submitted rfl rfl

lemma replayed_replayUnlocked (live : Live answers) :
    Replayed shard record live
      ((replayRecoveryRecordUnlocked shard record : Work answers RecoveryState).exec
        live) := by
  unfold replayRecoveryRecordUnlocked
  obtain ⟨e, n, hfound, heq⟩ | ⟨before, n, hfound, heq⟩ := Live.bind_observe recoveryStateUnlocked _ live
  · rw [show _ = _ from heq]
    refine .kept rfl rfl (fun _ h => by cases h) ?_
    rintro - txn ⟨_, _, hfound', -⟩
    cases hfound.symm.trans hfound'
  rw [show _ = _ from heq]
  -- only the next record behind the tail is written
  have hskipped : checkNext before record ≠ .ok () → record.verify = .ok () → ∀ txn,
      RecordWrites shard record live txn → answers.Refuses live.submits := by
    rintro hnot - txn ⟨_, _, hfound', hnext, -⟩
    cases hfound.symm.trans hfound'
    exact absurd hnext hnot
  split
  next hpresent =>
    obtain ⟨hrows, hpending⟩ := (reads_observe (compareLocal record "existing")).bind
      (fun _ => reads_pure before) { live with reads := n }
    refine .kept hrows hpending
      (fun _ _ => ⟨before, Live.runAt_of_found (by rw [hfound]), hpresent⟩) (hskipped fun hnext => ?_)
    have := (checkNext_eq_ok.1 hnext).1
    omega
  next hmissing =>
    cases hnext : checkNext before record with
    | error => exact .kept rfl rfl (fun _ h => by cases h) (hskipped fun h => by cases hnext.symm.trans h)
    | ok => exact replayed_write live hfound hnext hmissing

/-- The records of the list are written in order, one transaction each, except those that are already
there. -/
inductive Replays (shard : LogicalShardId) (before : RecoveryState) :
    State → List RecoveryOutboxRecord → State → Prop
  | nil (s : State) : Replays shard before s [] s
  | present {record : RecoveryOutboxRecord} {rest : List RecoveryOutboxRecord} {s s' : State}
      (present : record.recoveryLsn.toNat ≤ before.appliedRecoveryLsn.toNat ∨
        ∃ tail, recoveryStateUnlocked.runAt s = .ok tail ∧
          record.recoveryLsn.toNat ≤ tail.appliedRecoveryLsn.toNat)
      (later : Replays shard before s rest s') : Replays shard before s (record :: rest) s'
  | write {record : RecoveryOutboxRecord} {rest : List RecoveryOutboxRecord} {s s' : State} {txn : WriteTxn}
      (rewrites : Rewrites shard s record txn)
      (later : Replays shard before (s.writeAll txn.mutations) rest s') :
      Replays shard before s (record :: rest) s'

/-- Wherever it ends, the replay of missing records has written a first part of them. -/
lemma replayMissing_replays (records : List RecoveryOutboxRecord) (live : Live answers) :
    ∃ done, done <+: records ∧ Replays shard before live.rows done
      ((replayMissing shard before records : Work answers Unit).exec live).2.rows := by
  induction records generalizing live with
  | nil => exact ⟨[], nil_prefix, .nil _⟩
  | cons record _ ih =>
    unfold replayMissing
    split
    next hmissing =>
      have hreplayed : Replayed shard record live _ := replayed_replayUnlocked live
      rw [Session.exec_bind]
      revert hreplayed
      generalize (replayRecoveryRecordUnlocked shard record :
        Work answers RecoveryState).exec live = out
      intro hreplayed
      cases hreplayed with
      -- a record that is neither written nor refused is already there
      | @kept result live' rows _ present _ =>
        cases result with
        | error =>
          refine ⟨[], nil_prefix, ?_⟩
          rw [show Live.rows _ = live.rows from rows]
          exact .nil _
        | ok tail =>
          obtain ⟨done, hdone, hlater⟩ := ih live'
          rw [rows] at hlater
          exact ⟨record :: done, (prefix_cons_inj record).2 hdone, .present (.inr (present tail rfl)) hlater⟩
      | @applied _ result live' writes _ rows =>
        cases result with
        | error =>
          -- written, and stopped at the check behind it
          refine ⟨[record], (prefix_cons_inj record).2 nil_prefix, .write writes.rewrites ?_⟩
          rw [show Live.rows _ = _ from rows]
          exact .nil _
        | ok =>
          obtain ⟨done, hdone, hlater⟩ := ih live'
          rw [rows] at hlater
          exact ⟨record :: done, (prefix_cons_inj record).2 hdone, .write writes.rewrites hlater⟩
      | @lost _ _ _ _ writes _ rows =>
        refine ⟨[record], (prefix_cons_inj record).2 nil_prefix, .write writes.rewrites ?_⟩
        rw [show Live.rows _ = _ from rows]
        exact .nil _
    next hpresent =>
      obtain ⟨done, hdone, hlater⟩ := ih live
      exact ⟨record :: done, (prefix_cons_inj record).2 hdone, .present (.inl (not_lt.1 hpresent)) hlater⟩

end Records

/-! ### All or nothing -/

section AllOrNothing

variable {shard : LogicalShardId} {answers : Answers} {thread : Thread answers} {live : Live answers} {α : Type}
  {work : Work answers α}

/-- A definite error means that nothing was written. -/
def AllOrNothing (thread : Thread answers) (out : Except MetaError α × Thread answers) : Prop :=
  ∀ e, out.1 = .error e → e.isOutcomeUnknown = false → out.2.rows = thread.rows

/-- The store applies the submission without saying so, and the thread then waits for a durability barrier
that fails with a definite error. -/
def Thread.Masks (thread : Thread answers) (live : Live answers) : Prop :=
  ∃ lost error, answers.submit live.submits = some (lost, true) ∧ thread.wait false = some error ∧
    error.isOutcomeUnknown = false

/-- The store applies the submission, and acknowledges it if the thread waits for that, and the read
behind it fails with a definite error. -/
def Thread.FailsBehind (thread : Thread answers) (live : Live answers) : Prop :=
  answers.submit live.submits = none ∧ thread.wait true = none ∧
    ∃ e, answers.read (live.submits + 1) 0 = some e ∧ e.isOutcomeUnknown = false

lemma openSession_of_refused {e : MetaError} (h : thread.enter = .error e) :
    openSession work thread = (.error e, thread) := by
  cases thread with
  | outside | inside => cases h
  | elsewhere =>
    cases h
    rfl

lemma AllOrNothing.of_rows {out : Except MetaError α × Thread answers} (h : out.2.rows = thread.rows) :
    AllOrNothing thread out := fun _ _ _ => h

section Entered

variable (henter : thread.enter = .ok live)
include henter

lemma openSession_result : (openSession work thread).1 = match thread.wait (work.exec live).2.pending with
    | some error => .error error
    | none => (work.exec live).1 := by
  cases thread with
  | outside rows =>
    cases henter
    show (match answers.settle (work.exec ⟨rows, 0, 0, false⟩).2.pending with
      | some error => (Except.error error, Thread.outside (work.exec ⟨rows, 0, 0, false⟩).2.rows)
      | none => ((work.exec ⟨rows, 0, 0, false⟩).1, .outside (work.exec ⟨rows, 0, 0, false⟩).2.rows)).1 = _
    unfold Thread.wait
    cases answers.settle (work.exec ⟨rows, 0, 0, false⟩).2.pending <;> rfl
  | inside =>
    cases henter
    rfl
  | elsewhere => cases henter

lemma openSession_rows : (openSession work thread).2.rows = (work.exec live).2.rows := by
  cases thread with
  | outside rows =>
    cases henter
    show (match answers.settle (work.exec ⟨rows, 0, 0, false⟩).2.pending with
      | some error => (Except.error error, Thread.outside (work.exec ⟨rows, 0, 0, false⟩).2.rows)
      | none => ((work.exec ⟨rows, 0, 0, false⟩).1, .outside (work.exec ⟨rows, 0, 0, false⟩).2.rows)).2.rows = _
    cases answers.settle (work.exec ⟨rows, 0, 0, false⟩).2.pending <;> rfl
  | inside =>
    cases henter
    rfl
  | elsewhere => cases henter

lemma rows_of_enter : live.rows = thread.rows := by
  cases thread <;> cases henter <;> rfl

/-- A session that wrote must not end with a definite error. -/
lemma allOrNothing_iff (hrows : (work.exec live).2.rows ≠ live.rows) :
    AllOrNothing thread (openSession work thread) ↔ ∀ e,
      (match thread.wait (work.exec live).2.pending with
        | some error => Except.error error
        | none => (work.exec live).1) = .error e → e.isOutcomeUnknown = true := by
  rw [← openSession_result henter]
  constructor
  · intro h e he
    by_contra hdefinite
    refine hrows ?_
    rw [← openSession_rows henter, rows_of_enter henter]
    exact h e he (Bool.eq_false_iff.2 hdefinite)
  · intro h e he hdefinite
    rw [h e he] at hdefinite
    cases hdefinite

/-- A submission that applied and was lost. -/
lemma allOrNothing_of_lost (hlawful : answers.Lawful) {operation : String} {lost : StoreError}
    (hsubmit : answers.submit live.submits = some (lost, true))
    (hpending : (work.exec live).2.pending = live.pending)
    (hresult : (work.exec live).1 = .error (.store operation lost))
    (hrows : (work.exec live).2.rows ≠ live.rows) :
    AllOrNothing thread (openSession work thread) ↔ ¬ thread.Masks live := by
  -- nothing waits for an acknowledgement when an outermost session begins
  have hwait : thread.wait live.pending = thread.wait false := by
    cases thread <;> cases henter <;> rfl
  rw [allOrNothing_iff henter hrows, hpending, hwait, hresult]
  cases hbarrier : thread.wait false with
  | none =>
    refine iff_of_true (fun e he => ?_) ?_
    · cases he
      exact hlawful.submit _ lost operation hsubmit
    · rintro ⟨_, _, -, hsome, -⟩
      cases hbarrier.symm.trans hsome
  | some error =>
    constructor
    · rintro h ⟨_, _, -, hsome, hdefinite⟩
      cases hbarrier.symm.trans hsome
      rw [h error rfl] at hdefinite
      cases hdefinite
    · intro hmasks e he
      cases he
      by_contra hdefinite
      exact hmasks ⟨lost, error, hsubmit, hbarrier, Bool.eq_false_iff.2 hdefinite⟩

/-- A submission that applied and was answered. -/
lemma allOrNothing_of_applied (hlawful : answers.Lawful) (hpending : (work.exec live).2.pending = true)
    (hrows : (work.exec live).2.rows ≠ live.rows) :
    AllOrNothing thread (openSession work thread) ↔ ∀ e, thread.wait true = none →
      (work.exec live).1 = .error e → e.isOutcomeUnknown = true := by
  rw [allOrNothing_iff henter hrows, hpending]
  cases hack : thread.wait true with
  | none => exact ⟨fun h e _ he => h e he, fun h e he => h e rfl he⟩
  | some error =>
    refine iff_of_true (fun e he => ?_) fun e hnone => nomatch hnone
    cases he
    cases thread with
    | outside =>
      obtain ⟨source, hsource, rfl⟩ := Option.map_eq_some_iff.1 hack
      exact hlawful.acknowledge source _ hsource
    | inside | elsewhere => cases hack

end Entered

/-- A call that is refused before its session, or gets none, has done nothing. -/
lemma allOrNothing_guarded_iff {accepted : Except MetaError Unit} {Breaks : Live answers → Prop}
    (h : ∀ live, thread.enter = .ok live → accepted = .ok () →
      (AllOrNothing thread (openSession work thread) ↔ ¬ Breaks live)) :
    AllOrNothing thread (match accepted with
      | .error error => (.error error, thread)
      | .ok () => openSession work thread) ↔
      ¬ ∃ live, thread.enter = .ok live ∧ accepted = .ok () ∧ Breaks live := by
  cases accepted with
  | error =>
    refine iff_of_true (.of_rows rfl) ?_
    rintro ⟨_, -, hok, -⟩
    cases hok
  | ok =>
    dsimp only
    cases henter : thread.enter with
    | error =>
      rw [openSession_of_refused henter]
      refine iff_of_true (.of_rows rfl) ?_
      rintro ⟨_, hok, -⟩
      cases hok
    | ok live =>
      rw [h live henter rfl]
      refine not_congr ⟨fun hbreaks => ⟨live, rfl, rfl, hbreaks⟩, ?_⟩
      rintro ⟨_, hlive, -, hbreaks⟩
      cases hlive
      exact hbreaks

variable [Pager] [Sha256]

/-- A call breaks off without a trace exactly if no durability barrier masks the answer of its write. -/
lemma Call.run_allOrNothing_iff (hlawful : answers.Lawful) (call : Call) (thread : Thread answers) :
    AllOrNothing thread (call.run shard thread) ↔ ¬ ∃ live, thread.enter = .ok live ∧
      call.accept shard = .ok () ∧ (∃ txn, live.Writes (call.planUnlocked shard) txn) ∧ thread.Masks live := by
  refine allOrNothing_guarded_iff fun live henter _ => ?_
  have hattempted := attempted_attempt (call.planUnlocked shard) live
  rcases hexec : (runEntrypoint (call.planUnlocked shard) : Work answers Reply).exec live with ⟨result, live'⟩
  rw [hexec] at hattempted
  cases hattempted with
  | kept rows _ skipped =>
    refine iff_of_true (.of_rows ?_) ?_
    · rw [openSession_rows henter, hexec, ← rows_of_enter henter]
      exact rows
    · -- a write that reaches the store was refused there, not lost
      rintro ⟨⟨txn, hwrites⟩, _, _, hlost, -⟩
      obtain ⟨_, hrefused⟩ := skipped txn hwrites
      cases hrefused.symm.trans hlost
  | applied plan applies submitted =>
    refine iff_of_true ?_ ?_
    · refine (allOrNothing_of_applied henter hlawful (by rw [hexec]; rfl) ?_).2 fun e _ he => ?_
      · rw [hexec]
        exact planUnlocked_moves (Live.runAt_of_found plan) applies
      · rw [hexec] at he
        cases he
    · rintro ⟨-, _, _, hlost, -⟩
      cases submitted.symm.trans hlost
  | lost plan applies submitted =>
    refine (allOrNothing_of_lost henter hlawful submitted (by rw [hexec]; rfl) (by rw [hexec]) ?_).trans
      (not_congr ⟨fun hmasks => ⟨⟨_, ⟨_, _, _, plan⟩, applies⟩, hmasks⟩, And.right⟩)
    rw [hexec]
    exact planUnlocked_moves (Live.runAt_of_found plan) applies

omit [Pager] in
lemma admitRecord_eq_ok {record : RecoveryOutboxRecord} (h : admitRecord shard record = .ok ()) :
    record.verify = .ok () := by
  obtain ⟨_, hverify, -⟩ := bind_eq_ok.1 h
  exact mapError_eq_ok.1 hverify

lemma runRecord_cases (record : RecoveryOutboxRecord) (thread : Thread answers) :
    (runRecord shard record thread).2.rows = thread.rows ∨
      ∃ txn, Rewrites shard thread.rows record txn ∧
        (runRecord shard record thread).2.rows = thread.rows.writeAll txn.mutations := by
  unfold runRecord
  cases admitRecord shard record with
  | error => exact .inl rfl
  | ok =>
    cases henter : thread.enter with
    | error =>
      dsimp only
      rw [openSession_of_refused henter]
      exact .inl rfl
    | ok live =>
      dsimp only
      rw [openSession_rows henter, ← rows_of_enter henter]
      have hreplayed : Replayed shard record live _ := replayed_replayUnlocked live
      revert hreplayed
      generalize (replayRecoveryRecordUnlocked shard record : Work answers RecoveryState).exec live = out
      intro hreplayed
      cases hreplayed with
      | kept rows => exact .inl rows
      | applied writes submitted rows pending answered | lost writes submitted rows pending =>
        exact .inr ⟨_, writes.rewrites, rows⟩

/-- The replay of a record breaks off without a trace exactly if no durability barrier masks the answer of
its write and the read behind the write does not fail. -/
lemma runRecord_allOrNothing_iff (hlawful : answers.Lawful) (record : RecoveryOutboxRecord)
    (thread : Thread answers) :
    AllOrNothing thread (runRecord shard record thread) ↔ ¬ ∃ live, thread.enter = .ok live ∧
      admitRecord shard record = .ok () ∧ (∃ txn, RecordWrites shard record live txn) ∧
        (thread.Masks live ∨ thread.FailsBehind live) := by
  refine allOrNothing_guarded_iff fun live henter hadmit => ?_
  have hverify := admitRecord_eq_ok hadmit
  have hmoves : ∀ txn, RecordWrites shard record live txn → live.rows.writeAll txn.mutations ≠ live.rows := by
    intro txn hwrites
    obtain ⟨_, _, _, hplan⟩ := hwrites.rewrites.plan
    exact planUnlocked_moves hplan hwrites.rewrites.applies
  have hreplayed : Replayed shard record live _ := replayed_replayUnlocked live
  rcases hexec : (replayRecoveryRecordUnlocked shard record : Work answers RecoveryState).exec live with
    ⟨result, live'⟩
  rw [hexec] at hreplayed
  cases hreplayed with
  | kept rows _ _ skipped =>
    refine iff_of_true (.of_rows ?_) ?_
    · rw [openSession_rows henter, hexec, ← rows_of_enter henter]
      exact rows
    · -- a write that reaches the store was refused there: neither lost nor answered
      rintro ⟨⟨txn, hwrites⟩, hbreaks⟩
      obtain ⟨_, hrefused⟩ := skipped hverify txn hwrites
      rcases hbreaks with ⟨_, _, hlost, -⟩ | ⟨hanswered, -⟩
      · cases hrefused.symm.trans hlost
      · cases hrefused.symm.trans hanswered
  | applied writes submitted rows pending answered =>
    refine (allOrNothing_of_applied henter hlawful (by rw [hexec]; exact pending) ?_).trans
      ⟨fun h => ?_, fun h e hack he => ?_⟩
    · rw [hexec, show Live.rows _ = _ from rows]
      exact hmoves _ writes
    · rintro ⟨-, ⟨_, _, hlost, -⟩ | ⟨-, hack, e, hfailed, hdefinite⟩⟩
      · cases submitted.symm.trans hlost
      · rw [h e hack (by rw [hexec, answered hverify, hfailed])] at hdefinite
        cases hdefinite
    · -- an acknowledged write of a verified record fails only by the read behind it
      by_contra hdefinite
      refine h ⟨⟨_, writes⟩, .inr ⟨submitted, hack, e, ?_, Bool.eq_false_iff.2 hdefinite⟩⟩
      rw [hexec, answered hverify] at he
      cases hfailed : answers.read (live.submits + 1) 0 with
      | none =>
        rw [hfailed] at he
        cases he
      | some =>
        rw [hfailed] at he
        cases he
        rfl
  | lost writes submitted rows pending =>
    refine (allOrNothing_of_lost henter hlawful submitted (by rw [hexec]; exact pending) (by rw [hexec])
      ?_).trans (not_congr ⟨fun hmasks => ⟨⟨_, writes⟩, .inl hmasks⟩, ?_⟩)
    · rw [hexec, show Live.rows _ = _ from rows]
      exact hmoves _ writes
    · rintro ⟨-, hmasks | ⟨hanswered, -⟩⟩
      · exact hmasks
      · cases submitted.symm.trans hanswered

/-- Wherever the replay of a segment ends, a first part of its records is written. -/
lemma runSegment_replays (segment : RecoveryOutboxSegment) (thread : Thread answers) :
    (runSegment shard segment thread).2.rows = thread.rows ∨
      ∃ before done, recoveryStateUnlocked.runAt thread.rows = .ok before ∧ done <+: segment.records ∧
        Replays shard before thread.rows done (runSegment shard segment thread).2.rows := by
  unfold runSegment
  cases admitSegment shard segment with
  | error => exact .inl rfl
  | ok =>
    cases henter : thread.enter with
    | error =>
      dsimp only
      rw [openSession_of_refused henter]
      exact .inl rfl
    | ok live =>
      dsimp only
      rw [openSession_rows henter, ← rows_of_enter henter]
      unfold replayRecoverySegmentUnlocked
      obtain ⟨e, n, -, heq⟩ | ⟨before, n, hfound, heq⟩ := Live.bind_observe recoveryStateUnlocked _ live
      · rw [show _ = _ from heq]
        exact .inl rfl
      rw [show _ = _ from heq]
      obtain ⟨e, n, -, heq⟩ | ⟨_, n, -, heq⟩ :=
        Live.bind_observe (checkJoins before segment) _ { live with reads := n }
      · rw [show _ = _ from heq]
        exact .inl rfl
      rw [show _ = _ from heq, rows_bind_of_reads fun _ => reads_observe _]
      obtain ⟨done, hdone, hreplays⟩ := replayMissing_replays segment.records { live with reads := n }
      exact .inr ⟨before, done, Live.runAt_of_found (by rw [hfound]), hdone, hreplays⟩

/-- What the failed calls of a shard leave behind, on a store that answers as `answers`, wherever the
thread of the call stands. -/
structure FailedCalls (shard : LogicalShardId) (answers : Answers) : Prop where
  call : ∀ (call : Call) (thread : Thread answers), AllOrNothing thread (call.run shard thread) ↔
    ¬ ∃ live, thread.enter = .ok live ∧ call.accept shard = .ok () ∧
      (∃ txn, live.Writes (call.planUnlocked shard) txn) ∧ thread.Masks live
  /-- A call inside a session of its shard waits for nothing. -/
  nested : ∀ (call : Call) (live : Live answers),
    AllOrNothing (.inside live) (call.run shard (.inside live))
  record : ∀ (record : RecoveryOutboxRecord) (thread : Thread answers),
    AllOrNothing thread (runRecord shard record thread) ↔
      ¬ ∃ live, thread.enter = .ok live ∧ admitRecord shard record = .ok () ∧
        (∃ txn, RecordWrites shard record live txn) ∧ (thread.Masks live ∨ thread.FailsBehind live)
  record_cases : ∀ (record : RecoveryOutboxRecord) (thread : Thread answers),
    (runRecord shard record thread).2.rows = thread.rows ∨
      ∃ txn, Rewrites shard thread.rows record txn ∧
        (runRecord shard record thread).2.rows = thread.rows.writeAll txn.mutations
  segment : ∀ (segment : RecoveryOutboxSegment) (thread : Thread answers),
    (runSegment shard segment thread).2.rows = thread.rows ∨
      ∃ before done, recoveryStateUnlocked.runAt thread.rows = .ok before ∧ done <+: segment.records ∧
        Replays shard before thread.rows done (runSegment shard segment thread).2.rows

/-- **All or nothing.** Within the contract of the store, a command, an observation of the lease clock, an
advance of the owner epoch or the replay of a record that fails with a definite error wrote nothing,
exactly if the durability barrier of its session does not mask a submission of its own that applied and,
for a record, the read behind its write does not fail. A segment always leaves a first part of its
records. -/
theorem all_or_nothing (shard : LogicalShardId) {answers : Answers} (hlawful : answers.Lawful) :
    FailedCalls shard answers where
  call := Call.run_allOrNothing_iff hlawful
  nested call _ := by
    refine (Call.run_allOrNothing_iff hlawful call _).2 ?_
    rintro ⟨_, -, -, -, _, _, -, hwait, -⟩
    cases hwait
  record := runRecord_allOrNothing_iff hlawful
  record_cases := runRecord_cases
  segment := runSegment_replays

end AllOrNothing

/-- A store that applies the submission, is poisoned by the way it ends, and then refuses the
durability barrier as it refuses every other use. -/
def poisonedAnswers : Answers where
  read _ _ := none
  submit _ := some (.outcomeUnknown .poisoned "commit outcome is unknown", true)
  acknowledge := none
  barrier := some (.unavailable "HoltStore is poisoned and must be reopened: commit outcome is unknown")

lemma poisonedAnswers_lawful : poisonedAnswers.Lawful where
  submit := by
    intro n error operation h
    cases h
    rfl
  acknowledge := fun _ _ h => nomatch h

/-- The advance of a fresh shard to its first owner. -/
def firstAdvance : Call := .advanceOwnerEpoch none (sampleVersion 0)

/-- On the store that masks, the advance inside of an open session answers that its outcome is unknown. -/
theorem all_or_nothing_answering :
    @FailedCalls memoryPager sha256Digest (sampleId 2) poisonedAnswers ∧
    (@Call.run memoryPager sha256Digest poisonedAnswers (sampleId 2) firstAdvance
      (.inside ⟨@initialized sha256Digest (sampleId 2), 0, 0, false⟩)).1 =
      .error (.store "advance owner epoch" (.outcomeUnknown .poisoned "commit outcome is unknown")) :=
  ⟨@all_or_nothing memoryPager sha256Digest (sampleId 2) _ poisonedAnswers_lawful, by decide +kernel⟩

/-- Outside of a session it applies and is answered with a definite error. -/
theorem masked_advance : poisonedAnswers.Lawful ∧
    (@Call.run memoryPager sha256Digest poisonedAnswers (sampleId 2) firstAdvance
      (.outside (@initialized sha256Digest (sampleId 2)))).1 =
      .error (.store "write session durability barrier"
        (.unavailable "HoltStore is poisoned and must be reopened: commit outcome is unknown")) ∧
    (@initialized sha256Digest (sampleId 2)).get (systemKey SYSTEM_OWNER_FENCE_KEY) =
      some (encodeSystemU64 0) ∧
    (@Call.run memoryPager sha256Digest poisonedAnswers (sampleId 2) firstAdvance
      (.outside (@initialized sha256Digest (sampleId 2)))).2.rows.get
      (systemKey SYSTEM_OWNER_FENCE_KEY) = some (encodeSystemU64 1) :=
  ⟨poisonedAnswers_lawful, by decide +kernel, by decide +kernel, by decide +kernel⟩

end NoKV.Meta
