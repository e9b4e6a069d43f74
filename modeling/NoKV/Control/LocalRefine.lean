import NoKV.Control.Frontier
import NoKV.Control.LocalSession

/-!
# The local control store refines the in-memory one

A call of the local store is answered as the in-memory store answers it at one moment of the call:
`Answered` says which moments of the journal justify an answer, `Pending` what a renewal knows between
its two reads. `local_refines_memory` is the refinement over every run of the host.
-/

namespace NoKV.Control

open Lib RecordError List

/-! ### Answers -/

/-- The error of a renewal whose two reads disagree. -/
def changedOutside : CallError :=
  .backend "the durable logical shard record changed outside its owner session"

/-- The answer of a call that began at length `start` of the journal. A number `k` between `start` and
the length of the journal is a moment of the call: the in-memory store then stood at
`replay (journal.take k)`. -/
inductive Answered (journal : List Event) (durable : ℕ) (t : Tid) (start : ℕ) :
    Call → Except CallError Value → Bool → Bool → Prop where
  /-- A transition took effect: the journal has it, once, and what it wrote is durable. -/
  | mutated {m : Mutation} {value : Value} {late foreign : Bool} (k : ℕ) (hstart : start ≤ k)
      (hevent : journal[k]? = some (.mutated t m))
      (hvalue : ((replay (journal.take k)).mutate m).1 = .ok value)
      (hdurable : k < durable ∨ (replay (journal.take (k + 1))).records = (replay (journal.take k)).records) :
      Answered journal durable t start (.mutate m) (.ok value) late foreign
  | refused {m : Mutation} {error : CallError} {late foreign : Bool} (k : ℕ) (hstart : start ≤ k)
      (hnow : k ≤ journal.length) (herror : ((replay (journal.take k)).mutate m).1 = .error error) :
      Answered journal durable t start (.mutate m) (.error error) late foreign
  /-- The session of the lease is another process's. -/
  | unauthorized {m : Mutation} {lease : LogicalShardLease} {late : Bool} (k : ℕ) (hstart : start ≤ k)
      (hnow : k ≤ journal.length) (hshard : m.shard = some lease.logicalShardId)
      (hlive : (replay (journal.take k)).sessions.get lease.logicalShardId = some lease) :
      Answered journal durable t start (.mutate m) (.error (.control (.staleLease lease))) late true
  | queried {q : Query} {late foreign : Bool} (k : ℕ) (hstart : start ≤ k) (hnow : k ≤ journal.length) :
      Answered journal durable t start (.query q) (.ok ((replay (journal.take k)).records.query q)) late foreign
  | proved {lease : LogicalShardLease} {value : Value} {foreign : Bool} (k : ℕ) (hstart : start ≤ k)
      (hnow : k ≤ journal.length) (hvalue : (replay (journal.take k)).renew lease = .ok value) :
      Answered journal durable t start (.proveOwner lease) (.ok value) false foreign
  /-- The proof overtakes a transition of its own process that has not completed. -/
  | provedLate {lease : LogicalShardLease} {value : Value} {foreign : Bool} {t' : Tid} {m : Mutation} (k : ℕ)
      (hevent : journal[k]? = some (.mutated t' m)) (hshard : m.shard = some lease.logicalShardId)
      (hvalue : (replay (journal.take k)).renew lease = .ok value) :
      Answered journal durable t start (.proveOwner lease) (.ok value) true foreign
  | renewed {lease : LogicalShardLease} {value : Value} {late foreign : Bool} (k : ℕ) (hstart : start ≤ k)
      (hnow : k ≤ journal.length) (hvalue : (replay (journal.take k)).renew lease = .ok value) :
      Answered journal durable t start (.renewOwner lease) (.ok value) late foreign
  /-- The process holds no such session. -/
  | stale {call : Call} {lease : LogicalShardLease} {late foreign : Bool} (k : ℕ)
      (hcall : call = .proveOwner lease ∨ call = .renewOwner lease) (hstart : start ≤ k)
      (hnow : k ≤ journal.length)
      (herror : (∃ error, (replay (journal.take k)).renew lease = .error error) ∨ foreign = true ∨ late = true) :
      Answered journal durable t start call (.error (.control (.staleLease lease))) late foreign
  | renewRefused {lease : LogicalShardLease} {error : CallError} {late foreign : Bool} (k : ℕ)
      (hstart : start ≤ k) (hnow : k ≤ journal.length)
      (herror : (replay (journal.take k)).renew lease = .error error) :
      Answered journal durable t start (.renewOwner lease) (.error error) late foreign
  /-- The record changed while the renewal ran. -/
  | renewRaced {lease : LogicalShardLease} {late foreign : Bool}
      (hraced : late = true ∨ ∃ j k, start ≤ j ∧ j ≤ k ∧ k ≤ journal.length ∧
        (replay (journal.take j)).records.logicalShards.get lease.logicalShardId ≠
          (replay (journal.take k)).records.logicalShards.get lease.logicalShardId) :
      Answered journal durable t start (.renewOwner lease) (.error changedOutside) late foreign

section Answered

variable {journal : List Event} {durable durable' : ℕ} {t : Tid} {start : ℕ} {call : Call}
  {answer : Except CallError Value} {late foreign : Bool}

lemma take_append_moment (more : List Event) {k : ℕ} (h : k ≤ journal.length) :
    (journal ++ more).take k = journal.take k :=
  take_append_of_le_length h

/-- An answer stays justified while the journal grows. -/
lemma Answered.append (h : Answered journal durable t start call answer late foreign) (more : List Event)
    (hdurable : durable ≤ durable') : Answered (journal ++ more) durable' t start call answer late foreign := by
  have hgrow : ∀ {k : ℕ}, k ≤ journal.length → k ≤ (journal ++ more).length := fun hk => by
    rw [length_append]
    omega
  -- a moment of the journal stays what it was when the journal grows
  have hmoment : ∀ {k : ℕ}, k ≤ journal.length → replay ((journal ++ more).take k) = replay (journal.take k) :=
    fun hk => by rw [take_append_moment more hk]
  cases h with
  | mutated k hstart hevent hvalue hkept =>
    obtain ⟨hlt, -⟩ := List.getElem?_eq_some_iff.1 hevent
    refine .mutated k hstart (by rw [getElem?_append_left hlt, hevent]) ?_ ?_
    · rw [hmoment hlt.le]
      exact hvalue
    · rw [hmoment hlt.le, hmoment hlt]
      exact hkept.imp (fun hk => hk.trans_le hdurable) id
  | refused k hstart hnow herror => exact .refused k hstart (hgrow hnow) (by rw [hmoment hnow]; exact herror)
  | unauthorized k hstart hnow hshard hlive =>
    exact .unauthorized k hstart (hgrow hnow) hshard (by rw [hmoment hnow]; exact hlive)
  | queried k hstart hnow =>
    rw [← hmoment hnow]
    exact .queried k hstart (hgrow hnow)
  | proved k hstart hnow hvalue => exact .proved k hstart (hgrow hnow) (by rw [hmoment hnow]; exact hvalue)
  | provedLate k hevent hshard hvalue =>
    obtain ⟨hlt, -⟩ := List.getElem?_eq_some_iff.1 hevent
    refine .provedLate k (by rw [getElem?_append_left hlt, hevent]) hshard ?_
    rw [hmoment hlt.le]
    exact hvalue
  | renewed k hstart hnow hvalue => exact .renewed k hstart (hgrow hnow) (by rw [hmoment hnow]; exact hvalue)
  | stale k hcall hstart hnow herror =>
    exact .stale k hcall hstart (hgrow hnow) (by rw [hmoment hnow]; exact herror)
  | renewRefused k hstart hnow herror =>
    exact .renewRefused k hstart (hgrow hnow) (by rw [hmoment hnow]; exact herror)
  | renewRaced hraced =>
    refine .renewRaced (hraced.imp id ?_)
    -- two moments at which the record of the shard differs
    rintro ⟨j, k, hstart, hjk, hnow, hne⟩
    refine ⟨j, k, hstart, hjk, hgrow hnow, ?_⟩
    rw [hmoment hnow, hmoment (hjk.trans hnow)]
    exact hne

end Answered

/-! ### Renewals between their two reads -/

/-- The lease is dead and its shard does not have the record. -/
structure Gone (memory : Memory) (lease : LogicalShardLease) (record : LogicalShardRecord) : Prop where
  dead : Dead memory.state lease
  record : memory.records.logicalShards.get lease.logicalShardId ≠ some record

/-- A renewal that read `record` in the session table. -/
structure Pending (journal : List Event) (start : ℕ) (lease : LogicalShardLease) (record : LogicalShardRecord)
    (late : Bool) : Prop where
  names : Names record lease
  nonzero : lease.leaseId ≠ 0
  seen : late = false → ∃ k, start ≤ k ∧ k ≤ journal.length ∧
    (replay (journal.take k)).renew lease = .ok (.record record)
  state : (∃ k, start ≤ k ∧ k ≤ journal.length ∧ (replay (journal.take k)).renew lease = .ok (.record record)) ∨
    (replay journal).sessions.get lease.logicalShardId = some lease ∨ Gone (replay journal) lease record

lemma Names.unique {record : LogicalShardRecord} {a b : LogicalShardLease} (ha : Names record a)
    (hb : Names record b) : a = b := by
  obtain ⟨shardA, ownerA, epochA, idA⟩ := a
  obtain ⟨shardB, ownerB, epochB, idB⟩ := b
  obtain rfl : shardA = shardB := ha.logicalShardId.symm.trans hb.logicalShardId
  obtain rfl : ownerA = ownerB := Option.some.inj (ha.owner.symm.trans hb.owner)
  obtain rfl : epochA = epochB := Option.some.inj (ha.ownerEpoch.symm.trans hb.ownerEpoch)
  obtain rfl : idA = idB := ha.leaseId.symm.trans hb.leaseId
  rfl

/-- Without a live session the record under a lease does not come back. -/
lemma record_ne_effect {state next : State} {op : Op} {answer : Answer} {lease : LogicalShardLease}
    {record : LogicalShardRecord} (heffect : Effect state op answer next) (hnames : Names record lease)
    (hnonzero : lease.leaseId ≠ 0) (hissued : lease.leaseId.toNat ≤ state.nextLeaseId.toNat)
    (hsession : next.ownerSessions.get lease.logicalShardId ≠ some lease)
    (hne : state.logicalShards.get lease.logicalShardId ≠ some record) :
    next.logicalShards.get lease.logicalShardId ≠ some record := by
  -- a record of another shard does not matter
  have hput : ∀ (s : LogicalShardId) (stored : LogicalShardRecord),
      (s = lease.logicalShardId → stored ≠ record) →
      (state.logicalShards.insert s stored).get lease.logicalShardId ≠ some record := by
    intro s stored hstored
    rw [OrdMap.get_insert]
    split
    next heq => exact fun h => hstored heq.symm (Option.some.inj h)
    next => exact hne
  have hzero : ∀ stored : LogicalShardRecord, stored.leaseId = 0 → stored ≠ record := by
    rintro stored hstored rfl
    exact hnonzero (hnames.leaseId.symm.trans hstored)
  cases heffect with
  | keep _ hrecords =>
    rw [hrecords]
    exact hne
  | create _ => exact hput _ _ fun _ => hzero _ rfl
  | @replace _ _ _ _ hproved hstep =>
    refine hput _ _ fun hs heq => hsession ?_
    -- the owner of the new record is the one that was proved, and it has the session
    obtain ⟨-, howner, hlive⟩ := provedRecord_eq_ok.1 hproved
    have hnext := hstep.names howner
    rw [heq] at hnext
    obtain rfl := hnext.unique hnames
    exact hlive
  | release _ hnext _ => exact hput _ _ fun _ => hzero _ (by rw [hnext])
  | @acquire _ granted _ _ _ _ hid hinstalled _ =>
    refine hput _ _ fun _ heq => ?_
    -- a lease that is granted now has a larger id than every lease before
    have hlease : granted.leaseId = lease.leaseId := by
      rw [← hinstalled.leaseId, heq]
      exact hnames.leaseId
    rw [hlease] at hid
    omega

/-- One event of the journal, as a step of the owner's state. -/
lemma Memory.apply_effect (memory : Memory) (event : Event) (s : LogicalShardId) :
    ∃ op answer, Effect memory.state op answer (memory.apply event).state := by
  cases event with
  | sessionLost lost => exact ⟨.sessionLoss lost, .lost, step_effect memory.state (.sessionLoss lost)⟩
  | mutated t m =>
    rcases memory.mutate_state m with heq | ⟨op, _, rfl⟩
    · refine ⟨.sessionLoss s, .lost, ?_⟩
      show Effect memory.state _ _ (memory.mutate m).2.state
      rw [heq]
      exact .keep nofun rfl le_rfl fun _ _ h => h
    · exact ⟨op, _, step_effect memory.state op⟩

lemma nextLeaseId_le_replay (journal more : List Event) (s : LogicalShardId) :
    (replay journal).records.nextLeaseId.toNat ≤ (replay (journal ++ more)).records.nextLeaseId.toNat := by
  induction more using reverseRecOn with
  | nil => rw [append_nil]
  | append_singleton more event ih =>
    obtain ⟨_, _, heffect⟩ := (replay (journal ++ more)).apply_effect event s
    rw [← append_assoc, replay_concat]
    exact ih.trans heffect.nextLeaseId_le

section Pending

variable {journal : List Event} {start : ℕ} {lease : LogicalShardLease} {record : LogicalShardRecord}
  {late : Bool}

variable (h : Pending journal start lease record late) (hstart : start ≤ journal.length)
include h hstart

lemma Pending.concat (event : Event) : Pending (journal ++ [event]) start lease record late := by
  have hmoment : ∀ {k : ℕ}, start ≤ k ∧ k ≤ journal.length ∧
      (replay (journal.take k)).renew lease = .ok (.record record) →
      start ≤ k ∧ k ≤ (journal ++ [event]).length ∧
        (replay ((journal ++ [event]).take k)).renew lease = .ok (.record record) := by
    rintro k ⟨hk, hnow, hvalue⟩
    refine ⟨hk, hnow.trans (by simp), ?_⟩
    rw [take_append_moment _ hnow]
    exact hvalue
  refine ⟨h.names, h.nonzero, fun hlate => ?_, ?_⟩
  · obtain ⟨k, hk⟩ := h.seen hlate
    exact ⟨k, hmoment hk⟩
  obtain ⟨_, _, heffect⟩ := (replay journal).apply_effect event lease.logicalShardId
  rw [← replay_concat] at heffect
  by_cases hlive : (replay (journal ++ [event])).sessions.get lease.logicalShardId = some lease
  · exact .inr (.inl hlive)
  rcases h.state with ⟨k, hk⟩ | hbefore | hgone
  · exact .inl ⟨k, hmoment hk⟩
  · -- the session ends here: its record was the one read, or it is not coming back
    by_cases hrecord : (replay journal).records.logicalShards.get lease.logicalShardId = some record
    · refine .inl ⟨journal.length, hmoment ⟨hstart, le_rfl, ?_⟩⟩
      rw [take_length]
      exact Memory.renew_eq_ok.2 ⟨record, hrecord, h.names, hbefore, rfl⟩
    · have hissued := (replay_inv journal).owner.issued _ _ hbefore
      refine .inr (.inr ⟨⟨hlive, hissued.trans heffect.nextLeaseId_le⟩, ?_⟩)
      exact record_ne_effect heffect h.names h.nonzero hissued hlive hrecord
  · refine .inr (.inr ⟨hgone.dead.effect heffect, ?_⟩)
    exact record_ne_effect heffect h.names h.nonzero hgone.dead.issued hlive hgone.record

lemma Pending.append (more : List Event) : Pending (journal ++ more) start lease record late := by
  induction more using reverseRecOn with
  | nil => simpa using h
  | append_singleton _ event ih =>
    rw [← append_assoc]
    exact ih.concat (hstart.trans (by simp)) event

lemma Pending.renewed
    (hrecord : (replay journal).records.logicalShards.get lease.logicalShardId = some record) :
    ∃ k, start ≤ k ∧ k ≤ journal.length ∧ (replay (journal.take k)).renew lease = .ok (.record record) := by
  rcases h.state with hseen | hlive | hgone
  · exact hseen
  · refine ⟨journal.length, hstart, le_rfl, ?_⟩
    rw [take_length]
    exact Memory.renew_eq_ok.2 ⟨record, hrecord, h.names, hlive, rfl⟩
  · exact absurd hrecord hgone.record

end Pending

/-! ### The invariant of the calls -/

/-- The event is a transition of the call. -/
def Event.isOf (t : Tid) : Event → Bool
  | .mutated t' _ => t' = t
  | .sessionLost _ => false

/-- How many transitions the journal has of a call. -/
def Thread.effects (thread : Thread) (t : Tid) (journal : List Event) : ℕ :=
  (journal.drop thread.start).countP (Event.isOf t)

/-- The call holds the store lock and has replaced the file. -/
def Host.inEffect (host : Host) (t : Tid) : Bool :=
  host.critical.any fun critical => critical.tid = t && critical.stage.isUnapplied

/-- How many it has to have: one for a transition that took effect, none for any other call. -/
def Host.expected (host : Host) (t : Tid) (thread : Thread) : ℕ :=
  match thread.call, thread.progress with
  | .mutate _, .begun => if host.inEffect t then 1 else 0
  | .mutate _, .finished (.ok _) _ _ => 1
  | _, _ => 0

def Host.ProgressInv (host : Host) (t : Tid) (thread : Thread) : Prop :=
  match thread.progress with
  | .begun => True
  | .held record late =>
    ∃ lease, thread.call = .renewOwner lease ∧ Pending host.journal thread.start lease record late
  | .finished answer late foreign =>
    Answered host.journal host.durable.events t thread.start thread.call answer late foreign

structure Host.ThreadInv (host : Host) (t : Tid) (thread : Thread) : Prop where
  start : thread.start ≤ host.journal.length
  effects : thread.effects t host.journal = host.expected t thread
  progress : host.ProgressInv t thread

/-- The transition of the store lock's holder lies within its call, and is durable once synced. -/
def Host.Reached (host : Host) (start : ℕ) : Stage → Prop
  | .locked => True
  | .planned _ => True
  | .renamed _ event => start ≤ event ∧ ∃ version, host.unsynced.getLast? = some version ∧ event < version.events
  | .synced _ event => start ≤ event ∧ event < host.durable.events

structure Host.CallOf (host : Host) (critical : Critical) (thread : Thread) : Prop where
  get : host.threads.get critical.tid = some thread
  pid : thread.pid = critical.pid
  call : thread.call = .mutate critical.mutation
  progress : thread.progress = .begun
  reached : host.Reached thread.start critical.stage

structure Host.Calls (host : Host) : Prop where
  thread : ∀ t thread, host.threads.get t = some thread → host.ThreadInv t thread
  critical : ∀ critical, host.critical = some critical → ∃ thread, host.CallOf critical thread

lemma calls_init : Host.init.Calls :=
  ⟨fun t thread h => by simp [Host.init] at h, fun c h => by cases h⟩

structure Host.Inv (host : Host) : Prop where
  disk : host.Disk
  sessions : host.bare.Sessions
  calls : host.Calls

section Calls

variable {host next : Host} {t : Tid} {thread : Thread} {pid : Pid} {m : Mutation} {plan : Plan}
  {table : SessionTable}

lemma effects_append (thread : Thread) (t : Tid) {journal : List Event} (more : List Event)
    (hstart : thread.start ≤ journal.length) :
    thread.effects t (journal ++ more) = thread.effects t journal + more.countP (Event.isOf t) := by
  unfold Thread.effects
  rw [drop_append_of_le_length hstart, countP_append]

lemma countP_lost (t : Tid) (shards : List LogicalShardId) :
    (shards.map Event.sessionLost).countP (Event.isOf t) = 0 := by
  rw [countP_eq_zero]
  intro event hevent
  obtain ⟨_, -, rfl⟩ := mem_map.1 hevent
  exact nofun

lemma expected_congr (h : next.inEffect t = host.inEffect t) :
    next.expected t thread = host.expected t thread := by
  unfold Host.expected
  rw [h]

variable {more : List Event} {lease : LogicalShardLease} {critical : Critical} {session : OwnerSession}

/-- A call that did not step while the host moved on. -/
lemma Host.ThreadInv.grow (h : host.ThreadInv t thread) (hjournal : next.journal = host.journal ++ more)
    (hmore : more.countP (Event.isOf t) = 0) (hdurable : host.durable.events ≤ next.durable.events)
    (heffect : next.inEffect t = host.inEffect t) : next.ThreadInv t thread := by
  refine ⟨?_, ?_, ?_⟩
  · rw [hjournal, length_append]
    exact h.start.trans (Nat.le_add_right ..)
  · rw [hjournal, effects_append thread t more h.start, hmore, expected_congr heffect]
    exact h.effects
  · have hprogress := h.progress
    unfold Host.ProgressInv at hprogress ⊢
    rw [hjournal]
    split at hprogress
    · trivial
    · obtain ⟨lease, hcall, hpending⟩ := hprogress
      exact ⟨lease, hcall, hpending.append h.start more⟩
    · exact hprogress.append more hdurable

lemma Host.ThreadInv.same (h : host.ThreadInv t thread) (hjournal : next.journal = host.journal)
    (hdurable : next.durable = host.durable) (hcritical : next.critical = host.critical) :
    next.ThreadInv t thread :=
  h.grow (hjournal.trans (append_nil _).symm) rfl (by rw [hdurable]) (by unfold Host.inEffect; rw [hcritical])

lemma Host.CallOf.same (h : host.CallOf critical thread) (hget : next.threads.get critical.tid = some thread)
    (hunsynced : next.unsynced = host.unsynced) (hdurable : next.durable = host.durable) :
    next.CallOf critical thread := by
  refine ⟨hget, h.pid, h.call, h.progress, ?_⟩
  have hreached := h.reached
  unfold Host.Reached at hreached ⊢
  rw [hunsynced, hdurable]
  exact hreached

lemma Host.Sessions.heldRecord (h : host.Sessions) (htable : host.processes.get pid = some table)
    (lease : LogicalShardLease) :
    (∃ session, host.entry pid lease.logicalShardId = some session ∧ session.lease = lease ∧
      heldRecord table lease = .ok session.record) ∨
    (heldRecord table lease = .error (.control (.staleLease lease)) ∧
      (host.entry pid lease.logicalShardId).map OwnerSession.lease ≠ some lease) := by
  have hentry : host.entry pid lease.logicalShardId = table.get lease.logicalShardId := by
    unfold Host.entry
    rw [htable]
    rfl
  rw [hentry]
  unfold Control.heldRecord
  cases hsession : table.get lease.logicalShardId with
  | none => exact .inr ⟨rfl, nofun⟩
  | some session =>
    by_cases hlease : session.lease = lease
    · left
      have hnames := (h.entry pid _ session (hentry.trans hsession)).names
      rw [hlease] at hnames
      refine ⟨session, rfl, hlease, ?_⟩
      have hvalid : validateRecordLease session.record lease = .ok () := validateRecordLease_eq_ok.2 hnames
      simp only [Option.filter, hlease, decide_true, if_true, okOr, pure_bind]
      rw [hvalid]
      rfl
    · right
      refine ⟨?_, fun heq => hlease (Option.some.inj heq)⟩
      simp only [Option.filter, hlease, decide_false]
      rfl

/-- A late transition on the shard stands in the journal, with the table as it was before it. -/
lemma Host.Sessions.late (h : host.Sessions) {s : LogicalShardId} (hlate : host.Late pid s) :
    ∃ t m plan event, m.shard = some s ∧ host.Unapplied t pid m plan event := by
  obtain ⟨critical, hcritical, rfl, hs, hunapplied⟩ := hlate
  obtain ⟨-, hstage⟩ := h.critical critical hcritical
  unfold Host.StageInv at hstage
  split at hstage
  next hlocked =>
    rw [hlocked] at hunapplied
    cases hunapplied
  next hplanned =>
    rw [hplanned] at hunapplied
    cases hunapplied
  next => exact ⟨_, _, _, _, hs, hstage⟩
  next => exact ⟨_, _, _, _, hs, hstage⟩

/-- The held record of a table that is not late is the in-memory answer. -/
lemma Host.Sessions.renew (h : host.Sessions) (hentry : host.entry pid lease.logicalShardId = some session)
    (hlease : session.lease = lease) (hfresh : ¬ host.Late pid lease.logicalShardId) :
    host.memory.renew lease = .ok (.record session.record) := by
  obtain ⟨-, -, hnames, hlive, hrecord⟩ := h.entry pid _ session hentry
  rw [hlease] at hnames hlive
  exact Memory.renew_eq_ok.2 ⟨session.record, hrecord hfresh, hnames, hlive hfresh, rfl⟩

/-- A lease the process does not hold is refused in memory too, unless somebody else holds it. -/
lemma Host.Sessions.stale (h : host.Sessions)
    (hentry : (host.entry pid lease.logicalShardId).map OwnerSession.lease ≠ some lease) :
    (∃ error, host.memory.renew lease = .error error) ∨
      host.isForeign pid (some lease.logicalShardId) = true ∨
      host.isLate pid (some lease.logicalShardId) = true := by
  cases hresult : host.memory.renew lease with
  | error error => exact .inl ⟨error, rfl⟩
  | ok =>
    right
    obtain ⟨_, -, -, hlive, -⟩ := Memory.renew_eq_ok.1 hresult
    obtain ⟨holder, hlock, hcase⟩ := h.session _ lease hlive
    by_cases hholder : holder = pid
    · subst hholder
      exact .inr (isLate_iff.2 (hcase.resolve_left hentry))
    · left
      simp [Host.isForeign, hlock, hholder]

lemma memory_now (host : Host) : replay (host.journal.take host.journal.length) = host.memory := by
  rw [take_length]
  rfl

section

variable (h : host.Inv) (hthread : host.threads.get t = some thread)
include h hthread

/-- A call other than the holder of the store lock steps: its progress changes, nothing else. -/
lemma Host.Inv.progress (hcall : ∀ m, thread.call ≠ .mutate m) {progress : CallProgress}
    (hprogress : host.ProgressInv t { thread with progress := progress }) :
    (host.progress t thread progress).Inv := by
  have hinv := h.calls.thread t thread hthread
  have hexpected : ∀ (host : Host) (progress : CallProgress), host.expected t { thread with progress := progress } = 0 := by
    intro host progress
    cases hthreadCall : thread.call with
    | mutate m => exact absurd hthreadCall (hcall m)
    | query => rfl
    | renewOwner => rfl
    | proveOwner => rfl
  refine ⟨h.disk.same rfl rfl rfl rfl, h.sessions, fun t' thread' hget => ?_, fun c hc => ?_⟩
  · rcases OrdMap.get_insert_cases hget with ⟨rfl, rfl⟩ | ⟨-, hget⟩
    · refine ⟨hinv.start, ?_, hprogress⟩
      rw [hexpected]
      exact hinv.effects.trans (hexpected host thread.progress)
    · exact (h.calls.thread t' thread' hget).same rfl rfl rfl
  · obtain ⟨holder, hholder⟩ := h.calls.critical c hc
    have hne : c.tid ≠ t := by
      rintro rfl
      cases hthread.symm.trans hholder.get
      exact hcall _ hholder.call
    exact ⟨holder, hholder.same (by simp [Host.progress, OrdMap.get_insert_of_ne _ hne, hholder.get]) rfl rfl⟩

lemma Host.Inv.query {q : Query} (hcall : thread.call = .query q) :
    (host.finish t thread ((fun records => records.query q) <$> readState host.file)).Inv := by
  refine h.progress hthread (fun m heq => nomatch hcall.symm.trans heq) ?_
  have hread : readState host.file = .ok host.memory.records := (replay_inv host.journal).readState h.disk.file
  unfold Host.ProgressInv
  rw [hread, hcall, ← memory_now host]
  exact .queried _ (h.calls.thread t thread hthread).start le_rfl

lemma Host.Inv.prove (hcall : thread.call = .proveOwner lease)
    (htable : host.processes.get thread.pid = some table) :
    (host.finish t thread (Value.record <$> heldRecord table lease)).Inv := by
  refine h.progress hthread (fun m heq => nomatch hcall.symm.trans heq) ?_
  have hstart := (h.calls.thread t thread hthread).start
  have hsessions := h.sessions
  unfold Host.ProgressInv
  rw [hcall]
  obtain ⟨session, hentry, hlease, hheld⟩ | ⟨hheld, hentry⟩ := hsessions.heldRecord htable lease
  · rw [hheld]
    cases hlate : host.isLate thread.pid (some lease.logicalShardId) with
    | false =>
      have hfresh : ¬ host.bare.Late thread.pid lease.logicalShardId := fun hl =>
        absurd (isLate_iff.2 hl) (by show ¬ host.isLate _ _ = true; rw [hlate]; exact nofun)
      show Answered _ _ _ _ _ _ (host.isLate thread.pid (some lease.logicalShardId)) _
      rw [hlate]
      refine .proved _ hstart le_rfl ?_
      rw [memory_now]
      exact hsessions.renew hentry hlease hfresh
    | true =>
      obtain ⟨_, m, _, event, hs, hunapplied⟩ := hsessions.late (isLate_iff.1 hlate)
      show Answered _ _ _ _ _ _ (host.isLate thread.pid (some lease.logicalShardId)) _
      rw [hlate]
      refine .provedLate event hunapplied.logged hs ?_
      have hbefore := hunapplied.before _ session hs hentry
      rw [hlease] at hbefore
      exact hbefore
  · rw [hheld]
    refine .stale _ (.inl rfl) hstart le_rfl ?_
    rw [memory_now]
    exact hsessions.stale hentry

end

lemma Host.Sessions.pending (h : host.Sessions) {start : ℕ} (hstart : start ≤ host.journal.length)
    (hentry : host.entry pid lease.logicalShardId = some session) (hlease : session.lease = lease) :
    Pending host.journal start lease session.record (host.isLate pid (some lease.logicalShardId)) := by
  have hinv : host.memory.Inv := replay_inv _
  have hnames := (h.entry pid _ session hentry).names
  rw [hlease] at hnames
  have hnow : ¬ host.Late pid lease.logicalShardId → ∃ k, start ≤ k ∧ k ≤ host.journal.length ∧
      (replay (host.journal.take k)).renew lease = .ok (.record session.record) := by
    intro hfresh
    refine ⟨host.journal.length, hstart, le_rfl, ?_⟩
    rw [memory_now]
    exact h.renew hentry hlease hfresh
  have hnotlate : host.isLate pid (some lease.logicalShardId) = false → ¬ host.Late pid lease.logicalShardId := by
    intro hlate hl
    rw [isLate_iff.2 hl] at hlate
    cases hlate
  -- a late table shows the lease as it was before the transition under way
  by_cases hlate : host.Late pid lease.logicalShardId
  · obtain ⟨_, m, plan, event, hs, hunapplied⟩ := h.late hlate
    have hbefore := hunapplied.before _ session hs hentry
    rw [hlease] at hbefore
    obtain ⟨record, hrecord, hrecordNames, hlive, -⟩ := Memory.renew_eq_ok.1 hbefore
    have hpast := replay_inv (host.journal.take event)
    have hnonzero : lease.leaseId ≠ 0 := leaseId_ne_zero (hpast.owner.valid _ _ hrecord) hrecordNames
    refine ⟨hnames, hnonzero, fun hfalse => hnow (hnotlate hfalse), .inr ?_⟩
    cases hchange : plan.change with
    | unchanged =>
      -- the transition keeps the session, which is live still
      left
      refine (hunapplied.settles.unchanged _ hs hchange).trans ?_
      rw [hentry, ← hlease]
      rfl
    | began lease' =>
      cases hentry.symm.trans (hunapplied.settles.began _ lease' hs hchange).2.2
    | ended =>
      -- the record was released: it is not the one the table still has
      right
      have hended := (hunapplied.settles.ended _ hs hchange).1
      have hissued : lease.leaseId.toNat ≤ host.memory.records.nextLeaseId.toNat := by
        have hgrow := nextLeaseId_le_replay (host.journal.take event) (host.journal.drop event) lease.logicalShardId
        rw [take_append_drop] at hgrow
        exact (hpast.owner.issued _ _ hlive).trans hgrow
      refine ⟨⟨fun hget => ?_, hissued⟩, fun hget => hnonzero ?_⟩
      · cases hended.symm.trans hget
      · have hzero := hunapplied.released _ session.record hs hchange
          (by rw [← hunapplied.settles.records]; exact hget)
        exact hnames.leaseId.symm.trans hzero
  · have hrenew := h.renew hentry hlease hlate
    obtain ⟨_, hrecord, hrecordNames, -, -⟩ := Memory.renew_eq_ok.1 hrenew
    exact ⟨hnames, leaseId_ne_zero (hinv.owner.valid _ _ hrecord) hrecordNames, fun _ => hnow hlate,
      .inl (hnow hlate)⟩

section

variable (h : host.Inv) (hthread : host.threads.get t = some thread) (hcall : thread.call = .renewOwner lease)
include h hthread hcall

lemma Host.Inv.renewBegun (htable : host.processes.get thread.pid = some table) :
    (host.renew t thread lease table).Inv := by
  have hstart := (h.calls.thread t thread hthread).start
  have hsessions := h.sessions
  have hother : ∀ m, thread.call ≠ .mutate m := fun m heq => nomatch hcall.symm.trans heq
  unfold Host.renew
  obtain ⟨_, hentry, hlease, hheld⟩ | ⟨hheld, hentry⟩ := hsessions.heldRecord htable lease
  · rw [hheld]
    exact h.progress hthread hother ⟨lease, hcall, hsessions.pending hstart hentry hlease⟩
  · rw [hheld]
    refine h.progress hthread hother ?_
    unfold Host.ProgressInv
    rw [hcall]
    refine .stale _ (.inr rfl) hstart le_rfl ?_
    rw [memory_now]
    exact hsessions.stale hentry

lemma Host.Inv.renewHeld {record : LogicalShardRecord} {late : Bool}
    (hprogress : thread.progress = .held record late) :
    (host.progress t thread (.finished (renewedRecord host.file lease record) late false)).Inv := by
  refine h.progress hthread (fun m heq => nomatch hcall.symm.trans heq) ?_
  obtain ⟨hstart, -, hthreadProgress⟩ := h.calls.thread t thread hthread
  have hpending : Pending host.journal thread.start lease record late := by
    unfold Host.ProgressInv at hthreadProgress
    rw [hprogress] at hthreadProgress
    obtain ⟨_, hcall', hpending⟩ := hthreadProgress
    cases hcall.symm.trans hcall'
    exact hpending
  have hread : readState host.file = .ok host.memory.records := (replay_inv host.journal).readState h.disk.file
  have hrefused : ∀ error, host.memory.renew lease = .error error →
      Answered host.journal host.durable.events t thread.start (.renewOwner lease) (.error error) late false := by
    intro error herror
    refine .renewRefused _ hstart le_rfl ?_
    rw [memory_now]
    exact herror
  unfold Host.ProgressInv
  rw [hcall]
  unfold renewedRecord
  rw [hread, ok_bind]
  -- a missing or foreign record is refused as the in-memory store refuses it now
  cases hdurable : host.memory.records.logicalShards.get lease.logicalShardId with
  | none =>
    refine hrefused _ ?_
    unfold Memory.renew renewOwner provedRecord shardRecord Memory.state
    rw [hdurable]
    rfl
  | some durable =>
    simp only [okOr, pure_bind]
    cases hvalid : validateRecordLease durable lease with
    | error =>
      refine hrefused _ ?_
      unfold Memory.renew renewOwner provedRecord shardRecord Memory.state
      rw [hdurable]
      simp only [okOr, pure_bind]
      rw [hvalid]
      rfl
    | ok =>
      -- the same record was read twice, or a transition came between the reads
      by_cases hsame : durable = record
      · subst hsame
        obtain ⟨k, hk, hnow, hvalue⟩ := hpending.renewed hstart hdurable
        rw [refuseIf_of_not (not_not.2 rfl)]
        exact .renewed k hk hnow hvalue
      · rw [refuseIf_of hsame]
        refine .renewRaced ?_
        cases late with
        | true => exact .inl rfl
        | false =>
          right
          obtain ⟨k, hk, hnow, hvalue⟩ := hpending.seen rfl
          obtain ⟨_, hseen, -, -, heq⟩ := Memory.renew_eq_ok.1 hvalue
          cases heq
          refine ⟨k, host.journal.length, hk, hnow, le_rfl, ?_⟩
          rw [hseen, memory_now, hdurable]
          exact fun heq => hsame (Option.some.inj heq).symm

end

/-! ### Calls under the store lock -/

lemma inEffect_of (hcritical : host.critical = some critical) (t : Tid) :
    host.inEffect t = (decide (critical.tid = t) && critical.stage.isUnapplied) := by
  simp [Host.inEffect, hcritical]

lemma inEffect_none (hcritical : host.critical = none) (t : Tid) : host.inEffect t = false := by
  simp [Host.inEffect, hcritical]

lemma Host.Inv.holder (h : host.Inv) (hthread : host.threads.get t = some thread)
    (hcall : thread.call = .mutate m) (hcritical : host.critical = some critical) (ht : critical.tid = t) :
    host.critical = some ⟨t, thread.pid, m, critical.stage⟩ ∧
      host.Reached thread.start critical.stage := by
  obtain ⟨_, hget, hpid, hmutate, -, hreached⟩ := h.calls.critical critical hcritical
  obtain ⟨_, _⟩ := critical
  subst ht
  cases hthread.symm.trans hget
  cases hcall.symm.trans hmutate
  rw [hpid]
  exact ⟨hcritical, hreached⟩

lemma Host.Calls.staged (h : host.Calls) (hthread : host.threads.get t = some thread)
    (hcall : thread.call = .mutate m) (hbegun : thread.progress = .begun) {stage : Stage}
    (hthreads : next.threads = host.threads) (hjournal : next.journal = host.journal ++ more)
    (hdurable : host.durable.events ≤ next.durable.events)
    (hcritical : next.critical = some ⟨t, thread.pid, m, stage⟩)
    (hothers : ∀ t', t' ≠ t → host.inEffect t' = false ∧ more.countP (Event.isOf t') = 0)
    (heffects : thread.effects t next.journal = if stage.isUnapplied then 1 else 0)
    (hreached : next.Reached thread.start stage) : next.Calls := by
  refine ⟨fun t' thread' hget => ?_, fun c hc => ?_⟩
  · rw [hthreads] at hget
    by_cases ht : t' = t
    · subst ht
      cases hthread.symm.trans hget
      refine ⟨?_, ?_, ?_⟩
      · rw [hjournal, length_append]
        exact (h.thread t' thread hthread).start.trans (Nat.le_add_right ..)
      · rw [heffects]
        unfold Host.expected
        rw [hcall, hbegun, inEffect_of hcritical]
        simp
      · unfold Host.ProgressInv
        rw [hbegun]
        trivial
    · obtain ⟨heffect, hmore⟩ := hothers t' ht
      refine (h.thread t' thread' hget).grow hjournal hmore hdurable ?_
      rw [heffect, inEffect_of hcritical]
      simp [Ne.symm ht]
  · cases hcritical.symm.trans hc
    exact ⟨thread, by rw [hthreads]; exact hthread, rfl, hcall, hbegun, hreached⟩

lemma Host.Calls.finished (h : host.Calls) {progress : CallProgress}
    (hthreads : next.threads = host.threads.insert t { thread with progress := progress })
    (hjournal : next.journal = host.journal ++ more) (hdurable : host.durable.events ≤ next.durable.events)
    (hcritical : next.critical = none)
    (hothers : ∀ t', t' ≠ t → host.inEffect t' = false ∧ more.countP (Event.isOf t') = 0)
    (hmine : next.ThreadInv t { thread with progress := progress }) : next.Calls := by
  refine ⟨fun t' thread' hget => ?_, fun c hc => ?_⟩
  · rw [hthreads] at hget
    rcases OrdMap.get_insert_cases hget with ⟨rfl, rfl⟩ | ⟨ht, hget⟩
    · exact hmine
    · obtain ⟨heffect, hmore⟩ := hothers t' ht
      refine (h.thread t' thread' hget).grow hjournal hmore hdurable ?_
      rw [heffect, inEffect_none hcritical]
  · cases hcritical.symm.trans hc

section

variable (h : host.Inv) (hthread : host.threads.get t = some thread) (hcall : thread.call = .mutate m)
  (hbegun : thread.progress = .begun)
include h hthread hcall hbegun

/-- The journal has no transition of a call that has not replaced the file. -/
lemma Host.Inv.effects : thread.effects t host.journal = if host.inEffect t then 1 else 0 := by
  rw [(h.calls.thread t thread hthread).effects]
  unfold Host.expected
  rw [hcall, hbegun]

lemma Host.Inv.lock (hprocess : host.processes.get thread.pid ≠ none) (hcritical : host.critical = none) :
    ({ host with critical := some ⟨t, thread.pid, m, .locked⟩ } : Host).Inv := by
  refine ⟨h.disk.same rfl rfl rfl rfl, ?_, ?_⟩
  · refine h.sessions.quiet (quiet_none hcritical) fun c hc => ?_
    cases hc
    exact ⟨hprocess, rfl⟩
  · refine h.calls.staged hthread hcall hbegun rfl (append_nil _).symm le_rfl rfl
      (fun t' _ => ⟨inEffect_none hcritical t', rfl⟩) ?_ trivial
    rw [h.effects hthread hcall hbegun, inEffect_none hcritical]
    rfl

end

section Holder

variable {stage : Stage} (h : host.Inv) (hthread : host.threads.get t = some thread)
  (hcall : thread.call = .mutate m) (hbegun : thread.progress = .begun)
  (htable : host.processes.get thread.pid = some table)

lemma inEffect_others (hcritical : host.critical = some ⟨t, pid, m, stage⟩) {t' : Tid} (ht : t' ≠ t) :
    host.inEffect t' = false := by
  rw [inEffect_of hcritical]
  simp [Ne.symm ht]

include h hthread hcall hbegun

lemma Host.Inv.holder_effects (hcritical : host.critical = some ⟨t, thread.pid, m, stage⟩) :
    thread.effects t host.journal = if stage.isUnapplied then 1 else 0 := by
  rw [h.effects hthread hcall hbegun, inEffect_of hcritical]
  simp

lemma Host.Inv.planFailed (hcritical : host.critical = some ⟨t, thread.pid, m, .locked⟩)
    {error : CallError}
    (hanswer : ∀ late, Answered host.journal host.durable.events t thread.start (.mutate m) (.error error) late
      (host.isForeign thread.pid m.shard)) :
    (({ host with critical := none } : Host).finish t thread (.error error)).Inv := by
  refine ⟨h.disk.same rfl rfl rfl rfl, ?_, ?_⟩
  · exact h.sessions.quiet (quiet_locked hcritical) fun c hc => by cases hc
  · refine h.calls.finished rfl (append_nil _).symm le_rfl rfl
      (fun t' ht => ⟨inEffect_others hcritical ht, rfl⟩) ⟨(h.calls.thread t thread hthread).start, ?_, ?_⟩
    · refine (h.holder_effects hthread hcall hbegun hcritical).trans ?_
      unfold Host.expected
      simp [hcall, Stage.isUnapplied]
    · dsimp only [Host.finish, Host.progress]
      rw [hcall]
      exact hanswer _

include htable

lemma Host.Inv.planned (hcritical : host.critical = some ⟨t, thread.pid, m, .locked⟩) :
    (host.plan t thread m table).Inv := by
  have hinv : host.memory.Inv := replay_inv _
  have hstart := (h.calls.thread t thread hthread).start
  have hquiet : host.bare.Quiet := quiet_locked hcritical
  have hprocess : host.processes.get thread.pid ≠ none := fun hnone => nomatch htable.symm.trans hnone
  unfold Host.plan
  -- the shard is free or this process's, or its session is live elsewhere
  obtain ⟨hprobed, hown⟩ | ⟨hforeign, s, live, holder, hs, hlive, hlock, hother⟩ :=
    h.sessions.probe (m := m) hquiet h.disk.file htable
  · obtain ⟨error, hplan, herror⟩ | ⟨plan, hplan, hplanned⟩ := planMutation_cases hprobed hinv h.disk.file
    · have hplan : planMutation host.file m (host.probeSession table m) = .error error := hplan
      rw [hplan]
      refine h.planFailed hthread hcall hbegun hcritical fun late => .refused _ hstart le_rfl ?_
      rw [memory_now]
      exact herror
    · have hplan : planMutation host.file m (host.probeSession table m) = .ok plan := hplan
      rw [hplan]
      refine ⟨h.disk.same rfl rfl rfl rfl, ?_, ?_⟩
      · exact h.sessions.planned hquiet hprocess hplanned hown
      · exact h.calls.staged hthread hcall hbegun rfl (append_nil _).symm le_rfl rfl
          (fun t' ht => ⟨inEffect_others hcritical ht, rfl⟩)
          (h.holder_effects hthread hcall hbegun hcritical :) trivial
  · obtain ⟨_, hplan, herror⟩ := planMutation_foreign hs hinv h.disk.file hlive
    have hprobe : host.probeSession table m = some .foreign := hforeign
    rw [hprobe, hplan]
    refine h.planFailed hthread hcall hbegun hcritical fun late => ?_
    -- the in-memory store refuses as well, or does not know whose process asks
    rcases herror with herror | rfl
    · refine .refused _ hstart le_rfl ?_
      rw [memory_now]
      exact herror
    · have hflag : host.isForeign thread.pid m.shard = true := by
        have hlock : host.locks.get s = some holder := hlock
        simp [Host.isForeign, hs, hlock, hother]
      obtain ⟨hshard, -⟩ := hinv.owner.session s live hlive
      rw [hflag]
      refine .unauthorized _ hstart le_rfl ?_ ?_
      · rw [hshard]
        exact hs
      · rw [memory_now, hshard]
        exact hlive

omit htable

lemma Host.Inv.rename (hcritical : host.critical = some ⟨t, thread.pid, m, .planned plan⟩)
    (hwrite : plan.write = true) : (host.rename t thread.pid m plan).Inv := by
  have hstart := (h.calls.thread t thread hthread).start
  have hready : host.bare.Ready thread.pid m plan := (h.sessions.critical _ hcritical).2
  refine ⟨h.disk.rename hready.planned, ?_, ?_⟩
  · exact h.sessions.rename h.disk.file hwrite hcritical
  · refine h.calls.staged hthread hcall hbegun rfl rfl le_rfl rfl
      (fun t' ht => ⟨inEffect_others hcritical ht, by simp [Event.isOf, Ne.symm ht]⟩) ?_
      ⟨hstart, ⟨some plan.next, host.journal.length + 1⟩, ?_, ?_⟩
    · show thread.effects t (host.journal ++ [.mutated t m]) = 1
      rw [effects_append thread t _ hstart, h.holder_effects hthread hcall hbegun hcritical]
      simp [Stage.isUnapplied, Event.isOf]
    · simp [Host.rename]
    · exact Nat.lt_succ_self _

lemma Host.Inv.sync {event : ℕ} (hcritical : host.critical = some ⟨t, thread.pid, m, .renamed plan event⟩)
    (hreached : host.Reached thread.start (.renamed plan event)) :
    (host.sync t thread.pid m plan event).Inv := by
  obtain ⟨hstart, version, hlast, hevent⟩ := hreached
  have hdurable : (host.sync t thread.pid m plan event).durable = version := by
    simp [Host.sync, hlast]
  have hgrow := (h.disk.unsynced version (mem_of_getLast? hlast)).2
  refine ⟨h.disk.sync, h.sessions.sync hcritical, ?_⟩
  exact h.calls.staged hthread hcall hbegun rfl (append_nil _).symm (by rw [hdurable]; exact hgrow) rfl
    (fun t' ht => ⟨inEffect_others hcritical ht, rfl⟩) (h.holder_effects hthread hcall hbegun hcritical :)
    ⟨hstart, by rw [hdurable]; exact hevent⟩

include htable

lemma Host.Inv.completeSynced {event : ℕ}
    (hcritical : host.critical = some ⟨t, thread.pid, m, .synced plan event⟩)
    (hreached : host.Reached thread.start (.synced plan event)) :
    (host.complete t thread m plan table).Inv := by
  have hunapplied : host.bare.Unapplied t thread.pid m plan event := (h.sessions.critical _ hcritical).2
  have hcompleting := h.sessions.completing_synced hcritical
  obtain ⟨applied, happlied, hframe, hfilled⟩ := hcompleting.settles.applied hcompleting.inv htable
  unfold Host.complete
  rw [happlied, if_pos hunapplied.write]
  refine ⟨h.disk.same rfl rfl rfl rfl, ?_, ?_⟩
  · exact h.sessions.complete hcompleting rfl hframe hfilled htable
  · refine h.calls.finished rfl (append_nil _).symm le_rfl rfl
      (fun t' ht => ⟨inEffect_others hcritical ht, rfl⟩) ⟨(h.calls.thread t thread hthread).start, ?_, ?_⟩
    · refine (h.holder_effects hthread hcall hbegun hcritical).trans ?_
      unfold Host.expected
      simp [hcall, Stage.isUnapplied]
    · dsimp only [Host.finish, Host.progress]
      rw [hcall]
      exact .mutated event hreached.1 hunapplied.logged hunapplied.value (.inl hreached.2)

lemma Host.Inv.completePlanned (hcritical : host.critical = some ⟨t, thread.pid, m, .planned plan⟩)
    (hwrite : plan.write = false) : (host.complete t thread m plan table).Inv := by
  have hstart := (h.calls.thread t thread hthread).start
  have hready : host.bare.Ready thread.pid m plan := (h.sessions.critical _ hcritical).2
  have hcompleting := h.sessions.completing_planned hcritical
  obtain ⟨applied, happlied, hframe, hfilled⟩ := hcompleting.settles.applied hcompleting.inv htable
  -- the file has the records already
  have hrecords : (replay (host.journal ++ [.mutated t m])).records = host.memory.records := by
    rw [replay_concat, ← h.disk.file]
    have hsame : host.file = some plan.next := by
      have hdecide := hready.planned.write
      rw [hwrite] at hdecide
      exact not_not.1 (of_decide_eq_false hdecide.symm)
    rw [hsame]
    exact hready.planned.next
  have hvalue : ((replay (host.journal.take host.journal.length)).mutate m).1 = .ok plan.value := by
    rw [memory_now]
    exact hready.planned.value
  unfold Host.complete
  rw [happlied, if_neg (by rw [hwrite]; exact nofun)]
  refine ⟨?_, ?_, ?_⟩
  · refine h.disk.grow [.mutated t m] rfl rfl rfl rfl hrecords (h.disk.succeeded.concat fun t' m' heq => ?_)
    cases heq
    exact ⟨plan.value, hready.planned.value⟩
  · exact h.sessions.complete hcompleting (replay_concat _ _) hframe hfilled htable
  · refine h.calls.finished rfl rfl le_rfl rfl
      (fun t' ht => ⟨inEffect_others hcritical ht, by simp [Event.isOf, Ne.symm ht]⟩) ⟨?_, ?_, ?_⟩
    · exact hstart.trans (by simp [Host.finish, Host.progress])
    · show thread.effects t (host.journal ++ [.mutated t m]) = _
      rw [effects_append thread t _ hstart, h.holder_effects hthread hcall hbegun hcritical]
      unfold Host.expected
      rw [hcall]
      simp [Stage.isUnapplied, Event.isOf]
    · dsimp only [Host.finish, Host.progress]
      rw [hcall]
      refine .mutated host.journal.length hstart (by simp) ?_ (.inr ?_)
      · rw [take_append_moment _ le_rfl]
        exact hvalue
      · rw [take_append_moment _ le_rfl, memory_now, take_of_length_le (by simp)]
        exact hrecords

end Holder

/-! ### Every action -/

lemma crash_threads (host : Host) (pid : Pid) (t : Tid) : (host.crash pid).threads.get t =
    if (host.threads.get t).any (fun thread => thread.pid = pid) then none else host.threads.get t := by
  unfold Host.crash
  rw [OrdMap.get_foldl_erase]
  congr 1
  simp only [mem_map, mem_filter, decide_eq_true_eq, Prod.exists, exists_and_right, exists_eq_right,
    Option.any_eq_true, eq_iff_iff]
  constructor
  · rintro ⟨thread, hmem, hpid⟩
    exact ⟨thread, OrdMap.mem_rows.1 hmem, hpid⟩
  · rintro ⟨thread, hget, hpid⟩
    exact ⟨thread, OrdMap.mem_rows.2 hget, hpid⟩

variable (h : host.Inv)
include h

lemma Host.Inv.mutation (hthread : host.threads.get t = some thread) (hcall : thread.call = .mutate m)
    (hbegun : thread.progress = .begun) (htable : host.processes.get thread.pid = some table)
    (hnext : host.advanceMutation t thread m table = some next) : next.Inv := by
  unfold Host.advanceMutation at hnext
  cases hcritical : host.critical with
  -- the store lock is free
  | none =>
    rw [hcritical] at hnext
    cases hnext
    exact h.lock hthread hcall hbegun (fun hnone => nomatch htable.symm.trans hnone) hcritical
  | some critical =>
    rw [hcritical] at hnext
    dsimp only at hnext
    split at hnext
    next ht =>
      obtain ⟨hholder, hreached⟩ := h.holder hthread hcall hcritical ht
      -- the thread holds the lock, and its stage says what it does next
      cases hstage : critical.stage with
      | locked =>
        rw [hstage] at hnext hholder
        cases hnext
        exact h.planned hthread hcall hbegun htable hholder
      | planned =>
        rw [hstage] at hnext hholder
        dsimp only at hnext
        split at hnext
        next hwrite =>
          cases hnext
          exact h.rename hthread hcall hbegun hholder hwrite
        next hwrite =>
          cases hnext
          exact h.completePlanned hthread hcall hbegun htable hholder (Bool.not_eq_true _ ▸ hwrite)
      | renamed =>
        rw [hstage] at hnext hholder hreached
        cases hnext
        exact h.sync hthread hcall hbegun hholder hreached
      | synced =>
        rw [hstage] at hnext hholder hreached
        cases hnext
        exact h.completeSynced hthread hcall hbegun htable hholder hreached
    -- another thread holds the lock
    next => cases hnext

lemma Host.Inv.advance (hnext : host.advance t = some next) : next.Inv := by
  obtain ⟨_, hthread, hnext⟩ := Option.bind_eq_some_iff.1 hnext
  obtain ⟨_, htable, hnext⟩ := Option.bind_eq_some_iff.1 hnext
  split at hnext
  next hcall hprogress => exact h.mutation hthread hcall hprogress htable hnext
  next hcall hprogress =>
    cases hnext
    exact h.query hthread hcall
  next hcall hprogress =>
    cases hnext
    exact h.prove hthread hcall htable
  next hcall hprogress =>
    cases hnext
    exact h.renewBegun hthread hcall htable
  next hcall hprogress =>
    cases hnext
    exact h.renewHeld hthread hcall hprogress
  next => cases hnext

lemma Host.Inv.spawn (hnew : host.processes.get pid = none) :
    ({ host with processes := host.processes.insert pid .empty } : Host).Inv := by
  refine ⟨h.disk.same rfl rfl rfl rfl, h.sessions.spawn hnew, fun t thread hthread => ?_, fun c hc => ?_⟩
  · exact (h.calls.thread t thread hthread).same rfl rfl rfl
  · obtain ⟨holder, hholder⟩ := h.calls.critical c hc
    exact ⟨holder, hholder.same hholder.get rfl rfl⟩

lemma Host.Inv.invoke (hnew : host.threads.get t = none) (call : Call) :
    ({ host with threads := host.threads.insert t ⟨pid, call, host.journal.length, .begun⟩ } : Host).Inv := by
  have hother : ∀ c, host.critical = some c → c.tid ≠ t := by
    rintro c hc rfl
    obtain ⟨thread, hget, -⟩ := h.calls.critical c hc
    cases hnew.symm.trans hget
  refine ⟨h.disk.same rfl rfl rfl rfl, h.sessions, fun t' thread hthread => ?_, fun c hc => ?_⟩
  · rcases OrdMap.get_insert_cases hthread with ⟨heq, rfl⟩ | ⟨-, hthread⟩
    · cases heq
      have hidle : host.inEffect t = false := by
        cases hcritical : host.critical with
        | none => exact inEffect_none hcritical t
        | some c =>
          rw [inEffect_of hcritical]
          simp [hother c hcritical]
      refine ⟨le_rfl, ?_, trivial⟩
      unfold Thread.effects Host.expected
      rw [drop_length]
      cases call with
      | mutate m =>
        have hidle : Host.inEffect { host with
            threads := host.threads.insert t ⟨pid, .mutate m, host.journal.length, .begun⟩ } t = false := hidle
        rw [hidle]
        rfl
      | query q | renewOwner lease | proveOwner lease => rfl
    · exact (h.calls.thread t' thread hthread).same rfl rfl rfl
  · obtain ⟨holder, hholder⟩ := h.calls.critical c hc
    exact ⟨holder, hholder.same (by simp [OrdMap.get_insert_of_ne _ (hother c hc), hholder.get]) rfl rfl⟩

lemma Host.Inv.answer (hthread : host.threads.get t = some thread) (hfinished : thread.progress ≠ .begun) :
    ({ host with threads := host.threads.erase t } : Host).Inv := by
  refine ⟨h.disk.same rfl rfl rfl rfl, h.sessions, fun t' thread' hget => ?_, fun c hc => ?_⟩
  · exact (h.calls.thread t' thread' (OrdMap.get_of_get_erase hget)).same rfl rfl rfl
  · obtain ⟨holder, hholder⟩ := h.calls.critical c hc
    have hne : c.tid ≠ t := by
      rintro rfl
      cases hthread.symm.trans hholder.get
      exact hfinished hholder.progress
    exact ⟨holder, hholder.same (by simp [OrdMap.get_erase, hne, hholder.get]) rfl rfl⟩

lemma Host.Inv.crash (pid : Pid) : (host.crash pid).Inv := by
  obtain ⟨hrecords, -⟩ := crash_memory host pid
  refine ⟨?_, h.sessions.crash, fun t thread hthread => ?_, fun c hc => ?_⟩
  · exact h.disk.grow _ rfl rfl rfl rfl hrecords (h.disk.succeeded.lost _)
  · rw [crash_threads] at hthread
    split at hthread
    · cases hthread
    next hkept =>
      refine (h.calls.thread t thread hthread).grow rfl (countP_lost t _) le_rfl ?_
      -- a call that survives does not hold the store lock of the dead process
      cases hcritical : host.critical with
      | none =>
        rw [inEffect_none hcritical, inEffect_none]
        show host.critical.filter _ = none
        rw [hcritical]
        rfl
      | some c =>
        rw [inEffect_of hcritical]
        by_cases hpid : c.pid = pid
        · have hne : c.tid ≠ t := by
            rintro rfl
            obtain ⟨holder, hget, hholder, -⟩ := h.calls.critical c hcritical
            cases hthread.symm.trans hget
            rw [hthread] at hkept
            simp [hholder, hpid] at hkept
          rw [inEffect_none]
          · simp [hne]
          · show host.critical.filter _ = none
            rw [hcritical]
            simp [hpid]
        · rw [inEffect_of (crash_critical_of hcritical hpid)]
  · obtain ⟨hc, hpid⟩ := crash_critical hc
    obtain ⟨holder, hholder⟩ := h.calls.critical c hc
    exact ⟨holder, hholder.same (by simp [crash_threads, hholder.get, hholder.pid, hpid]) rfl rfl⟩

lemma Host.Inv.powerLoss {version : Version} (hversion : version ∈ host.durable :: host.unsynced) :
    (host.powerLoss version).Inv := by
  refine ⟨h.disk.powerLoss ?_, sessions_powerLoss version, fun t thread hthread => ?_, fun c hc => ?_⟩
  · rcases mem_cons.1 hversion with rfl | hversion
    · exact h.disk.durable
    · exact (h.disk.unsynced version hversion).1
  · cases (show (none : Option Thread) = some thread from hthread)
  · cases (show (none : Option Critical) = some c from hc)

/-- **Every action keeps the invariant.** -/
theorem Host.Inv.act {action : Action} (hnext : host.act action = some next) : next.Inv := by
  cases action with
  | spawn =>
    simp only [Host.act] at hnext
    split at hnext
    next hnew =>
      cases hnext
      exact h.spawn hnew
    next => cases hnext
  | invoke _ _ call =>
    simp only [Host.act] at hnext
    split at hnext
    next hnew =>
      cases hnext
      exact h.invoke hnew.2 call
    next => cases hnext
  | advance => exact h.advance hnext
  | answer =>
    obtain ⟨_, hthread, hnext⟩ := Option.bind_eq_some_iff.1 hnext
    split at hnext
    next hprogress =>
      cases hnext
      exact h.answer hthread (by rw [hprogress]; exact nofun)
    next => cases hnext
  | crash pid =>
    simp only [Host.act] at hnext
    split at hnext
    next =>
      cases hnext
      exact h.crash pid
    next => cases hnext
  | powerLoss =>
    obtain ⟨_, hversion, rfl⟩ := Option.map_eq_some_iff.1 hnext
    exact h.powerLoss (mem_of_getElem? hversion)

end Calls

/-! ### Whole runs -/

/-- The host after a sequence of actions, if each of them can happen. -/
def Host.run (host : Host) : List Action → Option Host
  | [] => some host
  | action :: actions => host.act action >>= fun next => next.run actions

lemma Host.Inv.run {host later : Host} (h : host.Inv) {actions : List Action}
    (hrun : host.run actions = some later) : later.Inv := by
  induction actions generalizing host with
  | nil =>
    cases hrun
    exact h
  | cons _ _ ih =>
    obtain ⟨_, hnext, hrun⟩ := Option.bind_eq_some_iff.1 hrun
    exact ih (h.act hnext) hrun

/-- What was durable stays: the journal up to there is the same, and the durable part of it grows. -/
structure Survives (host later : Host) : Prop where
  events : host.durable.events ≤ later.durable.events
  journal : host.journal.take host.durable.events = later.journal.take host.durable.events

section Survives

variable {host next : Host} {t : Tid}

lemma Host.Inv.survives_append (h : host.Inv) (hjournal : host.journal <+: next.journal)
    (hdurable : host.durable.events ≤ next.durable.events) : Survives host next := by
  obtain ⟨more, hmore⟩ := hjournal
  refine ⟨hdurable, ?_⟩
  rw [← hmore, take_append_moment more h.disk.durable.events]

/-- A step appends to the journal, and syncs the files or leaves what is durable. -/
structure Host.Extends (host next : Host) : Prop where
  journal : host.journal <+: next.journal
  durable : next.durable = host.durable ∨ next.durable = host.unsynced.getLast?.getD host.durable

lemma extends_same (hjournal : next.journal = host.journal) (hdurable : next.durable = host.durable) :
    host.Extends next :=
  ⟨hjournal ▸ prefix_rfl, .inl hdurable⟩

lemma extends_complete (thread : Thread) (m : Mutation) (plan : Plan) (table : SessionTable) :
    host.Extends (host.complete t thread m plan table) := by
  unfold Host.complete
  dsimp only
  split
  all_goals
    split
    · exact extends_same rfl rfl
    · exact ⟨prefix_append _ _, .inl rfl⟩

lemma extends_advanceMutation {thread : Thread} {m : Mutation} {table : SessionTable}
    (h : host.advanceMutation t thread m table = some next) : host.Extends next := by
  unfold Host.advanceMutation at h
  split at h
  · cases h
    exact extends_same rfl rfl
  · split at h
    · split at h
      · cases h
        unfold Host.plan
        split <;> exact extends_same rfl rfl
      · split at h
        · cases h
          exact ⟨prefix_append _ _, .inl rfl⟩
        · cases h
          exact extends_complete ..
      · cases h
        exact ⟨prefix_rfl, .inr rfl⟩
      · cases h
        exact extends_complete ..
    · cases h

lemma extends_advance (h : host.advance t = some next) : host.Extends next := by
  obtain ⟨_, -, h⟩ := Option.bind_eq_some_iff.1 h
  obtain ⟨_, -, h⟩ := Option.bind_eq_some_iff.1 h
  split at h
  · exact extends_advanceMutation h
  · cases h
    exact extends_same rfl rfl
  · cases h
    exact extends_same rfl rfl
  · cases h
    unfold Host.renew
    split <;> exact extends_same rfl rfl
  · cases h
    exact extends_same rfl rfl
  · cases h

lemma Host.Inv.survives_act (h : host.Inv) {action : Action} (hnext : host.act action = some next) :
    Survives host next := by
  cases action with
  | spawn pid | invoke pid t call =>
    simp only [Host.act] at hnext
    split at hnext
    · cases hnext
      exact ⟨le_rfl, rfl⟩
    · cases hnext
  | advance =>
    -- a step may sync, which only moves the durable part on
    obtain ⟨hjournal, heq | heq⟩ := extends_advance hnext
    · exact h.survives_append hjournal (by rw [heq])
    · refine h.survives_append hjournal ?_
      rw [heq]
      cases hlast : host.unsynced.getLast? with
      | none => exact le_rfl
      | some version => exact (h.disk.unsynced version (mem_of_getLast? hlast)).2
  | answer =>
    obtain ⟨_, -, hnext⟩ := Option.bind_eq_some_iff.1 hnext
    split at hnext
    · cases hnext
      exact ⟨le_rfl, rfl⟩
    · cases hnext
  | crash =>
    simp only [Host.act] at hnext
    split at hnext
    · cases hnext
      exact h.survives_append (prefix_append _ _) le_rfl
    · cases hnext
  | powerLoss =>
    obtain ⟨version, hversion, rfl⟩ := Option.map_eq_some_iff.1 hnext
    -- the version that comes back is the durable one or a later one
    have hevents : host.durable.events ≤ version.events := by
      rcases mem_cons.1 (mem_of_getElem? hversion) with rfl | hversion
      · exact le_rfl
      · exact (h.disk.unsynced version hversion).2
    have hholds : version.events ≤ host.journal.length := by
      rcases mem_cons.1 (mem_of_getElem? hversion) with rfl | hversion
      · exact h.disk.durable.events
      · exact (h.disk.unsynced version hversion).1.events
    refine ⟨hevents, ?_⟩
    simp only [Host.powerLoss]
    rw [take_append_of_le_length (by rw [length_take_of_le hholds]; exact hevents), take_take,
      min_eq_left hevents]

lemma Host.Inv.survives_run {later : Host} (h : host.Inv) {actions : List Action}
    (hrun : host.run actions = some later) : Survives host later := by
  induction actions generalizing host with
  | nil =>
    cases hrun
    exact ⟨le_rfl, rfl⟩
  | cons _ _ ih =>
    obtain ⟨_, hnext, hrun⟩ := Option.bind_eq_some_iff.1 hrun
    obtain ⟨hevents, hjournal⟩ := h.survives_act hnext
    obtain ⟨hevents', hjournal'⟩ := ih (h.act hnext) hrun
    refine ⟨hevents.trans hevents', hjournal.trans ?_⟩
    have htake := congrArg (List.take host.durable.events) hjournal'
    rw [take_take, take_take, min_eq_left hevents] at htake
    exact htake

end Survives

/-- How the local store stands to the in-memory one. -/
structure LocalRefinement (host : Host) : Prop where
  /-- The state file reads as the records of the in-memory store. -/
  records : readState host.file = .ok host.memory.records
  journal : Succeeded host.journal
  /-- A call took effect once or not at all. -/
  effects : ∀ t thread, host.threads.get t = some thread →
    thread.effects t host.journal = host.expected t thread
  /-- A call that has its answer was answered as in memory at one of its moments. -/
  answers : ∀ t thread answer late foreign, host.threads.get t = some thread →
    thread.progress = .finished answer late foreign →
    Answered host.journal host.durable.events t thread.start thread.call answer late foreign
  /-- At most one process has the session of a shard. -/
  exclusive : ∀ p q s a b, host.entry p s = some a → host.entry q s = some b → p = q
  /-- The session a process has is the live one, and the durable record names it. -/
  current : ∀ p s session, host.entry p s = some session → ¬ host.Late p s →
    host.memory.sessions.get s = some session.lease ∧ Names session.record session.lease ∧
      host.memory.records.logicalShards.get s = some session.record
  /-- What was durable stays durable. -/
  survives : ∀ actions later, host.run actions = some later → Survives host later

/-- **The local control store refines the in-memory one**, over every run of the host with crashes and
losses of power. -/
theorem local_refines_memory (actions : List Action) (host : Host) (hrun : Host.init.run actions = some host) :
    LocalRefinement host := by
  have h : host.Inv := Host.Inv.run ⟨disk_init, sessions_init, calls_init⟩ hrun
  refine ⟨(replay_inv host.journal).readState h.disk.file, h.disk.succeeded,
    fun t thread hthread => (h.calls.thread t thread hthread).effects,
    fun t thread answer late foreign hthread hfinished => ?_, fun p q s a b hp hq => ?_,
    fun p s session hentry hfresh => ?_, fun actions later hlater => h.survives_run hlater⟩
  · have hprogress := (h.calls.thread t thread hthread).progress
    unfold Host.ProgressInv at hprogress
    rw [hfinished] at hprogress
    exact hprogress
  · exact Option.some.inj ((h.sessions.entry p s a hp).lock.symm.trans (h.sessions.entry q s b hq).lock)
  · obtain ⟨-, -, hnames, hlive, hrecord⟩ := h.sessions.entry p s session hentry
    exact ⟨hlive hfresh, hnames, hrecord hfresh⟩

section Sample

def Host.answerOf (host : Host) (t : Tid) : Option (Except CallError Value) :=
  (host.threads.get t).bind fun thread =>
    match thread.progress with
    | .finished answer _ _ => some answer
    | _ => none

/-- A whole transition of one process. -/
def sampleCall (m : Mutation) : List Action :=
  [.invoke 0 0 (.mutate m), .advance 0, .advance 0, .advance 0, .advance 0, .advance 0, .answer 0]

/-- A process takes a shard and serves it. -/
def sampleServing : List Action :=
  [.spawn 0] ++ sampleCall (.transition (.createLogicalShard sampleShard) rfl) ++
  sampleCall (.transition
    (.createRootPlacement ⟨.fill 16 1, sampleShard, ⟨1, NonZeroU64.one_ne_zero⟩, .provisioning⟩) rfl) ++
  sampleCall (.transition (.acquireOwner sampleShard sampleNode "host-a:1") rfl) ++
  sampleCall (.transition (.markServing sampleLease ⟨none, none, 0⟩) rfl)

/-- It releases the shard; before its table has changed, another of its calls proves the lease. -/
def sampleLate : List Action :=
  sampleServing ++ [.invoke 0 0 (.mutate (.transition (.releaseOwner sampleLease) rfl)),
    .advance 0, .advance 0, .advance 0, .invoke 0 1 (.proveOwner sampleLease), .advance 1]

theorem local_refines_memory_serving :
    ∃ host, Host.init.run sampleLate = some host ∧ LocalRefinement host := by
  obtain ⟨host, hhost⟩ := Option.isSome_iff_exists.1
    (show (Host.init.run sampleLate).isSome = true by decide +kernel)
  exact ⟨host, hhost, local_refines_memory sampleLate host hhost⟩

/-- A lease that no process holds is stale here and its shard missing in memory; a released lease is
still proved by the process that is releasing it. -/
theorem proof_of_missing_and_released_lease :
    ((Host.init.run [.spawn 0, .invoke 0 0 (.proveOwner sampleLease), .advance 0]).map fun host =>
      (host.answerOf 0, host.journal.length, host.memory.renew sampleLease)) =
      some (some (.error (.control (.staleLease sampleLease))), 0,
        .error (.control (.logicalShardNotFound sampleShard))) ∧
    ((Host.init.run sampleLate).map fun host =>
      ((host.answerOf 1).map fun answer => answer.toOption.isSome, host.memory.renew sampleLease)) =
      some (some true, .error (.control (.notOwner sampleShard))) := by
  decide +kernel

end Sample

end NoKV.Control
