import Mathlib.Data.List.Induction
import NoKV.Control.Local

/-!
# Files and sessions of the local control store

* `planMutation_cases`: under the store lock a transition is the in-memory transition;
* `Host.Disk`: the state file is the records of the in-memory store the journal leaves;
* `Host.Sessions`: the sessions that store has live are those whose lock a process holds.
-/

namespace NoKV.Control

open Lib RecordError List
open OrdMap hiding get insert erase empty

/-! ### The reference run -/

lemma replay_append (a b : List Event) : replay (a ++ b) = b.foldl Memory.apply (replay a) :=
  foldl_append ..

lemma replay_concat (journal : List Event) (event : Event) :
    replay (journal ++ [event]) = (replay journal).apply event := by
  rw [replay_append]
  rfl

variable {journal : List Event} {memory : Memory}

lemma Memory.Inv.apply (h : memory.Inv) (event : Event) : (memory.apply event).Inv := by
  cases event with
  | mutated t m => exact h.mutate m
  | sessionLost shard => exact h.endSession shard

lemma replay_inv (journal : List Event) : (replay journal).Inv := by
  induction journal using reverseRecOn with
  | nil => exact memory_inv_init
  | append_singleton _ event ih =>
    rw [replay_concat]
    exact ih.apply event

lemma replay_lost (journal : List Event) (lost : List LogicalShardId) :
    (replay (journal ++ lost.map .sessionLost)).records = (replay journal).records ∧
      ∀ s, (replay (journal ++ lost.map .sessionLost)).sessions.get s =
        if s ∈ lost then none else (replay journal).sessions.get s := by
  induction lost using reverseRecOn with
  | nil => simp
  | append_singleton lost shard ih =>
    rw [map_append, ← append_assoc, map_singleton, replay_concat]
    refine ⟨ih.1, fun s => ?_⟩
    show ((replay (journal ++ lost.map .sessionLost)).sessions.erase shard).get s = _
    rw [get_erase, ih.2 s]
    by_cases hs : s = shard <;> simp [hs]

/-! ### Reading and writing the file -/

lemma Memory.Inv.encode (h : memory.Inv) : encodeLocalControlState memory.records = .ok () := by
  refine bind_eq_ok.2 ⟨(), forM_eq_ok.2 fun row hrow => ?_, forM_eq_ok.2 fun row hrow => ?_⟩
  · rw [h.placements row.1 row.2 (mem_rows.1 hrow)]
    rfl
  · rw [validateRecord, h.owner.valid row.1 row.2 (mem_rows.1 hrow)]
    rfl

lemma Memory.Inv.decode (h : memory.Inv) : decodeLocalControlState memory.records = .ok memory.records := by
  refine bind_eq_ok.2 ⟨(), forM_eq_ok.2 fun row hrow => ?_,
    bind_eq_ok.2 ⟨(), forM_eq_ok.2 fun row hrow => ?_, bind_eq_ok.2 ⟨(), h.encode, rfl⟩⟩⟩
  · rw [h.placements row.1 row.2 (mem_rows.1 hrow)]
    rfl
  · have hlease : row.2.leaseId.toNat ≤ memory.records.nextLeaseId.toNat :=
      h.leases row.1 row.2 (mem_rows.1 hrow)
    have hle : ¬ memory.records.nextLeaseId < row.2.leaseId := by
      rw [UInt64.lt_iff_toNat_lt]
      omega
    rw [validateRecord, h.owner.valid row.1 row.2 (mem_rows.1 hrow), refuseIf_of_not hle]
    rfl

lemma Memory.Inv.readState (h : memory.Inv) {file : Option Records} (hfile : file.getD .init = memory.records) :
    readState file = .ok memory.records := by
  cases file with
  | none => exact congrArg Except.ok hfile
  | some records =>
    obtain rfl : records = memory.records := hfile
    exact h.decode

/-! ### A transition under the store lock -/

/-- What the process found of the session of the shard is how the in-memory store has it. -/
inductive Probed (memory : Memory) (m : Mutation) : Option SessionProbe → Prop where
  | untouched (h : m.shard = none) : Probed memory m none
  | missing {s : LogicalShardId} (h : m.shard = some s) (hnone : memory.records.logicalShards.get s = none) :
      Probed memory m none
  | held {s : LogicalShardId} {lease : LogicalShardLease} (h : m.shard = some s)
      (hlive : memory.sessions.get s = some lease) : Probed memory m (some (.held lease))
  | free {s : LogicalShardId} (h : m.shard = some s) (hnone : memory.sessions.get s = none) :
      Probed memory m (some .free)

/-- The session of the shard behind a transition, by its change. -/
inductive Changes (memory : Memory) (m : Mutation) : SessionChange → Prop where
  | unchanged (h : ∀ s, m.shard = some s → (memory.mutate m).2.sessions.get s = memory.sessions.get s) :
      Changes memory m .unchanged
  | began {s : LogicalShardId} {lease : LogicalShardLease} (h : m.shard = some s)
      (hbefore : memory.sessions.get s = none) (hafter : (memory.mutate m).2.sessions.get s = some lease) :
      Changes memory m (.began lease)
  | ended {s : LogicalShardId} {lease : LogicalShardLease} (h : m.shard = some s)
      (hbefore : memory.sessions.get s = some lease) (hafter : (memory.mutate m).2.sessions.get s = none) :
      Changes memory m .ended

/-- The plan is the in-memory transition. -/
structure Planned (memory : Memory) (file : Option Records) (m : Mutation) (plan : Plan) : Prop where
  value : (memory.mutate m).1 = .ok plan.value
  next : (memory.mutate m).2.records = plan.next
  change : Changes memory m plan.change
  write : plan.write = decide (file ≠ some plan.next)

section Plan

variable {memory : Memory} {file : Option Records} {m : Mutation} {probe : Option SessionProbe} {plan : Plan}

/-- A session has a record that names it. -/
lemma Memory.Inv.held (h : memory.Inv) {s : LogicalShardId} {lease : LogicalShardLease}
    (hlive : memory.sessions.get s = some lease) :
    ∃ record, memory.records.logicalShards.get s = some record ∧ Names record lease :=
  (h.owner.session s lease hlive).2

/-- A shard without a record has no session. -/
lemma Memory.Inv.unheld (h : memory.Inv) {s : LogicalShardId}
    (hnone : memory.records.logicalShards.get s = none) : memory.sessions.get s = none := by
  refine Option.eq_none_iff_forall_ne_some.2 fun lease hlease => ?_
  obtain ⟨_, hrecord, -⟩ := h.held hlease
  cases hnone.symm.trans hrecord

section

variable (h : Probed memory m probe) (hinv : memory.Inv)
include h hinv

lemma Probed.alike : Memory.Alike m.shard memory (probedMemory memory.records m probe) := by
  refine ⟨rfl, fun s hs => ?_⟩
  cases h with
  | untouched h => cases h.symm.trans hs
  | missing h hnone =>
    cases h.symm.trans hs
    rw [hinv.unheld hnone]
    simp [probedMemory, hs]
  | held h hlive =>
    cases h.symm.trans hs
    rw [hlive]
    simp [probedMemory, hs, liveSession]
  | free h hnone =>
    cases h.symm.trans hs
    rw [hnone]
    simp [probedMemory, hs, liveSession]

/-- The session change is the one of the in-memory transition. -/
lemma Probed.changeOf {live : Option LogicalShardLease} {after : Memory}
    (hafter : ∀ s, m.shard = some s → after.sessions.get s = (memory.mutate m).2.sessions.get s) :
    ∃ change, changeOf m.shard probe live after = .ok change ∧ Changes memory m change := by
  cases h with
  | untouched h =>
    refine ⟨.unchanged, by rw [h]; rfl, .unchanged fun s hs => ?_⟩
    cases h.symm.trans hs
  | @missing s h hnone =>
    have hbefore := hinv.unheld hnone
    have hnone : (memory.mutate m).2.sessions.get s = none := by
      refine Option.eq_none_iff_forall_ne_some.2 fun lease hlease => ?_
      obtain hlive | ⟨-, hrecord⟩ := hinv.session_mutate hlease
      · cases hbefore.symm.trans hlive
      · exact hrecord hnone
    refine ⟨.unchanged, ?_, .unchanged fun s' hs => ?_⟩
    · simp only [h, Control.changeOf, hafter s h, hnone, if_true, pure_eq_ok]
    · cases h.symm.trans hs
      rw [hnone, hbefore]
  | @held s lease h hlive =>
    cases hsession : (memory.mutate m).2.sessions.get s with
    | none =>
      refine ⟨.ended, ?_, .ended h hlive hsession⟩
      simp only [h, Control.changeOf, sessionChange, hafter s h, hsession, pure_eq_ok]
    | some session =>
      -- a live session is not replaced
      have hsame : session = lease := by
        obtain hbefore | ⟨hbefore, -⟩ := hinv.session_mutate hsession
        · exact Option.some.inj (hbefore.symm.trans hlive)
        · cases hbefore.symm.trans hlive
      refine ⟨.unchanged, ?_, .unchanged fun s' hs => ?_⟩
      · simp only [h, Control.changeOf, sessionChange, hafter s h, hsession, hsame, if_true, pure_eq_ok]
      · cases h.symm.trans hs
        rw [hsession, hlive, hsame]
  | @free s h hnone =>
    cases hsession : (memory.mutate m).2.sessions.get s with
    | none =>
      refine ⟨.unchanged, ?_, .unchanged fun s' hs => ?_⟩
      · simp only [h, Control.changeOf, sessionChange, hafter s h, hsession, pure_eq_ok]
      · cases h.symm.trans hs
        rw [hsession, hnone]
    | some lease =>
      refine ⟨.began lease, ?_, .began h hnone hsession⟩
      simp only [h, Control.changeOf, sessionChange, hafter s h, hsession, pure_eq_ok]

/-- **A transition under the store lock is the in-memory transition**, and fails with its error. -/
theorem planMutation_cases (hfile : file.getD .init = memory.records) :
    (∃ error, planMutation file m probe = .error error ∧ (memory.mutate m).1 = .error error) ∨
      ∃ plan, planMutation file m probe = .ok plan ∧ Planned memory file m plan := by
  have hread := hinv.readState hfile
  obtain ⟨hanswer, hafter⟩ := Memory.mutate_alike (h.alike hinv)
  unfold planMutation
  rw [hread, ok_bind]
  dsimp only
  rw [hanswer]
  cases hresult : (memory.mutate m).1 with
  | error error => exact .inl ⟨error, rfl, rfl⟩
  | ok =>
    right
    obtain ⟨_, hchange, hchanges⟩ := h.changeOf hinv hafter.session
    rw [ok_bind, hchange, ok_bind, hafter.records, (hinv.mutate m).encode, ok_bind]
    exact ⟨_, rfl, hresult, rfl, hchanges, rfl⟩

end

/-- **A transition on a foreign session fails**, as in memory or because the live lease is not this
process's. -/
theorem planMutation_foreign {s : LogicalShardId} {live : LogicalShardLease} (hshard : m.shard = some s)
    (hinv : memory.Inv) (hfile : file.getD .init = memory.records)
    (hlive : memory.sessions.get s = some live) :
    ∃ error, planMutation file m (some .foreign) = .error error ∧
      ((memory.mutate m).1 = .error error ∨ error = .control (.staleLease live)) := by
  have hread := hinv.readState hfile
  obtain ⟨record, hrecord, hnames⟩ := hinv.held hlive
  cases m with
  | createRootAgentBinding binding | createRootObjectNamespaceBinding binding => cases hshard
  | transition op hop =>
    have hshadow : Shadowed s live memory.state
        (probedMemory memory.records (.transition op hop) (some .foreign)).state := by
      refine ⟨rfl, rfl, hlive, ⟨record.logicalShardId, live.owner, live.ownerEpoch, 0⟩, ?_, rfl⟩
      simp [probedMemory, Memory.state, hshard, liveSession, hrecord, hnames.owner, hnames.ownerEpoch]
    obtain ⟨error, hb, ha⟩ := hshadow.step hop hshard hinv.owner
    refine ⟨.control error, ?_, ?_⟩
    · unfold planMutation
      rw [hread, ok_bind]
      simp only [Memory.mutate, hb, Answer.result, error_bind]
    · rcases ha with ha | rfl
      · left
        simp only [Memory.mutate, ha, Answer.result]
      · exact .inr rfl

/-- The plan stands while sessions of other shards change. -/
lemma Changes.alike {other : Memory} {change : SessionChange} (h : Changes memory m change)
    (halike : Memory.Alike m.shard memory other) : Changes other m change := by
  obtain ⟨-, hafter⟩ := Memory.mutate_alike halike
  cases h with
  | unchanged hsame =>
    refine .unchanged fun s hs => ?_
    rw [hafter.session s hs, halike.session s hs, hsame s hs]
  | began hs hbefore hbegan =>
    exact .began hs ((halike.session _ hs).trans hbefore) ((hafter.session _ hs).trans hbegan)
  | ended hs hbefore hended =>
    exact .ended hs ((halike.session _ hs).trans hbefore) ((hafter.session _ hs).trans hended)

lemma Planned.alike {other : Memory} (h : Planned memory file m plan)
    (halike : Memory.Alike m.shard memory other) : Planned other file m plan := by
  obtain ⟨hanswer, hafter⟩ := Memory.mutate_alike halike
  exact ⟨hanswer.trans h.value, hafter.records.trans h.next, h.change.alike halike, h.write⟩

end Plan

/-! ### The invariant of the disk -/

/-- Every transition of the journal succeeded where it stands. -/
def Succeeded (journal : List Event) : Prop :=
  ∀ k t m, journal[k]? = some (.mutated t m) → ∃ value, ((replay (journal.take k)).mutate m).1 = .ok value

lemma Succeeded.take (h : Succeeded journal) (n : ℕ) : Succeeded (journal.take n) := by
  intro k t m hk
  by_cases hlt : k < n
  · rw [getElem?_take_of_lt hlt] at hk
    rw [take_take, min_eq_left hlt.le]
    exact h k t m hk
  · rw [getElem?_take_eq_none (not_lt.1 hlt)] at hk
    cases hk

lemma Succeeded.concat (h : Succeeded journal) {event : Event}
    (hevent : ∀ t m, event = .mutated t m → ∃ value, ((replay journal).mutate m).1 = .ok value) :
    Succeeded (journal ++ [event]) := by
  intro k t m hk
  by_cases hlt : k < journal.length
  · rw [getElem?_append_left hlt] at hk
    rw [take_append_of_le_length hlt.le]
    exact h k t m hk
  · obtain ⟨hindex, hlast⟩ := List.getElem?_eq_some_iff.1 hk
    obtain rfl : k = journal.length := by
      rw [length_append, length_singleton] at hindex
      omega
    rw [getElem_concat_length rfl] at hlast
    rw [take_left]
    exact hevent t m hlast

lemma Succeeded.lost (h : Succeeded journal) (shards : List LogicalShardId) :
    Succeeded (journal ++ shards.map .sessionLost) := by
  induction shards using reverseRecOn with
  | nil => simpa using h
  | append_singleton _ _ ih =>
    rw [map_append, ← append_assoc]
    exact ih.concat nofun

/-- A content of the file is the records of the journal behind it. -/
structure Version.Holds (version : Version) (journal : List Event) : Prop where
  events : version.events ≤ journal.length
  records : version.file.getD .init = (replay (journal.take version.events)).records

lemma Version.Holds.append {version : Version} (h : version.Holds journal) (more : List Event) :
    version.Holds (journal ++ more) := by
  refine ⟨h.events.trans (by simp), ?_⟩
  rw [take_append_of_le_length h.events]
  exact h.records

/-- The file is the records of the in-memory store; so is what a loss of power can bring back, for an
earlier journal. -/
structure Host.Disk (host : Host) : Prop where
  file : host.file.getD .init = host.memory.records
  durable : host.durable.Holds host.journal
  unsynced : ∀ version ∈ host.unsynced, version.Holds host.journal ∧ host.durable.events ≤ version.events
  latest : (host.unsynced.getLast?.getD host.durable).file = host.file
  succeeded : Succeeded host.journal

lemma disk_init : Host.init.Disk :=
  ⟨rfl, ⟨le_rfl, rfl⟩, (fun _ h => by cases h), rfl, fun _ _ _ h => by cases h⟩

section Disk

variable {host next : Host}

lemma Host.Disk.grow (h : host.Disk) (more : List Event) (hfile : next.file = host.file)
    (hdurable : next.durable = host.durable) (hunsynced : next.unsynced = host.unsynced)
    (hjournal : next.journal = host.journal ++ more)
    (hrecords : (replay (host.journal ++ more)).records = host.memory.records)
    (hsucceeded : Succeeded (host.journal ++ more)) : next.Disk := by
  refine ⟨?_, ?_, ?_, ?_, ?_⟩
  · rw [hfile, h.file, ← hrecords, ← hjournal]
    rfl
  · rw [hdurable, hjournal]
    exact h.durable.append _
  · rw [hunsynced, hjournal, hdurable]
    exact fun version hversion => ⟨(h.unsynced version hversion).1.append _, (h.unsynced version hversion).2⟩
  · rw [hunsynced, hdurable, hfile]
    exact h.latest
  · rw [hjournal]
    exact hsucceeded

lemma Host.Disk.same (h : host.Disk) (hfile : next.file = host.file)
    (hdurable : next.durable = host.durable) (hunsynced : next.unsynced = host.unsynced)
    (hjournal : next.journal = host.journal) : next.Disk := by
  refine h.grow [] hfile hdurable hunsynced (by rw [hjournal, append_nil]) ?_ ?_
  · rw [append_nil]
    rfl
  · rw [append_nil]
    exact h.succeeded

lemma Host.Disk.rename (h : host.Disk) {t : Tid} {pid : Pid} {m : Mutation} {plan : Plan}
    (hplan : Planned host.memory host.file m plan) : (host.rename t pid m plan).Disk := by
  have hrecords : (replay (host.journal ++ [Event.mutated t m])).records = plan.next := by
    rw [replay_concat]
    exact hplan.next
  refine ⟨hrecords.symm, h.durable.append _, fun version hversion => ?_, ?_, ?_⟩
  · rcases mem_append.1 hversion with hversion | hversion
    · exact ⟨(h.unsynced version hversion).1.append _, (h.unsynced version hversion).2⟩
    · rw [mem_singleton.1 hversion]
      refine ⟨⟨by simp [Host.rename], ?_⟩, h.durable.events.trans (Nat.le_succ _)⟩
      show plan.next = (replay ((host.journal ++ [Event.mutated t m]).take (host.journal.length + 1))).records
      rw [take_of_length_le (by simp), hrecords]
  · simp [Host.rename]
  · refine h.succeeded.concat fun t' m' heq => ?_
    cases heq
    exact ⟨plan.value, hplan.value⟩

lemma Host.Disk.sync (h : host.Disk) {t : Tid} {pid : Pid} {m : Mutation} {plan : Plan} {event : ℕ} :
    (host.sync t pid m plan event).Disk := by
  refine ⟨h.file, ?_, (fun _ hv => by cases hv), h.latest, h.succeeded⟩
  show (host.unsynced.getLast?.getD host.durable).Holds host.journal
  cases hlast : host.unsynced.getLast? with
  | none => exact h.durable
  | some version => exact (h.unsynced version (mem_of_getLast? hlast)).1

lemma Host.Disk.powerLoss (h : host.Disk) {version : Version} (hversion : version.Holds host.journal) :
    (host.powerLoss version).Disk := by
  have hjournal : (host.powerLoss version).journal = host.journal.take version.events ++
      ((replay (host.journal.take version.events)).sessions.rows.map Prod.fst).map .sessionLost := by
    rw [map_map]
    rfl
  obtain ⟨hrecords, -⟩ := replay_lost (host.journal.take version.events)
    ((replay (host.journal.take version.events)).sessions.rows.map Prod.fst)
  have hlength : (host.journal.take version.events).length = version.events :=
    length_take_of_le hversion.events
  have hholds : version.Holds (host.journal.take version.events) :=
    ⟨hlength.ge, by rw [take_take, min_self]; exact hversion.records⟩
  refine ⟨?_, ?_, (fun _ h => by cases h), rfl, ?_⟩
  · show version.file.getD .init = (replay (host.powerLoss version).journal).records
    rw [hjournal, hrecords]
    exact hversion.records
  · exact hholds.append _
  · rw [hjournal]
    exact (h.succeeded.take _).lost _

end Disk

/-! ### The invariant of the sessions -/

def Host.entry (host : Host) (pid : Pid) (s : LogicalShardId) : Option OwnerSession :=
  (host.processes.get pid).bind fun table => table.get s

/-- A transition of the process on the shard has replaced the file and not yet changed the table. -/
def Host.Late (host : Host) (pid : Pid) (s : LogicalShardId) : Prop :=
  ∃ critical, host.critical = some critical ∧ critical.pid = pid ∧ critical.mutation.shard = some s ∧
    critical.stage.isUnapplied = true

lemma isLate_iff {host : Host} {pid : Pid} {s : LogicalShardId} :
    host.isLate pid (some s) = true ↔ host.Late pid s := by
  unfold Host.isLate Host.Late
  cases host.critical with
  | none => simp
  | some => simp [and_assoc]

/-- A session in a table: its lock is held, and it is how the in-memory store has it unless the table
is late. -/
structure Host.Entry (host : Host) (pid : Pid) (s : LogicalShardId) (session : OwnerSession) : Prop where
  lock : host.locks.get s = some pid
  shard : session.lease.logicalShardId = s
  names : Names session.record session.lease
  live : ¬ host.Late pid s → host.memory.sessions.get s = some session.lease
  record : ¬ host.Late pid s → host.memory.records.logicalShards.get s = some session.record

/-- The change of the session table that a plan holds leads to the sessions of the in-memory store. -/
structure Settles (memory : Memory) (host : Host) (pid : Pid) (m : Mutation) (plan : Plan) : Prop where
  records : memory.records = plan.next
  unchanged : ∀ s, m.shard = some s → plan.change = .unchanged →
    memory.sessions.get s = (host.entry pid s).map OwnerSession.lease
  began : ∀ s lease, m.shard = some s → plan.change = .began lease →
    memory.sessions.get s = some lease ∧ host.locks.get s = some pid ∧ host.entry pid s = none
  ended : ∀ s, m.shard = some s → plan.change = .ended →
    memory.sessions.get s = none ∧ host.locks.get s = some pid

/-- A plan made under the store lock. -/
structure Host.Ready (host : Host) (pid : Pid) (m : Mutation) (plan : Plan) : Prop where
  planned : Planned host.memory host.file m plan
  own : ∀ s, m.shard = some s → host.memory.sessions.get s = (host.entry pid s).map OwnerSession.lease
  lock : ∀ s lease, m.shard = some s → plan.change = .began lease → host.locks.get s = some pid

/-- A transition that replaced the file: the journal has it, and the table is as it was before it. -/
structure Host.Unapplied (host : Host) (t : Tid) (pid : Pid) (m : Mutation) (plan : Plan) (event : ℕ) :
    Prop where
  logged : host.journal[event]? = some (.mutated t m)
  value : ((replay (host.journal.take event)).mutate m).1 = .ok plan.value
  settles : Settles host.memory host pid m plan
  before : ∀ s session, m.shard = some s → host.entry pid s = some session →
    (replay (host.journal.take event)).renew session.lease = .ok (.record session.record)
  released : ∀ s record, m.shard = some s → plan.change = .ended →
    plan.next.logicalShards.get s = some record → record.leaseId = 0
  write : plan.write = true

def Host.StageInv (host : Host) (critical : Critical) : Prop :=
  match critical.stage with
  | .locked => True
  | .planned plan => host.Ready critical.pid critical.mutation plan
  | .renamed plan event => host.Unapplied critical.tid critical.pid critical.mutation plan event
  | .synced plan event => host.Unapplied critical.tid critical.pid critical.mutation plan event

def Stage.plan : Stage → Option Plan
  | .locked => none
  | .planned plan => some plan
  | .renamed plan _ => some plan
  | .synced plan _ => some plan

/-- A transition of the process is about to enter the session of the shard. -/
def Host.Taking (host : Host) (pid : Pid) (s : LogicalShardId) : Prop :=
  ∃ critical plan lease, host.critical = some critical ∧ critical.pid = pid ∧
    critical.mutation.shard = some s ∧ critical.stage.plan = some plan ∧ plan.change = .began lease

/-- The sessions of the in-memory store are those whose lock a process holds. -/
structure Host.Sessions (host : Host) : Prop where
  entry : ∀ pid s session, host.entry pid s = some session → host.Entry pid s session
  session : ∀ s lease, host.memory.sessions.get s = some lease → ∃ pid, host.locks.get s = some pid ∧
    ((host.entry pid s).map OwnerSession.lease = some lease ∨ host.Late pid s)
  lock : ∀ s pid, host.locks.get s = some pid → host.entry pid s ≠ none ∨ host.Taking pid s
  critical : ∀ critical, host.critical = some critical → host.processes.get critical.pid ≠ none ∧
    host.StageInv critical

lemma sessions_init : Host.init.Sessions := by
  refine ⟨fun _ _ _ h => ?_, fun _ _ h => ?_, fun _ _ h => ?_, fun _ h => ?_⟩
  · simp [Host.entry, Host.init] at h
  · simp [Host.memory, Host.init, replay, Memory.init] at h
  · simp [Host.init] at h
  · cases h

/-- The host as far as sessions go. -/
def Host.bare (host : Host) : Host :=
  { host with durable := ⟨none, 0⟩, unsynced := [], threads := .empty }

section Sessions

variable {host next : Host} {t : Tid} {pid : Pid} {m : Mutation} {plan : Plan} {table : SessionTable}

variable {memory : Memory} {s : LogicalShardId} {critical : Critical} {event : ℕ} {lease : LogicalShardLease}

lemma Memory.renew_eq_ok {value : Value} :
    memory.renew lease = .ok value ↔ ∃ record, memory.records.logicalShards.get lease.logicalShardId = some record ∧
      Names record lease ∧ memory.sessions.get lease.logicalShardId = some lease ∧ value = .record record := by
  unfold Memory.renew renewOwner
  rw [map_eq_ok]
  constructor
  · rintro ⟨record, hrecord, rfl⟩
    obtain ⟨hget, hnames, hsession⟩ := provedRecord_eq_ok.1 (mapError_eq_ok.1 hrecord)
    exact ⟨record, hget, hnames, hsession, rfl⟩
  · rintro ⟨record, hget, hnames, hsession, rfl⟩
    exact ⟨record, mapError_eq_ok.2 (provedRecord_eq_ok.2 ⟨hget, hnames, hsession⟩), rfl⟩

/-- No call stands between its plan and its end. -/
structure Host.Quiet (host : Host) : Prop where
  late : ∀ pid s, ¬ host.Late pid s
  taking : ∀ pid s, ¬ host.Taking pid s

lemma quiet_none (h : host.critical = none) : host.Quiet := by
  refine ⟨fun _ _ hlate => ?_, fun _ _ htaking => ?_⟩
  · obtain ⟨_, hcritical, -⟩ := hlate
    cases h.symm.trans hcritical
  · obtain ⟨_, _, _, hcritical, -⟩ := htaking
    cases h.symm.trans hcritical

lemma quiet_locked (h : host.critical = some ⟨t, pid, m, .locked⟩) : host.Quiet := by
  refine ⟨fun _ _ hlate => ?_, fun _ _ htaking => ?_⟩
  · obtain ⟨_, hcritical, -, -, hstage⟩ := hlate
    cases h.symm.trans hcritical
    cases hstage
  · obtain ⟨_, _, _, hcritical, -, -, hplan, -⟩ := htaking
    cases h.symm.trans hcritical
    cases hplan

/-- The sessions stand where tables and memory are as they were, locks are kept or taken for a session that
begins, and calls under way stay so. -/
lemma Host.Sessions.frame (h : host.Sessions) (hmemory : next.memory = host.memory)
    (hkept : ∀ s p, host.locks.get s = some p → next.locks.get s = some p)
    (htaken : ∀ s p, next.locks.get s = some p → host.locks.get s = some p ∨ next.Taking p s)
    (hentry : ∀ p s, next.entry p s = host.entry p s)
    (hlate : ∀ p s, host.Late p s → next.Late p s) (htaking : ∀ p s, host.Taking p s → next.Taking p s)
    (hcritical : ∀ c, next.critical = some c → next.processes.get c.pid ≠ none ∧ next.StageInv c) :
    next.Sessions := by
  refine ⟨fun p s session hsession => ?_, fun s lease hlive => ?_, fun s p hlock => ?_, hcritical⟩
  · rw [hentry] at hsession
    obtain ⟨hlock, hshard, hnames, hlive, hrecord⟩ := h.entry p s session hsession
    rw [← hmemory] at hlive hrecord
    exact ⟨hkept s p hlock, hshard, hnames, fun hf => hlive (mt (hlate p s) hf),
      fun hf => hrecord (mt (hlate p s) hf)⟩
  · rw [hmemory] at hlive
    obtain ⟨p, hlock, hcase⟩ := h.session s lease hlive
    rw [← hentry] at hcase
    exact ⟨p, hkept s p hlock, hcase.imp_right (hlate p s)⟩
  · rcases htaken s p hlock with hlock | htaken
    · rw [hentry]
      exact (h.lock s p hlock).imp_right (htaking p s)
    · exact .inr htaken

lemma Host.Sessions.quiet (h : host.Sessions) (hquiet : host.Quiet) {critical : Option Critical}
    (hcritical : ∀ c, critical = some c → host.processes.get c.pid ≠ none ∧ c.stage = .locked) :
    ({ host with critical := critical } : Host).Sessions := by
  refine h.frame rfl (fun _ _ => id) (fun _ _ => .inl) (fun _ _ => rfl) (fun p s hlate => absurd hlate (hquiet.late p s))
    (fun p s htaking => absurd htaking (hquiet.taking p s)) fun c hc => ?_
  obtain ⟨hprocess, hstage⟩ := hcritical c hc
  refine ⟨hprocess, ?_⟩
  rw [Host.StageInv, hstage]
  trivial

/-- The rest of the host moved on: the stage of the store lock's holder is as it was. -/
structure Moved (host next : Host) (critical : Critical) : Prop where
  file : next.file = host.file
  memory : Memory.Alike critical.mutation.shard host.memory next.memory
  entry : ∀ s, next.entry critical.pid s = host.entry critical.pid s
  lock : ∀ s, host.locks.get s = some critical.pid → next.locks.get s = some critical.pid
  journal : host.journal <+: next.journal

lemma Settles.moved (hmoved : Moved host next critical)
    (h : Settles host.memory host critical.pid critical.mutation plan) :
    Settles next.memory next critical.pid critical.mutation plan := by
  refine ⟨hmoved.memory.records.trans h.records, fun s hs hchange => ?_, fun s lease hs hchange => ?_,
    fun s hs hchange => ?_⟩
  · rw [hmoved.memory.session s hs, hmoved.entry]
    exact h.unchanged s hs hchange
  · obtain ⟨hlive, hlock, hnone⟩ := h.began s lease hs hchange
    exact ⟨(hmoved.memory.session s hs).trans hlive, hmoved.lock s hlock, (hmoved.entry s).trans hnone⟩
  · obtain ⟨hlive, hlock⟩ := h.ended s hs hchange
    exact ⟨(hmoved.memory.session s hs).trans hlive, hmoved.lock s hlock⟩

lemma take_of_prefix {journal more : List Event} (h : journal <+: more) {k : ℕ} {event : Event}
    (hk : journal[k]? = some event) : more.take k = journal.take k ∧ more[k]? = some event := by
  obtain ⟨_, rfl⟩ := h
  obtain ⟨hlt, -⟩ := List.getElem?_eq_some_iff.1 hk
  exact ⟨take_append_of_le_length hlt.le, by rw [getElem?_append_left hlt, hk]⟩

lemma Host.Unapplied.moved (hmoved : Moved host next critical)
    (h : host.Unapplied critical.tid critical.pid critical.mutation plan event) :
    next.Unapplied critical.tid critical.pid critical.mutation plan event := by
  obtain ⟨htake, hlogged⟩ := take_of_prefix hmoved.journal h.logged
  refine ⟨hlogged, by rw [htake]; exact h.value, h.settles.moved hmoved, fun s session hs hentry => ?_, h.released,
    h.write⟩
  rw [hmoved.entry] at hentry
  rw [htake]
  exact h.before s session hs hentry

lemma Host.StageInv.moved (h : host.StageInv critical) (hmoved : Moved host next critical) :
    next.StageInv critical := by
  unfold Host.StageInv at h ⊢
  split
  · trivial
  next plan hstage =>
    rw [hstage] at h
    refine ⟨?_, fun s hs => ?_, fun s lease hs hchange => hmoved.lock s (h.lock s lease hs hchange)⟩
    · rw [hmoved.file]
      exact h.planned.alike hmoved.memory
    · rw [hmoved.memory.session s hs, hmoved.entry]
      exact h.own s hs
  next plan event hstage =>
    rw [hstage] at h
    exact h.moved hmoved
  next plan event hstage =>
    rw [hstage] at h
    exact h.moved hmoved

lemma Host.Sessions.spawn (h : host.Sessions) (hnew : host.processes.get pid = none) :
    ({ host with processes := host.processes.insert pid .empty } : Host).Sessions := by
  have hentry : ∀ p s, Host.entry { host with processes := host.processes.insert pid .empty } p s
      = host.entry p s := by
    intro p s
    unfold Host.entry
    rw [get_insert]
    split
    next heq =>
      rw [heq, hnew]
      rfl
    next => rfl
  refine h.frame rfl (fun _ _ => id) (fun _ _ => .inl) hentry (fun _ _ hlate => hlate) (fun _ _ htaking => htaking) fun c hc => ?_
  obtain ⟨hprocess, hstage⟩ := h.critical c hc
  refine ⟨?_, hstage.moved ⟨rfl, ⟨rfl, fun _ _ => rfl⟩, hentry c.pid, fun _ hlock => hlock, prefix_rfl⟩⟩
  rw [get_insert]
  split
  · exact nofun
  · exact hprocess

/-! ### Sessions under the store lock -/

lemma late_planned (h : host.critical = some ⟨t, pid, m, .planned plan⟩) (p : Pid) (s : LogicalShardId) :
    ¬ host.Late p s := by
  rintro ⟨_, hcritical, -, -, hstage⟩
  cases h.symm.trans hcritical
  cases hstage

section

variable (h : host.Sessions) (hquiet : host.Quiet)
include h hquiet

lemma Host.Sessions.probe (hfile : host.file.getD .init = host.memory.records)
    (htable : host.processes.get pid = some table) : (Probed host.memory m (host.probeSession table m) ∧
      ∀ s, m.shard = some s → host.memory.sessions.get s = (host.entry pid s).map OwnerSession.lease) ∨
    (host.probeSession table m = some .foreign ∧ ∃ s live holder, m.shard = some s ∧
      host.memory.sessions.get s = some live ∧ host.locks.get s = some holder ∧ holder ≠ pid) := by
  have hinv : host.memory.Inv := replay_inv _
  cases hshard : m.shard with
  | none =>
    have hprobe : host.probeSession table m = none := by
      unfold Host.probeSession
      rw [hshard]
      rfl
    rw [hprobe]
    exact .inl ⟨.untouched hshard, fun s hs => by cases hs⟩
  | some s =>
    have hentry : host.entry pid s = table.get s := by
      unfold Host.entry
      rw [htable]
      rfl
    -- a shard without a record has no session, and no table has one
    cases hrecord : host.memory.records.logicalShards.get s with
    | none =>
      have hprobe : host.probeSession table m = none := by
        unfold Host.probeSession
        rw [hshard, hfile]
        show (host.memory.records.logicalShards.get s >>= _) = none
        rw [hrecord]
        rfl
      rw [hprobe]
      refine .inl ⟨.missing hshard hrecord, fun s' hs => ?_⟩
      cases hs
      rw [hinv.unheld hrecord]
      cases hsession : host.entry pid s with
      | none => rfl
      | some session => cases hrecord.symm.trans ((h.entry pid s session hsession).record (hquiet.late _ _))
    | some =>
      -- the process looks into its own table first, then at the lock
      cases hsession : table.get s with
      | some session =>
        have hprobe : host.probeSession table m = some (.held session.lease) := by
          simp [Host.probeSession, hshard, hfile, hrecord, hsession]
        rw [hprobe]
        have hlive := (h.entry pid s session (hentry.trans hsession)).live (hquiet.late _ _)
        refine .inl ⟨.held hshard hlive, fun s' hs => ?_⟩
        cases hs
        rw [hlive, hentry, hsession]
        rfl
      | none =>
        have hprobe : host.probeSession table m = some (if host.locks.get s = none then .free else .foreign) := by
          simp [Host.probeSession, hshard, hfile, hrecord, hsession]
        rw [hprobe]
        cases hlock : host.locks.get s with
        | none =>
          -- a live session would hold the lock
          have hfree : host.memory.sessions.get s = none := by
            refine Option.eq_none_iff_forall_ne_some.2 fun lease hlease => ?_
            obtain ⟨holder, hholder, -⟩ := h.session s lease hlease
            cases hlock.symm.trans hholder
          refine .inl ⟨.free hshard hfree, fun s' hs => ?_⟩
          cases hs
          rw [hfree, hentry, hsession]
          rfl
        | some holder =>
          -- somebody holds the lock: outside of a transition this is a live session, not ours
          obtain ⟨session, hother⟩ := Option.ne_none_iff_exists'.1
            ((h.lock s holder hlock).resolve_right (hquiet.taking _ _))
          refine .inr ⟨by simp, s, session.lease, holder, rfl,
            (h.entry holder s session hother).live (hquiet.late _ _), hlock, ?_⟩
          rintro rfl
          cases hother.symm.trans (hentry.trans hsession)

lemma Host.Sessions.unlocked (hnone : host.memory.sessions.get s = none) : host.locks.get s = none := by
  refine Option.eq_none_iff_forall_ne_some.2 fun holder hlock => ?_
  obtain ⟨session, hentry⟩ := Option.ne_none_iff_exists'.1
    ((h.lock s holder hlock).resolve_right (hquiet.taking _ _))
  cases hnone.symm.trans ((h.entry holder s session hentry).live (hquiet.late _ _))

lemma Host.Sessions.planned (hprocess : host.processes.get pid ≠ none)
    (hplan : Planned host.memory host.file m plan)
    (hown : ∀ s, m.shard = some s → host.memory.sessions.get s = (host.entry pid s).map OwnerSession.lease) :
    ({ host with
      critical := some ⟨t, pid, m, .planned plan⟩
      locks := lockSession host.locks pid m plan.change } : Host).Sessions := by
  -- only a session that begins takes a lock, and that lock was free
  have hlocks : lockSession host.locks pid m plan.change = host.locks ∨
      ∃ s lease, m.shard = some s ∧ plan.change = .began lease ∧ host.locks.get s = none ∧
        lockSession host.locks pid m plan.change = host.locks.insert s pid := by
    cases hchange : plan.change with
    | unchanged | ended => exact .inl rfl
    | began lease =>
      have hchanges := hplan.change
      rw [hchange] at hchanges
      cases hchanges with
      | began hs hbefore =>
        refine .inr ⟨_, lease, hs, rfl, h.unlocked hquiet hbefore, ?_⟩
        simp only [lockSession, hs]
  have hkept : ∀ s p, host.locks.get s = some p →
      (lockSession host.locks pid m plan.change).get s = some p := by
    intro s p hlock
    rcases hlocks with heq | ⟨s', lease, hs, hchange, hfree, heq⟩
    · rw [heq]
      exact hlock
    · rw [heq, get_insert_of_ne _ (by rintro rfl; cases hfree.symm.trans hlock)]
      exact hlock
  refine h.frame rfl hkept (fun s p hlock => ?_) (fun _ _ => rfl) (fun p s hlate => absurd hlate (hquiet.late p s))
    (fun p s htaking => absurd htaking (hquiet.taking p s)) fun c hc => ?_
  · dsimp only at hlock
    rcases hlocks with heq | ⟨_, lease, hs, hchange, _, heq⟩
    · rw [heq] at hlock
      exact .inl hlock
    · rw [heq] at hlock
      rcases get_insert_cases hlock with ⟨rfl, rfl⟩ | ⟨-, hlock⟩
      · exact .inr ⟨_, plan, lease, rfl, rfl, hs, rfl, hchange⟩
      · exact .inl hlock
  · cases hc
    refine ⟨hprocess, hplan, hown, fun s lease hs hchange => ?_⟩
    simp only [hchange, lockSession, hs, get_insert_self]

end

/-- While the session of its shard is live, the process of a transition has the lock. -/
lemma Settles.lock (h : Settles memory host pid m plan) (hsessions : host.Sessions) (hs : m.shard = some s)
    (hlive : memory.sessions.get s = some lease) : host.locks.get s = some pid := by
  cases hchange : plan.change with
  | unchanged =>
    rw [h.unchanged s hs hchange] at hlive
    obtain ⟨session, hentry, -⟩ := Option.map_eq_some_iff.1 hlive
    exact (hsessions.entry pid s session hentry).lock
  | began lease' => exact (h.began s lease' hs hchange).2.1
  | ended => exact (h.ended s hs hchange).2

/-- Only the holder of the store lock takes a session, the one its plan begins. -/
lemma Host.Taking.began {p : Pid} {stage : Stage} (h : host.Taking p s)
    (hcritical : host.critical = some ⟨t, pid, m, stage⟩) (hplan : stage.plan = some plan) :
    pid = p ∧ m.shard = some s ∧ ∃ lease, plan.change = .began lease := by
  obtain ⟨c, _, lease, hc, hp, hs, hplan', hchange⟩ := h
  cases hcritical.symm.trans hc
  cases hplan.symm.trans hplan'
  exact ⟨hp, hs, lease, hchange⟩

/-- The plan of a transition settles the session of its shard. -/
lemma Host.Ready.settles (h : host.Ready pid m plan) (hsessions : host.Sessions) :
    Settles (host.memory.mutate m).2 host pid m plan := by
  have hchanges := h.planned.change
  refine ⟨h.planned.next, fun s hs hchange => ?_, fun s lease hs hchange => ?_, fun s hs hchange => ?_⟩
  · rw [hchange] at hchanges
    cases hchanges with
    | unchanged hsame => rw [hsame s hs, h.own s hs]
  · rw [hchange] at hchanges
    cases hchanges with
    | began hs' hbefore hafter =>
      cases hs'.symm.trans hs
      rw [h.own s hs] at hbefore
      exact ⟨hafter, h.lock s lease hs hchange, Option.map_eq_none_iff.1 hbefore⟩
  · rw [hchange] at hchanges
    cases hchanges with
    | ended hs' hbefore hafter =>
      cases hs'.symm.trans hs
      refine ⟨hafter, ?_⟩
      rw [h.own s hs] at hbefore
      obtain ⟨session, hentry, -⟩ := Option.map_eq_some_iff.1 hbefore
      exact (hsessions.entry pid s session hentry).lock

/-- Only the process that made the plan has the session of the shard. -/
lemma Host.Ready.alone (h : host.Ready pid m plan) (hsessions : host.Sessions)
    (hlate : ∀ p s, ¬ host.Late p s) {p : Pid} {session : OwnerSession} (hs : m.shard = some s)
    (hentry : host.entry p s = some session) : p = pid := by
  obtain ⟨hlock, -, -, hlive, -⟩ := hsessions.entry p s session hentry
  have hown := h.own s hs
  rw [hlive (hlate _ _)] at hown
  obtain ⟨own, hmine, -⟩ := Option.map_eq_some_iff.1 hown.symm
  exact Option.some.inj (hlock.symm.trans (hsessions.entry pid s own hmine).lock)

/-- A transition that ends a session and writes the file has released the record. -/
lemma Host.Ready.released (h : host.Ready pid m plan) (hfile : host.file.getD .init = host.memory.records)
    (hwrite : plan.write = true) {record : LogicalShardRecord} (hs : m.shard = some s)
    (hchange : plan.change = .ended) (hrecord : plan.next.logicalShards.get s = some record) :
    record.leaseId = 0 := by
  have hchanges := h.planned.change
  rw [hchange] at hchanges
  cases hchanges with
  | ended hs' hbefore hafter =>
    cases hs'.symm.trans hs
    rw [← h.planned.next] at hrecord
    obtain hsame | ⟨_, hrecord', hzero⟩ := Memory.mutate_ended hs hbefore hafter
    · -- the file already had these records
      have hne := of_decide_eq_true (h.planned.write.symm.trans hwrite)
      rw [← h.planned.next, hsame, ← hfile] at hne
      cases hcontent : host.file with
      | some =>
        rw [hcontent] at hne
        exact absurd rfl hne
      | none =>
        obtain ⟨_, hfound, -⟩ := (show host.memory.Inv from replay_inv _).held hbefore
        rw [← hfile, hcontent] at hfound
        simp [Records.init] at hfound
    · cases hrecord.symm.trans hrecord'
      exact hzero

lemma Host.Sessions.rename (h : host.Sessions) (hfile : host.file.getD .init = host.memory.records)
    (hwrite : plan.write = true) (hcritical : host.critical = some ⟨t, pid, m, .planned plan⟩) :
    (host.rename t pid m plan).bare.Sessions := by
  obtain ⟨hprocess, hready⟩ := h.critical _ hcritical
  have hready : host.Ready pid m plan := hready
  have hnotlate := late_planned hcritical
  have hmemory : (host.rename t pid m plan).bare.memory = (host.memory.mutate m).2 := replay_concat _ _
  have hsettles := hready.settles h
  have hframe := host.memory.mutate_frame m
  have hlate : ∀ s, m.shard = some s → (host.rename t pid m plan).bare.Late pid s :=
    fun s hs => ⟨_, rfl, rfl, hs, rfl⟩
  refine ⟨fun p s session hentry => ?_, fun s lease hlive => ?_, fun s p hlock => ?_, fun c hc => ?_⟩
  · -- the table is late on the shard of the transition, and as before elsewhere
    obtain ⟨hlock, hshard, hnames, hlive, hrecord⟩ := h.entry p s session hentry
    have htouched : ¬ (host.rename t pid m plan).bare.Late p s → m.shard ≠ some s := by
      intro hfresh hs
      obtain rfl := hready.alone h hnotlate hs hentry
      exact hfresh (hlate s hs)
    refine ⟨hlock, hshard, hnames, fun hfresh => ?_, fun hfresh => ?_⟩
    · rw [hmemory]
      exact (hframe.session s (htouched hfresh)).trans (hlive (hnotlate _ _))
    · rw [hmemory]
      exact hframe.record s _ (htouched hfresh) (hrecord (hnotlate _ _))
  · -- the session that the transition makes is already locked
    rw [hmemory] at hlive
    by_cases hs : m.shard = some s
    · exact ⟨pid, hsettles.lock h hs hlive, .inr (hlate s hs)⟩
    · have hbefore : host.memory.sessions.get s = some lease := (hframe.session s hs).symm.trans hlive
      obtain ⟨p, hlock, hentry | hother⟩ := h.session s lease hbefore
      · exact ⟨p, hlock, .inl hentry⟩
      · exact absurd hother (hnotlate _ _)
  · rcases h.lock s p hlock with hentry | htaking
    · exact .inl hentry
    · obtain ⟨hp, hs, lease, hchange⟩ := htaking.began hcritical rfl
      exact .inr ⟨_, plan, lease, rfl, hp, hs, rfl, hchange⟩
  · -- the stage: the journal has the transition, the table does not
    cases hc
    refine ⟨hprocess, ?_, ?_, ?_, fun s session hs hentry => ?_,
      fun s record hs hchange hrecord => hready.released hfile hwrite hs hchange hrecord, hwrite⟩
    · simp [Host.rename, Host.bare]
    · simp only [Host.rename, Host.bare, take_left]
      exact hready.planned.value
    · rw [hmemory]
      exact ⟨hsettles.records, hsettles.unchanged, hsettles.began, hsettles.ended⟩
    · obtain ⟨-, hshard, hnames, hlive, hrecord⟩ := h.entry pid s session hentry
      simp only [Host.rename, Host.bare, take_left]
      refine Memory.renew_eq_ok.2 ⟨session.record, ?_, hnames, ?_, rfl⟩
      · rw [hshard]
        exact hrecord (hnotlate _ _)
      · rw [hshard]
        exact hlive (hnotlate _ _)

lemma Host.Sessions.sync (h : host.Sessions)
    (hcritical : host.critical = some ⟨t, pid, m, .renamed plan event⟩) :
    ({ host with critical := some ⟨t, pid, m, .synced plan event⟩ } : Host).Sessions := by
  refine h.frame rfl (fun _ _ => id) (fun _ _ => .inl) (fun _ _ => rfl) ?_ ?_ fun c hc => ?_
  · rintro p s ⟨c, hc, hp, hs, -⟩
    cases hcritical.symm.trans hc
    exact ⟨_, rfl, hp, hs, rfl⟩
  · intro p s htaking
    obtain ⟨hp, hs, lease, hchange⟩ := htaking.began hcritical rfl
    exact ⟨_, plan, lease, rfl, hp, hs, rfl, hchange⟩
  · cases hc
    obtain ⟨hprocess, hstage⟩ := h.critical _ hcritical
    have hstage : host.Unapplied t pid m plan event := hstage
    obtain ⟨hrecords, hunchanged, hbegan, hended⟩ := hstage.settles
    exact ⟨hprocess, hstage.logged, hstage.value, ⟨hrecords, hunchanged, hbegan, hended⟩, hstage.before,
      hstage.released, hstage.write⟩

/-- The table a transition leaves has the live session of its shard with the durable record. -/
lemma Settles.applied (h : Settles memory host pid m plan) (hinv : memory.Inv)
    (htable : host.processes.get pid = some table) :
    ∃ applied, appliedTable table m plan = .ok applied ∧
      (∀ s, m.shard ≠ some s → applied.get s = table.get s) ∧
      ∀ s, m.shard = some s → applied.get s = (memory.sessions.get s).bind fun lease =>
        (memory.records.logicalShards.get s).map fun record => ⟨lease, record⟩ := by
  unfold appliedTable
  cases hshard : m.shard with
  | none => exact ⟨table, rfl, fun _ _ => rfl, nofun⟩
  | some s =>
    have hentry : host.entry pid s = table.get s := by
      unfold Host.entry
      rw [htable]
      rfl
    have hother : ∀ {s' : LogicalShardId}, some s ≠ some s' → s' ≠ s := fun hne heq => hne (congrArg some heq.symm)
    dsimp only
    rw [← h.records]
    cases hchange : plan.change with
    | unchanged =>
      have hlive := h.unchanged s hshard hchange
      rw [hentry] at hlive
      unfold applySessionChange
      -- a kept session gets the new record, a missing one stays missing
      cases hsession : table.get s with
      | none =>
        rw [hsession] at hlive
        refine ⟨table, rfl, fun _ _ => rfl, fun s' hs => ?_⟩
        cases hs
        rw [hsession, hlive]
        rfl
      | some =>
        rw [hsession] at hlive
        obtain ⟨record, hrecord, -⟩ := hinv.held hlive
        rw [hrecord]
        refine ⟨_, rfl, fun s' hs => get_insert_of_ne _ (hother hs), fun s' hs => ?_⟩
        cases hs
        rw [get_insert_self, hlive, hrecord]
        rfl
    | began lease =>
      obtain ⟨hlive, -⟩ := h.began s lease hshard hchange
      obtain ⟨_, hrecord, -⟩ := hinv.held hlive
      unfold applySessionChange
      rw [hrecord]
      refine ⟨_, rfl, fun s' hs => get_insert_of_ne _ (hother hs), fun s' hs => ?_⟩
      cases hs
      rw [get_insert_self, hlive, hrecord]
      rfl
    | ended =>
      obtain ⟨hlive, -⟩ := h.ended s hshard hchange
      refine ⟨_, rfl, fun s' hs => ?_, fun s' hs => ?_⟩
      · rw [get_erase, if_neg (hother hs)]
      · cases hs
        rw [get_erase, if_pos rfl, hlive]
        rfl

/-- What a transition about to complete holds of the sessions. -/
structure Completing (host : Host) (pid : Pid) (m : Mutation) (plan : Plan) (memory : Memory) : Prop where
  settles : Settles memory host pid m plan
  inv : memory.Inv
  session : ∀ s, m.shard ≠ some s → memory.sessions.get s = host.memory.sessions.get s
  record : ∀ s record, m.shard ≠ some s → host.memory.records.logicalShards.get s = some record →
    memory.records.logicalShards.get s = some record
  alone : ∀ p s session, m.shard = some s → host.entry p s = some session → p = pid
  late : ∀ p s, host.Late p s → m.shard = some s
  taking : ∀ p s, host.Taking p s → m.shard = some s ∧ ∃ lease, plan.change = .began lease

/-- The host when the transition is over: the process has another table, and the lock of a session that
ended is free. -/
def Host.closed (host : Host) (pid : Pid) (m : Mutation) (change : SessionChange) (applied : SessionTable)
    (journal : List Event) : Host :=
  { host with
    critical := none
    processes := host.processes.insert pid applied
    locks := unlockSession host.locks m change
    journal := journal }

section Closed

variable {p : Pid} {change : SessionChange} {applied : SessionTable} {journal : List Event}

lemma entry_closed (p : Pid) (s : LogicalShardId) : (host.closed pid m change applied journal).entry p s =
    if p = pid then applied.get s else host.entry p s := by
  show ((host.processes.insert pid applied).get p).bind (fun table => table.get s) = _
  rw [get_insert]
  unfold Host.entry
  split <;> rfl

lemma entry_closed_of_ne (hframe : ∀ s, m.shard ≠ some s → applied.get s = table.get s)
    (htable : host.processes.get pid = some table) (p : Pid) (hs : m.shard ≠ some s) :
    (host.closed pid m change applied journal).entry p s = host.entry p s := by
  rw [entry_closed]
  split
  next heq =>
    rw [hframe s hs, heq, Host.entry, htable]
    rfl
  next => rfl

lemma locks_closed_of_ne (hs : m.shard ≠ some s) :
    (host.closed pid m change applied journal).locks.get s = host.locks.get s := by
  show (unlockSession host.locks m change).get s = _
  unfold unlockSession
  split
  · split
    next shard hshard =>
      rw [get_erase, if_neg]
      rintro rfl
      exact hs hshard
    · rfl
  · rfl

/-- No other process has a session on the shard. -/
lemma Completing.eq_of_entry (hc : Completing host pid m plan memory) (hs : m.shard = some s)
    {session : OwnerSession}
    (hsession : (host.closed pid m plan.change applied journal).entry p s = some session) : p = pid := by
  by_contra hp
  rw [entry_closed, if_neg hp] at hsession
  exact hp (hc.alone p s session hs hsession)

/-- The lock of the shard is the process's while the session is live. -/
lemma Completing.lock_closed (hc : Completing host pid m plan memory) (h : host.Sessions) (hs : m.shard = some s)
    (hlive : memory.sessions.get s = some lease) :
    (host.closed pid m plan.change applied journal).locks.get s = some pid := by
  have hheld := hc.settles.lock h hs hlive
  cases hchange : plan.change with
  | unchanged | began =>
    simp only [Host.closed, unlockSession]
    exact hheld
  | ended => cases (hc.settles.ended s hs hchange).1.symm.trans hlive

/-- A lock that is still held on the shard belongs to a live session of the process. -/
lemma Completing.live_of_lock (hc : Completing host pid m plan memory) (h : host.Sessions) (hs : m.shard = some s)
    (hlocked : (host.closed pid m plan.change applied journal).locks.get s = some p) :
    p = pid ∧ ∃ lease, memory.sessions.get s = some lease := by
  cases hchange : plan.change with
  | unchanged =>
    simp only [Host.closed, hchange, unlockSession] at hlocked
    obtain hsession | htaking := h.lock s p hlocked
    · obtain ⟨session, hsession⟩ := Option.ne_none_iff_exists'.1 hsession
      obtain rfl := hc.alone p s session hs hsession
      exact ⟨rfl, session.lease, by rw [hc.settles.unchanged s hs hchange, hsession]; rfl⟩
    · -- a lock is taken only for a session that begins
      obtain ⟨-, lease, hbegan⟩ := hc.taking p s htaking
      cases hchange.symm.trans hbegan
  | began lease =>
    simp only [Host.closed, hchange, unlockSession] at hlocked
    obtain ⟨hlive, hheld, -⟩ := hc.settles.began s lease hs hchange
    exact ⟨Option.some.inj (hlocked.symm.trans hheld), lease, hlive⟩
  | ended =>
    simp only [Host.closed, hchange, unlockSession, hs, get_erase, if_true] at hlocked
    cases hlocked

end Closed

lemma Host.Sessions.complete (h : host.Sessions) (hc : Completing host pid m plan memory)
    {applied : SessionTable} {journal : List Event} (hjournal : replay journal = memory)
    (hframe : ∀ s, m.shard ≠ some s → applied.get s = table.get s)
    (happlied : ∀ s, m.shard = some s → applied.get s = (memory.sessions.get s).bind fun lease =>
        (memory.records.logicalShards.get s).map fun record => ⟨lease, record⟩)
    (htable : host.processes.get pid = some table) :
    (host.closed pid m plan.change applied journal).Sessions := by
  subst hjournal
  have hmine : ∀ s, m.shard = some s → (host.closed pid m plan.change applied journal).entry pid s =
      ((replay journal).sessions.get s).bind fun lease =>
        ((replay journal).records.logicalShards.get s).map fun record => ⟨lease, record⟩ := by
    intro s hs
    rw [entry_closed, if_pos rfl, happlied s hs]
  have hfilled : ∀ s lease, m.shard = some s → (replay journal).sessions.get s = some lease →
      ((host.closed pid m plan.change applied journal).entry pid s).map OwnerSession.lease = some lease := by
    intro s lease hs hlive
    obtain ⟨record, hrecord, -⟩ := hc.inv.held hlive
    rw [hmine s hs, hlive, hrecord]
    rfl
  -- each part for the shard of the transition, and for the others, on which nothing has changed
  refine ⟨fun p s session hsession => ?_, fun s lease hlive => ?_, fun s p hlocked => .inl ?_,
    fun c hcritical => ?_⟩
  · by_cases hs : m.shard = some s
    · obtain rfl := hc.eq_of_entry hs hsession
      rw [hmine s hs] at hsession
      obtain ⟨lease, hlive, hsession⟩ := Option.bind_eq_some_iff.1 hsession
      obtain ⟨record, hrecord, rfl⟩ := Option.map_eq_some_iff.1 hsession
      obtain ⟨hshard, _, hrecord', hnames⟩ := hc.inv.owner.session s lease hlive
      cases hrecord.symm.trans hrecord'
      exact ⟨hc.lock_closed h hs hlive, hshard, hnames, fun _ => hlive, fun _ => hrecord⟩
    · rw [entry_closed_of_ne hframe htable p hs] at hsession
      obtain ⟨hheld, hshard, hnames, hlive, hrecord⟩ := h.entry p s session hsession
      have hfresh : ¬ host.Late p s := fun hlate => hs (hc.late p s hlate)
      refine ⟨(locks_closed_of_ne hs).trans hheld, hshard, hnames, fun _ => ?_, fun _ => ?_⟩
      · exact (hc.session s hs).trans (hlive hfresh)
      · exact hc.record s _ hs (hrecord hfresh)
  · by_cases hs : m.shard = some s
    · exact ⟨pid, hc.lock_closed h hs hlive, .inl (hfilled s lease hs hlive)⟩
    · obtain ⟨p, hheld, hsession | hlate⟩ := h.session s lease ((hc.session s hs).symm.trans hlive)
      · refine ⟨p, (locks_closed_of_ne hs).trans hheld, .inl ?_⟩
        rw [entry_closed_of_ne hframe htable p hs]
        exact hsession
      · exact absurd (hc.late p s hlate) hs
  · by_cases hs : m.shard = some s
    · obtain ⟨rfl, lease, hlive⟩ := hc.live_of_lock h hs hlocked
      intro hnone
      have hsome := hfilled s lease hs hlive
      rw [hnone] at hsome
      cases hsome
    · rw [locks_closed_of_ne hs] at hlocked
      rw [entry_closed_of_ne hframe htable p hs]
      exact (h.lock s p hlocked).resolve_right fun htaking => hs (hc.taking p s htaking).1
  · cases (show (none : Option Critical) = some c from hcritical)

/-- A live session on the shard of a planned transition is its process's own. -/
lemma Host.Sessions.own (h : host.Sessions) (hcritical : host.critical = some critical)
    (hplanned : critical.stage ≠ .locked) (hs : critical.mutation.shard = some s)
    (hlive : host.memory.sessions.get s = some lease) : host.locks.get s = some critical.pid := by
  obtain ⟨-, hstage⟩ := h.critical critical hcritical
  unfold Host.StageInv at hstage
  split at hstage
  next hlocked => exact absurd hlocked hplanned
  next plan _ =>
    rw [hstage.own s hs] at hlive
    obtain ⟨session, hentry, -⟩ := Option.map_eq_some_iff.1 hlive
    exact (h.entry _ s session hentry).lock
  next plan _ _ => exact hstage.settles.lock h hs hlive
  next plan _ _ => exact hstage.settles.lock h hs hlive

lemma Host.Sessions.completing_planned (h : host.Sessions)
    (hcritical : host.critical = some ⟨t, pid, m, .planned plan⟩) :
    Completing host pid m plan (host.memory.mutate m).2 := by
  have hready : host.Ready pid m plan := (h.critical _ hcritical).2
  have hnotlate := late_planned hcritical
  have hframe := host.memory.mutate_frame m
  refine ⟨hready.settles h, (replay_inv _).mutate m, hframe.session, fun s record hs => hframe.record s record hs,
    fun p s session hs hentry => hready.alone h hnotlate hs hentry,
    fun p s hlate => absurd hlate (hnotlate p s), fun p s htaking => (htaking.began hcritical rfl).2⟩

lemma Host.Sessions.completing_synced (h : host.Sessions)
    (hcritical : host.critical = some ⟨t, pid, m, .synced plan event⟩) :
    Completing host pid m plan host.memory := by
  have hunapplied : host.Unapplied t pid m plan event := (h.critical _ hcritical).2
  have hsettles := hunapplied.settles
  have hlate : ∀ p s, host.Late p s → p = pid ∧ m.shard = some s := by
    rintro p s ⟨c, hc, rfl, hs, -⟩
    cases hcritical.symm.trans hc
    exact ⟨rfl, hs⟩
  refine ⟨hsettles, replay_inv _, fun _ _ => rfl, fun _ _ _ hrecord => hrecord,
    fun p s session hs hentry => ?_, fun p s h => (hlate p s h).2,
    fun p s htaking => (htaking.began hcritical rfl).2⟩
  by_contra hp
  obtain ⟨hlock, -, -, hlive, -⟩ := h.entry p s session hentry
  have hmine := h.own hcritical nofun hs (hlive fun hl => hp (hlate p s hl).1)
  exact hp (Option.some.inj (hlock.symm.trans hmine))

/-! ### Sessions lost -/

lemma mem_held {locks : OrdMap LogicalShardId Pid} :
    s ∈ (locks.rows.filter fun row => row.2 = pid).map Prod.fst ↔ locks.get s = some pid := by
  simp only [mem_map, mem_filter, decide_eq_true_eq, Prod.exists, exists_and_right, exists_eq_right]
  exact mem_rows

lemma crash_locks (host : Host) (pid : Pid) (s : LogicalShardId) :
    (host.crash pid).locks.get s = if host.locks.get s = some pid then none else host.locks.get s := by
  unfold Host.crash
  rw [get_foldl_erase]
  simp only [mem_held]

lemma crash_memory (host : Host) (pid : Pid) : (host.crash pid).memory.records = host.memory.records ∧
    ∀ s, (host.crash pid).memory.sessions.get s =
      if host.locks.get s = some pid then none else host.memory.sessions.get s := by
  obtain ⟨hrecords, hsessions⟩ := replay_lost host.journal
    ((host.locks.rows.filter fun row => row.2 = pid).map Prod.fst)
  refine ⟨hrecords, fun s => (hsessions s).trans ?_⟩
  simp only [mem_held]
  rfl

lemma crash_entry (host : Host) (pid p : Pid) (s : LogicalShardId) :
    (host.crash pid).entry p s = if p = pid then none else host.entry p s := by
  show ((host.processes.erase pid).get p).bind (fun table => table.get s) = _
  rw [get_erase]
  split
  · rfl
  · rfl

lemma crash_critical (h : (host.crash pid).critical = some critical) :
    host.critical = some critical ∧ critical.pid ≠ pid := by
  obtain ⟨hcritical, hpid⟩ := Option.filter_eq_some_iff.1 h
  exact ⟨hcritical, by simpa using hpid⟩

lemma crash_critical_of (h : host.critical = some critical) (hpid : critical.pid ≠ pid) :
    (host.crash pid).critical = some critical :=
  Option.filter_eq_some_iff.2 ⟨h, by simpa using hpid⟩

lemma Host.Sessions.crash (h : host.Sessions) : (host.crash pid).Sessions := by
  obtain ⟨hrecords, hsessions⟩ := crash_memory host pid
  refine ⟨fun p s session hentry => ?_, fun s lease hlive => ?_, fun s p hlock => ?_, fun c hc => ?_⟩
  · -- the tables of the other processes, whose locks stay
    rw [crash_entry] at hentry
    split at hentry
    · cases hentry
    next hp =>
      obtain ⟨hlock, hshard, hnames, hlive, hrecord⟩ := h.entry p s session hentry
      have hkept : host.locks.get s ≠ some pid := by
        rw [hlock]
        exact fun heq => hp (Option.some.inj heq)
      have hfresh : ¬ (host.crash pid).Late p s → ¬ host.Late p s := by
        rintro hfresh ⟨c, hc, rfl, hs, hstage⟩
        exact hfresh ⟨c, crash_critical_of hc hp, rfl, hs, hstage⟩
      refine ⟨?_, hshard, hnames, fun hf => ?_, fun hf => ?_⟩
      · rw [crash_locks, if_neg hkept]
        exact hlock
      · rw [hsessions, if_neg hkept]
        exact hlive (hfresh hf)
      · rw [hrecords]
        exact hrecord (hfresh hf)
  · -- a session that is still live was not the dead process's
    rw [hsessions] at hlive
    split at hlive
    · cases hlive
    next hkept =>
      obtain ⟨p, hlock, hcase⟩ := h.session s lease hlive
      have hp : p ≠ pid := by
        rintro rfl
        exact hkept hlock
      refine ⟨p, by rw [crash_locks, if_neg hkept]; exact hlock, ?_⟩
      rcases hcase with hentry | ⟨c, hc, rfl, hs, hstage⟩
      · left
        rw [crash_entry, if_neg hp]
        exact hentry
      · exact .inr ⟨c, crash_critical_of hc hp, rfl, hs, hstage⟩
  · -- the locks that are left
    rw [crash_locks] at hlock
    split at hlock
    · cases hlock
    next hkept =>
      have hp : p ≠ pid := by
        rintro rfl
        exact hkept hlock
      rcases h.lock s p hlock with hentry | ⟨c, plan, lease, hc, rfl, hs, hplan, hchange⟩
      · left
        rw [crash_entry, if_neg hp]
        exact hentry
      · exact .inr ⟨c, plan, lease, crash_critical_of hc hp, rfl, hs, hplan, hchange⟩
  · -- the transition under way is another process's, and its stage stands
    obtain ⟨hc, hpid⟩ := crash_critical hc
    obtain ⟨hprocess, hstage⟩ := h.critical c hc
    refine ⟨?_, ?_⟩
    · show (host.processes.erase pid).get c.pid ≠ none
      rw [get_erase, if_neg hpid]
      exact hprocess
    by_cases hplanned : c.stage = .locked
    · rw [Host.StageInv, hplanned]
      trivial
    refine hstage.moved ⟨rfl, ⟨hrecords, fun s hs => ?_⟩, fun s => ?_, fun s hlock => ?_, prefix_append _ _⟩
    · rw [hsessions]
      split
      next hlost =>
        by_contra hsome
        obtain ⟨_, hlive⟩ := Option.ne_none_iff_exists'.1 (Ne.symm hsome)
        exact hpid (Option.some.inj ((h.own hc hplanned hs hlive).symm.trans hlost))
      · rfl
    · rw [crash_entry, if_neg hpid]
    · rw [crash_locks, hlock, if_neg fun heq => hpid (Option.some.inj heq)]

lemma sessions_powerLoss (version : Version) : (host.powerLoss version).bare.Sessions := by
  refine ⟨fun p s session hentry => ?_, fun s lease hlive => ?_, fun s p hlock => ?_, fun c hc => ?_⟩
  · cases (show (none : Option OwnerSession) = some session from hentry)
  · obtain ⟨-, hsessions⟩ := replay_lost (host.journal.take version.events)
      ((replay (host.journal.take version.events)).sessions.rows.map Prod.fst)
    rw [map_map] at hsessions
    have hlive : (if s ∈ (replay (host.journal.take version.events)).sessions.rows.map Prod.fst then none
        else (replay (host.journal.take version.events)).sessions.get s) = some lease :=
      (hsessions s).symm.trans hlive
    split at hlive
    · cases hlive
    next hmem => exact absurd (mem_map.2 ⟨(s, lease), mem_rows.2 hlive, rfl⟩) hmem
  · cases (show (none : Option Pid) = some p from hlock)
  · cases (show (none : Option Critical) = some c from hc)

end Sessions

end NoKV.Control
