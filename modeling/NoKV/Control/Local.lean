import NoKV.Control.Memory

/-!
# The local control store

The control store of processes that share one directory: a state file replaced by rename under a store
lock, one lock file a logical shard for its owner session, and in each process a table of the sessions
it holds.

The steps of a call are those between which another process can run, a process can die or the host can
lose power. Beside its files the host carries a *journal*: the transitions that took effect and the
sessions that were lost, in order. `replay` runs the in-memory store over it.
-/

namespace NoKV.Control

open Lib RecordError

abbrev Pid := ℕ
abbrev Tid := ℕ

/-! ### The state file -/

/-- The checks of writing the state file. -/
def encodeLocalControlState (records : Records) : Except CallError Unit := do
  records.rootPlacements.rows.forM fun row => (validateRootPlacement row.2).mapError .control
  records.logicalShards.rows.forM fun row => (validateRecord row.2).mapError .control

/-- The checks of reading it. -/
def decodeLocalControlState (records : Records) : Except CallError Records := do
  records.rootPlacements.rows.forM fun row => (validateRootPlacement row.2).mapError .control
  records.logicalShards.rows.forM fun row => do
    (validateRecord row.2).mapError .control
    refuseIf (records.nextLeaseId < row.2.leaseId)
      (CallError.codec "logical shard lease id is beyond the local lease allocator")
  encodeLocalControlState records
  pure records

/-- The records of the file; before its first write every record reads as absent. -/
def readState : Option Records → Except CallError Records
  | some records => decodeLocalControlState records
  | none => pure .init

/-! ### Sessions -/

/-- A session this process holds, with the record it last stored. -/
structure OwnerSession where
  lease : LogicalShardLease
  record : LogicalShardRecord

abbrev SessionTable := OrdMap LogicalShardId OwnerSession

/-- What a process finds when it looks for the session of a shard. -/
inductive SessionProbe where
  | held (lease : LogicalShardLease)
  | free
  | foreign

/-- What a transition does to the session of its shard. -/
inductive SessionChange where
  | unchanged
  | began (lease : LogicalShardLease)
  | ended

/-- The session the transition sees. A foreign session is live but grants no authority: its lease id
is zero, which no owned record carries. -/
def liveSession (record : Option LogicalShardRecord) : SessionProbe → Option LogicalShardLease
  | .held lease => some lease
  | .free => none
  | .foreign => do
    let record ← record
    let owner ← record.owner
    let ownerEpoch ← record.ownerEpoch
    pure ⟨record.logicalShardId, owner, ownerEpoch, 0⟩

/-- The refusal of a transition that would change a foreign session. -/
def foreignSessionError (shard : LogicalShardId) (record : Option LogicalShardRecord) : CallError :=
  match record.bind LogicalShardRecord.ownerEpoch with
  | some ownerEpoch => .control (.previousOwnerSessionLive shard ownerEpoch)
  | none => .backend "another process holds the session lock of a never-owned logical shard"

def sessionChange (shard : LogicalShardId) (probe : SessionProbe) (live : Option LogicalShardLease)
    (after : Memory) : Except CallError SessionChange :=
  match probe, after.sessions.get shard with
  | .held lease, some session =>
    if session = lease then pure .unchanged
    else throw (.backend "a held local owner session was replaced without ending")
  | .held _, none => pure .ended
  | .free, some lease => pure (.began lease)
  | .free, none => pure .unchanged
  | .foreign, session =>
    if session = live then pure .unchanged
    else throw (foreignSessionError shard (after.records.logicalShards.get shard))

/-- The session change of a transition that touches a shard; a shard without a record is not probed. -/
def changeOf (shard : Option LogicalShardId) (probe : Option SessionProbe) (live : Option LogicalShardLease)
    (after : Memory) : Except CallError SessionChange :=
  match shard, probe with
  | some shard, some probe => sessionChange shard probe live after
  | some shard, none =>
    if after.sessions.get shard = none then pure .unchanged
    else throw (.backend "a local owner session began without its lock")
  | none, _ => pure .unchanged

/-- The table of a process behind a transition on the shard. -/
def applySessionChange (table : SessionTable) (shard : LogicalShardId) (records : Records) :
    SessionChange → Except CallError SessionTable
  | .unchanged =>
    match table.get shard, records.logicalShards.get shard with
    | some session, some record => pure (table.insert shard { session with record := record })
    | _, _ => pure table
  | .began lease => do
    let record ← okOr (records.logicalShards.get shard) (CallError.control (.logicalShardNotFound shard))
    pure (table.insert shard ⟨lease, record⟩)
  | .ended => pure (table.erase shard)

def heldRecord (table : SessionTable) (lease : LogicalShardLease) : Except CallError LogicalShardRecord := do
  let session ← okOr ((table.get lease.logicalShardId).filter fun session => session.lease = lease)
    (CallError.control (.staleLease lease))
  (validateRecordLease session.record lease).mapError .control
  pure session.record

/-- The second half of a renewal: the durable record against the held one. -/
def renewedRecord (file : Option Records) (lease : LogicalShardLease) (held : LogicalShardRecord) :
    Except CallError Value := do
  let records ← readState file
  let durable ← okOr (records.logicalShards.get lease.logicalShardId)
    (CallError.control (.logicalShardNotFound lease.logicalShardId))
  (validateRecordLease durable lease).mapError .control
  refuseIf (durable ≠ held)
    (CallError.backend "the durable logical shard record changed outside its owner session")
  pure (.record durable)

/-! ### A transition under the store lock -/

structure Plan where
  value : Value
  next : Records
  change : SessionChange
  write : Bool

/-- The in-memory store a transition runs on: the durable records and the session of its shard. -/
def probedMemory (records : Records) (m : Mutation) (probe : Option SessionProbe) : Memory where
  records := records
  sessions :=
    match m.shard, probe with
    | some shard, some probe =>
      match liveSession (records.logicalShards.get shard) probe with
      | some lease => OrdMap.empty.insert shard lease
      | none => .empty
    | _, _ => .empty

/-- The transition over the durable records. -/
def planMutation (file : Option Records) (m : Mutation) (probe : Option SessionProbe) :
    Except CallError Plan := do
  let records ← readState file
  let memory := probedMemory records m probe
  let value ← (memory.mutate m).1
  let after := (memory.mutate m).2
  let change ← changeOf m.shard probe (m.shard.bind memory.sessions.get) after
  encodeLocalControlState after.records
  pure ⟨value, after.records, change, file ≠ some after.records⟩

/-! ### The host -/

inductive Call where
  | mutate (m : Mutation)
  | query (q : Query)
  | renewOwner (lease : LogicalShardLease)
  | proveOwner (lease : LogicalShardLease)

/-- One transition of the in-memory store that took effect, or a session lost with its process. -/
inductive Event where
  | mutated (tid : Tid) (m : Mutation)
  | sessionLost (shard : LogicalShardId)

/-- Where a call stands. `late` and `foreign` say how things stood when its answer was read: whether a
transition of its own process on the shard had replaced the file and not yet changed the session table,
and whether another process held the lock of the shard. -/
inductive CallProgress where
  | begun
  | held (record : LogicalShardRecord) (late : Bool)
  | finished (answer : Except CallError Value) (late foreign : Bool)

/-- A running call. `start` is the length of the journal when it began. -/
structure Thread where
  pid : Pid
  call : Call
  start : ℕ
  progress : CallProgress

/-- Where the holder of the store lock stands. `event` is where the journal has its transition. -/
inductive Stage where
  | locked
  | planned (plan : Plan)
  | renamed (plan : Plan) (event : ℕ)
  | synced (plan : Plan) (event : ℕ)

/-- The holder of the store lock. -/
structure Critical where
  tid : Tid
  pid : Pid
  mutation : Mutation
  stage : Stage

/-- A content of the state file and the length of the journal behind it. -/
structure Version where
  file : Option Records
  events : ℕ

/-- The host: the state file, the contents a loss of power can bring back, the holder of the lock of
each shard, the session tables of the live processes, the running calls and the journal. -/
structure Host where
  file : Option Records
  durable : Version
  unsynced : List Version
  locks : OrdMap LogicalShardId Pid
  processes : OrdMap Pid SessionTable
  threads : OrdMap Tid Thread
  critical : Option Critical
  journal : List Event

def Host.init : Host where
  file := none
  durable := ⟨none, 0⟩
  unsynced := []
  locks := .empty
  processes := .empty
  threads := .empty
  critical := none
  journal := []

/-! ### The reference run -/

def Memory.apply (memory : Memory) : Event → Memory
  | .mutated _ m => (memory.mutate m).2
  | .sessionLost shard => memory.endSession shard

/-- The in-memory store behind a journal. -/
def replay (journal : List Event) : Memory := journal.foldl Memory.apply .init

/-- The in-memory store the host stands for. -/
def Host.memory (host : Host) : Memory := replay host.journal

/-! ### Steps -/

def Call.shard : Call → Option LogicalShardId
  | .mutate m => m.shard
  | .query _ => none
  | .renewOwner lease => some lease.logicalShardId
  | .proveOwner lease => some lease.logicalShardId

def Stage.isUnapplied : Stage → Bool
  | .renamed .. => true
  | .synced .. => true
  | _ => false

/-- A transition of the process on the shard has replaced the file and not yet changed the table. -/
def Host.isLate (host : Host) (pid : Pid) (shard : Option LogicalShardId) : Bool :=
  host.critical.any fun critical =>
    critical.pid = pid && critical.mutation.shard = shard && shard.isSome && critical.stage.isUnapplied

def Host.isForeign (host : Host) (pid : Pid) (shard : Option LogicalShardId) : Bool :=
  (shard.bind host.locks.get).any fun holder => holder ≠ pid

def Host.progress (host : Host) (t : Tid) (thread : Thread) (progress : CallProgress) : Host :=
  { host with threads := host.threads.insert t { thread with progress := progress } }

def Host.finish (host : Host) (t : Tid) (thread : Thread) (answer : Except CallError Value) : Host :=
  host.progress t thread (.finished answer (host.isLate thread.pid thread.call.shard)
    (host.isForeign thread.pid thread.call.shard))

/-- What the process finds of the session of the shard the transition touches. -/
def Host.probeSession (host : Host) (table : SessionTable) (m : Mutation) : Option SessionProbe := do
  let shard ← m.shard
  let _ ← (host.file.getD .init).logicalShards.get shard
  pure <| match table.get shard with
    | some session => .held session.lease
    | none => if host.locks.get shard = none then .free else .foreign

/-- The lock taken by the probe is kept when a session began. -/
def lockSession (locks : OrdMap LogicalShardId Pid) (pid : Pid) (m : Mutation) : SessionChange →
    OrdMap LogicalShardId Pid
  | .began _ => match m.shard with
    | some shard => locks.insert shard pid
    | none => locks
  | _ => locks

/-- The lock of a session that ended is dropped. -/
def unlockSession (locks : OrdMap LogicalShardId Pid) (m : Mutation) : SessionChange →
    OrdMap LogicalShardId Pid
  | .ended => match m.shard with
    | some shard => locks.erase shard
    | none => locks
  | _ => locks

/-- Read the file, probe the session and run the transition over them. -/
def Host.plan (host : Host) (t : Tid) (thread : Thread) (m : Mutation) (table : SessionTable) : Host :=
  match planMutation host.file m (host.probeSession table m) with
  | .error error => { host with critical := none }.finish t thread (.error error)
  | .ok plan =>
    { host with
      critical := some ⟨t, thread.pid, m, .planned plan⟩
      locks := lockSession host.locks thread.pid m plan.change }

def Host.rename (host : Host) (t : Tid) (pid : Pid) (m : Mutation) (plan : Plan) : Host :=
  { host with
    file := some plan.next
    unsynced := host.unsynced ++ [⟨some plan.next, host.journal.length + 1⟩]
    critical := some ⟨t, pid, m, .renamed plan host.journal.length⟩
    journal := host.journal ++ [.mutated t m] }

def Host.sync (host : Host) (t : Tid) (pid : Pid) (m : Mutation) (plan : Plan) (event : ℕ) : Host :=
  { host with
    durable := host.unsynced.getLast?.getD host.durable
    unsynced := []
    critical := some ⟨t, pid, m, .synced plan event⟩ }

def appliedTable (table : SessionTable) (m : Mutation) (plan : Plan) : Except CallError SessionTable :=
  match m.shard with
  | some shard => applySessionChange table shard plan.next plan.change
  | none => pure table

/-- Change the session table and release the store lock. -/
def Host.complete (host : Host) (t : Tid) (thread : Thread) (m : Mutation) (plan : Plan)
    (table : SessionTable) : Host :=
  let journal := if plan.write then host.journal else host.journal ++ [.mutated t m]
  match appliedTable table m plan with
  | .ok applied =>
    { host with
      critical := none
      processes := host.processes.insert thread.pid applied
      locks := unlockSession host.locks m plan.change
      journal := journal }.finish t thread (.ok plan.value)
  | .error error =>
    { host with
      critical := none
      locks := m.shard.elim host.locks host.locks.erase
      journal := journal }.finish t thread (.error error)

/-- A step of a transition: take the store lock, plan, rename, sync, complete. -/
def Host.advanceMutation (host : Host) (t : Tid) (thread : Thread) (m : Mutation) (table : SessionTable) :
    Option Host :=
  match host.critical with
  | none => some { host with critical := some ⟨t, thread.pid, m, .locked⟩ }
  | some critical =>
    if critical.tid = t then
      match critical.stage with
      | .locked => some (host.plan t thread m table)
      | .planned plan =>
        if plan.write then some (host.rename t thread.pid m plan)
        else some (host.complete t thread m plan table)
      | .renamed plan event => some (host.sync t thread.pid m plan event)
      | .synced plan _ => some (host.complete t thread m plan table)
    else none

/-- The first half of a renewal: the held record. -/
def Host.renew (host : Host) (t : Tid) (thread : Thread) (lease : LogicalShardLease) (table : SessionTable) :
    Host :=
  match heldRecord table lease with
  | .error error => host.finish t thread (.error error)
  | .ok record => host.progress t thread (.held record (host.isLate thread.pid (some lease.logicalShardId)))

def Host.advance (host : Host) (t : Tid) : Option Host := do
  let thread ← host.threads.get t
  let table ← host.processes.get thread.pid
  match thread.call, thread.progress with
  | .mutate m, .begun => host.advanceMutation t thread m table
  | .query q, .begun => some (host.finish t thread ((fun records => records.query q) <$> readState host.file))
  | .proveOwner lease, .begun => some (host.finish t thread (Value.record <$> heldRecord table lease))
  | .renewOwner lease, .begun => some (host.renew t thread lease table)
  | .renewOwner lease, .held record late =>
    some (host.progress t thread (.finished (renewedRecord host.file lease record) late false))
  | _, _ => none

/-- A process dies: its calls end, its locks are released. -/
def Host.crash (host : Host) (pid : Pid) : Host :=
  let held := (host.locks.rows.filter fun row => row.2 = pid).map Prod.fst
  let calls := (host.threads.rows.filter fun row => row.2.pid = pid).map Prod.fst
  { host with
    locks := held.foldl OrdMap.erase host.locks
    threads := calls.foldl OrdMap.erase host.threads
    processes := host.processes.erase pid
    critical := host.critical.filter fun critical => critical.pid ≠ pid
    journal := host.journal ++ held.map .sessionLost }

/-- The host loses power: every process dies, and of the contents behind the last sync any may be left. -/
def Host.powerLoss (host : Host) (version : Version) : Host :=
  let before := host.journal.take version.events
  { Host.init with
    file := version.file
    durable := version
    journal := before ++ (replay before).sessions.rows.map fun row => .sessionLost row.1 }

inductive Action where
  | spawn (pid : Pid)
  | invoke (pid : Pid) (t : Tid) (call : Call)
  | advance (t : Tid)
  | answer (t : Tid)
  | crash (pid : Pid)
  | powerLoss (version : ℕ)

def Host.act (host : Host) : Action → Option Host
  | .spawn pid =>
    if host.processes.get pid = none then some { host with processes := host.processes.insert pid .empty }
    else none
  | .invoke pid t call =>
    if host.processes.get pid ≠ none ∧ host.threads.get t = none then
      some { host with threads := host.threads.insert t ⟨pid, call, host.journal.length, .begun⟩ }
    else none
  | .advance t => host.advance t
  | .answer t => do
    let thread ← host.threads.get t
    match thread.progress with
    | .finished .. => some { host with threads := host.threads.erase t }
    | _ => none
  | .crash pid => if host.processes.get pid ≠ none then some (host.crash pid) else none
  | .powerLoss n => host.powerLoss <$> (host.durable :: host.unsynced)[n]?

end NoKV.Control
