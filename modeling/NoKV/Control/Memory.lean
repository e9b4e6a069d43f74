import NoKV.Control.Owner

/-!
# The in-memory control store

The control store behind all its calls: the bindings of a root, the queries, and the transitions of
`NoKV.Control.Store` as calls that answer a value or an error.

* `Memory.mutate_alike`: a transition reads no session but that of the shard it touches;
* `Valid.mutate`: its records stay in the form in which they are stored.
-/

namespace NoKV.Control

open Lib RecordError
open OrdMap hiding get insert erase empty

/-! ### Calls -/

abbrev AgentId := FixedBytes 16

/-- Immutable binding of a root to its agent. -/
structure RootAgentBinding where
  rootId : RootId
  agentId : AgentId
  deriving DecidableEq

/-- Immutable binding of a root to its object namespace. -/
structure RootObjectNamespaceBinding where
  rootId : RootId
  objectNamespaceId : ObjectNamespaceId
  deriving DecidableEq

/-- The routing fields of a shard record. -/
structure LogicalShardRoute where
  logicalShardId : LogicalShardId
  ownerEpoch : Option OwnerEpoch
  state : LogicalShardState
  endpoint : Option String
  deriving DecidableEq

def LogicalShardRecord.route (record : LogicalShardRecord) : LogicalShardRoute :=
  ⟨record.logicalShardId, record.ownerEpoch, record.state, record.endpoint⟩

inductive CallError where
  | control (error : ControlError)
  | rootAgentAlreadyBound (rootId : RootId)
  | rootObjectNamespaceAlreadyBound (rootId : RootId) (existing requested : ObjectNamespaceId)
  | codec (reason : String)
  | backend (reason : String)
  deriving DecidableEq

inductive Value where
  | agent (binding : RootAgentBinding)
  | objectNamespace (binding : RootObjectNamespaceBinding)
  | placement (placement : RootPlacement)
  | record (record : LogicalShardRecord)
  | lease (lease : LogicalShardLease)
  | foundAgent (binding : Option RootAgentBinding)
  | foundObjectNamespace (binding : Option RootObjectNamespaceBinding)
  | foundPlacement (placement : Option RootPlacement)
  | placements (placements : List RootPlacement)
  | foundRecord (record : Option LogicalShardRecord)
  | foundRoute (route : Option LogicalShardRoute)
  | records (records : List LogicalShardRecord)
  deriving DecidableEq

/-- The step is a transition of a caller: neither a proof of ownership nor the loss of a session. -/
def Op.mutates : Op → Bool
  | .renewOwner _ => false
  | .proveOwner _ => false
  | .sessionLoss _ => false
  | _ => true

/-- The calls that may change a record or a session. -/
inductive Mutation where
  | createRootAgentBinding (binding : RootAgentBinding)
  | createRootObjectNamespaceBinding (binding : RootObjectNamespaceBinding)
  | transition (op : Op) (mutates : op.mutates = true)

/-- The calls that read records. -/
inductive Query where
  | getRootAgentBinding (rootId : RootId)
  | getRootObjectNamespaceBinding (rootId : RootId)
  | getRootPlacement (rootId : RootId)
  | listRootPlacements
  | getLogicalShard (shard : LogicalShardId)
  | getLogicalShardRoute (shard : LogicalShardId)
  | listLogicalShards

structure Records where
  rootAgents : OrdMap RootId RootAgentBinding
  rootObjectNamespaces : OrdMap RootId RootObjectNamespaceBinding
  rootPlacements : OrdMap RootId RootPlacement
  logicalShards : OrdMap LogicalShardId LogicalShardRecord
  nextLeaseId : UInt64
  deriving DecidableEq

def Records.init : Records := ⟨.empty, .empty, .empty, .empty, 0⟩

/-- The records and the sessions that are live for them. -/
structure Memory where
  records : Records
  sessions : OrdMap LogicalShardId LogicalShardLease

def Memory.init : Memory := ⟨.init, .empty⟩

/-- The part of the store that the transitions of an owner work on. -/
def Memory.state (memory : Memory) : State :=
  ⟨memory.records.rootPlacements, memory.records.logicalShards, memory.sessions, memory.records.nextLeaseId⟩

def Memory.put (memory : Memory) (state : State) : Memory where
  records := { memory.records with
    rootPlacements := state.rootPlacements
    logicalShards := state.logicalShards
    nextLeaseId := state.nextLeaseId }
  sessions := state.ownerSessions

/-- The answer of a transition as the result of a call. -/
def Answer.result : Answer → Except CallError Value
  | .placement stored => .ok (.placement stored)
  | .record stored => .ok (.record stored)
  | .lease granted => .ok (.lease granted)
  | .error failure => .error (.control failure)
  | .lost => .error (.backend "session lost")

/-- One transition of the in-memory store. -/
def Memory.mutate (memory : Memory) : Mutation → Except CallError Value × Memory
  | .createRootAgentBinding binding =>
    match memory.records.rootAgents.get binding.rootId with
    | some current =>
      if current = binding then (.ok (.agent binding), memory)
      else (.error (.rootAgentAlreadyBound binding.rootId), memory)
    | none =>
      (.ok (.agent binding), { memory with
        records.rootAgents := memory.records.rootAgents.insert binding.rootId binding })
  | .createRootObjectNamespaceBinding binding =>
    match memory.records.rootObjectNamespaces.get binding.rootId with
    | some current =>
      if current = binding then (.ok (.objectNamespace binding), memory)
      else (.error (.rootObjectNamespaceAlreadyBound binding.rootId current.objectNamespaceId
        binding.objectNamespaceId), memory)
    | none =>
      (.ok (.objectNamespace binding), { memory with
        records.rootObjectNamespaces := memory.records.rootObjectNamespaces.insert binding.rootId binding })
  | .transition op _ => ((step memory.state op).1.result, memory.put (step memory.state op).2)

def Records.query (records : Records) : Query → Value
  | .getRootAgentBinding rootId => .foundAgent (records.rootAgents.get rootId)
  | .getRootObjectNamespaceBinding rootId => .foundObjectNamespace (records.rootObjectNamespaces.get rootId)
  | .getRootPlacement rootId => .foundPlacement (records.rootPlacements.get rootId)
  | .listRootPlacements => .placements (records.rootPlacements.rows.map Prod.snd)
  | .getLogicalShard shard => .foundRecord (records.logicalShards.get shard)
  | .getLogicalShardRoute shard => .foundRoute ((records.logicalShards.get shard).map LogicalShardRecord.route)
  | .listLogicalShards => .records (records.logicalShards.rows.map Prod.snd)

/-- Renewing a lease, which in this store is all that proving it takes. -/
def Memory.renew (memory : Memory) (lease : LogicalShardLease) : Except CallError Value :=
  Value.record <$> (renewOwner memory.state lease).mapError .control

/-! ### The shard a transition touches -/

def Mutation.shard : Mutation → Option LogicalShardId
  | .transition op _ => op.shard
  | _ => none

/-- The states agree but for the sessions of other shards. -/
structure State.Alike (shard : Option LogicalShardId) (a b : State) : Prop where
  rootPlacements : b.rootPlacements = a.rootPlacements
  logicalShards : b.logicalShards = a.logicalShards
  nextLeaseId : b.nextLeaseId = a.nextLeaseId
  session : ∀ s, shard = some s → b.ownerSessions.get s = a.ownerSessions.get s

section Alike

variable {shard : Option LogicalShardId} {a b : State} {s : LogicalShardId} {lease : LogicalShardLease}

section

variable (h : State.Alike shard a b)
include h

lemma State.Alike.putRecord (s : LogicalShardId) (record : LogicalShardRecord) :
    State.Alike shard (a.putRecord s record) (b.putRecord s record) := by
  refine ⟨h.rootPlacements, ?_, h.nextLeaseId, h.session⟩
  rw [State.putRecord, State.putRecord, h.logicalShards]

lemma State.Alike.putSession (s : LogicalShardId) (lease : LogicalShardLease) :
    State.Alike shard (a.putSession s lease) (b.putSession s lease) := by
  refine ⟨h.rootPlacements, h.logicalShards, h.nextLeaseId, fun s' hs => ?_⟩
  rw [State.putSession, State.putSession, get_insert, get_insert, h.session s' hs]

lemma State.Alike.endSession (s : LogicalShardId) : State.Alike shard (a.endSession s) (b.endSession s) := by
  refine ⟨h.rootPlacements, h.logicalShards, h.nextLeaseId, fun s' hs => ?_⟩
  rw [State.endSession, State.endSession, get_erase, get_erase, h.session s' hs]

end

lemma State.Alike.provedRecord (h : State.Alike (some lease.logicalShardId) a b) :
    provedRecord b lease = provedRecord a lease := by
  unfold Control.provedRecord shardRecord validateInMemorySession
  rw [h.logicalShards, h.session _ rfl]

/-- Two runs of a call that end alike. -/
def Ends (shard : Option LogicalShardId) (a b : Answer × State) : Prop :=
  b.1 = a.1 ∧ State.Alike shard a.2 b.2

lemma Ends.bind {α β : Type} {wrap : β → Answer} {x : Except ControlError α}
    {f g : α → Except ControlError (β × State)} (h : State.Alike shard a b)
    (hrest : ∀ value, Ends shard (outcome a wrap (f value)) (outcome b wrap (g value))) :
    Ends shard (outcome a wrap (x >>= f)) (outcome b wrap (x >>= g)) := by
  cases x with
  | error => exact ⟨rfl, h⟩
  | ok value => exact hrest value

section

variable (h : State.Alike (some lease.logicalShardId) a b)
include h

lemma ends_replaceRecord {prepare : LogicalShardRecord → Except ControlError LogicalShardRecord} :
    Ends (some lease.logicalShardId) (outcome a .record (replaceRecord a lease prepare))
      (outcome b .record (replaceRecord b lease prepare)) := by
  unfold replaceRecord
  rw [h.provedRecord]
  exact .bind h fun _ => .bind h fun _ => ⟨rfl, h.putRecord _ _⟩

lemma ends_releaseOwner : Ends (some lease.logicalShardId) (outcome a .record (releaseOwner a lease))
      (outcome b .record (releaseOwner b lease)) := by
  unfold releaseOwner replaceRecord
  rw [h.provedRecord]
  simp only [bind_assoc]
  exact .bind h fun _ => .bind h fun _ => ⟨rfl, (h.putRecord _ _).endSession _⟩

lemma ends_suspendRecovery : Ends (some lease.logicalShardId) (outcome a .record (suspendRecovery a lease))
      (outcome b .record (suspendRecovery b lease)) := by
  unfold suspendRecovery shardRecord
  rw [h.logicalShards, h.session _ rfl]
  refine .bind h fun _ => .bind h fun _ => ?_
  cases a.ownerSessions.get lease.logicalShardId with
  | none => exact ⟨rfl, h⟩
  | some => exact .bind h fun _ => ⟨rfl, h.endSession _⟩

end

lemma ends_install {endpoint : String} {allowA allowB : LogicalShardRecord → Except ControlError Unit}
    {prepare : LogicalShardRecord → UInt64 → Except ControlError (LogicalShardRecord × LogicalShardLease)}
    (h : State.Alike (some s) a b) (hallow : allowB = allowA) :
    Ends (some s) (acquired (install a s endpoint allowA prepare))
      (acquired (install b s endpoint allowB prepare)) := by
  have haccept : admitAcquisition b s endpoint allowB = admitAcquisition a s endpoint allowA := by
    unfold admitAcquisition ensureRootPlacement shardRecord
    rw [h.logicalShards, h.rootPlacements, hallow]
  unfold install
  rw [haccept, h.nextLeaseId]
  cases admitAcquisition a s endpoint allowA with
  | error => exact ⟨rfl, h⟩
  | ok current =>
    cases checkedAdd a.nextLeaseId 1 with
    | none => exact ⟨rfl, h⟩
    | some leaseId =>
      dsimp only
      have halloc : State.Alike (some s) { a with nextLeaseId := leaseId } { b with nextLeaseId := leaseId } :=
        ⟨h.rootPlacements, h.logicalShards, rfl, h.session⟩
      cases prepare current leaseId with
      | error => exact ⟨rfl, halloc⟩
      | ok => exact ⟨rfl, (halloc.putRecord _ _).putSession _ _⟩

lemma ends_createRootPlacement {placement : RootPlacement} (h : State.Alike shard a b) :
    Ends shard (outcome a .placement (createRootPlacement a placement))
      (outcome b .placement (createRootPlacement b placement)) := by
  unfold createRootPlacement
  rw [h.logicalShards, h.rootPlacements]
  refine .bind h fun _ => .bind h fun _ => ?_
  cases a.rootPlacements.get placement.rootId with
  | none => exact ⟨rfl, rfl, rfl, h.nextLeaseId, h.session⟩
  | some =>
    dsimp only
    split
    · exact ⟨rfl, h⟩
    · exact .bind h fun _ => ⟨rfl, h⟩

lemma ends_compareAndSetRootPlacement {expected next : RootPlacement} (h : State.Alike shard a b) :
    Ends shard (outcome a .placement (compareAndSetRootPlacement a expected next))
      (outcome b .placement (compareAndSetRootPlacement b expected next)) := by
  unfold compareAndSetRootPlacement
  rw [h.rootPlacements]
  refine .bind h fun _ => ?_
  dsimp only
  split
  · exact ⟨rfl, h⟩
  · exact .bind h fun _ => ⟨rfl, rfl, h.logicalShards, h.nextLeaseId, h.session⟩

lemma ends_createLogicalShard (h : State.Alike shard a b) :
    Ends shard (outcome a .record (createLogicalShard a s)) (outcome b .record (createLogicalShard b s)) := by
  unfold createLogicalShard
  rw [h.logicalShards]
  cases a.logicalShards.get s with
  | none => exact ⟨rfl, h.putRecord _ _⟩
  | some => exact .bind h fun _ => ⟨rfl, h⟩

/-- A transition ends alike on states that agree on the shard it touches. -/
lemma ends_step {op : Op} (hop : op.mutates = true) (h : State.Alike op.shard a b) :
    Ends op.shard (step a op) (step b op) := by
  cases op
  case createRootPlacement => exact ends_createRootPlacement h
  case compareAndSetRootPlacement => exact ends_compareAndSetRootPlacement h
  case createLogicalShard => exact ends_createLogicalShard h
  case acquireOwner => exact ends_install h rfl
  case acquireSuccessor s _ _ _ | reacquireRecovery s _ _ _ =>
    refine ends_install h ?_
    rw [h.session s rfl]
  case renewOwner | proveOwner | sessionLoss => cases hop
  case markServing | prepareRecoveryUpload | finalizeRecoveryUpload | abortRecoveryUpload =>
    exact ends_replaceRecord h
  case suspendRecovery => exact ends_suspendRecovery h
  case releaseOwner => exact ends_releaseOwner h

end Alike

/-! ### What a transition leaves alone -/

/-- The generation a lifecycle can stand at. -/
def validateRootPlacement (placement : RootPlacement) : Except ControlError Unit :=
  let generation := placement.placementGeneration.get
  let valid : Bool := match placement.lifecycle with
    | .provisioning => generation = 1
    | .active => 2 ≤ generation && generation % 2 = 0
    | .draining => 3 ≤ generation && generation % 2 ≠ 0
    | .retired => 2 ≤ generation && generation % 2 = 0
  refuseIf (valid = false) (ControlError.record (invalidRecord
    s!"root placement generation {generation} is inconsistent with {placement.lifecycle.debug} lifecycle"))

/-- Every placement can be encoded. -/
def PlacementsValid (placements : OrdMap RootId RootPlacement) : Prop :=
  ∀ rootId placement, placements.get rootId = some placement → validateRootPlacement placement = .ok ()

variable {placement : RootPlacement}

lemma PlacementsValid.insert {placements : OrdMap RootId RootPlacement} (h : PlacementsValid placements)
    {rootId : RootId} (hplacement : validateRootPlacement placement = .ok ()) :
    PlacementsValid (placements.insert rootId placement) := by
  intro other found hfound
  rcases get_insert_cases hfound with ⟨-, rfl⟩ | ⟨-, hfound⟩
  · exact hplacement
  · exact h _ _ hfound

/-- An update moves a placement to the generation of its new lifecycle. -/
lemma validateRootPlacementUpdate_valid {expected next : RootPlacement} {u : Unit}
    (h : validateRootPlacementUpdate expected next = .ok u)
    (hexpected : validateRootPlacement expected = .ok ()) : validateRootPlacement next = .ok () := by
  unfold validateRootPlacementUpdate at h
  simp only [bind_eq_ok, refuseIf_eq_ok, okOr_eq_ok, not_not, ne_eq] at h
  obtain ⟨-, -, -, -, _, hgeneration, -, hnext, htransition⟩ := h
  have hget : next.placementGeneration.get = expected.placementGeneration.get + 1 := by
    show next.placementGeneration.val.toNat = expected.placementGeneration.val.toNat + 1
    rw [hnext]
    exact checkedAdd_eq_some.1 hgeneration
  unfold validateRootPlacement at hexpected ⊢
  generalize expected.lifecycle = before at hexpected htransition
  generalize next.lifecycle = after at htransition ⊢
  cases before <;> cases after <;> simp_all [placementTransition] <;> omega

/-- The states agree on the sessions and the records of the shards a transition does not touch, and
the placements stay encodable. -/
structure State.Frames (shard : Option LogicalShardId) (a b : State) : Prop where
  session : ∀ s, shard ≠ some s → b.ownerSessions.get s = a.ownerSessions.get s
  record : ∀ s record, shard ≠ some s → a.logicalShards.get s = some record →
    b.logicalShards.get s = some record
  placements : PlacementsValid a.rootPlacements → PlacementsValid b.rootPlacements

section Frames

variable {state next : State} {s : LogicalShardId} {lease : LogicalShardLease} {record : LogicalShardRecord}
  {shard : LogicalShardId}

lemma State.Frames.refl (shard : Option LogicalShardId) (state : State) : State.Frames shard state state :=
  ⟨fun _ _ => rfl, fun _ _ _ h => h, id⟩

section

variable (h : State.Frames (some shard) state next)
include h

lemma State.Frames.putRecord (record : LogicalShardRecord) :
    State.Frames (some shard) state (next.putRecord shard record) := by
  refine ⟨h.session, fun s found hs hfound => ?_, h.placements⟩
  rw [State.putRecord, get_insert_of_ne _ fun heq => hs (congrArg some heq.symm)]
  exact h.record s found hs hfound

lemma State.Frames.putSession (lease : LogicalShardLease) :
    State.Frames (some shard) state (next.putSession shard lease) := by
  refine ⟨fun s hs => ?_, h.record, h.placements⟩
  rw [State.putSession, get_insert_of_ne _ fun heq => hs (congrArg some heq.symm)]
  exact h.session s hs

lemma State.Frames.endSession : State.Frames (some shard) state (next.endSession shard) := by
  refine ⟨fun s hs => ?_, h.record, h.placements⟩
  rw [State.endSession, get_erase, if_neg fun heq => hs (congrArg some heq.symm)]
  exact h.session s hs

end

/-- A transition leaves every shard alone but the one it touches. -/
lemma frames_step {op : Op} (hop : op.mutates = true) : State.Frames op.shard state (step state op).2 := by
  have hdid := step_did state op
  generalize (step state op).2 = next at hdid ⊢
  generalize (step state op).1 = answer at hdid
  cases hdid with
  | stay _ => exact .refl _ _
  | place hvalid =>
    refine ⟨fun _ _ => rfl, fun _ _ _ h => h, fun hall => hall.insert ?_⟩
    -- a new placement is checked in full, an update against the placement before
    rcases hvalid with hnew | ⟨_, hupdate, hactual⟩
    · unfold validateNewRootPlacement at hnew
      simp only [bind_eq_ok, refuseIf_eq_ok, not_not, ne_eq] at hnew
      obtain ⟨-, hgeneration, hlifecycle⟩ := hnew
      unfold validateRootPlacement
      simp [hlifecycle, hgeneration]
    · exact validateRootPlacementUpdate_valid hupdate (hall _ _ hactual)
  | create _ hnew =>
    refine ⟨fun _ _ => rfl, fun other found _ hfound => ?_, id⟩
    rw [State.putRecord, get_insert_of_ne _ ?_]
    · exact hfound
    · -- the shard that is created was not there
      rintro rfl
      cases hnew.symm.trans hfound
  | replace _ hshard _ _ =>
    rw [hshard]
    exact (State.Frames.refl _ _).putRecord _
  | suspend hsuspend =>
    subst hsuspend
    exact (State.Frames.refl _ _).endSession
  | release hrelease _ _ _ =>
    subst hrelease
    exact ((State.Frames.refl _ _).putRecord _).endSession
  | allocate _ => exact ⟨fun _ _ => rfl, fun _ _ _ h => h, id⟩
  | acquire _ hshard _ _ _ _ _ =>
    rw [hshard]
    -- the lease id is taken before the record and the session change
    have halloc : ∀ leaseId s, State.Frames (some s) state { state with nextLeaseId := leaseId } :=
      fun _ _ => ⟨fun _ _ => rfl, fun _ _ _ h => h, id⟩
    exact ((halloc _ _).putRecord _).putSession _
  | lose hlose =>
    subst hlose
    cases hop

end Frames

/-! ### The invariant of the records -/

/-- Lease ids of records were allocated. -/
def LeasesIssued (state : State) : Prop :=
  ∀ s record, state.logicalShards.get s = some record → record.leaseId.toNat ≤ state.nextLeaseId.toNat

lemma LeasesIssued.putRecord {state : State} (h : LeasesIssued state) {s : LogicalShardId}
    {record : LogicalShardRecord} (hrecord : record.leaseId.toNat ≤ state.nextLeaseId.toNat) :
    LeasesIssued (state.putRecord s record) := by
  intro other found hfound
  rcases get_insert_cases hfound with ⟨-, rfl⟩ | ⟨-, hfound⟩
  · exact hrecord
  · exact h _ _ hfound

lemma LeasesIssued.effect {state next : State} {op : Op} {answer : Answer} (h : LeasesIssued state)
    (heffect : Effect state op answer next) : LeasesIssued next := by
  cases heffect with
  | keep _ hrecords hlease =>
    intro s record hrecord
    rw [hrecords] at hrecord
    exact (h s record hrecord).trans hlease
  | create => exact h.putRecord (Nat.zero_le _)
  | replace hproved hstep =>
    refine h.putRecord ?_
    rw [hstep.owner.leaseId]
    exact h _ _ (provedRecord_eq_ok.1 hproved).1
  | release _ hnext =>
    subst hnext
    exact h.putRecord (Nat.zero_le _)
  | @acquire _ lease _ _ _ _ _ hinstalled =>
    have halloc : LeasesIssued { state with nextLeaseId := lease.leaseId } :=
      fun s record hrecord => (h s record hrecord).trans (by show _ ≤ lease.leaseId.toNat; omega)
    exact halloc.putRecord (by rw [hinstalled.leaseId])

structure Memory.Inv (memory : Memory) : Prop where
  owner : Control.Inv memory.state
  leases : LeasesIssued memory.state
  placements : PlacementsValid memory.records.rootPlacements

lemma memory_inv_init : Memory.init.Inv :=
  ⟨inv_init, fun _ _ h => by simp [Memory.init, Memory.state, Records.init] at h,
    fun _ _ h => by simp [Memory.init, Records.init] at h⟩

def Memory.endSession (memory : Memory) (s : LogicalShardId) : Memory :=
  { memory with sessions := memory.sessions.erase s }

lemma Memory.Inv.endSession {memory : Memory} (h : memory.Inv) (s : LogicalShardId) :
    (memory.endSession s).Inv :=
  ⟨h.owner.endSession s, h.leases, h.placements⟩

lemma Memory.mutate_state (memory : Memory) (m : Mutation) :
    (memory.mutate m).2.state = memory.state ∨ ∃ op hop, m = .transition op hop := by
  unfold Memory.mutate
  split
  · split
    · split <;> exact .inl rfl
    · exact .inl rfl
  · split
    · split <;> exact .inl rfl
    · exact .inl rfl
  next op hop => exact .inr ⟨op, hop, rfl⟩

lemma Memory.Inv.mutate {memory : Memory} (h : memory.Inv) (m : Mutation) : (memory.mutate m).2.Inv := by
  rcases memory.mutate_state m with heq | ⟨op, hop, rfl⟩
  · refine ⟨heq ▸ h.owner, heq ▸ h.leases, ?_⟩
    show PlacementsValid (memory.mutate m).2.state.rootPlacements
    rw [heq]
    exact h.placements
  · exact ⟨h.owner.step op, h.leases.effect (step_effect memory.state op),
      (frames_step hop).placements h.placements⟩

/-! ### Transitions of the whole store -/

section Whole

variable {memory : Memory} {m : Mutation} {state : State} {op : Op} {s : LogicalShardId}
  {lease : LogicalShardLease}

/-- The stores agree but for the sessions of other shards. -/
structure Memory.Alike (shard : Option LogicalShardId) (a b : Memory) : Prop where
  records : b.records = a.records
  session : ∀ s, shard = some s → b.sessions.get s = a.sessions.get s

/-- **A transition sees no session but that of its shard.** -/
theorem Memory.mutate_alike {a b : Memory} (h : Memory.Alike m.shard a b) :
    (b.mutate m).1 = (a.mutate m).1 ∧ Memory.Alike m.shard (a.mutate m).2 (b.mutate m).2 := by
  obtain ⟨records, sessions⟩ := a
  obtain ⟨_, sessions'⟩ := b
  obtain ⟨hrecords, hsession⟩ := h
  cases hrecords
  cases m
  case createRootAgentBinding | createRootObjectNamespaceBinding =>
    unfold Memory.mutate
    dsimp only
    split
    · split <;> exact ⟨rfl, rfl, hsession⟩
    · exact ⟨rfl, rfl, hsession⟩
  case transition op hop =>
    have hends : Ends op.shard (step (Memory.state ⟨records, sessions⟩) op)
        (step (Memory.state ⟨records, sessions'⟩) op) := ends_step hop ⟨rfl, rfl, rfl, hsession⟩
    obtain ⟨hanswer, halike⟩ := hends
    refine ⟨congrArg Answer.result hanswer, ?_, halike.session⟩
    unfold Memory.mutate Memory.put
    dsimp only
    rw [halike.rootPlacements, halike.logicalShards, halike.nextLeaseId]

/-- **A transition leaves every other shard alone.** -/
theorem Memory.mutate_frame (memory : Memory) (m : Mutation) :
    State.Frames m.shard memory.state (memory.mutate m).2.state := by
  rcases memory.mutate_state m with heq | ⟨_, hop, rfl⟩
  · rw [heq]
    exact .refl _ _
  · exact frames_step hop

/-- The session behind a step is the one before it, or one that began where there was a record and no
session. -/
lemma Inv.session_effect {state next : State} {answer : Answer} (hinv : Inv state)
    (heffect : Effect state op answer next) (hafter : next.ownerSessions.get s = some lease) :
    state.ownerSessions.get s = some lease ∨
      state.ownerSessions.get s = none ∧ state.logicalShards.get s ≠ none := by
  cases heffect with
  | keep _ _ _ hsessions => exact .inl (hsessions s lease hafter)
  | create _ | replace _ _ => exact .inl hafter
  | release => exact .inl (get_of_get_erase hafter)
  | acquire hcurrent hfree =>
    rcases get_insert_cases hafter with ⟨rfl, -⟩ | ⟨-, hafter⟩
    · exact .inr ⟨hinv.unheld hcurrent hfree, fun hnone => by cases hnone.symm.trans hcurrent⟩
    · exact .inl hafter

lemma Memory.Inv.session_mutate (h : memory.Inv)
    (hafter : (memory.mutate m).2.sessions.get s = some lease) :
    memory.sessions.get s = some lease ∨
      memory.sessions.get s = none ∧ memory.records.logicalShards.get s ≠ none := by
  rcases memory.mutate_state m with heq | ⟨op, _, rfl⟩
  · have hsessions : (memory.mutate m).2.sessions = memory.sessions := congrArg State.ownerSessions heq
    exact .inl (hsessions ▸ hafter)
  · exact h.owner.session_effect (step_effect memory.state op) hafter

/-- A transition that ends a session drops it alone, or releases the record. -/
lemma step_ended (hop : op.mutates = true) (hs : op.shard = some s)
    (hbefore : state.ownerSessions.get s = some lease)
    (hafter : (step state op).2.ownerSessions.get s = none) :
    (step state op).2 = state.endSession s ∨
      ∃ record, (step state op).2.logicalShards.get s = some record ∧ record.leaseId = 0 := by
  have hdid := step_did state op
  generalize (step state op).2 = next at hdid hafter ⊢
  generalize (step state op).1 = answer at hdid
  cases hdid with
  | stay _ | place _ | create _ _ | replace _ _ _ _ | allocate _ => cases hbefore.symm.trans hafter
  | suspend hsuspend =>
    subst hsuspend
    cases hs
    exact .inl rfl
  | release hrelease _ hnext _ =>
    subst hrelease
    cases hs
    exact .inr ⟨_, get_insert_self .., by rw [hnext]⟩
  | acquire _ hshard =>
    cases hs.symm.trans hshard
    cases (get_insert_self ..).symm.trans hafter
  | lose hlose =>
    subst hlose
    cases hop

lemma Memory.mutate_ended (hs : m.shard = some s) (hbefore : memory.sessions.get s = some lease)
    (hafter : (memory.mutate m).2.sessions.get s = none) :
    (memory.mutate m).2.records = memory.records ∨
      ∃ record, (memory.mutate m).2.records.logicalShards.get s = some record ∧ record.leaseId = 0 := by
  cases m with
  | createRootAgentBinding binding | createRootObjectNamespaceBinding binding => cases hs
  | transition op hop =>
    refine (step_ended hop hs hbefore hafter).imp (fun heq => ?_) id
    show (memory.put (step memory.state op).2).records = memory.records
    rw [heq]
    rfl

end Whole

/-! ### A session that grants no authority -/

/-- A record under a lease has a lease id of its own. -/
lemma leaseId_ne_zero {record : LogicalShardRecord} {lease : LogicalShardLease}
    (hvalid : validateLogicalShardRecord record = .ok ()) (hnames : Names record lease) :
    lease.leaseId ≠ 0 := by
  replace hvalid := ok_of_bind hvalid
  obtain ⟨_, howner, -⟩ := bind_eq_ok.1 hvalid
  unfold validateOwnership at howner
  rw [hnames.owner] at howner
  replace howner := ok_of_bind howner
  obtain ⟨_, hzero, -⟩ := bind_eq_ok.1 howner
  rw [← hnames.leaseId]
  exact refuseIf_eq_ok.1 hzero

/-- The second state knows the live session of the shard only by a lease without id. -/
structure Shadowed (s : LogicalShardId) (live : LogicalShardLease) (a b : State) : Prop where
  rootPlacements : b.rootPlacements = a.rootPlacements
  logicalShards : b.logicalShards = a.logicalShards
  session : a.ownerSessions.get s = some live
  shadow : ∃ shadow, b.ownerSessions.get s = some shadow ∧ shadow.leaseId = 0

/-- A step is refused as in the first state, or with the refusal of the live lease. -/
def Refused (live : LogicalShardLease) (a b : Answer) : Prop :=
  ∃ error, b = .error error ∧ (a = .error error ∨ error = .staleLease live)

lemma Refused.bind {α β : Type} {live : LogicalShardLease} {a b : State} {wrap : β → Answer}
    {x y : Except ControlError α} {f g : α → Except ControlError (β × State)}
    (h : ∃ error, y = .error error ∧ (x = .error error ∨ error = .staleLease live)) :
    Refused live (outcome a wrap (x >>= f)).1 (outcome b wrap (y >>= g)).1 := by
  obtain ⟨error, rfl, rfl | hstale⟩ := h
  · exact ⟨error, rfl, .inl rfl⟩
  · exact ⟨error, rfl, .inr hstale⟩

section Shadowed

variable {a b : State} {s : LogicalShardId} {lease live : LogicalShardLease}

section

variable (h : Shadowed lease.logicalShardId live a b) (hinv : Inv a)
include h hinv

lemma Shadowed.provedRecord : ∃ error, provedRecord b lease = .error error ∧
      (provedRecord a lease = .error error ∨ error = .staleLease live) := by
  obtain ⟨shadow, hshadow, hzero⟩ := h.shadow
  obtain ⟨-, record, hrecord, -⟩ := hinv.session _ _ h.session
  unfold Control.provedRecord shardRecord validateInMemorySession
  rw [h.logicalShards, hrecord, h.session, hshadow]
  simp only [okOr, pure_bind]
  cases hlease : validateRecordLease record lease with
  | error error => exact ⟨error, rfl, .inl rfl⟩
  | ok =>
    have hnames := validateRecordLease_eq_ok.1 hlease
    have hne : some shadow ≠ some lease := by
      intro heq
      refine leaseId_ne_zero (hinv.valid _ _ hrecord) hnames ?_
      rw [← Option.some.inj heq]
      exact hzero
    refine ⟨.staleLease lease, by rw [ok_bind, refuseIf_of hne]; rfl, ?_⟩
    by_cases hlive : some live = some lease
    · exact .inr (by rw [Option.some.inj hlive])
    · exact .inl (by rw [ok_bind, refuseIf_of hlive]; rfl)

lemma Shadowed.replaceRecord {prepare : LogicalShardRecord → Except ControlError LogicalShardRecord} :
    Refused live (outcome a .record (replaceRecord a lease prepare)).1
      (outcome b .record (replaceRecord b lease prepare)).1 := by
  exact .bind (h.provedRecord hinv)

lemma Shadowed.releaseOwner : Refused live (outcome a .record (releaseOwner a lease)).1
      (outcome b .record (releaseOwner b lease)).1 := by
  unfold Control.releaseOwner Control.replaceRecord
  simp only [bind_assoc]
  exact .bind (h.provedRecord hinv)

lemma Shadowed.suspendRecovery : Refused live (outcome a .record (suspendRecovery a lease)).1
      (outcome b .record (suspendRecovery b lease)).1 := by
  obtain ⟨shadow, hshadow, hzero⟩ := h.shadow
  obtain ⟨-, record, hrecord, -⟩ := hinv.session _ _ h.session
  unfold Control.suspendRecovery shardRecord
  rw [h.logicalShards, hrecord, h.session, hshadow]
  simp only [okOr, pure_bind]
  cases hlease : prepareRecoverySuspension record lease with
  | error error => exact ⟨error, rfl, .inl rfl⟩
  | ok =>
    obtain ⟨_, hnames, -⟩ := bind_eq_ok.1 hlease
    have hne : shadow ≠ lease := by
      rintro rfl
      exact leaseId_ne_zero (hinv.valid _ _ hrecord) (validateRecordLease_eq_ok.1 hnames) hzero
    refine ⟨.staleLease lease, by simp only [ok_bind]; rw [refuseIf_of hne]; rfl, ?_⟩
    by_cases hlive : live = lease
    · exact .inr (by rw [hlive])
    · exact .inl (by simp only [ok_bind]; rw [refuseIf_of hlive]; rfl)

end

lemma Shadowed.install {endpoint : String} (h : Shadowed s live a b)
    {allowA allowB : LogicalShardRecord → Except ControlError Unit}
    {prepare : LogicalShardRecord → UInt64 → Except ControlError (LogicalShardRecord × LogicalShardLease)}
    (hallow : allowB = allowA) {current : LogicalShardRecord} (hcurrent : a.logicalShards.get s = some current)
    (hrefuse : ∀ u, allowA current ≠ .ok u) :
    Refused live (acquired (install a s endpoint allowA prepare)).1
      (acquired (install b s endpoint allowB prepare)).1 := by
  have haccept : admitAcquisition b s endpoint allowB = admitAcquisition a s endpoint allowA := by
    unfold admitAcquisition ensureRootPlacement shardRecord
    rw [h.logicalShards, h.rootPlacements, hallow]
  unfold Control.install
  rw [haccept]
  cases hok : admitAcquisition a s endpoint allowA with
  | error error => exact ⟨error, rfl, .inl rfl⟩
  | ok =>
    replace hok := ok_of_bind hok
    replace hok := ok_of_bind hok
    obtain ⟨_, hrecord, hok⟩ := bind_eq_ok.1 hok
    obtain ⟨u, hallowed, -⟩ := bind_eq_ok.1 hok
    cases hcurrent.symm.trans (okOr_eq_ok.1 hrecord)
    exact absurd hallowed (hrefuse u)

/-- **No transition works with a session that grants no authority.** -/
theorem Shadowed.step {op : Op} (hop : op.mutates = true) (hshard : op.shard = some s)
    (h : Shadowed s live a b) (hinv : Inv a) : Refused live (step a op).1 (step b op).1 := by
  obtain ⟨-, _, hrecord, hnames⟩ := hinv.session _ _ h.session
  obtain ⟨shadow, hshadow, -⟩ := h.shadow
  cases op
  case createRootPlacement | compareAndSetRootPlacement | createLogicalShard => cases hshard
  case acquireOwner =>
    cases hshard
    refine h.install rfl hrecord fun u => ?_
    -- the record names the owner whose session is live
    rw [hnames.owner, hnames.ownerEpoch]
    exact nofun
  case acquireSuccessor =>
    cases hshard
    refine h.install (by rw [h.session, hshadow]; rfl) hrecord fun u hok => ?_
    replace hok := ok_of_bind hok
    replace hok := ok_of_bind hok
    -- an acquisition asks for the session to be gone
    rw [h.session] at hok
    exact refuseIf_eq_ok.1 hok nofun
  case reacquireRecovery =>
    cases hshard
    refine h.install (by rw [h.session, hshadow]; rfl) hrecord fun u hok => ?_
    replace hok := ok_of_bind hok
    rw [h.session] at hok
    exact refuseIf_eq_ok.1 hok nofun
  case renewOwner | proveOwner | sessionLoss => cases hop
  case markServing | prepareRecoveryUpload | finalizeRecoveryUpload | abortRecoveryUpload =>
    cases hshard
    exact h.replaceRecord hinv
  case suspendRecovery =>
    cases hshard
    exact h.suspendRecovery hinv
  case releaseOwner =>
    cases hshard
    exact h.releaseOwner hinv

end Shadowed

end NoKV.Control
