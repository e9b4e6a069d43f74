import NoKV.Control.Effect

/-!
# Exclusive ownership of a shard

What the leases of the control store guarantee over every sequence of calls and lost sessions, by any
number of nodes.

* `Inv`: every record is valid and stands under its own shard, and a session names the lease of the
  record;
* `Inv.accepts_iff`: a lease is accepted exactly while it is the session of its shard;
* `dead_run`: a lease that is not accepted any more never is again;
* `owner_exclusivity`: at most one accepted lease, one epoch for each fresh acquisition, fresh lease
  ids, no change by a dead lease, and valid records throughout.
-/

namespace NoKV.Control

open Lib RecordError ControlError List
open OrdMap hiding get insert erase empty

/-! ### A new record is valid -/

lemma encodeFixedId_length_le (id : FixedBytes 16) : (encodeFixedId id).length ≤ 194 := by
  have h := Json.text_length_le (Json.hex id.bytes)
  rw [Json.hex_length, FixedBytes.length_bytes] at h
  exact h

lemma unassigned_routing_le (shard : LogicalShardId) :
    (encodeLogicalShardRoutingRecordWire (.unassigned shard)).length ≤ MAX_LOGICAL_SHARD_RECORD_BYTES := by
  have hid := encodeFixedId_length_le shard
  have hversion : (utf8 "version").length = 7 ∧ (Json.num 1).length = 1 := by decide +kernel
  have hname : (utf8 "logical_shard_id").length = 16 := by decide +kernel
  have hrest : ([("owner", Json.null), ("owner_epoch", Json.null), ("lease_id", Json.num 0),
      ("state", Json.num 1), ("endpoint", Json.null), ("checkpoint", Json.null), ("log", Json.null),
      ("durable_lsn", Json.num 0)].map
        fun field => 6 * (utf8 field.1).length + field.2.length + 4).sum ≤ 1000 := by decide +kernel
  refine (Json.obj_length_le _).trans ?_
  refine (Nat.add_le_add_left (Nat.add_le_add_left (Nat.add_le_add_left hrest _) _) _).trans ?_
  show 2 + (6 * 7 + 1 + 4 + (6 * 16 + (encodeFixedId shard).length + 4 + 1000)) ≤ 448 * 1024
  omega

lemma validateEncodedSize_unassigned (shard : LogicalShardId) :
    validateLogicalShardRecordEncodedSize (.unassigned shard) = .ok () := by
  have hnone : encodeLogicalShardRecoveryStateWire (.unassigned shard) = none := rfl
  unfold validateLogicalShardRecordEncodedSize
  dsimp only
  rw [refuseIf_of_not (Nat.not_lt.2 (unassigned_routing_le shard)), ok_bind, hnone]
  rfl

lemma validate_unassigned (shard : LogicalShardId) :
    validateLogicalShardRecord (.unassigned shard) = .ok () := by
  refine bind_eq_ok.2 ⟨(), refuseIf_of_not (fun h => nomatch h.2), ?_⟩
  refine bind_eq_ok.2 ⟨(), rfl, ?_⟩
  -- there is no checkpoint, no log and no pending upload to check
  refine bind_eq_ok.2 ⟨(), rfl, bind_eq_ok.2 ⟨(), rfl, bind_eq_ok.2 ⟨(), rfl, ?_⟩⟩⟩
  refine bind_eq_ok.2 ⟨(), refuseIf_of_not (not_not.2 rfl), ?_⟩
  exact bind_eq_ok.2 ⟨none, rfl, validateEncodedSize_unassigned shard⟩

/-! ### The invariant -/

/-- The record stands under the lease. -/
structure Names (record : LogicalShardRecord) (lease : LogicalShardLease) : Prop where
  logicalShardId : record.logicalShardId = lease.logicalShardId
  owner : record.owner = some lease.owner
  ownerEpoch : record.ownerEpoch = some lease.ownerEpoch
  leaseId : record.leaseId = lease.leaseId

structure Inv (state : State) : Prop where
  shard : ∀ shard record, state.logicalShards.get shard = some record → record.logicalShardId = shard
  valid : ∀ shard record, state.logicalShards.get shard = some record →
    validateLogicalShardRecord record = .ok ()
  session : ∀ shard lease, state.ownerSessions.get shard = some lease → lease.logicalShardId = shard ∧
    ∃ record, state.logicalShards.get shard = some record ∧ Names record lease
  issued : ∀ shard lease, state.ownerSessions.get shard = some lease →
    lease.leaseId.toNat ≤ state.nextLeaseId.toNat

lemma inv_init : Inv State.init := by
  constructor <;> intro _ _ h <;> simp [State.init] at h

variable {record : LogicalShardRecord} {state : State} {shard : LogicalShardId} {op : Op} {answer : Answer}
  {lease : LogicalShardLease} {next : State}

lemma validateRecordLease_eq_ok {u : Unit} :
    validateRecordLease record lease = .ok u ↔ Names record lease := by
  unfold validateRecordLease
  simp only [bind_eq_ok, refuseIf_eq_ok, not_or, not_not, ne_eq]
  constructor
  · rintro ⟨_, howner, hid, hepoch, hlease⟩
    exact ⟨hid, howner, hepoch, hlease⟩
  · intro h
    exact ⟨(), h.owner, h.logicalShardId, h.ownerEpoch, h.leaseId⟩

lemma provedRecord_eq_ok : provedRecord state lease = .ok record ↔
      state.logicalShards.get lease.logicalShardId = some record ∧ Names record lease ∧
        state.ownerSessions.get lease.logicalShardId = some lease := by
  unfold provedRecord shardRecord validateInMemorySession
  simp only [bind_eq_ok, okOr_eq_ok, validateRecordLease_eq_ok, refuseIf_eq_ok, not_not, ne_eq, pure_eq_ok]
  constructor
  · rintro ⟨_, hcurrent, _, hnames, _, hsession, rfl⟩
    exact ⟨hcurrent, hnames, hsession⟩
  · rintro ⟨hcurrent, hnames, hsession⟩
    exact ⟨record, hcurrent, (), hnames, (), hsession, rfl⟩

lemma OwnerStep.names {current next : LogicalShardRecord} (h : OwnerStep current next)
    (hnames : Names current lease) : Names next lease :=
  ⟨h.owner.logicalShardId.trans hnames.logicalShardId, h.owner.owner.trans hnames.owner,
    h.owner.ownerEpoch.trans hnames.ownerEpoch, h.owner.leaseId.trans hnames.leaseId⟩

section

variable (hinv : Inv state)
include hinv

/-- Storing a valid record under its own shard, which still names every session of the shard. -/
lemma Inv.putRecord {next : LogicalShardRecord} (hshard : next.logicalShardId = shard)
    (hvalid : validateLogicalShardRecord next = .ok ())
    (hnames : ∀ lease, state.ownerSessions.get shard = some lease → Names next lease) :
    Inv (state.putRecord shard next) := by
  refine ⟨fun other record h => ?_, fun other record h => ?_, fun other lease h => ?_, hinv.issued⟩
  · rcases get_insert_cases h with ⟨rfl, rfl⟩ | ⟨-, h⟩
    · exact hshard
    · exact hinv.shard _ _ h
  · rcases get_insert_cases h with ⟨-, rfl⟩ | ⟨-, h⟩
    · exact hvalid
    · exact hinv.valid _ _ h
  · obtain ⟨hlease, record, hrecord, hnamed⟩ := hinv.session other lease h
    refine ⟨hlease, ?_⟩
    rw [State.putRecord, get_insert]
    split
    next heq =>
      subst heq
      exact ⟨next, rfl, hnames lease h⟩
    next => exact ⟨record, hrecord, hnamed⟩

lemma Inv.endSession (shard : LogicalShardId) : Inv (state.endSession shard) := by
  have hsub : ∀ other lease, (state.endSession shard).ownerSessions.get other = some lease →
      state.ownerSessions.get other = some lease := fun _ _ h => get_of_get_erase h
  exact ⟨hinv.shard, hinv.valid, fun other lease h => hinv.session other lease (hsub other lease h),
    fun other lease h => hinv.issued other lease (hsub other lease h)⟩

lemma Inv.unheld {current : LogicalShardRecord} (hcurrent : state.logicalShards.get shard = some current)
    (hfree : current.owner = none ∨ state.ownerSessions.get shard = none) :
    state.ownerSessions.get shard = none := by
  rcases hfree with howner | hnone
  · refine Option.eq_none_iff_forall_ne_some.2 fun session hsession => ?_
    obtain ⟨_, _, hrecord, hnames⟩ := hinv.session _ _ hsession
    cases hcurrent.symm.trans hrecord
    rw [hnames.owner] at howner
    cases howner
  · exact hnone

lemma Inv.effect (heffect : Effect state op answer next) : Inv next := by
  cases heffect with
  | keep _ hrecords hlease hsessions =>
    refine ⟨by rw [hrecords]; exact hinv.shard, by rw [hrecords]; exact hinv.valid,
      fun shard lease h => ?_, fun shard lease h => ?_⟩
    · rw [hrecords]
      exact hinv.session shard lease (hsessions shard lease h)
    · exact (hinv.issued shard lease (hsessions shard lease h)).trans hlease
  | create hnew =>
    refine hinv.putRecord rfl (validate_unassigned _) fun lease h => ?_
    -- a shard without a record has no session
    obtain ⟨_, record, hrecord, _⟩ := hinv.session _ lease h
    rw [hnew] at hrecord
    cases hrecord
  | replace hproved hstep =>
    obtain ⟨hcurrent, hnames, hsession⟩ := provedRecord_eq_ok.1 hproved
    refine hinv.putRecord (hstep.names hnames).logicalShardId ?_ fun lease h => ?_
    · rcases hstep.valid with rfl | hvalid
      · exact hinv.valid _ _ hcurrent
      · exact hvalid
    · cases hsession.symm.trans h
      exact hstep.names hnames
  | @release lease _ next record hproved hnext hvalid =>
    obtain ⟨hcurrent, hnames, _⟩ := provedRecord_eq_ok.1 hproved
    -- the session ends with the record it named
    have hend := hinv.endSession lease.logicalShardId
    have hnone : ∀ lease', (state.endSession lease.logicalShardId).ownerSessions.get lease.logicalShardId
        = some lease' → Names next lease' := by
      intro lease' h
      rw [State.endSession, get_erase, if_pos rfl] at h
      cases h
    exact hend.putRecord (by rw [hnext]; exact hnames.logicalShardId) hvalid hnone
  | @acquire shard lease current next hcurrent hfree _ hinstalled =>
    have hshard : current.logicalShardId = shard := hinv.shard _ _ hcurrent
    have hnone := hinv.unheld hcurrent hfree
    have hnames : Names next lease :=
      ⟨hinstalled.logicalShardId.trans hinstalled.leaseShard.symm, hinstalled.owner,
        hinstalled.ownerEpoch, hinstalled.leaseId⟩
    -- the lease id is issued first, then the record names it, then the session begins
    have halloc : Inv { state with nextLeaseId := lease.leaseId } :=
      ⟨hinv.shard, hinv.valid, hinv.session,
        fun other l h => (hinv.issued other l h).trans (by show _ ≤ lease.leaseId.toNat; omega)⟩
    have hput := halloc.putRecord (hinstalled.logicalShardId.trans hshard) hinstalled.valid
      fun l h => by cases hnone.symm.trans h
    refine ⟨hput.shard, hput.valid, fun other l h => ?_, fun other l h => ?_⟩
    · rcases get_insert_cases h with ⟨rfl, rfl⟩ | ⟨-, h⟩
      · exact ⟨hinstalled.leaseShard.trans hshard, next, get_insert_self .., hnames⟩
      · exact hput.session other l h
    · rcases get_insert_cases h with ⟨-, rfl⟩ | ⟨-, h⟩
      · exact le_rfl
      · exact hput.issued other l h

/-- **Every step keeps the invariant.** -/
theorem Inv.step (op : Op) : Inv (step state op).2 :=
  hinv.effect (step_effect state op)

lemma Inv.run (ops : List Op) : Inv (run state ops) := by
  induction ops generalizing state with
  | nil => exact hinv
  | cons op _ ih => exact ih (hinv.step op)

end

/-! ### Accepted leases -/

/-- A call that renews or proves the lease succeeds. -/
def Accepts (state : State) (lease : LogicalShardLease) : Prop :=
  ∃ record, renewOwner state lease = .ok record ∨ proveOwner state lease = .ok record

lemma Inv.accepts_iff (hinv : Inv state) :
    Accepts state lease ↔ state.ownerSessions.get lease.logicalShardId = some lease := by
  constructor
  · rintro ⟨record, h | h⟩
    · exact (provedRecord_eq_ok.1 h).2.2
    · exact (provedRecord_eq_ok.1 h).2.2
  · intro h
    obtain ⟨_, record, hrecord, hnames⟩ := hinv.session _ _ h
    exact ⟨record, Or.inl (provedRecord_eq_ok.2 ⟨hrecord, hnames, h⟩)⟩

/-- An issued lease that is no session any more. -/
structure Dead (state : State) (lease : LogicalShardLease) : Prop where
  session : state.ownerSessions.get lease.logicalShardId ≠ some lease
  issued : lease.leaseId.toNat ≤ state.nextLeaseId.toNat

lemma Dead.effect (h : Dead state lease) (heffect : Effect state op answer next) : Dead next lease := by
  cases heffect with
  | keep _ _ hlease hsessions =>
    exact ⟨fun hget => h.session (hsessions _ _ hget), h.issued.trans hlease⟩
  | create _ | replace _ _ => exact ⟨h.session, h.issued⟩
  | release => exact ⟨fun hget => h.session (get_of_get_erase hget), h.issued⟩
  | acquire _ _ _ _ _ =>
    have hissued := h.issued
    refine ⟨fun hget => ?_, ?_⟩
    · rcases get_insert_cases hget with ⟨-, rfl⟩ | ⟨-, hget⟩
      · -- the new lease has an id that was not issued before
        omega
      · exact h.session hget
    · simp only [State.putSession, State.putRecord]
      omega

/-- **A lease that is dead stays dead.** -/
theorem Dead.run (h : Dead state lease) (ops : List Op) : Dead (run state ops) lease := by
  induction ops generalizing state with
  | nil => exact h
  | cons op _ ih => exact ih (h.effect (step_effect state op))

lemma Dead.records (h : Dead state lease) (hop : op.lease = some lease) :
    (Control.step state op).2.logicalShards = state.logicalShards := by
  have hdead : ∀ current, provedRecord state lease ≠ .ok current := fun _ hproved =>
    h.session (provedRecord_eq_ok.1 hproved).2.2
  have hdid := step_did state op
  generalize (Control.step state op).2 = next at hdid ⊢
  generalize (Control.step state op).1 = answer at hdid
  cases hdid with
  | stay _ | place _ | suspend _ | allocate _ | lose _ => rfl
  | create hcreate =>
    subst hcreate
    cases hop
  | replace hlease _ hproved _ =>
    cases hop.symm.trans hlease
    exact absurd hproved (hdead _)
  | release hrelease hproved _ _ =>
    subst hrelease
    cases hop
    exact absurd hproved (hdead _)
  | acquire hlease => cases hop.symm.trans hlease

/-! ### Lease ids and epochs -/

/-- A granted lease has the next lease id and is the session of its shard. -/
lemma Inv.granted_step (hinv : Inv state) (h : (Control.step state op).1 = .lease lease) :
    lease.leaseId.toNat = state.nextLeaseId.toNat + 1 ∧
      (Control.step state op).2.nextLeaseId = lease.leaseId ∧ Accepts (Control.step state op).2 lease := by
  have hinv' := hinv.step op
  generalize hnext : (Control.step state op).2 = next at hinv' ⊢
  have heffect := step_effect state op
  rw [h, hnext] at heffect
  cases heffect with
  | keep hanswer => exact absurd rfl (hanswer lease)
  | acquire hcurrent _ hid hinstalled _ =>
    refine ⟨hid, rfl, hinv'.accepts_iff.2 ?_⟩
    rw [hinstalled.leaseShard.trans (hinv.shard _ _ hcurrent)]
    exact get_insert_self ..

lemma Effect.nextLeaseId_le (heffect : Effect state op answer next) :
    state.nextLeaseId.toNat ≤ next.nextLeaseId.toNat := by
  cases heffect with
  | keep _ _ hlease => exact hlease
  | create _ | replace _ _ | release _ _ _ => exact le_rfl
  | acquire _ _ hid => exact Nat.le.intro hid.symm

lemma nextLeaseId_le_run (state : State) (ops : List Op) :
    state.nextLeaseId.toNat ≤ (run state ops).nextLeaseId.toNat := by
  induction ops generalizing state with
  | nil => exact le_rfl
  | cons op _ ih => exact (step_effect state op).nextLeaseId_le.trans (ih _)

/-- Lease ids only grow, over all shards together. -/
lemma Inv.granted_ids (hinv : Inv state) (ops : List Op) :
    (∀ lease ∈ granted state ops, state.nextLeaseId.toNat < lease.leaseId.toNat ∧
      lease.leaseId.toNat ≤ (Control.run state ops).nextLeaseId.toNat) ∧
    (granted state ops).Pairwise fun a b => a.leaseId.toNat < b.leaseId.toNat := by
  induction ops generalizing state with
  | nil => exact ⟨fun lease h => absurd h not_mem_nil, .nil⟩
  | cons op ops ih =>
    obtain ⟨hbounds, hpairs⟩ := ih (hinv.step op)
    have hle := (step_effect state op).nextLeaseId_le
    have hrun := nextLeaseId_le_run (Control.step state op).2 ops
    unfold granted Control.run
    split
    next lease hanswer =>
      obtain ⟨_, hnext, _⟩ := hinv.granted_step hanswer
      rw [hnext] at hrun
      refine ⟨fun other h => ?_, ?_⟩
      · rcases mem_append.1 h with h | h
        · cases mem_singleton.1 h
          exact ⟨by omega, hrun⟩
        · have := hbounds other h
          exact ⟨by omega, this.2⟩
      · refine pairwise_cons.2 ⟨fun other h => ?_, hpairs⟩
        have := (hbounds other h).1
        rwa [hnext] at this
    next =>
      refine ⟨fun other h => ?_, hpairs⟩
      have := hbounds other h
      exact ⟨by omega, this.2⟩

def epochOf (state : State) (shard : LogicalShardId) : ℕ :=
  epochNumber ((state.logicalShards.get shard).bind LogicalShardRecord.ownerEpoch)

lemma epochOf_putRecord (state : State) (shard : LogicalShardId) (record : LogicalShardRecord)
    (other : LogicalShardId) : epochOf (state.putRecord shard record) other =
      if other = shard then epochNumber record.ownerEpoch else epochOf state other := by
  unfold epochOf
  rw [State.putRecord, get_insert]
  split <;> rfl

lemma epochOf_of_get (h : state.logicalShards.get shard = some record) :
    epochOf state shard = epochNumber record.ownerEpoch := by
  unfold epochOf
  rw [h]
  rfl

/-- By how much a call raises the epoch of a shard. -/
def epochGain (op : Op) (answer : Answer) (shard : LogicalShardId) : ℕ :=
  match answer with
  | .lease lease => if op.isFresh ∧ lease.logicalShardId = shard then 1 else 0
  | _ => 0

/-- The epoch a step leaves: one more on the shard of a fresh acquisition, the same elsewhere. -/
lemma Inv.epochOf_effect (hinv : Inv state) (heffect : Effect state op answer next) (shard : LogicalShardId) :
    epochOf next shard = epochOf state shard + epochGain op answer shard := by
  cases heffect with
  | keep hanswer hrecords =>
    -- no owner is installed
    have hzero : epochGain op answer shard = 0 := by
      unfold epochGain
      split
      next lease => exact absurd rfl (hanswer lease)
      next => rfl
    rw [hzero, epochOf, hrecords]
    rfl
  | @create _ _ hnew =>
    rw [epochOf_putRecord]
    split
    next heq =>
      subst heq
      rw [epochOf, hnew]
      rfl
    next => rfl
  | replace hproved hstep =>
    obtain ⟨hcurrent, _⟩ := provedRecord_eq_ok.1 hproved
    rw [epochOf_putRecord]
    split
    next heq =>
      subst heq
      rw [epochOf_of_get hcurrent, hstep.owner.ownerEpoch]
      rfl
    next => rfl
  | @release lease _ next _ hproved hnext =>
    obtain ⟨hcurrent, _⟩ := provedRecord_eq_ok.1 hproved
    show epochOf (state.putRecord lease.logicalShardId next) shard = epochOf state shard + 0
    rw [epochOf_putRecord]
    split
    next heq =>
      subst heq
      rw [epochOf_of_get hcurrent, hnext]
      rfl
    next => rfl
  | @acquire other lease _ next hcurrent _ _ hinstalled hepoch =>
    have hshard : lease.logicalShardId = other :=
      hinstalled.leaseShard.trans (hinv.shard _ _ hcurrent)
    show epochOf (state.putRecord other next) shard = epochOf state shard +
      if op.isFresh ∧ lease.logicalShardId = shard then 1 else 0
    rw [epochOf_putRecord, hshard]
    -- only an acquisition moves the epoch, of its own shard
    by_cases heq : shard = other
    · subst heq
      rw [if_pos rfl, epochOf_of_get hcurrent, hinstalled.ownerEpoch]
      simp only [and_true]
      exact hepoch
    · rw [if_neg heq]
      simp only [Ne.symm heq, and_false, if_false, Nat.add_zero]

lemma Inv.epochOf_le_run (hinv : Inv state) (ops : List Op) (shard : LogicalShardId) :
    epochOf state shard ≤ epochOf (Control.run state ops) shard := by
  induction ops generalizing state with
  | nil => exact le_rfl
  | cons op _ ih =>
    refine le_trans ?_ (ih (hinv.step op))
    rw [hinv.epochOf_effect (step_effect state op) shard]
    exact Nat.le_add_right ..

/-! ### The whole run -/

/-- What the leases guarantee after the given calls. -/
structure OwnerExclusivity (ops : List Op) : Prop where
  /-- at most one lease of a shard is renewed or proved -/
  unique : ∀ a b, a.logicalShardId = b.logicalShardId → Accepts (run .init ops) a →
    Accepts (run .init ops) b → a = b
  /-- a fresh acquisition raises the epoch of its shard by one -/
  fresh : ∀ op lease, op.isFresh → (step (run .init ops) op).1 = .lease lease →
    epochOf (step (run .init ops) op).2 lease.logicalShardId =
      epochOf (run .init ops) lease.logicalShardId + 1
  /-- nothing else changes an epoch: no other call, no failed call and no call on another shard -/
  unchanged : ∀ op shard,
    (∀ lease, op.isFresh → (step (run .init ops) op).1 = .lease lease → lease.logicalShardId ≠ shard) →
    epochOf (step (run .init ops) op).2 shard = epochOf (run .init ops) shard
  /-- an epoch never decreases -/
  monotone : ∀ rest shard, epochOf (run .init ops) shard ≤ epochOf (run .init (ops ++ rest)) shard
  /-- no lease id is issued twice -/
  ids : ((granted .init ops).map LogicalShardLease.leaseId).Nodup
  /-- a new lease is accepted, so it supersedes the other leases of its shard -/
  supersedes : ∀ op lease, (step (run .init ops) op).1 = .lease lease →
    Accepts (step (run .init ops) op).2 lease
  /-- a released lease is not accepted -/
  released : ∀ lease record, (step (run .init ops) (.releaseOwner lease)).1 = .record record →
    ¬ Accepts (step (run .init ops) (.releaseOwner lease)).2 lease
  /-- a lease whose session is lost is not accepted -/
  lost : ∀ lease, ¬ Accepts (step (run .init ops) (.sessionLoss lease.logicalShardId)).2 lease
  /-- a granted lease that is not accepted any more never changes a record again -/
  dead : ∀ lease ∈ granted .init ops, ¬ Accepts (run .init ops) lease → ∀ rest op,
    op.lease = some lease →
    (step (run .init (ops ++ rest)) op).2.logicalShards = (run .init (ops ++ rest)).logicalShards
  /-- every stored record is valid -/
  valid : ∀ shard record, (run .init ops).logicalShards.get shard = some record →
    validateLogicalShardRecord record = .ok ()

/-- **Owner exclusivity.** Over every sequence of calls and lost sessions. -/
theorem owner_exclusivity (ops : List Op) : OwnerExclusivity ops := by
  have hinv : Inv (run .init ops) := inv_init.run ops
  refine ⟨fun a b hshard ha hb => ?_, fun op lease hfresh hgrant => ?_, fun op shard hother => ?_,
    fun rest shard => ?_, ?_, fun op lease hgrant => ?_, fun lease record hok => ?_, fun lease => ?_,
    fun lease hlease hnot rest op hop => ?_, hinv.valid⟩
  · -- at most one lease of a shard is accepted
    have ha := hinv.accepts_iff.1 ha
    rw [hshard] at ha
    exact Option.some.inj (ha.symm.trans (hinv.accepts_iff.1 hb))
  · -- the epoch: fresh acquisitions advance it by one, and nothing else moves it
    rw [hinv.epochOf_effect (step_effect _ op), hgrant]
    simp [epochGain, hfresh]
  · rw [hinv.epochOf_effect (step_effect _ op)]
    unfold epochGain
    split
    next lease hgrant =>
      rw [if_neg fun h => hother lease h.1 hgrant h.2]
      rfl
    next => rfl
  · rw [run_append]
    exact hinv.epochOf_le_run rest shard
  · -- lease ids are issued once
    refine pairwise_map.2 ((inv_init.granted_ids ops).2.imp fun {a b} hlt heq => ?_)
    rw [heq] at hlt
    exact lt_irrefl _ hlt
  · exact (hinv.granted_step hgrant).2.2
  · -- a released or lost lease is accepted no more
    rw [(hinv.step _).accepts_iff]
    intro hsession
    cases hresult : releaseOwner (run .init ops) lease with
    | error =>
      simp only [step, hresult, outcome] at hok
      cases hok
    | ok =>
      simp only [step, hresult, outcome] at hsession
      obtain ⟨_, -, rfl⟩ := bind_pure_eq_ok hresult
      simp only [State.endSession, get_erase, if_pos] at hsession
      cases hsession
  · rw [(hinv.step _).accepts_iff]
    intro hsession
    simp only [step, State.endSession, get_erase, if_pos] at hsession
    cases hsession
  · -- and changes no record ever again
    have hdead : Dead (run .init ops) lease :=
      ⟨fun h => hnot (hinv.accepts_iff.2 h), ((inv_init.granted_ids ops).1 lease hlease).2⟩
    rw [run_append]
    exact (hdead.run rest).records hop

end NoKV.Control
