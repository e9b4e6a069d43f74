import NoKV.Lib.Unwinding
import NoKV.Meta.Engine.PeerWrites

/-!
# Noninterference of roots

All roots of a shard share its keyspaces, its clocks and its log. Two runs of the shard that address the
same operations to a root, each found with equal clocks and owner epoch, are the same runs for the root:

* `noninterference`: the answers and the rows of the root are equal, up to log positions, and no operation
  on another root changes a row of the root;
* `noninterference_needs_room`: it is not enough that clocks and owner epoch are equal, since the log has a
  last position that other operations may use up in one run and not in the other.
-/

namespace NoKV.Meta

open Lib Store State List

/-- The operation is addressed to the root. -/
def Operation.OfRoot {ρ : Type} (r : RootId) (op : Operation ρ) : Prop := op.root = some r

instance {ρ : Type} (r : RootId) : DecidablePred (Operation.OfRoot (ρ := ρ) r) := fun op =>
  inferInstanceAs (Decidable (op.root = some r))

section Unwinding

variable [Pager] [Sha256] {ρ : Type} (shard : LogicalShardId) (r : RootId)

/-- The operations of a root unwind. -/
lemma root_unwinding : Unwinding (Operation.step (ρ := ρ) shard) (Operation.OfRoot r)
    (fun s => ∃ log, Inv shard s log) (fun s t => InStep s t ∧ (Exhausted s ↔ Exhausted t)) (SameRoot r)
    Answer.Alike where
  equivalence := sameRoot_equivalence r
  keeps s op hinv := by
    cases op with
    | read => exact hinv
    | session request =>
      obtain ⟨_, hinv⟩ := hinv
      obtain ⟨_, -, hmore, -⟩ := hinv.serve request
      exact ⟨_, hmore⟩
  respects s op _ hforeign := by
    cases op with
    | read => exact (sameRoot_equivalence r).refl s
    | session =>
      exact ⟨fun _ hkey _ => serve_get_of_foreign hforeign hkey,
        fun _ hkey => congrArg _ (serve_get_of_foreign hforeign hkey)⟩
  consistent s t op hs ht hroot hsync hsame := by
    have hpeers : Peers shard r s t := ⟨hs, ht, hsame, hsync.1, hsync.2⟩
    cases op with
    | read => exact ⟨hpeers.read_alike (Option.some.inj hroot), hsame⟩
    | session =>
      obtain ⟨hanswer, hrows⟩ := hpeers.session_alike hroot
      exact ⟨.session hanswer, hrows⟩

/-- An operation that is not addressed to the root leaves its rows alone. -/
lemma step_get_of_foreign {s : State} {op : Operation ρ} (hforeign : op.root ≠ some r) {key : Key}
    (hkey : rootOf key = some r) : (op.step shard s).2.get key = s.get key := by
  cases op with
  | read => rfl
  | session => exact serve_get_of_foreign hforeign hkey

lemma mem_trace_foreign {s : State} {ops : List (Operation ρ)} {e : Event State (Operation ρ) (Answer ρ)}
    (he : e ∈ trace (Operation.step shard) s ops) (hforeign : e.op.root ≠ some r) {key : Key}
    (hkey : rootOf key = some r) : e.after.get key = e.before.get key := by
  induction ops generalizing s with
  | nil => cases he
  | cons _ _ ih =>
    rcases mem_cons.1 he with rfl | he
    · exact step_get_of_foreign shard r hforeign hkey
    · exact ih he

/-- **Noninterference.** Two runs with the same operations of a root, each made with equal clocks, owner
epoch and room in the log, answer the root alike and leave the same rows of it; in every run, operations
on other roots leave its rows alone. -/
theorem noninterference (ops ops' : List (Operation ρ))
    (hview : List.Forall₂ (fun a b => a.op = b.op ∧ InStep a.before b.before ∧
        (Exhausted a.before ↔ Exhausted b.before))
      (eventsOf (Operation.step shard) (Operation.OfRoot r) (initialized shard) ops)
      (eventsOf (Operation.step shard) (Operation.OfRoot r) (initialized shard) ops')) :
    List.Forall₂ (fun a b => a.answer.Alike b.answer ∧ SameRoot r a.after b.after)
        (eventsOf (Operation.step shard) (Operation.OfRoot r) (initialized shard) ops)
        (eventsOf (Operation.step shard) (Operation.OfRoot r) (initialized shard) ops') ∧
      SameRoot r (stateAfter (Operation.step shard) (initialized shard) ops)
        (stateAfter (Operation.step shard) (initialized shard) ops') ∧
      ∀ e ∈ trace (Operation.step shard) (initialized shard) ops, e.op.root ≠ some r →
        ∀ key, rootOf key = some r → e.after.get key = e.before.get key := by
  have hinv : ∃ log, Inv shard (initialized shard) log := ⟨_, inv_initialized shard⟩
  obtain ⟨hevents, hfinal⟩ := (root_unwinding shard r).two_runs hinv hinv
    ((sameRoot_equivalence r).refl _) hview
  exact ⟨hevents, hfinal, fun e he hforeign key hkey => mem_trace_foreign shard r he hforeign hkey⟩

end Unwinding

/-- Install a root for the second owner, at the given commit version. -/
def secondInstall [Sha256] (root request : UInt8) (readVersion : ReadVersion) : Operation Unit :=
  .session ⟨.execute ({ sampleCommand request readVersion .install with
    rootId := sampleId root
    ownerEpoch := sampleVersion 1 }).sealCommand none, .none⟩

/-- The second owner epoch, reached at once or through the first one; the owner then installs one root or
another. -/
def secondEpoch [Sha256] : List (Operation Unit) := [
  .session ⟨.advanceOwnerEpoch none (sampleVersion 1), .none⟩,
  secondInstall 5 20 (sampleVersion 0)]

def secondEpochLater [Sha256] : List (Operation Unit) := [
  .session ⟨.advanceOwnerEpoch none (sampleVersion 0), .none⟩,
  .session ⟨.advanceOwnerEpoch (some (sampleVersion 0)) (sampleVersion 1), .none⟩,
  secondInstall 6 21 (sampleVersion 0)]

def afterAll [Pager] [Sha256] (ops : List (Operation Unit)) : State :=
  stateAfter (Operation.step (sampleId 2)) (initialized (sampleId 2)) ops

/-- Both ways leave equal clocks and room in the log, at different log positions and with different roots. -/
lemma secondEpoch_state :
    letI := memoryPager
    letI := sha256Digest
    let s := afterAll secondEpoch
    let t := afterAll secondEpochLater
    s.get (systemKey SYSTEM_COMMIT_CLOCK_KEY) = t.get (systemKey SYSTEM_COMMIT_CLOCK_KEY) ∧
      s.get (systemKey SYSTEM_LEASE_CLOCK_HIGH_WATER_KEY) = t.get (systemKey SYSTEM_LEASE_CLOCK_HIGH_WATER_KEY) ∧
      s.get (systemKey SYSTEM_OWNER_FENCE_KEY) = t.get (systemKey SYSTEM_OWNER_FENCE_KEY) ∧
      s.get (systemKey SYSTEM_APPLIED_RECOVERY_LSN_KEY) = some (encodeSystemU64 2) ∧
      t.get (systemKey SYSTEM_APPLIED_RECOVERY_LSN_KEY) = some (encodeSystemU64 3) ∧
      (s.get ⟨ROOT_FENCE.id, (sampleId 5).bytes⟩).isSome = true ∧
      (t.get ⟨ROOT_FENCE.id, (sampleId 5).bytes⟩).isSome = false := by
  decide +kernel

/-- The sample root is installed alike behind another root and behind a third one. -/
theorem noninterference_secondInstall :
    letI := memoryPager
    letI := sha256Digest
    (afterAll secondEpoch).get ⟨ROOT_FENCE.id, (sampleId 5).bytes⟩ ≠
        (afterAll secondEpochLater).get ⟨ROOT_FENCE.id, (sampleId 5).bytes⟩ ∧
      SameRoot (sampleId 1) (afterAll (secondEpoch ++ [secondInstall 1 10 (sampleVersion 1)]))
        (afterAll (secondEpochLater ++ [secondInstall 1 10 (sampleVersion 1)])) := by
  let := memoryPager
  let := sha256Digest
  obtain ⟨hclock, hlease, howner, hlsn, hlsn', hroot, hroot'⟩ := secondEpoch_state
  unfold afterAll at *
  have hmine : Operation.OfRoot (sampleId 1) (secondInstall 1 10 (sampleVersion 1)) := rfl
  have hforeign : ∀ op ∈ secondEpoch, ¬ op.OfRoot (sampleId 1) := by decide
  have hforeign' : ∀ op ∈ secondEpochLater, ¬ op.OfRoot (sampleId 1) := by decide
  refine ⟨fun heq => ?_, (noninterference (sampleId 2) (sampleId 1) _ _ ?_).2.1⟩
  · rw [heq, hroot'] at hroot
    cases hroot
  rw [eventsOf_concat hforeign hmine, eventsOf_concat hforeign' hmine]
  refine .cons ⟨rfl, ?_, iff_of_false ?_ ?_⟩ .nil
  · dsimp only
    exact ⟨hclock, hlease, howner⟩
  · unfold Exhausted
    rw [hlsn]
    decide
  · unfold Exhausted
    rw [hlsn']
    decide

/-! ### The last position of the log -/

section LastPosition

variable [Pager] [Sha256] {shard : LogicalShardId} {s : State} {log : List RecoveryOutboxRecord}

lemma inv_serve_advance (h : Inv shard s log) (hlt : log.length + 1 < 2 ^ 64)
    {expected : Option OwnerEpoch} {next : OwnerEpoch}
    (hexpected : (systemAfter shard log).owner = (expected.map NonZeroU64.val).getD 0)
    (hlater : (systemAfter shard log).owner.toNat < next.get) :
    ∃ row, Inv shard (serve shard s ⟨.advanceOwnerEpoch expected next, .none⟩).2 (log ++ [row]) ∧
      (systemAfter shard (log ++ [row])).owner = next.val ∧
      (systemAfter shard (log ++ [row])).clock = (systemAfter shard log).clock ∧
      (systemAfter shard (log ++ [row])).leaseClock = (systemAfter shard log).leaseClock := by
  obtain ⟨operation, txn, conflict, hplan, hvalid, hchecks, -⟩ := h.advance_total hlt hexpected hlater
  have hserve : (serve shard s ⟨.advanceOwnerEpoch expected next, .none⟩).2 = s.writeAll txn.mutations := by
    unfold serve writeSession Faults.none attempt
    rw [hplan]
    dsimp only
    unfold submit State.commit
    rw [hvalid, if_pos hchecks]
  have hplans : Plans shard s (.advanceOwnerEpoch expected next) txn .ownerEpoch := ⟨operation, conflict, hplan⟩
  obtain ⟨_, plan, hwrote⟩ := hplans.wrote
  refine ⟨plan.row, hserve ▸ h.step hwrote hvalid hchecks, ?_⟩
  have hresult := (hwrote.continues h.system).result_eq
  rw [systemAfter_concat]
  unfold SystemRecords.apply
  cases hwrote with
  | advanceOwnerEpoch =>
    rw [hresult]
    exact ⟨rfl, rfl, rfl⟩

lemma exists_advances (shard : LogicalShardId) (n : ℕ) (hn : n < 2 ^ 64) :
    ∃ requests log, (∀ request ∈ requests, request.call.root = none) ∧
      Inv shard (serveAll shard (initialized shard) requests) log ∧ log.length = n ∧
      (systemAfter shard log).owner = UInt64.ofNat n ∧
      (systemAfter shard log).clock = INITIAL_COMMIT_VERSION ∧ (systemAfter shard log).leaseClock = 0 := by
  induction n with
  | zero => exact ⟨[], [], fun _ h => absurd h not_mem_nil, inv_initialized shard, rfl, rfl, rfl, rfl⟩
  | succ n ih =>
    obtain ⟨requests, log, hroot, hinv, hlength, howner, hclock, hlease⟩ := ih (by omega)
    obtain ⟨expected, next, hexpected, hnext, hlater⟩ := exists_epochs hn
    rw [← howner] at hexpected hlater
    obtain ⟨row, hinv', howner', hclock', hlease'⟩ := inv_serve_advance hinv (by omega) hexpected hlater
    refine ⟨requests ++ [⟨.advanceOwnerEpoch expected next, .none⟩], log ++ [row], ?_, ?_, by simp [hlength],
      howner'.trans hnext, hclock'.trans hclock, hlease'.trans hlease⟩
    · intro request hrequest
      rcases mem_append.1 hrequest with hrequest | hrequest
      · exact hroot request hrequest
      · cases mem_singleton.1 hrequest
        rfl
    · unfold serveAll
      rw [foldl_append]
      exact hinv'

/-- Behind the last position nothing is written any more. -/
lemma serve_of_exhausted (h : Inv shard s log) (hlast : log.length = 2 ^ 64 - 1) (request : Request) :
    (serve shard s request).2 = s := by
  rcases serve_cases shard s request with heq | ⟨_, _, happlied, -⟩
  · exact heq
  · obtain ⟨_, plan, hwrote⟩ := happlied.plan.wrote
    have hnext := h.step hwrote happlied.valid happlied.checks
    have hlsn := hnext.lsn_eq
    have hlt := (systemAfter shard (log ++ [plan.row])).lsn.toNat_lt
    rw [hlsn, length_append, length_singleton] at hlt
    omega

/-- Two runs whose operations of the root find equal clocks and owner epochs, and that end with different
rows of the root: in one of them the log is used up before the root is installed. -/
lemma exists_interference {ρ : Type} {r : RootId} {advance install : Operation ρ}
    (hinstall : install.OfRoot r) (hadvance : ¬ advance.OfRoot r)
    (hclock : (advance.step shard (initialized shard)).2.get (systemKey SYSTEM_COMMIT_CLOCK_KEY) =
      some (encodeSystemU64 INITIAL_COMMIT_VERSION))
    (hlease : (advance.step shard (initialized shard)).2.get (systemKey SYSTEM_LEASE_CLOCK_HIGH_WATER_KEY) =
      some (encodeSystemU64 0))
    (howner : (advance.step shard (initialized shard)).2.get (systemKey SYSTEM_OWNER_FENCE_KEY) =
      some (encodeSystemU64 (UInt64.ofNat (2 ^ 64 - 1))))
    (hinstalled : (install.step shard (advance.step shard (initialized shard)).2).2.get
      ⟨ROOT_FENCE.id, r.bytes⟩ ≠ none) :
    ∃ ops ops' : List (Operation ρ),
      List.Forall₂ (fun a b => a.op = b.op ∧ InStep a.before b.before)
        (eventsOf (Operation.step shard) (Operation.OfRoot r) (initialized shard) ops)
        (eventsOf (Operation.step shard) (Operation.OfRoot r) (initialized shard) ops') ∧
      ¬ SameRoot r (stateAfter (Operation.step shard) (initialized shard) ops)
        (stateAfter (Operation.step shard) (initialized shard) ops') := by
  -- the first run: the owner advances epoch by epoch until the log is full
  obtain ⟨requests, _, hroot, hinv, hlength, howner', hclock', hlease'⟩ :=
    exists_advances shard (2 ^ 64 - 1) (by decide)
  have hforeign : ∀ op ∈ requests.map (Operation.session (ρ := ρ)), ¬ op.OfRoot r := by
    intro op hop
    obtain ⟨request, hrequest, rfl⟩ := mem_map.1 hop
    show ¬ request.call.root = some r
    rw [hroot request hrequest]
    simp
  have hstate : stateAfter (Operation.step shard) (initialized shard)
      (requests.map (Operation.session (ρ := ρ))) = serveAll shard (initialized shard) requests := by
    unfold stateAfter serveAll
    rw [foldl_map]
    rfl
  have hadvance' : ∀ op ∈ [advance], ¬ op.OfRoot r := fun op hop => mem_singleton.1 hop ▸ hadvance
  refine ⟨requests.map .session ++ [install], [advance] ++ [install], ?_, fun hsame => hinstalled ?_⟩
  · -- the installation is made with equal clocks and owner epoch
    rw [eventsOf_concat hforeign hinstall, eventsOf_concat hadvance' hinstall, hstate]
    refine .cons ⟨rfl, ?_, ?_, ?_⟩ .nil
    · exact (hinv.system.clock.trans (by rw [hclock'])).trans hclock.symm
    · exact (hinv.system.leaseClock.trans (by rw [hlease'])).trans hlease.symm
    · exact (hinv.system.owner.trans (by rw [howner'])).trans howner.symm
  · -- the first run writes no row behind the last position, and none of the root before it
    have hstill : stateAfter (Operation.step shard) (initialized shard) (requests.map .session ++ [install]) =
        serveAll shard (initialized shard) requests := by
      unfold stateAfter at hstate ⊢
      rw [foldl_append, hstate]
      cases install with
      | read => rfl
      | session request => exact serve_of_exhausted hinv hlength request
    have hbefore : SameRoot r _ (initialized shard) := (root_unwinding shard r).of_nil
      ⟨_, inv_initialized shard⟩ (eventsOf_eq_nil hforeign (initialized shard))
    rw [hstate] at hbefore
    rw [hstill] at hsame
    have hnone := initialized_get_other shard (show ROOT_FENCE.id ≠ SYSTEM.id by decide) r.bytes
    exact hsame.fence_eq.symm.trans (hbefore.fence_eq.trans hnone)

end LastPosition

def lastEpoch : OwnerEpoch := ⟨UInt64.ofNat (2 ^ 64 - 1), by decide⟩

def lastInstall [Sha256] : Operation Unit :=
  .session ⟨.execute ({ sampleCommand 10 (sampleVersion 0) .install with ownerEpoch := lastEpoch }).sealCommand none,
    .none⟩

def lastAdvance : Operation Unit := .session ⟨.advanceOwnerEpoch none lastEpoch, .none⟩

/-- Behind one advance, the clocks stand at their start and the root is installed. -/
lemma lastAdvance_state :
    let s := (@Operation.step memoryPager sha256Digest Unit (sampleId 2)
      (@initialized sha256Digest (sampleId 2)) lastAdvance).2
    s.get (systemKey SYSTEM_COMMIT_CLOCK_KEY) = some (encodeSystemU64 INITIAL_COMMIT_VERSION) ∧
      s.get (systemKey SYSTEM_LEASE_CLOCK_HIGH_WATER_KEY) = some (encodeSystemU64 0) ∧
      s.get (systemKey SYSTEM_OWNER_FENCE_KEY) = some (encodeSystemU64 lastEpoch.val) ∧
      ((@Operation.step memoryPager sha256Digest Unit (sampleId 2) s
        (@lastInstall sha256Digest)).2.get ⟨ROOT_FENCE.id, (sampleId 1).bytes⟩) ≠ none := by
  decide +kernel

/-- Equal clocks and owner epochs are not enough: when the operations of others have used up the log in
one run and not in the other, the root is installed in one run only. -/
theorem noninterference_needs_room :
    ¬ ∀ ops ops' : List (Operation Unit),
      List.Forall₂ (fun a b => a.op = b.op ∧ InStep a.before b.before)
        (eventsOf (@Operation.step memoryPager sha256Digest Unit (sampleId 2))
          (Operation.OfRoot (sampleId 1)) (@initialized sha256Digest (sampleId 2)) ops)
        (eventsOf (@Operation.step memoryPager sha256Digest Unit (sampleId 2))
          (Operation.OfRoot (sampleId 1)) (@initialized sha256Digest (sampleId 2)) ops') →
      SameRoot (sampleId 1)
        (stateAfter (@Operation.step memoryPager sha256Digest Unit (sampleId 2))
          (@initialized sha256Digest (sampleId 2)) ops)
        (stateAfter (@Operation.step memoryPager sha256Digest Unit (sampleId 2))
          (@initialized sha256Digest (sampleId 2)) ops') := by
  intro h
  obtain ⟨hclock, hlease, howner, hinstalled⟩ := lastAdvance_state
  obtain ⟨ops, ops', hview, hrows⟩ := @exists_interference memoryPager sha256Digest (sampleId 2) Unit
    (sampleId 1) lastAdvance (@lastInstall sha256Digest) rfl (by decide) hclock hlease howner hinstalled
  exact hrows (h ops ops' hview)

end NoKV.Meta
