import NoKV.Meta.Engine.LastPosition
import NoKV.Meta.Engine.RootPeers

/-!
# Writes on two stores with the same root

A write of a root is planned in one shape in two stores with the same rows of the root (`TxnPair`): the
checks hold in both or in neither, and the mutations leave the same rows of the root. So a session of the
root answers alike in both stores, whatever happens to it (`Peers.session_alike`).
-/

namespace NoKV.Meta

open Lib Store State List
open Prog hiding bind pure get

/-! ### Writes that leave the same rows of a root -/

section Writes

variable {r : RootId} {s t : State}

/-- The mutations leave the same rows of the root. -/
def SameWrite (r : RootId) (m m' : Mutation) : Prop :=
  ∀ s t : State, SameRoot r s t → SameRoot r (s.write m) (t.write m')

lemma sameWrite_self (m : Mutation) : SameWrite r m m := by
  intro s t h
  refine ⟨fun key hkey hne => ?_, fun key hkey => ?_⟩
  · rw [get_write, get_write, h.rows key hkey hne]
  · rw [get_write, get_write]
    split
    · rfl
    · exact h.replays key hkey

lemma sameWrite_shard {m m' : Mutation} (hm : rootOf m.key = none) (hm' : rootOf m'.key = none) :
    SameWrite r m m' := by
  intro s t h
  have hother : ∀ {u : State} {n : Mutation}, rootOf n.key = none → ∀ key, rootOf key = some r →
      (u.write n).get key = u.get key := by
    intro u n hn key hkey
    rw [get_write, if_neg]
    rintro rfl
    rw [hn] at hkey
    cases hkey
  refine ⟨fun key hkey hne => ?_, fun key hkey => ?_⟩
  · rw [hother hm key hkey, hother hm' key hkey, h.rows key hkey hne]
  · rw [hother hm ⟨COMMAND_DEDUPE.id, key⟩ hkey, hother hm' ⟨COMMAND_DEDUPE.id, key⟩ hkey, h.replays key hkey]

lemma sameWrite_replay {key value value' : Bytes} (h : replayContent value = replayContent value') :
    SameWrite r (.put ⟨COMMAND_DEDUPE.id, key⟩ value) (.put ⟨COMMAND_DEDUPE.id, key⟩ value') := by
  intro s t hsame
  have hget : ∀ (u : State) (v : Bytes) (k : Key), (u.write (.put ⟨COMMAND_DEDUPE.id, key⟩ v)).get k =
      if k = ⟨COMMAND_DEDUPE.id, key⟩ then some v else u.get k := fun u v k => get_write u _ k
  refine ⟨fun other hother hne => ?_, fun other hother => ?_⟩
  · have hkey : other ≠ ⟨COMMAND_DEDUPE.id, key⟩ := by
      rintro rfl
      exact hne rfl
    rw [hget, hget, if_neg hkey, if_neg hkey, hsame.rows other hother hne]
  · rw [hget, hget]
    split
    · exact congrArg some h
    · exact hsame.replays other hother

lemma SameRoot.writeAll (h : SameRoot r s t) {ms ms' : List Mutation}
    (hms : List.Forall₂ (SameWrite r) ms ms') : SameRoot r (s.writeAll ms) (t.writeAll ms') := by
  induction hms generalizing s t with
  | nil => exact h
  | cons hhead _ ih => exact ih (hhead s t h)

end Writes

/-! ### Transactions on two stores -/

section Pairs

variable {r : RootId} {s t : State} {lsn lsn' : UInt64} {ks : Keyspace}

/-- Checks of one shape that hold in both stores or in neither. -/
structure CheckPair (lsn lsn' : UInt64) (s t : State) (c d : Check) : Prop where
  like : Check.Like (Renames lsn lsn') c d
  holds_eq : s.holds c = t.holds d

/-- Mutations of one shape that leave the same rows of the root. -/
structure MutationPair (r : RootId) (lsn lsn' : UInt64) (m m' : Mutation) : Prop where
  like : Mutation.Like (Renames lsn lsn') m m'
  same : SameWrite r m m'

/-- Transactions of one shape with the same outcome for the root. -/
structure TxnPair (r : RootId) (lsn lsn' : UInt64) (s t : State) (txn txn' : WriteTxn) : Prop where
  checks : List.Forall₂ (CheckPair lsn lsn' s t) txn.checks txn'.checks
  mutations : List.Forall₂ (MutationPair r lsn lsn') txn.mutations txn'.mutations

lemma TxnPair.validate_eq {txn txn' : WriteTxn} (h : TxnPair r lsn lsn' s t txn txn')
    (limits : StoreLimits) : txn.validate limits = txn'.validate limits := by
  have hlike : txn.Like (Renames lsn lsn') txn' :=
    ⟨h.checks.imp fun _ _ hpair => hpair.like, h.mutations.imp fun _ _ hpair => hpair.like⟩
  exact hlike.validate_eq (renames_keyMatch lsn lsn')

lemma all_holds_eq {cs ds : List Check} (h : List.Forall₂ (CheckPair lsn lsn' s t) cs ds) :
    cs.all s.holds = ds.all t.holds := by
  induction h with
  | nil => rfl
  | cons hhead _ ih => rw [all_cons, all_cons, hhead.holds_eq, ih]

/-- Both transactions apply or conflict, and leave the same rows of the root. -/
lemma TxnPair.commit {txn txn' : WriteTxn} (h : TxnPair r lsn lsn' s t txn txn') (hsame : SameRoot r s t) :
    (s.commit txn).1 = (t.commit txn').1 ∧ SameRoot r (s.commit txn).2 (t.commit txn').2 ∧
      ((s.commit txn).1 = .conflict → (s.commit txn).2 = s ∧ (t.commit txn').2 = t) := by
  unfold State.commit
  rw [← all_holds_eq h.checks]
  split
  · refine ⟨rfl, hsame.writeAll (h.mutations.imp fun _ _ hpair => hpair.same), ?_⟩
    rintro ⟨⟩
  · exact ⟨rfl, hsame, fun _ => ⟨rfl, rfl⟩⟩

lemma checkPair_value {key : Key} (hout : key.keyspace ≠ RECOVERY_OUTBOX.id) (h : s.get key = t.get key)
    (expected : Bytes) : CheckPair lsn lsn' s t (.value key expected) (.value key expected) := by
  refine ⟨.value (.same hout) rfl, Bool.eq_iff_iff.2 ?_⟩
  rw [holds_value, holds_value, h]

lemma checkPair_absent {key : Key} (hout : key.keyspace ≠ RECOVERY_OUTBOX.id)
    (h : s.get key = none ↔ t.get key = none) : CheckPair lsn lsn' s t (.absent key) (.absent key) := by
  refine ⟨.absent (.same hout), Bool.eq_iff_iff.2 ?_⟩
  rw [holds_absent, holds_absent, h]

lemma checkPair_emptyPrefix {keyPrefix : Bytes} (h : ∀ k, keyPrefix <+: k → s.get ⟨ks, k⟩ = t.get ⟨ks, k⟩) :
    CheckPair lsn lsn' s t (.emptyPrefix ks keyPrefix) (.emptyPrefix ks keyPrefix) := by
  refine ⟨.emptyPrefix ks keyPrefix, ?_⟩
  have hempty : ∀ u : State, u.holds (.emptyPrefix ks keyPrefix) = true ↔
      ∀ k, keyPrefix <+: k → u.get ⟨ks, k⟩ = none := by
    intro u
    show ((u.rows ks).rows.all fun row => !keyPrefix.isPrefixOf row.1) = true ↔ _
    rw [all_eq_true]
    constructor
    · intro hall k hk
      refine Option.eq_none_iff_forall_ne_some.2 fun value hget => ?_
      have hrow := hall (k, value) (OrdMap.mem_rows.2 hget)
      rw [ isPrefixOf_iff_prefix.2 hk] at hrow
      cases hrow
    · rintro hall ⟨k, value⟩ hrow
      by_contra hunder
      have hk : keyPrefix <+: k := isPrefixOf_iff_prefix.1 (by simpa using hunder)
      have hget : u.get ⟨ks, k⟩ = some value := OrdMap.mem_rows.1 hrow
      rw [hall k hk] at hget
      cases hget
  refine Bool.eq_iff_iff.2 ?_
  rw [hempty, hempty]
  exact forall_congr' fun k => forall_congr' fun hk => by rw [h k hk]

lemma mutationPair_self {m : Mutation} (hout : m.key.keyspace ≠ RECOVERY_OUTBOX.id) :
    MutationPair r lsn lsn' m m := by
  refine ⟨?_, sameWrite_self m⟩
  cases m with
  | put => exact .put (.same hout) rfl
  | delete => exact .delete (.same hout)

lemma rowChecks_pair (hks : ks ≠ RECOVERY_OUTBOX.id) {rows : List (Bytes × Bytes)}
    (h : ∀ row ∈ rows, s.get ⟨ks, row.1⟩ = none ↔ t.get ⟨ks, row.1⟩ = none) :
    List.Forall₂ (CheckPair lsn lsn' s t) (rowChecks ks rows) (rowChecks ks rows) :=
  forall₂_map_left_iff.2 (forall₂_map_right_iff.2
    (forall₂_same.2 fun row hrow => checkPair_absent hks (h row hrow)))

lemma rowMutations_pair (hks : ks ≠ RECOVERY_OUTBOX.id) (rows : List (Bytes × Bytes)) :
    List.Forall₂ (MutationPair r lsn lsn') (rowMutations ks rows) (rowMutations ks rows) :=
  forall₂_map_left_iff.2 (forall₂_map_right_iff.2
    (forall₂_same.2 fun _ _ => mutationPair_self hks))

end Pairs

/-! ### The recovery record of a write -/

section Recovery

variable {shard : LogicalShardId} {r : RootId} {s t : State} {log : List RecoveryOutboxRecord}
  {mutation : RecoveryMutationV1} {result : RecoveryResultV1} {plan plan' : RecoveryPlan} {sys : SystemRecords}

/-- A record planned behind the tail of a store, whose rows are free. -/
structure PlansNext (s : State) (plan : RecoveryPlan) : Prop where
  lsn : s.get (systemKey SYSTEM_APPLIED_RECOVERY_LSN_KEY) = some plan.lsnValue
  digest : s.get (systemKey SYSTEM_RECOVERY_CHAIN_DIGEST_KEY) = some plan.digestValue
  lsn_length : plan.lsnValue.length = 9
  digest_length : plan.digestValue.length = 33
  header_free : s.get ⟨RECOVERY_OUTBOX.id, recoveryOutboxKey plan.row.recoveryLsn⟩ = none
  chunk_free : ∀ index, s.get ⟨RECOVERY_OUTBOX.id, recoveryChunkKey plan.row.recoveryLsn index⟩ = none

lemma SystemInv.exhausted_iff (h : SystemInv shard s sys) : Exhausted s ↔ checkedAdd sys.lsn 1 = none := by
  have hlast : checkedAdd sys.lsn 1 = none ↔ sys.lsn.toNat = 2 ^ 64 - 1 := by
    have hlt := sys.lsn.toNat_lt
    unfold checkedAdd
    split
    · exact iff_of_false (by simp) (by omega)
    · exact iff_of_true rfl (by omega)
  unfold Exhausted
  rw [h.lsn, hlast]
  constructor
  · intro heq
    rw [encodeSystemU64_injective (Option.some.inj heq)]
    decide
  · intro heq
    rw [← heq, UInt64.ofNat_toNat]

lemma chunkRows_pair {lsn lsn' : UInt64} {chunks chunks' : List Bytes}
    (h : List.Forall₂ (fun x y : Bytes => x.length = y.length) chunks chunks')
    (hs : ∀ index, s.get ⟨RECOVERY_OUTBOX.id, recoveryChunkKey lsn index⟩ = none)
    (ht : ∀ index, t.get ⟨RECOVERY_OUTBOX.id, recoveryChunkKey lsn' index⟩ = none) (index : ℕ) :
    List.Forall₂ (CheckPair lsn lsn' s t) (rowChecks RECOVERY_OUTBOX.id (chunkRows lsn chunks index))
        (rowChecks RECOVERY_OUTBOX.id (chunkRows lsn' chunks' index)) ∧
      List.Forall₂ (MutationPair r lsn lsn') (rowMutations RECOVERY_OUTBOX.id (chunkRows lsn chunks index))
        (rowMutations RECOVERY_OUTBOX.id (chunkRows lsn' chunks' index)) := by
  induction h generalizing index with
  | nil => exact ⟨.nil, .nil⟩
  | cons hlength _ ih =>
    obtain ⟨hchecks, hmutations⟩ := ih (index + 1)
    refine ⟨.cons ⟨.absent (.chunk index), ?_⟩ hchecks, .cons ⟨.put (.chunk index) hlength, ?_⟩ hmutations⟩
    · rw [holds_absent.2 (hs index), holds_absent.2 (ht index)]
    · exact sameWrite_shard (rootOf_outbox _) (rootOf_outbox _)

/-- Recovery records of one shape extend a pair of transactions. -/
lemma TxnPair.enqueueRecovery {base base' : WriteTxn} (hshape : plan.SameShape plan')
    (h : TxnPair r plan.row.recoveryLsn plan'.row.recoveryLsn s t base base') (hs : PlansNext s plan)
    (ht : PlansNext t plan') :
    TxnPair r plan.row.recoveryLsn plan'.row.recoveryLsn s t (enqueueRecovery base plan)
      (enqueueRecovery base' plan') := by
  obtain ⟨hchecks, hmutations⟩ := chunkRows_pair (r := r) hshape.chunks_eq hs.chunk_free ht.chunk_free 0
  have htail : ∀ {key value value' : Bytes}, s.get (systemKey key) = some value →
      t.get (systemKey key) = some value' → value.length = value'.length →
      CheckPair plan.row.recoveryLsn plan'.row.recoveryLsn s t (valueCheck SYSTEM.id key value)
        (valueCheck SYSTEM.id key value') := by
    intro key value value' hvalue hvalue' hlength
    refine ⟨.value (.same (show SYSTEM.id ≠ RECOVERY_OUTBOX.id by decide)) hlength, ?_⟩
    exact (holds_value.2 hvalue).trans (holds_value.2 hvalue').symm
  have hput : ∀ {key value value' : Bytes}, value.length = value'.length →
      MutationPair r plan.row.recoveryLsn plan'.row.recoveryLsn (.put (systemKey key) value)
        (.put (systemKey key) value') := by
    intro key value value' hlength
    exact ⟨.put (.same (show SYSTEM.id ≠ RECOVERY_OUTBOX.id by decide)) hlength,
      sameWrite_shard (rootOf_system _) (rootOf_system _)⟩
  refine ⟨rel_append (rel_append h.checks (.cons ?_ (.cons ?_ .nil))) (.cons ?_ hchecks),
    rel_append (rel_append h.mutations (.cons ?_ (.cons ?_ .nil))) (.cons ?_ hmutations)⟩
  · exact htail hs.lsn ht.lsn (hs.lsn_length.trans ht.lsn_length.symm)
  · exact htail hs.digest ht.digest (hs.digest_length.trans ht.digest_length.symm)
  · refine ⟨.absent .header, ?_⟩
    rw [holds_absent.2 hs.header_free, holds_absent.2 ht.header_free]
  · exact hput (by simp [encodeSystemU64])
  · exact hput (by simp [encodeSystemDigest])
  · exact ⟨.put .header hshape.header_eq, sameWrite_shard (rootOf_outbox _) (rootOf_outbox _)⟩

variable [Sha256]

lemma Inv.plansNext [Pager] (h : Inv shard s log)
    (hplan : (planRecovery mutation result).runAt s = .ok plan) : PlansNext s plan := by
  obtain ⟨lsn, _, hlsn, hdigest, hcont⟩ := planRecovery_continues hplan
  have htail : lsn = (systemAfter shard log).lsn :=
    encodeSystemU64_injective (Option.some.inj (hlsn.symm.trans h.system.lsn))
  have hnext : log.length < plan.row.recoveryLsn.toNat := by
    rw [hcont.lsn_eq, htail, h.lsn_eq]
    omega
  obtain ⟨hheader, hchunk⟩ := h.log.outbox_free hnext
  rw [← hcont.lsnValue_eq] at hlsn
  rw [← hcont.digestValue_eq] at hdigest
  refine ⟨hlsn, hdigest, ?_, ?_, hheader, hchunk⟩
  · rw [hcont.lsnValue_eq]
    simp [encodeSystemU64]
  · rw [hcont.digestValue_eq]
    simp [encodeSystemDigest]

lemma SystemInv.planRecovery_runAt [Pager] (h : SystemInv shard s sys) :
    (planRecovery mutation result).runAt s =
      buildRecoveryPlan (encodeSystemU64 sys.lsn) (encodeSystemDigest sys.digest) mutation result := by
  unfold planRecovery
  rw [runAt_bind, recoveryTailValues_eq_ok.2 ⟨h.lsn, h.digest⟩, ok_bind]
  exact runAt_liftM s _

/-- One mutation of the root is planned in one shape behind both tails. -/
lemma Peers.planRecovery_matches [Pager] (h : Peers shard r s t) (mutation : RecoveryMutationV1)
    (result : RecoveryResultV1) :
    Matches (fun plan plan' => plan.SameShape plan' ∧ PlansNext s plan ∧ PlansNext t plan')
      ((planRecovery mutation result).runAt s) ((planRecovery mutation result).runAt t) := by
  obtain ⟨log, hinv⟩ := h.left
  obtain ⟨log', hinv'⟩ := h.right
  have hroom := h.room
  rw [hinv.system.exhausted_iff, hinv'.system.exhausted_iff] at hroom
  have hmatches := buildRecoveryPlan_matches hroom (systemAfter shard log).digest (systemAfter shard log').digest
    mutation result
  rw [← hinv.system.planRecovery_runAt, ← hinv'.system.planRecovery_runAt] at hmatches
  exact hmatches.and_eq_ok.mono fun plan plan' hplans =>
    ⟨hplans.1, hinv.plansNext hplans.2.1, hinv'.plansNext hplans.2.2⟩

end Recovery

/-! ### Planning a command of the root -/

section Plans

variable {r : RootId} {s t : State} {plan plan' : PredicatePlan} {predicate : CommandPredicate}

/-- The plan names keys of the root only. -/
structure PredicatePlan.Inside (r : RootId) (plan : PredicatePlan) : Prop where
  exact : ∀ k planned, plan.exact.get k = some planned → r.bytes <+: planned.key
  prefixEmpty : ∀ entry ∈ plan.prefixEmpty, r.bytes <+: entry.2

/-- The key or prefix of a validated predicate is one of the root. -/
lemma inside_of_validatePredicate (h : validatePredicate r predicate = .ok ()) : match predicate with
    | .value _ key _ => r.bytes <+: key
    | .prefixEmpty _ keyPrefix => keyPrefix.length ≤ 8205 ∧ r.bytes <+: keyPrefix := by
  cases predicate with
  | value =>
    obtain ⟨_, hscoped, -⟩ := bind_eq_ok.1 h
    exact isPrefixOf_iff_prefix.1 (validateRootScopedBytes_eq_ok.1 hscoped).2
  | prefixEmpty =>
    obtain ⟨hle, hunder⟩ := validateRootScopedBytes_eq_ok.1 h
    exact ⟨hle.trans (by decide), isPrefixOf_iff_prefix.1 hunder⟩

variable [Pager]

lemma planPredicate_inside (h : validatePredicate r predicate = .ok ()) (hplan : plan.Inside r)
    (hrun : (planPredicate plan predicate).runAt s = .ok plan') : plan'.Inside r := by
  have hunder := inside_of_validatePredicate h
  cases predicate with
  | value =>
    unfold planPredicate at hrun
    simp only [runAt_bind, runAt_refuseIf, runAt_liftM, runAt_pure] at hrun
    replace hrun := ok_of_bind hrun
    obtain ⟨_, -, hrun⟩ := bind_eq_ok.1 hrun
    obtain ⟨_, -, hrun⟩ := bind_eq_ok.1 hrun
    obtain ⟨_, -, rfl⟩ := bind_pure_eq_ok hrun
    refine ⟨fun k planned hk => ?_, hplan.prefixEmpty⟩
    rcases OrdMap.get_insert_cases hk with ⟨-, rfl⟩ | ⟨-, hk⟩
    · exact hunder
    · exact hplan.exact k planned hk
  | prefixEmpty =>
    unfold planPredicate at hrun
    simp only [runAt_bind, runAt_refuseIf, runAt_pure] at hrun
    obtain ⟨_, -, hrun⟩ := bind_eq_ok.1 hrun
    obtain ⟨_, -, rfl⟩ := bind_pure_eq_ok hrun
    refine ⟨hplan.exact, fun entry hentry => ?_⟩
    rcases mem_append.1 hentry with hentry | hentry
    · exact hplan.prefixEmpty entry hentry
    · cases mem_singleton.1 hentry
      exact hunder.2

lemma planPredicates_inside {command : MetadataCommand}
    (h : ∀ p ∈ command.predicates, validatePredicate r p = .ok ())
    (hrun : (planPredicates command).runAt s = .ok plan) : plan.Inside r := by
  unfold planPredicates at hrun
  rw [runAt_bind, runAt_foldlM] at hrun
  obtain ⟨plan', hfold, hrun⟩ := bind_eq_ok.1 hrun
  rw [runAt_bind] at hrun
  obtain ⟨_, -, rfl⟩ := bind_pure_eq_ok hrun
  refine foldlM_invariant (PredicatePlan.Inside r) (fun plan predicate plan' hmem hplan hstep => ?_) ?_ hfold
  · exact planPredicate_inside (h predicate hmem) hplan hstep
  · exact ⟨fun k planned hk => (by cases hk), fun entry hentry => absurd hentry not_mem_nil⟩

lemma page_eq_nil_iff (hbounded : Bounded s) {scan : Scan} (hok : ScanOk scan) :
    (Pager.page s scan).items = [] ↔ s.scanItems scan = [] := by
  constructor
  · intro hnil
    have hdone : (Pager.page s scan).more = false := by
      refine Bool.eq_false_iff.2 fun hmore => ?_
      exact Pager.page_progress s scan (fun i hi => (itemBytes_le hbounded hi).trans hok.bytes_ge)
        hok.limit_pos hmore hnil
    rw [← Pager.page_complete s scan hdone, hnil]
  · intro hnil
    have hpre := Pager.page_isPrefix s scan
    rw [hnil] at hpre
    exact prefix_nil.1 hpre

lemma planPredicate_congr (hsame : SameRoot r s t) (hs : Bounded s) (ht : Bounded t)
    (h : validatePredicate r predicate = .ok ()) :
    (planPredicate plan predicate).runAt s = (planPredicate plan predicate).runAt t := by
  have hunder := inside_of_validatePredicate h
  cases predicate with
  | value family =>
    have hread := readValue_congr (hsame.current_eq family hunder) "plan exact predicate"
    unfold planPredicate readFamilyValue
    simp only [runAt_bind, runAt_refuseIf, runAt_liftM, runAt_pure, hread]
  | prefixEmpty family keyPrefix =>
    have hok : ScanOk (plainScan family.keyspace keyPrefix none 1) :=
      ⟨Nat.one_pos, show 1 ≤ 520 by decide, hunder.1, show 8205 + 65535 ≤ 8388608 by decide, le_refl _, rfl⟩
    have hitems : s.scanItems (plainScan family.keyspace keyPrefix none 1) =
        t.scanItems (plainScan family.keyspace keyPrefix none 1) :=
      scanItems_congr_prefix fun _ hk => hsame.current_eq family (hunder.2.trans hk)
    have hempty : (Pager.page s (plainScan family.keyspace keyPrefix none 1)).items ≠ [] ↔
        (Pager.page t (plainScan family.keyspace keyPrefix none 1)).items ≠ [] := by
      rw [ne_eq, ne_eq, page_eq_nil_iff hs hok, page_eq_nil_iff ht hok, hitems]
    unfold planPredicate
    simp only [runAt_bind, runAt_refuseIf, runAt_pure]
    rw [scanPage_runAt hok, scanPage_runAt hok, ok_bind, ok_bind]
    simp only [hempty]

lemma planPredicates_congr (hsame : SameRoot r s t) (hs : Bounded s) (ht : Bounded t)
    {command : MetadataCommand} (h : ∀ p ∈ command.predicates, validatePredicate r p = .ok ()) :
    (planPredicates command).runAt s = (planPredicates command).runAt t := by
  have hfold : ∀ (predicates : List CommandPredicate) (plan : PredicatePlan),
      (∀ p ∈ predicates, validatePredicate r p = .ok ()) →
      predicates.foldlM (fun plan p => (planPredicate plan p).runAt s) plan =
        predicates.foldlM (fun plan p => (planPredicate plan p).runAt t) plan := by
    intro predicates
    induction predicates with
    | nil => exact fun _ _ => rfl
    | cons p _ ih =>
      intro plan hall
      rw [foldlM_cons, foldlM_cons, planPredicate_congr hsame hs ht (hall p mem_cons_self)]
      exact bind_congr fun plan' => ih plan' fun q hq => hall q (mem_cons_of_mem _ hq)
  unfold planPredicates
  simp only [runAt_bind, runAt_foldlM, runAt_liftM, runAt_pure]
  rw [hfold _ _ h]

end Plans

section Commands

variable {shard : LogicalShardId} {r : RootId} {s t : State} {command : MetadataCommand}

/-- Plans of one command that differ in the recovery record only. -/
structure CommandTxnState.Alike (r : RootId) (s t : State) (state state' : CommandTxnState) : Prop where
  eq : state' = { state with recovery := state'.recovery }
  inside : state.predicatePlan.Inside r
  shape : state.recovery.SameShape state'.recovery
  left : PlansNext s state.recovery
  right : PlansNext t state'.recovery

lemma encodeDedupe_matches {lsn lsn' : UInt64} (hlsn : lsn ≠ 0) (hlsn' : lsn' ≠ 0)
    (digest : CommandDigest) (version : CommitVersion) (result : Bytes) :
    Matches (fun x y : Bytes => x.length = y.length ∧ replayContent x = replayContent y)
      (CommandDedupeRecord.encode ⟨digest, version, lsn, result⟩)
      (CommandDedupeRecord.encode ⟨digest, version, lsn', result⟩) := by
  have hlength : Matches (fun x y : Bytes => x.length = y.length)
      (CommandDedupeRecord.encode ⟨digest, version, lsn, result⟩)
      (CommandDedupeRecord.encode ⟨digest, version, lsn', result⟩) := by
    unfold CommandDedupeRecord.encode
    rw [refuseIf_of_not hlsn, refuseIf_of_not hlsn', ok_bind, ok_bind]
    refine matches_bind rfl fun resultLength _ => .ok ?_
    simp
  refine hlength.and_eq_ok.mono fun x y hxy => ⟨hxy.1, ?_⟩
  unfold replayContent
  rw [CommandDedupeRecord.decode_encode hxy.2.1, CommandDedupeRecord.decode_encode hxy.2.2]
  rfl

lemma predicateGuards_pair {lsn lsn' : UInt64} {plan : PredicatePlan} (hsame : SameRoot r s t)
    (h : plan.Inside r) :
    List.Forall₂ (CheckPair lsn lsn' s t) (predicateGuards plan) (predicateGuards plan) := by
  have hout : ∀ f : MetadataFamily, f.keyspace ≠ RECOVERY_OUTBOX.id := fun f =>
    f.keyspace_ne RECOVERY_OUTBOX (by decide)
  refine rel_append ?_ ?_
  · refine forall₂_map_left_iff.2 (forall₂_map_right_iff.2 (forall₂_same.2 fun row hrow => ?_))
    have hget := hsame.current_eq row.2.family (h.exact row.1 row.2 (OrdMap.mem_rows.1 hrow))
    unfold exactGuard
    cases row.2.raw with
    | some expected => exact checkPair_value (hout _) hget expected
    | none => exact checkPair_absent (hout _) (by rw [hget])
  · refine forall₂_map_left_iff.2 (forall₂_map_right_iff.2
      (forall₂_same.2 fun entry hentry => ?_))
    exact checkPair_emptyPrefix fun k hk =>
      hsame.current_eq entry.1 ((h.prefixEmpty entry hentry).trans hk)

lemma rootFence_pair {lsn lsn' : UInt64} (hsame : SameRoot r s t) (plan : RootFencePlan) :
    List.Forall₂ (CheckPair lsn lsn' s t) (rootFenceChecks r plan) (rootFenceChecks r plan) ∧
      List.Forall₂ (MutationPair r lsn lsn') (rootFenceMutations r plan) (rootFenceMutations r plan) := by
  have hout : ROOT_FENCE.id ≠ RECOVERY_OUTBOX.id := by decide
  cases plan with
  | install =>
    exact ⟨.cons (checkPair_absent hout (by rw [hsame.fence_eq])) .nil, .cons (mutationPair_self hout) .nil⟩
  | assert expected => exact ⟨.cons (checkPair_value hout hsame.fence_eq expected) .nil, .nil⟩
  | replace expected =>
    exact ⟨.cons (checkPair_value hout hsame.fence_eq expected) .nil, .cons (mutationPair_self hout) .nil⟩

variable [Pager] [Sha256]

section

variable (h : Peers shard r s t)
include h

omit [Pager] in
lemma Peers.system_eq : s.get (systemKey SYSTEM_SCHEMA_KEY) = t.get (systemKey SYSTEM_SCHEMA_KEY) ∧
      s.get (systemKey SYSTEM_SHARD_IDENTITY_KEY) = t.get (systemKey SYSTEM_SHARD_IDENTITY_KEY) := by
  obtain ⟨_, hinv⟩ := h.left
  obtain ⟨_, hinv'⟩ := h.right
  exact ⟨hinv.system.schema.trans hinv'.system.schema.symm,
    hinv.system.shard_eq.trans hinv'.system.shard_eq.symm⟩

lemma Peers.admit_eq (expected : LogicalShardId) :
    admitSchema.runAt s = admitSchema.runAt t ∧ (admitShard expected).runAt s = (admitShard expected).runAt t := by
  obtain ⟨hschema, hidentity⟩ := h.system_eq
  constructor
  · unfold admitSchema
    simp only [runAt_bind, runAt_liftM, runAt_pure, requiredValue_congr hschema]
  · unfold admitShard
    simp only [runAt_bind, runAt_liftM, runAt_refuseIf, runAt_pure,
      requiredValue_congr hidentity]

lemma Peers.admitDeadline_eq (leaseDeadlineMs : Option UInt64) :
    (admitDeadline leaseDeadlineMs).runAt s = (admitDeadline leaseDeadlineMs).runAt t := by
  cases leaseDeadlineMs with
  | none => rfl
  | some =>
    unfold admitDeadline
    simp only [runAt_bind, runAt_refuseIf, runAt_pure, requiredU64_congr h.step.leaseClock]

lemma Peers.nextCommitVersion_eq :
    (nextCommitVersion command).runAt s = (nextCommitVersion command).runAt t := by
  unfold nextCommitVersion
  simp only [runAt_bind, runAt_refuseIf, runAt_okOr, runAt_pure,
    requiredU64_congr h.step.clock]

lemma Peers.planRootFence_eq (hroot : command.rootId = r) :
    (planRootFence command).runAt s = (planRootFence command).runAt t := by
  unfold planRootFence
  simp only [runAt_bind, runAt_liftM, hroot, readValue_congr h.same.fence_eq]

end

lemma Peers.planCommand_matches (h : Peers shard r s t) (hroot : command.rootId = r)
    (hvalid : command.Valid shard) (leaseDeadlineMs : Option UInt64) :
    Matches (CommandTxnState.Alike r s t) ((planCommand command leaseDeadlineMs).runAt s)
      ((planCommand command leaseDeadlineMs).runAt t) := by
  have hpredicates : ∀ p ∈ command.predicates, validatePredicate r p = .ok () := hroot ▸ hvalid.predicates
  obtain ⟨hschema, hidentity⟩ := h.admit_eq command.logicalShardId
  unfold planCommand
  simp only [runAt_bind, runAt_refuseIf, runAt_liftM, runAt_pure]
  refine matches_bind hschema fun schema _ => matches_bind hidentity fun identity _ => ?_
  refine matches_bind (requiredU64_congr h.step.owner _) fun owner _ => matches_bind rfl fun _ _ => ?_
  refine matches_bind h.nextCommitVersion_eq fun clock _ => ?_
  refine matches_bind (h.planRootFence_eq hroot) fun rootPlan _ => ?_
  refine matches_bind (h.admitDeadline_eq leaseDeadlineMs) fun leaseClock _ => ?_
  refine matches_bind (planPredicates_congr h.same h.bounded_left h.symm.bounded_left hpredicates)
    fun plan hplan => matches_bind rfl fun _ _ => ?_
  refine (h.planRecovery_matches _ _).bind fun recovery recovery' _ _ hrecovery => .ok ?_
  exact ⟨rfl, planPredicates_inside hpredicates hplan, hrecovery.1, hrecovery.2.1, hrecovery.2.2⟩

omit [Pager] in
/-- The transaction of one command is built in one shape from both plans. -/
lemma Peers.buildCommandTxn_matches (h : Peers shard r s t) (hroot : command.rootId = r)
    {state state' : CommandTxnState} (halike : state.Alike r s t state') :
    Matches (TxnPair r state.recovery.row.recoveryLsn state'.recovery.row.recoveryLsn s t)
      (buildCommandTxn command state) (buildCommandTxn command state') := by
  obtain ⟨hstate, hinside, hshape, hleft, hright⟩ := halike
  obtain ⟨hschema, hidentity⟩ := h.system_eq
  generalize state'.recovery = plan' at hstate hshape hright ⊢
  subst hstate
  have hmutation : commandMutation { state with recovery := plan' } = commandMutation state := by
    funext m
    cases m <;> rfl
  have hsystem : SYSTEM.id ≠ RECOVERY_OUTBOX.id := by decide
  have hhistoryOut : HISTORY.id ≠ RECOVERY_OUTBOX.id := by decide
  have heventOut : CHANGE_EVENT.id ≠ RECOVERY_OUTBOX.id := by decide
  have hdedupeOut : COMMAND_DEDUPE.id ≠ RECOVERY_OUTBOX.id := by decide
  -- the parts of the transaction are built alike, one after the other
  unfold buildCommandTxn
  refine ((encodeDedupe_matches hshape.lsn_ne hshape.lsn_ne' _ _ _).mapError _).bind
    fun record record' _ _ hrecord => ?_
  refine matches_bind rfl fun history hhistory => ?_
  refine matches_bind (by rw [hmutation]) fun mutations hmutations => ?_
  refine matches_bind rfl fun events hevents => .ok ?_
  rw [hroot]
  rw [hroot] at hevents
  have hfence : List.Forall₂ (CheckPair state.recovery.row.recoveryLsn plan'.row.recoveryLsn s t)
      (rootFenceChecks r state.rootPlan) (rootFenceChecks r state.rootPlan) ∧ _ :=
    rootFence_pair h.same state.rootPlan
  refine TxnPair.enqueueRecovery hshape ⟨?_, ?_⟩ hleft hright
  · -- the checks, which read the system rows, the fence and the rows of the root
    refine rel_append (rel_append (rel_append (rel_append (rel_append
      (rel_append (.cons ?_ (.cons ?_ (.cons ?_ (.cons ?_ .nil)))) ?_) hfence.1)
      (predicateGuards_pair h.same hinside)) ?_) ?_) (.cons ?_ .nil)
    · exact checkPair_value hsystem hschema _
    · exact checkPair_value hsystem hidentity _
    · exact checkPair_value hsystem h.step.owner _
    · exact checkPair_value hsystem h.step.clock _
    · cases state.leaseClock with
      | none => exact .nil
      | some leaseClock => exact .cons (checkPair_value hsystem h.step.leaseClock _) .nil
    · refine rowChecks_pair hhistoryOut fun row hrow => ?_
      obtain ⟨k, planned, _, _, hplanned, -, -, -, rfl⟩ := (mem_historyRows hhistory).1 hrow
      have hkey := leadingRoot_eq_some.2 (hinside.exact k planned hplanned)
      rw [h.same.rows ⟨HISTORY.id, _⟩ (rootOf_historyKey hkey) (show HISTORY.id ≠ COMMAND_DEDUPE.id by decide)]
    · refine rowChecks_pair heventOut fun row hrow => ?_
      rw [h.same.event_eq (leadingRoot_eq_some.1 (mem_eventRows hevents hrow))]
    · exact checkPair_absent hdedupeOut (h.same.replay_none_iff (leadingRoot_self r command.requestId.bytes))
  · -- the writes, of which only the dedupe row names a log position
    refine rel_append (rel_append (rel_append (rel_append (rel_append
      (.cons ?_ .nil) hfence.2) (rowMutations_pair hhistoryOut _)) ?_)
      (rowMutations_pair heventOut _)) (.cons ?_ .nil)
    · exact mutationPair_self hsystem
    · refine forall₂_same.2 fun m hm => mutationPair_self ?_
      obtain ⟨mutation, -, hok⟩ := exists_of_forall₂_right (mapM_eq_ok.1 hmutations) hm
      rw [commandMutation_key hok]
      exact mutation.family.keyspace_ne RECOVERY_OUTBOX (by decide)
    · exact ⟨.put (.same hdedupeOut) hrecord.1, sameWrite_replay hrecord.2⟩

end Commands

/-! ### Sessions of the root -/

section Sessions

variable {α β : Type} {r : RootId} {s t : State} {R : α → α → Prop}

/-- Plans that answer alike in both stores. -/
inductive Planned.Alike (r : RootId) (s t : State) (R : α → α → Prop) : Planned α → Planned α → Prop
  | done {a b : α} (answer : R a b) : Alike r s t R (.done a) (.done b)
  | commit {operation : String} {lsn lsn' : UInt64} {txn txn' : WriteTxn} {a b : α} {conflict conflict' : Shard α}
      (pair : TxnPair r lsn lsn' s t txn txn') (applied : R a b)
      (conflicts : Matches R (conflict.runAt s) (conflict'.runAt t)) :
      Alike r s t R (.commit operation txn a conflict) (.commit operation txn' b conflict')

lemma Planned.Alike.map {S : β → β → Prop} {plan plan' : Planned α} (h : Planned.Alike r s t R plan plan')
    (f : α → β) (hf : ∀ a b, R a b → S (f a) (f b)) : Planned.Alike r s t S (plan.map f) (plan'.map f) := by
  cases h with
  | done answer => exact .done (hf _ _ answer)
  | commit pair applied conflicts =>
    refine .commit pair (hf _ _ applied) ?_
    rw [runAt_map, runAt_map]
    exact conflicts.map hf

section

variable (hsame : SameRoot r s t) {work : Shard (Planned α)}
  (h : Matches (Planned.Alike r s t R) (work.runAt s) (work.runAt t))
include hsame h

/-- Sessions with plans that answer alike end alike, and leave the same rows of the root. -/
lemma attempt_alike (fault : Option (StoreError × Bool)) :
    Matches R (attempt fault work s).1 (attempt fault work t).1 ∧
      SameRoot r (attempt fault work s).2 (attempt fault work t).2 := by
  unfold attempt
  generalize work.runAt s = planned at h ⊢
  generalize work.runAt t = planned' at h ⊢
  cases h with
  | error e => exact ⟨.error e, hsame⟩
  | ok halike =>
    cases halike with
    | done answer => exact ⟨.ok answer, hsame⟩
    | @commit _ _ _ txn txn' _ _ conflict _ pair applied conflicts =>
      have hvalidate := pair.validate_eq storeLimits
      obtain ⟨houtcome, hrows, hkept⟩ := pair.commit hsame
      dsimp only
      unfold submit
      rw [← hvalidate]
      cases txn.validate storeLimits with
      | error => exact ⟨.error _, hsame⟩
      | ok =>
        generalize hs : s.commit txn = outcome at houtcome hrows hkept ⊢
        generalize ht : t.commit txn' = outcome' at houtcome hrows hkept ⊢
        obtain ⟨result, _⟩ := outcome
        obtain ⟨_, _⟩ := outcome'
        cases houtcome
        -- both commits have one outcome and one fault, so the rows are what is left to compare
        cases fault with
        | some lost =>
          obtain ⟨e, isApplied⟩ := lost
          cases isApplied with
          | true => exact ⟨.error _, hrows⟩
          | false => exact ⟨.error _, hsame⟩
        | none =>
          cases result with
          | applied => exact ⟨.ok applied, hrows⟩
          | conflict =>
            -- a conflict leaves both stores, and the answer is read from them
            obtain ⟨rfl, rfl⟩ := hkept rfl
            exact ⟨conflicts, hrows⟩

lemma writeSession_alike (faults : Faults) :
    Matches R (writeSession faults work s).1 (writeSession faults work t).1 ∧
      SameRoot r (writeSession faults work s).2 (writeSession faults work t).2 := by
  obtain ⟨hanswer, hrows⟩ := attempt_alike hsame h faults.submit
  unfold writeSession
  cases faults.settle with
  | some e => exact ⟨.error e, hrows⟩
  | none => exact ⟨hanswer, hrows⟩

end

variable {shard : LogicalShardId} {command : MetadataCommand}

/-- Results of one command that differ in the log position only. -/
def SameCommandResult (a b : MetadataCommandResult) : Prop := a.withoutPosition = b.withoutPosition

variable [Pager] [Sha256]

variable (h : Peers shard r s t)
include h

lemma Peers.resolveConflict_matches (requestId : RequestId) (digest : CommandDigest) :
    Matches SameCommandResult ((resolveConflict (commandDedupeKey r requestId) digest).runAt s)
      ((resolveConflict (commandDedupeKey r requestId) digest).runAt t) := by
  unfold resolveConflict
  simp only [runAt_bind, runAt_okOr]
  refine (h.replayedResult_matches requestId digest).bind fun a b _ _ hresult => ?_
  cases a with
  | none =>
    cases b with
    | none => exact .error _
    | some => cases hresult
  | some =>
    cases b with
    | none => cases hresult
    | some => exact .ok (Option.some.inj hresult)

lemma Peers.execute_matches (hroot : command.rootId = r) (leaseDeadlineMs : Option UInt64) :
    Matches (Planned.Alike r s t SameCommandResult)
      ((executeWithLeaseDeadline shard command leaseDeadlineMs).runAt s)
      ((executeWithLeaseDeadline shard command leaseDeadlineMs).runAt t) := by
  unfold executeWithLeaseDeadline
  simp only [runAt_bind, runAt_liftM, runAt_refuseIf]
  refine matches_bind rfl fun _ hvalid => matches_bind rfl fun _ _ => ?_
  unfold executeUnlocked
  simp only [runAt_bind, hroot]
  refine (h.replayedResult_matches command.requestId command.commandDigest).bind fun a b _ _ hresult => ?_
  cases a with
  | some =>
    cases b with
    | none => cases hresult
    | some => exact .ok (.done (Option.some.inj hresult))
  | none =>
    cases b with
    | some => cases hresult
    | none =>
      simp only [runAt_bind, runAt_liftM, runAt_pure]
      refine (h.planCommand_matches hroot (validateCommand_eq_ok hvalid) leaseDeadlineMs).bind
        fun state state' _ _ halike => ?_
      refine (h.buildCommandTxn_matches hroot halike).bind fun txn txn' _ _ hpair => .ok ?_
      refine .commit hpair ?_ (h.resolveConflict_matches command.requestId command.commandDigest)
      have hversion : state'.nextVersion = state.nextVersion := by
        rw [halike.eq]
      unfold SameCommandResult MetadataCommandResult.withoutPosition
      rw [hversion]

lemma Peers.admitRootFence_eq (placementGeneration : PlacementGeneration) :
    (admitRootFence shard r placementGeneration).runAt s = (admitRootFence shard r placementGeneration).runAt t := by
  unfold admitRootFence
  simp only [runAt_bind, runAt_okOr, runAt_liftM, runAt_refuseIf, runAt_pure,
    readValue_congr h.same.fence_eq]

lemma Peers.observeLeaseClock_matches (placementGeneration : PlacementGeneration) (ownerEpoch : OwnerEpoch)
    (observedMs : UInt64) : Matches (Planned.Alike r s t Eq)
      ((observeLeaseClock shard r placementGeneration ownerEpoch observedMs).runAt s)
      ((observeLeaseClock shard r placementGeneration ownerEpoch observedMs).runAt t) := by
  obtain ⟨hschema, hidentity⟩ := h.admit_eq shard
  obtain ⟨hschemaRow, hidentityRow⟩ := h.system_eq
  have hsystem : SYSTEM.id ≠ RECOVERY_OUTBOX.id := by decide
  unfold observeLeaseClock
  simp only [runAt_bind, runAt_refuseIf]
  refine matches_bind hschema fun schema _ => matches_bind hidentity fun identity _ => ?_
  refine matches_bind (requiredU64_congr h.step.owner _) fun owner _ => matches_bind rfl fun _ _ => ?_
  refine matches_bind (h.admitRootFence_eq placementGeneration) fun rootFence _ => ?_
  refine matches_bind (requiredU64_congr h.step.leaseClock _) fun clock _ => ?_
  split
  · exact .ok (.done rfl)
  · simp only [runAt_bind, runAt_pure]
    refine (h.planRecovery_matches _ _).bind fun plan plan' _ _ hplans => .ok (.commit
      (TxnPair.enqueueRecovery hplans.1 ⟨?_, ?_⟩ hplans.2.1 hplans.2.2) rfl (.error _))
    · refine .cons ?_ (.cons ?_ (.cons ?_ (.cons ?_ (.cons ?_ .nil))))
      · exact checkPair_value hsystem hschemaRow _
      · exact checkPair_value hsystem hidentityRow _
      · exact checkPair_value hsystem h.step.owner _
      · exact checkPair_value (show ROOT_FENCE.id ≠ RECOVERY_OUTBOX.id by decide) h.same.fence_eq _
      · exact checkPair_value hsystem h.step.leaseClock _
    · exact .cons (mutationPair_self hsystem) .nil

/-- **A session of the root answers alike in both stores, and leaves the same rows of the root.** -/
theorem Peers.session_alike {request : Request} (hroot : request.call.root = some r) :
    Reply.withoutPosition <$> (serve shard s request).1 = Reply.withoutPosition <$> (serve shard t request).1 ∧
      SameRoot r (serve shard s request).2 (serve shard t request).2 := by
  have hplan : Matches (Planned.Alike r s t fun a b => Reply.withoutPosition a = Reply.withoutPosition b)
      ((request.call.plan shard).runAt s) ((request.call.plan shard).runAt t) := by
    cases hcall : request.call with
    | execute command leaseDeadlineMs =>
      rw [hcall] at hroot
      unfold Call.plan
      rw [runAt_map, runAt_map]
      exact (h.execute_matches (Option.some.inj hroot) leaseDeadlineMs).map fun _ _ halike =>
        halike.map _ fun _ _ heq => congrArg Reply.command heq
    | observeLeaseClock rootId placementGeneration ownerEpoch observedMs =>
      rw [hcall] at hroot
      obtain rfl : rootId = r := Option.some.inj hroot
      unfold Call.plan
      rw [runAt_map, runAt_map]
      exact (h.observeLeaseClock_matches placementGeneration ownerEpoch observedMs).map fun _ _ halike =>
        halike.map _ fun _ _ heq => by rw [heq]
    | advanceOwnerEpoch =>
      rw [hcall] at hroot
      cases hroot
  obtain ⟨hanswer, hrows⟩ := writeSession_alike h.same hplan request.faults
  refine ⟨?_, hrows⟩
  unfold serve
  generalize (writeSession request.faults (request.call.plan shard) s).1 = answer at hanswer ⊢
  generalize (writeSession request.faults (request.call.plan shard) t).1 = answer' at hanswer ⊢
  cases hanswer with
  | ok heq => exact congrArg Except.ok heq
  | error => rfl

end Sessions

end NoKV.Meta
