import NoKV.Meta.Engine.Fencing

/-!
# The life of a root

A root is installed, activated, drained and fenced by commands that carry nothing else. Along every run
of a shard:

* `fenceOf` only moves along `FenceMove` (`RaceRun.fenceMoves`), which keeps the placement of the root;
* a command that requires an active root applies only under the fence that it names
  (`Wrote.requireActive`);
* a fenced root keeps its rows (`Frozen`): the one command that still applies is a namespace binding that
  repeats the bound namespace, and every dedupe row that the root gains is the row of such a command.
-/

namespace NoKV.Meta

open Lib Store State List

/-! ### Fences -/

def fenceOf (s : State) (root : RootId) : Option RootFence :=
  (s.get ⟨ROOT_FENCE.id, root.bytes⟩).bind fun raw => (RootFence.decode raw).toOption

variable {fence : RootFence} {command : MetadataCommand} {current : Option Bytes}

lemma fenceOf_of_get {s : State} {root : RootId} {raw : Bytes}
    (hget : s.get ⟨ROOT_FENCE.id, root.bytes⟩ = some raw) (hdecode : RootFence.decode raw = .ok fence) :
    fenceOf s root = some fence := by
  unfold fenceOf
  rw [hget]
  show (RootFence.decode raw).toOption = _
  rw [hdecode]
  rfl

/-- Every fence decodes, names this shard and is bound to an object namespace. -/
def FenceInv (shard : LogicalShardId) (s : State) : Prop :=
  ∀ (root : RootId) raw, s.get ⟨ROOT_FENCE.id, root.bytes⟩ = some raw →
    ∃ fence, RootFence.decode raw = .ok fence ∧ fence.logicalShardId = shard ∧
      fence.objectNamespaceId.isSome

/-- The edges of the life of a root. -/
inductive RootEdge : RootActivationState → RootActivationState → Prop
  | activate : RootEdge .installing .active
  | drain : RootEdge .active .draining
  | fenceDrained : RootEdge .draining .fenced
  | fenceActive : RootEdge .active .fenced

lemma validRootTransition_iff {origin target : RootActivationState} :
    validRootTransition origin target = true ↔ RootEdge origin target := by
  constructor
  · intro h
    cases origin <;> cases target <;> first | constructor | cases h
  · rintro (_ | _ | _ | _) <;> rfl

/-- One move of a fence. -/
inductive FenceMove : Option RootFence → Option RootFence → Prop
  | install (fence : RootFence) (installing : fence.activationState = .installing) :
      FenceMove none (some fence)
  | transition (fence : RootFence) (next : RootActivationState)
      (edge : RootEdge fence.activationState next) :
      FenceMove (some fence) (some { fence with activationState := next })

/-! ### One write -/

section Write

variable {shard : LogicalShardId} {s s' : State} {mutation : RecoveryMutationV1} {result : RecoveryResultV1}
  {plan : RecoveryPlan} {txn : WriteTxn}

lemma fenceOf_congr {root : RootId}
    (h : s'.get ⟨ROOT_FENCE.id, root.bytes⟩ = s.get ⟨ROOT_FENCE.id, root.bytes⟩) :
    fenceOf s' root = fenceOf s root := by
  unfold fenceOf
  rw [h]

lemma isPlain_rootFence : IsPlain ROOT_FENCE.id := by
  unfold IsPlain
  decide

variable [Pager] [Sha256]

lemma Wrote.fence_of_ne (h : Wrote shard s mutation result plan txn)
    (hnd : (txn.mutations.map Mutation.key).Nodup) (hchecks : txn.checks.all s.holds = true) {root : RootId}
    (hroot : ∀ command leaseDeadlineMs, mutation = .metadataCommand command leaseDeadlineMs →
      command.rootId ≠ root) :
    (s.writeAll txn.mutations).get ⟨ROOT_FENCE.id, root.bytes⟩ = s.get ⟨ROOT_FENCE.id, root.bytes⟩ := by
  cases h with
  | command _ _ _ _ built =>
    obtain ⟨_, _, _, _, _, hbuilt⟩ := buildCommandTxn_eq_ok built
    exact (hbuilt.commandEffect hnd hchecks).fence_of_ne _ fun heq =>
      hroot _ _ rfl (FixedBytes.ext_bytes heq.symm)
  | observeLeaseClock owner clock later checked recovery
  | advanceOwnerEpoch =>
    exact (systemEffect_of_enqueueRecovery (s := s) hnd).plain _ isPlain_rootFence _

variable {command : MetadataCommand} {leaseDeadlineMs : Option UInt64}

/-- The fence row that a command leaves under its root, and the move that its fence made. -/
lemma CommandEffect.fenceMove {state : CommandTxnState} (hfences : FenceInv shard s)
    (hvalid : validateCommand shard command = .ok ()) (hplanned : state.PlannedAt s command leaseDeadlineMs)
    (heffect : CommandEffect s s' command state) :
    (s'.get ⟨ROOT_FENCE.id, command.rootId.bytes⟩ = s.get ⟨ROOT_FENCE.id, command.rootId.bytes⟩) ∨
      ∃ raw fence, s'.get ⟨ROOT_FENCE.id, command.rootId.bytes⟩ = some raw ∧
        RootFence.decode raw = .ok fence ∧ fence.logicalShardId = shard ∧ fence.objectNamespaceId.isSome ∧
        FenceMove (fenceOf s command.rootId) (some fence) := by
  have hfence := heffect.fence
  have hplan := rootFencePlan_planned hplanned.root
  generalize hcurrent : s.get ⟨ROOT_FENCE.id, command.rootId.bytes⟩ = current at hplan hfence
  generalize state.rootPlan = rootPlan at hplan hfence
  cases hplan with
  | @install value _ encoded =>
    have hnone : fenceOf s command.rootId = none := by
      unfold fenceOf
      rw [hcurrent]
      rfl
    refine .inr ⟨value, _, hfence, RootFence.decode_encode encoded, (validateCommand_eq_ok hvalid).shard_eq,
      (validateCommand_spec hvalid).2.1, ?_⟩
    rw [hnone]
    exact .install _ rfl
  | bind _ decoded unbound =>
    -- every installed fence is bound
    obtain ⟨fence', hdecode', -, hbound⟩ := hfences _ _ hcurrent
    rw [decoded] at hdecode'
    cases hdecode'
    rw [unbound] at hbound
    cases hbound
  | bound action decoded hstate same | requireActive action decoded => exact .inl hfence
  | @transition _ value fence next _ decoded valid encoded =>
    obtain ⟨_, hdecode', hshard, hbound⟩ := hfences _ _ hcurrent
    rw [decoded] at hdecode'
    cases hdecode'
    refine .inr ⟨value, _, hfence, RootFence.decode_encode encoded, hshard, hbound, ?_⟩
    rw [fenceOf_of_get hcurrent decoded]
    exact .transition fence next (validRootTransition_iff.1 valid)

/-- A write keeps the fences well formed and moves each of them along its edges. -/
lemma Wrote.fenceMove (hfences : FenceInv shard s) (h : Wrote shard s mutation result plan txn)
    (hnd : (txn.mutations.map Mutation.key).Nodup) (hchecks : txn.checks.all s.holds = true) :
    FenceInv shard (s.writeAll txn.mutations) ∧ ∀ root,
      fenceOf (s.writeAll txn.mutations) root = fenceOf s root ∨
        FenceMove (fenceOf s root) (fenceOf (s.writeAll txn.mutations) root) := by
  have key : ∀ root : RootId, (s.writeAll txn.mutations).get ⟨ROOT_FENCE.id, root.bytes⟩ =
      s.get ⟨ROOT_FENCE.id, root.bytes⟩ ∨
      ∃ raw fence, (s.writeAll txn.mutations).get ⟨ROOT_FENCE.id, root.bytes⟩ = some raw ∧
        RootFence.decode raw = .ok fence ∧ fence.logicalShardId = shard ∧ fence.objectNamespaceId.isSome ∧
        FenceMove (fenceOf s root) (some fence) := by
    intro root
    by_cases hown : ∃ command leaseDeadlineMs,
        mutation = .metadataCommand command leaseDeadlineMs ∧ command.rootId = root
    · obtain ⟨command, leaseDeadlineMs, rfl, rfl⟩ := hown
      cases h with
      | command valid _ _ planned built =>
        obtain ⟨_, _, _, _, _, hbuilt⟩ := buildCommandTxn_eq_ok built
        exact (hbuilt.commandEffect hnd hchecks).fenceMove hfences valid planned
    · exact .inl (h.fence_of_ne hnd hchecks fun command leaseDeadlineMs heq hroot =>
        hown ⟨command, leaseDeadlineMs, heq, hroot⟩)
  refine ⟨fun root raw hget => ?_, fun root => ?_⟩
  · rcases key root with heq | ⟨_, fence, hget', hdecode, hshard, hbound, -⟩
    · exact hfences root raw (heq ▸ hget)
    · rw [hget'] at hget
      cases hget
      exact ⟨fence, hdecode, hshard, hbound⟩
  · rcases key root with heq | ⟨_, _, hget, hdecode, -, -, hmove⟩
    · exact .inl (fenceOf_congr heq)
    · rw [fenceOf_of_get hget hdecode]
      exact .inr hmove

/-- A command that requires an active root is written under the fence that it names. -/
lemma Wrote.requireActive (h : Wrote shard s (.metadataCommand command leaseDeadlineMs) result plan txn)
    (haction : command.rootFenceAction = .requireActive) :
    fenceOf s command.rootId = some ⟨command.logicalShardId, command.objectNamespaceId,
      command.placementGeneration, .active⟩ := by
  cases h with
  | @command _ _ state _ valid _ _ planned =>
    have hplan := rootFencePlan_planned planned.root
    generalize hcurrent : s.get ⟨ROOT_FENCE.id, command.rootId.bytes⟩ = current at hplan
    generalize state.rootPlan = rootPlan at hplan
    cases hplan with
    | install action encoded | bind action decoded unbound encoded | bound action decoded hstate same =>
      cases haction.symm.trans action
    | requireActive _ decoded => exact fenceOf_of_get hcurrent decoded
    | transition action => cases haction.symm.trans action

/-- The one command that is written under a fenced root repeats the namespace that it is bound to. -/
lemma Wrote.fenced {fence : RootFence} (hfences : FenceInv shard s)
    (h : Wrote shard s (.metadataCommand command leaseDeadlineMs) result plan txn)
    (hfence : fenceOf s command.rootId = some fence) (hfenced : fence.activationState = .fenced) :
    command.rootFenceAction = .bindObjectNamespace .fenced ∧
      command.objectNamespaceId = fence.objectNamespaceId := by
  cases h with
  | @command _ _ state _ valid _ _ planned =>
    have hplan := rootFencePlan_planned planned.root
    generalize hcurrent : s.get ⟨ROOT_FENCE.id, command.rootId.bytes⟩ = current at hplan
    generalize state.rootPlan = rootPlan at hplan
    cases hplan with
    -- the root is there already
    | install =>
      unfold fenceOf at hfence
      rw [hcurrent] at hfence
      cases hfence
    -- a fence that is there is bound
    | bind _ decoded unbound =>
      obtain ⟨_, hdecode', -, hbound⟩ := hfences _ _ hcurrent
      rw [decoded] at hdecode'
      cases hdecode'
      rw [unbound] at hbound
      cases hbound
    | bound action decoded hstate same =>
      rw [fenceOf_of_get hcurrent decoded] at hfence
      cases hfence
      subst hstate
      exact ⟨hfenced ▸ action, same.symm⟩
    | requireActive _ decoded =>
      rw [fenceOf_of_get hcurrent decoded] at hfence
      cases hfence
      cases hfenced
    -- no edge leaves the fenced state
    | transition _ decoded valid =>
      rw [fenceOf_of_get hcurrent decoded] at hfence
      cases hfence
      rw [hfenced] at valid
      cases valid

end Write

/-! ### The rows of a root -/

/-- The rows of a root: its metadata rows and their history, its events, its fence and the dedupe rows of
its requests. -/
inductive OfRoot (root : RootId) : Key → Prop
  | current (f : MetadataFamily) {k : Bytes} (inRoot : root.bytes <+: k) : OfRoot root ⟨f.keyspace, k⟩
  | history (f : MetadataFamily) {k : Bytes} (version : CommitVersion) (inRoot : root.bytes <+: k)
      (length : k.length ≤ MAX_COMMAND_KEY_BYTES) : OfRoot root ⟨HISTORY.id, historyKey f k version⟩
  | event {k : Bytes} (inRoot : root.bytes <+: k) : OfRoot root ⟨CHANGE_EVENT.id, k⟩
  | fence : OfRoot root ⟨ROOT_FENCE.id, root.bytes⟩
  | dedupe {k : Bytes} (inRoot : root.bytes <+: k) : OfRoot root ⟨COMMAND_DEDUPE.id, k⟩

/-- Two roots share no key. -/
lemma RootId.eq_of_prefix {root root' : RootId} {k : Bytes} (h : root.bytes <+: k)
    (h' : root'.bytes <+: k) : root = root' := by
  obtain ⟨_, rfl⟩ := h
  obtain ⟨_, heq⟩ := h'
  exact FixedBytes.ext_bytes (append_inj heq (by rw [root.length_eq, root'.length_eq])).1.symm

/-- What a write keeps of the rows of a root: every row but the dedupe rows of new requests. -/
structure KeepsRoot (root : RootId) (s s' : State) : Prop where
  rows : ∀ key, OfRoot root key → key.keyspace ≠ COMMAND_DEDUPE.id → s'.get key = s.get key
  dedupe : ∀ k value, s.get ⟨COMMAND_DEDUPE.id, k⟩ = some value →
    s'.get ⟨COMMAND_DEDUPE.id, k⟩ = some value

lemma KeepsRoot.refl (root : RootId) (s : State) : KeepsRoot root s s :=
  ⟨fun _ _ _ => rfl, fun _ _ h => h⟩

lemma KeepsRoot.trans {root : RootId} {s₁ s₂ s₃ : State} (h : KeepsRoot root s₁ s₂)
    (h' : KeepsRoot root s₂ s₃) : KeepsRoot root s₁ s₃ :=
  ⟨fun key hkey hne => (h'.rows key hkey hne).trans (h.rows key hkey hne),
    fun k value hget => h'.dedupe k value (h.dedupe k value hget)⟩

lemma keepsRoot_of_plain {s s' : State} (root : RootId)
    (h : ∀ ks, IsPlain ks → ∀ k, s'.get ⟨ks, k⟩ = s.get ⟨ks, k⟩) : KeepsRoot root s s' := by
  refine ⟨fun key hkey hne => ?_, fun k value hget => ?_⟩
  · cases hkey with
    | current f => exact h _ f.isPlain _
    | history => exact h _ isPlain_history _
    | event => exact h _ (by unfold IsPlain; decide) _
    | fence => exact h _ isPlain_rootFence _
    | dedupe => exact absurd rfl hne
  · rw [h _ (by unfold IsPlain; decide)]
    exact hget

section Frozen

variable {shard : LogicalShardId} {s s' : State} {command : MetadataCommand} {leaseDeadlineMs : Option UInt64}
  {state : CommandTxnState} {root : RootId} {rows : List (Bytes × Bytes)}

lemma eventRows_key {version : CommitVersion} {events : List EventProjection} {sequence : ℕ}
    (h : eventRows root version events sequence = .ok rows) : ∀ row ∈ rows, root.bytes <+: row.1 := by
  induction events generalizing sequence rows with
  | nil =>
    cases Except.ok.inj h
    exact fun row hrow => absurd hrow not_mem_nil
  | cons _ _ ih =>
    obtain ⟨_, -, h⟩ := bind_eq_ok.1 h
    obtain ⟨_, hrest, rfl⟩ := bind_pure_eq_ok h
    intro row hrow
    rcases mem_cons.1 hrow with rfl | hrow
    · exact ⟨_, rfl⟩
    · exact ih hrest row hrow

lemma Adds.get_of_notMem {ks : Keyspace} (h : Adds s s' ks rows) {key : Bytes}
    (hkey : ∀ row ∈ rows, row.1 ≠ key) : s'.get ⟨ks, key⟩ = s.get ⟨ks, key⟩ := by
  refine Option.ext fun value => ?_
  rw [h.get_eq_some]
  exact or_iff_left fun hmem => hkey _ hmem rfl

variable [Pager] [Sha256]

/-- The rows of a root that a command does not name, and those of a root whose fence it keeps while it
writes no row of its own. -/
lemma CommandEffect.keepsRoot (hvalid : command.Valid shard)
    (hplanned : state.PlannedAt s command leaseDeadlineMs) (heffect : CommandEffect s s' command state)
    (hmutations : root = command.rootId → command.mutations = [])
    (hevents : root = command.rootId → command.eventProjection = [])
    (hfence : root = command.rootId →
      s'.get ⟨ROOT_FENCE.id, root.bytes⟩ = s.get ⟨ROOT_FENCE.id, root.bytes⟩) :
    KeepsRoot root s s' := by
  -- a mutation under the root is one of the root's own command
  have hscope : ∀ m ∈ command.mutations, ¬ root.bytes <+: m.key := by
    intro m hm hroot
    have hown := RootId.eq_of_prefix hroot ( isPrefixOf_iff_prefix.1 (hvalid.inRoot m hm))
    rw [hmutations hown] at hm
    exact not_mem_nil hm
  refine ⟨fun key hkey hne => ?_, fun k value hget => ?_⟩
  · -- the rows of the root, keyspace by keyspace
    cases hkey with
    | current f inRoot =>
      refine heffect.unmutated f _ fun m hm heq => hscope m hm ?_
      rw [heq.2]
      exact inRoot
    | @history _ _ _ inRoot length =>
      obtain ⟨rows, hrows, hadds⟩ := heffect.history
      refine hadds.get_of_notMem fun row hrow heq => ?_
      -- a history row is the projection of a mutation
      obtain ⟨_, planned, _, _, -, -, hproj, -, rfl⟩ := (mem_historyRows hrows).1 hrow
      obtain ⟨m, hm, -, -, -, -, -, hproj⟩ :=
        mem_expectedHistory.1 ((mem_historyProjection hplanned.history).1 hproj)
      have hmkey := (HistoryProjection.mk.inj hproj).2
      have hle : planned.key.length < 2 ^ 32 := by
        rw [hmkey]
        exact length_lt_of_le (hvalid.key_le m hm)
      obtain ⟨-, hk, -⟩ := historyKey_injective hle (length_lt_of_le length) heq
      exact hscope m hm (by rw [← hmkey, hk]; exact inRoot)
    | @event k inRoot =>
      obtain ⟨_, hrows, hadds⟩ := heffect.events
      refine hadds.get_of_notMem fun row hrow heq => ?_
      have hown := RootId.eq_of_prefix inRoot (heq ▸ eventRows_key hrows row hrow)
      rw [hevents hown] at hrows
      cases Except.ok.inj hrows
      exact not_mem_nil hrow
    | fence =>
      by_cases hown : root = command.rootId
      · exact hfence hown
      · exact heffect.fence_of_ne _ fun heq => hown (FixedBytes.ext_bytes heq)
    | dedupe => exact absurd rfl hne
  · obtain ⟨_, -, hadds⟩ := heffect.dedupe
    exact hadds.keep hget

/-- The dedupe row that a command leaves. -/
def DedupeRowOf (command : MetadataCommand) (k value : Bytes) : Prop :=
  k = commandDedupeKey command.rootId command.requestId ∧ ∃ version lsn, CommandDedupeRecord.encode
    ⟨command.commandDigest, version, lsn, command.deterministicResult⟩ = .ok value

/-- A dedupe row that a write adds is that of its command. -/
lemma Wrote.dedupeRow {mutation : RecoveryMutationV1} {result : RecoveryResultV1} {plan : RecoveryPlan}
    {txn : WriteTxn} (h : Wrote shard s mutation result plan txn)
    (hnd : (txn.mutations.map Mutation.key).Nodup) (hchecks : txn.checks.all s.holds = true) {k value : Bytes}
    (hget : (s.writeAll txn.mutations).get ⟨COMMAND_DEDUPE.id, k⟩ = some value) :
    s.get ⟨COMMAND_DEDUPE.id, k⟩ = some value ∨ ∃ command leaseDeadlineMs,
      mutation = .metadataCommand command leaseDeadlineMs ∧ DedupeRowOf command k value := by
  cases h with
  | command _ _ _ _ built =>
    obtain ⟨_, _, _, _, _, hbuilt⟩ := buildCommandTxn_eq_ok built
    obtain ⟨record, hrecord, hadds⟩ := (hbuilt.commandEffect hnd hchecks).dedupe
    refine ((hadds.get_eq_some k value).1 hget).imp id fun hmem => ?_
    cases mem_singleton.1 hmem
    exact ⟨_, _, rfl, rfl, _, _, hrecord⟩
  | observeLeaseClock owner clock later checked recovery
  | advanceOwnerEpoch =>
    left
    rwa [← (systemEffect_of_enqueueRecovery (s := s) hnd).plain _ (by unfold IsPlain; decide)]

/-- A write keeps the rows of a fenced root. -/
lemma Wrote.keepsFenced {mutation : RecoveryMutationV1} {result : RecoveryResultV1} {plan : RecoveryPlan}
    {txn : WriteTxn} {fence : RootFence} (hfences : FenceInv shard s)
    (h : Wrote shard s mutation result plan txn) (hnd : (txn.mutations.map Mutation.key).Nodup)
    (hchecks : txn.checks.all s.holds = true) (hfence : fenceOf s root = some fence)
    (hfenced : fence.activationState = .fenced) : KeepsRoot root s (s.writeAll txn.mutations) := by
  have hwrote := h
  cases h with
  | @command command _ _ _ valid _ _ planned built =>
    obtain ⟨_, _, _, _, _, hbuilt⟩ := buildCommandTxn_eq_ok built
    have heffect := hbuilt.commandEffect hnd hchecks
    have hvalid := validateCommand_eq_ok valid
    have haction : root = command.rootId → command.rootFenceAction ≠ .requireActive := by
      rintro rfl hactive
      cases ((hwrote.fenced hfences hfence hfenced).1).symm.trans hactive
    refine heffect.keepsRoot hvalid planned (fun hown => hvalid.fenceOnly (haction hown))
      (fun hown => (validateCommand_spec valid).2.2 (haction hown)) ?_
    rintro rfl
    rcases heffect.fenceMove hfences valid planned with heq | ⟨_, _, -, -, -, -, hmove⟩
    · exact heq
    · rw [hfence] at hmove
      cases hmove with
      | transition _ _ hedge =>
        rw [hfenced] at hedge
        cases hedge
  | observeLeaseClock owner clock later checked recovery
  | advanceOwnerEpoch =>
    exact keepsRoot_of_plain root (systemEffect_of_enqueueRecovery (s := s) hnd).plain

end Frozen

/-! ### Every run -/

/-- A fence that was there stays, under the same placement, further along its edges. -/
lemma fenceMoves_some {later : Option RootFence} (h : Relation.ReflTransGen FenceMove (some fence) later) :
    ∃ fence', later = some fence' ∧ fence'.logicalShardId = fence.logicalShardId ∧
      fence'.placementGeneration = fence.placementGeneration ∧
      fence'.objectNamespaceId = fence.objectNamespaceId ∧
      Relation.ReflTransGen RootEdge fence.activationState fence'.activationState := by
  induction h with
  | refl => exact ⟨fence, rfl, rfl, rfl, rfl, .refl⟩
  | tail _ hmove ih =>
    obtain ⟨_, rfl, hshard, hgeneration, hnamespace, hpath⟩ := ih
    cases hmove with
    | transition _ _ hedge => exact ⟨_, rfl, hshard, hgeneration, hnamespace, hpath.tail hedge⟩

/-- A fence that was not there was installed first. -/
lemma fenceMoves_none (h : Relation.ReflTransGen FenceMove none (some fence)) :
    Relation.ReflTransGen RootEdge .installing fence.activationState := by
  rcases Relation.ReflTransGen.cases_head h with heq | ⟨_, hfirst, hrest⟩
  · cases heq
  · cases hfirst with
    | install _ installing =>
      obtain ⟨_, heq, -, -, -, hpath⟩ := fenceMoves_some hrest
      cases heq
      rw [← installing]
      exact hpath

section Runs

variable [Pager] [Sha256] {shard : LogicalShardId} {c c' : Racing} {root : RootId}

omit [Pager] in
lemma fenceInv_initialized (shard : LogicalShardId) : FenceInv shard (initialized shard) := by
  intro root raw hget
  cases hget

lemma RaceStep.fenceMove (h : RaceStep shard c c') (hc : Races shard c.rows c.made c.done)
    (hfences : FenceInv shard c.rows) : FenceInv shard c'.rows ∧
      ∀ root, Relation.ReflTransGen FenceMove (fenceOf c.rows root) (fenceOf c'.rows root) := by
  cases h with
  | plan => exact ⟨hfences, fun root => .refl⟩
  | apply mem valid checks =>
    obtain ⟨_, hinv⟩ := hc.inv
    obtain ⟨_, _, hwrote⟩ := hinv.wrote mem checks
    obtain ⟨hfences', hmove⟩ :=
      hwrote.fenceMove hfences (WriteTxn.valid_of_validate valid).nodup checks
    refine ⟨hfences', fun root => ?_⟩
    rcases hmove root with heq | hmove
    · exact heq ▸ .refl
    · exact .single hmove

lemma RaceRun.fenceMoves (h : RaceRun shard c c') (hc : Races shard c.rows c.made c.done)
    (hfences : FenceInv shard c.rows) : FenceInv shard c'.rows ∧
      ∀ root, Relation.ReflTransGen FenceMove (fenceOf c.rows root) (fenceOf c'.rows root) := by
  induction h with
  | refl => exact ⟨hfences, fun root => .refl⟩
  | tail hrun hstep ih =>
    obtain ⟨hfences₁, hmoves₁⟩ := ih
    obtain ⟨hfences₂, hmoves₂⟩ := hstep.fenceMove (RaceRun.races hrun hc) hfences₁
    exact ⟨hfences₂, fun root => (hmoves₁ root).trans (hmoves₂ root)⟩

/-- A command that repeats the namespace which its fenced root is bound to. -/
def Rebinds (root : RootId) (fence : RootFence) (call : Call) : Prop :=
  ∀ command leaseDeadlineMs, call = .execute command leaseDeadlineMs → command.rootId = root →
    command.rootFenceAction = .bindObjectNamespace .fenced ∧
      command.objectNamespaceId = fence.objectNamespaceId

/-- What happened to a fenced root since `c`. -/
structure Frozen (root : RootId) (fence : RootFence) (c c' : Racing) : Prop where
  fence_eq : fenceOf c'.rows root = some fence
  keeps : KeepsRoot root c.rows c'.rows
  /-- the calls since then bind the root again, and each new dedupe row of the root is that of one -/
  applied : ∃ more, c'.done = c.done ++ more ∧ (∀ call ∈ more, Rebinds root fence call.1) ∧
    ∀ k value, root.bytes <+: k → c'.rows.get ⟨COMMAND_DEDUPE.id, k⟩ = some value →
      c.rows.get ⟨COMMAND_DEDUPE.id, k⟩ = some value ∨ ∃ command leaseDeadlineMs reply,
        (Call.execute command leaseDeadlineMs, reply) ∈ more ∧ command.rootId = root ∧
          DedupeRowOf command k value

lemma RaceStep.frozen {fence : RootFence} {c₀ : Racing} (h : RaceStep shard c c')
    (hc : Races shard c.rows c.made c.done) (hfences : FenceInv shard c.rows)
    (hfenced : fence.activationState = .fenced) (hfrozen : Frozen root fence c₀ c) :
    Frozen root fence c₀ c' := by
  cases h with
  | plan => exact ⟨hfrozen.fence_eq, hfrozen.keeps, hfrozen.applied⟩
  | @apply p mem valid checks =>
    obtain ⟨_, hinv⟩ := hc.inv
    obtain ⟨_, _, hwrote⟩ := hinv.wrote mem checks
    have hkeeps := hwrote.keepsFenced hfences (WriteTxn.valid_of_validate valid).nodup checks
      hfrozen.fence_eq hfenced
    obtain ⟨more, hmore, hrebinds, hgained⟩ := hfrozen.applied
    refine ⟨?_, hfrozen.keeps.trans hkeeps, more ++ [(p.call, p.applied)], ?_, fun call hcall => ?_,
      fun k value hroot hget => ?_⟩
    · rw [fenceOf_congr (hkeeps.rows _ .fence (show ROOT_FENCE.id ≠ COMMAND_DEDUPE.id by decide)), hfrozen.fence_eq]
    · rw [hmore, append_assoc]
    · rcases mem_append.1 hcall with hcall | hcall
      · exact hrebinds call hcall
      · cases mem_singleton.1 hcall
        rintro command leaseDeadlineMs heq rfl
        change p.call = _ at heq
        rw [heq] at hwrote
        exact hwrote.fenced hfences hfrozen.fence_eq hfenced
    · rcases hwrote.dedupeRow (WriteTxn.valid_of_validate valid).nodup checks hget with
        hold | ⟨command, leaseDeadlineMs, hmutation, hrow⟩
      · -- the row was there before this write
        refine (hgained k value hroot hold).imp id ?_
        rintro ⟨command, leaseDeadlineMs, reply, hmem, hrest⟩
        exact ⟨command, leaseDeadlineMs, reply, mem_append_left _ hmem, hrest⟩
      · -- the row is the one of this write
        have hcall : p.call = .execute command leaseDeadlineMs := by
          cases heq : p.call <;> rw [heq] at hmutation <;> cases hmutation
          rfl
        refine .inr ⟨command, leaseDeadlineMs, p.applied, ?_, ?_, hrow⟩
        · rw [← hcall]
          exact mem_append_right _ (mem_singleton.2 rfl)
        · exact RootId.eq_of_prefix (hrow.1 ▸ ⟨_, rfl⟩) hroot

lemma RaceRun.frozen {fence : RootFence} (h : RaceRun shard c c')
    (hc : Races shard c.rows c.made c.done) (hfences : FenceInv shard c.rows)
    (hfence : fenceOf c.rows root = some fence) (hfenced : fence.activationState = .fenced) :
    Frozen root fence c c' := by
  induction h with
  | refl =>
    exact ⟨hfence, .refl root c.rows, [], (append_nil _).symm, fun _ h => absurd h not_mem_nil,
      fun _ _ _ hget => .inl hget⟩
  | tail hrun hstep ih =>
    exact hstep.frozen (RaceRun.races hrun hc) (RaceRun.fenceMoves hrun hc hfences).1 hfenced ih

/-- What holds of a root between two moments of a run. -/
structure RootLifecycle (root : RootId) (c c' : Racing) : Prop where
  installed : ∀ fence', fenceOf c.rows root = none → fenceOf c'.rows root = some fence' →
    Relation.ReflTransGen RootEdge .installing fence'.activationState
  moves : ∀ fence, fenceOf c.rows root = some fence → ∃ fence', fenceOf c'.rows root = some fence' ∧
    fence'.logicalShardId = fence.logicalShardId ∧
    fence'.placementGeneration = fence.placementGeneration ∧
    fence'.objectNamespaceId = fence.objectNamespaceId ∧
    Relation.ReflTransGen RootEdge fence.activationState fence'.activationState
  active : ∀ p ∈ c'.made, p.txn.checks.all c'.rows.holds = true → ∀ command leaseDeadlineMs,
    p.call = .execute command leaseDeadlineMs → command.rootId = root →
    command.rootFenceAction = .requireActive →
    fenceOf c'.rows root = some ⟨command.logicalShardId, command.objectNamespaceId,
      command.placementGeneration, .active⟩
  fenced : ∀ fence, fenceOf c.rows root = some fence → fence.activationState = .fenced →
    Frozen root fence c c'

/-- **The life of a root.** Along every run of a shard, with clients planning and submitting in any
interleaving, the fence of each root moves along its edges under one placement and one object namespace,
a command that requires an active root applies only under the fence that it names, and a fenced root
keeps its rows: only namespace bindings that repeat the bound namespace still apply, and they add nothing
but their own dedupe rows. -/
theorem root_lifecycle (h : RaceRun shard (.start shard) c) (h' : RaceRun shard c c') (root : RootId) :
    RootLifecycle root c c' := by
  have hc := h.reachable
  have hfences : FenceInv shard c.rows := (h.fenceMoves .initialized (fenceInv_initialized shard)).1
  have hmoves := (h'.fenceMoves hc hfences).2 root
  refine ⟨fun fence' hnone hsome => ?_, fun fence hsome => ?_, ?_,
    fun fence hfence hfenced => h'.frozen hc hfences hfence hfenced⟩
  · rw [hnone, hsome] at hmoves
    exact fenceMoves_none hmoves
  · rw [hsome] at hmoves
    exact fenceMoves_some hmoves
  · rintro p hp hchecks command leaseDeadlineMs hcall rfl haction
    obtain ⟨_, hinv⟩ := (h'.races hc).inv
    obtain ⟨_, _, hwrote⟩ := hinv.wrote hp hchecks
    rw [hcall] at hwrote
    exact hwrote.requireActive haction

end Runs

/-- A run that ends with its root fenced. -/
def fencedRequests [Sha256] : List Request := [
  ⟨.advanceOwnerEpoch none (sampleVersion 0), .none⟩,
  ⟨.execute (sampleCommand 10 (sampleVersion 0) .install).sealCommand none, .none⟩,
  ⟨.execute (sampleCommand 11 (sampleVersion 1) (.transition .installing .active)).sealCommand none,
    .none⟩,
  ⟨.execute (sampleCommand 12 (sampleVersion 2) (.transition .active .fenced)).sealCommand none, .none⟩]

/-- A binding of the fenced root to the namespace that it is bound to. -/
def rebindRequest [Sha256] : Request :=
  ⟨.execute (sampleCommand 13 (sampleVersion 3) (.bindObjectNamespace .fenced)).sealCommand none, .none⟩

def rebindDedupeKey : Key := ⟨COMMAND_DEDUPE.id, commandDedupeKey (sampleId 1) (sampleId 13)⟩

lemma rebind_applies :
    let s := @serveAll memoryPager sha256Digest (sampleId 2) (@initialized sha256Digest (sampleId 2))
      (@fencedRequests sha256Digest)
    let s' := (@serve memoryPager sha256Digest (sampleId 2) s (@rebindRequest sha256Digest)).2
    (fenceOf s (sampleId 1)).map RootFence.activationState = some .fenced ∧
      s.get rebindDedupeKey = none ∧ (s'.get rebindDedupeKey).isSome := by
  decide +kernel

/-- A run that fences its root, and then binds it again. -/
theorem root_lifecycle_sample : ∃ c c', @RaceRun memoryPager sha256Digest (sampleId 2)
      (@Racing.start sha256Digest (sampleId 2)) c ∧ @RaceRun memoryPager sha256Digest (sampleId 2) c c' ∧
    (fenceOf c.rows (sampleId 1)).map RootFence.activationState = some .fenced ∧
    c.rows.get rebindDedupeKey = none ∧ (c'.rows.get rebindDedupeKey).isSome ∧
    RootLifecycle (sampleId 1) c c' := by
  obtain ⟨c, hrun, hrows⟩ := @raceRun_serveAll memoryPager sha256Digest (sampleId 2)
    (@Racing.start sha256Digest (sampleId 2)) (@fencedRequests sha256Digest)
  obtain ⟨c', hrun', hrows'⟩ := @raceRun_serveAll memoryPager sha256Digest (sampleId 2) c
    [@rebindRequest sha256Digest]
  obtain ⟨hfenced, hnone, hsome⟩ := rebind_applies
  refine ⟨c, c', hrun, hrun', ?_, ?_, ?_,
    @root_lifecycle memoryPager sha256Digest (sampleId 2) c c' hrun hrun' (sampleId 1)⟩
  · rw [hrows]
    exact hfenced
  · rw [hrows]
    exact hnone
  · rw [hrows', hrows]
    exact hsome

/-- A binding that repeats the namespace of a fenced root applies, and adds a row of that root. -/
theorem fenced_root_gains_dedupe_row :
    let s := @serveAll memoryPager sha256Digest (sampleId 2) (@initialized sha256Digest (sampleId 2))
      (@fencedRequests sha256Digest)
    let s' := (@serve memoryPager sha256Digest (sampleId 2) s (@rebindRequest sha256Digest)).2
    OfRoot (sampleId 1) rebindDedupeKey ∧
      (fenceOf s (sampleId 1)).map RootFence.activationState = some .fenced ∧
      s.get rebindDedupeKey = none ∧ (s'.get rebindDedupeKey).isSome :=
  ⟨.dedupe ⟨_, rfl⟩, rebind_applies⟩

end NoKV.Meta
