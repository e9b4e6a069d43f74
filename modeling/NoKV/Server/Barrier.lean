import NoKV.Server.FailClosed

/-!
# The fail-closed barrier

* `Drained.fenced`: a gate that was found drained after it was shut stays so, hence no permit of the
  shard is outstanding, every response that is not delivered is an owner-loss failure, and no route of
  the shard comes back;
* `Late.step`: calls made later do not pass the owner-loss check;
* `leadsTo_mayWrite`: after owner loss the route table becomes free, since only the calls that are past
  the check can still read it and each call inside a section leaves it;
* `leadsTo_empty`: if every permit is dropped in the end, the gate drains;
* `fail_closed_barrier`: the barrier, and that every fail-closed call returns.

Progress is about infinite runs that are fair to each call: a call that can take a step of the registry's
code again and again takes it.
-/

namespace NoKV.Server

open Lib Control List

variable {Result : Type} {s s' : ServerState Result} {mayRead mayWrite : Bool} {r r' : Registry}
  {point next : Point Result} {action : Action Result} {i j runtime : ℕ} {shard : LogicalShardId}
  {after : Option (WorkspaceRpcRequest × WorkspaceRpcResponse Result)}

/-! ### One call among the others -/

/-- The same point, or the point of a sleeper that was woken. -/
def Woken (point next : Point Result) : Prop := next = point ∨ ∃ runtime, next = point.wake runtime

lemma get_move (i : ℕ) (r : Registry) (next : Point Result) (hj : s.calls[j]? = some point) :
    (s.move i r next).calls[j]? = if i = j then some next else some point := by
  have hlt : j < s.calls.length := (List.getElem?_eq_some_iff.1 hj).1
  unfold ServerState.move
  rw [getElem?_set]
  split
  next heq =>
    subst heq
    rw [if_pos hlt]
  next => exact hj

lemma get_dropPermit (i runtime : ℕ) (next : Point Result) (hj : s.calls[j]? = some point) :
    ∃ q, (s.dropPermit i runtime next).calls[j]? = some q ∧ Woken (if i = j then next else point) q := by
  have hset : (s.calls.set i next)[j]? = some (if i = j then next else point) := by
    have := get_move i s.registry next hj
    rw [← apply_ite some] at this
    exact this
  rcases dropPermit_calls (s := s) i runtime next with ⟨-, -, heq⟩ | ⟨-, heq⟩
  · rw [heq, getElem?_map, hset]
    exact ⟨_, rfl, Or.inr ⟨runtime, rfl⟩⟩
  · rw [heq, hset]
    exact ⟨_, rfl, Or.inl rfl⟩

/-- **One call during a step.** It stays where it is, or is woken, or takes the step itself. -/
theorem step_call (h : step s action = some s') (hj : s.calls[j]? = some point) :
    ∃ q, s'.calls[j]? = some q ∧ (Woken point q ∨ (∃ r, Moves s j action point r q) ∨
      ∃ runtime next, Drops point runtime next ∧ s' = s.dropPermit j runtime next ∧ Woken next q) := by
  have hlt : j < s.calls.length := (List.getElem?_eq_some_iff.1 hj).1
  cases step_cases h with
  | call => exact ⟨point, by rw [getElem?_append_left hlt, hj], Or.inl (Or.inl rfl)⟩
  | lose => exact ⟨point, hj, Or.inl (Or.inl rfl)⟩
  | move _ _ _ next r hpoint hmoves =>
    refine ⟨_, (get_move _ _ _ hj).trans (apply_ite some _ _ _).symm, ?_⟩
    split
    next heq =>
      subst heq
      cases hj.symm.trans hpoint
      exact Or.inr (Or.inl ⟨r, hmoves⟩)
    next => exact Or.inl (Or.inl rfl)
  | drop _ i runtime _ next hpoint hdrop =>
    obtain ⟨q, hq, hwoken⟩ := get_dropPermit i runtime next hj
    refine ⟨q, hq, ?_⟩
    split at hwoken
    next heq =>
      subst heq
      cases hj.symm.trans hpoint
      exact Or.inr (Or.inr ⟨runtime, next, hdrop, rfl, hwoken⟩)
    next => exact Or.inl hwoken

lemma step_advance (h : step s (.advance i) = some s') (hpoint : s.calls[i]? = some point) :
    (∃ r next, Advance s.mayRead s.mayWrite s.registry point r next ∧ s' = s.move i r next) ∨
      ∃ runtime next, Drops point runtime next ∧ s' = s.dropPermit i runtime next := by
  simp only [step, hpoint] at h
  split at h
  next request response runtime heq =>
    cases heq
    cases h
    exact Or.inr ⟨runtime, _, .failing request response runtime, rfl⟩
  next other _ heq =>
    cases heq
    obtain ⟨⟨r, next⟩, hadvance, heq⟩ := Option.map_eq_some_iff.1 h
    exact Or.inl ⟨r, next, advance_cases hadvance, heq.symm⟩
  next heq => cases heq

lemma step_new (h : step s action = some s') (hold : s.calls[j]? = none) {q : Point Result}
    (hq : s'.calls[j]? = some q) : ∃ call : Call, q = call.start := by
  have hlen : s.calls.length ≤ j := List.getElem?_eq_none_iff.1 hold
  have hlt : j < s'.calls.length := (List.getElem?_eq_some_iff.1 hq).1
  cases step_cases h with
  | call call =>
    rw [getElem?_append_right hlen] at hq
    exact ⟨call, mem_singleton.1 (mem_of_getElem? hq)⟩
  | move =>
    simp only [ServerState.move, length_set] at hlt
    omega
  | drop _ i runtime _ next =>
    rcases dropPermit_calls (s := s) i runtime next with ⟨-, -, heq⟩ | ⟨-, heq⟩
    · rw [heq, length_map, length_set] at hlt
      omega
    · rw [heq, length_set] at hlt
      omega
  | lose => exact absurd hlt (Nat.not_lt.2 hlen)

/-! ### Calls made after the barrier -/

/-- Past the owner-loss check, or the outcome of having passed it. -/
def Point.allowed : Point Result → Bool
  | .installRuntime _ | .installInsert .. | .installed _ (.ok ()) => true
  | .admitAcquire _ | .admitReading _ | .admitEntered .. => true
  | .entered .. | .released _ | .executing .. | .failing .. | .responding _ _ (some _) => true
  | _ => false

@[simp] lemma Point.allowed_wake (runtime : ℕ) (point : Point Result) :
    (point.wake runtime).allowed = point.allowed := by
  unfold wake
  split <;> rfl

lemma Woken.allowed (h : Woken point next) : next.allowed = point.allowed := by
  rcases h with rfl | ⟨runtime, rfl⟩
  · rfl
  · exact Point.allowed_wake runtime point

lemma Advance.allowed (h : Advance mayRead mayWrite r point r' next) (hlost : r.lost = true)
    (hpoint : point.allowed = false) : next.allowed = false := by
  cases h with
  | installAllowed route hopen | enterAllowed route hopen | dispatchAllowed request hopen =>
    rw [hlost] at hopen
    cases hopen
  | _ => first | rfl | cases hpoint

/-- The signal is raised, and no call from the `n`-th on has passed the owner-loss check. -/
structure Late (n : ℕ) (s : ServerState Result) : Prop where
  lost : s.registry.lost = true
  calls : ∀ j, n ≤ j → ∀ point, s.calls[j]? = some point → point.allowed = false

lemma step_lost (hinv : Inv s) (h : step s action = some s') (hlost : s.registry.lost = true) :
    s'.registry.lost = true := by
  cases step_cases h with
  | call => exact hlost
  | move _ _ _ _ _ hpoint hmoves => exact (hmoves.pointStep hinv hpoint).later.lost hlost
  | drop =>
    rw [dropPermit_registry]
    exact hlost
  | lose => rfl

lemma Late.step {n : ℕ} (hlate : Late n s) (hinv : Inv s) (h : Server.step s action = some s') :
    Late n s' := by
  refine ⟨step_lost hinv h hlate.lost, fun j hj q hq => ?_⟩
  cases hold : s.calls[j]? with
  | none =>
    obtain ⟨call, rfl⟩ := step_new h hold hq
    cases call <;> rfl
  | some point =>
    have hpoint := hlate.calls j hj point hold
    obtain ⟨_, hq', hcases⟩ := step_call h hold
    cases hq.symm.trans hq'
    rcases hcases with hwoken | ⟨r, hmoves⟩ | ⟨_, _, hdrop, -, -⟩
    · rw [hwoken.allowed, hpoint]
    · cases hmoves with
      | advance _ _ _ hadvance => exact hadvance.allowed hlate.lost hpoint
      | execute => cases hpoint
      | deliver | wake => rfl
    · cases hdrop <;> cases hpoint

/-! ### Safety -/

/-- A response that its client does not have yet. -/
def Point.undelivered : Point Result → Option (WorkspaceRpcRequest × WorkspaceRpcResponse Result)
  | .failing request response _ => some (request, response)
  | .closing _ _ _ after => after
  | .responding request response _ => some (request, response)
  | _ => none

/-- Nothing of a shard is in flight or can be reached. -/
structure Fenced (shard : LogicalShardId) (s : ServerState Result) : Prop where
  /-- no permit of the shard is outstanding -/
  permits : ∀ point ∈ s.calls, ∀ runtime, point.permit ≠ some (shard, runtime)
  /-- a response to a request for the shard that is not delivered yet is an owner-loss failure -/
  responses : ∀ point ∈ s.calls, ∀ request response, point.undelivered = some (request, response) →
    request.route.logicalShardId = shard → response.isOwnerLoss = true
  /-- no route of the shard is in the table -/
  routes : ∀ root owner, s.registry.owners.get root = some owner → owner.route.logicalShardId ≠ shard

/-- The shard whose gate a call has found drained. -/
def Point.hasClosed : Point Result → Option LogicalShardId
  | .closing shard _ .drained _ => some shard
  | .closed shard => some shard
  | _ => none

/-- A fail-closed call for the shard has returned, or the closing of the shard's gate has. -/
def HasFailedClosed (s : ServerState Result) (shard : LogicalShardId) : Prop :=
  ∃ point ∈ s.calls, point.hasClosed = some shard

/-- A gate that is shut and drained. -/
structure Drained (s : ServerState Result) (shard : LogicalShardId) (runtime : ℕ) : Prop where
  inv : Inv s
  shut : Shut s shard runtime
  empty : (s.registry.gates runtime).inFlight = 0

lemma Drained.step (h : Drained s shard runtime) (hstep : Server.step s action = some s') :
    Drained s' shard runtime := by
  refine ⟨h.inv.step hstep, h.shut.step h.inv hstep, ?_⟩
  have := step_inFlight_le h.inv hstep h.shut.closed
  have := h.empty
  omega

lemma Drained.fenced (h : Drained s shard runtime) : Fenced shard s := by
  have hpermits : ∀ point ∈ s.calls, ∀ other, point.permit ≠ some (shard, other) := by
    intro point hpoint other hpermit
    have hentry := h.inv.gate point hpoint _ _ (Point.gate_of_permit hpermit)
    cases h.shut.entry.symm.trans hentry
    have hsum := h.inv.counted runtime
    rw [h.empty] at hsum
    have hzero := List.sum_eq_zero_iff_forall_eq_nat.1 hsum.symm _ (mem_map_of_mem hpoint)
    simp [Point.counts, hpermit] at hzero
  refine ⟨hpermits, fun point hpoint request response hundelivered hshard => ?_, h.shut.routes⟩
  have hlossy := h.inv.lossy point hpoint response
  cases point with
  | failing asked answer runtime' | closing other runtime' stage after =>
    cases hundelivered
    exact hlossy rfl
  | responding _ _ permit =>
    cases hundelivered
    cases permit with
    | none => exact hlossy rfl
    | some runtime' => exact absurd (hshard ▸ rfl) (hpermits _ hpoint runtime')
  | _ => cases hundelivered

lemma Woken.hasClosed (h : Woken point next) : next.hasClosed = point.hasClosed := by
  rcases h with rfl | ⟨_, rfl⟩
  · rfl
  · unfold Point.wake
    split
    · split <;> rfl
    · rfl

/-- A gate is found drained by a call that looks, and only when nothing is in flight. -/
lemma Moves.hasClosed (h : Moves s i action point r next) (hnext : next.hasClosed = some shard) :
    point.hasClosed = some shard ∨ ∃ runtime after, point = .closing shard runtime .wait after ∧
      next = .closing shard runtime .drained after := by
  cases h with
  | advance _ _ _ hadvance =>
    cases hadvance with
    | closeDrained _ runtime after =>
      cases hnext
      exact Or.inr ⟨runtime, after, rfl, rfl⟩
    | closeReturns => exact Or.inl hnext
    | _ => cases hnext
  | execute =>
    unfold afterExecution at hnext
    simp only at hnext
    split at hnext <;> cases hnext
  | deliver | wake => cases hnext

/-- Every shard that has failed closed is drained. -/
lemma Inv.drained_step (hinv : Inv s)
    (hold : ∀ shard, HasFailedClosed s shard → ∃ runtime, Drained s shard runtime)
    (h : Server.step s action = some s') (shard : LogicalShardId) (hclosed : HasFailedClosed s' shard) :
    ∃ runtime, Drained s' shard runtime := by
  obtain ⟨q, hmem, hq⟩ := hclosed
  obtain ⟨j, hj⟩ := mem_iff_getElem?.1 hmem
  have hkeep : HasFailedClosed s shard → ∃ runtime, Drained s' shard runtime := by
    intro hbefore
    obtain ⟨runtime, hdrained⟩ := hold shard hbefore
    exact ⟨runtime, hdrained.step h⟩
  cases hpoint : s.calls[j]? with
  | none =>
    obtain ⟨call, rfl⟩ := step_new h hpoint hj
    cases call <;> cases hq
  | some point =>
    have hbefore := mem_of_getElem? hpoint
    obtain ⟨_, hq', hcases⟩ := step_call h hpoint
    cases hj.symm.trans hq'
    rcases hcases with hwoken | ⟨r, hmoves⟩ | ⟨runtime, _, hdrop, -, hwoken⟩
    · exact hkeep ⟨point, hbefore, hwoken.hasClosed ▸ hq⟩
    · rcases hmoves.hasClosed hq with hsame | ⟨runtime, _, -, rfl⟩
      · exact hkeep ⟨point, hbefore, hsame⟩
      · have hinv' := hinv.step h
        have hreached := hinv'.reached _ _ _ _ hmem
        exact ⟨runtime, hinv', hreached.1, hreached.2⟩
    · rw [hwoken.hasClosed] at hq
      cases hdrop <;> cases hq

lemma drained_of_exec {before : List (Action Result)} (h : exec step .init before = some s)
    (hclosed : HasFailedClosed s shard) : ∃ runtime, Drained s shard runtime := by
  have hlast := exec_invariant
    (I := fun s => Inv s ∧ ∀ shard, HasFailedClosed s shard → ∃ runtime, Drained s shard runtime)
    (fun _ _ _ h hstep => ⟨h.1.step hstep, h.1.drained_step h.2 hstep⟩)
    ⟨inv_init, fun _ ⟨_, hmem, _⟩ => by cases hmem⟩ h
  exact hlast.2 shard hclosed

lemma fenced_of_drained (h : Drained s shard runtime) {after : List (Action Result)}
    (hafter : exec step s after = some s') :
    Fenced shard s' ∧ ∀ j, s.calls.length ≤ j → ∀ point, s'.calls[j]? = some point →
      point.allowed = false := by
  have hlate : Late s.calls.length s := by
    refine ⟨h.shut.lost, fun j hj point hpoint => ?_⟩
    rw [List.getElem?_eq_none_iff.2 hj] at hpoint
    cases hpoint
  have hlast := exec_invariant (I := fun s => Drained s shard runtime ∧ Late _ s)
    (fun _ _ _ h hstep => ⟨h.1.step hstep, h.2.step h.1.inv hstep⟩) ⟨h, hlate⟩ hafter
  exact ⟨hlast.1.fenced, hlast.2.calls⟩

/-! ### The route table becomes free -/

/-- How far a call is from leaving the sections of the route table. -/
def Point.weight : Point Result → ℕ
  | .installLocked _ => 3
  | .installRuntime _ => 2
  | .installInsert .. => 1
  | .admitAcquire _ => 3
  | .admitReading _ => 2
  | .admitEntered .. => 1
  | _ => 0

/-- Inside a section of the route table. -/
def Point.inSection (point : Point Result) : Bool := point.holdsWrite || point.holdsRead

@[simp] lemma Point.weight_wake (runtime : ℕ) (point : Point Result) :
    (point.wake runtime).weight = point.weight := by
  unfold wake
  split <;> rfl

lemma exists_inSection (h : s.mayWrite = false) :
    ∃ (j : ℕ) (point : Point Result), s.calls[j]? = some point ∧ point.inSection = true := by
  have hnot : ¬ ∀ point ∈ s.calls, (!point.holdsWrite && !point.holdsRead) = true := by
    intro hall
    rw [ServerState.mayWrite, all_eq_true.2 hall] at h
    cases h
  obtain ⟨point, hmem, hheld⟩ : ∃ point ∈ s.calls, ¬ (!point.holdsWrite && !point.holdsRead) = true := by
    by_contra hnone
    exact hnot fun point hmem => by_contra fun hheld => hnone ⟨point, hmem, hheld⟩
  obtain ⟨j, hj⟩ := mem_iff_getElem?.1 hmem
  refine ⟨j, point, hj, ?_⟩
  unfold Point.inSection
  cases hw : point.holdsWrite <;> cases hr : point.holdsRead <;> simp_all

/-- Once the signal is raised, and while the table is not free, calls only come closer to leaving. -/
lemma Advance.weight_le (h : Advance mayRead false r point r' next) (hlost : r.lost = true) :
    next.weight ≤ point.weight := by
  cases h with
  | installLocked _ hfree => cases hfree
  | enterAllowed route hopen | dispatchAllowed request hopen =>
    rw [hlost] at hopen
    cases hopen
  | _ => first | exact le_rfl | exact Nat.zero_le _ | exact Nat.le_succ _

lemma Advance.weight_lt (h : Advance mayRead mayWrite r point r' next) (hpoint : point.inSection = true) :
    next.weight < point.weight := by
  cases h <;> first | (simp [Point.weight]; done) | cases hpoint

/-- The distance of all calls together. -/
def distance (s : ServerState Result) : ℕ := (s.calls.map Point.weight).sum

lemma Moves.weight_le (h : Moves s i action point r next) (hlost : s.registry.lost = true)
    (hbusy : s.mayWrite = false) : next.weight ≤ point.weight := by
  cases h with
  | advance _ _ _ hadvance =>
    rw [hbusy] at hadvance
    exact hadvance.weight_le hlost
  | execute =>
    unfold afterExecution
    simp only
    split <;> exact le_rfl
  | deliver | wake => exact le_rfl

lemma Drops.weight (h : Drops point runtime next) : point.weight = 0 ∧ next.weight = 0 := by
  cases h <;> exact ⟨rfl, rfl⟩

lemma distance_le (h : step s action = some s') (hlost : s.registry.lost = true)
    (hbusy : s.mayWrite = false) : distance s' ≤ distance s := by
  cases step_cases h with
  | call call =>
    have hzero : (call.start : Point Result).weight = 0 := by cases call <;> rfl
    simp [distance, hzero]
  | move _ i _ next _ hpoint hmoves =>
    have hsum := sum_map_set Point.weight hpoint next
    have hle := hmoves.weight_le hlost hbusy
    show ((s.calls.set i next).map Point.weight).sum ≤ (s.calls.map Point.weight).sum
    omega
  | drop _ _ _ _ next hpoint hdrop =>
    have hsum := sum_map_set Point.weight hpoint next
    obtain ⟨_, _⟩ := hdrop.weight
    unfold distance
    rw [sum_dropPermit _ (fun _ _ => Point.weight_wake _ _)]
    omega
  | lose => exact le_rfl

/-- A call that leaves a section, or goes on inside it, brings all calls closer to leaving. -/
lemma distance_lt (h : step s (.advance i) = some s') (hpoint : s.calls[i]? = some point)
    (hsection : point.inSection = true) : distance s' < distance s := by
  rcases step_advance h hpoint with ⟨r, next, hadvance, rfl⟩ | ⟨_, next, hdrop, -⟩
  · have hsum := sum_map_set Point.weight hpoint next
    have hlt := hadvance.weight_lt hsection
    show ((s.calls.set i next).map Point.weight).sum < (s.calls.map Point.weight).sum
    omega
  · cases hdrop <;> cases hsection

/-! ### What can move -/

lemma enabled_of_advance (hpoint : s.calls[i]? = some point)
    (h : (advance s.mayRead s.mayWrite s.registry point).isSome) : (step s (.advance i)).isSome := by
  simp only [step, hpoint]
  split
  next => rfl
  next other _ heq =>
    cases heq
    rw [Option.isSome_map]
    exact h
  next heq => cases heq

lemma enabled_inSection (hpoint : s.calls[i]? = some point) (hsection : point.inSection = true) :
    (step s (.advance i)).isSome := by
  refine enabled_of_advance hpoint ?_
  unfold advance
  simp only [Option.isSome_or, Bool.or_eq_true]
  cases point with
  | installLocked =>
    left
    simp only [install]
    split
    · rfl
    · split <;> rfl
  | installRuntime | installInsert => exact Or.inl rfl
  | admitReading =>
    right; right; right; right; left
    simp only [admitOperation]
    split
    · rfl
    · split
      · rfl
      · split <;> rfl
  | admitEntered admission =>
    right; right; right; right; left
    cases admission <;> rfl
  | _ => cases hsection

/-- A fail-closed call waits for the route table and for the last permit only. -/
lemma enabled_closing (hpoint : s.calls[i]? = some (.closing shard runtime stage after))
    (hretain : stage = .retain → s.mayWrite = true) (hasleep : stage ≠ .asleep) :
    (step s (.advance i)).isSome := by
  refine enabled_of_advance hpoint ?_
  unfold advance
  simp only [Option.isSome_or, Bool.or_eq_true]
  right; right; right; right; right; right
  cases stage with
  | retain => simp [failClosedRuntime, hretain rfl]
  | asleep => exact absurd rfl hasleep
  | drained =>
    cases after <;> rfl
  | _ => rfl

lemma enabled_failing (hpoint : s.calls[i]? = some point)
    (h : (∃ error, point = .failStart shard error) ∨ point = .failSignal shard ∨ point = .failRuntime shard) :
    (step s (.advance i)).isSome := by
  refine enabled_of_advance hpoint ?_
  unfold advance
  simp only [Option.isSome_or, Bool.or_eq_true]
  right; right; right; right; right; left
  rcases h with ⟨error, rfl⟩ | rfl | rfl
  · cases error <;> rfl
  · rfl
  · rfl

/-! ### Progress -/

section Live

variable {ρ : Run (@step Result)}

def At (i : ℕ) (point : Point Result) (s : ServerState Result) : Prop := s.calls[i]? = some point

def Holds (i : ℕ) (runtime : ℕ) (s : ServerState Result) : Prop :=
  ∃ point shard, s.calls[i]? = some point ∧ point.permit = some (shard, runtime)

lemma Woken.eq_of_awake {point q : Point Result} (h : Woken point q)
    (hawake : ∀ runtime, point.wake runtime = point) : q = point := by
  rcases h with rfl | ⟨runtime, rfl⟩
  · rfl
  · exact hawake runtime

/-- A call inside a section stays where it is until it moves on itself. -/
lemma step_inSection (h : step s action = some s') (hj : s.calls[j]? = some point)
    (hsection : point.inSection = true) : At j point s' ∨ action = .advance j := by
  obtain ⟨q, hq, hwoken | ⟨r, hmoves⟩ | ⟨runtime, _, hdrop, -⟩⟩ := step_call h hj
  · left
    rw [hwoken.eq_of_awake fun runtime => by cases point <;> first | rfl | cases hsection] at hq
    exact hq
  · right
    cases hmoves with
    | advance => rfl
    | execute | deliver | wake => cases hsection
  · cases hdrop <;> cases hsection

/-- **The route table becomes free.** After owner loss the calls that may still read it are counted, and
each call inside a section leaves it. -/
theorem leadsTo_mayWrite (hfair : ∀ i, ρ.Fair (.advance i)) :
    ρ.LeadsTo (fun s => Inv s ∧ s.registry.lost = true) fun s => s.mayWrite = true := by
  refine Run.leadsTo_of_rank distance fun k n hn => ?_
  obtain ⟨⟨hinv, hlost⟩, hk⟩ := hn
  by_cases hfree : (ρ.state n).mayWrite = true
  · exact ⟨n, le_rfl, Or.inl hfree⟩
  obtain ⟨j, point, hj, hsection⟩ := exists_inSection (Bool.eq_false_iff.2 hfree)
  -- the call inside the section stays there, or the distance drops
  let P : ServerState Result → Prop := fun s => (Inv s ∧ s.registry.lost = true) ∧ s.mayWrite = false ∧
    distance s ≤ k ∧ At j point s
  have hlead : ρ.LeadsTo P fun s => s.mayWrite = true ∨
      ((Inv s ∧ s.registry.lost = true) ∧ distance s < k) := by
    refine Run.leadsTo_of_fair (hfair j) ?_ ?_ ?_
    · rintro s b s' ⟨⟨hinv, hlost⟩, hbusy, hle, hat⟩ hstep
      have hinv' := hinv.step hstep
      have hlost' := step_lost hinv hstep hlost
      have hle' := distance_le hstep hlost hbusy
      by_cases hfree' : s'.mayWrite = true
      · exact Or.inr (Or.inl hfree')
      · by_cases hlt : distance s' < k
        · exact Or.inr (Or.inr ⟨⟨hinv', hlost'⟩, hlt⟩)
        · left
          refine ⟨⟨hinv', hlost'⟩, Bool.eq_false_iff.2 hfree', hle'.trans hle, ?_⟩
          rcases step_inSection hstep hat hsection with hat' | rfl
          · exact hat'
          · have := distance_lt hstep hat hsection
            omega
    · rintro s _ ⟨⟨hinv, hlost⟩, _, _, hat⟩ hstep
      have hlt := distance_lt hstep hat hsection
      exact Or.inr ⟨⟨hinv.step hstep, step_lost hinv hstep hlost⟩, by omega⟩
    · intro m hm
      exact ⟨m, le_rfl, enabled_inSection (hm m le_rfl).2.2.2 hsection⟩
  exact hlead n ⟨⟨hinv, hlost⟩, Bool.eq_false_iff.2 hfree, hk.le, hj⟩

/-- A point that a call leaves only by a step of the registry's own code. -/
structure Mechanical (point : Point Result) : Prop where
  awake : ∀ runtime, point.wake runtime = point
  idle : ∀ request runtime, point ≠ .executing request runtime
  silent : ∀ request response, point ≠ .responding request response none

/-- Where a step of the registry's own code takes a call. -/
inductive Successor (s : ServerState Result) (point : Point Result) : Point Result → Prop where
  | advance (r : Registry) (next : Point Result)
      (h : Advance s.mayRead s.mayWrite s.registry point r next) : Successor s point next
  | drop (runtime : ℕ) (next woken : Point Result) (h : Drops point runtime next)
      (hwoken : Woken next woken) : Successor s point woken

lemma Mechanical.step (hpoint : Mechanical point) (h : Server.step s action = some s') (hi : At i point s) :
    At i point s' ∨ ∃ next, Successor s point next ∧ At i next s' := by
  obtain ⟨q, hq, hwoken | ⟨r, hmoves⟩ | ⟨runtime, next, hdrop, -, hwoken⟩⟩ := step_call h hi
  · left
    rw [hwoken.eq_of_awake hpoint.awake] at hq
    exact hq
  · right
    cases hmoves with
    | advance _ _ _ hadvance => exact ⟨q, .advance r q hadvance, hq⟩
    | execute request runtime => exact absurd rfl (hpoint.idle request runtime)
    | deliver request response => exact absurd rfl (hpoint.silent request response)
    | wake _ runtime =>
      have := hpoint.awake runtime
      simp [Point.wake] at this
  · exact Or.inr ⟨q, .drop runtime next q hdrop hwoken, hq⟩

lemma step_successor (h : step s (.advance i) = some s') (hi : At i point s) :
    ∃ next, Successor s point next ∧ At i next s' := by
  rcases step_advance h hi with ⟨r, next, hadvance, rfl⟩ | ⟨runtime, next, hdrop, rfl⟩
  · refine ⟨next, .advance r next hadvance, ?_⟩
    unfold At
    rw [get_move i r next hi, if_pos rfl]
  · obtain ⟨q, hq, hwoken⟩ := get_dropPermit i runtime next hi
    rw [if_pos rfl] at hwoken
    exact ⟨q, .drop runtime next q hdrop hwoken, hq⟩

/-- **A call moves on.** `I` is what is known while it waits, and it is not undone. -/
theorem leadsTo_successor (hfair : ρ.Fair (.advance i)) {I : ServerState Result → Prop}
    (hI : ∀ s a s', I s → step s a = some s' → I s') (hpoint : Mechanical point) {Q : Point Result → Prop}
    (hQ : ∀ s next, I s → Successor s point next → Q next)
    (hon : ∀ n, (∀ m, n ≤ m → I (ρ.state m) ∧ At i point (ρ.state m)) →
      ∃ m, n ≤ m ∧ (step (ρ.state m) (.advance i)).isSome) :
    ρ.LeadsTo (fun s => I s ∧ At i point s) fun s => I s ∧ ∃ next, Q next ∧ At i next s := by
  refine Run.leadsTo_of_fair hfair ?_ ?_ hon
  · rintro s b s' ⟨hs, hi⟩ hstep
    rcases hpoint.step hstep hi with hi' | ⟨next, hnext, hi'⟩
    · exact Or.inl ⟨hI s b s' hs hstep, hi'⟩
    · exact Or.inr ⟨hI s b s' hs hstep, next, hQ s next hs hnext, hi'⟩
  · rintro s s' ⟨hs, hi⟩ hstep
    obtain ⟨next, hnext, hi'⟩ := step_successor hstep hi
    exact ⟨hI s _ s' hs hstep, next, hQ s next hs hnext, hi'⟩

lemma mechanical_closing (shard : LogicalShardId) (runtime : ℕ) (h : stage ≠ .asleep)
    (after : Option (WorkspaceRpcRequest × WorkspaceRpcResponse Result)) :
    Mechanical (.closing shard runtime stage after) := by
  refine ⟨fun _ => ?_, fun _ _ => nofun, fun _ _ => nofun⟩
  cases stage <;> first | rfl | exact absurd rfl h

section Closing

lemma inv_kept : ∀ (s : ServerState Result) a s', Inv s → step s a = some s' → Inv s' :=
  fun _ _ _ h hstep => h.step hstep

/-- From a point that only the registry's code leaves, and only for one other point. -/
lemma leadsTo_point (hfair : ρ.Fair (.advance i)) (hpoint : Mechanical point)
    (hadvance : ∀ (s : ServerState Result) r q,
      Advance s.mayRead s.mayWrite s.registry point r q → q = next)
    (hdrop : ∀ other q, ¬ Drops point other q)
    (hon : ∀ n, (∀ m, n ≤ m → Inv (ρ.state m) ∧ At i point (ρ.state m)) →
      ∃ m, n ≤ m ∧ (step (ρ.state m) (.advance i)).isSome) :
    ρ.LeadsTo (fun s => Inv s ∧ At i point s) fun s => Inv s ∧ At i next s := by
  intro n hn
  obtain ⟨m, hm, hinv, q, rfl, hat⟩ := leadsTo_successor hfair inv_kept hpoint
    (Q := fun q => q = next) (fun s q _ hq => by
      cases hq with
      | advance r _ h => exact hadvance s r q h
      | drop other next' _ h => exact absurd h (hdrop other next')) hon n hn
  exact ⟨m, hm, hinv, hat⟩

/-- From the gate to the wait. The route table is free again and again after owner loss. -/
lemma leadsTo_wait (hfair : ∀ i, ρ.Fair (.advance i)) :
    ρ.LeadsTo (fun s => Inv s ∧ At i (.closing shard runtime .admission after) s)
      fun s => Inv s ∧ At i (.closing shard runtime .wait after) s := by
  have hsignal : ρ.LeadsTo (fun s => Inv s ∧ At i (.closing shard runtime .admission after) s)
      fun s => Inv s ∧ At i (.closing shard runtime .signal after) s :=
    leadsTo_point (hfair i) (mechanical_closing shard runtime (by decide) after)
      (fun _ _ _ h => by cases h; rfl) (fun _ _ => nofun)
      fun n hn => ⟨n, le_rfl, enabled_closing (hn n le_rfl).2 nofun nofun⟩
  have hretain : ρ.LeadsTo (fun s => Inv s ∧ At i (.closing shard runtime .signal after) s)
      fun s => Inv s ∧ At i (.closing shard runtime .retain after) s :=
    leadsTo_point (hfair i) (mechanical_closing shard runtime (by decide) after)
      (fun _ _ _ h => by cases h; rfl) (fun _ _ => nofun)
      fun n hn => ⟨n, le_rfl, enabled_closing (hn n le_rfl).2 nofun nofun⟩
  have hwait : ρ.LeadsTo (fun s => Inv s ∧ At i (.closing shard runtime .retain after) s)
      fun s => Inv s ∧ At i (.closing shard runtime .wait after) s := by
    refine leadsTo_point (hfair i) (mechanical_closing shard runtime (by decide) after)
      (fun _ _ _ h => by cases h; rfl) (fun _ _ => nofun) fun n hn => ?_
    obtain ⟨hinv, hat⟩ := hn n le_rfl
    have hlost := (hinv.reached _ _ _ _ (mem_of_getElem? hat)).2
    obtain ⟨m, hm, hfree⟩ := leadsTo_mayWrite hfair n ⟨hinv, hlost⟩
    exact ⟨m, hm, enabled_closing (hn m hm).2 (fun _ => hfree) nofun⟩
  exact (hsignal.trans hretain).trans hwait

/-- Waiting for the last permit. -/
def Waiting (i runtime : ℕ) (shard : LogicalShardId)
    (after : Option (WorkspaceRpcRequest × WorkspaceRpcResponse Result)) (s : ServerState Result) : Prop :=
  Inv s ∧ Shut s shard runtime ∧
    (At i (.closing shard runtime .wait after) s ∨ At i (.closing shard runtime .asleep after) s)

lemma Waiting.step (h : Waiting i runtime shard after s) (hstep : Server.step s action = some s') :
    Waiting i runtime shard after s' ∨ At i (.closing shard runtime .drained after) s' := by
  obtain ⟨hinv, hshut, hat⟩ := h
  have hinv' := hinv.step hstep
  have hshut' := hshut.step hinv hstep
  rcases hat with hat | hat
  · rcases (mechanical_closing shard runtime (by decide) after).step hstep hat with hat' | ⟨next, hnext, hat'⟩
    · exact Or.inl ⟨hinv', hshut', Or.inl hat'⟩
    · rcases hnext with ⟨r, _, hadvance⟩ | ⟨_, _, _, hdrop⟩
      · cases hadvance with
        | closeDrained => exact Or.inr hat'
        | closeAsleep => exact Or.inl ⟨hinv', hshut', Or.inr hat'⟩
      · cases hdrop
  · left
    refine ⟨hinv', hshut', ?_⟩
    obtain ⟨q, hq, hwoken | ⟨r, hmoves⟩ | ⟨other, _, hdrop, -⟩⟩ := step_call hstep hat
    · rcases hwoken with rfl | ⟨other, rfl⟩
      · exact Or.inr hq
      · by_cases heq : runtime = other
        · left
          simpa [Point.wake, heq, At] using hq
        · right
          simpa [Point.wake, heq, At] using hq
    · cases hmoves with
      | advance _ _ _ hadvance => cases hadvance
      | wake => exact Or.inl hq
    · cases hdrop

/-- A permit is given back only by a step that counts it out. -/
lemma step_holds (hinv : Inv s) (h : step s action = some s') (hholds : Holds j runtime s) :
    Holds j runtime s' ∨
      (s'.registry.gates runtime).inFlight < (s.registry.gates runtime).inFlight := by
  obtain ⟨_, shard', hj, hpermit⟩ := hholds
  obtain ⟨q, hq, hwoken | ⟨r, hmoves⟩ | ⟨other, _, hdrop, rfl, -⟩⟩ := step_call h hj
  · left
    refine ⟨q, shard', hq, ?_⟩
    rcases hwoken with rfl | ⟨other, rfl⟩
    · exact hpermit
    · rw [Point.permit_wake, hpermit]
  · left
    refine ⟨q, shard', hq, ?_⟩
    cases hmoves with
    | advance _ _ _ hadvance => cases hadvance <;> first | exact hpermit | cases hpermit
    | execute => rw [(afterExecution_spec _ _ _).2.1]; exact hpermit
    | deliver | wake => cases hpermit
  · right
    have heq : other = runtime := by
      obtain ⟨⟨_, hother⟩, -⟩ := hdrop.permit
      rw [hpermit] at hother
      cases hother
      rfl
    subst heq
    have hpos : 0 < (s.registry.gates other).inFlight := by
      rw [hinv.counted]
      refine Nat.pos_of_ne_zero fun hzero => ?_
      have := List.sum_eq_zero_iff_forall_eq_nat.1 hzero _ (mem_map_of_mem (mem_of_getElem? hj))
      simp [Point.counts, hpermit] at this
    rw [dropPermit_registry, leave_gates, if_pos rfl]
    simp only
    omega

/-- Something in flight is a permit that some call holds. -/
lemma exists_holds (hinv : Inv s) (h : (s.registry.gates runtime).inFlight ≠ 0) :
    ∃ j, Holds j runtime s := by
  rw [hinv.counted] at h
  by_contra hnone
  refine h (List.sum_eq_zero_iff_forall_eq_nat.2 fun n hn => ?_)
  obtain ⟨point, hpoint, rfl⟩ := mem_map.1 hn
  unfold Point.counts
  rw [if_neg]
  intro heq
  obtain ⟨⟨shard', runtime'⟩, hpermit, heq : runtime' = _⟩ := Option.map_eq_some_iff.1 heq
  obtain ⟨j, hj⟩ := mem_iff_getElem?.1 hpoint
  exact hnone ⟨j, point, shard', hj, heq ▸ hpermit⟩

/-- **The gate drains.** Every permit is dropped in the end and none is added. -/
theorem leadsTo_empty
    (hdrops : ∀ n j runtime, Holds j runtime (ρ.state n) → ∃ m, n ≤ m ∧ ¬ Holds j runtime (ρ.state m)) :
    ρ.LeadsTo (Waiting i runtime shard after) fun s =>
      At i (.closing shard runtime .drained after) s ∨
        (Waiting i runtime shard after s ∧ (s.registry.gates runtime).inFlight = 0) := by
  refine Run.leadsTo_of_rank (fun s => (s.registry.gates runtime).inFlight) fun k n hn => ?_
  obtain ⟨hwaiting, hk⟩ := hn
  by_cases hzero : ((ρ.state n).registry.gates runtime).inFlight = 0
  · exact ⟨n, le_rfl, Or.inl (Or.inr ⟨hwaiting, hzero⟩)⟩
  obtain ⟨j, hj⟩ := exists_holds hwaiting.1 hzero
  -- the holder keeps its permit for ever, which it does not, or the count drops
  let P : ServerState Result → Prop := fun s => Waiting i runtime shard after s ∧
    (s.registry.gates runtime).inFlight ≤ k ∧ Holds j runtime s
  let Q : ServerState Result → Prop := fun s =>
    (At i (.closing shard runtime .drained after) s ∨
      (Waiting i runtime shard after s ∧ (s.registry.gates runtime).inFlight = 0)) ∨
    (Waiting i runtime shard after s ∧ (s.registry.gates runtime).inFlight < k)
  have hkeep : ∀ s a s', P s → step s a = some s' → P s' ∨ Q s' := by
    rintro s a _ ⟨hwaiting, hle, hholds⟩ hstep
    have hle' := step_inFlight_le hwaiting.1 hstep hwaiting.2.1.closed
    rcases hwaiting.step hstep with hwaiting' | hdrained
    · rcases step_holds hwaiting.1 hstep hholds with hholds' | hlt
      · exact Or.inl ⟨hwaiting', hle'.trans hle, hholds'⟩
      · exact Or.inr (Or.inr ⟨hwaiting', lt_of_lt_of_le hlt hle⟩)
    · exact Or.inr (Or.inl (Or.inl hdrained))
  rcases Run.stays_or hkeep (n := n) ⟨hwaiting, hk.le, hj⟩ with hstays | ⟨m, hm, hq⟩
  · obtain ⟨m, hm, hnot⟩ := hdrops n j runtime hj
    exact absurd (hstays m hm).2.2 hnot
  · exact ⟨m, hm, hq⟩

lemma leadsTo_drained (hfair : ∀ i, ρ.Fair (.advance i)) :
    ρ.LeadsTo (fun s => Waiting i runtime shard after s ∧ (s.registry.gates runtime).inFlight = 0)
      fun s => Inv s ∧ At i (.closing shard runtime .drained after) s := by
  rintro n ⟨⟨hinv, hshut, hwaiting⟩, hempty⟩
  have hat : At i (.closing shard runtime .wait after) (ρ.state n) := by
    rcases hwaiting with hat | hat
    · exact hat
    · exact absurd hempty (hinv.reached _ _ _ _ (mem_of_getElem? hat)).2
  have hlead : ρ.LeadsTo
      (fun s => Drained s shard runtime ∧ At i (.closing shard runtime .wait after) s)
      fun s => Drained s shard runtime ∧
        ∃ next, next = .closing shard runtime .drained after ∧ At i next s := by
    refine leadsTo_successor (hfair i) (fun _ _ _ h hstep => h.step hstep)
      (mechanical_closing shard runtime (by decide) after) ?_
      fun n hn => ⟨n, le_rfl, enabled_closing (hn n le_rfl).2 nofun nofun⟩
    rintro s q hdrained (⟨r, _, hadvance⟩ | ⟨_, _, _, hdrop⟩)
    · cases hadvance with
      | closeDrained => rfl
      | closeAsleep _ _ _ hbusy => exact absurd hdrained.empty hbusy
    · cases hdrop
  obtain ⟨m, hm, hdrained, _, rfl, hnext⟩ := hlead n ⟨⟨hinv, hshut, hempty⟩, hat⟩
  exact ⟨m, hm, hdrained.inv, hnext⟩

lemma leadsTo_closed (hfair : ∀ i, ρ.Fair (.advance i))
    (hdrops : ∀ n j runtime, Holds j runtime (ρ.state n) → ∃ m, n ≤ m ∧ ¬ Holds j runtime (ρ.state m)) :
    ρ.LeadsTo (fun s => Inv s ∧ At i (.closing shard runtime .admission after) s)
      fun s => Inv s ∧ At i (.closing shard runtime .drained after) s := by
  intro n hn
  obtain ⟨m, hm, hinv, hat⟩ := leadsTo_wait hfair n hn
  have hshut : Shut (ρ.state m) shard runtime := hinv.reached _ _ _ _ (mem_of_getElem? hat)
  obtain ⟨k, hk, hdrained | hempty⟩ := leadsTo_empty hdrops m ⟨hinv, hshut, Or.inl hat⟩
  · exact ⟨k, hm.trans hk, Run.invariant_from inv_kept hinv hk, hdrained⟩
  · obtain ⟨l, hl, hlast⟩ := leadsTo_drained hfair k hempty
    exact ⟨l, (hm.trans hk).trans hl, hlast⟩

end Closing

section Returns

variable (hfair : ∀ i, ρ.Fair (.advance i))
  (hdrops : ∀ n j runtime, Holds j runtime (ρ.state n) → ∃ m, n ≤ m ∧ ¬ Holds j runtime (ρ.state m))

include hfair in
lemma leadsTo_gate (i : ℕ) (shard : LogicalShardId) (error : Option ControlError) :
    ρ.LeadsTo (fun s => Inv s ∧ At i (.failStart shard error) s) fun s => Inv s ∧
      ∃ next, (∃ runtime, next = .closing shard runtime .admission none) ∧ At i next s := by
  have hsignal : ρ.LeadsTo (fun s => Inv s ∧ At i (.failSignal shard) s)
      fun s => Inv s ∧ At i (.failRuntime shard) s :=
    leadsTo_point (hfair i) ⟨fun _ => rfl, fun _ _ => nofun, fun _ _ => nofun⟩
      (fun _ _ _ h => by cases h; rfl) (fun _ _ => nofun)
      fun n hn => ⟨n, le_rfl, enabled_failing (hn n le_rfl).2 (Or.inr (Or.inl rfl))⟩
  have hstart : ρ.LeadsTo (fun s => Inv s ∧ At i (.failStart shard error) s)
      fun s => Inv s ∧ At i (.failRuntime shard) s := by
    cases error with
    | none =>
      exact leadsTo_point (hfair i) ⟨fun _ => rfl, fun _ _ => nofun, fun _ _ => nofun⟩
        (fun _ _ _ h => by cases h; rfl) (fun _ _ => nofun)
        fun n hn => ⟨n, le_rfl, enabled_failing (hn n le_rfl).2 (Or.inl ⟨_, rfl⟩)⟩
    | some =>
      refine Run.LeadsTo.trans ?_ hsignal
      exact leadsTo_point (hfair i) ⟨fun _ => rfl, fun _ _ => nofun, fun _ _ => nofun⟩
        (fun _ _ _ h => by cases h; rfl) (fun _ _ => nofun)
        fun n hn => ⟨n, le_rfl, enabled_failing (hn n le_rfl).2 (Or.inl ⟨_, rfl⟩)⟩
  have hruntime : Mechanical (.failRuntime shard : Point Result) :=
    ⟨fun _ => rfl, fun _ _ => nofun, fun _ _ => nofun⟩
  refine hstart.trans (leadsTo_successor (hfair i) inv_kept hruntime ?_
    fun n hn => ⟨n, le_rfl, enabled_failing (hn n le_rfl).2 (Or.inr (Or.inr rfl))⟩)
  rintro s q - (⟨r, _, hadvance⟩ | ⟨_, _, _, hdrop⟩)
  · cases hadvance
    exact ⟨_, rfl⟩
  · cases hdrop

include hfair hdrops

lemma failClosedShard_returns (i : ℕ) (shard : LogicalShardId) (error : Option ControlError) :
    ρ.LeadsTo (fun s => Inv s ∧ At i (.failStart shard error) s)
      fun s => Inv s ∧ At i (.closed shard) s := by
  intro n hn
  obtain ⟨m, hm, hinv, _, ⟨runtime, rfl⟩, hat⟩ := leadsTo_gate hfair i shard error n hn
  have hlast : ρ.LeadsTo (fun s => Inv s ∧ At i (.closing shard runtime .drained none) s)
      fun s => Inv s ∧ At i (.closed shard) s :=
    leadsTo_point (hfair i) (mechanical_closing shard runtime (by decide) none)
      (fun _ _ _ h => by cases h; rfl) (fun _ _ => nofun)
      fun n hn => ⟨n, le_rfl, enabled_closing (hn n le_rfl).2 nofun nofun⟩
  obtain ⟨k, hk, hend⟩ := (leadsTo_closed hfair hdrops).trans hlast m ⟨hinv, hat⟩
  exact ⟨k, hm.trans hk, hend⟩

/-- A dispatch whose executor lost the shard answers. Its own permit is gone before it waits. -/
lemma dispatchGuarded_returns (i runtime : ℕ) (request : WorkspaceRpcRequest)
    (response : WorkspaceRpcResponse Result) :
    ρ.LeadsTo (fun s => Inv s ∧ At i (.failing request response runtime) s)
      fun s => Inv s ∧ At i (.responding request response none) s := by
  have hdrop : ρ.LeadsTo (fun s => Inv s ∧ At i (.failing request response runtime) s) fun s => Inv s ∧
      ∃ next, next = .closing request.route.logicalShardId runtime .admission (some (request, response)) ∧
        At i next s := by
    have hpoint : Mechanical (.failing request response runtime) :=
      ⟨fun _ => rfl, fun _ _ => nofun, fun _ _ => nofun⟩
    refine leadsTo_successor (hfair i) inv_kept hpoint ?_ ?_
    · rintro s q - (⟨r, _, hadvance⟩ | ⟨_, _, _, hdrop, hwoken⟩)
      · cases hadvance
      · cases hdrop
        exact hwoken.eq_of_awake fun _ => rfl
    · intro n hn
      have hat : (ρ.state n).calls[i]? = _ := (hn n le_rfl).2
      refine ⟨n, le_rfl, ?_⟩
      simp only [step, hat]
      rfl
  have hlast : ρ.LeadsTo (fun s => Inv s ∧ At i (.closing request.route.logicalShardId runtime .drained
      (some (request, response))) s) fun s => Inv s ∧ At i (.responding request response none) s :=
    leadsTo_point (hfair i) (mechanical_closing _ runtime (by decide) _)
      (fun _ _ _ h => by cases h; rfl) (fun _ _ => nofun)
      fun n hn => ⟨n, le_rfl, enabled_closing (hn n le_rfl).2 nofun nofun⟩
  intro n hn
  obtain ⟨m, hm, hinv, _, rfl, hat⟩ := hdrop n hn
  obtain ⟨k, hk, hend⟩ := (leadsTo_closed hfair hdrops).trans hlast m ⟨hinv, hat⟩
  exact ⟨k, hm.trans hk, hend⟩

end Returns

end Live

/-! ### The barrier -/

/-- What a fail-closed call of a shard guarantees. -/
structure FailClosedBarrier (Result : Type) : Prop where
  /-- once it has returned, nothing of the shard is in flight or can be reached, then and at any later
  moment, and no call made from then on passes the owner-loss check -/
  fenced : ∀ (before after : List (Action Result)) (s s' : ServerState Result) (shard : LogicalShardId),
    exec step .init before = some s → HasFailedClosed s shard → exec step s after = some s' →
    Fenced shard s' ∧ ∀ j, s.calls.length ≤ j → ∀ point, s'.calls[j]? = some point → point.allowed = false
  /-- in a run whose scheduler and locks are fair and whose permits are all dropped in the end, it
  returns, and so does a dispatch whose executor lost the shard -/
  returns : ∀ ρ : Run (@step Result), ρ.state 0 = .init → (∀ i, ρ.Fair (.advance i)) →
    (∀ n j runtime, Holds j runtime (ρ.state n) → ∃ m, n ≤ m ∧ ¬ Holds j runtime (ρ.state m)) →
    (∀ i shard error n, At i (.failStart shard error) (ρ.state n) →
      ∃ m, n ≤ m ∧ At i (.closed shard) (ρ.state m)) ∧
    ∀ i request response runtime n, At i (.failing request response runtime) (ρ.state n) →
      ∃ m, n ≤ m ∧ At i (.responding request response none) (ρ.state m)

/-- **The fail-closed barrier.** -/
theorem fail_closed_barrier (Result : Type) : FailClosedBarrier Result := by
  refine ⟨fun before after s s' shard hbefore hclosed hafter => ?_, fun ρ hstart hfair hdrops => ⟨?_, ?_⟩⟩
  · obtain ⟨runtime, hdrained⟩ := drained_of_exec hbefore hclosed
    exact fenced_of_drained hdrained hafter
  · intro i shard error n hat
    have hinv : Inv (ρ.state n) := Run.invariant inv_kept (hstart ▸ inv_init) n
    obtain ⟨m, hm, -, hlast⟩ := failClosedShard_returns hfair hdrops i shard error n ⟨hinv, hat⟩
    exact ⟨m, hm, hlast⟩
  · intro i request response runtime n hat
    have hinv : Inv (ρ.state n) := Run.invariant inv_kept (hstart ▸ inv_init) n
    obtain ⟨m, hm, -, hlast⟩ := dispatchGuarded_returns hfair hdrops i runtime request response n ⟨hinv, hat⟩
    exact ⟨m, hm, hlast⟩

/-- A fail-closed call sleeps while an operation is in flight, and returns when its permit is dropped. -/
example :
    let route : RootRoute := ⟨.fill 16 1, .fill 16 2, .fill 16 3, 1, 1⟩
    let held := [.call (.install route)] ++ List.replicate 5 (.advance 0) ++
      [.call (.enterShardOperation route)] ++ List.replicate 5 (.advance 1) ++
      [.call (.failClosedShard (.fill 16 2))] ++ List.replicate 6 (.advance 2)
    let closed := fun s : ServerState Unit => s.calls.map fun point => point.hasClosed.isSome
    (exec step .init held).map closed = some [false, false, false] ∧
      (exec step .init (held ++ [.advance 2])).map closed = none ∧
      (exec step .init (held ++ [.drop 1, .advance 2])).map closed = some [false, false, true] := by
  decide +kernel

end NoKV.Server
