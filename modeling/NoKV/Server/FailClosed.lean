import NoKV.Server.Registry

/-!
# What the steps of the registry keep

* `step_cases`: a step is a new call, a call that moves on, a call that drops its permit, or the signal;
* `Inv`: the two tables agree about the gates, a gate counts the permits that are held, a response
  without a permit is an owner-loss failure, and a call that closes a gate has brought about what its
  stage says;
* `Shut`: a gate that is closed, with no route of its shard in the table or on its way there. It is
  reached when the routes are removed: an installation that was past the owner-loss check holds the write
  lock of the table, so it is over by then, and a later one sees the signal. `Shut.step` says that no
  step undoes it.

A sleeper is never left behind (`Inv.reached_dropPermit`): whoever sleeps has closed the gate before, so
the permit that empties the gate wakes it.
-/

namespace NoKV.Server

open Lib Control List

variable {Result : Type}

/-! ### What a step can do -/

/-- The steps of the registry's code, one by one. -/
inductive Advance (mayRead mayWrite : Bool) (r : Registry) :
    Point Result → Registry → Point Result → Prop where
  | installRefused (route : RootRoute) (error : ServerError) :
    Advance mayRead mayWrite r (.installStart route) r (.installed route (.error error))
  | installAsked (route : RootRoute) :
    Advance mayRead mayWrite r (.installStart route) r (.installAcquire route)
  | installLocked (route : RootRoute) (h : mayWrite = true) :
    Advance mayRead mayWrite r (.installAcquire route) r (.installLocked route)
  | installFailed (route : RootRoute) (error : ServerError) :
    Advance mayRead mayWrite r (.installLocked route) r (.installed route (.error error))
  | installAllowed (route : RootRoute) (h : r.lost = false) :
    Advance mayRead mayWrite r (.installLocked route) r (.installRuntime route)
  | installRuntime (route : RootRoute) :
    Advance mayRead mayWrite r (.installRuntime route) (r.runtimeEntry route.logicalShardId).2
      (.installInsert route (r.runtimeEntry route.logicalShardId).1)
  | installInsert (route : RootRoute) (runtime : ℕ) :
    Advance mayRead mayWrite r (.installInsert route runtime)
      { r with owners := r.owners.insert route.rootId ⟨route, runtime⟩ } (.installed route (.ok ()))
  | removeRefused (route : RootRoute) (error : ServerError) :
    Advance mayRead mayWrite r (.removeStart route) r (.removed (.error error))
  | removeAsked (route : RootRoute) :
    Advance mayRead mayWrite r (.removeStart route) r (.removeAcquire route)
  | removed (route : RootRoute) :
    Advance mayRead mayWrite r (.removeAcquire route) { r with owners := r.owners.erase route.rootId }
      (.removed (.ok true))
  | removedNone (route : RootRoute) :
    Advance mayRead mayWrite r (.removeAcquire route) r (.removed (.ok false))
  | enterRefused (route : RootRoute) (error : ServerError) :
    Advance mayRead mayWrite r (.enterStart route) r (.refused route error)
  | enterAsked (route : RootRoute) :
    Advance mayRead mayWrite r (.enterStart route) r (.enterSignal route)
  | enterLost (route : RootRoute) (error : ServerError) :
    Advance mayRead mayWrite r (.enterSignal route) r (.refused route error)
  | enterAllowed (route : RootRoute) (h : r.lost = false) :
    Advance mayRead mayWrite r (.enterSignal route) r (.admitAcquire (.operation route))
  | dispatchLost (request : WorkspaceRpcRequest) (response : WorkspaceRpcResponse Result)
      (h : response.isOwnerLoss = true) :
    Advance mayRead mayWrite r (.dispatchStart request) r (.responding request response none)
  | dispatchAllowed (request : WorkspaceRpcRequest) (h : r.lost = false) :
    Advance mayRead mayWrite r (.dispatchStart request) r (.admitAcquire (.request request))
  | admitLocked (admission : Admission) (h : mayRead = true) :
    Advance mayRead mayWrite r (.admitAcquire admission) r (.admitReading admission)
  | operationRefused (route : RootRoute) (error : ServerError) :
    Advance mayRead mayWrite r (.admitReading (.operation route)) r (.refused route error)
  | requestRefused (request : WorkspaceRpcRequest) (response : WorkspaceRpcResponse Result)
      (h : response.isOwnerLoss = true) :
    Advance mayRead mayWrite r (.admitReading (.request request)) r (.responding request response none)
  | admitted (admission : Admission) (owner : RootOwner)
      (howner : r.owners.get admission.route.rootId = some owner) (hroute : owner.route = admission.route)
      (hopen : (r.gates owner.runtime).closed = false) :
    Advance mayRead mayWrite r (.admitReading admission)
      (r.setGate owner.runtime
        { r.gates owner.runtime with inFlight := (r.gates owner.runtime).inFlight + 1 })
      (.admitEntered admission owner.runtime)
  | operationEntered (route : RootRoute) (runtime : ℕ) :
    Advance mayRead mayWrite r (.admitEntered (.operation route) runtime) r (.entered route runtime)
  | requestEntered (request : WorkspaceRpcRequest) (runtime : ℕ) :
    Advance mayRead mayWrite r (.admitEntered (.request request) runtime) r (.executing request runtime)
  | failControl (shard : LogicalShardId) (error : ControlError) :
    Advance mayRead mayWrite r (.failStart shard (some error))
      { r with controlError := r.controlError.or (some error) } (.failSignal shard)
  | failStart (shard : LogicalShardId) :
    Advance mayRead mayWrite r (.failStart shard none) { r with lost := true } (.failRuntime shard)
  | failSignal (shard : LogicalShardId) :
    Advance mayRead mayWrite r (.failSignal shard) { r with lost := true } (.failRuntime shard)
  | failRuntime (shard : LogicalShardId) :
    Advance mayRead mayWrite r (.failRuntime shard) (r.runtimeEntry shard).2
      (.closing shard (r.runtimeEntry shard).1 .admission none)
  | closeAdmission (shard : LogicalShardId) (runtime : ℕ)
      (after : Option (WorkspaceRpcRequest × WorkspaceRpcResponse Result)) :
    Advance mayRead mayWrite r (.closing shard runtime .admission after) (r.closeAdmission runtime)
      (.closing shard runtime .signal after)
  | closeSignal (shard : LogicalShardId) (runtime : ℕ)
      (after : Option (WorkspaceRpcRequest × WorkspaceRpcResponse Result)) :
    Advance mayRead mayWrite r (.closing shard runtime .signal after) { r with lost := true }
      (.closing shard runtime .retain after)
  | closeRetain (shard : LogicalShardId) (runtime : ℕ)
      (after : Option (WorkspaceRpcRequest × WorkspaceRpcResponse Result)) (h : mayWrite = true) :
    Advance mayRead mayWrite r (.closing shard runtime .retain after) (r.retainOthers shard)
      (.closing shard runtime .wait after)
  | closeDrained (shard : LogicalShardId) (runtime : ℕ)
      (after : Option (WorkspaceRpcRequest × WorkspaceRpcResponse Result))
      (h : (r.gates runtime).inFlight = 0) :
    Advance mayRead mayWrite r (.closing shard runtime .wait after) r (.closing shard runtime .drained after)
  | closeAsleep (shard : LogicalShardId) (runtime : ℕ)
      (after : Option (WorkspaceRpcRequest × WorkspaceRpcResponse Result))
      (h : (r.gates runtime).inFlight ≠ 0) :
    Advance mayRead mayWrite r (.closing shard runtime .wait after) r (.closing shard runtime .asleep after)
  | closeReturns (shard : LogicalShardId) (runtime : ℕ) :
    Advance mayRead mayWrite r (.closing shard runtime .drained none) r (.closed shard)
  | closeResponds (shard : LogicalShardId) (runtime : ℕ) (request : WorkspaceRpcRequest)
      (response : WorkspaceRpcResponse Result) :
    Advance mayRead mayWrite r (.closing shard runtime .drained (some (request, response))) r
      (.responding request response none)

lemma isOwnerLoss_notOwnerResponse (request : WorkspaceRpcRequest) (routeHint : Option RootRoute)
    (message : String) :
    (notOwnerResponse request routeHint message : WorkspaceRpcResponse Result).isOwnerLoss = true := rfl

lemma advance_refuse {mayRead mayWrite : Bool} {r : Registry} (admission : Admission)
    (routeHint : Option RootRoute) (operationReason requestReason : String) :
    Advance mayRead mayWrite r (.admitReading admission) r
      (refuse routeHint operationReason requestReason admission : Point Result) := by
  cases admission with
  | operation route => exact .operationRefused route _
  | request request => exact .requestRefused request _ (isOwnerLoss_notOwnerResponse _ _ _)

section Cases

variable {mayRead mayWrite : Bool} {r r' : Registry} {point next : Point Result}

lemma install_cases (h : install mayWrite r point = some (r', next)) :
    Advance mayRead mayWrite r point r' next := by
  unfold install at h
  split at h
  next route =>
    split at h <;> cases h
    · exact .installRefused route _
    · exact .installAsked route
  next route =>
    split at h <;> cases h
    exact .installLocked route ‹_›
  next route =>
    split at h
    · cases h
      exact .installFailed route _
    · split at h <;> cases h
      · exact .installFailed route _
      · exact .installAllowed route (Bool.eq_false_iff.2 ‹_›)
  next route =>
    cases h
    exact .installRuntime route
  next route runtime =>
    cases h
    exact .installInsert route runtime
  next => cases h

lemma remove_cases (h : remove mayWrite r point = some (r', next)) :
    Advance mayRead mayWrite r point r' next := by
  unfold remove at h
  split at h
  next route =>
    split at h <;> cases h
    · exact .removeRefused route _
    · exact .removeAsked route
  next route =>
    split at h
    · split at h <;> cases h
      · exact .removed route
      · exact .removedNone route
    · cases h
  next => cases h

lemma enterShardOperation_cases (h : enterShardOperation r point = some (r', next)) :
    Advance mayRead mayWrite r point r' next := by
  unfold enterShardOperation at h
  split at h
  next route =>
    split at h
    · cases h
      exact .enterRefused route _
    · split at h <;> cases h
      · exact .enterRefused route _
      · exact .enterAsked route
  next route =>
    split at h <;> cases h
    · exact .enterLost route _
    · exact .enterAllowed route (Bool.eq_false_iff.2 ‹_›)
  next => cases h

lemma dispatchGuarded_cases (h : dispatchGuarded r point = some (r', next)) :
    Advance mayRead mayWrite r point r' next := by
  unfold dispatchGuarded at h
  split at h
  next request =>
    split at h <;> cases h
    · exact .dispatchLost request _ (isOwnerLoss_notOwnerResponse _ _ _)
    · exact .dispatchAllowed request (Bool.eq_false_iff.2 ‹_›)
  next => cases h

lemma admitOperation_cases (h : admitOperation mayRead r point = some (r', next)) :
    Advance mayRead mayWrite r point r' next := by
  unfold admitOperation at h
  split at h
  next admission =>
    split at h <;> cases h
    exact .admitLocked admission ‹_›
  next admission =>
    split at h
    · cases h
      exact advance_refuse admission _ _ _
    -- the root is registered: its route has to be the one of the request, and its gate open
    next owner howner =>
      split at h
      · cases h
        exact advance_refuse admission _ _ _
      next hroute =>
        split at h
        · cases h
          exact advance_refuse admission _ _ _
        next r'' henter =>
          cases h
          unfold Registry.enter at henter
          split at henter
          · cases henter
          next hopen =>
            cases henter
            exact .admitted admission owner howner (not_not.1 hroute) (Bool.eq_false_iff.2 hopen)
  next route runtime =>
    cases h
    exact .operationEntered route runtime
  next request runtime =>
    cases h
    exact .requestEntered request runtime
  next => cases h

lemma failClosedShard_cases (h : failClosedShard r point = some (r', next)) :
    Advance mayRead mayWrite r point r' next := by
  unfold failClosedShard at h
  split at h
  next shard =>
    cases h
    exact .failStart shard
  next shard error =>
    cases h
    exact .failControl shard error
  next shard =>
    cases h
    exact .failSignal shard
  next shard =>
    cases h
    exact .failRuntime shard
  next => cases h

lemma failClosedRuntime_cases (h : failClosedRuntime mayWrite r point = some (r', next)) :
    Advance mayRead mayWrite r point r' next := by
  unfold failClosedRuntime at h
  split at h
  next shard runtime after =>
    cases h
    exact .closeAdmission shard runtime after
  next shard runtime after =>
    cases h
    exact .closeSignal shard runtime after
  next shard runtime after =>
    split at h <;> cases h
    exact .closeRetain shard runtime after ‹_›
  next shard runtime after =>
    by_cases hempty : (r.gates runtime).inFlight = 0
    · rw [if_pos hempty] at h
      cases h
      exact .closeDrained shard runtime after hempty
    · rw [if_neg hempty] at h
      cases h
      exact .closeAsleep shard runtime after hempty
  next shard runtime =>
    cases h
    exact .closeReturns shard runtime
  next shard runtime request response =>
    cases h
    exact .closeResponds shard runtime request response
  next => cases h

lemma advance_cases (h : advance mayRead mayWrite r point = some (r', next)) :
    Advance mayRead mayWrite r point r' next := by
  unfold advance at h
  simp only [Option.or_eq_some_iff] at h
  rcases h with h | ⟨-, h | ⟨-, h | ⟨-, h | ⟨-, h | ⟨-, h | ⟨-, h⟩⟩⟩⟩⟩⟩
  · exact install_cases h
  · exact remove_cases h
  · exact enterShardOperation_cases h
  · exact dispatchGuarded_cases h
  · exact admitOperation_cases h
  · exact failClosedShard_cases h
  · exact failClosedRuntime_cases h

end Cases

/-- A call gives its permit back. -/
inductive Drops : Point Result → ℕ → Point Result → Prop where
  | entered (route : RootRoute) (runtime : ℕ) : Drops (.entered route runtime) runtime (.released route)
  | executing (request : WorkspaceRpcRequest) (runtime : ℕ) :
    Drops (.executing request runtime) runtime (.finished request)
  | responding (request : WorkspaceRpcRequest) (response : WorkspaceRpcResponse Result) (runtime : ℕ) :
    Drops (.responding request response (some runtime)) runtime (.finished request)
  | failing (request : WorkspaceRpcRequest) (response : WorkspaceRpcResponse Result) (runtime : ℕ) :
    Drops (.failing request response runtime) runtime
      (.closing request.route.logicalShardId runtime .admission (some (request, response)))

/-- A call moves on and keeps what it holds. -/
inductive Moves (s : ServerState Result) (i : ℕ) :
    Action Result → Point Result → Registry → Point Result → Prop where
  | advance (point next : Point Result) (r : Registry)
      (h : Advance s.mayRead s.mayWrite s.registry point r next) : Moves s i (.advance i) point r next
  | execute (request : WorkspaceRpcRequest) (runtime : ℕ)
      (outcome : Except RpcFailure (ExecutedRequest Result)) :
    Moves s i (.execute i outcome) (.executing request runtime) s.registry
      (afterExecution request runtime outcome)
  | deliver (request : WorkspaceRpcRequest) (response : WorkspaceRpcResponse Result) :
    Moves s i (.drop i) (.responding request response none) s.registry (.finished request)
  | wake (shard : LogicalShardId) (runtime : ℕ)
      (after : Option (WorkspaceRpcRequest × WorkspaceRpcResponse Result)) :
    Moves s i (.wake i) (.closing shard runtime .asleep after) s.registry
      (.closing shard runtime .wait after)

/-- **What one step of the server does.** -/
inductive Stepped (s : ServerState Result) : Action Result → ServerState Result → Prop where
  | call (call : Call) : Stepped s (.call call) { s with calls := s.calls ++ [call.start] }
  | move (action : Action Result) (i : ℕ) (point next : Point Result) (r : Registry)
      (hpoint : s.calls[i]? = some point) (h : Moves s i action point r next) :
    Stepped s action (s.move i r next)
  | drop (action : Action Result) (i runtime : ℕ) (point next : Point Result)
      (hpoint : s.calls[i]? = some point) (h : Drops point runtime next) :
    Stepped s action (s.dropPermit i runtime next)
  | lose : Stepped s .lose { s with registry := { s.registry with lost := true } }

lemma step_cases {s s' : ServerState Result} {action : Action Result} (h : step s action = some s') :
    Stepped s action s' := by
  unfold step at h
  split at h
  next call =>
    cases h
    exact .call call
  next i =>
    split at h
    -- a failing request gives its permit back and then closes the shard
    next request response runtime hpoint =>
      cases h
      exact .drop _ i runtime _ _ hpoint (.failing request response runtime)
    next point _ hpoint =>
      obtain ⟨⟨r, next⟩, hadvance, heq⟩ := Option.map_eq_some_iff.1 h
      cases heq
      exact .move _ i point next r hpoint (.advance point next r (advance_cases hadvance))
    next => cases h
  next i outcome =>
    split at h <;> cases h
    exact .move _ i _ _ _ ‹_› (.execute _ _ outcome)
  next i =>
    split at h <;> cases h
    · exact .drop _ i _ _ _ ‹_› (.entered _ _)
    · exact .drop _ i _ _ _ ‹_› (.executing _ _)
    · exact .drop _ i _ _ _ ‹_› (.responding _ _ _)
    · exact .move _ i _ _ _ ‹_› (.deliver _ _)
  next i =>
    split at h <;> cases h
    exact .move _ i _ _ _ ‹_› (.wake _ _ _)
  next =>
    cases h
    exact .lose

/-! ### The invariant -/

namespace Registry

/-- The two tables agree about the gates. -/
structure Ok (r : Registry) : Prop where
  owner : ∀ root owner, r.owners.get root = some owner →
    r.runtimes.get owner.route.logicalShardId = some owner.runtime
  distinct : ∀ shard shard' runtime, r.runtimes.get shard = some runtime →
    r.runtimes.get shard' = some runtime → shard = shard'
  bounded : ∀ shard runtime, r.runtimes.get shard = some runtime → runtime < r.allocated

/-- What no step undoes. -/
structure Later (r r' : Registry) : Prop where
  runtime : ∀ shard runtime, r.runtimes.get shard = some runtime → r'.runtimes.get shard = some runtime
  closed : ∀ shard runtime, r.runtimes.get shard = some runtime → (r.gates runtime).closed = true →
    (r'.gates runtime).closed = true
  lost : r.lost = true → r'.lost = true

lemma setGate_gates (r : Registry) (runtime : ℕ) (gate : ShardRuntimeState) (other : ℕ) :
    (r.setGate runtime gate).gates other = if other = runtime then gate else r.gates other := by
  simp [setGate, Function.update_apply]

lemma Ok.setGate {r : Registry} (h : r.Ok) (runtime : ℕ) (gate : ShardRuntimeState) :
    (r.setGate runtime gate).Ok := ⟨h.owner, h.distinct, h.bounded⟩

lemma Later.refl (r : Registry) : Later r r := ⟨fun _ _ h => h, fun _ _ _ h => h, fun h => h⟩

lemma later_setGate {r : Registry} {runtime : ℕ} {gate : ShardRuntimeState}
    (h : (r.gates runtime).closed = true → gate.closed = true) : Later r (r.setGate runtime gate) := by
  refine ⟨fun _ _ h => h, fun shard other _ hclosed => ?_, fun h => h⟩
  rw [setGate_gates]
  split
  next heq => exact h (heq ▸ hclosed)
  next => exact hclosed

/-- What looking up the gate of a shard does. -/
structure Entry (r : Registry) (shard : LogicalShardId) (runtime : ℕ) (r' : Registry) : Prop where
  ok : r'.Ok
  later : Later r r'
  runtime : r'.runtimes.get shard = some runtime
  owners : r'.owners = r.owners
  lost : r'.lost = r.lost
  gates : ∀ other, r'.gates other = r.gates other ∨ (other = r.allocated ∧ r'.gates other = ⟨false, 0⟩)

lemma runtimeEntry_spec {r : Registry} (h : r.Ok) (shard : LogicalShardId) :
    Entry r shard (r.runtimeEntry shard).1 (r.runtimeEntry shard).2 := by
  unfold runtimeEntry
  split
  next runtime hruntime => exact ⟨h, .refl r, hruntime, rfl, rfl, fun _ => Or.inl rfl⟩
  next hnone =>
    -- a new runtime under a number that no shard has
    have hkept : ∀ other runtime, r.runtimes.get other = some runtime →
        (r.runtimes.insert shard r.allocated).get other = some runtime := by
      intro other runtime hother
      rw [OrdMap.get_insert, if_neg]
      · exact hother
      · rintro rfl
        rw [hnone] at hother
        cases hother
    have hold : ∀ other runtime, (r.runtimes.insert shard r.allocated).get other = some runtime →
        (other = shard ∧ runtime = r.allocated) ∨
          (r.runtimes.get other = some runtime ∧ runtime < r.allocated) := by
      intro other runtime hother
      exact (OrdMap.get_insert_cases hother).imp id fun hold => ⟨hold.2, h.bounded _ _ hold.2⟩
    refine ⟨⟨?_, ?_, ?_⟩, ⟨hkept, ?_, fun h => h⟩, OrdMap.get_insert_self .., rfl, rfl, ?_⟩
    · intro root owner howner
      exact hkept _ _ (h.owner root owner howner)
    · intro a b runtime ha hb
      rcases hold a runtime ha with ⟨rfl, rfl⟩ | ⟨ha, hlt⟩
      · rcases hold b _ hb with ⟨rfl, -⟩ | ⟨-, hlt⟩
        · rfl
        · omega
      · rcases hold b _ hb with ⟨-, rfl⟩ | ⟨hb, -⟩
        · omega
        · exact h.distinct a b runtime ha hb
    · intro other runtime hother
      show runtime < r.allocated + 1
      rcases hold other runtime hother with ⟨-, rfl⟩ | ⟨-, _⟩ <;> omega
    · intro other runtime hother hclosed
      have := h.bounded _ _ hother
      rw [setGate_gates, if_neg (by omega)]
      exact hclosed
    · intro other
      rw [setGate_gates]
      split
      next heq => exact Or.inr ⟨heq, rfl⟩
      next => exact Or.inl rfl

end Registry

namespace Point

/-- The gate a call refers to: the one of its permit, of the route it installs, or the one it closes. -/
def gate : Point Result → Option (LogicalShardId × ℕ)
  | installInsert route runtime => some (route.logicalShardId, runtime)
  | closing shard runtime _ _ => some (shard, runtime)
  | point => point.permit

/-- The shard whose route an installation is going to insert. -/
def installing : Point Result → Option LogicalShardId
  | installRuntime route => some route.logicalShardId
  | installInsert route _ => some route.logicalShardId
  | _ => none

/-- A response that is not protected by a permit, or will soon not be. -/
def unguarded : Point Result → Option (WorkspaceRpcResponse Result)
  | failing _ response _ => some response
  | closing _ _ _ after => after.map Prod.snd
  | responding _ response none => some response
  | _ => none

section

variable (runtime : ℕ) (point : Point Result)
include runtime point

@[simp] lemma permit_wake : (point.wake runtime).permit = point.permit := by
  unfold wake
  split <;> rfl

@[simp] lemma gate_wake : (point.wake runtime).gate = point.gate := by
  unfold wake
  split <;> rfl

@[simp] lemma installing_wake : (point.wake runtime).installing = point.installing := by
  unfold wake
  split <;> rfl

@[simp] lemma unguarded_wake : (point.wake runtime).unguarded = point.unguarded := by
  unfold wake
  split <;> rfl

end

lemma gate_of_permit {point : Point Result} {shard : LogicalShardId} {runtime : ℕ}
    (h : point.permit = some (shard, runtime)) : point.gate = some (shard, runtime) := by
  cases point <;> first | exact h | cases h

end Point

/-- How much a call counts on a gate. -/
def Point.counts (runtime : ℕ) (point : Point Result) : ℕ :=
  if point.permit.map Prod.snd = some runtime then 1 else 0

@[simp] lemma Point.counts_wake (runtime other : ℕ) (point : Point Result) :
    (point.wake runtime).counts other = point.counts other := by
  rw [Point.counts, Point.permit_wake]
  rfl

lemma Point.counts_of_permit_none {point : Point Result} (h : point.permit = none) (runtime : ℕ) :
    point.counts runtime = 0 := by
  simp [Point.counts, h]

lemma sum_map_set {α : Type} (f : α → ℕ) {l : List α} {i : ℕ} {a : α} (h : l[i]? = some a) (b : α) :
    ((l.set i b).map f).sum + f a = (l.map f).sum + f b := by
  induction l generalizing i with
  | nil => cases h
  | cons x l ih =>
    cases i with
    | zero =>
      cases h
      simp only [set_cons_zero, map_cons, sum_cons]
      omega
    | succ =>
      have := ih h
      simp only [set_cons_succ, map_cons, sum_cons]
      omega

section Advance

variable {mayRead mayWrite : Bool} {r r' : Registry} {point next : Point Result}

variable (h : Advance mayRead mayWrite r point r' next)
include h

lemma Advance.later (hok : r.Ok) : r.Later r' := by
  cases h with
  | installRuntime route | failRuntime shard => exact (Registry.runtimeEntry_spec hok _).later
  | admitted => exact Registry.later_setGate fun h => h
  | closeAdmission => exact Registry.later_setGate fun _ => rfl
  | failStart | failSignal | closeSignal => exact ⟨fun _ _ h => h, fun _ _ _ h => h, fun _ => rfl⟩
  | _ => exact ⟨fun _ _ h => h, fun _ _ _ h => h, fun h => h⟩

/-- A route in the table was there before, or the call inserts it. -/
lemma Advance.owner (hok : r.Ok) {root : RootId} {owner : RootOwner}
    (howner : r'.owners.get root = some owner) :
    r.owners.get root = some owner ∨ point = .installInsert owner.route owner.runtime := by
  cases h with
  | installRuntime route | failRuntime shard =>
    rw [(Registry.runtimeEntry_spec hok _).owners] at howner
    exact Or.inl howner
  | installInsert =>
    rcases OrdMap.get_insert_cases howner with ⟨-, rfl⟩ | ⟨-, howner⟩
    · exact Or.inr rfl
    · exact Or.inl howner
  | removed => exact Or.inl (OrdMap.get_of_get_erase howner)
  | closeRetain =>
    exact Or.inl (OrdMap.mem_rows.1 (mem_filter.1 (OrdMap.mem_rows.2 howner)).1)
  | _ => exact Or.inl howner

section

variable (hok : r.Ok)
  (hgate : ∀ shard runtime, point.gate = some (shard, runtime) → r.runtimes.get shard = some runtime)
include hok hgate

lemma Advance.ok : r'.Ok := by
  have howner : ∀ root owner, r'.owners.get root = some owner →
      r'.runtimes.get owner.route.logicalShardId = some owner.runtime := by
    intro root owner howner
    refine (h.later hok).runtime _ _ ?_
    rcases h.owner hok howner with hold | rfl
    · exact hok.owner root owner hold
    · exact hgate _ _ rfl
  cases h with
  | installRuntime route | failRuntime shard => exact (Registry.runtimeEntry_spec hok _).ok
  | _ => exact ⟨howner, hok.distinct, hok.bounded⟩

lemma Advance.gate {shard : LogicalShardId} {runtime : ℕ} (hnext : next.gate = some (shard, runtime)) :
    r'.runtimes.get shard = some runtime := by
  cases h with
  | installRuntime route | failRuntime shard =>
    cases hnext
    exact (Registry.runtimeEntry_spec hok _).runtime
  | admitted _ owner howner hroute =>
    cases hnext
    rw [← hroute]
    exact hok.owner _ _ howner
  | operationEntered | requestEntered | closeAdmission | closeSignal | closeRetain | closeDrained =>
    exact hgate _ _ hnext
  | closeAsleep => exact hgate _ _ hnext
  | _ => cases hnext

end

lemma Advance.counted (hok : r.Ok) (hfresh : (r.gates r.allocated).inFlight = 0) (runtime : ℕ) :
    (r'.gates runtime).inFlight + point.counts runtime =
      (r.gates runtime).inFlight + next.counts runtime := by
  have hentry : ∀ shard, ((r.runtimeEntry shard).2.gates runtime).inFlight = (r.gates runtime).inFlight := by
    intro shard
    rcases (Registry.runtimeEntry_spec hok shard).gates runtime with heq | ⟨rfl, heq⟩
    · rw [heq]
    · rw [heq, hfresh]
  cases h with
  | installRuntime route | failRuntime shard => exact congrArg (· + 0) (hentry _)
  | admitted _ owner =>
    rw [Registry.setGate_gates]
    by_cases heq : runtime = owner.runtime
    · subst heq
      simp [Point.counts, Point.permit]
    · have hne : owner.runtime ≠ runtime := fun h => heq h.symm
      simp [Point.counts, Point.permit, heq, hne]
  | closeAdmission =>
    simp only [Registry.closeAdmission, Registry.setGate_gates]
    split
    next heq =>
      subst heq
      rfl
    next => rfl
  | _ => rfl

lemma Advance.unguarded {response : WorkspaceRpcResponse Result} (hnext : next.unguarded = some response) :
    response.isOwnerLoss = true ∨ point.unguarded = some response := by
  cases h with
  | dispatchLost request other hloss | requestRefused request other hloss =>
    cases hnext
    exact Or.inl hloss
  | closeAdmission | closeSignal | closeRetain | closeDrained | closeAsleep | closeResponds =>
    exact Or.inr hnext
  | _ => cases hnext

/-- While the signal is raised, no route of a shard appears unless it was on its way before. -/
lemma Advance.routes (hok : r.Ok) (hlost : r.lost = true) {shard : LogicalShardId}
    (hpoint : point.installing ≠ some shard)
    (hroutes : ∀ root owner, r.owners.get root = some owner → owner.route.logicalShardId ≠ shard) :
    (∀ root owner, r'.owners.get root = some owner → owner.route.logicalShardId ≠ shard) ∧
      next.installing ≠ some shard := by
  refine ⟨fun root owner howner heq => ?_, fun hinstalling => ?_⟩
  · rcases h.owner hok howner with hold | rfl
    · exact hroutes root owner hold heq
    · exact hpoint (congrArg some heq)
  · cases h with
    | installAllowed _ hopen =>
      rw [hlost] at hopen
      cases hopen
    | installRuntime => exact hpoint hinstalling
    | _ => cases hinstalling

lemma Advance.counts_le (runtime : ℕ) : point.counts runtime ≤ next.counts runtime := by
  cases h <;> first | exact le_rfl | exact Nat.zero_le _

/-- Nothing enters a closed gate. -/
lemma Advance.counts_of_closed {runtime : ℕ} (hclosed : (r.gates runtime).closed = true) :
    next.counts runtime = point.counts runtime := by
  cases h with
  | admitted _ owner _ _ hopen =>
    have hne : owner.runtime ≠ runtime := by
      rintro rfl
      rw [hclosed] at hopen
      cases hopen
    simp [Point.counts, Point.permit, hne]
  | _ => rfl

end Advance

/-- The gate of a shard is closed for good: the signal is raised, no route of the shard is in the table
and none is on its way there. -/
structure Shut (s : ServerState Result) (shard : LogicalShardId) (runtime : ℕ) : Prop where
  entry : s.registry.runtimes.get shard = some runtime
  closed : (s.registry.gates runtime).closed = true
  lost : s.registry.lost = true
  routes : ∀ root owner, s.registry.owners.get root = some owner → owner.route.logicalShardId ≠ shard
  installs : ∀ point ∈ s.calls, point.installing ≠ some shard

/-- What a fail-closed call that has come to a stage has brought about. -/
def Reached (s : ServerState Result) (shard : LogicalShardId) (runtime : ℕ) : Stage → Prop
  | .admission => True
  | .signal => (s.registry.gates runtime).closed = true
  | .retain => (s.registry.gates runtime).closed = true ∧ s.registry.lost = true
  | .wait => Shut s shard runtime
  | .asleep => Shut s shard runtime ∧ (s.registry.gates runtime).inFlight ≠ 0
  | .drained => Shut s shard runtime ∧ (s.registry.gates runtime).inFlight = 0

structure Inv (s : ServerState Result) : Prop where
  ok : s.registry.Ok
  gate : ∀ point ∈ s.calls, ∀ shard runtime, point.gate = some (shard, runtime) →
    s.registry.runtimes.get shard = some runtime
  /-- a gate counts the permits that are held -/
  counted : ∀ runtime,
    (s.registry.gates runtime).inFlight = (s.calls.map (Point.counts runtime)).sum
  /-- a response without a permit is an owner-loss failure -/
  lossy : ∀ point ∈ s.calls, ∀ response, point.unguarded = some response → response.isOwnerLoss = true
  reached : ∀ shard runtime stage after, Point.closing shard runtime stage after ∈ s.calls →
    Reached s shard runtime stage

lemma inv_init : Inv (ServerState.init : ServerState Result) where
  ok := ⟨fun _ _ h => (by cases h), fun _ _ _ h => (by cases h), fun _ _ h => (by cases h)⟩
  gate := fun _ h => (by cases h)
  counted := fun _ => rfl
  lossy := fun _ h => (by cases h)
  reached := fun _ _ _ _ h => (by cases h)

section Inv

variable {s s' : ServerState Result} {mayRead mayWrite : Bool} {r r' : Registry} {point next : Point Result}
  {action : Action Result} {i runtime : ℕ} {shard : LogicalShardId} {stage : Stage}
  {after : Option (WorkspaceRpcRequest × WorkspaceRpcResponse Result)} {other : ℕ}

/-- No permit counts on a gate that does not exist yet. -/
lemma Inv.fresh (h : Inv s) : (s.registry.gates s.registry.allocated).inFlight = 0 := by
  rw [h.counted, List.sum_eq_zero_iff_forall_eq_nat]
  intro n hn
  obtain ⟨point, hpoint, rfl⟩ := mem_map.1 hn
  unfold Point.counts
  rw [if_neg]
  intro heq
  obtain ⟨⟨shard, runtime⟩, hpermit, heq : runtime = s.registry.allocated⟩ := Option.map_eq_some_iff.1 heq
  have := h.ok.bounded _ _ (h.gate point hpoint _ _ (Point.gate_of_permit hpermit))
  omega

/-- What is reached stays reached; a sleeper stays asleep while something is in flight. -/
lemma Reached.keep (h : Reached s shard runtime stage)
    (hgate : s.registry.runtimes.get shard = some runtime) (hlater : s.registry.Later s'.registry)
    (hshut : Shut s shard runtime → Shut s' shard runtime)
    (hflight : (s.registry.gates runtime).closed = true →
      (s'.registry.gates runtime).inFlight ≤ (s.registry.gates runtime).inFlight)
    (hasleep : stage = .asleep → (s'.registry.gates runtime).inFlight ≠ 0) :
    Reached s' shard runtime stage := by
  cases stage with
  | admission => trivial
  | signal => exact hlater.closed _ _ hgate h
  | retain => exact ⟨hlater.closed _ _ hgate h.1, hlater.lost h.2⟩
  | wait => exact hshut h
  | asleep => exact ⟨hshut h.1, hasleep rfl⟩
  | drained =>
    have := hflight h.1.closed
    exact ⟨hshut h.1, by have := h.2; omega⟩

/-- What a step of one call does to the registry and to the call. -/
structure PointStep (r : Registry) (point : Point Result) (r' : Registry) (next : Point Result) : Prop where
  ok : r'.Ok
  later : r.Later r'
  gate : ∀ shard runtime, next.gate = some (shard, runtime) → r'.runtimes.get shard = some runtime
  counted : ∀ runtime,
    (r'.gates runtime).inFlight + point.counts runtime = (r.gates runtime).inFlight + next.counts runtime
  keeps : ∀ runtime, point.counts runtime ≤ next.counts runtime
  lossy : ∀ response, next.unguarded = some response → response.isOwnerLoss = true
  routes : r.lost = true → ∀ shard, point.installing ≠ some shard →
    (∀ root owner, r.owners.get root = some owner → owner.route.logicalShardId ≠ shard) →
    (∀ root owner, r'.owners.get root = some owner → owner.route.logicalShardId ≠ shard) ∧
      next.installing ≠ some shard
  flight : ∀ runtime, (r.gates runtime).closed = true →
    (r'.gates runtime).inFlight ≤ (r.gates runtime).inFlight

/-- The registry stays and the call goes on with the permit it has. -/
lemma pointStep_of_same (hok : r.Ok)
    (hgate : ∀ shard runtime, next.gate = some (shard, runtime) → r.runtimes.get shard = some runtime)
    (hpermit : next.permit = point.permit)
    (hlossy : ∀ response, next.unguarded = some response → response.isOwnerLoss = true)
    (hinstalling : next.installing = none) :
    PointStep r point r next where
  ok := hok
  later := .refl r
  gate := hgate
  counted := fun runtime => by rw [Point.counts, Point.counts, hpermit]
  keeps := fun runtime => by rw [Point.counts, Point.counts, hpermit]
  lossy := hlossy
  routes := fun _ shard _ hroutes => ⟨hroutes, by rw [hinstalling]; exact fun h => by cases h⟩
  flight := fun _ _ => le_rfl

lemma Advance.pointStep (h : Advance mayRead mayWrite r point r' next) (hok : r.Ok)
    (hgate : ∀ shard runtime, point.gate = some (shard, runtime) → r.runtimes.get shard = some runtime)
    (hlossy : ∀ response, point.unguarded = some response → response.isOwnerLoss = true)
    (hfresh : (r.gates r.allocated).inFlight = 0) :
    PointStep r point r' next where
  ok := h.ok hok hgate
  later := h.later hok
  gate := fun _ _ => h.gate hok hgate
  counted := h.counted hok hfresh
  keeps := h.counts_le
  lossy := fun response hnext => (h.unguarded hnext).elim id (hlossy response)
  routes := fun hlost _ hpoint hroutes => h.routes hok hlost hpoint hroutes
  flight := fun runtime hclosed => by
    have := h.counted hok hfresh runtime
    have := h.counts_of_closed hclosed
    omega

lemma Shut.move (hshut : Shut s shard runtime) (hpoint : s.calls[i]? = some point)
    (hstep : PointStep s.registry point r' next) : Shut (s.move i r' next) shard runtime := by
  have hnew := hstep.routes hshut.lost shard (hshut.installs point (mem_of_getElem? hpoint))
    hshut.routes
  refine ⟨hstep.later.runtime _ _ hshut.entry, hstep.later.closed _ _ hshut.entry hshut.closed,
    hstep.later.lost hshut.lost, hnew.1, fun q hq => ?_⟩
  rcases mem_or_eq_of_mem_set hq with hq | rfl
  · exact hshut.installs q hq
  · exact hnew.2

/-- A call that moves on keeps the invariant, if it has brought about what it now claims. -/
lemma Inv.move (hinv : Inv s) (hpoint : s.calls[i]? = some point)
    (hstep : PointStep s.registry point r' next)
    (hnext : ∀ shard runtime stage after, next = .closing shard runtime stage after →
      Reached (s.move i r' next) shard runtime stage) :
    Inv (s.move i r' next) where
  ok := hstep.ok
  gate := by
    intro q hq shard runtime hgate
    rcases mem_or_eq_of_mem_set hq with hq | rfl
    · exact hstep.later.runtime _ _ (hinv.gate q hq shard runtime hgate)
    · exact hstep.gate shard runtime hgate
  counted := by
    intro runtime
    -- the gate counts what the move takes, and the other calls hold what they held
    have hsum := sum_map_set (Point.counts runtime) hpoint next
    have hcount := hstep.counted runtime
    have hold := hinv.counted runtime
    show (r'.gates runtime).inFlight = ((s.calls.set i next).map (Point.counts runtime)).sum
    omega
  lossy := by
    intro q hq response hresponse
    rcases mem_or_eq_of_mem_set hq with hq | rfl
    · exact hinv.lossy q hq response hresponse
    · exact hstep.lossy response hresponse
  reached := by
    intro shard runtime stage after hq
    rcases mem_or_eq_of_mem_set hq with hq | heq
    · have hgate := hinv.gate _ hq shard runtime rfl
      have hreached := hinv.reached shard runtime stage after hq
      refine hreached.keep hgate hstep.later (fun h => h.move hpoint hstep) (hstep.flight runtime) ?_
      -- a move gives no permit back, so what a closer sleeps on is still in flight
      rintro rfl
      have hcount := hstep.counted runtime
      have hkeeps := hstep.keeps runtime
      have := hreached.2
      show (r'.gates runtime).inFlight ≠ 0
      omega
    · exact hnext shard runtime stage after heq.symm

lemma installing_of_mayWrite (h : s.mayWrite = true) {point : Point Result} (hpoint : point ∈ s.calls) :
    point.installing = none := by
  have hfree := all_eq_true.1 h point hpoint
  cases point <;> first | rfl | cases hfree

/-- A call that closes a gate has brought about what its next stage says. -/
lemma Advance.reached (hinv : Inv s) (hpoint : s.calls[i]? = some point)
    (h : Advance s.mayRead s.mayWrite s.registry point r' next)
    (hnext : next = .closing shard runtime stage after) : Reached (s.move i r' next) shard runtime stage := by
  have hmem := mem_of_getElem? hpoint
  have hstep := h.pointStep hinv.ok (hinv.gate _ hmem) (hinv.lossy _ hmem) hinv.fresh
  cases h with
  | failRuntime =>
    cases hnext
    trivial
  | closeAdmission =>
    cases hnext
    show ((s.registry.closeAdmission runtime).gates runtime).closed = true
    rw [Registry.closeAdmission, Registry.setGate_gates, if_pos rfl]
  | closeSignal =>
    cases hnext
    exact ⟨hinv.reached _ _ _ _ hmem, rfl⟩
  | closeRetain _ _ _ hfree =>
    cases hnext
    have hreached := hinv.reached _ _ _ _ hmem
    -- no root of the shard is left in the registry, and none is being installed
    refine ⟨hinv.gate _ hmem _ _ rfl, hreached.1, hreached.2, fun root owner howner => ?_, fun q hq => ?_⟩
    · have hkept := (mem_filter.1 (OrdMap.mem_rows.2 howner)).2
      exact of_decide_eq_true hkept
    · rcases mem_or_eq_of_mem_set hq with hq | rfl
      · rw [installing_of_mayWrite hfree hq]
        exact fun heq => by cases heq
      · exact fun heq => by cases heq
  | closeDrained _ _ _ hempty =>
    cases hnext
    -- the drain waits behind the removal
    have hshut : Shut s shard runtime := hinv.reached _ _ _ _ hmem
    exact ⟨hshut.move hpoint hstep, hempty⟩
  | closeAsleep _ _ _ hbusy =>
    cases hnext
    have hshut : Shut s shard runtime := hinv.reached _ _ _ _ hmem
    exact ⟨hshut.move hpoint hstep, hbusy⟩
  | _ => cases hnext

/-! ### Dropping a permit -/

lemma dropPermit_registry (i runtime : ℕ) (next : Point Result) :
    (s.dropPermit i runtime next).registry = s.registry.leave runtime := by
  unfold ServerState.dropPermit
  simp only
  split <;> rfl

/-- The calls after a permit was dropped: the sleepers of a closed gate are awake if it was the last. -/
lemma dropPermit_calls (i runtime : ℕ) (next : Point Result) :
    (((s.registry.leave runtime).gates runtime).closed = true ∧
        ((s.registry.leave runtime).gates runtime).inFlight = 0 ∧
        (s.dropPermit i runtime next).calls = (s.calls.set i next).map (Point.wake runtime)) ∨
      (¬ (((s.registry.leave runtime).gates runtime).closed = true ∧
        ((s.registry.leave runtime).gates runtime).inFlight = 0) ∧
        (s.dropPermit i runtime next).calls = s.calls.set i next) := by
  unfold ServerState.dropPermit
  simp only
  split
  next h => exact Or.inl ⟨h.1, h.2, rfl⟩
  next h => exact Or.inr ⟨h, rfl⟩

lemma mem_dropPermit {next q : Point Result} (hq : q ∈ (s.dropPermit i runtime next).calls) :
    ∃ q₀, (q₀ ∈ s.calls ∨ q₀ = next) ∧ q.gate = q₀.gate ∧ q.installing = q₀.installing ∧
      q.unguarded = q₀.unguarded := by
  rcases dropPermit_calls (s := s) i runtime next with ⟨-, -, heq⟩ | ⟨-, heq⟩
  · rw [heq] at hq
    obtain ⟨q₀, hq₀, rfl⟩ := mem_map.1 hq
    exact ⟨q₀, mem_or_eq_of_mem_set hq₀, by simp⟩
  · rw [heq] at hq
    exact ⟨q, mem_or_eq_of_mem_set hq, rfl, rfl, rfl⟩

lemma sum_dropPermit (f : Point Result → ℕ) (hf : ∀ runtime point, f (point.wake runtime) = f point)
    (i runtime : ℕ) (next : Point Result) :
    ((s.dropPermit i runtime next).calls.map f).sum = ((s.calls.set i next).map f).sum := by
  rcases dropPermit_calls (s := s) i runtime next with ⟨-, -, heq⟩ | ⟨-, heq⟩
  · rw [heq, map_map]
    exact congrArg List.sum (map_congr_left fun point _ => hf runtime point)
  · rw [heq]

lemma leave_gates (r : Registry) (runtime other : ℕ) :
    (r.leave runtime).gates other =
      if other = runtime then { r.gates runtime with inFlight := (r.gates runtime).inFlight - 1 }
      else r.gates other := by
  rw [Registry.leave, Registry.setGate_gates]

lemma leave_inFlight_le (r : Registry) (runtime other : ℕ) :
    ((r.leave runtime).gates other).inFlight ≤ (r.gates other).inFlight := by
  rw [leave_gates]
  split
  next heq =>
    subst heq
    exact Nat.sub_le _ _
  next => exact le_rfl

lemma later_leave (r : Registry) (runtime : ℕ) : r.Later (r.leave runtime) :=
  Registry.later_setGate fun h => h

section

variable (h : Drops point runtime next)
include h

lemma Drops.permit :
    (∃ shard, point.permit = some (shard, runtime)) ∧ next.permit = none ∧ next.installing = none := by
  cases h <;> exact ⟨⟨_, rfl⟩, rfl, rfl⟩

/-- A call that drops its permit stands at no stage, or before it closes the gate it counted on. -/
lemma Drops.closing (hnext : next = .closing shard other stage after) : stage = .admission := by
  cases h <;> cases hnext
  rfl

lemma Drops.gate (hnext : next.gate = some (shard, other)) : point.gate = some (shard, other) := by
  cases h <;> cases hnext
  rfl

lemma Drops.unguarded {response : WorkspaceRpcResponse Result} (hnext : next.unguarded = some response) :
    point.unguarded = some response := by
  cases h <;> cases hnext
  rfl

end

lemma Shut.dropPermit (hshut : Shut s shard runtime) {i : ℕ} (hdrop : Drops point other next) :
    Shut (s.dropPermit i other next) shard runtime := by
  have hlater := later_leave s.registry other
  rw [← dropPermit_registry i other next] at hlater
  refine ⟨hlater.runtime _ _ hshut.entry, hlater.closed _ _ hshut.entry hshut.closed,
    hlater.lost hshut.lost, ?_, fun q hq => ?_⟩
  · rw [dropPermit_registry]
    exact hshut.routes
  · obtain ⟨q₀, hq₀, -, hsame, -⟩ := mem_dropPermit hq
    rw [hsame]
    rcases hq₀ with hq₀ | rfl
    · exact hshut.installs q₀ hq₀
    · rw [hdrop.permit.2.2]
      exact fun heq => by cases heq

lemma Point.wake_eq_closing {point : Point Result} {runtime : ℕ}
    (h : point.wake runtime = .closing shard other stage after) :
    (point = .closing shard other stage after ∧ ¬ (stage = .asleep ∧ other = runtime)) ∨
      (point = .closing shard other .asleep after ∧ stage = .wait) := by
  unfold wake at h
  split at h
  next shard' runtime' after' =>
    split at h
    next heq =>
      cases h
      exact Or.inr ⟨rfl, rfl⟩
    next hne =>
      cases h
      exact Or.inl ⟨rfl, fun h => hne h.2⟩
  next hawake =>
    subst h
    refine Or.inl ⟨rfl, ?_⟩
    rintro ⟨rfl, -⟩
    exact hawake _ _ _ rfl

/-- The sleepers of a gate are awake before the gate is seen empty. -/
lemma Inv.reached_dropPermit (hinv : Inv s) (hdrop : Drops point runtime next)
    (hq : .closing shard other stage after ∈ (s.dropPermit i runtime next).calls) :
    Reached (s.dropPermit i runtime next) shard other stage := by
  have hlater := later_leave s.registry runtime
  rw [← dropPermit_registry i runtime next] at hlater
  have hflight : ((s.dropPermit i runtime next).registry.gates other).inFlight ≤
      (s.registry.gates other).inFlight := by
    rw [dropPermit_registry]
    exact leave_inFlight_le _ _ _
  -- a call that stood at this stage before, and is not the last sleeper of the gate
  have hkeep : Point.closing shard other stage after ∈ s.calls.set i next →
      (stage = .asleep → other = runtime →
        ((s.registry.leave runtime).gates runtime).inFlight ≠ 0) →
      Reached (s.dropPermit i runtime next) shard other stage := by
    intro hold hawake
    rcases mem_or_eq_of_mem_set hold with hold | hnext
    · have hreached := hinv.reached _ _ _ _ hold
      refine hreached.keep (hinv.gate _ hold _ _ rfl) hlater (fun h => h.dropPermit hdrop)
        (fun _ => hflight) ?_
      rintro rfl
      rw [dropPermit_registry]
      by_cases heq : other = runtime
      · rw [heq]
        exact hawake rfl heq
      · rw [leave_gates, if_neg heq]
        exact hreached.2
    · rw [hdrop.closing hnext.symm]
      trivial
  -- the last permit wakes the sleepers of its gate, another one wakes nobody
  rcases dropPermit_calls (s := s) i runtime next with ⟨-, -, hcalls⟩ | ⟨hnot, hcalls⟩
  · rw [hcalls] at hq
    obtain ⟨_, hq₀, hwake⟩ := mem_map.1 hq
    rcases Point.wake_eq_closing hwake with ⟨rfl, hawake⟩ | ⟨rfl, rfl⟩
    · exact hkeep hq₀ fun hasleep heq => absurd ⟨hasleep, heq⟩ hawake
    · rcases mem_or_eq_of_mem_set hq₀ with hold | hnext
      · exact (hinv.reached _ _ _ _ hold).1.dropPermit hdrop
      · cases hdrop.closing hnext.symm
  · rw [hcalls] at hq
    refine hkeep hq fun hasleep heq hempty => hnot ⟨?_, hempty⟩
    subst hasleep heq
    rcases mem_or_eq_of_mem_set hq with hold | hnext
    · have hclosed := (hinv.reached _ _ _ _ hold).1.closed
      rw [leave_gates, if_pos rfl]
      exact hclosed
    · cases hdrop.closing hnext.symm

lemma Inv.dropPermit (hinv : Inv s) (hpoint : s.calls[i]? = some point) (hdrop : Drops point runtime next) :
    Inv (s.dropPermit i runtime next) := by
  have hmem := mem_of_getElem? hpoint
  have hlater := later_leave s.registry runtime
  refine ⟨?_, fun q hq shard other hgate => ?_, fun other => ?_, fun q hq response hresponse => ?_,
    fun shard other stage after hq => ?_⟩
  · rw [dropPermit_registry]
    exact hinv.ok.setGate _ _
  · rw [dropPermit_registry]
    obtain ⟨q₀, hq₀, hsame, -⟩ := mem_dropPermit hq
    rw [hsame] at hgate
    rcases hq₀ with hq₀ | rfl
    · exact hinv.gate q₀ hq₀ shard other hgate
    · exact hinv.gate point hmem shard other (hdrop.gate hgate)
  · -- the count of the gate and the permits held both drop by one
    rw [sum_dropPermit _ (fun _ _ => Point.counts_wake _ _ _), dropPermit_registry, leave_gates]
    have hsum := sum_map_set (Point.counts other) hpoint next
    have hold := hinv.counted other
    obtain ⟨⟨_, hpermit⟩, hnone, -⟩ := hdrop.permit
    have hcounts : point.counts other = if other = runtime then 1 else 0 := by
      simp [Point.counts, hpermit, eq_comm]
    rw [Point.counts_of_permit_none hnone, hcounts] at hsum
    split
    next heq =>
      subst heq
      rw [if_pos rfl] at hsum
      simp only
      omega
    next heq =>
      rw [if_neg heq] at hsum
      omega
  · obtain ⟨q₀, hq₀, -, -, hsame⟩ := mem_dropPermit hq
    rw [hsame] at hresponse
    rcases hq₀ with hq₀ | rfl
    · exact hinv.lossy q₀ hq₀ response hresponse
    · exact hinv.lossy point hmem response (hdrop.unguarded hresponse)
  · exact hinv.reached_dropPermit hdrop hq

/-! ### The other steps -/

lemma Call.start_quiet (call : Call) :
    (call.start : Point Result).gate = none ∧ (call.start : Point Result).permit = none ∧
      (call.start : Point Result).unguarded = none ∧ (call.start : Point Result).installing = none := by
  cases call <;> exact ⟨rfl, rfl, rfl, rfl⟩

lemma Shut.call (hshut : Shut s shard runtime) (call : Call) :
    Shut { s with calls := s.calls ++ [call.start] } shard runtime := by
  refine ⟨hshut.entry, hshut.closed, hshut.lost, hshut.routes, fun q hq => ?_⟩
  rcases mem_append.1 hq with hq | hq
  · exact hshut.installs q hq
  · cases mem_singleton.1 hq
    rw [(Call.start_quiet call).2.2.2]
    exact fun heq => by cases heq

lemma Inv.call (hinv : Inv s) (call : Call) : Inv { s with calls := s.calls ++ [call.start] } := by
  obtain ⟨hgate, hpermit, hunguarded, -⟩ := @Call.start_quiet Result call
  have hmem : ∀ q ∈ s.calls ++ [call.start], q ∈ s.calls ∨ q = call.start := by
    intro q hq
    rcases mem_append.1 hq with hq | hq
    · exact Or.inl hq
    · exact Or.inr (mem_singleton.1 hq)
  refine ⟨hinv.ok, fun q hq shard runtime h => ?_, fun runtime => ?_, fun q hq response h => ?_,
    fun shard runtime stage after hq => ?_⟩
  · rcases hmem q hq with hq | rfl
    · exact hinv.gate q hq shard runtime h
    · rw [hgate] at h
      cases h
  · rw [map_append, sum_append, map_singleton, sum_singleton,
      Point.counts_of_permit_none hpermit, Nat.add_zero]
    exact hinv.counted runtime
  · rcases hmem q hq with hq | rfl
    · exact hinv.lossy q hq response h
    · rw [hunguarded] at h
      cases h
  · rcases hmem _ hq with hq | heq
    · have hreached := hinv.reached _ _ _ _ hq
      refine hreached.keep (hinv.gate _ hq _ _ rfl) (.refl _) (fun h => h.call call) (fun _ => le_rfl) ?_
      rintro rfl
      exact hreached.2
    · rw [← heq] at hgate
      cases hgate

lemma Shut.lose (hshut : Shut s shard runtime) :
    Shut { s with registry := { s.registry with lost := true } } shard runtime :=
  ⟨hshut.entry, hshut.closed, rfl, hshut.routes, hshut.installs⟩

lemma Inv.lose (hinv : Inv s) : Inv { s with registry := { s.registry with lost := true } } := by
  refine ⟨⟨hinv.ok.owner, hinv.ok.distinct, hinv.ok.bounded⟩, hinv.gate, hinv.counted, hinv.lossy,
    fun shard runtime stage after hq => ?_⟩
  have hreached := hinv.reached _ _ _ _ hq
  refine hreached.keep (hinv.gate _ hq _ _ rfl) ⟨fun _ _ h => h, fun _ _ _ h => h, fun _ => rfl⟩
    (fun h => h.lose) (fun _ => le_rfl) ?_
  rintro rfl
  exact hreached.2

/-- What an executor answers does not change what its dispatch holds. -/
lemma afterExecution_spec (request : WorkspaceRpcRequest) (runtime : ℕ)
    (outcome : Except RpcFailure (ExecutedRequest Result)) :
    (afterExecution request runtime outcome).gate = some (request.route.logicalShardId, runtime) ∧
      (afterExecution request runtime outcome).permit = some (request.route.logicalShardId, runtime) ∧
      (afterExecution request runtime outcome).installing = none ∧
      ∀ response, (afterExecution request runtime outcome).unguarded = some response →
        response.isOwnerLoss = true := by
  unfold afterExecution
  simp only
  split
  next hloss =>
    refine ⟨rfl, rfl, rfl, fun response h => ?_⟩
    cases h
    exact hloss
  next => exact ⟨rfl, rfl, rfl, fun response h => by cases h⟩

section

variable (hinv : Inv s) (hpoint : s.calls[i]? = some point) (h : Moves s i action point r next)
include hinv hpoint h

lemma Moves.pointStep : PointStep s.registry point r next := by
  have hmem := mem_of_getElem? hpoint
  have hgate := hinv.gate _ hmem
  have hlossy := hinv.lossy _ hmem
  cases h with
  | advance _ _ _ hadvance => exact hadvance.pointStep hinv.ok hgate hlossy hinv.fresh
  | execute request runtime outcome =>
    obtain ⟨hnext, hpermit, hinstalling, hnew⟩ := afterExecution_spec request runtime outcome
    refine pointStep_of_same hinv.ok (fun shard other h => ?_) hpermit hnew hinstalling
    rw [hnext] at h
    exact hgate shard other h
  | deliver =>
    exact pointStep_of_same hinv.ok (fun _ _ h => by cases h) rfl (fun _ h => by cases h) rfl
  | wake shard =>
    exact pointStep_of_same hinv.ok (fun shard other h => hgate shard other h) rfl
      (fun response h => hlossy response h) rfl

/-- Whatever moves a call to a stage has brought about what the stage says. -/
lemma Moves.reached (hnext : next = .closing shard runtime stage after) :
    Reached (s.move i r next) shard runtime stage := by
  have hstep := h.pointStep hinv hpoint
  cases h with
  | advance _ _ _ hadvance => exact hadvance.reached hinv hpoint hnext
  | execute request other outcome =>
    have hpermit := (afterExecution_spec request other outcome).2.1
    rw [hnext] at hpermit
    cases hpermit
  | deliver => cases hnext
  | wake =>
    cases hnext
    exact (hinv.reached _ _ _ _ (mem_of_getElem? hpoint)).1.move hpoint hstep

end

lemma Inv.step (hinv : Inv s) (h : step s action = some s') : Inv s' := by
  cases step_cases h with
  | call call => exact hinv.call call
  | move _ _ _ _ _ hpoint hmoves =>
    exact hinv.move hpoint (hmoves.pointStep hinv hpoint) fun _ _ _ _ => hmoves.reached hinv hpoint
  | drop _ _ _ _ _ hpoint hdrop => exact hinv.dropPermit hpoint hdrop
  | lose => exact hinv.lose

lemma Shut.step (hshut : Shut s shard runtime) (hinv : Inv s) (h : Server.step s action = some s') :
    Shut s' shard runtime := by
  cases step_cases h with
  | call call => exact hshut.call call
  | move _ _ _ _ _ hpoint hmoves => exact hshut.move hpoint (hmoves.pointStep hinv hpoint)
  | drop _ _ _ _ _ _ hdrop => exact hshut.dropPermit hdrop
  | lose => exact hshut.lose

lemma step_inFlight_le (hinv : Inv s) (h : Server.step s action = some s')
    (hclosed : (s.registry.gates runtime).closed = true) :
    (s'.registry.gates runtime).inFlight ≤ (s.registry.gates runtime).inFlight := by
  cases step_cases h with
  | call => exact le_rfl
  | move _ _ _ _ _ hpoint hmoves => exact (hmoves.pointStep hinv hpoint).flight runtime hclosed
  | drop _ =>
    rw [dropPermit_registry]
    exact leave_inFlight_le _ _ _
  | lose => exact le_rfl

end Inv

end NoKV.Server
