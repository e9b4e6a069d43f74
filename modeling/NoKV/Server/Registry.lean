import NoKV.Control.Types
import NoKV.Lib.Fair

/-!
# The registry of root owners

A server keeps the routes it owns in a table, one admission gate per logical shard in a second table, and
one owner-loss signal for the whole process. Any number of calls run on it at once:

* `install` and `remove` change the route table;
* `enterShardOperation` and `dispatchGuarded` admit an operation: it counts as in flight on its shard
  until its permit is dropped, for a request when the response has been delivered;
* `failClosedShard`, and a dispatch whose executor lost the shard (`failClosedRuntime`), close admission,
  remove the routes of the shard and wait until nothing is in flight.

A call stands at a `Point` between two accesses to shared data. A section that touches nothing but the
data its own lock protects is one step. The sections of the route table that touch something else as
well are split at each such access, and a call that stands inside one holds the lock, so who holds the
lock is read off the points (`mayRead`, `mayWrite`). The wait for the gate sleeps on a condition variable
and is woken by the last permit, or for no reason.

No code that runs under a lock panics, so no lock is ever poisoned. What an executor answers, and when,
is open.
-/

namespace NoKV.Server

open Lib Control

/-! ### Routes and responses -/

/-- The complete fence of one root: its shard, its placement and the epoch of its owner. -/
structure RootRoute where
  rootId : RootId
  logicalShardId : LogicalShardId
  objectNamespaceId : ObjectNamespaceId
  placementGeneration : UInt64
  ownerEpoch : UInt64
  deriving DecidableEq

inductive ServerError where
  | invalidRoute (reason : String)
  | routeRollback (reason : String)
  | control (error : ControlError)
  deriving DecidableEq

/-- The two counters of a route are not zero. -/
def RootRoute.validate (route : RootRoute) : Except ServerError Unit := do
  refuseIf (route.placementGeneration = 0)
    (ServerError.invalidRoute
      "invalid RPC field route.placement_generation: PlacementGeneration must be non-zero")
  refuseIf (route.ownerEpoch = 0)
    (ServerError.invalidRoute "invalid RPC field route.owner_epoch: OwnerEpoch must be non-zero")

inductive ErrorCode where
  | invalidArgument
  | notFound
  | alreadyExists
  | conflict
  | preconditionFailed
  | requestReplayMismatch
  | notOwner
  | snapshotExpired
  | snapshotReaped
  | commitRetiring
  | operationFailed
  | objectUnavailable
  | quarantined
  | resourceExhausted
  | unauthenticated
  | permissionDenied
  | internal
  deriving DecidableEq, Repr

inductive ConflictKind where
  | workspace
  | pathGeneration
  | commitHead
  | readVersion
  | snapshotLifecycle
  | operationState
  | rootPlacement
  | workspaceIncarnation
  deriving DecidableEq, Repr

structure RpcFailure where
  code : ErrorCode
  message : String
  retryable : Bool
  conflict : Option ConflictKind
  currentGeneration : Option UInt64
  routeHint : Option RootRoute
  deriving DecidableEq

/-- The failure that tells a client that the server does not own the root. -/
def RpcFailure.isOwnerLoss (failure : RpcFailure) : Bool :=
  failure.code = .notOwner && failure.conflict = some .rootPlacement

/-- A request, as far as the registry reads it. -/
structure WorkspaceRpcRequest where
  route : RootRoute
  requestId : RequestId
  deriving DecidableEq

/-- What an executor answers when it succeeds. -/
structure ExecutedRequest (Result : Type) where
  result : Result
  commitVersion : Option UInt64
  replayed : Bool

structure WorkspaceRpcResponse (Result : Type) where
  route : RootRoute
  requestId : RequestId
  commitVersion : Option UInt64
  replayed : Bool
  outcome : Except RpcFailure Result

variable {Result : Type}

/-- The refusal of a request whose root the server does not own. -/
def notOwnerResponse (request : WorkspaceRpcRequest) (routeHint : Option RootRoute) (message : String) :
    WorkspaceRpcResponse Result where
  route := routeHint.getD request.route
  requestId := request.requestId
  commitVersion := none
  replayed := false
  outcome := .error
    { code := .notOwner
      message := message
      retryable := true
      conflict := some .rootPlacement
      currentGeneration := none
      routeHint := routeHint }

/-- The response made of an executor's answer. -/
def executedResponse (request : WorkspaceRpcRequest) :
    Except RpcFailure (ExecutedRequest Result) → WorkspaceRpcResponse Result
  | .ok executed =>
    ⟨request.route, request.requestId, executed.commitVersion, executed.replayed, .ok executed.result⟩
  | .error failure => ⟨request.route, request.requestId, none, false, .error failure⟩

/-- The response tells the client that the server does not own the root. -/
def WorkspaceRpcResponse.isOwnerLoss (response : WorkspaceRpcResponse Result) : Bool :=
  match response.outcome with
  | .ok _ => false
  | .error failure => failure.isOwnerLoss

/-! ### Shared data -/

/-- The admission gate of one shard. -/
structure ShardRuntimeState where
  closed : Bool
  inFlight : ℕ

/-- One row of the route table. The gate is named by its address. -/
structure RootOwner where
  route : RootRoute
  runtime : ℕ

/-- The registry without its locks. -/
structure Registry where
  owners : OrdMap RootId RootOwner
  runtimes : OrdMap LogicalShardId ℕ
  /-- the gates by address; those below `allocated` exist -/
  gates : ℕ → ShardRuntimeState
  allocated : ℕ
  lost : Bool
  controlError : Option ControlError

def Registry.init : Registry := ⟨.empty, .empty, fun _ => ⟨false, 0⟩, 0, false, none⟩

namespace Registry

def setGate (r : Registry) (runtime : ℕ) (gate : ShardRuntimeState) : Registry :=
  { r with gates := Function.update r.gates runtime gate }

/-- The address of a shard's gate; a shard that has none gets a new one. -/
def runtimeEntry (r : Registry) (shard : LogicalShardId) : ℕ × Registry :=
  match r.runtimes.get shard with
  | some runtime => (runtime, r)
  | none =>
    (r.allocated,
      { r.setGate r.allocated ⟨false, 0⟩ with
        runtimes := r.runtimes.insert shard r.allocated
        allocated := r.allocated + 1 })

/-- Count one operation in, unless the gate is closed. -/
def enter (r : Registry) (runtime : ℕ) : Option Registry :=
  if (r.gates runtime).closed then none
  else some (r.setGate runtime { r.gates runtime with inFlight := (r.gates runtime).inFlight + 1 })

def closeAdmission (r : Registry) (runtime : ℕ) : Registry :=
  r.setGate runtime { r.gates runtime with closed := true }

def leave (r : Registry) (runtime : ℕ) : Registry :=
  r.setGate runtime { r.gates runtime with inFlight := (r.gates runtime).inFlight - 1 }

/-- Remove the routes of a shard. -/
def retainOthers (r : Registry) (shard : LogicalShardId) : Registry :=
  { r with
    owners :=
      ⟨r.owners.rows.filter fun row => row.2.route.logicalShardId ≠ shard, r.owners.sorted.filter _⟩ }

/-- Whether a route may replace the one that is there. -/
def checkRollback (r : Registry) (route : RootRoute) : Except ServerError Unit :=
  ifSome (r.owners.get route.rootId) fun current => do
    refuseIf (route.logicalShardId ≠ current.route.logicalShardId)
      (ServerError.routeRollback "logical shard identity cannot change through local owner install")
    let held := current.route
    refuseIf (route.placementGeneration < held.placementGeneration ∨
        (route.placementGeneration = held.placementGeneration ∧ route.ownerEpoch < held.ownerEpoch))
      (ServerError.routeRollback (s!"current placement/owner is {held.placementGeneration}/" ++
        s!"{held.ownerEpoch}, attempted {route.placementGeneration}/{route.ownerEpoch}"))

end Registry

/-! ### Where a call stands -/

/-- How far a fail-closed call has come with the gate. -/
inductive Stage where
  /-- before it closes admission -/
  | admission
  /-- before it raises the owner-loss signal once more -/
  | signal
  /-- before it removes the routes -/
  | retain
  /-- about to look whether the gate is drained -/
  | wait
  /-- asleep until the last permit is dropped -/
  | asleep
  /-- the gate was found drained -/
  | drained
  deriving DecidableEq, Repr

/-- What asks for admission. -/
inductive Admission where
  | operation (route : RootRoute)
  | request (request : WorkspaceRpcRequest)
  deriving DecidableEq

def Admission.route : Admission → RootRoute
  | .operation route => route
  | .request asked => asked.route

/-- Where a call stands. -/
inductive Point (Result : Type) where
  | installStart (route : RootRoute)
  | installAcquire (route : RootRoute)
  | installLocked (route : RootRoute)
  | installRuntime (route : RootRoute)
  | installInsert (route : RootRoute) (runtime : ℕ)
  | installed (route : RootRoute) (outcome : Except ServerError Unit)
  | removeStart (route : RootRoute)
  | removeAcquire (route : RootRoute)
  | removed (outcome : Except ServerError Bool)
  | enterStart (route : RootRoute)
  | enterSignal (route : RootRoute)
  | refused (route : RootRoute) (error : ServerError)
  | dispatchStart (request : WorkspaceRpcRequest)
  | admitAcquire (admission : Admission)
  | admitReading (admission : Admission)
  | admitEntered (admission : Admission) (runtime : ℕ)
  /-- the permit of an operation is with its caller -/
  | entered (route : RootRoute) (runtime : ℕ)
  | released (route : RootRoute)
  | executing (request : WorkspaceRpcRequest) (runtime : ℕ)
  /-- the executor has lost the shard, and the permit is still held -/
  | failing (request : WorkspaceRpcRequest) (response : WorkspaceRpcResponse Result) (runtime : ℕ)
  /-- the response is under delivery, under its permit if it has one -/
  | responding (request : WorkspaceRpcRequest) (response : WorkspaceRpcResponse Result) (permit : Option ℕ)
  | finished (request : WorkspaceRpcRequest)
  | failStart (shard : LogicalShardId) (error : Option ControlError)
  | failSignal (shard : LogicalShardId)
  | failRuntime (shard : LogicalShardId)
  /-- inside the closing of a gate; a failed dispatch has its response still to deliver -/
  | closing (shard : LogicalShardId) (runtime : ℕ) (stage : Stage)
      (after : Option (WorkspaceRpcRequest × WorkspaceRpcResponse Result))
  | closed (shard : LogicalShardId)

namespace Point

/-- Inside a section that reads the route table. -/
def holdsRead : Point Result → Bool
  | admitReading _ | admitEntered .. => true
  | _ => false

/-- Inside a section that writes the route table. -/
def holdsWrite : Point Result → Bool
  | installLocked _ | installRuntime _ | installInsert .. => true
  | _ => false

/-- The permit a call holds: the shard it is for and the gate it counts on. -/
def permit : Point Result → Option (LogicalShardId × ℕ)
  | admitEntered admission runtime => some (admission.route.logicalShardId, runtime)
  | entered route runtime => some (route.logicalShardId, runtime)
  | executing request runtime => some (request.route.logicalShardId, runtime)
  | failing request _ runtime => some (request.route.logicalShardId, runtime)
  | responding request _ (some runtime) => some (request.route.logicalShardId, runtime)
  | _ => none

/-- The last permit of a gate wakes those who wait for it. -/
def wake (runtime : ℕ) : Point Result → Point Result
  | closing shard runtime' .asleep after =>
    closing shard runtime' (if runtime' = runtime then .wait else .asleep) after
  | point => point

end Point

/-- The refusal of an admission, as its caller sees it. -/
def refuse (routeHint : Option RootRoute) (operationReason requestReason : String) :
    Admission → Point Result
  | .operation route => .refused route (.invalidRoute operationReason)
  | .request request => .responding request (notOwnerResponse request routeHint requestReason) none

/-! ### The calls -/

/-- What the registry is asked for. -/
inductive Call where
  | install (route : RootRoute)
  | remove (route : RootRoute)
  | enterShardOperation (route : RootRoute)
  | dispatchGuarded (request : WorkspaceRpcRequest)
  | failClosedShard (shard : LogicalShardId)
  | failClosedShardWithControl (shard : LogicalShardId) (error : ControlError)

def Call.start : Call → Point Result
  | install route => .installStart route
  | remove route => .removeStart route
  | enterShardOperation route => .enterStart route
  | dispatchGuarded request => .dispatchStart request
  | failClosedShard shard => .failStart shard none
  | failClosedShardWithControl shard error => .failStart shard (some error)

section Steps

variable (mayRead mayWrite : Bool) (r : Registry)

/-- The next step of an installation. -/
def install : Point Result → Option (Registry × Point Result)
  | .installStart route =>
    match route.validate with
    | .error error => some (r, .installed route (.error error))
    | .ok () => some (r, .installAcquire route)
  | .installAcquire route => if mayWrite then some (r, .installLocked route) else none
  | .installLocked route =>
    if r.lost then
      some (r, .installed route (.error (.invalidRoute "owner registry is fail-closed")))
    else
      match r.checkRollback route with
      | .error error => some (r, .installed route (.error error))
      | .ok () => some (r, .installRuntime route)
  | .installRuntime route =>
    let (runtime, r') := r.runtimeEntry route.logicalShardId
    some (r', .installInsert route runtime)
  | .installInsert route runtime =>
    some ({ r with owners := r.owners.insert route.rootId ⟨route, runtime⟩ }, .installed route (.ok ()))
  | _ => none

def remove : Point Result → Option (Registry × Point Result)
  | .removeStart route =>
    match route.validate with
    | .error error => some (r, .removed (.error error))
    | .ok () => some (r, .removeAcquire route)
  | .removeAcquire route =>
    if mayWrite then
      if (r.owners.get route.rootId).any fun owner => owner.route = route then
        some ({ r with owners := r.owners.erase route.rootId }, .removed (.ok true))
      else some (r, .removed (.ok false))
    else none
  | _ => none

/-- The next step of an operation's admission before it reads the route table. -/
def enterShardOperation : Point Result → Option (Registry × Point Result)
  | .enterStart route =>
    match route.validate with
    | .error error => some (r, .refused route error)
    | .ok () =>
      match r.controlError with
      | some error => some (r, .refused route (.control error))
      | none => some (r, .enterSignal route)
  | .enterSignal route =>
    if r.lost then some (r, .refused route (.invalidRoute "owner scope is fail-closed"))
    else some (r, .admitAcquire (.operation route))
  | _ => none

/-- The next step of a dispatch before it reads the route table. -/
def dispatchGuarded : Point Result → Option (Registry × Point Result)
  | .dispatchStart request =>
    if r.lost then
      some (r, .responding request
        (notOwnerResponse request none "the server owner scope is fail-closed") none)
    else some (r, .admitAcquire (.request request))
  | _ => none

/-- The next step of an admission under the read lock of the route table. -/
def admitOperation : Point Result → Option (Registry × Point Result)
  | .admitAcquire admission => if mayRead then some (r, .admitReading admission) else none
  | .admitReading admission =>
    match r.owners.get admission.route.rootId with
    | none =>
      some (r, refuse none "this server no longer owns the requested root"
        "this server does not own the requested root" admission)
    | some owner =>
      if owner.route ≠ admission.route then
        some (r, refuse (some owner.route) "the requested root route is stale"
          "the requested root route is stale" admission)
      else
        match r.enter owner.runtime with
        | none =>
          some (r, refuse none "the requested logical shard is fail-closed"
            "the requested logical shard is fail-closed" admission)
        | some r' => some (r', .admitEntered admission owner.runtime)
  | .admitEntered (.operation route) runtime => some (r, .entered route runtime)
  | .admitEntered (.request request) runtime => some (r, .executing request runtime)
  | _ => none

/-- The next step of a fail-closed call up to the gate of its shard. -/
def failClosedShard : Point Result → Option (Registry × Point Result)
  | .failStart shard none => some ({ r with lost := true }, .failRuntime shard)
  | .failStart shard (some error) =>
    some ({ r with controlError := r.controlError.or (some error) }, .failSignal shard)
  | .failSignal shard => some ({ r with lost := true }, .failRuntime shard)
  | .failRuntime shard =>
    let (runtime, r') := r.runtimeEntry shard
    some (r', .closing shard runtime .admission none)
  | _ => none

/-- The next step of the closing of a gate. -/
def failClosedRuntime : Point Result → Option (Registry × Point Result)
  | .closing shard runtime .admission after =>
    some (r.closeAdmission runtime, .closing shard runtime .signal after)
  | .closing shard runtime .signal after =>
    some ({ r with lost := true }, .closing shard runtime .retain after)
  | .closing shard runtime .retain after =>
    if mayWrite then some (r.retainOthers shard, .closing shard runtime .wait after) else none
  | .closing shard runtime .wait after =>
    some (r, .closing shard runtime (if (r.gates runtime).inFlight = 0 then .drained else .asleep) after)
  | .closing shard _ .drained none => some (r, .closed shard)
  | .closing _ _ .drained (some (request, response)) => some (r, .responding request response none)
  | _ => none

/-- The next step of the registry's own code. Calls that are asleep, that wait for an executor or a
client, or that are over have none. -/
def advance (point : Point Result) : Option (Registry × Point Result) :=
  (install mayWrite r point).or <| (remove mayWrite r point).or <| (enterShardOperation r point).or <|
    (dispatchGuarded r point).or <| (admitOperation mayRead r point).or <| (failClosedShard r point).or <|
      failClosedRuntime mayWrite r point

end Steps

/-! ### The server -/

/-- The registry and every call made on it so far. -/
structure ServerState (Result : Type) where
  registry : Registry
  calls : List (Point Result)

def ServerState.init : ServerState Result := ⟨.init, []⟩

namespace ServerState

/-- Nobody writes the route table. -/
def mayRead (s : ServerState Result) : Bool := s.calls.all fun point => !point.holdsWrite

/-- Nobody reads or writes the route table. -/
def mayWrite (s : ServerState Result) : Bool :=
  s.calls.all fun point => !point.holdsWrite && !point.holdsRead

def move (s : ServerState Result) (i : ℕ) (r : Registry) (point : Point Result) : ServerState Result :=
  ⟨r, s.calls.set i point⟩

/-- One call moves on and drops its permit. -/
def dropPermit (s : ServerState Result) (i runtime : ℕ) (point : Point Result) : ServerState Result :=
  let r := s.registry.leave runtime
  let calls := s.calls.set i point
  if (r.gates runtime).closed ∧ (r.gates runtime).inFlight = 0 then ⟨r, calls.map (Point.wake runtime)⟩
  else ⟨r, calls⟩

end ServerState

inductive Action (Result : Type) where
  | call (call : Call)
  /-- a call takes its next step in the registry's code -/
  | advance (i : ℕ)
  /-- the executor of a dispatch answers -/
  | execute (i : ℕ) (outcome : Except RpcFailure (ExecutedRequest Result))
  /-- the holder of a permit or of a response drops it; an executor that panics drops its permit -/
  | drop (i : ℕ)
  /-- a sleeping call wakes up for no reason -/
  | wake (i : ℕ)
  /-- another holder of the owner-loss signal raises it -/
  | lose

/-- What an executor's answer makes of its dispatch. -/
def afterExecution (request : WorkspaceRpcRequest) (runtime : ℕ)
    (outcome : Except RpcFailure (ExecutedRequest Result)) : Point Result :=
  let response := executedResponse request outcome
  if response.isOwnerLoss then .failing request response runtime
  else .responding request response (some runtime)

def step (s : ServerState Result) : Action Result → Option (ServerState Result)
  | .call call => some { s with calls := s.calls ++ [call.start] }
  | .advance i =>
    match s.calls[i]? with
    | some (.failing request response runtime) =>
      some (s.dropPermit i runtime
        (.closing request.route.logicalShardId runtime .admission (some (request, response))))
    | some point =>
      (advance s.mayRead s.mayWrite s.registry point).map fun (r, next) => s.move i r next
    | none => none
  | .execute i outcome =>
    match s.calls[i]? with
    | some (.executing request runtime) => some (s.move i s.registry (afterExecution request runtime outcome))
    | _ => none
  | .drop i =>
    match s.calls[i]? with
    | some (.entered route runtime) => some (s.dropPermit i runtime (.released route))
    | some (.executing request runtime) => some (s.dropPermit i runtime (.finished request))
    | some (.responding request _ (some runtime)) => some (s.dropPermit i runtime (.finished request))
    | some (.responding request _ none) => some (s.move i s.registry (.finished request))
    | _ => none
  | .wake i =>
    match s.calls[i]? with
    | some (.closing shard runtime .asleep after) =>
      some (s.move i s.registry (.closing shard runtime .wait after))
    | _ => none
  | .lose => some { s with registry := { s.registry with lost := true } }

end NoKV.Server
