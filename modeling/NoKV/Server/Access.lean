import Mathlib.Data.List.Induction
import NoKV.Control.Identity

/-!
# Access decisions of an owner

An owner decides every handshake and every request from a copy of its tenant's policy. Refreshes run
concurrently: each reads the policy revision from the control plane, compares it with the copy, loads
the policy if it moved, and then replaces the copy or stamps it as refreshed. A copy whose stamp is
older than `max_age` decides nothing.

* `World.step`: a clock, the identity records, the copy and the refreshes that are under way;
* `Held`: the copy is a policy that was current, at most `slack` before its stamp;
* `grant_justified`: every grant rests on a policy that was current at most `max_age + slack` before;
* `stale_grant`: a stamp is taken when the refresh ends, so a slow control read makes a policy look
  fresh that was replaced long before.

Why the copy is as recent as the read of the refresh that stamped it, even when that refresh did not
load it: revisions only grow and name the records (`Versioned`). A copy whose revision is at least
the one read is either the policy that was read, or a later one.
-/

namespace NoKV.Access

open Lib Identity List

/-! ### The copy of the policy -/

/-- One policy revision, indexed for the two lookups every decision makes. -/
structure PolicyCopy where
  revision : UInt64
  credentials : OrdMap CredentialFingerprint CredentialBinding
  roles : OrdMap PrincipalId (List RoleBinding)
  refreshedAt : ℕ
  deriving DecidableEq

def insertCredential (credentials : OrdMap CredentialFingerprint CredentialBinding)
    (credential : CredentialBinding) : OrdMap CredentialFingerprint CredentialBinding :=
  credentials.insert credential.fingerprint credential

def pushRole (roles : OrdMap PrincipalId (List RoleBinding)) (binding : RoleBinding) :
    OrdMap PrincipalId (List RoleBinding) :=
  roles.insert binding.principalId ((roles.get binding.principalId).getD [] ++ [binding])

/-- Whether a role with this scope holds on a root. -/
def RoleScope.covers (rootId : RootId) : RoleScope → Bool
  | .tenant => true
  | .root scope => scope = rootId

namespace PolicyCopy

/-- The copy of a policy, stamped with the present time. -/
def index (policy : TenantPolicy) (now : ℕ) : PolicyCopy where
  revision := policy.revision
  credentials := policy.credentials.foldl insertCredential .empty
  roles := policy.roleBindings.foldl pushRole .empty
  refreshedAt := now

/-- The credential behind `fingerprint`, when it is current. -/
def currentCredential (copy : PolicyCopy) (fingerprint : CredentialFingerprint) (nowUnixSeconds : ℕ) :
    Option CredentialBinding :=
  (copy.credentials.get fingerprint).filter fun credential => nowUnixSeconds < credential.expiresAtUnixSeconds

/-- The highest role a principal holds on a root. -/
def effectiveRole (copy : PolicyCopy) (principalId : PrincipalId) (rootId : RootId) : Option Role := do
  let bindings ← copy.roles.get principalId
  ((bindings.filter fun binding => RoleScope.covers rootId binding.scope).map RoleBinding.role).max?

end PolicyCopy

/-! ### Requests -/

/-- The operations of the workspace protocol; what they carry does not enter an access decision. -/
inductive WorkspaceRequest where
  | preflight
  | getWorkspace
  | getPath
  | listPaths
  | getSnapshot
  | listSnapshots
  | readRestoreSourceRunManifest
  | getOperation
  | inspectAppendCleanup
  | getGenericIndexRegistration
  | search
  | aggregate
  | catalog
  | findWorkspaces
  | readChanges
  | createWorkspace
  | renamePath
  | removePath
  | beginArtifactPublish
  | stageArtifactObjects
  | uploadArtifactObject
  | stageArtifactManifest
  | completeArtifactPublish
  | prepareArtifactPublish
  | finishArtifactPublish
  | publishInlineArtifact
  | abortArtifactPublish
  | commit
  | mintSnapshot
  | renewSnapshot
  | retireSnapshot
  | prepareRestore
  | bindRestoreDestination
  | finalizeRestore
  | retryAppendCleanup
  | beginGenericIndexRegistration
  | appendGenericIndexRows
  | finalizeGenericIndexRegistration
  | abortGenericIndexRegistration
  | reconcileQuarantinedArtifactPublish
  deriving DecidableEq, Repr

/-- What an operation is called in logs and the least role that permits it. -/
structure OperationClass where
  name : String
  role : Role

def classify : WorkspaceRequest → OperationClass
  | .preflight => ⟨"Preflight", .reader⟩
  | .getWorkspace => ⟨"GetWorkspace", .reader⟩
  | .getPath => ⟨"GetPath", .reader⟩
  | .listPaths => ⟨"ListPaths", .reader⟩
  | .getSnapshot => ⟨"GetSnapshot", .reader⟩
  | .listSnapshots => ⟨"ListSnapshots", .reader⟩
  | .readRestoreSourceRunManifest => ⟨"ReadRestoreSourceRunManifest", .reader⟩
  | .getOperation => ⟨"GetOperation", .reader⟩
  | .inspectAppendCleanup => ⟨"InspectAppendCleanup", .reader⟩
  | .getGenericIndexRegistration => ⟨"GetGenericIndexRegistration", .reader⟩
  | .search => ⟨"Search", .reader⟩
  | .aggregate => ⟨"Aggregate", .reader⟩
  | .catalog => ⟨"Catalog", .reader⟩
  | .findWorkspaces => ⟨"FindWorkspaces", .reader⟩
  | .readChanges => ⟨"ReadChanges", .reader⟩
  | .createWorkspace => ⟨"CreateWorkspace", .writer⟩
  | .renamePath => ⟨"RenamePath", .writer⟩
  | .removePath => ⟨"RemovePath", .writer⟩
  | .beginArtifactPublish => ⟨"BeginArtifactPublish", .writer⟩
  | .stageArtifactObjects => ⟨"StageArtifactObjects", .writer⟩
  | .uploadArtifactObject => ⟨"UploadArtifactObject", .writer⟩
  | .stageArtifactManifest => ⟨"StageArtifactManifest", .writer⟩
  | .completeArtifactPublish => ⟨"CompleteArtifactPublish", .writer⟩
  | .prepareArtifactPublish => ⟨"PrepareArtifactPublish", .writer⟩
  | .finishArtifactPublish => ⟨"FinishArtifactPublish", .writer⟩
  | .publishInlineArtifact => ⟨"PublishInlineArtifact", .writer⟩
  | .abortArtifactPublish => ⟨"AbortArtifactPublish", .writer⟩
  | .commit => ⟨"Commit", .writer⟩
  | .mintSnapshot => ⟨"MintSnapshot", .writer⟩
  | .renewSnapshot => ⟨"RenewSnapshot", .writer⟩
  | .retireSnapshot => ⟨"RetireSnapshot", .writer⟩
  | .prepareRestore => ⟨"PrepareRestore", .writer⟩
  | .bindRestoreDestination => ⟨"BindRestoreDestination", .writer⟩
  | .finalizeRestore => ⟨"FinalizeRestore", .writer⟩
  | .retryAppendCleanup => ⟨"RetryAppendCleanup", .writer⟩
  | .beginGenericIndexRegistration => ⟨"BeginGenericIndexRegistration", .writer⟩
  | .appendGenericIndexRows => ⟨"AppendGenericIndexRows", .writer⟩
  | .finalizeGenericIndexRegistration => ⟨"FinalizeGenericIndexRegistration", .writer⟩
  | .abortGenericIndexRegistration => ⟨"AbortGenericIndexRegistration", .writer⟩
  | .reconcileQuarantinedArtifactPublish => ⟨"ReconcileQuarantinedArtifactPublish", .operator⟩

structure WorkspaceRpcRequest where
  rootId : RootId
  operation : WorkspaceRequest

/-- The credential a connection authenticated with, and its principal. -/
structure ConnectionPrincipal where
  principalId : PrincipalId
  fingerprint : CredentialFingerprint
  deriving DecidableEq

inductive AccessDenial where
  | notACurrentCredential
  | permissionDenied (required : Role)
  | policyStale
  deriving DecidableEq

/-! ### Refreshes and decisions -/

/-- How far a call of `refresh` is. The call of `load` that gives an owner its first copy has the last
two stages only. -/
inductive Call where
  /-- The revision read is under way. -/
  | asking
  /-- The control plane answered the revision read. -/
  | asked (revision : Option UInt64)
  /-- The revision that was read was the copy's. -/
  | unchanged (revision : UInt64)
  /-- The policy read is under way. -/
  | loading
  /-- The control plane answered the policy read. -/
  | loaded (policy : TenantPolicy)
  | done
  deriving DecidableEq

/-- The clock, the identity records, the owner's copy (none until it has loaded one) and its calls. -/
structure World where
  now : ℕ
  store : IdentityState
  copy : Option PolicyCopy
  calls : List Call

/-- An owner of a tenant that is about to load its first copy. -/
def World.init (now : ℕ) (store : IdentityState) : World := ⟨now, store, none, [.loading]⟩

/-- What happens next. Control reads take as long as the clock moves before their call goes on. -/
inductive Event where
  | tick (duration : ℕ)
  | change (op : Op)
  | refresh
  | advance (call : ℕ)
  | fail (call : ℕ)

/-- A loaded policy replaces an older copy; a slower concurrent read never wins. -/
def publish (copy : Option PolicyCopy) (policy : TenantPolicy) (now : ℕ) : PolicyCopy :=
  match copy with
  | none => .index policy now
  | some copy =>
    if copy.revision ≤ policy.revision then .index policy now else { copy with refreshedAt := now }

/-- The next stage of a call, and the copy it leaves. -/
def Call.advance (tenantId : TenantId) (w : World) : Call → Call × Option PolicyCopy
  | .asking => (.asked (w.store.revision tenantId), w.copy)
  | .asked revision =>
    match w.copy with
    | none => (.done, none)
    | some copy =>
      if revision = some copy.revision then (.unchanged copy.revision, some copy) else (.loading, some copy)
  | .unchanged _ => (.done, w.copy.map fun copy => { copy with refreshedAt := w.now })
  | .loading =>
    match w.store.policy tenantId with
    | none => (.done, w.copy)
    | some policy => (.loaded policy, w.copy)
  | .loaded policy => (.done, some (publish w.copy policy w.now))
  | .done => (.done, w.copy)

/-- A call whose control read failed ends without a stamp. -/
def Call.fail : Call → Call
  | .asking => .done
  | .loading => .done
  | call => call

namespace World

def step (limits : IdentityLimits) (tenantId : TenantId) (w : World) : Event → World
  | .tick duration => { w with now := w.now + duration }
  | .change op => { w with store := (w.store.step limits op).2 }
  | .refresh => if w.copy.isSome then { w with calls := w.calls ++ [.asking] } else w
  | .advance i =>
    match w.calls[i]? with
    | none => w
    | some call =>
      { w with copy := (call.advance tenantId w).2, calls := w.calls.set i (call.advance tenantId w).1 }
  | .fail i =>
    match w.calls[i]? with
    | none => w
    | some call => { w with calls := w.calls.set i call.fail }

def run (limits : IdentityLimits) (tenantId : TenantId) (w : World) (events : List Event) : World :=
  events.foldl (step limits tenantId) w

/-- The copy, when it is young enough to decide. -/
def freshCopy (w : World) (maxAge : ℕ) : Except AccessDenial PolicyCopy :=
  match w.copy with
  | none => .error .policyStale
  | some copy => if maxAge < w.now - copy.refreshedAt then .error .policyStale else .ok copy

/-- The principal whose current credential is `certificate`. -/
def authenticate [Sha256] (w : World) (maxAge : ℕ) (certificate : Bytes) (nowUnixSeconds : ℕ) :
    Except AccessDenial ConnectionPrincipal := do
  let copy ← w.freshCopy maxAge
  match copy.currentCredential (sha256 certificate) nowUnixSeconds with
  | none => .error .notACurrentCredential
  | some credential => .ok ⟨credential.principalId, sha256 certificate⟩

/-- Whether a principal may make a request now, and the role it holds on the request's root. -/
def authorize (w : World) (maxAge : ℕ) (principal : ConnectionPrincipal) (request : WorkspaceRpcRequest)
    (nowUnixSeconds : ℕ) : Except AccessDenial Role := do
  let copy ← w.freshCopy maxAge
  refuseIf ((copy.currentCredential principal.fingerprint nowUnixSeconds).all fun credential =>
    credential.principalId ≠ principal.principalId) AccessDenial.notACurrentCredential
  match copy.effectiveRole principal.principalId request.rootId with
  | none => .error (.permissionDenied (classify request.operation).role)
  | some held =>
    if (classify request.operation).role ≤ held then .ok held
    else .error (.permissionDenied (classify request.operation).role)

end World

/-! ### What a policy grants -/

/-- The policy binds the fingerprint to the principal, until a time that has not come yet. -/
def Authenticates (policy : TenantPolicy) (principal : ConnectionPrincipal) (nowUnixSeconds : ℕ) : Prop :=
  ∃ credential ∈ policy.credentials, credential.fingerprint = principal.fingerprint ∧
    credential.principalId = principal.principalId ∧ nowUnixSeconds < credential.expiresAtUnixSeconds

/-- The role is the highest one the policy gives the principal on the root. -/
def Holds (policy : TenantPolicy) (principalId : PrincipalId) (rootId : RootId) (role : Role) : Prop :=
  IsGreatest { role | ∃ binding ∈ policy.roleBindings, binding.principalId = principalId ∧
    RoleScope.covers rootId binding.scope = true ∧ binding.role = role } role

section Decisions

variable {policy : TenantPolicy} {copy : PolicyCopy} {w : World} {now maxAge nowUnixSeconds : ℕ}
  {fingerprint : CredentialFingerprint} {credential : CredentialBinding}

lemma foldl_insertCredential (l : List CredentialBinding) {m : OrdMap CredentialFingerprint CredentialBinding}
    (h : (l.foldl insertCredential m).get fingerprint = some credential) :
    m.get fingerprint = some credential ∨ (credential ∈ l ∧ credential.fingerprint = fingerprint) := by
  induction l generalizing m with
  | nil => exact .inl h
  | cons _ _ ih =>
    rcases ih h with hm | ⟨hmem, hfp⟩
    · rcases OrdMap.get_insert_cases hm with ⟨rfl, rfl⟩ | ⟨-, hm⟩
      · exact .inr ⟨mem_cons_self, rfl⟩
      · exact .inl hm
    · exact .inr ⟨mem_cons_of_mem _ hmem, hfp⟩

/-- A credential of the copy is one of the policy. -/
lemma currentCredential_index
    (h : (PolicyCopy.index policy now).currentCredential fingerprint nowUnixSeconds = some credential) :
    credential ∈ policy.credentials ∧ credential.fingerprint = fingerprint ∧
      nowUnixSeconds < credential.expiresAtUnixSeconds := by
  obtain ⟨hget, hexpires⟩ := Option.filter_eq_some_iff.1 h
  rcases foldl_insertCredential _ hget with hempty | ⟨hmem, hfp⟩
  · cases hempty
  · exact ⟨hmem, hfp, by simpa using hexpires⟩

lemma foldl_pushRole (l : List RoleBinding) (principalId : PrincipalId)
    (m : OrdMap PrincipalId (List RoleBinding)) :
    ((l.foldl pushRole m).get principalId).getD [] =
      (m.get principalId).getD [] ++ l.filter fun binding => binding.principalId = principalId := by
  induction l generalizing m with
  | nil => simp
  | cons head l ih =>
    rw [foldl_cons, ih, pushRole, OrdMap.get_insert]
    by_cases heq : head.principalId = principalId
    · simp [heq]
    · simp [heq, Ne.symm heq]

/-- The role the copy gives is the highest one of the policy. -/
lemma effectiveRole_index {principalId : PrincipalId} {rootId : RootId} {role : Role}
    (h : (PolicyCopy.index policy now).effectiveRole principalId rootId = some role) :
    Holds policy principalId rootId role := by
  obtain ⟨bindings, hget, hmax⟩ := Option.bind_eq_some_iff.1 h
  have hbindings : bindings = policy.roleBindings.filter fun b => b.principalId = principalId := by
    have hall := foldl_pushRole policy.roleBindings principalId .empty
    have hget : (policy.roleBindings.foldl pushRole .empty).get principalId = some bindings := hget
    rw [hget] at hall
    simpa using hall
  obtain ⟨hmem, hle⟩ := max?_eq_some_iff.1 hmax
  have hiff : ∀ r, r ∈ (bindings.filter fun b => RoleScope.covers rootId b.scope).map RoleBinding.role ↔
      ∃ b ∈ policy.roleBindings, b.principalId = principalId ∧ RoleScope.covers rootId b.scope = true ∧
        b.role = r := by
    intro r
    simp only [hbindings, mem_map, mem_filter, decide_eq_true_eq]
    constructor
    · rintro ⟨b, ⟨⟨hb, hp⟩, hcovers⟩, hr⟩
      exact ⟨b, hb, hp, hcovers, hr⟩
    · rintro ⟨b, hb, hp, hcovers, hr⟩
      exact ⟨b, ⟨⟨hb, hp⟩, hcovers⟩, hr⟩
  exact ⟨(hiff role).1 hmem, fun r hr => hle r ((hiff r).2 hr)⟩

lemma freshCopy_eq_ok :
    w.freshCopy maxAge = .ok copy ↔ w.copy = some copy ∧ w.now ≤ copy.refreshedAt + maxAge := by
  unfold World.freshCopy
  cases w.copy with
  | none => simp
  | some c =>
    by_cases hage : maxAge < w.now - c.refreshedAt
    · simp only [if_pos hage]
      constructor
      · intro h
        cases h
      · rintro ⟨heq, _⟩
        cases heq
        omega
    · simp only [if_neg hage]
      constructor
      · intro h
        cases h
        exact ⟨rfl, by omega⟩
      · rintro ⟨heq, -⟩
        cases heq
        rfl

end Decisions

/-! ### Runs -/

section Runs

variable (limits : IdentityLimits) (tenantId : TenantId) (start : ℕ) (store : IdentityState)

/-- The world after a sequence of events, from the start of the owner. -/
def after (events : List Event) : World := (World.init start store).run limits tenantId events

/-- The revision a call read and is about to publish. -/
def Call.read : Call → Option UInt64
  | .unchanged revision => some revision
  | .loaded policy => some policy.revision
  | _ => none

/-- The tenant's records never change at the last revision, and whenever a call stamps the copy, the
revision it read was the current one at some moment at most `slack` before. -/
structure Regular (slack : ℕ) (events : List Event) : Prop where
  room : ∀ before op rest, events = before ++ .change op :: rest →
    Room limits (after limits tenantId start store before).store tenantId op
  timely : ∀ before i rest call revision, events = before ++ .advance i :: rest →
    (after limits tenantId start store before).calls[i]? = some call → call.read = some revision →
      ∃ moment, moment <+: before ∧
        (after limits tenantId start store moment).store.revision tenantId = some revision ∧
          (after limits tenantId start store before).now ≤
            (after limits tenantId start store moment).now + slack

variable {limits tenantId start store} {slack : ℕ} {events moment moment' : List Event} {e : Event}

lemma after_snoc :
    after limits tenantId start store (events ++ [e]) =
      (after limits tenantId start store events).step limits tenantId e := by
  simp [after, World.run]

lemma now_mono (hm : moment <+: events) :
    (after limits tenantId start store moment).now ≤ (after limits tenantId start store events).now := by
  induction events using reverseRecOn with
  | nil => rw [prefix_nil.1 hm]
  | append_singleton _ e ih =>
    rcases prefix_concat_iff.1 hm with rfl | hm
    · exact le_rfl
    · refine (ih hm).trans ?_
      rw [after_snoc]
      cases e with
      | tick => exact Nat.le_add_right _ _
      | change => exact le_rfl
      | refresh | advance i | fail i =>
        simp only [World.step]
        split <;> exact le_rfl

lemma step_store {w : World} (h : ∀ op, e ≠ .change op) : (w.step limits tenantId e).store = w.store := by
  cases e with
  | tick => rfl
  | change op => exact absurd rfl (h op)
  | refresh | advance i | fail i =>
    simp only [World.step]
    split <;> rfl

section

variable (h : Regular limits tenantId start store slack events) (hm : moment <+: events)
include h hm

lemma Regular.mono : Regular limits tenantId start store slack moment := by
  obtain ⟨rest', rfl⟩ := hm
  constructor
  · intro before op rest heq
    exact h.room before op (rest ++ rest') (by rw [heq, append_assoc, cons_append])
  · intro before i rest call revision heq
    exact h.timely before i (rest ++ rest') call revision (by rw [heq, append_assoc, cons_append])

lemma Regular.versioned : Versioned tenantId (after limits tenantId start store moment).store
      (after limits tenantId start store events).store := by
  induction events using reverseRecOn with
  | nil =>
    rw [prefix_nil.1 hm]
    exact .refl _
  | append_singleton events e ih =>
    rcases prefix_concat_iff.1 hm with rfl | hm
    · exact .refl _
    · refine (ih (h.mono (prefix_append _ _)) hm).trans ?_
      rw [after_snoc]
      by_cases hchange : ∃ op, e = .change op
      · obtain ⟨op, rfl⟩ := hchange
        exact Versioned.step (h.room events op [] rfl)
      · rw [step_store fun op heq => hchange ⟨op, heq⟩]
        exact .refl _

end

variable {revision : UInt64} {copy : PolicyCopy} {maxAge : ℕ}

lemma Regular.revision_le (h : Regular limits tenantId start store slack events) (hm : moment <+: moment')
    (hm' : moment' <+: events) {revision' : UInt64}
    (hr : (after limits tenantId start store moment).store.revision tenantId = some revision)
    (hr' : (after limits tenantId start store moment').store.revision tenantId = some revision') :
    revision ≤ revision' := by
  obtain ⟨tenant, htenant, rfl⟩ := Option.map_eq_some_iff.1 hr
  obtain ⟨_, hnext, hle⟩ := (h.mono hm').versioned hm tenant htenant
  simp only [IdentityState.revision, hnext, Option.map_some, Option.some.injEq] at hr'
  subst hr'
  rcases hle with rfl | hlt
  · exact UInt64.le_refl _
  · exact UInt64.le_of_lt hlt

/-- A revision names its policy. -/
lemma Regular.policy_eq (h : Regular limits tenantId start store slack events) (hm : moment <+: events)
    (hm' : moment' <+: events)
    (hr : (after limits tenantId start store moment).store.revision tenantId = some revision)
    (hr' : (after limits tenantId start store moment').store.revision tenantId = some revision) :
    (after limits tenantId start store moment').store.policy tenantId =
      (after limits tenantId start store moment).store.policy tenantId := by
  rcases prefix_or_prefix_of_prefix hm hm' with hle | hle
  · rw [IdentityState.policy, IdentityState.policy, ((h.mono hm').versioned hle).eq_of_revision hr hr']
  · rw [IdentityState.policy, IdentityState.policy, ((h.mono hm).versioned hle).eq_of_revision hr' hr]

lemma revision_of_policy {s : IdentityState} {policy : TenantPolicy}
    (h : s.policy tenantId = some policy) : s.revision tenantId = some policy.revision := by
  obtain ⟨_, htenant, rfl⟩ := Option.map_eq_some_iff.1 h
  simp [IdentityState.revision, htenant]

/-- What a call that is about to publish has behind it. -/
def Backed (limits : IdentityLimits) (tenantId : TenantId) (start : ℕ) (store : IdentityState)
    (events : List Event) : Call → Prop
  | .unchanged revision =>
    ∃ copy, (after limits tenantId start store events).copy = some copy ∧ revision ≤ copy.revision
  | .loaded policy =>
    ∃ moment, moment <+: events ∧
      (after limits tenantId start store moment).store.policy tenantId = some policy
  | _ => True

/-- The copy is the policy of a moment, at most `slack` before the copy's stamp. -/
def Recent (limits : IdentityLimits) (tenantId : TenantId) (start : ℕ) (store : IdentityState)
    (slack : ℕ) (events : List Event) (copy : PolicyCopy) : Prop :=
  ∃ moment policy, moment <+: events ∧
    (after limits tenantId start store moment).store.policy tenantId = some policy ∧
      copy = .index policy copy.refreshedAt ∧
        copy.refreshedAt ≤ (after limits tenantId start store moment).now + slack

/-- What holds of the copy and of the calls at every moment. -/
structure Held (limits : IdentityLimits) (tenantId : TenantId) (start : ℕ) (store : IdentityState)
    (slack : ℕ) (events : List Event) : Prop where
  copy : ∀ copy, (after limits tenantId start store events).copy = some copy →
    Recent limits tenantId start store slack events copy
  calls : ∀ call ∈ (after limits tenantId start store events).calls,
    Backed limits tenantId start store events call

lemma Recent.mono (h : Recent limits tenantId start store slack moment copy) (hm : moment <+: events) :
    Recent limits tenantId start store slack events copy := by
  obtain ⟨m, policy, hfront, hpolicy, hcopy, hnow⟩ := h
  exact ⟨m, policy, hfront.trans hm, hpolicy, hcopy, hnow⟩

/-- **A stamp is as recent as the read behind it.** The copy has at least the revision that was read,
so it is the policy of the read or of a later moment. -/
theorem Recent.stamp (hregular : Regular limits tenantId start store slack events)
    (h : Recent limits tenantId start store slack events copy) {now : ℕ} (hle : revision ≤ copy.revision)
    (hm : moment <+: events)
    (hread : (after limits tenantId start store moment).store.revision tenantId = some revision)
    (hnow : now ≤ (after limits tenantId start store moment).now + slack) :
    Recent limits tenantId start store slack events { copy with refreshedAt := now } := by
  obtain ⟨loadedAt, policy, hloaded, hpolicy, hcopy, -⟩ := h
  have hrevision : copy.revision = policy.revision := by
    rw [hcopy]
    rfl
  have hindex : ({ copy with refreshedAt := now } : PolicyCopy) = .index policy now := by
    rw [hcopy]
    rfl
  have hpolicyRevision := revision_of_policy hpolicy
  rcases prefix_or_prefix_of_prefix hm hloaded with hbefore | hbefore
  · -- the copy was loaded after the read
    refine ⟨loadedAt, policy, hloaded, hpolicy, hindex, ?_⟩
    have hmono : (after limits tenantId start store moment).now ≤
        (after limits tenantId start store loadedAt).now := now_mono hbefore
    exact hnow.trans (Nat.add_le_add_right hmono slack)
  · -- the copy was loaded before the read: the revision in between is the same
    have hge := hregular.revision_le hbefore hm hpolicyRevision hread
    have heq : revision = policy.revision := UInt64.le_antisymm (hrevision ▸ hle) hge
    have hsame := hregular.policy_eq hloaded hm hpolicyRevision (heq ▸ hread)
    exact ⟨moment, policy, hm, hsame.trans hpolicy, hindex, hnow⟩

section

variable (h : Held limits tenantId start store slack events)
include h

/-- The step of the invariant: the copy is recent, its revision does not fall, and each call is an old
one or has its backing. -/
lemma Held.extend
    (hcopy : ∀ copy, (after limits tenantId start store (events ++ [e])).copy = some copy →
      Recent limits tenantId start store slack (events ++ [e]) copy)
    (hgrows : ∀ copy, (after limits tenantId start store events).copy = some copy →
      ∃ next, (after limits tenantId start store (events ++ [e])).copy = some next ∧
        copy.revision ≤ next.revision)
    (hcalls : ∀ call ∈ (after limits tenantId start store (events ++ [e])).calls,
      call ∈ (after limits tenantId start store events).calls ∨
        Backed limits tenantId start store (events ++ [e]) call) :
    Held limits tenantId start store slack (events ++ [e]) := by
  refine ⟨hcopy, fun call hcall => ?_⟩
  rcases hcalls call hcall with hold | hnew
  · have hbacked := h.calls call hold
    cases call with
    | unchanged =>
      obtain ⟨copy, hc, hle⟩ := hbacked
      obtain ⟨next, hnext, hle'⟩ := hgrows copy hc
      exact ⟨next, hnext, UInt64.le_trans hle hle'⟩
    | loaded =>
      obtain ⟨moment, hm, hpolicy⟩ := hbacked
      exact ⟨moment, hm.trans (prefix_append _ _), hpolicy⟩
    | asking | asked revision | loading | done => trivial
  · exact hnew

lemma Held.frame
    (hcopy : (after limits tenantId start store (events ++ [e])).copy =
      (after limits tenantId start store events).copy)
    (hcalls : ∀ call ∈ (after limits tenantId start store (events ++ [e])).calls,
      call ∈ (after limits tenantId start store events).calls ∨
        Backed limits tenantId start store (events ++ [e]) call) :
    Held limits tenantId start store slack (events ++ [e]) := by
  refine h.extend (fun copy hc => ?_) (fun copy hc => ?_) hcalls
  · rw [hcopy] at hc
    exact (h.copy copy hc).mono (prefix_append _ _)
  · exact ⟨copy, hcopy.trans hc, UInt64.le_refl _⟩

section Advance

variable {i : ℕ} {call : Call} (hcall : (after limits tenantId start store events).calls[i]? = some call)
include hcall

omit h in
lemma after_advance : after limits tenantId start store (events ++ [.advance i]) =
    { after limits tenantId start store events with
      copy := (call.advance tenantId (after limits tenantId start store events)).2
      calls := (after limits tenantId start store events).calls.set i
        (call.advance tenantId (after limits tenantId start store events)).1 } := by
  rw [after_snoc]
  simp only [World.step, hcall]

omit h in
/-- A call behind the step is an old one, or the one that took the step. -/
lemma mem_calls_advance
    (hnew : Backed limits tenantId start store (events ++ [.advance i])
      (call.advance tenantId (after limits tenantId start store events)).1) :
    ∀ c ∈ (after limits tenantId start store (events ++ [.advance i])).calls,
      c ∈ (after limits tenantId start store events).calls ∨
        Backed limits tenantId start store (events ++ [.advance i]) c := by
  intro c hc
  rw [after_advance hcall] at hc
  rcases mem_or_eq_of_mem_set hc with hold | rfl
  · exact .inl hold
  · exact .inr hnew

/-- A stage that publishes nothing. -/
lemma Held.advance_quiet
    (hcopy : (call.advance tenantId (after limits tenantId start store events)).2 =
      (after limits tenantId start store events).copy)
    (hnew : Backed limits tenantId start store (events ++ [.advance i])
      (call.advance tenantId (after limits tenantId start store events)).1) :
    Held limits tenantId start store slack (events ++ [.advance i]) := by
  refine h.frame ?_ (mem_calls_advance hcall hnew)
  rw [after_advance hcall]
  exact hcopy

end Advance

/-- The call asks whether its revision is that of the copy. -/
lemma Held.advance_asked {i : ℕ} {revision : Option UInt64}
    (hcall : (after limits tenantId start store events).calls[i]? = some (.asked revision)) :
    Held limits tenantId start store slack (events ++ [.advance i]) := by
  have hafter := after_advance hcall
  cases hc : (after limits tenantId start store events).copy with
  | none =>
    refine h.advance_quiet hcall (by simp only [Call.advance, hc]) ?_
    simp only [Call.advance, hc]
    trivial
  | some copy =>
    refine h.advance_quiet hcall (by simp only [Call.advance, hc]; split <;> rfl) ?_
    simp only [Call.advance, hc] at hafter ⊢
    split at hafter
    next hsame =>
      rw [if_pos hsame]
      exact ⟨copy, by rw [hafter], UInt64.le_refl _⟩
    next hdiffers =>
      rw [if_neg hdiffers]
      trivial

/-- The call loads the policy of this moment. -/
lemma Held.advance_loading {i : ℕ}
    (hcall : (after limits tenantId start store events).calls[i]? = some .loading) :
    Held limits tenantId start store slack (events ++ [.advance i]) := by
  cases hpolicy : (after limits tenantId start store events).store.policy tenantId with
  | none =>
    refine h.advance_quiet hcall (by simp only [Call.advance, hpolicy]) ?_
    simp only [Call.advance, hpolicy]
    trivial
  | some =>
    refine h.advance_quiet hcall (by simp only [Call.advance, hpolicy]) ?_
    simp only [Call.advance, hpolicy]
    exact ⟨events, prefix_append _ _, hpolicy⟩

/-- The call stamps the copy with the time of this moment. -/
lemma Held.advance_unchanged {i : ℕ} {revision : UInt64}
    (hregular : Regular limits tenantId start store slack (events ++ [.advance i]))
    (hcall : (after limits tenantId start store events).calls[i]? = some (.unchanged revision)) :
    Held limits tenantId start store slack (events ++ [.advance i]) := by
  have hfront : events <+: events ++ [.advance i] := prefix_append _ _
  obtain ⟨moment, hm, hread, hnow⟩ := hregular.timely events i [] _ revision rfl hcall rfl
  obtain ⟨copy, hc, hle⟩ := h.calls _ (mem_of_getElem? hcall)
  have hnext : (after limits tenantId start store (events ++ [.advance i])).copy =
      some { copy with refreshedAt := (after limits tenantId start store events).now } := by
    rw [after_advance hcall]
    simp only [Call.advance, hc, Option.map_some]
  refine h.extend (fun next hn => ?_) (fun c hc' => ?_) (mem_calls_advance hcall trivial)
  · cases hnext.symm.trans hn
    exact ((h.copy copy hc).stamp (hregular.mono hfront) hle hm hread hnow).mono hfront
  · cases hc.symm.trans hc'
    exact ⟨_, hnext, UInt64.le_refl _⟩

/-- The call publishes the policy it has loaded, or stamps a copy that is newer. -/
lemma Held.advance_loaded {i : ℕ} {policy : TenantPolicy}
    (hregular : Regular limits tenantId start store slack (events ++ [.advance i]))
    (hcall : (after limits tenantId start store events).calls[i]? = some (.loaded policy)) :
    Held limits tenantId start store slack (events ++ [.advance i]) := by
  have hfront : events <+: events ++ [.advance i] := prefix_append _ _
  have hbefore := hregular.mono hfront
  set w := after limits tenantId start store events with hw
  obtain ⟨moment, hm, hread, hnow⟩ := hregular.timely events i [] _ policy.revision rfl hcall rfl
  obtain ⟨_, hloaded, hpolicy⟩ := h.calls _ (mem_of_getElem? hcall)
  -- the policy that was loaded is the one of the moment its revision was read
  have hsame := hbefore.policy_eq hloaded hm (revision_of_policy hpolicy) hread
  have hindex : Recent limits tenantId start store slack (events ++ [.advance i]) (.index policy w.now) :=
    ⟨moment, policy, hm.trans hfront, hsame.trans hpolicy, rfl, hnow⟩
  have hnext : (after limits tenantId start store (events ++ [.advance i])).copy =
      some (publish w.copy policy w.now) := by rw [after_advance hcall]; rfl
  refine h.extend (fun next hn => ?_) (fun c hc => ?_) (mem_calls_advance hcall trivial)
  · cases hnext.symm.trans hn
    unfold publish
    split
    · exact hindex
    next copy hc =>
      split
      · exact hindex
      next hle =>
        -- the copy is ahead of what this call has loaded, and keeps its content
        have hless := UInt64.le_of_lt (UInt64.not_le.1 hle)
        exact ((h.copy copy hc).stamp hbefore hless hm hread hnow).mono hfront
  · refine ⟨_, hnext, ?_⟩
    simp only [publish, show w.copy = some c from hc]
    split
    · assumption
    · exact UInt64.le_refl _

lemma Held.advance {i : ℕ} (hregular : Regular limits tenantId start store slack (events ++ [.advance i])) :
    Held limits tenantId start store slack (events ++ [.advance i]) := by
  cases hcall : (after limits tenantId start store events).calls[i]? with
  | none =>
    have hstep : after limits tenantId start store (events ++ [.advance i]) =
        after limits tenantId start store events := by
      rw [after_snoc]
      simp only [World.step, hcall]
    refine h.frame (by rw [hstep]) fun call hmem => .inl ?_
    rwa [hstep] at hmem
  | some call =>
    cases call with
    | asking | done => exact h.advance_quiet hcall rfl trivial
    | asked => exact h.advance_asked hcall
    | unchanged => exact h.advance_unchanged hregular hcall
    | loading => exact h.advance_loading hcall
    | loaded => exact h.advance_loaded hregular hcall

/-- A copy that decides is the policy of a moment at most `maxAge + slack` ago. -/
lemma Held.fresh (hfresh : (after limits tenantId start store events).freshCopy maxAge = .ok copy) :
    ∃ moment policy, moment <+: events ∧
      (after limits tenantId start store events).now ≤
        (after limits tenantId start store moment).now + maxAge + slack ∧
      (after limits tenantId start store moment).store.policy tenantId = some policy ∧
      copy = .index policy copy.refreshedAt := by
  obtain ⟨hcopy, _⟩ := freshCopy_eq_ok.1 hfresh
  obtain ⟨moment, policy, hm, hpolicy, hindex, _⟩ := h.copy copy hcopy
  exact ⟨moment, policy, hm, by omega, hpolicy, hindex⟩

end

lemma held_after (hregular : Regular limits tenantId start store slack events) :
    Held limits tenantId start store slack events := by
  induction events using reverseRecOn with
  | nil =>
    refine ⟨fun copy h => absurd h (Option.some_ne_none copy).symm, fun call hcall => ?_⟩
    rw [mem_singleton.1 hcall]
    trivial
  | append_singleton _ e ih =>
    have h := ih (hregular.mono (prefix_append _ _))
    cases e with
    -- neither the copy nor a call in flight is touched
    | tick duration | change op =>
      refine h.frame (by rw [after_snoc]; rfl) fun call hcall => .inl ?_
      rwa [after_snoc] at hcall
    | refresh =>
      refine h.frame ?_ fun call hcall => ?_
      · rw [after_snoc]
        simp only [World.step]
        split <;> rfl
      · rw [after_snoc] at hcall
        simp only [World.step] at hcall
        split at hcall
        · -- a refresh only adds a call that has read nothing yet
          rcases mem_append.1 hcall with hold | hnew
          · exact .inl hold
          · rw [mem_singleton.1 hnew]
            exact .inr trivial
        · exact .inl hcall
    | advance => exact h.advance hregular
    | fail =>
      refine h.frame ?_ fun call hcall => ?_
      · rw [after_snoc]
        simp only [World.step]
        split <;> rfl
      · rw [after_snoc] at hcall
        simp only [World.step] at hcall
        split at hcall
        · exact .inl hcall
        · rename_i old hold
          -- the call that failed ends without a stamp
          rcases mem_or_eq_of_mem_set hcall with hmem | rfl
          · exact .inl hmem
          · have hmem := mem_of_getElem? hold
            cases old <;> first | exact .inl hmem | exact .inr trivial

section

variable (h : Held limits tenantId start store slack events) {nowUnixSeconds : ℕ}
  {principal : ConnectionPrincipal}
include h

lemma Held.authorize {request : WorkspaceRpcRequest} {held : Role}
    (hgrant : (after limits tenantId start store events).authorize maxAge principal request nowUnixSeconds =
      .ok held) : ∃ moment policy, moment <+: events ∧
      (after limits tenantId start store events).now ≤
        (after limits tenantId start store moment).now + maxAge + slack ∧
      (after limits tenantId start store moment).store.policy tenantId = some policy ∧
      Authenticates policy principal nowUnixSeconds ∧
      Holds policy principal.principalId request.rootId held ∧ (classify request.operation).role ≤ held := by
  obtain ⟨copy, hfresh, hgrant⟩ := bind_eq_ok.1 hgrant
  obtain ⟨hcurrent, hgrant⟩ := refuseIf_bind hgrant
  obtain ⟨moment, policy, hm, hnow, hpolicy, hindex⟩ := h.fresh hfresh
  refine ⟨moment, policy, hm, hnow, hpolicy, ?_⟩
  have hcredential := hcurrent
  have hauthenticates : Authenticates policy principal nowUnixSeconds := by
    cases hc : copy.currentCredential principal.fingerprint nowUnixSeconds with
    | none => simp [hc] at hcredential
    | some credential =>
      rw [hindex] at hc
      obtain ⟨hmem, hfp, hexpires⟩ := currentCredential_index hc
      rw [← hindex] at hc
      exact ⟨credential, hmem, hfp, by simpa [hc] using hcredential, hexpires⟩
  split at hgrant
  · cases hgrant
  · rename_i role hrole
    split at hgrant
    · rename_i hrequired
      cases hgrant
      rw [hindex] at hrole
      exact ⟨hauthenticates, effectiveRole_index hrole, hrequired⟩
    · cases hgrant

end

/-- A moment of the last `maxAge + slack` is later than one before that. -/
lemma later_of_now {revoked : List Event} {age : ℕ} (hrevoked : revoked <+: events) (hm : moment <+: events)
    (hold : (after limits tenantId start store revoked).now + age <
      (after limits tenantId start store events).now)
    (hnow : (after limits tenantId start store events).now ≤
      (after limits tenantId start store moment).now + age) : revoked <+: moment := by
  rcases prefix_or_prefix_of_prefix hrevoked hm with hlater | hearlier
  · exact hlater
  · have hmono : (after limits tenantId start store moment).now ≤
        (after limits tenantId start store revoked).now := now_mono hearlier
    omega

/-- What every decision at the end of a run rests on. -/
structure Justified [Sha256] (limits : IdentityLimits) (tenantId : TenantId) (start : ℕ)
    (store : IdentityState) (maxAge slack : ℕ) (events : List Event) : Prop where
  /-- A request is granted on a policy that was current at most `maxAge + slack` ago. -/
  requests : ∀ principal request nowUnixSeconds held,
    (after limits tenantId start store events).authorize maxAge principal request nowUnixSeconds = .ok held →
      ∃ moment policy, moment <+: events ∧
        (after limits tenantId start store events).now ≤
          (after limits tenantId start store moment).now + maxAge + slack ∧
        (after limits tenantId start store moment).store.policy tenantId = some policy ∧
        Authenticates policy principal nowUnixSeconds ∧
        Holds policy principal.principalId request.rootId held ∧ (classify request.operation).role ≤ held
  /-- So is a connection. -/
  connections : ∀ certificate nowUnixSeconds principal,
    (after limits tenantId start store events).authenticate maxAge certificate nowUnixSeconds =
        .ok principal →
      principal.fingerprint = sha256 certificate ∧ ∃ moment policy, moment <+: events ∧
        (after limits tenantId start store events).now ≤
          (after limits tenantId start store moment).now + maxAge + slack ∧
        (after limits tenantId start store moment).store.policy tenantId = some policy ∧
        Authenticates policy principal nowUnixSeconds
  /-- No request is granted on a credential that was revoked before that. -/
  credentials : ∀ revoked principal request nowUnixSeconds held, revoked <+: events →
    (∀ moment policy, revoked <+: moment → moment <+: events →
      (after limits tenantId start store moment).store.policy tenantId = some policy →
        ∀ credential ∈ policy.credentials, credential.fingerprint ≠ principal.fingerprint) →
    (after limits tenantId start store revoked).now + (maxAge + slack) <
      (after limits tenantId start store events).now →
    (after limits tenantId start store events).authorize maxAge principal request nowUnixSeconds ≠ .ok held
  /-- Nor on a role that was. -/
  roles : ∀ revoked principal request nowUnixSeconds held, revoked <+: events →
    (∀ moment policy, revoked <+: moment → moment <+: events →
      (after limits tenantId start store moment).store.policy tenantId = some policy →
        ∀ binding ∈ policy.roleBindings, binding.principalId = principal.principalId →
          RoleScope.covers request.rootId binding.scope = true →
            binding.role < (classify request.operation).role) →
    (after limits tenantId start store revoked).now + (maxAge + slack) <
      (after limits tenantId start store events).now →
    (after limits tenantId start store events).authorize maxAge principal request nowUnixSeconds ≠ .ok held

/-- **Every grant is justified by a policy that was current at most `maxAge + slack` before it**, when
the revision behind each stamp was current at most `slack` before the stamp. -/
theorem grant_justified [Sha256] (maxAge : ℕ)
    (hregular : Regular limits tenantId start store slack events) :
    Justified limits tenantId start store maxAge slack events := by
  have h := held_after hregular
  refine ⟨fun _ _ _ _ => h.authorize, ?_, ?_, ?_⟩
  · intro certificate nowUnixSeconds principal hgrant
    obtain ⟨_, hfresh, hgrant⟩ := bind_eq_ok.1 hgrant
    obtain ⟨moment, policy, hm, hnow, hpolicy, hindex⟩ := h.fresh hfresh
    split at hgrant
    · cases hgrant
    · rename_i credential hc
      cases hgrant
      rw [hindex] at hc
      obtain ⟨hmem, hfp, hexpires⟩ := currentCredential_index hc
      exact ⟨rfl, moment, policy, hm, hnow, hpolicy, credential, hmem, hfp, rfl, hexpires⟩
  · intro revoked principal request nowUnixSeconds held hrevoked habsent hold hgrant
    obtain ⟨moment, policy, hm, hnow, hpolicy, ⟨credential, hmem, hfp, -⟩, -⟩ := h.authorize hgrant
    have hlater := later_of_now hrevoked hm hold (by omega)
    exact habsent moment policy hlater hm hpolicy credential hmem hfp
  · intro revoked principal request nowUnixSeconds held hrevoked habsent hold hgrant
    obtain ⟨moment, policy, hm, _, hpolicy, -, hholds, hrequired⟩ := h.authorize hgrant
    have hlater := later_of_now hrevoked hm hold (by omega)
    obtain ⟨binding, hmem, hprincipal, hcovers, hrole⟩ := hholds.1
    have hlow := habsent moment policy hlater hm hpolicy binding hmem hprincipal hcovers
    exact absurd hrequired (not_le.2 (hrole ▸ hlow))

lemma regular_nil : Regular limits tenantId start store slack [] where
  room before op rest h := by simp at h
  timely before i rest call revision h := by simp at h

lemma split_snoc {before rest : List Event} {x : Event} (h : events ++ [e] = before ++ x :: rest) :
    (before = events ∧ x = e) ∨ ∃ rest', events = before ++ x :: rest' := by
  rcases eq_nil_or_concat' rest with rfl | ⟨rest', _, rfl⟩
  · obtain ⟨rfl, hlast⟩ := append_inj' h rfl
    exact .inl ⟨rfl, by simpa using hlast.symm⟩
  · rw [← cons_append, ← append_assoc] at h
    exact .inr ⟨rest', (append_inj' h rfl).1⟩

lemma Regular.snoc (h : Regular limits tenantId start store slack events)
    (hchange : ∀ op, e = .change op →
      Room limits (after limits tenantId start store events).store tenantId op)
    (hadvance : ∀ i call revision, e = .advance i →
      (after limits tenantId start store events).calls[i]? = some call → call.read = some revision →
        ∃ moment, moment <+: events ∧
          (after limits tenantId start store moment).store.revision tenantId = some revision ∧
            (after limits tenantId start store events).now ≤
              (after limits tenantId start store moment).now + slack) :
    Regular limits tenantId start store slack (events ++ [e]) := by
  constructor
  · intro before op rest heq
    rcases split_snoc heq with ⟨rfl, hlast⟩ | ⟨rest', heq⟩
    · exact hchange op hlast.symm
    · exact h.room before op rest' heq
  · intro before i rest call revision heq
    rcases split_snoc heq with ⟨rfl, hlast⟩ | ⟨rest', heq⟩
    · exact hadvance i call revision hlast.symm
    · exact h.timely before i rest' call revision heq

/-- Whether no event of a sequence changes the records or stamps the copy. -/
def quiet (limits : IdentityLimits) (tenantId : TenantId) : World → List Event → Bool
  | _, [] => true
  | w, e :: more =>
    (match e with
      | .change _ => false
      | .advance i => ((w.calls[i]?).bind Call.read).isNone
      | _ => true) && quiet limits tenantId (w.step limits tenantId e) more

lemma Regular.append_quiet (h : Regular limits tenantId start store slack events) (more : List Event)
    (hquiet : quiet limits tenantId (after limits tenantId start store events) more = true) :
    Regular limits tenantId start store slack (events ++ more) := by
  induction more generalizing events with
  | nil => rwa [append_nil]
  | cons e more ih =>
    obtain ⟨hfirst, hrest⟩ := Bool.and_eq_true_iff.1 hquiet
    rw [append_cons]
    rw [← after_snoc] at hrest
    refine ih (h.snoc (fun op he => ?_) fun i call revision he hcall hread => ?_) hrest
    · subst he
      cases hfirst
    · subst he
      simp [hcall, hread] at hfirst

/-- A call stamps the copy with the revision of an earlier moment. -/
lemma Regular.stamp (h : Regular limits tenantId start store slack events) (i : ℕ) (moment : List Event)
    (revision : UInt64) (hm : moment <+: events)
    (hread : ((after limits tenantId start store events).calls[i]?).bind Call.read = some revision)
    (hrevision : (after limits tenantId start store moment).store.revision tenantId = some revision)
    (hnow : (after limits tenantId start store events).now ≤
      (after limits tenantId start store moment).now + slack) :
    Regular limits tenantId start store slack (events ++ [.advance i]) := by
  refine h.snoc (fun op he => by cases he) fun j call revision' he hcall hread' => ?_
  cases he
  rw [hcall, Option.bind_some, hread'] at hread
  cases hread
  exact ⟨moment, hm, hrevision, hnow⟩

end Runs

/-! ### A slow control read -/

/-- The records of a tenant whose principal may read every root. -/
def sampleStore : IdentityState :=
  IdentityState.empty.run .default
    [.createTenant sampleTenant, .createPrincipal samplePrincipal, .addCredential sampleCredential,
     .grantRole ⟨sampleTenant, .fill 16 2, .reader, .tenant⟩]

def sampleConnection : ConnectionPrincipal := ⟨.fill 16 2, .fill 32 3⟩

def sampleRequest : WorkspaceRpcRequest := ⟨.fill 16 9, .getWorkspace⟩

/-- The owner loads its copy; at time 8 the principal gets another role, and a refresh that takes 2 loads
the changed policy. -/
def refreshedCopy : List Event :=
  [.advance 0] ++ [.advance 0] ++ [.tick 8] ++
    [.change (.grantRole ⟨sampleTenant, .fill 16 2, .writer, .tenant⟩)] ++
    [.refresh, .advance 1, .advance 1, .advance 1, .tick 2] ++ [.advance 1] ++ [.tick 9]

lemma regular_refreshedCopy : Regular .default sampleTenant 0 sampleStore 2 refreshedCopy := by
  have hload : Regular .default sampleTenant 0 sampleStore 2 [.advance 0] :=
    regular_nil.append_quiet _ (by decide +kernel)
  have hloaded : Regular .default sampleTenant 0 sampleStore 2 ([.advance 0] ++ [.advance 0]) :=
    hload.stamp 0 [.advance 0] 4 prefix_rfl (by decide +kernel) (by decide +kernel) (by decide +kernel)
  have hgrant : Regular .default sampleTenant 0 sampleStore 2
      ([.advance 0] ++ [.advance 0] ++ [.tick 8] ++
        [.change (.grantRole ⟨sampleTenant, .fill 16 2, .writer, .tenant⟩)]) := by
    refine (hloaded.append_quiet _ (by decide +kernel)).snoc (fun op he => ?_) fun i call revision he => by cases he
    cases he
    intro tenant next htenant _ _
    have hrevision : tenant.revision = 4 := Option.some.inj <|
      (congrArg (Option.map TenantState.revision) htenant).symm.trans (by decide +kernel)
    rw [hrevision]
    decide
  have hread := hgrant.append_quiet [.refresh, .advance 1, .advance 1, .advance 1, .tick 2] (by decide +kernel)
  exact (hread.stamp 1 _ 5 (prefix_append _ _) (by decide +kernel) (by decide +kernel)
    (by decide +kernel)).append_quiet _ (by decide +kernel)

theorem grant_justified_load :
    (after .default sampleTenant 0 sampleStore refreshedCopy).authorize 10 sampleConnection sampleRequest 0 =
        .ok .writer ∧
      @Justified sha256Digest .default sampleTenant 0 sampleStore 10 2 refreshedCopy :=
  ⟨by decide +kernel,
    @grant_justified .default sampleTenant 0 sampleStore 2 _ sha256Digest 10 regular_refreshedCopy⟩

/-- A refresh reads the revision at time 0. The credential is revoked at time 1; the answer arrives
at time 100, is found equal to the copy's revision, and stamps the copy. -/
def slowRead : List Event :=
  [.advance 0, .advance 0, .refresh, .advance 1, .tick 1,
   .change (.revokeCredential sampleTenant (.fill 32 3)), .tick 99, .advance 1, .advance 1, .tick 5]

/-- **A grant on a credential that was revoked 104 before, with a bound of 10**: no policy of the last 10
binds the credential. -/
theorem stale_grant :
    (after .default sampleTenant 0 sampleStore slowRead).authorize 10 sampleConnection sampleRequest 0 =
      .ok .reader ∧
    ∀ moment ∈ slowRead.inits,
      (after .default sampleTenant 0 sampleStore slowRead).now ≤
        (after .default sampleTenant 0 sampleStore moment).now + 10 →
      ∀ policy ∈ (after .default sampleTenant 0 sampleStore moment).store.policy sampleTenant,
        ∀ credential ∈ policy.credentials, credential.fingerprint ≠ sampleConnection.fingerprint := by
  decide +kernel

end NoKV.Access
