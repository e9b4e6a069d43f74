import NoKV.Control.Types
import Mathlib.Data.List.Lex
import Mathlib.Data.Prod.Lex
import NoKV.Lib.Table

/-!
# Tenant identity records

The tenants of a deployment, their principals, the credentials that authenticate those principals,
the roles they hold, the tenant that owns each root and the Workbench root a root is presented
under, with the transitions that the in-memory and the local control store run.

* `Effect`, `step_effect`: everything an operation can do to the records;
* `Tenancy.step`: credentials and roles name principals and roots of their own tenant;
* `Versioned.run`: along a run equal revisions of a tenant are equal records, as long as its records do
  not change at the last revision (`Room`);
* `step_of_applied`: an operation whose effect is in place changes nothing.

A revision that cannot advance any more fails the operation after its change was made
(`Effect.overflowed`).
-/

namespace NoKV.Identity

open Lib
open OrdMap hiding get insert erase empty

/-! ### Records -/

abbrev TenantId := FixedBytes 16
/-- SHA-256 fingerprint of a client certificate. -/
abbrev CredentialFingerprint := FixedBytes 32
/-- The Workbench root the agents of a root see; the records only compare it. -/
abbrev WorkbenchRoot := String

/-- What a principal may do on the roots a role binding covers. Each role includes the ones before. -/
inductive Role where
  | reader
  | writer
  | operator
  deriving DecidableEq, Repr

/-- The durable discriminant, which is also the order of the roles. -/
def Role.toNat : Role → ℕ
  | reader => 1
  | writer => 2
  | operator => 3

instance : LinearOrder Role := LinearOrder.lift' Role.toNat fun a b h => by
  cases a <;> cases b <;> first | rfl | cases h

inductive RoleScope where
  | tenant
  | root (rootId : RootId)
  deriving DecidableEq

/-- The scope as its place in the order: the tenant first, then the roots. -/
def RoleScope.key : RoleScope → WithBot RootId
  | tenant => ⊥
  | root rootId => rootId

instance : LinearOrder RoleScope := LinearOrder.lift' RoleScope.key fun a b h => by
  cases a <;> cases b
  · rfl
  · cases h
  · cases h
  · cases h
    rfl

/-- One role a principal holds on its tenant or on one root of its tenant. -/
structure RoleBinding where
  tenantId : TenantId
  principalId : PrincipalId
  role : Role
  scope : RoleScope
  deriving DecidableEq

instance : LinearOrder RoleBinding :=
  LinearOrder.lift' (fun b => toLex (b.tenantId, toLex (b.principalId, toLex (b.role, b.scope))))
    fun a b h => by
      cases a
      cases b
      cases h
      rfl

/-- One client certificate that authenticates a principal until it expires. -/
structure CredentialBinding where
  tenantId : TenantId
  principalId : PrincipalId
  fingerprint : CredentialFingerprint
  expiresAtUnixSeconds : ℕ
  deriving DecidableEq

structure PrincipalRecord where
  tenantId : TenantId
  principalId : PrincipalId
  deriving DecidableEq

structure RootTenantBinding where
  rootId : RootId
  tenantId : TenantId
  deriving DecidableEq

structure RootPresentationBinding where
  rootId : RootId
  workbenchRoot : WorkbenchRoot
  deriving DecidableEq

/-- One consistent read of a tenant's principals, credentials and roles. -/
structure TenantPolicy where
  tenantId : TenantId
  revision : UInt64
  principals : List PrincipalRecord
  credentials : List CredentialBinding
  roleBindings : List RoleBinding
  deriving DecidableEq

structure IdentityLimits where
  principals : ℕ
  credentials : ℕ
  roleBindings : ℕ

def IdentityLimits.default : IdentityLimits := ⟨1024, 2048, 4096⟩

inductive IdentityError where
  | tenantNotFound (tenantId : TenantId)
  | principalNotFound (tenantId : TenantId) (principalId : PrincipalId)
  | credentialAlreadyBound (tenantId : TenantId) (fingerprint : CredentialFingerprint)
  | rootTenantAlreadyBound (rootId : RootId)
  | rootPresentationAlreadyBound (rootId : RootId)
  | rootNotInTenant (rootId : RootId) (tenantId : TenantId)
  | tenantPolicyLimitExceeded (tenantId : TenantId) (record : String) (limit : ℕ)
  | invalidOptions (reason : String)
  | backend (reason : String)
  deriving DecidableEq

/-- A set of keys: a table without values. -/
abbrev Keys (κ : Type) [LinearOrder κ] := OrdMap κ Unit

structure TenantState where
  revision : UInt64
  principals : Keys PrincipalId
  credentials : OrdMap CredentialFingerprint CredentialBinding
  roleBindings : Keys RoleBinding
  deriving DecidableEq

structure IdentityState where
  tenants : OrdMap TenantId TenantState
  rootTenants : OrdMap RootId TenantId
  rootPresentations : OrdMap RootId WorkbenchRoot
  deriving DecidableEq

def IdentityState.empty : IdentityState := ⟨.empty, .empty, .empty⟩

/-! ### Checks -/

def validateCredential (credential : CredentialBinding) : Except IdentityError Unit :=
  refuseIf (credential.expiresAtUnixSeconds = 0)
    (IdentityError.invalidOptions "a credential must expire at a non-zero Unix time")

def checkLimit (tenantId : TenantId) (record : String) (current limit : ℕ) : Except IdentityError Unit :=
  refuseIf (limit ≤ current) (IdentityError.tenantPolicyLimitExceeded tenantId record limit)

def requireRootInTenant (rootId : RootId) (owner : Option TenantId) (tenantId : TenantId) :
    Except IdentityError Unit :=
  refuseIf (owner ≠ some tenantId) (IdentityError.rootNotInTenant rootId tenantId)

/-- The check of the root a role names; a role on the whole tenant has none. -/
def requireScope (owner : RootId → Option TenantId) (scope : RoleScope) (tenantId : TenantId) :
    Except IdentityError Unit :=
  match scope with
  | .tenant => pure ()
  | .root rootId => requireRootInTenant rootId (owner rootId) tenantId

def requirePrincipal (tenant : TenantState) (tenantId : TenantId) (principalId : PrincipalId) :
    Except IdentityError Unit :=
  refuseIf (tenant.principals.get principalId = none) (IdentityError.principalNotFound tenantId principalId)

/-! ### Transitions -/

inductive Answer where
  | tenant (tenantId : TenantId)
  | principal (principal : PrincipalRecord)
  | credential (credential : CredentialBinding)
  | role (binding : RoleBinding)
  | removed (removed : Bool)
  | rootTenant (binding : RootTenantBinding)
  | rootPresentation (binding : RootPresentationBinding)
  deriving DecidableEq

/-- The failure of `advance_revision`. -/
def revisionOverflow : IdentityError := .backend "tenant policy revision overflowed"

namespace IdentityState

def put (s : IdentityState) (tenantId : TenantId) (tenant : TenantState) : IdentityState :=
  { s with tenants := s.tenants.insert tenantId tenant }

/-- Change the records of a tenant in place: `plan` checks and gives the changed records, or none if
the operation is a replay. The revision advances after the change, so a revision that cannot
advance fails an operation that has already changed the records. -/
def update (s : IdentityState) (tenantId : TenantId) (answer : Bool → Answer)
    (plan : TenantState → Except IdentityError (Option TenantState)) :
    Except IdentityError Answer × IdentityState :=
  match s.tenants.get tenantId with
  | none => (.error (.tenantNotFound tenantId), s)
  | some tenant =>
    match plan tenant with
    | .error e => (.error e, s)
    | .ok none => (.ok (answer false), s)
    | .ok (some next) =>
      match checkedAdd next.revision 1 with
      | some revision => (.ok (answer true), s.put tenantId { next with revision })
      | none => (.error revisionOverflow, s.put tenantId next)

def createTenant (s : IdentityState) (tenantId : TenantId) : Except IdentityError Answer × IdentityState :=
  match s.tenants.get tenantId with
  | some _ => (.ok (.tenant tenantId), s)
  | none => (.ok (.tenant tenantId), s.put tenantId ⟨1, .empty, .empty, .empty⟩)

def planPrincipal (principal : PrincipalRecord) (limits : IdentityLimits) (tenant : TenantState) :
    Except IdentityError (Option TenantState) :=
  if (tenant.principals.get principal.principalId).isSome then pure none
  else do
    checkLimit principal.tenantId "principal" tenant.principals.size limits.principals
    pure (some { tenant with principals := tenant.principals.insert principal.principalId () })

def createPrincipal (s : IdentityState) (principal : PrincipalRecord) (limits : IdentityLimits) :
    Except IdentityError Answer × IdentityState :=
  s.update principal.tenantId (fun _ => .principal principal) (planPrincipal principal limits)

def planCredential (credential : CredentialBinding) (limits : IdentityLimits) (tenant : TenantState) :
    Except IdentityError (Option TenantState) := do
  requirePrincipal tenant credential.tenantId credential.principalId
  match tenant.credentials.get credential.fingerprint with
  | some existing =>
    if existing = credential then pure none
    else .error (.credentialAlreadyBound credential.tenantId credential.fingerprint)
  | none => do
    checkLimit credential.tenantId "credential" tenant.credentials.size limits.credentials
    pure (some { tenant with credentials := tenant.credentials.insert credential.fingerprint credential })

def addCredential (s : IdentityState) (credential : CredentialBinding) (limits : IdentityLimits) :
    Except IdentityError Answer × IdentityState :=
  match validateCredential credential with
  | .error e => (.error e, s)
  | .ok () =>
    s.update credential.tenantId (fun _ => .credential credential) (planCredential credential limits)

def planRevokedCredential (fingerprint : CredentialFingerprint) (tenant : TenantState) :
    Except IdentityError (Option TenantState) :=
  match tenant.credentials.get fingerprint with
  | none => pure none
  | some _ => pure (some { tenant with credentials := tenant.credentials.erase fingerprint })

def revokeCredential (s : IdentityState) (tenantId : TenantId) (fingerprint : CredentialFingerprint) :
    Except IdentityError Answer × IdentityState :=
  s.update tenantId .removed (planRevokedCredential fingerprint)

/-- What granting a role changes in its tenant; `owner` is the tenant of the root the role names. -/
def planRole (binding : RoleBinding) (limits : IdentityLimits) (owner : RootId → Option TenantId)
    (tenant : TenantState) : Except IdentityError (Option TenantState) := do
  requirePrincipal tenant binding.tenantId binding.principalId
  requireScope owner binding.scope binding.tenantId
  if (tenant.roleBindings.get binding).isSome then pure none
  else do
    checkLimit binding.tenantId "role binding" tenant.roleBindings.size limits.roleBindings
    pure (some { tenant with roleBindings := tenant.roleBindings.insert binding () })

def grantRole (s : IdentityState) (binding : RoleBinding) (limits : IdentityLimits) :
    Except IdentityError Answer × IdentityState :=
  s.update binding.tenantId (fun _ => .role binding) (planRole binding limits s.rootTenants.get)

def planRevokedRole (binding : RoleBinding) (tenant : TenantState) :
    Except IdentityError (Option TenantState) :=
  match tenant.roleBindings.get binding with
  | none => pure none
  | some _ => pure (some { tenant with roleBindings := tenant.roleBindings.erase binding })

def revokeRole (s : IdentityState) (binding : RoleBinding) : Except IdentityError Answer × IdentityState :=
  s.update binding.tenantId .removed (planRevokedRole binding)

def bindRootTenant (s : IdentityState) (binding : RootTenantBinding) :
    Except IdentityError Answer × IdentityState :=
  match s.tenants.get binding.tenantId, s.rootTenants.get binding.rootId with
  | none, _ => (.error (.tenantNotFound binding.tenantId), s)
  | some _, some tenantId =>
    if tenantId = binding.tenantId then (.ok (.rootTenant binding), s)
    else (.error (.rootTenantAlreadyBound binding.rootId), s)
  | some _, none =>
    (.ok (.rootTenant binding),
      { s with rootTenants := s.rootTenants.insert binding.rootId binding.tenantId })

def bindRootPresentation (s : IdentityState) (binding : RootPresentationBinding) :
    Except IdentityError Answer × IdentityState :=
  match s.rootPresentations.get binding.rootId with
  | some existing =>
    if existing = binding.workbenchRoot then (.ok (.rootPresentation binding), s)
    else (.error (.rootPresentationAlreadyBound binding.rootId), s)
  | none =>
    (.ok (.rootPresentation binding),
      { s with rootPresentations := s.rootPresentations.insert binding.rootId binding.workbenchRoot })

def policy (s : IdentityState) (tenantId : TenantId) : Option TenantPolicy :=
  (s.tenants.get tenantId).map fun tenant =>
    { tenantId
      revision := tenant.revision
      principals := tenant.principals.rows.map fun row => ⟨tenantId, row.1⟩
      credentials := tenant.credentials.rows.map Prod.snd
      roleBindings := tenant.roleBindings.rows.map Prod.fst }

def revision (s : IdentityState) (tenantId : TenantId) : Option UInt64 :=
  (s.tenants.get tenantId).map TenantState.revision

end IdentityState

inductive Op where
  | createTenant (tenantId : TenantId)
  | createPrincipal (principal : PrincipalRecord)
  | addCredential (credential : CredentialBinding)
  | revokeCredential (tenantId : TenantId) (fingerprint : CredentialFingerprint)
  | grantRole (binding : RoleBinding)
  | revokeRole (binding : RoleBinding)
  | bindRootTenant (binding : RootTenantBinding)
  | bindRootPresentation (binding : RootPresentationBinding)

namespace IdentityState

def step (limits : IdentityLimits) (s : IdentityState) : Op → Except IdentityError Answer × IdentityState
  | .createTenant tenantId => s.createTenant tenantId
  | .createPrincipal principal => s.createPrincipal principal limits
  | .addCredential credential => s.addCredential credential limits
  | .revokeCredential tenantId fingerprint => s.revokeCredential tenantId fingerprint
  | .grantRole binding => s.grantRole binding limits
  | .revokeRole binding => s.revokeRole binding
  | .bindRootTenant binding => s.bindRootTenant binding
  | .bindRootPresentation binding => s.bindRootPresentation binding

def run (limits : IdentityLimits) (s : IdentityState) (ops : List Op) : IdentityState :=
  ops.foldl (fun s op => (s.step limits op).2) s

end IdentityState

/-! ### What an operation can do -/

open IdentityState

section Effect

variable {limits : IdentityLimits} {s : IdentityState} {tenantId : TenantId} {tenant next : TenantState}
  {binding : RoleBinding}

/-- A change of the records of one tenant, before its revision advances. -/
inductive Change (s : IdentityState) (tenantId : TenantId) (tenant : TenantState) : TenantState → Prop where
  | principal {principalId : PrincipalId} (absent : tenant.principals.get principalId = none) :
      Change s tenantId tenant { tenant with principals := tenant.principals.insert principalId () }
  | credential {credential : CredentialBinding} (names : credential.tenantId = tenantId)
      (registered : tenant.principals.get credential.principalId ≠ none)
      (absent : tenant.credentials.get credential.fingerprint = none) :
      Change s tenantId tenant
        { tenant with credentials := tenant.credentials.insert credential.fingerprint credential }
  | revokedCredential {fingerprint : CredentialFingerprint}
      (present : tenant.credentials.get fingerprint ≠ none) :
      Change s tenantId tenant { tenant with credentials := tenant.credentials.erase fingerprint }
  | role {binding : RoleBinding} (names : binding.tenantId = tenantId)
      (registered : tenant.principals.get binding.principalId ≠ none)
      (owned : ∀ rootId, binding.scope = .root rootId → s.rootTenants.get rootId = some tenantId)
      (absent : tenant.roleBindings.get binding = none) :
      Change s tenantId tenant { tenant with roleBindings := tenant.roleBindings.insert binding () }
  | revokedRole {binding : RoleBinding} (present : tenant.roleBindings.get binding ≠ none) :
      Change s tenantId tenant { tenant with roleBindings := tenant.roleBindings.erase binding }

/-- The principals, credentials and roles of a tenant. -/
def TenantState.contents (tenant : TenantState) :
    Keys PrincipalId × OrdMap CredentialFingerprint CredentialBinding × Keys RoleBinding :=
  (tenant.principals, tenant.credentials, tenant.roleBindings)

lemma Change.revision (h : Change s tenantId tenant next) : next.revision = tenant.revision := by
  cases h <;> rfl

lemma Change.contents_ne (h : Change s tenantId tenant next) : next.contents ≠ tenant.contents := by
  intro heq
  cases h with
  | principal absent => exact insert_ne absent (congrArg Prod.fst heq)
  | credential _ _ absent => exact insert_ne absent (congrArg (fun c => c.2.1) heq)
  | revokedCredential present => exact erase_ne present (congrArg (fun c => c.2.1) heq)
  | role _ _ _ absent => exact insert_ne absent (congrArg (fun c => c.2.2) heq)
  | revokedRole present => exact erase_ne present (congrArg (fun c => c.2.2) heq)

/-- Everything an operation can do to the records. -/
inductive Effect (s : IdentityState) : Except IdentityError Answer → IdentityState → Prop where
  | same (r : Except IdentityError Answer) : Effect s r s
  | created {tenantId : TenantId} {answer : Answer} (absent : s.tenants.get tenantId = none) :
      Effect s (.ok answer) (s.put tenantId ⟨1, .empty, .empty, .empty⟩)
  | changed {tenantId : TenantId} {tenant next : TenantState} {revision : UInt64} {answer : Answer}
      (found : s.tenants.get tenantId = some tenant) (change : Change s tenantId tenant next)
      (advanced : checkedAdd tenant.revision 1 = some revision) :
      Effect s (.ok answer) (s.put tenantId { next with revision })
  | overflowed {tenantId : TenantId} {tenant next : TenantState}
      (found : s.tenants.get tenantId = some tenant) (change : Change s tenantId tenant next)
      (exhausted : checkedAdd tenant.revision 1 = none) :
      Effect s (.error revisionOverflow) (s.put tenantId next)
  | bound {rootId : RootId} {tenantId : TenantId} {answer : Answer}
      (absent : s.rootTenants.get rootId = none) :
      Effect s (.ok answer) { s with rootTenants := s.rootTenants.insert rootId tenantId }
  | presented {presentations : OrdMap RootId WorkbenchRoot} {answer : Answer} :
      Effect s (.ok answer) { s with rootPresentations := presentations }

/-- A plan that gives only changes has the effect of an update. -/
lemma update_effect {answer : Bool → Answer}
    {plan : TenantState → Except IdentityError (Option TenantState)}
    (hplan : ∀ tenant next, plan tenant = .ok (some next) → Change s tenantId tenant next) :
    Effect s (s.update tenantId answer plan).1 (s.update tenantId answer plan).2 := by
  unfold IdentityState.update
  split
  · exact .same _
  · rename_i tenant hget
    split
    · exact .same _
    · exact .same _
    · rename_i next hp
      have hchange := hplan tenant next hp
      split
      · rename_i revision hrev
        exact .changed hget hchange (hchange.revision ▸ hrev)
      · rename_i hrev
        exact .overflowed hget hchange (hchange.revision ▸ hrev)

lemma requirePrincipal_eq_ok {principalId : PrincipalId} {u : Unit} :
    requirePrincipal tenant tenantId principalId = .ok u ↔ tenant.principals.get principalId ≠ none :=
  refuseIf_eq_ok

lemma requireScope_eq_ok {owner : RootId → Option TenantId} {scope : RoleScope} {u : Unit} :
    requireScope owner scope tenantId = .ok u ↔
      ∀ rootId, scope = .root rootId → owner rootId = some tenantId := by
  cases scope with
  | tenant => exact ⟨fun _ _ h => RoleScope.noConfusion h, fun _ => rfl⟩
  | root rootId =>
    refine refuseIf_eq_ok.trans ⟨fun h root heq => ?_, fun h => not_not.2 (h rootId rfl)⟩
    cases heq
    exact not_not.1 h

lemma planPrincipal_change {principal : PrincipalRecord}
    (h : planPrincipal principal limits tenant = .ok (some next)) :
    Change s principal.tenantId tenant next := by
  unfold planPrincipal at h
  split at h
  · cases h
  · rename_i habsent
    obtain ⟨-, -, h⟩ := bind_eq_ok.1 h
    cases h
    exact .principal (by simpa using habsent)

lemma planCredential_change {credential : CredentialBinding}
    (h : planCredential credential limits tenant = .ok (some next)) :
    Change s credential.tenantId tenant next := by
  obtain ⟨_, hregistered, h⟩ := bind_eq_ok.1 h
  split at h
  · split at h <;> cases h
  · rename_i habsent
    obtain ⟨-, -, h⟩ := bind_eq_ok.1 h
    cases h
    exact .credential rfl (requirePrincipal_eq_ok.1 hregistered) habsent

lemma planRevokedCredential_change {fingerprint : CredentialFingerprint}
    (h : planRevokedCredential fingerprint tenant = .ok (some next)) :
    Change s tenantId tenant next := by
  unfold planRevokedCredential at h
  split at h
  · cases h
  · rename_i hpresent
    cases h
    exact .revokedCredential (by rw [hpresent]; exact Option.some_ne_none _)

lemma planRole_change (h : planRole binding limits s.rootTenants.get tenant = .ok (some next)) :
    Change s binding.tenantId tenant next := by
  obtain ⟨_, hregistered, h⟩ := bind_eq_ok.1 h
  obtain ⟨_, howned, h⟩ := bind_eq_ok.1 h
  split at h
  · cases h
  · rename_i habsent
    obtain ⟨-, -, h⟩ := bind_eq_ok.1 h
    cases h
    exact .role rfl (requirePrincipal_eq_ok.1 hregistered) (requireScope_eq_ok.1 howned)
      (by simpa using habsent)

lemma planRevokedRole_change (h : planRevokedRole binding tenant = .ok (some next)) :
    Change s tenantId tenant next := by
  unfold planRevokedRole at h
  split at h
  · cases h
  · rename_i hpresent
    cases h
    exact .revokedRole (by rw [hpresent]; exact Option.some_ne_none _)

/-- **What an operation does.** -/
theorem step_effect (limits : IdentityLimits) (s : IdentityState) (op : Op) :
    Effect s (s.step limits op).1 (s.step limits op).2 := by
  cases op with
  | createTenant =>
    simp only [step, createTenant]
    split
    · exact .same _
    · exact .created ‹_›
  | createPrincipal => exact update_effect fun _ _ => planPrincipal_change
  | addCredential =>
    simp only [step, addCredential]
    split
    · exact .same _
    · exact update_effect fun _ _ => planCredential_change
  | revokeCredential => exact update_effect fun _ _ => planRevokedCredential_change
  | grantRole => exact update_effect fun _ _ => planRole_change
  | revokeRole => exact update_effect fun _ _ => planRevokedRole_change
  | bindRootTenant =>
    simp only [step, bindRootTenant]
    split
    · exact .same _
    · split <;> exact .same _
    · exact .bound ‹_›
  | bindRootPresentation =>
    simp only [step, bindRootPresentation]
    split
    · split <;> exact .same _
    · exact .presented

end Effect

/-! ### Tenancy -/

/-- The credentials and roles of a tenant name its own principals, and its roles its own roots. -/
structure TenantState.Closed (s : IdentityState) (tenantId : TenantId) (tenant : TenantState) : Prop where
  credentials : ∀ fingerprint credential, tenant.credentials.get fingerprint = some credential →
    credential.fingerprint = fingerprint ∧ credential.tenantId = tenantId ∧
      tenant.principals.get credential.principalId ≠ none
  roles : ∀ binding, tenant.roleBindings.get binding ≠ none →
    binding.tenantId = tenantId ∧ tenant.principals.get binding.principalId ≠ none ∧
      ∀ rootId, binding.scope = .root rootId → s.rootTenants.get rootId = some tenantId

def Tenancy (s : IdentityState) : Prop :=
  ∀ tenantId tenant, s.tenants.get tenantId = some tenant → tenant.Closed s tenantId

section Tenancy

variable {limits : IdentityLimits} {s s' : IdentityState} {tenantId : TenantId} {tenant next : TenantState}
variable {r : Except IdentityError Answer}

lemma tenancy_empty : Tenancy .empty := fun _ _ h => by cases h

lemma TenantState.Closed.mono (h : tenant.Closed s tenantId)
    (hroots : ∀ rootId, s.rootTenants.get rootId = some tenantId →
      s'.rootTenants.get rootId = some tenantId) :
    tenant.Closed s' tenantId where
  credentials := h.credentials
  roles binding hb :=
    have ⟨hnames, hregistered, howned⟩ := h.roles binding hb
    ⟨hnames, hregistered, fun rootId hscope => hroots rootId (howned rootId hscope)⟩

lemma TenantState.Closed.change (h : tenant.Closed s tenantId) (hchange : Change s tenantId tenant next) :
    next.Closed s tenantId := by
  cases hchange with
  | @principal principalId =>
    -- principals are never removed
    have hkept : ∀ p, tenant.principals.get p ≠ none →
        (tenant.principals.insert principalId ()).get p ≠ none := by
      intro p hp
      rw [get_insert]
      split
      · exact Option.some_ne_none _
      · exact hp
    refine ⟨fun fingerprint credential hc => ?_, fun binding hb => ?_⟩
    · obtain ⟨hfp, hnames, hregistered⟩ := h.credentials fingerprint credential hc
      exact ⟨hfp, hnames, hkept _ hregistered⟩
    · obtain ⟨hnames, hregistered, howned⟩ := h.roles binding hb
      exact ⟨hnames, hkept _ hregistered, howned⟩
  | @credential added names registered =>
    refine ⟨fun fingerprint credential hc => ?_, h.roles⟩
    have hc : (tenant.credentials.insert added.fingerprint added).get fingerprint = some credential := hc
    rcases get_insert_cases hc with ⟨rfl, rfl⟩ | ⟨-, hc⟩
    · exact ⟨rfl, names, registered⟩
    · exact h.credentials fingerprint credential hc
  | revokedCredential =>
    refine ⟨fun fingerprint credential hc => ?_, h.roles⟩
    exact h.credentials fingerprint credential (get_of_get_erase hc)
  | @role added names registered owned =>
    refine ⟨h.credentials, fun binding hb => ?_⟩
    have hb : (tenant.roleBindings.insert added ()).get binding ≠ none := hb
    rw [get_insert] at hb
    split at hb
    · rename_i heq
      subst heq
      exact ⟨names, registered, owned⟩
    · exact h.roles binding hb
  | @revokedRole removed =>
    refine ⟨h.credentials, fun binding hb => ?_⟩
    have hb : (tenant.roleBindings.erase removed).get binding ≠ none := hb
    rw [get_erase] at hb
    split at hb
    · exact absurd rfl hb
    · exact h.roles binding hb

lemma TenantState.Closed.revision (h : tenant.Closed s tenantId) (revision : UInt64) :
    ({ tenant with revision } : TenantState).Closed s tenantId := ⟨h.credentials, h.roles⟩

lemma Tenancy.put (h : Tenancy s) (hnext : next.Closed s tenantId) : Tenancy (s.put tenantId next) := by
  intro t tenant ht
  have ht : (s.tenants.insert tenantId next).get t = some tenant := ht
  rcases get_insert_cases ht with ⟨rfl, rfl⟩ | ⟨-, ht⟩
  · exact hnext.mono fun _ => id
  · exact (h t tenant ht).mono fun _ => id

lemma Tenancy.effect (h : Tenancy s) (heffect : Effect s r s') : Tenancy s' := by
  cases heffect with
  | same => exact h
  | created =>
    refine h.put ⟨fun fingerprint credential hc => ?_, fun binding hb => ?_⟩
    · cases hc
    · exact absurd rfl hb
  | changed found change => exact h.put (((h _ _ found).change change).revision _)
  | overflowed found change => exact h.put ((h _ _ found).change change)
  | @bound _ _ _ absent =>
    refine fun t tenant ht => (h t tenant ht).mono fun root hroot => ?_
    rw [get_insert]
    split
    · rename_i heq
      rw [heq, absent] at hroot
      cases hroot
    · exact hroot
  | presented => exact fun t tenant ht => (h t tenant ht).mono fun _ => id

lemma Tenancy.step (h : Tenancy s) (limits : IdentityLimits) (op : Op) : Tenancy (s.step limits op).2 :=
  h.effect (step_effect limits s op)

lemma Effect.rootTenants {rootId : RootId} (heffect : Effect s r s')
    (h : s.rootTenants.get rootId = some tenantId) : s'.rootTenants.get rootId = some tenantId := by
  cases heffect with
  | same | created absent | changed found change advanced | overflowed found change exhausted => exact h
  | bound absent =>
    rw [get_insert]
    split
    · rename_i heq
      rw [heq, absent] at h
      cases h
    · exact h
  | presented => exact h

end Tenancy

/-! ### Revisions -/

/-- One step of a tenant: its revision advances by one exactly when its contents change. -/
def TenantState.Next (tenant next : TenantState) : Prop :=
  (next.contents = tenant.contents ∧ next.revision = tenant.revision) ∨
    (next.contents ≠ tenant.contents ∧ next.revision.toNat = tenant.revision.toNat + 1)

/-- The tenant makes a step, exactly if it does not change its contents at the last revision. -/
def TenantState.Advances (tenant next : TenantState) : Prop :=
  tenant.Next next ↔ (next.contents ≠ tenant.contents → tenant.revision.toNat < 2 ^ 64 - 1)

/-- An operation that changes the contents of a tenant finds its revision below the last one. -/
def Room (limits : IdentityLimits) (s : IdentityState) (tenantId : TenantId) (op : Op) : Prop :=
  ∀ tenant next, s.tenants.get tenantId = some tenant →
    (s.step limits op).2.tenants.get tenantId = some next → next.contents ≠ tenant.contents →
      tenant.revision.toNat < 2 ^ 64 - 1

/-- From one moment to a later one: the tenant stays as it was or its revision is higher. -/
def Versioned (tenantId : TenantId) (s s' : IdentityState) : Prop :=
  ∀ tenant, s.tenants.get tenantId = some tenant →
    ∃ next, s'.tenants.get tenantId = some next ∧ (next = tenant ∨ tenant.revision < next.revision)

section Versions

variable {limits : IdentityLimits} {s s' s'' : IdentityState} {tenantId : TenantId}
variable {tenant next : TenantState}
variable {r : Except IdentityError Answer}

lemma TenantState.ext_contents (hcontents : next.contents = tenant.contents)
    (hrevision : next.revision = tenant.revision) : next = tenant := by
  cases next
  cases tenant
  cases hcontents
  cases hrevision
  rfl

lemma TenantState.Next.refl (tenant : TenantState) : tenant.Next tenant := .inl ⟨rfl, rfl⟩

lemma TenantState.Next.versioned (h : tenant.Next next) :
    next = tenant ∨ tenant.revision < next.revision := by
  rcases h with ⟨hcontents, hrevision⟩ | ⟨-, hrevision⟩
  · exact .inl (TenantState.ext_contents hcontents hrevision)
  · refine .inr (UInt64.lt_iff_toNat_lt.2 ?_)
    omega

/-- The revision of a tenant moves with its contents, unless these change at the last revision. -/
lemma Effect.advances (heffect : Effect s r s') (h : s.tenants.get tenantId = some tenant) :
    ∃ next, s'.tenants.get tenantId = some next ∧ tenant.Advances next := by
  have hrefl : tenant.Advances tenant := iff_of_true (.refl tenant) fun hne => absurd rfl hne
  -- a put of another tenant leaves this one
  have hput : ∀ (t : TenantId) (other : TenantState), (t = tenantId → tenant.Advances other) →
      ∃ next, (s.put t other).tenants.get tenantId = some next ∧ tenant.Advances next := by
    intro t other hother
    by_cases heq : t = tenantId
    · subst heq
      exact ⟨other, get_insert_self _ _ _, hother rfl⟩
    · refine ⟨tenant, ?_, hrefl⟩
      rw [← h]
      exact get_insert_of_ne _ (Ne.symm heq)
  cases heffect with
  | same => exact ⟨tenant, h, hrefl⟩
  | created absent =>
    refine hput _ _ fun heq => ?_
    rw [heq, h] at absent
    cases absent
  | @changed _ _ _ revision _ found change advanced =>
    refine hput _ _ fun heq => ?_
    rw [heq, h] at found
    cases found
    have hrevision : revision.toNat = tenant.revision.toNat + 1 := checkedAdd_eq_some.1 advanced
    have hlt := revision.toNat_lt
    exact iff_of_true (.inr ⟨change.contents_ne, hrevision⟩) fun _ => by omega
  | overflowed found change exhausted =>
    refine hput _ _ fun heq => ?_
    rw [heq, h] at found
    cases found
    refine iff_of_false (fun hnext => ?_) fun hroom => ?_
    · -- neither the contents nor the revision are what a next state has
      rcases hnext with ⟨hsame, -⟩ | ⟨-, hrevision⟩
      · exact change.contents_ne hsame
      · rw [change.revision] at hrevision
        omega
    · obtain ⟨_, hadvanced, -⟩ := checkedAdd_one (a := tenant.revision)
        (by have := hroom change.contents_ne; omega)
      rw [hadvanced] at exhausted
      cases exhausted
  | bound absent | presented => exact ⟨tenant, h, hrefl⟩

lemma Versioned.refl (s : IdentityState) : Versioned tenantId s s := fun tenant h => ⟨tenant, h, .inl rfl⟩

lemma Versioned.trans (h : Versioned tenantId s s') (h' : Versioned tenantId s' s'') :
    Versioned tenantId s s'' := by
  intro tenant ht
  obtain ⟨next, hn, hle⟩ := h tenant ht
  obtain ⟨last, hl, hle'⟩ := h' next hn
  refine ⟨last, hl, ?_⟩
  rcases hle with rfl | hlt
  · exact hle'
  · rcases hle' with rfl | hlt'
    · exact .inr hlt
    · exact .inr (UInt64.lt_trans hlt hlt')

lemma Versioned.step {op : Op} (hroom : Room limits s tenantId op) :
    Versioned tenantId s (s.step limits op).2 := by
  intro tenant h
  obtain ⟨next, hnext, hadvances⟩ := (step_effect limits s op).advances h
  exact ⟨next, hnext, (hadvances.2 (hroom tenant next h hnext)).versioned⟩

/-- Equal revisions mean equal records. -/
lemma Versioned.eq_of_revision (h : Versioned tenantId s s') {revision : UInt64}
    (hs : s.revision tenantId = some revision) (hs' : s'.revision tenantId = some revision) :
    s'.tenants.get tenantId = s.tenants.get tenantId := by
  obtain ⟨tenant, htenant, hrev⟩ := Option.map_eq_some_iff.1 hs
  obtain ⟨_, hnext, hle⟩ := h tenant htenant
  obtain ⟨_, hnext', hrev'⟩ := Option.map_eq_some_iff.1 hs'
  rw [hnext] at hnext'
  cases hnext'
  rcases hle with rfl | hlt
  · rw [htenant, hnext]
  · rw [hrev, hrev'] at hlt
    exact absurd hlt (UInt64.lt_irrefl _)

end Versions

/-! ### Repeated operations -/

/-- The effect of an operation is in place. -/
def Applied (s : IdentityState) : Op → Prop
  | .createTenant tenantId => s.tenants.get tenantId ≠ none
  | .createPrincipal principal =>
    ∃ tenant, s.tenants.get principal.tenantId = some tenant ∧
      tenant.principals.get principal.principalId ≠ none
  | .addCredential credential =>
    credential.expiresAtUnixSeconds ≠ 0 ∧ ∃ tenant, s.tenants.get credential.tenantId = some tenant ∧
      tenant.principals.get credential.principalId ≠ none ∧
        tenant.credentials.get credential.fingerprint = some credential
  | .revokeCredential tenantId fingerprint =>
    ∃ tenant, s.tenants.get tenantId = some tenant ∧ tenant.credentials.get fingerprint = none
  | .grantRole binding =>
    ∃ tenant, s.tenants.get binding.tenantId = some tenant ∧
      tenant.principals.get binding.principalId ≠ none ∧
        (∀ rootId, binding.scope = .root rootId → s.rootTenants.get rootId = some binding.tenantId) ∧
          tenant.roleBindings.get binding ≠ none
  | .revokeRole binding =>
    ∃ tenant, s.tenants.get binding.tenantId = some tenant ∧ tenant.roleBindings.get binding = none
  | .bindRootTenant binding =>
    s.tenants.get binding.tenantId ≠ none ∧ s.rootTenants.get binding.rootId = some binding.tenantId
  | .bindRootPresentation binding => s.rootPresentations.get binding.rootId = some binding.workbenchRoot

section Applied

variable {limits : IdentityLimits} {s : IdentityState} {tenantId : TenantId} {tenant next : TenantState}
variable {answer : Bool → Answer} {a : Answer}
variable {plan : TenantState → Except IdentityError (Option TenantState)}

lemma update_of_settled (answer : Bool → Answer) (hget : s.tenants.get tenantId = some tenant)
    (hplan : plan tenant = .ok none) :
    s.update tenantId answer plan = (.ok (answer false), s) := by
  simp [IdentityState.update, hget, hplan]

/-- **An operation whose effect is in place succeeds and changes nothing.** -/
theorem step_of_applied (limits : IdentityLimits) {op : Op} (h : Applied s op) :
    ∃ a, s.step limits op = (.ok a, s) := by
  cases op with
  | createTenant tenantId =>
    obtain ⟨tenant, htenant⟩ := Option.ne_none_iff_exists'.1 h
    refine ⟨.tenant tenantId, ?_⟩
    simp [step, createTenant, htenant]
  | createPrincipal principal =>
    obtain ⟨tenant, htenant, hregistered⟩ := h
    -- the plans find nothing to change
    have hplan : planPrincipal principal limits tenant = .ok none := by
      simp only [planPrincipal, Option.isSome_iff_ne_none.2 hregistered]
      rfl
    exact ⟨_, update_of_settled (fun _ => .principal principal) htenant hplan⟩
  | addCredential credential =>
    obtain ⟨hexpires, tenant, htenant, hregistered, hbound⟩ := h
    have hplan : planCredential credential limits tenant = .ok none := by
      simp only [planCredential, (requirePrincipal_eq_ok (u := ())).2 hregistered, hbound,
        ok_bind, if_true]
      rfl
    refine ⟨_, Eq.trans ?_ (update_of_settled (fun _ => .credential credential) htenant hplan)⟩
    have hvalid : validateCredential credential = .ok () := refuseIf_eq_ok.2 hexpires
    simp only [step, addCredential, hvalid]
  | revokeCredential _ fingerprint =>
    obtain ⟨tenant, htenant, habsent⟩ := h
    have hplan : planRevokedCredential fingerprint tenant = .ok none := by
      simp only [planRevokedCredential, habsent]
      rfl
    exact ⟨_, update_of_settled .removed htenant hplan⟩
  | grantRole binding =>
    obtain ⟨tenant, htenant, hregistered, howned, hheld⟩ := h
    have hplan : planRole binding limits s.rootTenants.get tenant = .ok none := by
      simp only [planRole, (requirePrincipal_eq_ok (u := ())).2 hregistered,
        (requireScope_eq_ok (u := ())).2 howned, Option.isSome_iff_ne_none.2 hheld, ok_bind]
      rfl
    exact ⟨_, update_of_settled (fun _ => .role binding) htenant hplan⟩
  | revokeRole binding =>
    obtain ⟨tenant, htenant, habsent⟩ := h
    have hplan : planRevokedRole binding tenant = .ok none := by
      simp only [planRevokedRole, habsent]
      rfl
    exact ⟨_, update_of_settled .removed htenant hplan⟩
  | bindRootTenant binding =>
    obtain ⟨htenant, hbound⟩ := h
    obtain ⟨_, htenant⟩ := Option.ne_none_iff_exists'.1 htenant
    refine ⟨.rootTenant binding, ?_⟩
    simp [step, bindRootTenant, htenant, hbound]
  | bindRootPresentation binding =>
    have h : s.rootPresentations.get binding.rootId = some binding.workbenchRoot := h
    refine ⟨.rootPresentation binding, ?_⟩
    simp [step, bindRootPresentation, h]

/-- What an update that succeeded leaves: the planned records, with a revision of their own. -/
lemma update_eq_ok (h : (s.update tenantId answer plan).1 = .ok a) :
    ∃ tenant next, plan tenant = .ok next ∧
      ∃ revision, (s.update tenantId answer plan).2.tenants.get tenantId =
        some { next.getD tenant with revision } := by
  unfold IdentityState.update at h ⊢
  split at h
  · cases h
  · rename_i tenant hget
    split at h
    · cases h
    · rename_i hplan
      exact ⟨tenant, none, hplan, tenant.revision, hget⟩
    · rename_i next hplan
      split at h
      · rename_i revision hrev
        exact ⟨tenant, some next, hplan, revision, get_insert_self _ _ _⟩
      · cases h

lemma update_rootTenants : (s.update tenantId answer plan).2.rootTenants = s.rootTenants := by
  unfold IdentityState.update
  repeat' split
  all_goals rfl

/-! What a plan leaves of the records it found, or of those it changed. -/

section Settled

variable {planned : Option TenantState}

lemma planPrincipal_settled {principal : PrincipalRecord}
    (h : planPrincipal principal limits tenant = .ok planned) :
    (planned.getD tenant).principals.get principal.principalId ≠ none := by
  unfold planPrincipal at h
  split at h
  next hheld =>
    cases h
    exact Option.isSome_iff_ne_none.1 hheld
  next =>
    cases ok_of_bind h
    simp [get_insert_self]

lemma planCredential_settled {credential : CredentialBinding}
    (h : planCredential credential limits tenant = .ok planned) :
    (planned.getD tenant).principals.get credential.principalId ≠ none ∧
      (planned.getD tenant).credentials.get credential.fingerprint = some credential := by
  obtain ⟨_, hregistered, h⟩ := bind_eq_ok.1 h
  have hregistered := requirePrincipal_eq_ok.1 hregistered
  split at h
  next existing hexisting =>
    split at h
    next heq =>
      cases h
      exact ⟨hregistered, heq ▸ hexisting⟩
    next => cases h
  next =>
    cases ok_of_bind h
    exact ⟨hregistered, get_insert_self _ _ _⟩

lemma planRevokedCredential_settled {fingerprint : CredentialFingerprint}
    (h : planRevokedCredential fingerprint tenant = .ok planned) :
    (planned.getD tenant).credentials.get fingerprint = none := by
  unfold planRevokedCredential at h
  split at h
  next habsent =>
    cases h
    exact habsent
  next =>
    cases h
    exact get_erase_self _ _

lemma planRole_settled {binding : RoleBinding} {owner : RootId → Option TenantId}
    (h : planRole binding limits owner tenant = .ok planned) :
    (planned.getD tenant).principals.get binding.principalId ≠ none ∧
      (∀ rootId, binding.scope = .root rootId → owner rootId = some binding.tenantId) ∧
        (planned.getD tenant).roleBindings.get binding ≠ none := by
  obtain ⟨_, hregistered, h⟩ := bind_eq_ok.1 h
  obtain ⟨_, howned, h⟩ := bind_eq_ok.1 h
  have hregistered := requirePrincipal_eq_ok.1 hregistered
  have howned := requireScope_eq_ok.1 howned
  split at h
  next hheld =>
    cases h
    exact ⟨hregistered, howned, Option.isSome_iff_ne_none.1 hheld⟩
  next =>
    cases ok_of_bind h
    exact ⟨hregistered, howned, by simp [get_insert_self]⟩

lemma planRevokedRole_settled {binding : RoleBinding} (h : planRevokedRole binding tenant = .ok planned) :
    (planned.getD tenant).roleBindings.get binding = none := by
  unfold planRevokedRole at h
  split at h
  next habsent =>
    cases h
    exact habsent
  next =>
    cases h
    exact get_erase_self _ _

end Settled

/-- **An operation that succeeded has its effect in place.** -/
theorem applied_step {op : Op} (h : (s.step limits op).1 = .ok a) : Applied (s.step limits op).2 op := by
  cases op with
  | createTenant =>
    simp only [step, createTenant]
    split
    next hget => simp [Applied, hget]
    next => simp [Applied, put, get_insert_self]
  | createPrincipal =>
    obtain ⟨_, _, hplan, _, hget⟩ := update_eq_ok h
    exact ⟨_, hget, planPrincipal_settled hplan⟩
  | addCredential =>
    -- the credential itself is checked before its tenant is looked up
    simp only [step, addCredential] at h ⊢
    split at h
    next => cases h
    next hvalid =>
      obtain ⟨_, _, hplan, _, hget⟩ := update_eq_ok h
      exact ⟨refuseIf_eq_ok.1 hvalid, _, hget, planCredential_settled hplan⟩
  | revokeCredential =>
    obtain ⟨_, _, hplan, _, hget⟩ := update_eq_ok h
    exact ⟨_, hget, planRevokedCredential_settled hplan⟩
  | grantRole =>
    obtain ⟨_, _, hplan, _, hget⟩ := update_eq_ok h
    obtain ⟨hregistered, howned, hheld⟩ := planRole_settled hplan
    rw [← update_rootTenants] at howned
    exact ⟨_, hget, hregistered, howned, hheld⟩
  | revokeRole =>
    obtain ⟨_, _, hplan, _, hget⟩ := update_eq_ok h
    exact ⟨_, hget, planRevokedRole_settled hplan⟩
  | bindRootTenant =>
    simp only [step, bindRootTenant] at h ⊢
    split at h
    next => cases h
    next htenant hbound =>
      split at h
      next heq => simp [Applied, htenant, hbound, heq]
      next => cases h
    next htenant _ => simp [Applied, htenant, get_insert_self]
  | bindRootPresentation =>
    simp only [step, bindRootPresentation] at h ⊢
    split at h
    next hbound =>
      split at h
      next heq => simp [Applied, hbound, heq]
      next => cases h
    next => simp [Applied, get_insert_self]

end Applied

/-! ### Whole runs -/

/-- What the records of a tenant keep to at every moment of a run of operations. -/
structure Kept (limits : IdentityLimits) (ops : List Op) : Prop where
  /-- An operation advances the revision of each tenant whose contents it changes, and no other, exactly
  if no contents change at the last revision. -/
  advances : ∀ before op after, ops = before ++ op :: after → ∀ tenantId tenant,
    (IdentityState.empty.run limits before).tenants.get tenantId = some tenant →
      ∃ next, (IdentityState.empty.run limits (before ++ [op])).tenants.get tenantId = some next ∧
        tenant.Advances next
  /-- Equal revisions of one tenant are equal policies, at any two moments with no change at the last
  revision in between. -/
  versions : ∀ before between after, ops = before ++ between ++ after → ∀ tenantId revision,
    (∀ b op a, between = b ++ op :: a → Room limits (IdentityState.empty.run limits (before ++ b)) tenantId op) →
    (IdentityState.empty.run limits before).revision tenantId = some revision →
      (IdentityState.empty.run limits (before ++ between)).revision tenantId = some revision →
        (IdentityState.empty.run limits (before ++ between)).policy tenantId =
          (IdentityState.empty.run limits before).policy tenantId
  /-- Credentials and roles name principals and roots of their tenant. -/
  tenancy : ∀ before after, ops = before ++ after → Tenancy (IdentityState.empty.run limits before)
  /-- A root stays in its tenant. -/
  roots : ∀ before between after, ops = before ++ between ++ after → ∀ rootId tenantId,
    (IdentityState.empty.run limits before).rootTenants.get rootId = some tenantId →
      (IdentityState.empty.run limits (before ++ between)).rootTenants.get rootId = some tenantId
  /-- An operation that succeeded is applied, and one that is applied changes nothing. -/
  repeats : ∀ before op after, ops = before ++ op :: after →
    ((∃ answer, ((IdentityState.empty.run limits before).step limits op).1 = .ok answer) →
        Applied (IdentityState.empty.run limits (before ++ [op])) op) ∧
      (Applied (IdentityState.empty.run limits before) op →
        ∃ answer, (IdentityState.empty.run limits before).step limits op =
          (.ok answer, IdentityState.empty.run limits before))

section Run

variable {limits : IdentityLimits} {s : IdentityState} {ops ops' : List Op}

lemma run_append (s : IdentityState) (before after : List Op) :
    s.run limits (before ++ after) = (s.run limits before).run limits after := List.foldl_append

lemma run_snoc (s : IdentityState) (before : List Op) (op : Op) :
    s.run limits (before ++ [op]) = ((s.run limits before).step limits op).2 := run_append s before [op]

/-- What every operation keeps a run keeps. -/
lemma run_rel {P : IdentityState → IdentityState → Prop} (hrefl : ∀ s, P s s)
    (htrans : ∀ s s' s'', P s s' → P s' s'' → P s s'') (s : IdentityState) (ops : List Op)
    (hstep : ∀ before op after, ops = before ++ op :: after →
      P (s.run limits before) ((s.run limits before).step limits op).2) : P s (s.run limits ops) := by
  induction ops generalizing s with
  | nil => exact hrefl s
  | cons op ops ih =>
    refine htrans _ _ _ (hstep [] op ops rfl) (ih _ fun before op' after h => ?_)
    exact hstep (op :: before) op' after (by rw [h, List.cons_append])

lemma Tenancy.run (h : Tenancy s) (ops : List Op) : Tenancy (s.run limits ops) :=
  run_rel (P := fun s s' => Tenancy s → Tenancy s') (fun _ => id) (fun _ _ _ h h' hs => h' (h hs)) s ops
    (fun _ op _ _ h => h.step limits op) h

lemma rootTenants_run {rootId : RootId} {tenantId : TenantId} (ops : List Op)
    (h : s.rootTenants.get rootId = some tenantId) :
    (s.run limits ops).rootTenants.get rootId = some tenantId :=
  run_rel (P := fun s s' => s.rootTenants.get rootId = some tenantId →
      s'.rootTenants.get rootId = some tenantId)
    (fun _ => id) (fun _ _ _ h h' hs => h' (h hs)) s ops
    (fun _ op _ _ h => (step_effect limits _ op).rootTenants h) h

lemma Versioned.run {tenantId : TenantId}
    (hroom : ∀ before op after, ops = before ++ op :: after → Room limits (s.run limits before) tenantId op) :
    Versioned tenantId s (s.run limits ops) :=
  run_rel Versioned.refl (fun _ _ _ => Versioned.trans) s ops fun before op after h =>
    Versioned.step (hroom before op after h)

/-- **The records of the tenants along a run**: credentials, roles and roots stay inside their tenant, an
operation that is in effect can be repeated, and revisions are faithful versions of the policies as far as
they can advance. -/
theorem identity_run (limits : IdentityLimits) (ops : List Op) : Kept limits ops where
  advances before op after h tenantId tenant ht := by
    rw [run_snoc]
    exact (step_effect limits _ op).advances ht
  versions before between after h tenantId revision hroom hbefore hbetween := by
    rw [run_append] at hbetween ⊢
    have hversioned : Versioned tenantId (IdentityState.empty.run limits before)
        ((IdentityState.empty.run limits before).run limits between) :=
      Versioned.run fun b op a hb => run_append IdentityState.empty before b ▸ hroom b op a hb
    rw [policy, policy, hversioned.eq_of_revision hbefore hbetween]
  tenancy before after h := tenancy_empty.run before
  roots before between after h rootId tenantId hroot := by
    rw [run_append]
    exact rootTenants_run between hroot
  repeats before op after h := by
    rw [run_snoc]
    exact ⟨fun ⟨_, hok⟩ => applied_step hok, step_of_applied limits⟩

end Run

/-! ### A revision that cannot advance -/

section Exhausted

/-- A tenant, one principal of it and the credential of that principal. -/
def sampleTenant : TenantId := .fill 16 1

def samplePrincipal : PrincipalRecord := ⟨sampleTenant, .fill 16 2⟩

def sampleCredential : CredentialBinding := ⟨sampleTenant, .fill 16 2, .fill 32 3, 1⟩

/-- A run with a principal, its credential, a root and a role on it; one operation is repeated, and one
names a principal that is not registered. -/
def sampleOps : List Op := [
  .createTenant sampleTenant, .createPrincipal samplePrincipal, .addCredential sampleCredential,
  .addCredential sampleCredential, .bindRootTenant ⟨.fill 16 4, sampleTenant⟩,
  .grantRole ⟨sampleTenant, .fill 16 5, .writer, .root (.fill 16 4)⟩,
  .grantRole ⟨sampleTenant, .fill 16 2, .writer, .root (.fill 16 4)⟩,
  .revokeCredential sampleTenant (.fill 32 3)]

theorem identity_run_replay :
    sampleOps.inits.map (fun ops => (IdentityState.empty.run .default ops).revision sampleTenant) =
      [none, some 1, some 2, some 3, some 3, some 3, some 3, some 4, some 5] ∧
    Kept .default sampleOps :=
  ⟨by decide, identity_run .default sampleOps⟩

/-- Bind and revoke the credential, `n` times. -/
def bindAndRevoke : ℕ → List Op
  | 0 => []
  | n + 1 => .addCredential sampleCredential :: .revokeCredential sampleTenant (.fill 32 3) :: bindAndRevoke n

/-- Operations that take the tenant's revision to `2 * n + 3`, with the credential bound. -/
def exhaustingOps (n : ℕ) : List Op :=
  [.createTenant sampleTenant, .createPrincipal samplePrincipal] ++ bindAndRevoke n ++
    [.addCredential sampleCredential]

/-- The tenant has its principal, the given credentials and the given revision. -/
def SampleAt (s : IdentityState) (credentials : OrdMap CredentialFingerprint CredentialBinding)
    (revision : ℕ) : Prop :=
  ∃ tenant, s.tenants.get sampleTenant = some tenant ∧ tenant.revision.toNat = revision ∧
    tenant.principals.get samplePrincipal.principalId ≠ none ∧ tenant.credentials = credentials

/-- The credentials with the one bound. -/
def sampleCredentials : OrdMap CredentialFingerprint CredentialBinding :=
  OrdMap.empty.insert sampleCredential.fingerprint sampleCredential

variable {s : IdentityState} {n revision : ℕ}

lemma SampleAt.update {before after : OrdMap CredentialFingerprint CredentialBinding}
    (h : SampleAt s before revision) (hrev : revision + 1 < 2 ^ 64) (answer : Bool → Answer)
    {plan : TenantState → Except IdentityError (Option TenantState)}
    (hplan : ∀ current principals roles, principals.get samplePrincipal.principalId ≠ none →
      plan ⟨current, principals, before, roles⟩ = .ok (some ⟨current, principals, after, roles⟩)) :
    SampleAt (s.update sampleTenant answer plan).2 after (revision + 1) := by
  obtain ⟨⟨current, principals, _, roles⟩, hget, rfl, hregistered, rfl⟩ := h
  obtain ⟨_, hnext, hnext'⟩ := checkedAdd_one hrev
  simp only [IdentityState.update, hget, hplan current principals roles hregistered, hnext]
  exact ⟨_, get_insert_self _ _ _, hnext', hregistered, rfl⟩

lemma SampleAt.add (h : SampleAt s .empty revision) (hrev : revision + 1 < 2 ^ 64) :
    SampleAt (s.step .default (.addCredential sampleCredential)).2 sampleCredentials (revision + 1) := by
  refine h.update hrev (fun _ => .credential sampleCredential) fun current principals roles hregistered => ?_
  have hprincipal : requirePrincipal ⟨current, principals, .empty, roles⟩ sampleCredential.tenantId
      sampleCredential.principalId = .ok () := requirePrincipal_eq_ok.2 hregistered
  simp only [planCredential, hprincipal, ok_bind]
  rfl

lemma SampleAt.revoke (h : SampleAt s sampleCredentials revision) (hrev : revision + 1 < 2 ^ 64) :
    SampleAt (s.step .default (.revokeCredential sampleTenant (.fill 32 3))).2 .empty (revision + 1) :=
  h.update hrev .removed fun _ _ _ _ => rfl

lemma SampleAt.bindAndRevoke (h : SampleAt s .empty revision) (hrev : revision + 2 * n < 2 ^ 64) :
    SampleAt (s.run .default (bindAndRevoke n)) .empty (revision + 2 * n) := by
  induction n generalizing s revision with
  | zero => exact h
  | succ n ih =>
    have hround := (h.add (by omega)).revoke (by omega)
    have hrest := ih hround (by omega)
    have heq : revision + 1 + 1 + 2 * n = revision + 2 * (n + 1) := by omega
    exact heq ▸ hrest

lemma sampleAt_exhaustingOps (hn : 2 * n + 3 < 2 ^ 64) :
    SampleAt (IdentityState.empty.run .default (exhaustingOps n)) sampleCredentials (2 * n + 3) := by
  have hstart : SampleAt (IdentityState.empty.run .default
      [.createTenant sampleTenant, .createPrincipal samplePrincipal]) .empty 2 :=
    ⟨⟨2, OrdMap.empty.insert (.fill 16 2) (), .empty, .empty⟩, by decide, rfl, by decide, rfl⟩
  have hbound := (hstart.bindAndRevoke (n := n) (by omega)).add (by omega)
  have hrev : 2 + 2 * n + 1 = 2 * n + 3 := by omega
  rw [exhaustingOps, run_snoc, run_append, ← hrev]
  exact hbound

lemma SampleAt.revoke_exhausted (h : SampleAt s sampleCredentials (2 ^ 64 - 1)) :
    ∃ tenant next, s.tenants.get sampleTenant = some tenant ∧
      s.step .default (.revokeCredential sampleTenant (.fill 32 3)) =
        (.error revisionOverflow, s.put sampleTenant next) ∧
      next.revision = tenant.revision ∧ next.contents ≠ tenant.contents := by
  obtain ⟨⟨current, principals, _, roles⟩, hget, hrev, _, rfl⟩ := h
  have hnone : checkedAdd current 1 = none := by
    simp only [checkedAdd, hrev]
    rfl
  have hplan : planRevokedCredential (.fill 32 3)
      ⟨current, principals, sampleCredentials, roles⟩ = .ok (some ⟨current, principals, .empty, roles⟩) := rfl
  refine ⟨_, ⟨current, principals, .empty, roles⟩, hget, ?_, rfl, ?_⟩
  · simp only [step, revokeCredential, IdentityState.update, hget, hplan, hnone]
  · intro h
    have hcredentials : OrdMap.empty = sampleCredentials := congrArg (fun c => c.2.1) h
    exact absurd hcredentials (by decide)

/-- **At the last revision a revoked credential leaves the revision as it is**: the operation fails,
and the records it leaves differ from those before under the same revision. -/
theorem revoke_at_max_revision :
    ∃ ops tenant next,
      (IdentityState.empty.run .default ops).tenants.get sampleTenant = some tenant ∧
      (IdentityState.empty.run .default ops).step .default (.revokeCredential sampleTenant (.fill 32 3)) =
        (.error revisionOverflow, (IdentityState.empty.run .default ops).put sampleTenant next) ∧
      next.revision = tenant.revision ∧ next.contents ≠ tenant.contents :=
  have hn : 2 * (2 ^ 63 - 2) + 3 = 2 ^ 64 - 1 := by norm_num
  ⟨exhaustingOps (2 ^ 63 - 2), (hn ▸ sampleAt_exhaustingOps (by norm_num)).revoke_exhausted⟩

end Exhausted

end NoKV.Identity
