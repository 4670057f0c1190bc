import Shozee.Pipeline.CallRules
import Shozee.Run.Traverse

/-!
# Context factories

One factory for each principal mode
(`packages/core/src/runtime/context/factories.ts`). A factory checks the
caller's authority for its mode and binds the context to a company, if the mode
has one; what it reads of the database and what a resolver returns come in as
`Surroundings`. The pipeline calls them for a root, with the capability that
the action's risk deserves, and nested calls call them again for the callee.
-/

namespace Shozee.Pipeline

open Shozee.Run (bind_eq_ok)
open Shozee.Confirmation (ActionPrincipal ActionRisk)

/-- The errors of the pipeline, each with what is only logged. -/
inductive CoreError
  | validation (clientMessage internalMessage : String)
  | permissionDenied (clientMessage internalMessage : String)
  | notFound (internalMessage : String)
  | timeout (internalMessage : String)
  | coreInvariant (internalMessage : String)
deriving DecidableEq, Repr

/-- What a caller without a permission is told. -/
def defaultPermissionDenied : String :=
  "You do not have permission to perform this action."

/-- What a request says of itself. -/
structure ActionRequestMeta where
  action : String
  requestId : String
  correlationId : String
  channel : String
  clientIp : Option String
deriving DecidableEq, Repr

/-- A row of `company_members` with the permissions that
`resolveEffectivePermissions` makes of it. -/
structure MembershipRow where
  role : String
  permissions : List String
deriving DecidableEq, Repr

/-- What a resolver found for a token: its company and its resource. -/
structure ResolvedTarget (ρ : Type) where
  companyId : String
  resource : ρ
  tokenHash : Option String
deriving DecidableEq, Repr

/-- What one invocation meets outside the pipeline: the clock and the abort
signal, whether the input schema accepts, the membership that the database
holds, whether the company exists, and what the action's resolver answers. -/
structure Surroundings (ρ : Type) where
  nowMs : Nat
  aborted : Bool
  inputAccepted : Bool
  membership : Option MembershipRow
  companyExists : Bool
  resolved : Except CoreError (ResolvedTarget ρ)

/-- An action with what of its binding matters here: whether it has a resolver.
-/
structure ImplementedAction where
  contract : ActionContract
  resolves : Bool
deriving DecidableEq

variable {ρ : Type}

/-- The read view of a handle carries its read members only. -/
def createReadTx (_ : Capability) : Capability := .readTx

/-- A transaction that only reads projections, for one grant. -/
def createProjectionReadTx (_ : Capability) (grant : String) : Capability :=
  .projectionReadTx grant

/-- `COMPANY_ROLES`, by their names. -/
def companyRoleOf (role : String) : Option CompanyRole :=
  if role = "owner" then some .owner
  else if role = "admin" then some .admin
  else if role = "manager" then some .manager
  else if role = "employee" then some .employee
  else none

/-- Owners have every permission. -/
def staffHasPermission (membership : StaffMembership) (permission : String) :
    Bool :=
  membership.role = .owner || permission ∈ membership.permissions

/-- The check of all permissions that a contract declares. -/
def assertDeclaredPermissions (membership : StaffMembership)
    (contract : ActionContract) : Except CoreError Unit :=
  match contract.permissions.find? fun permission =>
      ! staffHasPermission membership permission with
  | none => .ok ()
  | some permission =>
      .error (.permissionDenied defaultPermissionDenied
        ("staff caller lacks \"" ++ permission ++ "\" declared by \"" ++
          contract.name ++ "\""))

/-- The user of the session. -/
def requireSession (session : Option String) (mode : String) :
    Except CoreError String :=
  match session with
  | some userId => .ok userId
  | none =>
      .error (.permissionDenied "Authentication required."
        (mode ++ " context requested without a session"))

/-- The client's address, which a root with no user is counted by. -/
def requireClientIp (request : ActionRequestMeta) (mode : String) :
    Except CoreError String :=
  match request.clientIp with
  | some clientIp => .ok clientIp
  | none =>
      .error (.coreInvariant
        (mode ++ " context for \"" ++ request.action ++
          "\" constructed without a trusted-proxy normalized clientIp"))

/-- A nested call stays in the company of its caller. -/
def assertInheritedCompany (action resolvedCompanyId : String)
    (inheritedCompanyId : Option String) : Except CoreError Unit :=
  match inheritedCompanyId with
  | none => .ok ()
  | some inherited =>
      if resolvedCompanyId = inherited then .ok ()
      else
        .error (.coreInvariant
          ("nested resolver of \"" ++ action ++ "\" resolved company " ++
            resolvedCompanyId ++ ", expected inherited company " ++ inherited))

/-- What every context has. -/
def buildBase (request : ActionRequestMeta) (db : Capability)
    (actor : ActionActor) (principal : Principal ρ) : ActionCtx ρ where
  db := db
  requestId := request.requestId
  correlationId := request.correlationId
  channel := request.channel
  actor := actor
  principal := principal

/-- The check of `createStaffContext` on its selector. -/
def requireSelector (action : String) (companySelector : Option String) :
    Except CoreError String :=
  match companySelector with
  | none =>
      .error (.permissionDenied "No active company is selected."
        ("staff action \"" ++ action ++
          "\" invoked without an x-company-id selector"))
  | some selector =>
      if UUID_PATTERN selector then .ok selector
      else
        .error (.permissionDenied "No active company is selected."
          ("staff action \"" ++ action ++
            "\" invoked with a malformed x-company-id selector"))

/-- The context of a member of a company, with the permissions of the
membership that was read. -/
def createStaffContext (request : ActionRequestMeta) (db : Capability)
    (session companySelector : Option String)
    (membershipRow : Option MembershipRow) :
    Except CoreError (StaffMembership × ActionCtx ρ) := do
  let userId ← requireSession session "staff"
  let selector ← requireSelector request.action companySelector
  match membershipRow with
  | none =>
      .error (.permissionDenied "You are not a member of the selected company."
        ("no company_members row for user " ++ userId ++ " in company " ++
          selector ++ " (\"" ++ request.action ++ "\")"))
  | some row =>
      match companyRoleOf row.role with
      | none =>
          .error (.coreInvariant
            ("company_members row for user " ++ userId ++ " in company " ++
              selector ++ " carries unknown role \"" ++ row.role ++
              "\" — the DB CHECK should make this impossible"))
      | some role =>
          let membership : StaffMembership := ⟨role, row.permissions⟩
          .ok (membership, buildBase request db (.user userId)
            (.staff userId selector membership))

/-- The context of a customer, in the company of the target. -/
def createCustomerContext (request : ActionRequestMeta) (db : Capability)
    (session : Option String)
    (resolved : Except CoreError (ResolvedTarget ρ))
    (inheritedCompanyId : Option String) :
    Except CoreError (ActionCtx ρ) := do
  let userId ← requireSession session "customer"
  let target ← resolved
  assertInheritedCompany request.action target.companyId inheritedCompanyId
  return buildBase request db (.user userId)
    (.customer userId ⟨target.companyId, target.resource⟩)

/-- `createPublicContext` in `target` scope. -/
def createPublicTargetContext (request : ActionRequestMeta) (db : Capability)
    (resolved : Except CoreError (ResolvedTarget ρ))
    (inheritedCompanyId : Option String) :
    Except CoreError (ActionCtx ρ) := do
  let _ ← requireClientIp request "public"
  let target ← resolved
  assertInheritedCompany request.action target.companyId inheritedCompanyId
  return buildBase request (createReadTx db) .anonymous
    (.publicTarget ⟨target.companyId, target.resource⟩)

/-- `createPublicContext` in `globalProjection` scope. -/
def createPublicGlobalContext (request : ActionRequestMeta) (db : Capability)
    (grant : String) : Except CoreError (ActionCtx ρ) := do
  let _ ← requireClientIp request "public"
  return buildBase request (createProjectionReadTx db grant) .anonymous
    (.publicGlobal grant)

/-- `SystemScopeInput`. -/
inductive SystemScopeInput
  | tenant (companyId : String)
  | global
deriving DecidableEq, Repr

/-- Whether a system call is of one company. -/
def SystemScopeInput.scope : SystemScopeInput → SystemScope
  | .tenant _ => .tenant
  | .global => .global

/-- The context of a service. -/
def createSystemContext (serviceName : String) (scope : SystemScopeInput)
    (request : ActionRequestMeta) (db : Capability) :
    Except CoreError (ActionCtx ρ) :=
  if serviceName = "" then
    .error (.coreInvariant
      ("system context for \"" ++ request.action ++
        "\" constructed without a serviceName"))
  else
    match scope with
    | .tenant companyId =>
        if UUID_PATTERN companyId then
          .ok (buildBase request db (.system serviceName)
            (.systemTenant serviceName companyId))
        else
          .error (.coreInvariant
            ("tenant-scoped system context for \"" ++ request.action ++
              "\" constructed with a malformed companyId"))
    | .global =>
        .ok (buildBase request db (.system serviceName)
          (.systemGlobal serviceName))

/-- The same, once the company is known to exist. -/
def createExistingCompanySystemContext (serviceName : String)
    (scope : SystemScopeInput) (request : ActionRequestMeta) (db : Capability)
    (companyExists : Bool) : Except CoreError (ActionCtx ρ) := do
  let ctx ← createSystemContext serviceName scope request db
  match scope with
  | .global => return ctx
  | .tenant companyId =>
      if companyExists then return ctx
      else
        .error (.notFound
          ("system:" ++ serviceName ++ " ran \"" ++ request.action ++
            "\" for company " ++ companyId ++ ", which does not exist"))

/-- The context of a user who only reads across companies. -/
def createConsumerContext (request : ActionRequestMeta) (db : Capability)
    (session : Option String) : Except CoreError (ActionCtx ρ) := do
  let userId ← requireSession session "consumer"
  let _ ← requireClientIp request "consumer"
  return buildBase request (createReadTx db) (.user userId) (.consumer userId)

/-- The context of a user outside any company. -/
def createAccountContext (request : ActionRequestMeta) (db : Capability)
    (session : Option String) : Except CoreError (ActionCtx ρ) := do
  let userId ← requireSession session "account"
  let _ ← requireClientIp request "account"
  return buildBase request db (.user userId) (.account userId)

/-- The context of a link, which stands for the token that it was made with. -/
def createShareContext (request : ActionRequestMeta) (db : Capability)
    (resolved : Except CoreError (ResolvedTarget ρ))
    (inheritedCompanyId : Option String) :
    Except CoreError (ActionCtx ρ) := do
  let _ ← requireClientIp request "share"
  let target ← resolved
  assertInheritedCompany request.action target.companyId inheritedCompanyId
  match target.tokenHash with
  | none | some "" =>
      .error (.coreInvariant
        ("share resolver of \"" ++ request.action ++
          "\" returned no tokenHash — the stored hash is the idempotency " ++
          "principal key (core.md §5)"))
  | some tokenHash =>
      return buildBase request db .anonymous
        (.share ⟨target.companyId, target.resource⟩ tokenHash)

/-! ## The context of a root

What the transport has composed is checked for its shape, and the factory of
its mode is called. -/

/-- Who invokes a root, as the transport composed it. -/
inductive PrincipalInvocation
  | staff (session companySelector : Option String)
  | customer (session : Option String)
  | «public»
  | system (serviceName : String) (scope : SystemScopeInput)
      (companyMustExist : Bool)
  | consumer (session : Option String)
  | account (session : Option String)
  | share
deriving DecidableEq, Repr

/-- The principal that an invocation is of. -/
def PrincipalInvocation.mode : PrincipalInvocation → ActionPrincipal
  | .staff _ _ => .staff
  | .customer _ => .customer
  | .public => .public
  | .system _ _ _ => .system
  | .consumer _ => .consumer
  | .account _ => .account
  | .share => .share

/-- An action is only invoked as the principal that its contract names. -/
def assertPrincipalShape (contract : ActionContract)
    (principal : PrincipalInvocation) : Except CoreError Unit :=
  if principal.mode ≠ contract.principal then
    .error (.coreInvariant
      ("action \"" ++ contract.name ++ "\" declares principal \"" ++
        principalName contract.principal ++ "\" but was invoked as \"" ++
        principalName principal.mode ++ "\" — transport composition bug"))
  else
    match principal with
    | .system _ scope _ =>
        if some scope.scope = contract.systemScope then .ok ()
        else
          .error (.coreInvariant
            ("system action \"" ++ contract.name ++
              "\" declares systemScope \"" ++
              ((contract.systemScope.map SystemScope.name).getD "<missing>") ++
              "\" but was enqueued with scope \"" ++ scope.scope.name ++ "\""))
    | _ => .ok ()

/-- The resolver's answer, for an action that has one. -/
def requireResolver (action : ImplementedAction) (complaint : String)
    (surroundings : Surroundings ρ) : Except CoreError (ResolvedTarget ρ) :=
  if action.resolves then surroundings.resolved
  else .error (.coreInvariant complaint)

/-- `constructPrincipalContext` on the raw transaction. -/
def constructPrincipalContext (action : ImplementedAction)
    (projectionGrants : List String) (request : ActionRequestMeta)
    (principal : PrincipalInvocation) (readOnly : Bool)
    (surroundings : Surroundings ρ) : Except CoreError (ActionCtx ρ) :=
  let contract := action.contract
  let capability := if readOnly then createReadTx .tx else .tx
  let resolved := requireResolver action
    ("action \"" ++ contract.name ++ "\" requires a target resolver but none " ++
      "is bound — implementAction should have rejected this pairing")
    surroundings
  match principal with
  | .staff session companySelector => do
      let (membership, ctx) ← createStaffContext request capability session
        companySelector surroundings.membership
      assertDeclaredPermissions membership contract
      return ctx
  | .customer session =>
      createCustomerContext request capability session resolved none
  | .public =>
      if contract.publicScope = some .globalProjection then
        match contract.projectionGrant.filter (· ∈ projectionGrants) with
        | some grant => createPublicGlobalContext request capability grant
        | none =>
            .error (.coreInvariant
              ("public-global action \"" ++ contract.name ++
                "\" references projection grant \"" ++
                contract.projectionGrant.getD "<missing>" ++
                "\" which is not in the runtime manifest"))
      else createPublicTargetContext request capability resolved none
  | .system serviceName scope companyMustExist =>
      if companyMustExist then
        createExistingCompanySystemContext serviceName scope request capability
          surroundings.companyExists
      else createSystemContext serviceName scope request capability
  | .consumer session => createConsumerContext request capability session
  | .account session => createAccountContext request capability session
  | .share => createShareContext request capability resolved none

/-! ## What the factories build

One lemma for each factory: the company that a context is bound to, and the
capability that it holds. -/

section Built

variable {request : ActionRequestMeta} {db : Capability}
  {ctx : ActionCtx ρ} {session : Option String}
  {resolved : Except CoreError (ResolvedTarget ρ)}
  {inheritedCompanyId : Option String}

/-- An inherited company is the one that was resolved. -/
theorem inherited_of_ok {action companyId : String} {u : Unit}
    (h : assertInheritedCompany action companyId inheritedCompanyId = .ok u) :
    ∀ inherited ∈ inheritedCompanyId, companyId = inherited := by
  intro inherited hinherited
  cases hinherited
  simp only [assertInheritedCompany] at h
  split at h
  · assumption
  · cases h

theorem requireSelector_ok {action selector : String}
    {companySelector : Option String}
    (h : requireSelector action companySelector = .ok selector) :
    companySelector = some selector := by
  unfold requireSelector at h
  split at h
  · cases h
  · split at h
    · cases h
      rfl
    · cases h

theorem createStaffContext_ok {companySelector : Option String}
    {row : Option MembershipRow} {membership : StaffMembership}
    (h : createStaffContext request db session companySelector row =
      .ok (membership, ctx)) :
    ctx.db = db ∧ effectiveCompanyId ctx = companySelector := by
  unfold createStaffContext at h
  obtain ⟨userId, _, h⟩ := bind_eq_ok.mp h
  obtain ⟨selector, hselector, h⟩ := bind_eq_ok.mp h
  rw [requireSelector_ok hselector]
  split at h
  · cases h
  · split at h
    · cases h
    · cases h
      exact ⟨rfl, rfl⟩

theorem createCustomerContext_ok
    (h : createCustomerContext request db session resolved inheritedCompanyId =
      .ok ctx) :
    ctx.db = db ∧ ∀ inherited ∈ inheritedCompanyId,
      effectiveCompanyId ctx = some inherited := by
  unfold createCustomerContext at h
  obtain ⟨userId, _, h⟩ := bind_eq_ok.mp h
  obtain ⟨target, _, h⟩ := bind_eq_ok.mp h
  obtain ⟨_, hinherited, h⟩ := bind_eq_ok.mp h
  cases h
  exact ⟨rfl, fun inherited hmem =>
    congrArg some (inherited_of_ok hinherited inherited hmem)⟩

theorem createPublicTargetContext_ok
    (h : createPublicTargetContext request db resolved inheritedCompanyId =
      .ok ctx) :
    ctx.db = .readTx ∧ ∀ inherited ∈ inheritedCompanyId,
      effectiveCompanyId ctx = some inherited := by
  unfold createPublicTargetContext at h
  obtain ⟨_, _, h⟩ := bind_eq_ok.mp h
  obtain ⟨target, _, h⟩ := bind_eq_ok.mp h
  obtain ⟨_, hinherited, h⟩ := bind_eq_ok.mp h
  cases h
  exact ⟨rfl, fun inherited hmem =>
    congrArg some (inherited_of_ok hinherited inherited hmem)⟩

theorem createSystemContext_ok {serviceName : String}
    {scope : SystemScopeInput}
    (h : createSystemContext serviceName scope request db = .ok ctx) :
    ctx.db = db ∧ effectiveCompanyId ctx =
      match scope with
      | .tenant companyId => some companyId
      | .global => none := by
  unfold createSystemContext at h
  split at h
  · cases h
  · split at h
    · split at h
      · cases h
        exact ⟨rfl, rfl⟩
      · cases h
    · cases h
      exact ⟨rfl, rfl⟩

theorem createExistingCompanySystemContext_db {serviceName : String}
    {scope : SystemScopeInput} {companyExists : Bool}
    (h : createExistingCompanySystemContext serviceName scope request db
      companyExists = .ok ctx) : ctx.db = db := by
  unfold createExistingCompanySystemContext at h
  obtain ⟨built, hbuilt, h⟩ := bind_eq_ok.mp h
  have hdb := (createSystemContext_ok hbuilt).1
  split at h
  · cases h
    exact hdb
  · split at h
    · cases h
      exact hdb
    · cases h

theorem createConsumerContext_ok
    (h : createConsumerContext request db session = .ok ctx) :
    ctx.db = .readTx ∧ effectiveCompanyId ctx = none := by
  unfold createConsumerContext at h
  obtain ⟨userId, _, h⟩ := bind_eq_ok.mp h
  obtain ⟨_, _, h⟩ := bind_eq_ok.mp h
  cases h
  exact ⟨rfl, rfl⟩

theorem createAccountContext_ok
    (h : createAccountContext request db session = .ok ctx) :
    ctx.db = db ∧ effectiveCompanyId ctx = none := by
  unfold createAccountContext at h
  obtain ⟨userId, _, h⟩ := bind_eq_ok.mp h
  obtain ⟨_, _, h⟩ := bind_eq_ok.mp h
  cases h
  exact ⟨rfl, rfl⟩

theorem createShareContext_ok
    (h : createShareContext request db resolved inheritedCompanyId =
      .ok ctx) :
    ctx.db = db ∧ ∀ inherited ∈ inheritedCompanyId,
      effectiveCompanyId ctx = some inherited := by
  unfold createShareContext at h
  obtain ⟨_, _, h⟩ := bind_eq_ok.mp h
  obtain ⟨target, _, h⟩ := bind_eq_ok.mp h
  obtain ⟨_, hinherited, h⟩ := bind_eq_ok.mp h
  split at h
  · cases h
  · cases h
  · cases h
    exact ⟨rfl, fun inherited hmem =>
      congrArg some (inherited_of_ok hinherited inherited hmem)⟩

/-- A root of an action that writes gets the transaction itself. -/
theorem constructPrincipalContext_writable {action : ImplementedAction}
    {projectionGrants : List String} {principal : PrincipalInvocation}
    {surroundings : Surroundings ρ} {u : Unit}
    (hshape : assertPrincipalShape action.contract principal = .ok u)
    (hrisk : action.contract.risk ≠ .read)
    (h : constructPrincipalContext action projectionGrants request principal
      false surroundings = .ok ctx) : ctx.db = .tx := by
  have hmode : principal.mode = action.contract.principal := by
    unfold assertPrincipalShape at hshape
    split at hshape
    · cases hshape
    · next hsame => exact not_not.mp hsame
  have hwrites : action.contract.principal ∉ READ_ONLY_PRINCIPALS :=
    fun hmem => hrisk (action.contract.risk_eq_read_of_principal hmem)
  cases principal with
  | staff session companySelector =>
      simp only [constructPrincipalContext] at h
      obtain ⟨⟨membership, built⟩, hbuilt, h⟩ := bind_eq_ok.mp h
      obtain ⟨_, _, h⟩ := bind_eq_ok.mp h
      cases h
      exact (createStaffContext_ok hbuilt).1
  | customer => exact (createCustomerContext_ok h).1
  | «public» =>
      rw [← hmode] at hwrites
      exact absurd List.mem_cons_self hwrites
  | system serviceName scope companyMustExist =>
      simp only [constructPrincipalContext] at h
      split at h
      · exact createExistingCompanySystemContext_db h
      · exact (createSystemContext_ok h).1
  | consumer =>
      rw [← hmode] at hwrites
      exact absurd (List.mem_cons_of_mem _ List.mem_cons_self) hwrites
  | account => exact (createAccountContext_ok h).1
  | share => exact (createShareContext_ok h).1

end Built

end Shozee.Pipeline
