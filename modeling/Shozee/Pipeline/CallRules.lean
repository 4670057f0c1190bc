import Shozee.Pipeline.Context

/-!
# Which action may call which

The rules of `packages/core/src/contract-check/call-rules.ts`. The contract
check runs them over the declared edges of the registry, and `ctx.call` and
`ctx.callAtomic` over the two actions at hand. Each gives a list of problems;
an empty one lets the call through.

Of a contract the file keeps what the rules and the nested invocations read,
and of the checks of `defineActionContract` those on these fields that say
what a root may write.
-/

namespace Shozee.Pipeline

open Shozee.Confirmation (ActionPrincipal ActionRisk)

/-- Whether clients may invoke an action. -/
inductive ActionTransport
  | client
  | internal
deriving DecidableEq, Repr

/-- What a public action is about. -/
inductive PublicScope
  | target
  | globalProjection
deriving DecidableEq, Repr

/-- Whether a system action is of one company. -/
inductive SystemScope
  | tenant
  | global
deriving DecidableEq, Repr

/-- The text of a scope. -/
def SystemScope.name : SystemScope → String
  | .tenant => "tenant"
  | .global => "global"

/-- The consistency that a read may ask for. -/
inductive Consistency
  | snapshot
deriving DecidableEq, Repr

/-- The text of a principal. -/
def principalName : ActionPrincipal → String
  | .public => "public"
  | .consumer => "consumer"
  | .account => "account"
  | .customer => "customer"
  | .staff => "staff"
  | .share => "share"
  | .system => "system"

/-- A contract as a module declares it. -/
structure ActionContractDefinition where
  name : String
  principal : ActionPrincipal
  transport : ActionTransport
  permissions : List String
  publicScope : Option PublicScope
  projectionGrant : Option String
  systemScope : Option SystemScope
  risk : ActionRisk
  requiresConfirmation : Bool
  idempotent : Bool
  atomicCalls : List String
  atomicCallers : List String
  consistency : Option Consistency
deriving DecidableEq, Repr

/-- A check of one list of problems. -/
def problemIf (violated : Prop) [Decidable violated] (problem : String) :
    List String :=
  if violated then [problem] else []

theorem problemIf_eq_nil {violated : Prop} [Decidable violated]
    {problem : String} : problemIf violated problem = [] ↔ ¬ violated := by
  unfold problemIf
  split
  · next h => exact iff_of_false (List.cons_ne_nil _ _) (not_not.mpr h)
  · next h => exact iff_of_true rfl h

/-- Principals whose actions are strict read-only subsets. -/
def READ_ONLY_PRINCIPALS : List ActionPrincipal := [.public, .consumer]

/-- The checks on what an action may write. -/
def writeProblems (definition : ActionContractDefinition) : List String :=
  problemIf (definition.principal ∈ READ_ONLY_PRINCIPALS ∧
      definition.risk ≠ .read)
    (principalName definition.principal ++
      " actions are read-only and must declare risk: \"read\"") ++
  problemIf (definition.consistency ≠ none ∧ definition.risk ≠ .read)
    "consistency \"snapshot\" requires risk: \"read\""

/-- A contract that `defineActionContract` let through. -/
structure ActionContract extends ActionContractDefinition where
  valid : writeProblems toActionContractDefinition = []
deriving DecidableEq

/-- `<module>.<verb>` up to the dot. -/
def moduleOf (qualifiedName : String) : String :=
  String.ofList (qualifiedName.toList.takeWhile (· ≠ '.'))

/-- A contract's principal in an error. -/
def describePrincipal (contract : ActionContract) : String :=
  if contract.principal = .system then
    "system/" ++ ((contract.systemScope.map SystemScope.name).getD "unknown")
  else principalName contract.principal

/-! ## Reads

Which principals may read through which, and the problems of an edge taken by
`ctx.call`. -/

/-- Whether a caller's principal may call a read. An account may read as a
consumer. -/
def callPrincipalCompatible (caller callee : ActionContract) : Bool :=
  if caller.principal = callee.principal then
    if caller.principal = .system then
      caller.systemScope = some .tenant || callee.systemScope = some .global
    else true
  else caller.principal = .account && callee.principal = .consumer

/-- What speaks against a read across modules. -/
def callTargetProblems (caller callee : ActionContract) : List String :=
  let problems :=
    problemIf (moduleOf caller.name = moduleOf callee.name)
      "same-module composition uses services/, not ctx.call (ADR-0015)" ++
    problemIf (callee.risk ≠ .read)
      ("only risk: \"read\" actions are callable cross-module " ++
        "(core.md §9, ADR-0015)") ++
    problemIf (callee.consistency = some .snapshot ∧
        caller.consistency ≠ some .snapshot)
      ("a consistency: \"snapshot\" callee runs on its caller's " ++
        "transaction, so its caller must declare consistency: " ++
        "\"snapshot\" too (core.md §9, ADR-0042 L1)")
  if caller.publicScope = some .globalProjection then
    problems ++
      ["public-global actions cannot use ctx.call — their read capability " ++
        "is limited to the declared projection grant (core.md §9)"]
  else if callee.publicScope = some .globalProjection then
    problems ++
      ["a public-global action cannot be a ctx.call target — its " ++
        "projection grant binds only its own anonymous invocation " ++
        "(core.md §2, ADR-0020)"]
  else
    problems ++
      problemIf (¬ callPrincipalCompatible caller callee)
        ("callee (" ++ describePrincipal callee ++ ") does not accept the " ++
          "caller's principal (" ++ describePrincipal caller ++
          ") (core.md §9, ADR-0015)")

/-! ## Writes in the root's transaction

The problems of an edge taken by `ctx.callAtomic`. `AtomicEdge` is what there
is to know when there are none. -/

/-- Whether a caller's principal may call a write. Here both have to be the
same. -/
def atomicPrincipalCompatible (caller callee : ActionContract) : Bool :=
  if caller.principal ≠ callee.principal then false
  else if caller.principal = .system then
    caller.systemScope = callee.systemScope
  else true

/-- What speaks against a write across modules in the root's transaction. -/
def atomicCallTargetProblems (caller callee : ActionContract) : List String :=
  problemIf (moduleOf caller.name = moduleOf callee.name)
    ("same-module composition uses services/, not ctx.callAtomic " ++
      "(ADR-0015, ADR-0021)") ++
  problemIf (caller.risk = .read)
    "ctx.callAtomic is available only to writable root actions (ADR-0021)" ++
  problemIf (¬ caller.idempotent)
    "atomic root actions must declare idempotent: true (ADR-0021)" ++
  problemIf (callee.name ∉ caller.atomicCalls)
    ("undeclared edge — \"" ++ caller.name ++ "\" does not list \"" ++
      callee.name ++ "\" in atomicCalls (ADR-0021)") ++
  problemIf (caller.name ∉ callee.atomicCallers)
    ("not mutually declared — \"" ++ callee.name ++ "\" does not list \"" ++
      caller.name ++ "\" in atomicCallers (ADR-0021)") ++
  problemIf (callee.transport ≠ .internal)
    ("atomic callees must declare transport: \"internal\" — no client or AI " ++
      "route may exist (ADR-0021)") ++
  problemIf (callee.risk ≠ .write)
    "atomic callees must declare risk: \"write\" (ADR-0021)" ++
  problemIf (callee.requiresConfirmation)
    "atomic callees cannot require confirmation (ADR-0021)" ++
  problemIf (¬ atomicPrincipalCompatible caller callee)
    ("caller (" ++ describePrincipal caller ++ ") and callee (" ++
      describePrincipal callee ++
      ") must use the same principal mode (ADR-0021)")

/-- What an empty list of problems says of an atomic edge. -/
structure AtomicEdge (caller callee : ActionContract) : Prop where
  modules : moduleOf caller.name ≠ moduleOf callee.name
  writable : caller.risk ≠ .read
  idempotent : caller.idempotent = true
  callDeclared : callee.name ∈ caller.atomicCalls
  callerDeclared : caller.name ∈ callee.atomicCallers
  internal : callee.transport = .internal
  write : callee.risk = .write
  unconfirmed : ¬ callee.requiresConfirmation = true
  compatible : atomicPrincipalCompatible caller callee = true

theorem atomicEdge_of_no_problems {caller callee : ActionContract}
    (h : atomicCallTargetProblems caller callee = []) :
    AtomicEdge caller callee := by
  unfold atomicCallTargetProblems at h
  simp only [List.append_eq_nil_iff, problemIf_eq_nil, not_not] at h
  obtain ⟨⟨⟨⟨⟨⟨⟨⟨hmodules, hwritable⟩, hidempotent⟩, hcall⟩, hcaller⟩,
    hinternal⟩, hwrite⟩, hunconfirmed⟩, hcompatible⟩ := h
  exact
    { modules := hmodules
      writable := hwritable
      idempotent := hidempotent
      callDeclared := hcall
      callerDeclared := hcaller
      internal := hinternal
      write := hwrite
      unconfirmed := hunconfirmed
      compatible := hcompatible }

/-! ## What the rules say of names and risks

Facts about contracts that any edge can use: actions of one name are of one
module, and some principals and consistencies admit reads only. -/

/-- Two actions of one name are of one module. -/
theorem name_ne_of_modules {caller callee : ActionContract}
    (h : moduleOf caller.name ≠ moduleOf callee.name) :
    callee.name ≠ caller.name :=
  fun heq => h (congrArg moduleOf heq.symm)

theorem ActionContract.risk_eq_read_of_principal (contract : ActionContract)
    (h : contract.principal ∈ READ_ONLY_PRINCIPALS) :
    contract.risk = .read := by
  have hvalid := contract.valid
  simp only [writeProblems, List.append_eq_nil_iff, problemIf_eq_nil, not_and,
    not_not] at hvalid
  exact hvalid.1 h

theorem ActionContract.risk_eq_read_of_consistency (contract : ActionContract)
    (h : contract.consistency ≠ none) : contract.risk = .read := by
  have hvalid := contract.valid
  simp only [writeProblems, List.append_eq_nil_iff, problemIf_eq_nil, not_and,
    not_not] at hvalid
  exact hvalid.2 h

end Shozee.Pipeline
