import Shozee.Run.Machine
import Shozee.Pipeline.Factories

/-!
# Nested calls

`ctx.call` (`pipeline/ctx-call.ts`) and `ctx.callAtomic`
(`pipeline/ctx-call-atomic.ts`) of one pipeline invocation, as a machine. A
handler is any code: at any time any invocation that has its context may call
any action, several at once, also when its own handler has returned. What the
machine keeps is every invocation that was entered, in order, with the path of
action names that leads to it, and whether the atomic edge has been used.

A call is one action: its checks before the first wait are made at once, and
what it reads while it builds the callee's context nobody in the tree writes.
-/

namespace Shozee.Pipeline

open Shozee.Run
open Shozee.Confirmation (ActionRisk)

/-- Max nested `ctx.call` levels below the root action. -/
def CALL_DEPTH_LIMIT : Nat := 3

/-- How an invocation came to be; a nested one by which invocation's call. -/
inductive Origin
  | execution
  | preview
  | call (caller : Nat)
  | callAtomic (caller : Nat)
deriving DecidableEq, Repr

/-- An invocation whose context was built. `path` holds the action names from
the root down to it. -/
structure Invocation (ρ : Type) where
  origin : Origin
  contract : ActionContract
  request : ActionRequestMeta
  path : List String
  ctx : ActionCtx ρ
deriving DecidableEq

/-- One pipeline invocation; `used` is the latch of its `callAtomic`. -/
structure State (ρ : Type) where
  deadline : Nat
  invocations : List (Invocation ρ)
  finished : Bool
  used : Bool
deriving DecidableEq

/-- The steps of a request: its root runs or previews, and any invocation may
call another. -/
inductive Act (ρ : Type)
  | execute (deadline : Nat) (action : ImplementedAction)
      (projectionGrants : List String) (request : ActionRequestMeta)
      (principal : PrincipalInvocation) (surroundings : Surroundings ρ)
  | preview (deadline : Nat) (action : ImplementedAction)
      (projectionGrants : List String) (request : ActionRequestMeta)
      (principal : PrincipalInvocation) (surroundings : Surroundings ρ)
  | call (caller : Nat) (action : ImplementedAction)
      (surroundings : Surroundings ρ)
  | callAtomic (caller : Nat) (action : ImplementedAction)
      (surroundings : Surroundings ρ)
  | finish

/-- What a step comes to. -/
inductive Event
  | entered (invocation : Nat)
  | refused (error : CoreError)
deriving DecidableEq, Repr

variable {ρ : Type}

/-- Nothing has run yet. -/
def State.initial : State ρ where
  deadline := 0
  invocations := []
  finished := false
  used := false

/-! ## Shared checks

What both calls look at before they do anything, and the chain of names that
their errors show. -/

/-- `[...env.path, callee.name].join(" → ")`. -/
def chain (path : List String) (callee : ActionContract) : String :=
  " → ".intercalate (path ++ [callee.name])

/-- A nested call has to begin before the root's deadline. -/
def assertNestedDeadline (invoker text : String) (deadline : Nat)
    (surroundings : Surroundings ρ) : Except CoreError Unit :=
  if surroundings.aborted ∨ deadline ≤ surroundings.nowMs then
    .error (.timeout
      (invoker ++ " " ++ text ++
        " attempted after the shared deadline was exhausted"))
  else .ok ()

/-- A nested call's input has to be what the callee declares. -/
def validateNestedInput (noun text : String)
    (surroundings : Surroundings ρ) : Except CoreError Unit :=
  if surroundings.inputAccepted then .ok ()
  else
    .error (.validation "Input validation failed."
      ("input of " ++ noun ++ " " ++ text ++
        " failed the callee's declared input schema"))

/-- The caller's request meta with the callee's action name swapped in. -/
def nestedRequest (request : ActionRequestMeta) (callee : ActionContract) :
    ActionRequestMeta :=
  { request with action := callee.name }

/-- `constructCalleeContext`: the caller's principal, authorized again for the
callee. -/
def constructCalleeContext (callerCtx : ActionCtx ρ)
    (action : ImplementedAction) (request : ActionRequestMeta)
    (db : Capability) (surroundings : Surroundings ρ) :
    Except CoreError (ActionCtx ρ) :=
  let callee := action.contract
  let resolved := requireResolver action
    ("nested call target \"" ++ callee.name ++ "\" requires a target " ++
      "resolver but none is bound — implementAction should have rejected " ++
      "this pairing") surroundings
  match callerCtx.principal with
  | .staff userId companyId _ => do
      let (membership, ctx) ← createStaffContext request db (some userId)
        (some companyId) surroundings.membership
      assertDeclaredPermissions membership callee
      return ctx
  | .customer userId target =>
      createCustomerContext request db (some userId) resolved
        (some target.companyId)
  | .publicGlobal _ =>
      .error (.coreInvariant
        ("public-global caller reached nested context construction for \"" ++
          callee.name ++ "\" — the §9 target rules should have rejected it"))
  | .publicTarget target =>
      createPublicTargetContext request db resolved (some target.companyId)
  | .systemTenant serviceName companyId =>
      if callee.systemScope = some .global then
        createSystemContext serviceName .global request db
      else createSystemContext serviceName (.tenant companyId) request db
  | .systemGlobal serviceName =>
      if callee.systemScope = some .global then
        createSystemContext serviceName .global request db
      else
        .error (.coreInvariant
          ("global system caller reached nested context construction for " ++
            "tenant-scoped \"" ++ callee.name ++
            "\" — the §9 compatibility rules should have rejected it"))
  | .consumer userId => createConsumerContext request db (some userId)
  | .account userId =>
      if callee.principal = .consumer then
        createConsumerContext request db (some userId)
      else createAccountContext request db (some userId)
  | .share target _ =>
      createShareContext request db resolved (some target.companyId)

/-! ## The two calls

The order of the checks is that of the source. A call that fails one of them
enters nothing. -/

/-- `getExecution`: a root's box is empty when its transaction is over, a
nested one's stays. -/
def State.executing (s : State ρ) (caller : Invocation ρ) : Bool :=
  match caller.origin with
  | .execution | .preview => ! s.finished
  | .call _ | .callAtomic _ => true

/-- `ctx.call`, up to the callee's handler. -/
def call (s : State ρ) (caller : Invocation ρ) (action : ImplementedAction)
    (surroundings : Surroundings ρ) : Except CoreError (ActionCtx ρ) :=
  let callee := action.contract
  let problems := callTargetProblems caller.contract callee
  let text := chain caller.path callee
  if ! s.executing caller then
    .error (.coreInvariant
      ("\"" ++ caller.contract.name ++ "\" invoked ctx.call(\"" ++
        callee.name ++ "\") outside its handler execution — nested calls " ++
        "run only inside the execution transaction (core.md §9)"))
  else if problems ≠ [] then
    .error (.coreInvariant
      ("ctx.call " ++ text ++ " violates core.md §9: " ++
        "; ".intercalate problems))
  else if callee.name ∈ caller.path then
    .error (.coreInvariant
      ("ctx.call cycle detected: " ++ text ++ " (core.md §9)"))
  else if CALL_DEPTH_LIMIT < caller.path.length then
    .error (.coreInvariant
      ("ctx.call depth limit of " ++ toString CALL_DEPTH_LIMIT ++
        " exceeded: " ++ text ++ " (core.md §9)"))
  else do
    assertNestedDeadline "ctx.call" text s.deadline surroundings
    validateNestedInput "nested call" text surroundings
    constructCalleeContext caller.ctx action
      (nestedRequest caller.request callee) (createReadTx .tx) surroundings

/-- `rejectNestedCallAtomic`. -/
def rejectNestedCallAtomic (calleeName : String) (action : ActionContract) :
    CoreError :=
  .coreInvariant
    ("nested callee \"" ++ calleeName ++ "\" invoked ctx.callAtomic(\"" ++
      action.name ++ "\") — atomic calls may originate only from the root " ++
      "action (core.md §9, ADR-0021)")

/-- `ctx.callAtomic` before its latch is set. -/
def atomicChecks (s : State ρ) (caller : Invocation ρ)
    (callee : ActionContract) : Except CoreError Unit :=
  let problems := atomicCallTargetProblems caller.contract callee
  if caller.origin ≠ .execution ∨ ! s.executing caller then
    .error (.coreInvariant
      ("\"" ++ caller.contract.name ++ "\" invoked ctx.callAtomic(\"" ++
        callee.name ++ "\") outside its handler execution — atomic calls " ++
        "run only inside the root execution transaction (ADR-0021)"))
  else if problems ≠ [] then
    .error (.coreInvariant
      ("ctx.callAtomic " ++ chain caller.path callee ++
        " violates ADR-0021: " ++ "; ".intercalate problems))
  else if s.used then
    .error (.coreInvariant
      ("\"" ++ caller.contract.name ++ "\" invoked ctx.callAtomic(\"" ++
        callee.name ++ "\") after an earlier atomic call — only one atomic " ++
        "edge is allowed below the root (core.md §9, ADR-0021)"))
  else .ok ()

/-- `ctx.callAtomic` after that, up to the callee's handler; the callee gets
the root's transaction itself. -/
def callAtomic (s : State ρ) (caller : Invocation ρ)
    (action : ImplementedAction) (surroundings : Surroundings ρ) :
    Except CoreError (ActionCtx ρ) := do
  let text := chain caller.path action.contract
  assertNestedDeadline "ctx.callAtomic" text s.deadline surroundings
  validateNestedInput "atomic call" text surroundings
  constructCalleeContext caller.ctx action
    (nestedRequest caller.request action.contract) .tx surroundings

/-! ## The machine

Any invocation may call at any time. An attempt is one step, with all its
checks. -/

/-- An entered callee, below its caller. -/
def Invocation.callee (caller : Invocation ρ) (origin : Origin)
    (contract : ActionContract) (ctx : ActionCtx ρ) : Invocation ρ where
  origin := origin
  contract := contract
  request := nestedRequest caller.request contract
  path := caller.path ++ [contract.name]
  ctx := ctx

/-- An invocation more. -/
def State.enter (s : State ρ) (invocation : Invocation ρ) : State ρ :=
  { s with invocations := s.invocations ++ [invocation] }

/-- A root with the context that the pipeline builds for it. -/
def root (action : ImplementedAction) (projectionGrants : List String)
    (request : ActionRequestMeta) (principal : PrincipalInvocation)
    (origin : Origin) (readOnly : Bool) (surroundings : Surroundings ρ) :
    Except CoreError (Invocation ρ) := do
  assertPrincipalShape action.contract principal
  let ctx ← constructPrincipalContext action projectionGrants request principal
    readOnly surroundings
  return { origin := origin, contract := action.contract, request := request,
           path := [action.contract.name], ctx := ctx }

/-- A step that tries to enter an invocation. -/
def State.tried (s : State ρ) : Except CoreError (Invocation ρ) →
    State ρ × List Event
  | .ok invocation => (s.enter invocation, [.entered s.invocations.length])
  | .error error => (s, [.refused error])

/-- One step of a request, where it is possible. -/
def step (s : State ρ) : Act ρ → Option (State ρ × List Event)
  | .execute deadline action projectionGrants request principal surroundings =>
      if s.invocations = [] then
        some (({ s with deadline := deadline } : State ρ).tried
          (root action projectionGrants request principal .execution
            (action.contract.risk = .read) surroundings))
      else none
  | .preview deadline action projectionGrants request principal surroundings =>
      if s.invocations = [] then
        some (({ s with deadline := deadline } : State ρ).tried
          (root action projectionGrants request principal .preview true
            surroundings))
      else none
  | .call i action surroundings =>
      match s.invocations[i]? with
      | none => none
      | some caller =>
          some (s.tried ((call s caller action surroundings).map
            (caller.callee (.call i) action.contract)))
  | .callAtomic i action surroundings =>
      match s.invocations[i]? with
      | none => none
      | some caller =>
          match caller.origin with
          | .call _ | .callAtomic _ =>
              some (s, [.refused
                (rejectNestedCallAtomic caller.contract.name
                  action.contract)])
          | .execution | .preview =>
              match atomicChecks s caller action.contract with
              | .error error => some (s, [.refused error])
              | .ok () =>
                  some (({ s with used := true } : State ρ).tried
                    ((callAtomic s caller action surroundings).map
                      (caller.callee (.callAtomic i) action.contract)))
  | .finish => some ({ s with finished := true }, [])

/-- A request with all its invocations. -/
def protocol : Machine (State ρ) (Act ρ) Event where
  init := .initial
  step := step

end Shozee.Pipeline
