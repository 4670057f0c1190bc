import Shozee.Idempotency.Hook

/-!
# The confirmation gate, decision by decision

An action whose gate requires confirmation runs its handler only under a
grant. `packages/core/src/runtime/confirmation/create-confirmation-hook.ts`
issues a challenge, stores it under its id with what it is bound to, and turns
it into a grant when the id comes back; `runConfirmationGate` in
`pipeline/execute-action.ts` asks the idempotency row first, which may hold
the answer or a grant that an earlier attempt left there. This file is that
code without its interleaving.

The challenge is bound to what the hook hashes and names (`Bindings`), the row
to what the idempotency hook hashes and names (`KeyedCall.identity` and
`KeyedCall.requestHash`). The two are not the same data, and the last section
says that they determine one another: this is what lets a grant survive on a
row.

Hashes are SHA-256 of a canonical JSON text. `Digest` is that function on the
payloads that the two hooks hash, with the one thing relied on, that two
different requests have different hashes.
-/

namespace Shozee.Confirmation

open Shozee.Idempotency

/-- Challenges expire 5 minutes after issuance. -/
def confirmationTtlMs : Nat := 5 * 60 * 1000

/-- The kinds of principals that a contract may name. -/
inductive ActionPrincipal
  | «public»
  | consumer
  | account
  | customer
  | staff
  | share
  | system
deriving DecidableEq, Repr

/-- What an action may do, from reading to what a person has to confirm. -/
inductive ActionRisk
  | read
  | draft
  | write
  | high
deriving DecidableEq, Repr

/-- The text of a risk. -/
def ActionRisk.name : ActionRisk → String
  | .read => "read"
  | .draft => "draft"
  | .write => "write"
  | .high => "high"

/-- What the confirmation protocol reads of a contract. -/
structure ActionContractDefinition where
  name : String
  principal : ActionPrincipal
  risk : ActionRisk
  idempotent : Bool
  requiresConfirmation : Bool
  timeout : Nat
deriving DecidableEq, Repr

/-- `CONFIRMABLE_RISKS`. -/
def confirmableRisks : List ActionRisk := [.write, .high]

/-- Principals behind whom a person sits. -/
def isHumanPrincipal : ActionPrincipal → Bool
  | .staff | .customer | .account => true
  | .public | .consumer | .share | .system => false

/-- Why `flag` cannot gate the action. -/
def confirmationPreconditionProblems (subject : ActionContractDefinition)
    (flag : String) (allowedRisks : Option (List ActionRisk)) : List String :=
  (match allowedRisks with
    | none => []
    | some allowed =>
        if subject.risk ∈ allowed then []
        else
          [flag ++ " applies to risk " ++
            " and ".intercalate (allowed.map ActionRisk.name) ++
            " actions only — risk is \"" ++ subject.risk.name ++ "\""]) ++
  (if isHumanPrincipal subject.principal then []
    else
      [flag ++
        " applies to human principals (staff, customer, account) only"]) ++
  (if subject.idempotent then []
    else
      [flag ++ " requires idempotent: true " ++
        "(confirmed retries must replay safely, core.md §5)"])

/-- The rule of `defineActionContract` on `requiresConfirmation`. -/
def validateConfirmation (definition : ActionContractDefinition) :
    List String :=
  if definition.requiresConfirmation then
    confirmationPreconditionProblems definition "requiresConfirmation" none ++
      if definition.risk = .high then []
      else ["requiresConfirmation requires risk: \"high\""]
  else if definition.risk = .high ∧ isHumanPrincipal definition.principal then
    ["human-invoked risk: \"high\" actions must declare " ++
      "requiresConfirmation: true (core.md §7)"]
  else []

/-- A contract that `defineActionContract` let through. -/
structure ActionContract extends ActionContractDefinition where
  valid : validateConfirmation toActionContractDefinition = []
deriving DecidableEq

/-- What the two hooks read of the transport's request. -/
structure RequestMeta where
  idempotencyKey : Option String
  confirmationChallengeId : Option ChallengeId
  requireConfirmation : Bool
  confirmationOnly : Bool
deriving DecidableEq, Repr

/-- The mode of a call with what `runAuthorizationPreflight` returns for it.
Public and consumer calls have no preflight. -/
inductive Authorized
  | staff (userId companyId : String)
  | customer (userId companyId : String)
  | account (userId : String)
  | system (serviceName : String) (companyId : Option String)
  | share (tokenHash companyId : String)
deriving DecidableEq, Repr

/-- The company that an authorized call acts in. -/
def Authorized.companyId : Authorized → Option String
  | .staff _ companyId | .customer _ companyId | .share _ companyId =>
      some companyId
  | .account _ => none
  | .system _ companyId => companyId

/-- Mode and accountable identity, as one string. -/
def Authorized.principalKey : Authorized → String
  | .staff userId _ => "staff:" ++ userId
  | .customer userId _ => "customer:" ++ userId
  | .account userId => "account:" ++ userId
  | .system serviceName _ => "system:" ++ serviceName
  | .share tokenHash _ => "share:" ++ tokenHash

/-- A call as the pipeline sees it after its preflight. -/
structure CallEnv (I : Type) where
  contract : ActionContract
  request : RequestMeta
  authorized : Authorized
  input : I
deriving DecidableEq

/-- The errors of the gate, each with what is only logged. -/
inductive CoreError
  | validation (path : List String) (clientMessage internalMessage : String)
  | coreInvariant (internalMessage : String)
deriving DecidableEq, Repr

variable {I H : Type}

/-! ## Keys

The gate computes a call's keys before it looks anything up, and a call whose
keys cannot be computed goes no further. The principal key names the
accountable identity, the scope key the company. -/

/-- The key of the call; an empty one is as good as none. -/
def requireIdempotencyKey (env : CallEnv I) : Except CoreError String :=
  match env.request.idempotencyKey with
  | some key =>
      if key ≠ "" then .ok key else .error (missing env)
  | none => .error (missing env)
where
  missing (env : CallEnv I) : CoreError :=
    .validation ["idempotencyKey"]
      "An idempotency key is required for this action."
      ("idempotent mutation \"" ++ env.contract.name ++
        "\" invoked without an idempotency key")

/-- A share call is named by the hash of its token, which must be there. -/
def principalKeyFor (env : CallEnv I) : Except CoreError String :=
  match env.authorized with
  | .share "" _ =>
      .error (.coreInvariant
        ("share authorization for \"" ++ env.contract.name ++
          "\" has no tokenHash — preflight must run resolveTarget before " ++
          "the idempotency reservation (core.md §5)"))
  | authorized => .ok authorized.principalKey

/-- The part of the identity that says in which company. -/
def scopeKeyFor (env : CallEnv I) : String :=
  match env.authorized with
  | .account userId => "user:" ++ userId
  | .staff _ companyId | .customer _ companyId | .share _ companyId =>
      "company:" ++ companyId
  | .system _ (some companyId) => "company:" ++ companyId
  | .system _ none => "global"

/-- The primary key that `probe` and `reserve` compute for a call. -/
def identityOf (env : CallEnv I) : Except CoreError RowIdentity := do
  let key ← requireIdempotencyKey env
  let principalKey ← principalKeyFor env
  return { principalKey, scopeKey := scopeKeyFor env,
           action := env.contract.name, key }

/-- A call whose keys could be computed. -/
structure KeyedCall (I : Type) where
  env : CallEnv I
  identity : RowIdentity
  keyed : identityOf env = .ok identity

/-- A call with its identity, if it has one. -/
def keyedCall (env : CallEnv I) : Except CoreError (KeyedCall I) :=
  match h : identityOf env with
  | .ok identity => .ok ⟨env, identity, h⟩
  | .error e => .error e

/-! ## Cards and hashes

A challenge is stored with hashes of the input and of the card, never with the
card itself. Inputs are one to it when their canonical forms are. -/

/-- A line of a card. -/
structure ActionPreviewLine where
  label : String
  value : String
deriving DecidableEq, Repr

/-- A card as a contract makes it. -/
structure ActionPreview where
  title : String
  lines : List ActionPreviewLine
  notes : Option (List String)
deriving DecidableEq, Repr

/-- `ConfirmationChallengeSummary`: what the person is shown. -/
structure Card where
  summary : String
  preview : Option ActionPreview
deriving DecidableEq, Repr

/-- A card as it is hashed. Missing notes are no notes. -/
structure CanonicalPreview where
  title : String
  lines : List ActionPreviewLine
  notes : List String
deriving DecidableEq, Repr

/-- The part of a card that its hash is of. -/
def canonicalPreview (preview : ActionPreview) : CanonicalPreview :=
  { title := preview.title
    lines := preview.lines
    notes := preview.notes.getD [] }

/-- What the two hooks hash. -/
inductive Payload (I : Type)
  | input (input : I)
  | request (input : I) (principalKey scopeKey : String)
  | preview (preview : CanonicalPreview)
deriving DecidableEq

/-- `canonicalJsonSha256OfUnknown`. Inputs are equal here when their canonical
texts are. -/
structure Digest (I H : Type) where
  sha256 : Payload I → H
  request_inj : ∀ i i' p p' s s',
    sha256 (.request i p s) = sha256 (.request i' p' s') →
      i = i' ∧ p = p' ∧ s = s'

variable (D : Digest I H)

/-- The hash of a card that has something to show. -/
def previewHashOf (card : Card) : Option H :=
  card.preview.map fun preview =>
    D.sha256 (.preview (canonicalPreview preview))

/-- The hash that a second call under the key is compared with. -/
def KeyedCall.requestHash (call : KeyedCall I) : H :=
  D.sha256 (.request call.env.input call.identity.principalKey
    call.identity.scopeKey)

/-- What a challenge is bound to. -/
structure Bindings (H : Type) where
  actionName : String
  inputHash : H
  principalKey : String
  companyId : Option String
  idempotencyKey : String
deriving DecidableEq

/-- All that a confirmation is bound to. -/
def KeyedCall.bindings (call : KeyedCall I) : Bindings H :=
  { actionName := call.env.contract.name
    inputHash := D.sha256 (.input call.env.input)
    principalKey := call.identity.principalKey
    companyId := call.env.authorized.companyId
    idempotencyKey := call.identity.key }

/-- The record in the challenge store. -/
structure StoredChallenge (H : Type) where
  challengeId : ChallengeId
  bindings : Bindings H
  previewHash : Option H
  expiresAt : Nat
deriving DecidableEq

/-! ## The gate

The record of a challenge, the grant that it becomes, and the tests between the
two, each one as `create-confirmation-hook.ts` makes it. `routeOf` is the order
in which `runConfirmationGate` asks. -/

/-- The record `issueChallenge` stores. -/
def challengeRecord (call : KeyedCall I) (challengeId : ChallengeId)
    (nowMs : Nat) (card : Card) : StoredChallenge H :=
  { challengeId
    bindings := call.bindings D
    previewHash := previewHashOf D card
    expiresAt := nowMs + confirmationTtlMs }

/-- The grant a consumed challenge becomes. -/
def StoredChallenge.grant (stored : StoredChallenge H) (nowMs : Nat) :
    ConfirmationGrant :=
  { challengeId := stored.challengeId
    confirmedAt := nowMs
    expiresAt := stored.expiresAt }

variable [DecidableEq H]

/-- Whether a challenge is the one that is confirmed, for this very call. -/
def bindingsMatch (stored : StoredChallenge H) (challengeId : ChallengeId)
    (expected : Bindings H) : Bool :=
  stored.challengeId = challengeId ∧ stored.bindings = expected

/-- The test on a record that has just been taken out of the store. -/
def challengeAccepted (call : KeyedCall I) (challengeId : ChallengeId)
    (raw : Option (StoredChallenge H)) (nowMs : Nat) :
    Option (StoredChallenge H) :=
  match raw with
  | some stored =>
      if nowMs < stored.expiresAt ∧
          bindingsMatch stored challengeId (call.bindings D) then some stored
      else none
  | none => none

/-- `confirmationIsRequired`. -/
def confirmationIsRequired (env : CallEnv I) : Bool :=
  env.contract.requiresConfirmation || env.request.requireConfirmation ||
    env.request.confirmationOnly

/-- The call goes through `reserve`. -/
def reserves (env : CallEnv I) : Bool :=
  env.contract.idempotent && env.contract.risk ≠ .read

/-- `assertConfirmationFlagApplies`. -/
def confirmationFlagProblem (env : CallEnv I) (flag : String) :
    Option CoreError :=
  let problems := confirmationPreconditionProblems
    env.contract.toActionContractDefinition flag (some confirmableRisks)
  if problems = [] then none
  else
    some (.coreInvariant ("\"" ++ env.contract.name ++
      "\" cannot be gated by an execution-time " ++ flag ++
      " (core.md §7): " ++ "; ".intercalate problems))

/-- `assertExecutionTimeConfirmation`. -/
def executionTimeProblem (env : CallEnv I) : Option CoreError :=
  (if env.request.requireConfirmation then
    confirmationFlagProblem env "requireConfirmation" else none).or
  (if env.request.confirmationOnly then
    confirmationFlagProblem env "confirmationOnly" else none)

/-- Where a call goes from its preflight. -/
inductive Route (I : Type)
  | gate (call : KeyedCall I)
  | reserve (call : KeyedCall I)
  | direct

/-- What a call has to go through: the gate, a reservation, or neither. -/
def routeOf (env : CallEnv I) : Except CoreError (Route I) :=
  match executionTimeProblem env with
  | some e => .error e
  | none =>
      if confirmationIsRequired env then (keyedCall env).map .gate
      else if reserves env then (keyedCall env).map .reserve
      else .ok .direct

/-- What `reserve` is asked with. -/
def KeyedCall.reserveEnv (call : KeyedCall I)
    (grant : Option ConfirmationGrant) : ReserveEnv H :=
  { identity := call.identity
    requestHash := call.requestHash D
    timeout := call.env.contract.timeout
    confirmationGrant := grant }

/-! ## What the decisions mean

A call that gets through a decision has passed the tests before it. These
lemmas say which ones, so that no later proof unfolds a decision. -/

omit [DecidableEq H] in
theorem identityOf_eq_ok {env : CallEnv I} {k : RowIdentity}
    (h : identityOf env = .ok k) :
    requireIdempotencyKey env = .ok k.key ∧
      principalKeyFor env = .ok k.principalKey ∧
      k.scopeKey = scopeKeyFor env ∧ k.action = env.contract.name := by
  simp only [identityOf] at h
  cases hkey : requireIdempotencyKey env with
  | error e => rw [hkey] at h; cases h
  | ok key =>
      cases hprincipal : principalKeyFor env with
      | error e => rw [hkey, hprincipal] at h; cases h
      | ok principalKey =>
          rw [hkey, hprincipal] at h
          cases h
          exact ⟨rfl, rfl, rfl, rfl⟩

omit [DecidableEq H] in
theorem keyedCall_env {env : CallEnv I} {call : KeyedCall I}
    (h : keyedCall env = .ok call) : call.env = env := by
  simp only [keyedCall] at h
  split at h
  · cases h; rfl
  · cases h

theorem challengeAccepted_eq_some {call : KeyedCall I}
    {challengeId : ChallengeId} {raw : Option (StoredChallenge H)}
    {nowMs : Nat} {stored : StoredChallenge H}
    (h : challengeAccepted D call challengeId raw nowMs = some stored) :
    raw = some stored ∧ nowMs < stored.expiresAt ∧
      stored.bindings = call.bindings D := by
  simp only [challengeAccepted] at h
  split at h
  · split at h
    · next hmatch =>
        cases h
        obtain ⟨hlive, hbound⟩ := hmatch
        simp only [bindingsMatch, decide_eq_true_eq] at hbound
        exact ⟨rfl, hlive, hbound.2⟩
    · cases h
  · cases h

omit [DecidableEq H] in
theorem keyedCall_map {env : CallEnv I} {f : KeyedCall I → Route I}
    {route : Route I}
    (h : (keyedCall env).map f = .ok route) :
    ∃ call, call.env = env ∧ route = f call := by
  cases hkeyed : keyedCall env with
  | error e => rw [hkeyed] at h; cases h
  | ok call =>
      rw [hkeyed] at h
      cases h
      exact ⟨call, keyedCall_env hkeyed, rfl⟩

section Preconditions

omit [DecidableEq H]

variable {subject : ActionContractDefinition} {flag : String}
  {env : CallEnv I}

theorem idempotent_of_no_problems {allowed : Option (List ActionRisk)}
    (h : confirmationPreconditionProblems subject flag allowed = []) :
    subject.idempotent = true ∧
      ∀ risks, allowed = some risks → subject.risk ∈ risks := by
  simp only [confirmationPreconditionProblems, List.append_eq_nil_iff] at h
  obtain ⟨⟨hrisk, -⟩, hidempotent⟩ := h
  constructor
  · by_contra hnot
    rw [if_neg hnot] at hidempotent
    cases hidempotent
  · intro risks heq
    by_contra hnot
    rw [heq] at hrisk
    simp only [if_neg hnot] at hrisk
    cases hrisk

theorem reserves_of_flag (h : confirmationFlagProblem env flag = none) :
    reserves env = true := by
  simp only [confirmationFlagProblem] at h
  split at h
  · next hproblems =>
      obtain ⟨hidempotent, hrisk⟩ := idempotent_of_no_problems hproblems
      have hconfirmable := hrisk _ rfl
      rw [reserves, hidempotent, Bool.true_and, decide_eq_true_eq]
      intro hread
      rw [hread] at hconfirmable
      simp only [confirmableRisks, List.mem_cons, reduceCtorEq,
        List.not_mem_nil, or_self] at hconfirmable
  · cases h

/-- What `defineActionContract` checks, for an action that requires
confirmation. -/
theorem reserves_of_contract
    (h : env.contract.requiresConfirmation = true) : reserves env = true := by
  have hvalid := env.contract.valid
  rw [validateConfirmation, if_pos h, List.append_eq_nil_iff] at hvalid
  obtain ⟨hproblems, hhigh⟩ := hvalid
  have hrisk : env.contract.risk = .high := by
    by_contra hnot
    rw [if_neg hnot] at hhigh
    cases hhigh
  rw [reserves, (idempotent_of_no_problems hproblems).1, hrisk]
  rfl

/-- An action behind the gate reserves: its contract or the flag of the call
says that it is an idempotent mutation. -/
theorem reserves_of_required (hflags : executionTimeProblem env = none)
    (hrequired : confirmationIsRequired env = true) : reserves env = true := by
  rw [executionTimeProblem, Option.or_eq_none_iff] at hflags
  obtain ⟨hrequire, honly⟩ := hflags
  simp only [confirmationIsRequired, Bool.or_eq_true] at hrequired
  obtain (hcontract | hflag) | hflag := hrequired
  · exact reserves_of_contract hcontract
  · rw [if_pos hflag] at hrequire
    exact reserves_of_flag hrequire
  · rw [if_pos hflag] at honly
    exact reserves_of_flag honly

theorem gate_of_route {call : KeyedCall I}
    (h : routeOf env = .ok (.gate call)) :
    call.env = env ∧ confirmationIsRequired env = true ∧
      reserves env = true := by
  simp only [routeOf] at h
  split at h
  · cases h
  · next hflags =>
      split at h
      · next hrequired =>
          obtain ⟨call', henv, heq⟩ := keyedCall_map h
          cases heq
          exact ⟨henv, hrequired, reserves_of_required hflags hrequired⟩
      · split at h
        · obtain ⟨call', -, heq⟩ := keyedCall_map h
          cases heq
        · cases h

theorem reserve_of_route {call : KeyedCall I}
    (h : routeOf env = .ok (.reserve call)) :
    call.env = env ∧ confirmationIsRequired env = false := by
  simp only [routeOf] at h
  split at h
  · cases h
  · split at h
    · obtain ⟨call', -, heq⟩ := keyedCall_map h
      cases heq
    · next hrequired =>
        split at h
        · obtain ⟨call', henv, heq⟩ := keyedCall_map h
          cases heq
          exact ⟨henv, Bool.of_not_eq_true hrequired⟩
        · cases h

theorem direct_of_route (h : routeOf env = .ok .direct) :
    confirmationIsRequired env = false := by
  simp only [routeOf] at h
  split at h
  · cases h
  · split at h
    · obtain ⟨call', -, heq⟩ := keyedCall_map h
      cases heq
    · next hrequired => exact Bool.of_not_eq_true hrequired

end Preconditions

/-! ## What a row and a challenge say of one another

A challenge is bound to the action, the input, the principal, the company and
the key of its call. A row is named by the action, the principal, the scope and
the key, and carries the hash of the request. So a call that may use a
challenge asks for the row that the challenge was issued for, and the other way
round. -/

section Keys

omit [DecidableEq H]

theorem append_left_cancel {pre u v : String} (h : pre ++ u = pre ++ v) :
    u = v := by
  have hchars := congrArg String.toList h
  rw [String.toList_append, String.toList_append] at hchars
  exact String.toList_inj.mp (List.append_cancel_left hchars)

/-- Same mode, same accountable identity. -/
def Authorized.SameIdentity : Authorized → Authorized → Prop
  | .staff u _, .staff v _ => u = v
  | .customer u _, .customer v _ => u = v
  | .account u, .account v => u = v
  | .system u _, .system v _ => u = v
  | .share u _, .share v _ => u = v
  | _, _ => False

theorem Authorized.sameIdentity_of_principalKey {a b : Authorized}
    (h : a.principalKey = b.principalKey) : a.SameIdentity b := by
  cases a <;> cases b
  case staff.staff | customer.customer | account.account | system.system
    | share.share => exact append_left_cancel h
  all_goals
    have hchars := congrArg String.toList h
    simp [principalKey] at hchars

variable {env env' : CallEnv I}

theorem principalKeyFor_eq_ok {p : String} (h : principalKeyFor env = .ok p) :
    p = env.authorized.principalKey := by
  unfold principalKeyFor at h
  split at h
  · cases h
  · exact (Except.ok.inj h).symm

/-- For one identity, the scope key and the company say the same. -/
theorem scopeKeyFor_eq_iff (h : env.authorized.SameIdentity env'.authorized) :
    scopeKeyFor env = scopeKeyFor env' ↔
      env.authorized.companyId = env'.authorized.companyId := by
  have hcompany : ∀ {c c' : String},
      "company:" ++ c = "company:" ++ c' ↔ some c = some c' :=
    ⟨fun heq => congrArg some (append_left_cancel heq),
      fun heq => congrArg _ (Option.some.inj heq)⟩
  have hglobal : ∀ {c : String}, "company:" ++ c ≠ "global" := by
    intro c heq
    have hchars := congrArg String.toList heq
    simp at hchars
  unfold scopeKeyFor Authorized.companyId
  cases ha : env.authorized <;> cases hb : env'.authorized <;> rw [ha, hb] at h
  case staff.staff | customer.customer | share.share => exact hcompany
  case account.account =>
    have husers : _ = _ := h
    rw [husers]
    exact iff_of_true rfl rfl
  case system.system name company name' company' =>
    cases company with
    | none =>
        cases company' with
        | none => exact iff_of_true rfl rfl
        | some c' => exact iff_of_false hglobal.symm (Option.some_ne_none c').symm
    | some c =>
        cases company' with
        | none => exact iff_of_false hglobal (Option.some_ne_none c)
        | some c' => exact hcompany
  all_goals exact h.elim

theorem sameIdentity_of_keys {call call' : KeyedCall I}
    (h : call.identity.principalKey = call'.identity.principalKey) :
    call.env.authorized.SameIdentity call'.env.authorized := by
  obtain ⟨-, hp, -, -⟩ := identityOf_eq_ok call.keyed
  obtain ⟨-, hp', -, -⟩ := identityOf_eq_ok call'.keyed
  apply Authorized.sameIdentity_of_principalKey
  rw [← principalKeyFor_eq_ok hp, ← principalKeyFor_eq_ok hp', h]

/-- Two calls bound alike ask for the same row. -/
theorem identity_eq_of_bindings {call call' : KeyedCall I}
    (h : call.bindings D = call'.bindings D) :
    call.identity = call'.identity := by
  obtain ⟨-, -, hscope, haction⟩ := identityOf_eq_ok call.keyed
  obtain ⟨-, -, hscope', haction'⟩ := identityOf_eq_ok call'.keyed
  have hprincipal := congrArg Bindings.principalKey h
  have hsame := (scopeKeyFor_eq_iff (sameIdentity_of_keys hprincipal)).mpr
    (congrArg Bindings.companyId h)
  have hname : call.env.contract.name = call'.env.contract.name :=
    congrArg Bindings.actionName h
  have hkey := congrArg Bindings.idempotencyKey h
  have hs : call.identity.scopeKey = call'.identity.scopeKey := by
    rw [hscope, hscope', hsame]
  have ha : call.identity.action = call'.identity.action := by
    rw [haction, haction', hname]
  cases hi : call.identity with
  | mk principalKey scopeKey action key =>
      cases hi' : call'.identity with
      | mk principalKey' scopeKey' action' key' =>
          simp only [KeyedCall.bindings, hi, hi'] at hprincipal hkey hs ha
          rw [hprincipal, hs, ha, hkey]

/-- Two calls that ask for the same row with the same hash are bound alike. -/
theorem bindings_eq_of_row {call call' : KeyedCall I}
    (hidentity : call.identity = call'.identity)
    (hhash : call.requestHash D = call'.requestHash D) :
    call.bindings D = call'.bindings D := by
  obtain ⟨-, -, hscope, haction⟩ := identityOf_eq_ok call.keyed
  obtain ⟨-, -, hscope', haction'⟩ := identityOf_eq_ok call'.keyed
  have hinput := (D.request_inj _ _ _ _ _ _ hhash).1
  have hsame := sameIdentity_of_keys
    (congrArg RowIdentity.principalKey hidentity)
  have hcompany : call.env.authorized.companyId =
      call'.env.authorized.companyId := by
    rw [← scopeKeyFor_eq_iff hsame, ← hscope, ← hscope', hidentity]
  have hname : call.env.contract.name = call'.env.contract.name := by
    rw [← haction, ← haction', hidentity]
  simp only [KeyedCall.bindings]
  rw [hname, hinput, hidentity, hcompany]

end Keys

end Shozee.Confirmation
