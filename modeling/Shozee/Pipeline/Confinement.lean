import Mathlib.Data.List.Nodup
import Shozee.Pipeline.Nested

/-!
# Nested calls stay confined

Whatever the handlers do, the tree of invocations below a root has no action
twice on a path and no path longer than four; a callee is bound to the root's
company or to none; a read callee holds a read capability, also below a callee
that may write; every edge keeps the rules; and one edge at most is atomic, and
starts at a root that may write.

An edge is checked when it is taken and never again, so each of these is a fact
about the invocation that a step adds. The company alone goes from the caller's
to the root's.
-/

namespace Shozee.Pipeline

open Shozee.Run
open Shozee.Confirmation (ActionRisk)

variable {ρ : Type}

/-- Whether an invocation may write. -/
inductive AccessMode
  | readOnly
  | readWrite
deriving DecidableEq, Repr

/-- The access mode of a root's execution transaction. -/
def executionAccess (contract : ActionContract) : AccessMode :=
  if contract.consistency = some .snapshot then .readOnly
  else if contract.risk = .read then .readOnly
  else .readWrite

/-- The root of an atomic edge: it runs in a transaction that may write, and
holds it. -/
structure WritableRoot (invocation : Invocation ρ) : Prop where
  origin : invocation.origin = .execution
  risk : invocation.contract.risk ≠ .read
  access : executionAccess invocation.contract = .readWrite
  capability : invocation.ctx.db = .tx

/-- How an invocation hangs on the one that called it. -/
def Edge (s : State ρ) (invocation : Invocation ρ) : Prop :=
  match invocation.origin with
  | .execution | .preview =>
      invocation.path = [invocation.contract.name] ∧
        s.invocations[0]? = some invocation
  | .call i => ∃ caller, s.invocations[i]? = some caller ∧
      invocation.path = caller.path ++ [invocation.contract.name] ∧
      callTargetProblems caller.contract invocation.contract = [] ∧
      invocation.ctx.db = .readTx
  | .callAtomic i => ∃ caller, s.invocations[i]? = some caller ∧
      invocation.path = caller.path ++ [invocation.contract.name] ∧
      atomicCallTargetProblems caller.contract invocation.contract = [] ∧
      WritableRoot caller

/-- The callee's company is the root's, or it has none. -/
def InCompany (s : State ρ) (invocation : Invocation ρ) : Prop :=
  effectiveCompanyId invocation.ctx = none ∨
    ∃ root, s.invocations[0]? = some root ∧
      effectiveCompanyId invocation.ctx = effectiveCompanyId root.ctx

/-- Whether an invocation runs in its caller's transaction. -/
def Invocation.isAtomic (invocation : Invocation ρ) : Bool :=
  match invocation.origin with
  | .callAtomic _ => true
  | _ => false

/-- All that holds of the invocations of a request. -/
structure Confined (s : State ρ) : Prop where
  simple : ∀ invocation ∈ s.invocations, invocation.path.Nodup
  shallow : ∀ invocation ∈ s.invocations,
    invocation.path.length ≤ CALL_DEPTH_LIMIT + 1
  company : ∀ invocation ∈ s.invocations, InCompany s invocation
  edges : ∀ invocation ∈ s.invocations, Edge s invocation
  once : (s.invocations.filter Invocation.isAtomic).length ≤ 1

/-! ## The callee's context

A context is built from the caller's, and neither company nor capability can
grow on the way. -/

section Context

variable {callerCtx ctx : ActionCtx ρ} {action : ImplementedAction}
  {request : ActionRequestMeta} {db : Capability}
  {surroundings : Surroundings ρ}

/-- A callee is bound to its caller's company, or to none. -/
theorem constructCalleeContext_company
    (h : constructCalleeContext callerCtx action request db surroundings =
      .ok ctx) :
    effectiveCompanyId ctx = none ∨
      effectiveCompanyId ctx = effectiveCompanyId callerCtx := by
  unfold constructCalleeContext at h
  cases hcaller : callerCtx.principal with
  | staff userId companyId membership =>
      simp only [hcaller] at h
      obtain ⟨⟨_, built⟩, hbuilt, h⟩ := bind_eq_ok.mp h
      obtain ⟨_, _, h⟩ := bind_eq_ok.mp h
      cases h
      rw [(createStaffContext_ok hbuilt).2]
      simp only [effectiveCompanyId, hcaller, or_true]
  | customer userId target =>
      simp only [hcaller] at h
      rw [(createCustomerContext_ok h).2 target.companyId rfl]
      simp only [effectiveCompanyId, hcaller, or_true]
  | publicTarget target =>
      simp only [hcaller] at h
      rw [(createPublicTargetContext_ok h).2 target.companyId rfl]
      simp only [effectiveCompanyId, hcaller, or_true]
  | publicGlobal grant =>
      simp only [hcaller] at h
      cases h
  | systemTenant serviceName companyId =>
      simp only [hcaller] at h
      split at h
      · exact Or.inl (createSystemContext_ok h).2
      · rw [(createSystemContext_ok h).2]
        simp only [effectiveCompanyId, hcaller, or_true]
  | systemGlobal serviceName =>
      simp only [hcaller] at h
      split at h
      · exact Or.inl (createSystemContext_ok h).2
      · cases h
  | consumer userId =>
      simp only [hcaller] at h
      exact Or.inl (createConsumerContext_ok h).2
  | account userId =>
      simp only [hcaller] at h
      split at h
      · exact Or.inl (createConsumerContext_ok h).2
      · exact Or.inl (createAccountContext_ok h).2
  | share target tokenHash =>
      simp only [hcaller] at h
      rw [(createShareContext_ok h).2 target.companyId rfl]
      simp only [effectiveCompanyId, hcaller, or_true]

/-- A callee that is handed a read capability holds one. -/
theorem constructCalleeContext_readTx
    (h : constructCalleeContext callerCtx action request .readTx surroundings =
      .ok ctx) : ctx.db = .readTx := by
  unfold constructCalleeContext at h
  cases hcaller : callerCtx.principal with
  | staff userId companyId membership =>
      simp only [hcaller] at h
      obtain ⟨⟨_, built⟩, hbuilt, h⟩ := bind_eq_ok.mp h
      obtain ⟨_, _, h⟩ := bind_eq_ok.mp h
      cases h
      exact (createStaffContext_ok hbuilt).1
  | customer userId target =>
      simp only [hcaller] at h
      exact (createCustomerContext_ok h).1
  | publicTarget target =>
      simp only [hcaller] at h
      exact (createPublicTargetContext_ok h).1
  | publicGlobal grant =>
      simp only [hcaller] at h
      cases h
  | systemTenant serviceName companyId =>
      simp only [hcaller] at h
      split at h
      · exact (createSystemContext_ok h).1
      · exact (createSystemContext_ok h).1
  | systemGlobal serviceName =>
      simp only [hcaller] at h
      split at h
      · exact (createSystemContext_ok h).1
      · cases h
  | consumer userId =>
      simp only [hcaller] at h
      exact (createConsumerContext_ok h).1
  | account userId =>
      simp only [hcaller] at h
      split at h
      · exact (createConsumerContext_ok h).1
      · exact (createAccountContext_ok h).1
  | share target tokenHash =>
      simp only [hcaller] at h
      exact (createShareContext_ok h).1

end Context

/-! ## What a call that goes through has checked

The calls, inverted: an invocation that was entered has passed every check of
its edge. -/

theorem call_ok {s : State ρ} {caller : Invocation ρ}
    {action : ImplementedAction} {surroundings : Surroundings ρ}
    {ctx : ActionCtx ρ} (h : call s caller action surroundings = .ok ctx) :
    callTargetProblems caller.contract action.contract = [] ∧
      action.contract.name ∉ caller.path ∧
      caller.path.length ≤ CALL_DEPTH_LIMIT ∧
      constructCalleeContext caller.ctx action
        (nestedRequest caller.request action.contract) .readTx surroundings =
        .ok ctx := by
  unfold call at h
  dsimp only at h
  split at h
  · cases h
  · split at h
    · cases h
    · next hproblems =>
        split at h
        · cases h
        · next hcycle =>
            split at h
            · cases h
            · next hdepth =>
                obtain ⟨_, _, h⟩ := bind_eq_ok.mp h
                obtain ⟨_, _, h⟩ := bind_eq_ok.mp h
                exact ⟨not_not.mp hproblems, hcycle, Nat.not_lt.mp hdepth, h⟩

theorem callAtomic_ok {s : State ρ} {caller : Invocation ρ}
    {action : ImplementedAction} {surroundings : Surroundings ρ}
    {ctx : ActionCtx ρ}
    (h : callAtomic s caller action surroundings = .ok ctx) :
    constructCalleeContext caller.ctx action
      (nestedRequest caller.request action.contract) .tx surroundings =
      .ok ctx := by
  unfold callAtomic at h
  obtain ⟨_, _, h⟩ := bind_eq_ok.mp h
  obtain ⟨_, _, h⟩ := bind_eq_ok.mp h
  exact h

theorem atomicChecks_ok {s : State ρ} {caller : Invocation ρ}
    {callee : ActionContract} {u : Unit}
    (h : atomicChecks s caller callee = .ok u) :
    caller.origin = .execution ∧
      atomicCallTargetProblems caller.contract callee = [] ∧
      s.used = false := by
  unfold atomicChecks at h
  dsimp only at h
  split at h
  · cases h
  · next hbox =>
      split at h
      · cases h
      · next hproblems =>
          split at h
          · cases h
          · next hused =>
              rw [not_or] at hbox
              exact ⟨not_not.mp hbox.1, not_not.mp hproblems,
                Bool.not_eq_true _ ▸ hused⟩

/-! ## What a step can be

A step starts the tree, adds one invocation to it, or leaves it alone. -/

/-- A step leaves the tree as it is, starts it, or adds one edge to it. -/
inductive Moves (s : State ρ) : State ρ → Prop
  | still {s' : State ρ} (htree : s'.invocations = s.invocations)
      (hused : s.used = true → s'.used = true) : Moves s s'
  | root {s' : State ρ} {invocation : Invocation ρ}
      (hempty : s.invocations = [])
      (htree : s'.invocations = [invocation])
      (hpath : invocation.path = [invocation.contract.name])
      (horigin : invocation.origin = .execution ∧
          (invocation.contract.risk ≠ .read → invocation.ctx.db = .tx) ∨
        invocation.origin = .preview) : Moves s s'
  | call {s' : State ρ} {i : Nat} {caller : Invocation ρ}
      {callee : ActionContract} {ctx : ActionCtx ρ}
      (hcaller : s.invocations[i]? = some caller)
      (hproblems : callTargetProblems caller.contract callee = [])
      (hcycle : callee.name ∉ caller.path)
      (hdepth : caller.path.length ≤ CALL_DEPTH_LIMIT)
      (hcompany : effectiveCompanyId ctx = none ∨
        effectiveCompanyId ctx = effectiveCompanyId caller.ctx)
      (hdb : ctx.db = .readTx)
      (htree : s'.invocations =
        s.invocations ++ [caller.callee (.call i) callee ctx])
      (hused : s'.used = s.used) : Moves s s'
  | callAtomic {s' : State ρ} {i : Nat} {caller : Invocation ρ}
      {callee : ActionContract} {ctx : ActionCtx ρ}
      (hcaller : s.invocations[i]? = some caller)
      (horigin : caller.origin = .execution)
      (hproblems : atomicCallTargetProblems caller.contract callee = [])
      (hcompany : effectiveCompanyId ctx = none ∨
        effectiveCompanyId ctx = effectiveCompanyId caller.ctx)
      (htree : s'.invocations =
        s.invocations ++ [caller.callee (.callAtomic i) callee ctx])
      (hfirst : s.used = false) (hused : s'.used = true) : Moves s s'

theorem root_ok {action : ImplementedAction} {projectionGrants : List String}
    {request : ActionRequestMeta} {principal : PrincipalInvocation}
    {origin : Origin} {readOnly : Bool} {surroundings : Surroundings ρ}
    {invocation : Invocation ρ}
    (h : root action projectionGrants request principal origin readOnly
      surroundings = .ok invocation) :
    invocation.contract = action.contract ∧ invocation.origin = origin ∧
      invocation.path = [invocation.contract.name] ∧
      (readOnly = false → action.contract.risk ≠ .read →
        invocation.ctx.db = .tx) := by
  unfold root at h
  obtain ⟨_, hshape, h⟩ := bind_eq_ok.mp h
  obtain ⟨ctx, hctx, h⟩ := bind_eq_ok.mp h
  cases h
  refine ⟨rfl, rfl, rfl, fun hreadOnly hrisk => ?_⟩
  subst hreadOnly
  exact constructPrincipalContext_writable hshape hrisk hctx

theorem moves_of_step {s s' : State ρ} {a : Act ρ} {out : List Event}
    (h : step s a = some (s', out)) : Moves s s' := by
  have hstill : Moves s s := .still rfl id
  cases a with
  | execute deadline action projectionGrants request principal surroundings =>
      simp only [step] at h
      split at h
      · next hempty =>
          cases hroot : root action projectionGrants request principal
              .execution (action.contract.risk = .read) surroundings with
          | error error =>
              rw [hroot] at h
              cases h
              exact .still rfl id
          | ok invocation =>
              rw [hroot] at h
              cases h
              obtain ⟨hcontract, horigin, hpath, hdb⟩ := root_ok hroot
              refine .root hempty (by simp [State.enter, hempty]) hpath
                (Or.inl ⟨horigin, fun hrisk => ?_⟩)
              rw [hcontract] at hrisk
              exact hdb (decide_eq_false hrisk) hrisk
      · cases h
  | preview deadline action projectionGrants request principal surroundings =>
      simp only [step] at h
      split at h
      · next hempty =>
          cases hroot : root action projectionGrants request principal
              .preview true surroundings with
          | error error =>
              rw [hroot] at h
              cases h
              exact .still rfl id
          | ok invocation =>
              rw [hroot] at h
              cases h
              obtain ⟨_, horigin, hpath, _⟩ := root_ok hroot
              exact .root hempty (by simp [State.enter, hempty]) hpath
                (Or.inr horigin)
      · cases h
  | call i action surroundings =>
      simp only [step] at h
      split at h
      · cases h
      · next caller hcaller =>
          cases hcall : call s caller action surroundings with
          | error error =>
              rw [hcall] at h
              cases h
              exact hstill
          | ok ctx =>
              rw [hcall] at h
              cases h
              obtain ⟨hproblems, hcycle, hdepth, hctx⟩ := call_ok hcall
              exact .call hcaller hproblems hcycle hdepth
                (constructCalleeContext_company hctx)
                (constructCalleeContext_readTx hctx) rfl rfl
  | callAtomic i action surroundings =>
      simp only [step] at h
      split at h
      · cases h
      · next caller hcaller =>
          split at h
          · cases h; exact hstill
          · cases h; exact hstill
          all_goals
            split at h
            · cases h; exact hstill
            · next hchecks =>
                obtain ⟨horigin, hproblems, hfirst⟩ := atomicChecks_ok hchecks
                cases hcall : callAtomic s caller action surroundings with
                | error error =>
                    rw [hcall] at h
                    cases h
                    exact .still rfl fun _ => rfl
                | ok ctx =>
                    rw [hcall] at h
                    cases h
                    exact .callAtomic hcaller horigin hproblems
                      (constructCalleeContext_company (callAtomic_ok hcall))
                      rfl hfirst rfl
  | finish =>
      simp only [step] at h
      cases h
      exact .still rfl id

/-! ## An edge that was added

The new edge owes its own clauses, and the old ones are about invocations that
are where they were. -/

/-- What the tree was, with one more invocation. -/
theorem getElem?_entered {s s' : State ρ} {invocation added : Invocation ρ}
    {i : Nat} (htree : s'.invocations = s.invocations ++ [added])
    (h : s.invocations[i]? = some invocation) :
    s'.invocations[i]? = some invocation := by
  obtain ⟨hlt, _⟩ := List.getElem?_eq_some_iff.mp h
  rw [htree, List.getElem?_append_left hlt]
  exact h

theorem Edge.entered {s s' : State ρ} {invocation added : Invocation ρ}
    (htree : s'.invocations = s.invocations ++ [added])
    (h : Edge s invocation) : Edge s' invocation := by
  unfold Edge at h ⊢
  cases horigin : invocation.origin with
  | execution | preview =>
      rw [horigin] at h
      exact ⟨h.1, getElem?_entered htree h.2⟩
  | call i | callAtomic i =>
      rw [horigin] at h
      obtain ⟨caller, hcaller, hrest⟩ := h
      exact ⟨caller, getElem?_entered htree hcaller, hrest⟩

theorem InCompany.entered {s s' : State ρ} {invocation added : Invocation ρ}
    (htree : s'.invocations = s.invocations ++ [added])
    (h : InCompany s invocation) : InCompany s' invocation := by
  cases h with
  | inl hnone => exact Or.inl hnone
  | inr hroot =>
      obtain ⟨root, hfirst, hsame⟩ := hroot
      exact Or.inr ⟨root, getElem?_entered htree hfirst, hsame⟩

/-- A callee in its caller's company is in the root's. -/
theorem InCompany.callee {s s' : State ρ} {caller added : Invocation ρ}
    (htree : s'.invocations = s.invocations ++ [added])
    (hcaller : InCompany s caller)
    (hcompany : effectiveCompanyId added.ctx = none ∨
      effectiveCompanyId added.ctx = effectiveCompanyId caller.ctx) :
    InCompany s' added := by
  cases hcompany with
  | inl hnone => exact Or.inl hnone
  | inr hsame =>
      cases hcaller.entered htree with
      | inl hnone => exact Or.inl (hsame.trans hnone)
      | inr hroot =>
          obtain ⟨root, hfirst, hroot⟩ := hroot
          exact Or.inr ⟨root, hfirst, hsame.trans hroot⟩

/-- The invariant: `Confined`, with what the latch and a root's capability
mean. -/
structure Kept (s : State ρ) : Prop extends Confined s where
  unused : s.used = false → ∀ invocation ∈ s.invocations,
    invocation.isAtomic = false
  roots : ∀ invocation ∈ s.invocations, invocation.origin = .execution →
    invocation.contract.risk ≠ .read → invocation.ctx.db = .tx

/-- What the new edge owes; the old ones keep what they have. -/
theorem Kept.enter {s s' : State ρ} {added : Invocation ρ} (h : Kept s)
    (htree : s'.invocations = s.invocations ++ [added])
    (hsimple : added.path.Nodup)
    (hshallow : added.path.length ≤ CALL_DEPTH_LIMIT + 1)
    (hcompany : InCompany s' added) (hedge : Edge s' added)
    (hnested : added.origin ≠ .execution)
    (honce : added.isAtomic = true → s.used = false ∧ s'.used = true)
    (hused : s'.used = false → s.used = false ∧ added.isAtomic = false) :
    Kept s' where
  simple := by
    rw [htree]
    exact List.forall_mem_append.mpr
      ⟨h.simple, List.forall_mem_singleton.mpr hsimple⟩
  shallow := by
    rw [htree]
    exact List.forall_mem_append.mpr
      ⟨h.shallow, List.forall_mem_singleton.mpr hshallow⟩
  company invocation hmem := by
    rw [htree, List.mem_append, List.mem_singleton] at hmem
    cases hmem with
    | inl hold => exact (h.company invocation hold).entered htree
    | inr hnew => exact hnew ▸ hcompany
  edges invocation hmem := by
    rw [htree, List.mem_append, List.mem_singleton] at hmem
    cases hmem with
    | inl hold => exact (h.edges invocation hold).entered htree
    | inr hnew => exact hnew ▸ hedge
  once := by
    rw [htree, List.filter_append, List.length_append]
    by_cases hatomic : added.isAtomic = true
    · have hnone : s.invocations.filter Invocation.isAtomic = [] := by
        rw [List.filter_eq_nil_iff]
        intro invocation hmem
        rw [h.unused (honce hatomic).1 invocation hmem]
        exact Bool.false_ne_true
      rw [hnone]
      exact Nat.le_trans (Nat.le_of_eq (Nat.zero_add _))
        (List.length_filter_le _ _)
    · rw [List.filter_cons_of_neg hatomic, List.filter_nil]
      exact h.once
  unused hunused := by
    rw [htree]
    exact List.forall_mem_append.mpr ⟨h.unused (hused hunused).1,
      List.forall_mem_singleton.mpr (hused hunused).2⟩
  roots := by
    rw [htree]
    refine List.forall_mem_append.mpr ⟨h.roots, ?_⟩
    exact List.forall_mem_singleton.mpr fun horigin => absurd horigin hnested

/-- The first invocation of a tree. -/
theorem Kept.start {s' : State ρ} {root : Invocation ρ}
    (htree : s'.invocations = [root])
    (hpath : root.path = [root.contract.name])
    (horigin : root.origin = .execution ∧
        (root.contract.risk ≠ .read → root.ctx.db = .tx) ∨
      root.origin = .preview) : Kept s' := by
  have hfirst : s'.invocations[0]? = some root := by rw [htree]; rfl
  have hatomic : root.isAtomic = false := by
    unfold Invocation.isAtomic
    cases horigin with
    | inl hexecution => rw [hexecution.1]
    | inr hpreview => rw [hpreview]
  have hedge : Edge s' root := by
    unfold Edge
    cases horigin with
    | inl hexecution => rw [hexecution.1]; exact ⟨hpath, hfirst⟩
    | inr hpreview => rw [hpreview]; exact ⟨hpath, hfirst⟩
  have hcapability : root.origin = .execution → root.contract.risk ≠ .read →
      root.ctx.db = .tx := by
    intro hexecution
    cases horigin with
    | inl h => exact h.2
    | inr hpreview => rw [hpreview] at hexecution; cases hexecution
  refine
    { simple := ?_
      shallow := ?_
      company := ?_
      edges := ?_
      once := ?_
      unused := ?_
      roots := ?_ }
  all_goals rw [htree]
  · refine List.forall_mem_singleton.mpr ?_
    rw [hpath]
    exact List.nodup_singleton _
  · refine List.forall_mem_singleton.mpr ?_
    rw [hpath]
    exact Nat.succ_le_succ (Nat.zero_le _)
  · exact List.forall_mem_singleton.mpr (Or.inr ⟨root, hfirst, rfl⟩)
  · exact List.forall_mem_singleton.mpr hedge
  · exact List.length_filter_le _ _
  · exact fun _ => List.forall_mem_singleton.mpr hatomic
  · exact List.forall_mem_singleton.mpr hcapability

theorem executionAccess_of_risk {contract : ActionContract}
    (hrisk : contract.risk ≠ .read) : executionAccess contract = .readWrite :=
  by
  have hsnapshot : contract.consistency ≠ some .snapshot := by
    intro h
    refine hrisk (contract.risk_eq_read_of_consistency ?_)
    rw [h]
    exact Option.some_ne_none _
  unfold executionAccess
  rw [if_neg hsnapshot, if_neg hrisk]

theorem Moves.kept {s s' : State ρ} (h : Moves s s') (hkept : Kept s) :
    Kept s' := by
  cases h with
  | still htree hused =>
      refine
        { simple := htree ▸ hkept.simple
          shallow := htree ▸ hkept.shallow
          company := ?_
          edges := ?_
          once := htree ▸ hkept.once
          unused := ?_
          roots := htree ▸ hkept.roots }
      · unfold InCompany
        rw [htree]
        exact hkept.company
      · unfold Edge
        rw [htree]
        exact hkept.edges
      · intro hunused
        rw [htree]
        refine hkept.unused (Bool.eq_false_iff.mpr fun hwas => ?_)
        rw [hused hwas] at hunused
        cases hunused
  | root hempty htree hpath horigin => exact Kept.start htree hpath horigin
  | @call i caller callee ctx hcaller hproblems hcycle hdepth hcompany hdb
      htree hused =>
      have hmem := List.mem_of_getElem? hcaller
      refine hkept.enter htree ?_ ?_
        ((hkept.company caller hmem).callee htree hcompany)
        ⟨caller, getElem?_entered htree hcaller, rfl, hproblems, hdb⟩
        (fun horigin => by cases horigin) (fun hatomic => by cases hatomic)
        (fun hunused => ⟨hused ▸ hunused, rfl⟩)
      · exact List.nodup_append.mpr ⟨hkept.simple caller hmem,
          List.nodup_singleton _, fun name hname other hother heq =>
            hcycle (List.mem_singleton.mp hother ▸ heq ▸ hname)⟩
      · show (caller.path ++ [callee.name]).length ≤ _
        rw [List.length_append]
        exact Nat.succ_le_succ hdepth
  | @callAtomic i caller callee ctx hcaller horigin hproblems hcompany htree
      hfirst hused =>
      have hmem := List.mem_of_getElem? hcaller
      have hedge := atomicEdge_of_no_problems hproblems
      have hpath : caller.path = [caller.contract.name] := by
        have hroot := hkept.edges caller hmem
        unfold Edge at hroot
        rw [horigin] at hroot
        exact hroot.1
      have hroot : WritableRoot caller :=
        { origin := horigin
          risk := hedge.writable
          access := executionAccess_of_risk hedge.writable
          capability := hkept.roots caller hmem horigin hedge.writable }
      refine hkept.enter htree ?_ ?_
        ((hkept.company caller hmem).callee htree hcompany)
        ⟨caller, getElem?_entered htree hcaller, rfl, hproblems, hroot⟩
        (fun horigin => by cases horigin) (fun _ => ⟨hfirst, hused⟩)
        (fun hunused => by rw [hused] at hunused; cases hunused)
      · show (caller.path ++ [callee.name]).Nodup
        rw [hpath]
        have hne := name_ne_of_modules hedge.modules
        simpa using Ne.symm hne
      · show (caller.path ++ [callee.name]).length ≤ _
        rw [hpath]
        exact Nat.le_add_left 2 2

/-- Whatever the handlers call, in any order, the tree below a root is
confined. -/
theorem confined_of_reach {c : Conf (State ρ) Event}
    (h : protocol.Reach c) : Confined c.st := by
  suffices hkept : Kept c.st from hkept.toConfined
  refine Machine.ReachWhen.invariant (I := fun c => Kept c.st) ?_ ?_ h
  · exact
      { simple := fun _ hmem => by cases hmem
        shallow := fun _ hmem => by cases hmem
        company := fun _ hmem => by cases hmem
        edges := fun _ hmem => by cases hmem
        once := Nat.zero_le 1
        unused := fun _ _ hmem => by cases hmem
        roots := fun _ hmem => by cases hmem }
  · intro c a c' _ ih _ hnext
    obtain ⟨s, out, hstep, rfl⟩ := Machine.next_eq_some.mp hnext
    exact (moves_of_step hstep).kept ih

/-! ## A run

An order is confirmed. A read that is too deep and a second atomic call are
refused on the way. -/

/-- A staff action of the given name. -/
def staffAction (name permission : String) (risk : ActionRisk)
    (atomicCalls atomicCallers : List String) : ImplementedAction where
  contract :=
    { name := name
      principal := .staff
      transport := if atomicCallers = [] then .client else .internal
      permissions := [permission]
      publicScope := none
      projectionGrant := none
      systemScope := none
      risk := risk
      requiresConfirmation := false
      idempotent := true
      atomicCalls := atomicCalls
      atomicCallers := atomicCallers
      consistency := none
      valid := by simp [writeProblems, problemIf, READ_ONLY_PRINCIPALS] }
  resolves := false

/-- A manager who may do all that the actions below ask for. -/
def manager : Surroundings Unit where
  nowMs := 1000
  aborted := false
  inputAccepted := true
  membership := some ⟨"manager", ["orders:write", "catalog:write",
    "customers:read", "pricing:read", "files:read", "chat:read"]⟩
  companyExists := true
  resolved := .error (.notFound "")

/-- An order that is confirmed: reads three levels deep and one too many, then
the stock, and the stock again. -/
def confirmOrder : List (Act Unit) :=
  [.execute 5000
      (staffAction "orders.confirm" "orders:write" .write
        ["catalog.adjustStock"] []) []
      ⟨"orders.confirm", "r1", "c1", "http", none⟩
      (.staff (some "u1") (some "11111111-2222-3333-4444-555555555555"))
      manager,
    .call 0 (staffAction "customers.get" "customers:read" .read [] []) manager,
    .call 1 (staffAction "pricing.resolve" "pricing:read" .read [] []) manager,
    .call 2 (staffAction "files.get" "files:read" .read [] []) manager,
    .call 3 (staffAction "chat.get" "chat:read" .read [] []) manager,
    .callAtomic 0 (staffAction "catalog.adjustStock" "catalog:write" .write []
      ["orders.confirm"]) manager,
    .call 4 (staffAction "files.get" "files:read" .read [] []) manager,
    .callAtomic 0 (staffAction "catalog.adjustStock" "catalog:write" .write []
      ["orders.confirm"]) manager]

theorem confined_of_reach_confirmOrder :
    ∃ c, protocol.exec protocol.start confirmOrder = some c ∧
      (c.st.invocations.map fun i => (i.path, i.ctx.db)) =
        [(["orders.confirm"], .tx),
          (["orders.confirm", "customers.get"], .readTx),
          (["orders.confirm", "customers.get", "pricing.resolve"], .readTx),
          (["orders.confirm", "customers.get", "pricing.resolve",
            "files.get"], .readTx),
          (["orders.confirm", "catalog.adjustStock"], .tx),
          (["orders.confirm", "catalog.adjustStock", "files.get"],
            .readTx)] ∧
      Confined c.st := by
  obtain ⟨c, hexec, htree⟩ : protocol.EndsIn
      (fun c => (c.st.invocations.map fun i => (i.path, i.ctx.db)) =
        [(["orders.confirm"], .tx),
          (["orders.confirm", "customers.get"], .readTx),
          (["orders.confirm", "customers.get", "pricing.resolve"], .readTx),
          (["orders.confirm", "customers.get", "pricing.resolve",
            "files.get"], .readTx),
          (["orders.confirm", "catalog.adjustStock"], .tx),
          (["orders.confirm", "catalog.adjustStock", "files.get"],
            .readTx)]) confirmOrder := by
    decide
  exact ⟨c, hexec, htree, confined_of_reach (Machine.reach_of_exec _ hexec)⟩

end Shozee.Pipeline
