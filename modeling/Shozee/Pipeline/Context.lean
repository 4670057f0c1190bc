import Mathlib.Data.List.Basic
import Shozee.Confirmation.Gate

/-!
# Contexts

What an invocation runs with: who it acts for, in one of seven principal
modes, the accountable actor, and the capability on the database. A context
is built by the factories of its mode; here are its data, and the one company
scope that logs, events and audit rows are given.

`ρ` is what the resolvers of a repository's actions resolve.
-/

namespace Shozee.Pipeline

/-- The eight-four-four-four-twelve shape of row ids, in either letter case. -/
def UUID_PATTERN (id : String) : Bool :=
  let groups := id.toList.splitOn '-'
  groups.map List.length = [8, 4, 4, 4, 12] &&
    groups.all fun group => group.all fun c =>
      c.isDigit || ('a' ≤ c && c ≤ 'f') || ('A' ≤ c && c ≤ 'F')

/-- Who runs an action. -/
inductive ActionActor
  | user (id : String)
  | system (id : String)
  | anonymous
deriving DecidableEq, Repr

/-- Share writes are accounted to the system. -/
def SHARE_DURABLE_ACTOR : ActionActor := .system "share"

/-- The roles of members. -/
inductive CompanyRole
  | owner
  | admin
  | manager
  | employee
deriving DecidableEq, Repr

/-- A role with its permissions. -/
structure StaffMembership where
  role : CompanyRole
  permissions : List String
deriving DecidableEq, Repr

/-- A resource with the company that it belongs to. -/
structure Target (ρ : Type) where
  companyId : String
  resource : ρ
deriving DecidableEq, Repr

/-- What a context may do with the transaction it is in. -/
inductive Capability
  | tx
  | readTx
  | projectionReadTx (grant : String)
deriving DecidableEq, Repr

/-- The part of a context that its principal mode decides. -/
inductive Principal (ρ : Type)
  | staff (userId companyId : String) (membership : StaffMembership)
  | customer (userId : String) (target : Target ρ)
  | publicTarget (target : Target ρ)
  | publicGlobal (projectionGrant : String)
  | systemTenant (serviceName companyId : String)
  | systemGlobal (serviceName : String)
  | consumer (userId : String)
  | account (userId : String)
  | share (target : Target ρ) (tokenHash : String)
deriving DecidableEq, Repr

/-- What a handler is given. -/
structure ActionCtx (ρ : Type) where
  db : Capability
  requestId : String
  correlationId : String
  channel : String
  actor : ActionActor
  principal : Principal ρ
deriving DecidableEq, Repr

variable {ρ : Type}

/-- The one resolved tenant scope. -/
def effectiveCompanyId (ctx : ActionCtx ρ) : Option String :=
  match ctx.principal with
  | .staff _ companyId _ => some companyId
  | .customer _ target => some target.companyId
  | .publicTarget target => some target.companyId
  | .publicGlobal _ => none
  | .systemTenant _ companyId => some companyId
  | .systemGlobal _ => none
  | .share target _ => some target.companyId
  | .consumer _ | .account _ => none

theorem length_of_uuid {id : String} (h : UUID_PATTERN id = true) :
    id.toList.length = 36 := by
  unfold UUID_PATTERN at h
  rw [Bool.and_eq_true, decide_eq_true_eq] at h
  have hjoin : ['-'].intercalate (id.toList.splitOn '-') = id.toList :=
    List.intercalate_splitOn '-'
  generalize id.toList.splitOn '-' = groups at h hjoin
  rw [← hjoin]
  simp only [List.map_eq_cons_iff, List.map_eq_nil_iff] at h
  obtain ⟨⟨a, _, rfl, ha, b, _, rfl, hb, c, _, rfl, hc, d, _, rfl, hd, e, _,
    rfl, he, rfl⟩, -⟩ := h
  simp [List.intercalate, List.intersperse, ha, hb, hc, hd, he]

end Shozee.Pipeline
