import Shozee.Run.Traverse
import Shozee.Run.Worklist

/-!
# What a staff member may do

A member's permissions come from the defaults of the role and from what a row
grants and denies. `resolveEffectivePermissions` drops every default or grant
that needs a denied permission and adds to the others what they need, so that
no permission is held without its prerequisites.

The prerequisites come from a table of call edges and from the rule that every
permission on a resource needs the one to view it. The table is a parameter,
and `prerequisiteTable` is the one in the source. It is a plain object there:
a name that every object inherits finds something in it that cannot be
iterated, and such a name is not of the form `resource:verb`.
-/

namespace Shozee.Permissions

open Shozee.Run

/-- Why permissions cannot be resolved: a row that cannot be gone over, or not
enough fuel. -/
inductive ResolveError
  | notIterable (permission : String)
  | spent
deriving DecidableEq, Repr

/-- A string of the form `resource:verb`. -/
def HasVerb (permission : String) : Prop := ':' ∈ permission.toList

instance (permission : String) : Decidable (HasVerb permission) :=
  inferInstanceAs (Decidable (':' ∈ permission.toList))

/-- `PERMISSION_CATALOG` and `PERMISSION_CALL_PREREQUISITES`. -/
structure PrerequisiteTable where
  catalog : List String
  callPrerequisites : List (String × List String)
  shaped : ∀ edge ∈ callPrerequisites, ∀ permission ∈ edge.2,
    HasVerb permission

/-- The properties every plain object inherits. -/
def objectPrototypeNames : List String :=
  ["constructor", "__defineGetter__", "__defineSetter__", "hasOwnProperty",
    "__lookupGetter__", "__lookupSetter__", "isPrototypeOf",
    "propertyIsEnumerable", "toString", "valueOf", "__proto__",
    "toLocaleString"]

namespace PrerequisiteTable

variable (table : PrerequisiteTable)

/-- The permission to view the resource of another one, if there is such a
permission. -/
def sameResourceViewPermission (permission : String) : Option String :=
  match permission.toList.splitOn ':' with
  | resource :: verb :: _ =>
      if String.ofList verb = "view" then none
      else
        let view := String.ofList resource ++ ":view"
        if view ∈ table.catalog then some view else none
  | _ => none

/-- The entry of the table, which is iterated next. -/
def fromCallEdges (permission : String) : Except ResolveError (List String) :=
  match table.callPrerequisites.lookup permission with
  | some edges => .ok edges
  | none =>
      if permission ∈ objectPrototypeNames then
        .error (.notIterable permission)
      else .ok []

/-- What a permission needs at once: the edges of the table, and to view the
resource. -/
def permissionPrerequisites (permission : String) :
    Except ResolveError (List String) := do
  let edges ← table.fromCallEdges permission
  match table.sameResourceViewPermission permission with
  | none => .ok edges
  | some view => if view ∈ edges then .ok edges else .ok (view :: edges)

/-- All that permissions need, themselves among it. -/
def expandPermissionPrerequisites (fuel : ℕ) (permissions : List String) :
    Except ResolveError (List String) :=
  explore table.permissionPrerequisites .spent fuel [] permissions

/-- Whether a permission needs one that is denied. -/
def permissionRequiresDenied (fuel : ℕ) (permission : String)
    (denied : List String) : Except ResolveError Bool := do
  let expanded ← table.expandPermissionPrerequisites fuel [permission]
  return expanded.any fun required => required ∈ denied

end PrerequisiteTable

/-- The column `permissions` of `company_members`. -/
structure CompanyMemberPermissions where
  granted : List String
  denied : List String

/-- Each loop runs on `fuel`. -/
def resolveEffectivePermissions (table : PrerequisiteTable) (fuel : ℕ)
    (overrides : CompanyMemberPermissions) (roleDefaults : List String) :
    Except ResolveError (List String) := do
  let held ← (roleDefaults ++ overrides.granted).filterM fun permission => do
    let requiresDenied ←
      table.permissionRequiresDenied fuel permission overrides.denied
    return !requiresDenied
  table.expandPermissionPrerequisites fuel held

/-- The table as it stands. -/
def prerequisiteTable : PrerequisiteTable where
  catalog :=
    ["assistant:use", "chat:view", "companies:view", "customers:create",
      "customers:delete", "customers:edit", "customers:invite",
      "customers:view", "documents:create", "documents:edit",
      "documents:view", "files:upload", "files:view", "orders:create",
      "orders:edit", "orders:view", "pricing:manage", "pricing:view",
      "products:create", "products:delete", "products:edit", "products:view",
      "settings:payments"]
  callPrerequisites :=
    [("customers:create", ["pricing:view"]),
      ("customers:edit", ["pricing:view"]),
      ("customers:invite", ["customers:view", "pricing:view"]),
      ("documents:create",
        ["companies:view", "customers:view", "documents:view",
          "orders:view"]),
      ("documents:edit", ["companies:view", "documents:view", "files:view"]),
      ("documents:view", ["companies:view"]),
      ("orders:create",
        ["companies:view", "customers:view", "pricing:view",
          "products:view"]),
      ("orders:edit", ["companies:view"]),
      ("orders:view", ["companies:view", "customers:view"]),
      ("pricing:manage", ["products:view"]),
      ("pricing:view", ["customers:view", "products:view"]),
      ("products:edit", ["files:view"])]
  shaped := by decide +kernel

/-! ## What a permission needs

The table gives some of the prerequisites and the verb gives the rest. What the
loop adds is the closure of both, and it ends because the table can lead to
finitely many permissions. -/

namespace PrerequisiteTable

variable (table : PrerequisiteTable)

/-- The permission `required` is a prerequisite of `permission`. -/
def Requires (permission required : String) : Prop :=
  (∃ edges, table.callPrerequisites.lookup permission = some edges ∧
      required ∈ edges) ∨
    table.sameResourceViewPermission permission = some required

/-- In any number of steps, none included. -/
def Needs : String → String → Prop := Relation.ReflTransGen table.Requires

variable {table}

theorem fromCallEdges_eq {permission : String} (hverb : HasVerb permission) :
    table.fromCallEdges permission =
      .ok ((table.callPrerequisites.lookup permission).getD []) := by
  have hown : permission ∉ objectPrototypeNames := by
    intro hmem
    have hnone : ∀ name ∈ objectPrototypeNames, ¬ HasVerb name := by decide
    exact hnone permission hmem hverb
  unfold fromCallEdges
  cases table.callPrerequisites.lookup permission with
  | none => exact if_neg hown
  | some edges => rfl

theorem permissionPrerequisites_spec (table : PrerequisiteTable)
    {permission : String} (hverb : HasVerb permission) :
    ∃ required, table.permissionPrerequisites permission = .ok required ∧
      ∀ q, q ∈ required ↔ table.Requires permission q := by
  have hcalls : ∀ q,
      q ∈ (table.callPrerequisites.lookup permission).getD [] ↔
        ∃ edges, table.callPrerequisites.lookup permission = some edges ∧
          q ∈ edges := by
    intro q
    cases table.callPrerequisites.lookup permission with
    | none => simp
    | some edges => simp
  unfold permissionPrerequisites
  rw [fromCallEdges_eq hverb]
  dsimp only [bind, Except.bind]
  cases hview : table.sameResourceViewPermission permission with
  | none =>
      refine ⟨_, rfl, fun q => ?_⟩
      rw [hcalls q]
      simp [Requires, hview]
  | some view =>
      dsimp only
      split
      · rename_i hmem
        refine ⟨_, rfl, fun q => ⟨fun hq => Or.inl ((hcalls q).mp hq), ?_⟩⟩
        rintro (hq | hq)
        · exact (hcalls q).mpr hq
        · rw [hview] at hq
          cases hq
          exact hmem
      · refine ⟨_, rfl, fun q => ?_⟩
        rw [List.mem_cons, hcalls q, Requires, hview, Option.some_inj, or_comm,
          eq_comm]

theorem leads_iff {permission q : String} (hverb : HasVerb permission) :
    Leads table.permissionPrerequisites permission q ↔
      table.Requires permission q := by
  obtain ⟨required, hnext, hrequired⟩ :=
    permissionPrerequisites_spec table hverb
  rw [← hrequired q]
  exact ⟨fun h => h.mem hnext, fun hq => ⟨required, hnext, hq⟩⟩

theorem sameResourceViewPermission_spec {permission view : String}
    (h : table.sameResourceViewPermission permission = some view) :
    view ∈ table.catalog ∧ HasVerb view := by
  unfold sameResourceViewPermission at h
  split at h
  · rename_i resource _ _ _
    split at h
    · cases h
    · dsimp only at h
      split at h
      · rename_i hmem
        cases h
        refine ⟨hmem, ?_⟩
        rw [HasVerb, String.toList_append]
        exact List.mem_append_right _ (by decide)
      · cases h
  · cases h

/-- What the table can lead to. -/
def targets (table : PrerequisiteTable) : Finset String :=
  (table.callPrerequisites.flatMap (·.2) ++ table.catalog).toFinset

theorem Requires.target {permission q : String}
    (h : table.Requires permission q) : q ∈ table.targets ∧ HasVerb q := by
  rw [targets, List.mem_toFinset, List.mem_append, List.mem_flatMap]
  rcases h with ⟨edges, hlookup, hq⟩ | hview
  · have hmem : (permission, edges) ∈ table.callPrerequisites := by
      obtain ⟨l₁, l₂, heq, _⟩ := List.lookup_eq_some_iff.mp hlookup
      rw [heq]
      exact List.mem_append_right _ List.mem_cons_self
    exact ⟨Or.inl ⟨_, hmem, hq⟩, table.shaped _ hmem q hq⟩
  · obtain ⟨hmem, hverb⟩ := sameResourceViewPermission_spec hview
    exact ⟨Or.inr hmem, hverb⟩

theorem Needs.verb {seed q : String} (h : table.Needs seed q)
    (hverb : HasVerb seed) : HasVerb q := by
  induction h with
  | refl => exact hverb
  | tail _ hstep _ => exact hstep.target.2

/-- The loop's own steps and the relation are the same from a permission with
a verb. -/
theorem reflTransGen_leads_iff {seed q : String} (hverb : HasVerb seed) :
    Relation.ReflTransGen (Leads table.permissionPrerequisites) seed q ↔
      table.Needs seed q := by
  constructor
  · intro h
    induction h with
    | refl => exact .refl
    | tail _ hstep ih => exact ih.tail ((leads_iff (ih.verb hverb)).mp hstep)
  · intro h
    induction h with
    | refl => exact .refl
    | tail hwalk hstep ih =>
        exact ih.tail ((leads_iff (Needs.verb hwalk hverb)).mpr hstep)

/-- The expansion ends, with all that the permissions need. -/
theorem expandPermissionPrerequisites_spec (table : PrerequisiteTable)
    (permissions : List String)
    (hverb : ∀ p ∈ permissions, HasVerb p) :
    ∃ n expanded,
      (∀ fuel, n ≤ fuel →
        table.expandPermissionPrerequisites fuel permissions = .ok expanded) ∧
      ∀ q, q ∈ expanded ↔ ∃ p ∈ permissions, table.Needs p q := by
  have hstays : Stays table.permissionPrerequisites
      ((permissions.toFinset ∪ table.targets).filter HasVerb) := by
    intro p hp
    obtain ⟨required, hnext, hrequired⟩ :=
      permissionPrerequisites_spec table (Finset.mem_filter.mp hp).2
    refine ⟨required, hnext, fun q hq => ?_⟩
    obtain ⟨htarget, hq⟩ := ((hrequired q).mp hq).target
    exact Finset.mem_filter.mpr ⟨Finset.mem_union_right _ htarget, hq⟩
  obtain ⟨n, expanded, hrun, hexpanded⟩ :=
    explore_reaches ResolveError.spent hstays permissions
      (fun p hp => Finset.mem_filter.mpr
        ⟨Finset.mem_union_left _ (List.mem_toFinset.mpr hp), hverb p hp⟩)
  refine ⟨n, expanded, hrun, fun q => ?_⟩
  rw [hexpanded q]
  constructor
  · rintro ⟨p, hp, hwalk⟩
    exact ⟨p, hp, (reflTransGen_leads_iff (hverb p hp)).mp hwalk⟩
  · rintro ⟨p, hp, hneeds⟩
    exact ⟨p, hp, (reflTransGen_leads_iff (hverb p hp)).mpr hneeds⟩

theorem permissionRequiresDenied_spec (table : PrerequisiteTable)
    {permission : String} (denied : List String) (hverb : HasVerb permission) :
    ∃ n requiresDenied,
      (∀ fuel, n ≤ fuel →
        table.permissionRequiresDenied fuel permission denied =
          .ok requiresDenied) ∧
      (requiresDenied = true ↔ ∃ q, table.Needs permission q ∧ q ∈ denied) := by
  obtain ⟨n, expanded, hrun, hexpanded⟩ :=
    expandPermissionPrerequisites_spec table [permission]
      (fun p hp => List.mem_singleton.mp hp ▸ hverb)
  refine ⟨n, expanded.any fun required => required ∈ denied, ?_, ?_⟩
  · intro fuel hfuel
    rw [permissionRequiresDenied, hrun fuel hfuel]
    rfl
  · rw [List.any_eq_true]
    simp only [hexpanded, List.mem_singleton, exists_eq_left,
      decide_eq_true_eq]

end PrerequisiteTable

/-! ## The effective permissions

A permission is kept when nothing that it needs is denied, and what is kept
brings what it needs. So the result is closed, and holds nothing that is
denied. -/

/-- One fuel for all members of a list. -/
theorem exists_fuel {α : Type} {P : α → ℕ → Prop} (l : List α)
    (h : ∀ a ∈ l, ∃ n, ∀ fuel, n ≤ fuel → P a fuel) :
    ∃ n, ∀ a ∈ l, ∀ fuel, n ≤ fuel → P a fuel := by
  induction l with
  | nil => exact ⟨0, fun _ ha => absurd ha List.not_mem_nil⟩
  | cons a l ih =>
      obtain ⟨n, hn⟩ := ih fun b hb => h b (List.mem_cons_of_mem _ hb)
      obtain ⟨m, hm⟩ := h a List.mem_cons_self
      refine ⟨max n m, fun b hb fuel hfuel => ?_⟩
      rcases List.mem_cons.mp hb with rfl | hb
      · exact hm fuel (by omega)
      · exact hn b hb fuel (by omega)

/-- The resolution ends, whatever prerequisites the table holds, and the set
is as the denials and the prerequisites say: nothing denied is in it, what it
holds it holds with all prerequisites, and a permission is in it exactly when
a default or a grant needs it and needs nothing that is denied. -/
theorem resolveEffectivePermissions_resolves (table : PrerequisiteTable)
    (overrides : CompanyMemberPermissions) (roleDefaults : List String)
    (hverb : ∀ p ∈ roleDefaults ++ overrides.granted, HasVerb p) :
    ∃ n resolved,
      (∀ fuel, n ≤ fuel →
        resolveEffectivePermissions table fuel overrides roleDefaults =
          .ok resolved) ∧
      (∀ p ∈ resolved, p ∉ overrides.denied) ∧
      (∀ p ∈ resolved, ∀ q, table.Requires p q → q ∈ resolved) ∧
      ∀ p, p ∈ resolved ↔
        ∃ seed ∈ roleDefaults ++ overrides.granted,
          table.Needs seed p ∧
            ∀ q, table.Needs seed q → q ∉ overrides.denied := by
  let clean : String → Prop := fun seed =>
    ∀ q, table.Needs seed q → q ∉ overrides.denied
  -- The test of the filter answers, and says whether the seed is clean.
  have htests : ∀ seed ∈ roleDefaults ++ overrides.granted, ∃ n, ∀ fuel,
      n ≤ fuel → ∃ requiresDenied,
        table.permissionRequiresDenied fuel seed overrides.denied =
            .ok requiresDenied ∧
          (requiresDenied = true ↔ ¬ clean seed) := by
    intro seed hseed
    obtain ⟨n, requiresDenied, hrun, hiff⟩ :=
      PrerequisiteTable.permissionRequiresDenied_spec table overrides.denied
        (hverb seed hseed)
    refine ⟨n, fun fuel hfuel => ⟨requiresDenied, hrun fuel hfuel, ?_⟩⟩
    rw [hiff]
    simp only [clean, not_forall, not_not, exists_prop]
  obtain ⟨n, htests⟩ := exists_fuel _ htests
  classical
  let held := (roleDefaults ++ overrides.granted).filter fun seed => clean seed
  have hheld : ∀ fuel, n ≤ fuel →
      ((roleDefaults ++ overrides.granted).filterM fun permission => do
        let requiresDenied ←
          table.permissionRequiresDenied fuel permission overrides.denied
        return !requiresDenied) = .ok held := by
    intro fuel hfuel
    refine filterM_eq_ok fun seed hseed => ?_
    obtain ⟨requiresDenied, hrun, hiff⟩ := htests seed hseed fuel hfuel
    rw [hrun]
    cases requiresDenied with
    | true => simp [bind, Except.bind, pure, Except.pure, hiff.mp rfl]
    | false =>
        have hclean : clean seed := by
          by_contra hnot
          exact Bool.false_ne_true (hiff.mpr hnot)
        simp [bind, Except.bind, pure, Except.pure, hclean]
  obtain ⟨m, resolved, hrun, hresolved⟩ :=
    PrerequisiteTable.expandPermissionPrerequisites_spec table held
      fun p hp => hverb p (List.mem_of_mem_filter hp)
  have hmem : ∀ p, p ∈ resolved ↔
      ∃ seed ∈ roleDefaults ++ overrides.granted,
        table.Needs seed p ∧ clean seed := by
    intro p
    simp only [hresolved, held, List.mem_filter, decide_eq_true_eq]
    constructor
    · intro ⟨seed, ⟨hseed, hclean⟩, hneeds⟩
      exact ⟨seed, hseed, hneeds, hclean⟩
    · intro ⟨seed, hseed, hneeds, hclean⟩
      exact ⟨seed, ⟨hseed, hclean⟩, hneeds⟩
  refine ⟨max n m, resolved, ?_, ?_, ?_, hmem⟩
  · intro fuel hfuel
    unfold resolveEffectivePermissions
    rw [hheld fuel (by omega)]
    exact hrun fuel (by omega)
  · intro p hp
    obtain ⟨seed, _, hneeds, hclean⟩ := (hmem p).mp hp
    exact hclean p hneeds
  · intro p hp q hrequires
    obtain ⟨seed, hseed, hneeds, hclean⟩ := (hmem p).mp hp
    exact (hmem q).mpr ⟨seed, hseed, hneeds.tail hrequires, hclean⟩

/-- A manager whose access to customers is denied keeps nothing that needs
it. -/
theorem resolveEffectivePermissions_resolves_denied :
    ∃ n resolved,
      (∀ fuel, n ≤ fuel →
        resolveEffectivePermissions prerequisiteTable fuel
          ⟨["reports:export"], ["customers:view"]⟩
          ["orders:create", "products:edit"] = .ok resolved) ∧
      (∀ p ∈ resolved, p ∉ ["customers:view"]) ∧
      (∀ p ∈ resolved, ∀ q,
        prerequisiteTable.Requires p q → q ∈ resolved) ∧
      ∀ p, p ∈ resolved ↔
        ∃ seed ∈ ["orders:create", "products:edit"] ++ ["reports:export"],
          prerequisiteTable.Needs seed p ∧
            ∀ q, prerequisiteTable.Needs seed q → q ∉ ["customers:view"] :=
  resolveEffectivePermissions_resolves prerequisiteTable
    ⟨["reports:export"], ["customers:view"]⟩
    ["orders:create", "products:edit"] (by decide)

example :
    resolveEffectivePermissions prerequisiteTable 12
        ⟨["reports:export"], ["customers:view"]⟩
        ["orders:create", "products:edit"] =
      .ok ["products:edit", "reports:export", "products:view",
        "files:view"] := by
  decide

end Shozee.Permissions
