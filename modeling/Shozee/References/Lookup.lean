import Shozee.Search.Query
import Shozee.Run.Windows
import Shozee.Run.Uuid

/-!
# Looking a record up by its number

A number that somebody names is looked for among the rows of the company: those
that may be meant, by number and then by id, up to one more than a picker
shows. When the number is exactly that of one of them, it is found; otherwise
the refusal has what was found for the user to choose from
(`module-kit/src/entity-lookup.ts`).

The limit does no harm to the number itself. A collation sorts a text before
its extensions, so among the rows whose numbers begin with it the one that has
it is the first (`mem_candidates_of_prefix`).
-/

namespace Shozee.References

open Shozee.Run
open Shozee.Validation

/-! ## Refusals

What a refusal says, and what it offers to choose from. -/

/-- The kinds of records that a reference may be looked up as. -/
inductive EntityLookupKind
  | customer
  | product
  | order
  | document
deriving DecidableEq, Repr

/-- The kind in a message. -/
def EntityLookupKind.text : EntityLookupKind → String
  | .customer => "customer"
  | .product => "product"
  | .order => "order"
  | .document => "document"

/-- What was looked for. -/
structure EntityLookupTarget where
  kind : EntityLookupKind
  query : CodeUnits
deriving DecidableEq

/-- An entry of the picker. -/
structure EntityLookupOption where
  id : Uuid
  label : CodeUnits
deriving DecidableEq

/-- The entries offered, and whether there are more. -/
structure EntityLookupPicker where
  options : List EntityLookupOption
  optionsTruncated : Bool
deriving DecidableEq

/-- A reference that names several records, or none. -/
inductive EntityLookupError
  | ambiguous (target : EntityLookupTarget) (picker : EntityLookupPicker)
  | unmatched (target : EntityLookupTarget) (picker : EntityLookupPicker)
deriving DecidableEq

/-- The message that the client shows. -/
def EntityLookupError.message : EntityLookupError → CodeUnits
  | .ambiguous target _ =>
      codeUnits "Select a " ++ codeUnits target.kind.text ++
        codeUnits " matching \"" ++ target.query ++ codeUnits "\"."
  | .unmatched target _ =>
      codeUnits "Nothing matches \"" ++ target.query ++ codeUnits "\"."

/-- How a reference fails. -/
inductive ReferenceError
  | lookup (e : EntityLookupError)
  | coreInvariant (internalMessage : String)
deriving DecidableEq

/-- A picker shows this many entries at most. -/
def ENTITY_LOOKUP_OPTIONS_MAX : ℕ := 20

/-- The first entries and whether some were left out. -/
def entityLookupPage (options : List EntityLookupOption) :
    EntityLookupPicker where
  options := options.take ENTITY_LOOKUP_OPTIONS_MAX
  optionsTruncated := ENTITY_LOOKUP_OPTIONS_MAX < options.length

section Refusal

variable (L : Language)

/-- The options by label and id, as the language compares them. -/
def entityLookupPicker (options : List EntityLookupOption) :
    EntityLookupPicker :=
  entityLookupPage (options.mergeSort fun left right =>
    ((L.localeCompare left.label right.label).then
      (L.localeCompare (codeUnits left.id.text)
        (codeUnits right.id.text))).isLE)

/-- `several` is the refusal's kind of match; otherwise it is `none`. -/
def entityLookupRefusal (target : EntityLookupTarget) (several : Bool)
    (options : List EntityLookupOption) : EntityLookupError :=
  if several then .ambiguous target (entityLookupPicker L options)
  else .unmatched target (entityLookupPicker L options)

end Refusal

/-! ## Candidates

The query with its limit, and what is made of the rows. -/

/-- A row of `orders` or `documents`. -/
structure NumberRow where
  id : Uuid
  companyId : Uuid
  number : CodeUnits
deriving DecidableEq

/-- The database's order of texts: of two it knows which comes first, and a
text comes before its extensions. -/
structure Collation where
  le : CodeUnits → CodeUnits → Bool
  sorts : Sorts le
  antisymm : ∀ a b, le a b = true → le b a = true → a = b
  le_append : ∀ text more, le text (text ++ more) = true

/-- `asc(number), asc(id)`. -/
def Collation.rowLe (C : Collation) (left right : NumberRow) : Bool :=
  if left.number = right.number then left.id ≤ right.id
  else C.le left.number right.number

/-- The query of `loadOrderNumberCandidates` and of
`loadDocumentNumberCandidates`. -/
def loadCandidates (C : Collation) (rows : List NumberRow) (companyId : Uuid)
    (condition : CodeUnits → Bool) : List NumberRow :=
  window C.rowLe (ENTITY_LOOKUP_OPTIONS_MAX + 1) (rows.filter fun row =>
    row.companyId = companyId && condition row.number)

/-- The entries of rows, labelled with their numbers. -/
def candidateOptions (rows : List NumberRow) : List EntityLookupOption :=
  rows.map fun row => ⟨row.id, row.number⟩

/-- What is made of the candidates: the only exact one, or a refusal. -/
def onlyExact (L : Language) (target : EntityLookupTarget)
    (isExact : CodeUnits → Bool) (rows : List NumberRow) :
    Except ReferenceError Uuid :=
  let exact := rows.filter fun row => isExact row.number
  match exact with
  | [only] => .ok only.id
  | exact =>
      let ambiguous := if 1 < exact.length then exact else rows
      .error (.lookup (entityLookupRefusal L target (ambiguous.length ≠ 0)
        (candidateOptions ambiguous)))

/-! ## The order of the rows

Of the rows that match, one with the very number is in front, so the limit does
not cut it off. -/

section Rows

variable {C : Collation} {rows : List NumberRow} {companyId : Uuid}

theorem Collation.le_refl (C : Collation) (text : CodeUnits) :
    C.le text text = true := by
  simpa using C.le_append text []

theorem Collation.sorts_rowLe (C : Collation) : Sorts C.rowLe where
  trans a b c hab hbc := by
    unfold rowLe at hab hbc ⊢
    by_cases hab_eq : a.number = b.number
    · rw [if_pos hab_eq] at hab
      by_cases hbc_eq : b.number = c.number
      · rw [if_pos hbc_eq] at hbc
        rw [if_pos (hab_eq.trans hbc_eq), decide_eq_true_eq]
        exact le_trans (of_decide_eq_true hab) (of_decide_eq_true hbc)
      · rw [if_neg hbc_eq] at hbc
        rw [hab_eq, if_neg hbc_eq]
        exact hbc
    · rw [if_neg hab_eq] at hab
      by_cases hbc_eq : b.number = c.number
      · rw [← hbc_eq, if_neg hab_eq]
        exact hab
      · rw [if_neg hbc_eq] at hbc
        have hac := C.sorts.trans _ _ _ hab hbc
        by_cases hac_eq : a.number = c.number
        -- Between a number and itself there is no other.
        · rw [← hac_eq] at hbc
          exact absurd (C.antisymm _ _ hab hbc) hab_eq
        · rw [if_neg hac_eq]
          exact hac
  total a b := by
    unfold rowLe
    by_cases heq : a.number = b.number
    · rw [if_pos heq, if_pos heq.symm, Bool.or_eq_true, decide_eq_true_eq,
        decide_eq_true_eq]
      exact le_total _ _
    · rw [if_neg heq, if_neg (Ne.symm heq)]
      exact C.sorts.total _ _

/-- The rows of a company have numbers of their own. -/
def NumbersDiffer (rows : List NumberRow) (companyId : Uuid) : Prop :=
  ((rows.filter fun row => row.companyId = companyId).map
    NumberRow.number).Nodup

theorem NumbersDiffer.eq (h : NumbersDiffer rows companyId)
    {row other : NumberRow} (hrow : row ∈ rows)
    (hcompany : row.companyId = companyId) (hother : other ∈ rows)
    (hother_company : other.companyId = companyId)
    (heq : other.number = row.number) : other = row :=
  List.inj_on_of_nodup_map h
    (List.mem_filter.mpr ⟨hother, decide_eq_true hother_company⟩)
    (List.mem_filter.mpr ⟨hrow, decide_eq_true hcompany⟩) heq

theorem NumbersDiffer.candidateRows (h : NumbersDiffer rows companyId)
    (condition : CodeUnits → Bool) :
    ((rows.filter fun row =>
      row.companyId = companyId && condition row.number).map
        NumberRow.number).Nodup := by
  have hsplit : (rows.filter fun row =>
      row.companyId = companyId && condition row.number) =
      (rows.filter fun row => row.companyId = companyId).filter fun row =>
        condition row.number := by
    rw [List.filter_filter]
    exact List.filter_congr fun row _ => Bool.and_comm _ _
  rw [hsplit]
  exact h.sublist (List.filter_sublist.map _)

theorem mem_candidates {condition : CodeUnits → Bool} {row : NumberRow}
    (h : row ∈ loadCandidates C rows companyId condition) :
    row ∈ rows ∧ row.companyId = companyId ∧ condition row.number = true := by
  obtain ⟨hrow, hmatch⟩ := List.mem_filter.mp (mem_of_mem_window h)
  rw [Bool.and_eq_true, decide_eq_true_eq] at hmatch
  exact ⟨hrow, hmatch⟩

theorem NumbersDiffer.candidates (h : NumbersDiffer rows companyId)
    (C : Collation) (condition : CodeUnits → Bool) :
    ((loadCandidates C rows companyId condition).map
      NumberRow.number).Nodup :=
  nodup_map_window (h.candidateRows condition)

/-- The row that has the number is among the first of those whose numbers begin
with it. -/
theorem mem_candidates_of_prefix (C : Collation)
    (h : NumbersDiffer rows companyId) {row : NumberRow} (hrow : row ∈ rows)
    (hcompany : row.companyId = companyId) :
    row ∈ loadCandidates C rows companyId
      fun number => Search.startsWith number row.number := by
  have hself : Search.startsWith row.number row.number = true :=
    decide_eq_true (List.prefix_refl _)
  refine mem_window C.sorts_rowLe
    (List.mem_filter.mpr ⟨hrow, by simp [hcompany, hself]⟩) ?_
  have honly : ∀ other ∈ rows.filter (fun other =>
      other.companyId = companyId &&
        Search.startsWith other.number row.number),
      C.rowLe other row = true → other = row := by
    intro other hother hle
    obtain ⟨hmem, hmatch⟩ := List.mem_filter.mp hother
    rw [Bool.and_eq_true, decide_eq_true_eq] at hmatch
    obtain ⟨hsame, hstarts⟩ := hmatch
    refine h.eq hrow hcompany hmem hsame ?_
    by_contra hne
    rw [Collation.rowLe, if_neg hne] at hle
    obtain ⟨more, hmore⟩ := of_decide_eq_true hstarts
    refine hne (C.antisymm _ _ hle ?_)
    rw [← hmore]
    exact C.le_append _ _
  calc (rows.filter _).countP (fun other => C.rowLe other row)
      ≤ (rows.filter _).count row :=
        List.countP_mono_left fun other hother hle =>
          beq_iff_eq.mpr (honly other hother hle)
    _ ≤ 1 :=
        List.nodup_iff_count_le_one.mp (h.candidateRows fun number =>
          Search.startsWith number row.number).of_map row
    _ ≤ ENTITY_LOOKUP_OPTIONS_MAX + 1 := by decide

/-- No row is left out where the limit is not reached. -/
theorem mem_candidates_of_few (C : Collation) {condition : CodeUnits → Bool}
    (hfew : (rows.filter fun row =>
      row.companyId = companyId && condition row.number).length ≤
        ENTITY_LOOKUP_OPTIONS_MAX + 1) {row : NumberRow} (hrow : row ∈ rows)
    (hcompany : row.companyId = companyId)
    (hcondition : condition row.number = true) :
    row ∈ loadCandidates C rows companyId condition :=
  mem_window C.sorts_rowLe
    (List.mem_filter.mpr ⟨hrow, by simp [hcompany, hcondition]⟩)
    (List.countP_le_length.trans hfew)

/-- The only exact one is found. -/
theorem onlyExact_eq_ok {L : Language} {target : EntityLookupTarget}
    {isExact : CodeUnits → Bool} {id : Uuid}
    (h : onlyExact L target isExact rows = .ok id) :
    ∃ only, rows.filter (fun row => isExact row.number) = [only] ∧
      only.id = id := by
  unfold onlyExact at h
  dsimp only at h
  split at h
  next only honly =>
    cases h
    exact ⟨only, honly, rfl⟩
  next => cases h

theorem onlyExact_of_mem (L : Language) (target : EntityLookupTarget)
    (hnumbers : (rows.map NumberRow.number).Nodup) {row : NumberRow}
    (hrow : row ∈ rows) :
    onlyExact L target (fun number => decide (number = row.number)) rows =
      .ok row.id := by
  have hfilter : rows.filter (fun other => decide (other.number = row.number)) =
      [row] := by
    have hnodup := hnumbers.of_map.filter
      fun other => decide (other.number = row.number)
    refine List.perm_singleton.mp ((List.perm_ext_iff_of_nodup hnodup
      (List.nodup_singleton row)).mpr fun other => ?_)
    rw [List.mem_filter, decide_eq_true_eq, List.mem_singleton]
    constructor
    · rintro ⟨hother, heq⟩
      exact List.inj_on_of_nodup_map hnumbers hother hrow heq
    · rintro rfl
      exact ⟨hrow, rfl⟩
  unfold onlyExact
  rw [hfilter]

end Rows

end Shozee.References
