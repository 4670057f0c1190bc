import Shozee.Catalog.Candidates

/-!
# A line of a batch

What a line comes to, from what is loaded for its batch and from what is loaded
for it alone. The rows that matter to it are the same ones in both, so it comes
to the same, with its own index in the error (`resolveLine_alone`).

One thing is kept by text and not by line: what a text says as product words
and variant words is said of every line with the text, as soon as one of them
has no variant (`namedVariant_alone`).
-/

namespace Shozee.Catalog

open Shozee.Run Shozee.Validation

/-! ## Errors of a line

An error has the index of its line, and is otherwise a matter of the line. -/

/-- The same target on another line. -/
def ResolutionTarget.atLine (index : ℕ) : ResolutionTarget → ResolutionTarget
  | .orderLineVariant _ productId productName =>
      .orderLineVariant index productId productName
  | .orderLineProduct _ query productName =>
      .orderLineProduct index query productName

/-- The error, as the line of this index has it. -/
def LineError.atLine (index : ℕ) : LineError → LineError
  | .notFound => .notFound
  | .conflict shown =>
      .conflict { shown with target := shown.target.atLine index }

@[simp] theorem LineError.terminal_atLine (index : ℕ) (error : LineError) :
    (error.atLine index).terminal = error.terminal := by
  cases error <;> rfl

section Line

variable {L : Language} {tables : Tables L}

theorem productSelectionConflict_perm (hL : L.Lawful) (index : ℕ)
    (query : CodeUnits) {rows rows' : List ProductCandidate}
    (h : rows.Perm rows') (hrows : ∀ row ∈ rows, row ∈ tables.products) :
    productSelectionConflict L index query rows =
      (productSelectionConflict L 0 query rows').atLine index := by
  unfold productSelectionConflict
  rw [pickerFromProducts_perm hL h hrows]
  rfl

theorem variantSelectionConflict_perm (hL : L.Lawful)
    (reason : ConflictReason) (index : ℕ) (product : ProductCandidate)
    (clientMessage : CodeUnits) {rows rows' : List VariantCandidate}
    (h : rows.Perm rows') (hrows : ∀ row ∈ rows, row ∈ tables.variants) :
    variantSelectionConflict L reason index product rows clientMessage =
      (variantSelectionConflict L reason 0 product rows'
        clientMessage).atLine index := by
  unfold variantSelectionConflict
  rw [pickerFromVariants_perm hL h hrows]
  rfl

theorem mem_of_pickProduct {query : CodeUnits}
    {candidates : ProductQueryCandidates} {row : ProductCandidate}
    (h : row ∈ (pickProduct L query candidates).rows) :
    row ∈ candidatesForQuery L query candidates :=
  mem_of_pickUniqueReferenceMatch h

theorem uniqueArchivedSubject_congr
    {picked picked' : UniqueMatchResult ProductCandidate}
    (h : Alike picked picked') :
    uniqueArchivedSubject picked = uniqueArchivedSubject picked' := by
  cases h with
  | unique row => rfl
  | none => rfl
  | @ambiguous ambiguity rows rows' hrows =>
      match rows, rows', hrows with
      | [row], rows', hrows => rw [← List.singleton_perm.mp hrows]
      | [], rows', hrows => rw [List.nil_perm.mp hrows]
      | _ :: _ :: _, [], hrows => exact absurd hrows.length_eq (by simp)
      | _ :: _ :: _, [_], hrows => exact absurd hrows.length_eq (by simp)
      | _ :: _ :: _, _ :: _ :: _, _ => rfl

/-- The candidates are the same ones, all of them of the table. -/
structure SameCandidates (tables : Tables L) (query : CodeUnits)
    (candidates candidates' : ProductQueryCandidates) : Prop where
  perm : (candidatesForQuery L query candidates).Perm
    (candidatesForQuery L query candidates')
  mem : ∀ row ∈ candidatesForQuery L query candidates, row ∈ tables.products

theorem SameCandidates.pickProduct {query : CodeUnits}
    {candidates candidates' : ProductQueryCandidates}
    (h : SameCandidates tables query candidates candidates') :
    Alike (pickProduct L query candidates) (pickProduct L query candidates') :=
  pickUniqueReferenceMatch_perm L query _ _ h.perm

theorem resolveProductRef_query (hL : L.Lawful) (index : ℕ)
    {byId byId' : Dict CodeUnits ProductCandidate} {value : CodeUnits}
    {active active' archived archived' : ProductQueryCandidates}
    (hactive : SameCandidates tables value active active')
    (harchived : SameCandidates tables value archived archived') :
    resolveProductRef L (.query value) index byId active archived =
      (resolveProductRef L (.query value) 0 byId' active' archived').mapError
        (LineError.atLine index) := by
  have hpicked := hactive.pickProduct
  have hmem : ∀ row ∈ (pickProduct L value active).rows,
      row ∈ tables.products := fun row hrow =>
    hactive.mem row (mem_of_pickProduct hrow)
  have hpicked' := harchived.pickProduct
  unfold resolveProductRef
  dsimp only
  generalize pickProduct L value active = picked at hpicked hmem
  generalize pickProduct L value active' = picked' at hpicked
  generalize pickProduct L value archived = old at hpicked'
  generalize pickProduct L value archived' = old' at hpicked'
  cases hpicked with
  | unique row => rfl
  | ambiguous ambiguity hrows =>
      exact congrArg Except.error
        (productSelectionConflict_perm hL index value hrows hmem)
  | none =>
      have hsubject := uniqueArchivedSubject_congr hpicked'
      cases hpicked' with
      | unique row => rfl
      | none => rfl
      | ambiguous ambiguity hrows =>
          dsimp only
          rw [hsubject]
          rfl

theorem pickVariant_perm (query : CodeUnits)
    {rows rows' : List VariantCandidate} (h : rows.Perm rows') :
    Alike (pickVariant L query rows) (pickVariant L query rows') :=
  pickUniqueReferenceMatch_perm L query _ _ (h.filter _)

theorem mem_of_pickVariant {query : CodeUnits} {rows : List VariantCandidate}
    {row : VariantCandidate} (h : row ∈ (pickVariant L query rows).rows) :
    row ∈ rows :=
  (List.mem_filter.mp (mem_of_pickUniqueReferenceMatch h)).1

theorem uniqueVariantByQuery_perm (query : CodeUnits)
    {rows rows' : List VariantCandidate} (h : rows.Perm rows') :
    uniqueVariantByQuery L query rows = uniqueVariantByQuery L query rows' := by
  have hpicked := pickVariant_perm (L := L) query h
  unfold uniqueVariantByQuery
  generalize pickVariant L query rows = picked at hpicked
  generalize pickVariant L query rows' = picked' at hpicked
  cases hpicked <;> rfl

theorem eq_nil_iff_of_perm {α : Type} {rows rows' : List α}
    (h : rows.Perm rows') : rows = [] ↔ rows' = [] := by
  constructor
  · rintro rfl
    exact List.nil_perm.mp h
  · rintro rfl
    exact List.perm_nil.mp h

theorem find?_id_perm (hL : L.Lawful) (id : CodeUnits)
    {rows rows' : List VariantCandidate} (h : rows.Perm rows')
    (hrows : ∀ row ∈ rows, row ∈ tables.variants) :
    rows.find? (fun row => row.id = id) =
      rows'.find? fun row => row.id = id := by
  have := hL.ordered
  have honly : Only (fun row : VariantCandidate => decide (row.id = id))
      rows' := by
    intro row hrow other hother hid hid'
    refine eq_of_apart hL tables.variant_ids (hrows row (h.mem_iff.mpr hrow))
      (hrows other (h.mem_iff.mpr hother)) ?_
    rw [of_decide_eq_true hid, of_decide_eq_true hid']
    exact Std.ReflCmp.compare_self
  exact honly.find?_congr fun row _ => h.mem_iff

theorem resolveReferencedVariant_perm (hL : L.Lawful) (ref : EntityRef)
    (index : ℕ) (product : ProductCandidate)
    {owned owned' active active' : List VariantCandidate}
    (howned : owned.Perm owned') (hactive : active.Perm active')
    (hmem : ∀ row ∈ owned, row ∈ tables.variants)
    (hmem' : ∀ row ∈ active, row ∈ tables.variants) :
    resolveReferencedVariant L ref index product owned active =
      (resolveReferencedVariant L ref 0 product owned' active').mapError
        (LineError.atLine index) := by
  unfold resolveReferencedVariant
  cases ref with
  | id id =>
      dsimp only
      rw [find?_id_perm hL id howned hmem]
      cases owned'.find? fun row => row.id = id with
      | none => rfl
      | some row =>
          dsimp only
          split <;> rfl
  | query value =>
      dsimp only
      rw [if_congr (eq_nil_iff_of_perm howned) rfl rfl,
        if_congr (eq_nil_iff_of_perm hactive) rfl rfl]
      split
      · rfl
      split
      · rfl
      have hpicked := pickVariant_perm (L := L) value hactive
      have hrows : ∀ row ∈ (pickVariant L value active).rows,
          row ∈ tables.variants := fun row hrow =>
        hmem' row (mem_of_pickVariant hrow)
      generalize pickVariant L value active = picked at hpicked hrows
      generalize pickVariant L value active' = picked' at hpicked
      cases hpicked with
      | unique row => rfl
      | none =>
          exact congrArg Except.error
            (variantSelectionConflict_perm hL _ index product _ hactive hmem')
      | ambiguous ambiguity hperm =>
          exact congrArg Except.error
            (variantSelectionConflict_perm hL _ index product _ hperm hrows)

theorem resolveLineVariant_perm (hL : L.Lawful) (line : LineReferenceInput)
    (index : ℕ) (product : ProductCandidate)
    {variants variants' : List VariantCandidate}
    (h : (variants.filter fun row => row.productId = product.id).Perm
      (variants'.filter fun row => row.productId = product.id))
    (hmem : ∀ row ∈ variants, row ∈ tables.variants) :
    resolveLineVariant L line index product variants =
      (resolveLineVariant L line 0 product variants').mapError
        (LineError.atLine index) := by
  have hmem : ∀ row ∈ variants.filter fun row => row.productId = product.id,
      row ∈ tables.variants := fun row hrow =>
    hmem row (List.mem_filter.mp hrow).1
  unfold resolveLineVariant
  generalize (variants.filter fun row => row.productId = product.id) = owned
    at h hmem
  generalize (variants'.filter fun row => row.productId = product.id) = owned'
    at h
  have hactive := h.filter fun row => row.status = .active
  have hmem' : ∀ row ∈ owned.filter fun row => row.status = .active,
      row ∈ tables.variants := fun row hrow =>
    hmem row (List.mem_filter.mp hrow).1
  dsimp only
  generalize (owned.filter fun row => row.status = .active) = active
    at hactive hmem'
  generalize (owned'.filter fun row => row.status = .active) = active'
    at hactive
  have hconflict : (if owned = [] then
        Except.ok ⟨product.id, product.name, none, none⟩
      else if active = [] then
        .error (variantSelectionConflict L .noActiveVariants index product
          [] (noActiveVariantsMessage product.name))
      else
        .error (variantSelectionConflict L .variantRequired index product
          active (variantRequiredMessage product.name)) :
        Except LineError ResolvedLineReference) =
      (if owned' = [] then
        Except.ok ⟨product.id, product.name, none, none⟩
      else if active' = [] then
        .error (variantSelectionConflict L .noActiveVariants 0 product
          [] (noActiveVariantsMessage product.name))
      else
        .error (variantSelectionConflict L .variantRequired 0 product
          active' (variantRequiredMessage product.name)) :
        Except LineError ResolvedLineReference).mapError
          (LineError.atLine index) := by
    rw [if_congr (eq_nil_iff_of_perm h) rfl rfl,
      if_congr (eq_nil_iff_of_perm hactive) rfl rfl]
    split
    · rfl
    split
    · rfl
    · exact congrArg Except.error
        (variantSelectionConflict_perm hL _ index product _ hactive hmem')
  cases variantSelectionOf line with
  | unspecified => exact hconflict
  | base => exact hconflict
  | reference ref =>
      dsimp only
      rw [resolveReferencedVariant_perm hL ref index product h hactive hmem
        hmem']
      cases resolveReferencedVariant L ref 0 product owned' active' <;> rfl

/-! ## Splits

A split is read off the rows that its two texts find. -/

theorem splitHit_congr {candidates candidates' : ProductQueryCandidates}
    {variants variants' : List VariantCandidate}
    {split : CodeUnits × CodeUnits}
    (h : SameCandidates tables split.1 candidates candidates')
    (hvariants : ∀ product ∈ candidatesForQuery L split.1 candidates,
      (variants.filter fun row => row.productId = product.id).Perm
        (variants'.filter fun row => row.productId = product.id)) :
    splitHit L candidates variants split =
      splitHit L candidates' variants' split := by
  have hpicked := h.pickProduct
  have hmem : ∀ row ∈ (pickProduct L split.1 candidates).rows,
      row ∈ candidatesForQuery L split.1 candidates := fun row hrow =>
    mem_of_pickProduct hrow
  unfold splitHit
  generalize pickProduct L split.1 candidates = picked at hpicked hmem
  generalize pickProduct L split.1 candidates' = picked' at hpicked
  cases hpicked with
  | none => rfl
  | ambiguous ambiguity hrows => rfl
  | unique product =>
      have hactive : ∀ rows : List VariantCandidate,
          (rows.filter fun row =>
            row.productId = product.id && row.status = .active) =
          (rows.filter fun row => row.productId = product.id).filter
            fun row => row.status = .active := by
        intro rows
        rw [List.filter_filter]
        exact List.filter_congr fun row _ => Bool.and_comm _ _
      have hproduct := hvariants product (hmem product List.mem_cons_self)
      dsimp only
      rw [hactive, hactive,
        uniqueVariantByQuery_perm split.2 (hproduct.filter _)]

end Line

/-! ## What is loaded

The rows that a line looks at are the same in the batch and alone. -/

section Reads

variable {L : Language} {db : Database} {tables : Tables L}

theorem mem_uniqueIds {ids : List CodeUnits} {id : CodeUnits} :
    id ∈ uniqueIds ids ↔ id ∈ ids := by
  have h := mem_foldl_unique ids [] id
  rw [or_iff_right List.not_mem_nil] at h
  unfold uniqueIds
  convert h

theorem mem_productQueriesOf {lines : List LineReferenceInput}
    {query : CodeUnits} :
    query ∈ productQueriesOf L lines ↔ ∃ line ∈ lines, ∃ value,
      line.product = .query value ∧ normalizeReferenceQuery L value = query := by
  unfold productQueriesOf
  rw [mem_uniqueIds, List.mem_filterMap]
  refine exists_congr fun line => and_congr_right fun _ => ?_
  cases line.product with
  | id id => simp [productQueryOf]
  | query value => simp [productQueryOf]

theorem sameCandidates (hL : L.Lawful) {lines : List LineReferenceInput}
    {line : LineReferenceInput} (hline : line ∈ lines) {value : CodeUnits}
    (h : line.product = .query value) {status : Status}
    (hbrought : ¬ BroughtRow L db tables (productQueriesOf L lines)
      [normalizeReferenceQuery L value] value status) :
    SameCandidates tables value
      (loadCandidates L db tables (productQueriesOf L lines) status)
      (loadCandidates L db tables (productQueriesOf L [line]) status) where
  perm := by
    have hasked : normalizeReferenceQuery L value ∈
        productQueriesOf L [line] :=
      mem_productQueriesOf.mpr
        ⟨line, List.mem_singleton_self line, value, h, rfl⟩
    refine candidatesForQuery_perm hL (fun hrow => hbrought (hrow.mono ?_))
      (fun query hquery => ?_) hasked
    · intro query hquery
      rw [List.mem_singleton.mp hquery]
      exact hasked
    obtain ⟨other, hother, hfrom⟩ := mem_productQueriesOf.mp hquery
    rw [List.mem_singleton.mp hother] at hfrom
    exact mem_productQueriesOf.mpr ⟨line, hline, hfrom⟩
  mem := fun _ hrow => mem_table_of_candidate hL hrow

/-- The ids that lines name products by. -/
def productIdsOf (lines : List LineReferenceInput) : List CodeUnits :=
  uniqueIds (lines.filterMap fun line => productIdOf line.product)

theorem mem_loadProductsById {ids : List CodeUnits} {row : ProductCandidate} :
    row ∈ loadProductsById L db tables ids ↔
      row ∈ tables.products ∧ row.status = .active ∧ row.id ∈ ids := by
  unfold loadProductsById
  split
  next hnone => simp [hnone]
  next => rw [RowOrder.mem_order, List.mem_filter, Bool.and_eq_true,
    decide_eq_true_eq, List.contains_iff_mem]

theorem load_byId (lines : List LineReferenceInput) (id : CodeUnits) :
    (load L db tables lines).byId id =
      (loadProductsById L db tables (productIdsOf lines)).reverse.find?
        fun row => row.id = id := by
  have hfold := Dict.foldl_set (fun row : ProductCandidate => some row.id)
    (fun row => row) (loadProductsById L db tables (productIdsOf lines))
    Dict.empty id
  refine hfold.trans ?_
  rw [Option.map_id', show Dict.empty id = (none : Option ProductCandidate)
    from rfl, Option.or_none]
  simp only [Option.some.injEq]

theorem load_byId_alone (hL : L.Lawful) {lines : List LineReferenceInput}
    {line : LineReferenceInput} (hline : line ∈ lines) {id : CodeUnits}
    (h : line.product = .id id) :
    (load L db tables lines).byId id = (load L db tables [line]).byId id := by
  have := hL.ordered
  have hid : ∀ lines : List LineReferenceInput, line ∈ lines →
      id ∈ productIdsOf lines := by
    intro lines hline
    refine mem_uniqueIds.mpr (List.mem_filterMap.mpr ⟨line, hline, ?_⟩)
    rw [h]
    rfl
  rw [load_byId, load_byId]
  refine Only.find?_congr ?_ fun row hrow => ?_
  · intro row hrow other hother hid hid'
    rw [List.mem_reverse, mem_loadProductsById] at hrow hother
    refine eq_of_apart hL tables.product_ids hrow.1 hother.1 ?_
    rw [of_decide_eq_true hid, of_decide_eq_true hid']
    exact Std.ReflCmp.compare_self
  · rw [List.mem_reverse, List.mem_reverse, mem_loadProductsById,
      mem_loadProductsById, of_decide_eq_true hrow]
    exact and_congr_right fun _ => and_congr_right fun _ =>
      iff_of_true (hid lines hline) (hid [line] (List.mem_singleton_self line))

/-- The rows that were loaded for the texts. -/
def loadedRows (L : Language) (db : Database) (tables : Tables L)
    (queries : List CodeUnits) (status : Status) : List ProductCandidate :=
  mergeProductCandidates (loadCandidates L db tables queries status).exact
    (searchedRows queries (loadCandidates L db tables queries status).byQuery)

theorem mem_loadedRows (hL : L.Lawful) {queries : List CodeUnits}
    {status : Status} {row : ProductCandidate} :
    row ∈ loadedRows L db tables queries status ↔
      row ∈ (loadCandidates L db tables queries status).exact ∨
        row ∈ searchedRows queries
          (loadCandidates L db tables queries status).byQuery :=
  mem_mergeProductCandidates hL (fun _ => mem_table_of_exact) fun _ h => by
    obtain ⟨key, -, hkey⟩ := List.mem_flatMap.mp h
    exact mem_table_of_byQuery hkey

theorem mem_table_of_loaded (hL : L.Lawful) {queries : List CodeUnits}
    {status : Status} {row : ProductCandidate}
    (h : row ∈ loadedRows L db tables queries status) :
    row ∈ tables.products := by
  rcases (mem_loadedRows hL).mp h with h | h
  · exact mem_table_of_exact h
  · obtain ⟨key, -, hkey⟩ := List.mem_flatMap.mp h
    exact mem_table_of_byQuery hkey

/-- The candidates of a text are among the rows that were loaded. -/
theorem mem_loaded_of_candidate (hL : L.Lawful) {queries : List CodeUnits}
    {status : Status} {value : CodeUnits} {row : ProductCandidate}
    (h : row ∈ candidatesForQuery L value
      (loadCandidates L db tables queries status)) :
    row ∈ loadedRows L db tables queries status := by
  refine (mem_loadedRows hL).mpr ?_
  rcases (mem_candidatesForQuery hL).mp h with ⟨hrow, hstatus, -, hloads⟩ | h
  · exact .inl (mem_loadProductsByExactQuery.mpr ⟨hrow, hstatus, hloads⟩)
  · exact .inr (List.mem_flatMap.mpr
      ⟨_, h.1, mem_loadProductsByNameSearch.mpr h⟩)

variable (db tables) in
/-- The variants are loaded of every product that a line can name. -/
theorem load_variants (hL : L.Lawful) (lines : List LineReferenceInput) :
    ∃ ids, (load L db tables lines).variants =
        loadVariantsForProducts L db tables ids ∧
      (∀ id row, (load L db tables lines).byId id = some row → row.id ∈ ids) ∧
      ∀ value, ∀ row ∈
        candidatesForQuery L value (load L db tables lines).active,
        row.id ∈ ids := by
  have hsellable : ∀ row,
      row ∈ loadProductsById L db tables (productIdsOf lines) ∨
        row ∈ loadedRows L db tables (productQueriesOf L lines) .active →
      row.id ∈ uniqueIds ((mergeProductCandidates
        (loadProductsById L db tables (productIdsOf lines))
        (loadedRows L db tables (productQueriesOf L lines) .active)).map
          ProductCandidate.id) := by
    intro row h
    refine mem_uniqueIds.mpr (List.mem_map.mpr ⟨row, ?_, rfl⟩)
    exact (mem_mergeProductCandidates hL
      (fun _ h => (mem_loadProductsById.mp h).1)
      (fun _ h => mem_table_of_loaded hL h)).mpr h
  refine ⟨_, rfl, fun id row h => hsellable row (.inl ?_),
    fun value row h => hsellable row (.inr (mem_loaded_of_candidate hL h))⟩
  rw [load_byId] at h
  exact List.mem_reverse.mp (List.mem_of_find?_eq_some h)

/-! ## Texts that find no product

Which texts are split depends on the lines with the text, not on one of them.
-/

variable (L db tables) in
/-- A line without a variant whose text finds no product, active or not. -/
def Unfound (lines : List LineReferenceInput) (value : CodeUnits) : Prop :=
  candidatesForQuery L value (load L db tables lines).active = [] ∧
    candidatesForQuery L value (load L db tables lines).archived = []

theorem mem_unfoundQueries {lines : List LineReferenceInput}
    {value : CodeUnits} :
    value ∈ (load L db tables lines).unfoundQueries ↔
      (∃ line ∈ lines, line.product = .query value ∧
        isUnspecified (variantSelectionOf line) = true) ∧
      Unfound L db tables lines value := by
  have hload : (load L db tables lines).unfoundQueries =
      unfoundQueriesOf L (load L db tables lines).active
        (load L db tables lines).archived lines := rfl
  rw [hload, unfoundQueriesOf, mem_uniqueIds, List.mem_filterMap]
  constructor
  · rintro ⟨line, hline, hvalue⟩
    cases hproduct : line.product with
    | id id => simp [hproduct] at hvalue
    | query text =>
        rw [hproduct] at hvalue
        dsimp only at hvalue
        split at hvalue
        next hunfound =>
          rw [Option.some.injEq] at hvalue
          subst hvalue
          rw [Bool.and_eq_true, Bool.and_eq_true, List.isEmpty_iff,
            List.isEmpty_iff] at hunfound
          exact ⟨⟨line, hline, hproduct, hunfound.1.1⟩, hunfound.1.2,
            hunfound.2⟩
        next => exact absurd hvalue.symm (Option.some_ne_none value)
  · rintro ⟨⟨line, hline, hproduct, hselection⟩, hactive, harchived⟩
    refine ⟨line, hline, ?_⟩
    rw [hproduct]
    dsimp only
    rw [hselection, hactive, harchived]
    rfl

/-- The statements are not asked for no texts at all. -/
theorem load_split (lines : List LineReferenceInput) :
    (load L db tables lines).split = loadCandidates L db tables
      (splitQueriesOf L (load L db tables lines).unfoundQueries) .active := by
  have hload : (load L db tables lines).split =
      if splitQueriesOf L (load L db tables lines).unfoundQueries = [] then
        ⟨[], Dict.empty⟩
      else loadCandidates L db tables
        (splitQueriesOf L (load L db tables lines).unfoundQueries) .active :=
    rfl
  rw [hload]
  split
  next hnone =>
    rw [hnone]
    have horder : db.rowOrder.order ([] : List (ℕ × ProductCandidate)) = [] :=
      List.perm_nil.mp (db.rowOrder.perm_order [])
    unfold loadCandidates loadProductsByNameSearch
    simp only [List.zipIdx_nil, List.flatMap_nil, horder, List.foldl_nil]
    rfl
  next => rfl

variable (db tables) in
theorem load_splitVariants (hL : L.Lawful) (lines : List LineReferenceInput) :
    ∃ ids, (load L db tables lines).splitVariants =
        loadVariantsForProducts L db tables ids ∧
      ∀ value, ∀ row ∈
        candidatesForQuery L value (load L db tables lines).split,
        row.id ∈ ids := by
  have hload : (load L db tables lines).splitVariants =
      loadVariantsForProducts L db tables (uniqueIds ((mergeProductCandidates
        (load L db tables lines).split.exact
        (searchedRows
          (splitQueriesOf L (load L db tables lines).unfoundQueries)
          (load L db tables lines).split.byQuery)).map
            ProductCandidate.id)) := rfl
  refine ⟨_, hload, fun value row h => ?_⟩
  refine mem_uniqueIds.mpr (List.mem_map.mpr ⟨row, ?_, rfl⟩)
  rw [load_split] at h ⊢
  exact mem_loaded_of_candidate hL h

/-! ## A line of a batch and the line alone

Put together: the outcome of a line is that of the line alone, unless another
text brings it a row. -/

variable (L db tables) in
/-- Other texts of the batch bring the text of the line a row that it has not
alone: as the name of a product, or as the product words of a split. -/
def Brought (lines : List LineReferenceInput) (line : LineReferenceInput) :
    Prop :=
  ∃ value, line.product = .query value ∧
    ((∃ status, BroughtRow L db tables (productQueriesOf L lines)
        [normalizeReferenceQuery L value] value status) ∨
      ∃ split ∈ productVariantSplits L value, BroughtRow L db tables
        (splitQueriesOf L (load L db tables lines).unfoundQueries)
        (splitQueriesOf L [value]) split.1 .active)

theorem unfound_alone (hL : L.Lawful) {lines : List LineReferenceInput}
    {line : LineReferenceInput} (hline : line ∈ lines)
    (hbrought : ¬ Brought L db tables lines line) {value : CodeUnits}
    (h : line.product = .query value) :
    Unfound L db tables lines value ↔ Unfound L db tables [line] value := by
  have hrows : ∀ status, ¬ BroughtRow L db tables (productQueriesOf L lines)
      [normalizeReferenceQuery L value] value status :=
    fun status hrow => hbrought ⟨value, h, .inl ⟨status, hrow⟩⟩
  exact and_congr
    (eq_nil_iff_of_perm (sameCandidates hL hline h (hrows .active)).perm)
    (eq_nil_iff_of_perm (sameCandidates hL hline h (hrows .archived)).perm)

theorem mem_splitQueriesOf {texts : List CodeUnits} {query : CodeUnits} :
    query ∈ splitQueriesOf L texts ↔ ∃ text ∈ texts,
      ∃ split ∈ productVariantSplits L text, split.1 = query := by
  rw [splitQueriesOf, mem_uniqueIds, List.mem_flatMap]
  exact exists_congr fun text => and_congr_right fun _ => List.mem_map

/-- The product words of a split are asked for as they are. -/
theorem normalize_split (hL : L.Lawful) {query : CodeUnits}
    {split : CodeUnits × CodeUnits} (h : split ∈ productVariantSplits L query) :
    normalizeReferenceQuery L split.1 = split.1 := by
  have hwords : ∀ word ∈ wordsOf (L.nfc query), IsWord word :=
    fun _ => isWord_of_mem
  have htext : normalizeReferenceQuery L query =
      [blank].intercalate (wordsOf (L.nfc query)) := rfl
  unfold productVariantSplits at h
  dsimp only at h
  split at h
  · exact absurd h List.not_mem_nil
  next hlength =>
    have hsplit : (normalizeReferenceQuery L query).splitOn blank =
        wordsOf (L.nfc query) := by
      rw [htext]
      refine splitOn_blank_intercalate (fun hnil => ?_) hwords
      rw [htext, hnil] at hlength
      exact hlength (.inl (by decide))
    rw [hsplit] at h
    generalize wordsOf (L.nfc query) = words at h hwords htext
    obtain ⟨index, hindex, hmem⟩ := List.mem_flatMap.mp h
    have hlt : index + 1 < words.length := by
      have := List.mem_range.mp hindex
      omega
    have htake : words.take (index + 1) ≠ [] :=
      List.ne_nil_of_length_pos (by rw [List.length_take]; omega)
    have hdrop : words.drop (index + 1) ≠ [] :=
      List.ne_nil_of_length_pos (by rw [List.length_drop]; omega)
    have hjoin := intercalate_append [blank] htake hdrop
    rw [List.take_append_drop, ← htext] at hjoin
    rcases List.mem_cons.mp hmem with rfl | hmem
    · have hpart : [blank].intercalate (words.take (index + 1)) <:+:
          normalizeReferenceQuery L query := by
        rw [hjoin, List.append_assoc]
        exact (List.prefix_append _ _).isInfix
      exact hL.normalize_words
        (fun word hword => hwords word (List.mem_of_mem_take hword)) hpart
    · have hpart : [blank].intercalate (words.drop (index + 1)) <:+:
          normalizeReferenceQuery L query := by
        rw [hjoin]
        exact (List.suffix_append _ _).isInfix
      rw [List.mem_singleton.mp hmem]
      exact hL.normalize_words
        (fun word hword => hwords word (List.mem_of_mem_drop hword)) hpart

theorem resolveProductNamingItsVariant_congr {query : CodeUnits}
    {candidates candidates' : ProductQueryCandidates}
    {variants variants' : List VariantCandidate}
    (h : ∀ split ∈ productVariantSplits L query,
      splitHit L candidates variants split =
        splitHit L candidates' variants' split) :
    resolveProductNamingItsVariant L query candidates variants =
      resolveProductNamingItsVariant L query candidates' variants' := by
  unfold resolveProductNamingItsVariant
  rw [List.filterMap_congr h]

/-- A split is read alike in the batch and on the line alone. -/
theorem splitHit_alone (hL : L.Lawful) {lines : List LineReferenceInput}
    {other : LineReferenceInput} (hother : other ∈ lines)
    (hbrought : ¬ Brought L db tables lines other) {value : CodeUnits}
    (hproduct : other.product = .query value)
    (hvalue : value ∈ (load L db tables [other]).unfoundQueries)
    {split : CodeUnits × CodeUnits}
    (hsplit : split ∈ productVariantSplits L value) :
    splitHit L (load L db tables lines).split
        (load L db tables lines).splitVariants split =
      splitHit L (load L db tables [other]).split
        (load L db tables [other]).splitVariants split := by
  have hunfound : ∀ text ∈ (load L db tables [other]).unfoundQueries,
      text ∈ (load L db tables lines).unfoundQueries := by
    intro text htext
    obtain ⟨⟨one, hone, htext', hselection⟩, halone⟩ :=
      mem_unfoundQueries.mp htext
    rw [List.mem_singleton.mp hone] at htext' hselection
    exact mem_unfoundQueries.mpr ⟨⟨other, hother, htext', hselection⟩,
      (unfound_alone hL hother hbrought htext').mpr halone⟩
  have hown : ∀ query ∈
        splitQueriesOf L (load L db tables [other]).unfoundQueries,
      query ∈ splitQueriesOf L (load L db tables lines).unfoundQueries := by
    intro query hquery
    obtain ⟨text, htext, hfrom⟩ := mem_splitQueriesOf.mp hquery
    exact mem_splitQueriesOf.mpr ⟨text, hunfound text htext, hfrom⟩
  have hmine : ∀ query ∈ splitQueriesOf L [value],
      query ∈ splitQueriesOf L (load L db tables [other]).unfoundQueries := by
    intro query hquery
    obtain ⟨text, htext, hfrom⟩ := mem_splitQueriesOf.mp hquery
    rw [List.mem_singleton.mp htext] at hfrom
    exact mem_splitQueriesOf.mpr ⟨value, hvalue, hfrom⟩
  have hrows : ¬ BroughtRow L db tables
      (splitQueriesOf L (load L db tables lines).unfoundQueries)
      (splitQueriesOf L (load L db tables [other]).unfoundQueries) split.1
      .active :=
    fun hrow => hbrought
      ⟨value, hproduct, .inr ⟨split, hsplit, hrow.mono hmine⟩⟩
  have hasked : normalizeReferenceQuery L split.1 ∈
      splitQueriesOf L (load L db tables [other]).unfoundQueries :=
    mem_splitQueriesOf.mpr
      ⟨value, hvalue, split, hsplit, (normalize_split hL hsplit).symm⟩
  have hsame : SameCandidates tables split.1 (load L db tables lines).split
      (load L db tables [other]).split := by
    rw [load_split, load_split]
    exact ⟨candidatesForQuery_perm hL hrows hown hasked,
      fun _ hrow => mem_table_of_candidate hL hrow⟩
  obtain ⟨ids, hvariants, hids⟩ :=
    load_splitVariants db tables hL lines
  obtain ⟨ids', hvariants', hids'⟩ :=
    load_splitVariants db tables hL [other]
  refine splitHit_congr hsame fun product hproduct => ?_
  rw [hvariants, hvariants']
  exact loadVariantsForProducts_perm hL (hids _ product hproduct)
    (hids' _ product (hsame.perm.mem_iff.mp hproduct))

/-- What a text says on a line without a variant is said of every line with
the text. -/
theorem namedVariant_alone (hL : L.Lawful) {lines : List LineReferenceInput}
    {line other : LineReferenceInput} (hother : other ∈ lines)
    (hbrought : ¬ Brought L db tables lines other)
    (hsame : other.product = line.product)
    (hselection : isUnspecified (variantSelectionOf other) = true) :
    namedVariant L (load L db tables lines) line =
      namedVariant L (load L db tables [other]) other := by
  unfold namedVariant
  rw [hsame]
  cases hproduct : line.product with
  | id id => rfl
  | query value =>
      rw [hproduct] at hsame
      dsimp only
      have hunfound : value ∈ (load L db tables lines).unfoundQueries ↔
          value ∈ (load L db tables [other]).unfoundQueries := by
        rw [mem_unfoundQueries, mem_unfoundQueries,
          unfound_alone hL hother hbrought hsame]
        refine and_congr_left fun _ => iff_of_true
          ⟨other, hother, hsame, hselection⟩
          ⟨other, List.mem_singleton_self other, hsame, hselection⟩
      by_cases hvalue : value ∈ (load L db tables lines).unfoundQueries
      · have hvalue' := hunfound.mp hvalue
        rw [if_pos (List.contains_iff_mem.mpr hvalue),
          if_pos (List.contains_iff_mem.mpr hvalue')]
        exact resolveProductNamingItsVariant_congr fun split hsplit =>
          splitHit_alone hL hother hbrought hsame hvalue' hsplit
      · rw [if_neg (mt List.contains_iff_mem.mp hvalue),
          if_neg (mt List.contains_iff_mem.mp (mt hunfound.mpr hvalue))]

/-- On a line with a variant the words of the product say no variant, unless
another line has the text without one. -/
theorem namedVariant_of_none {lines : List LineReferenceInput}
    {line : LineReferenceInput}
    (h : ∀ other ∈ lines, other.product = line.product →
      isUnspecified (variantSelectionOf other) = false) :
    namedVariant L (load L db tables lines) line = none := by
  unfold namedVariant
  cases hproduct : line.product with
  | id id => rfl
  | query value =>
      dsimp only
      rw [if_neg]
      intro hvalue
      obtain ⟨⟨other, hother, hother', hselection⟩, -⟩ :=
        mem_unfoundQueries.mp (List.contains_iff_mem.mp hvalue)
      rw [h other hother (hother'.trans hproduct.symm)] at hselection
      exact Bool.noConfusion hselection

theorem id_mem_of_resolveProductRef {ids : List CodeUnits} {ref : EntityRef}
    {index : ℕ} {byId : Dict CodeUnits ProductCandidate}
    {active archived : ProductQueryCandidates} {product : ProductCandidate}
    (hbyId : ∀ id row, byId id = some row → row.id ∈ ids)
    (hactive : ∀ value, ∀ row ∈ candidatesForQuery L value active, row.id ∈ ids)
    (h : resolveProductRef L ref index byId active archived = .ok product) :
    product.id ∈ ids := by
  unfold resolveProductRef at h
  split at h
  next id =>
    split at h
    · cases h
    next row hrow =>
      split at h
      · cases h
        exact hbyId id product hrow
      · cases h
  next value =>
    split at h
    next row hpicked =>
      cases h
      refine hactive value product (mem_of_pickProduct ?_)
      rw [hpicked]
      exact List.mem_singleton_self product
    · cases h
    · split at h
      · cases h
      · cases h

theorem resolveLine_alone (hL : L.Lawful) {lines : List LineReferenceInput}
    {line : LineReferenceInput} (hline : line ∈ lines)
    (hbrought : ¬ Brought L db tables lines line) (index : ℕ) :
    resolveLine L (load L db tables lines) line index =
      (resolveLine L (load L db tables [line]) line 0).mapError
        (LineError.atLine index) := by
  have hproduct : resolveProductRef L line.product index
        (load L db tables lines).byId (load L db tables lines).active
        (load L db tables lines).archived =
      (resolveProductRef L line.product 0 (load L db tables [line]).byId
        (load L db tables [line]).active
        (load L db tables [line]).archived).mapError
          (LineError.atLine index) := by
    cases hproduct : line.product with
    | id id =>
        unfold resolveProductRef
        dsimp only
        rw [load_byId_alone hL hline hproduct]
        cases (load L db tables [line]).byId id with
        | none => rfl
        | some row =>
            dsimp only
            split <;> rfl
    | query value =>
        have hrows : ∀ status, ¬ BroughtRow L db tables
            (productQueriesOf L lines) [normalizeReferenceQuery L value] value
            status :=
          fun status hrow => hbrought ⟨value, hproduct, .inl ⟨status, hrow⟩⟩
        exact resolveProductRef_query hL index
          (sameCandidates hL hline hproduct (hrows .active))
          (sameCandidates hL hline hproduct (hrows .archived))
  unfold resolveLine
  rw [hproduct]
  cases halone : resolveProductRef L line.product 0
      (load L db tables [line]).byId (load L db tables [line]).active
      (load L db tables [line]).archived with
  | error error => rfl
  | ok product =>
      rw [halone] at hproduct
      obtain ⟨ids, hvariants, hbyId, hactive⟩ :=
        load_variants db tables hL lines
      obtain ⟨ids', hvariants', hbyId', hactive'⟩ :=
        load_variants db tables hL [line]
      have hid := id_mem_of_resolveProductRef hbyId hactive hproduct
      have hid' := id_mem_of_resolveProductRef hbyId' hactive' halone
      have hmem : ∀ row ∈ (load L db tables lines).variants,
          row ∈ tables.variants := by
        intro row hrow
        rw [hvariants] at hrow
        exact (mem_loadVariantsForProducts.mp hrow).1
      refine resolveLineVariant_perm hL line index product ?_ hmem
      rw [hvariants, hvariants']
      exact loadVariantsForProducts_perm hL hid hid'

end Reads

end Shozee.Catalog
