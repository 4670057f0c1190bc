import Mathlib.Data.List.Pairwise
import Shozee.Catalog.LineReferences

/-!
# Candidates of a text

What the reads of a batch make of one of its texts. The rows of a statement
come in no order that is asked for, and a statement is over all the texts of
the batch, so a text's candidates are compared as the rows that are among them
(`mem_candidatesForQuery`). They are those of the text alone as long as no
other text brings it a row (`candidatesForQuery_perm`).
-/

namespace Shozee.Catalog

open Shozee.Run Shozee.Validation

/-! ## Rows of the tables

The rows of a table have distinct ids, so merging them by id loses none. -/

section Tables

variable {L : Language} {tables : Tables L}

theorem eq_of_apart {α : Type} {id : α → CodeUnits} (hL : L.Lawful)
    {rows : List α}
    (h : rows.Pairwise fun row other =>
      L.localeCompare (id row) (id other) ≠ .eq)
    {row other : α} (hrow : row ∈ rows) (hother : other ∈ rows)
    (hid : L.localeCompare (id row) (id other) = .eq) : row = other := by
  have := hL.ordered
  have : Std.Symm fun row other =>
      L.localeCompare (id row) (id other) ≠ .eq :=
    ⟨fun row other hne heq => hne (Std.OrientedCmp.eq_symm heq)⟩
  by_contra hne
  exact h.forall hrow hother hne hid

theorem nodup_of_apart {α : Type} {id : α → CodeUnits} (hL : L.Lawful)
    {rows : List α}
    (h : rows.Pairwise fun row other =>
      L.localeCompare (id row) (id other) ≠ .eq) : rows.Nodup := by
  have := hL.ordered
  refine h.imp fun hne heq => hne ?_
  rw [heq]
  exact Std.ReflCmp.compare_self

theorem setRow_of_mem (hL : L.Lawful) {rows : List ProductCandidate}
    {row : ProductCandidate} (hrows : ∀ old ∈ rows, old ∈ tables.products)
    (hrow : row ∈ tables.products) :
    setRow rows row = if row ∈ rows then rows else rows ++ [row] := by
  have := hL.ordered
  have hsame : ∀ old ∈ rows, old.id = row.id → old = row := by
    intro old hold hid
    refine eq_of_apart hL tables.product_ids (hrows old hold) hrow ?_
    rw [hid]
    exact Std.ReflCmp.compare_self
  unfold setRow
  by_cases hmem : row ∈ rows
  · rw [if_pos hmem, if_pos (List.any_eq_true.mpr
      ⟨row, hmem, decide_eq_true rfl⟩)]
    conv_rhs => rw [← List.map_id rows]
    refine List.map_congr_left fun old hold => ?_
    by_cases hid : old.id = row.id
    · rw [if_pos hid, hsame old hold hid]
      rfl
    · rw [if_neg hid]
      rfl
  · rw [if_neg hmem, if_neg]
    intro hany
    obtain ⟨old, hold, hid⟩ := List.any_eq_true.mp hany
    exact hmem (hsame old hold (of_decide_eq_true hid) ▸ hold)

theorem mergeProductCandidates_eq (hL : L.Lawful)
    {primary extra : List ProductCandidate}
    (hprimary : ∀ row ∈ primary, row ∈ tables.products)
    (hextra : ∀ row ∈ extra, row ∈ tables.products) :
    mergeProductCandidates primary extra =
      (primary ++ extra).foldl
        (fun seen row => if row ∈ seen then seen else seen ++ [row]) [] := by
  have hall : ∀ row ∈ primary ++ extra, row ∈ tables.products := fun row h =>
    (List.mem_append.mp h).elim (hprimary row) (hextra row)
  -- what is set so far are rows of the table
  suffices h : ∀ (rest seen : List ProductCandidate),
      (∀ row ∈ rest, row ∈ tables.products) →
      (∀ row ∈ seen, row ∈ tables.products) →
      rest.foldl setRow seen = rest.foldl
        (fun seen row => if row ∈ seen then seen else seen ++ [row]) seen from
    h _ [] hall (fun row hrow => absurd hrow List.not_mem_nil)
  intro rest
  induction rest with
  | nil => exact fun seen _ _ => rfl
  | cons row rest ih =>
      intro seen hrest hseen
      have hrow := hrest row List.mem_cons_self
      rw [List.foldl_cons, List.foldl_cons, setRow_of_mem hL hseen hrow]
      refine ih _ (fun row h => hrest row (List.mem_cons_of_mem _ h)) ?_
      intro old hold
      split at hold
      · exact hseen old hold
      · rcases List.mem_append.mp hold with hold | hold
        · exact hseen old hold
        · rw [List.mem_singleton.mp hold]
          exact hrow

theorem mem_mergeProductCandidates (hL : L.Lawful)
    {primary extra : List ProductCandidate}
    (hprimary : ∀ row ∈ primary, row ∈ tables.products)
    (hextra : ∀ row ∈ extra, row ∈ tables.products)
    {row : ProductCandidate} :
    row ∈ mergeProductCandidates primary extra ↔
      row ∈ primary ∨ row ∈ extra := by
  rw [mergeProductCandidates_eq hL hprimary hextra, mem_foldl_unique,
    List.mem_append]
  simp

theorem nodup_mergeProductCandidates (hL : L.Lawful)
    {primary extra : List ProductCandidate}
    (hprimary : ∀ row ∈ primary, row ∈ tables.products)
    (hextra : ∀ row ∈ extra, row ∈ tables.products) :
    (mergeProductCandidates primary extra).Nodup := by
  rw [mergeProductCandidates_eq hL hprimary hextra]
  exact nodup_foldl_unique _ List.nodup_nil

/-! ## Options in order

The comparators put different rows in one order, so options do not depend on
the order of the rows. -/

theorem transCmp_on {α β : Type} {cmp : β → β → Ordering}
    (h : Std.TransCmp cmp) (f : α → β) :
    Std.TransCmp fun a b => cmp (f a) (f b) where
  eq_swap := h.eq_swap
  isLE_trans := h.isLE_trans

theorem transCmp_then {α : Type} {cmp cmp' : α → α → Ordering}
    (h : Std.TransCmp cmp) (h' : Std.TransCmp cmp') :
    Std.TransCmp fun a b => (cmp a b).then (cmp' a b) :=
  inferInstanceAs (Std.TransCmp (compareLex cmp cmp'))

theorem transCmp_compareProductNameThenId (hL : L.Lawful) :
    Std.TransCmp (compareProductNameThenId L) :=
  transCmp_then
    (transCmp_then (transCmp_on hL.ordered ProductCandidate.name)
      (transCmp_on hL.ordered ProductCandidate.currency))
    (transCmp_on hL.ordered ProductCandidate.id)

theorem transCmp_compareLabelThenId (hL : L.Lawful) :
    Std.TransCmp (compareLabelThenId L) :=
  transCmp_then (transCmp_on hL.ordered LookupOption.label)
    (transCmp_on hL.ordered LookupOption.id)

theorem pickerFromProducts_perm (hL : L.Lawful)
    {rows rows' : List ProductCandidate} (h : rows.Perm rows')
    (hrows : ∀ row ∈ rows, row ∈ tables.products) :
    pickerFromProducts L rows = pickerFromProducts L rows' := by
  have := transCmp_compareProductNameThenId hL
  have hsorted : rows.mergeSort (fun left right =>
        (compareProductNameThenId L left right).isLE) =
      rows'.mergeSort fun left right =>
        (compareProductNameThenId L left right).isLE :=
    mergeSort_congr h fun row hrow other hother heq =>
      eq_of_apart hL tables.product_ids (hrows row hrow) (hrows other hother)
        (Ordering.then_eq_eq.mp heq).2
  unfold pickerFromProducts productCandidateOptions
  rw [hsorted]

theorem pickerFromVariants_perm (hL : L.Lawful)
    {rows rows' : List VariantCandidate} (h : rows.Perm rows')
    (hrows : ∀ row ∈ rows, row ∈ tables.variants) :
    pickerFromVariants L rows = pickerFromVariants L rows' := by
  have := transCmp_compareLabelThenId hL
  have hsorted : ((rows.map fun row =>
        (⟨row.id, row.name⟩ : LookupOption)).mergeSort fun left right =>
        (compareLabelThenId L left right).isLE) =
      (rows'.map fun row => ⟨row.id, row.name⟩).mergeSort fun left right =>
        (compareLabelThenId L left right).isLE := by
    refine mergeSort_congr (h.map _) fun option hoption other hother heq => ?_
    obtain ⟨row, hrow, rfl⟩ := List.mem_map.mp hoption
    obtain ⟨row', hrow', rfl⟩ := List.mem_map.mp hother
    rw [eq_of_apart hL tables.variant_ids (hrows row hrow)
      (hrows row' hrow') (Ordering.then_eq_eq.mp heq).2]
  unfold pickerFromVariants entityLookupPicker
  rw [hsorted]

end Tables

/-! ## What is loaded for a text

By its exact name, and by the search if no exact name is found. -/

section Load

variable (L : Language) (db : Database) (tables : Tables L)

/-- The statement by exact name loads the row for the text. -/
def Loads (query : CodeUnits) (row : ProductCandidate) : Prop :=
  ∃ literal,
    sanitizeLikeLiteral (normalizeReferenceQuery L query) = some literal ∧
      db.ilike row.name literal = true

/-- The search by name finds the row for the text. -/
def Finds (query : CodeUnits) (status : Status) (row : ProductCandidate) :
    Prop :=
  ∃ search, db.referenceNameSearch query = some search ∧
    row ∈ searchRows L db tables search status

variable {L db tables}

theorem mem_loadProductsByExactQuery {queries : List CodeUnits}
    {status : Status} {row : ProductCandidate} :
    row ∈ loadProductsByExactQuery L db tables queries status ↔
      row ∈ tables.products ∧ row.status = status ∧
        ∃ query ∈ queries, Loads L db query row := by
  unfold loadProductsByExactQuery
  dsimp only
  split
  next hnone =>
    refine iff_of_false List.not_mem_nil ?_
    rintro ⟨-, -, query, hquery, literal, hliteral, -⟩
    rw [List.filterMap_eq_nil_iff.mp hnone query hquery] at hliteral
    exact absurd hliteral (Option.some_ne_none literal).symm
  next =>
    rw [RowOrder.mem_order, List.mem_filter, Bool.and_eq_true,
      decide_eq_true_eq, List.any_eq_true]
    refine and_congr_right fun _ => and_congr_right fun _ => ?_
    constructor
    · rintro ⟨literal, hmem, hilike⟩
      obtain ⟨query, hquery, hliteral⟩ := List.mem_filterMap.mp hmem
      exact ⟨query, hquery, literal, hliteral, hilike⟩
    · rintro ⟨query, hquery, literal, hliteral, hilike⟩
      exact ⟨literal, List.mem_filterMap.mpr ⟨query, hquery, hliteral⟩, hilike⟩

theorem mem_of_mem_searchRows {search : NameSearch} {status : Status}
    {row : ProductCandidate} (h : row ∈ searchRows L db tables search status) :
    row ∈ tables.products ∧ row.status = status := by
  have h := (List.mergeSort_perm _ _).mem_iff.mp (List.mem_of_mem_take h)
  obtain ⟨hmem, hrow⟩ := List.mem_filter.mp h
  exact ⟨hmem, of_decide_eq_true (Bool.and_eq_true_iff.mp hrow).1⟩

/-- A loop that puts rows under the texts at their indexes. -/
theorem mem_foldl_byQuery (queries : List CodeUnits)
    (rows : List (ℕ × ProductCandidate))
    (byQuery : Dict CodeUnits (List ProductCandidate)) (key : CodeUnits)
    (row : ProductCandidate) :
    row ∈ ((rows.foldl (fun byQuery entry =>
        match queries[entry.1]? with
        | none => byQuery
        | some query =>
            byQuery.set query (((byQuery query).getD []) ++ [entry.2]))
              byQuery) key).getD [] ↔
      row ∈ (byQuery key).getD [] ∨
        ∃ index, (index, row) ∈ rows ∧ queries[index]? = some key := by
  induction rows generalizing byQuery with
  | nil => simp
  | cons entry rows ih =>
      obtain ⟨at', found⟩ := entry
      rw [List.foldl_cons, ih]
      dsimp only
      cases hquery : queries[at']? with
      | none =>
          dsimp only
          refine or_congr_right ⟨?_, ?_⟩
          · rintro ⟨index, hmem, hindex⟩
            exact ⟨index, List.mem_cons_of_mem _ hmem, hindex⟩
          · rintro ⟨index, hmem, hindex⟩
            rcases List.mem_cons.mp hmem with heq | hmem
            · rw [(Prod.mk.inj heq).1, hquery] at hindex
              exact absurd hindex (Option.some_ne_none key).symm
            · exact ⟨index, hmem, hindex⟩
      | some query =>
          dsimp only
          rw [Dict.set_apply]
          by_cases hkey : key = query
          · rw [if_pos hkey, Option.getD_some, List.mem_append,
              List.mem_singleton, or_assoc, hkey]
            refine or_congr_right ⟨?_, ?_⟩
            · rintro (rfl | ⟨index, hmem, hindex⟩)
              · exact ⟨at', List.mem_cons_self, hquery⟩
              · exact ⟨index, List.mem_cons_of_mem _ hmem, hindex⟩
            · rintro ⟨index, hmem, hindex⟩
              rcases List.mem_cons.mp hmem with heq | hmem
              · exact .inl (Prod.mk.inj heq).2
              · exact .inr ⟨index, hmem, hindex⟩
          · rw [if_neg hkey]
            refine or_congr_right ⟨?_, ?_⟩
            · rintro ⟨index, hmem, hindex⟩
              exact ⟨index, List.mem_cons_of_mem _ hmem, hindex⟩
            · rintro ⟨index, hmem, hindex⟩
              rcases List.mem_cons.mp hmem with heq | hmem
              · rw [(Prod.mk.inj heq).1, hquery] at hindex
                exact absurd (Option.some.inj hindex).symm hkey
              · exact ⟨index, hmem, hindex⟩

theorem mem_loadProductsByNameSearch {queries : List CodeUnits}
    {status : Status} {key : CodeUnits} {row : ProductCandidate} :
    row ∈ ((loadProductsByNameSearch L db tables queries status) key).getD [] ↔
      key ∈ queries ∧ Finds L db tables key status row := by
  refine (mem_foldl_byQuery queries _ Dict.empty key row).trans ?_
  have hempty : row ∉ ((Dict.empty : Dict CodeUnits
      (List ProductCandidate)) key).getD [] := List.not_mem_nil
  rw [or_iff_right hempty]
  constructor
  · rintro ⟨index, hmem, hindex⟩
    rw [RowOrder.mem_order, List.mem_flatMap] at hmem
    obtain ⟨⟨query, index'⟩, hzip, hmem⟩ := hmem
    dsimp only at hmem
    split at hmem
    · exact absurd hmem List.not_mem_nil
    next search hsearch =>
      obtain ⟨row', hrow, heq⟩ := List.mem_map.mp hmem
      obtain ⟨rfl, rfl⟩ := Prod.mk.inj heq
      rw [List.mem_zipIdx_iff_getElem?] at hzip
      rw [hzip] at hindex
      rw [← Option.some.inj hindex]
      exact ⟨List.mem_of_getElem? hzip, search, hsearch, hrow⟩
  · rintro ⟨hkey, search, hsearch, hrow⟩
    obtain ⟨index, hindex⟩ := List.mem_iff_getElem?.mp hkey
    refine ⟨index, ?_, hindex⟩
    rw [RowOrder.mem_order, List.mem_flatMap]
    refine ⟨(key, index), List.mem_zipIdx_iff_getElem?.mpr hindex, ?_⟩
    dsimp only
    rw [hsearch]
    exact List.mem_map.mpr ⟨row, hrow, rfl⟩

theorem Finds.mem {query : CodeUnits} {status : Status}
    {row : ProductCandidate} (h : Finds L db tables query status row) :
    row ∈ tables.products ∧ row.status = status := by
  obtain ⟨search, -, hrow⟩ := h
  exact mem_of_mem_searchRows hrow

theorem mem_table_of_exact {queries : List CodeUnits} {status : Status}
    {row : ProductCandidate}
    (h : row ∈ (loadCandidates L db tables queries status).exact) :
    row ∈ tables.products :=
  (mem_loadProductsByExactQuery.mp h).1

theorem mem_table_of_byQuery {queries : List CodeUnits} {status : Status}
    {key : CodeUnits} {row : ProductCandidate}
    (h : row ∈ ((loadCandidates L db tables queries status).byQuery
      key).getD []) : row ∈ tables.products :=
  (mem_loadProductsByNameSearch.mp h).2.mem.1

/-! ## Candidates

The candidates of a text are the rows that were loaded for it, and the rows
with its name that were loaded for other texts. -/

variable (L db tables) in
/-- A row with the name of the text that one of the texts asked for loads,
while the text's own ones do not, and neither does its search. -/
def BroughtRow (queries own : List CodeUnits) (value : CodeUnits)
    (status : Status) : Prop :=
  ∃ row ∈ tables.products, row.status = status ∧
    normalizeUniqueMatchQuery L row.name =
      normalizeUniqueMatchQuery L value ∧
    (∃ query ∈ queries, Loads L db query row) ∧
    (∀ query ∈ own, ¬ Loads L db query row) ∧
    ¬ Finds L db tables (normalizeReferenceQuery L value) status row

theorem BroughtRow.mono {queries own own' : List CodeUnits}
    {value : CodeUnits} {status : Status}
    (h : BroughtRow L db tables queries own value status)
    (hown : ∀ query ∈ own', query ∈ own) :
    BroughtRow L db tables queries own' value status := by
  obtain ⟨row, hrow, hstatus, hname, hloads, hnot, hfinds⟩ := h
  exact ⟨row, hrow, hstatus, hname, hloads,
    fun query hquery => hnot query (hown query hquery), hfinds⟩

theorem mem_candidatesForQuery (hL : L.Lawful) {queries : List CodeUnits}
    {status : Status} {value : CodeUnits} {row : ProductCandidate} :
    row ∈ candidatesForQuery L value
        (loadCandidates L db tables queries status) ↔
      (row ∈ tables.products ∧ row.status = status ∧
        normalizeUniqueMatchQuery L row.name =
          normalizeUniqueMatchQuery L value ∧
        ∃ query ∈ queries, Loads L db query row) ∨
      (normalizeReferenceQuery L value ∈ queries ∧
        Finds L db tables (normalizeReferenceQuery L value) status row) := by
  unfold candidatesForQuery
  dsimp only
  rw [mem_mergeProductCandidates hL
    (fun row h => mem_table_of_exact (List.mem_filter.mp h).1)
    (fun row h => mem_table_of_byQuery h)]
  refine or_congr ?_ mem_loadProductsByNameSearch
  rw [List.mem_filter, decide_eq_true_eq]
  refine (and_congr_left' mem_loadProductsByExactQuery).trans ?_
  tauto

theorem mem_table_of_candidate (hL : L.Lawful) {queries : List CodeUnits}
    {status : Status} {value : CodeUnits} {row : ProductCandidate}
    (h : row ∈ candidatesForQuery L value
      (loadCandidates L db tables queries status)) : row ∈ tables.products := by
  rcases (mem_candidatesForQuery hL).mp h with h | h
  · exact h.1
  · exact h.2.mem.1

theorem nodup_candidatesForQuery (hL : L.Lawful) (queries : List CodeUnits)
    (status : Status) (value : CodeUnits) :
    (candidatesForQuery L value
      (loadCandidates L db tables queries status)).Nodup :=
  nodup_mergeProductCandidates hL
    (fun _ h => mem_table_of_exact (List.mem_filter.mp h).1)
    (fun _ h => mem_table_of_byQuery h)

theorem candidatesForQuery_perm (hL : L.Lawful)
    {queries own : List CodeUnits} {value : CodeUnits} {status : Status}
    (hbrought : ¬ BroughtRow L db tables queries own value status)
    (hown : ∀ query ∈ own, query ∈ queries)
    (hvalue : normalizeReferenceQuery L value ∈ own) :
    (candidatesForQuery L value
        (loadCandidates L db tables queries status)).Perm
      (candidatesForQuery L value
        (loadCandidates L db tables own status)) := by
  refine (List.perm_ext_iff_of_nodup (nodup_candidatesForQuery hL _ _ _)
    (nodup_candidatesForQuery hL _ _ _)).mpr fun row => ?_
  rw [mem_candidatesForQuery hL, mem_candidatesForQuery hL]
  constructor
  · rintro (⟨hrow, hstatus, hname, hloads⟩ | ⟨-, hfinds⟩)
    · by_cases hmine : ∃ query ∈ own, Loads L db query row
      · exact .inl ⟨hrow, hstatus, hname, hmine⟩
      · refine .inr ⟨hvalue, ?_⟩
        by_contra hfinds
        exact hbrought ⟨row, hrow, hstatus, hname, hloads,
          fun query hquery h => hmine ⟨query, hquery, h⟩, hfinds⟩
    · exact .inr ⟨hvalue, hfinds⟩
  · rintro (⟨hrow, hstatus, hname, other, hother, hloads⟩ | ⟨-, hfinds⟩)
    · exact .inl ⟨hrow, hstatus, hname, other, hown other hother, hloads⟩
    · exact .inr ⟨hown _ hvalue, hfinds⟩

/-! ## Variants

The variants of a product are loaded by its id, whatever else is loaded. -/

theorem mem_loadVariantsForProducts {productIds : List CodeUnits}
    {row : VariantCandidate} :
    row ∈ loadVariantsForProducts L db tables productIds ↔
      row ∈ tables.variants ∧ row.productId ∈ productIds := by
  unfold loadVariantsForProducts
  split
  next hnone => simp [hnone]
  next => rw [RowOrder.mem_order, List.mem_filter, List.contains_iff_mem]

theorem nodup_loadVariantsForProducts (hL : L.Lawful)
    (productIds : List CodeUnits) :
    (loadVariantsForProducts L db tables productIds).Nodup := by
  unfold loadVariantsForProducts
  split
  · exact List.nodup_nil
  · exact (db.rowOrder.perm_order _).nodup_iff.mpr
      ((nodup_of_apart hL tables.variant_ids).filter _)

/-- The variants of a product are loaded with it, whatever else is. -/
theorem loadVariantsForProducts_perm (hL : L.Lawful)
    {productIds productIds' : List CodeUnits} {productId : CodeUnits}
    (h : productId ∈ productIds) (h' : productId ∈ productIds') :
    ((loadVariantsForProducts L db tables productIds).filter fun row =>
        row.productId = productId).Perm
      ((loadVariantsForProducts L db tables productIds').filter fun row =>
        row.productId = productId) := by
  refine (List.perm_ext_iff_of_nodup
    ((nodup_loadVariantsForProducts hL _).filter _)
    ((nodup_loadVariantsForProducts hL _).filter _)).mpr fun row => ?_
  rw [List.mem_filter, List.mem_filter, mem_loadVariantsForProducts,
    mem_loadVariantsForProducts, decide_eq_true_eq]
  constructor
  · rintro ⟨⟨hrow, -⟩, rfl⟩
    exact ⟨⟨hrow, h'⟩, rfl⟩
  · rintro ⟨⟨hrow, -⟩, rfl⟩
    exact ⟨⟨hrow, h⟩, rfl⟩

end Load

end Shozee.Catalog
