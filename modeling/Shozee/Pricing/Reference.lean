import Shozee.Pricing.Resolve
import Shozee.Run.Traverse

/-!
# The bulk resolution is a lookup for each item

`priceOf` looks one item up: it walks the levels and in each asks the rows
themselves, without a map. Since the keys of the tables are unique, what a map
has under a key is the one row with that key, in whatever order the rows came;
so the bulk resolution answers each item as if it were alone.
-/

namespace Shozee.Pricing

open Shozee.Run

/-! ## The reference

The price of an item, level by level, asked of the rows themselves. -/

/-- A personal price in the form that a level indexes. -/
def PersonalPrice.row (price : PersonalPrice) : PriceRow :=
  { id := price.id
    productId := price.productId
    variantId := price.variantId
    priceMinor := price.priceMinor
    currency := price.currency
    personalPriceId := some price.id
    priceListId := none }

/-- The rows of a level for an item: the variant's own one, or else the
product's. -/
def ownOrProduct (rows : List PriceRow) (item : ResolveItem) :
    Option PriceRow :=
  (item.variantId.bind fun variantId =>
    rows.find? fun row =>
      row.productId = item.productId && row.variantId = some variantId).or
    (rows.find? fun row =>
      row.productId = item.productId && row.variantId = none)

variable (tables : Tables) (companyId : Uuid)

/-- The personal prices of a customer. -/
def personalRows (customerId : Uuid) : List PriceRow :=
  (tables.personalPrices.filter fun price =>
    price.companyId = companyId && price.customerId = customerId).map
      PersonalPrice.row

/-- The entries of a price list, if it is an active list of the company. -/
def listRows (listId : Uuid) : List PriceRow :=
  if tables.priceLists.any fun list =>
      list.companyId = companyId && list.id = listId && list.isActive then
    (tables.priceListEntries.filter fun entry =>
      entry.companyId = companyId && entry.priceListId = listId).map
        PriceListEntry.row
  else []

/-- The entries of the company's default list. -/
def defaultRows : List PriceRow :=
  match tables.priceLists.find? fun list =>
      list.companyId = companyId && list.isDefault with
  | some list => listRows tables companyId list.id
  | none => []

/-- The personal prices of the customer, if the order has one. -/
def customerRows : Option CustomerPricingAssignment → List PriceRow
  | some customer => personalRows tables companyId customer.customerId
  | none => []

/-- The entries of an assigned list, if one is. -/
def assignedRows : Option Uuid → List PriceRow
  | some listId => listRows tables companyId listId
  | none => []

/-- The levels in their priority. -/
def levels (customer : Option CustomerPricingAssignment) :
    List (PriceSource × List PriceRow) :=
  [(.personal, customerRows tables companyId customer),
    (.customer_price_list,
      assignedRows tables companyId (customer.bind (·.priceListId))),
    (.group_price_list,
      assignedRows tables companyId (customer.bind (·.groupPriceListId))),
    (.default_price_list, defaultRows tables companyId)]

/-- The price of one item: that of the first level which has one, or else the
base price. -/
def priceOf (facts : PricingFacts) (item : ResolveItem) :
    Except InvariantError ResolvedPrice :=
  match facts.products.find? fun product =>
      product.productId = item.productId with
  | none =>
      .error ⟨"product missing from catalog facts after existence check"⟩
  | some product =>
      match (levels tables companyId facts.customer).findSome?
          fun (source, rows) => (ownOrProduct rows item).map fun row =>
            toResolvedPrice item row.hit source with
      | some price => .ok price
      | none =>
          (resolveBase product item).map fun hit =>
            toResolvedPrice item hit .base

/-! ## Maps of a level

A map has one row under a key, since the rows have distinct keys. -/

/-- No two rows are for the same product and variant. -/
def UniqueRows (rows : List PriceRow) : Prop :=
  ∀ a ∈ rows, ∀ b ∈ rows, a.productId = b.productId →
    a.variantId = b.variantId → a = b

theorem UniqueRows.only {rows : List PriceRow} (h : UniqueRows rows)
    (productId : Uuid) (variantId : Option Uuid) :
    Only (fun row => row.productId = productId && row.variantId = variantId)
      rows := by
  intro a ha b hb hpa hpb
  rw [Bool.and_eq_true, decide_eq_true_eq, decide_eq_true_eq] at hpa hpb
  exact h a ha b hb (hpa.1.trans hpb.1.symm) (hpa.2.trans hpb.2.symm)

/-- Rows that agree on the product have the same row for it. -/
theorem ownOrProduct_congr {rows rows' : List PriceRow} {item : ResolveItem}
    (h : UniqueRows rows) (hsame : ∀ row, row.productId = item.productId →
      (row ∈ rows' ↔ row ∈ rows)) :
    ownOrProduct rows' item = ownOrProduct rows item := by
  have hfind : ∀ variantId, (rows'.find? fun row =>
        row.productId = item.productId && row.variantId = variantId) =
      rows.find? fun row =>
        row.productId = item.productId && row.variantId = variantId := by
    intro variantId
    refine Only.find?_congr (h.only item.productId variantId) fun row hrow => ?_
    rw [Bool.and_eq_true, decide_eq_true_eq] at hrow
    exact hsame row hrow.1
  unfold ownOrProduct
  simp only [hfind]

theorem variantKey_inj {p p' v v' : Uuid} :
    variantKey p v = variantKey p' v' ↔ p = p' ∧ v = v' := by
  constructor
  · intro h
    unfold variantKey at h
    rw [String.ofList_inj] at h
    obtain ⟨hp, -, hv⟩ :=
      (List.append_cons_inj_of_notMem (p.notMem_text (by decide) (by decide))
        (v.notMem_text (by decide) (by decide))).mp h
    exact ⟨Uuid.ext_text hp, Uuid.ext_text hv⟩
  · intro ⟨hp, hv⟩
    rw [hp, hv]

theorem foldl_add_product (rows : List PriceRow) (index : LevelIndex) :
    (rows.foldl LevelIndex.add index).productHits =
      rows.foldl (fun m row => m.setSome
        (if row.variantId.isNone then some row.productId else none) row.hit)
        index.productHits := by
  induction rows generalizing index with
  | nil => rfl
  | cons row rows ih =>
      rw [List.foldl_cons, List.foldl_cons, ih]
      congr 1
      unfold LevelIndex.add
      cases row.variantId with
      | none => rfl
      | some variantId => rfl

theorem foldl_add_variant (rows : List PriceRow) (index : LevelIndex) :
    (rows.foldl LevelIndex.add index).variantHits =
      rows.foldl (fun m row => m.setSome
        (row.variantId.map (variantKey row.productId)) row.hit)
        index.variantHits := by
  induction rows generalizing index with
  | nil => rfl
  | cons row rows ih =>
      rw [List.foldl_cons, List.foldl_cons, ih]
      congr 1
      unfold LevelIndex.add
      cases row.variantId with
      | none => rfl
      | some variantId => rfl

/-- What a level has under a product. -/
theorem productHits_indexHits {rows : List PriceRow} (h : UniqueRows rows)
    (productId : Uuid) :
    (indexHits rows).productHits productId =
      (rows.find? fun row =>
        row.productId = productId && row.variantId = none).map
          PriceRow.hit := by
  unfold indexHits
  rw [foldl_add_product, Dict.foldl_set]
  dsimp only [Dict.empty]
  rw [Option.or_none]
  have hpred : (fun row : PriceRow => decide
        ((if row.variantId.isNone then some row.productId else none) =
          some productId)) =
      fun row => row.productId = productId && row.variantId = none := by
    funext row
    cases row.variantId with
    | none => simp
    | some variantId => simp
  rw [hpred, Only.find?_congr (h.only productId none) fun row _ =>
    List.mem_reverse]

/-- What a level has under a variant. -/
theorem variantHits_indexHits {rows : List PriceRow} (h : UniqueRows rows)
    (productId variantId : Uuid) :
    (indexHits rows).variantHits (variantKey productId variantId) =
      (rows.find? fun row =>
        row.productId = productId && row.variantId = some variantId).map
          PriceRow.hit := by
  unfold indexHits
  rw [foldl_add_variant, Dict.foldl_set]
  dsimp only [Dict.empty]
  rw [Option.or_none]
  have hpred : (fun row : PriceRow => decide
        (row.variantId.map (variantKey row.productId) =
          some (variantKey productId variantId))) =
      fun row => row.productId = productId &&
        row.variantId = some variantId := by
    funext row
    cases row.variantId with
    | none => simp
    | some own => simp [variantKey_inj]
  rw [hpred, Only.find?_congr (h.only productId (some variantId)) fun row _ =>
    List.mem_reverse]

/-- What the maps of a level have for an item. -/
theorem pickHit_indexHits {rows : List PriceRow} (h : UniqueRows rows)
    (item : ResolveItem) :
    pickHit (indexHits rows) item =
      (ownOrProduct rows item).map PriceRow.hit := by
  unfold pickHit ownOrProduct
  rw [productHits_indexHits h, Option.map_or]
  cases item.variantId with
  | none => rfl
  | some variantId =>
      dsimp only [Option.bind_some]
      rw [variantHits_indexHits h]
      cases rows.find? fun row => row.productId = item.productId &&
          row.variantId = some variantId with
      | none => rfl
      | some row => rfl

theorem UniqueRows.subset {rows rows' : List PriceRow} (h : UniqueRows rows)
    (hsub : ∀ row ∈ rows', row ∈ rows) : UniqueRows rows' :=
  fun a ha b hb => h a (hsub a ha) b (hsub b hb)

/-- A level loaded in part answers for the products it was loaded for. -/
theorem pickHit_of_loaded {rows loaded : List PriceRow} {item : ResolveItem}
    (h : UniqueRows rows) (hsub : ∀ row ∈ loaded, row ∈ rows)
    (hall : ∀ row ∈ rows, row.productId = item.productId → row ∈ loaded) :
    pickHit (indexHits loaded) item =
      (ownOrProduct rows item).map PriceRow.hit := by
  rw [pickHit_indexHits (h.subset hsub)]
  rw [ownOrProduct_congr h fun row hrow =>
    ⟨hsub row, fun hmem => hall row hmem hrow⟩]

/-! ## Personal prices

The personal level of the code is that of the reference. -/

theorem mem_uniqueIds (ids : List Uuid) (id : Uuid) :
    id ∈ uniqueIds ids ↔ id ∈ ids := by
  unfold uniqueIds
  rw [mem_foldl_unique]
  simp

theorem mem_personalRows {customerId : Uuid} {row : PriceRow} :
    row ∈ personalRows tables companyId customerId ↔
      ∃ price ∈ tables.personalPrices, price.companyId = companyId ∧
        price.customerId = customerId ∧ price.row = row := by
  unfold personalRows
  simp only [List.mem_map, List.mem_filter, Bool.and_eq_true,
    decide_eq_true_eq]
  constructor
  · intro ⟨price, ⟨hmem, hcompany, hcustomer⟩, hrow⟩
    exact ⟨price, hmem, hcompany, hcustomer, hrow⟩
  · intro ⟨price, hmem, hcompany, hcustomer, hrow⟩
    exact ⟨price, ⟨hmem, hcompany, hcustomer⟩, hrow⟩

theorem uniqueRows_personalRows (customerId : Uuid) :
    UniqueRows (personalRows tables companyId customerId) := by
  intro a ha b hb hproduct hvariant
  obtain ⟨price, hprice, -, hcustomer, rfl⟩ :=
    (mem_personalRows tables companyId).mp ha
  obtain ⟨other, hother, -, hcustomer', rfl⟩ :=
    (mem_personalRows tables companyId).mp hb
  rw [tables.personal_unique price hprice other hother
    (hcustomer.trans hcustomer'.symm) hproduct hvariant]

variable (rowOrder : RowOrder) {productIds : List Uuid} {item : ResolveItem}

/-- The personal level is the customer's personal prices. -/
theorem pickHit_loadPersonalHits (customerId : Uuid)
    (hitem : item.productId ∈ productIds) :
    pickHit (loadPersonalHits rowOrder tables companyId customerId productIds)
        item =
      (ownOrProduct (personalRows tables companyId customerId) item).map
        PriceRow.hit := by
  unfold loadPersonalHits
  refine pickHit_of_loaded (uniqueRows_personalRows tables companyId customerId)
    (fun row hrow => ?_) fun row hrow hproduct => ?_
  · obtain ⟨price, hprice, rfl⟩ := List.mem_map.mp hrow
    rw [rowOrder.mem_order, List.mem_filter] at hprice
    simp only [Bool.and_eq_true, decide_eq_true_eq] at hprice
    exact (mem_personalRows tables companyId).mpr
      ⟨price, hprice.1, hprice.2.1.1, hprice.2.1.2, rfl⟩
  · obtain ⟨price, hprice, hcompany, hcustomer, rfl⟩ :=
      (mem_personalRows tables companyId).mp hrow
    refine List.mem_map.mpr ⟨price, ?_, rfl⟩
    have hid : price.productId ∈ productIds := by
      have hsame : price.productId = item.productId := hproduct
      rw [hsame]
      exact hitem
    rw [rowOrder.mem_order, List.mem_filter]
    simp [hprice, hcompany, hcustomer, hid]

/-! ## Price lists

So is the level of a list, for each of the lists that were asked for. -/

/-- An entry of an active list of the company. -/
def PriceListEntry.Active (entry : PriceListEntry) (list : PriceList) : Prop :=
  entry ∈ tables.priceListEntries ∧ list ∈ tables.priceLists ∧
    entry.companyId = companyId ∧ list.companyId = companyId ∧
    entry.priceListId = list.id ∧ list.isActive = true

theorem mem_listRows {listId : Uuid} {row : PriceRow} :
    row ∈ listRows tables companyId listId ↔ ∃ entry list,
      PriceListEntry.Active tables companyId entry list ∧ list.id = listId ∧
        entry.row = row := by
  unfold listRows PriceListEntry.Active
  by_cases hany : (tables.priceLists.any fun list =>
      list.companyId = companyId && list.id = listId && list.isActive) = true
  · rw [if_pos hany]
    simp only [List.any_eq_true, Bool.and_eq_true, decide_eq_true_eq] at hany
    obtain ⟨list, hlist, ⟨hcompany, hid⟩, hactive⟩ := hany
    simp only [List.mem_map, List.mem_filter, Bool.and_eq_true,
      decide_eq_true_eq]
    constructor
    · intro ⟨entry, ⟨hentry, hc, hl⟩, hrow⟩
      exact ⟨entry, list,
        ⟨hentry, hlist, hc, hcompany, hl.trans hid.symm, hactive⟩, hid, hrow⟩
    · intro ⟨entry, own, ⟨hentry, _, hc, _, hl, _⟩, hown, hrow⟩
      exact ⟨entry, ⟨hentry, hc, hl.trans hown⟩, hrow⟩
  · rw [if_neg hany]
    constructor
    · intro hmem
      exact absurd hmem List.not_mem_nil
    · intro ⟨entry, list, ⟨_, hlist, _, hcompany, _, hactive⟩, hid, _⟩
      refine absurd ?_ hany
      rw [List.any_eq_true]
      exact ⟨list, hlist, by simp [hcompany, hid, hactive]⟩

theorem uniqueRows_listRows (listId : Uuid) :
    UniqueRows (listRows tables companyId listId) := by
  intro a ha b hb hproduct hvariant
  obtain ⟨entry, list, hentry, hid, rfl⟩ :=
    (mem_listRows tables companyId).mp ha
  obtain ⟨other, list', hother, hid', rfl⟩ :=
    (mem_listRows tables companyId).mp hb
  have hsame : entry.priceListId = other.priceListId := by
    rw [hentry.2.2.2.2.1, hother.2.2.2.2.1, hid, hid']
  rw [tables.entry_unique entry hentry.1 other hother.1 hsame hproduct hvariant]

theorem mem_activeListRows {listIds : List Uuid} {entry : PriceListEntry}
    {isDefault : Bool} :
    (entry, isDefault) ∈ activeListRows tables companyId productIds listIds ↔
      ∃ list, PriceListEntry.Active tables companyId entry list ∧
        (list.id ∈ listIds ∨ list.isDefault = true) ∧
        entry.productId ∈ productIds ∧ list.isDefault = isDefault := by
  unfold activeListRows PriceListEntry.Active
  simp only [List.mem_flatMap, List.mem_map, List.mem_filter,
    Bool.and_eq_true, Bool.or_eq_true, decide_eq_true_eq, Prod.mk.injEq]
  constructor
  · intro ⟨own, hown, list, ⟨hlist, ⟨hc, hid⟩, ⟨⟨hcompany, hactive⟩, hwhich⟩,
      hproduct⟩, hentry, hdefault⟩
    subst hentry
    rw [← hid] at hwhich
    exact ⟨list,
      ⟨hown, hlist, hcompany, hc.trans hcompany, hid.symm, hactive⟩, hwhich,
      hproduct, hdefault⟩
  · intro ⟨list, ⟨hentry, hlist, hcompany, hc, hid, hactive⟩, hwhich,
      hproduct, hdefault⟩
    rw [← hid] at hwhich
    exact ⟨entry, hentry, list, ⟨hlist, ⟨hc.trans hcompany.symm, hid.symm⟩,
      ⟨⟨hcompany, hactive⟩, hwhich⟩, hproduct⟩, rfl, hdefault⟩

/-- What the loop over the rows has put under each list. -/
theorem rowsByListId_foldl (rows : List (PriceListEntry × Bool))
    (collected : RowsByList) (listId : Uuid) :
    ((rows.foldl RowsByList.add collected).rowsByListId listId).getD [] =
      (collected.rowsByListId listId).getD [] ++
        (rows.filter fun row => row.1.priceListId = listId).map (·.1.row) := by
  have hproj : ∀ collected : RowsByList,
      (rows.foldl RowsByList.add collected).rowsByListId =
        rows.foldl (fun m row => m.set row.1.priceListId
          (((m row.1.priceListId).getD []) ++ [row.1.row]))
          collected.rowsByListId := by
    induction rows with
    | nil => exact fun _ => rfl
    | cons row rows ih => exact fun collected => ih (collected.add row)
  rw [hproj, Dict.foldl_push]

theorem defaultRows_foldl (rows : List (PriceListEntry × Bool))
    (collected : RowsByList) :
    (rows.foldl RowsByList.add collected).defaultRows =
      collected.defaultRows ++ (rows.filter (·.2)).map (·.1.row) := by
  induction rows generalizing collected with
  | nil => simp
  | cons row rows ih =>
      rw [List.foldl_cons, ih]
      unfold RowsByList.add
      by_cases hdefault : row.2 = true
      · simp [hdefault]
      · simp [hdefault]

/-- A list that was asked for is there with its own rows. -/
theorem byListId_loadActiveListHits {listIds : List Uuid} {listId : Uuid}
    (hlist : listId ∈ listIds) :
    (loadActiveListHits rowOrder tables companyId productIds listIds).byListId
        listId =
      some (indexHits (((rowOrder.order (activeListRows tables companyId
        productIds listIds)).filter fun row =>
          row.1.priceListId = listId).map (·.1.row))) := by
  unfold loadActiveListHits
  dsimp only
  rw [Dict.foldl_set_self _ _ _ hlist, rowsByListId_foldl]
  rfl

/-- A list level is the rows of its list. -/
theorem pickHit_list {listIds : List Uuid} {listId : Uuid}
    (hlist : listId ∈ listIds) (hitem : item.productId ∈ productIds) :
    (((loadActiveListHits rowOrder tables companyId productIds
        listIds).byListId listId).bind fun index => pickHit index item) =
      (ownOrProduct (listRows tables companyId listId) item).map
        PriceRow.hit := by
  rw [byListId_loadActiveListHits tables companyId rowOrder hlist,
    Option.bind_some]
  refine pickHit_of_loaded (uniqueRows_listRows tables companyId listId)
    (fun row hrow => ?_) fun row hrow hproduct => ?_
  · obtain ⟨⟨entry, isDefault⟩, hmem, rfl⟩ := List.mem_map.mp hrow
    rw [List.mem_filter, rowOrder.mem_order, mem_activeListRows,
      decide_eq_true_eq] at hmem
    obtain ⟨⟨list, hactive, -, -, -⟩, hid⟩ := hmem
    exact (mem_listRows tables companyId).mpr
      ⟨entry, list, hactive, hactive.2.2.2.2.1.symm.trans hid, rfl⟩
  · obtain ⟨entry, list, hactive, hid, rfl⟩ :=
      (mem_listRows tables companyId).mp hrow
    have hproductId : entry.productId ∈ productIds := by
      have hsame : entry.productId = item.productId := hproduct
      rw [hsame]
      exact hitem
    refine List.mem_map.mpr ⟨(entry, list.isDefault), ?_, rfl⟩
    rw [List.mem_filter, rowOrder.mem_order, mem_activeListRows,
      decide_eq_true_eq]
    refine ⟨⟨list, hactive, .inl ?_, hproductId, rfl⟩, ?_⟩
    · rw [hid]
      exact hlist
    · exact hactive.2.2.2.2.1.trans hid

theorem mem_defaultRows {row : PriceRow} :
    row ∈ defaultRows tables companyId ↔ ∃ entry list,
      PriceListEntry.Active tables companyId entry list ∧
        list.isDefault = true ∧ entry.row = row := by
  have honly : Only (fun list : PriceList =>
      list.companyId = companyId && list.isDefault) tables.priceLists := by
    intro a ha b hb hpa hpb
    rw [Bool.and_eq_true, decide_eq_true_eq] at hpa hpb
    exact tables.default_unique a ha b hb (hpa.1.trans hpb.1.symm) hpa.2 hpb.2
  unfold defaultRows
  cases hfind : tables.priceLists.find? fun list =>
      list.companyId = companyId && list.isDefault with
  | none =>
      constructor
      · intro hmem
        exact absurd hmem List.not_mem_nil
      · intro ⟨entry, list, ⟨_, hlist, _, hcompany, _, _⟩, hdefault, _⟩
        have hnone := List.find?_eq_none.mp hfind list hlist
        simp [hcompany, hdefault] at hnone
  | some own =>
      obtain ⟨hmem, hown⟩ := honly.find?_eq_some_iff.mp hfind
      rw [Bool.and_eq_true, decide_eq_true_eq] at hown
      dsimp only
      rw [mem_listRows]
      constructor
      · intro ⟨entry, list, hactive, hid, hrow⟩
        have hsame := tables.list_unique list hactive.2.1 own hmem hid
        refine ⟨entry, list, hactive, ?_, hrow⟩
        rw [hsame]
        exact hown.2
      · intro ⟨entry, list, hactive, hdefault, hrow⟩
        have hsame := honly list hactive.2.1 own hmem
          (by simp [hactive.2.2.2.1, hdefault]) (by simp [hown])
        exact ⟨entry, list, hactive, by rw [hsame], hrow⟩

theorem uniqueRows_defaultRows :
    UniqueRows (defaultRows tables companyId) := by
  unfold defaultRows
  cases tables.priceLists.find? fun list =>
      list.companyId = companyId && list.isDefault with
  | none => exact fun a ha => absurd ha List.not_mem_nil
  | some list => exact uniqueRows_listRows tables companyId list.id

/-- The default level is the rows of the default list. -/
theorem pickHit_default (listIds : List Uuid)
    (hitem : item.productId ∈ productIds) :
    pickHit (loadActiveListHits rowOrder tables companyId productIds
        listIds).defaultList item =
      (ownOrProduct (defaultRows tables companyId) item).map
        PriceRow.hit := by
  unfold loadActiveListHits
  dsimp only
  rw [defaultRows_foldl, List.nil_append]
  refine pickHit_of_loaded (uniqueRows_defaultRows tables companyId)
    (fun row hrow => ?_) fun row hrow hproduct => ?_
  · obtain ⟨⟨entry, isDefault⟩, hmem, rfl⟩ := List.mem_map.mp hrow
    rw [List.mem_filter, rowOrder.mem_order, mem_activeListRows] at hmem
    obtain ⟨⟨list, hactive, -, -, hlist⟩, hdefault⟩ := hmem
    exact (mem_defaultRows tables companyId).mpr
      ⟨entry, list, hactive, hlist.trans hdefault, rfl⟩
  · obtain ⟨entry, list, hactive, hdefault, rfl⟩ :=
      (mem_defaultRows tables companyId).mp hrow
    have hproductId : entry.productId ∈ productIds := by
      have hsame : entry.productId = item.productId := hproduct
      rw [hsame]
      exact hitem
    refine List.mem_map.mpr ⟨(entry, true), ?_, rfl⟩
    rw [List.mem_filter, rowOrder.mem_order, mem_activeListRows]
    exact ⟨⟨list, hactive, .inr hdefault, hproductId, hdefault⟩, rfl⟩

/-! ## The resolution

The five levels together, and all items together. -/

theorem productById_eq (facts : PricingFacts) (productId : Uuid) :
    facts.products.foldl (fun (byId : Dict Uuid CatalogProductFact) product =>
        byId.set product.productId product) Dict.empty productId =
      facts.products.find? fun product => product.productId = productId := by
  have hfold := Dict.foldl_set (fun product : CatalogProductFact =>
    some product.productId) id facts.products Dict.empty productId
  dsimp only [Dict.setSome, id, Dict.empty] at hfold
  have honly : Only (fun product : CatalogProductFact =>
      decide (product.productId = productId)) facts.products := by
    intro a ha b hb hpa hpb
    rw [decide_eq_true_eq] at hpa hpb
    exact facts.product_unique a ha b hb (hpa.trans hpb.symm)
  simp only [Option.some.injEq] at hfold
  rw [hfold, Option.map_id, id, Option.or_none,
    Only.find?_congr honly fun _ _ => List.mem_reverse]

/-- The level of a list that the customer may have been given. -/
theorem pickHit_assigned {listIds : List Uuid} {listId : Option Uuid}
    (hlist : ∀ id, listId = some id → id ∈ listIds)
    (hitem : item.productId ∈ productIds) :
    ((listId.bind (loadActiveListHits rowOrder tables companyId productIds
        listIds).byListId).bind fun index => pickHit index item) =
      (ownOrProduct (assignedRows tables companyId listId) item).map
        PriceRow.hit := by
  cases listId with
  | none =>
      unfold ownOrProduct
      cases item.variantId with
      | none => rfl
      | some variantId => rfl
  | some listId =>
      exact pickHit_list tables companyId rowOrder (hlist listId rfl) hitem

/-- The personal level of a customer that the order may have. -/
theorem pickHit_personal (customer : Option CustomerPricingAssignment)
    (hitem : item.productId ∈ productIds) :
    ((customer.map fun customer => loadPersonalHits rowOrder tables companyId
        customer.customerId productIds).bind fun index =>
          pickHit index item) =
      (ownOrProduct (customerRows tables companyId customer) item).map
        PriceRow.hit := by
  cases customer with
  | none =>
      unfold ownOrProduct
      cases item.variantId with
      | none => rfl
      | some variantId => rfl
  | some customer =>
      exact pickHit_loadPersonalHits tables companyId rowOrder
        customer.customerId hitem

theorem mem_listIds {customer group : Option Uuid} {listId : Uuid}
    (h : customer = some listId ∨ group = some listId) :
    listId ∈ uniqueIds ([customer, group].filterMap id) := by
  rw [mem_uniqueIds, List.mem_filterMap]
  rcases h with h | h
  · exact ⟨customer, by simp, h⟩
  · exact ⟨group, by simp, h⟩

theorem resolve_eq_mapM (items : List ResolveItem) (facts : PricingFacts) :
    resolveProductPricesForCompany rowOrder tables companyId items facts =
      items.mapM (priceOf tables companyId facts) := by
  unfold resolveProductPricesForCompany
  dsimp only
  refine mapM_congr_mem fun item hmem => ?_
  have hitem : item.productId ∈ uniqueIds (items.map (·.productId)) := by
    rw [mem_uniqueIds]
    exact List.mem_map_of_mem hmem
  unfold priceOf levels
  rw [productById_eq, pickHit_personal tables companyId rowOrder _ hitem,
    pickHit_assigned tables companyId rowOrder
      (fun id h => mem_listIds (.inl h)) hitem,
    pickHit_assigned tables companyId rowOrder
      (fun id h => mem_listIds (.inr h)) hitem,
    pickHit_default tables companyId rowOrder _ hitem]
  cases facts.products.find? fun product =>
      product.productId = item.productId with
  | none => rfl
  | some product =>
      simp only [List.findSome?_cons, List.findSome?_nil]
      cases ownOrProduct (customerRows tables companyId facts.customer)
          item with
      | some row => rfl
      | none =>
      cases ownOrProduct (assignedRows tables companyId
          (facts.customer.bind (·.priceListId))) item with
      | some row => rfl
      | none =>
      cases ownOrProduct (assignedRows tables companyId
          (facts.customer.bind (·.groupPriceListId))) item with
      | some row => rfl
      | none =>
      cases ownOrProduct (defaultRows tables companyId) item with
      | some row => rfl
      | none =>
      cases resolveBase product item with
      | error error => rfl
      | ok hit => rfl

/-! ## Repeats and orders

An item is answered by itself, whatever else is asked and in whatever order the
rows come. -/

/-- The same rows, in any order. -/
structure SameRows (a b : Tables) : Prop where
  priceLists : ∀ list, list ∈ a.priceLists ↔ list ∈ b.priceLists
  priceListEntries :
    ∀ entry, entry ∈ a.priceListEntries ↔ entry ∈ b.priceListEntries
  personalPrices :
    ∀ price, price ∈ a.personalPrices ↔ price ∈ b.personalPrices

/-- The same customer and the same product facts, in any order. -/
structure SameFacts (a b : PricingFacts) : Prop where
  customer : a.customer = b.customer
  products : ∀ product, product ∈ a.products ↔ product ∈ b.products

variable {tables companyId} {tables' : Tables} (hrows : SameRows tables tables')

include hrows

theorem SameRows.listRows_iff (listId : Uuid) (row : PriceRow) :
    row ∈ listRows tables companyId listId ↔
      row ∈ listRows tables' companyId listId := by
  simp only [mem_listRows, PriceListEntry.Active, hrows.priceListEntries,
    hrows.priceLists]

theorem SameRows.customer_eq (customer : Option CustomerPricingAssignment)
    (item : ResolveItem) :
    ownOrProduct (customerRows tables companyId customer) item =
      ownOrProduct (customerRows tables' companyId customer) item := by
  cases customer with
  | none => rfl
  | some customer =>
      refine ownOrProduct_congr (uniqueRows_personalRows tables' companyId
        customer.customerId) fun row _ => ?_
      simp only [mem_personalRows, customerRows, hrows.personalPrices]

theorem SameRows.assigned_eq (listId : Option Uuid) (item : ResolveItem) :
    ownOrProduct (assignedRows tables companyId listId) item =
      ownOrProduct (assignedRows tables' companyId listId) item := by
  cases listId with
  | none => rfl
  | some listId =>
      exact ownOrProduct_congr (uniqueRows_listRows tables' companyId listId)
        fun row _ => hrows.listRows_iff listId row

theorem SameRows.default_eq (item : ResolveItem) :
    ownOrProduct (defaultRows tables companyId) item =
      ownOrProduct (defaultRows tables' companyId) item := by
  refine ownOrProduct_congr (uniqueRows_defaultRows tables' companyId)
    fun row _ => ?_
  simp only [mem_defaultRows, PriceListEntry.Active, hrows.priceListEntries,
    hrows.priceLists]

/-- What an item costs depends on which rows there are, not on their order. -/
theorem SameRows.priceOf_eq {facts facts' : PricingFacts}
    (hfacts : SameFacts facts facts') (item : ResolveItem) :
    priceOf tables companyId facts item =
      priceOf tables' companyId facts' item := by
  have honly : Only (fun product : CatalogProductFact =>
      decide (product.productId = item.productId)) facts'.products := by
    intro a ha b hb hpa hpb
    rw [decide_eq_true_eq] at hpa hpb
    exact facts'.product_unique a ha b hb (hpa.trans hpb.symm)
  unfold priceOf levels
  rw [Only.find?_congr honly fun product _ => hfacts.products product]
  simp only [List.findSome?_cons, List.findSome?_nil, hfacts.customer,
    hrows.customer_eq, hrows.assigned_eq, hrows.default_eq]

omit hrows

variable (tables companyId)

/-- The bulk resolution is the lookup of each item by itself; so whatever else
is asked for and in whatever order items and rows come, an item has the same
price from the same source. -/
theorem resolveProductPricesForCompany_answers (items : List ResolveItem)
    (facts : PricingFacts) :
    resolveProductPricesForCompany rowOrder tables companyId items facts =
        items.mapM (priceOf tables companyId facts) ∧
      ∀ rowOrder' tables' items' facts' prices prices',
        SameRows tables tables' → SameFacts facts facts' →
        resolveProductPricesForCompany rowOrder tables companyId items facts =
          .ok prices →
        resolveProductPricesForCompany rowOrder' tables' companyId items'
            facts' = .ok prices' →
        ∀ (i j : ℕ) (item : ResolveItem), items[i]? = some item →
          items'[j]? = some item →
          ∃ price, prices[i]? = some price ∧ prices'[j]? = some price := by
  refine ⟨resolve_eq_mapM tables companyId rowOrder items facts, ?_⟩
  intro rowOrder' tables' items' facts' prices prices' hrows hfacts hprices
    hprices' i j item hi hj
  rw [resolve_eq_mapM] at hprices hprices'
  obtain ⟨price, hprice, hok⟩ := getElem?_of_mapM hprices hi
  obtain ⟨price', hprice', hok'⟩ := getElem?_of_mapM hprices' hj
  rw [hrows.priceOf_eq hfacts, hok', Except.ok.injEq] at hok
  exact ⟨price, hprice, hok ▸ hprice'⟩

/-! ## A shop

A customer with a personal price, a list and a default. -/

/-- A company. -/
def shop : Uuid := ⟨"00000000-0000-4000-8000-000000000001", by decide +kernel⟩

/-- A product. -/
def flour : Uuid := ⟨"00000000-0000-4000-8000-000000000002", by decide +kernel⟩

/-- A variant of it. -/
def coarse : Uuid := ⟨"00000000-0000-4000-8000-000000000003", by decide +kernel⟩

/-- A price list. -/
def wholesale : Uuid :=
  ⟨"00000000-0000-4000-8000-000000000004", by decide +kernel⟩

/-- A customer. -/
def anna : Uuid := ⟨"00000000-0000-4000-8000-000000000005", by decide +kernel⟩

/-- Anna buys by the wholesale list, which has the coarse flour dearer, and
has a price of her own on flour of any kind. -/
def shopTables : Tables where
  priceLists := [⟨wholesale, shop, true, false⟩]
  priceListEntries :=
    [⟨coarse, shop, wholesale, flour, none, 900, "UAH"⟩,
      ⟨anna, shop, wholesale, flour, some coarse, 950, "UAH"⟩]
  personalPrices := [⟨shop, shop, anna, flour, none, 800, "UAH"⟩]
  list_unique := by decide +kernel
  default_unique := by decide +kernel
  entry_unique := by decide +kernel
  personal_unique := by decide +kernel

/-- What the catalog says of the product, for a customer or none. -/
def shopFacts (customer : Option CustomerPricingAssignment) : PricingFacts where
  products := [⟨flour, 1000, "UAH", [⟨coarse, none, none⟩]⟩]
  customer
  product_unique := by decide +kernel

example :
    resolveProductPricesForCompany asStored shopTables shop
        [⟨flour, some coarse⟩, ⟨flour, none⟩]
        (shopFacts (some ⟨wholesale, some wholesale, none⟩)) =
      .ok [⟨flour, some coarse, 950, "UAH", .customer_price_list, .variant,
          ⟨none, some wholesale, some anna⟩, 1⟩,
        ⟨flour, none, 900, "UAH", .customer_price_list, .product,
          ⟨none, some wholesale, some coarse⟩, 1⟩] := by
  rfl

/-- The personal price of the product comes before the list's price of the
variant. -/
theorem resolveProductPricesForCompany_answers_shop :
    ∃ price : ResolvedPrice,
      [(⟨flour, some coarse, 800, "UAH", .personal, .product,
          ⟨some shop, none, none⟩, 1⟩ : ResolvedPrice)][0]? = some price ∧
        [(⟨flour, none, 800, "UAH", .personal, .product,
            ⟨some shop, none, none⟩, 1⟩ : ResolvedPrice),
          ⟨flour, some coarse, 800, "UAH", .personal, .product,
            ⟨some shop, none, none⟩, 1⟩][1]? = some price :=
  (resolveProductPricesForCompany_answers shopTables shop asStored
    [⟨flour, some coarse⟩] (shopFacts (some ⟨anna, some wholesale, none⟩))).2
      lastFirst shopTables [⟨flour, none⟩, ⟨flour, some coarse⟩]
      (shopFacts (some ⟨anna, some wholesale, none⟩)) _ _
      ⟨fun _ => Iff.rfl, fun _ => Iff.rfl, fun _ => Iff.rfl⟩
      ⟨rfl, fun _ => Iff.rfl⟩ rfl rfl 0 1 ⟨flour, some coarse⟩ rfl rfl

end Shozee.Pricing
