import Mathlib.Data.Int.Notation
import Shozee.Run.Lookup
import Shozee.Run.Uuid

/-!
# Resolving prices in bulk

`resolveProductPricesForCompany` loads the personal prices of the customer
with one query and the entries of up to three price lists with another, folds
the rows into maps keyed by list, product and variant, and then walks five
levels for each item.

Ids are uuids in the form the database writes them, which is how they reach
this function: equal as rows are equal and equal as keys of a map is the same
thing then. In what order the database returns the rows of a query is
`RowOrder`.
-/

namespace Shozee.Pricing

open Shozee.Run

/-! ## Tables

The three tables and their unique keys. -/

/-- The columns of a price list that resolving reads. -/
structure PriceList where
  id : Uuid
  companyId : Uuid
  isActive : Bool
  isDefault : Bool
deriving DecidableEq

/-- A price in a list, of a product or of one variant of it. -/
structure PriceListEntry where
  id : Uuid
  companyId : Uuid
  priceListId : Uuid
  productId : Uuid
  variantId : Option Uuid
  priceMinor : ℤ
  currency : String
deriving DecidableEq

/-- A price of one customer. -/
structure PersonalPrice where
  id : Uuid
  companyId : Uuid
  customerId : Uuid
  productId : Uuid
  variantId : Option Uuid
  priceMinor : ℤ
  currency : String
deriving DecidableEq

/-- The tables of the module, with their unique keys. -/
structure Tables where
  priceLists : List PriceList
  priceListEntries : List PriceListEntry
  personalPrices : List PersonalPrice
  list_unique : ∀ a ∈ priceLists, ∀ b ∈ priceLists, a.id = b.id → a = b
  default_unique : ∀ a ∈ priceLists, ∀ b ∈ priceLists,
    a.companyId = b.companyId → a.isDefault = true → b.isDefault = true → a = b
  entry_unique : ∀ a ∈ priceListEntries, ∀ b ∈ priceListEntries,
    a.priceListId = b.priceListId → a.productId = b.productId →
      a.variantId = b.variantId → a = b
  personal_unique : ∀ a ∈ personalPrices, ∀ b ∈ personalPrices,
    a.customerId = b.customerId → a.productId = b.productId →
      a.variantId = b.variantId → a = b

/-! ## Facts

What the two other modules have answered. -/

/-- What a price is asked for. -/
structure ResolveItem where
  productId : Uuid
  variantId : Option Uuid
deriving DecidableEq

/-- What the catalog says of a variant; it may have no price of its own. -/
structure CatalogVariantFact where
  variantId : Uuid
  basePriceMinor : Option ℤ
  currency : Option String
deriving DecidableEq

/-- What the catalog says of a product. -/
structure CatalogProductFact where
  productId : Uuid
  basePriceMinor : ℤ
  currency : String
  variants : List CatalogVariantFact
deriving DecidableEq

/-- The lists of a customer and of the customer's group. -/
structure CustomerPricingAssignment where
  customerId : Uuid
  priceListId : Option Uuid
  groupPriceListId : Option Uuid
deriving DecidableEq

/-- What the catalogue and the customer module have answered, one fact a
product. -/
structure PricingFacts where
  products : List CatalogProductFact
  customer : Option CustomerPricingAssignment
  product_unique : ∀ a ∈ products, ∀ b ∈ products,
    a.productId = b.productId → a = b

/-- The levels, the first of which that has a price gives it. -/
inductive PriceSource
  | personal
  | customer_price_list
  | group_price_list
  | default_price_list
  | base
deriving DecidableEq, Repr

/-- Whether a price is that of the variant or of the product. -/
inductive MatchLevel
  | variant
  | product
deriving DecidableEq, Repr

/-- A price found on a level, with the row it comes from. -/
structure LevelHit where
  unitPriceMinor : ℤ
  currency : String
  matchLevel : MatchLevel
  personalPriceId : Option Uuid
  priceListId : Option Uuid
  entryId : Option Uuid
deriving DecidableEq

/-- The rows that a price comes from. -/
structure SourceIds where
  personalPriceId : Option Uuid
  priceListId : Option Uuid
  entryId : Option Uuid
deriving DecidableEq

/-- The answer for one item. -/
structure ResolvedPrice where
  productId : Uuid
  variantId : Option Uuid
  unitPriceMinor : ℤ
  currency : String
  source : PriceSource
  matchLevel : MatchLevel
  sourceIds : SourceIds
  resolverVersion : ℕ
deriving DecidableEq

/-- A `CoreInvariantError`. -/
structure InvariantError where
  internalMessage : String
deriving DecidableEq, Repr

/-- The version of these rules, written beside every price. -/
def PRICING_RESOLVER_VERSION : ℕ := 1

/-! ## Maps of a level

The loop that fills the maps of one level, and what it finds under a product
and under a variant. -/

/-- A row of either table, in the form that a level indexes. -/
structure PriceRow where
  id : Uuid
  productId : Uuid
  variantId : Option Uuid
  priceMinor : ℤ
  currency : String
  personalPriceId : Option Uuid
  priceListId : Option Uuid
deriving DecidableEq

/-- The prices of a level by product and by variant. -/
structure LevelIndex where
  productHits : Dict Uuid LevelHit
  variantHits : Dict String LevelHit

/-- The key of a variant's price. The separator is in no id. -/
def variantKey (productId variantId : Uuid) : String :=
  String.ofList
    (productId.text.toList ++ '\x00' :: variantId.text.toList)

/-- A level's price of an item: of the variant if there is one, else of the
product. -/
def pickHit (index : LevelIndex) (item : ResolveItem) : Option LevelHit :=
  match item.variantId with
  | some variantId =>
      match index.variantHits (variantKey item.productId variantId) with
      | some variantHit => some variantHit
      | none => index.productHits item.productId
  | none => index.productHits item.productId

/-- The rows that a found price names. -/
def sourceIdsFromHit (hit : LevelHit) : SourceIds :=
  { personalPriceId := hit.personalPriceId
    priceListId := hit.priceListId
    entryId := hit.entryId }

/-- The answer that a found price makes. -/
def toResolvedPrice (item : ResolveItem) (hit : LevelHit)
    (source : PriceSource) : ResolvedPrice :=
  { productId := item.productId
    variantId := item.variantId
    unitPriceMinor := hit.unitPriceMinor
    currency := hit.currency
    source
    matchLevel := hit.matchLevel
    sourceIds := sourceIdsFromHit hit
    resolverVersion := PRICING_RESOLVER_VERSION }

/-- The price of a row. A personal price is no entry of a list. -/
def PriceRow.hit (row : PriceRow) : LevelHit :=
  { unitPriceMinor := row.priceMinor
    currency := row.currency
    matchLevel := if row.variantId.isNone then .product else .variant
    personalPriceId := row.personalPriceId
    priceListId := row.priceListId
    entryId := if row.personalPriceId.isNone then some row.id else none }

/-- One round of the loop of `indexHits`. -/
def LevelIndex.add (index : LevelIndex) (row : PriceRow) : LevelIndex :=
  match row.variantId with
  | none =>
      { index with productHits := index.productHits.set row.productId row.hit }
  | some variantId =>
      { index with
        variantHits :=
          index.variantHits.set (variantKey row.productId variantId) row.hit }

/-- The index of a level's rows. A later row replaces an earlier one. -/
def indexHits (rows : List PriceRow) : LevelIndex :=
  rows.foldl LevelIndex.add ⟨Dict.empty, Dict.empty⟩

/-! ## Loading

The two queries and the maps that they fill. -/

/-- `[...new Set(ids)]`: the first of each, in order. -/
def uniqueIds (ids : List Uuid) : List Uuid :=
  ids.foldl (fun unique id => if id ∈ unique then unique else unique ++ [id])
    []

/-- The index of a customer's own prices. -/
def loadPersonalHits (rowOrder : RowOrder) (tables : Tables)
    (companyId customerId : Uuid) (productIds : List Uuid) : LevelIndex :=
  let rows := rowOrder.order (tables.personalPrices.filter fun row =>
    row.companyId = companyId && row.customerId = customerId &&
      row.productId ∈ productIds)
  indexHits (rows.map fun row =>
    { id := row.id
      productId := row.productId
      variantId := row.variantId
      priceMinor := row.priceMinor
      currency := row.currency
      personalPriceId := some row.id
      priceListId := none })

/-- The indexes of the lists that were asked for, and of the default one. -/
structure ListHits where
  byListId : Dict Uuid LevelIndex
  defaultList : LevelIndex

/-- The rows of the query: an entry, and whether its list is the default. -/
def activeListRows (tables : Tables) (companyId : Uuid)
    (productIds listIds : List Uuid) : List (PriceListEntry × Bool) :=
  tables.priceListEntries.flatMap fun entry =>
    (tables.priceLists.filter fun list =>
      list.companyId = entry.companyId && list.id = entry.priceListId &&
        (entry.companyId = companyId && list.isActive &&
          (entry.priceListId ∈ listIds || list.isDefault) &&
          entry.productId ∈ productIds)).map fun list =>
      (entry, list.isDefault)

/-- An entry in the form that a level indexes. -/
def PriceListEntry.row (entry : PriceListEntry) : PriceRow :=
  { id := entry.id
    productId := entry.productId
    variantId := entry.variantId
    priceMinor := entry.priceMinor
    currency := entry.currency
    personalPriceId := none
    priceListId := some entry.priceListId }

/-- The two collections that the loop over the rows fills. -/
structure RowsByList where
  rowsByListId : Dict Uuid (List PriceRow)
  defaultRows : List PriceRow

/-- One row of the joined query: it goes to its list, and to the default's if
that list is the default. -/
def RowsByList.add (rows : RowsByList) (row : PriceListEntry × Bool) :
    RowsByList :=
  { rowsByListId := rows.rowsByListId.set row.1.priceListId
      (((rows.rowsByListId row.1.priceListId).getD []) ++ [row.1.row])
    defaultRows :=
      if row.2 = true then rows.defaultRows ++ [row.1.row]
      else rows.defaultRows }

/-- The indexes of all lists from one query. -/
def loadActiveListHits (rowOrder : RowOrder) (tables : Tables)
    (companyId : Uuid) (productIds listIds : List Uuid) : ListHits :=
  let rows :=
    rowOrder.order (activeListRows tables companyId productIds listIds)
  let collected := rows.foldl RowsByList.add ⟨Dict.empty, []⟩
  { byListId := listIds.foldl (fun byListId listId =>
      byListId.set listId
        (indexHits ((collected.rowsByListId listId).getD []))) Dict.empty
    defaultList := indexHits collected.defaultRows }

/-! ## Resolving

The walk through the levels for each item. -/

/-- The catalog's own price: the variant's if it has one, else the product's.
-/
def resolveBase (product : CatalogProductFact) (item : ResolveItem) :
    Except InvariantError LevelHit :=
  let productHit : LevelHit :=
    { unitPriceMinor := product.basePriceMinor
      currency := product.currency
      matchLevel := .product
      personalPriceId := none
      priceListId := none
      entryId := none }
  match item.variantId with
  | none => .ok productHit
  | some variantId =>
      match product.variants.find? fun candidate =>
          candidate.variantId = variantId with
      | none =>
          .error ⟨"variant missing from catalog facts after existence check"⟩
      | some variant =>
          match variant.basePriceMinor, variant.currency with
          | some basePriceMinor, some currency =>
              .ok { productHit with
                    unitPriceMinor := basePriceMinor
                    currency
                    matchLevel := .variant }
          | _, _ => .ok productHit

/-- The prices of all items of a call, by one read of each table. -/
def resolveProductPricesForCompany (rowOrder : RowOrder) (tables : Tables)
    (companyId : Uuid) (items : List ResolveItem) (facts : PricingFacts) :
    Except InvariantError (List ResolvedPrice) :=
  let productIds := uniqueIds (items.map (·.productId))
  let productById : Dict Uuid CatalogProductFact :=
    facts.products.foldl (fun byId product =>
      byId.set product.productId product) Dict.empty
  let personal := facts.customer.map fun customer =>
    loadPersonalHits rowOrder tables companyId customer.customerId productIds
  let customerListId := facts.customer.bind (·.priceListId)
  let groupListId := facts.customer.bind (·.groupPriceListId)
  let listIds := uniqueIds ([customerListId, groupListId].filterMap id)
  let listHits :=
    loadActiveListHits rowOrder tables companyId productIds listIds
  let customerList := customerListId.bind listHits.byListId
  let groupList := groupListId.bind listHits.byListId
  items.mapM fun item =>
    match productById item.productId with
    | none =>
        .error ⟨"product missing from catalog facts after existence check"⟩
    | some product =>
        match personal.bind fun index => pickHit index item with
        | some hit => .ok (toResolvedPrice item hit .personal)
        | none =>
            match customerList.bind fun index => pickHit index item with
            | some hit => .ok (toResolvedPrice item hit .customer_price_list)
            | none =>
                match groupList.bind fun index => pickHit index item with
                | some hit => .ok (toResolvedPrice item hit .group_price_list)
                | none =>
                    match pickHit listHits.defaultList item with
                    | some hit =>
                        .ok (toResolvedPrice item hit .default_price_list)
                    | none => do
                        let hit ← resolveBase product item
                        return toResolvedPrice item hit .base

end Shozee.Pricing
