import Shozee.Orders.Create
import Shozee.Validation.Pagination

/-!
# The orders of a company, and the filter on them

The tables are those that the staff listing reads: `orders` with a primary
key, and `order_items` whose rows each belong to an order of their company. A
filter becomes a list of predicates on the rows of `orders`. The customers
module answers which customers a text matches, and how `ILIKE` compares is the
database's affair; both come with the context.
-/

namespace Shozee.Orders.Listing

open Shozee.Run
open Shozee.Validation

/-! ## Tables

Rows with the types that the columns have. Ids are drawn by the database, and
times are to the millisecond. -/

/-- The version and the variant of a uuid are among those defined. -/
def isVersioned (text : List Char) : Bool :=
  text[14]?.any (· ∈ ['1', '2', '3', '4', '5', '6', '7', '8']) &&
    text[19]?.any (· ∈ ['8', '9', 'a', 'b'])

/-- The database draws the ids of orders at random, which is one of the
versions. -/
abbrev OrderId := {id : Uuid // isVersioned id.text.toList = true}

/-- A reading of the clock, as a column with milliseconds holds it. -/
abbrev Timestamp := {instant : Instant // 0 ≤ instant.time}

/-- The ways in which an order may have been made. -/
inductive CreatedVia
  | ui
  | ai
  | system
  | webhook
  | shoAi
deriving DecidableEq, Repr

/-- A row of `orders`. -/
structure Order where
  id : OrderId
  companyId : Uuid
  orderNumber : String
  customerId : Option Uuid
  customerNameSnapshot : String
  status : OrderStatus
  totalGrossMinor : ℤ
  currency : String
  createdAt : Timestamp
  createdVia : Option CreatedVia
  vouchedBy : Option String
deriving DecidableEq

/-- A row of `order_items`. -/
structure Item where
  id : Uuid
  companyId : Uuid
  orderId : OrderId
  productId : Uuid
  variantId : Option Uuid
  titleSnapshot : String
  quantityMilli : ℤ
  grossAmountMinor : ℤ
  currency : String
  createdAt : Timestamp
deriving DecidableEq

/-- The two tables: keys are unique, and every line belongs to an order of its
company. -/
structure Tables where
  orders : List Order
  orderItems : List Item
  order_unique : orders.Pairwise fun a b => a.id ≠ b.id
  item_unique : orderItems.Pairwise fun a b => a.id ≠ b.id
  item_order : ∀ item ∈ orderItems, ∃ order ∈ orders,
    order.id = item.orderId ∧ order.companyId = item.companyId

/-! ## The filter

Each field of the filter that is given becomes a predicate, and a search text
first asks which customers it matches. -/

/-- Text that the schema of a datetime accepts. -/
structure IsoDatetime where
  text : String
  valid : (isoTime text.toList).isSome = true
deriving DecidableEq

/-- The milliseconds of a time. -/
def IsoDatetime.getTime (datetime : IsoDatetime) : ℤ :=
  (isoTime datetime.text.toList).get datetime.valid

/-- The filter of a list as the schema lets it through. -/
structure ListOrdersFilter where
  statuses : Option (List OrderStatus)
  query : Option String
  customerIds : Option (List Uuid)
  createdFrom : Option IsoDatetime
  createdTo : Option IsoDatetime
deriving DecidableEq

/-- The customers that answer a query, and whether there are more. -/
structure MatchingIds where
  ids : List Uuid
  truncated : Bool
deriving DecidableEq

/-- What a list uses of its context: the company, the database's comparison and
the search for customers. -/
structure StaffCtx where
  companyId : Uuid
  ilike : String → String → Bool
  listMatchingIds : String → MatchingIds

/-- What a query comes to: a condition, or nothing that could match. -/
structure QueryMatch where
  predicate : Option (Order → Bool)
  truncated : Bool
  empty : Bool

/-- The part of a query that is looked for in numbers. -/
def orderNumberSearchLiteral (literal : String) : Option String :=
  let withoutHash :=
    if literal.toList.head? = some '#' then literal.toList.drop 1
    else literal.toList
  if withoutHash = [] then none else some (String.ofList withoutHash)

/-- The condition of a query: the number has it, or the customer answers it. -/
def searchPredicate (ctx : StaffCtx) (numberLiteral : Option String)
    (customerIds : List Uuid) : Option (Order → Bool) :=
  let numberMatch : Option (Order → Bool) := numberLiteral.map
    fun literal order => ctx.ilike order.orderNumber ("%" ++ literal ++ "%")
  let customerMatch : Option (Order → Bool) :=
    if customerIds = [] then none
    else some fun order => order.customerId.any (· ∈ customerIds)
  match numberMatch, customerMatch with
  | some byNumber, some byCustomer =>
      some fun order => byNumber order || byCustomer order
  | some byNumber, none => some byNumber
  | none, customerMatch => customerMatch

/-- The condition of a filter's query. A query that nothing can match is told
apart from no query. -/
def resolveQueryMatch (ctx : StaffCtx) (query : Option String) : QueryMatch :=
  match query with
  | none => { predicate := none, truncated := false, empty := false }
  | some query =>
      let matching := ctx.listMatchingIds query
      let numberLiteral :=
        (sanitizeLikeLiteral query).bind orderNumberSearchLiteral
      let predicate := searchPredicate ctx numberLiteral matching.ids
      { predicate
        truncated := matching.truncated
        empty := predicate.isNone }

/-- The conditions of a list. Both ends of the time are part of it. -/
def headerPredicates (ctx : StaffCtx) (filter : Option ListOrdersFilter)
    (queryPredicate : Option (Order → Bool)) : List (Order → Bool) :=
  let byStatus : Option (Order → Bool) := (filter.bind (·.statuses)).map
    fun statuses order => order.status ∈ statuses
  let byCustomer : Option (Order → Bool) := (filter.bind (·.customerIds)).map
    fun ids order => order.customerId.any (· ∈ ids)
  let byFrom : Option (Order → Bool) := (filter.bind (·.createdFrom)).map
    fun createdFrom order => createdFrom.getTime ≤ order.createdAt.1.time
  let byTo : Option (Order → Bool) := (filter.bind (·.createdTo)).map
    fun createdTo order => order.createdAt.1.time ≤ createdTo.getTime
  (fun order => order.companyId = ctx.companyId) ::
    [byStatus, byCustomer, byFrom, byTo, queryPredicate].filterMap id

/-- The conjunction of the predicates. -/
def allOf (predicates : List (Order → Bool)) (order : Order) : Bool :=
  predicates.all fun predicate => predicate order

/-- The order is one that the filter asks for. -/
def Matches (ctx : StaffCtx) (filter : Option ListOrdersFilter)
    (order : Order) : Prop :=
  let queryMatch := resolveQueryMatch ctx (filter.bind (·.query))
  queryMatch.empty = false ∧
    allOf (headerPredicates ctx filter queryMatch.predicate) order = true

/-! ## A shop

Ids and rows for the examples of the next files. -/

theorem canonical_shop : isCanonicalUuid
    "00000000-0000-4000-8000-000000000001".toList = true := by
  decide

/-- A company. -/
def shop : Uuid := ⟨"00000000-0000-4000-8000-000000000001", canonical_shop⟩

/-- A member of its staff. -/
def staff : StaffCtx := ⟨shop, fun _ _ => false, fun _ => ⟨[], false⟩⟩

/-- An order of the shop at a time. -/
def orderAt (id : OrderId) (time : ℕ) (h : (time : ℤ) < 253402300800000) :
    Order where
  id
  companyId := shop
  orderNumber := "N5-17Z992"
  customerId := none
  customerNameSnapshot := "unlinked"
  status := .new
  totalGrossMinor := 5000
  currency := "UAH"
  createdAt := ⟨⟨time, by omega, h⟩, by simp⟩
  createdVia := none
  vouchedBy := none

/-- The order with the smaller id. -/
def first : OrderId :=
  ⟨⟨"00000000-0000-4000-8000-00000000000a", by decide +kernel⟩,
    by decide +kernel⟩

/-- The order with the greater id. -/
def second : OrderId :=
  ⟨⟨"00000000-0000-4000-8000-00000000000b", by decide +kernel⟩,
    by decide +kernel⟩

end Shozee.Orders.Listing
