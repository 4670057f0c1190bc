import Mathlib.Algebra.BigOperators.Group.List.Basic
import Mathlib.Data.List.Dedup
import Shozee.Orders.Pages
import Shozee.Run.Grouping

/-!
# Aggregates of orders

`orders.list` for a rollup. Each query groups the rows by what the buckets are
about and by the currency, and a loop over its rows merges the currencies of a
bucket in a map. The three queries differ in their columns only
(`GroupQuery`), and the three loops in the identity of a bucket.

The order in which the database returns groups, and in which it takes rows
that stand alike for `array_agg`, is the `RowOrder` of the environment.
-/

namespace Shozee.Orders.Listing

open Shozee.Run

/-! ## What counts

In the narrow mode, which is the active one, every order counts. In the strict
mode an imported order counts only if somebody has vouched for it. -/

/-- Whether orders that nobody vouched for are counted. -/
inductive RecordVerificationMode
  | narrow
  | strict
deriving DecidableEq, Repr

/-- The active mode. -/
def RECORD_VERIFICATION_MODE : RecordVerificationMode := .narrow

/-- Ways of creation that need no vouching. -/
def countedCreatedVia : List CreatedVia := [.ui, .system]

/-- Whether an order is counted in a mode. -/
def recordCounts (mode : RecordVerificationMode) (order : Order) : Bool :=
  match mode with
  | .narrow => true
  | .strict =>
      order.createdVia.isNone || order.createdVia.any (· ∈ countedCreatedVia) ||
        order.vouchedBy.isSome

/-! ## Tables as `orders.create` leaves them

The product buckets are about lines and the totals about orders. That the two
agree is nothing that the tables enforce, so it is a structure of its own. -/

/-- The lines of an order are in its currency and add up to its total. -/
structure Books extends Tables where
  item_currency : ∀ item ∈ orderItems, ∀ order ∈ orders,
    order.id = item.orderId → item.currency = order.currency
  order_total : ∀ order ∈ orders, order.totalGrossMinor =
    ((orderItems.filter fun item => item.orderId = order.id).map
      (·.grossAmountMinor)).sum

/-! ## Grouped queries

One definition for the three `GROUP BY` queries. Which row of a group
`array_agg` puts first is left to the environment where rows stand alike. -/

/-- The columns of a query that groups, for rows `ρ` and what their buckets
are about, `κ`. -/
structure GroupQuery (ρ κ : Type) where
  group : ρ → κ
  currency : ρ → String
  count : List ρ → ℕ
  gross : ρ → ℤ
  quantity : ρ → ℤ
  order : ρ → Order
  label : ρ → String

/-- A row of a grouped query, with the newest order of the group and its label.
-/
structure AggregateRow (κ : Type) where
  group : κ
  currency : String
  orderCount : ℕ
  grossMinor : ℤ
  newestAt : ℤ
  newestId : String
  newestLabel : String
  quantityMilli : ℤ

/-- What the database and the runtime decide: the order that rows come in, and
the comparison of names. -/
structure Env where
  rowOrder : RowOrder
  localeCompare : String → String → ℤ

variable {ρ κ : Type} [DecidableEq κ]

/-- `ORDER BY created_at DESC, id DESC`, for rows that come with an order. -/
def NotOlderBy (order : ρ → Order) (a b : ρ) : Prop :=
  (order b).key ≤ (order a).key

instance (order : ρ → Order) : DecidableRel (NotOlderBy order) :=
  fun a b => inferInstanceAs (Decidable ((order b).key ≤ (order a).key))

/-- The first row of `array_agg` in that order; a group is not empty. -/
def newestOf (env : Env) (query : GroupQuery ρ κ) (group : Run.Group ρ) : ρ :=
  ((env.rowOrder.order group.items).insertionSort
    (NotOlderBy query.order)).headD group.first

/-- The row that the query makes of a group. -/
def aggregateRow (env : Env) (query : GroupQuery ρ κ) (group : Run.Group ρ) :
    AggregateRow κ :=
  { group := query.group group.first
    currency := query.currency group.first
    orderCount := query.count group.items
    grossMinor := (group.items.map query.gross).sum
    newestAt := (group.items.map fun row =>
      (query.order row).createdAt.1.time).foldl max 0
    newestId := (query.order (newestOf env query group)).id.1.text
    newestLabel := query.label (newestOf env query group)
    quantityMilli := (group.items.map query.quantity).sum }

/-- `GROUP BY` the group and the currency. -/
def aggregateRows (env : Env) (query : GroupQuery ρ κ) (rows : List ρ) :
    List (AggregateRow κ) :=
  (env.rowOrder.order (Run.Group.groupBy
    (fun row => (query.group row, query.currency row)) rows)).map
      (aggregateRow env query)

/-! ## Buckets

The loop over the rows of a query: it looks the bucket of a row up, adds to it,
and lets the newest row name it. -/

/-- What a bucket stands for. -/
inductive BucketIdentity
  | product (productId : Uuid) (variantId : Option Uuid)
  | customer (customerId : Option Uuid) (nameSnapshot : String)
  | status (status : OrderStatus)
  | none
deriving DecidableEq

/-- A bucket while rows are added to it. -/
structure MutableBucket where
  identity : BucketIdentity
  label : String
  sortKey : String
  newestAt : ℤ
  newestId : String
  orderCount : ℕ
  quantityMilli : ℤ
  gross : List (String × ℤ)
deriving DecidableEq

/-- A bucket as it is answered. -/
structure Bucket where
  identity : BucketIdentity
  label : String
  orderCount : ℕ
  grossByCurrency : List (String × ℤ)
  quantityMilli : Option ℤ
deriving DecidableEq

/-- An amount added to its currency. -/
def mergeGross (into : List (String × ℤ)) (currency : String) (amount : ℤ) :
    List (String × ℤ) :=
  upsert currency (fun old => old.getD 0 + amount) into

/-- An amount with the order it comes from. The newest order gives the label,
and of two at one time the one with the greater id. -/
def addGrossRow (bucket : MutableBucket) (currency : String) (amount : ℤ)
    (createdAt : ℤ) (orderId label : String) : MutableBucket :=
  let merged := { bucket with gross := mergeGross bucket.gross currency amount }
  if createdAt > bucket.newestAt ∨
      createdAt = bucket.newestAt ∧
        orderId.toList > bucket.newestId.toList then
    { merged with newestAt := createdAt, newestId := orderId, label }
  else merged

/-- A bucket that nothing has been added to. -/
def emptyBucket (identity : BucketIdentity) (label sortKey : String) :
    MutableBucket :=
  { identity, label, sortKey
    newestAt := 0
    newestId := ""
    orderCount := 0
    quantityMilli := 0
    gross := [] }

/-- One round of a loop over the rows of a query. -/
def addRow (bucket : MutableBucket) (row : AggregateRow κ) (label : String) :
    MutableBucket :=
  addGrossRow
    { bucket with
      orderCount := bucket.orderCount + row.orderCount
      quantityMilli := bucket.quantityMilli + row.quantityMilli }
    row.currency row.grossMinor row.newestAt row.newestId label

/-- A loop over the rows, and the values of its map. -/
def mergeRows (identityKey : AggregateRow κ → String)
    (fresh : AggregateRow κ → MutableBucket)
    (add : MutableBucket → AggregateRow κ → MutableBucket)
    (rows : List (AggregateRow κ)) : List MutableBucket :=
  (collect identityKey fresh add rows).map (·.2)

/-- The amounts sorted by currency. -/
def grossByCurrencyFromMap (env : Env) (amounts : List (String × ℤ)) :
    List (String × ℤ) :=
  amounts.insertionSort fun left right =>
    env.localeCompare left.1 right.1 ≤ 0

/-- Only the buckets of products carry a quantity. -/
def BucketIdentity.shown (identity : BucketIdentity) (quantityMilli : ℤ) :
    Option ℤ :=
  match identity with
  | .product _ _ => some quantityMilli
  | _ => Option.none

/-- A bucket as it is answered. Quantities are shown of products only. -/
def toOutputBucket (env : Env) (bucket : MutableBucket) : Bucket :=
  { identity := bucket.identity
    label := bucket.label
    orderCount := bucket.orderCount
    grossByCurrency := grossByCurrencyFromMap env bucket.gross
    quantityMilli := bucket.identity.shown bucket.quantityMilli }

/-- The answer has this many buckets at most. -/
def LIST_ORDERS_AGGREGATE_BUCKETS_MAX : ℕ := 50

/-- Buckets with more orders first, then by their keys. -/
def sortBuckets (env : Env) (buckets : List MutableBucket) :
    List MutableBucket :=
  buckets.insertionSort fun left right =>
    if left.orderCount ≠ right.orderCount then
      right.orderCount ≤ left.orderCount
    else env.localeCompare left.sortKey right.sortKey ≤ 0

/-- The first buckets and whether some were left out. -/
def sortAndCapBuckets (env : Env) (buckets : List MutableBucket) :
    List Bucket × Bool :=
  let sorted := sortBuckets env buckets
  let truncated := decide (sorted.length > LIST_ORDERS_AGGREGATE_BUCKETS_MAX)
  let capped :=
    if truncated = true then sorted.take LIST_ORDERS_AGGREGATE_BUCKETS_MAX
    else sorted
  (capped.map (toOutputBucket env), truncated)

/-! ## The three dimensions

What the queries select and what the buckets are about, for statuses, customers
and products. -/

/-- A status as the table has it. -/
def statusText : OrderStatus → String
  | .new => "new"
  | .confirmed => "confirmed"
  | .inProgress => "in_progress"
  | .done => "done"
  | .canceled => "canceled"

/-- Orders grouped by status and currency. -/
def statusQuery : GroupQuery Order OrderStatus where
  group := (·.status)
  currency := (·.currency)
  count := List.length
  gross := (·.totalGrossMinor)
  quantity := fun _ => 0
  order := id
  label := fun order => statusText order.status

/-- The buckets of the statuses. -/
def queryStatusBuckets (env : Env) (rows : List Order) : List MutableBucket :=
  mergeRows (fun row => statusText row.group)
    (fun row => emptyBucket (.status row.group) (statusText row.group)
      (statusText row.group))
    (fun bucket row => addRow bucket row (statusText row.group))
    (aggregateRows env statusQuery rows)

/-- Orders grouped by customer, name on the order and currency. -/
def customerQuery : GroupQuery Order (Option Uuid × String) where
  group := fun order => (order.customerId, order.customerNameSnapshot)
  currency := (·.currency)
  count := List.length
  gross := (·.totalGrossMinor)
  quantity := fun _ => 0
  order := id
  label := (·.customerNameSnapshot)

/-- Orders of one customer are one bucket whatever name they have; without a
customer the name is the key. -/
def customerIdentityKey (row : AggregateRow (Option Uuid × String)) : String :=
  match row.group.1 with
  | none => "name:" ++ row.group.2
  | some customerId => "id:" ++ customerId.text

/-- The identity of a customer's bucket takes the label over. -/
def renamed (bucket : MutableBucket) : MutableBucket :=
  match bucket.identity with
  | .customer customerId _ =>
      { bucket with identity := .customer customerId bucket.label }
  | _ => bucket

/-- The buckets of the customers, each labelled with its newest name. -/
def customerBuckets (env : Env) (rows : List Order) : List MutableBucket :=
  mergeRows customerIdentityKey
    (fun row => emptyBucket (.customer row.group.1 row.newestLabel)
      row.newestLabel (customerIdentityKey row))
    (fun bucket row => renamed (addRow bucket row row.newestLabel))
    (aggregateRows env customerQuery rows)

/-- A row of the join of the lines with their orders. -/
abbrev Line := Item × Order

/-- Lines grouped by product, variant and currency. An order with several lines
of a group counts once. -/
def productQuery : GroupQuery Line (Uuid × Option Uuid) where
  group := fun line => (line.1.productId, line.1.variantId)
  currency := fun line => line.1.currency
  count := fun lines => (lines.map fun line => line.1.orderId).dedup.length
  gross := fun line => line.1.grossAmountMinor
  quantity := fun line => line.1.quantityMilli
  order := fun line => line.2
  label := fun line => line.1.titleSnapshot

/-- Products are one bucket for each variant, whatever the currency. -/
def productIdentityKey (row : AggregateRow (Uuid × Option Uuid)) : String :=
  let variantKey := match row.group.2 with
    | some variantId => variantId.text
    | none => ""
  "product:" ++ row.group.1.text ++ ":" ++ variantKey

/-- The buckets of the products. -/
def productBuckets (env : Env) (lines : List Line) : List MutableBucket :=
  mergeRows productIdentityKey
    (fun row => emptyBucket (.product row.group.1 row.group.2)
      row.newestLabel (productIdentityKey row))
    (fun bucket row => addRow bucket row row.newestLabel)
    (aggregateRows env productQuery lines)

/-! ## The rollup

The three dimensions and the totals, all under one `where`. -/

/-- The dimension that an answer is divided by. -/
inductive GroupBy
  | none
  | status
  | product
  | customer
deriving DecidableEq, Repr

/-- What the action answers with. -/
structure AggregateOutput where
  orderCount : ℕ
  grossByCurrency : List (String × ℤ)
  buckets : List Bucket
  bucketsTruncated : Bool
  customerMatchTruncated : Bool
  statusBuckets : List Bucket
deriving DecidableEq

/-- The status buckets that go along with every answer. -/
def toStatusOutputBuckets (env : Env) (buckets : List MutableBucket) :
    List Bucket :=
  (sortAndCapBuckets env buckets).1.filter fun bucket =>
    match bucket.identity with
    | .status _ => true
    | _ => false

/-- The rows of `orders` under the `where` of every query. -/
def countedRows (tables : Tables) (ctx : StaffCtx)
    (filter : Option ListOrdersFilter) (queryMatch : QueryMatch) :
    List Order :=
  tables.orders.filter fun order =>
    allOf (headerPredicates ctx filter queryMatch.predicate) order &&
      recordCounts RECORD_VERIFICATION_MODE order

/-- `order_items` joined with those rows. -/
def countedLines (tables : Tables) (ctx : StaffCtx) (rows : List Order) :
    List Line :=
  tables.orderItems.flatMap fun item =>
    (rows.filter fun order =>
      order.companyId = item.companyId && order.id = item.orderId &&
        item.companyId = ctx.companyId).map fun order => (item, order)

/-- The totals: a row for each currency. -/
def totalsQuery : GroupQuery Order Unit where
  group := fun _ => ()
  currency := (·.currency)
  count := List.length
  gross := (·.totalGrossMinor)
  quantity := fun _ => 0
  order := id
  label := fun _ => ""

/-- The sums of the orders that a filter leaves, and their buckets. -/
def listAggregate (env : Env) (tables : Tables) (ctx : StaffCtx)
    (filter : Option ListOrdersFilter) (groupBy : GroupBy)
    (queryMatch : QueryMatch) : AggregateOutput :=
  let rows := countedRows tables ctx filter queryMatch
  let totals := aggregateRows env totalsQuery rows
  let totalGross := totals.foldl (fun gross row =>
    mergeGross gross row.currency row.grossMinor) []
  let orderCount := totals.foldl (fun count row => count + row.orderCount) 0
  let grossByCurrency := grossByCurrencyFromMap env totalGross
  let statusMutable := queryStatusBuckets env rows
  let capped : List Bucket × Bool := match groupBy with
    | .none => ([⟨.none, "", orderCount, grossByCurrency, none⟩], false)
    | .status => sortAndCapBuckets env statusMutable
    | .customer => sortAndCapBuckets env (customerBuckets env rows)
    | .product =>
        sortAndCapBuckets env (productBuckets env
          (countedLines tables ctx rows))
  { orderCount
    grossByCurrency
    buckets := capped.1
    bucketsTruncated := capped.2
    customerMatchTruncated := queryMatch.truncated
    statusBuckets := toStatusOutputBuckets env statusMutable }

/-- `orders.list` for a rollup. -/
def executeListAggregate (env : Env) (tables : Tables) (ctx : StaffCtx)
    (filter : Option ListOrdersFilter) (groupBy : GroupBy) :
    AggregateOutput :=
  let queryMatch := resolveQueryMatch ctx (filter.bind (·.query))
  if queryMatch.empty = true then
    { orderCount := 0
      grossByCurrency := []
      buckets :=
        if groupBy = .none then [⟨.none, "", 0, [], none⟩] else []
      bucketsTruncated := false
      customerMatchTruncated := queryMatch.truncated
      statusBuckets := [] }
  else listAggregate env tables ctx filter groupBy queryMatch

end Shozee.Orders.Listing
