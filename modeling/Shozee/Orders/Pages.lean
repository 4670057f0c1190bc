import Mathlib.Data.List.Sort
import Mathlib.Data.Prod.Lex
import Shozee.Orders.Listing
import Shozee.Run.Lookup

/-!
# Pages of orders

`orders.list` with a page of summaries, or of orders with their lines. The
query asks for one row more than the page shows, in descending order of the
time and the id; the cursor is the two of the last row, as text.

What the cursor says of a row is what the query then compares with, since the
text of a time is read back to the millisecond, which is what the column
holds (`parseListOrdersCursor_format`). The rest is `follows_of_answers`.
-/

namespace Shozee.Orders.Listing

open Shozee.Run
open Shozee.Validation

/-! ## The cursor

The time and the id of the last row, each as a text that the query reads back.
-/

/-- A place in the list: the time and the id of the last order shown. -/
structure ListOrdersCursor where
  createdAt : ℤ
  id : Uuid
deriving DecidableEq

/-- A uuid in any letter case, as the database takes it. -/
def uuidOf (text : List Char) : Option Uuid :=
  let lower := text.map Char.toLower
  if h : isCanonicalUuid lower = true then
    if isVersioned lower ||
        text = "00000000-0000-0000-0000-000000000000".toList ||
        text = "ffffffff-ffff-ffff-ffff-ffffffffffff".toList then
      some ⟨String.ofList lower, canonical_ofList h⟩
    else none
  else none

/-- The fields of a cursor. -/
def listOrdersCursorFields : List CursorFieldKind := [.isoDatetime, .uuid]

/-- The payload schema, and what the query reads of the two texts. -/
def listOrdersCursorPayload (values : List DecodedValue) :
    Option ListOrdersCursor :=
  match values with
  | [.text createdAt, .text id] =>
      (isoTime createdAt.toList).bind fun createdAt =>
        (uuidOf id.toList).map fun id => { createdAt, id }
  | _ => none

/-- The cursor after an order. -/
def formatListOrdersCursor (createdAt : Timestamp) (id : OrderId) : String :=
  encode [⟨.isoDatetime, createdAt.1⟩, ⟨.uuid, id.1.text⟩]

/-- The place that a cursor names. -/
def parseListOrdersCursor (cursor : String) : Option ListOrdersCursor :=
  decode listOrdersCursorFields listOrdersCursorPayload cursor

/-! ## The contract

What the input schema asks: a limit by the kind of the page, and a cursor of a
bounded length. -/

/-- The largest page of summaries. -/
def LIST_ORDERS_SUMMARY_MAX_LIMIT : ℕ := 50

/-- The largest page of orders with their lines. -/
def LIST_ORDERS_WITH_LINES_MAX_LIMIT : ℕ := 20

/-- The lines that such a page has at most. -/
def LIST_ORDERS_WITH_LINES_MAX_LINES : ℕ := 200

/-- The length of a cursor. -/
def LIST_ORDERS_CURSOR_MAX : ℕ := 80

/-- The two kinds of pages. -/
inductive PageKind
  | summary
  | withLines
deriving DecidableEq, Repr

/-- The largest page of a kind. -/
def PageKind.maxLimit : PageKind → ℕ
  | .summary => LIST_ORDERS_SUMMARY_MAX_LIMIT
  | .withLines => LIST_ORDERS_WITH_LINES_MAX_LIMIT

/-- The input as the schema lets it through. -/
structure ListPageInput where
  kind : PageKind
  filter : Option ListOrdersFilter
  limit : ℕ
  cursor : Option String
deriving DecidableEq

/-- The schema accepts the cursor. -/
def cursorAccepted (cursor : String) : Bool :=
  1 ≤ cursor.length && cursor.length ≤ LIST_ORDERS_CURSOR_MAX &&
    (parseListOrdersCursor cursor).isSome

/-- The schema accepts the input. -/
def ListPageInput.accepted (input : ListPageInput) : Bool :=
  1 ≤ input.limit && input.limit ≤ input.kind.maxLimit &&
    input.cursor.all cursorAccepted

/-- An order as a page shows it. -/
structure SummaryRow where
  orderId : OrderId
  orderNumber : String
  nameSnapshot : String
  linkedCustomerId : Option Uuid
  status : OrderStatus
  itemCount : ℕ
  totalGrossMinor : ℤ
  currency : String
  createdAt : String
deriving DecidableEq

/-- A line as a page shows it. -/
structure CompactLine where
  itemId : Uuid
  productId : Uuid
  variantId : Option Uuid
  titleSnapshot : String
  quantityMilli : ℤ
  grossAmountMinor : ℤ
  currency : String
deriving DecidableEq

/-- A page of either kind. -/
inductive ListOutput
  | summary (items : List SummaryRow) (nextCursor : Option String)
      (customerMatchTruncated : Bool)
  | withLines (items : List (SummaryRow × List CompactLine))
      (nextCursor : Option String) (customerMatchTruncated : Bool)
      (linesTruncated : Bool)
deriving DecidableEq

/-- Where the next page begins, if there is one. -/
def ListOutput.nextCursor : ListOutput → Option String
  | .summary _ nextCursor _ => nextCursor
  | .withLines _ nextCursor _ _ => nextCursor

/-- The orders of a page. -/
def ListOutput.rows : ListOutput → List SummaryRow
  | .summary items _ _ => items
  | .withLines items _ _ _ => items.map (·.1)

/-- What the action throws. -/
inductive ListError
  | validation
  | coreInvariant (internalMessage : String)
deriving DecidableEq, Repr

/-! ## The queries

The statement of a page, with one row more than it shows, and the loops that
add counts or lines to its rows. -/

/-- What the rows are ordered by. -/
def Order.key (order : Order) : Timestamp ×ₗ OrderId :=
  toLex (order.createdAt, order.id)

/-- The order of the list, newest first. -/
def Order.NotOlder (a b : Order) : Prop := b.key ≤ a.key

instance : DecidableRel Order.NotOlder :=
  fun a b => inferInstanceAs (Decidable (b.key ≤ a.key))

/-- `ORDER BY created_at DESC, id DESC`. -/
def newestFirst (orders : List Order) : List Order :=
  orders.insertionSort Order.NotOlder

/-- What comes after a cursor: older orders, and of the same time those with a
smaller id. -/
def cursorPredicate (cursor : Option ListOrdersCursor) (order : Order) :
    Bool :=
  match cursor with
  | none => true
  | some cursor =>
      order.createdAt.1.time < cursor.createdAt ||
        (order.createdAt.1.time = cursor.createdAt && order.id.1 < cursor.id)

/-- The rows that a page's query fetches, one more than it shows. -/
def pageRowsOf (tables : Tables) (predicates : List (Order → Bool))
    (cursor : Option ListOrdersCursor) (limit : ℕ) : List Order :=
  (newestFirst (tables.orders.filter fun order =>
    allOf predicates order && cursorPredicate cursor order)).take (limit + 1)

/-- The grouped count of lines. An order without lines has no row. -/
def itemCountsByOrder (tables : Tables) (ctx : StaffCtx)
    (orderIds : List OrderId) : Dict OrderId ℕ := fun orderId =>
  let rows := tables.orderItems.filter fun item =>
    item.companyId = ctx.companyId && item.orderId ∈ orderIds &&
      item.orderId = orderId
  if rows = [] then none else some rows.length

/-- A line as a page shows it. -/
def toCompactLine (item : Item) : CompactLine :=
  { itemId := item.id
    productId := item.productId
    variantId := item.variantId
    titleSnapshot := item.titleSnapshot
    quantityMilli := item.quantityMilli
    grossAmountMinor := item.grossAmountMinor
    currency := item.currency }

/-- The lines of the page's orders, in the order they were created. -/
def compactLinesByOrder (tables : Tables) (ctx : StaffCtx)
    (orderIds : List OrderId) : Dict OrderId (List CompactLine) :=
  let rows := (tables.orderItems.filter fun item =>
      item.companyId = ctx.companyId && item.orderId ∈ orderIds).insertionSort
    fun a b => toLex (a.createdAt, a.id) ≤ toLex (b.createdAt, b.id)
  rows.foldl (fun lines item => lines.set item.orderId
    (((lines item.orderId).getD []) ++ [toCompactLine item])) Dict.empty

/-- An order as a page shows it, with the count of its lines. -/
def toSummaryRow (order : Order) (itemCount : ℕ) : SummaryRow :=
  { orderId := order.id
    orderNumber := order.orderNumber
    nameSnapshot := order.customerNameSnapshot
    linkedCustomerId := order.customerId
    status := order.status
    itemCount
    totalGrossMinor := order.totalGrossMinor
    currency := order.currency
    createdAt := order.createdAt.1.toISOString }

/-- The loop that hands out the lines, with what may still be shown. -/
def withLines (linesByOrder : Dict OrderId (List CompactLine)) :
    ℕ → List SummaryRow → List (SummaryRow × List CompactLine) × Bool
  | _, [] => ([], false)
  | remaining, summary :: summaries =>
      let allLines := (linesByOrder summary.orderId).getD []
      if remaining = 0 then
        let rest := withLines linesByOrder remaining summaries
        ((summary, []) :: rest.1, allLines ≠ [] || rest.2)
      else if allLines.length > remaining then
        let rest := withLines linesByOrder 0 summaries
        ((summary, allLines.take remaining) :: rest.1, true)
      else
        let rest :=
          withLines linesByOrder (remaining - allLines.length) summaries
        ((summary, allLines) :: rest.1, rest.2)

/-- A page: the rows, their counts, and for the second kind their lines. -/
def listPage (tables : Tables) (ctx : StaffCtx) (input : ListPageInput)
    (queryMatch : QueryMatch) : Except ListError ListOutput :=
  let cursor := input.cursor.bind parseListOrdersCursor
  if input.cursor.isSome ∧ cursor.isNone then
    .error (.coreInvariant
      "listOrders cursor passed validation but failed to parse")
  else
    let pageRows := pageRowsOf tables
      (headerPredicates ctx input.filter queryMatch.predicate) cursor
      input.limit
    let (page, nextCursor) := paginate pageRows input.limit fun last =>
      formatListOrdersCursor last.createdAt last.id
    let itemCountByOrder := itemCountsByOrder tables ctx (page.map (·.id))
    let summaries := page.map fun row =>
      toSummaryRow row ((itemCountByOrder row.id).getD 0)
    match input.kind with
    | .summary =>
        if page = [] then .ok (.summary [] none queryMatch.truncated)
        else .ok (.summary summaries nextCursor queryMatch.truncated)
    | .withLines =>
        if page = [] then .ok (.withLines [] none queryMatch.truncated false)
        else
          let (items, linesTruncated) := withLines
            (compactLinesByOrder tables ctx (page.map (·.id)))
            LIST_ORDERS_WITH_LINES_MAX_LINES summaries
          .ok (.withLines items nextCursor queryMatch.truncated
            linesTruncated)

/-- `orders.list` for a page. -/
def executeListOrders (tables : Tables) (ctx : StaffCtx)
    (input : ListPageInput) : Except ListError ListOutput :=
  if input.accepted = false then .error .validation
  else
    let queryMatch := resolveQueryMatch ctx (input.filter.bind (·.query))
    if queryMatch.empty = true then
      match input.kind with
      | .withLines =>
          .ok (.withLines [] none queryMatch.truncated false)
      | .summary => .ok (.summary [] none queryMatch.truncated)
    else listPage tables ctx input queryMatch

end Shozee.Orders.Listing
