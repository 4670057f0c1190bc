import Mathlib.Data.List.DropRight
import Mathlib.Data.List.Nodup
import Shozee.Events.Emit

/-!
# An order before it is written

`orders.create` and its preview card start alike. `resolveCreateOrderDraft`
asks three other modules who the customer is, which products the lines name
and what they cost, one nested call after another, and
`priceOrderLinesInSingleCurrency` puts amounts on the lines. What the nested
calls answer is `CtxCall`, one function for each of them.

Money on the wire is a canonical decimal string, which the schemas make the
same thing as an integer, and is an integer here; a quantity in thousandths is
a natural number.
-/

namespace Shozee.Orders

/-! ## Money -/

/-- Quantity scale 3: 1 unit is 1000 milli. -/
def quantityMilliScale : ℤ := 1000

/-- The largest number of a `bigint` column. -/
def int64Max : ℤ := 9223372036854775807

/-- What a service throws. `called` is what a nested call has thrown. -/
inductive OrderError
  | validation (path : List String) (clientMessage : String)
  | conflict (clientMessage : String)
  | coreInvariant (internalMessage : String)
  | called (action : String)
deriving DecidableEq, Repr

/-- Rounds to the nearest integer, ties away from zero. -/
def roundHalfAwayFromZero (numerator denominator : ℤ) :
    Except OrderError ℤ :=
  if denominator = 0 then
    .error (.coreInvariant "cannot round with a zero denominator")
  else
    let negative := decide (numerator < 0) != decide (denominator < 0)
    let quotient : ℤ := (numerator.natAbs / denominator.natAbs : ℕ)
    let remainder := numerator.natAbs % denominator.natAbs
    let rounded :=
      if denominator.natAbs ≤ remainder * 2 then quotient + 1 else quotient
    .ok (if negative then -rounded else rounded)

/-- Lines of a created order have no discount. -/
inductive DiscountKind
  | none
deriving DecidableEq, Repr

/-- Lines of a created order are exempt. -/
inductive TaxTreatment
  | exempt
deriving DecidableEq, Repr

/-- The amounts of a line, with the discount and the tax that it does not have.
-/
structure ExemptNoneLineAmounts where
  discountKind : DiscountKind
  discountValue : ℤ
  discountAmountMinor : ℤ
  taxTreatment : TaxTreatment
  taxRateBp : ℕ
  taxAmountMinor : ℤ
  netAmountMinor : ℤ
  grossAmountMinor : ℤ
deriving DecidableEq, Repr

/-- The amounts of a line: the product of price and quantity, rounded half away
from zero. -/
def computeExemptNoneLine (unitPriceMinor quantityMilli : ℤ) :
    Except OrderError ExemptNoneLineAmounts := do
  let netAmountMinor ←
    roundHalfAwayFromZero (unitPriceMinor * quantityMilli) quantityMilliScale
  return { discountKind := .none
           discountValue := 0
           discountAmountMinor := 0
           taxTreatment := .exempt
           taxRateBp := 0
           taxAmountMinor := 0
           netAmountMinor
           grossAmountMinor := netAmountMinor }

/-- The title that a line keeps, whatever becomes of its product. -/
def titleSnapshot (productName : String) (variantName : Option String) :
    String :=
  match variantName with
  | none => productName
  | some variant => productName ++ " · " ++ variant

/-! ## Quantities

A decimal quantity is read by the pattern of its schema and scaled by a
thousand. -/

/-- `{ milli }` or `{ decimal }`. -/
inductive QuantityInput
  | milli (milli : ℕ)
  | decimal (decimal : String)
deriving DecidableEq, Repr

/-- The error of a decimal quantity that cannot be read. -/
def DECIMAL_QUANTITY_MESSAGE : String :=
  "Expected a positive decimal string with at most 3 fractional digits"

/-- `/^(?:0|[1-9][0-9]*)(?:\.[0-9]{1,3})?$/`, as the part before the point
and the part after it. -/
def decimalQuantityParts (decimal : String) :
    Option (List Char × List Char) :=
  let whole := decimal.toList.takeWhile (· ≠ '.')
  let rest := decimal.toList.dropWhile (· ≠ '.')
  let frac := rest.tail
  if whole ≠ [] ∧ whole.all Char.isDigit ∧
      (whole.head? = some '0' → whole = ['0']) ∧
      (rest ≠ [] → frac.length ∈ [1, 2, 3] ∧ frac.all Char.isDigit) then
    some (whole, frac)
  else none

/-- Thousandths of a decimal text. Nothing and what a `bigint` cannot hold are
no quantity. -/
def decimalQuantityToMilli (decimal : String) : Option ℕ :=
  match decimalQuantityParts decimal with
  | none => none
  | some (whole, frac) =>
      let milli := Nat.ofDigitChars 10 whole 0 * 1000 +
        Nat.ofDigitChars 10 (frac.rightpad 3 '0') 0
      if milli = 0 ∨ int64Max < milli then none else some milli

/-- Thousandths of either form of input; ones that come as thousandths are
taken as they are. -/
def quantityInputToMilli : QuantityInput → Except OrderError ℕ
  | .milli milli => .ok milli
  | .decimal decimal =>
      match decimalQuantityToMilli decimal with
      | some milli => .ok milli
      | none => .error (.validation ["quantity"] DECIMAL_QUANTITY_MESSAGE)

/-! ## Input -/

/-- A record by its id, or by a text to look for. -/
inductive EntityRef
  | id (id : String)
  | query (value : String)
deriving DecidableEq, Repr

/-- How a line asks for its variant when it gives no reference. -/
inductive VariantSelection
  | unspecified
  | base
  | reference (ref : EntityRef)
deriving DecidableEq, Repr

/-- A line of the input. -/
structure CreateOrderItemInput where
  product : EntityRef
  variant : Option EntityRef
  variantSelection : Option VariantSelection
  quantity : QuantityInput
deriving DecidableEq, Repr

/-- The input of the action. -/
structure CreateOrderInput where
  customer : EntityRef
  items : List CreateOrderItemInput
  comment : Option String
deriving DecidableEq, Repr

/-! ## What the nested calls answer

One field for each action that is called, with what it is asked and what it may
answer. They may fail, and the order of the calls decides which error is
thrown. -/

/-- `customers.resolveCustomerReference`. -/
structure CustomerReference where
  customerId : String
  name : String
deriving DecidableEq, Repr

/-- One line of `catalog.resolveLineReferences`, as asked and as answered. -/
structure CatalogLineInput where
  product : EntityRef
  variantSelection : Option VariantSelection
deriving DecidableEq, Repr

/-- What the catalog answers for a line. -/
structure LineReference where
  productId : String
  productName : String
  variantId : Option String
  variantName : Option String
deriving DecidableEq, Repr

/-- Where a price comes from, the most specific first. -/
inductive PriceSource
  | personal
  | customerPriceList
  | groupPriceList
  | defaultPriceList
  | base
deriving DecidableEq, Repr

/-- The rows that a price comes from. -/
structure PriceSourceIds where
  personalPriceId : Option String
  priceListId : Option String
  entryId : Option String
deriving DecidableEq, Repr

/-- One line of `pricing.resolveProductPrices`, as asked and as answered. -/
structure PriceQuery where
  productId : String
  variantId : Option String
deriving DecidableEq, Repr

/-- What pricing answers for a line. -/
structure ResolvedOrderPrice where
  productId : String
  variantId : Option String
  unitPriceMinor : ℤ
  currency : String
  source : PriceSource
  sourceIds : PriceSourceIds
  resolverVersion : ℕ
deriving DecidableEq, Repr

/-- The calls of other modules that creating an order makes, as functions. -/
structure CtxCall where
  resolveCustomerReference : EntityRef → Except OrderError CustomerReference
  resolveLineReferences :
    List CatalogLineInput → Except OrderError (List LineReference)
  resolveProductPrices :
    List PriceQuery → String → Except OrderError (List ResolvedOrderPrice)

/-! ## The draft

The lines are checked for duplicates before they are sent to the catalogue, and
their order is kept throughout. -/

/-- A line with its product, variant and quantity settled. -/
structure PersistedCreateLine where
  productId : String
  variantId : Option String
  quantityMilli : ℕ
  productName : String
  variantName : Option String
deriving DecidableEq, Repr

/-- All that is known of an order before it is written. -/
structure CreateOrderDraft where
  customerId : String
  customerNameSnapshot : String
  items : List PersistedCreateLine
  prices : List ResolvedOrderPrice
deriving DecidableEq, Repr

/-- A line as the catalog is asked for it. A selection goes before a bare
reference. -/
def toCatalogLineInput (item : CreateOrderItemInput) : CatalogLineInput :=
  match item.variantSelection with
  | some selection => ⟨item.product, some selection⟩
  | none => ⟨item.product, item.variant.map .reference⟩

/-- Two lines that come to one product and variant. -/
def DUPLICATE_ORDER_LINE_MESSAGE : String :=
  "Duplicate product/variant lines are not allowed."

/-- What two lines must not share. The separator is in no id. -/
def canonicalLineKey (item : PersistedCreateLine) : String :=
  item.productId ++ "\x00" ++ item.variantId.getD ""

/-- The check that the lines differ once they are resolved. -/
def assertUniqueCanonicalLines (items : List PersistedCreateLine) :
    Except OrderError Unit :=
  if (items.map canonicalLineKey).Nodup then .ok ()
  else .error (.validation ["items"] DUPLICATE_ORDER_LINE_MESSAGE)

/-- A line of the input with what the catalog answered for it. -/
def persistedCreateLine (item : CreateOrderItemInput) (line : LineReference) :
    Except OrderError PersistedCreateLine := do
  let quantityMilli ← quantityInputToMilli item.quantity
  return { productId := line.productId
           variantId := line.variantId
           quantityMilli
           productName := line.productName
           variantName := line.variantName }

/-- `text.trim()`. -/
def trim (text : String) : String :=
  String.ofList
    ((text.toList.dropWhile Run.isWhiteSpace).rdropWhile
      Run.isWhiteSpace)

/-- The draft of an order: customer, lines and prices, asked for in this order.
-/
def resolveCreateOrderDraft (call : CtxCall) (input : CreateOrderInput) :
    Except OrderError CreateOrderDraft := do
  let customer ← call.resolveCustomerReference input.customer
  let lines ← call.resolveLineReferences (input.items.map toCatalogLineInput)
  if lines.length ≠ input.items.length then
    throw (.coreInvariant ("catalog.resolveLineReferences returned a " ++
      "different line count than create input"))
  let items ← (input.items.zip lines).mapM fun (item, line) =>
    persistedCreateLine item line
  assertUniqueCanonicalLines items
  let prices ← call.resolveProductPrices
    (items.map fun item => ⟨item.productId, item.variantId⟩)
    customer.customerId
  let customerNameSnapshot := trim customer.name
  if customerNameSnapshot = "" then
    throw (.coreInvariant "orders.create customer name snapshot is empty")
  return { customerId := customer.customerId
           customerNameSnapshot
           items
           prices }

/-! ## Pricing the lines

Prices are aligned with the queries by their place, and all must be of one
currency. -/

/-- A price has to be of the line that it stands beside. -/
def validatePriceAlignment (item : PersistedCreateLine)
    (price : ResolvedOrderPrice) (index : ℕ) : Except OrderError Unit :=
  if price.productId = item.productId ∧ price.variantId = item.variantId then
    .ok ()
  else
    .error (.coreInvariant ("pricing.resolveProductPrices row " ++
      toString index ++ " does not match the create line"))

/-- The currency of all prices. -/
def requireSingleCurrency (prices : List ResolvedOrderPrice) :
    Except OrderError String :=
  match prices with
  | [] =>
      .error (.coreInvariant "create input passed Zod min(1) with no prices")
  | first :: _ =>
      if prices.all (·.currency = first.currency) then .ok first.currency
      else .error (.conflict "Order items must share a single currency.")

/-- A line with its price and amounts. -/
structure PricedOrderLine where
  item : PersistedCreateLine
  price : ResolvedOrderPrice
  amounts : ExemptNoneLineAmounts
deriving DecidableEq, Repr

/-- The amounts of one line. -/
def pricedOrderLine (item : PersistedCreateLine) (price : ResolvedOrderPrice)
    (index : ℕ) : Except OrderError PricedOrderLine := do
  validatePriceAlignment item price index
  let amounts ← computeExemptNoneLine price.unitPriceMinor item.quantityMilli
  return { item, price, amounts }

/-- The amounts of all lines, paired by place. -/
def priceOrderLines (items : List PersistedCreateLine)
    (prices : List ResolvedOrderPrice) :
    Except OrderError (List PricedOrderLine) :=
  if prices.length ≠ items.length then
    .error (.coreInvariant ("pricing.resolveProductPrices returned a " ++
      "different item count than create input"))
  else
    ((items.zip prices).zipIdx).mapM fun ((item, price), index) =>
      pricedOrderLine item price index

/-- Priced lines and the currency they share. -/
structure SingleCurrencyPricing where
  currency : String
  priced : List PricedOrderLine
deriving DecidableEq, Repr

/-- The check of the currency, then the amounts. -/
def priceOrderLinesInSingleCurrency (items : List PersistedCreateLine)
    (prices : List ResolvedOrderPrice) :
    Except OrderError SingleCurrencyPricing := do
  let currency ← requireSingleCurrency prices
  let priced ← priceOrderLines items prices
  return { currency, priced }

end Shozee.Orders
