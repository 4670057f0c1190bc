import Mathlib
import Shozee.Confirmation.Gate
import Shozee.Orders.Draft
import Shozee.Pipeline.Factories

/-!
# The card of an order, and the order

`createOrderPreview` and `createStaffOrder` price the same draft, the one to
show it and the other to write it down. `Shows` is what the card then says of
the rows: `preview_shows`.

The order number comes from a counter and the ids are random; both are among
what the environment draws (`OrderDraws`).
-/

namespace Shozee.Orders

open Shozee.Confirmation (ActionPreview ActionPreviewLine)
open Shozee.Run (bind_eq_ok)

/-! ## Texts

How amounts and quantities are written on a card. Digits are grouped from the
right. -/

/-- Three digits at a time, from the last. -/
def groupReversed : List Char → List Char
  | a :: b :: c :: d :: rest => a :: b :: c :: ' ' :: groupReversed (d :: rest)
  | short => short

/-- Digits in groups of three. -/
def groupThousands (whole : List Char) : List Char :=
  (groupReversed whole.reverse).reverse

/-- The wire form of `minor` has digits only, so the check on them passes. -/
def formatMinorUnits (minor : ℤ) (fractionDigits : ℕ) : String :=
  let padded := (Nat.toDigits 10 minor.natAbs).leftpad (fractionDigits + 1) '0'
  let whole := padded.take (padded.length - fractionDigits)
  let frac := padded.drop (padded.length - fractionDigits)
  (if minor < 0 then "-" else "") ++
    String.ofList (groupThousands whole ++ ',' :: frac)

/-- The currency as a card writes it. -/
def currencySuffix (currency : String) : String :=
  if currency = "UAH" then "грн" else currency

/-- An amount as a card writes it. -/
def formatMoneyMinor (minor : ℤ) (currency : String) : String :=
  formatMinorUnits minor 2 ++ " " ++ currencySuffix currency

/-- A quantity as a card writes it, without zeros at its end. No quantity is
nothing. -/
def formatQuantityMilli (milli : ℕ) : Except OrderError String :=
  if milli = 0 then
    .error (.coreInvariant "illegal quantity_milli string \"0\"")
  else
    let padded := (Nat.toDigits 10 milli).leftpad 4 '0'
    let whole := padded.take (padded.length - 3)
    let frac := (padded.drop (padded.length - 3)).rdropWhile (· = '0')
    .ok (String.ofList
      (if frac = [] then groupThousands whole
       else groupThousands whole ++ ',' :: frac))

/-- `null` is `none`. -/
def normalizeOrderComment (comment : Option String) : Option String :=
  match comment with
  | none => none
  | some text => if trim text = "" then none else some (trim text)

/-! ## The card

`orderPreviewCard` and its parts, as `preview.ts` builds them. -/

/-- Where a price comes from, in the card's words. -/
def PriceSource.label : PriceSource → String
  | .personal => "персональна ціна"
  | .customerPriceList => "прайс-лист клієнта"
  | .groupPriceList => "прайс-лист групи"
  | .defaultPriceList => "основний прайс-лист"
  | .base => "базова ціна"

/-- The label of the sum. -/
def ORDER_PREVIEW_TOTAL_LABEL : String := "Разом"

/-- The label of the comment. -/
def ORDER_PREVIEW_COMMENT_LABEL : String := "Коментар"

/-- The beginning of the note on prices. -/
def ORDER_PREVIEW_PRICES_NOTE_PREFIX : String := "Ціни"

/-- What stands for a missing comment. -/
def PREVIEW_ABSENT : String := "—"

/-- What the card needs of a line. -/
structure OrderPreviewLineFacts where
  title : String
  quantityMilli : ℕ
  unitPriceMinor : ℤ
  grossAmountMinor : ℤ
  currency : String
deriving DecidableEq, Repr

/-- A line of the card: quantity, price and amount. -/
def orderPreviewLine (facts : OrderPreviewLineFacts) :
    Except OrderError ActionPreviewLine := do
  let quantity ← formatQuantityMilli facts.quantityMilli
  let unit := formatMoneyMinor facts.unitPriceMinor facts.currency
  let gross := formatMoneyMinor facts.grossAmountMinor facts.currency
  return { label := facts.title
           value := quantity ++ " × " ++ unit ++ " = " ++ gross }

/-- The line of the sum. -/
def orderPreviewTotalLine (totalGrossMinor : ℤ) (currency : String) :
    ActionPreviewLine :=
  { label := ORDER_PREVIEW_TOTAL_LABEL
    value := formatMoneyMinor totalGrossMinor currency }

/-- The line of the comment, which is there without one also. -/
def orderPreviewCommentLine (comment : Option String) : ActionPreviewLine :=
  { label := ORDER_PREVIEW_COMMENT_LABEL
    value := (normalizeOrderComment comment).getD PREVIEW_ABSENT }

/-- The values in the order of their first occurrence, as `new Set` has
them. -/
def distinct {α : Type} [DecidableEq α] (values : List α) : List α :=
  values.reverse.dedup.reverse

/-- The note on where the prices come from, each source once. -/
def orderPreviewPricesNote (sources : List PriceSource) : String :=
  ORDER_PREVIEW_PRICES_NOTE_PREFIX ++ ": " ++
    ", ".intercalate ((distinct sources).map PriceSource.label)

/-- The title of the card. -/
def orderPreviewCustomerTitle (subject customerName : String) : String :=
  subject ++ ": " ++ customerName

/-- What the card says of a priced line. -/
def PricedOrderLine.facts (line : PricedOrderLine) (currency : String) :
    OrderPreviewLineFacts :=
  { title := titleSnapshot line.item.productName line.item.variantName
    quantityMilli := line.item.quantityMilli
    unitPriceMinor := line.price.unitPriceMinor
    grossAmountMinor := line.amounts.grossAmountMinor
    currency }

/-- The sum of the lines. -/
def totalGross (priced : List PricedOrderLine) : ℤ :=
  (priced.map (·.amounts.grossAmountMinor)).sum

/-- `createOrderPreview` once the draft is resolved. -/
def draftPreview (input : CreateOrderInput) (draft : CreateOrderDraft) :
    Except OrderError ActionPreview := do
  let pricing ← priceOrderLinesInSingleCurrency draft.items draft.prices
  let lines ← (pricing.priced.map (·.facts pricing.currency)).mapM
    orderPreviewLine
  let total :=
    orderPreviewTotalLine (totalGross pricing.priced) pricing.currency
  let comment :=
    if input.comment.isSome then [orderPreviewCommentLine input.comment]
    else []
  return { title := orderPreviewCustomerTitle "Нове замовлення"
             draft.customerNameSnapshot
           lines := lines ++ [total] ++ comment
           notes := some
             [orderPreviewPricesNote (pricing.priced.map (·.price.source))] }

/-- The card of an input: its draft, priced and written out. -/
def createOrderPreview (call : CtxCall) (input : CreateOrderInput) :
    Except OrderError ActionPreview := do
  let draft ← resolveCreateOrderDraft call input
  draftPreview input draft

/-! ## The order

The rows that `createStaffOrder` writes for a priced draft. Ids and the order
number are drawn elsewhere. -/

/-- The life of an order. -/
inductive OrderStatus
  | new
  | confirmed
  | inProgress
  | done
  | canceled
deriving DecidableEq, Repr

/-- A row of `order_items`. -/
structure OrderItem where
  id : String
  orderId : String
  productId : String
  variantId : Option String
  titleSnapshot : String
  quantityMilli : ℕ
  unitPriceMinor : ℤ
  amounts : ExemptNoneLineAmounts
  currency : String
  priceSource : PriceSource
  sourceIds : PriceSourceIds
  resolverVersion : ℕ
deriving DecidableEq, Repr

/-- A row of `orders`, with its items. -/
structure StaffOrder where
  id : String
  companyId : String
  orderNumber : String
  customerId : String
  customerNameSnapshot : String
  status : OrderStatus
  comment : Option String
  totalNetMinor : ℤ
  totalTaxMinor : ℤ
  totalGrossMinor : ℤ
  currency : String
  createdVia : String
  createdAt : ℕ
  items : List OrderItem
deriving DecidableEq, Repr

/-- What creating an order answers with. -/
structure CreateOrderSummary where
  orderId : String
  orderNumber : String
  nameSnapshot : String
  linkedCustomerId : String
  status : OrderStatus
  itemCount : ℕ
  totalNetMinor : ℤ
  totalTaxMinor : ℤ
  totalGrossMinor : ℤ
  currency : String
  createdAt : ℕ
deriving DecidableEq, Repr

/-- What `createStaffOrder` does not compute: the context it runs in, random
ids, the number that the company's counter gives, the database's clock. -/
structure OrderDraws where
  companyId : String
  channel : String
  orderId : String
  itemId : ℕ → String
  orderNumber : String
  createdAt : ℕ

/-- The row of a line. -/
def buildOrderLine (line : PricedOrderLine) (orderId itemId : String) :
    OrderItem :=
  { id := itemId
    orderId
    productId := line.item.productId
    variantId := line.item.variantId
    titleSnapshot := titleSnapshot line.item.productName line.item.variantName
    quantityMilli := line.item.quantityMilli
    unitPriceMinor := line.price.unitPriceMinor
    amounts := line.amounts
    currency := line.price.currency
    priceSource := line.price.source
    sourceIds := line.price.sourceIds
    resolverVersion := line.price.resolverVersion }

/-- The rows of `order_items` for the priced lines. -/
def buildOrderLines (priced : List PricedOrderLine) (draws : OrderDraws) :
    List OrderItem :=
  priced.zipIdx.map fun (line, index) =>
    buildOrderLine line draws.orderId (draws.itemId index)

/-- The rows that `createStaffOrder` inserts. -/
def createStaffOrder (draws : OrderDraws) (comment : Option String)
    (draft : CreateOrderDraft) : Except OrderError StaffOrder := do
  let pricing ← priceOrderLinesInSingleCurrency draft.items draft.prices
  let items := buildOrderLines pricing.priced draws
  return { id := draws.orderId
           companyId := draws.companyId
           orderNumber := draws.orderNumber
           customerId := draft.customerId
           customerNameSnapshot := draft.customerNameSnapshot
           status := .new
           comment := normalizeOrderComment comment
           totalNetMinor := (items.map (·.amounts.netAmountMinor)).sum
           totalTaxMinor := (items.map (·.amounts.taxAmountMinor)).sum
           totalGrossMinor := (items.map (·.amounts.grossAmountMinor)).sum
           currency := pricing.currency
           createdVia := draws.channel
           createdAt := draws.createdAt
           items }

/-- What `createStaffOrder` returns. -/
def StaffOrder.summary (order : StaffOrder) : CreateOrderSummary :=
  { orderId := order.id
    orderNumber := order.orderNumber
    nameSnapshot := order.customerNameSnapshot
    linkedCustomerId := order.customerId
    status := .new
    itemCount := order.items.length
    totalNetMinor := order.totalNetMinor
    totalTaxMinor := order.totalTaxMinor
    totalGrossMinor := order.totalGrossMinor
    currency := order.currency
    createdAt := order.createdAt }

/-! ## What the card says of the order

A card shows texts and an order has numbers. They agree when each text is that
of the number, line by line and in the sums. -/

/-- What a card would say of an item of the order. -/
def OrderItem.facts (item : OrderItem) (currency : String) :
    OrderPreviewLineFacts :=
  { title := item.titleSnapshot
    quantityMilli := item.quantityMilli
    unitPriceMinor := item.unitPriceMinor
    grossAmountMinor := item.amounts.grossAmountMinor
    currency }

/-- The card names the order's customer, and says title, quantity, unit price
and gross amount of each of its items and then its total. -/
def Shows (card : ActionPreview) (order : StaffOrder) : Prop :=
  card.title =
      orderPreviewCustomerTitle "Нове замовлення"
        order.customerNameSnapshot ∧
    ∃ lines,
      (order.items.map (·.facts order.currency)).mapM orderPreviewLine =
        .ok lines ∧
      lines ++ [orderPreviewTotalLine order.totalGrossMinor order.currency] <+:
        card.lines

instance existsOkDecidable {ε α : Type} (x : Except ε α) (P : α → Prop)
    [DecidablePred P] : Decidable (∃ a, x = .ok a ∧ P a) :=
  match x with
  | .ok a => decidable_of_iff (P a)
      ⟨fun h => ⟨a, rfl, h⟩, fun ⟨_, ha, h⟩ => Except.ok.inj ha ▸ h⟩
  | .error _ => .isFalse fun ⟨_, ha, _⟩ => nomatch ha

instance (card : ActionPreview) (order : StaffOrder) :
    Decidable (Shows card order) :=
  inferInstanceAs (Decidable (_ ∧ ∃ _, _ = _ ∧ _))

/-- What is read off the rows, when each row shows it of its priced line. -/
theorem map_buildOrderLines {β : Type} {f : OrderItem → β}
    {g : PricedOrderLine → β} {priced : List PricedOrderLine}
    {draws : OrderDraws}
    (h : ∀ line itemId, f (buildOrderLine line draws.orderId itemId) = g line) :
    (buildOrderLines priced draws).map f = priced.map g := by
  unfold buildOrderLines
  rw [List.map_map]
  calc priced.zipIdx.map _
      = (priced.zipIdx.map Prod.fst).map g := by
        rw [List.map_map]
        exact List.map_congr_left fun pair _ => h pair.1 _
    _ = priced.map g := by rw [List.zipIdx_map_fst]

/-- A row holds of its priced line what the card says of it. -/
theorem map_facts_eq {priced : List PricedOrderLine} {draws : OrderDraws}
    {currency : String} :
    (buildOrderLines priced draws).map (·.facts currency) =
      priced.map (·.facts currency) :=
  map_buildOrderLines fun _ _ => rfl

theorem sum_gross_eq {priced : List PricedOrderLine} {draws : OrderDraws} :
    ((buildOrderLines priced draws).map (·.amounts.grossAmountMinor)).sum =
      totalGross priced := by
  rw [map_buildOrderLines (g := (·.amounts.grossAmountMinor)) fun _ _ => rfl,
    totalGross]

/-- A card and an order made of one draft agree. -/
theorem preview_shows {input : CreateOrderInput} {draft : CreateOrderDraft}
    {draws : OrderDraws} {card : ActionPreview} {order : StaffOrder}
    (hcard : draftPreview input draft = .ok card)
    (horder : createStaffOrder draws input.comment draft = .ok order) :
    Shows card order := by
  obtain ⟨pricing, hpricing, hcard⟩ := bind_eq_ok.mp hcard
  obtain ⟨pricing', hpricing', horder⟩ := bind_eq_ok.mp horder
  rw [hpricing] at hpricing'
  cases hpricing'
  obtain ⟨lines, hlines, hcard⟩ := bind_eq_ok.mp hcard
  cases hcard
  cases horder
  refine ⟨rfl, lines, ?_, ?_⟩
  · show ((buildOrderLines pricing.priced draws).map _).mapM _ = _
    rw [map_facts_eq]
    exact hlines
  · show lines ++ [orderPreviewTotalLine
      ((buildOrderLines pricing.priced draws).map _).sum _] <+: _
    rw [sum_gross_eq]
    exact List.prefix_append _ _

theorem draftPreview_notes {input : CreateOrderInput}
    {draft : CreateOrderDraft} {card : ActionPreview}
    (h : draftPreview input draft = .ok card) : card.notes.isSome = true := by
  obtain ⟨pricing, -, h⟩ := bind_eq_ok.mp h
  obtain ⟨lines, -, h⟩ := bind_eq_ok.mp h
  cases h
  rfl

end Shozee.Orders
