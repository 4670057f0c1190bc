import Shozee.Orders.Numbers
import Shozee.Run.Traverse

/-!
# Writing an order

`orders.create` resolves a draft and writes it: a loop over the priced lines
builds the rows and adds up the totals, another loop allocates order numbers
until one is free and inserts the order, and the lines are inserted last. The
tables are those of one company. What a statement carries is kept in the order
of sending, whether the database accepts it or not.

`createStaffOrderIn_ok` says what a call that succeeds has done: the rows are
those of `createStaffOrder`, with the number that was found.
-/

namespace Shozee.Orders

open Shozee.Run

/-! ## Tables

The tables of one company, the range of their columns, and what the database
answers to an insert that it refuses. -/

/-- The smallest number of a `bigint` column. -/
def int64Min : ℤ := -9223372036854775808

/-- What a `bigint` column holds. -/
def FitsInt64 (n : ℤ) : Prop := int64Min ≤ n ∧ n ≤ int64Max

instance (n : ℤ) : Decidable (FitsInt64 n) :=
  inferInstanceAs (Decidable (_ ∧ _))

/-- A row of `orders`. -/
structure OrderHeader where
  id : String
  companyId : String
  orderNumber : String
  customerId : String
  customerNameSnapshot : String
  status : OrderStatus
  comment : Option String
  totalNetMinor : ℤ
  totalTaxMinor : ℤ
  totalGrossMinor : ℤ
  currency : String
  createdVia : String
  createdAt : ℕ
deriving DecidableEq, Repr

/-- A row of an order with its lines. -/
def OrderHeader.withItems (row : OrderHeader) (items : List OrderItem) :
    StaffOrder :=
  { id := row.id
    companyId := row.companyId
    orderNumber := row.orderNumber
    customerId := row.customerId
    customerNameSnapshot := row.customerNameSnapshot
    status := row.status
    comment := row.comment
    totalNetMinor := row.totalNetMinor
    totalTaxMinor := row.totalTaxMinor
    totalGrossMinor := row.totalGrossMinor
    currency := row.currency
    createdVia := row.createdVia
    createdAt := row.createdAt
    items }

/-- The sums of an order fit their columns. -/
structure OrderHeader.Fits (row : OrderHeader) : Prop where
  totalNetMinor : FitsInt64 row.totalNetMinor
  totalTaxMinor : FitsInt64 row.totalTaxMinor
  totalGrossMinor : FitsInt64 row.totalGrossMinor

instance (row : OrderHeader) : Decidable row.Fits :=
  decidable_of_iff (FitsInt64 row.totalNetMinor ∧
      FitsInt64 row.totalTaxMinor ∧ FitsInt64 row.totalGrossMinor)
    ⟨fun ⟨h₁, h₂, h₃⟩ => ⟨h₁, h₂, h₃⟩, fun ⟨h₁, h₂, h₃⟩ => ⟨h₁, h₂, h₃⟩⟩

/-- The amounts of a line fit their columns. -/
structure OrderItem.Fits (item : OrderItem) : Prop where
  quantityMilli : FitsInt64 item.quantityMilli
  unitPriceMinor : FitsInt64 item.unitPriceMinor
  discountValue : FitsInt64 item.amounts.discountValue
  discountAmountMinor : FitsInt64 item.amounts.discountAmountMinor
  taxAmountMinor : FitsInt64 item.amounts.taxAmountMinor
  netAmountMinor : FitsInt64 item.amounts.netAmountMinor
  grossAmountMinor : FitsInt64 item.amounts.grossAmountMinor

instance (item : OrderItem) : Decidable item.Fits :=
  decidable_of_iff (FitsInt64 item.quantityMilli ∧
      FitsInt64 item.unitPriceMinor ∧ FitsInt64 item.amounts.discountValue ∧
      FitsInt64 item.amounts.discountAmountMinor ∧
      FitsInt64 item.amounts.taxAmountMinor ∧
      FitsInt64 item.amounts.netAmountMinor ∧
      FitsInt64 item.amounts.grossAmountMinor)
    ⟨fun ⟨h₁, h₂, h₃, h₄, h₅, h₆, h₇⟩ => ⟨h₁, h₂, h₃, h₄, h₅, h₆, h₇⟩,
      fun ⟨h₁, h₂, h₃, h₄, h₅, h₆, h₇⟩ => ⟨h₁, h₂, h₃, h₄, h₅, h₆, h₇⟩⟩

/-- The orders of a company, and the row of `order_number_counters`. -/
structure OrdersDb where
  lastNumber : Option ℕ
  orders : List OrderHeader
  orderItems : List OrderItem
deriving DecidableEq, Repr

/-- The statements that creating an order runs. -/
inductive Statement
  | counter
  | insertOrder (row : OrderHeader)
  | insertOrderItems (rows : List OrderItem)
deriving DecidableEq, Repr

/-- The values that a statement carries are in the range of their columns. -/
def Statement.Fits : Statement → Prop
  | .counter => True
  | .insertOrder row => row.Fits
  | .insertOrderItems rows => ∀ row ∈ rows, row.Fits

instance (statement : Statement) : Decidable statement.Fits :=
  match statement with
  | .counter => inferInstanceAs (Decidable True)
  | .insertOrder row => inferInstanceAs (Decidable row.Fits)
  | .insertOrderItems rows =>
      inferInstanceAs (Decidable (∀ row ∈ rows, row.Fits))

/-- What the database answers to an insert that it does not carry out. -/
inductive InsertError
  | outOfRange
  | uniqueOrderNumber
deriving DecidableEq, Repr

/-- The insert of an order. Its number must be new in the company. -/
def OrdersDb.insertOrder (db : OrdersDb) (row : OrderHeader) :
    Except InsertError OrdersDb :=
  if ¬ row.Fits then .error .outOfRange
  else if row.orderNumber ∈ db.orders.map (·.orderNumber) then
    .error .uniqueOrderNumber
  else .ok { db with orders := db.orders ++ [row] }

/-- The insert of its lines, all or none. -/
def OrdersDb.insertOrderItems (db : OrdersDb) (rows : List OrderItem) :
    Except InsertError OrdersDb :=
  if ∀ row ∈ rows, row.Fits then
    .ok { db with orderItems := db.orderItems ++ rows }
  else .error .outOfRange

/-! ## Allocating a number

The counter is moved on before each attempt, and a number that is taken costs
one. -/

/-- What the action throws. -/
inductive CreateError
  | order (error : OrderError)
  | range (error : RangeError)
  | database (error : InsertError)
deriving DecidableEq, Repr

/-- What a function of the service has done: its result, the tables as its
transaction sees them, and what it has sent. -/
structure CreateOutcome (α : Type) where
  result : Except CreateError α
  db : OrdersDb
  sent : List Statement
deriving DecidableEq

/-- A number is drawn this many times at most. -/
def ORDER_NUMBER_ALLOCATE_ATTEMPTS : ℕ := 8

/-- The upsert of the counter, which returns the number it has then. -/
def allocateNextOrderSequence (db : OrdersDb) : ℕ × OrdersDb :=
  let lastNumber :=
    match db.lastNumber with
    | none => 1
    | some lastNumber => lastNumber + 1
  (lastNumber, { db with lastNumber := some lastNumber })

/-- The error that a refused insert becomes. -/
def mapOrderNumberUniqueViolation (error : InsertError) : CreateError :=
  match error with
  | .uniqueOrderNumber => .order (.conflict "Order number already assigned.")
  | .outOfRange => .database .outOfRange

/-- The loop of `insertNumberedHeader`; `values` is the row but for its
number. -/
def insertNumberedHeader (values : String → OrderHeader)
    (numberingPrefix : String) :
    ℕ → Option CreateError → OrdersDb → List Statement → CreateOutcome OrderHeader
  | 0, lastConflict, db, sent =>
      { result := .error (lastConflict.getD (.order
          (.coreInvariant "orders.create failed to allocate order_number")))
        db
        sent }
  | attempts + 1, _, db, sent =>
      let db' := (allocateNextOrderSequence db).2
      match formatStaffOrderNumber numberingPrefix
          (allocateNextOrderSequence db).1 with
      | .error error =>
          { result := .error (.range error)
            db := db'
            sent := sent ++ [.counter] }
      | .ok orderNumber =>
          let row := values orderNumber
          let sent' := sent ++ [.counter, .insertOrder row]
          match db'.insertOrder row with
          | .ok db'' => { result := .ok row, db := db'', sent := sent' }
          | .error error =>
              match mapOrderNumberUniqueViolation error with
              | .order (.conflict message) =>
                  insertNumberedHeader values numberingPrefix attempts
                    (some (.order (.conflict message))) db' sent'
              | mapped => { result := .error mapped, db := db', sent := sent' }

/-! ## The order

The loop over the lines builds their rows and adds up the totals at once. The
number is allocated after it. -/

/-- What `createStaffOrder` draws but for the number. -/
structure CreateDraws where
  companyId : String
  channel : String
  orderId : String
  itemId : ℕ → String
  createdAt : ℕ

/-- What was drawn for an order, with the number it has got. -/
def CreateDraws.numbered (draws : CreateDraws) (orderNumber : String) :
    OrderDraws :=
  { companyId := draws.companyId
    channel := draws.channel
    orderId := draws.orderId
    itemId := draws.itemId
    orderNumber
    createdAt := draws.createdAt }

/-- The variables of the loop over the priced lines. -/
structure OrderLoop where
  lines : List OrderItem
  totalNetMinor : ℤ
  totalTaxMinor : ℤ
  totalGrossMinor : ℤ

/-- One line of the loop: its row and what it adds to the sums. -/
def OrderLoop.add (draws : CreateDraws) (loop : OrderLoop)
    (line : PricedOrderLine) : OrderLoop :=
  let item :=
    buildOrderLine line draws.orderId (draws.itemId loop.lines.length)
  { lines := loop.lines ++ [item]
    totalNetMinor := loop.totalNetMinor + item.amounts.netAmountMinor
    totalTaxMinor := loop.totalTaxMinor + item.amounts.taxAmountMinor
    totalGrossMinor := loop.totalGrossMinor + item.amounts.grossAmountMinor }

/-- The rows and sums of all lines. -/
def orderLoop (draws : CreateDraws) (priced : List PricedOrderLine) :
    OrderLoop :=
  priced.foldl (OrderLoop.add draws) ⟨[], 0, 0, 0⟩

/-- The values of the order's row, but for its number. -/
def orderValues (draws : CreateDraws) (comment : Option String)
    (draft : CreateOrderDraft) (currency : String) (loop : OrderLoop)
    (orderNumber : String) : OrderHeader :=
  { id := draws.orderId
    companyId := draws.companyId
    orderNumber
    customerId := draft.customerId
    customerNameSnapshot := draft.customerNameSnapshot
    status := .new
    comment := normalizeOrderComment comment
    totalNetMinor := loop.totalNetMinor
    totalTaxMinor := loop.totalTaxMinor
    totalGrossMinor := loop.totalGrossMinor
    currency
    createdVia := draws.channel
    createdAt := draws.createdAt }

/-- `createStaffOrder` on the company's tables. -/
def createStaffOrderIn (draws : CreateDraws) (comment : Option String)
    (numberingPrefix : String) (draft : CreateOrderDraft) (db : OrdersDb) :
    CreateOutcome CreateOrderSummary :=
  match priceOrderLinesInSingleCurrency draft.items draft.prices with
  | .error error => { result := .error (.order error), db, sent := [] }
  | .ok pricing =>
      let loop := orderLoop draws pricing.priced
      let header := insertNumberedHeader
        (orderValues draws comment draft pricing.currency loop)
        numberingPrefix ORDER_NUMBER_ALLOCATE_ATTEMPTS none db []
      match header.result with
      | .error error =>
          { result := .error error, db := header.db, sent := header.sent }
      | .ok row =>
          let sent := header.sent ++ [.insertOrderItems loop.lines]
          match header.db.insertOrderItems loop.lines with
          | .error error =>
              { result := .error (.database error), db := header.db, sent }
          | .ok db =>
              { result := .ok
                  { orderId := draws.orderId
                    orderNumber := row.orderNumber
                    nameSnapshot := draft.customerNameSnapshot
                    linkedCustomerId := draft.customerId
                    status := .new
                    itemCount := draft.items.length
                    totalNetMinor := loop.totalNetMinor
                    totalTaxMinor := loop.totalTaxMinor
                    totalGrossMinor := loop.totalGrossMinor
                    currency := pricing.currency
                    createdAt := row.createdAt }
                db
                sent }

/-- The handler of `orders.create`. `getCompany` is the prefix of the company
that `companies.get` answers with. -/
def createOrder (call : CtxCall) (getCompany : Except OrderError String)
    (draws : CreateDraws) (input : CreateOrderInput) (db : OrdersDb) :
    CreateOutcome CreateOrderSummary :=
  match resolveCreateOrderDraft call input with
  | .error error => { result := .error (.order error), db, sent := [] }
  | .ok draft =>
      match getCompany with
      | .error error => { result := .error (.order error), db, sent := [] }
      | .ok numberingPrefix =>
          createStaffOrderIn draws input.comment numberingPrefix draft db

/-! ## What a call that succeeds has done

The loops, read as equations, and what they leave in the tables. -/

theorem orderLoop_fold (draws : CreateDraws) (priced : List PricedOrderLine)
    (loop : OrderLoop) :
    let items := (priced.zipIdx loop.lines.length).map fun (line, index) =>
      buildOrderLine line draws.orderId (draws.itemId index)
    priced.foldl (OrderLoop.add draws) loop =
      { lines := loop.lines ++ items
        totalNetMinor :=
          loop.totalNetMinor + (items.map (·.amounts.netAmountMinor)).sum
        totalTaxMinor :=
          loop.totalTaxMinor + (items.map (·.amounts.taxAmountMinor)).sum
        totalGrossMinor :=
          loop.totalGrossMinor +
            (items.map (·.amounts.grossAmountMinor)).sum } := by
  induction priced generalizing loop with
  | nil => simp
  | cons line priced ih =>
      rw [List.foldl_cons, ih]
      simp [OrderLoop.add, List.zipIdx_cons, add_assoc]

/-- The loop builds the rows and adds up what is in them. -/
theorem orderLoop_eq (draws : CreateDraws) (orderNumber : String)
    (priced : List PricedOrderLine) :
    let items := buildOrderLines priced (draws.numbered orderNumber)
    orderLoop draws priced =
      { lines := items
        totalNetMinor := (items.map (·.amounts.netAmountMinor)).sum
        totalTaxMinor := (items.map (·.amounts.taxAmountMinor)).sum
        totalGrossMinor := (items.map (·.amounts.grossAmountMinor)).sum } := by
  unfold orderLoop
  rw [orderLoop_fold]
  simp [buildOrderLines, CreateDraws.numbered]

section Insert

variable {db : OrdersDb} {row : OrderHeader}

theorem insertOrder_unfit (h : ¬ row.Fits) :
    db.insertOrder row = .error .outOfRange :=
  if_pos h

theorem insertOrder_used (hfits : row.Fits)
    (hused : row.orderNumber ∈ db.orders.map (·.orderNumber)) :
    db.insertOrder row = .error .uniqueOrderNumber := by
  unfold OrdersDb.insertOrder
  rw [if_neg (not_not.mpr hfits), if_pos hused]

theorem insertOrder_free (hfits : row.Fits)
    (hfree : row.orderNumber ∉ db.orders.map (·.orderNumber)) :
    db.insertOrder row = .ok { db with orders := db.orders ++ [row] } := by
  unfold OrdersDb.insertOrder
  rw [if_neg (not_not.mpr hfits), if_neg hfree]

end Insert

theorem insertOrderItems_eq_ok {db db' : OrdersDb} {rows : List OrderItem}
    (h : db.insertOrderItems rows = .ok db') :
    (∀ row ∈ rows, row.Fits) ∧
      db' = { db with orderItems := db.orderItems ++ rows } := by
  unfold OrdersDb.insertOrderItems at h
  split at h
  · rename_i hfits
    cases h
    exact ⟨hfits, rfl⟩
  · cases h

/-- The number that a sequence number is written as. -/
def staffOrderNumber (numberingPrefix : String) (sequence : ℕ) : String :=
  String.ofList
    (numberingPrefix.toList ++ '-' :: base36 (obfuscated sequence))

theorem formatStaffOrderNumber_natCast (numberingPrefix : String)
    {sequence : ℕ} (hpos : 0 < sequence) :
    formatStaffOrderNumber numberingPrefix sequence =
      .ok (staffOrderNumber numberingPrefix sequence) :=
  formatStaffOrderNumber_eq numberingPrefix (Int.natCast_pos.mpr hpos)

/-- The tables with the counter one further. -/
def OrdersDb.allocated (db : OrdersDb) : OrdersDb :=
  { db with lastNumber := some (db.lastNumber.getD 0 + 1) }

theorem allocateNextOrderSequence_eq (db : OrdersDb) :
    allocateNextOrderSequence db =
      (db.lastNumber.getD 0 + 1, db.allocated) := by
  unfold allocateNextOrderSequence OrdersDb.allocated
  cases db.lastNumber with
  | none => rfl
  | some lastNumber => rfl

section Header

variable {values : String → OrderHeader} {numberingPrefix : String}
  {attempts : ℕ} {lastConflict : Option CreateError} {db : OrdersDb}
  {sent : List Statement}

/-- One round of the allocation loop. -/
theorem insertNumberedHeader_succ :
    insertNumberedHeader values numberingPrefix (attempts + 1) lastConflict
        db sent =
      let sequence := db.lastNumber.getD 0 + 1
      let row := values (staffOrderNumber numberingPrefix sequence)
      let sent := sent ++ [.counter, .insertOrder row]
      if ¬ row.Fits then
        { result := .error (.database .outOfRange), db := db.allocated, sent }
      else if row.orderNumber ∈ db.orders.map (·.orderNumber) then
        insertNumberedHeader values numberingPrefix attempts
          (some (.order (.conflict "Order number already assigned.")))
          db.allocated sent
      else
        { result := .ok row
          db := { db.allocated with orders := db.orders ++ [row] }
          sent } := by
  have hformat : formatStaffOrderNumber numberingPrefix
      (allocateNextOrderSequence db).1 =
        .ok (staffOrderNumber numberingPrefix (db.lastNumber.getD 0 + 1)) := by
    rw [allocateNextOrderSequence_eq]
    exact formatStaffOrderNumber_natCast numberingPrefix (Nat.succ_pos _)
  rw [insertNumberedHeader, hformat, allocateNextOrderSequence_eq]
  dsimp only
  generalize values (staffOrderNumber numberingPrefix
    (db.lastNumber.getD 0 + 1)) = row
  by_cases hfits : row.Fits
  · rw [if_neg (not_not.mpr hfits)]
    by_cases hused : row.orderNumber ∈ db.orders.map (·.orderNumber)
    · rw [if_pos hused,
        insertOrder_used hfits (show _ ∈ db.allocated.orders.map _ from hused)]
      rfl
    · rw [if_neg hused,
        insertOrder_free hfits (show _ ∉ db.allocated.orders.map _ from hused)]
      rfl
  · rw [if_pos hfits, insertOrder_unfit hfits]
    rfl

/-- The allocation loop, when it finds a number: one row is new, and only the
counter has moved besides. -/
theorem insertNumberedHeader_ok {row : OrderHeader}
    (h : (insertNumberedHeader values numberingPrefix attempts lastConflict
      db sent).result = .ok row) :
    (∃ orderNumber, row = values orderNumber) ∧ row.Fits ∧
      row.orderNumber ∉ db.orders.map (·.orderNumber) ∧
      ∃ lastNumber,
        (insertNumberedHeader values numberingPrefix attempts lastConflict
          db sent).db = { db with lastNumber, orders := db.orders ++ [row] } := by
  induction attempts generalizing lastConflict db sent with
  | zero => cases h
  | succ attempts ih =>
      rw [insertNumberedHeader_succ] at h ⊢
      dsimp only at h ⊢
      by_cases hfits : (values (staffOrderNumber numberingPrefix
          (db.lastNumber.getD 0 + 1))).Fits
      · rw [if_neg (not_not.mpr hfits)] at h ⊢
        split
        · rename_i hused
          rw [if_pos hused] at h
          exact ih h
        · rename_i hfree
          rw [if_neg hfree] at h
          cases h
          exact ⟨⟨_, rfl⟩, hfits, hfree, _, rfl⟩
      · rw [if_pos hfits] at h
        cases h

end Header

theorem priceOrderLinesInSingleCurrency_eq_ok
    {items : List PersistedCreateLine} {prices : List ResolvedOrderPrice}
    {pricing : SingleCurrencyPricing} :
    priceOrderLinesInSingleCurrency items prices = .ok pricing ↔
      requireSingleCurrency prices = .ok pricing.currency ∧
        priceOrderLines items prices = .ok pricing.priced := by
  unfold priceOrderLinesInSingleCurrency
  rw [bind_eq_ok]
  constructor
  · intro ⟨currency, hcurrency, h⟩
    obtain ⟨priced, hpriced, h⟩ := bind_eq_ok.mp h
    cases h
    exact ⟨hcurrency, hpriced⟩
  · intro ⟨hcurrency, hpriced⟩
    exact ⟨_, hcurrency, bind_eq_ok.mpr ⟨_, hpriced, rfl⟩⟩

theorem pricedOrderLine_eq_ok {item : PersistedCreateLine}
    {price : ResolvedOrderPrice} {index : ℕ} {line : PricedOrderLine}
    (h : pricedOrderLine item price index = .ok line) :
    line.item = item ∧ line.price = price ∧
      computeExemptNoneLine price.unitPriceMinor item.quantityMilli =
        .ok line.amounts := by
  obtain ⟨_, -, h⟩ := bind_eq_ok.mp h
  obtain ⟨amounts, hamounts, h⟩ := bind_eq_ok.mp h
  cases h
  exact ⟨rfl, rfl, hamounts⟩

/-- The lines of a draft, priced: one for each item, in the same order. -/
theorem priceOrderLines_spec {items : List PersistedCreateLine}
    {prices : List ResolvedOrderPrice} {priced : List PricedOrderLine}
    (h : priceOrderLines items prices = .ok priced) :
    priced.map (·.item) = items ∧ priced.map (·.price) = prices ∧
      ∀ line ∈ priced, computeExemptNoneLine line.price.unitPriceMinor
        line.item.quantityMilli = .ok line.amounts := by
  unfold priceOrderLines at h
  split at h
  · cases h
  · rename_i hlength
    have hlength : items.length = prices.length := by omega
    refine ⟨?_, ?_, ?_⟩
    · rw [map_of_mapM (k := Prod.fst ∘ Prod.fst) h
        fun _ _ hline => (pricedOrderLine_eq_ok hline).1, ← List.map_map,
        List.zipIdx_map_fst, List.map_fst_zip hlength.le]
    · rw [map_of_mapM (k := Prod.snd ∘ Prod.fst) h
        fun _ _ hline => (pricedOrderLine_eq_ok hline).2.1, ← List.map_map,
        List.zipIdx_map_fst, List.map_snd_zip hlength.ge]
    · intro line hline
      obtain ⟨_, _, hpriced⟩ := mem_of_mapM h hline
      obtain ⟨hitem, hprice, hamounts⟩ := pricedOrderLine_eq_ok hpriced
      rw [hitem, hprice]
      exact hamounts

/-- A call that succeeds has inserted the order that `createStaffOrder`
describes, with the number that was found, and returns its summary. -/
theorem createStaffOrderIn_ok {draws : CreateDraws} {comment : Option String}
    {numberingPrefix : String} {draft : CreateOrderDraft} {db : OrdersDb}
    {summary : CreateOrderSummary}
    (h : (createStaffOrderIn draws comment numberingPrefix draft db).result =
      .ok summary) :
    ∃ pricing row, ∃ items lastNumber,
      priceOrderLinesInSingleCurrency draft.items draft.prices = .ok pricing ∧
      items = buildOrderLines pricing.priced (draws.numbered row.orderNumber) ∧
      createStaffOrder (draws.numbered row.orderNumber) comment draft =
        .ok (row.withItems items) ∧
      (createStaffOrderIn draws comment numberingPrefix draft db).db =
        { lastNumber
          orders := db.orders ++ [row]
          orderItems := db.orderItems ++ items } ∧
      row.orderNumber ∉ db.orders.map (·.orderNumber) ∧
      row.Fits ∧ (∀ item ∈ items, item.Fits) ∧
      summary = (row.withItems items).summary := by
  unfold createStaffOrderIn at h ⊢
  cases hpricing : priceOrderLinesInSingleCurrency draft.items draft.prices with
  | error error =>
      rw [hpricing] at h
      cases h
  | ok pricing =>
      rw [hpricing] at h
      dsimp only at h ⊢
      generalize hheader : insertNumberedHeader _ _ _ _ _ _ = header at h ⊢
      cases hresult : header.result with
      | error error =>
          rw [hresult] at h
          cases h
      | ok row =>
          rw [hresult] at h
          dsimp only at h ⊢
          rw [← hheader] at hresult
          obtain ⟨⟨orderNumber, hrow⟩, hfits, hfree, lastNumber, hdb⟩ :=
            insertNumberedHeader_ok hresult
          rw [hheader] at hdb
          split at h
          · cases h
          · rename_i db' hinsert
            obtain ⟨hitems, rfl⟩ := insertOrderItems_eq_ok hinsert
            cases h
            have hloop := orderLoop_eq draws row.orderNumber pricing.priced
            have hlength := congrArg List.length (priceOrderLines_spec
              (priceOrderLinesInSingleCurrency_eq_ok.mp hpricing).2).1
            rw [List.length_map] at hlength
            rw [hloop] at hrow hitems ⊢
            have hnumber : row.orderNumber = orderNumber := by rw [hrow]; rfl
            refine ⟨pricing, row, _, lastNumber, rfl, rfl, ?_, ?_, hfree,
              hfits, hitems, ?_⟩
            · unfold createStaffOrder
              rw [hpricing, hrow]
              rfl
            · show ({ header.db with
                orderItems := header.db.orderItems ++ _ } : OrdersDb) = _
              rw [hdb]
            · have hitemsLength : draft.items.length =
                  (buildOrderLines pricing.priced
                    (draws.numbered row.orderNumber)).length := by
                rw [← hlength, buildOrderLines, List.length_map,
                  List.length_zipIdx]
              rw [hitemsLength, hrow]
              rfl

end Shozee.Orders
