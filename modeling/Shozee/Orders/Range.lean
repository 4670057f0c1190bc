import Mathlib
import Shozee.Orders.Totals

/-!
# What an order writes fits its columns, or does not

The contract of `orders.create` checks a decimal quantity against the range of
a `bigint` column, and a quantity in thousandths by its length alone; prices
are in range because they were stored. The products and their sums are checked
by nothing. `createOrder_safe_iff` says exactly when an order goes wrong.
-/

namespace Shozee.Orders

open Shozee.Run

/-! ## The contract

The bounds that the schema of the request has, and which errors are the
client's fault. -/

/-- An order has this many lines at most. -/
def CREATE_ORDER_MAX_ITEMS : ℕ := 100

/-- The length of a comment. -/
def CREATE_ORDER_COMMENT_MAX : ℕ := 2000

/-- The length of the longest `bigint`, its sign included. -/
def MONEY_WIRE_MAX : ℕ := 20

/-- The length of a decimal quantity. -/
def DECIMAL_QUANTITY_MAX : ℕ := MONEY_WIRE_MAX + 4

/-- `createOrderQuantitySchema`. A canonical string of digits is the number it
is of. -/
def QuantityInput.Accepted : QuantityInput → Prop
  | .milli n => 0 < n ∧ (Nat.toDigits 10 n).length ≤ MONEY_WIRE_MAX
  | .decimal text =>
      text.toList.length ≤ DECIMAL_QUANTITY_MAX ∧
        (decimalQuantityToMilli text).isSome = true

/-- What `createOrderInputSchema` asks of the lines and of the comment. -/
structure CreateOrderInput.Accepted (input : CreateOrderInput) : Prop where
  nonempty : input.items ≠ []
  length : input.items.length ≤ CREATE_ORDER_MAX_ITEMS
  quantity : ∀ item ∈ input.items, item.quantity.Accepted
  exclusive : ∀ item ∈ input.items,
    item.variant = none ∨ item.variantSelection = none
  comment : ∀ comment ∈ input.comment,
    comment.length ≤ CREATE_ORDER_COMMENT_MAX

/-- Whether an error is the client's. -/
def OrderError.isClient : OrderError → Bool
  | .validation .. => true
  | .conflict _ => true
  | .called _ => true
  | .coreInvariant _ => false

/-- Whether an error of creating an order is the client's. -/
def CreateError.isClient : CreateError → Bool
  | .order error => error.isClient
  | .range _ => false
  | .database _ => false

/-- What the nested actions promise: as many lines as were asked for, the
prices of the queries in their order and in the range of the price columns,
whose checks exclude negative prices, a name that is not blank; and what they
throw is an error of the client. -/
structure Answers (call : CtxCall) (getCompany : Except OrderError String) :
    Prop where
  customer : ∀ ref, match call.resolveCustomerReference ref with
    | .ok customer => trim customer.name ≠ ""
    | .error error => error.isClient = true
  lines : ∀ asked, match call.resolveLineReferences asked with
    | .ok lines => lines.length = asked.length
    | .error error => error.isClient = true
  prices : ∀ asked customerId, match call.resolveProductPrices asked customerId
    with
    | .ok prices =>
        prices.map (fun price => (⟨price.productId, price.variantId⟩ :
          PriceQuery)) = asked ∧
          ∀ price ∈ prices,
            0 ≤ price.unitPriceMinor ∧ price.unitPriceMinor ≤ int64Max
    | .error error => error.isClient = true
  company : match getCompany with
    | .ok _ => True
    | .error error => error.isClient = true

/-! ## When it goes well

Safe is a request that is written within range, or refused as the client's
fault before anything is sent. `InRange` is the condition for it, in terms of
the request and the prices. -/

/-- Everything that was sent fits, and the order is persisted, or else the
client is told of an error before anything was sent. -/
structure Safe (db : OrdersDb) (outcome : CreateOutcome CreateOrderSummary) :
    Prop where
  sent : ∀ statement ∈ outcome.sent, statement.Fits
  settled : match outcome.result with
    | .ok _ => ∃ row items lastNumber,
        outcome.db = { lastNumber
                       orders := db.orders ++ [row]
                       orderItems := db.orderItems ++ items } ∧
          row.Fits ∧ ∀ item ∈ items, item.Fits
    | .error error => error.isClient = true ∧ outcome.sent = []

/-- Price times quantity, to the nearest kopiyka. -/
def lineTotal (unitPriceMinor : ℤ) (quantityMilli : ℕ) : ℤ :=
  (unitPriceMinor * quantityMilli + 500) / 1000

/-- The sum of a draft's lines, exactly. -/
def orderTotal (draft : CreateOrderDraft) : ℤ :=
  ((draft.items.zip draft.prices).map fun (item, price) =>
    lineTotal price.unitPriceMinor item.quantityMilli).sum

/-- One of the numbers that the allocation loop would try is free. -/
def NumberFree (db : OrdersDb) (numberingPrefix : String) (attempts : ℕ) :
    Prop :=
  ∃ k < attempts, staffOrderNumber numberingPrefix
    (db.lastNumber.getD 0 + 1 + k) ∉ db.orders.map (·.orderNumber)

/-- Whatever the request comes to, if it comes to an order at all: its
quantities and its total are in range, and there is a number for it. -/
def InRange (call : CtxCall) (getCompany : Except OrderError String)
    (input : CreateOrderInput) (db : OrdersDb) : Prop :=
  ∀ draft numberingPrefix currency,
    resolveCreateOrderDraft call input = .ok draft →
    getCompany = .ok numberingPrefix →
    requireSingleCurrency draft.prices = .ok currency →
    (∀ item ∈ draft.items, item.quantityMilli ≤ int64Max) ∧
      orderTotal draft ≤ int64Max ∧
      NumberFree db numberingPrefix ORDER_NUMBER_ALLOCATE_ATTEMPTS

/-! ## The allocation loop

Whether a row fits does not depend on its number. A row that fits is sent until
a number is free, and one that does not is sent at once. -/

section Header

variable {values : String → OrderHeader}

theorem numberFree_succ {db : OrdersDb} {numberingPrefix : String}
    {attempts : ℕ} :
    NumberFree db numberingPrefix (attempts + 1) ↔
      staffOrderNumber numberingPrefix (db.lastNumber.getD 0 + 1) ∉
          db.orders.map (·.orderNumber) ∨
        NumberFree db.allocated numberingPrefix attempts := by
  unfold NumberFree
  constructor
  · intro ⟨k, hk, hfree⟩
    cases k with
    | zero => exact Or.inl hfree
    | succ k =>
        refine Or.inr ⟨k, by omega, ?_⟩
        show staffOrderNumber numberingPrefix
          (db.lastNumber.getD 0 + 1 + 1 + k) ∉ _
        rw [show db.lastNumber.getD 0 + 1 + 1 + k =
          db.lastNumber.getD 0 + 1 + (k + 1) by omega]
        exact hfree
  · rintro (hfree | ⟨k, hk, hfree⟩)
    · exact ⟨0, by omega, hfree⟩
    · refine ⟨k + 1, by omega, ?_⟩
      rw [show db.lastNumber.getD 0 + 1 + (k + 1) =
        db.lastNumber.getD 0 + 1 + 1 + k by omega]
      exact hfree

/-- A row that fits is sent until a number is free. -/
theorem insertNumberedHeader_fits (numberingPrefix : String) (attempts : ℕ)
    (lastConflict : Option CreateError) (db : OrdersDb)
    (sent : List Statement) (hfits : ∀ n, (values n).Fits)
    (hnumber : ∀ n, (values n).orderNumber = n) :
    ∃ more,
      (insertNumberedHeader values numberingPrefix attempts lastConflict db
        sent).sent = sent ++ more ∧
      (∀ statement ∈ more, statement.Fits) ∧ (0 < attempts → more ≠ []) ∧
      (NumberFree db numberingPrefix attempts ↔
        ∃ row, (insertNumberedHeader values numberingPrefix attempts
          lastConflict db sent).result = .ok row) := by
  induction attempts generalizing lastConflict db sent with
  | zero =>
      refine ⟨[], by simp [insertNumberedHeader], ?_, by simp, ?_⟩
      · exact fun _ h => absurd h List.not_mem_nil
      · refine iff_of_false ?_ ?_
        · rintro ⟨k, hk, -⟩
          exact Nat.not_lt_zero k hk
        · rintro ⟨row, h⟩
          cases h
  | succ attempts ih =>
      rw [insertNumberedHeader_succ, numberFree_succ]
      dsimp only
      rw [if_neg (not_not.mpr (hfits _)), hnumber]
      have hrow := hfits
        (staffOrderNumber numberingPrefix (db.lastNumber.getD 0 + 1))
      generalize values
        (staffOrderNumber numberingPrefix (db.lastNumber.getD 0 + 1)) = row
        at hrow ⊢
      have hround : ∀ statement ∈ [Statement.counter, .insertOrder row],
          statement.Fits := by
        intro statement hmem
        rcases List.mem_cons.mp hmem with rfl | hmem
        · exact trivial
        · rw [List.mem_singleton.mp hmem]
          exact hrow
      split
      · rename_i hused
        obtain ⟨more, hsent, hmore, -, hfree⟩ := ih _ db.allocated _
        refine ⟨[.counter, .insertOrder row] ++ more, ?_, ?_, ?_, ?_⟩
        · rw [hsent, List.append_assoc]
        · intro statement hmem
          rcases List.mem_append.mp hmem with hmem | hmem
          · exact hround statement hmem
          · exact hmore statement hmem
        · exact fun _ =>
            List.append_ne_nil_of_left_ne_nil (List.cons_ne_nil _ _) _
        · rw [← hfree]
          exact or_iff_right (not_not.mpr hused)
      · rename_i hfree
        refine ⟨_, rfl, hround, fun _ => by simp, ?_⟩
        exact iff_of_true (Or.inl hfree) ⟨_, rfl⟩

/-- A row that does not fit is sent at once. -/
theorem insertNumberedHeader_unfit (numberingPrefix : String) (attempts : ℕ)
    (lastConflict : Option CreateError) (db : OrdersDb)
    (sent : List Statement) (hunfit : ∀ n, ¬ (values n).Fits)
    (hattempts : 0 < attempts) :
    (∃ error, (insertNumberedHeader values numberingPrefix attempts
        lastConflict db sent).result = .error error) ∧
      ∃ statement ∈ (insertNumberedHeader values numberingPrefix attempts
        lastConflict db sent).sent, ¬ statement.Fits := by
  obtain ⟨attempts, rfl⟩ := Nat.exists_eq_add_of_lt hattempts
  rw [Nat.zero_add, insertNumberedHeader_succ]
  dsimp only
  rw [if_pos (hunfit _)]
  refine ⟨⟨_, rfl⟩, _, List.mem_append_right _ (List.mem_cons_of_mem _
    List.mem_cons_self), ?_⟩
  exact hunfit _

end Header

/-! ## The amounts

The amounts of the lines and their total, as functions of the draft. Lines are
not negative, so a total in range has its lines in range. -/

theorem computeExemptNoneLine_lineTotal {unitPriceMinor : ℤ}
    (quantityMilli : ℕ) (hprice : 0 ≤ unitPriceMinor) :
    ∃ amounts,
      computeExemptNoneLine unitPriceMinor quantityMilli = .ok amounts ∧
      amounts.netAmountMinor = lineTotal unitPriceMinor quantityMilli ∧
      amounts.grossAmountMinor = lineTotal unitPriceMinor quantityMilli ∧
      amounts.taxAmountMinor = 0 ∧ amounts.discountValue = 0 ∧
      amounts.discountAmountMinor = 0 := by
  have hproduct : 0 ≤ unitPriceMinor * quantityMilli :=
    mul_nonneg hprice (Int.natCast_nonneg _)
  have hround : roundHalfAwayFromZero (unitPriceMinor * quantityMilli)
      quantityMilliScale =
        .ok (lineTotal unitPriceMinor quantityMilli) := by
    unfold roundHalfAwayFromZero quantityMilliScale lineTotal
    rw [if_neg (by decide)]
    dsimp only
    generalize unitPriceMinor * quantityMilli = product at hproduct ⊢
    rw [if_neg (by simp [not_lt.mpr hproduct])]
    rw [show (1000 : ℤ).natAbs = 1000 from rfl]
    congr 1
    split
    · omega
    · omega
  unfold computeExemptNoneLine
  rw [hround]
  exact ⟨_, rfl, rfl, rfl, rfl, rfl, rfl⟩

theorem lineTotal_nonneg {unitPriceMinor : ℤ} (quantityMilli : ℕ)
    (hprice : 0 ≤ unitPriceMinor) :
    0 ≤ lineTotal unitPriceMinor quantityMilli := by
  have hproduct : 0 ≤ unitPriceMinor * quantityMilli :=
    mul_nonneg hprice (Int.natCast_nonneg _)
  unfold lineTotal
  omega

/-- The amounts of a priced line. -/
theorem priced_amounts {items : List PersistedCreateLine}
    {prices : List ResolvedOrderPrice} {priced : List PricedOrderLine}
    (h : priceOrderLines items prices = .ok priced)
    (hprices : ∀ price ∈ prices, 0 ≤ price.unitPriceMinor) :
    ∀ line ∈ priced,
      let total :=
        lineTotal line.price.unitPriceMinor line.item.quantityMilli
      0 ≤ total ∧ line.amounts.netAmountMinor = total ∧
        line.amounts.grossAmountMinor = total ∧
        line.amounts.taxAmountMinor = 0 ∧ line.amounts.discountValue = 0 ∧
        line.amounts.discountAmountMinor = 0 := by
  obtain ⟨-, hprice, hamounts⟩ := priceOrderLines_spec h
  intro line hline
  have hnonneg : 0 ≤ line.price.unitPriceMinor :=
    hprices _ (hprice ▸ List.mem_map_of_mem hline)
  obtain ⟨amounts, hok, hrest⟩ :=
    computeExemptNoneLine_lineTotal line.item.quantityMilli hnonneg
  rw [hamounts line hline] at hok
  cases hok
  exact ⟨lineTotal_nonneg _ hnonneg, hrest⟩

section Priced

variable {draft : CreateOrderDraft} {priced : List PricedOrderLine}
  (hpriced : priceOrderLines draft.items draft.prices = .ok priced)
  (hprices : ∀ price ∈ draft.prices,
    0 ≤ price.unitPriceMinor ∧ price.unitPriceMinor ≤ int64Max)

include hpriced

theorem orderTotal_eq :
    orderTotal draft = (priced.map fun line =>
      lineTotal line.price.unitPriceMinor line.item.quantityMilli).sum := by
  obtain ⟨hitem, hprice, -⟩ := priceOrderLines_spec hpriced
  rw [orderTotal, ← hitem, ← hprice, List.zip_map', List.map_map]
  rfl

include hprices

/-- What the loop adds up. -/
theorem orderLoop_totals (draws : CreateDraws) :
    (orderLoop draws priced).totalNetMinor = orderTotal draft ∧
      (orderLoop draws priced).totalTaxMinor = 0 ∧
      (orderLoop draws priced).totalGrossMinor = orderTotal draft := by
  have hamounts := priced_amounts hpriced fun price hprice =>
    (hprices price hprice).1
  rw [orderLoop_eq draws "", orderTotal_eq hpriced]
  refine ⟨?_, ?_, ?_⟩
  · show (List.map _ _).sum = _
    rw [map_buildOrderLines (g := (·.amounts.netAmountMinor)) fun _ _ => rfl,
      List.map_congr_left fun line hline => (hamounts line hline).2.1]
  · show (List.map _ _).sum = _
    rw [map_buildOrderLines (g := (·.amounts.taxAmountMinor)) fun _ _ => rfl,
      List.map_congr_left fun line hline => (hamounts line hline).2.2.2.1]
    simp
  · show (List.map _ _).sum = _
    rw [map_buildOrderLines (g := (·.amounts.grossAmountMinor)) fun _ _ => rfl,
      List.map_congr_left fun line hline => (hamounts line hline).2.2.1]

theorem orderTotal_nonneg : 0 ≤ orderTotal draft := by
  rw [orderTotal_eq hpriced]
  refine List.sum_nonneg fun total htotal => ?_
  obtain ⟨line, hline, rfl⟩ := List.mem_map.mp htotal
  exact (priced_amounts hpriced (fun price hprice => (hprices price hprice).1)
    line hline).1

/-- No line is more than the total. -/
theorem lineTotal_le_orderTotal {line : PricedOrderLine}
    (hline : line ∈ priced) :
    lineTotal line.price.unitPriceMinor line.item.quantityMilli ≤
      orderTotal draft := by
  rw [orderTotal_eq hpriced]
  refine List.single_le_sum (fun total htotal => ?_) _
    (List.mem_map_of_mem hline)
  obtain ⟨line', hline', rfl⟩ := List.mem_map.mp htotal
  exact (priced_amounts hpriced (fun price hprice => (hprices price hprice).1)
    line' hline').1

/-- When the total fits, the lines fit as soon as their quantities do. -/
theorem orderLoop_lines_fit_iff (draws : CreateDraws)
    (htotal : orderTotal draft ≤ int64Max) :
    (∀ item ∈ (orderLoop draws priced).lines, item.Fits) ↔
      ∀ item ∈ draft.items, item.quantityMilli ≤ int64Max := by
  have hamounts := priced_amounts hpriced fun price hprice =>
    (hprices price hprice).1
  obtain ⟨hitem, hprice, -⟩ := priceOrderLines_spec hpriced
  rw [orderLoop_eq draws ""]
  constructor
  · intro hfits item hmem
    rw [← hitem] at hmem
    obtain ⟨line, hline, rfl⟩ := List.mem_map.mp hmem
    have hmap : (buildOrderLines priced (draws.numbered "")).map
        (·.quantityMilli) = priced.map (·.item.quantityMilli) :=
      map_buildOrderLines fun _ _ => rfl
    have hquantity := List.mem_map_of_mem
      (f := (·.item.quantityMilli)) hline
    rw [← hmap] at hquantity
    obtain ⟨row, hrow, hsame⟩ := List.mem_map.mp hquantity
    rw [← hsame]
    exact (hfits row hrow).quantityMilli.2
  · intro hquantities row hrow
    obtain ⟨⟨line, index⟩, hpair, rfl⟩ := List.mem_map.mp hrow
    have hline : line ∈ priced := List.fst_mem_of_mem_zipIdx hpair
    obtain ⟨hnonneg, hnet, hgross, htax, hvalue, hdiscount⟩ :=
      hamounts line hline
    have hle := lineTotal_le_orderTotal hpriced hprices hline
    have hquantity := hquantities line.item
      (hitem ▸ List.mem_map_of_mem hline)
    have hunit := hprices line.price (hprice ▸ List.mem_map_of_mem hline)
    have hmin : int64Min ≤ 0 := by decide
    have hmax : 0 ≤ int64Max := by decide
    refine ⟨⟨?_, hquantity⟩, ⟨hmin.trans hunit.1, hunit.2⟩, ?_, ?_, ?_, ?_, ?_⟩
    · show int64Min ≤ (line.item.quantityMilli : ℤ)
      omega
    · exact (show line.amounts.discountValue = 0 from hvalue) ▸ ⟨hmin, hmax⟩
    · exact (show line.amounts.discountAmountMinor = 0 from hdiscount) ▸
        ⟨hmin, hmax⟩
    · exact (show line.amounts.taxAmountMinor = 0 from htax) ▸ ⟨hmin, hmax⟩
    · show FitsInt64 line.amounts.netAmountMinor
      rw [hnet]
      exact ⟨hmin.trans hnonneg, hle.trans htotal⟩
    · show FitsInt64 line.amounts.grossAmountMinor
      rw [hgross]
      exact ⟨hmin.trans hnonneg, hle.trans htotal⟩

theorem orderValues_fits_iff (draws : CreateDraws) (comment : Option String)
    (currency orderNumber : String) :
    (orderValues draws comment draft currency (orderLoop draws priced)
        orderNumber).Fits ↔ orderTotal draft ≤ int64Max := by
  obtain ⟨hnet, htax, hgross⟩ := orderLoop_totals hpriced hprices draws
  have hnonneg := orderTotal_nonneg hpriced hprices
  have hmin : int64Min ≤ 0 := by decide
  constructor
  · intro hfits
    rw [← hnet]
    exact hfits.totalNetMinor.2
  · intro htotal
    have hfit : FitsInt64 (orderTotal draft) :=
      ⟨hmin.trans hnonneg, htotal⟩
    refine ⟨?_, ?_, ?_⟩
    · show FitsInt64 (orderLoop draws priced).totalNetMinor
      rw [hnet]
      exact hfit
    · show FitsInt64 (orderLoop draws priced).totalTaxMinor
      rw [htax]
      decide
    · show FitsInt64 (orderLoop draws priced).totalGrossMinor
      rw [hgross]
      exact hfit

end Priced

/-! ## The order

From the draft to the whole action, and a request that the schema accepts and
the column does not. -/

/-- A priced draft is written safely exactly when its quantities and its total
are in range and a number is free. -/
theorem createStaffOrderIn_safe_iff {draws : CreateDraws}
    {comment : Option String} {numberingPrefix : String}
    {draft : CreateOrderDraft} {db : OrdersDb}
    {pricing : SingleCurrencyPricing}
    (hpricing : priceOrderLinesInSingleCurrency draft.items draft.prices =
      .ok pricing)
    (hprices : ∀ price ∈ draft.prices,
      0 ≤ price.unitPriceMinor ∧ price.unitPriceMinor ≤ int64Max) :
    Safe db (createStaffOrderIn draws comment numberingPrefix draft db) ↔
      (∀ item ∈ draft.items, item.quantityMilli ≤ int64Max) ∧
        orderTotal draft ≤ int64Max ∧
        NumberFree db numberingPrefix ORDER_NUMBER_ALLOCATE_ATTEMPTS := by
  have hpriced := (priceOrderLinesInSingleCurrency_eq_ok.mp hpricing).2
  have hvalues := orderValues_fits_iff hpriced hprices draws comment
    pricing.currency
  have hlines := orderLoop_lines_fit_iff hpriced hprices draws
  unfold createStaffOrderIn
  rw [hpricing]
  dsimp only
  by_cases htotal : orderTotal draft ≤ int64Max
  · obtain ⟨more, hsent, hmore, hne, hfree⟩ := insertNumberedHeader_fits
      numberingPrefix ORDER_NUMBER_ALLOCATE_ATTEMPTS none db []
      (fun n => (hvalues n).mpr htotal) (fun _ => rfl)
    have hne := hne (by decide)
    rw [List.nil_append] at hsent
    generalize hheader : insertNumberedHeader _ _ _ _ _ _ = header
      at hsent hfree ⊢
    cases hresult : header.result with
    | error error =>
        dsimp only
        refine iff_of_false (fun hsafe => ?_) (fun ⟨_, _, hnumber⟩ => ?_)
        · exact hne (hsent ▸ hsafe.settled.2)
        · obtain ⟨row, hrow⟩ := hfree.mp hnumber
          rw [hresult] at hrow
          cases hrow
    | ok row =>
        have hok := hresult
        rw [← hheader] at hok
        obtain ⟨-, hfits, -, lastNumber, hdb⟩ := insertNumberedHeader_ok hok
        rw [hheader] at hdb
        dsimp only
        unfold OrdersDb.insertOrderItems
        by_cases hitems : ∀ item ∈ (orderLoop draws pricing.priced).lines,
            item.Fits
        · rw [if_pos hitems]
          refine iff_of_true ⟨?_, ?_⟩
            ⟨(hlines htotal).mp hitems, htotal, hfree.mpr ⟨row, hresult⟩⟩
          · intro statement hmem
            rcases List.mem_append.mp hmem with hmem | hmem
            · exact hmore statement (hsent ▸ hmem)
            · rw [List.mem_singleton.mp hmem]
              exact hitems
          · exact ⟨row, _, lastNumber, by rw [hdb], hfits, hitems⟩
        · rw [if_neg hitems]
          refine iff_of_false (fun hsafe => ?_) (fun ⟨hquantities, _⟩ => ?_)
          · exact hitems (hsafe.sent _ (List.mem_append_right _
              (List.mem_singleton_self _)))
          · exact hitems ((hlines htotal).mpr hquantities)
  · obtain ⟨⟨error, herror⟩, statement, hmem, hunfit⟩ :=
      insertNumberedHeader_unfit numberingPrefix
        ORDER_NUMBER_ALLOCATE_ATTEMPTS none db []
        (fun n => mt (hvalues n).mp htotal) (by decide)
    rw [herror]
    dsimp only
    refine iff_of_false (fun hsafe => ?_) (fun ⟨_, hle, _⟩ => htotal hle)
    exact hunfit (hsafe.sent statement hmem)

/-- What the draft's prices were asked for. -/
theorem resolveCreateOrderDraft_prices {call : CtxCall}
    {input : CreateOrderInput} {draft : CreateOrderDraft}
    (h : resolveCreateOrderDraft call input = .ok draft) :
    draft.items.length = input.items.length ∧
      call.resolveProductPrices
        (draft.items.map fun item => ⟨item.productId, item.variantId⟩)
        draft.customerId = .ok draft.prices := by
  have hquantities := mapM_eq_ok.mp (resolveCreateOrderDraft_quantities h)
  have hlength := hquantities.length_eq
  rw [List.length_map] at hlength
  refine ⟨hlength.symm, ?_⟩
  obtain ⟨customer, -, h⟩ := bind_eq_ok.mp h
  obtain ⟨lines, -, h⟩ := bind_eq_ok.mp h
  split at h
  · cases h
  · obtain ⟨items, -, h⟩ := bind_eq_ok.mp h
    obtain ⟨_, -, h⟩ := bind_eq_ok.mp h
    obtain ⟨prices, hprices, h⟩ := bind_eq_ok.mp h
    dsimp only at h
    split at h
    · cases h
    · cases h
      exact hprices

/-- Before the draft is there, only the client can be at fault. -/
theorem resolveCreateOrderDraft_error {call : CtxCall}
    {getCompany : Except OrderError String} {input : CreateOrderInput}
    {error : OrderError} (hanswers : Answers call getCompany)
    (h : resolveCreateOrderDraft call input = .error error) :
    error.isClient = true := by
  have hcustomer := hanswers.customer input.customer
  rcases bind_eq_error.mp h with herror | ⟨customer, hok, h⟩
  · rw [herror] at hcustomer
    exact hcustomer
  rw [hok] at hcustomer
  have hlines := hanswers.lines (input.items.map toCatalogLineInput)
  rcases bind_eq_error.mp h with herror | ⟨lines, hok, h⟩
  · rw [herror] at hlines
    exact hlines
  rw [hok, List.length_map] at hlines
  rw [if_neg (not_not.mpr hlines)] at h
  rcases bind_eq_error.mp h with herror | ⟨items, -, h⟩
  · obtain ⟨⟨item, line⟩, -, herror⟩ := mapM_eq_error herror
    rcases bind_eq_error.mp herror with hquantity | ⟨_, _, hline⟩
    · unfold quantityInputToMilli at hquantity
      split at hquantity
      · cases hquantity
      · split at hquantity
        · cases hquantity
        · cases hquantity
          rfl
    · cases hline
  rcases bind_eq_error.mp h with hunique | ⟨_, -, h⟩
  · unfold assertUniqueCanonicalLines at hunique
    split at hunique
    · cases hunique
    · cases hunique
      rfl
  have hprices := hanswers.prices
    (items.map fun item => ⟨item.productId, item.variantId⟩)
    customer.customerId
  rcases bind_eq_error.mp h with herror | ⟨prices, hok, h⟩
  · rw [herror] at hprices
    exact hprices
  dsimp only at h
  rw [if_neg hcustomer] at h
  cases h

/-- Prices that answer the queries go on the lines. -/
theorem priceOrderLines_ok {items : List PersistedCreateLine}
    {prices : List ResolvedOrderPrice}
    (haligned : prices.map (fun price =>
        (⟨price.productId, price.variantId⟩ : PriceQuery)) =
      items.map fun item => ⟨item.productId, item.variantId⟩)
    (hprices : ∀ price ∈ prices, 0 ≤ price.unitPriceMinor) :
    ∃ priced, priceOrderLines items prices = .ok priced := by
  have hpairs : List.Forall₂ (fun (item : PersistedCreateLine)
      (price : ResolvedOrderPrice) =>
        (⟨item.productId, item.variantId⟩ : PriceQuery) =
          ⟨price.productId, price.variantId⟩) items prices := by
    rw [← List.forall₂_eq_eq_eq, List.forall₂_map_left_iff,
      List.forall₂_map_right_iff] at haligned
    exact (haligned.imp fun _ _ h => h.symm).flip
  unfold priceOrderLines
  rw [if_neg (not_not.mpr hpairs.length_eq.symm)]
  refine exists_mapM fun ⟨⟨item, price⟩, index⟩ hmem => ?_
  have hzip : (item, price) ∈ items.zip prices :=
    List.fst_mem_of_mem_zipIdx hmem
  have hquery := List.forall₂_zip hpairs hzip
  obtain ⟨amounts, hamounts, -⟩ := computeExemptNoneLine_lineTotal
    item.quantityMilli (hprices price (List.of_mem_zip hzip).2)
  refine ⟨{ item, price, amounts }, bind_eq_ok.mpr ⟨(), ?_,
    bind_eq_ok.mpr ⟨amounts, hamounts, rfl⟩⟩⟩
  obtain ⟨hproduct, hvariant⟩ := PriceQuery.mk.inj hquery
  exact if_pos ⟨hproduct.symm, hvariant.symm⟩

theorem requireSingleCurrency_error {prices : List ResolvedOrderPrice}
    {error : OrderError} (hne : prices ≠ [])
    (h : requireSingleCurrency prices = .error error) :
    error.isClient = true := by
  unfold requireSingleCurrency at h
  split at h
  · exact absurd rfl hne
  · split at h
    · cases h
    · cases h
      rfl

/-- `orders.create` is safe exactly on the requests in range. -/
theorem createOrder_safe_iff (call : CtxCall)
    (getCompany : Except OrderError String) (draws : CreateDraws)
    (input : CreateOrderInput) (db : OrdersDb)
    (haccepted : input.Accepted) (hanswers : Answers call getCompany) :
    Safe db (createOrder call getCompany draws input db) ↔
      InRange call getCompany input db := by
  have hunsent : ∀ statement ∈ ([] : List Statement), statement.Fits :=
    fun _ h => absurd h List.not_mem_nil
  unfold createOrder InRange
  cases hdraft : resolveCreateOrderDraft call input with
  | error error =>
      refine iff_of_true ⟨hunsent, ?_, rfl⟩ (fun _ _ _ h => by cases h)
      exact resolveCreateOrderDraft_error hanswers hdraft
  | ok draft =>
      have hcompany := hanswers.company
      cases hnumbering : getCompany with
      | error error =>
          rw [hnumbering] at hcompany
          exact iff_of_true ⟨hunsent, hcompany, rfl⟩
            (fun _ _ _ _ h => by cases h)
      | ok numberingPrefix =>
          obtain ⟨hlength, hprices⟩ := resolveCreateOrderDraft_prices hdraft
          have hanswered := hanswers.prices
            (draft.items.map fun item => ⟨item.productId, item.variantId⟩)
            draft.customerId
          rw [hprices] at hanswered
          obtain ⟨haligned, hrange⟩ := hanswered
          obtain ⟨priced, hpriced⟩ := priceOrderLines_ok haligned
            fun price hprice => (hrange price hprice).1
          dsimp only
          cases hcurrency : requireSingleCurrency draft.prices with
          | error error =>
              have hne : draft.prices ≠ [] := by
                intro hnil
                have hmap := congrArg List.length haligned
                rw [hnil, List.length_map, List.length_map] at hmap
                exact haccepted.nonempty
                  (List.length_eq_zero_iff.mp (hlength.symm.trans hmap.symm))
              have hpricing : priceOrderLinesInSingleCurrency draft.items
                  draft.prices = .error error := by
                unfold priceOrderLinesInSingleCurrency
                rw [hcurrency]
                rfl
              refine iff_of_true ?_ (fun draft' _ _ hdraft' _ h => ?_)
              · unfold createStaffOrderIn
                rw [hpricing]
                exact ⟨hunsent, requireSingleCurrency_error hne hcurrency, rfl⟩
              · cases hdraft'
                rw [hcurrency] at h
                cases h
          | ok currency =>
              have hpricing : priceOrderLinesInSingleCurrency draft.items
                  draft.prices = .ok ⟨currency, priced⟩ :=
                priceOrderLinesInSingleCurrency_eq_ok.mpr ⟨hcurrency, hpriced⟩
              rw [createStaffOrderIn_safe_iff hpricing hrange]
              constructor
              · intro hsafe draft' numberingPrefix' _ hdraft' hnumbering' _
                cases hdraft'
                cases hnumbering'
                exact hsafe
              · intro hrange
                exact hrange draft numberingPrefix currency rfl rfl hcurrency

theorem flourAt_answers {unitPriceMinor : ℤ} (hnonneg : 0 ≤ unitPriceMinor)
    (hle : unitPriceMinor ≤ int64Max) :
    Answers (flourAt unitPriceMinor) (.ok "N5") where
  customer := fun _ => show trim "Анна" ≠ "" by decide
  lines := fun asked => List.length_map ..
  prices := fun asked _ => by
    refine ⟨?_, ?_⟩
    · rw [List.map_map]
      exact List.map_id asked
    · intro price hprice
      obtain ⟨_, _, rfl⟩ := List.mem_map.mp hprice
      exact ⟨hnonneg, hle⟩
  company := trivial

theorem flourOrder_accepted {quantity : QuantityInput}
    (h : quantity.Accepted) : (flourOrder quantity).Accepted where
  nonempty := List.cons_ne_nil _ _
  length := show 1 ≤ 100 by omega
  quantity := fun item hitem => by
    rw [List.mem_singleton.mp hitem]
    exact h
  exclusive := fun item hitem => by
    rw [List.mem_singleton.mp hitem]
    exact Or.inl rfl
  comment := fun _ h => nomatch h

theorem createOrder_safe_iff_flour :
    Safe ⟨none, [], []⟩ (createOrder (flourAt 3333) (.ok "N5") flourDraws
        (flourOrder (.decimal "1.5")) ⟨none, [], []⟩) ↔
      InRange (flourAt 3333) (.ok "N5") (flourOrder (.decimal "1.5"))
        ⟨none, [], []⟩ :=
  createOrder_safe_iff (flourAt 3333) (.ok "N5") flourDraws
    (flourOrder (.decimal "1.5")) ⟨none, [], []⟩
    (flourOrder_accepted ⟨by decide, by decide⟩)
    (flourAt_answers (by decide) (by decide))

/-- A quantity just above the range has as few digits as the contract
asks. -/
theorem createOrder_out_of_range :
    (flourOrder (.milli 9223372036854775808)).Accepted ∧
      Answers (flourAt 100) (.ok "N5") ∧
      ¬ Safe ⟨none, [], []⟩ (createOrder (flourAt 100) (.ok "N5") flourDraws
        (flourOrder (.milli 9223372036854775808)) ⟨none, [], []⟩) := by
  refine ⟨flourOrder_accepted ⟨by decide, by decide⟩,
    flourAt_answers (by decide) (by decide), fun hsafe => ?_⟩
  have hunfit : ¬ ∀ statement ∈ (createOrder (flourAt 100) (.ok "N5")
      flourDraws (flourOrder (.milli 9223372036854775808))
      ⟨none, [], []⟩).sent, statement.Fits := by decide
  exact hunfit hsafe.sent

end Shozee.Orders
