import Shozee.Orders.Write
import Shozee.Run.Rounding

/-!
# The totals of an order

Each line is rounded once, to the nearest kopiyka with halves away from zero,
and carries no tax; what is persisted and returned as the order's totals is
what the loop has added up of the persisted lines.
-/

namespace Shozee.Orders

open Shozee.Run

/-- The sign of a quotient is found before its parts are divided. -/
theorem quotient_eq (numerator denominator : ℤ) :
    (numerator / denominator : ℚ) =
      if (decide (numerator < 0) != decide (denominator < 0)) = true then
        -(numerator.natAbs / denominator.natAbs : ℚ)
      else numerator.natAbs / denominator.natAbs := by
  rcases lt_or_ge numerator 0 with hn | hn
  · rcases lt_or_ge denominator 0 with hd | hd
    · simp [hn, hd, Nat.cast_natAbs, abs_of_neg hn, abs_of_neg hd]
    · simp [hn, hd, Nat.cast_natAbs, abs_of_neg hn, abs_of_nonneg hd, neg_div]
  · rcases lt_or_ge denominator 0 with hd | hd
    · simp [hn, hd, Nat.cast_natAbs, abs_of_nonneg hn, abs_of_neg hd, div_neg]
    · simp [not_lt.mpr hn, not_lt.mpr hd, Nat.cast_natAbs, abs_of_nonneg hn,
        abs_of_nonneg hd]

/-- The function rounds the quotient. -/
theorem roundHalfAwayFromZero_rounds {numerator denominator rounded : ℤ}
    (h : roundHalfAwayFromZero numerator denominator = .ok rounded) :
    RoundsHalfAway (numerator / denominator) rounded := by
  unfold roundHalfAwayFromZero at h
  split at h
  · cases h
  · rename_i hzero
    have hround := roundsHalfAway_div numerator.natAbs
      (Int.natAbs_pos.mpr hzero)
    dsimp only at h
    rw [Nat.cast_ite, Nat.cast_succ] at hround
    rw [quotient_eq]
    split
    · rename_i hnegative
      rw [if_pos hnegative] at h
      cases h
      exact hround.neg
    · rename_i hpositive
      rw [if_neg hpositive] at h
      cases h
      exact hround

/-- A line with its price, its quantity and its amounts. -/
structure OrderItem.Exact (item : OrderItem) : Prop where
  net : ∀ n, RoundsHalfAway
    (item.unitPriceMinor * item.quantityMilli / 1000) n ↔
      n = item.amounts.netAmountMinor
  gross : item.amounts.netAmountMinor + item.amounts.taxAmountMinor =
    item.amounts.grossAmountMinor

theorem computeExemptNoneLine_exact {unitPriceMinor quantityMilli : ℤ}
    {amounts : ExemptNoneLineAmounts}
    (h : computeExemptNoneLine unitPriceMinor quantityMilli = .ok amounts) :
    RoundsHalfAway (unitPriceMinor * quantityMilli / 1000)
        amounts.netAmountMinor ∧
      amounts.taxAmountMinor = 0 ∧
      amounts.grossAmountMinor = amounts.netAmountMinor := by
  obtain ⟨net, hnet, h⟩ := bind_eq_ok.mp h
  cases h
  have hround := roundHalfAwayFromZero_rounds hnet
  push_cast [quantityMilliScale] at hround
  exact ⟨hround, rfl, rfl⟩

/-- The lines carry the quantities that were asked for. -/
theorem resolveCreateOrderDraft_quantities {call : CtxCall}
    {input : CreateOrderInput} {draft : CreateOrderDraft}
    (h : resolveCreateOrderDraft call input = .ok draft) :
    input.items.mapM (fun line => quantityInputToMilli line.quantity) =
      .ok (draft.items.map (·.quantityMilli)) := by
  obtain ⟨customer, -, h⟩ := bind_eq_ok.mp h
  obtain ⟨lines, -, h⟩ := bind_eq_ok.mp h
  split at h
  · cases h
  · rename_i hlength
    obtain ⟨items, hitems, h⟩ := bind_eq_ok.mp h
    obtain ⟨_, -, h⟩ := bind_eq_ok.mp h
    obtain ⟨prices, -, h⟩ := bind_eq_ok.mp h
    dsimp only at h
    split at h
    · cases h
    · cases h
      have hfst : (input.items.zip lines).map Prod.fst = input.items :=
        List.map_fst_zip (by omega)
      show _ = Except.ok (items.map (·.quantityMilli))
      rw [mapM_eq_ok, List.forall₂_map_right_iff]
      nth_rewrite 1 [← hfst]
      rw [List.forall₂_map_left_iff]
      refine (mapM_eq_ok.mp hitems).imp ?_
      intro pair line hline
      obtain ⟨quantityMilli, hquantity, hline⟩ := bind_eq_ok.mp hline
      cases hline
      exact hquantity

/-- Each item of an order is exact. -/
theorem buildOrderLines_exact {items : List PersistedCreateLine}
    {prices : List ResolvedOrderPrice} {pricing : SingleCurrencyPricing}
    {draws : OrderDraws}
    (h : priceOrderLinesInSingleCurrency items prices = .ok pricing) :
    ∀ item ∈ buildOrderLines pricing.priced draws, item.Exact := by
  intro item hitem
  obtain ⟨⟨line, index⟩, hline, rfl⟩ := List.mem_map.mp hitem
  have hamounts := (priceOrderLines_spec
    (priceOrderLinesInSingleCurrency_eq_ok.mp h).2).2.2 line
    (List.fst_mem_of_mem_zipIdx hline)
  obtain ⟨hround, htax, hgross⟩ := computeExemptNoneLine_exact hamounts
  refine ⟨fun n => ⟨fun hn => ?_, fun hn => ?_⟩, ?_⟩
  · exact RoundsHalfAway.unique hn hround
  · rw [hn]
    exact hround
  · show line.amounts.netAmountMinor + line.amounts.taxAmountMinor =
      line.amounts.grossAmountMinor
    rw [htax, hgross, add_zero]

/-- Whatever order is created, its lines are exact, its totals are the sums of
its lines, and the summary is of the rows. -/
theorem createOrder_totals {call : CtxCall}
    {getCompany : Except OrderError String} {draws : CreateDraws}
    {input : CreateOrderInput} {db : OrdersDb} {summary : CreateOrderSummary}
    (h : (createOrder call getCompany draws input db).result = .ok summary) :
    ∃ row items lastNumber,
      (createOrder call getCompany draws input db).db =
        { lastNumber
          orders := db.orders ++ [row]
          orderItems := db.orderItems ++ items } ∧
      input.items.mapM (fun line => quantityInputToMilli line.quantity) =
        .ok (items.map (·.quantityMilli)) ∧
      (∀ item ∈ items, item.Exact) ∧
      row.totalNetMinor = (items.map (·.amounts.netAmountMinor)).sum ∧
      row.totalTaxMinor = (items.map (·.amounts.taxAmountMinor)).sum ∧
      row.totalGrossMinor = (items.map (·.amounts.grossAmountMinor)).sum ∧
      summary = (row.withItems items).summary := by
  unfold createOrder at h ⊢
  split at h
  · cases h
  · rename_i draft hdraft
    split at h
    · cases h
    · rename_i numberingPrefix
      obtain ⟨pricing, row, items, lastNumber, hpricing, rfl, horder, hdb, -,
        -, -, hsummary⟩ := createStaffOrderIn_ok h
      obtain ⟨pricing', hpricing', horder⟩ := bind_eq_ok.mp horder
      rw [hpricing] at hpricing'
      cases hpricing'
      have horder := Except.ok.inj horder
      refine ⟨row, _, lastNumber, hdb, ?_, buildOrderLines_exact hpricing,
        congrArg (·.totalNetMinor) horder.symm,
        congrArg (·.totalTaxMinor) horder.symm,
        congrArg (·.totalGrossMinor) horder.symm, hsummary⟩
      rw [resolveCreateOrderDraft_quantities hdraft,
        map_buildOrderLines (g := (·.item.quantityMilli)) fun _ _ => rfl,
        ← (priceOrderLines_spec
          (priceOrderLinesInSingleCurrency_eq_ok.mp hpricing).2).1,
        List.map_map]
      rfl

/-! ## An order by weight

A line whose amount has half a kopiyka. -/

/-- One customer, one product, at a price. -/
def flourAt (unitPriceMinor : ℤ) : CtxCall where
  resolveCustomerReference := fun _ => .ok ⟨"customer", "Анна"⟩
  resolveLineReferences := fun lines =>
    .ok (lines.map fun _ => ⟨"flour", "Борошно", none, none⟩)
  resolveProductPrices := fun items _ =>
    .ok (items.map fun item =>
      { productId := item.productId
        variantId := item.variantId
        unitPriceMinor
        currency := "UAH"
        source := .base
        sourceIds := ⟨none, none, none⟩
        resolverVersion := 1 })

/-- An order of one line. -/
def flourOrder (quantity : QuantityInput) : CreateOrderInput where
  customer := .query "Анна"
  items := [⟨.query "борошно", none, none, quantity⟩]
  comment := none

/-- What is drawn for it. -/
def flourDraws : CreateDraws where
  companyId := "c"
  channel := "ai"
  orderId := "order"
  itemId := fun index => toString index
  createdAt := 0

/-- Half a kopiyka is rounded up. -/
theorem createOrder_totals_flour :
    ∃ row items lastNumber,
      (createOrder (flourAt 3333) (.ok "N5") flourDraws
          (flourOrder (.decimal "1.5")) ⟨none, [], []⟩).db =
        { lastNumber
          orders := [] ++ [row]
          orderItems := [] ++ items } ∧
      (flourOrder (.decimal "1.5")).items.mapM
          (fun line => quantityInputToMilli line.quantity) =
        .ok (items.map (·.quantityMilli)) ∧
      (∀ item ∈ items, item.Exact) ∧
      row.totalNetMinor = (items.map (·.amounts.netAmountMinor)).sum ∧
      row.totalTaxMinor = (items.map (·.amounts.taxAmountMinor)).sum ∧
      row.totalGrossMinor = (items.map (·.amounts.grossAmountMinor)).sum ∧
      { orderId := "order", orderNumber := "N5-17Z992"
        nameSnapshot := "Анна", linkedCustomerId := "customer"
        status := .new, itemCount := 1, totalNetMinor := 5000
        totalTaxMinor := 0, totalGrossMinor := 5000, currency := "UAH"
        createdAt := 0 } = (row.withItems items).summary :=
  createOrder_totals (by decide)

end Shozee.Orders
