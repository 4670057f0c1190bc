import Shozee.Orders.Pages

/-!
# Every order is on one page

The rows that match a filter, newest first, are in descending order of a key
that tells them apart. So the pages of `orders.list` are pages of that list,
and to follow the cursors is to read it.
-/

namespace Shozee.Orders.Listing

open Shozee.Run
open Shozee.Validation

/-! ## The order of the rows

Time and id together tell rows apart, so there is one order and no ties. To
stand behind a cursor is to be less in it. -/

instance : Std.Total Order.NotOlder :=
  ⟨fun a b => (le_total b.key a.key)⟩

instance : IsTrans Order Order.NotOlder :=
  ⟨fun _ _ _ hab hbc => le_trans hbc hab⟩

theorem mem_newestFirst {orders : List Order} {order : Order} :
    order ∈ newestFirst orders ↔ order ∈ orders :=
  List.mem_insertionSort Order.NotOlder

/-- Distinct ids leave no ties. -/
theorem descending_newestFirst {orders : List Order}
    (hunique : orders.Pairwise fun a b => a.id ≠ b.id) :
    Descending Order.key (newestFirst orders) := by
  have hsorted := List.pairwise_insertionSort Order.NotOlder orders
  have hdistinct : (newestFirst orders).Pairwise fun a b => a.id ≠ b.id :=
    ((List.perm_insertionSort Order.NotOlder orders).pairwise_iff
      (fun hne => Ne.symm hne)).mpr hunique
  refine (hsorted.and hdistinct).imp fun {a b} both => ?_
  refine lt_of_le_of_ne both.1 fun heq => both.2 ?_
  exact (congrArg (fun key => (ofLex key).2) heq).symm

/-- The predicate of a cursor is to stand behind its row. -/
theorem cursorPredicate_eq (last order : Order) :
    cursorPredicate (some ⟨last.createdAt.1.time, last.id.1⟩) order =
      decide (order.key < last.key) := by
  have htime : order.createdAt < last.createdAt ↔
      order.createdAt.1.time < last.createdAt.1.time := Iff.rfl
  have hid : order.id < last.id ↔ order.id.1 < last.id.1 := Iff.rfl
  have hsame : order.createdAt = last.createdAt ↔
      order.createdAt.1.time = last.createdAt.1.time :=
    ⟨fun h => by rw [h], fun h => Subtype.ext (Instant.ext_time h)⟩
  have hkey : order.key < last.key ↔
      order.createdAt.1.time < last.createdAt.1.time ∨
        order.createdAt.1.time = last.createdAt.1.time ∧
          order.id.1 < last.id.1 := by
    unfold Order.key
    rw [Prod.Lex.toLex_lt_toLex, htime, hsame, hid]
  unfold cursorPredicate
  rw [Bool.eq_iff_iff, Bool.or_eq_true, Bool.and_eq_true,
    decide_eq_true_eq, decide_eq_true_eq, decide_eq_true_eq,
    decide_eq_true_eq, hkey]

/-! ## The cursor of a row

The schema accepts what `formatListOrdersCursor` writes, and the query reads it
back as it was. -/

theorem uuidOf_text (id : OrderId) : uuidOf id.1.text.toList = some id.1 := by
  have hcanonical := id.1.canonical
  have hlower := id.1.map_toLower_text
  unfold uuidOf
  simp only [hlower, hcanonical, id.2, Bool.true_or, dite_true, if_true,
    String.ofList_toList]

/-- What the query reads off a cursor is what stood in the row. -/
theorem parseListOrdersCursor_format (createdAt : Timestamp) (id : OrderId) :
    parseListOrdersCursor (formatListOrdersCursor createdAt id) =
      some ⟨createdAt.1.time, id.1⟩ := by
  have hiso : (createdAt.1.toISOString).toList = createdAt.1.isoText := by
    unfold Instant.toISOString
    rw [String.toList_ofList]
  have hclean : ∀ value ∈ ([⟨.isoDatetime, createdAt.1⟩,
      ⟨.uuid, id.1.text⟩] :
        List ((kind : CursorFieldKind) × EncodeValueFor kind)),
      '|' ∉ (encodeField value.1 value.2).toList := by
    intro value hvalue
    rcases List.mem_cons.mp hvalue with rfl | hvalue
    · change '|' ∉ (createdAt.1.toISOString).toList
      rw [hiso]
      exact createdAt.1.notMem_isoText (by decide) (by decide)
    · rw [List.mem_singleton.mp hvalue]
      exact id.1.notMem_text (by decide) (by decide)
  have hdecode := decode_encode listOrdersCursorPayload (List.cons_ne_nil _ _)
    (by simp) hclean (.cons rfl (.cons rfl .nil))
  unfold parseListOrdersCursor formatListOrdersCursor
  refine hdecode.trans ?_
  change ((isoTime (createdAt.1.toISOString).toList).bind fun createdAt =>
    (uuidOf id.1.text.toList).map fun id =>
      (⟨createdAt, id⟩ : ListOrdersCursor)) = _
  rw [hiso, isoTime_isoText, Option.bind_some, uuidOf_text, Option.map_some]

theorem cursorAccepted_format (createdAt : Timestamp) (id : OrderId) :
    cursorAccepted (formatListOrdersCursor createdAt id) = true := by
  have hlength : (formatListOrdersCursor createdAt id).length = 61 := by
    have htext : formatListOrdersCursor createdAt id =
        String.ofList (joined [(createdAt.1.toISOString).toList,
          id.1.text.toList]) := rfl
    have hiso := createdAt.1.length_isoText
    have hid := id.1.length_text
    unfold Instant.toISOString at htext
    rw [htext, String.length_ofList]
    simp [joined, List.intercalate, List.intersperse, hiso, hid]
  unfold cursorAccepted
  rw [parseListOrdersCursor_format, hlength]
  rfl

/-! ## A page

A page is a stretch of the list of matching rows, and its cursor is that of its
last row if there is more. -/

/-- The rows of a filter, newest first. -/
def visited (tables : Tables) (predicates : List (Order → Bool)) :
    List Order :=
  newestFirst (tables.orders.filter (allOf predicates))

/-- An order as a page shows it, its lines counted in the table. -/
def summaryOf (tables : Tables) (ctx : StaffCtx) (order : Order) :
    SummaryRow :=
  toSummaryRow order (tables.orderItems.countP fun item =>
    item.companyId = ctx.companyId && item.orderId = order.id)

theorem descending_visited (tables : Tables)
    (predicates : List (Order → Bool)) :
    Descending Order.key (visited tables predicates) :=
  descending_newestFirst (tables.order_unique.filter _)

/-- What the query of a page has is what stands behind the cursor. -/
theorem pageRowsOf_cursor (tables : Tables) (predicates : List (Order → Bool))
    (last : Order) (limit : ℕ) :
    pageRowsOf tables predicates
        (some ⟨last.createdAt.1.time, last.id.1⟩) limit =
      ((visited tables predicates).filter fun order =>
        order.key < last.key).take (limit + 1) := by
  refine congrArg (List.take (limit + 1)) ?_
  refine Descending.eq_of_mem_iff
    (descending_newestFirst (tables.order_unique.filter _))
    ((descending_visited tables predicates).filter _) fun order => ?_
  unfold visited
  rw [mem_newestFirst, List.mem_filter, List.mem_filter, mem_newestFirst,
    List.mem_filter, cursorPredicate_eq, Bool.and_eq_true, and_assoc]

theorem pageRowsOf_none (tables : Tables) (predicates : List (Order → Bool))
    (limit : ℕ) :
    pageRowsOf tables predicates none limit =
      (visited tables predicates).take (limit + 1) := by
  unfold pageRowsOf visited cursorPredicate
  simp only [Bool.and_true]

theorem itemCountsByOrder_getD (tables : Tables) (ctx : StaffCtx)
    {page : List Order} {order : Order} (hmem : order ∈ page) :
    (itemCountsByOrder tables ctx (page.map (·.id)) order.id).getD 0 =
      tables.orderItems.countP fun item =>
        item.companyId = ctx.companyId && item.orderId = order.id := by
  have hpage : order.id ∈ page.map (·.id) := List.mem_map_of_mem hmem
  have hfilter : (tables.orderItems.filter fun item =>
        item.companyId = ctx.companyId && item.orderId ∈ page.map (·.id) &&
          item.orderId = order.id) =
      tables.orderItems.filter fun item =>
        item.companyId = ctx.companyId && item.orderId = order.id := by
    refine List.filter_congr fun item _ => ?_
    by_cases hid : item.orderId = order.id
    · rw [hid]
      simp only [hpage, decide_true, Bool.and_true]
    · simp only [hid, decide_false, Bool.and_false]
  unfold itemCountsByOrder
  dsimp only
  rw [hfilter, List.countP_eq_length_filter]
  split_ifs with hnil
  · rw [hnil]
    rfl
  · rfl

theorem rows_withLines (linesByOrder : Dict OrderId (List CompactLine))
    (remaining : ℕ) (summaries : List SummaryRow) :
    (withLines linesByOrder remaining summaries).1.map (·.1) = summaries := by
  induction summaries generalizing remaining with
  | nil => rfl
  | cons summary summaries ih =>
      unfold withLines
      dsimp only
      split_ifs with hnone hmore
      · rw [List.map_cons, ih]
      · rw [List.map_cons, ih]
      · rw [List.map_cons, ih]

variable {tables : Tables} {ctx : StaffCtx}

/-- A page shows the rows of its query but the last, which it only counts. -/
theorem listPage_spec {input : ListPageInput} {queryMatch : QueryMatch}
    {rest : List Order} {cursor : Option ListOrdersCursor}
    (hlimit : 1 ≤ input.limit)
    (hcursor : input.cursor.map parseListOrdersCursor = cursor.map some)
    (hrows : pageRowsOf tables
      (headerPredicates ctx input.filter queryMatch.predicate) cursor
        input.limit = rest.take (input.limit + 1)) :
    ∃ page, listPage tables ctx input queryMatch = .ok page ∧
      PageOf ListOutput.rows ListOutput.nextCursor (summaryOf tables ctx)
        (fun last => formatListOrdersCursor last.createdAt last.id)
        input.limit rest page := by
  have hparsed : input.cursor.bind parseListOrdersCursor = cursor := by
    cases hinput : input.cursor with
    | none =>
        rw [hinput] at hcursor
        cases cursor with
        | none => rfl
        | some cursor => cases hcursor
    | some text =>
        rw [hinput] at hcursor
        cases cursor with
        | none => cases hcursor
        | some cursor => exact Option.some.inj hcursor
  have hvalid : ¬ (input.cursor.isSome = true ∧ cursor.isNone = true) := by
    intro ⟨hsome, hnone⟩
    rw [Option.isNone_iff_eq_none.mp hnone] at hcursor
    cases hinput : input.cursor with
    | none =>
        rw [hinput] at hsome
        cases hsome
    | some text =>
        rw [hinput] at hcursor
        cases hcursor
  unfold listPage
  dsimp only
  rw [hparsed, if_neg hvalid, hrows, paginate_take]
  have hsummaries : ((rest.take input.limit).map fun row =>
        toSummaryRow row ((itemCountsByOrder tables ctx
          ((rest.take input.limit).map (·.id)) row.id).getD 0)) =
      (rest.take input.limit).map (summaryOf tables ctx) := by
    refine List.map_congr_left fun row hrow => ?_
    rw [itemCountsByOrder_getD tables ctx hrow]
    rfl
  dsimp only
  rw [hsummaries]
  by_cases hempty : rest.take input.limit = []
  · have hrest : rest = [] := by
      rcases List.take_eq_nil_iff.mp hempty with h | h
      · omega
      · exact h
    subst hrest
    cases input.kind with
    | summary => exact ⟨_, if_pos hempty, ⟨by simp [ListOutput.rows], rfl⟩⟩
    | withLines =>
        exact ⟨_, if_pos hempty, ⟨by simp [ListOutput.rows], rfl⟩⟩
  · cases input.kind with
    | summary => exact ⟨_, if_neg hempty, ⟨rfl, rfl⟩⟩
    | withLines =>
        exact ⟨_, if_neg hempty, ⟨rows_withLines _ _ _, rfl⟩⟩

/-! ## All the pages

Following the cursors is reading the list stretch by stretch. -/

/-- Following `nextCursor` from the first page visits every order that the
filter asks for once, from the newest on, and comes to an end. -/
theorem executeListOrders_pages (tables : Tables) (ctx : StaffCtx)
    (kind : PageKind) (filter : Option ListOrdersFilter) (limit : ℕ)
    (hlimit : 1 ≤ limit) (hmax : limit ≤ kind.maxLimit) :
    ∃ (pages : List ListOutput) (orders : List Order),
      Follows (fun cursor => executeListOrders tables ctx
        { kind, filter, limit, cursor }) ListOutput.nextCursor none pages ∧
      pages.flatMap ListOutput.rows = orders.map (summaryOf tables ctx) ∧
      orders.Nodup ∧
      (∀ order, order ∈ orders ↔
        order ∈ tables.orders ∧ Matches ctx filter order) ∧
      orders.Pairwise fun a b => b.createdAt < a.createdAt ∨
        b.createdAt = a.createdAt ∧ b.id < a.id := by
  have haccepted : ∀ cursor : Option String, cursor.all cursorAccepted = true →
      ListPageInput.accepted { kind, filter, limit, cursor } = true := by
    intro cursor hcursor
    unfold ListPageInput.accepted
    simp [hlimit, hmax, hcursor]
  cases hempty : (resolveQueryMatch ctx (filter.bind (·.query))).empty with
  | true =>
      have hnone : ∀ order, ¬ Matches ctx filter order := by
        intro order ⟨hmatch, _⟩
        rw [hempty] at hmatch
        cases hmatch
      have hpage : ∃ page, executeListOrders tables ctx
          { kind, filter, limit, cursor := none } = .ok page ∧
          page.nextCursor = none ∧ page.rows = [] := by
        unfold executeListOrders
        rw [if_neg (by rw [haccepted none rfl]; simp)]
        dsimp only
        rw [if_pos hempty]
        cases kind with
        | summary => exact ⟨_, rfl, rfl, rfl⟩
        | withLines => exact ⟨_, rfl, rfl, rfl⟩
      obtain ⟨page, hok, hnext, hrows⟩ := hpage
      refine ⟨[page], [], .last hok hnext, ?_, .nil, ?_, .nil⟩
      · rw [List.flatMap_singleton, hrows, List.map_nil]
      · exact fun order => iff_of_false List.not_mem_nil
          fun hmatch => hnone order hmatch.2
  | false =>
      have hpage : ∀ cursor : Option String,
          cursor.all cursorAccepted = true →
          executeListOrders tables ctx { kind, filter, limit, cursor } =
            listPage tables ctx { kind, filter, limit, cursor }
              (resolveQueryMatch ctx (filter.bind (·.query))) := by
        intro cursor hcursor
        unfold executeListOrders
        rw [if_neg (by rw [haccepted cursor hcursor]; simp)]
        dsimp only
        rw [if_neg (by rw [hempty]; simp)]
      let predicates := headerPredicates ctx filter
        (resolveQueryMatch ctx (filter.bind (·.query))).predicate
      let fetch := fun cursor => executeListOrders tables ctx
        { kind, filter, limit, cursor }
      have hfirst : ∃ page, fetch none = .ok page ∧
          PageOf ListOutput.rows ListOutput.nextCursor (summaryOf tables ctx)
            (fun last => formatListOrdersCursor last.createdAt last.id) limit
            (visited tables predicates) page := by
        change ∃ page, executeListOrders _ _ _ = _ ∧ _
        rw [hpage none rfl]
        exact listPage_spec hlimit (show none = Option.map some none from rfl)
          (pageRowsOf_none tables predicates limit)
      have hafter : ∀ row ∈ visited tables predicates, ∃ page,
          fetch (some (formatListOrdersCursor row.createdAt row.id)) =
            .ok page ∧
          PageOf ListOutput.rows ListOutput.nextCursor (summaryOf tables ctx)
            (fun last => formatListOrdersCursor last.createdAt last.id) limit
            ((visited tables predicates).filter fun order =>
              order.key < row.key) page := by
        intro row _
        have hcursor : (some (formatListOrdersCursor row.createdAt
            row.id)).all cursorAccepted = true := by
          rw [Option.all_some]
          exact cursorAccepted_format row.createdAt row.id
        change ∃ page, executeListOrders _ _ _ = _ ∧ _
        rw [hpage _ hcursor]
        have hparse : (some (formatListOrdersCursor row.createdAt
            row.id)).map parseListOrdersCursor =
              (some ⟨row.createdAt.1.time, row.id.1⟩ :
                Option ListOrdersCursor).map some := by
          rw [Option.map_some, Option.map_some, parseListOrdersCursor_format]
        exact listPage_spec hlimit hparse
          (pageRowsOf_cursor tables predicates row limit)
      have hdescending := descending_visited tables predicates
      obtain ⟨pages, hfollows, hflat⟩ :=
        follows_of_answers hdescending hlimit hfirst hafter
      refine ⟨pages, _, hfollows, hflat, ?_, fun order => ?_, ?_⟩
      · refine hdescending.imp fun {a b} hlt heq => ?_
        rw [heq] at hlt
        exact lt_irrefl _ hlt
      · unfold visited Matches
        dsimp only
        rw [mem_newestFirst, List.mem_filter, hempty, eq_self, true_and]
      · exact hdescending.imp fun hlt => Prod.Lex.toLex_lt_toLex.mp hlt

/-! ## A tie

Two orders of one millisecond, on pages of one: the ids keep them apart. -/

/-- Two orders of one millisecond. -/
def tied : Tables where
  orders := [orderAt first 1753747200123 (by decide),
    orderAt second 1753747200123 (by decide)]
  orderItems := []
  order_unique := by decide +kernel
  item_unique := .nil
  item_order := fun _ h => absurd h List.not_mem_nil

example :
    (executeListOrders tied staff ⟨.summary, none, 1, none⟩).map
        (fun page => (page.rows.map (·.orderId), page.nextCursor)) =
      .ok ([second], some ("2025-07-29T00:00:00.123Z|" ++
        "00000000-0000-4000-8000-00000000000b")) := by
  decide +kernel

theorem executeListOrders_pages_tied :
    ∃ (pages : List ListOutput) (orders : List Order),
      Follows (fun cursor => executeListOrders tied staff
        { kind := .summary, filter := none, limit := 1, cursor })
          ListOutput.nextCursor none pages ∧
      pages.flatMap ListOutput.rows = orders.map (summaryOf tied staff) ∧
      orders.Nodup ∧
      (∀ order, order ∈ orders ↔
        order ∈ tied.orders ∧ Matches staff none order) ∧
      orders.Pairwise fun a b => b.createdAt < a.createdAt ∨
        b.createdAt = a.createdAt ∧ b.id < a.id :=
  executeListOrders_pages tied staff .summary none 1 (by decide) (by decide)

end Shozee.Orders.Listing
