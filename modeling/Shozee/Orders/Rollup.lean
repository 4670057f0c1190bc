import Mathlib.Data.Finset.Card
import Shozee.Orders.Buckets

/-!
# The rollup of a filter

What `orders.list` answers for each grouping, in terms of the orders that the
filter asks for. Statuses and customers partition the orders, so their counts
and amounts add up to the totals. Products partition the lines: their amounts
add up to the totals, while an order counts once in the bucket of each product
that it has (`product_counts_overlap`).
-/

namespace Shozee.Orders.Listing

open Shozee.Run

/-! ## The dimensions

Each of the three keeps what `Dimension` asks: the key of a bucket is that of
its rows, and the label does not change it. -/

theorem statusText_inj {a b : OrderStatus} :
    statusText a = statusText b ↔ a = b := by
  cases a <;> cases b <;> decide

theorem addRow_identity {κ : Type} (bucket : MutableBucket)
    (row : AggregateRow κ) (label : String) :
    (addRow bucket row label).identity = bucket.identity := by
  unfold addRow addGrossRow
  dsimp only
  split_ifs
  · rfl
  · rfl

theorem statusDimension : Dimension statusQuery statusText id
    (fun status _ => .status status) (fun row => statusText row.group)
    (fun row => emptyBucket (.status row.group) (statusText row.group)
      (statusText row.group))
    (fun bucket row => addRow bucket row (statusText row.group)) where
  key_iff _ _ := statusText_inj
  identity_congr _ _ _ h := congrArg BucketIdentity.status h
  starts row := ⟨_, _, rfl⟩
  adds bucket row := ⟨_, rfl⟩
  keeps bucket row group h := by
    rw [addRow_identity]
    exact h
  labels env group h := by
    obtain ⟨hmem, -⟩ := newestOf_spec env statusQuery group
    exact congrArg statusText (h _ hmem).symm

/-- Who an order is counted for: the customer, or else the name. -/
def customerOf (group : Option Uuid × String) : Uuid ⊕ String :=
  match group.1 with
  | some customerId => .inl customerId
  | none => .inr group.2

/-- The key of a customer's bucket. -/
def customerKey (group : Option Uuid × String) : String :=
  match group.1 with
  | none => "name:" ++ group.2
  | some customerId => "id:" ++ customerId.text

theorem append_text_inj {start a b : String} :
    start ++ a = start ++ b ↔ a = b := by
  rw [← String.toList_inj, String.toList_append, String.toList_append,
    List.append_cancel_left_eq, String.toList_inj]

theorem text_inj {a b : Uuid} : a.text = b.text ↔ a = b :=
  ⟨fun h => Uuid.ext_text (congrArg String.toList h), congrArg Uuid.text⟩

theorem customerKey_iff (a b : Option Uuid × String) :
    customerKey a = customerKey b ↔ customerOf a = customerOf b := by
  have hdiffer : ∀ (name : String) (id : Uuid),
      "name:" ++ name ≠ "id:" ++ id.text := by
    intro name id heq
    have hlist := congrArg String.toList heq
    rw [String.toList_append, String.toList_append] at hlist
    cases hlist
  obtain ⟨aId, aName⟩ := a
  obtain ⟨bId, bName⟩ := b
  unfold customerKey customerOf
  cases aId with
  | none =>
      cases bId with
      | none =>
          exact append_text_inj.trans
            ⟨fun h => congrArg Sum.inr h, Sum.inr.inj⟩
      | some bId => exact iff_of_false (hdiffer aName bId) nofun
  | some aId =>
      cases bId with
      | none => exact iff_of_false (hdiffer bName aId).symm nofun
      | some bId =>
          exact (append_text_inj.trans text_inj).trans
            ⟨fun h => congrArg Sum.inl h, Sum.inl.inj⟩

theorem customerDimension : Dimension customerQuery customerKey customerOf
    (fun group label => .customer group.1 label) (fun row => row.newestLabel)
    (fun row => emptyBucket (.customer row.group.1 row.newestLabel)
      row.newestLabel (customerIdentityKey row))
    (fun bucket row => renamed (addRow bucket row row.newestLabel)) where
  key_iff := customerKey_iff
  identity_congr a b text h := by
    obtain ⟨aId, aName⟩ := a
    obtain ⟨bId, bName⟩ := b
    unfold customerOf at h
    cases aId with
    | none =>
        cases bId with
        | none => rfl
        | some bId => cases h
    | some aId =>
        cases bId with
        | none => cases h
        | some bId => rw [Sum.inl.inj h]
  starts row := ⟨_, _, rfl⟩
  adds bucket row := by
    unfold renamed
    split
    · exact ⟨_, rfl⟩
    · exact ⟨_, rfl⟩
  keeps bucket row group h := by
    unfold renamed
    rw [addRow_identity, h]
  labels env group h := rfl

/-- The variant in a key. -/
def variantText (variantId : Option Uuid) : String :=
  match variantId with
  | some variantId => variantId.text
  | none => ""

/-- The key of a product's bucket. -/
def productKey (group : Uuid × Option Uuid) : String :=
  "product:" ++ group.1.text ++ ":" ++ variantText group.2

theorem variantText_inj {a b : Option Uuid} :
    variantText a = variantText b ↔ a = b := by
  have hne : ∀ id : Uuid, id.text ≠ "" := by
    intro id heq
    have hlength := id.length_text
    rw [heq] at hlength
    cases hlength
  unfold variantText
  cases a with
  | none =>
      cases b with
      | none => exact iff_of_true rfl rfl
      | some b => exact iff_of_false (hne b).symm nofun
  | some a =>
      cases b with
      | none => exact iff_of_false (hne a) nofun
      | some b => exact text_inj.trans ⟨fun h => congrArg some h, Option.some.inj⟩

theorem notMem_variantText (variantId : Option Uuid) :
    ':' ∉ (variantText variantId).toList := by
  cases variantId with
  | none => exact List.not_mem_nil
  | some variantId => exact variantId.notMem_text (by decide) (by decide)

theorem productKey_iff (a b : Uuid × Option Uuid) :
    productKey a = productKey b ↔ a = b := by
  constructor
  · intro h
    have hlist := congrArg String.toList h
    unfold productKey at hlist
    simp only [String.toList_append, List.append_assoc] at hlist
    have hparts := List.append_cancel_left hlist
    obtain ⟨hproduct, -, hvariant⟩ := (List.append_cons_inj_of_notMem
      (a.1.notMem_text (by decide) (by decide))
      (notMem_variantText a.2)).mp hparts
    exact Prod.ext (Uuid.ext_text hproduct)
      (variantText_inj.mp (String.toList_inj.mp hvariant))
  · intro h
    rw [h]

theorem productDimension : Dimension productQuery productKey id
    (fun group _ => .product group.1 group.2) (fun row => row.newestLabel)
    (fun row => emptyBucket (.product row.group.1 row.group.2)
      row.newestLabel (productIdentityKey row))
    (fun bucket row => addRow bucket row row.newestLabel) where
  key_iff := productKey_iff
  identity_congr _ _ _ h :=
    congrArg (fun group : Uuid × Option Uuid =>
      BucketIdentity.product group.1 group.2) h
  starts row := ⟨_, _, rfl⟩
  adds bucket row := ⟨_, rfl⟩
  keeps bucket row group h := by
    rw [addRow_identity]
    exact h
  labels env group h := rfl

/-! ## Counts

A status or a customer counts orders, so groups of different currencies share
none. A product counts the orders that its lines are of, and these are of one
currency each. -/

theorem countAdds_length {ρ κ ι : Type} {query : GroupQuery ρ κ}
    {identOf : κ → ι} (rows : List ρ)
    (hcount : ∀ l, query.count l = l.length) :
    CountAdds query identOf rows where
  perm h := by rw [hcount, hcount, h.length_eq]
  flatMap groups _ _ _ := by
    rw [hcount, List.length_flatMap]
    simp only [hcount]

variable (books : Books) (ctx : StaffCtx)

theorem mem_countedLines {rows : List Order} {line : Line} :
    line ∈ countedLines books.toTables ctx rows ↔
      line.1 ∈ books.orderItems ∧ line.2 ∈ rows ∧
        line.2.companyId = line.1.companyId ∧ line.2.id = line.1.orderId ∧
        line.1.companyId = ctx.companyId := by
  obtain ⟨item, order⟩ := line
  unfold countedLines
  simp only [List.mem_flatMap, List.mem_map, List.mem_filter,
    Bool.and_eq_true, decide_eq_true_eq, Prod.mk.injEq]
  constructor
  · rintro ⟨item', hitem, order', ⟨horder, hmatch⟩, rfl, rfl⟩
    exact ⟨hitem, horder, hmatch.1.1, hmatch.1.2, hmatch.2⟩
  · rintro ⟨hitem, horder, hcompany, hid, hctx⟩
    exact ⟨item, hitem, order, ⟨horder, ⟨hcompany, hid⟩, hctx⟩, rfl, rfl⟩

theorem dedup_flatMap {α β : Type} [DecidableEq β] (f : α → List β)
    {l : List α} (h : l.Pairwise fun a b => (f a).Disjoint (f b)) :
    (l.map fun a => (f a).dedup.length).sum = (l.flatMap f).dedup.length := by
  induction l with
  | nil => rfl
  | cons a l ih =>
      obtain ⟨hhead, htail⟩ := List.pairwise_cons.mp h
      have hdisjoint : (f a).Disjoint (l.flatMap f) := by
        intro b hb hrest
        obtain ⟨a', ha', hb'⟩ := List.mem_flatMap.mp hrest
        exact hhead a' ha' hb hb'
      rw [List.map_cons, List.sum_cons, ih htail, List.flatMap_cons,
        hdisjoint.dedup_append, List.length_append]

/-- The lines of an order have one currency, so no order counts twice. -/
theorem countAdds_product (rows : List Order)
    (hrows : ∀ order ∈ rows, order ∈ books.orders) :
    CountAdds productQuery (id : Uuid × Option Uuid → _)
      (countedLines books.toTables ctx rows) where
  perm h := ((h.map _).dedup).length_eq
  flatMap groups hgroups hsame hnodup := by
    have hdistinct : groups.Pairwise fun group group' =>
        (group.items.map fun line => line.1.orderId).Disjoint
          (group'.items.map fun line => line.1.orderId) := by
      unfold List.Nodup at hnodup
      rw [List.pairwise_map] at hnodup
      refine hnodup.imp_of_mem fun {group group'} hgroup hgroup' hne => ?_
      intro orderId hid hid'
      obtain ⟨line, hline, rfl⟩ := List.mem_map.mp hid
      obtain ⟨line', hline', hsameId⟩ := List.mem_map.mp hid'
      obtain ⟨hmem, hcurrency⟩ := hgroups group hgroup line hline
      obtain ⟨hmem', hcurrency'⟩ := hgroups group' hgroup' line' hline'
      obtain ⟨hitem, horder, -, horderId, -⟩ :=
        (mem_countedLines books ctx).mp hmem
      obtain ⟨hitem', -⟩ := (mem_countedLines books ctx).mp hmem'
      have hline := books.item_currency _ hitem _ (hrows _ horder) horderId
      have hline' := books.item_currency _ hitem' _ (hrows _ horder)
        (horderId.trans hsameId.symm)
      refine hne (Prod.ext (hsame group hgroup group' hgroup') ?_)
      change productQuery.currency _ = productQuery.currency _
      rw [← hcurrency, ← hcurrency']
      exact hline.trans hline'.symm
    refine (dedup_flatMap (fun group : Run.Group Line =>
      group.items.map fun line => line.1.orderId) hdistinct).trans ?_
    rw [← List.map_flatMap]
    rfl

/-! ## Totals

The lines of the counted orders are the rows of the join, and their amounts add
up to the orders' totals. -/

theorem order_eq_of_id {a b : Order} (ha : a ∈ books.orders)
    (hb : b ∈ books.orders) (h : a.id = b.id) : a = b :=
  List.inj_on_of_nodup_map (List.pairwise_map.mpr books.order_unique) ha hb h

theorem nodup_orders : books.orders.Nodup :=
  books.order_unique.imp fun hne heq => hne (congrArg Order.id heq)

theorem nodup_countedLines {rows : List Order} (hrows : rows.Nodup) :
    (countedLines books.toTables ctx rows).Nodup := by
  unfold countedLines
  rw [List.nodup_flatMap]
  refine ⟨fun item _ => ?_, ?_⟩
  · exact (hrows.filter _).map fun a b h => (Prod.mk.inj h).2
  · refine books.item_unique.imp fun {a b} hne => ?_
    intro line hline hline'
    obtain ⟨order, -, rfl⟩ := List.mem_map.mp hline
    obtain ⟨order', -, heq⟩ := List.mem_map.mp hline'
    exact hne (congrArg (fun line : Line => line.1.id) heq).symm

/-- The lines of the rows are those of their orders. -/
theorem mem_countedLines_iff {rows : List Order}
    (hrows : ∀ order ∈ rows, order ∈ books.orders ∧
      order.companyId = ctx.companyId) {line : Line} :
    line ∈ countedLines books.toTables ctx rows ↔
      line.1 ∈ books.orderItems ∧ line.2 ∈ rows ∧
        line.2.id = line.1.orderId := by
  rw [mem_countedLines]
  constructor
  · intro ⟨hitem, horder, _, hid, _⟩
    exact ⟨hitem, horder, hid⟩
  · intro ⟨hitem, horder, hid⟩
    obtain ⟨hmem, hcompany⟩ := hrows _ horder
    obtain ⟨own, hown, hownId, hownCompany⟩ := books.item_order _ hitem
    rw [order_eq_of_id books hown hmem (hownId.trans hid.symm)] at hownCompany
    exact ⟨hitem, horder, hownCompany, hid, hownCompany.symm.trans hcompany⟩

/-- The join finds the lines of an order. -/
theorem filter_join {order : Order} (horder : order ∈ books.orders)
    (hcompany : order.companyId = ctx.companyId) :
    (books.orderItems.filter fun item =>
        order.companyId = item.companyId && order.id = item.orderId &&
          item.companyId = ctx.companyId) =
      books.orderItems.filter fun item => item.orderId = order.id := by
  refine List.filter_congr fun item hitem => ?_
  by_cases hid : item.orderId = order.id
  · obtain ⟨own, hown, hownId, hownCompany⟩ := books.item_order item hitem
    rw [order_eq_of_id books hown horder (hownId.trans hid)] at hownCompany
    simp [hid, ← hownCompany, hcompany]
  · simp [hid, Ne.symm hid]

/-- The lines of the orders add up to the orders. -/
theorem amountIn_countedLines {rows : List Order}
    (hrows : ∀ order ∈ rows, order ∈ books.orders ∧
      order.companyId = ctx.companyId) (currency : String) :
    amountIn currency ((countedLines books.toTables ctx rows).map fun line =>
        (productQuery.currency line, productQuery.gross line)) =
      amountIn currency (rows.map fun order =>
        (order.currency, order.totalGrossMinor)) := by
  rw [amountIn_map, amountIn_map]
  unfold countedLines
  rw [sum_map_flatMap]
  simp only [List.map_map]
  refine (sum_swap (fun item order => order.companyId = item.companyId &&
    order.id = item.orderId && item.companyId = ctx.companyId)
      (fun item order => if productQuery.currency (item, order) = currency then
        productQuery.gross (item, order) else 0) _ _).trans ?_
  refine congrArg List.sum (List.map_congr_left fun order horder => ?_)
  obtain ⟨hmem, hcompany⟩ := hrows order horder
  rw [filter_join books ctx hmem hcompany]
  have hcurrency : ((books.orderItems.filter fun item =>
        item.orderId = order.id).map fun item =>
          if productQuery.currency (item, order) = currency then
            productQuery.gross (item, order) else 0) =
      (books.orderItems.filter fun item => item.orderId = order.id).map
        fun item => if order.currency = currency then item.grossAmountMinor
          else 0 := by
    refine List.map_congr_left fun item hitem => ?_
    obtain ⟨hitem, hid⟩ := List.mem_filter.mp hitem
    rw [decide_eq_true_eq] at hid
    have hsame := books.item_currency item hitem order hmem hid.symm
    change (if item.currency = currency then item.grossAmountMinor else 0) = _
    rw [hsame]
  rw [hcurrency]
  by_cases hc : order.currency = currency
  · simp only [if_pos hc]
    exact (books.order_total order hmem).symm
  · simp [if_neg hc]

/-- The filter asks for the order, and it counts. -/
def Counted (ctx : StaffCtx) (filter : Option ListOrdersFilter)
    (order : Order) : Prop :=
  Matches ctx filter order ∧
    recordCounts RECORD_VERIFICATION_MODE order = true

variable (env : Env)

theorem exists_of_forall₂ {α β : Type} {r : α → β → Prop} {l : List α}
    {m : List β} (h : List.Forall₂ r l m) {b : β} (hb : b ∈ m) :
    ∃ a, a ∈ l ∧ r a b := by
  induction h with
  | nil => exact absurd hb List.not_mem_nil
  | cons hhead _ ih =>
      rcases List.mem_cons.mp hb with rfl | hb
      · exact ⟨_, List.mem_cons_self, hhead⟩
      · obtain ⟨a, ha, hab⟩ := ih hb
        exact ⟨a, List.mem_cons_of_mem _ ha, hab⟩

theorem totals_eq (rows : List Order) :
    (aggregateRows env totalsQuery rows).foldl
        (fun count row => count + row.orderCount) 0 = rows.length ∧
      GrossOf (rows.map fun order => (order.currency, order.totalGrossMinor))
        ((aggregateRows env totalsQuery rows).foldl (fun gross row =>
          mergeGross gross row.currency row.grossMinor) []) := by
  have hperm := env.rowOrder.perm_order (Group.groupBy
    (fun order => (totalsQuery.group order, totalsQuery.currency order)) rows)
  have hkey : ∀ a b : Unit, (fun _ => "") a = (fun _ => "") b ↔ id a = id b :=
    fun a b => iff_of_true rfl rfl
  have hgroups : GroupsOf totalsQuery id rows (id ()) _ :=
    groupsOf_filter hkey rows hperm
  have hall : (rows.filter fun order =>
      id (totalsQuery.group order) = id ()) = rows := by
    rw [List.filter_eq_self]
    exact fun _ _ => decide_eq_true rfl
  rw [List.filter_eq_self.mpr fun _ _ => decide_eq_true rfl] at hgroups
  constructor
  · rw [foldl_add_eq, Nat.zero_add]
    unfold aggregateRows
    have hlength := hgroups.perm.length_eq
    rw [hall, List.length_flatMap] at hlength
    rw [List.map_map]
    exact hlength
  · have hgross := hgroups.grossOf env
    rw [hall, ← foldl_mergeGross, List.foldl_map] at hgross
    exact hgross

/-- The five statuses are never too many. -/
theorem statusBuckets_rollUp (rows : List Order) :
    RollsUp statusQuery id (fun status _ => .status status) rows
      (toStatusOutputBuckets env (queryStatusBuckets env rows)) false := by
  have hcount : CountAdds statusQuery (id : OrderStatus → _) rows :=
    countAdds_length rows fun _ => rfl
  obtain ⟨keys, hnodup, hall, hcover⟩ :=
    mergeRows_spec env statusDimension rows hcount
  have hshort : (queryStatusBuckets env rows).length ≤ 5 := by
    have hsub : keys ⊆ [.new, .confirmed, .inProgress, .done, .canceled] := by
      intro status _
      cases status <;> simp
    have hlength := (List.subperm_of_subset hnodup hsub).length_le
    rw [hall.length_eq] at hlength
    exact hlength
  have hsorted : (sortBuckets env (queryStatusBuckets env rows)).length ≤ 5 :=
    le_of_eq_of_le (List.perm_insertionSort _ _).length_eq hshort
  have hwhole : (sortAndCapBuckets env (queryStatusBuckets env rows)).2 =
      false := by
    refine decide_eq_false fun hmany => ?_
    unfold LIST_ORDERS_AGGREGATE_BUCKETS_MAX at hmany
    omega
  have hrolls : RollsUp statusQuery id (fun status _ => .status status) rows
      (sortAndCapBuckets env (queryStatusBuckets env rows)).1
      (sortAndCapBuckets env (queryStatusBuckets env rows)).2 :=
    rollsUp_mergeRows env statusDimension rows hcount
  have hkept : toStatusOutputBuckets env (queryStatusBuckets env rows) =
      (sortAndCapBuckets env (queryStatusBuckets env rows)).1 := by
    obtain ⟨keys, -, hbuckets, -⟩ := hrolls
    unfold toStatusOutputBuckets
    rw [List.filter_eq_self]
    intro bucket hbucket
    obtain ⟨k, -, hof⟩ := exists_of_forall₂ hbuckets hbucket
    obtain ⟨order, -, -, -, hidentity⟩ := hof.newest
    rw [hidentity]
  rw [hkept, ← hwhole]
  exact hrolls

/-- What the buckets of a grouping are of the orders and of the lines. -/
def Grouped (groupBy : GroupBy) (rows : List Order) (lines : List Line)
    (out : AggregateOutput) : Prop :=
  match groupBy with
  | .none => out.bucketsTruncated = false ∧ out.buckets =
      [⟨.none, "", out.orderCount, out.grossByCurrency, none⟩]
  | .status => RollsUp statusQuery id (fun status _ => .status status) rows
      out.buckets out.bucketsTruncated
  | .customer => RollsUp customerQuery customerOf
      (fun group label => .customer group.1 label) rows out.buckets
      out.bucketsTruncated
  | .product => RollsUp productQuery id
      (fun group _ => .product group.1 group.2) lines out.buckets
      out.bucketsTruncated

/-- All the buckets together, when none is left out. -/
structure AddsUp (groupBy : GroupBy) (lines : List Line)
    (out : AggregateOutput) : Prop where
  gross : ∀ currency, (out.buckets.map fun bucket =>
    amountIn currency bucket.grossByCurrency).sum =
      amountIn currency out.grossByCurrency
  orderCount : groupBy ≠ .product →
    (out.buckets.map (·.orderCount)).sum = out.orderCount
  quantityMilli : groupBy = .product →
    (out.buckets.map fun bucket => bucket.quantityMilli.getD 0).sum =
      (lines.map fun line => line.1.quantityMilli).sum

/-- What a rollup says of the orders and their lines. -/
structure Rollup (groupBy : GroupBy) (rows : List Order) (lines : List Line)
    (out : AggregateOutput) : Prop where
  orderCount : out.orderCount = rows.length
  gross : GrossOf
    (rows.map fun order => (order.currency, order.totalGrossMinor))
    out.grossByCurrency
  statusBuckets : RollsUp statusQuery id (fun status _ => .status status) rows
    out.statusBuckets false
  grouped : Grouped groupBy rows lines out
  addsUp : out.bucketsTruncated = false → AddsUp groupBy lines out

/-- The parts are the whole, since groups partition their rows. -/
theorem Grouped.addsUp {groupBy : GroupBy} {rows : List Order}
    {lines : List Line} {out : AggregateOutput}
    (h : Grouped groupBy rows lines out) (hall : out.bucketsTruncated = false)
    (hcount : out.orderCount = rows.length)
    (hgross : GrossOf (rows.map fun order =>
      (order.currency, order.totalGrossMinor)) out.grossByCurrency)
    (hlines : ∀ currency, amountIn currency (lines.map fun line =>
        (productQuery.currency line, productQuery.gross line)) =
      amountIn currency (rows.map fun order =>
        (order.currency, order.totalGrossMinor))) :
    AddsUp groupBy lines out := by
  cases groupBy with
  | none =>
      obtain ⟨-, hbuckets⟩ := h
      refine ⟨fun currency => ?_, fun _ => ?_, nofun⟩
      · rw [hbuckets]
        simp
      · rw [hbuckets]
        simp
  | status =>
      refine ⟨fun currency => ?_, fun _ => ?_, nofun⟩
      · rw [hgross.amount]
        exact RollsUp.gross h hall currency
      · rw [hcount]
        exact RollsUp.count h hall fun _ => rfl
  | customer =>
      refine ⟨fun currency => ?_, fun _ => ?_, nofun⟩
      · rw [hgross.amount]
        exact RollsUp.gross h hall currency
      · rw [hcount]
        exact RollsUp.count h hall fun _ => rfl
  | product =>
      refine ⟨fun currency => ?_, fun hne => absurd rfl hne, fun _ => ?_⟩
      · rw [hgross.amount, ← hlines]
        exact RollsUp.gross h hall currency
      · refine RollsUp.sum h hall fun group bucket hbucket => ?_
        obtain ⟨line, -, -, -, hidentity⟩ := hbucket.newest
        rw [hbucket.quantityMilli, hidentity]
        rfl

theorem countedRows_spec {filter : Option ListOrdersFilter}
    {queryMatch : QueryMatch} : ∀ order ∈
      countedRows books.toTables ctx filter queryMatch,
        order ∈ books.orders ∧ order.companyId = ctx.companyId := by
  intro order horder
  obtain ⟨hmem, hwhere⟩ := List.mem_filter.mp horder
  rw [Bool.and_eq_true] at hwhere
  have hcompany := List.all_eq_true.mp hwhere.1 _ List.mem_cons_self
  exact ⟨hmem, of_decide_eq_true hcompany⟩

theorem listAggregate_rollup (filter : Option ListOrdersFilter)
    (groupBy : GroupBy) (queryMatch : QueryMatch) :
    Rollup groupBy (countedRows books.toTables ctx filter queryMatch)
      (countedLines books.toTables ctx
        (countedRows books.toTables ctx filter queryMatch))
      (listAggregate env books.toTables ctx filter groupBy queryMatch) := by
  have hrows : ∀ order ∈ countedRows books.toTables ctx filter queryMatch,
      order ∈ books.orders ∧ order.companyId = ctx.companyId :=
    countedRows_spec books ctx
  have hlines := amountIn_countedLines books ctx hrows
  generalize hr : countedRows books.toTables ctx filter queryMatch = rows at *
  obtain ⟨hcount, hgross⟩ := totals_eq env rows
  have hgrouped : Grouped groupBy rows (countedLines books.toTables ctx rows)
      (listAggregate env books.toTables ctx filter groupBy queryMatch) := by
    unfold listAggregate
    rw [hr]
    cases groupBy with
    | none => exact ⟨rfl, rfl⟩
    | status =>
        exact rollsUp_mergeRows env statusDimension rows
          (countAdds_length rows fun _ => rfl)
    | customer =>
        exact rollsUp_mergeRows env customerDimension rows
          (countAdds_length rows fun _ => rfl)
    | product =>
        exact rollsUp_mergeRows env productDimension _
          (countAdds_product books ctx rows fun order h => (hrows order h).1)
  have hcount' : (listAggregate env books.toTables ctx filter groupBy
      queryMatch).orderCount = rows.length := by
    unfold listAggregate
    rw [hr]
    exact hcount
  have hgross' : GrossOf (rows.map fun order =>
      (order.currency, order.totalGrossMinor)) (listAggregate env
        books.toTables ctx filter groupBy queryMatch).grossByCurrency := by
    unfold listAggregate
    rw [hr]
    exact hgross.perm (List.perm_insertionSort _ _)
  refine ⟨hcount', hgross', ?_, hgrouped, fun hall =>
    hgrouped.addsUp hall hcount' hgross' hlines⟩
  unfold listAggregate
  rw [hr]
  exact statusBuckets_rollUp env rows

theorem rollsUp_nil {ρ κ ι : Type} [DecidableEq ι] {query : GroupQuery ρ κ}
    {identOf : κ → ι} {identity : κ → String → BucketIdentity} :
    RollsUp query identOf identity [] [] false :=
  ⟨[], List.nodup_nil, .nil, nofun⟩

/-- A text that no order can match has an empty rollup. -/
theorem empty_rollup {filter : Option ListOrdersFilter}
    (hempty : (resolveQueryMatch ctx (filter.bind (·.query))).empty = true)
    (groupBy : GroupBy) :
    Rollup groupBy [] []
      (executeListAggregate env books.toTables ctx filter groupBy) := by
  unfold executeListAggregate
  dsimp only
  rw [if_pos hempty]
  have hgross : GrossOf [] [] :=
    ⟨List.nodup_nil, fun _ => Iff.rfl, fun _ => rfl⟩
  have hgrouped : Grouped groupBy [] [] (AggregateOutput.mk 0 []
      (if groupBy = .none then [⟨.none, "", 0, [], none⟩] else []) false
      (resolveQueryMatch ctx (filter.bind (·.query))).truncated []) := by
    cases groupBy with
    | none => exact ⟨rfl, rfl⟩
    | status | customer | product => exact rollsUp_nil
  exact ⟨rfl, hgross, rollsUp_nil, hgrouped, fun hall =>
    hgrouped.addsUp hall rfl hgross fun _ => rfl⟩

/-- Every bucket is the plain aggregate of its group, with the label of its
newest order, and the buckets partition what the filter asks for: the orders
by status and by customer, the lines by product. -/
theorem executeListAggregate_rollsUp (books : Books) (ctx : StaffCtx)
    (env : Env) (filter : Option ListOrdersFilter) (groupBy : GroupBy) :
    ∃ (rows : List Order) (lines : List Line),
      (rows.Nodup ∧ ∀ order, order ∈ rows ↔
        order ∈ books.orders ∧ Counted ctx filter order) ∧
      (lines.Nodup ∧ ∀ line, line ∈ lines ↔ line.1 ∈ books.orderItems ∧
        line.2 ∈ rows ∧ line.2.id = line.1.orderId) ∧
      Rollup groupBy rows lines
        (executeListAggregate env books.toTables ctx filter groupBy) := by
  cases hempty : (resolveQueryMatch ctx (filter.bind (·.query))).empty with
  | true =>
      refine ⟨[], [], ⟨List.nodup_nil, fun order => ?_⟩,
        ⟨List.nodup_nil, fun line => ?_⟩, empty_rollup books ctx env hempty
          groupBy⟩
      · refine iff_of_false List.not_mem_nil fun hmem => ?_
        have hmatch := hmem.2.1.1
        rw [hempty] at hmatch
        cases hmatch
      · exact iff_of_false List.not_mem_nil
          fun hmem => List.not_mem_nil hmem.2.1
  | false =>
      let queryMatch := resolveQueryMatch ctx (filter.bind (·.query))
      have hrollup := listAggregate_rollup books ctx env filter groupBy
        queryMatch
      refine ⟨countedRows books.toTables ctx filter queryMatch,
        countedLines books.toTables ctx
          (countedRows books.toTables ctx filter queryMatch),
        ⟨?_, fun order => ?_⟩, ⟨?_, fun line => ?_⟩, ?_⟩
      · exact (nodup_orders books).filter _
      · unfold countedRows Counted Matches
        dsimp only
        rw [List.mem_filter, Bool.and_eq_true, hempty, eq_self, true_and]
      · exact nodup_countedLines books ctx ((nodup_orders books).filter _)
      · exact mem_countedLines_iff books ctx (countedRows_spec books ctx)
      · unfold executeListAggregate
        dsimp only
        rw [if_neg (by rw [hempty]; simp)]
        exact hrollup

/-! ## Two products in one order

Why counts of products are not said to add up: one order is in both buckets. -/

/-- A line of an order. -/
def lineOf (id productId : Uuid) (grossAmountMinor : ℤ) : Item where
  id
  companyId := shop
  orderId := first
  productId
  variantId := none
  titleSnapshot := "Борошно"
  quantityMilli := 1000
  grossAmountMinor
  currency := "UAH"
  createdAt := ⟨⟨0, by omega, by omega⟩, by simp⟩

theorem mixed_time_lt : ((1753747200123 : ℕ) : ℤ) < 253402300800000 := by
  decide

/-- An order with lines of two products. -/
def mixed : Books where
  orders := [orderAt first 1753747200123 mixed_time_lt]
  orderItems := [lineOf first.1 first.1 2000, lineOf second.1 second.1 3000]
  order_unique := by decide +kernel
  item_unique := by decide +kernel
  item_order := by decide +kernel
  item_currency := by decide +kernel
  order_total := by decide +kernel

/-- The order counts in both buckets, and once in the total. -/
theorem product_counts_overlap :
    let out := executeListAggregate ⟨asStored, fun _ _ => 0⟩ mixed.toTables
      staff none .product
    out.bucketsTruncated = false ∧ out.orderCount = 1 ∧
      (out.buckets.map (·.orderCount)).sum = 2 := by
  decide

end Shozee.Orders.Listing
