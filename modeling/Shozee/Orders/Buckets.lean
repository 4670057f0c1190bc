import Mathlib.Data.List.Forall2
import Shozee.Orders.Aggregate
import Shozee.Run.Sums

/-!
# Buckets are plain groups

A bucket is made in two steps, by a query that groups by more than the bucket
is about and by a loop that merges the rows of the query. `BucketOf` is the
plain aggregate of a group of rows, and `rollsUp_mergeRows` says that the two
steps come to one: the buckets are the plain aggregates of the groups, each
group once.

A bucket follows the newest of its rows through the loop. It starts with a
stamp below all of them, the first moment of 1970 and no id.
-/

namespace Shozee.Orders.Listing

open Shozee.Run

/-! ## Amounts by currency

A map from currencies to sums, whatever order it was filled in. Sums of sums
are sums, which is what lets a bucket be made in two steps. -/

/-- What there is of a currency. -/
def amountIn (currency : String) (amounts : List (String × ℤ)) : ℤ :=
  ((amounts.filter fun amount => amount.1 = currency).map (·.2)).sum

/-- Each currency that occurs is there once, with its sum. -/
structure GrossOf (amounts gross : List (String × ℤ)) : Prop where
  nodup : (gross.map (·.1)).Nodup
  currencies : ∀ currency,
    currency ∈ gross.map (·.1) ↔ currency ∈ amounts.map (·.1)
  amount : ∀ currency, amountIn currency gross = amountIn currency amounts

theorem amountIn_perm {amounts amounts' : List (String × ℤ)}
    (h : amounts.Perm amounts') (currency : String) :
    amountIn currency amounts = amountIn currency amounts' :=
  ((h.filter _).map _).sum_eq

theorem GrossOf.perm {amounts gross gross' : List (String × ℤ)}
    (h : GrossOf amounts gross) (hperm : gross'.Perm gross) :
    GrossOf amounts gross' where
  nodup := (hperm.map _).nodup_iff.mpr h.nodup
  currencies currency := by
    rw [← h.currencies]
    exact (hperm.map _).mem_iff
  amount currency := by
    rw [← h.amount]
    exact amountIn_perm hperm currency

theorem GrossOf.trans {amounts amounts' gross : List (String × ℤ)}
    (h : GrossOf amounts gross)
    (hmem : ∀ currency,
      currency ∈ amounts.map (·.1) ↔ currency ∈ amounts'.map (·.1))
    (hsum : ∀ currency, amountIn currency amounts = amountIn currency amounts') :
    GrossOf amounts' gross where
  nodup := h.nodup
  currencies currency := (h.currencies currency).trans (hmem currency)
  amount currency := (h.amount currency).trans (hsum currency)

theorem foldl_add_eq {α μ : Type} [AddCommMonoid μ] (f : α → μ) (l : List α)
    (n : μ) : l.foldl (fun n a => n + f a) n = n + (l.map f).sum := by
  induction l generalizing n with
  | nil => simp
  | cons a l ih => rw [List.foldl_cons, ih, List.map_cons, List.sum_cons,
      add_assoc]

/-- A map of sums, as a loop fills it. -/
def grossMap (amounts : List (String × ℤ)) : List (String × ℤ) :=
  collect (·.1) (fun _ => 0) (fun total amount => total + amount.2) amounts

theorem foldl_mergeGross (amounts : List (String × ℤ)) :
    amounts.foldl (fun gross amount => mergeGross gross amount.1 amount.2) [] =
      grossMap amounts := rfl

theorem grossOf_grossMap (amounts : List (String × ℤ)) :
    GrossOf amounts (grossMap amounts) := by
  have hgrouped := Group.grouped_groupBy (fun a : String × ℤ => a.1) amounts
  have hkeys : (grossMap amounts).map (·.1) =
      (Group.groupBy (·.1) amounts).map fun g => g.first.1 := by
    unfold grossMap
    rw [collect_eq_groupBy, List.map_map]
    rfl
  refine ⟨?_, fun currency => ?_, fun currency => ?_⟩
  · rw [hkeys]
    exact hgrouped.nodup
  · rw [hkeys]
    constructor
    · intro hmem
      obtain ⟨g, hg, rfl⟩ := List.mem_map.mp hmem
      have hfirst : g.first ∈ g.items := List.mem_cons_self
      rw [hgrouped.items g hg] at hfirst
      exact List.mem_map_of_mem (List.mem_of_mem_filter hfirst)
    · intro hmem
      obtain ⟨amount, hamount, rfl⟩ := List.mem_map.mp hmem
      obtain ⟨g, hg, hkey⟩ := hgrouped.found amount hamount
      exact List.mem_map.mpr ⟨g, hg, hkey⟩
  · have hperm := Group.perm_filter
      (List.Perm.refl (Group.groupBy (fun a : String × ℤ => a.1) amounts))
      (fun k => decide (k = currency))
    unfold amountIn grossMap
    rw [collect_eq_groupBy, List.filter_map, List.map_map,
      ← ((hperm.map (·.2)).sum_eq), sum_map_flatMap]
    refine congrArg List.sum (List.map_congr_left fun g _ => ?_)
    exact (foldl_add_eq (fun a : String × ℤ => a.2) g.items 0).trans
      (zero_add _)

/-! ## The newest row

`array_agg` takes the newest row of a group, and the loop the newest of the
groups. By the stamp of time and id this is the newest of all. -/

/-- Time and id, as a bucket keeps them. -/
abbrev Stamp := ℤ ×ₗ List Char

/-- By what the newest order is told. -/
def Order.stamp (order : Order) : Stamp :=
  toLex (order.createdAt.1.time, order.id.1.text.toList)

theorem Order.stamp_le_iff {a b : Order} : a.stamp ≤ b.stamp ↔
    a.key ≤ b.key := by
  have htime : a.createdAt < b.createdAt ↔
      a.createdAt.1.time < b.createdAt.1.time := Iff.rfl
  have hsame : a.createdAt = b.createdAt ↔
      a.createdAt.1.time = b.createdAt.1.time :=
    ⟨fun h => by rw [h], fun h => Subtype.ext (Instant.ext_time h)⟩
  have hid : a.id ≤ b.id ↔ a.id.1.text.toList ≤ b.id.1.text.toList := Iff.rfl
  unfold Order.stamp Order.key
  rw [Prod.Lex.toLex_le_toLex, Prod.Lex.toLex_le_toLex, htime, hsame, hid]

/-- The same of a grouped row. -/
def AggregateRow.stamp {κ : Type} (row : AggregateRow κ) : Stamp :=
  toLex (row.newestAt, row.newestId.toList)

/-- The same of a bucket. -/
def MutableBucket.stamp (bucket : MutableBucket) : Stamp :=
  toLex (bucket.newestAt, bucket.newestId.toList)

variable {ρ κ ι : Type} (env : Env) (query : GroupQuery ρ κ)

instance (order : ρ → Order) : Std.Total (NotOlderBy order) :=
  ⟨fun a b => le_total (order b).key (order a).key⟩

instance (order : ρ → Order) : IsTrans ρ (NotOlderBy order) :=
  ⟨fun _ _ _ hab hbc => le_trans hbc hab⟩

/-- The first row of `array_agg` is one of the group, and none is newer. -/
theorem newestOf_spec (group : Run.Group ρ) :
    newestOf env query group ∈ group.items ∧ ∀ row ∈ group.items,
      (query.order row).key ≤ (query.order (newestOf env query group)).key := by
  have hperm : ((env.rowOrder.order group.items).insertionSort
      (NotOlderBy query.order)).Perm group.items :=
    (List.perm_insertionSort _ _).trans (env.rowOrder.perm_order _)
  have hsorted := List.pairwise_insertionSort (NotOlderBy query.order)
    (env.rowOrder.order group.items)
  unfold newestOf
  cases hrows : (env.rowOrder.order group.items).insertionSort
      (NotOlderBy query.order) with
  | nil =>
      rw [hrows] at hperm
      exact absurd (List.mem_cons_self) (hperm.mem_iff.not.mp List.not_mem_nil)
  | cons newest rest =>
      rw [hrows] at hperm hsorted
      refine ⟨hperm.mem_iff.mp List.mem_cons_self, fun row hrow => ?_⟩
      rcases List.mem_cons.mp (hperm.mem_iff.mpr hrow) with rfl | hrest
      · exact le_refl _
      · exact List.rel_of_pairwise_cons hsorted hrest

theorem foldl_max_eq {l : List ℤ} {m : ℤ} (hmem : m ∈ l)
    (hmax : ∀ n ∈ l, n ≤ m) (hnonneg : ∀ n ∈ l, 0 ≤ n) :
    l.foldl max 0 = m := by
  have hle : ∀ (l : List ℤ) (n : ℤ), n ≤ m → (∀ k ∈ l, k ≤ m) →
      l.foldl max n ≤ m := by
    intro l
    induction l with
    | nil => exact fun n hn _ => hn
    | cons k l ih =>
        intro n hn hl
        obtain ⟨hk, hl⟩ := List.forall_mem_cons.mp hl
        exact ih (max n k) (max_le hn hk) hl
  have hge : ∀ (l : List ℤ) (n k : ℤ), (k ≤ n ∨ k ∈ l) → k ≤ l.foldl max n := by
    intro l
    induction l with
    | nil =>
        intro n k h
        exact h.resolve_right List.not_mem_nil
    | cons k' l ih =>
        intro n k h
        refine ih (max n k') k ?_
        rcases h with h | h
        · exact .inl (le_trans h (le_max_left n k'))
        · rcases List.mem_cons.mp h with rfl | h
          · exact .inl (le_max_right n k)
          · exact .inr h
  exact le_antisymm (hle l 0 (hnonneg m hmem) hmax) (hge l 0 m (.inr hmem))

/-- A row of the query has the stamp of the newest row of its group. -/
theorem aggregateRow_stamp (group : Run.Group ρ) :
    (aggregateRow env query group).stamp =
      (query.order (newestOf env query group)).stamp := by
  obtain ⟨hmem, hmax⟩ := newestOf_spec env query group
  have htime : (aggregateRow env query group).newestAt =
      (query.order (newestOf env query group)).createdAt.1.time := by
    refine foldl_max_eq (List.mem_map_of_mem hmem) ?_ ?_
    · intro n hn
      obtain ⟨row, hrow, rfl⟩ := List.mem_map.mp hn
      have hle := hmax row hrow
      unfold Order.key at hle
      rcases Prod.Lex.toLex_le_toLex.mp hle with hlt | ⟨heq, -⟩
      · exact le_of_lt hlt
      · exact le_of_eq (congrArg (fun t : Timestamp => t.1.time) heq)
    · intro n hn
      obtain ⟨row, -, rfl⟩ := List.mem_map.mp hn
      exact (query.order row).createdAt.2
  unfold AggregateRow.stamp Order.stamp
  rw [htime]
  rfl

theorem aggregateRow_stamped (group : Run.Group ρ) :
    0 ≤ (aggregateRow env query group).newestAt ∧
      (aggregateRow env query group).newestId ≠ "" := by
  have hstamp := aggregateRow_stamp env query group
  unfold AggregateRow.stamp Order.stamp at hstamp
  have htime := congrArg (fun stamp : Stamp => (ofLex stamp).1) hstamp
  have hid := congrArg (fun stamp : Stamp => (ofLex stamp).2) hstamp
  dsimp only [ofLex_toLex] at htime hid
  refine ⟨?_, fun hempty => ?_⟩
  · rw [htime]
    exact (query.order (newestOf env query group)).createdAt.2
  · have hlength :=
      (query.order (newestOf env query group)).id.1.length_text
    rw [← hid, hempty] at hlength
    cases hlength

/-! ## What a loop has in a bucket

After some rows a bucket has their amounts, their counts and the newest of
their labels. One round adds one row to each. -/

variable {query} {label : AggregateRow κ → String}

/-- What a bucket has after some rows. -/
structure Merged (label : AggregateRow κ → String)
    (rows : List (AggregateRow κ)) (bucket : MutableBucket) : Prop where
  orderCount : bucket.orderCount = (rows.map (·.orderCount)).sum
  quantityMilli : bucket.quantityMilli = (rows.map (·.quantityMilli)).sum
  gross : bucket.gross =
    grossMap (rows.map fun row => (row.currency, row.grossMinor))
  start : rows = [] → bucket.newestAt = 0 ∧ bucket.newestId = ""
  below : ∀ row ∈ rows, row.stamp ≤ bucket.stamp
  newest : rows ≠ [] →
    ∃ row ∈ rows, row.stamp = bucket.stamp ∧ bucket.label = label row

theorem grossMap_concat (amounts : List (String × ℤ)) (currency : String)
    (amount : ℤ) : grossMap (amounts ++ [(currency, amount)]) =
      mergeGross (grossMap amounts) currency amount := by
  unfold grossMap collect
  rw [List.foldl_append]
  rfl

/-- A row that is not newer than any row there is leaves the label alone. -/
theorem Merged.add {rows : List (AggregateRow κ)} {bucket : MutableBucket}
    (h : Merged label rows bucket) {row : AggregateRow κ}
    (hrow : 0 ≤ row.newestAt ∧ row.newestId ≠ "") :
    Merged label (rows ++ [row]) (addRow bucket row (label row)) := by
  have hnewer : (row.newestAt > bucket.newestAt ∨
      row.newestAt = bucket.newestAt ∧
        row.newestId.toList > bucket.newestId.toList) ↔
      bucket.stamp < row.stamp := by
    unfold AggregateRow.stamp MutableBucket.stamp
    rw [Prod.Lex.toLex_lt_toLex]
    exact or_congr Iff.rfl (and_congr_left fun _ => eq_comm)
  have hgross : mergeGross bucket.gross row.currency row.grossMinor =
      grossMap ((rows ++ [row]).map fun row =>
        (row.currency, row.grossMinor)) := by
    rw [h.gross, List.map_append]
    exact (grossMap_concat _ _ _).symm
  have hcount : bucket.orderCount + row.orderCount =
      ((rows ++ [row]).map (·.orderCount)).sum := by
    rw [h.orderCount, List.map_append, List.sum_append]
    simp
  have hquantity : bucket.quantityMilli + row.quantityMilli =
      ((rows ++ [row]).map (·.quantityMilli)).sum := by
    rw [h.quantityMilli, List.map_append, List.sum_append]
    simp
  have hnil : rows ++ [row] ≠ [] := by simp
  unfold addRow addGrossRow
  dsimp only
  by_cases hnew : bucket.stamp < row.stamp
  · rw [if_pos (hnewer.mpr hnew)]
    refine ⟨hcount, hquantity, hgross, fun hempty => absurd hempty hnil, ?_,
      fun _ => ⟨row, by simp, rfl, rfl⟩⟩
    intro other hother
    rcases List.mem_append.mp hother with hother | hother
    · exact le_trans (h.below other hother) (le_of_lt hnew)
    · rw [List.mem_singleton.mp hother]
      exact le_refl _
  · rw [if_neg (mt hnewer.mp hnew)]
    refine ⟨hcount, hquantity, hgross, fun hempty => absurd hempty hnil, ?_,
      fun _ => ?_⟩
    · intro other hother
      rcases List.mem_append.mp hother with hother | hother
      · exact h.below other hother
      · rw [List.mem_singleton.mp hother]
        exact le_of_not_gt hnew
    · by_cases hrows : rows = []
      · obtain ⟨hat, hid⟩ := h.start hrows
        refine absurd (hnewer.mp ?_) hnew
        rw [hat, hid]
        rcases lt_or_eq_of_le hrow.1 with hlt | heq
        · exact .inl hlt
        · refine .inr ⟨heq.symm, ?_⟩
          have hne : row.newestId.toList ≠ [] := by
            simpa [String.toList_eq_nil_iff] using hrow.2
          obtain ⟨c, cs, hcs⟩ := List.exists_cons_of_ne_nil hne
          rw [hcs]
          exact List.nil_lt_cons c cs
      · obtain ⟨newest, hmem, hstamp, hlabel⟩ := h.newest hrows
        exact ⟨newest, List.mem_append_left _ hmem, hstamp, hlabel⟩

/-- The loop, whatever it does to the identity. -/
theorem Merged.foldl {add : MutableBucket → AggregateRow κ → MutableBucket}
    (hadd : ∀ bucket row, ∃ identity,
      add bucket row = { addRow bucket row (label row) with identity })
    (rows : List (AggregateRow κ))
    (hrows : ∀ row ∈ rows, 0 ≤ row.newestAt ∧ row.newestId ≠ "")
    {done : List (AggregateRow κ)} {bucket : MutableBucket}
    (h : Merged label done bucket) :
    Merged label (done ++ rows) (rows.foldl add bucket) := by
  induction rows generalizing done bucket with
  | nil =>
      rw [List.append_nil]
      exact h
  | cons row rows ih =>
      obtain ⟨hrow, hrest⟩ := List.forall_mem_cons.mp hrows
      obtain ⟨identity, hidentity⟩ := hadd bucket row
      have hnext := h.add hrow
      have hsame : Merged label (done ++ [row]) (add bucket row) := by
        rw [hidentity]
        exact ⟨hnext.orderCount, hnext.quantityMilli, hnext.gross,
          hnext.start, hnext.below, hnext.newest⟩
      rw [List.append_cons, List.foldl_cons]
      exact ih hrest hsame

theorem Merged.empty (identity : BucketIdentity) (text sortKey : String) :
    Merged label [] (emptyBucket identity text sortKey) :=
  ⟨rfl, rfl, rfl, fun _ => ⟨rfl, rfl⟩, nofun, fun h => absurd rfl h⟩

/-! ## A bucket and its group

What a bucket should be, stated of plain rows, and what a query and a loop have
to have in common for the two steps to come to it. -/

/-- The plain aggregate of a group of rows. -/
structure BucketOf (query : GroupQuery ρ κ)
    (identity : κ → String → BucketIdentity) (rows : List ρ)
    (bucket : Bucket) : Prop where
  orderCount : bucket.orderCount = query.count rows
  gross : GrossOf (rows.map fun row => (query.currency row, query.gross row))
    bucket.grossByCurrency
  quantityMilli : bucket.quantityMilli =
    bucket.identity.shown (rows.map query.quantity).sum
  newest : ∃ row ∈ rows,
    (∀ other ∈ rows, (query.order other).key ≤ (query.order row).key) ∧
      bucket.label = query.label row ∧
      bucket.identity = identity (query.group row) bucket.label

/-- The buckets are the aggregates of the groups, each group once; none is
left out unless the result is truncated. -/
def RollsUp [DecidableEq ι] (query : GroupQuery ρ κ) (identOf : κ → ι)
    (identity : κ → String → BucketIdentity) (rows : List ρ)
    (buckets : List Bucket) (truncated : Bool) : Prop :=
  ∃ keys : List ι, keys.Nodup ∧
    List.Forall₂ (fun k bucket => BucketOf query identity
      (rows.filter fun row => identOf (query.group row) = k) bucket)
        keys buckets ∧
    (truncated = false → ∀ row ∈ rows, identOf (query.group row) ∈ keys)

/-- What the parts of a loop have to do with its query. -/
structure Dimension (query : GroupQuery ρ κ) (key : κ → String)
    (identOf : κ → ι) (identity : κ → String → BucketIdentity)
    (label : AggregateRow κ → String) (fresh : AggregateRow κ → MutableBucket)
    (add : MutableBucket → AggregateRow κ → MutableBucket) : Prop where
  key_iff : ∀ a b, key a = key b ↔ identOf a = identOf b
  identity_congr : ∀ a b text, identOf a = identOf b →
    identity a text = identity b text
  starts : ∀ row, ∃ text sortKey,
    fresh row = emptyBucket (identity row.group text) text sortKey
  adds : ∀ bucket row, ∃ identity,
    add bucket row = { addRow bucket row (label row) with identity }
  keeps : ∀ bucket row group,
    bucket.identity = identity group bucket.label →
      (add bucket row).identity = identity group (add bucket row).label
  labels : ∀ env (group : Run.Group ρ),
    (∀ row ∈ group.items, query.group row = query.group group.first) →
      label (aggregateRow env query group) =
        query.label (newestOf env query group)

variable [DecidableEq κ] [DecidableEq ι] {key : κ → String} {identOf : κ → ι}
  {identity : κ → String → BucketIdentity}
  {fresh : AggregateRow κ → MutableBucket}
  {add : MutableBucket → AggregateRow κ → MutableBucket}

/-- The counts of the groups of a bucket add up to its count. -/
structure CountAdds (query : GroupQuery ρ κ) (identOf : κ → ι)
    (rows : List ρ) : Prop where
  perm : ∀ {l l' : List ρ}, l.Perm l' → query.count l = query.count l'
  flatMap : ∀ groups : List (Run.Group ρ),
    (∀ group ∈ groups, ∀ row ∈ group.items, row ∈ rows ∧
      query.currency row = query.currency group.first) →
    (∀ group ∈ groups, ∀ group' ∈ groups,
      identOf (query.group group.first) = identOf (query.group group'.first)) →
    (groups.map fun group =>
      (query.group group.first, query.currency group.first)).Nodup →
    (groups.map fun group => query.count group.items).sum =
      query.count (groups.flatMap Group.items)

/-- The groups of a query that go into one bucket. -/
structure GroupsOf (query : GroupQuery ρ κ) (identOf : κ → ι) (rows : List ρ)
    (k : ι) (groups : List (Run.Group ρ)) : Prop where
  perm : (groups.flatMap Group.items).Perm
    (rows.filter fun row => identOf (query.group row) = k)
  nodup : (groups.map fun group =>
    (query.group group.first, query.currency group.first)).Nodup
  same : ∀ group ∈ groups, ∀ row ∈ group.items,
    query.group row = query.group group.first ∧
      query.currency row = query.currency group.first
  ident : ∀ group ∈ groups, identOf (query.group group.first) = k

omit [DecidableEq κ] in
theorem GroupsOf.mem {rows : List ρ} {k : ι} {groups : List (Run.Group ρ)}
    (h : GroupsOf query identOf rows k groups) {group : Run.Group ρ}
    (hgroup : group ∈ groups) {row : ρ} (hrow : row ∈ group.items) :
    row ∈ rows.filter fun row => identOf (query.group row) = k :=
  h.perm.mem_iff.mp (List.mem_flatMap.mpr ⟨group, hgroup, hrow⟩)

omit [DecidableEq κ] in
/-- The amounts of the groups add up, currency by currency. -/
theorem GroupsOf.grossOf {rows : List ρ} {k : ι}
    {groups : List (Run.Group ρ)} (h : GroupsOf query identOf rows k groups) :
    GrossOf ((rows.filter fun row => identOf (query.group row) = k).map
        fun row => (query.currency row, query.gross row))
      (grossMap ((groups.map (aggregateRow env query)).map fun row =>
        (row.currency, row.grossMinor))) := by
  refine GrossOf.trans (grossOf_grossMap _) (fun currency => ?_)
    fun currency => ?_
  · simp only [List.map_map]
    constructor
    · intro hin
      obtain ⟨group, hgroup, rfl⟩ := List.mem_map.mp hin
      exact List.mem_map.mpr
        ⟨group.first, h.mem hgroup List.mem_cons_self, rfl⟩
    · intro hin
      obtain ⟨row, hrow, rfl⟩ := List.mem_map.mp hin
      obtain ⟨group, hgroup, hrow⟩ :=
        List.mem_flatMap.mp (h.perm.mem_iff.mpr hrow)
      exact List.mem_map.mpr
        ⟨group, hgroup, (h.same group hgroup row hrow).2.symm⟩
  · have hfilter : (groups.flatMap Group.items).filter
          (fun row => decide (query.currency row = currency)) =
        (groups.filter fun group =>
          decide (query.currency group.first = currency)).flatMap
            Group.items := by
      refine Group.filter_flatMap fun group hgroup row hrow => ?_
      rw [(h.same group hgroup row hrow).2]
    unfold amountIn
    rw [List.map_map, List.filter_map, List.map_map, List.filter_map,
      List.map_map]
    refine Eq.trans ?_ (((h.perm.filter fun row =>
      decide (query.currency row = currency)).map query.gross).sum_eq)
    rw [hfilter, sum_map_flatMap]
    rfl

omit [DecidableEq κ] in
theorem GroupsOf.bucketOf {rows : List ρ} {k : ι}
    {groups : List (Run.Group ρ)} (h : GroupsOf query identOf rows k groups)
    (hdim : Dimension query key identOf identity label fresh add)
    (hcount : CountAdds query identOf rows) {bucket : MutableBucket}
    (hne : groups ≠ [])
    (hmerged : Merged label (groups.map (aggregateRow env query)) bucket)
    (hidentity : ∀ group ∈ groups,
      bucket.identity = identity (query.group group.first) bucket.label) :
    BucketOf query identity
      (rows.filter fun row => identOf (query.group row) = k)
      (toOutputBucket env bucket) := by
  refine ⟨?_, ?_, ?_, ?_⟩
  · -- the counts add up
    change bucket.orderCount = _
    rw [hmerged.orderCount, List.map_map, ← hcount.perm h.perm]
    refine hcount.flatMap groups (fun group hgroup row hrow => ?_)
      (fun group hgroup group' hgroup' => ?_) h.nodup
    · exact ⟨List.mem_of_mem_filter (h.mem hgroup hrow),
        (h.same group hgroup row hrow).2⟩
    · rw [h.ident group hgroup, h.ident group' hgroup']
  · change GrossOf _ (grossByCurrencyFromMap env bucket.gross)
    rw [hmerged.gross]
    exact (h.grossOf env).perm (List.perm_insertionSort _ _)
  · -- and the quantities
    change bucket.identity.shown bucket.quantityMilli = _
    rw [hmerged.quantityMilli, List.map_map,
      ← (h.perm.map query.quantity).sum_eq, sum_map_flatMap]
    rfl
  · have hrows : groups.map (aggregateRow env query) ≠ [] := by
      simpa using hne
    obtain ⟨row, hrow, hstamp, hlabel⟩ := hmerged.newest hrows
    obtain ⟨group, hgroup, rfl⟩ := List.mem_map.mp hrow
    obtain ⟨hnewest, hmax⟩ := newestOf_spec env query group
    refine ⟨newestOf env query group, h.mem hgroup hnewest, ?_, ?_, ?_⟩
    · intro other hother
      obtain ⟨group', hgroup', hother⟩ :=
        List.mem_flatMap.mp (h.perm.mem_iff.mpr hother)
      have hle := hmerged.below _ (List.mem_map_of_mem hgroup')
      rw [← hstamp, aggregateRow_stamp, aggregateRow_stamp,
        Order.stamp_le_iff] at hle
      exact le_trans ((newestOf_spec env query group').2 other hother) hle
    · change bucket.label = _
      rw [hlabel]
      exact hdim.labels env group fun row hrow =>
        (h.same group hgroup row hrow).1
    · change bucket.identity = identity _ bucket.label
      rw [hidentity group hgroup, (h.same group hgroup _ hnewest).1]

/-! ## All the buckets

The loop leaves one bucket for each value that occurs, and each of them is made
of the groups of that value. -/

/-- The groups of a bucket, out of those of the query. -/
theorem groupsOf_filter
    (hkey : ∀ a b, key a = key b ↔ identOf a = identOf b)
    (rows : List ρ) {group : κ} {groups : List (Run.Group ρ)}
    (hperm : groups.Perm (Group.groupBy
      (fun row => (query.group row, query.currency row)) rows)) :
    GroupsOf query identOf rows (identOf group)
      (groups.filter fun g => key (query.group g.first) = key group) := by
  have hgrouped := Group.grouped_groupBy
    (fun row => (query.group row, query.currency row)) rows
  have hpair := Group.perm_filter hperm fun pair => key pair.1 = key group
  have hident : (rows.filter fun row => key (query.group row) = key group) =
      rows.filter fun row => identOf (query.group row) = identOf group := by
    refine List.filter_congr fun row _ => ?_
    rw [decide_eq_decide]
    exact hkey _ _
  refine ⟨?_, ?_, fun g hg row hrow => ?_, fun g hg => ?_⟩
  · rw [← hident]
    exact hpair
  · have hall := (hperm.map fun g =>
      (query.group g.first, query.currency g.first)).nodup_iff.mpr
        hgrouped.nodup
    exact hall.sublist (List.filter_sublist.map _)
  · have hmem := hperm.mem_iff.mp (List.mem_of_mem_filter hg)
    rw [hgrouped.items g hmem, List.mem_filter, decide_eq_true_eq,
      Prod.mk.injEq] at hrow
    exact hrow.2
  · have hsame := (List.mem_filter.mp hg).2
    rw [decide_eq_true_eq] at hsame
    exact (hkey _ _).mp hsame

omit [DecidableEq κ] [DecidableEq ι] in
/-- The identity follows the label through the loop. -/
theorem Dimension.foldl_keeps
    (hdim : Dimension query key identOf identity label fresh add) {group : κ}
    (rows : List (AggregateRow κ)) {bucket : MutableBucket}
    (h : bucket.identity = identity group bucket.label) :
    (rows.foldl add bucket).identity =
      identity group (rows.foldl add bucket).label := by
  induction rows generalizing bucket with
  | nil => exact h
  | cons row rows ih => exact ih (hdim.keeps bucket row group h)

/-- The loop leaves one bucket for each group that occurs. -/
theorem mergeRows_spec
    (hdim : Dimension query key identOf identity label fresh add)
    (rows : List ρ) (hcount : CountAdds query identOf rows) :
    ∃ keys : List ι, keys.Nodup ∧
      List.Forall₂ (fun k bucket => BucketOf query identity
        (rows.filter fun row => identOf (query.group row) = k)
          (toOutputBucket env bucket)) keys
        (mergeRows (fun row => key row.group) fresh add
          (aggregateRows env query rows)) ∧
      ∀ row ∈ rows, identOf (query.group row) ∈ keys := by
  have hgrouped := Group.grouped_groupBy
    (fun row => (query.group row, query.currency row)) rows
  have hmerged := Group.grouped_groupBy
    (fun row : AggregateRow κ => key row.group) (aggregateRows env query rows)
  have hperm := env.rowOrder.perm_order (Group.groupBy
    (fun row => (query.group row, query.currency row)) rows)
  refine ⟨(Group.groupBy (fun row : AggregateRow κ => key row.group)
    (aggregateRows env query rows)).map fun G => identOf G.first.group,
    ?_, ?_, ?_⟩
  · have hkeys := hmerged.nodup
    unfold List.Nodup at hkeys ⊢
    rw [List.pairwise_map] at hkeys ⊢
    exact hkeys.imp fun hne heq => hne ((hdim.key_iff _ _).mpr heq)
  · unfold mergeRows
    rw [collect_eq_groupBy, List.map_map, List.forall₂_map_right_iff,
      List.forall₂_map_left_iff, List.forall₂_same]
    intro G hG
    have hitems := hmerged.items G hG
    unfold aggregateRows at hitems
    rw [List.filter_map] at hitems
    have hgroups : GroupsOf query identOf rows (identOf G.first.group) _ :=
      groupsOf_filter hdim.key_iff rows hperm
    obtain ⟨text, sortKey, hfresh⟩ := hdim.starts G.first
    have hstamped : ∀ row ∈ G.items,
        0 ≤ row.newestAt ∧ row.newestId ≠ "" := by
      intro row hrow
      rw [hitems] at hrow
      obtain ⟨group, -, rfl⟩ := List.mem_map.mp hrow
      exact aggregateRow_stamped env query group
    have hstart : Merged label [] (fresh G.first) := by
      rw [hfresh]
      exact Merged.empty _ text sortKey
    have hidentity := hdim.foldl_keeps G.items
      (show (fresh G.first).identity =
          identity G.first.group (fresh G.first).label by rw [hfresh]; rfl)
    have hbucket := Merged.foldl hdim.adds G.items hstamped hstart
    rw [List.nil_append] at hbucket
    refine GroupsOf.bucketOf env hgroups hdim hcount ?_ ?_ fun g hg => ?_
    · intro hnil
      have hempty : G.items = [] := by
        rw [hitems]
        exact congrArg (List.map _) hnil
      exact absurd hempty (List.cons_ne_nil _ _)
    · have hsame := hbucket
      conv at hsame => arg 2; rw [hitems]
      exact hsame
    · refine hidentity.trans ?_
      exact hdim.identity_congr _ _ _ (hgroups.ident g hg).symm
  · intro row hrow
    obtain ⟨g, hg, hpair⟩ := hgrouped.found row hrow
    have hmem : aggregateRow env query g ∈ aggregateRows env query rows :=
      List.mem_map_of_mem (hperm.mem_iff.mpr hg)
    obtain ⟨G, hG, hkey⟩ := hmerged.found _ hmem
    refine List.mem_map.mpr ⟨G, hG, ?_⟩
    rw [← (Prod.mk.inj hpair).1]
    exact (hdim.key_iff _ _).mp hkey

/-! ## Sorting and capping

Sorting moves buckets about, and the cap takes the last of them off and says
so. -/

omit [DecidableEq κ] in
/-- The cap leaves buckets out only if it says so. -/
theorem rollsUp_sortAndCapBuckets {rows : List ρ}
    {buckets : List MutableBucket} (h : ∃ keys : List ι, keys.Nodup ∧
      List.Forall₂ (fun k bucket => BucketOf query identity
        (rows.filter fun row => identOf (query.group row) = k)
          (toOutputBucket env bucket)) keys buckets ∧
      ∀ row ∈ rows, identOf (query.group row) ∈ keys) :
    RollsUp query identOf identity rows (sortAndCapBuckets env buckets).1
      (sortAndCapBuckets env buckets).2 := by
  obtain ⟨keys, hnodup, hall, hcover⟩ := h
  have hperm : buckets.Perm (sortBuckets env buckets) :=
    (List.perm_insertionSort _ _).symm
  obtain ⟨sortedKeys, hflip, hkeys⟩ :=
    List.perm_comp_forall₂ hperm.symm hall.flip
  have hsorted := hflip.flip
  have hsortedNodup := hkeys.nodup_iff.mpr hnodup
  unfold sortAndCapBuckets
  dsimp only
  by_cases htruncated : (sortBuckets env buckets).length >
      LIST_ORDERS_AGGREGATE_BUCKETS_MAX
  · rw [decide_eq_true htruncated, if_pos rfl]
    refine ⟨sortedKeys.take LIST_ORDERS_AGGREGATE_BUCKETS_MAX,
      hsortedNodup.sublist (List.take_sublist _ _), ?_, nofun⟩
    rw [List.forall₂_map_right_iff]
    exact List.forall₂_take _ hsorted
  · rw [decide_eq_false htruncated, if_neg (by simp)]
    refine ⟨sortedKeys, hsortedNodup, ?_, fun _ row hrow => ?_⟩
    · rw [List.forall₂_map_right_iff]
      exact hsorted
    · exact hkeys.mem_iff.mpr (hcover row hrow)

/-- The loop of a dimension and the cap after it. -/
theorem rollsUp_mergeRows
    (hdim : Dimension query key identOf identity label fresh add)
    (rows : List ρ) (hcount : CountAdds query identOf rows) :
    RollsUp query identOf identity rows
      (sortAndCapBuckets env (mergeRows (fun row => key row.group) fresh add
        (aggregateRows env query rows))).1
      (sortAndCapBuckets env (mergeRows (fun row => key row.group) fresh add
        (aggregateRows env query rows))).2 :=
  rollsUp_sortAndCapBuckets env (mergeRows_spec env hdim rows hcount)

/-! ## The parts and the whole

Where each row is in one group, sums over the buckets are sums over the rows.
-/

omit [DecidableEq κ] in
/-- What a bucket has as the sum of its rows, all of them have together. -/
theorem RollsUp.sum {μ : Type} [AddCommMonoid μ] {rows : List ρ}
    {buckets : List Bucket} {truncated : Bool}
    (h : RollsUp query identOf identity rows buckets truncated)
    (hall : truncated = false) {f : Bucket → μ} {g : ρ → μ}
    (hf : ∀ group bucket, BucketOf query identity group bucket →
      f bucket = (group.map g).sum) :
    (buckets.map f).sum = (rows.map g).sum := by
  obtain ⟨keys, hnodup, hbuckets, hcover⟩ := h
  rw [← sum_filter_keys (fun row => identOf (query.group row)) g hnodup
    (hcover hall)]
  refine congrArg List.sum ?_
  clear hnodup hcover
  induction hbuckets with
  | nil => rfl
  | cons hhead _ ih => rw [List.map_cons, List.map_cons, ih, hf _ _ hhead]

theorem amountIn_map (currency : ρ → String) (gross : ρ → ℤ) (c : String)
    (rows : List ρ) :
    amountIn c (rows.map fun row => (currency row, gross row)) =
      (rows.map fun row => if currency row = c then gross row else 0).sum := by
  unfold amountIn
  rw [List.filter_map, List.map_map]
  refine (sum_map_filter _ _ rows).trans ?_
  simp only [Function.comp, decide_eq_true_eq]

omit [DecidableEq κ] in
/-- The amounts of all the buckets are those of all the rows. -/
theorem RollsUp.gross {rows : List ρ} {buckets : List Bucket}
    {truncated : Bool} (h : RollsUp query identOf identity rows buckets
      truncated) (hall : truncated = false) (currency : String) :
    (buckets.map fun bucket =>
        amountIn currency bucket.grossByCurrency).sum =
      amountIn currency
        (rows.map fun row => (query.currency row, query.gross row)) := by
  rw [amountIn_map]
  refine h.sum hall fun group bucket hbucket => ?_
  rw [hbucket.gross.amount, amountIn_map]

omit [DecidableEq κ] in
/-- And so are the counts, where a count adds up over the rows. -/
theorem RollsUp.count {rows : List ρ} {buckets : List Bucket}
    {truncated : Bool} (h : RollsUp query identOf identity rows buckets
      truncated) (hall : truncated = false)
    (hcount : ∀ l, query.count l = l.length) :
    (buckets.map (·.orderCount)).sum = rows.length := by
  have hsum := h.sum hall (f := (·.orderCount)) (g := fun _ => 1)
    fun group bucket hbucket => by
      rw [hbucket.orderCount, hcount]
      simp
  rw [hsum]
  simp

end Shozee.Orders.Listing
