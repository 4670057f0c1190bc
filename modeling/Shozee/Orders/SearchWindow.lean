import Mathlib.Data.List.ReduceOption
import Shozee.Orders.SearchMatches
import Shozee.Run.Traverse

/-!
# The window of the order search is what everything sorted begins with

A row of the window is sorted by the database and its hit by the service. Rank
and id are the same in both; so the two sort alike as soon as they call the
same rows exact, and then the page is the beginning of all the hits
(`Run.page_of_window`).

A number that is the query begins with it. A name that is the query once both
are folded need not contain the query's tokens, which are folded while the name
is not: with another apostrophe in the name it does not.
-/

namespace Shozee.Orders.SearchMatches

open Shozee.Run
open Shozee.Validation
open Shozee.Search

variable {L : SearchLanguage} {D : DatabaseText}

/-! ## What is to hold

The page should be what sorting all matches would begin with. `ExactNamesMatch`
is when it is. -/

/-- The rows of the company that one of the clauses finds. -/
def matching (L : SearchLanguage) (D : DatabaseText) (table : OrderTable)
    (args : SearchArgs) : List OrderRow :=
  table.rows.filter fun row =>
    row.companyId = args.companyId &&
      (holds (clausesOf L D args).numberMatch row ||
        holds (clausesOf L D args).customerMatch row ||
        holds (clausesOf L D args).snapshotMatch row)

/-- The page is the beginning of all the hits, sorted. -/
structure WindowIsSort (L : SearchLanguage) (D : DatabaseText)
    (table : OrderTable) (args : SearchArgs) : Prop where
  page : ∃ result hits, runOrdersSearchMatches L D table args = .ok result ∧
    ((matching L D table args).map (clausesOf L D args).selected).mapM
      toOrderHit = .ok hits ∧
    result.groups.flatMap SearchGroup.hits =
      ((sortHits hits).take args.limitPerType).map InternalHit.toSearchHit ∧
    result.groups.any SearchGroup.truncated =
      decide (args.limitPerType < (matching L D table args).length)
  agree : ∀ row ∈ matching L D table args,
    ∃ hit, toOrderHit ((clausesOf L D args).selected row) = .ok hit ∧
      hit.exact = (clausesOf L D args).exactBoostSql row ∧
      hit.rank = (clausesOf L D args).rankSql row
  explained : ∀ row ∈ fetchOrderRows L D table args,
    ∃ hit, toOrderHit row = .ok hit

/-- A name that is the query has its tokens, unless the order's number is the
query. -/
def ExactNamesMatch (L : SearchLanguage) (D : DatabaseText)
    (table : OrderTable) (args : SearchArgs) : Prop :=
  ∀ row ∈ matching L D table args,
    snapshotExactSql L D args.prepared.queryNormalized row = true →
    holds (clausesOf L D args).numberExact row = true ∨
      holds (snapshotMatchSql D args.prepared.tokens) row = true

/-! ## Clauses

What the `WHERE` lets through, and that an exact number does not depend on the
tokens. -/

theorem holds_combineOr (clauses : List (Option Clause)) (row : OrderRow) :
    holds (combineOr clauses) row =
      clauses.any fun clause => holds clause row := by
  have hany : (clauses.reduceOption.any fun clause => clause row) =
      clauses.any fun clause => holds clause row := by
    induction clauses with
    | nil => rfl
    | cons clause clauses ih =>
        cases clause with
        | none =>
            rw [List.reduceOption_cons_of_none, ih, List.any_cons, holds,
              Option.any_none, Bool.false_or]
        | some clause =>
            rw [List.reduceOption_cons_of_some, List.any_cons, ih,
              List.any_cons, holds, Option.any_some]
  unfold combineOr
  dsimp only
  split
  next hnone =>
    rw [List.isEmpty_iff] at hnone
    rw [hnone] at hany
    exact hany
  next => exact hany

/-- A number that is the query begins with it. -/
theorem numberMatch_of_exact {args : SearchArgs} {row : OrderRow}
    (h : holds (clausesOf L D args).numberExact row = true) :
    holds (clausesOf L D args).numberMatch row = true := by
  unfold clausesOf holds at h ⊢
  dsimp only at h ⊢
  generalize canonicalOrderNumberLiteral L args.query args.companyPrefix =
    numberLiteral at h ⊢
  cases numberLiteral with
  | none => exact absurd h Bool.false_ne_true
  | some literal =>
      rw [Option.map_some, Option.any_some] at h ⊢
      dsimp only at h ⊢
      rw [of_decide_eq_true h, Search.startsWith]
      exact decide_eq_true (List.prefix_refl literal)

theorem mem_matching {table : OrderTable} {args : SearchArgs}
    {row : OrderRow} :
    row ∈ matching L D table args ↔ row ∈ table.rows ∧
      row.companyId = args.companyId ∧
        holds (clausesOf L D args).combined row = true := by
  have hcombined := holds_combineOr [(clausesOf L D args).numberMatch,
    (clausesOf L D args).customerMatch, (clausesOf L D args).snapshotMatch]
    row
  unfold matching Clauses.combined
  rw [hcombined, List.mem_filter, Bool.and_eq_true, decide_eq_true_eq]
  simp [Bool.or_assoc]

/-- The rows are fetched through the window. -/
theorem fetchOrderRows_eq (table : OrderTable) (args : SearchArgs) :
    fetchOrderRows L D table args =
      (window (fun left right =>
          ((clausesOf L D args).ranked left).le
            ((clausesOf L D args).ranked right))
        (args.limitPerType + 1) (matching L D table args)).map
          (clausesOf L D args).selected := by
  have hmatching : matching L D table args = table.rows.filter fun row =>
      row.companyId = args.companyId &&
        holds (clausesOf L D args).combined row := by
    refine List.filter_congr fun row _ => ?_
    rw [Clauses.combined, holds_combineOr]
    simp [Bool.or_assoc]
  unfold fetchOrderRows
  dsimp only
  rw [hmatching]
  cases hcombined : (clausesOf L D args).combined with
  | some combined => rfl
  | none =>
      have hnone : (table.rows.filter fun row =>
          row.companyId = args.companyId && holds none row) = [] := by
        rw [List.filter_eq_nil_iff]
        intro row _
        rw [holds, Option.any_none, Bool.and_false]
        exact Bool.false_ne_true
      rw [hnone, window, List.mergeSort_nil, List.take_nil, List.map_nil]

/-! ## Hits

The service calls the same rows exact as the database does, if exact names have
their tokens. -/

/-- The hit of a row that has a reason. -/
def hitOf (row : OrderSearchRow) : InternalHit :=
  hitWith row (reducePreferred
    ((candidatesOf row).reduceOption.headD ⟨false, .number⟩)
    (candidatesOf row).reduceOption)

theorem toOrderHit_eq_ok {row : OrderSearchRow}
    (h : (row.matchedNumber || row.matchedCustomer || row.matchedSnapshot) =
      true) : toOrderHit row = .ok (hitOf row) := by
  have hne : (candidatesOf row).reduceOption ≠ [] := by
    unfold candidatesOf
    cases hnumber : row.matchedNumber <;>
      cases hcustomer : row.matchedCustomer <;>
      cases hsnapshot : row.matchedSnapshot <;>
      simp_all [List.reduceOption]
  obtain ⟨first, rest, hreasons⟩ := List.exists_cons_of_ne_nil hne
  unfold toOrderHit preferredHit hitOf
  rw [hreasons]
  rfl

theorem exact_hitOf (row : OrderSearchRow) :
    (hitOf row).exact = (row.matchedNumber && row.matchedNumberExact ||
      row.matchedSnapshot && row.matchedSnapshotExact) := by
  have hreduce := exact_foldl_pickPreferred (id : SearchHitPreference → _)
    ((candidatesOf row).reduceOption.headD ⟨false, .number⟩)
    (candidatesOf row).reduceOption
  change (hitOf row).exact = _ at hreduce
  rw [hreduce]
  unfold candidatesOf
  cases hnumber : row.matchedNumber <;>
    cases hcustomer : row.matchedCustomer <;>
    cases hsnapshot : row.matchedSnapshot <;>
    simp [List.reduceOption]

theorem toOrderHit_of_matching {table : OrderTable} {args : SearchArgs}
    {row : OrderRow} (h : row ∈ matching L D table args) :
    toOrderHit ((clausesOf L D args).selected row) =
      .ok (hitOf ((clausesOf L D args).selected row)) := by
  have hcombined := (mem_matching.mp h).2.2
  rw [Clauses.combined, holds_combineOr] at hcombined
  refine toOrderHit_eq_ok ?_
  simpa [Clauses.selected, Bool.or_assoc] using hcombined

/-- The service calls a row exact when the database does, or finds less. -/
theorem exact_eq_iff {args : SearchArgs} {row : OrderRow} :
    (hitOf ((clausesOf L D args).selected row)).exact =
        (clausesOf L D args).exactBoostSql row ↔
      (snapshotExactSql L D args.prepared.queryNormalized row = true →
        holds (clausesOf L D args).numberExact row = true ∨
          holds (snapshotMatchSql D args.prepared.tokens) row = true) := by
  have hboost : (clausesOf L D args).exactBoostSql row =
      (holds (clausesOf L D args).numberExact row ||
        snapshotExactSql L D args.prepared.queryNormalized row) := by
    rw [Clauses.exactBoostSql, holds_combineOr]
    simp [holds, clausesOf]
  have hnumber : holds (clausesOf L D args).numberExact row = true →
      holds (clausesOf L D args).numberMatch row = true :=
    numberMatch_of_exact
  rw [hboost, exact_hitOf]
  change (holds (clausesOf L D args).numberMatch row &&
    holds (clausesOf L D args).numberExact row ||
      holds (snapshotMatchSql D args.prepared.tokens) row &&
        snapshotExactSql L D args.prepared.queryNormalized row) = _ ↔ _
  generalize holds (clausesOf L D args).numberMatch row = numberMatch
    at hnumber ⊢
  generalize holds (clausesOf L D args).numberExact row = numberExact
    at hnumber ⊢
  generalize holds (snapshotMatchSql D args.prepared.tokens) row =
    snapshotMatch
  generalize snapshotExactSql L D args.prepared.queryNormalized row =
    snapshotExact
  cases numberMatch <;> cases numberExact <;> cases snapshotMatch <;>
    cases snapshotExact <;> simp_all

/-! ## The page

With equal flags the two orders are one, and a window of sorted rows, sorted
again, is a beginning of all of them. -/

/-- The order of the database. -/
def databaseLe (L : SearchLanguage) (D : DatabaseText) (args : SearchArgs)
    (left right : OrderRow) : Bool :=
  ((clausesOf L D args).ranked left).le ((clausesOf L D args).ranked right)

/-- The order that a page is sorted in. -/
def hitLe (left right : InternalHit) : Bool :=
  left.ranked.le right.ranked

/-- The hit that a matching order is. -/
def orderHit (L : SearchLanguage) (D : DatabaseText) (args : SearchArgs)
    (row : OrderRow) : InternalHit :=
  hitOf ((clausesOf L D args).selected row)

theorem nodup_key_window (table : OrderTable) (args : SearchArgs) (n : ℕ) :
    (((window (databaseLe L D args) n (matching L D table args)).map
      (orderHit L D args)).map InternalHit.key).Nodup := by
  have hids : ((window (databaseLe L D args) n
      (matching L D table args)).map OrderRow.id).Nodup :=
    nodup_map_window (table.id_unique.sublist
      (List.filter_sublist.map OrderRow.id))
  rw [List.map_map]
  refine List.Nodup.of_map Prod.snd ?_
  rw [List.map_map]
  exact hids

/-- What is answered, in terms of the window. -/
theorem runOrdersSearchMatches_eq (table : OrderTable) (args : SearchArgs) :
    runOrdersSearchMatches L D table args =
      .ok ⟨(toDisplayGroup .order
        (((window (databaseLe L D args) (args.limitPerType + 1)
          (matching L D table args)).map (orderHit L D args)).mergeSort hitLe)
        args.limitPerType).toList⟩ := by
  have hhits : (fetchOrderRows L D table args).mapM toOrderHit =
      .ok ((fetchOrderRows L D table args).map hitOf) := by
    refine mapM_eq_map fun row hrow => ?_
    rw [fetchOrderRows_eq] at hrow
    obtain ⟨order, horder, rfl⟩ := List.mem_map.mp hrow
    exact toOrderHit_of_matching (mem_of_mem_window horder)
  have hmap : (fetchOrderRows L D table args).map hitOf =
      (window (databaseLe L D args) (args.limitPerType + 1)
        (matching L D table args)).map (orderHit L D args) := by
    rw [fetchOrderRows_eq, List.map_map]
    rfl
  unfold runOrdersSearchMatches
  rw [hhits, hmap, Except.map]
  dsimp only
  rw [dedupSearchHits_of_nodup _ _ (nodup_key_window table args _)]
  rfl

/-- The service sorts as the database does. -/
theorem databaseLe_eq {table : OrderTable} {args : SearchArgs}
    (h : ExactNamesMatch L D table args) :
    ∀ a ∈ matching L D table args, ∀ b ∈ matching L D table args,
      databaseLe L D args a b =
        hitLe (orderHit L D args a) (orderHit L D args b) := by
  have hranked : ∀ row ∈ matching L D table args,
      (orderHit L D args row).ranked = (clausesOf L D args).ranked row := by
    intro row hrow
    have hexact := exact_eq_iff.mpr (h row hrow)
    exact congrArg (fun exact : Bool =>
      (⟨exact, (clausesOf L D args).rankSql row, row.id⟩ : Ranked)) hexact
  intro a ha b hb
  unfold hitLe databaseLe
  rw [hranked a ha, hranked b hb]

theorem windowIsSort_iff (L : SearchLanguage) (D : DatabaseText)
    (table : OrderTable) (args : SearchArgs) :
    WindowIsSort L D table args ↔ ExactNamesMatch L D table args := by
  constructor
  · intro h row hrow
    obtain ⟨hit, hhit, hexact, _⟩ := h.agree row hrow
    rw [toOrderHit_of_matching hrow, Except.ok.injEq] at hhit
    rw [← hhit] at hexact
    exact exact_eq_iff.mp hexact
  · intro h
    obtain ⟨hhits, htruncated⟩ := toDisplayGroup_hits .order
      (((window (databaseLe L D args) (args.limitPerType + 1)
        (matching L D table args)).map (orderHit L D args)).mergeSort hitLe)
      args.limitPerType
    have hsorts : Sorts hitLe := sorts_ranked InternalHit.ranked
    have hpage := page_of_window hsorts (databaseLe_eq h)
      (Nat.le_add_right args.limitPerType 1)
    have hlength : (((window (databaseLe L D args) (args.limitPerType + 1)
        (matching L D table args)).map (orderHit L D args)).mergeSort
          hitLe).length =
        min (args.limitPerType + 1) (matching L D table args).length := by
      rw [List.length_mergeSort, List.length_map, length_window]
    refine ⟨⟨_, (matching L D table args).map (orderHit L D args),
      runOrdersSearchMatches_eq table args, ?_, ?_, ?_⟩, ?_, ?_⟩
    · rw [mapM_eq_map (g := hitOf) fun row hrow => ?_, List.map_map]
      · rfl
      · obtain ⟨order, horder, rfl⟩ := List.mem_map.mp hrow
        exact toOrderHit_of_matching horder
    · rw [hhits, hpage]
      rfl
    · rw [htruncated, hlength]
      exact decide_eq_decide.mpr (by omega)
    · intro row hrow
      exact ⟨_, toOrderHit_of_matching hrow, exact_eq_iff.mpr (h row hrow),
        rfl⟩
    · intro row hrow
      rw [fetchOrderRows_eq] at hrow
      obtain ⟨order, horder, rfl⟩ := List.mem_map.mp hrow
      exact ⟨_, toOrderHit_of_matching (mem_of_mem_window horder)⟩

/-! ## A name with another apostrophe

Folding takes the apostrophes for one another and the tokens do not. The exact
row is then not in the window. -/

theorem canonical_ids : ∀ id ∈ ["00000000-0000-4000-8000-000000000001",
    "00000000-0000-4000-8000-000000000002",
    "00000000-0000-4000-8000-000000000011",
    "00000000-0000-4000-8000-000000000012",
    "00000000-0000-4000-8000-000000000013"],
    isCanonicalUuid id.toList = true := by
  decide +kernel

theorem canonical_kiosk :
    isCanonicalUuid "00000000-0000-4000-8000-000000000001".toList = true :=
  canonical_ids _ (.head _)

theorem canonical_mariana :
    isCanonicalUuid "00000000-0000-4000-8000-000000000002".toList = true :=
  canonical_ids _ (.tail _ (.head _))

/-- A company. -/
def kiosk : Uuid :=
  ⟨"00000000-0000-4000-8000-000000000001", canonical_kiosk⟩

/-- A customer. -/
def mariana : Uuid :=
  ⟨"00000000-0000-4000-8000-000000000002", canonical_mariana⟩

/-- The order with the smallest id. -/
def firstOrder : Uuid :=
  ⟨"00000000-0000-4000-8000-000000000011",
    canonical_ids _ (.tail _ (.tail _ (.head _)))⟩

/-- The order between. -/
def secondOrder : Uuid :=
  ⟨"00000000-0000-4000-8000-000000000012",
    canonical_ids _ (.tail _ (.tail _ (.tail _ (.head _))))⟩

/-- The order with the greatest id. -/
def thirdOrder : Uuid :=
  ⟨"00000000-0000-4000-8000-000000000013",
    canonical_ids _ (.tail _ (.tail _ (.tail _ (.tail _ (.head _)))))⟩

/-- Two orders of a customer whose name has a typographic apostrophe, and one
with the name as it is typed. -/
def namesakes : OrderTable where
  rows :=
    [⟨firstOrder, kiosk, codeUnits "SP-1", some mariana, codeUnits "Мар’яна",
      codeUnits "new"⟩,
     ⟨secondOrder, kiosk, codeUnits "SP-2", some mariana, codeUnits "Мар’яна",
      codeUnits "new"⟩,
     ⟨thirdOrder, kiosk, codeUnits "SP-3", none, codeUnits "Мар'яна",
      codeUnits "new"⟩]
  id_unique := by decide

/-- A search for her name with a plain apostrophe. -/
def asTyped : SearchArgs where
  companyId := kiosk
  companyPrefix := codeUnits "SP"
  query := codeUnits "Мар'яна"
  prepared := ⟨codeUnits "Мар'яна", [codeUnits "мар'яна"]⟩
  limitPerType := 1
  customerIds := some [mariana]

/-- The hit of the first order, found by its customer. -/
def typographicHit : InternalHit where
  type := .order
  id := firstOrder
  label := codeUnits "SP-1"
  sublabel := some (codeUnits "Мар’яна")
  status := some (codeUnits "new")
  matchedOn := .customer
  exact := false
  rank := 1

/-- The page has an order that is not exact, and leaves out the one that is. -/
theorem not_windowIsSort_apostrophe :
    prepareSearchQuery twoAlphabets asTyped.query = some asTyped.prepared ∧
      runOrdersSearchMatches twoAlphabets twoAlphabetsText namesakes asTyped =
        .ok ⟨[⟨.order, [typographicHit.toSearchHit], true⟩]⟩ ∧
      ¬ WindowIsSort twoAlphabets twoAlphabetsText namesakes asTyped := by
  have hmatching : matching twoAlphabets twoAlphabetsText namesakes asTyped =
      namesakes.rows := by
    decide
  have hwindow : window (databaseLe twoAlphabets twoAlphabetsText asTyped) 2
      namesakes.rows = namesakes.rows.take 2 := by
    unfold window
    rw [List.mergeSort_of_pairwise (by decide)]
  have hsorted : ((namesakes.rows.take 2).map (orderHit twoAlphabets
        twoAlphabetsText asTyped)).mergeSort hitLe =
      [typographicHit, { typographicHit with
        id := secondOrder
        label := codeUnits "SP-2" }] := by
    rw [List.mergeSort_of_pairwise (by decide)]
    decide
  have hrun : runOrdersSearchMatches twoAlphabets twoAlphabetsText namesakes
      asTyped = .ok ⟨[⟨.order, [typographicHit.toSearchHit], true⟩]⟩ := by
    rw [runOrdersSearchMatches_eq, hmatching]
    change (Except.ok (OrdersSearchMatchesResult.mk
      (toDisplayGroup .order (((window (databaseLe twoAlphabets
        twoAlphabetsText asTyped) 2 namesakes.rows).map _).mergeSort hitLe)
          1).toList) : Except CoreInvariantError _) = _
    rw [hwindow, hsorted]
    decide +kernel
  refine ⟨by decide +kernel, hrun, fun h => ?_⟩
  obtain ⟨result, hits, hresult, hhits, hpage, _⟩ := h.page
  rw [hrun, Except.ok.injEq] at hresult
  rw [← hresult, List.flatMap_singleton] at hpage
  rw [hmatching] at hhits
  obtain ⟨third, hthird, hexact⟩ := getElem?_of_mapM hhits (i := 2) rfl
  have hexact : third.exact = true := by
    have hthird' : third = orderHit twoAlphabets twoAlphabetsText asTyped
        ⟨thirdOrder, kiosk, codeUnits "SP-3", none, codeUnits "Мар'яна",
          codeUnits "new"⟩ :=
      (Except.ok.inj hexact).symm
    rw [hthird']
    decide
  have hmem := (List.mergeSort_perm hits hitLe).mem_iff.mpr
    (List.mem_of_getElem? hthird)
  have hsorts : Sorts hitLe := sorts_ranked InternalHit.ranked
  have hpairs := List.pairwise_mergeSort hsorts.trans hsorts.total hits
  change [typographicHit.toSearchHit] = ((hits.mergeSort hitLe).take 1).map
    InternalHit.toSearchHit at hpage
  generalize hits.mergeSort hitLe = sorted at hpage hmem hpairs
  cases sorted with
  | nil => exact absurd hmem List.not_mem_nil
  | cons first rest =>
      have hfirst : first.exact = false :=
        (congrArg SearchHit.exact (List.head_eq_of_cons_eq hpage)).symm
      -- An exact one stands behind no other.
      rcases List.mem_cons.mp hmem with heq | hrest
      · rw [← heq, hexact] at hfirst
        cases hfirst
      · have hle := (List.pairwise_cons.mp hpairs).1 third hrest
        have htrue := Ranked.exact_of_le hle hexact
        exact absurd (hfirst.symm.trans htrue) Bool.false_ne_true

end Shozee.Orders.SearchMatches
