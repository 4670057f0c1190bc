import Shozee.Search.Hits

/-!
# The search for orders

Orders are found by their number, by their customer and by the name that was
written on them (`orders/src/services/search-matches.ts`). The database decides
which rows are exact to choose the window; the service decides it again, from
the reasons it was told, to sort what it got.

The two say the same of a row unless the name on it is the query when both are
folded, and yet does not contain a token of it (`windowIsSort_iff`): a token is
folded, and compared with the name as it is written.
-/

namespace Shozee.Orders.SearchMatches

open Shozee.Run
open Shozee.Validation
open Shozee.Search

/-! ## Rows

What the query selects of an order, and what the service hands out. -/

/-- The columns of an order that the search reads. -/
structure OrderRow where
  id : Uuid
  companyId : Uuid
  orderNumber : CodeUnits
  customerId : Option Uuid
  customerNameSnapshot : CodeUnits
  status : CodeUnits
deriving DecidableEq

/-- The orders, each with an id of its own. -/
structure OrderTable where
  rows : List OrderRow
  id_unique : (rows.map OrderRow.id).Nodup

/-- The input of the search, with the customers that the search for customers
has found. -/
structure SearchArgs where
  companyId : Uuid
  companyPrefix : CodeUnits
  query : CodeUnits
  prepared : PreparedTokens
  limitPerType : ℕ
  customerIds : Option (List Uuid)

/-- A row as the query selects it, with the reasons that the database found. -/
structure OrderSearchRow where
  id : Uuid
  orderNumber : CodeUnits
  customerId : Option Uuid
  customerNameSnapshot : CodeUnits
  status : CodeUnits
  rank : ℚ
  matchedNumber : Bool
  matchedNumberExact : Bool
  matchedCustomer : Bool
  matchedSnapshot : Bool
  matchedSnapshotExact : Bool

/-- What the search answers with. -/
structure OrdersSearchMatchesResult where
  groups : List SearchGroup
deriving DecidableEq

/-- A row without a reason. -/
structure CoreInvariantError where
  message : String
deriving DecidableEq

/-- The name of an order that lost its customer. It is never searched. -/
def unlinkedCustomerNameSnapshot : CodeUnits := codeUnits "unlinked"

/-! ## Clauses

The three reasons for which a row is fetched, and the terms that the window is
ordered by. -/

/-- A condition of the `WHERE` on one row. -/
abbrev Clause := OrderRow → Bool

/-- A clause that is not there is `FALSE`. -/
def holds (clause : Option Clause) (row : OrderRow) : Bool :=
  clause.any fun clause => clause row

/-- `OR` of the clauses that there are; without one there is no condition and
nothing is fetched. -/
def combineOr (clauses : List (Option Clause)) : Option Clause :=
  let present := clauses.reduceOption
  if present.isEmpty then none
  else some fun row => present.any fun clause => clause row

/-- `[...new Set(ids)]`: the first of each, in order. -/
def uniqueIds (ids : Option (List Uuid)) : List Uuid :=
  (ids.getD []).foldl
    (fun unique id => if id ∈ unique then unique else unique ++ [id]) []

/-- The name on the order is one that may be searched. -/
def notUnlinkedSql : Clause := fun row =>
  row.customerNameSnapshot ≠ unlinkedCustomerNameSnapshot

/-- What the query is made of. -/
structure Clauses where
  numberMatch : Option Clause
  numberExact : Option Clause
  customerMatch : Option Clause
  snapshotMatch : Option Clause
  snapshotExact : Clause

/-- The three clauses of `WHERE`. -/
def Clauses.combined (clauses : Clauses) : Option Clause :=
  combineOr [clauses.numberMatch, clauses.customerMatch,
    clauses.snapshotMatch]

/-- What the database calls exact: the number, or the folded name. -/
def Clauses.exactBoostSql (clauses : Clauses) (row : OrderRow) : Bool :=
  holds (combineOr [clauses.numberExact, some clauses.snapshotExact]) row

/-- The rank of a row, by its best reason. -/
def Clauses.rankSql (clauses : Clauses) (row : OrderRow) : ℚ :=
  if holds clauses.numberExact row then 3
  else if clauses.snapshotExact row then 1
  else if holds clauses.numberMatch row then 2
  else if holds clauses.customerMatch row then 0
  else if holds clauses.snapshotMatch row then 1 / 2
  else 0

/-- What the window sorts a row by. -/
def Clauses.ranked (clauses : Clauses) (row : OrderRow) : Ranked :=
  ⟨clauses.exactBoostSql row, clauses.rankSql row, row.id⟩

/-- The row that the query selects. -/
def Clauses.selected (clauses : Clauses) (row : OrderRow) : OrderSearchRow where
  id := row.id
  orderNumber := row.orderNumber
  customerId := row.customerId
  customerNameSnapshot := row.customerNameSnapshot
  status := row.status
  rank := clauses.rankSql row
  matchedNumber := holds clauses.numberMatch row
  matchedNumberExact := holds clauses.numberExact row
  matchedCustomer := holds clauses.customerMatch row
  matchedSnapshot := holds clauses.snapshotMatch row
  matchedSnapshotExact := clauses.snapshotExact row

section Search

variable (L : SearchLanguage) (D : DatabaseText)

/-- The number that a query stands for, without what a `LIKE` would read as a
pattern. -/
def canonicalOrderNumberLiteral (query companyPrefix : CodeUnits) :
    Option CodeUnits :=
  (canonicalizeOrderNumberToken L query companyPrefix).bind
    Catalog.sanitizeLikeLiteral

/-- Every token, unless one of them is nothing but characters of `LIKE`. -/
def snapshotMatchSql (tokens : List CodeUnits) : Option Clause :=
  (tokens.mapM Catalog.sanitizeLikeLiteral).map fun literals row =>
    notUnlinkedSql row && literals.all fun literal =>
      D.contains row.customerNameSnapshot literal

/-- The name on the order is the query once both are folded; the name is folded
by the database. -/
def snapshotExactSql (queryNormalized : CodeUnits) : Clause := fun row =>
  foldedNameSql L D row.customerNameSnapshot =
      foldSearchNameToken L queryNormalized &&
    notUnlinkedSql row

/-- The clauses of a query. Without customers, or without a number in it, there
is none for them. -/
def clausesOf (args : SearchArgs) : Clauses :=
  let numberLiteral := canonicalOrderNumberLiteral L args.query
    args.companyPrefix
  let customerIds := uniqueIds args.customerIds
  { numberMatch := numberLiteral.map fun literal row =>
      startsWith row.orderNumber literal
    numberExact := numberLiteral.map fun literal row =>
      row.orderNumber = literal
    customerMatch :=
      if customerIds.length = 0 then none
      else some fun row => row.customerId.any fun id => id ∈ customerIds
    snapshotMatch := snapshotMatchSql D args.prepared.tokens
    snapshotExact := snapshotExactSql L D args.prepared.queryNormalized }

/-- The rows of the window, one more than a page. -/
def fetchOrderRows (table : OrderTable) (args : SearchArgs) :
    List OrderSearchRow :=
  let clauses := clausesOf L D args
  match clauses.combined with
  | none => []
  | some combined =>
      (window (fun left right =>
          (clauses.ranked left).le (clauses.ranked right))
        (args.limitPerType + 1) (table.rows.filter fun row =>
          row.companyId = args.companyId && combined row)).map
            clauses.selected

/-! ## Hits

The service finds the reasons of a row again, by comparing texts, and prefers
an exact one. -/

/-- The reason that a hit is shown with. A row without one is a fault of the
query. -/
def preferredHit (orderId : Uuid)
    (candidates : List (Option SearchHitPreference)) :
    Except CoreInvariantError SearchHitPreference :=
  match candidates.reduceOption with
  | [] => .error ⟨"orders.searchMatches fetched order \"" ++ orderId.text ++
      "\" without a matching predicate"⟩
  | first :: rest => .ok (reducePreferred first (first :: rest))

/-- The name under a hit, unless the order lost its customer. -/
def sublabelField (snapshot : CodeUnits) : Option CodeUnits :=
  if snapshot = unlinkedCustomerNameSnapshot then none
  else optionalClip (some snapshot) searchSublabelMax

/-- The reasons for which a row was fetched. -/
def candidatesOf (row : OrderSearchRow) : List (Option SearchHitPreference) :=
  [if row.matchedNumber then some ⟨row.matchedNumberExact, .number⟩ else none,
   if row.matchedCustomer then some ⟨false, .customer⟩ else none,
   if row.matchedSnapshot then
     some ⟨row.matchedSnapshotExact, .customerNameSnapshot⟩
   else none]

/-- A hit with its reason. -/
def hitWith (row : OrderSearchRow) (preferred : SearchHitPreference) :
    InternalHit where
  type := .order
  id := row.id
  label := clip row.orderNumber searchLabelMax
  matchedOn := preferred.matchedOn
  exact := preferred.exact
  rank := row.rank
  status := optionalClip (some row.status) searchStatusMax
  sublabel := sublabelField row.customerNameSnapshot

/-- The hit of a selected row. -/
def toOrderHit (row : OrderSearchRow) :
    Except CoreInvariantError InternalHit :=
  (preferredHit row.id (candidatesOf row)).map (hitWith row)

/-- The search: the window, the hits, and their page. -/
def runOrdersSearchMatches (table : OrderTable) (args : SearchArgs) :
    Except CoreInvariantError OrdersSearchMatchesResult :=
  ((fetchOrderRows L D table args).mapM toOrderHit).map fun hits =>
    let sorted := sortHits
      (dedupSearchHits InternalHit.preference InternalHit.key hits)
    ⟨(toDisplayGroup .order sorted args.limitPerType).toList⟩

end Search

end Shozee.Orders.SearchMatches
