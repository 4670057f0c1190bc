import Shozee.Search.Hits

/-!
# The search for customers

Customers and counterparties are found by their names, phones and emails, and
counterparties by their tax codes; groups of customers by their names
(`customers/src/services/search-matches.ts`). The database finds the rows and
sorts the exact ones to the front of the window; the service tells, by what the
rows have, which of its hits are exact.

An identifier is looked for in the prepared query, which is the text as it was
typed less the characters of `LIKE`. How a name is matched and ranked is a
parameter (`NameMatcher`).
-/

namespace Shozee.Customers

open Shozee.Run
open Shozee.Validation
open Shozee.Search

/-! ## Rows

What the tables have of customers, counterparties and groups. -/

/-- A row of `company_customers` or of `counterparties`. Emails are stored
trimmed. -/
structure ContactRow where
  id : Uuid
  companyId : Uuid
  name : CodeUnits
  phone : Option CodeUnits
  email : Option CodeUnits
  edrpou : Option CodeUnits
  status : Option CodeUnits
  email_trimmed : ∀ text, email = some text → trim text = text
deriving DecidableEq

/-- What the query selects of a customer group. -/
structure GroupRow where
  id : Uuid
  companyId : Uuid
  name : CodeUnits
deriving DecidableEq

/-- What the search reads. A customer has a status, and a counterparty may have
a tax code. -/
structure Tables where
  customers : List ContactRow
  groups : List GroupRow
  counterparties : List ContactRow
  customers_unique : (customers.map ContactRow.id).Nodup
  counterparties_unique : (counterparties.map ContactRow.id).Nodup
  customers_edrpou : ∀ row ∈ customers, row.edrpou = none

/-- `nameMatch`: the clause on a name, if the tokens make one, and the rank. -/
structure NameMatcher where
  strictOrFuzzy : List CodeUnits → Option (CodeUnits → Bool)
  rank : List CodeUnits → CodeUnits → ℚ

/-- The input of the action, the query not yet prepared. -/
structure SearchInput where
  query : CodeUnits
  types : Option (List SearchEntityType)
  limitPerType : ℕ

/-- The customers that a search for orders may use, and whether there are more.
-/
structure OrderCustomerLookup where
  ids : List Uuid
  truncated : Bool
deriving DecidableEq

/-- What the action answers with. -/
structure CustomersSearchMatchesResult where
  groups : List SearchGroup
  orderCustomerLookup : OrderCustomerLookup
deriving DecidableEq

/-- The largest page of a type. -/
def searchLimitPerTypeMax : ℕ := 10

/-- The types that are searched where the input names none. -/
def SEARCH_CUSTOMER_TYPES : List SearchEntityType :=
  [.customer, .customerGroup, .counterparty]

/-- The answer to a query that prepares to nothing. -/
def emptySearchMatchesResult : CustomersSearchMatchesResult :=
  ⟨[], ⟨[], false⟩⟩

/-! ## Clauses

One for each kind of identifier, and one for names; some of them are not there
for some queries. -/

/-- A condition of the `WHERE` on one row. -/
abbrev Clause := ContactRow → Bool

/-- A clause that is not there is `FALSE`. -/
def holds (clause : Option Clause) (row : ContactRow) : Bool :=
  clause.any fun clause => clause row

/-- `OR` of the clauses that there are; without one there is no condition and
nothing is fetched. -/
def combineOr (clauses : List (Option Clause)) : Option Clause :=
  let present := clauses.reduceOption
  if present.isEmpty then none
  else some fun row => present.any fun clause => clause row

/-- `regexp_replace(coalesce(text, ''), '[^0-9]', '', 'g')`. -/
def digitsSql (text : Option CodeUnits) : CodeUnits :=
  (text.getD []).filter isDigitUnit

/-- A phone in the database's canonical form. A leading zero gets the country's
code. -/
def canonicalPhoneSql (phone : Option CodeUnits) : CodeUnits :=
  let digits := digitsSql phone
  if startsWith digits (codeUnits "0") then codeUnits "380" ++ digits.drop 1
  else digits

/-- `@`. -/
def atSign : CodeUnit := 64

/-- What a query has of one type: the condition, the part of it that is exact,
and the rank by the name. -/
structure Clauses where
  combined : Option Clause
  exact : Option Clause
  rank : CodeUnits → ℚ

section Search

variable (L : SearchLanguage) (D : DatabaseText) (N : NameMatcher)

/-- A stored phone begins with the query's digits. -/
def phoneMatchSql (queryNormalized : CodeUnits) : Option Clause :=
  ((canonicalizePhoneDigits queryNormalized).bind
    Catalog.sanitizeLikeLiteral).map fun literal row =>
      decide (D.lower literal <+: D.lower (canonicalPhoneSql row.phone))

/-- A stored phone is the query's digits. -/
def exactPhoneSql (queryNormalized : CodeUnits) : Option Clause :=
  (canonicalizePhoneDigits queryNormalized).map fun canonical row =>
    decide (canonicalPhoneSql row.phone = canonical)

/-- The set of what an email is compared with. -/
def emailCandidates (prepared : PreparedTokens) : List CodeUnits :=
  (canonicalizeEmail L prepared.queryNormalized).toList ++
    (prepared.tokens.filter fun token => token.contains atSign).filterMap
      (canonicalizeEmail L)

/-- A stored email, in small letters, is the query or one of its tokens. -/
def emailMatchSql (prepared : PreparedTokens) : Option Clause :=
  combineOr ((emailCandidates L prepared).map fun canonical =>
    some fun row => row.email.any fun email => D.lower email = canonical)

/-- The set of what a tax code is compared with. -/
def edrpouCandidates (prepared : PreparedTokens) : List CodeUnits :=
  (canonicalizeEdrpou prepared.queryNormalized).toList ++
    prepared.tokens.filterMap canonicalizeEdrpou

/-- The digits of a stored code are those of the query or of one of its tokens.
-/
def edrpouMatchSql (prepared : PreparedTokens) : Option Clause :=
  combineOr ((edrpouCandidates prepared).map fun canonical =>
    some fun row => digitsSql row.edrpou = canonical)

/-- A name has every token, or is near to them. -/
def nameMatchSql (prepared : PreparedTokens) : Option Clause :=
  (N.strictOrFuzzy prepared.tokens).map fun clause row => clause row.name

/-- A name is the query once both are folded; the name is folded by the
database. -/
def exactNameSql (prepared : PreparedTokens) : Option Clause :=
  some fun row => foldedNameSql L D row.name =
    foldSearchNameToken L prepared.queryNormalized

/-- The clauses of `fetchCustomerRows`. -/
def customerClauses (prepared : PreparedTokens) : Clauses where
  combined := combineOr
    [nameMatchSql N prepared, phoneMatchSql D prepared.queryNormalized,
      emailMatchSql L D prepared]
  exact := combineOr
    [exactPhoneSql prepared.queryNormalized, emailMatchSql L D prepared,
      exactNameSql L D prepared]
  rank := N.rank prepared.tokens

/-- The clauses of `fetchCounterpartyRows`. -/
def counterpartyClauses (prepared : PreparedTokens) : Clauses where
  combined := combineOr
    [nameMatchSql N prepared, phoneMatchSql D prepared.queryNormalized,
      emailMatchSql L D prepared, edrpouMatchSql prepared]
  exact := combineOr
    [exactPhoneSql prepared.queryNormalized, emailMatchSql L D prepared,
      edrpouMatchSql prepared, exactNameSql L D prepared]
  rank := N.rank prepared.tokens

/-- What the window sorts a row by. -/
def Clauses.ranked (clauses : Clauses) (row : ContactRow) : Ranked :=
  ⟨holds clauses.exact row, clauses.rank row.name, row.id⟩

/-- The rows of the company that a search finds. -/
def Clauses.matching (clauses : Clauses) (rows : List ContactRow)
    (companyId : Uuid) : List ContactRow :=
  rows.filter fun row =>
    row.companyId = companyId && holds clauses.combined row

/-- The first rows of the database's order, up to a limit. -/
def Clauses.fetch (clauses : Clauses) (rows : List ContactRow)
    (companyId : Uuid) (limit : ℕ) : List ContactRow :=
  match clauses.combined with
  | none => []
  | some _ =>
      window (fun left right =>
        (clauses.ranked left).le (clauses.ranked right)) limit
        (clauses.matching rows companyId)

/-- The customers that the query fetches: one more than the lookup for orders
can take. -/
def fetchCustomerRows (tables : Tables) (companyId : Uuid)
    (prepared : PreparedTokens) : List ContactRow :=
  (customerClauses L D N prepared).fetch tables.customers companyId
    (orderCustomerLookupMax + 1)

/-- The counterparties that the query fetches: one more than a page. -/
def fetchCounterpartyRows (tables : Tables) (companyId : Uuid)
    (prepared : PreparedTokens) (limitPerType : ℕ) : List ContactRow :=
  (counterpartyClauses L D N prepared).fetch tables.counterparties companyId
    (limitPerType + 1)

/-- What the window sorts a group by. -/
def groupRanked (prepared : PreparedTokens) (row : GroupRow) : Ranked :=
  ⟨foldedNameSql L D row.name = foldSearchNameToken L prepared.queryNormalized,
    N.rank prepared.tokens row.name, row.id⟩

/-- The groups that the query fetches, by their names only. -/
def fetchGroupRows (tables : Tables) (companyId : Uuid)
    (prepared : PreparedTokens) (limitPerType : ℕ) : List GroupRow :=
  match N.strictOrFuzzy prepared.tokens with
  | none => []
  | some clause =>
      window (fun left right =>
          (groupRanked L D N prepared left).le
            (groupRanked L D N prepared right))
        (limitPerType + 1)
        (tables.groups.filter fun row =>
          row.companyId = companyId && clause row.name)

/-! ## Hits

The reason that a hit is shown with, and whether it is exact. -/

/-- The phone as a reason for the hit, decided by the service on the stored
text. -/
def phoneCandidate (stored : Option CodeUnits) (prepared : PreparedTokens) :
    Option SearchHitPreference :=
  match canonicalizePhoneDigits prepared.queryNormalized,
      stored.bind canonicalizePhoneDigits with
  | some queryCanonical, some storedCanonical =>
      if startsWith storedCanonical queryCanonical then
        some ⟨storedCanonical = queryCanonical, .phone⟩
      else none
  | _, _ => none

/-- The email as a reason. It is always exact. -/
def emailCandidate (stored : Option CodeUnits) (prepared : PreparedTokens) :
    Option SearchHitPreference :=
  (stored.bind (canonicalizeEmail L)).bind fun storedCanonical =>
    if canonicalizeEmail L prepared.queryNormalized = some storedCanonical ∨
        prepared.tokens.any (fun token =>
          canonicalizeEmail L token = some storedCanonical) = true then
      some ⟨true, .email⟩
    else none

/-- The code as a reason. It is always exact. -/
def edrpouCandidate (stored : Option CodeUnits) (prepared : PreparedTokens) :
    Option SearchHitPreference :=
  (stored.bind canonicalizeEdrpou).bind fun storedCanonical =>
    if canonicalizeEdrpou prepared.queryNormalized = some storedCanonical ∨
        prepared.tokens.any (fun token =>
          canonicalizeEdrpou token = some storedCanonical) = true then
      some ⟨true, .edrpou⟩
    else none

/-- The name as a reason, which every row has; it is exact if the service folds
it to the query. -/
def nameCandidate (name : CodeUnits) (prepared : PreparedTokens) :
    Option SearchHitPreference :=
  some ⟨foldSearchNameToken L (collapseSearchWhitespace L name) =
    foldSearchNameToken L prepared.queryNormalized, .name⟩

/-- The reason that a hit is shown with. -/
def preferredHit (candidates : List (Option SearchHitPreference)) :
    SearchHitPreference :=
  match candidates.reduceOption with
  | [] => ⟨false, .name⟩
  | first :: rest => reducePreferred first (first :: rest)

/-- What is shown below the label: the identifier that was matched, or else the
first that there is. -/
def sublabelFields (matchedOn : SearchMatchedOn)
    (phone email edrpou : Option CodeUnits) : Option CodeUnits :=
  let fallback := (phone.orElse fun _ => email).orElse fun _ => edrpou
  let preferred :=
    match matchedOn with
    | .phone => phone
    | .email => email
    | .edrpou => edrpou
    | _ => fallback
  optionalClip (preferred.orElse fun _ => fallback) searchSublabelMax

/-- The hit of a row, for the reason that is preferred. -/
def contactHit (type : SearchEntityType) (rank : CodeUnits → ℚ)
    (row : ContactRow) (preferred : SearchHitPreference) : InternalHit where
  type := type
  id := row.id
  label := clip row.name searchLabelMax
  status := optionalClip row.status searchStatusMax
  rank := rank row.name
  matchedOn := preferred.matchedOn
  exact := preferred.exact
  sublabel := sublabelFields preferred.matchedOn row.phone row.email row.edrpou

/-- The hit of a customer row. -/
def toCustomerHit (prepared : PreparedTokens) (row : ContactRow) :
    InternalHit :=
  contactHit .customer (N.rank prepared.tokens) row (preferredHit
    [phoneCandidate row.phone prepared, emailCandidate L row.email prepared,
      nameCandidate L row.name prepared])

/-- The hit of a counterparty row, which may also be found by its code. -/
def toCounterpartyHit (prepared : PreparedTokens) (row : ContactRow) :
    InternalHit :=
  contactHit .counterparty (N.rank prepared.tokens) row (preferredHit
    [phoneCandidate row.phone prepared, emailCandidate L row.email prepared,
      edrpouCandidate row.edrpou prepared, nameCandidate L row.name prepared])

/-- The hit of a group row. -/
def toNameHit (prepared : PreparedTokens) (row : GroupRow) : InternalHit where
  type := .customerGroup
  id := row.id
  label := clip row.name searchLabelMax
  matchedOn := .name
  exact := (nameCandidate L row.name prepared).any SearchHitPreference.exact
  rank := N.rank prepared.tokens row.name
  sublabel := none
  status := none

/-! ## The search

The three queries, and the groups of their hits. -/

/-- The hits of a type, one for each record, in the order of the page. -/
def sortedHits (hits : List InternalHit) : List InternalHit :=
  sortHits (dedupSearchHits InternalHit.preference InternalHit.key hits)

/-- The search of all three types. The customers are looked up for the orders
even if they are not shown. -/
def runCustomersSearchMatches (tables : Tables) (companyId : Uuid)
    (prepared : PreparedTokens) (limitPerType : ℕ)
    (types : Option (List SearchEntityType)) : CustomersSearchMatchesResult :=
  let displayTypes := types.getD SEARCH_CUSTOMER_TYPES
  let customerHits := sortedHits
    ((fetchCustomerRows L D N tables companyId prepared).map
      (toCustomerHit L N prepared))
  let groupHits := sortedHits
    ((fetchGroupRows L D N tables companyId prepared limitPerType).map
      (toNameHit L N prepared))
  let partyHits := sortedHits
    ((fetchCounterpartyRows L D N tables companyId prepared limitPerType).map
      (toCounterpartyHit L N prepared))
  let shown := fun (type : SearchEntityType) hits =>
    if type ∈ displayTypes then (toDisplayGroup type hits limitPerType).toList
    else []
  { groups := shown .customer customerHits ++ shown .customerGroup groupHits ++
      shown .counterparty partyHits
    orderCustomerLookup :=
      ⟨(customerHits.take orderCustomerLookupMax).map fun hit => hit.id,
        orderCustomerLookupMax < customerHits.length⟩ }

/-- The handler of `customers.searchMatches`. -/
def searchMatches (tables : Tables) (companyId : Uuid) (input : SearchInput) :
    CustomersSearchMatchesResult :=
  match prepareSearchQuery L input.query with
  | none => emptySearchMatchesResult
  | some prepared =>
      runCustomersSearchMatches L D N tables companyId prepared
        input.limitPerType input.types

end Search

end Shozee.Customers
