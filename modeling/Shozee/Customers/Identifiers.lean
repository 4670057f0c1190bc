import Mathlib.Data.List.ReduceOption
import Shozee.Customers.SearchTexts

/-!
# An identifier finds its record

The database sorts the rows that it takes for exact to the front of its window,
and the service tells which of them are exact. Where the database takes no row
for exact that the service does not (`Disputed`), the record of an identifier
is in the window as long as there are not more exact hits than are shown, and
then it is on the page (`mem_page`).

So an identifier finds its record in every table exactly when nothing of it is
lost on the way into the prepared query and no row is disputed
(`identifierFound_iff`): what is lost is missed in a table of three
counterparties, and two rows that are disputed crowd the record out. An email
with an underscore loses it.
-/

namespace Shozee.Customers

open Shozee.Run
open Shozee.Validation
open Shozee.Search

/-- The fields that a counterparty can be told by. -/
inductive Identifier
  | email
  | phone
  | edrpou
deriving DecidableEq, Repr

/-- The text that a row has in a field. -/
def Identifier.of : Identifier → ContactRow → Option CodeUnits
  | .email, row => row.email
  | .phone, row => row.phone
  | .edrpou, row => row.edrpou

/-- The stored identifier as it is searched for: an email in any letter case,
the digits of a phone with any signs between them, a tax code as it is. -/
def TypedAs (L : SearchLanguage) :
    Identifier → (text query : CodeUnits) → Prop
  | .email, text, query =>
      trim text = text ∧ L.toLowerCase query = L.toLowerCase text
  | .phone, text, query =>
      searchPhoneMinDigits ≤ (text.filter isDigitUnit).length ∧
        query.filter isDigitUnit = text.filter isDigitUnit
  | .edrpou, text, query => query = text

section Found

variable (L : SearchLanguage) (D : DatabaseText) (N : NameMatcher)

/-- The customers that are exact hits. -/
def exactCustomers (tables : Tables) (companyId : Uuid) (query : CodeUnits) :
    List ContactRow :=
  match prepareSearchQuery L query with
  | none => []
  | some prepared =>
      ((customerClauses L D N prepared).matching tables.customers
        companyId).filter fun row => (toCustomerHit L N prepared row).exact

/-- The counterparties that the query finds and the service calls exact. -/
def exactCounterparties (tables : Tables) (companyId : Uuid)
    (query : CodeUnits) : List ContactRow :=
  match prepareSearchQuery L query with
  | none => []
  | some prepared =>
      ((counterpartyClauses L D N prepared).matching tables.counterparties
        companyId).filter fun row => (toCounterpartyHit L N prepared row).exact

/-- A record is shown as an exact hit. -/
def ShowsExact (result : CustomersSearchMatchesResult)
    (type : SearchEntityType) (id : Uuid) : Prop :=
  ∃ group ∈ result.groups, group.type = type ∧
    ∃ hit ∈ group.hits, hit.id = id ∧ hit.exact = true

/-- The records of a company with the identifier are shown as exact hits for the
query, whenever there are not more exact hits than the limit. -/
structure FoundIn (tables : Tables) (companyId : Uuid)
    (identifier : Identifier) (text query : CodeUnits) : Prop where
  customer : ∀ (types : Option (List SearchEntityType)) (limit : ℕ),
    limit ≤ searchLimitPerTypeMax →
    .customer ∈ types.getD SEARCH_CUSTOMER_TYPES →
    ∀ row ∈ tables.customers, row.companyId = companyId →
      identifier.of row = some text →
      (exactCustomers L D N tables companyId query).length ≤ limit →
        ShowsExact (searchMatches L D N tables companyId
          ⟨query, types, limit⟩) .customer row.id
  counterparty : ∀ (types : Option (List SearchEntityType)) (limit : ℕ),
    limit ≤ searchLimitPerTypeMax →
    .counterparty ∈ types.getD SEARCH_CUSTOMER_TYPES →
    ∀ row ∈ tables.counterparties, row.companyId = companyId →
      identifier.of row = some text →
      (exactCounterparties L D N tables companyId query).length ≤ limit →
        ShowsExact (searchMatches L D N tables companyId
          ⟨query, types, limit⟩) .counterparty row.id

/-- So it is in every table. -/
def IdentifierFound (identifier : Identifier) (text query : CodeUnits) :
    Prop :=
  ∀ tables companyId, FoundIn L D N tables companyId identifier text query

/-- Nothing of the identifier is lost. -/
def Kept : Identifier → CodeUnits → Prop
  | .email, query => EmailKept L query
  | .phone, query => DigitsKept L query
  | .edrpou, query => query.filter isDigitUnit ≠ [] ∧ DigitsKept L query

/-- The small letters of an email, as the database writes them, are among what
the query is compared with. -/
def Compared (identifier : Identifier) (text query : CodeUnits) : Prop :=
  identifier = .email → ∃ prepared, prepareSearchQuery L query =
    some prepared ∧ D.lower text ∈ emailCandidates L prepared

/-- The database finds the row and takes it for exact, the service does not. -/
def Disputed (query : CodeUnits) (row : ContactRow) : Prop :=
  ∃ prepared, prepareSearchQuery L query = some prepared ∧
    holds (counterpartyClauses L D N prepared).combined row = true ∧
    holds (counterpartyClauses L D N prepared).exact row = true ∧
    (toCounterpartyHit L N prepared row).exact = false

end Found

variable {L : SearchLanguage} {D : DatabaseText} {N : NameMatcher}
  {prepared : PreparedTokens} {row : ContactRow}

/-! ## Clauses and reasons

What the clauses of the statement say of a row, and which reasons the service
finds in it. -/

theorem holds_combineOr (clauses : List (Option Clause)) (row : ContactRow) :
    holds (combineOr clauses) row =
      clauses.any fun clause => holds clause row := by
  have hany : (clauses.reduceOption.any fun clause => clause row) =
      clauses.any fun clause => holds clause row := by
    induction clauses with
    | nil => rfl
    | cons clause clauses ih =>
        cases clause with
        | none =>
            rw [List.reduceOption_cons_of_none, ih, List.any_cons, holds,
              Option.any_none, Bool.false_or]
        | some clause =>
            rw [List.reduceOption_cons_of_some, List.any_cons, ih,
              List.any_cons, holds, Option.any_some]
  unfold combineOr
  dsimp only
  split
  next hnone =>
    rw [List.isEmpty_iff] at hnone
    rw [hnone] at hany
    exact hany
  next => exact hany

theorem exact_preferredHit (candidates : List (Option SearchHitPreference)) :
    (preferredHit candidates).exact = candidates.any fun candidate =>
      candidate.any SearchHitPreference.exact := by
  have hany : (candidates.reduceOption.any SearchHitPreference.exact) =
      candidates.any fun candidate =>
        candidate.any SearchHitPreference.exact := by
    induction candidates with
    | nil => rfl
    | cons candidate candidates ih =>
        cases candidate with
        | none =>
            rw [List.reduceOption_cons_of_none, ih, List.any_cons,
              Option.any_none, Bool.false_or]
        | some candidate =>
            rw [List.reduceOption_cons_of_some, List.any_cons, ih,
              List.any_cons, Option.any_some]
  rw [← hany]
  unfold preferredHit
  split
  next hnil => rw [hnil]; rfl
  next first rest hreasons =>
    rw [hreasons, reducePreferred]
    have hreduce := exact_foldl_pickPreferred (id : SearchHitPreference → _)
      first (first :: rest)
    rw [List.any_cons] at hreduce ⊢
    rw [← Bool.or_assoc, Bool.or_self] at hreduce
    exact hreduce

theorem holds_emailMatchSql (prepared : PreparedTokens) (row : ContactRow) :
    holds (emailMatchSql L D prepared) row = true ↔
      ∃ email, row.email = some email ∧
        D.lower email ∈ emailCandidates L prepared := by
  rw [emailMatchSql, holds_combineOr, List.any_map, List.any_eq_true]
  cases hemail : row.email with
  | none => simp [holds, hemail]
  | some email => simp [holds, hemail]

theorem holds_edrpouMatchSql (prepared : PreparedTokens) (row : ContactRow) :
    holds (edrpouMatchSql prepared) row = true ↔
      digitsSql row.edrpou ∈ edrpouCandidates prepared := by
  rw [edrpouMatchSql, holds_combineOr, List.any_map, List.any_eq_true]
  simp [holds]

/-! ## What the database calls exact

Identifier by identifier: where the database reads a row as the service does,
they call it exact together. -/

theorem phone_agrees
    (h : holds (exactPhoneSql prepared.queryNormalized) row = true) :
    (phoneCandidate row.phone prepared).any SearchHitPreference.exact =
      true := by
  unfold exactPhoneSql holds at h
  cases hcanonical : canonicalizePhoneDigits prepared.queryNormalized with
  | none =>
      rw [hcanonical] at h
      cases h
  | some canonical =>
      rw [hcanonical, Option.map_some, Option.any_some] at h
      have heq := of_decide_eq_true h
      obtain ⟨-, -, hlong⟩ := canonicalizePhoneDigits_eq_some.mp hcanonical
      have hstored : row.phone.bind canonicalizePhoneDigits =
          some canonical := by
        rw [canonicalPhoneSql_eq] at heq
        cases hphone : row.phone with
        | none =>
            rw [hphone, digitsSql, Option.getD_none, List.filter_nil] at heq
            rw [← heq] at hlong
            exact absurd hlong (by decide)
        | some phone =>
            rw [hphone, digitsSql, Option.getD_some] at heq
            refine canonicalizePhoneDigits_eq_some.mpr
              ⟨fun hnil => ?_, heq.symm, hlong⟩
            rw [hnil] at heq
            rw [← heq] at hlong
            exact absurd hlong (by decide)
      have hself : startsWith canonical canonical = true :=
        decide_eq_true (List.prefix_refl _)
      rw [phoneCandidate, hcanonical, hstored]
      dsimp only
      rw [if_pos hself, Option.any_some]
      exact decide_eq_true rfl

theorem email_agrees
    (hlower : ∀ email, row.email = some email →
      D.lower email = L.toLowerCase email)
    (h : holds (emailMatchSql L D prepared) row = true) :
    (emailCandidate L row.email prepared).any SearchHitPreference.exact =
      true := by
  obtain ⟨email, hemail, hmem⟩ := (holds_emailMatchSql prepared row).mp h
  rw [hlower email hemail] at hmem
  have hne : L.toLowerCase email ≠ [] := by
    have hcandidate : ∀ {text : CodeUnits}, canonicalizeEmail L text =
        some (L.toLowerCase email) → L.toLowerCase email ≠ [] := by
      intro text htext hnil
      rw [canonicalizeEmail] at htext
      split at htext
      next => cases htext
      next hlower =>
        rw [hnil] at htext
        exact hlower (Option.some.inj htext)
    rcases List.mem_append.mp hmem with hmem | hmem
    · exact hcandidate (Option.mem_toList.mp hmem)
    · obtain ⟨token, -, htoken⟩ := List.mem_filterMap.mp hmem
      exact hcandidate htoken
  have hstored : row.email.bind (canonicalizeEmail L) =
      some (L.toLowerCase email) := by
    rw [hemail, Option.bind_some, canonicalizeEmail,
      row.email_trimmed email hemail, if_neg hne]
  rw [emailCandidate, hstored, Option.bind_some, if_pos]
  · rfl
  · rcases List.mem_append.mp hmem with hmem | hmem
    · exact Or.inl (Option.mem_toList.mp hmem)
    · obtain ⟨token, htoken, heq⟩ := List.mem_filterMap.mp hmem
      exact Or.inr (List.any_eq_true.mpr
        ⟨token, (List.mem_filter.mp htoken).1, decide_eq_true heq⟩)

theorem edrpou_agrees
    (h : holds (edrpouMatchSql prepared) row = true) :
    (edrpouCandidate row.edrpou prepared).any SearchHitPreference.exact =
      true := by
  have hmem := (holds_edrpouMatchSql prepared row).mp h
  have hcandidate : ∀ {text : CodeUnits}, canonicalizeEdrpou text =
      some (digitsSql row.edrpou) → digitsSql row.edrpou ≠ [] :=
    fun htext => (canonicalizeEdrpou_eq_some.mp htext).1
  have hne : digitsSql row.edrpou ≠ [] := by
    rcases List.mem_append.mp hmem with hmem | hmem
    · exact hcandidate (Option.mem_toList.mp hmem)
    · obtain ⟨token, -, htoken⟩ := List.mem_filterMap.mp hmem
      exact hcandidate htoken
  have hstored : row.edrpou.bind canonicalizeEdrpou =
      some (digitsSql row.edrpou) := by
    cases hedrpou : row.edrpou with
    | none =>
        rw [hedrpou] at hne
        exact absurd rfl hne
    | some edrpou =>
        rw [hedrpou] at hne
        exact canonicalizeEdrpou_eq_some.mpr ⟨hne, rfl⟩
  rw [edrpouCandidate, hstored, Option.bind_some, if_pos]
  · rfl
  · rcases List.mem_append.mp hmem with hmem | hmem
    · exact Or.inl (Option.mem_toList.mp hmem)
    · obtain ⟨token, htoken, heq⟩ := List.mem_filterMap.mp hmem
      exact Or.inr (List.any_eq_true.mpr
        ⟨token, htoken, decide_eq_true heq⟩)

/-- The database reads the email and the name of the row as the service
does. -/
structure ReadAlike (L : SearchLanguage) (D : DatabaseText) (row : ContactRow) :
    Prop where
  email : ∀ email, row.email = some email →
    D.lower email = L.toLowerCase email
  name : foldedNameSql L D row.name =
    foldSearchNameToken L (collapseSearchWhitespace L row.name)

theorem name_agrees (hread : ReadAlike L D row)
    (h : holds (exactNameSql L D prepared) row = true) :
    (nameCandidate L row.name prepared).any SearchHitPreference.exact =
      true := by
  have heq : foldedNameSql L D row.name =
      foldSearchNameToken L prepared.queryNormalized := of_decide_eq_true h
  rw [hread.name] at heq
  exact decide_eq_true heq

/-- What is read alike is not disputed. -/
theorem ReadAlike.not_disputed (hread : ReadAlike L D row) (N : NameMatcher)
    (query : CodeUnits) : ¬ Disputed L D N query row := by
  rintro ⟨prepared, -, -, hexact, hnot⟩
  suffices h : (toCounterpartyHit L N prepared row).exact = true by
    rw [hnot] at h
    cases h
  rw [counterpartyClauses, holds_combineOr] at hexact
  change (preferredHit _).exact = true
  rw [exact_preferredHit]
  simp only [List.any_cons, List.any_nil, Bool.or_false, Bool.or_eq_true]
    at hexact ⊢
  rcases hexact with h | h | h | h
  · exact Or.inl (phone_agrees h)
  · exact Or.inr (Or.inl (email_agrees hread.email h))
  · exact Or.inr (Or.inr (Or.inl (edrpou_agrees h)))
  · exact Or.inr (Or.inr (Or.inr (name_agrees hread h)))

theorem counterparty_agrees {query : CodeUnits}
    (hprepared : prepareSearchQuery L query = some prepared)
    (hnot : ¬ Disputed L D N query row)
    (hcombined :
      holds (counterpartyClauses L D N prepared).combined row = true)
    (hexact : holds (counterpartyClauses L D N prepared).exact row = true) :
    (toCounterpartyHit L N prepared row).exact = true :=
  eq_true_of_ne_false fun hfalse =>
    hnot ⟨prepared, hprepared, hcombined, hexact, hfalse⟩

/-- A customer is a counterparty without a tax code. -/
theorem customer_agrees {query : CodeUnits}
    (hprepared : prepareSearchQuery L query = some prepared)
    (hnot : ¬ Disputed L D N query row) (hedrpou : row.edrpou = none)
    (hcombined : holds (customerClauses L D N prepared).combined row = true)
    (hexact : holds (customerClauses L D N prepared).exact row = true) :
    (toCustomerHit L N prepared row).exact = true := by
  rw [customerClauses, holds_combineOr] at hcombined hexact
  simp only [List.any_cons, List.any_nil, Bool.or_false, Bool.or_eq_true]
    at hcombined hexact
  have hhit : (toCounterpartyHit L N prepared row).exact = true := by
    refine counterparty_agrees hprepared hnot ?_ ?_
    · rw [counterpartyClauses, holds_combineOr]
      simp only [List.any_cons, List.any_nil, Bool.or_false, Bool.or_eq_true]
      rcases hcombined with h | h | h
      · exact Or.inl h
      · exact Or.inr (Or.inl h)
      · exact Or.inr (Or.inr (Or.inl h))
    · rw [counterpartyClauses, holds_combineOr]
      simp only [List.any_cons, List.any_nil, Bool.or_false, Bool.or_eq_true]
      rcases hexact with h | h | h
      · exact Or.inl h
      · exact Or.inr (Or.inl h)
      · exact Or.inr (Or.inr (Or.inr h))
  have hnone : edrpouCandidate none prepared = none := rfl
  change (preferredHit _).exact = true at hhit ⊢
  rw [exact_preferredHit] at hhit ⊢
  rw [hedrpou, hnone] at hhit
  simpa only [List.any_cons, List.any_nil, Option.any_none, Bool.false_or]
    using hhit

/-! ## The page

A window sorted again. An exact row is on the page when the exact rows before
it are fewer than are shown. -/

section Page

variable {clauses : Clauses} {toHit : ContactRow → InternalHit}
  {rows : List ContactRow} {companyId : Uuid}

theorem fetch_eq (hrow : row ∈ clauses.matching rows companyId) (n : ℕ) :
    clauses.fetch rows companyId n =
      window (fun left right =>
        (clauses.ranked left).le (clauses.ranked right)) n
        (clauses.matching rows companyId) := by
  have hholds := (List.mem_filter.mp hrow).2
  unfold Clauses.fetch
  cases hcombined : clauses.combined with
  | none =>
      rw [hcombined, holds, Option.any_none, Bool.and_false] at hholds
      cases hholds
  | some combined => rfl

theorem mem_matching_of_mem_fetch {n : ℕ}
    (h : row ∈ clauses.fetch rows companyId n) :
    row ∈ clauses.matching rows companyId := by
  unfold Clauses.fetch at h
  split at h
  next => exact absurd h List.not_mem_nil
  next => exact mem_of_mem_window h

/-- What is made of the rows of a window is sorted, and none of it lost. -/
theorem sortedHits_eq (hids : (rows.map ContactRow.id).Nodup)
    (hid : ∀ row, (toHit row).id = row.id) (n : ℕ) :
    sortedHits ((clauses.fetch rows companyId n).map toHit) =
      sortHits ((clauses.fetch rows companyId n).map toHit) := by
  have hkeys : (((clauses.fetch rows companyId n).map toHit).map
      InternalHit.key).Nodup := by
    refine List.Nodup.of_map Prod.snd ?_
    rw [List.map_map, List.map_map]
    have hsame : (Prod.snd ∘ InternalHit.key) ∘ toHit = ContactRow.id :=
      funext hid
    rw [hsame]
    unfold Clauses.fetch
    split
    next => exact List.nodup_nil
    next => exact nodup_map_window (hids.sublist (List.filter_sublist.map _))
  rw [sortedHits, dedupSearchHits_of_nodup _ _ hkeys]

/-- An exact row is on the page when there are not more exact hits than the
page has room for. -/
theorem mem_page (toHit : ContactRow → InternalHit)
    (hids : (rows.map ContactRow.id).Nodup)
    (hid : ∀ row, (toHit row).id = row.id)
    (hagree : ∀ row ∈ clauses.matching rows companyId,
      holds clauses.exact row = true → (toHit row).exact = true)
    (hrow : row ∈ clauses.matching rows companyId)
    (hexact : holds clauses.exact row = true) {limit n : ℕ}
    (hlimit : limit ≤ n)
    (hfew : ((clauses.matching rows companyId).filter fun row =>
      (toHit row).exact).length ≤ limit) :
    toHit row ∈ (sortedHits
      ((clauses.fetch rows companyId n).map toHit)).take limit := by
  rw [← List.countP_eq_length_filter] at hfew
  have hwindow : row ∈ clauses.fetch rows companyId n := by
    rw [fetch_eq hrow]
    refine mem_window (sorts_ranked clauses.ranked) hrow
      (le_trans (List.countP_mono_left ?_) (hfew.trans hlimit))
    exact fun other hother hle =>
      hagree other hother (Ranked.exact_of_le hle hexact)
  rw [sortedHits_eq hids hid]
  change _ ∈ window (fun left right : InternalHit =>
    left.ranked.le right.ranked) limit _
  refine mem_window (sorts_ranked InternalHit.ranked)
    (List.mem_map_of_mem hwindow) ?_
  have hfetched : (clauses.fetch rows companyId n).countP (fun row =>
      (toHit row).exact) ≤ (clauses.matching rows companyId).countP fun row =>
        (toHit row).exact := by
    rw [fetch_eq hrow, window, ← (List.mergeSort_perm
      (clauses.matching rows companyId) _).countP_eq]
    exact (List.take_sublist _ _).countP_le
  refine le_trans ?_ (hfetched.trans hfew)
  rw [List.countP_map]
  refine List.countP_mono_left fun other _ hle => ?_
  exact Ranked.exact_of_le hle (hagree row hrow hexact)

theorem mem_toDisplayGroup {type : SearchEntityType}
    {hits : List InternalHit} {limit : ℕ} {group : SearchGroup}
    (h : group ∈ (toDisplayGroup type hits limit).toList) :
    group.type = type ∧ ∀ hit ∈ group.hits,
      ∃ internal ∈ hits, internal.toSearchHit = hit := by
  have hhits := (toDisplayGroup_hits type hits limit).1
  constructor
  · unfold toDisplayGroup at h
    split at h
    next => exact absurd h List.not_mem_nil
    next =>
      rw [List.mem_singleton.mp h]
  · intro hit hhit
    have hmem := List.mem_flatMap.mpr ⟨group, h, hhit⟩
    rw [hhits] at hmem
    obtain ⟨internal, hinternal, rfl⟩ := List.mem_map.mp hmem
    exact ⟨internal, List.mem_of_mem_take hinternal, rfl⟩

/-- A hit on the page is in the group. -/
theorem exists_group (type : SearchEntityType) {hits : List InternalHit}
    {limit : ℕ} {hit : InternalHit} (h : hit ∈ hits.take limit) :
    ∃ group ∈ (toDisplayGroup type hits limit).toList, group.type = type ∧
      hit.toSearchHit ∈ group.hits := by
  have hmem : hit.toSearchHit ∈
      (toDisplayGroup type hits limit).toList.flatMap SearchGroup.hits := by
    rw [(toDisplayGroup_hits type hits limit).1]
    exact List.mem_map_of_mem h
  obtain ⟨group, hgroup, hhit⟩ := List.mem_flatMap.mp hmem
  exact ⟨group, hgroup, (mem_toDisplayGroup hgroup).1, hhit⟩

end Page

/-! ## Found

A kept identifier is found in every table without a disputed row, provided that
the exact rows fit on the page. -/

section Kept

variable {text query : CodeUnits}

theorem email_matched (hcompared : Compared L D .email text query)
    (hrow : row.email = some text) :
    ∃ prepared, prepareSearchQuery L query = some prepared ∧
      holds (emailMatchSql L D prepared) row = true := by
  obtain ⟨prepared, hprepared, hmem⟩ := hcompared rfl
  exact ⟨prepared, hprepared,
    (holds_emailMatchSql prepared row).mpr ⟨text, hrow, hmem⟩⟩

theorem phone_matched (hL : KeepsSigns L) (D : DatabaseText)
    (hlong : searchPhoneMinDigits ≤ (text.filter isDigitUnit).length)
    (htyped : query.filter isDigitUnit = text.filter isDigitUnit)
    (hkept : DigitsKept L query) (hrow : row.phone = some text) :
    ∃ prepared, prepareSearchQuery L query = some prepared ∧
      holds (phoneMatchSql D prepared.queryNormalized) row = true ∧
      holds (exactPhoneSql prepared.queryNormalized) row = true := by
  have hne : text.filter isDigitUnit ≠ [] := by
    intro hnil
    rw [hnil] at hlong
    exact absurd hlong (by decide)
  obtain ⟨prepared, hprepared, hdigits⟩ :=
    hkept.prepared hL (by rwa [htyped])
  rw [htyped] at hdigits
  have hstored : canonicalPhoneSql row.phone =
      canonicalDigits (text.filter isDigitUnit) := by
    rw [canonicalPhoneSql_eq, hrow]
    rfl
  have hcanonical : canonicalizePhoneDigits prepared.queryNormalized =
      some (canonicalPhoneSql row.phone) := by
    refine canonicalizePhoneDigits_eq_some.mpr ⟨by rwa [hdigits], ?_, ?_⟩
    · rw [hstored, hdigits]
    · rw [hstored]
      exact hlong.trans (length_canonicalDigits _)
  have hliteral : Catalog.sanitizeLikeLiteral (canonicalPhoneSql row.phone) =
      some (canonicalPhoneSql row.phone) := by
    rw [hstored]
    exact sanitizeLikeLiteral_canonicalDigits hne
  refine ⟨prepared, hprepared, ?_, ?_⟩
  · rw [phoneMatchSql, hcanonical, Option.bind_some, hliteral]
    exact decide_eq_true (List.prefix_refl _)
  · rw [exactPhoneSql, hcanonical]
    exact decide_eq_true rfl

theorem edrpou_matched (hL : KeepsSigns L)
    (hne : query.filter isDigitUnit ≠ []) (hkept : DigitsKept L query)
    (hrow : row.edrpou = some query) :
    ∃ prepared, prepareSearchQuery L query = some prepared ∧
      holds (edrpouMatchSql prepared) row = true := by
  obtain ⟨prepared, hprepared, hdigits⟩ := hkept.prepared hL hne
  refine ⟨prepared, hprepared, (holds_edrpouMatchSql prepared row).mpr
    (List.mem_append_left _ (Option.mem_toList.mpr ?_))⟩
  rw [hrow]
  exact canonicalizeEdrpou_eq_some.mpr ⟨hne, hdigits⟩

end Kept

section Shown

variable {tables : Tables} {companyId : Uuid} {query : CodeUnits}
  {types : Option (List SearchEntityType)} {limit : ℕ}

theorem customer_shown
    (hprepared : prepareSearchQuery L query = some prepared)
    (hnot : ∀ row ∈ tables.customers, row.companyId = companyId →
      ¬ Disputed L D N query row)
    (hlimit : limit ≤ searchLimitPerTypeMax)
    (htypes : .customer ∈ types.getD SEARCH_CUSTOMER_TYPES)
    (hrow : row ∈ tables.customers) (hcompany : row.companyId = companyId)
    (hcombined : holds (customerClauses L D N prepared).combined row = true)
    (hexact : holds (customerClauses L D N prepared).exact row = true)
    (hfew : (exactCustomers L D N tables companyId query).length ≤ limit) :
    ShowsExact (searchMatches L D N tables companyId ⟨query, types, limit⟩)
      .customer row.id := by
  rw [exactCustomers, hprepared] at hfew
  have hwindow : limit ≤ orderCustomerLookupMax + 1 :=
    hlimit.trans (by decide)
  have hmatching : row ∈ (customerClauses L D N prepared).matching
      tables.customers companyId :=
    List.mem_filter.mpr ⟨hrow, by simp [hcompany, hcombined]⟩
  have hagree : ∀ other ∈ (customerClauses L D N prepared).matching
      tables.customers companyId,
      holds (customerClauses L D N prepared).exact other = true →
        (toCustomerHit L N prepared other).exact = true := by
    intro other hother
    obtain ⟨hmem, hmatch⟩ := List.mem_filter.mp hother
    rw [Bool.and_eq_true, decide_eq_true_eq] at hmatch
    exact customer_agrees hprepared (hnot other hmem hmatch.1)
      (tables.customers_edrpou other hmem) hmatch.2
  have hpage := mem_page (toCustomerHit L N prepared)
    tables.customers_unique (fun _ => rfl) hagree hmatching hexact hwindow hfew
  obtain ⟨group, hgroup, htype, hhit⟩ := exists_group .customer hpage
  refine ⟨group, ?_, htype, _, hhit, rfl, hagree row hmatching hexact⟩
  rw [searchMatches, hprepared]
  dsimp only [runCustomersSearchMatches]
  rw [if_pos htypes]
  exact List.mem_append_left _ (List.mem_append_left _ hgroup)

theorem counterparty_shown
    (hprepared : prepareSearchQuery L query = some prepared)
    (hnot : ∀ row ∈ tables.counterparties, row.companyId = companyId →
      ¬ Disputed L D N query row)
    (htypes : .counterparty ∈ types.getD SEARCH_CUSTOMER_TYPES)
    (hrow : row ∈ tables.counterparties)
    (hcompany : row.companyId = companyId)
    (hcombined :
      holds (counterpartyClauses L D N prepared).combined row = true)
    (hexact : holds (counterpartyClauses L D N prepared).exact row = true)
    (hfew : (exactCounterparties L D N tables companyId query).length ≤
      limit) :
    ShowsExact (searchMatches L D N tables companyId ⟨query, types, limit⟩)
      .counterparty row.id := by
  rw [exactCounterparties, hprepared] at hfew
  have hmatching : row ∈ (counterpartyClauses L D N prepared).matching
      tables.counterparties companyId :=
    List.mem_filter.mpr ⟨hrow, by simp [hcompany, hcombined]⟩
  have hagree : ∀ other ∈ (counterpartyClauses L D N prepared).matching
      tables.counterparties companyId,
      holds (counterpartyClauses L D N prepared).exact other = true →
        (toCounterpartyHit L N prepared other).exact = true := by
    intro other hother
    obtain ⟨hmem, hmatch⟩ := List.mem_filter.mp hother
    rw [Bool.and_eq_true, decide_eq_true_eq] at hmatch
    exact counterparty_agrees hprepared (hnot other hmem hmatch.1) hmatch.2
  have hpage := mem_page (toCounterpartyHit L N prepared)
    tables.counterparties_unique (fun _ => rfl) hagree hmatching hexact
    (Nat.le_succ limit) hfew
  obtain ⟨group, hgroup, htype, hhit⟩ := exists_group .counterparty hpage
  refine ⟨group, ?_, htype, _, hhit, rfl, hagree row hmatching hexact⟩
  rw [searchMatches, hprepared]
  dsimp only [runCustomersSearchMatches]
  rw [if_pos htypes]
  exact List.mem_append_right _ hgroup

end Shown

/-- What is kept is found in a table where no row of the company is
disputed. -/
theorem found_of_kept (hL : KeepsSigns L) (N : NameMatcher)
    {identifier : Identifier} {text query : CodeUnits}
    (htyped : TypedAs L identifier text query)
    (hkept : Kept L identifier query)
    (hcompared : Compared L D identifier text query) {tables : Tables}
    {companyId : Uuid}
    (hnot : ∀ row ∈ tables.customers ++ tables.counterparties,
      row.companyId = companyId → ¬ Disputed L D N query row) :
    FoundIn L D N tables companyId identifier text query := by
  have hcustomers : ∀ row ∈ tables.customers, row.companyId = companyId →
      ¬ Disputed L D N query row :=
    fun row hrow => hnot row (List.mem_append_left _ hrow)
  have hparties : ∀ row ∈ tables.counterparties, row.companyId = companyId →
      ¬ Disputed L D N query row :=
    fun row hrow => hnot row (List.mem_append_right _ hrow)
  constructor
  · intro types limit hlimit htypes row hrow hcompany hof hfew
    cases identifier with
    | email =>
        obtain ⟨prepared, hprepared, hemail⟩ := email_matched hcompared hof
        refine customer_shown hprepared hcustomers hlimit htypes hrow hcompany
          ?_ ?_ hfew
        · simp [customerClauses, holds_combineOr, hemail]
        · simp [customerClauses, holds_combineOr, hemail]
    | phone =>
        obtain ⟨prepared, hprepared, hphone, hexact⟩ :=
          phone_matched hL D htyped.1 htyped.2 hkept hof
        refine customer_shown hprepared hcustomers hlimit htypes hrow hcompany
          ?_ ?_ hfew
        · simp [customerClauses, holds_combineOr, hphone]
        · simp [customerClauses, holds_combineOr, hexact]
    | edrpou =>
        rw [Identifier.of, tables.customers_edrpou row hrow] at hof
        cases hof
  · intro types limit _ htypes row hrow hcompany hof hfew
    cases identifier with
    | email =>
        obtain ⟨prepared, hprepared, hemail⟩ := email_matched hcompared hof
        refine counterparty_shown hprepared hparties htypes hrow hcompany
          ?_ ?_ hfew
        · simp [counterpartyClauses, holds_combineOr, hemail]
        · simp [counterpartyClauses, holds_combineOr, hemail]
    | phone =>
        obtain ⟨prepared, hprepared, hphone, hexact⟩ :=
          phone_matched hL D htyped.1 htyped.2 hkept hof
        refine counterparty_shown hprepared hparties htypes hrow hcompany
          ?_ ?_ hfew
        · simp [counterpartyClauses, holds_combineOr, hphone]
        · simp [counterpartyClauses, holds_combineOr, hexact]
    | edrpou =>
        obtain rfl := htyped
        obtain ⟨prepared, hprepared, hedrpou⟩ :=
          edrpou_matched hL hkept.1 hkept.2 hof
        refine counterparty_shown hprepared hparties htypes hrow hcompany
          ?_ ?_ hfew
        · simp [counterpartyClauses, holds_combineOr, hedrpou]
        · simp [counterpartyClauses, holds_combineOr, hedrpou]

/-! ## Lost

For each condition a table in which the record is not shown: texts of which
something was taken away, and rows that crowd it out. -/

/-- What is shown as exact is a counterparty whose hit is. -/
theorem exists_exact_of_shown {tables : Tables} {companyId id : Uuid}
    {input : SearchInput}
    (h : ShowsExact (searchMatches L D N tables companyId input)
      .counterparty id) :
    ∃ prepared, prepareSearchQuery L input.query = some prepared ∧
      ∃ row ∈ fetchCounterpartyRows L D N tables companyId prepared
        input.limitPerType, row.id = id ∧
          (toCounterpartyHit L N prepared row).exact = true := by
  obtain ⟨group, hgroup, htype, hit, hhit, hid, hexact⟩ := h
  unfold searchMatches at hgroup
  split at hgroup
  next => exact absurd hgroup List.not_mem_nil
  next prepared hprepared =>
    refine ⟨prepared, hprepared, ?_⟩
    have hother : ∀ {type : SearchEntityType} {hits : List InternalHit}
        {displayTypes : List SearchEntityType},
        group ∈ (if type ∈ displayTypes then
          (toDisplayGroup type hits input.limitPerType).toList else []) →
        group ∈ (toDisplayGroup type hits input.limitPerType).toList := by
      intro type hits displayTypes hmem
      split at hmem
      next => exact hmem
      next => exact absurd hmem List.not_mem_nil
    rcases List.mem_append.mp hgroup with hgroup | hgroup
    · rcases List.mem_append.mp hgroup with hgroup | hgroup
      · have hcustomer := (mem_toDisplayGroup (hother hgroup)).1
        rw [htype] at hcustomer
        cases hcustomer
      · have hnames := (mem_toDisplayGroup (hother hgroup)).1
        rw [htype] at hnames
        cases hnames
    · obtain ⟨internal, hinternal, rfl⟩ :=
        (mem_toDisplayGroup (hother hgroup)).2 hit hhit
      rw [fetchCounterpartyRows, sortedHits_eq tables.counterparties_unique
        (fun _ => rfl), sortHits, (List.mergeSort_perm _ _).mem_iff]
        at hinternal
      obtain ⟨row, hrow, rfl⟩ := List.mem_map.mp hinternal
      exact ⟨row, hrow, hid, hexact⟩

/-- The digits of an id are zeros but for the last. -/
def zerosThen (digit : Char) : List Char :=
  List.replicate 8 '0' ++ '-' :: List.replicate 4 '0' ++
    '-' :: List.replicate 4 '0' ++ '-' :: List.replicate 4 '0' ++
      '-' :: List.replicate 11 '0' ++ [digit]

/-- A company. -/
def crowdCompany : Uuid :=
  ⟨String.ofList (zerosThen '0'), canonical_ofList (by decide)⟩

/-- The first id of a page. -/
def firstId : Uuid :=
  ⟨String.ofList (zerosThen '1'), canonical_ofList (by decide)⟩

/-- The second id of a page. -/
def secondId : Uuid :=
  ⟨String.ofList (zerosThen '2'), canonical_ofList (by decide)⟩

/-- An id behind both. -/
def lastId : Uuid :=
  ⟨String.ofList (zerosThen '3'), canonical_ofList (by decide)⟩

theorem lt_of_texts {id id' : Uuid} (text text' : List Char)
    (hid : id.text = String.ofList text) (hid' : id'.text = String.ofList text')
    (h : text < text') : id < id' := by
  change id.text.toList < id'.text.toList
  rwa [hid, hid', String.toList_ofList, String.toList_ofList]

theorem first_lt_second : firstId < secondId :=
  lt_of_texts (zerosThen '1') (zerosThen '2') rfl rfl (by decide)

theorem second_lt_last : secondId < lastId :=
  lt_of_texts (zerosThen '2') (zerosThen '3') rfl rfl (by decide)

/-- A row in that company under another id. -/
def ContactRow.placed (row : ContactRow) (id : Uuid) : ContactRow :=
  { row with id := id, companyId := crowdCompany }

/-- Two counterparties alike, and a third that the database puts last where it
takes them for what it takes the third for. -/
def crowd (other last : ContactRow) : Tables where
  customers := []
  groups := []
  counterparties :=
    [other.placed firstId, other.placed secondId, last.placed lastId]
  customers_unique := List.nodup_nil
  counterparties_unique := by
    have hlast := first_lt_second.trans second_lt_last
    simp [ContactRow.placed, first_lt_second.ne, second_lt_last.ne, hlast.ne]
  customers_edrpou := fun _ hrow => absurd hrow List.not_mem_nil

/-- What the record is searched for by does not depend on where it is. -/
theorem holds_placed (N : NameMatcher) (prepared : PreparedTokens)
    (row : ContactRow) (id : Uuid) :
    holds (counterpartyClauses L D N prepared).combined (row.placed id) =
        holds (counterpartyClauses L D N prepared).combined row ∧
      holds (counterpartyClauses L D N prepared).exact (row.placed id) =
        holds (counterpartyClauses L D N prepared).exact row := by
  unfold counterpartyClauses
  dsimp only
  rw [holds_combineOr, holds_combineOr, holds_combineOr, holds_combineOr]
  have hemail : ∀ row, holds (emailMatchSql L D prepared) row =
      (emailCandidates L prepared).any fun canonical =>
        row.email.any fun email => D.lower email = canonical := by
    intro row
    rw [emailMatchSql, holds_combineOr, List.any_map]
    rfl
  have hedrpou : ∀ row, holds (edrpouMatchSql prepared) row =
      (edrpouCandidates prepared).any fun canonical =>
        digitsSql row.edrpou = canonical := by
    intro row
    rw [edrpouMatchSql, holds_combineOr, List.any_map]
    rfl
  simp only [List.any_cons, List.any_nil, hemail, hedrpou]
  refine ⟨?_, ?_⟩
  · unfold nameMatchSql phoneMatchSql
    cases N.strictOrFuzzy prepared.tokens <;>
      cases (canonicalizePhoneDigits prepared.queryNormalized).bind
        Catalog.sanitizeLikeLiteral <;> rfl
  · unfold exactPhoneSql
    cases canonicalizePhoneDigits prepared.queryNormalized <;> rfl

/-- A row comes before another of the same name that is not taken for exact when
it is not. -/
theorem placed_le {other last : ContactRow} (hname : other.name = last.name)
    (hlead : ¬ (holds (counterpartyClauses L D N prepared).exact other =
        false ∧
      holds (counterpartyClauses L D N prepared).exact last = true))
    {id id' : Uuid} (hids : id ≤ id') :
    ((counterpartyClauses L D N prepared).ranked (other.placed id)).le
      ((counterpartyClauses L D N prepared).ranked (last.placed id')) =
        true := by
  have hrank : (counterpartyClauses L D N prepared).rank
      (other.placed id).name = (counterpartyClauses L D N prepared).rank
        (last.placed id').name := by
    change N.rank _ other.name = N.rank _ last.name
    rw [hname]
  rw [Ranked.le_iff]
  simp only [Clauses.ranked, (holds_placed N prepared _ _).2]
  rw [hrank]
  cases hother : holds (counterpartyClauses L D N prepared).exact other with
  | true =>
      cases holds (counterpartyClauses L D N prepared).exact last with
      | true => exact .inr ⟨rfl, .inr ⟨rfl, hids⟩⟩
      | false => exact .inl ⟨rfl, rfl⟩
  | false =>
      cases hlast : holds (counterpartyClauses L D N prepared).exact last with
      | true => exact absurd ⟨hother, hlast⟩ hlead
      | false => exact .inr ⟨rfl, .inr ⟨rfl, hids⟩⟩

/-- A record is found, but not where two rows that come before it are found as
well. -/
theorem crowded_out {identifier : Identifier} {text query : CodeUnits}
    (hfound : IdentifierFound L D N identifier text query)
    (other : ContactRow) {last : ContactRow}
    (hof : identifier.of last = some text) (hname : other.name = last.name)
    (hnot : ∀ prepared, prepareSearchQuery L query = some prepared →
      (toCounterpartyHit L N prepared other).exact = false) :
    ∃ prepared, prepareSearchQuery L query = some prepared ∧
      (toCounterpartyHit L N prepared last).exact = true ∧
      holds (counterpartyClauses L D N prepared).combined last = true ∧
      (holds (counterpartyClauses L D N prepared).combined other = true →
        holds (counterpartyClauses L D N prepared).exact other = false ∧
          holds (counterpartyClauses L D N prepared).exact last = true) := by
  have hof' : identifier.of (last.placed lastId) = some text := by
    cases identifier with
    | email => exact hof
    | phone => exact hof
    | edrpou => exact hof
  have hfew : (exactCounterparties L D N (crowd other last) crowdCompany
      query).length ≤ 1 := by
    unfold exactCounterparties
    split
    next => exact Nat.zero_le 1
    next prepared hprepared =>
      refine (List.Sublist.filter _ List.filter_sublist).length_le.trans ?_
      have hother : ∀ id, (toCounterpartyHit L N prepared
          (other.placed id)).exact = false := fun _ => hnot prepared hprepared
      rw [crowd, List.filter_cons_of_neg (by simp [hother]),
        List.filter_cons_of_neg (by simp [hother])]
      exact List.length_filter_le _ _
  obtain ⟨prepared, hprepared, row, hrow, hid, hexact⟩ :=
    exists_exact_of_shown ((hfound (crowd other last) crowdCompany).counterparty
      none 1 (by decide) (by decide) (last.placed lastId)
      (by simp [crowd]) rfl hof' hfew)
  refine ⟨prepared, hprepared, ?_⟩
  obtain ⟨hmem, hmatch⟩ :=
    List.mem_filter.mp (mem_matching_of_mem_fetch hrow)
  have hlast : row = last.placed lastId := by
    have hids := (crowd other last).counterparties_unique
    exact List.inj_on_of_nodup_map hids hmem (by simp [crowd]) hid
  subst hlast
  rw [Bool.and_eq_true, (holds_placed N prepared last lastId).1] at hmatch
  refine ⟨hexact, hmatch.2, fun hother => ?_⟩
  by_contra hlead
  -- the two come first, and the window has room for two
  have hfirst : ((counterpartyClauses L D N prepared).ranked
      (other.placed firstId)).le ((counterpartyClauses L D N prepared).ranked
        (other.placed secondId)) = true :=
    placed_le rfl (fun h => absurd (h.1.symm.trans h.2) Bool.false_ne_true)
      first_lt_second.le
  have hlasts := placed_le hname hlead (first_lt_second.trans second_lt_last).le
  have hlasts' := placed_le hname hlead second_lt_last.le
  have hmatching : (counterpartyClauses L D N prepared).matching
      (crowd other last).counterparties crowdCompany =
        [other.placed firstId, other.placed secondId, last.placed lastId] := by
    refine List.filter_eq_self.mpr fun row hrow => ?_
    have hcases : row = other.placed firstId ∨ row = other.placed secondId ∨
        row = last.placed lastId := by simpa [crowd] using hrow
    rcases hcases with rfl | rfl | rfl
    · rw [(holds_placed N prepared other firstId).1, hother]
      rfl
    · rw [(holds_placed N prepared other secondId).1, hother]
      rfl
    · rw [(holds_placed N prepared last lastId).1, hmatch.2]
      rfl
  have hmatched := mem_matching_of_mem_fetch hrow
  rw [fetchCounterpartyRows, fetch_eq hmatched, hmatching, window,
    List.mergeSort_of_pairwise] at hrow
  · have hone := first_lt_second.trans second_lt_last
    have htwo : (last.placed lastId).id = firstId ∨
        (last.placed lastId).id = secondId := by
      rcases List.mem_cons.mp hrow with h | h
      · exact .inl (congrArg ContactRow.id h)
      · exact .inr (congrArg ContactRow.id (List.mem_singleton.mp h))
    rcases htwo with h | h
    · exact hone.ne' h
    · exact second_lt_last.ne' h
  · simp [hfirst, hlasts, hlasts']

/-- A name of more digits than the query has. -/
def otherName (L : SearchLanguage) (query : CodeUnits) : CodeUnits :=
  List.replicate (((strippedText L query).filter isDigitUnit).length + 1) 48

theorem name_not_exact (hL : KeepsSigns L) {query : CodeUnits}
    (hprepared : prepareSearchQuery L query = some prepared) :
    (nameCandidate L (otherName L query) prepared).any
      SearchHitPreference.exact = false := by
  obtain ⟨-, -, rfl⟩ := (prepareSearchQuery_eq_some hL).mp hprepared
  refine decide_eq_false fun heq => ?_
  have hdigits := congrArg (List.filter isDigitUnit) heq
  rw [digits_foldSearchNameToken hL, digits_foldSearchNameToken hL,
    digits_collapse hL] at hdigits
  have hlength := congrArg List.length hdigits
  rw [otherName, List.filter_replicate_of_pos (by decide),
    List.length_replicate] at hlength
  exact absurd hlength (Nat.succ_ne_self _)

/-- A counterparty that has nothing but a name and the identifier. -/
def lonely (L : SearchLanguage) (identifier : Identifier)
    (text query : CodeUnits)
    (htrim : identifier = .email → trim text = text) : ContactRow where
  id := lastId
  companyId := crowdCompany
  name := otherName L query
  phone := if identifier = .phone then some text else none
  email := if identifier = .email then some text else none
  edrpou := if identifier = .edrpou then some text else none
  status := none
  email_trimmed := by
    intro email hemail
    split at hemail
    next h =>
      cases hemail
      exact htrim h
    next => cases hemail

theorem email_kept_of_exact (hL : KeepsSigns L) {text query : CodeUnits}
    (htyped : TypedAs L .email text query)
    (hprepared : prepareSearchQuery L query = some prepared)
    (h : (emailCandidate L (some text) prepared).any
      SearchHitPreference.exact = true) :
    EmailKept L query := by
  obtain ⟨htrim, hlower⟩ := htyped
  refine emailKept_of_eq hL hprepared ?_
  rw [emailCandidate, Option.bind_some] at h
  cases hstored : canonicalizeEmail L text with
  | none =>
      rw [hstored, Option.bind_none, Option.any_none] at h
      cases h
  | some stored =>
      have heq := canonicalizeEmail_eq_some hstored
      rw [htrim, ← hlower] at heq
      rw [hstored, Option.bind_some] at h
      split at h
      next hfound =>
        rw [heq]
        rcases hfound with hwhole | htoken
        · exact Or.inl hwhole
        · obtain ⟨token, hmem, htoken⟩ := List.any_eq_true.mp htoken
          exact Or.inr ⟨token, hmem, of_decide_eq_true htoken⟩
      next =>
        rw [Option.any_none] at h
        cases h

theorem phone_kept_of_exact (hL : KeepsSigns L) {text query : CodeUnits}
    (htyped : TypedAs L .phone text query)
    (hprepared : prepareSearchQuery L query = some prepared)
    (h : (phoneCandidate (some text) prepared).any
      SearchHitPreference.exact = true) :
    DigitsKept L query := by
  refine digitsKept_of_phone hL hprepared ?_
  unfold phoneCandidate at h
  split at h
  next queryCanonical stored hquery hstored =>
    rw [Option.bind_some] at hstored
    obtain ⟨-, heq, -⟩ := canonicalizePhoneDigits_eq_some.mp hstored
    split at h
    next =>
      have hsame : stored = queryCanonical := of_decide_eq_true h
      rw [hquery, ← hsame, heq, htyped.2]
    next => cases h
  next => cases h

theorem edrpou_kept_of_exact (hL : KeepsSigns L) {text query : CodeUnits}
    (htyped : TypedAs L .edrpou text query)
    (hprepared : prepareSearchQuery L query = some prepared)
    (h : (edrpouCandidate (some text) prepared).any
      SearchHitPreference.exact = true) :
    query.filter isDigitUnit ≠ [] ∧ DigitsKept L query := by
  obtain rfl : query = text := htyped
  rw [edrpouCandidate, Option.bind_some] at h
  cases hstored : canonicalizeEdrpou query with
  | none =>
      rw [hstored, Option.bind_none, Option.any_none] at h
      cases h
  | some stored =>
      obtain ⟨hne, heq⟩ := canonicalizeEdrpou_eq_some.mp hstored
      rw [← heq] at hne
      refine ⟨hne, digitsKept_of_edrpou hL hprepared ?_⟩
      rw [hstored, Option.bind_some] at h
      split at h
      next hfound =>
        rw [heq]
        rcases hfound with hwhole | htoken
        · exact Or.inl hwhole
        · obtain ⟨token, hmem, htoken⟩ := List.any_eq_true.mp htoken
          exact Or.inr ⟨token, hmem, of_decide_eq_true htoken⟩
      next =>
        rw [Option.any_none] at h
        cases h

theorem kept_of_exact (hL : KeepsSigns L) {identifier : Identifier}
    {text query : CodeUnits} (htyped : TypedAs L identifier text query)
    (htrim : identifier = .email → trim text = text)
    (hprepared : prepareSearchQuery L query = some prepared)
    (h : (toCounterpartyHit L N prepared
      (lonely L identifier text query htrim)).exact = true) :
    Kept L identifier query := by
  change (preferredHit _).exact = true at h
  rw [exact_preferredHit] at h
  have hname := name_not_exact hL hprepared
  have hphone : phoneCandidate none prepared = none := by
    unfold phoneCandidate
    split
    next heq => cases heq
    next => rfl
  have hemail : emailCandidate L none prepared = none := rfl
  have hedrpou : edrpouCandidate none prepared = none := rfl
  simp only [lonely, List.any_cons, List.any_nil, hname, Bool.or_false]
    at h
  cases identifier with
  | email =>
      simp only [reduceCtorEq, if_false, if_true, hphone, hedrpou,
        Option.any_none, Bool.false_or, Bool.or_false] at h
      exact email_kept_of_exact hL htyped hprepared h
  | phone =>
      simp only [reduceCtorEq, if_false, if_true, hemail, hedrpou,
        Option.any_none, Bool.or_false] at h
      exact phone_kept_of_exact hL htyped hprepared h
  | edrpou =>
      simp only [reduceCtorEq, if_false, if_true, hphone, hemail,
        Option.any_none, Bool.false_or] at h
      exact edrpou_kept_of_exact hL htyped hprepared h

/-- A counterparty that has nothing but a name. -/
def ContactRow.nameless (row : ContactRow) : ContactRow :=
  { row with
    phone := none, email := none, edrpou := none,
    email_trimmed := fun _ h => absurd h.symm (Option.some_ne_none _) }

theorem of_lonely (identifier : Identifier) (text query : CodeUnits)
    (htrim : identifier = .email → trim text = text) :
    identifier.of (lonely L identifier text query htrim) = some text := by
  cases identifier with
  | email => rfl
  | phone => rfl
  | edrpou => rfl

/-- Nobody takes it for exact. -/
theorem nameless_not_exact (hL : KeepsSigns L) {query : CodeUnits}
    (hprepared : prepareSearchQuery L query = some prepared)
    (N : NameMatcher) (hname : row.name = otherName L query) :
    (toCounterpartyHit L N prepared row.nameless).exact = false := by
  have hnot := name_not_exact hL hprepared
  rw [← hname] at hnot
  have hphone : phoneCandidate none prepared = none := by
    unfold phoneCandidate
    split
    next heq => cases heq
    next => rfl
  have hemail : emailCandidate L none prepared = none := rfl
  have hedrpou : edrpouCandidate none prepared = none := rfl
  change (preferredHit _).exact = false
  rw [exact_preferredHit]
  simp only [ContactRow.nameless, List.any_cons, List.any_nil, hnot, hphone,
    hemail, hedrpou, Option.any_none, Bool.or_false]

/-- Where the email is not what the query is compared with, the database takes
the record for one without it. -/
theorem holds_nameless (N : NameMatcher) (text query : CodeUnits)
    (htrim : Identifier.email = .email → trim text = text)
    (h : holds (emailMatchSql L D prepared) (lonely L .email text query htrim) =
      false) :
    holds (counterpartyClauses L D N prepared).combined
        (lonely L .email text query htrim).nameless =
      holds (counterpartyClauses L D N prepared).combined
        (lonely L .email text query htrim) ∧
    holds (counterpartyClauses L D N prepared).exact
        (lonely L .email text query htrim).nameless =
      holds (counterpartyClauses L D N prepared).exact
        (lonely L .email text query htrim) := by
  have hnone : holds (emailMatchSql L D prepared)
      (lonely L .email text query htrim).nameless = false := by
    refine eq_false_of_ne_true fun htrue => ?_
    obtain ⟨email, hemail, -⟩ := (holds_emailMatchSql prepared _).mp htrue
    cases hemail
  have hedrpou : holds (edrpouMatchSql prepared)
        (lonely L .email text query htrim).nameless =
      holds (edrpouMatchSql prepared) (lonely L .email text query htrim) := by
    rw [Bool.eq_iff_iff, holds_edrpouMatchSql, holds_edrpouMatchSql]
    rfl
  unfold counterpartyClauses
  dsimp only
  rw [holds_combineOr, holds_combineOr, holds_combineOr, holds_combineOr]
  simp only [List.any_cons, List.any_nil, h, hnone, hedrpou]
  constructor
  · unfold nameMatchSql phoneMatchSql
    cases N.strictOrFuzzy prepared.tokens <;>
      cases (canonicalizePhoneDigits prepared.queryNormalized).bind
        Catalog.sanitizeLikeLiteral <;> rfl
  · unfold exactPhoneSql
    cases canonicalizePhoneDigits prepared.queryNormalized <;> rfl

/-- What is found in every table is kept, and compared with. -/
theorem kept_of_found (hL : KeepsSigns L) {identifier : Identifier}
    {text query : CodeUnits} (htyped : TypedAs L identifier text query)
    (hfound : IdentifierFound L D N identifier text query) :
    Kept L identifier query ∧ Compared L D identifier text query := by
  have htrim : identifier = .email → trim text = text := by
    rintro rfl
    exact htyped.1
  obtain ⟨prepared, hprepared, hexact, hcombined, hcrowd⟩ :=
    crowded_out hfound (lonely L identifier text query htrim).nameless
      (of_lonely (L := L) identifier text query htrim) rfl
      fun prepared hprepared => nameless_not_exact hL hprepared N rfl
  refine ⟨kept_of_exact hL htyped htrim hprepared hexact, ?_⟩
  rintro rfl
  refine ⟨prepared, hprepared, ?_⟩
  cases hemail : holds (emailMatchSql L D prepared)
      (lonely L .email text query htrim) with
  | true =>
      obtain ⟨email, hof, hmem⟩ := (holds_emailMatchSql prepared _).mp hemail
      rw [show email = text from (Option.some.inj hof).symm] at hmem
      exact hmem
  | false =>
      obtain ⟨hsame, hsame'⟩ := holds_nameless N text query htrim hemail
      obtain ⟨hone, htwo⟩ := hcrowd (hsame.trans hcombined)
      rw [hsame', htwo] at hone
      cases hone

/-- No row is disputed where the identifier is found in every table. -/
theorem not_disputed_of_found {identifier : Identifier} {text query : CodeUnits}
    (htrim : identifier = .email → trim text = text)
    (hfound : IdentifierFound L D N identifier text query) (row : ContactRow) :
    ¬ Disputed L D N query row := by
  rintro ⟨prepared, hprepared, hcombined, hexact, hnot⟩
  have hof : identifier.of { lonely L identifier text query htrim with
      name := row.name } = some text := by
    cases identifier with
    | email => rfl
    | phone => rfl
    | edrpou => rfl
  obtain ⟨prepared', hprepared', -, -, hcrowd⟩ :=
    crowded_out hfound row hof rfl fun prepared' hprepared' => by
      rw [hprepared, Option.some.injEq] at hprepared'
      rw [← hprepared']
      exact hnot
  rw [hprepared, Option.some.injEq] at hprepared'
  subst hprepared'
  rw [(hcrowd hcombined).1] at hexact
  cases hexact

/-- The records with an identifier are found by it in every table, whichever
they are and whatever else there is, exactly when nothing of it is lost, it is
compared with the query and no row is disputed. Where nothing of it is lost,
they are found in each table where no row of the company is. -/
theorem identifierFound_iff (hL : KeepsSigns L) (D : DatabaseText)
    (N : NameMatcher) {identifier : Identifier} {text query : CodeUnits}
    (htyped : TypedAs L identifier text query) :
    (IdentifierFound L D N identifier text query ↔
      Kept L identifier query ∧ Compared L D identifier text query ∧
        ∀ row, ¬ Disputed L D N query row) ∧
    (Kept L identifier query → Compared L D identifier text query →
      ∀ (tables : Tables) (companyId : Uuid),
        (∀ row ∈ tables.customers ++ tables.counterparties,
          row.companyId = companyId → ¬ Disputed L D N query row) →
        FoundIn L D N tables companyId identifier text query) := by
  refine ⟨⟨fun hfound => ?_, ?_⟩, fun hkept hcompared tables companyId hnot =>
    found_of_kept hL N htyped hkept hcompared hnot⟩
  · obtain ⟨hkept, hcompared⟩ := kept_of_found hL htyped hfound
    refine ⟨hkept, hcompared, not_disputed_of_found ?_ hfound⟩
    rintro rfl
    exact htyped.1
  · rintro ⟨hkept, hcompared, hnot⟩ tables companyId
    exact found_of_kept hL N htyped hkept hcompared fun row _ _ => hnot row

/-! ## Two alphabets

A language in which all that is relied on holds, letter by letter. -/

/-- A letter of the two alphabets or a digit. -/
def isWordUnit (unit : CodeUnit) : Bool :=
  isDigitUnit unit || upperUnit unit != unit || lowerUnit unit != unit

/-- What a capital is, and its small letter. -/
structure IsCapital (unit : CodeUnit) : Prop where
  again : lowerUnit (lowerUnit unit) = lowerUnit unit
  sign : isSign unit = false ∧ isSign (lowerUnit unit) = false
  space : isSpaceUnit unit = false ∧ isSpaceUnit (lowerUnit unit) = false
  digit : isDigitUnit unit = false ∧ isDigitUnit (lowerUnit unit) = false
  letter : upperUnit (lowerUnit unit) ≠ lowerUnit unit

theorem capital_table : ∀ n ∈ List.range' 65 26 ++ List.range' 0x400 48,
    (lowerUnit (lowerUnit n.toUInt16) = lowerUnit n.toUInt16 ∧
      (isSign n.toUInt16 = false ∧ isSign (lowerUnit n.toUInt16) = false) ∧
      (isSpaceUnit n.toUInt16 = false ∧
        isSpaceUnit (lowerUnit n.toUInt16) = false) ∧
      (isDigitUnit n.toUInt16 = false ∧
        isDigitUnit (lowerUnit n.toUInt16) = false) ∧
      upperUnit (lowerUnit n.toUInt16) ≠ lowerUnit n.toUInt16) := by
  decide

theorem isCapital_of_lowerUnit {unit : CodeUnit} (h : lowerUnit unit ≠ unit) :
    IsCapital unit := by
  have hmem : unit.toNat ∈ List.range' 65 26 ++ List.range' 0x400 48 := by
    rw [List.mem_append, List.mem_range'_1, List.mem_range'_1]
    unfold lowerUnit at h
    simp only [UInt16.le_iff_toNat_le, UInt16.reduceToNat] at h
    split at h
    next hunit => omega
    next =>
      split at h
      next hunit => omega
      next => exact absurd rfl h
  have htable := capital_table _ hmem
  rw [Nat.toUInt16_eq, UInt16.ofNat_toNat] at htable
  obtain ⟨again, sign, space, digit, letter⟩ := htable
  exact ⟨again, sign, space, digit, letter⟩

theorem lowerUnit_eq {unit other : CodeUnit}
    (hsmall : ∀ unit, IsCapital unit → unit ≠ other ∧ lowerUnit unit ≠ other) :
    lowerUnit unit = other ↔ unit = other := by
  by_cases h : lowerUnit unit = unit
  · rw [h]
  · obtain ⟨hunit, hlower⟩ := hsmall unit (isCapital_of_lowerUnit h)
    exact iff_of_false hlower hunit

theorem mem_map_lowerUnit {text : CodeUnits} {unit : CodeUnit}
    (hsmall : ∀ capital, IsCapital capital →
      capital ≠ unit ∧ lowerUnit capital ≠ unit) :
    unit ∈ text.map lowerUnit ↔ unit ∈ text := by
  rw [List.mem_map]
  constructor
  · rintro ⟨before, hbefore, heq⟩
    rwa [← (lowerUnit_eq hsmall).mp heq]
  · exact fun h => ⟨unit, h, (lowerUnit_eq hsmall).mpr rfl⟩

theorem lowerUnit_digit (unit : CodeUnit) :
    isDigitUnit (lowerUnit unit) = isDigitUnit unit := by
  by_cases h : lowerUnit unit = unit
  · rw [h]
  · obtain ⟨hunit, hlower⟩ := (isCapital_of_lowerUnit h).digit
    rw [hunit, hlower]

theorem lowerUnit_word (unit : CodeUnit) :
    isWordUnit (lowerUnit unit) = isWordUnit unit := by
  by_cases h : lowerUnit unit = unit
  · rw [h]
  · have hletter := (isCapital_of_lowerUnit h).letter
    unfold isWordUnit
    rw [bne_iff_ne.mpr h, bne_iff_ne.mpr hletter, Bool.or_true, Bool.or_true,
      Bool.true_or]

theorem word_table : ∀ n ∈ List.range' 9 5 ++ List.range' 8192 11 ++
    [32, 160, 5760, 8232, 8233, 8239, 8287, 12288, 65279],
      isWordUnit n.toUInt16 = false := by
  decide

theorem isWordUnit_space {unit : CodeUnit} (h : isSpaceUnit unit = true) :
    isWordUnit unit = false := by
  have htable := word_table _ (mem_of_isSpaceUnit h)
  rwa [Nat.toUInt16_eq, UInt16.ofNat_toNat] at htable

/-- An apostrophe is no letter here. -/
theorem isWordUnit_fold (unit : CodeUnit) :
    isWordUnit (lowerUnit (plainApostrophe unit)) = isWordUnit unit := by
  rw [lowerUnit_word, plainApostrophe]
  split
  next hcurly =>
    rcases hcurly with rfl | rfl
    · decide
    · decide
  next => rfl

theorem hasLetterOrDigit_twoAlphabets (text : CodeUnits) :
    twoAlphabets.hasLetterOrDigit (foldSearchNameToken twoAlphabets text) =
      text.any isWordUnit := by
  change List.any (List.map lowerUnit (List.map plainApostrophe text))
    isWordUnit = _
  rw [List.any_map, List.any_map]
  exact congrArg text.any (funext isWordUnit_fold)

theorem keepsSigns_twoAlphabets : KeepsSigns twoAlphabets where
  locale _ := rfl
  lower_lower text := by
    change (text.map lowerUnit).map lowerUnit = text.map lowerUnit
    rw [List.map_map]
    refine List.map_congr_left fun unit _ => ?_
    by_cases h : lowerUnit unit = unit
    · rw [Function.comp_apply, h, h]
    · exact (isCapital_of_lowerUnit h).again
  lower_eq_nil h := List.map_eq_nil_iff.mp h
  lower_sign hsign := mem_map_lowerUnit fun capital hcapital => by
    constructor
    · rintro rfl
      exact absurd hsign (by simp [hcapital.sign.1])
    · rintro rfl
      exact absurd hsign (by simp [hcapital.sign.2])
  nfc_sign _ := Iff.rfl
  lower_space hspace := mem_map_lowerUnit fun capital hcapital => by
    constructor
    · rintro rfl
      exact absurd hspace (by simp [hcapital.space.1])
    · rintro rfl
      exact absurd hspace (by simp [hcapital.space.2])
  nfc_space := rfl
  lower_digits text := by
    change (text.map lowerUnit).filter isDigitUnit = _
    have hsame : isDigitUnit ∘ lowerUnit = isDigitUnit :=
      funext lowerUnit_digit
    rw [List.filter_map, hsame]
    conv_rhs => rw [← List.map_id (text.filter isDigitUnit)]
    refine List.map_congr_left fun unit hunit => ?_
    by_contra h
    have hdigit := (List.mem_filter.mp hunit).2
    rw [(isCapital_of_lowerUnit h).digit.1] at hdigit
    cases hdigit
  nfc_digits _ := rfl
  word_digit h := by
    obtain ⟨unit, hunit, hdigit⟩ := List.any_eq_true.mp h
    exact List.any_eq_true.mpr ⟨unit, hunit, by rw [hdigit]; rfl⟩
  word_space h := List.any_eq_false.mpr fun unit hunit =>
    ne_true_of_eq_false (isWordUnit_space (List.all_eq_true.mp h unit hunit))
  word_append more h := by
    change List.any _ _ = true at h ⊢
    rw [List.any_append, h, Bool.true_or]
  word_blank text more := by
    have hblank : isWordUnit blank = false := by decide
    rw [hasLetterOrDigit_twoAlphabets, hasLetterOrDigit_twoAlphabets,
      hasLetterOrDigit_twoAlphabets, List.any_append, List.any_cons, hblank,
      Bool.false_or]
  word_folded h := by
    rw [hasLetterOrDigit_twoAlphabets] at h
    exact h

/-! ## An email with an underscore

A record that is found by its email, and one that is not, since the underscore
is taken out of the query. -/

/-- Names that no query finds. -/
def noNames : NameMatcher where
  strictOrFuzzy _ := none
  rank _ _ := 0

/-- A company. -/
def annaCompany : Uuid :=
  ⟨"9d4f7a10-6c2e-4b7a-8f3d-000000000001", by decide +kernel⟩

/-- A counterparty whose email has an underscore. -/
def anna : ContactRow where
  id := ⟨"9d4f7a10-6c2e-4b7a-8f3d-000000000002", by decide +kernel⟩
  companyId := annaCompany
  name := codeUnits "Anna"
  phone := none
  email := some (codeUnits "anna_k@sota.ua")
  edrpou := none
  status := none
  email_trimmed := by decide +kernel

/-- The tables of one counterparty. -/
def onlyCounterparty (row : ContactRow) : Tables where
  customers := []
  groups := []
  counterparties := [row]
  customers_unique := List.nodup_nil
  counterparties_unique := List.nodup_singleton row.id
  customers_edrpou := fun _ hrow => absurd hrow List.not_mem_nil

/-- The email is stored in small letters, without signs. -/
def plainAnna : ContactRow :=
  { anna with email := some (codeUnits "anna@sota.ua"),
              email_trimmed := by decide +kernel }

theorem plainAnna_readAlike :
    ReadAlike twoAlphabets twoAlphabetsText plainAnna where
  email _ _ := rfl
  name := by decide

/-- An email in other letter case is found. -/
theorem identifierFound_iff_plainEmail :
    FoundIn twoAlphabets twoAlphabetsText noNames (onlyCounterparty plainAnna)
      annaCompany .email (codeUnits "anna@sota.ua")
      (codeUnits "Anna@Sota.ua") := by
  have htyped : TypedAs twoAlphabets .email (codeUnits "anna@sota.ua")
      (codeUnits "Anna@Sota.ua") :=
    And.intro (by decide) (by decide)
  have hsigns : (codeUnits "Anna@Sota.ua").all
      (fun unit => !isLikeUnit unit) = true := by decide
  have hkept : Kept twoAlphabets .email (codeUnits "Anna@Sota.ua") :=
    And.intro (fun unit hunit => by
        simpa using List.all_eq_true.mp hsigns unit hunit)
      (And.intro (by decide) (by decide))
  have hcompared : Compared twoAlphabets twoAlphabetsText .email
      (codeUnits "anna@sota.ua") (codeUnits "Anna@Sota.ua") :=
    fun _ => ⟨⟨codeUnits "Anna@Sota.ua", [codeUnits "anna@sota.ua"]⟩,
      by decide, by decide⟩
  refine (identifierFound_iff keepsSigns_twoAlphabets twoAlphabetsText noNames
    htyped).2 hkept hcompared _ _ fun row hrow _ => ?_
  rw [List.mem_singleton.mp hrow]
  exact plainAnna_readAlike.not_disputed noNames _

theorem fetch_of_matching {clauses : Clauses} {rows : List ContactRow}
    {companyId : Uuid} (h : clauses.matching rows companyId = []) (n : ℕ) :
    clauses.fetch rows companyId n = [] := by
  unfold Clauses.fetch
  split
  next => rfl
  next => rw [h, window, List.mergeSort_nil, List.take_nil]

/-- The email is typed as it is stored, and nothing is found. -/
theorem underscore_not_found :
    TypedAs twoAlphabets .email (codeUnits "anna_k@sota.ua")
        (codeUnits "anna_k@sota.ua") ∧
      (codeUnits "anna_k@sota.ua").length ≤ searchQueryMax ∧
      Identifier.email.of anna = some (codeUnits "anna_k@sota.ua") ∧
      searchMatches twoAlphabets twoAlphabetsText noNames
        (onlyCounterparty anna) annaCompany
        ⟨codeUnits "anna_k@sota.ua", none, searchLimitPerTypeMax⟩ =
          emptySearchMatchesResult ∧
      ¬ IdentifierFound twoAlphabets twoAlphabetsText noNames .email
        (codeUnits "anna_k@sota.ua") (codeUnits "anna_k@sota.ua") := by
  have hprepared : prepareSearchQuery twoAlphabets
      (codeUnits "anna_k@sota.ua") = some ⟨codeUnits "annak@sota.ua",
        [codeUnits "annak@sota.ua"]⟩ := by decide
  have hmatching : (counterpartyClauses twoAlphabets twoAlphabetsText noNames
      ⟨codeUnits "annak@sota.ua", [codeUnits "annak@sota.ua"]⟩).matching
        (onlyCounterparty anna).counterparties annaCompany = [] := by
    decide
  have hcustomers : fetchCustomerRows twoAlphabets twoAlphabetsText noNames
      (onlyCounterparty anna) annaCompany
      ⟨codeUnits "annak@sota.ua", [codeUnits "annak@sota.ua"]⟩ = [] :=
    fetch_of_matching rfl _
  have hparties : fetchCounterpartyRows twoAlphabets twoAlphabetsText noNames
      (onlyCounterparty anna) annaCompany
      ⟨codeUnits "annak@sota.ua", [codeUnits "annak@sota.ua"]⟩
      searchLimitPerTypeMax = [] := fetch_of_matching hmatching _
  have hgroups : fetchGroupRows twoAlphabets twoAlphabetsText noNames
      (onlyCounterparty anna) annaCompany
      ⟨codeUnits "annak@sota.ua", [codeUnits "annak@sota.ua"]⟩
      searchLimitPerTypeMax = [] := rfl
  have hempty : sortedHits [] = [] := List.mergeSort_nil
  have hresult : searchMatches twoAlphabets twoAlphabetsText noNames
      (onlyCounterparty anna) annaCompany
      ⟨codeUnits "anna_k@sota.ua", none, searchLimitPerTypeMax⟩ =
        emptySearchMatchesResult := by
    rw [searchMatches, hprepared]
    simp only [runCustomersSearchMatches, hcustomers, hparties, hgroups,
      List.map_nil, hempty]
    rfl
  refine ⟨⟨by decide, rfl⟩, by decide, rfl, hresult,
    fun hfound => ?_⟩
  have hfew : (exactCounterparties twoAlphabets twoAlphabetsText noNames
      (onlyCounterparty anna) annaCompany
      (codeUnits "anna_k@sota.ua")).length ≤ searchLimitPerTypeMax := by
    rw [exactCounterparties, hprepared]
    dsimp only
    rw [hmatching]
    exact Nat.zero_le _
  obtain ⟨group, hgroup, -⟩ := (hfound (onlyCounterparty anna)
    annaCompany).counterparty none searchLimitPerTypeMax le_rfl (by decide) anna
    (List.mem_singleton_self _) rfl rfl hfew
  rw [hresult] at hgroup
  exact absurd hgroup List.not_mem_nil

end Shozee.Customers
