import Mathlib.Data.List.DropRight
import Shozee.Catalog.LineReferences

/-!
# What is typed into a search

The normal forms that the matchers of the modules compare by
(`validation/src/search/normalize.ts`), and which of several reasons for a hit
is told (`validation/src/search/dedup.ts`).

The characters of `LIKE` are taken out of a query before it is cut into
tokens, whatever the query is compared with afterwards.
-/

namespace Shozee.Search

open Shozee.Run
open Shozee.Validation

/-- What the language makes of texts. -/
structure SearchLanguage extends Language where
  /-- `text.toLocaleLowerCase("uk")`. -/
  toLocaleLowerCase : CodeUnits → CodeUnits
  toLocaleUpperCase : CodeUnits → CodeUnits
  hasLetterOrDigit : CodeUnits → Bool

/-- A query is cut to this length. -/
def searchQueryMax : ℕ := 100

/-- Of a query's words, this many are looked for. -/
def searchTokenMax : ℕ := 8

/-- A hit's label is cut to this length. -/
def searchLabelMax : ℕ := 120

/-- The line under it is cut to this length. -/
def searchSublabelMax : ℕ := 80

/-- With fewer digits a query is no phone. -/
def searchPhoneMinDigits : ℕ := 5

/-- A hit's status is cut to this length. -/
def searchStatusMax : ℕ := 40

/-- A search for orders uses this many customers. -/
def orderCustomerLookupMax : ℕ := 20

/-- `String.prototype.trim`. -/
def trim (text : CodeUnits) : CodeUnits :=
  (text.dropWhile isSpaceUnit).rdropWhile isSpaceUnit

/-- The digits of ASCII. -/
def isDigitUnit (unit : CodeUnit) : Bool := 48 ≤ unit && unit ≤ 57

/-- `#`. -/
def numberSign : CodeUnit := 35

/-- `-`, which a number with a prefix has. -/
def dash : CodeUnit := 45

/-- Every apostrophe as the plain one. -/
def foldSearchApostrophes (value : CodeUnits) : CodeUnits :=
  value.map plainApostrophe

/-- `380…` for `0…`. -/
def canonicalizePhoneDigits (raw : CodeUnits) : Option CodeUnits :=
  let digits := raw.filter isDigitUnit
  if digits = [] then none
  else
    let canonical :=
      if codeUnits "0" <+: digits then codeUnits "380" ++ digits.drop 1
      else digits
    if canonical.length < searchPhoneMinDigits then none else some canonical

/-- The digits of a company's code. -/
def canonicalizeEdrpou (raw : CodeUnits) : Option CodeUnits :=
  let digits := raw.filter isDigitUnit
  if digits = [] then none else some digits

/-- A query ready to search with: the whole of it, and its words folded. -/
structure PreparedTokens where
  queryNormalized : CodeUnits
  tokens : List CodeUnits
deriving DecidableEq

/-- The types of documents by the letters of their numbers. -/
inductive SearchDocumentTypeCode
  | invoice
  | delivery
deriving DecidableEq, Repr

/-- `РХ` and `ВН`. -/
def SearchDocumentTypeCode.text : SearchDocumentTypeCode → CodeUnits
  | .invoice => codeUnits "РХ"
  | .delivery => codeUnits "ВН"

/-- Whether a text is such letters. -/
def isDocumentTypeCode (value : CodeUnits) : Bool :=
  value = SearchDocumentTypeCode.invoice.text ||
    value = SearchDocumentTypeCode.delivery.text

/-- How a query reads as a document's number: not at all, as a sequence, or as
a number with its prefix. -/
inductive CanonicalDocumentNumberQuery
  | empty
  | none
  | seq (sequence : CodeUnits)
  | canonical (value : CodeUnits)
deriving DecidableEq

/-- `text.padStart(width, "0")`. -/
def padZeros (width : ℕ) (text : CodeUnits) : CodeUnits :=
  List.replicate (width - text.length) 48 ++ text

section Normalize

variable (L : SearchLanguage)

/-- A text with its blanks collapsed and its letters composed. -/
def collapseSearchWhitespace (value : CodeUnits) : CodeUnits :=
  normalizeReferenceQuery L.toLanguage value

/-- A word as names are compared: small letters and plain apostrophes. -/
def foldSearchNameToken (value : CodeUnits) : CodeUnits :=
  L.toLocaleLowerCase (foldSearchApostrophes value)

/-- The loop over the parts of a query. -/
def searchTokens (queryNormalized : CodeUnits) : List CodeUnits :=
  (((queryNormalized.splitOn blank).map (foldSearchNameToken L)).filter
    fun folded => folded ≠ [] && L.hasLetterOrDigit folded).take
      searchTokenMax

/-- A prepared query, unless it is empty. -/
def prepareSearchQuery (raw : CodeUnits) : Option PreparedTokens :=
  let collapsed := collapseSearchWhitespace L raw
  if collapsed = [] ∨ L.hasLetterOrDigit collapsed = false then none
  else
    (Catalog.sanitizeLikeLiteral collapsed).bind fun sanitized =>
      let queryNormalized := sanitized.take searchQueryMax
      let tokens := searchTokens L queryNormalized
      if tokens = [] then none else some ⟨queryNormalized, tokens⟩

/-- An email without blanks around it, in small letters. -/
def canonicalizeEmail (raw : CodeUnits) : Option CodeUnits :=
  let normalized := L.toLowerCase (trim raw)
  if normalized = [] then none else some normalized

/-- A number as identifiers are compared: composed, trimmed and in capitals. -/
def foldIdentifier (value : CodeUnits) : CodeUnits :=
  L.toLocaleUpperCase (trim (L.nfc value))

/-- `raw.replaceAll("#", "")`. -/
def withoutNumberSigns (raw : CodeUnits) : CodeUnits :=
  raw.filter (· ≠ numberSign)

/-- Whether a word may be a whole order number: it has a dash. -/
def isCanonicalOrderNumberToken (raw : CodeUnits) : Bool :=
  (foldIdentifier L (withoutNumberSigns raw)).contains dash

/-- The order number that a word stands for; a bare sequence gets the company's
prefix. -/
def canonicalizeOrderNumberToken (raw companyPrefix : CodeUnits) :
    Option CodeUnits :=
  let stripped := foldIdentifier L (withoutNumberSigns raw)
  if stripped = [] then none
  else
    let numbering := foldIdentifier L companyPrefix
    if stripped = numbering then none
    else if isCanonicalOrderNumberToken L raw then some stripped
    else some (numbering ++ dash :: stripped)

/-- How a query reads as a number of a document, blanks left out. -/
def canonicalizeDocumentNumberQuery (raw companyPrefix : CodeUnits) :
    CanonicalDocumentNumberQuery :=
  let stripped := foldIdentifier L
    ((withoutNumberSigns raw).filter fun unit => !isSpaceUnit unit)
  if stripped = [] then .empty
  else
    let numbering := foldIdentifier L companyPrefix
    if stripped = numbering then .none
    else if stripped.contains dash = false then
      if stripped.all isDigitUnit then .seq (padZeros 6 stripped) else .none
    else
      match stripped.splitOn dash with
      | [typeCode, rest] =>
          if rest ≠ [] ∧ isDocumentTypeCode typeCode then
            .canonical (numbering ++ dash :: typeCode ++ dash :: rest)
          else .none
      | [_, _, _] => .canonical stripped
      | _ => .none

end Normalize

/-! ## Texts in the database

What the database's operators say of a text and a literal. -/

/-- What the database makes of texts. Its normal form is that of the
language. -/
structure DatabaseText where
  lower : CodeUnits → CodeUnits
  /-- `[[:space:]]`. -/
  isSpace : CodeUnit → Bool

/-- `text ILIKE '%literal%'`. -/
def DatabaseText.contains (D : DatabaseText) (text literal : CodeUnits) :
    Bool :=
  decide (D.lower literal <:+: D.lower text)

/-- `text LIKE 'literal%'`. -/
def startsWith (text literal : CodeUnits) : Bool :=
  decide (literal <+: text)

/-- A name in the database, folded as a query is: one blank for each run of
spaces and none at the ends, then small letters, then plain apostrophes. -/
def foldedNameSql (L : SearchLanguage) (D : DatabaseText)
    (name : CodeUnits) : CodeUnits :=
  (D.lower ([blank].intercalate
    (((L.nfc name).splitOnP D.isSpace).filter (· ≠ [])))).map plainApostrophe

/-! ## Letters of two alphabets

A language and a database that can be run. -/

/-- The capital of a Latin or Cyrillic letter. -/
def upperUnit (unit : CodeUnit) : CodeUnit :=
  if (97 ≤ unit ∧ unit ≤ 122) ∨ (0x430 ≤ unit ∧ unit ≤ 0x44F) then unit - 32
  else if 0x450 ≤ unit ∧ unit ≤ 0x45F then unit - 80
  else unit

/-- A letter of the two alphabets made small, one unit to one unit. -/
def lowerUnit (unit : CodeUnit) : CodeUnit :=
  if (65 ≤ unit ∧ unit ≤ 90) ∨ (0x410 ≤ unit ∧ unit ≤ 0x42F) then unit + 32
  else if 0x400 ≤ unit ∧ unit ≤ 0x40F then unit + 80
  else unit

/-- Texts of Latin and Cyrillic letters, digits and signs. -/
def twoAlphabets : SearchLanguage where
  nfc := id
  toLowerCase := List.map lowerUnit
  localeCompare := List.compareLex compare
  toLocaleLowerCase := List.map lowerUnit
  toLocaleUpperCase := List.map upperUnit
  hasLetterOrDigit := fun text => text.any fun unit =>
    isDigitUnit unit || upperUnit unit != unit || lowerUnit unit != unit

/-- The database's functions on texts of these two alphabets, where both agree.
-/
def twoAlphabetsText : DatabaseText where
  lower := List.map lowerUnit
  isSpace := fun unit => unit = blank

/-! ## The reason that is told

Of several reasons for one hit the preferred one is told, and an exact one
before any other. -/

/-- The field that a hit was found by. -/
inductive SearchMatchedOn
  | number
  | phone
  | email
  | edrpou
  | name
  | customer
  | customerNameSnapshot
deriving DecidableEq, Repr

/-- The order in which a reason is preferred, exactness aside. -/
def searchMatchedOnPriority : SearchMatchedOn → ℕ
  | .number => 0
  | .phone => 1
  | .email => 2
  | .edrpou => 3
  | .name => 4
  | .customer => 5
  | .customerNameSnapshot => 6

/-- A reason for a hit and whether it is exact. -/
structure SearchHitPreference where
  exact : Bool
  matchedOn : SearchMatchedOn
deriving DecidableEq, Repr

section Prefer

variable {T : Type} (preference : T → SearchHitPreference)

/-- Of two reasons the exact one, then the one of the preferred field; a tie
keeps the first. -/
def pickPreferredSearchHit (current candidate : T) : T :=
  if (preference candidate).exact ≠ (preference current).exact then
    if (preference candidate).exact then candidate else current
  else if searchMatchedOnPriority (preference candidate).matchedOn <
      searchMatchedOnPriority (preference current).matchedOn then candidate
  else current

/-- An exact reason comes before the others. -/
theorem exact_pickPreferredSearchHit (current candidate : T) :
    (preference (pickPreferredSearchHit preference current candidate)).exact =
      ((preference current).exact || (preference candidate).exact) := by
  unfold pickPreferredSearchHit
  split
  next hne =>
    split
    next hcandidate => rw [hcandidate, Bool.or_true]
    next hcandidate =>
      rw [eq_false_of_ne_true hcandidate, Bool.or_false]
  next heq =>
    have heq : (preference candidate).exact = (preference current).exact :=
      not_not.mp heq
    split
    · rw [heq, Bool.or_self]
    · rw [heq, Bool.or_self]

theorem exact_foldl_pickPreferred (first : T) (rest : List T) :
    (preference (rest.foldl (pickPreferredSearchHit preference)
      first)).exact =
      ((preference first).exact ||
        rest.any fun candidate => (preference candidate).exact) := by
  induction rest generalizing first with
  | nil => rw [List.foldl_nil, List.any_nil, Bool.or_false]
  | cons candidate rest ih =>
      rw [List.foldl_cons, ih, exact_pickPreferredSearchHit, List.any_cons,
        Bool.or_assoc]

variable {K : Type} [DecidableEq K] (key : T → K)

/-- A hit is set in the map of the best ones. -/
def setBest (best : List T) (hit : T) : List T :=
  if best.any fun current => key current = key hit then
    best.map fun current =>
      if key current = key hit then
        pickPreferredSearchHit preference current hit
      else current
  else best ++ [hit]

/-- One hit for each key, where it first stood. -/
def dedupSearchHits (hits : List T) : List T :=
  hits.foldl (setBest preference key) []

theorem foldl_setBest (hits best : List T)
    (h : ((best ++ hits).map key).Nodup) :
    hits.foldl (setBest preference key) best = best ++ hits := by
  induction hits generalizing best with
  | nil => rw [List.foldl_nil, List.append_nil]
  | cons hit hits ih =>
      have hnew : (best.any fun current => key current = key hit) = false := by
        rw [List.any_eq_false]
        intro current hmem hkey
        rw [List.map_append, List.map_cons] at h
        exact List.disjoint_of_nodup_append h (List.mem_map_of_mem hmem)
          (of_decide_eq_true hkey ▸ List.mem_cons_self)
      rw [List.foldl_cons, setBest, hnew, if_neg Bool.false_ne_true,
        ih (best ++ [hit]) (by rwa [List.append_assoc]), List.append_assoc,
        List.singleton_append]

/-- Hits with keys of their own are all kept. -/
theorem dedupSearchHits_of_nodup {hits : List T}
    (h : (hits.map key).Nodup) : dedupSearchHits preference key hits = hits :=
  foldl_setBest preference key hits [] h

end Prefer

end Shozee.Search
