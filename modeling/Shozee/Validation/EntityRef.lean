import Mathlib.Data.List.Infix
import Mathlib.Data.List.Perm.Basic
import Shozee.Run.CodeUnits
import Shozee.Run.Text

/-!
# Names that are asked for

What a query is compared by, and which of the candidates it picks
(`validation/src/entity-ref.ts`). The normal form, the small letters and the
order of texts are the language's own (`Language`).

The normal form is taken of texts that have it already, and of texts cut out
of these; it is stable there (`Language.Lawful.normalize_words`). What is
picked does not depend on the order in which the candidates come
(`pickUniqueReferenceMatch_perm`).
-/

namespace Shozee.Validation

open Shozee.Run

/-- What the language makes of texts. -/
structure Language where
  /-- `text.normalize("NFC")`. -/
  nfc : CodeUnits → CodeUnits
  toLowerCase : CodeUnits → CodeUnits
  localeCompare : CodeUnits → CodeUnits → Ordering

/-- An `EntityRef`. -/
inductive EntityRef
  | id (id : CodeUnits)
  | query (value : CodeUnits)
deriving DecidableEq

/-- The white space that `trim` and `\s` know, which is one unit each. -/
def isSpaceUnit (unit : CodeUnit) : Bool :=
  isWhiteSpace (Char.ofNat unit.toNat)

theorem toNat_ofNat_unit {unit : CodeUnit} :
    (Char.ofNat unit.toNat).toNat = unit.toNat ∨
      (Char.ofNat unit.toNat).toNat = 0 := by
  by_cases hvalid : unit.toNat.isValidChar
  · rw [Char.ofNat, dif_pos hvalid]
    exact .inl rfl
  · rw [Char.ofNat, dif_neg hvalid]
    exact .inr rfl

/-- There are 25 of them. -/
theorem mem_of_isSpaceUnit {unit : CodeUnit} (h : isSpaceUnit unit = true) :
    unit.toNat ∈ List.range' 9 5 ++ List.range' 8192 11 ++
      [32, 160, 5760, 8232, 8233, 8239, 8287, 12288, 65279] := by
  unfold isSpaceUnit isWhiteSpace at h
  rcases @toNat_ofNat_unit unit with heq | heq
  · rw [heq] at h
    simp only [Bool.or_eq_true, Bool.and_eq_true, decide_eq_true_eq] at h
    simp only [List.mem_append, List.mem_range'_1]
    rcases h with (h | h) | h
    · exact .inl (.inl ⟨h.1, by omega⟩)
    · exact .inl (.inr ⟨h.1, by omega⟩)
    · exact .inr h
  · rw [heq] at h
    cases h

/-- A plain blank. -/
def blank : CodeUnit := 32

/-- `text.split(/\s+/)` without the empty words. -/
def wordsOf (text : CodeUnits) : List CodeUnits :=
  (text.splitOnP isSpaceUnit).filter (· ≠ [])

/-- Whether several candidates are exact, or none is. -/
inductive AmbiguousMatchSplit
  | several
  | nearest
deriving DecidableEq, Repr

/-- What a text comes to among candidates. -/
inductive UniqueMatchResult (α : Type)
  | unique (row : α)
  | none
  | ambiguous (ambiguity : AmbiguousMatchSplit) (rows : List α)

/-- Endings that a word may have in an oblique case. -/
def obliqueEndings : List CodeUnits :=
  ["а", "я", "у", "ю", "і", "ї", "и", "е", "є", "о", "ом", "ем", "єм", "ою",
    "ею", "єю", "ові", "еві", "єві", "ів", "їв", "ам", "ям", "ами", "ями",
    "ах", "ях", "ої", "ій", "ого", "ому", "им", "ім", "их", "ими"].map
    codeUnits

/-- Endings that the names have which these stand for. -/
def nominativeEndings : List CodeUnits :=
  ["", "а", "я", "о", "е", "є", "ь", "й", "ий", "ій", "і", "и", "ї"].map
    codeUnits

/-- An inflected word shares this many letters with its name. -/
def inflectionSharedPrefixMin : ℕ := 2

/-- How far two texts go on alike. -/
def sharedPrefix : CodeUnits → CodeUnits → ℕ
  | unit :: token, unit' :: word =>
      if unit = unit' then sharedPrefix token word + 1 else 0
  | _, _ => 0

/-- Whether a word is a name's word in another case: the same beginning, and
endings from the two lists. -/
def isInflectionOfWord (token word : CodeUnits) : Bool :=
  if token = word then true
  else
    let shared := sharedPrefix token word
    inflectionSharedPrefixMin ≤ shared && word.length - 2 ≤ shared &&
      obliqueEndings.contains (token.drop shared) &&
      nominativeEndings.contains (word.drop shared)

/-- Each of the words takes one of those that are free. -/
def takeWords : List CodeUnits → List CodeUnits → Bool
  | [], _ => true
  | token :: tokens, free =>
      match free.findIdx? fun word => isInflectionOfWord token word with
      | some index => takeWords tokens (free.eraseIdx index)
      | none => false

section Match

variable (L : Language)

/-- `trim` and one blank for each run of white space leave the words with one
blank between them. -/
def normalizeReferenceQuery (query : CodeUnits) : CodeUnits :=
  [blank].intercalate (wordsOf (L.nfc query))

/-- A text as it is compared: normalized and in small letters. -/
def normalizeUniqueMatchQuery (query : CodeUnits) : CodeUnits :=
  L.toLowerCase (normalizeReferenceQuery L query)

/-- Whether a field has the query in it. An empty query is in none. -/
def fieldContainsQuery (field : Option CodeUnits) (query : CodeUnits) : Bool :=
  match field with
  | none => false
  | some field =>
      let needle := normalizeUniqueMatchQuery L query
      !needle.isEmpty && decide (needle <:+: normalizeUniqueMatchQuery L field)

/-- `’` and `ʼ` are written as `'`. -/
def plainApostrophe (unit : CodeUnit) : CodeUnit :=
  if unit = 0x2019 ∨ unit = 0x2BC then 0x27 else unit

/-- The words of a text, apostrophes made plain. -/
def referenceWords (value : CodeUnits) : List CodeUnits :=
  (((normalizeUniqueMatchQuery L value).map plainApostrophe).splitOn
    blank).filter fun word => 0 < word.length

/-- Whether the words of a query are the words of a name in other cases, in any
order. -/
def isInflectionOfName (query name : CodeUnits) : Bool :=
  let tokens := referenceWords L query
  let words := referenceWords L name
  !tokens.isEmpty && tokens.length = words.length && takeWords tokens words

variable {α : Type}

/-- One of a row's fields is the query. -/
def matchesExactly (query : CodeUnits) (fieldsOf : α → List (Option CodeUnits))
    (row : α) : Bool :=
  (fieldsOf row).any fun field => field.any fun field =>
    normalizeUniqueMatchQuery L field = normalizeUniqueMatchQuery L query

/-- The candidate that is the query exactly, if it is the only one. -/
def pickUniqueNormalizedMatch (query : CodeUnits) (candidates : List α)
    (fieldsOf : α → List (Option CodeUnits)) : UniqueMatchResult α :=
  if normalizeUniqueMatchQuery L query = [] then .none
  else
    match candidates.filter (matchesExactly L query fieldsOf) with
    | [row] => .unique row
    | row :: next :: rest => .ambiguous .several (row :: next :: rest)
    | [] => if candidates = [] then .none else .ambiguous .nearest candidates

/-- The same; where none is exact, the only candidate that the query inflects
is taken. -/
def pickUniqueReferenceMatch (query : CodeUnits) (candidates : List α)
    (fieldsOf : α → List (Option CodeUnits)) (nameOf : α → CodeUnits) :
    UniqueMatchResult α :=
  match pickUniqueNormalizedMatch L query candidates fieldsOf with
  | .ambiguous .nearest rows =>
      match candidates.filter fun row =>
          isInflectionOfName L query (nameOf row) with
      | [only] => .unique only
      | _ => .ambiguous .nearest rows
  | exact => exact

end Match

/-! ## What is picked

What is picked is among the candidates. -/

section Picked

variable {α : Type}

/-- The rows of an answer. -/
def UniqueMatchResult.rows : UniqueMatchResult α → List α
  | .unique row => [row]
  | .none => []
  | .ambiguous _ rows => rows

theorem mem_of_pickUniqueNormalizedMatch {L : Language} {query : CodeUnits}
    {candidates : List α} {fieldsOf : α → List (Option CodeUnits)} {row : α}
    (h : row ∈ (pickUniqueNormalizedMatch L query candidates fieldsOf).rows) :
    row ∈ candidates := by
  unfold pickUniqueNormalizedMatch at h
  split at h
  · exact absurd h List.not_mem_nil
  split at h
  next hfilter =>
    rw [UniqueMatchResult.rows, ← hfilter] at h
    exact (List.mem_filter.mp h).1
  next hfilter =>
    rw [UniqueMatchResult.rows, ← hfilter] at h
    exact (List.mem_filter.mp h).1
  · split at h
    · exact absurd h List.not_mem_nil
    · exact h

theorem mem_of_pickUniqueReferenceMatch {L : Language} {query : CodeUnits}
    {candidates : List α} {fieldsOf : α → List (Option CodeUnits)}
    {nameOf : α → CodeUnits} {row : α}
    (h : row ∈ (pickUniqueReferenceMatch L query candidates fieldsOf
      nameOf).rows) : row ∈ candidates := by
  unfold pickUniqueReferenceMatch at h
  split at h
  next rows hexact =>
    split at h
    next only hfilter =>
      rw [UniqueMatchResult.rows, ← hfilter] at h
      exact (List.mem_filter.mp h).1
    next =>
      rw [← hexact] at h
      exact mem_of_pickUniqueNormalizedMatch h
  next => exact mem_of_pickUniqueNormalizedMatch h

end Picked

/-! ## Texts in normal form

A normal form cut at its blanks and joined again is in normal form. -/

/-- What is relied on of the language: that an order tells texts apart, and
that a part of a normal text is normal. -/
structure Language.Lawful (L : Language) : Prop where
  ordered : Std.TransCmp L.localeCompare
  nfc_part : ∀ {text part : CodeUnits},
    part <:+: normalizeReferenceQuery L text → L.nfc part = part

/-- A word has units in it, and none of them is white space. -/
def IsWord (word : CodeUnits) : Prop :=
  word ≠ [] ∧ ∀ unit ∈ word, isSpaceUnit unit = false

theorem isSpaceUnit_blank : isSpaceUnit blank = true := by decide

theorem isWord_of_mem {text word : CodeUnits} (h : word ∈ wordsOf text) :
    IsWord word := by
  obtain ⟨hsplit, hne⟩ := List.mem_filter.mp h
  exact ⟨of_decide_eq_true hne, fun unit hunit => of_mem_splitOnP hsplit hunit⟩

theorem wordsOf_intercalate {words : List CodeUnits}
    (h : ∀ word ∈ words, IsWord word) :
    wordsOf ([blank].intercalate words) = words := by
  cases words with
  | nil => rfl
  | cons word words =>
      unfold wordsOf
      rw [splitOnP_intercalate isSpaceUnit_blank (List.cons_ne_nil word words)
        fun word hmem => (h word hmem).2]
      exact List.filter_eq_self.mpr fun word hmem =>
        decide_eq_true (h word hmem).1

theorem splitOn_blank_intercalate {words : List CodeUnits} (hne : words ≠ [])
    (h : ∀ word ∈ words, IsWord word) :
    ([blank].intercalate words).splitOn blank = words := by
  refine List.splitOn_intercalate blank (fun word hmem hblank => ?_) hne
  have hspace := (h word hmem).2 blank hblank
  rw [isSpaceUnit_blank] at hspace
  exact Bool.noConfusion hspace

/-- A text that is cut out of a normal one, word by word, is normal. -/
theorem Language.Lawful.normalize_words {L : Language} (hL : L.Lawful)
    {text : CodeUnits} {words : List CodeUnits}
    (hwords : ∀ word ∈ words, IsWord word)
    (hpart : [blank].intercalate words <:+: normalizeReferenceQuery L text) :
    normalizeReferenceQuery L ([blank].intercalate words) =
      [blank].intercalate words := by
  have hnfc := hL.nfc_part hpart
  unfold normalizeReferenceQuery
  rw [hnfc, wordsOf_intercalate hwords]

@[simp] theorem Language.Lawful.normalize_normalize {L : Language}
    (hL : L.Lawful) (text : CodeUnits) :
    normalizeReferenceQuery L (normalizeReferenceQuery L text) =
      normalizeReferenceQuery L text :=
  hL.normalize_words (fun _ => isWord_of_mem) (List.infix_refl _)

/-! ## The order of the candidates

The same rows in another order lead to the same pick. -/

variable {α : Type}

/-- The same rows are picked, in any order. -/
inductive Alike : UniqueMatchResult α → UniqueMatchResult α → Prop
  | unique (row : α) : Alike (.unique row) (.unique row)
  | none : Alike .none .none
  | ambiguous (ambiguity : AmbiguousMatchSplit) {rows rows' : List α}
      (h : rows.Perm rows') :
      Alike (.ambiguous ambiguity rows) (.ambiguous ambiguity rows')

theorem pickUniqueNormalizedMatch_perm (L : Language) (query : CodeUnits)
    (fieldsOf : α → List (Option CodeUnits)) {rows rows' : List α}
    (h : rows.Perm rows') :
    Alike (pickUniqueNormalizedMatch L query rows fieldsOf)
      (pickUniqueNormalizedMatch L query rows' fieldsOf) := by
  unfold pickUniqueNormalizedMatch
  split
  · exact .none
  have hexact := h.filter (matchesExactly L query fieldsOf)
  generalize rows.filter (matchesExactly L query fieldsOf) = exact' at hexact
  generalize rows'.filter (matchesExactly L query fieldsOf) = exact'' at hexact
  match exact', exact'', hexact with
  | [row], exact'', hexact =>
      rw [← List.singleton_perm.mp hexact]
      exact .unique row
  | [], exact'', hexact =>
      rw [List.nil_perm.mp hexact]
      by_cases hrows : rows = []
      · subst hrows
        rw [List.nil_perm.mp h]
        exact .none
      · have hrows' : rows' ≠ [] := by
          rintro rfl
          exact hrows (List.perm_nil.mp h)
        dsimp only
        rw [if_neg hrows, if_neg hrows']
        exact .ambiguous _ h
  | row :: next :: rest, [], hexact => exact absurd hexact.length_eq (by simp)
  | row :: next :: rest, [_], hexact => exact absurd hexact.length_eq (by simp)
  | row :: next :: rest, _ :: _ :: _, hexact => exact .ambiguous _ hexact

theorem pickUniqueReferenceMatch_perm (L : Language) (query : CodeUnits)
    (fieldsOf : α → List (Option CodeUnits)) (nameOf : α → CodeUnits)
    {rows rows' : List α} (h : rows.Perm rows') :
    Alike (pickUniqueReferenceMatch L query rows fieldsOf nameOf)
      (pickUniqueReferenceMatch L query rows' fieldsOf nameOf) := by
  have hexact := pickUniqueNormalizedMatch_perm L query fieldsOf h
  have hinflected := h.filter fun row =>
    isInflectionOfName L query (nameOf row)
  unfold pickUniqueReferenceMatch
  generalize pickUniqueNormalizedMatch L query rows fieldsOf = exact' at hexact
  generalize pickUniqueNormalizedMatch L query rows' fieldsOf = exact''
    at hexact
  cases hexact with
  | unique row => exact .unique row
  | none => exact .none
  | @ambiguous ambiguity kept kept' hkept =>
      cases ambiguity with
      | several => exact .ambiguous _ hkept
      | nearest =>
          dsimp only
          generalize rows.filter _ = some' at hinflected
          generalize rows'.filter _ = some'' at hinflected
          match some', some'', hinflected with
          | [row], some'', hinflected =>
              rw [← List.singleton_perm.mp hinflected]
              exact .unique row
          | [], some'', hinflected =>
              rw [List.nil_perm.mp hinflected]
              exact .ambiguous _ hkept
          | _ :: _ :: _, [], hinflected =>
              exact absurd hinflected.length_eq (by simp)
          | _ :: _ :: _, [_], hinflected =>
              exact absurd hinflected.length_eq (by simp)
          | _ :: _ :: _, _ :: _ :: _, _ => exact .ambiguous _ hkept

end Shozee.Validation
