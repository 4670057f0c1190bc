import Shozee.Customers.SearchMatches

/-!
# What is left of an identifier that is typed

A query is put into a normal form, the characters of `LIKE` are taken out of
it, and it is cut at a hundred units (`strippedText`). An email is found by what
is left only when nothing was taken out of it and its normal form is the email
but for letter case (`EmailKept`); a phone and a tax code when none of their
digits was cut off (`DigitsKept`).

What is relied on of the language is that neither its normal form nor its small
letters make or lose a sign, a digit or white space (`KeepsSigns`).
-/

namespace Shozee.Customers

open Shozee.Run
open Shozee.Validation
open Shozee.Search

/-- `\`, `%` and `_`. -/
def isLikeUnit (unit : CodeUnit) : Bool := unit ∈ codeUnits "\\%_"

/-- A sign that a text is searched for. -/
def isSign (unit : CodeUnit) : Bool :=
  isLikeUnit unit || unit = 0x2019 || unit = 0x2BC

/-- What is relied on of the language. -/
structure KeepsSigns (L : SearchLanguage) : Prop where
  locale : ∀ text, L.toLocaleLowerCase text = L.toLowerCase text
  lower_lower : ∀ text, L.toLowerCase (L.toLowerCase text) = L.toLowerCase text
  lower_eq_nil : ∀ {text}, L.toLowerCase text = [] → text = []
  lower_sign : ∀ {text unit}, isSign unit = true →
    (unit ∈ L.toLowerCase text ↔ unit ∈ text)
  nfc_sign : ∀ {text unit}, isSign unit = true →
    (unit ∈ L.nfc text ↔ unit ∈ text)
  lower_space : ∀ {text unit}, isSpaceUnit unit = true →
    (unit ∈ L.toLowerCase text ↔ unit ∈ text)
  nfc_space : ∀ {text}, (L.nfc text).any isSpaceUnit = text.any isSpaceUnit
  lower_digits : ∀ text, (L.toLowerCase text).filter isDigitUnit =
    text.filter isDigitUnit
  nfc_digits : ∀ text, (L.nfc text).filter isDigitUnit =
    text.filter isDigitUnit
  word_digit : ∀ {text}, text.any isDigitUnit = true →
    L.hasLetterOrDigit text = true
  word_space : ∀ {text}, text.all isSpaceUnit = true →
    L.hasLetterOrDigit text = false
  word_append : ∀ {text} more, L.hasLetterOrDigit text = true →
    L.hasLetterOrDigit (text ++ more) = true
  word_blank : ∀ text more,
    L.hasLetterOrDigit (foldSearchNameToken L (text ++ blank :: more)) =
      (L.hasLetterOrDigit (foldSearchNameToken L text) ||
        L.hasLetterOrDigit (foldSearchNameToken L more))
  word_folded : ∀ {text},
    L.hasLetterOrDigit (foldSearchNameToken L text) = true →
      L.hasLetterOrDigit text = true

section Texts

variable (L : SearchLanguage)

/-- The query without characters of `LIKE`, cut. -/
def strippedText (query : CodeUnits) : CodeUnits :=
  ((collapseSearchWhitespace L query).filter fun unit =>
    !isLikeUnit unit).take searchQueryMax

/-- The normal form of the query, cut. -/
def searchText (query : CodeUnits) : CodeUnits :=
  (collapseSearchWhitespace L query).take searchQueryMax

end Texts

variable {L : SearchLanguage}

/-! ## Normal forms

The normal form changes letters and white space. Signs and digits are as they
were. -/

theorem digit_table : ∀ n < 58, isDigitUnit n.toUInt16 = true →
    isSpaceUnit n.toUInt16 = false ∧ isSign n.toUInt16 = false := by
  decide

theorem of_isDigitUnit {unit : CodeUnit} (h : isDigitUnit unit = true) :
    isSpaceUnit unit = false ∧ isSign unit = false := by
  have hlt : unit.toNat < 58 := by
    have hbounds := h
    rw [isDigitUnit, Bool.and_eq_true, decide_eq_true_eq, decide_eq_true_eq]
      at hbounds
    exact Nat.lt_succ_of_le (UInt16.le_iff_toNat_le.mp hbounds.2)
  have htable := digit_table _ hlt
  rw [Nat.toUInt16_eq, UInt16.ofNat_toNat] at htable
  exact htable h

theorem mem_collapse {query : CodeUnits} {unit : CodeUnit}
    (h : unit ∈ collapseSearchWhitespace L query) :
    unit = blank ∨ unit ∈ L.nfc query ∧ isSpaceUnit unit = false := by
  rcases mem_intercalate h with hblank | ⟨word, hword, hunit⟩
  · exact Or.inl (List.mem_singleton.mp hblank)
  · refine Or.inr ⟨?_, (isWord_of_mem hword).2 unit hunit⟩
    have hflatten : unit ∈ ((L.nfc query).splitOnP isSpaceUnit).flatten :=
      List.mem_flatten.mpr ⟨word, (List.mem_filter.mp hword).1, hunit⟩
    rw [flatten_splitOnP] at hflatten
    exact (List.mem_filter.mp hflatten).1

theorem digits_collapse (hL : KeepsSigns L) (query : CodeUnits) :
    (collapseSearchWhitespace L query).filter isDigitUnit =
      query.filter isDigitUnit := by
  have hblank : ∀ unit ∈ [blank], isDigitUnit unit = false := by
    intro unit hunit
    rw [List.mem_singleton.mp hunit]
    decide
  rw [collapseSearchWhitespace, normalizeReferenceQuery,
    filter_intercalate hblank, wordsOf, List.flatten_filter_ne_nil,
    flatten_splitOnP, List.filter_filter, ← hL.nfc_digits]
  refine List.filter_congr fun unit _ => ?_
  cases hdigit : isDigitUnit unit with
  | false => rfl
  | true =>
      rw [(of_isDigitUnit hdigit).1]
      rfl

/-- Without white space a normal form is what the language makes of the
text. -/
theorem collapse_of_no_space {query : CodeUnits}
    (h : (L.nfc query).any isSpaceUnit = false) :
    collapseSearchWhitespace L query = L.nfc query := by
  have hnone : ∀ unit ∈ L.nfc query, isSpaceUnit unit = false := by
    simpa using h
  rw [collapseSearchWhitespace, normalizeReferenceQuery, wordsOf,
    List.splitOnP_eq_singleton hnone]
  by_cases hnil : L.nfc query = []
  · rw [hnil]
    rfl
  · rw [List.filter_cons_of_pos (by simpa using hnil), List.filter_nil,
      List.intercalate_singleton]

theorem KeepsSigns.any_lower_space (hL : KeepsSigns L) (text : CodeUnits) :
    (L.toLowerCase text).any isSpaceUnit = text.any isSpaceUnit := by
  rw [Bool.eq_iff_iff, List.any_eq_true, List.any_eq_true]
  refine exists_congr fun unit => and_congr_left fun hspace => ?_
  exact hL.lower_space hspace

/-! ## Words

A query with a letter or a digit has a token. -/

theorem KeepsSigns.word_folded_nil (hL : KeepsSigns L) :
    L.hasLetterOrDigit (foldSearchNameToken L []) = false := by
  refine eq_false_of_ne_true fun h => ?_
  have hnil := hL.word_folded h
  rw [hL.word_space rfl] at hnil
  cases hnil

theorem hasLetterOrDigit_intercalate (hL : KeepsSigns L)
    (parts : List CodeUnits) :
    L.hasLetterOrDigit (foldSearchNameToken L ([blank].intercalate parts)) =
      parts.any fun part => L.hasLetterOrDigit
        (foldSearchNameToken L part) := by
  induction parts with
  | nil => exact hL.word_folded_nil
  | cons part rest ih =>
      cases rest with
      | nil =>
          rw [List.intercalate_singleton, List.any_cons, List.any_nil,
            Bool.or_false]
      | cons next rest =>
          rw [List.intercalate_cons_cons, List.append_assoc,
            List.singleton_append, hL.word_blank, ih]
          rfl

/-- There is a token when there is a letter or digit that is no apostrophe. -/
theorem searchTokens_ne_nil (hL : KeepsSigns L) (text : CodeUnits) :
    searchTokens L text ≠ [] ↔
      L.hasLetterOrDigit (foldSearchNameToken L text) = true := by
  have hsplit : [blank].intercalate (text.splitOn blank) = text :=
    List.intercalate_splitOn blank
  have hwords := hasLetterOrDigit_intercalate hL (text.splitOn blank)
  rw [hsplit] at hwords
  rw [hwords, List.any_eq_true, searchTokens, Ne, List.take_eq_nil_iff,
    not_or]
  constructor
  · rintro ⟨-, hne⟩
    obtain ⟨folded, hfolded⟩ := List.exists_mem_of_ne_nil _ hne
    obtain ⟨hmem, hword⟩ := List.mem_filter.mp hfolded
    obtain ⟨part, hpart, rfl⟩ := List.mem_map.mp hmem
    rw [Bool.and_eq_true] at hword
    exact ⟨part, hpart, hword.2⟩
  · rintro ⟨part, hpart, hword⟩
    refine ⟨by decide, List.ne_nil_of_mem (a := foldSearchNameToken L part)
      (List.mem_filter.mpr ⟨List.mem_map_of_mem hpart, ?_⟩)⟩
    have hne : foldSearchNameToken L part ≠ [] := by
      intro hnil
      rw [hnil, hL.word_space rfl] at hword
      cases hword
    rw [Bool.and_eq_true]
    exact ⟨decide_eq_true hne, hword⟩

/-- What a query that is not empty is prepared to. -/
theorem prepareSearchQuery_eq_some (hL : KeepsSigns L) {query : CodeUnits}
    {prepared : PreparedTokens} :
    prepareSearchQuery L query = some prepared ↔
      L.hasLetterOrDigit (collapseSearchWhitespace L query) = true ∧
      L.hasLetterOrDigit
        (foldSearchNameToken L (strippedText L query)) = true ∧
      prepared = ⟨strippedText L query,
        searchTokens L (strippedText L query)⟩ := by
  have hnil : L.hasLetterOrDigit [] = false := hL.word_space rfl
  have hlike : ∀ text : CodeUnits,
      text.filter (fun unit => unit ∉ codeUnits "\\%_") =
        text.filter fun unit => !isLikeUnit unit := by
    intro text
    refine List.filter_congr fun unit _ => ?_
    rw [isLikeUnit]
    exact decide_not
  have htokens := searchTokens_ne_nil hL (strippedText L query)
  unfold prepareSearchQuery Catalog.sanitizeLikeLiteral
  unfold strippedText at htokens ⊢
  dsimp only
  rw [hlike]
  generalize collapseSearchWhitespace L query = collapsed at htokens ⊢
  by_cases hword : L.hasLetterOrDigit collapsed = true
  · have hne : ¬(collapsed = [] ∨ L.hasLetterOrDigit collapsed = false) := by
      rw [hword]
      rintro (rfl | hfalse)
      · rw [hnil] at hword
        cases hword
      · cases hfalse
    rw [if_neg hne]
    generalize collapsed.filter (fun unit => !isLikeUnit unit) = literal
      at htokens ⊢
    by_cases hliteral : literal = []
    · rw [hliteral, List.take_nil, hL.word_folded_nil, if_pos rfl,
        Option.bind_none]
      exact iff_of_false (fun h => by cases h) fun h =>
        Bool.false_ne_true h.2.1
    · rw [if_neg hliteral, Option.bind_some]
      by_cases hstripped : L.hasLetterOrDigit
          (foldSearchNameToken L (literal.take searchQueryMax)) = true
      · rw [if_neg (htokens.mpr hstripped), Option.some.injEq]
        exact ⟨fun h => ⟨hword, hstripped, h.symm⟩, fun h => h.2.2.symm⟩
      · rw [if_pos (not_not.mp (mt htokens.mp hstripped))]
        exact iff_of_false (fun h => by cases h) fun h => hstripped h.2.1
  · rw [if_pos (Or.inr (eq_false_of_ne_true hword))]
    exact iff_of_false (fun h => by cases h) fun h => hword h.1

/-! ## Emails

An email has no white space inside, so only the signs of `LIKE`, the length and
the letter case can keep it from being found. -/

/-- The text has no character of `LIKE`, and as far as it is searched for, its
normal form is the text but for letter case. -/
def EmailKept (L : SearchLanguage) (query : CodeUnits) : Prop :=
  (∀ unit ∈ query, isLikeUnit unit = false) ∧
    L.hasLetterOrDigit (foldSearchNameToken L (searchText L query)) = true ∧
    L.toLowerCase (trim (searchText L query)) = L.toLowerCase query

theorem mem_of_mem_trim {text : CodeUnits} {unit : CodeUnit}
    (h : unit ∈ trim text) : unit ∈ text :=
  (List.dropWhile_suffix _).subset ((List.rdropWhile_prefix _ _).subset h)

theorem trim_of_no_space {text : CodeUnits}
    (h : text.any isSpaceUnit = false) : trim text = text := by
  by_cases hnil : text = []
  · rw [hnil]
    rfl
  · have hnone : ∀ unit ∈ text, isSpaceUnit unit = false := by simpa using h
    have hframe : ∀ unit ∈ ([] : CodeUnits), isSpaceUnit unit = true :=
      fun _ hunit => absurd hunit List.not_mem_nil
    have hframed := dropWhile_framed hnil hnone hframe hframe
    rwa [List.nil_append, List.append_nil] at hframed

theorem all_space_of_trim {text : CodeUnits} (h : trim text = []) :
    text.all isSpaceUnit = true := by
  rw [trim, List.rdropWhile_eq_nil_iff] at h
  rw [← List.takeWhile_append_dropWhile (p := isSpaceUnit) (l := text),
    List.all_append, List.all_takeWhile, Bool.true_and]
  exact List.all_eq_true.mpr h

theorem canonicalizeEmail_eq_some {text canonical : CodeUnits}
    (h : canonicalizeEmail L text = some canonical) :
    L.toLowerCase (trim text) = canonical := by
  unfold canonicalizeEmail at h
  dsimp only at h
  split at h
  next => cases h
  next => exact Option.some.inj h

theorem sign_of_mem_collapse (hL : KeepsSigns L) {query : CodeUnits}
    {unit : CodeUnit} (hsign : isSign unit = true)
    (h : unit ∈ collapseSearchWhitespace L query) : unit ∈ query := by
  rcases mem_collapse h with rfl | ⟨hunit, -⟩
  · exact absurd hsign (by decide)
  · exact (hL.nfc_sign hsign).mp hunit

theorem mem_of_mem_splitOn {text part : CodeUnits}
    (h : part ∈ text.splitOn blank) {unit : CodeUnit} (hunit : unit ∈ part) :
    unit ∈ text ∧ unit ≠ blank := by
  rw [List.splitOn_eq_splitOnP] at h
  have hflatten := List.mem_flatten.mpr ⟨part, h, hunit⟩
  rw [flatten_splitOnP] at hflatten
  obtain ⟨hmem, hne⟩ := List.mem_filter.mp hflatten
  exact ⟨hmem, by simpa using hne⟩

theorem mem_searchTokens {text token : CodeUnits}
    (h : token ∈ searchTokens L text) :
    ∃ part ∈ text.splitOn blank, token = foldSearchNameToken L part := by
  obtain ⟨part, hpart, rfl⟩ :=
    List.mem_map.mp (List.mem_filter.mp (List.mem_of_mem_take h)).1
  exact ⟨part, hpart, rfl⟩

/-- A sign in a token is in the text that it is of, and is not one of the
apostrophes. -/
theorem sign_of_mem_token (hL : KeepsSigns L) {text token : CodeUnits}
    (h : token ∈ searchTokens L text) {unit : CodeUnit}
    (hsign : isSign unit = true) (hunit : unit ∈ token) :
    unit ∈ text ∧ isLikeUnit unit = true := by
  obtain ⟨part, hpart, rfl⟩ := mem_searchTokens h
  rw [foldSearchNameToken, hL.locale, hL.lower_sign hsign] at hunit
  obtain ⟨before, hbefore, rfl⟩ := List.mem_map.mp hunit
  unfold plainApostrophe at hsign ⊢
  split at hsign
  next => exact absurd hsign (by decide)
  next hplain =>
    rw [if_neg hplain]
    refine ⟨(mem_of_mem_splitOn hpart hbefore).1, ?_⟩
    rw [not_or] at hplain
    simpa [isSign, hplain.1, hplain.2] using hsign

theorem strippedText_of_noLike (hL : KeepsSigns L) {query : CodeUnits}
    (h : ∀ unit ∈ query, isLikeUnit unit = false) :
    strippedText L query = searchText L query := by
  rw [strippedText, searchText, List.filter_eq_self.mpr]
  intro unit hunit
  cases hlike : isLikeUnit unit with
  | false => rfl
  | true =>
      have hsign : isSign unit = true := by simp [isSign, hlike]
      rw [h unit (sign_of_mem_collapse hL hsign hunit)] at hlike
      cases hlike

/-- A token that is the email is the whole text: a text of more words has
white space in it, and an apostrophe that is not plain stays one. -/
theorem email_of_token (hL : KeepsSigns L) {query token : CodeUnits}
    (htoken : token ∈ searchTokens L (searchText L query))
    (heq : L.toLowerCase (trim token) = L.toLowerCase query) :
    L.toLowerCase (trim (searchText L query)) = L.toLowerCase query := by
  obtain ⟨part, hpart, hfold⟩ := mem_searchTokens htoken
  have hpart_space : (part.map plainApostrophe).any isSpaceUnit = false := by
    rw [List.any_eq_false]
    intro unit hunit
    obtain ⟨before, hbefore, rfl⟩ := List.mem_map.mp hunit
    obtain ⟨hmem, hblank⟩ := mem_of_mem_splitOn hpart hbefore
    unfold plainApostrophe
    split
    next => decide
    next =>
      rcases mem_collapse (List.mem_of_mem_take hmem) with h | ⟨-, h⟩
      · exact absurd h hblank
      · rw [h]
        exact Bool.false_ne_true
  have htoken_space : token.any isSpaceUnit = false := by
    rw [hfold, foldSearchNameToken, hL.locale, hL.any_lower_space]
    exact hpart_space
  rw [trim_of_no_space htoken_space] at heq
  have hnfc_space : (L.nfc query).any isSpaceUnit = false := by
    rw [hL.nfc_space, ← hL.any_lower_space, ← heq, hL.any_lower_space]
    exact htoken_space
  have hnfc := collapse_of_no_space hnfc_space
  have hnone : ∀ unit ∈ searchText L query, isSpaceUnit unit = false := by
    intro unit hunit
    rw [searchText, hnfc] at hunit
    exact eq_false_of_ne_true
      (List.any_eq_false.mp hnfc_space unit (List.mem_of_mem_take hunit))
  have hwhole : part = searchText L query := by
    have hblank : blank ∉ searchText L query := fun h =>
      absurd (hnone blank h) (by decide)
    rw [List.splitOn_eq_singleton hblank] at hpart
    exact List.mem_singleton.mp hpart
  have hplain : (searchText L query).map plainApostrophe =
      searchText L query := by
    conv_rhs => rw [← List.map_id (searchText L query)]
    refine List.map_congr_left fun unit hunit => ?_
    unfold plainApostrophe
    split
    next hcurly =>
      have hsign : isSign unit = true := by
        rcases hcurly with rfl | rfl
        · decide
        · decide
      have hquery := sign_of_mem_collapse hL hsign (List.mem_of_mem_take hunit)
      rw [← hL.lower_sign hsign, ← heq, hL.lower_sign hsign] at hquery
      obtain ⟨-, hlike⟩ := sign_of_mem_token hL htoken hsign hquery
      rcases hcurly with rfl | rfl
      · exact absurd hlike (by decide)
      · exact absurd hlike (by decide)
    next => rfl
  have hlower : token = L.toLowerCase (searchText L query) := by
    rw [hfold, foldSearchNameToken, hL.locale, hwhole, foldSearchApostrophes,
      hplain]
  have htrim : trim (searchText L query) = searchText L query :=
    trim_of_no_space (List.any_eq_false.mpr fun unit hunit => by
      rw [hnone unit hunit]
      exact Bool.false_ne_true)
  rw [htrim, ← heq, hlower, hL.lower_lower]

/-- What is typed is an email of which nothing is lost, when the email is among
what the service compares with. -/
theorem emailKept_of_eq (hL : KeepsSigns L) {query : CodeUnits}
    {prepared : PreparedTokens}
    (hprepared : prepareSearchQuery L query = some prepared)
    (h : canonicalizeEmail L prepared.queryNormalized =
        some (L.toLowerCase query) ∨
      ∃ token ∈ prepared.tokens,
        canonicalizeEmail L token = some (L.toLowerCase query)) :
    EmailKept L query := by
  obtain ⟨-, hword, rfl⟩ := (prepareSearchQuery_eq_some hL).mp hprepared
  dsimp only at h
  have hlike : ∀ unit ∈ query, isLikeUnit unit = false := by
    intro unit hunit
    by_contra htrue
    have htrue := eq_true_of_ne_false htrue
    have hsign : isSign unit = true := by simp [isSign, htrue]
    have hstripped : unit ∈ strippedText L query := by
      rw [← hL.lower_sign hsign] at hunit
      rcases h with h | ⟨token, htoken, h⟩
      · rw [← canonicalizeEmail_eq_some h, hL.lower_sign hsign] at hunit
        exact mem_of_mem_trim hunit
      · rw [← canonicalizeEmail_eq_some h, hL.lower_sign hsign] at hunit
        exact (sign_of_mem_token hL htoken hsign (mem_of_mem_trim hunit)).1
    have hclean := (List.mem_filter.mp (List.mem_of_mem_take hstripped)).2
    rw [htrue] at hclean
    cases hclean
  have hsame := strippedText_of_noLike hL hlike
  rw [hsame] at hword h
  refine ⟨hlike, hword, ?_⟩
  rcases h with h | ⟨token, htoken, h⟩
  · exact canonicalizeEmail_eq_some h
  · exact email_of_token hL htoken (canonicalizeEmail_eq_some h)

theorem EmailKept.prepared (hL : KeepsSigns L) {query : CodeUnits}
    (h : EmailKept L query) : ∃ prepared,
      prepareSearchQuery L query = some prepared ∧
      canonicalizeEmail L prepared.queryNormalized =
        some (L.toLowerCase query) := by
  obtain ⟨hlike, hword, hlower⟩ := h
  have hsame := strippedText_of_noLike hL hlike
  have hcollapse : L.hasLetterOrDigit (collapseSearchWhitespace L query) =
      true := by
    rw [← List.take_append_drop searchQueryMax
      (collapseSearchWhitespace L query)]
    exact hL.word_append _ (hL.word_folded hword)
  refine ⟨_, (prepareSearchQuery_eq_some hL).mpr
    ⟨hcollapse, by rwa [hsame], rfl⟩, ?_⟩
  dsimp only
  have hne : L.toLowerCase query ≠ [] := by
    rw [← hlower]
    intro hnil
    have hspace := all_space_of_trim (hL.lower_eq_nil hnil)
    have hfolded := hL.word_folded hword
    rw [hL.word_space hspace] at hfolded
    cases hfolded
  rw [hsame, canonicalizeEmail, hlower, if_neg hne]

/-! ## Digits

Digits are read through everything else, as long as the cut is behind them. -/

/-- None of the digits of the text is cut off. -/
def DigitsKept (L : SearchLanguage) (query : CodeUnits) : Prop :=
  (strippedText L query).filter isDigitUnit = query.filter isDigitUnit

theorem digits_strippedText (hL : KeepsSigns L) (query : CodeUnits) :
    (strippedText L query).filter isDigitUnit <+:
      query.filter isDigitUnit := by
  have hclean : ((collapseSearchWhitespace L query).filter fun unit =>
      !isLikeUnit unit).filter isDigitUnit = query.filter isDigitUnit := by
    rw [List.filter_filter, ← digits_collapse hL]
    refine List.filter_congr fun unit _ => ?_
    cases hdigit : isDigitUnit unit with
    | false => rfl
    | true =>
        have hsign := (of_isDigitUnit hdigit).2
        rw [isSign, Bool.or_eq_false_iff, Bool.or_eq_false_iff] at hsign
        rw [hsign.1.1]
        rfl
  rw [← hclean, strippedText]
  exact (List.take_prefix _ _).filter _

theorem digits_foldSearchNameToken (hL : KeepsSigns L) (text : CodeUnits) :
    (foldSearchNameToken L text).filter isDigitUnit =
      text.filter isDigitUnit := by
  have hsame : text.filter (isDigitUnit ∘ plainApostrophe) =
      text.filter isDigitUnit := by
    refine List.filter_congr fun unit _ => ?_
    rw [Function.comp_apply, plainApostrophe]
    split
    next hcurly =>
      rcases hcurly with rfl | rfl
      · rfl
      · rfl
    next => rfl
  rw [foldSearchNameToken, hL.locale, hL.lower_digits, foldSearchApostrophes,
    List.filter_map, hsame]
  conv_rhs => rw [← List.map_id (text.filter isDigitUnit)]
  refine List.map_congr_left fun unit hunit => ?_
  have hsign := (of_isDigitUnit (List.mem_filter.mp hunit).2).2
  rw [isSign, Bool.or_eq_false_iff, Bool.or_eq_false_iff,
    decide_eq_false_iff_not, decide_eq_false_iff_not] at hsign
  rw [plainApostrophe, if_neg (not_or.mpr ⟨hsign.1.2, hsign.2⟩)]
  rfl

theorem DigitsKept.prepared (hL : KeepsSigns L) {query : CodeUnits}
    (h : DigitsKept L query) (hne : query.filter isDigitUnit ≠ []) :
    ∃ prepared, prepareSearchQuery L query = some prepared ∧
      prepared.queryNormalized.filter isDigitUnit =
        query.filter isDigitUnit := by
  have hword : ∀ {text : CodeUnits}, text.filter isDigitUnit ≠ [] →
      L.hasLetterOrDigit (foldSearchNameToken L text) = true := by
    intro text htext
    rw [← digits_foldSearchNameToken hL] at htext
    obtain ⟨unit, hunit⟩ := List.exists_mem_of_ne_nil _ htext
    obtain ⟨hmem, hdigit⟩ := List.mem_filter.mp hunit
    exact hL.word_digit (List.any_eq_true.mpr ⟨unit, hmem, hdigit⟩)
  refine ⟨_, (prepareSearchQuery_eq_some hL).mpr ⟨?_, ?_, rfl⟩, h⟩
  · exact hL.word_folded (hword (by rwa [digits_collapse hL]))
  · exact hword (by rwa [h])

/-- `380…` for `0…`, of digits. -/
def canonicalDigits (digits : CodeUnits) : CodeUnits :=
  if codeUnits "0" <+: digits then codeUnits "380" ++ digits.drop 1
  else digits

theorem length_canonicalDigits (digits : CodeUnits) :
    digits.length ≤ (canonicalDigits digits).length := by
  unfold canonicalDigits
  split
  next =>
    have hprefix : (codeUnits "380").length = 3 := rfl
    rw [List.length_append, List.length_drop, hprefix]
    omega
  next => exact le_rfl

theorem sanitizeLikeLiteral_canonicalDigits {text : CodeUnits}
    (hne : text.filter isDigitUnit ≠ []) :
    Catalog.sanitizeLikeLiteral
        (canonicalDigits (text.filter isDigitUnit)) =
      some (canonicalDigits (text.filter isDigitUnit)) := by
  have hdigits : ∀ unit ∈ canonicalDigits (text.filter isDigitUnit),
      isDigitUnit unit = true := by
    have hprefix : ∀ unit ∈ codeUnits "380", isDigitUnit unit = true :=
      List.all_eq_true.mp (by decide)
    intro unit hunit
    unfold canonicalDigits at hunit
    split at hunit
    next =>
      rcases List.mem_append.mp hunit with hunit | hunit
      · exact hprefix unit hunit
      · exact (List.mem_filter.mp (List.mem_of_mem_drop hunit)).2
    next => exact (List.mem_filter.mp hunit).2
  have hclean : (canonicalDigits (text.filter isDigitUnit)).filter
      (fun unit => unit ∉ codeUnits "\\%_") =
        canonicalDigits (text.filter isDigitUnit) := by
    refine List.filter_eq_self.mpr fun unit hunit => ?_
    have hsign := (of_isDigitUnit (hdigits unit hunit)).2
    rw [isSign, Bool.or_eq_false_iff, Bool.or_eq_false_iff] at hsign
    exact decide_eq_true (of_decide_eq_false hsign.1.1)
  have hlength := length_canonicalDigits (text.filter isDigitUnit)
  have hcanonical : canonicalDigits (text.filter isDigitUnit) ≠ [] := by
    intro hnil
    rw [hnil, List.length_nil] at hlength
    exact hne (List.eq_nil_of_length_eq_zero (Nat.le_zero.mp hlength))
  rw [Catalog.sanitizeLikeLiteral, hclean, if_neg hcanonical]

theorem canonicalizePhoneDigits_eq_some {raw canonical : CodeUnits} :
    canonicalizePhoneDigits raw = some canonical ↔
      raw.filter isDigitUnit ≠ [] ∧
        canonical = canonicalDigits (raw.filter isDigitUnit) ∧
        searchPhoneMinDigits ≤ canonical.length := by
  unfold canonicalizePhoneDigits canonicalDigits
  dsimp only
  by_cases hnil : raw.filter isDigitUnit = []
  · rw [if_pos hnil]
    exact iff_of_false nofun fun h => h.1 hnil
  · rw [if_neg hnil]
    generalize (if codeUnits "0" <+: raw.filter isDigitUnit then
      codeUnits "380" ++ (raw.filter isDigitUnit).drop 1
      else raw.filter isDigitUnit) = digits
    by_cases hshort : digits.length < searchPhoneMinDigits
    · rw [if_pos hshort]
      refine iff_of_false nofun ?_
      rintro ⟨-, rfl, hlong⟩
      omega
    · rw [if_neg hshort, Option.some.injEq]
      constructor
      · rintro rfl
        exact ⟨hnil, rfl, by omega⟩
      · exact fun h => h.2.1.symm

theorem canonicalPhoneSql_eq (phone : Option CodeUnits) :
    canonicalPhoneSql phone = canonicalDigits (digitsSql phone) := by
  unfold canonicalPhoneSql canonicalDigits Search.startsWith
  simp only [decide_eq_true_eq]

/-- Of digits and the first of them the canonical forms differ in length. -/
theorem eq_of_canonicalDigits {digits more : CodeUnits} (hne : digits ≠ [])
    (h : digits <+: more)
    (heq : canonicalDigits digits = canonicalDigits more) :
    digits = more := by
  obtain ⟨first, digits, rfl⟩ := List.exists_cons_of_ne_nil hne
  obtain ⟨rest, rfl⟩ := h
  have hzero : ∀ text : CodeUnits,
      codeUnits "0" <+: first :: text ↔ first = 48 := by
    intro text
    rw [show codeUnits "0" = [48] from by decide, List.cons_prefix_cons]
    exact ⟨fun h => h.1.symm, fun h => ⟨h.symm, List.nil_prefix⟩⟩
  have hlength := congrArg List.length heq
  unfold canonicalDigits at hlength
  rw [List.cons_append] at hlength ⊢
  simp only [hzero] at hlength
  have hnil : rest = [] := by
    split at hlength
    next =>
      simp only [List.drop_succ_cons, List.drop_zero, List.length_append]
        at hlength
      exact List.eq_nil_of_length_eq_zero (by omega)
    next =>
      simp only [List.length_cons, List.length_append] at hlength
      exact List.eq_nil_of_length_eq_zero (by omega)
  rw [hnil, List.append_nil]

theorem digitsKept_of_phone (hL : KeepsSigns L) {query : CodeUnits}
    {prepared : PreparedTokens}
    (hprepared : prepareSearchQuery L query = some prepared)
    (h : canonicalizePhoneDigits prepared.queryNormalized =
      some (canonicalDigits (query.filter isDigitUnit))) :
    DigitsKept L query := by
  obtain ⟨-, -, rfl⟩ := (prepareSearchQuery_eq_some hL).mp hprepared
  obtain ⟨hne, hcanonical, -⟩ := canonicalizePhoneDigits_eq_some.mp h
  exact eq_of_canonicalDigits hne (digits_strippedText hL query)
    hcanonical.symm

theorem canonicalizeEdrpou_eq_some {raw digits : CodeUnits} :
    canonicalizeEdrpou raw = some digits ↔
      digits ≠ [] ∧ raw.filter isDigitUnit = digits := by
  unfold canonicalizeEdrpou
  dsimp only
  by_cases hnil : raw.filter isDigitUnit = []
  · rw [if_pos hnil]
    refine iff_of_false nofun ?_
    rintro ⟨hne, rfl⟩
    exact hne hnil
  · rw [if_neg hnil, Option.some.injEq]
    constructor
    · rintro rfl
      exact ⟨hnil, rfl⟩
    · exact fun h => h.2

/-- A token has no more digits than the text. -/
theorem length_digits_token (hL : KeepsSigns L) {text token : CodeUnits}
    (h : token ∈ searchTokens L text) :
    (token.filter isDigitUnit).length ≤ (text.filter isDigitUnit).length := by
  obtain ⟨part, hpart, rfl⟩ := mem_searchTokens h
  rw [digits_foldSearchNameToken hL]
  rw [List.splitOn_eq_splitOnP] at hpart
  have hsublist := (List.sublist_flatten_of_mem hpart).trans
    (flatten_splitOnP text ▸ List.filter_sublist)
  exact (hsublist.filter _).length_le

theorem digitsKept_of_edrpou (hL : KeepsSigns L) {query : CodeUnits}
    {prepared : PreparedTokens}
    (hprepared : prepareSearchQuery L query = some prepared)
    (h : canonicalizeEdrpou prepared.queryNormalized =
        some (query.filter isDigitUnit) ∨
      ∃ token ∈ prepared.tokens,
        canonicalizeEdrpou token = some (query.filter isDigitUnit)) :
    DigitsKept L query := by
  obtain ⟨-, -, rfl⟩ := (prepareSearchQuery_eq_some hL).mp hprepared
  rcases h with h | ⟨token, htoken, h⟩
  · exact (canonicalizeEdrpou_eq_some.mp h).2
  · have hlength := length_digits_token hL htoken
    rw [(canonicalizeEdrpou_eq_some.mp h).2] at hlength
    exact (digits_strippedText hL query).eq_of_length_le hlength

end Shozee.Customers
