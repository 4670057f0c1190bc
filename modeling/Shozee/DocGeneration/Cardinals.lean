import Mathlib.Tactic.IntervalCases
import Shozee.DocGeneration.AmountInWords
import Shozee.Run.Numerals
import Shozee.Run.Text

/-!
# Cardinals in Ukrainian

The numbers up to nineteen, the tens and the hundreds have names, two of which
have a feminine form. A number below a thousand is said by the greatest names
that fit (`Run.Said`); a larger one in groups, each with the noun of its scale,
in the form that the last two digits of the group ask for (`Cardinal`).

`integerToUkWords` says its number like this, with feminine units
(`integerToUkWords_eq`).
-/

namespace Shozee.DocGeneration

open Shozee.Run

/-! ## Names

The numbers that have a name, and the noun that a number asks for. -/

/-- The numbers that have a word of their own. -/
def UkNumeral (a : ℕ) : Prop :=
  (1 ≤ a ∧ a ≤ 19) ∨ (a % 10 = 0 ∧ 20 ≤ a ∧ a ≤ 90) ∨
    (a % 100 = 0 ∧ 100 ≤ a ∧ a ≤ 900)

instance : DecidablePred UkNumeral := fun a =>
  inferInstanceAs (Decidable ((1 ≤ a ∧ a ≤ 19) ∨
    (a % 10 = 0 ∧ 20 ≤ a ∧ a ≤ 90) ∨ (a % 100 = 0 ∧ 100 ≤ a ∧ a ≤ 900)))

theorem UkNumeral.mem {a : ℕ} (h : UkNumeral a) :
    a ∈ List.range' 1 19 ++ List.range' 20 8 10 ++ List.range' 100 9 100 := by
  rw [List.mem_append, List.mem_append, List.mem_range'_1, List.mem_range',
    List.mem_range']
  rcases h with h | h | h
  · exact .inl (.inl ⟨h.1, by omega⟩)
  · exact .inl (.inr ⟨(a - 20) / 10, by omega, by omega⟩)
  · exact .inr ⟨(a - 100) / 100, by omega, by omega⟩

/-- Those words, in the masculine. -/
def lexicon : List (ℕ × Text) :=
  [(1, "один"), (2, "два"), (3, "три"), (4, "чотири"), (5, "п'ять"),
    (6, "шість"), (7, "сім"), (8, "вісім"), (9, "дев'ять"), (10, "десять"),
    (11, "одинадцять"), (12, "дванадцять"), (13, "тринадцять"),
    (14, "чотирнадцять"), (15, "п'ятнадцять"), (16, "шістнадцять"),
    (17, "сімнадцять"), (18, "вісімнадцять"), (19, "дев'ятнадцять"),
    (20, "двадцять"), (30, "тридцять"), (40, "сорок"), (50, "п'ятдесят"),
    (60, "шістдесят"), (70, "сімдесят"), (80, "вісімдесят"),
    (90, "дев'яносто"), (100, "сто"), (200, "двісті"), (300, "триста"),
    (400, "чотириста"), (500, "п'ятсот"), (600, "шістсот"), (700, "сімсот"),
    (800, "вісімсот"), (900, "дев'ятсот")].map fun (a, word) =>
      (a, word.toList)

/-- One and two have a feminine form. -/
def numeral (gender : WordGender) (a : ℕ) : Text :=
  if gender = .fem ∧ a = 1 then "одна".toList
  else if gender = .fem ∧ a = 2 then "дві".toList
  else (lexicon.lookup a).getD []

/-- The forms of a noun after one, after a few and after many. -/
structure CountForms where
  one : Text
  few : Text
  many : Text

/-- Eleven to fourteen are many; otherwise the last digit decides. -/
def CountForms.after (forms : CountForms) (n : ℕ) : Text :=
  if n % 100 = 11 ∨ n % 100 = 12 ∨ n % 100 = 13 ∨ n % 100 = 14 then forms.many
  else if n % 10 = 1 then forms.one
  else if n % 10 = 2 ∨ n % 10 = 3 ∨ n % 10 = 4 then forms.few
  else forms.many

/-- The currency as it is counted. -/
def hryvnia : CountForms :=
  ⟨"гривня".toList, "гривні".toList, "гривень".toList⟩

/-- Its hundredth as it is counted. -/
def kopiyka : CountForms :=
  ⟨"копійка".toList, "копійки".toList, "копійок".toList⟩

/-- A scale, with the gender of its noun. -/
structure Scale where
  worth : ℕ
  gender : WordGender
  forms : CountForms

/-- Thousands, a feminine noun. -/
def thousand : Scale :=
  ⟨1000, .fem, ⟨"тисяча".toList, "тисячі".toList, "тисяч".toList⟩⟩

/-- Millions, a masculine noun. -/
def million : Scale :=
  ⟨1000000, .masc, ⟨"мільйон".toList, "мільйони".toList, "мільйонів".toList⟩⟩

/-- Milliards, a masculine noun. -/
def billion : Scale :=
  ⟨1000000000, .masc,
    ⟨"мільярд".toList, "мільярди".toList, "мільярдів".toList⟩⟩

/-- Words stand between blanks. -/
def IsWord (word : Text) : Prop := word ≠ [] ∧ ' ' ∉ word

instance : DecidablePred IsWord := fun word =>
  inferInstanceAs (Decidable (word ≠ [] ∧ ' ' ∉ word))

/-- The numerals and the nouns counted with them are words. -/
theorem lexicon_isWord :
    (∀ a ∈ List.range' 1 19 ++ List.range' 20 8 10 ++ List.range' 100 9 100,
      IsWord (numeral .masc a) ∧ IsWord (numeral .fem a)) ∧
    ∀ forms ∈ [thousand.forms, million.forms, billion.forms, hryvnia, kopiyka],
      IsWord forms.one ∧ IsWord forms.few ∧ IsWord forms.many := by
  decide +kernel

theorem isWord_numeral {gender : WordGender} {a : ℕ} (ha : UkNumeral a) :
    IsWord (numeral gender a) := by
  cases gender with
  | masc => exact (lexicon_isWord.1 a ha.mem).1
  | fem => exact (lexicon_isWord.1 a ha.mem).2

/-- Every form of a noun is a word. -/
structure CountForms.AreWords (forms : CountForms) : Prop where
  one : IsWord forms.one
  few : IsWord forms.few
  many : IsWord forms.many

theorem areWords_of_mem {forms : CountForms}
    (h : forms ∈
      [thousand.forms, million.forms, billion.forms, hryvnia, kopiyka]) :
    forms.AreWords :=
  ⟨(lexicon_isWord.2 forms h).1, (lexicon_isWord.2 forms h).2.1,
    (lexicon_isWord.2 forms h).2.2⟩

theorem CountForms.AreWords.after {forms : CountForms} (h : forms.AreWords)
    (n : ℕ) : IsWord (forms.after n) := by
  unfold CountForms.after
  split
  · exact h.many
  · split
    · exact h.one
    · split
      · exact h.few
      · exact h.many

/-! ## Cardinals

What it is to say a number, without the tables of the code. -/

/-- A group of three digits and the noun of its scale; an empty group is not
said. -/
inductive Scale.SaysGroup (scale : Scale) : ℕ → List Text → Prop
  | empty : Scale.SaysGroup scale 0 []
  | said {n : ℕ} {said : List ℕ} (hpos : 0 < n)
      (hsaid : Said UkNumeral n said) :
      Scale.SaysGroup scale n
        (said.map (numeral scale.gender) ++ [scale.forms.after n])

/-- The words for a number that counts things of a gender. -/
inductive Cardinal (gender : WordGender) : ℕ → List Text → Prop
  | zero : Cardinal gender 0 ["нуль".toList]
  | groups {n : ℕ} {billions millions thousands : List Text} {rest : List ℕ}
      (hpos : 0 < n)
      (hbillions : billion.SaysGroup (n / 1000000000) billions)
      (hmillions : million.SaysGroup (n / 1000000 % 1000) millions)
      (hthousands : thousand.SaysGroup (n / 1000 % 1000) thousands)
      (hrest : Said UkNumeral (n % 1000) rest) :
      Cardinal gender n
        (billions ++ millions ++ thousands ++ rest.map (numeral gender))

/-! ## The tables

The code's tables have the names at their places. -/

/-- The name of a number, if it is not zero. -/
def named (gender : WordGender) (a : ℕ) : List Text :=
  if a = 0 then [] else [numeral gender a]

theorem present_hundred (gender : WordGender) {h : ℕ} (hlt : h < 10) :
    present HUNDREDS[h]? = named gender (100 * h) := by
  cases gender <;> interval_cases h <;> rfl

theorem present_ten (gender : WordGender) {t : ℕ} (hlt : t < 10)
    (ht : t ≠ 1) : present TENS[t]? = named gender (10 * t) := by
  cases gender <;> interval_cases t <;> first | rfl | exact absurd rfl ht

theorem present_one (gender : WordGender) {d : ℕ} (hlt : d < 10) :
    present (if gender = .fem then ONES_FEM else ONES_MASC)[d]? =
      named gender d := by
  cases gender <;> interval_cases d <;> rfl

theorem toList_teen (gender : WordGender) {r : ℕ} (h10 : 10 ≤ r)
    (h19 : r ≤ 19) : TEENS[r - 10]?.toList = named gender r := by
  cases gender <;> interval_cases r <;> rfl

/-! ## Groups

A group of three digits is said by the names that fit, and the code writes just
these. -/

theorem leads_hundreds {n : ℕ} (h100 : 100 ≤ n) (hlt : n < 1000) :
    GreatestFit UkNumeral (100 * (n / 100)) n where
  isNamed := Or.inr (Or.inr (by omega))
  fits := by omega
  greatest b hb hbn := by unfold UkNumeral at hb; omega

theorem leads_tens {n : ℕ} (h20 : 20 ≤ n) (hlt : n < 100) :
    GreatestFit UkNumeral (10 * (n / 10)) n where
  isNamed := Or.inr (Or.inl (by omega))
  fits := by omega
  greatest b hb hbn := by unfold UkNumeral at hb; omega

theorem leads_self {n : ℕ} (hpos : 1 ≤ n) (h19 : n ≤ 19) :
    GreatestFit UkNumeral n n where
  isNamed := Or.inl ⟨hpos, h19⟩
  fits := le_rfl
  greatest _ _ hbn := hbn

/-- What is said up to nineteen. -/
theorem said_small (gender : WordGender) {n : ℕ} (h19 : n ≤ 19) :
    ∃ said, Said UkNumeral n said ∧
      named gender n = said.map (numeral gender) := by
  rcases Nat.eq_zero_or_pos n with rfl | hpos
  · exact ⟨[], .nothing, rfl⟩
  · refine ⟨[n], .greatest (leads_self hpos h19) ?_, ?_⟩
    · rw [Nat.sub_self]
      exact .nothing
    · rw [named, if_neg (by omega)]
      rfl

/-- A name that leads is said first. -/
theorem said_named {gender : WordGender} {a n : ℕ} {words : List Text}
    (hlead : a ≠ 0 → GreatestFit UkNumeral a n)
    (hrest : ∃ said, Said UkNumeral (n - a) said ∧
      words = said.map (numeral gender)) :
    ∃ said, Said UkNumeral n said ∧
      named gender a ++ words = said.map (numeral gender) := by
  obtain ⟨said, hsaid, rfl⟩ := hrest
  by_cases ha : a = 0
  · subst ha
    exact ⟨said, hsaid, rfl⟩
  · refine ⟨a :: said, .greatest (hlead ha) hsaid, ?_⟩
    rw [named, if_neg ha]
    rfl

/-- The words for a group of three digits are the names of what is said of
it. -/
theorem triadParts_eq (gender : WordGender) {n : ℕ} (hlt : n < 1000) :
    ∃ said, Said UkNumeral n said ∧
      triadParts n gender = said.map (numeral gender) := by
  simp only [triadParts]
  rw [present_hundred gender (by omega : n / 100 < 10)]
  have hleads : 100 * (n / 100) ≠ 0 → GreatestFit UkNumeral (100 * (n / 100)) n :=
    fun h => leads_hundreds (by omega) hlt
  have hleft : n - 100 * (n / 100) = n % 100 := by omega
  split
  next h =>
    rw [toList_teen gender h.1 h.2]
    apply said_named hleads
    rw [hleft]
    exact said_small gender h.2
  next h =>
    rw [present_ten gender (by omega : n % 100 / 10 < 10) (by omega),
      present_one gender (by omega : n % 100 % 10 < 10), List.append_assoc]
    apply said_named hleads
    rw [hleft]
    apply said_named fun h => leads_tens (by omega) (by omega)
    rw [show n % 100 - 10 * (n % 100 / 10) = n % 100 % 10 by omega]
    exact said_small gender (by omega)

theorem isWord_of_said {gender : WordGender} {n : ℕ} {said : List ℕ}
    (hsaid : Said UkNumeral n said) :
    ∀ word ∈ said.map (numeral gender), IsWord word := by
  intro word hmem
  obtain ⟨a, ha, rfl⟩ := List.mem_map.mp hmem
  exact isWord_numeral (hsaid.named_of_mem a ha)

theorem triadWords_eq_nil (gender : WordGender) {n : ℕ} (hlt : n < 1000) :
    triadWords n gender = [] ↔ n = 0 := by
  obtain ⟨said, hsaid, hparts⟩ := triadParts_eq gender hlt
  rw [triadWords, hparts, join, intercalate_eq_nil
    fun word hmem => (isWord_of_said hsaid word hmem).1, List.map_eq_nil_iff]
  constructor
  · rintro rfl
    exact hsaid.sum_eq.symm
  · rintro rfl
    cases hsaid with
    | nothing => rfl
    | greatest h _ =>
        have hfits := h.fits
        have hnamed := h.isNamed
        unfold UkNumeral at hnamed
        omega

/-! ## Nouns

The form of a noun depends on the last two digits. -/

/-- The forms in the order the tables have them. -/
def CountForms.table (forms : CountForms) : List Text :=
  [forms.many, forms.one, forms.few]

theorem slavicFormIndex_eq (n : ℕ) :
    slavicFormIndex n =
      if n % 100 = 11 ∨ n % 100 = 12 ∨ n % 100 = 13 ∨ n % 100 = 14 then 0
      else if n % 10 = 1 then 1
      else if n % 10 = 2 ∨ n % 10 = 3 ∨ n % 10 = 4 then 2
      else 0 := by
  simp only [slavicFormIndex]
  split_ifs <;> omega

theorem formOf_table (forms : CountForms) (n : ℕ) :
    formOf forms.table n = forms.after n := by
  rw [formOf, slavicFormIndex_eq, CountForms.after, CountForms.table]
  split
  · rfl
  · split
    · rfl
    · split <;> rfl

theorem join_singleton (word : Text) : join [word] = word :=
  List.intercalate_singleton

theorem join_append {words more : List Text} (h : words ≠ [])
    (hmore : more ≠ []) :
    join (words ++ more) = join words ++ ' ' :: join more := by
  rw [join, intercalate_append _ h hmore, List.append_assoc]
  rfl

/-- A chunk is the words for its group. -/
theorem scaleChunk_eq (scale : Scale) (hforms : scale.forms.AreWords) {n : ℕ}
    (hlt : n < 1000) :
    ∃ words, scale.SaysGroup n words ∧ (∀ word ∈ words, IsWord word) ∧
      scaleChunk n scale.gender scale.forms.table = join words := by
  unfold scaleChunk
  by_cases hzero : n = 0
  · refine ⟨[], hzero ▸ .empty, fun _ h => absurd h List.not_mem_nil, ?_⟩
    have hnil := (triadWords_eq_nil scale.gender hlt).mpr hzero
    simp only [hnil, List.length_nil, if_true]
    rfl
  · obtain ⟨said, hsaid, hparts⟩ := triadParts_eq scale.gender hlt
    have hsome := mt (triadWords_eq_nil scale.gender hlt).mp hzero
    have hne := hsaid.ne_nil (Nat.pos_of_ne_zero hzero)
    refine ⟨_, .said (Nat.pos_of_ne_zero hzero) hsaid, ?_, ?_⟩
    · intro word hmem
      rcases List.mem_append.mp hmem with hmem | hmem
      · exact isWord_of_said hsaid word hmem
      · rw [List.mem_singleton.mp hmem]
        exact hforms.after n
    · have hlength : ¬ (triadWords n scale.gender).length = 0 :=
        mt List.length_eq_zero_iff.mp hsome
      simp only [hlength, if_false]
      rw [formOf_table, join_append (mt List.map_eq_nil_iff.mp hne)
        (List.cons_ne_nil _ _), triadWords, hparts, join_singleton]

theorem areWords_thousand : thousand.forms.AreWords :=
  areWords_of_mem (by simp)

theorem areWords_million : million.forms.AreWords :=
  areWords_of_mem (by simp)

theorem areWords_billion : billion.forms.AreWords :=
  areWords_of_mem (by simp)

/-! ## Numbers

Groups and nouns put together. -/

/-- The words for a number are its cardinal with feminine units. -/
theorem integerToUkWords_eq {n : ℕ} (hlt : n < 1000000000000) :
    ∃ words, Cardinal .fem n words ∧ (∀ word ∈ words, IsWord word) ∧
      integerToUkWords n = join words := by
  unfold integerToUkWords
  by_cases hzero : n = 0
  · rw [if_pos hzero, hzero]
    refine ⟨_, .zero, ?_, rfl⟩
    exact List.forall_mem_singleton.mpr (by decide)
  · obtain ⟨billions, hb, hbwords, hbchunk⟩ := scaleChunk_eq billion
      areWords_billion (by omega : n / 1000000000 < 1000)
    obtain ⟨millions, hm, hmwords, hmchunk⟩ := scaleChunk_eq million
      areWords_million (by omega : n / 1000000 % 1000 < 1000)
    obtain ⟨thousands, ht, htwords, htchunk⟩ := scaleChunk_eq thousand
      areWords_thousand (by omega : n / 1000 % 1000 < 1000)
    obtain ⟨rest, hr, hrparts⟩ := triadParts_eq .fem
      (by omega : n % 1000 < 1000)
    have hwords : ∀ group ∈ [billions, millions, thousands,
        rest.map (numeral .fem)], ∀ word ∈ group, IsWord word := by
      simp only [List.forall_mem_cons]
      exact ⟨hbwords, hmwords, htwords, isWord_of_said hr,
        fun _ h => absurd h List.not_mem_nil⟩
    have hjoin := intercalate_groups [' '] _
      fun group hgroup word hword => (hwords group hgroup word hword).1
    have hflat : billions ++ millions ++ thousands ++
        rest.map (numeral .fem) = [billions, millions, thousands,
          rest.map (numeral .fem)].flatten := by
      simp only [List.flatten_cons, List.flatten_nil, List.append_nil,
        List.append_assoc]
    refine ⟨_, .groups (Nat.pos_of_ne_zero hzero) hb hm ht hr, ?_, ?_⟩
    · intro word hmem
      rw [hflat] at hmem
      obtain ⟨group, hgroup, hword⟩ := List.mem_flatten.mp hmem
      exact hwords group hgroup word hword
    · rw [if_neg hzero, hflat]
      refine Eq.trans ?_ hjoin
      change _ = join (List.filter _ [join billions, join millions,
        join thousands, join (rest.map (numeral .fem))])
      rw [← hbchunk, ← hmchunk, ← htchunk, ← hrparts,
        show n / 1000000 % 1000 = n % 1000000000 / 1000000 by omega,
        show n / 1000 % 1000 = n % 1000000 / 1000 by omega]
      rfl

end Shozee.DocGeneration
