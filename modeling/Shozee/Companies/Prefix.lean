import Mathlib.Data.Finset.Card
import Mathlib.Data.Nat.Digits.Lemmas
import Shozee.Run.Text

/-!
# The prefix of a company's numbers

A company's orders and documents are numbered under a prefix that is made of
its name (`companies/src/services/prefix.ts`): some initials, and a number
behind them when another company has the prefix already.

Whatever the name is, a prefix is of Latin capitals and digits, and not empty
(`isPrefix_of_pickAvailablePrefix`). And one is always found: the candidates
differ, and one more of them is tried than there are prefixes in use
(`pickAvailablePrefix_notMem`).
-/

namespace Shozee.Companies

open Shozee.Run

/-- What the language makes of a name. -/
structure NameLanguage where
  /-- `name.normalize("NFKD")`. -/
  nfkd : String → String
  /-- `\p{M}`. -/
  isMark : Char → Bool
  toUpperCase : String → String

/-- A company for which no prefix is left. -/
structure CoreInvariantError where
  message : String
deriving DecidableEq

/-- The prefix of a name without letters. -/
def PREFIX_FALLBACK_BASE : String := "CO"

/-- Of several words, this many give a letter. -/
def PREFIX_WORD_INITIALS_MAX : ℕ := 3

/-- A single word gives this many letters. -/
def PREFIX_SINGLE_WORD_CHARS : ℕ := 2

/-- `[A-Z0-9]`. -/
def isPrefixChar (c : Char) : Bool :=
  ('A' ≤ c && c ≤ 'Z') || ('0' ≤ c && c ≤ '9')

/-- `folded.match(/[A-Z0-9]+/gu)`. -/
def prefixWords (folded : List Char) : List (List Char) :=
  (folded.splitOnP fun c => !isPrefixChar c).filter (· ≠ [])

/-- The beginning of a company's prefix, from its name. -/
def derivePrefixBase (L : NameLanguage) (name : String) : String :=
  let unmarked := (L.nfkd name).toList.filter fun c => !L.isMark c
  let folded := L.toUpperCase (String.ofList unmarked)
  match prefixWords folded.toList with
  | [] => PREFIX_FALLBACK_BASE
  | [first] => String.ofList (first.take PREFIX_SINGLE_WORD_CHARS)
  | words =>
      String.ofList
        ((words.take PREFIX_WORD_INITIALS_MAX).flatMap fun word => word.take 1)

/-- The `n`-th candidate, of which the base is the first. -/
def prefixCandidate (base : String) (suffix : ℕ) : String :=
  base ++ toString suffix

/-- The loop over the suffixes from `suffix` on. -/
def scanPrefixes (base : String) (taken : Finset String) :
    (attempts suffix : ℕ) → Except CoreInvariantError String
  | 0, _ =>
      .error ⟨"prefix candidate scan for base \"" ++ base ++ "\" exhausted " ++
        toString (taken.card + 2) ++ " attempts"⟩
  | attempts + 1, suffix =>
      let candidate := prefixCandidate base suffix
      if candidate ∉ taken then .ok candidate
      else scanPrefixes base taken attempts (suffix + 1)

/-- The base if it is free, else the base with the first number that is. -/
def pickAvailablePrefix (base : String) (taken : Finset String) :
    Except CoreInvariantError String :=
  if base ∉ taken then .ok base
  else scanPrefixes base taken (taken.card + 1) 2

/-! ## Capitals and digits

Every candidate is of these signs, as the base is and the number behind it is.
-/

/-- What a prefix is made of. -/
structure IsPrefix (text : String) : Prop where
  nonempty : text.toList ≠ []
  chars : ∀ c ∈ text.toList, isPrefixChar c = true

theorem isPrefix_fallback : IsPrefix PREFIX_FALLBACK_BASE where
  nonempty := by decide
  chars := List.all_eq_true.mp (by decide)

theorem mem_prefixWords {folded word : List Char}
    (h : word ∈ prefixWords folded) :
    word ≠ [] ∧ ∀ c ∈ word, isPrefixChar c = true := by
  obtain ⟨hword, hne⟩ := List.mem_filter.mp h
  refine ⟨of_decide_eq_true hne, fun c hc => ?_⟩
  simpa using of_mem_splitOnP hword hc

/-- The first characters of some words. -/
theorem isPrefix_ofList {words : List (List Char)} {n : ℕ} (hn : n ≠ 0)
    (hwords : ∀ word ∈ words,
      word ≠ [] ∧ ∀ c ∈ word, isPrefixChar c = true) (hne : words ≠ []) :
    IsPrefix (String.ofList (words.flatMap fun word => word.take n)) where
  nonempty := by
    obtain ⟨word, rest, rfl⟩ := List.exists_cons_of_ne_nil hne
    have hword := (hwords word List.mem_cons_self).1
    rw [String.toList_ofList, List.flatMap_cons]
    intro hnil
    rcases List.take_eq_nil_iff.mp (List.append_eq_nil_iff.mp hnil).1 with
      hzero | hword_nil
    · exact hn hzero
    · exact hword hword_nil
  chars c hc := by
    rw [String.toList_ofList] at hc
    obtain ⟨word, hword, hmem⟩ := List.mem_flatMap.mp hc
    exact (hwords word hword).2 c (List.mem_of_mem_take hmem)

theorem isPrefix_derivePrefixBase (L : NameLanguage) (name : String) :
    IsPrefix (derivePrefixBase L name) := by
  unfold derivePrefixBase
  dsimp only
  generalize hwords : prefixWords _ = words
  have hmem : ∀ word ∈ words,
      word ≠ [] ∧ ∀ c ∈ word, isPrefixChar c = true := by
    rw [← hwords]
    exact fun word => mem_prefixWords
  split
  next => exact isPrefix_fallback
  next first =>
    have hfirst := isPrefix_ofList (n := PREFIX_SINGLE_WORD_CHARS)
      (by decide) hmem (List.cons_ne_nil _ _)
    rwa [List.flatMap_cons, List.flatMap_nil, List.append_nil] at hfirst
  next words hnil _ =>
    refine isPrefix_ofList (by decide) (fun word hword =>
      hmem word (List.mem_of_mem_take hword)) fun htake => ?_
    rcases List.take_eq_nil_iff.mp htake with hzero | hwords_nil
    · exact absurd hzero (by decide)
    · exact hnil hwords_nil

theorem toString_toList (n : ℕ) : (toString n).toList = Nat.toDigits 10 n := by
  show (Nat.repr n).toList = _
  simp [Nat.repr]

theorem isPrefixChar_of_isDigit {c : Char} (h : c.isDigit = true) :
    isPrefixChar c = true := by
  unfold isPrefixChar
  rw [Bool.or_eq_true]
  exact Or.inr (by simpa [Char.isDigit, Char.le_def] using h)

theorem IsPrefix.candidate {base : String} (h : IsPrefix base) (suffix : ℕ) :
    IsPrefix (prefixCandidate base suffix) where
  nonempty := by
    rw [prefixCandidate, String.toList_append]
    exact List.append_ne_nil_of_left_ne_nil h.nonempty _
  chars c hc := by
    rw [prefixCandidate, String.toList_append, List.mem_append,
      toString_toList] at hc
    rcases hc with hc | hc
    · exact h.chars c hc
    · exact isPrefixChar_of_isDigit (Nat.isDigit_of_mem_toDigits (by decide)
        (by decide) hc)

/-! ## Free candidates

No two candidates are equal. So of one more than there are prefixes taken, one
is free. -/

theorem scanPrefixes_eq_ok {base found : String} {taken : Finset String}
    {attempts suffix : ℕ}
    (h : scanPrefixes base taken attempts suffix = .ok found) :
    found ∉ taken ∧ ∃ n, found = prefixCandidate base n := by
  induction attempts generalizing suffix with
  | zero => cases h
  | succ attempts ih =>
      rw [scanPrefixes] at h
      split at h
      next hfree =>
        cases h
        exact ⟨hfree, suffix, rfl⟩
      next => exact ih h

/-- A scan that finds nothing has found every candidate taken. -/
theorem mem_of_scanPrefixes_error {base : String} {taken : Finset String}
    {attempts suffix : ℕ} {e : CoreInvariantError}
    (h : scanPrefixes base taken attempts suffix = .error e) {n : ℕ}
    (hlow : suffix ≤ n) (hhigh : n < suffix + attempts) :
    prefixCandidate base n ∈ taken := by
  induction attempts generalizing suffix with
  | zero => omega
  | succ attempts ih =>
      rw [scanPrefixes] at h
      split at h
      next => cases h
      next htaken =>
        by_cases heq : n = suffix
        · rw [heq]
          exact not_not.mp htaken
        · exact ih h (by omega) (by omega)

theorem prefixCandidate_injective (base : String) :
    Function.Injective (prefixCandidate base) := by
  intro n m h
  have hlist := congrArg String.toList h
  rw [prefixCandidate, prefixCandidate, String.toList_append,
    String.toList_append, List.append_right_inj, toString_toList,
    toString_toList] at hlist
  have hvalue := congrArg (fun digits => Nat.ofDigitChars 10 digits 0) hlist
  simpa only [Nat.ofDigitChars_ten_toDigits] using hvalue

/-- A free prefix is found, whatever prefixes are taken. -/
theorem pickAvailablePrefix_notMem (base : String) (taken : Finset String) :
    ∃ found, pickAvailablePrefix base taken = .ok found ∧ found ∉ taken := by
  unfold pickAvailablePrefix
  split
  next hfree => exact ⟨base, rfl, hfree⟩
  next =>
    cases hscan : scanPrefixes base taken (taken.card + 1) 2 with
    | ok found => exact ⟨found, rfl, (scanPrefixes_eq_ok hscan).1⟩
    | error e =>
        -- All of them taken, there are more of them than prefixes in use.
        have hsubset : (Finset.Ico 2 (2 + (taken.card + 1))).image
            (prefixCandidate base) ⊆ taken := by
          intro candidate hcandidate
          obtain ⟨n, hn, rfl⟩ := Finset.mem_image.mp hcandidate
          obtain ⟨hlow, hhigh⟩ := Finset.mem_Ico.mp hn
          exact mem_of_scanPrefixes_error hscan hlow hhigh
        have hcard := Finset.card_le_card hsubset
        rw [Finset.card_image_of_injective _ (prefixCandidate_injective base),
          Nat.card_Ico] at hcard
        omega

theorem isPrefix_of_pickAvailablePrefix {L : NameLanguage}
    {name found : String} {taken : Finset String}
    (h : pickAvailablePrefix (derivePrefixBase L name) taken = .ok found) :
    IsPrefix found := by
  have hbase := isPrefix_derivePrefixBase L name
  unfold pickAvailablePrefix at h
  split at h
  next =>
    cases h
    exact hbase
  next =>
    obtain ⟨-, n, rfl⟩ := scanPrefixes_eq_ok h
    exact hbase.candidate n

end Shozee.Companies
