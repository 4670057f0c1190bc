import Mathlib.Tactic.IntervalCases
import Shozee.DocGeneration.Cardinals
import Shozee.Orders.Create

/-!
# Reading a sum back

`AmountSaid` is the sum of an invoice as it is said: the hryvnias as a cardinal
with their noun, and the kopiykas in two digits with theirs. A reader of it
adds up what the words are worth (`readAmount`), and a reader of the sum in
digits drops the blanks between the groups (`readMoney`). `uahAmountInWords`
and `formatMoneyUah` write the same amount.
-/

namespace Shozee.DocGeneration

open Shozee.Run
open Shozee.Orders (formatMoneyMinor formatMinorUnits groupThousands
  groupReversed)

/-! ## Words

Each word is worth something, and the words of a cardinal are worth its number.
-/

/-- The forms of a noun, each read as one token. -/
def CountForms.lexemes (forms : CountForms) (token : Token) :
    List (Text × Token) :=
  [(forms.one, token), (forms.few, token), (forms.many, token)]

/-- The forms of a scale. -/
def Scale.lexemes (scale : Scale) : List (Text × Token) :=
  scale.forms.lexemes (.scale scale.worth)

/-- What each word is worth. -/
def lexemes : List (Text × Token) :=
  (lexicon.map fun (a, word) => (word, .add a)) ++
    [("нуль".toList, .add 0), ("одна".toList, .add 1), ("дві".toList, .add 2)] ++
    thousand.lexemes ++ million.lexemes ++ billion.lexemes

/-- The token of a word. -/
def lexeme (word : Text) : Option Token := lexemes.lookup word

/-- The number that words stand for. -/
def readCardinal (words : List Text) : Option ℕ :=
  (words.mapM lexeme).map Token.value

/-- The words are worth these. -/
def Reads (words : List Text) (tokens : List Token) : Prop :=
  words.map lexeme = tokens.map some

theorem Reads.append {words more : List Text} {tokens moreTokens : List Token}
    (h : Reads words tokens) (hmore : Reads more moreTokens) :
    Reads (words ++ more) (tokens ++ moreTokens) := by
  rw [Reads, List.map_append, List.map_append, h, hmore]

theorem Reads.readCardinal {words : List Text} {tokens : List Token}
    (h : Reads words tokens) :
    readCardinal words = some (Token.value tokens) := by
  suffices hmap : words.mapM lexeme = some tokens by
    exact congrArg (Option.map Token.value) hmap
  induction words generalizing tokens with
  | nil =>
      rw [List.map_eq_nil_iff.mp h.symm]
      rfl
  | cons word words ih =>
      cases tokens with
      | nil => cases h
      | cons token tokens =>
          rw [List.mapM_cons, (List.cons.inj h).1, ih (List.cons.inj h).2]
          rfl

/-- Every form of a scale's noun is read as the scale. -/
structure Scale.Read (scale : Scale) : Prop where
  one : lexeme scale.forms.one = some (Token.scale scale.worth)
  few : lexeme scale.forms.few = some (Token.scale scale.worth)
  many : lexeme scale.forms.many = some (Token.scale scale.worth)

/-- The lexicon is evaluated once for all of its readings. -/
theorem lexicon_reads :
    (∀ a ∈ List.range' 1 19 ++ List.range' 20 8 10 ++ List.range' 100 9 100,
      lexeme (numeral .masc a) = some (.add a) ∧
        lexeme (numeral .fem a) = some (.add a)) ∧
    ∀ scale ∈ [thousand, million, billion],
      lexeme scale.forms.one = some (Token.scale scale.worth) ∧
        lexeme scale.forms.few = some (Token.scale scale.worth) ∧
        lexeme scale.forms.many = some (Token.scale scale.worth) := by
  decide +kernel

theorem reads_said {gender : WordGender} {n : ℕ} {said : List ℕ}
    (h : Said UkNumeral n said) :
    Reads (said.map (numeral gender)) (said.map Token.add) := by
  rw [Reads, List.map_map, List.map_map]
  apply List.map_congr_left
  intro a hmem
  have ha := (h.named_of_mem a hmem).mem
  cases gender with
  | masc => exact (lexicon_reads.1 a ha).1
  | fem => exact (lexicon_reads.1 a ha).2

theorem read_of_mem {scale : Scale}
    (h : scale ∈ [thousand, million, billion]) : scale.Read :=
  ⟨(lexicon_reads.2 scale h).1, (lexicon_reads.2 scale h).2.1,
    (lexicon_reads.2 scale h).2.2⟩

theorem Scale.Read.after {scale : Scale} (h : scale.Read) (n : ℕ) :
    lexeme (scale.forms.after n) = some (Token.scale scale.worth) := by
  unfold CountForms.after
  split
  · exact h.many
  · split
    · exact h.one
    · split
      · exact h.few
      · exact h.many

theorem read_thousand : thousand.Read := read_of_mem (List.mem_cons_self ..)

theorem read_million : million.Read :=
  read_of_mem (List.mem_cons_of_mem _ (List.mem_cons_self ..))

theorem read_billion : billion.Read :=
  read_of_mem
    (List.mem_cons_of_mem _ (List.mem_cons_of_mem _ (List.mem_singleton_self _)))

/-- A group adds what it counts of its scale. -/
theorem Scale.SaysGroup.reads {scale : Scale} (hread : scale.Read) {n : ℕ}
    {words : List Text} (h : scale.SaysGroup n words) :
    ∃ tokens, Reads words tokens ∧ ∀ total,
      tokens.foldl Token.next (total, 0) = (total + n * scale.worth, 0) := by
  cases h with
  | empty =>
      refine ⟨[], rfl, fun total => ?_⟩
      rw [Nat.zero_mul, Nat.add_zero]
      rfl
  | said _ hsaid =>
      have hnoun : Reads [scale.forms.after n] [.scale scale.worth] :=
        congrArg (fun token => [token]) (hread.after n)
      refine ⟨_, (reads_said hsaid).append hnoun, fun total => ?_⟩
      rw [foldl_group, hsaid.sum_eq]

/-- What is read is in the table. -/
theorem Reads.mem {words : List Text} {tokens : List Token}
    (h : Reads words tokens) {word : Text} (hmem : word ∈ words) :
    ∃ token, (word, token) ∈ lexemes := by
  have hsome : lexeme word ∈ tokens.map some :=
    h ▸ List.mem_map_of_mem hmem
  obtain ⟨token, _, htoken⟩ := List.mem_map.mp hsome
  obtain ⟨before, after, hlexemes, _⟩ := List.lookup_eq_some_iff.mp htoken.symm
  exact ⟨token, hlexemes ▸ List.mem_append_right _ List.mem_cons_self⟩

theorem Cardinal.reads {gender : WordGender} {n : ℕ} {words : List Text}
    (h : Cardinal gender n words) :
    ∃ tokens, Reads words tokens ∧ Token.value tokens = n := by
  cases h with
  | zero => exact ⟨[.add 0], rfl, rfl⟩
  | groups _ hb hm ht hr =>
      obtain ⟨billions, hbread, hbsum⟩ := hb.reads read_billion
      obtain ⟨millions, hmread, hmsum⟩ := hm.reads read_million
      obtain ⟨thousands, htread, htsum⟩ := ht.reads read_thousand
      refine ⟨_, ((hbread.append hmread).append htread).append (reads_said hr),
        ?_⟩
      simp only [Token.value, List.foldl_append]
      rw [hbsum, hmsum, htsum, foldl_add, hr.sum_eq]
      change 0 + n / 1000000000 * 1000000000 + n / 1000000 % 1000 * 1000000 +
        n / 1000 % 1000 * 1000 + (0 + n % 1000) = n
      omega

theorem Cardinal.ne_nil {gender : WordGender} {n : ℕ} {words : List Text}
    (h : Cardinal gender n words) : words ≠ [] := by
  rintro rfl
  obtain ⟨tokens, hreads, hvalue⟩ := h.reads
  rw [List.map_eq_nil_iff.mp hreads.symm] at hvalue
  generalize hwords : ([] : List Text) = words at h
  cases h with
  | zero => cases hwords
  | groups hpos _ _ _ _ => exact absurd hvalue (Nat.ne_of_lt hpos)

/-! ## Uniqueness

A number and a gender have one cardinal, as the greatest name that fits is
determined. -/

theorem not_ukNumeral_zero : ¬ UkNumeral 0 := by decide

theorem Scale.SaysGroup.unique {scale : Scale} {n : ℕ} {words more : List Text}
    (h : scale.SaysGroup n words) (hmore : scale.SaysGroup n more) :
    more = words := by
  cases h with
  | empty =>
      cases hmore with
      | empty => rfl
      | said hpos _ => exact absurd hpos (Nat.lt_irrefl 0)
  | said hpos hsaid =>
      cases hmore with
      | empty => exact absurd hpos (Nat.lt_irrefl 0)
      | said _ hsaid' => rw [hsaid.unique not_ukNumeral_zero hsaid']

/-- There is one cardinal of a number and a gender. -/
theorem Cardinal.unique {gender : WordGender} {n : ℕ} {words more : List Text}
    (h : Cardinal gender n words) (hmore : Cardinal gender n more) :
    more = words := by
  cases h with
  | zero =>
      cases hmore with
      | zero => rfl
      | groups hpos _ _ _ _ => exact absurd hpos (Nat.lt_irrefl 0)
  | groups hpos hb hm ht hr =>
      cases hmore with
      | zero => exact absurd hpos (Nat.lt_irrefl 0)
      | groups _ hb' hm' ht' hr' =>
          rw [hb.unique hb', hm.unique hm', ht.unique ht',
            hr.unique not_ukNumeral_zero hr']

/-! ## Sums

The words of an amount and the reader of them. -/

/-- How the sum of so many kopiykas is said. -/
inductive AmountSaid (amount : ℕ) : Text → Prop
  | said {words : List Text} (h : Cardinal .fem (amount / 100) words) :
      AmountSaid amount (join [capitalizeUk (join words),
        hryvnia.after (amount / 100),
        [(amount / 10 % 10).digitChar, (amount % 10).digitChar],
        kopiyka.after (amount % 100)])

theorem AmountSaid.unique {amount : ℕ} {text other : Text}
    (h : AmountSaid amount text) (hother : AmountSaid amount other) :
    other = text := by
  obtain ⟨hwords⟩ := h
  obtain ⟨hwords'⟩ := hother
  rw [hwords.unique hwords']

/-- A letter made small. -/
def lowerUk (c : Char) : Char :=
  if 'А' ≤ c ∧ c ≤ 'Я' then Char.ofNat (c.toNat + 32) else c

/-- A text with its first letter small. -/
def lowerFirstUk : Text → Text
  | [] => []
  | first :: rest => lowerUk first :: rest

/-- The number of two digits. -/
def readTwoDigits : Text → Option ℕ
  | [a, b] => if a.isDigit ∧ b.isDigit then some (numberOf [a, b]) else none
  | _ => none

/-- The words up to the noun of the hryvnias are a cardinal; the nouns must
have the forms their numbers ask for. -/
def readAmount (text : Text) : Option ℕ :=
  match ((lowerFirstUk text).splitOn ' ').reverse with
  | kopiykaNoun :: digits :: hryvniaNoun :: words => do
      let kopiyky ← readTwoDigits digits
      let hryvnias ← readCardinal words.reverse
      if hryvniaNoun = hryvnia.after hryvnias ∧
          kopiykaNoun = kopiyka.after kopiyky then
        return hryvnias * 100 + kopiyky
      else none
  | _ => none

theorem lexemes_words : ∀ entry ∈ lexemes,
    lowerFirstUk (capitalizeUk entry.1) = entry.1 ∧ IsWord entry.1 := by
  decide +kernel

theorem lower_capitalize : ∀ entry ∈ lexemes,
    lowerFirstUk (capitalizeUk entry.1) = entry.1 :=
  fun entry hentry => (lexemes_words entry hentry).1

theorem readTwoDigits_digitChar : ∀ k < 100,
    readTwoDigits [(k / 10).digitChar, (k % 10).digitChar] = some k := by
  decide

theorem blank_notMem_digits : ∀ k < 100,
    ' ' ∉ [(k / 10).digitChar, (k % 10).digitChar] := by
  decide

theorem areWords_hryvnia : hryvnia.AreWords :=
  areWords_of_mem (by simp)

theorem areWords_kopiyka : kopiyka.AreWords :=
  areWords_of_mem (by simp)

theorem isWord_lexeme : ∀ entry ∈ lexemes, IsWord entry.1 :=
  fun entry hentry => (lexemes_words entry hentry).2

theorem lowerFirstUk_join {word : Text} {token : Token} (words : List Text)
    (rest : Text) (hmem : (word, token) ∈ lexemes) :
    lowerFirstUk (capitalizeUk (join (word :: words)) ++ rest) =
      join (word :: words) ++ rest := by
  have hlower := lower_capitalize _ hmem
  have hword := (isWord_lexeme _ hmem).1
  cases word with
  | nil => exact absurd rfl hword
  | cons c word =>
      have hc : lowerUk (upperUk c) = c := (List.cons.inj hlower).1
      rw [join, List.intercalate_cons_cons_left, capitalizeUk,
        List.cons_append, lowerFirstUk, hc, List.cons_append]

theorem join_cons {word : Text} {words : List Text} (h : words ≠ []) :
    join (word :: words) = word ++ ' ' :: join words := by
  rw [join, List.intercalate_cons_of_ne_nil h, List.append_assoc]
  rfl

/-- A sum is read back from how it is said. -/
theorem AmountSaid.readAmount_eq {amount : ℕ} {text : Text}
    (h : AmountSaid amount text) : readAmount text = some amount := by
  obtain ⟨hcardinal⟩ := h
  next words =>
  obtain ⟨tokens, hreads, hvalue⟩ := hcardinal.reads
  have hdigits := readTwoDigits_digitChar (amount % 100) (by omega)
  have hblank := blank_notMem_digits (amount % 100) (by omega)
  rw [show amount % 100 / 10 = amount / 10 % 10 by omega,
    show amount % 100 % 10 = amount % 10 by omega] at hdigits hblank
  generalize [(amount / 10 % 10).digitChar, (amount % 10).digitChar] =
    digits at hdigits hblank ⊢
  have hlower : lowerFirstUk (join [capitalizeUk (join words),
      hryvnia.after (amount / 100), digits, kopiyka.after (amount % 100)]) =
      join (words ++ [hryvnia.after (amount / 100), digits,
        kopiyka.after (amount % 100)]) := by
    obtain ⟨word, rest, rfl⟩ := List.exists_cons_of_ne_nil hcardinal.ne_nil
    obtain ⟨token, hmem⟩ := hreads.mem List.mem_cons_self
    rw [join_cons (List.cons_ne_nil _ _), lowerFirstUk_join _ _ hmem,
      join_append (List.cons_ne_nil _ _) (List.cons_ne_nil _ _)]
  have hsplit : (join (words ++ [hryvnia.after (amount / 100), digits,
      kopiyka.after (amount % 100)])).splitOn ' ' = words ++
        [hryvnia.after (amount / 100), digits, kopiyka.after (amount % 100)] := by
    apply List.splitOn_intercalate ' '
    · intro word hmem
      simp only [List.mem_append, List.mem_cons, List.not_mem_nil,
        or_false] at hmem
      rcases hmem with hmem | rfl | rfl | rfl
      · obtain ⟨token, hlexeme⟩ := hreads.mem hmem
        exact (isWord_lexeme _ hlexeme).2
      · exact (areWords_hryvnia.after _).2
      · exact hblank
      · exact (areWords_kopiyka.after _).2
    · exact List.append_ne_nil_of_right_ne_nil _ (List.cons_ne_nil _ _)
  rw [readAmount, hlower, hsplit, List.reverse_append]
  simp only [List.reverse_cons, List.reverse_nil, List.nil_append,
    List.cons_append, List.reverse_reverse]
  rw [hdigits, hreads.readCardinal, hvalue]
  change (if _ then some (amount / 100 * 100 + amount % 100) else none) = _
  rw [if_pos ⟨rfl, rfl⟩, Nat.div_add_mod']

end Shozee.DocGeneration
