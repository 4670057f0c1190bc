import Mathlib.Data.List.Basic

/-!
# An amount in words

The sum on an invoice (`doc-generation/src/services/amount-in-words.ts`), from
the decimal digits of its kopiykas. Numbers are below the limit from which on
they would not be exact.
-/

namespace Shozee.DocGeneration

/-- Texts by their characters. -/
abbrev Text := List Char

/-- One to nine as masculine nouns are counted, by index. -/
def ONES_MASC : List Text :=
  ["", "один", "два", "три", "чотири", "п'ять", "шість", "сім", "вісім",
    "дев'ять"].map String.toList

/-- One to nine as feminine nouns are counted, by index. -/
def ONES_FEM : List Text :=
  ["", "одна", "дві", "три", "чотири", "п'ять", "шість", "сім", "вісім",
    "дев'ять"].map String.toList

/-- Ten to nineteen, by the second digit. -/
def TEENS : List Text :=
  ["десять", "одинадцять", "дванадцять", "тринадцять", "чотирнадцять",
    "п'ятнадцять", "шістнадцять", "сімнадцять", "вісімнадцять",
    "дев'ятнадцять"].map String.toList

/-- The tens, by the first digit. -/
def TENS : List Text :=
  ["", "", "двадцять", "тридцять", "сорок", "п'ятдесят", "шістдесят",
    "сімдесят", "вісімдесят", "дев'яносто"].map String.toList

/-- The hundreds, by the first digit. -/
def HUNDREDS : List Text :=
  ["", "сто", "двісті", "триста", "чотириста", "п'ятсот", "шістсот", "сімсот",
    "вісімсот", "дев'ятсот"].map String.toList

/-- The currency after many, one and few. -/
def HRYVNIA_FORMS : List Text :=
  ["гривень", "гривня", "гривні"].map String.toList

/-- Its hundredth after many, one and few. -/
def KOPIYKA_FORMS : List Text :=
  ["копійок", "копійка", "копійки"].map String.toList

/-- Thousands after many, one and few. -/
def THOUSAND_FORMS : List Text :=
  ["тисяч", "тисяча", "тисячі"].map String.toList

/-- Millions after many, one and few. -/
def MILLION_FORMS : List Text :=
  ["мільйонів", "мільйон", "мільйони"].map String.toList

/-- Milliards after many, one and few. -/
def BILLION_FORMS : List Text :=
  ["мільярдів", "мільярд", "мільярди"].map String.toList

/-- An amount with more digits than this is refused. -/
def MAX_HRN_DIGITS : ℕ := 12

/-- The genders that ones are counted in. -/
inductive WordGender
  | masc
  | fem
deriving DecidableEq, Repr

/-- An amount that cannot be written. -/
structure CoreInvariantError where
  message : Text
deriving DecidableEq

/-- `parts.join(" ")`. -/
def join (parts : List Text) : Text := [' '].intercalate parts

/-- The form that a noun takes after a number: one, few or many. The second ten
takes the last. -/
def slavicFormIndex (n : ℕ) : ℕ :=
  let mod100 := n % 100
  let mod10 := n % 10
  if mod10 = 1 ∧ mod100 ≠ 11 then 1
  else if 2 ≤ mod10 ∧ mod10 ≤ 4 ∧ (mod100 < 12 ∨ 14 < mod100) then 2
  else 0

/-- A word of a table, if it is there and not empty. -/
def present (word : Option Text) : List Text :=
  (word.filter fun word => 0 < word.length).toList

/-- The words of a number below a thousand. -/
def triadParts (n : ℕ) (gender : WordGender) : List Text :=
  let hundreds := n / 100
  let remainder := n % 100
  let onesTable := if gender = .fem then ONES_FEM else ONES_MASC
  if 10 ≤ remainder ∧ remainder ≤ 19 then
    present HUNDREDS[hundreds]? ++ TEENS[remainder - 10]?.toList
  else
    let tens := remainder / 10
    let ones := remainder % 10
    present HUNDREDS[hundreds]? ++ present TENS[tens]? ++
      present onesTable[ones]?

/-- Those words with blanks between. -/
def triadWords (n : ℕ) (gender : WordGender) : Text :=
  join (triadParts n gender)

/-- The form of a noun after a number. -/
def formOf (forms : List Text) (n : ℕ) : Text :=
  forms.getD (slavicFormIndex n) []

/-- A group of three digits with the noun of its place, or nothing for zero. -/
def scaleChunk (n : ℕ) (gender : WordGender) (forms : List Text) : Text :=
  let words := triadWords n gender
  if words.length = 0 then [] else words ++ ' ' :: formOf forms n

/-- The words of a whole number below a thousand milliards. -/
def integerToUkWords (n : ℕ) : Text :=
  if n = 0 then "нуль".toList
  else
    let billions := n / 1000000000
    let millions := n % 1000000000 / 1000000
    let thousands := n % 1000000 / 1000
    let rest := n % 1000
    join ([scaleChunk billions .masc BILLION_FORMS,
      scaleChunk millions .masc MILLION_FORMS,
      scaleChunk thousands .fem THOUSAND_FORMS,
      triadWords rest .fem].filter fun chunk => 0 < chunk.length)

/-- `toLocaleUpperCase("uk-UA")`, of the letters the numerals have. -/
def upperUk (c : Char) : Char :=
  if 'а' ≤ c ∧ c ≤ 'я' then Char.ofNat (c.toNat - 32)
  else if 'ѐ' ≤ c ∧ c ≤ 'џ' then Char.ofNat (c.toNat - 80)
  else c

/-- A text with its first letter in capitals. -/
def capitalizeUk : Text → Text
  | [] => []
  | first :: rest => upperUk first :: rest

/-- `Number(text)`, of digits. -/
def numberOf (digits : Text) : ℕ := Nat.ofDigitChars 10 digits 0

/-- Hundredths as two digits. -/
def twoDigitKopiyky (kopiyky : ℕ) : Text :=
  (Nat.toDigits 10 kopiyky).leftpad 2 '0'

/-- An amount of minor units in words, the hundredths in digits. -/
def uahAmountInWords (minor : Text) : Except CoreInvariantError Text :=
  if minor.length = 0 ∨ minor.all Char.isDigit = false then
    .error ⟨"illegal minor-unit string \"".toList ++ minor ++ ['"']⟩
  else
    let padded := minor.leftpad 3 '0'
    let kopiyky := numberOf (padded.drop (padded.length - 2))
    let significant :=
      (padded.take (padded.length - 2)).dropWhile (· = '0')
    let hryvniaDigits := if significant = [] then ['0'] else significant
    if MAX_HRN_DIGITS < hryvniaDigits.length then
      .error ⟨"minor-unit string too large \"".toList ++ minor ++ ['"']⟩
    else
      let hryvnia := numberOf hryvniaDigits
      let hryvniaWords := integerToUkWords hryvnia
      .ok (join [capitalizeUk hryvniaWords, formOf HRYVNIA_FORMS hryvnia,
        twoDigitKopiyky kopiyky, formOf KOPIYKA_FORMS kopiyky])

example : uahAmountInWords "123456".toList =
    .ok "Одна тисяча двісті тридцять чотири гривні 56 копійок".toList := by
  decide +kernel

end Shozee.DocGeneration
