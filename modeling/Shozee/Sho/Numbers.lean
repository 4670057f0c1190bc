import Mathlib.Algebra.Order.Floor.Ring
import Mathlib.Data.Rat.Floor

/-!
# Spoken numbers

The reader of numbers said in words (`sho/runtime/src/numbers.ts`, the forms in
`lexicon/numbers.ts`). A word is of a kind, and a cardinal is read in one loop
by the kind of the word before. A string of digits is read group by group, and
words for zeros may take the group before them for their count.

Numbers are exact, and `none` is one that is not a number. A string of digits
is where exactness matters: a number that a double cannot hold is written with
other digits than were said. So `digitString` goes by the exact number only
where no step of the reading needs rounding (`isHeld`), and takes what comes of
the others as given (`rounded`). What the language makes of a text that is
written as a number, and of capital letters, is taken as given too.
-/

namespace Shozee.Sho.Numbers

/-! ## The forms of number words

The tables of `lexicon/numbers.ts`. A word that two kinds list is of the first.
-/

/-- The kinds of number words in the grammar. -/
inductive NumberWordKind
  | unit | teen | ten | hundred | mult | half | oneHalf
deriving DecidableEq, Repr

/-- All of them, in the table's order. -/
def numberWordKinds : List NumberWordKind :=
  [.unit, .teen, .ten, .hundred, .mult, .half, .oneHalf]

/-- `NUMBER_FORMS`: the values of a kind, each with the words of its forms. -/
def numberForms : NumberWordKind → List (ℚ × List String)
  | .unit =>
      [(0, ["нуль", "нуля", "нулю", "ноль", "ноля", "нолю"]),
        (1, ["один", "одна", "одне", "одно", "одного", "одну", "одній", "одной",
          "одним", "одною", "однієї", "одиниця", "одиницю", "единица",
          "единицу"]),
        (2, ["два", "дві", "две", "двох", "двух", "двом", "двум", "двома",
          "двумя", "двоє", "двое"]),
        (3, ["три", "трьох", "трех", "трёх", "трьом", "трем", "трьома", "тремя",
          "троє", "трое"]),
        (4, ["чотири", "четыре", "чотирьох", "четырех", "четырёх", "чотирьом",
          "четырем", "чотирма", "четырьмя", "четверо"]),
        (5, ["п'ять", "пять", "п'яти", "пяти", "п'ятьох", "пятью", "п'ятьма",
          "пятеро"]),
        (6, ["шість", "шесть", "шести", "шістьох", "шістьма", "шестью",
          "шестеро"]),
        (7, ["сім", "семь", "семи", "сімох", "сімома", "семью", "семеро"]),
        (8, ["вісім", "восемь", "восьми", "вісьмох", "вісьмома", "восьмью",
          "восемью"]),
        (9, ["дев'ять", "девять", "дев'яти", "девяти", "дев'ятьох", "девятью"])]
  | .teen =>
      [(10, ["десять", "десяти", "десятьох", "десятью"]),
        (11, ["одинадцять", "одиннадцать", "одинадцяти", "одиннадцати"]),
        (12, ["дванадцять", "двенадцать", "дванадцяти", "двенадцати"]),
        (13, ["тринадцять", "тринадцать", "тринадцяти", "тринадцати"]),
        (14, ["чотирнадцять", "четырнадцать", "чотирнадцяти", "четырнадцати"]),
        (15, ["п'ятнадцять", "пятнадцать", "п'ятнадцяти", "пятнадцати"]),
        (16, ["шістнадцять", "шестнадцать", "шістнадцяти", "шестнадцати"]),
        (17, ["сімнадцять", "семнадцать", "сімнадцяти", "семнадцати"]),
        (18, ["вісімнадцять", "восемнадцать", "вісімнадцяти", "восемнадцати"]),
        (19, ["дев'ятнадцять", "девятнадцать", "дев'ятнадцяти",
          "девятнадцати"])]
  | .ten =>
      [(20, ["двадцять", "двадцать", "двадцяти", "двадцати"]),
        (30, ["тридцять", "тридцать", "тридцяти", "тридцати"]),
        (40, ["сорок", "сорока"]),
        (50, ["п'ятдесят", "пятьдесят", "п'ятдесяти", "пятидесяти"]),
        (60, ["шістдесят", "шестьдесят", "шістдесяти", "шестидесяти"]),
        (70, ["сімдесят", "семьдесят", "сімдесяти", "семидесяти"]),
        (80, ["вісімдесят", "восемьдесят", "вісімдесяти", "восьмидесяти"]),
        (90, ["дев'яносто", "девяносто", "дев'яноста", "девяноста"])]
  | .hundred =>
      [(100, ["сто", "ста", "сотня", "сотню"]),
        (200, ["двісті", "двести", "двохсот", "двухсот"]),
        (300, ["триста", "трьохсот", "трехсот"]),
        (400, ["чотириста", "четыреста", "чотирьохсот", "четырехсот"]),
        (500, ["п'ятсот", "пятьсот", "п'ятисот", "пятисот"]),
        (600, ["шістсот", "шестьсот", "шестисот", "шістьохсот"]),
        (700, ["сімсот", "семьсот", "семисот", "сімохсот"]),
        (800, ["вісімсот", "восемьсот", "восьмисот", "вісьмохсот"]),
        (900, ["дев'ятсот", "девятьсот", "дев'ятисот", "девятисот"])]
  | .mult =>
      [(1000, ["тисяча", "тисячі", "тисяч", "тисячу", "тисячею", "тысяча",
          "тысячи", "тысяч", "тысячу", "тысячей"]),
        (1000000, ["мільйон", "мільйона", "мільйонів", "мільйони", "миллион",
          "миллиона", "миллионов", "миллионы"])]
  | .half =>
      [(1 / 2, ["пів", "пол", "половина", "половину", "половини", "половины"])]
  | .oneHalf =>
      [(3 / 2, ["півтора", "півтори", "полтора", "полторы"])]

/-- A form that two kinds list is of the first. -/
def numberWordTable : List (String × NumberWordKind × ℚ) :=
  numberWordKinds.flatMap fun kind =>
    (numberForms kind).flatMap fun entry =>
      entry.2.map fun form => (form, kind, entry.1)

/-- Words for "and" before a half. -/
def andWords : List String := ["з", "с", "із"]

/-- Words for a half that is added. -/
def halfAfter : List String := ["половиною", "половиной"]

/-- What a word for half of something begins with. -/
def halfPrefixes : List String := ["пів", "пол"]

/-- Zeros in the form that two to four take. -/
def zeroFew : List String := ["нулі", "нуля", "нули"]

/-- Zeros in the form that larger counts take. -/
def zeroMany : List String := ["нулів", "нулей"]

/-! ## The kind of a word

Digits, a listed word, a word with «half» in front, or none of these. -/

/-- What a word is to the reader of numbers. -/
inductive NumberKind
  | word (kind : NumberWordKind)
  | digits
  | gluedHalf
deriving DecidableEq, Repr

/-- A word's kind and its value. A word of digits may have no value. -/
structure Classified where
  kind : Option NumberKind
  value : Option ℚ
deriving DecidableEq, Repr

/-- How long a word is in the units of the language. -/
def unitLength (word : String) : ℕ :=
  (word.toList.map fun c => if c.toNat < 65536 then 1 else 2).sum

/-- Whether a word is a half and what it halves. -/
def gluedHalf (word : String) : Bool :=
  (numberWordTable.lookup word).isNone && 4 < unitLength word &&
    halfPrefixes.any fun before => before.toList.isPrefixOf word.toList

/-- The digits of ASCII. -/
def isAsciiDigit (c : Char) : Bool := '0' ≤ c && c ≤ '9'

/-- The text of a word of digits, without its sign and with a decimal point. -/
def digitsText (word : List Char) : List Char :=
  let unsigned :=
    match word with
    | '+' :: digits => digits
    | digits => digits
  match unsigned.idxOf? ',' with
  | some comma => unsigned.set comma '.'
  | none => unsigned

section Reader

-- What the language makes of a text that is written as a number.
variable (number : List Char → Option ℚ)

/-- The kind of a word: digits or a sign first, then the table, then a glued
half. -/
def classifyNumber (word : String) : Classified :=
  if word.toList.head?.any fun head => isAsciiDigit head || head = '+' then
    ⟨some .digits, number (digitsText word.toList)⟩
  else
    match numberWordTable.lookup word with
    | some (kind, value) => ⟨some (.word kind), some value⟩
    | none =>
        if gluedHalf word then ⟨some .gluedHalf, some (1 / 2)⟩
        else ⟨none, none⟩

/-- Whether a word is part of a number at all. -/
def isNumeric (word : String) : Bool :=
  (classifyNumber number word).kind.isSome

/-! ## Cardinals

The loop keeps the sum of the scales that are read and the group at hand. What
may follow a word is a table. -/

/-- What the word before was. -/
inductive Last
  | unit | teen | ten | hundred | digits | mult | half
deriving DecidableEq, Repr

instance : LawfulBEq (Option Last) := inferInstance

/-- `FOLLOWS`, for the kinds that have an entry. -/
def follows : NumberWordKind → List (Option Last)
  | .unit => [none, some .mult, some .hundred, some .ten]
  | .teen => [none, some .mult, some .hundred]
  | .ten => [none, some .mult, some .hundred]
  | .hundred => [none, some .mult]
  | _ => []

/-- What the reader remembers of a word it has read. -/
def NumberWordKind.toLast : NumberWordKind → Last
  | .unit => .unit
  | .teen => .teen
  | .ten => .ten
  | .hundred => .hundred
  | .mult => .mult
  | .half | .oneHalf => .half

/-- The first of the words says «and a half» with the one after it. -/
def halfFollows : List String → Bool
  | word :: next :: _ => andWords.contains word && halfAfter.contains next
  | _ => false

/-- `/^[0-9]{3}$/`. -/
def threeDigits (word : String) : Bool :=
  word.toList.length = 3 && word.toList.all isAsciiDigit

/-- `/^\+?[0-9]+$/`. -/
def wholeDigits (word : String) : Bool :=
  match word.toList with
  | '+' :: digits => !digits.isEmpty && digits.all isAsciiDigit
  | digits => !digits.isEmpty && digits.all isAsciiDigit

/-- A whole number below a thousand. -/
def belowThousand : Option ℚ → Bool
  | some value => value.isInt && value < 1000
  | none => false

/-- A sum, if both sides are numbers. -/
def addNumbers (x y : Option ℚ) : Option ℚ := Option.map₂ (· + ·) x y

/-- The locals of the loop of `readCardinal`. -/
structure Reading where
  total : Option ℚ
  group : Option ℚ
  last : Option Last
deriving DecidableEq, Repr

/-- A word is read, or the loop is left, with some more words used up. -/
inductive ReadStep
  | next (reading : Reading)
  | done (value : Option ℚ) (used : ℕ)

/-- The body of the loop, at `word` with `rest` after it. -/
def readWord (previous word : String) (rest : List String)
    (reading : Reading) : ReadStep :=
  let classified := classifyNumber number word
  let value := classified.value
  let halfAhead : ReadStep :=
    if reading.last ≠ none ∧ halfFollows (word :: rest) then
      .done (addNumbers (addNumbers reading.total reading.group)
        (some (1 / 2))) 2
    else .done (addNumbers reading.total reading.group) 0
  match classified.kind with
  | some .digits =>
      if reading.last = none then
        .next { reading with group := value, last := some .digits }
      else if reading.last = some .digits ∧ threeDigits word ∧
          wholeDigits previous then
        .next { reading with
          group := addNumbers (reading.group.map (· * 1000)) value }
      else if reading.last = some .mult ∧ belowThousand value then
        .next { reading with group := value, last := some .digits }
      else halfAhead
  | some (.word kind) =>
      if reading.last ∈ follows kind then
        .next { reading with
          group := addNumbers reading.group value
          last := some kind.toLast }
      else if kind = .mult ∧ reading.last ≠ some .mult then
        let group := if reading.last ≠ none then reading.group else some 1
        .next ⟨addNumbers reading.total (Option.map₂ (· * ·) group value),
          some 0, some .mult⟩
      else if (kind = .half ∨ kind = .oneHalf) ∧ reading.last = none then
        .next { reading with group := value, last := some .half }
      else halfAhead
  | some .gluedHalf =>
      if reading.last = none then .done value 1 else halfAhead
  | none => halfAhead

/-- The words of a cardinal, one after the other, with the number of those
used. -/
def readLoop (previous : String) (reading : Reading) (index : ℕ) :
    List String → Option ℚ × ℕ
  | [] => (addNumbers reading.total reading.group, index)
  | word :: rest =>
      match readWord number previous word rest reading with
      | .next reading' => readLoop word reading' (index + 1) rest
      | .done value used => (value, index + used)

/-- The cardinal that starts at a word, and where it stops. -/
def readCardinal (words : List String) (start : ℕ) : Option ℚ × ℕ :=
  readLoop number ((words.take start).getLast?.getD "")
    ⟨some 0, some 0, none⟩ start (words.drop start)

/-- The numbers that the loop forms one after the other, the result last. -/
def loopNumbers (previous : String) (reading : Reading) :
    List String → List (Option ℚ)
  | [] => [addNumbers reading.total reading.group]
  | word :: rest =>
      match readWord number previous word rest reading with
      | .next reading' =>
          reading'.total :: reading'.group :: loopNumbers word reading' rest
      | .done value _ => [value]

/-- The numbers that reading that cardinal passes through. -/
def cardinalNumbers (words : List String) (start : ℕ) : List (Option ℚ) :=
  loopNumbers number ((words.take start).getLast?.getD "")
    ⟨some 0, some 0, none⟩ (words.drop start)

/-- A cardinal in words. Digits and halves do not start one. -/
def wordNumberAt (words : List String) (start : ℕ) :
    Option (Option ℚ × ℕ) :=
  match (classifyNumber number (words[start]?.getD "")).kind with
  | none | some .digits | some (.word .half) | some (.word .oneHalf)
  | some .gluedHalf => none
  | some (.word _) =>
      let (value, stop) := readCardinal number words start
      if start < stop then some (value, stop) else none

/-! ## The words of a text

A sign at a time, as the pattern of the tokens matches. -/

/-- `[a-zа-яіїєґё']`. -/
def isTokenLetter (c : Char) : Bool :=
  ('a' ≤ c && c ≤ 'z') || ('а' ≤ c && c ≤ 'я') || "іїєґё'".toList.contains c

/-- The digits of `NUMBER_TOKEN`: a sign and a decimal part may be there. -/
def digitsToken (text : List Char) : Option (List Char × List Char) :=
  let (sign, unsigned) :=
    match text with
    | '+' :: rest => (['+'], rest)
    | rest => ([], rest)
  let whole := unsigned.takeWhile isAsciiDigit
  let rest := unsigned.dropWhile isAsciiDigit
  if whole.isEmpty then none
  else
    match rest with
    | [] => some (sign ++ whole, rest)
    | mark :: more =>
        let decimals := more.takeWhile isAsciiDigit
        if (mark = '.' ∨ mark = ',') ∧ decimals ≠ [] then
          some (sign ++ whole ++ mark :: decimals,
            more.dropWhile isAsciiDigit)
        else some (sign ++ whole, rest)

/-- `NUMBER_TOKEN` at the first sign of a text. -/
def numberTokenAt (text : List Char) : Option (List Char × List Char) :=
  match digitsToken text with
  | some found => some found
  | none =>
      let letters := text.takeWhile isTokenLetter
      if letters.isEmpty then none
      else some (letters, text.dropWhile isTokenLetter)

/-- The matches in a text, one after the other; a match is not empty, so its
signs are more than the matches. -/
def numberTokensOf : ℕ → List Char → List String
  | 0, _ => []
  | _ + 1, [] => []
  | fuel + 1, c :: text =>
      match numberTokenAt (c :: text) with
      | some (token, rest) => String.ofList token :: numberTokensOf fuel rest
      | none => numberTokensOf fuel text

-- How the language writes a text in small letters.
variable (toLowerCase : String → String)

/-- The words of `numberTokens`; nothing here reads where they stand. -/
def numberTokens (text : String) : List String :=
  let lowered := (toLowerCase text).toList.map fun c =>
    if "’ʼ`′´".toList.contains c then '\''
    else if c = 'ё' then 'е' else c
  numberTokensOf lowered.length lowered

/-- `Math.round` to the sixth place. -/
def cleanNumber (value : ℚ) : ℚ := ⌊value * 1000000 + 1 / 2⌋ / 1000000

/-- No number word, and no number, are two answers. -/
def numberValue (text : String) : Option (Option ℚ) :=
  let words := numberTokens toLowerCase text
  match words.findIdx? (isNumeric number) with
  | none => none
  | some index =>
      some ((readCardinal number words index).1.map cleanNumber)

/-! ## Strings of digits

Groups of digits one after the other, with words for zeros between them. -/

/-- Kinds that may follow in a string of digits. -/
def isFollowKind : NumberWordKind → Bool
  | .unit | .teen | .ten | .hundred => true
  | .mult | .half | .oneHalf => false

/-- A double holds the number as it is. -/
def isHeld : Option ℚ → Bool
  | none => true
  | some value => value.num.natAbs < 2 ^ 53 && 2 ^ 52 % value.den = 0

/-- No step of reading the first number of the words needs rounding, and
neither do its millionths. -/
def readsHeld (words : List String) : Bool :=
  (words.findIdx? (isNumeric number)).all fun index =>
    (cardinalNumbers number words index).all isHeld &&
      isHeld ((readCardinal number words index).1.map (· * 1000000))

/-- `String(Math.trunc(value))`, of a number that a double holds. -/
def truncText : Option ℚ → List Char
  | none => "NaN".toList
  | some value =>
      let whole := value.num.tdiv value.den
      (if whole < 0 then ['-'] else []) ++ Nat.toDigits 10 whole.natAbs

/-- The number that digits are. -/
def decimal (digits : List Char) : ℕ :=
  digits.foldl (fun n c => 10 * n + (c.toNat - 48)) 0

/-- `Number` of digits alone: from `2 ^ 53` on the nearest number with 53
bits, of two the even one. -/
def numberOfDigits (digits : List Char) : ℕ :=
  let whole := decimal digits
  if whole < 2 ^ 53 then whole
  else
    let unit := 2 ^ (Nat.log2 whole - 52)
    if 2 * (whole % unit) < unit ∨
        2 * (whole % unit) = unit ∧ whole / unit % 2 = 0 then
      whole / unit * unit
    else (whole / unit + 1) * unit

/-- The most that a text of the language can be long. -/
def maxTextLength : ℕ := 536870888

/-- A part of the string, or `FILL`. -/
inductive Part
  | said (digits : List Char)
  | fill
deriving DecidableEq, Repr

/-- What a part adds to the string. -/
def Part.digits : Part → List Char
  | .said digits => digits
  | .fill => []

/-- Whether a count and a word for zeros agree in form. -/
def zeroCountAgrees (count : ℕ) (word : String) : Bool :=
  if count < 2 ∨ (count % 10 = 1 ∧ count % 100 ≠ 11) then false
  else
    let few := [2, 3, 4].contains (count % 10) &&
      !([12, 13, 14].contains (count % 100))
    (if few then zeroFew else zeroMany).contains word

/-- A run of zeros said by its count, or the digits that were pending and a
filler. -/
def zeroRun (parts : List Part) (pending : Option (List Char)) (word : String)
    (width : Option ℕ) : List Part :=
  let count := pending.elim 0 numberOfDigits
  let written := (parts.map fun part => part.digits.length).sum
  if zeroCountAgrees count word ∧
      ∀ wanted ∈ width, written + count ≤ wanted then
    parts ++ [.said (List.replicate count '0')]
  else parts ++ (pending.elim [] fun digits => [.said digits]) ++ [.fill]

/-- A string that is too long throws, and there is none. -/
def filled (parts : List Part) (width : Option ℕ) : Option (List Char) :=
  let digits := (parts.map Part.digits).flatten
  let zeros :=
    match width with
    | some wanted =>
        if parts.contains .fill then
          List.replicate (wanted - digits.length) '0'
        else []
    | none => []
  let text := (parts.map fun part =>
    match part with
    | .said digits => digits
    | .fill => zeros).flatten
  if text.isEmpty ∨ maxTextLength < text.length then none else some text

/-- The locals of the loop of `digitString`. -/
structure DigitReading where
  parts : List Part
  group : ℚ
  last : Option Last
  afterDigits : Bool

/-- One word of a string of digits. -/
def readDigits (width : Option ℕ) (reading : DigitReading) (word : String) :
    DigitReading :=
  let classified := classifyNumber number word
  let value := classified.value.getD 0
  if word ∈ zeroFew ∨ word ∈ zeroMany then
    let popped := reading.parts.getLast?.map Part.digits
    let (parts, pending) :=
      if reading.last ≠ none then
        (reading.parts, some (truncText (some reading.group)))
      else if reading.afterDigits then (reading.parts.dropLast, popped)
      else (reading.parts, none)
    ⟨zeroRun parts pending word width, 0, none, false⟩
  else
    match classified.kind with
    | some (.word kind) =>
        if reading.last ∈ follows kind then
          { reading with
            group := reading.group + value
            last := some kind.toLast }
        else
          let parts := if reading.last ≠ none then
            reading.parts ++ [.said (truncText (some reading.group))]
          else reading.parts
          if isFollowKind kind then ⟨parts, value, some kind.toLast, false⟩
          else ⟨parts, 0, none, false⟩
    | kind =>
        let parts := if reading.last ≠ none then
          reading.parts ++ [.said (truncText (some reading.group))]
        else reading.parts
        if kind = some .digits then
          ⟨parts ++ [.said (word.toList.filter isAsciiDigit)], 0, none, true⟩
        else ⟨parts, 0, none, false⟩

-- What is written for the first number of words that a double does not hold.
variable (rounded : List String → List Char)

/-- The digits that a text spells. A text with a multiplier is read as one
number. -/
def digitString (text : String) (width : Option ℕ) : Option (List Char) :=
  let words := numberTokens toLowerCase text
  if words.any fun word =>
      (classifyNumber number word).kind = some (.word .mult) then
    if readsHeld number words then
      (numberValue number toLowerCase text).map truncText
    else some (rounded words)
  else
    let reading := words.foldl (readDigits number width) ⟨[], 0, none, false⟩
    let parts := if reading.last ≠ none then
      reading.parts ++ [.said (truncText (some reading.group))]
    else reading.parts
    filled parts width

/-- An account number has this many digits after its country. -/
def ibanDigits : ℕ := 27

/-- The account number that a text spells. -/
def ibanValue (text : String) : Option (List Char) :=
  (digitString number toLowerCase rounded text (some ibanDigits)).map
    ("UA".toList ++ ·)

end Reader

end Shozee.Sho.Numbers
