import Shozee.Run.Text

/-!
# A person's gender by a name

`nameGender` reads a name as the catalogue has it: a first name that is known,
a patronymic or a surname of the kind that says it, else the first word of two
as a first name. Lower case is a parameter.
-/

namespace Shozee.Sho

open Shozee.Run

/-- The genders that pronouns tell apart. -/
inductive Gender
  | feminine
  | masculine
deriving DecidableEq, Repr

/-- Legal forms, which are no part of a person's name. -/
def LEGAL_FORMS : List String :=
  ["фоп", "флп", "фо-п", "спд", "тов", "тзов", "пп", "прат", "пат", "ат", "дп",
    "кп", "кнп", "фг", "сфг", "го", "бф", "осбб", "ооо", "чп", "ип", "чао",
    "оао", "зао"]

/-- First names with their short forms. -/
def FIRST_NAME_GROUPS : List (List String) :=
  [["олександр", "александр", "саша", "сашко"],
    ["олександра", "александра", "саша"],
    ["олексій", "алексей", "льоша", "леша"],
    ["андрій", "андрей", "андрюша"],
    ["анастасія", "анастасия", "настя"],
    ["анна", "ганна", "аня"],
    ["богдан", "бодя"],
    ["валентина", "валя"],
    ["валентин", "валя"],
    ["василь", "василий", "вася"],
    ["вікторія", "виктория", "віка", "вика"],
    ["віктор", "виктор", "вітя", "витя"],
    ["віра", "вера"],
    ["віталій", "виталий", "віталік", "виталик"],
    ["володимир", "владимир", "вова", "володя"],
    ["галина", "галя"],
    ["григорій", "григорий", "гриша"],
    ["дмитро", "дмитрий", "діма", "дима"],
    ["євген", "евгений", "женя"],
    ["євгенія", "евгения", "женя"],
    ["ігор", "игорь"],
    ["іван", "иван", "ваня"],
    ["ірина", "ирина", "іра", "ира"],
    ["катерина", "екатерина", "катя"],
    ["костянтин", "константин", "костя"],
    ["людмила", "люда"],
    ["любов", "любовь", "люба"],
    ["марія", "мария", "маша"],
    ["микола", "николай", "коля"],
    ["михайло", "михаил", "міша", "миша"],
    ["надія", "надежда", "надя"],
    ["наталія", "наталья", "наталия", "наташа", "наталка"],
    ["олена", "елена", "лена"],
    ["ольга", "оля"],
    ["павло", "павел", "паша"],
    ["петро", "петр", "пётр", "петя"],
    ["сергій", "сергей", "сєрьожа", "сережа"],
    ["світлана", "светлана", "світа", "света"],
    ["станіслав", "станислав", "стас"],
    ["тетяна", "татьяна", "таня"],
    ["юлія", "юлия", "юля"],
    ["юрій", "юрий", "юра"],
    ["ярослав", "ярик"],
    ["роман", "рома"],
    ["максим", "макс"],
    ["артем", "артём", "тьома"],
    ["степан", "стьопа"]]

/-- All of them. -/
def FIRST_NAMES : List String := FIRST_NAME_GROUPS.flatten

/-- Men's names that end like women's. -/
def MEN_IN_A : List String :=
  ["микола", "ілля", "илья", "никита", "кузьма", "лука", "фома", "сава",
    "данила", "гаврила", "савва", "фока"]

/-- Short names that men and women have. -/
def EITHER : List String := ["саша", "женя", "валя", "шура", "слава", "стася"]

/-- Women's names that end like men's. -/
def WOMEN_IN_CONSONANT : List String := ["любов", "любовь", "нінель", "есфір"]

/-- Endings of a woman's patronymic. -/
def FEMININE_PATRONYMIC : List String :=
  ["івна", "ївна", "овна", "евна", "ична", "инична"]

/-- Endings of a man's patronymic. -/
def MASCULINE_PATRONYMIC : List String :=
  ["ович", "евич", "йович", "ьович", "іч", "ич"]

/-- Endings of a woman's surname. -/
def FEMININE_SURNAME : List String := ["ська", "цька", "зька", "ская", "цкая"]

/-- Endings of a man's surname. -/
def MASCULINE_SURNAME : List String :=
  ["ський", "цький", "зький", "ский", "цкий"]

/-- Men's short names, which end like women's. -/
def MEN_SHORT : List String :=
  ["петя", "вася", "ваня", "коля", "толя", "юра", "федя", "митя", "діма",
    "дима", "гоша", "міша", "миша", "паша", "гриша", "сеня", "сьома", "льоша",
    "лёша", "альоша", "алёша", "костя", "вова", "володя", "жора", "яша",
    "рома", "стьопа", "стёпа", "боря", "вітя", "витя", "сєрьожа", "серьожа",
    "сережа", "серёжа", "гена", "льоня", "лёня", "андрюша", "олежка"]

/-- The word ends as one of the expression's alternatives. -/
def endsWithAny (endings : List String) (word : String) : Bool :=
  endings.any fun ending => endsWith word ending

/-- The gender of a first name, by the lists and then by its end. -/
def firstNameGender (word : String) : Option Gender :=
  if word ∈ EITHER then none
  else if word ∈ WOMEN_IN_CONSONANT then some .feminine
  else if word ∈ MEN_IN_A then some .masculine
  else if endsWithAny ["а", "я"] word then some .feminine
  else some .masculine

/-- The same with the short names. -/
def personGender (word : String) : Option Gender :=
  if word ∈ MEN_SHORT then some .masculine else firstNameGender word

/-- Quotation marks around a company's name. -/
def isQuote (c : Char) : Bool := c ∈ ['«', '»', '"']

/-- `/^[а-яіїєґё'-]+$/`. -/
def isPersonWord (word : String) : Bool :=
  word ≠ "" && word.toList.all fun c =>
    ('а' ≤ c && c ≤ 'я') || c ∈ ['і', 'ї', 'є', 'ґ', 'ё', '\'', '-']

/-- What a patronymic or a surname says. -/
def familyGender (word : String) : Option Gender :=
  if endsWithAny FEMININE_PATRONYMIC word ||
      endsWithAny FEMININE_SURNAME word then some .feminine
  else if endsWithAny MASCULINE_PATRONYMIC word ||
      endsWithAny MASCULINE_SURNAME word then some .masculine
  else none

/-- The gender of a name: a first name in it decides, then the endings. A name
with a legal form or in quotes is no person's. -/
def nameGender (lower : String → String) (name : String) : Option Gender :=
  let all := splitWords (String.ofList
    ((lower name).toList.map fun c => if isQuote c then ' ' else c))
  let words := all.filter (· ∉ LEGAL_FORMS)
  let person := words.length = all.length ∧ ¬ name.toList.any isQuote
  match words.find? fun word => word ∈ FIRST_NAMES || word ∈ MEN_SHORT with
  | some known => personGender known
  | none =>
      match words.findSome? familyGender with
      | some gender => some gender
      | none =>
          match words with
          | first :: _ :: _ =>
              if person ∧ isPersonWord first then personGender first else none
          | _ => none

end Shozee.Sho
