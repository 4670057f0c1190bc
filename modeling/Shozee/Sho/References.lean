import Shozee.Sho.Gender

/-!
# The words references are said with

The pronouns, the places and the words before a noun that point at a record,
and the verbs that may be said of one.
-/

namespace Shozee.Sho

open Shozee.Run

/-- The types of records that can be in focus. -/
inductive FocusType
  | customer
  | group
  | order
  | product
  | priceList
  | counterparty
deriving DecidableEq, Repr

/-- All of them, in the order of the source. -/
def FocusType.all : List FocusType :=
  [.customer, .group, .order, .product, .priceList, .counterparty]

/-- The type of record that a param of a declared type takes. -/
def FOCUS_PARAM_TYPES (declared : String) : Option FocusType :=
  [("customer", .customer), ("group", .group), ("order_number", .order),
    ("product", .product), ("price_list", .priceList),
    ("counterparty", .counterparty)].lookup declared

/-- What the form of a pronoun tells of its noun. -/
structure PronounForm where
  gender : Option Gender
  plural : Bool
  dative : Bool
deriving DecidableEq, Repr

/-- A feminine noun. -/
def FEMININE : PronounForm := ⟨some .feminine, false, false⟩

/-- A masculine noun. -/
def MASCULINE : PronounForm := ⟨some .masculine, false, false⟩

/-- Several records, of any gender. -/
def PLURAL : PronounForm := ⟨none, true, false⟩

/-- The form of a pronoun in either language. -/
def PRONOUN_FORMS (word : String) : Option PronounForm :=
  if word ∈ ["її", "неї", "ній", "нею", "её", "ее", "неё", "нее", "ней", "ею"]
    then some FEMININE
  else if word ∈ ["їй", "ей"] then some { FEMININE with dative := true }
  else if word ∈ ["його", "нього", "ньому", "ним", "его", "него", "нему"] then
    some MASCULINE
  else if word ∈ ["йому", "ему"] then some { MASCULINE with dative := true }
  else if word ∈ ["їх", "них", "ними", "их"] then some PLURAL
  else if word ∈ ["їм"] then some { PLURAL with dative := true }
  else none

/-- What a word that points stands for. -/
inductive DeicticTarget
  | customer
  | orderNumber
  | ttn
  | product
  | documentRef
deriving DecidableEq, Repr

/-- The words that point, by what they stand for. -/
def DEICTICS : List (String × DeicticTarget) :=
  (["їй", "йому", "їм", "ей", "ему", "цьому клієнту", "цій клієнтці",
    "цього клієнта", "цієї клієнтки", "цим клієнтом", "клієнту", "клієнтці",
    "этому клиенту", "этой клиентке", "этого клиента", "этой клиентки",
    "клиенту", "клиентке"].map (·, .customer)) ++
  (["це замовлення", "цього замовлення", "цьому замовленню",
    "цьому замовленні", "цим замовленням", "этот заказ", "этого заказа",
    "этому заказу", "этом заказе"].map (·, .orderNumber)) ++
  (["цю ттн", "ця ттн", "цієї ттн", "цій ттн", "цю посилку", "ця посилка",
    "цієї посилки", "эту ттн", "эта ттн", "этой ттн", "эту посылку",
    "эта посылка", "этой посылки"].map (·, .ttn)) ++
  (["цей товар", "цього товару", "цьому товару", "цим товаром", "этот товар",
    "этого товара", "этому товару"].map (·, .product)) ++
  (["цей документ", "цей рахунок", "цю накладну", "цей чек", "цього чека",
    "цього чеку", "этот документ", "этот счет", "эту накладную",
    "этот чек"].map (·, .documentRef))

/-- The deictic words for a customer that are a noun on its own. -/
def BARE_NOUN_DEICTICS : List String :=
  (DEICTICS.filter fun (phrase, target) =>
    target = .customer && !includes phrase " " &&
      (PRONOUN_FORMS phrase).isNone).map (·.1)

/-- Words for the record that something is put into or taken from. -/
def FOCUS_CONTAINERS : List String :=
  ["туди", "сюди", "звідти", "звідси", "там", "туда", "сюда", "оттуда",
    "отсюда"]

/-- The params that such a record fills. -/
def FOCUS_CONTAINER_PARAMS : List String :=
  ["group", "order_number", "price_list"]

/-- Those of the words that mean what is on the screen. -/
def FOCUS_HERE : List String := ["сюди", "звідси", "сюда", "отсюда"]

/-- Words for "this" in its forms. -/
def FOCUS_THIS : List String :=
  ["цей", "ця", "це", "цю", "цього", "цьому", "цим", "цієї", "цій", "цією",
    "этот", "эта", "это", "эту", "этого", "этому", "этим", "этой", "этом"]

/-- Words for "new" in its forms. -/
def FOCUS_NEW : List String :=
  ["новий", "нового", "новому", "новим", "новій", "нова", "нову", "нової",
    "новою", "нове", "новый", "новому", "новым", "новая", "новую", "новой",
    "новое"]

/-- The nouns of the types, by their stems. -/
def FOCUS_NOUNS : List (String × FocusType) :=
  [("клієнт", .customer), ("клиент", .customer), ("покупц", .customer),
    ("покупец", .customer), ("груп", .group), ("замовлен", .order),
    ("заказ", .order), ("прайс", .priceList), ("контрагент", .counterparty),
    ("товар", .product)]

/-- Words after which a pronoun stands. -/
def FOCUS_PREPOSITIONS : List String :=
  ["для", "по", "на", "в", "у", "до", "з", "із", "зі", "від", "про", "за", "к",
    "с", "со", "из", "от", "о", "об"]

/-- Words that may lead in a continuation. -/
def CONTINUATION_LEADS : List String := ["і", "й", "а", "та", "и"]

/-- Words for more, which a continuation has. -/
def CONTINUATION_MORE : List String := ["ще", "ещё", "еще"]

/-- The families of verbs, and `edit`, the contact edit that is said to a
pronoun. -/
inductive Family
  | delete
  | archive
  | restore
  | rename
  | opening
  | edit
deriving DecidableEq, Repr

/-- Verbs of renaming. -/
def RENAME_VERBS : List String :=
  ["перейменуй", "перейменуйте", "перейменувати", "переіменуй", "переіменуйте",
    "переіменувати", "переименуй", "переименуйте", "переименовать",
    "переназви", "переназвіть", "переназвати", "переназови", "переназовите",
    "переназвать"]

/-- The family of a verb. -/
def FOCUS_VERBS (word : String) : Option Family :=
  if word ∈ ["видали", "видаліть", "видалити", "видаляй", "видаляйте",
      "удали", "удалите", "удалить", "удаляй", "удаляйте", "вилучи", "вилучіть",
      "стери", "зітри", "сотри"] then some .delete
  else if word ∈ ["заархівуй", "заархівуйте", "заархівувати", "архівуй",
      "архівуйте", "заархивируй", "заархивируйте", "заархивировать",
      "архивируй", "архивируйте"] then some .archive
  else if word ∈ ["віднови", "відновіть", "відновити", "розархівуй",
      "розархівуйте", "розархівувати", "восстанови", "восстановите",
      "восстановить", "разархивируй", "разархивируйте", "разархивировать"] then
    some .restore
  else if word ∈ ["відкрий", "відкрийте", "відкрити", "открой", "откройте",
      "открыть", "покажи", "покажіть", "показати", "покажите", "показать"] then
    some .opening
  else none

/-- Phrases that say what a verb of moving does. -/
def FOCUS_ARCHIVE_PHRASES : List (String × Family) :=
  [("в архів", .archive), ("до архіву", .archive), ("в архив", .archive),
    ("з архіву", .restore), ("із архіву", .restore), ("из архива", .restore)]

/-- The action of each verb for each type of record. -/
def FAMILIES : Family → FocusType → Option String
  | .delete, .customer => some "customers.deleteCustomer"
  | .delete, .group => some "customers.deleteGroup"
  | .delete, .counterparty => some "customers.deleteCounterparty"
  | .delete, .priceList => some "pricing.deletePriceList"
  | .delete, .product => some "catalog.archiveProduct"
  | .delete, .order => some "orders.cancel"
  | .archive, .customer => some "customers.archiveCustomer"
  | .archive, .product => some "catalog.archiveProduct"
  | .restore, .customer => some "customers.restoreCustomer"
  | .restore, .product => some "catalog.restoreProduct"
  | .rename, .customer => some "customers.updateCustomer"
  | .rename, .group => some "customers.updateGroup"
  | .rename, .counterparty => some "customers.updateCounterparty"
  | .rename, .product => some "catalog.updateProduct"
  | .rename, .priceList => some "pricing.updatePriceList"
  | .opening, .customer => some "customers.getCustomer"
  | .opening, .group => some "customers.getGroup"
  | .opening, .counterparty => some "customers.getCounterparty"
  | .opening, .product => some "catalog.getProduct"
  | .opening, .priceList => some "pricing.getPriceList"
  | .opening, .order => some "orders.get"
  | .edit, .customer => some "customers.updateCustomer"
  | .edit, .counterparty => some "customers.updateCounterparty"
  | _, _ => none

/-- `Object.values(FAMILIES[family]).includes(action)`. -/
def Family.has (family : Family) (action : String) : Bool :=
  FocusType.all.any fun type => FAMILIES family type = some action

/-- The params that an edit may be about. -/
def EDITED : List String := ["phone", "email", "comment"]

/-- A restore is the one action that a closed record fits. -/
def RESTORES : List String :=
  ["customers.restoreCustomer", "catalog.restoreProduct"]

end Shozee.Sho
