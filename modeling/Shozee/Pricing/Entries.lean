import Mathlib.Data.List.Nodup
import Shozee.Pricing.Resolve
import Shozee.Run.Grouping

/-!
# Setting the entries of a price list

`setStaffPriceListEntries` keeps the last entry of the input for each product
and variant, looks up which of these have a row, inserts the others in one
statement and updates the rest in another. In memory a product and a variant
are the text of their ids, as the request or the database wrote it; in the
table they are uuids.

A request may write an id in any letter case (`IdText`), the database returns
it in lower case. The table keeps its constraints as fields, so a statement
that would break one has no next table and fails.
-/

namespace Shozee.Pricing

open Shozee.Run

/-! ## The input

Ids and prices as texts of the wire. An id may be written in capitals. -/

/-- The text of an id in a request. -/
structure IdText where
  text : String
  letters : isCanonicalUuid (text.toList.map Char.toLower) = true
deriving DecidableEq

/-- The id that the database takes the text for. -/
def IdText.uuid (id : IdText) : Uuid :=
  ⟨String.ofList (id.text.toList.map Char.toLower),
    canonical_ofList id.letters⟩

/-- What a money text of the wire says: the texts are canonical, so they are
one to one with the amounts. -/
structure MoneyWire where
  minor : ℕ
  int64 : minor ≤ 9223372036854775807
deriving DecidableEq

/-- The only currency that prices have. -/
def DEFAULT_PRICE_CURRENCY : String := "UAH"

/-- An entry of the input. Its currency is the one literal that the schema
takes. -/
structure SetEntry where
  productId : IdText
  variantId : Option IdText
  priceMinor : MoneyWire
  currency : String
  literal : currency = DEFAULT_PRICE_CURRENCY
deriving DecidableEq

/-- An input has this many entries at most. -/
def SET_PRICE_LIST_ENTRIES_MAX_ITEMS : ℕ := 200

/-- The input as the schema lets it through. -/
structure SetInput where
  priceListId : IdText
  entries : List SetEntry
  min : 1 ≤ entries.length
  max : entries.length ≤ SET_PRICE_LIST_ENTRIES_MAX_ITEMS

/-! ## The table

The rows, their two unique indexes and the foreign keys. -/

/-- What locking a product reads of it. -/
structure Product where
  id : Uuid
  companyId : Uuid
deriving DecidableEq

/-- What locking a variant reads of it. -/
structure ProductVariant where
  id : Uuid
  companyId : Uuid
  productId : Uuid
deriving DecidableEq

/-- The tables that an entry refers to. -/
structure Referenced where
  priceLists : List PriceList
  products : List Product
  variants : List ProductVariant
  list_unique : ∀ a ∈ priceLists, ∀ b ∈ priceLists, a.id = b.id → a = b

/-- The foreign keys of a row. -/
structure Referenced.Has (referenced : Referenced) (row : PriceListEntry) :
    Prop where
  list : ∃ list ∈ referenced.priceLists,
    list.companyId = row.companyId ∧ list.id = row.priceListId
  product : ∃ product ∈ referenced.products,
    product.companyId = row.companyId ∧ product.id = row.productId
  variant : ∀ variantId ∈ row.variantId, ∃ variant ∈ referenced.variants,
    variant.companyId = row.companyId ∧ variant.id = variantId

instance (referenced : Referenced) (row : PriceListEntry) :
    Decidable (referenced.Has row) :=
  decidable_of_iff
    ((∃ list ∈ referenced.priceLists,
        list.companyId = row.companyId ∧ list.id = row.priceListId) ∧
      (∃ product ∈ referenced.products,
        product.companyId = row.companyId ∧ product.id = row.productId) ∧
      (∀ variantId ∈ row.variantId, ∃ variant ∈ referenced.variants,
        variant.companyId = row.companyId ∧ variant.id = variantId))
    ⟨fun ⟨list, product, variant⟩ => ⟨list, product, variant⟩,
      fun ⟨list, product, variant⟩ => ⟨list, product, variant⟩⟩

/-- The columns of the two partial unique indexes: no variant is a value of
its own. -/
def PriceListEntry.key (row : PriceListEntry) : Uuid × Uuid × Option Uuid :=
  (row.priceListId, row.productId, row.variantId)

/-- The entries of all price lists. -/
structure EntryTable (referenced : Referenced) where
  rows : List PriceListEntry
  id_unique : (rows.map PriceListEntry.id).Nodup
  key_unique : (rows.map PriceListEntry.key).Nodup
  refers : ∀ row ∈ rows, referenced.Has row

/-- Why the action ends without its effect. A row that the table refuses is a
`constraint`. -/
inductive Failure
  | notFound
  | invariant (message : String)
  | constraint
deriving DecidableEq, Repr

variable {referenced : Referenced}

namespace EntryTable

/-- What the constraints ask of a new row. -/
def Admits (table : EntryTable referenced) (row : PriceListEntry) : Prop :=
  row.id ∉ table.rows.map PriceListEntry.id ∧
    row.key ∉ table.rows.map PriceListEntry.key ∧ referenced.Has row

instance (table : EntryTable referenced) (row : PriceListEntry) :
    Decidable (table.Admits row) := by
  unfold Admits
  infer_instance

/-- The table with a row that it admits. -/
def push (table : EntryTable referenced) (row : PriceListEntry)
    (h : table.Admits row) : EntryTable referenced where
  rows := table.rows ++ [row]
  id_unique := by
    rw [List.map_append, List.map_singleton, ← List.concat_eq_append]
    exact table.id_unique.concat h.1
  key_unique := by
    rw [List.map_append, List.map_singleton, ← List.concat_eq_append]
    exact table.key_unique.concat h.2.1
  refers := by
    intro a ha
    rcases List.mem_append.mp ha with ha | ha
    · exact table.refers a ha
    · rw [List.mem_singleton.mp ha]
      exact h.2.2

/-- One row of an `insert`. -/
def insertRow (table : EntryTable referenced) (row : PriceListEntry) :
    Except Failure (EntryTable referenced) :=
  if h : table.Admits row then .ok (table.push row h) else .error .constraint

/-- An `insert` of several rows. -/
def insert (table : EntryTable referenced) (rows : List PriceListEntry) :
    Except Failure (EntryTable referenced) :=
  rows.foldlM insertRow table

end EntryTable

/-- The price and the currency that the `case` on the id of a row chooses,
where the row is one of those the `where` asks for. -/
def chosenFor (companyId : Uuid) (cases : List (Uuid × ℤ × String))
    (row : PriceListEntry) : Option (ℤ × String) :=
  if row.companyId = companyId then
    (cases.find? fun choice => choice.1 = row.id).map Prod.snd
  else none

/-- What the update makes of a row: the price chosen for it, if one is. -/
def updateRow (companyId : Uuid) (cases : List (Uuid × ℤ × String))
    (row : PriceListEntry) : PriceListEntry :=
  match chosenFor companyId cases row with
  | some (priceMinor, currency) =>
      { row with priceMinor := priceMinor, currency := currency }
  | none => row

theorem updateRow_id (companyId : Uuid) (cases : List (Uuid × ℤ × String))
    (row : PriceListEntry) : (updateRow companyId cases row).id = row.id := by
  unfold updateRow
  split <;> rfl

theorem updateRow_companyId (companyId : Uuid)
    (cases : List (Uuid × ℤ × String)) (row : PriceListEntry) :
    (updateRow companyId cases row).companyId = row.companyId := by
  unfold updateRow
  split <;> rfl

theorem updateRow_key (companyId : Uuid) (cases : List (Uuid × ℤ × String))
    (row : PriceListEntry) :
    (updateRow companyId cases row).key = row.key := by
  unfold updateRow
  split <;> rfl

theorem updateRow_has {companyId : Uuid} {cases : List (Uuid × ℤ × String)}
    {row : PriceListEntry} (h : referenced.Has row) :
    referenced.Has (updateRow companyId cases row) := by
  unfold updateRow
  split
  · exact ⟨h.list, h.product, h.variant⟩
  · exact h

/-- The `update`. -/
def EntryTable.update (table : EntryTable referenced) (companyId : Uuid)
    (cases : List (Uuid × ℤ × String)) : EntryTable referenced where
  rows := table.rows.map (updateRow companyId cases)
  id_unique := by
    rw [List.map_map]
    have hid : PriceListEntry.id ∘ updateRow companyId cases =
        PriceListEntry.id := funext (updateRow_id companyId cases)
    rw [hid]
    exact table.id_unique
  key_unique := by
    rw [List.map_map]
    have hkey : PriceListEntry.key ∘ updateRow companyId cases =
        PriceListEntry.key := funext (updateRow_key companyId cases)
    rw [hkey]
    exact table.key_unique
  refers := by
    intro row hrow
    obtain ⟨old, hold, rfl⟩ := List.mem_map.mp hrow
    exact updateRow_has (table.refers old hold)

/-! ## The action

From the input to the two statements and to what is returned. -/

/-- The key of an entry. The separator is in no id. -/
def entryKey (productId : String) (variantId : Option String) : String :=
  match variantId with
  | none => .ofList (productId.toList ++ ['|'])
  | some variantId => .ofList (productId.toList ++ '|' :: variantId.toList)

/-- The key of an entry of the input, as it was written. -/
def SetEntry.textKey (entry : SetEntry) : String :=
  entryKey entry.productId.text (entry.variantId.map (·.text))

/-- The key of a stored entry. -/
def PriceListEntry.textKey (row : PriceListEntry) : String :=
  entryKey row.productId.text (row.variantId.map (·.text))

/-- The order in which entries are written, which is the order their rows are
locked in. -/
def comparePriceListEntryKeys (left right : SetEntry) : Ordering :=
  if left.productId.text ≠ right.productId.text then
    if left.productId.text < right.productId.text then .lt else .gt
  else
    let leftVariant := (left.variantId.map (·.text)).getD ""
    let rightVariant := (right.variantId.map (·.text)).getD ""
    if leftVariant = rightVariant then .eq
    else if leftVariant < rightVariant then .lt
    else .gt

/-- The last entry of each key, sorted. -/
def lastWriteWins (entries : List SetEntry) : List SetEntry :=
  (lastOnes SetEntry.textKey entries).mergeSort fun a b =>
    (comparePriceListEntryKeys a b).isLE

/-- The price list of the input, locked; another company's is not found. -/
def requireLockedPriceListId (referenced : Referenced) (companyId : Uuid)
    (id : IdText) : Except Failure Uuid :=
  match referenced.priceLists.find? fun list =>
      list.companyId = companyId && list.id = id.uuid with
  | some list => .ok list.id
  | none => .error .notFound

/-- `asc(productId), asc(variantId)`, a missing variant last. -/
def selectedBefore (a b : PriceListEntry) : Bool :=
  if a.productId = b.productId then
    match a.variantId, b.variantId with
    | _, none => true
    | none, some _ => false
    | some a, some b => a ≤ b
  else a.productId ≤ b.productId

/-- The rows of the list for the products of the input, locked in their order.
-/
def existingRows (table : EntryTable referenced) (companyId listId : Uuid)
    (productIds : List Uuid) : List PriceListEntry :=
  (table.rows.filter fun row =>
    row.companyId = companyId ∧ row.priceListId = listId ∧
      row.productId ∈ productIds).mergeSort selectedBefore

/-- The ids of those rows by their keys. -/
def existingByKey (rows : List PriceListEntry) : Dict String Uuid :=
  rows.foldl (fun byKey row => byKey.set row.textKey row.id) Dict.empty

/-- An entry with the row it is to update, if there is one. -/
structure PreparedEntry where
  entry : SetEntry
  existingId : Option Uuid

/-- The amount of a wire text. -/
def moneyFromCanonical (encoded : MoneyWire) : ℤ := encoded.minor

/-- An entry and the row with its key. -/
def prepare (existing : Dict String Uuid) (entry : SetEntry) :
    PreparedEntry where
  entry := entry
  existingId := existing entry.textKey

/-- The entries that have no row. -/
def toInsert (prepared : List PreparedEntry) : List PreparedEntry :=
  prepared.filter fun row => row.existingId = none

/-- The cases of the `update`. -/
def toUpdate (prepared : List PreparedEntry) : List (Uuid × ℤ × String) :=
  prepared.filterMap fun row => row.existingId.map fun existingId =>
    (existingId, moneyFromCanonical row.entry.priceMinor, row.entry.currency)

/-- The row of an entry that has none, with the id that is drawn for it. -/
def newRow (companyId listId : Uuid) (prepared : PreparedEntry) (id : Uuid) :
    PriceListEntry where
  id := id
  companyId := companyId
  priceListId := listId
  productId := prepared.entry.productId.uuid
  variantId := prepared.entry.variantId.map IdText.uuid
  priceMinor := moneyFromCanonical prepared.entry.priceMinor
  currency := prepared.entry.currency

/-- The check that a statement changed as many rows as it was to. -/
def expectRows (rows expected : ℕ) (message : String) :
    Except Failure Unit :=
  if rows ≠ expected then .error (.invariant message) else .ok ()

/-- The rows that the statements returned, by their keys. -/
def returnedByKey (rows : List PriceListEntry) : Dict String PriceListEntry :=
  rows.foldl (fun byKey row => byKey.set row.textKey row) Dict.empty

/-- A row as it is answered. -/
structure PriceListEntryView where
  id : Uuid
  priceListId : Uuid
  productId : Uuid
  variantId : Option Uuid
  priceMinor : ℤ
  currency : String
deriving DecidableEq

/-- The check that a stored row has the currency. -/
def requireUah (currency : String) : Except Failure String :=
  if currency ≠ "UAH" then
    .error (.invariant "expected UAH (db.md §11 UAH-only MVP)")
  else .ok "UAH"

/-- The answer of a row. -/
def toPriceListEntryView (row : PriceListEntry) :
    Except Failure PriceListEntryView :=
  (requireUah row.currency).map fun currency =>
    { id := row.id
      priceListId := row.priceListId
      productId := row.productId
      variantId := row.variantId
      priceMinor := row.priceMinor
      currency := currency }

/-- The answer of an entry, from the row returned for its key. -/
def viewOf (returned : Dict String PriceListEntry) (prepared : PreparedEntry) :
    Except Failure PriceListEntryView :=
  match returned prepared.entry.textKey with
  | none => .error
      (.invariant "pricing.setPriceListEntries missing returned row")
  | some row => toPriceListEntryView row

/-- The rows that the `update` returns. -/
def EntryTable.updatedRows (table : EntryTable referenced) (companyId : Uuid)
    (cases : List (Uuid × ℤ × String)) : List PriceListEntry :=
  (table.rows.filter fun row => (chosenFor companyId cases row).isSome).map
    (updateRow companyId cases)

/-- The ids that `randomUUID` gives are those of `draws`, in order. -/
def setStaffPriceListEntries (table : EntryTable referenced)
    (companyId : Uuid) (draws : List Uuid) (input : SetInput) :
    Except Failure (EntryTable referenced × List PriceListEntryView) := do
  let listId ← requireLockedPriceListId referenced companyId input.priceListId
  let entries := lastWriteWins input.entries
  let existing := existingByKey (existingRows table companyId listId
    (entries.map fun entry => entry.productId.uuid))
  let prepared := entries.map (prepare existing)
  let inserted := List.zipWith (newRow companyId listId) (toInsert prepared)
    draws
  let grown ← table.insert inserted
  expectRows inserted.length (toInsert prepared).length
    "pricing.setPriceListEntries insert returned the wrong number of rows"
  let updated := grown.updatedRows companyId (toUpdate prepared)
  expectRows updated.length (toUpdate prepared).length
    "pricing.setPriceListEntries update returned the wrong number of rows"
  let items ← prepared.mapM (viewOf (returnedByKey (inserted ++ updated)))
  return (grown.update companyId (toUpdate prepared), items)

end Shozee.Pricing
