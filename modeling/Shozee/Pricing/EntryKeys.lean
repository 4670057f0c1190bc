import Mathlib.Data.List.Basic
import Shozee.Run.Traverse
import Shozee.Pricing.Entries

/-!
# Text keys of entries

The text key of a row is that of its ids as the database writes them, and the
text keys of two entries are equal only as texts. So an entry that writes an
id with a capital letter has no row under its key, neither before the
statements nor among the rows they return, and the call fails
(`inLowerCase_of_ok`). For ids in lower case the text keys are one to one with
the products and variants they are keys of (`textOf_inj`).
-/

namespace Shozee.Pricing

open Shozee.Run

/-! ## Keys

A product or a variant has one text in lower case, and this is the one that the
database writes. -/

/-- A product, or one of its variants. -/
abbrev ItemKey := Uuid × Option Uuid

/-- The product and variant of an entry, whatever letters its ids are written
in. -/
def SetEntry.itemKey (entry : SetEntry) : ItemKey :=
  (entry.productId.uuid, entry.variantId.map IdText.uuid)

/-- The product and variant of a stored entry. -/
def PriceListEntry.itemKey (row : PriceListEntry) : ItemKey :=
  (row.productId, row.variantId)

/-- The text key of a product or a variant, its ids in lower case. -/
def textOf (key : ItemKey) : String :=
  entryKey key.1.text (key.2.map Uuid.text)

theorem PriceListEntry.textKey_eq (row : PriceListEntry) :
    row.textKey = textOf row.itemKey := rfl

theorem PriceListEntry.key_eq_iff {row row' : PriceListEntry} :
    row.key = row'.key ↔
      row.priceListId = row'.priceListId ∧ row.itemKey = row'.itemKey := by
  unfold PriceListEntry.key PriceListEntry.itemKey
  rw [Prod.mk.injEq]

/-- An id written as the database writes it. -/
def IdText.InLowerCase (id : IdText) : Prop :=
  id.text.toList.map Char.toLower = id.text.toList

instance (id : IdText) : Decidable id.InLowerCase := by
  unfold IdText.InLowerCase
  infer_instance

/-- An entry whose ids are written in lower case. -/
structure SetEntry.InLowerCase (entry : SetEntry) : Prop where
  product : entry.productId.InLowerCase
  variant : ∀ variantId ∈ entry.variantId, variantId.InLowerCase

instance (entry : SetEntry) : Decidable entry.InLowerCase :=
  decidable_of_iff (entry.productId.InLowerCase ∧
      ∀ variantId ∈ entry.variantId, variantId.InLowerCase)
    ⟨fun ⟨product, variant⟩ => ⟨product, variant⟩,
      fun ⟨product, variant⟩ => ⟨product, variant⟩⟩

theorem IdText.text_eq {id : IdText} (h : id.InLowerCase) :
    id.text = id.uuid.text := by
  unfold IdText.uuid
  dsimp only
  rw [h, String.ofList_toList]

theorem IdText.inLowerCase_of_text {id : IdText} {uuid : Uuid}
    (h : id.text = uuid.text) : id.InLowerCase ∧ id.uuid = uuid := by
  have hlower : id.InLowerCase := by
    unfold IdText.InLowerCase
    rw [h]
    exact uuid.map_toLower_text
  exact ⟨hlower, Uuid.ext_text (by rw [← text_eq hlower, h])⟩

theorem Uuid.bar_notMem (id : Uuid) : '|' ∉ id.text.toList :=
  id.notMem_text (by decide) (by decide)

theorem IdText.bar_notMem (id : IdText) : '|' ∉ id.text.toList := by
  intro hmem
  refine Uuid.bar_notMem id.uuid ?_
  unfold IdText.uuid
  dsimp only
  rw [String.toList_ofList]
  exact List.mem_map.mpr ⟨'|', hmem, rfl⟩

theorem entryKey_eq (productId : String) (variantId : Option String) :
    entryKey productId variantId = .ofList
      (productId.toList ++ '|' :: variantId.elim [] String.toList) := by
  cases variantId <;> rfl

/-- A text key says which texts it was made of. -/
theorem entryKey_inj {p p' : String} {v v' : Option String}
    (hp : '|' ∉ p.toList) (hbar : '|' ∉ v.elim [] String.toList)
    (hv : v ≠ some "") (hv' : v' ≠ some "")
    (h : entryKey p v = entryKey p' v') : p = p' ∧ v = v' := by
  rw [entryKey_eq, entryKey_eq, String.ofList_inj] at h
  obtain ⟨hproduct, -, hvariant⟩ :=
    (List.append_cons_inj_of_notMem hp hbar).mp h
  refine ⟨String.toList_inj.mp hproduct, ?_⟩
  cases v with
  | none =>
      cases v' with
      | none => rfl
      | some v' =>
          have hempty : v' = "" := String.toList_inj.mp hvariant.symm
          exact absurd (congrArg some hempty) hv'
  | some v =>
      cases v' with
      | none =>
          have hempty : v = "" := String.toList_inj.mp hvariant
          exact absurd (congrArg some hempty) hv
      | some v' => exact congrArg some (String.toList_inj.mp hvariant)

theorem Uuid.text_ne_empty (id : Uuid) : id.text ≠ "" := by
  intro h
  have hlength := id.length_text
  rw [h] at hlength
  cases hlength

theorem IdText.text_ne_empty (id : IdText) : id.text ≠ "" := by
  intro h
  have hlength := id.uuid.length_text
  unfold IdText.uuid at hlength
  dsimp only at hlength
  rw [h] at hlength
  cases hlength

theorem map_ne_some_empty {α : Type} {text : α → String}
    (h : ∀ a, text a ≠ "") (v : Option α) : v.map text ≠ some "" := by
  intro hmap
  obtain ⟨a, -, ha⟩ := Option.map_eq_some_iff.mp hmap
  exact h a ha

theorem bar_notMem_map {α : Type} {text : α → String}
    (h : ∀ a, '|' ∉ (text a).toList) (v : Option α) :
    '|' ∉ (v.map text).elim [] String.toList := by
  cases v with
  | none => exact List.not_mem_nil
  | some a => exact h a

theorem textOf_inj {key key' : ItemKey} (h : textOf key = textOf key') :
    key = key' := by
  obtain ⟨hproduct, hvariant⟩ := entryKey_inj (Uuid.bar_notMem key.1)
    (bar_notMem_map Uuid.bar_notMem key.2)
    (map_ne_some_empty Uuid.text_ne_empty key.2)
    (map_ne_some_empty Uuid.text_ne_empty key'.2) h
  refine Prod.ext (Uuid.ext_text (congrArg String.toList hproduct)) ?_
  refine Option.map_injective (fun a b hab => ?_) hvariant
  exact Uuid.ext_text (congrArg String.toList hab)

/-- An entry in lower case has the text key of what it is about. -/
theorem SetEntry.textKey_eq {entry : SetEntry} (h : entry.InLowerCase) :
    entry.textKey = textOf entry.itemKey := by
  unfold SetEntry.textKey textOf SetEntry.itemKey
  rw [← IdText.text_eq h.product, Option.map_map]
  refine congrArg _ (Option.map_congr fun variantId hmem => ?_)
  exact IdText.text_eq (h.variant variantId hmem)

/-- No other entry has a text key that a row may have. -/
theorem SetEntry.inLowerCase_of_textKey {entry : SetEntry} {key : ItemKey}
    (h : entry.textKey = textOf key) :
    entry.InLowerCase ∧ entry.itemKey = key := by
  obtain ⟨hproduct, hvariant⟩ := entryKey_inj entry.productId.bar_notMem
    (bar_notMem_map IdText.bar_notMem entry.variantId)
    (map_ne_some_empty IdText.text_ne_empty entry.variantId)
    (map_ne_some_empty Uuid.text_ne_empty key.2) h
  obtain ⟨hlower, hid⟩ := IdText.inLowerCase_of_text hproduct
  obtain ⟨productId, variantId⟩ := key
  cases hentry : entry.variantId with
  | none =>
      rw [hentry] at hvariant
      cases variantId with
      | none =>
          refine ⟨⟨hlower, fun v hv => ?_⟩, ?_⟩
          · rw [hentry] at hv
            cases hv
          · unfold SetEntry.itemKey
            rw [hid, hentry]
            rfl
      | some variantId => cases hvariant
  | some written =>
      rw [hentry] at hvariant
      cases variantId with
      | none => cases hvariant
      | some variantId =>
          obtain ⟨hlower', hid'⟩ :=
            IdText.inLowerCase_of_text (Option.some.inj hvariant)
          refine ⟨⟨hlower, fun v hv => ?_⟩, ?_⟩
          · rw [hentry] at hv
            cases hv
            exact hlower'
          · unfold SetEntry.itemKey
            rw [hid, hentry, Option.map_some, hid']

/-! ## The entries that are kept

Of the entries with one text key the last one is kept. -/

theorem mem_lastWriteWins {entries : List SetEntry} {entry : SetEntry} :
    entry ∈ lastWriteWins entries ↔
      lastAt SetEntry.textKey entries entry.textKey = some entry := by
  unfold lastWriteWins
  rw [(List.mergeSort_perm _ _).mem_iff, mem_lastOnes]

theorem nodup_lastWriteWins (entries : List SetEntry) :
    ((lastWriteWins entries).map SetEntry.textKey).Nodup := by
  unfold lastWriteWins
  rw [((List.mergeSort_perm _ _).map SetEntry.textKey).nodup_iff]
  exact nodup_lastOnes entries

variable {referenced : Referenced}

/-! ## Entries that are not in lower case

No row is returned under their key, and a call with such an entry throws. -/

/-- What is returned under a text key is one of the rows, with that key. -/
theorem returnedByKey_eq_some {rows : List PriceListEntry} {text : String}
    {row : PriceListEntry} (h : returnedByKey rows text = some row) :
    row ∈ rows ∧ row.textKey = text := by
  have hfold := Dict.foldl_set (fun row : PriceListEntry => some row.textKey)
    id rows Dict.empty text
  change returnedByKey rows text = _ at hfold
  rw [h, Option.map_id, id, Dict.empty, Option.or_none] at hfold
  have hkey := List.find?_some hfold.symm
  rw [decide_eq_true_eq, Option.some.injEq] at hkey
  exact ⟨List.mem_reverse.mp (List.mem_of_find?_eq_some hfold.symm), hkey⟩

theorem exists_returnedByKey {rows : List PriceListEntry}
    {row : PriceListEntry} (h : row ∈ rows) :
    ∃ returned, returnedByKey rows row.textKey = some returned := by
  have hfold := Dict.foldl_set (fun row : PriceListEntry => some row.textKey)
    id rows Dict.empty row.textKey
  change returnedByKey rows row.textKey = _ at hfold
  rw [hfold, ← Option.isSome_iff_exists, Option.map_id, id, Dict.empty,
    Option.or_none, List.find?_isSome]
  exact ⟨row, List.mem_reverse.mpr h, decide_eq_true rfl⟩

/-- A call that succeeds was given ids in lower case only. -/
theorem inLowerCase_of_ok {table table' : EntryTable referenced}
    {companyId : Uuid} {draws : List Uuid} {input : SetInput}
    {items : List PriceListEntryView}
    (h : setStaffPriceListEntries table companyId draws input =
      .ok (table', items)) :
    ∀ entry ∈ input.entries, entry.InLowerCase := by
  intro entry hentry
  unfold setStaffPriceListEntries at h
  obtain ⟨listId, -, h⟩ := bind_eq_ok.mp h
  obtain ⟨grown, -, h⟩ := bind_eq_ok.mp h
  obtain ⟨_, -, h⟩ := bind_eq_ok.mp h
  obtain ⟨_, -, h⟩ := bind_eq_ok.mp h
  obtain ⟨items', hitems, -⟩ := bind_eq_ok.mp h
  have hviews := exists_mapM_iff.mp ⟨items', hitems⟩
  -- the last entry with the same text key has a view
  have hexists : ∃ last, lastAt SetEntry.textKey input.entries
      entry.textKey = some last := exists_lastAt hentry
  obtain ⟨last, hlast⟩ := hexists
  have hsame := (lastAt_key hlast).2
  have hkept : last ∈ lastWriteWins input.entries := by
    rw [mem_lastWriteWins, hsame]
    exact hlast
  obtain ⟨view, hview⟩ := hviews _ (List.mem_map_of_mem hkept)
  unfold viewOf at hview
  split at hview
  · cases hview
  next row hrow =>
    obtain ⟨-, hkey⟩ := returnedByKey_eq_some hrow
    have htext : entry.textKey = textOf row.itemKey := by
      rw [← hsame, ← PriceListEntry.textKey_eq]
      exact hkey.symm
    exact (SetEntry.inLowerCase_of_textKey htext).1

end Shozee.Pricing
