import Mathlib.Data.List.Perm.Subperm
import Shozee.Pricing.Reference
import Shozee.Pricing.EntryKeys

/-!
# Setting entries is an upsert for ids in lower case

The entries that are kept fall into those that have a row in the list and
those that have none. What a row comes to after the two statements is said
once for each kind of row (`chosenFor_iff`, `mem_final`), and the list is then
its old entries overridden by the input (`IsUpsert`), as it is after one call
for each entry.
-/

namespace Shozee.Pricing

open Shozee.Run

variable {referenced : Referenced}

/-! ## The rows of a list

A list has one row for a product or a variant, and a price by it. -/

namespace EntryTable

/-- The row of a list for a product or a variant. -/
def rowAt (table : EntryTable referenced) (listId : Uuid) (key : ItemKey) :
    Option PriceListEntry :=
  table.rows.find? fun row => row.priceListId = listId ∧ row.itemKey = key

/-- What the list asks for it. -/
def priceAt (table : EntryTable referenced) (listId : Uuid) (key : ItemKey) :
    Option (ℤ × String) :=
  (table.rowAt listId key).map fun row => (row.priceMinor, row.currency)

variable {table : EntryTable referenced} {companyId listId : Uuid}

theorem eq_of_id {row row' : PriceListEntry} (h : row ∈ table.rows)
    (h' : row' ∈ table.rows) (hid : row.id = row'.id) : row = row' :=
  List.inj_on_of_nodup_map table.id_unique h h' hid

theorem eq_of_key {row row' : PriceListEntry} (h : row ∈ table.rows)
    (h' : row' ∈ table.rows) (hkey : row.key = row'.key) : row = row' :=
  List.inj_on_of_nodup_map table.key_unique h h' hkey

theorem rowAt_eq_some {key : ItemKey} {row : PriceListEntry} :
    table.rowAt listId key = some row ↔
      row ∈ table.rows ∧ row.priceListId = listId ∧ row.itemKey = key := by
  have honly : Only (fun row : PriceListEntry =>
      row.priceListId = listId ∧ row.itemKey = key) table.rows := by
    intro a ha b hb hpa hpb
    rw [decide_eq_true_eq] at hpa hpb
    exact eq_of_key ha hb (PriceListEntry.key_eq_iff.mpr
      ⟨hpa.1.trans hpb.1.symm, hpa.2.trans hpb.2.symm⟩)
  unfold rowAt
  rw [honly.find?_eq_some_iff, decide_eq_true_eq]

theorem rowAt_eq_none {key : ItemKey} :
    table.rowAt listId key = none ↔
      ∀ row ∈ table.rows, row.priceListId = listId → row.itemKey ≠ key := by
  unfold rowAt
  rw [List.find?_eq_none]
  refine forall_congr' fun row => forall_congr' fun _ => ?_
  rw [decide_eq_true_eq, not_and]

/-- A list is the list of one company. -/
theorem companyId_of_list (hlist : ∃ list ∈ referenced.priceLists,
      list.companyId = companyId ∧ list.id = listId)
    {row : PriceListEntry} (hrow : row ∈ table.rows)
    (hid : row.priceListId = listId) : row.companyId = companyId := by
  obtain ⟨list, hmem, hcompany, hlistId⟩ := hlist
  obtain ⟨list', hmem', hcompany', hlistId'⟩ := (table.refers row hrow).list
  have hsame : list' = list := referenced.list_unique list' hmem' list hmem
    (by rw [hlistId', hid, hlistId])
  rw [← hcompany', hsame, hcompany]

/-- The ids that are looked up in memory are those of the rows. -/
theorem existing_eq (hlist : ∃ list ∈ referenced.priceLists,
      list.companyId = companyId ∧ list.id = listId)
    {productIds : List Uuid} {key : ItemKey} (hproduct : key.1 ∈ productIds) :
    existingByKey (existingRows table companyId listId productIds)
        (textOf key) =
      (table.rowAt listId key).map PriceListEntry.id := by
  have hmem : ∀ row, row ∈ existingRows table companyId listId productIds ↔
      row ∈ table.rows ∧ row.companyId = companyId ∧
        row.priceListId = listId ∧ row.productId ∈ productIds := by
    intro row
    unfold existingRows
    rw [(List.mergeSort_perm _ _).mem_iff, List.mem_filter, decide_eq_true_eq]
  have hfold := Dict.foldl_set (fun row : PriceListEntry => some row.textKey)
    PriceListEntry.id (existingRows table companyId listId productIds)
    Dict.empty (textOf key)
  change existingByKey _ (textOf key) = _ at hfold
  rw [hfold, Dict.empty, Option.or_none]
  refine congrArg _ (Option.ext fun row => ?_)
  have honly : Only (fun row : PriceListEntry =>
      decide (some row.textKey = some (textOf key)))
      (existingRows table companyId listId productIds).reverse := by
    intro a ha b hb hpa hpb
    rw [List.mem_reverse, hmem] at ha hb
    rw [decide_eq_true_eq, Option.some.injEq] at hpa hpb
    exact eq_of_key ha.1 hb.1 (PriceListEntry.key_eq_iff.mpr
      ⟨ha.2.2.1.trans hb.2.2.1.symm, textOf_inj (hpa.trans hpb.symm)⟩)
  rw [honly.find?_eq_some_iff, rowAt_eq_some, List.mem_reverse, hmem,
    decide_eq_true_eq, Option.some.injEq]
  constructor
  · rintro ⟨⟨hrow, _, hid, _⟩, htext⟩
    exact ⟨hrow, hid, textOf_inj htext⟩
  · rintro ⟨hrow, hid, hkey⟩
    refine ⟨⟨hrow, companyId_of_list hlist hrow hid, hid, ?_⟩, ?_⟩
    · rw [← hkey] at hproduct
      exact hproduct
    · rw [PriceListEntry.textKey_eq, hkey]

/-! ## The insert

The insert adds its rows if the constraints let it. -/

/-- Rows that are new to the table, and apart from each other, are inserted. -/
theorem insert_eq_ok {rows : List PriceListEntry}
    (hids : (rows.map PriceListEntry.id).Nodup)
    (hkeys : (rows.map PriceListEntry.key).Nodup)
    (hnew : ∀ row ∈ rows, table.Admits row) :
    ∃ grown, table.insert rows = .ok grown ∧
      grown.rows = table.rows ++ rows := by
  induction rows generalizing table with
  | nil => exact ⟨table, rfl, (List.append_nil _).symm⟩
  | cons row rows ih =>
      rw [List.map_cons, List.nodup_cons] at hids hkeys
      have hrow := hnew row List.mem_cons_self
      have hrest : ∀ other ∈ rows, (table.push row hrow).Admits other := by
        intro other hmem
        obtain ⟨hid, hkey, hrefers⟩ := hnew other (List.mem_cons_of_mem _ hmem)
        unfold Admits push
        dsimp only
        rw [List.map_append, List.map_append, List.mem_append, List.mem_append]
        refine ⟨fun h => h.elim hid fun h => ?_,
          fun h => h.elim hkey fun h => ?_, hrefers⟩
        · rw [List.map_singleton, List.mem_singleton] at h
          exact hids.1 (h ▸ List.mem_map_of_mem hmem)
        · rw [List.map_singleton, List.mem_singleton] at h
          exact hkeys.1 (h ▸ List.mem_map_of_mem hmem)
      obtain ⟨grown, hinsert, hgrown⟩ := ih hids.2 hkeys.2 hrest
      refine ⟨grown, ?_, ?_⟩
      · unfold insert at hinsert ⊢
        rw [List.foldlM_cons]
        refine bind_eq_ok.mpr ⟨table.push row hrow, ?_, hinsert⟩
        unfold insertRow
        rw [dif_pos hrow]
      · rw [hgrown]
        unfold push
        dsimp only
        rw [List.append_assoc, List.singleton_append]

end EntryTable

/-! ## The new rows

A row for each entry that has none. -/

section NewRows

variable {companyId listId : Uuid}

theorem map_newRow {γ : Type} {g : PriceListEntry → γ}
    {g' : PreparedEntry → γ}
    (h : ∀ prepared id, g (newRow companyId listId prepared id) = g' prepared)
    {prepared : List PreparedEntry} {draws : List Uuid}
    (hlength : prepared.length ≤ draws.length) :
    (List.zipWith (newRow companyId listId) prepared draws).map g =
      prepared.map g' := by
  induction prepared generalizing draws with
  | nil => rfl
  | cons p prepared ih =>
      cases draws with
      | nil => cases hlength
      | cons id draws =>
          rw [List.zipWith_cons_cons, List.map_cons, List.map_cons, h,
            ih (Nat.le_of_succ_le_succ hlength)]

theorem map_id_newRow (prepared : List PreparedEntry) (draws : List Uuid) :
    (List.zipWith (newRow companyId listId) prepared draws).map
        PriceListEntry.id = draws.take prepared.length := by
  induction prepared generalizing draws with
  | nil => rfl
  | cons p prepared ih =>
      cases draws with
      | nil => rfl
      | cons id draws =>
          rw [List.zipWith_cons_cons, List.map_cons, List.length_cons,
            List.take_succ_cons, ih]
          rfl

theorem mem_newRows {prepared : List PreparedEntry} {draws : List Uuid}
    {row : PriceListEntry}
    (h : row ∈ List.zipWith (newRow companyId listId) prepared draws) :
    ∃ p ∈ prepared, ∃ id ∈ draws, newRow companyId listId p id = row := by
  rw [← List.map_uncurry_zip_eq_zipWith] at h
  obtain ⟨⟨p, id⟩, hmem, hrow⟩ := List.mem_map.mp h
  obtain ⟨hp, hid⟩ := List.of_mem_zip hmem
  exact ⟨p, hp, id, hid, hrow⟩

theorem exists_newRow {prepared : List PreparedEntry} {draws : List Uuid}
    (hlength : prepared.length ≤ draws.length) {p : PreparedEntry}
    (h : p ∈ prepared) :
    ∃ id, newRow companyId listId p id ∈
      List.zipWith (newRow companyId listId) prepared draws := by
  obtain ⟨i, hi, rfl⟩ := List.getElem_of_mem h
  refine ⟨draws[i], ?_⟩
  rw [← List.getElem_zipWith (f := newRow companyId listId)
    (h := by rw [List.length_zipWith]; omega)]
  exact List.getElem_mem _

end NewRows

/-! ## One call

What a call that goes through has been given, and how it parts the entries. -/

/-- The price and the currency of an entry. -/
def SetEntry.price (entry : SetEntry) : ℤ × String :=
  (moneyFromCanonical entry.priceMinor, entry.currency)

/-- What an entry names exists. -/
structure Referenced.Named (referenced : Referenced) (companyId : Uuid)
    (entry : SetEntry) : Prop where
  product : ∃ product ∈ referenced.products,
    product.companyId = companyId ∧ product.id = entry.productId.uuid
  variant : ∀ variantId ∈ entry.variantId,
    ∃ variant ∈ referenced.variants, variant.companyId = companyId ∧
      variant.id = variantId.uuid ∧
      variant.productId = entry.productId.uuid

instance (referenced : Referenced) (companyId : Uuid) (entry : SetEntry) :
    Decidable (referenced.Named companyId entry) :=
  decidable_of_iff
    ((∃ product ∈ referenced.products,
        product.companyId = companyId ∧ product.id = entry.productId.uuid) ∧
      (∀ variantId ∈ entry.variantId,
        ∃ variant ∈ referenced.variants, variant.companyId = companyId ∧
          variant.id = variantId.uuid ∧
          variant.productId = entry.productId.uuid))
    ⟨fun ⟨product, variant⟩ => ⟨product, variant⟩,
      fun ⟨product, variant⟩ => ⟨product, variant⟩⟩

/-- The ids that are drawn are new. -/
structure Fresh (table : EntryTable referenced) (draws : List Uuid) : Prop where
  nodup : draws.Nodup
  new : ∀ id ∈ draws, id ∉ table.rows.map PriceListEntry.id

/-- Entries in lower case, one for each key, and what is found for them. -/
structure Looked (table : EntryTable referenced) (companyId listId : Uuid)
    (entries : List SetEntry) (existing : Dict String Uuid) : Prop where
  list : ∃ list ∈ referenced.priceLists,
    list.companyId = companyId ∧ list.id = listId
  named : ∀ entry ∈ entries, referenced.Named companyId entry
  lower : ∀ entry ∈ entries, entry.InLowerCase
  keys : (entries.map SetEntry.itemKey).Nodup
  found : ∀ entry ∈ entries, existing entry.textKey =
    (table.rowAt listId entry.itemKey).map PriceListEntry.id

namespace Looked

variable {table : EntryTable referenced} {companyId listId : Uuid}
  {entries : List SetEntry} {existing : Dict String Uuid}
  {draws : List Uuid}

theorem mem_toInsert (h : Looked table companyId listId entries existing)
    {p : PreparedEntry} :
    p ∈ toInsert (entries.map (prepare existing)) ↔
      ∃ entry ∈ entries, table.rowAt listId entry.itemKey = none ∧
        p = ⟨entry, none⟩ := by
  unfold toInsert
  rw [List.mem_filter, List.mem_map, decide_eq_true_eq]
  constructor
  · intro ⟨⟨entry, hentry, hp⟩, hnone⟩
    rw [← hp] at hnone ⊢
    have hfound := h.found entry hentry
    unfold prepare at hnone ⊢
    dsimp only at hnone
    rw [hnone, eq_comm, Option.map_eq_none_iff] at hfound
    exact ⟨entry, hentry, hfound, by rw [hnone]⟩
  · intro ⟨entry, hentry, hnone, hp⟩
    have hfound := h.found entry hentry
    rw [hnone, Option.map_none] at hfound
    refine ⟨⟨entry, hentry, ?_⟩, by rw [hp]⟩
    rw [hp]
    unfold prepare
    rw [hfound]

theorem mem_toUpdate (h : Looked table companyId listId entries existing)
    {choice : Uuid × ℤ × String} :
    choice ∈ toUpdate (entries.map (prepare existing)) ↔
      ∃ entry ∈ entries, ∃ row,
        table.rowAt listId entry.itemKey = some row ∧
        choice = (row.id, entry.price) := by
  unfold toUpdate
  rw [List.filterMap_map, List.mem_filterMap]
  refine exists_congr fun entry => and_congr_right fun hentry => ?_
  have hfound := h.found entry hentry
  unfold Function.comp prepare SetEntry.price
  dsimp only
  rw [hfound, Option.map_map, Option.map_eq_some_iff]
  exact exists_congr fun row => and_congr_right fun _ => eq_comm

theorem ids_toUpdate (h : Looked table companyId listId entries existing) :
    ((toUpdate (entries.map (prepare existing))).map Prod.fst).Nodup := by
  have hids : (toUpdate (entries.map (prepare existing))).map Prod.fst =
      (entries.map SetEntry.itemKey).filterMap fun key =>
        (table.rowAt listId key).map PriceListEntry.id := by
    unfold toUpdate
    rw [List.filterMap_map, List.filterMap_map, List.map_filterMap]
    refine List.filterMap_congr fun entry hentry => ?_
    unfold Function.comp prepare
    dsimp only
    rw [h.found entry hentry, Option.map_map, Option.map_map]
    rfl
  rw [hids]
  refine h.keys.filterMap fun key key' id hid hid' => ?_
  obtain ⟨row, hrow, hrowId⟩ := Option.map_eq_some_iff.mp hid
  obtain ⟨row', hrow', hrowId'⟩ := Option.map_eq_some_iff.mp hid'
  rw [EntryTable.rowAt_eq_some] at hrow hrow'
  rw [← hrow.2.2, ← hrow'.2.2, table.eq_of_id hrow.1 hrow'.1
    (hrowId.trans hrowId'.symm)]

theorem length_toInsert (existing : Dict String Uuid)
    (entries : List SetEntry) :
    (toInsert (entries.map (prepare existing))).length ≤ entries.length := by
  unfold toInsert
  refine (List.length_filter_le _ _).trans ?_
  rw [List.length_map]

theorem keys_toInsert (h : Looked table companyId listId entries existing) :
    ((toInsert (entries.map (prepare existing))).map fun p =>
      p.entry.itemKey).Nodup := by
  unfold toInsert
  refine List.Nodup.sublist (List.filter_sublist.map _) ?_
  rw [List.map_map]
  exact h.keys

/-- The new rows fit into the table. -/
theorem admits (h : Looked table companyId listId entries existing)
    (hfresh : Fresh table draws) {row : PriceListEntry}
    (hrow : row ∈ List.zipWith (newRow companyId listId)
      (toInsert (entries.map (prepare existing))) draws) :
    table.Admits row := by
  obtain ⟨p, hp, id, hid, rfl⟩ := mem_newRows hrow
  obtain ⟨entry, hentry, hnone, rfl⟩ := h.mem_toInsert.mp hp
  obtain ⟨hproduct, hvariant⟩ := h.named entry hentry
  refine ⟨hfresh.new id hid, fun hmem => ?_, h.list, hproduct, ?_⟩
  · obtain ⟨old, hold, hkey⟩ := List.mem_map.mp hmem
    rw [PriceListEntry.key_eq_iff] at hkey
    exact EntryTable.rowAt_eq_none.mp hnone old hold hkey.1 hkey.2
  · intro variantId hmem
    obtain ⟨written, hwritten, rfl⟩ := Option.map_eq_some_iff.mp hmem
    obtain ⟨variant, hin, hcompany, hvariantId, -⟩ := hvariant written hwritten
    exact ⟨variant, hin, hcompany, hvariantId⟩

theorem exists_insert (h : Looked table companyId listId entries existing)
    (hfresh : Fresh table draws) (hlength : entries.length ≤ draws.length) :
    ∃ grown, table.insert (List.zipWith (newRow companyId listId)
        (toInsert (entries.map (prepare existing))) draws) = .ok grown ∧
      grown.rows = table.rows ++ List.zipWith (newRow companyId listId)
        (toInsert (entries.map (prepare existing))) draws := by
  refine EntryTable.insert_eq_ok ?_ ?_ fun row => h.admits hfresh
  · rw [map_id_newRow]
    exact hfresh.nodup.sublist (List.take_sublist _ _)
  · have hkeys : (List.zipWith (newRow companyId listId)
        (toInsert (entries.map (prepare existing))) draws).map
          PriceListEntry.key =
        (toInsert (entries.map (prepare existing))).map fun p =>
          (listId, p.entry.itemKey) :=
      map_newRow (fun _ _ => rfl)
        ((length_toInsert existing entries).trans hlength)
    rw [hkeys]
    refine List.Nodup.of_map Prod.snd ?_
    rw [List.map_map]
    exact h.keys_toInsert

variable {grown : EntryTable referenced}

/-- What the update chooses for a row. -/
theorem chosenFor_iff (h : Looked table companyId listId entries existing)
    (hgrown : ∀ row ∈ table.rows, row ∈ grown.rows) {row : PriceListEntry}
    (hrow : row ∈ grown.rows) {price : ℤ × String} :
    chosenFor companyId (toUpdate (entries.map (prepare existing))) row =
        some price ↔
      row ∈ table.rows ∧ row.priceListId = listId ∧
        ∃ entry ∈ entries, entry.itemKey = row.itemKey ∧
          entry.price = price := by
  have honly : Only (fun choice : Uuid × ℤ × String => choice.1 = row.id)
      (toUpdate (entries.map (prepare existing))) := by
    intro a ha b hb hpa hpb
    rw [decide_eq_true_eq] at hpa hpb
    exact List.inj_on_of_nodup_map h.ids_toUpdate ha hb (hpa.trans hpb.symm)
  unfold chosenFor
  constructor
  · intro hchosen
    rw [ite_eq_iff] at hchosen
    obtain ⟨-, hchosen⟩ := hchosen.resolve_right fun hnone => nomatch hnone.2
    obtain ⟨choice, hfind, hprice⟩ := Option.map_eq_some_iff.mp hchosen
    obtain ⟨hmem, hid⟩ := honly.find?_eq_some_iff.mp hfind
    rw [decide_eq_true_eq] at hid
    obtain ⟨entry, hentry, old, hold, rfl⟩ := h.mem_toUpdate.mp hmem
    obtain ⟨holdRow, hlistId, hkey⟩ := EntryTable.rowAt_eq_some.mp hold
    have hsame : old = row := grown.eq_of_id (hgrown old holdRow) hrow hid
    subst hsame
    exact ⟨holdRow, hlistId, entry, hentry, hkey.symm, hprice⟩
  · intro ⟨hold, hlistId, entry, hentry, hkey, hprice⟩
    rw [if_pos (EntryTable.companyId_of_list h.list hold hlistId),
      Option.map_eq_some_iff]
    refine ⟨(row.id, entry.price), ?_, hprice⟩
    rw [honly.find?_eq_some_iff, decide_eq_true_eq]
    exact ⟨h.mem_toUpdate.mpr ⟨entry, hentry, row,
      EntryTable.rowAt_eq_some.mpr ⟨hold, hlistId, hkey.symm⟩, rfl⟩, rfl⟩

theorem length_updatedRows
    (h : Looked table companyId listId entries existing)
    (hgrown : ∀ row ∈ table.rows, row ∈ grown.rows) :
    (grown.updatedRows companyId
      (toUpdate (entries.map (prepare existing)))).length =
      (toUpdate (entries.map (prepare existing))).length := by
  unfold EntryTable.updatedRows
  rw [List.length_map]
  have hnodup : ((grown.rows.filter fun row => (chosenFor companyId
      (toUpdate (entries.map (prepare existing))) row).isSome).map
        PriceListEntry.id).Nodup :=
    grown.id_unique.sublist (List.filter_sublist.map _)
  have hperm := (List.perm_ext_iff_of_nodup hnodup h.ids_toUpdate).mpr ?_
  · have hlength := hperm.length_eq
    rwa [List.length_map, List.length_map] at hlength
  intro id
  rw [List.mem_map, List.mem_map]
  constructor
  · intro ⟨row, hrow, hid⟩
    rw [List.mem_filter, Option.isSome_iff_exists] at hrow
    obtain ⟨hmem, price, hchosen⟩ := hrow
    obtain ⟨hold, hlistId, entry, hentry, hkey, -⟩ :=
      (h.chosenFor_iff hgrown hmem).mp hchosen
    exact ⟨(row.id, entry.price), h.mem_toUpdate.mpr ⟨entry, hentry, row,
      EntryTable.rowAt_eq_some.mpr ⟨hold, hlistId, hkey.symm⟩, rfl⟩, hid⟩
  · intro ⟨choice, hmem, hid⟩
    obtain ⟨entry, hentry, row, hrow, rfl⟩ := h.mem_toUpdate.mp hmem
    obtain ⟨hold, hlistId, hkey⟩ := EntryTable.rowAt_eq_some.mp hrow
    refine ⟨row, ?_, hid⟩
    rw [List.mem_filter, Option.isSome_iff_exists]
    exact ⟨hgrown row hold, entry.price, (h.chosenFor_iff hgrown
      (hgrown row hold)).mpr ⟨hold, hlistId, entry, hentry, hkey.symm, rfl⟩⟩

/-! ### The table after both statements -/

/-- The rows after the insert. -/
theorem mem_of_grown {inserted : List PriceListEntry}
    (hrows : grown.rows = table.rows ++ inserted) :
    ∀ row ∈ table.rows, row ∈ grown.rows := by
  intro row hrow
  rw [hrows]
  exact List.mem_append_left _ hrow

/-- An entry's price is what the list has then. -/
theorem priceAt_update (h : Looked table companyId listId entries existing)
    (hlength : entries.length ≤ draws.length)
    (hrows : grown.rows = table.rows ++
      List.zipWith (newRow companyId listId)
        (toInsert (entries.map (prepare existing))) draws)
    {entry : SetEntry} (hentry : entry ∈ entries) :
    (grown.update companyId
      (toUpdate (entries.map (prepare existing)))).priceAt listId
        entry.itemKey = some entry.price := by
  have hgrown := mem_of_grown hrows
  suffices hrow : ∃ row ∈ grown.rows, row.priceListId = listId ∧
      row.itemKey = entry.itemKey ∧
      ((updateRow companyId (toUpdate (entries.map (prepare existing)))
          row).priceMinor,
        (updateRow companyId (toUpdate (entries.map (prepare existing)))
          row).currency) = entry.price by
    obtain ⟨row, hmem, hlistId, hkey, hprice⟩ := hrow
    have hsame := PriceListEntry.key_eq_iff.mp (updateRow_key companyId
      (toUpdate (entries.map (prepare existing))) row)
    have hin : updateRow companyId
          (toUpdate (entries.map (prepare existing))) row ∈
        (grown.update companyId
          (toUpdate (entries.map (prepare existing)))).rows :=
      List.mem_map_of_mem hmem
    unfold EntryTable.priceAt
    rw [EntryTable.rowAt_eq_some.mpr
      ⟨hin, hsame.1.trans hlistId, hsame.2.trans hkey⟩, Option.map_some, hprice]
  cases hold : table.rowAt listId entry.itemKey with
  | some row =>
      obtain ⟨hmem, hlistId, hkey⟩ := EntryTable.rowAt_eq_some.mp hold
      refine ⟨row, hgrown row hmem, hlistId, hkey, ?_⟩
      have hchosen := (h.chosenFor_iff hgrown (hgrown row hmem)).mpr
        ⟨hmem, hlistId, entry, hentry, hkey.symm, rfl⟩
      unfold updateRow
      rw [hchosen]
  | none =>
      obtain ⟨id, hmem⟩ := exists_newRow
        ((length_toInsert existing entries).trans hlength)
        (h.mem_toInsert.mpr ⟨entry, hentry, hold, rfl⟩)
      have hin : newRow companyId listId ⟨entry, none⟩ id ∈ grown.rows := by
        rw [hrows]
        exact List.mem_append_right _ hmem
      refine ⟨_, hin, rfl, rfl, ?_⟩
      unfold updateRow
      split
      · next priceMinor currency hchosen =>
        obtain ⟨hrow, hlistId, -⟩ := (h.chosenFor_iff hgrown hin).mp hchosen
        exact absurd rfl (EntryTable.rowAt_eq_none.mp hold _ hrow hlistId)
      · rfl

/-- A row that no entry is about is a row as before. -/
theorem mem_update_iff (h : Looked table companyId listId entries existing)
    (hrows : grown.rows = table.rows ++
      List.zipWith (newRow companyId listId)
        (toInsert (entries.map (prepare existing))) draws)
    {row : PriceListEntry} (hother : row.priceListId = listId →
      ∀ entry ∈ entries, entry.itemKey ≠ row.itemKey) :
    row ∈ (grown.update companyId
        (toUpdate (entries.map (prepare existing)))).rows ↔
      row ∈ table.rows := by
  have hgrown := mem_of_grown hrows
  have hkept : ∀ old ∈ grown.rows, (old.priceListId = listId →
        ∀ entry ∈ entries, entry.itemKey ≠ old.itemKey) →
      updateRow companyId (toUpdate (entries.map (prepare existing))) old =
        old := by
    intro old hold hnot
    unfold updateRow
    split
    · next priceMinor currency hchosen =>
      obtain ⟨-, hlistId, entry, hentry, hkey, -⟩ :=
        (h.chosenFor_iff hgrown hold).mp hchosen
      exact absurd hkey (hnot hlistId entry hentry)
    · rfl
  constructor
  · intro hmem
    obtain ⟨old, hold, hrow⟩ := List.mem_map.mp hmem
    have hsame := PriceListEntry.key_eq_iff.mp (updateRow_key companyId
      (toUpdate (entries.map (prepare existing))) old)
    rw [hrow] at hsame
    rw [hkept old hold fun hlistId => hsame.2 ▸
      hother (hsame.1.trans hlistId)] at hrow
    rw [hrow, hrows] at hold
    rcases List.mem_append.mp hold with hold | hnew
    · exact hold
    · obtain ⟨p, hp, id, -, hnewRow⟩ := mem_newRows hnew
      obtain ⟨entry, hentry, -, hpentry⟩ := h.mem_toInsert.mp hp
      rw [hpentry] at hnewRow
      rw [← hnewRow] at hother
      exact absurd rfl (hother rfl entry hentry)
  · intro hmem
    exact List.mem_map.mpr
      ⟨row, hgrown row hmem, hkept row (hgrown row hmem) hother⟩

/-! ### What is returned -/

/-- Every entry has a row among those that the statements return. -/
theorem exists_returned
    (h : Looked table companyId listId entries existing)
    (hlength : entries.length ≤ draws.length)
    (hgrown : ∀ row ∈ table.rows, row ∈ grown.rows) {entry : SetEntry}
    (hentry : entry ∈ entries) :
    ∃ row ∈ List.zipWith (newRow companyId listId)
          (toInsert (entries.map (prepare existing))) draws ++
        grown.updatedRows companyId
          (toUpdate (entries.map (prepare existing))),
      row.textKey = entry.textKey := by
  have htext := SetEntry.textKey_eq (h.lower entry hentry)
  cases hold : table.rowAt listId entry.itemKey with
  | none =>
      obtain ⟨id, hmem⟩ := exists_newRow
        ((length_toInsert existing entries).trans hlength)
        (h.mem_toInsert.mpr ⟨entry, hentry, hold, rfl⟩)
      exact ⟨_, List.mem_append_left _ hmem, htext.symm⟩
  | some row =>
      obtain ⟨hmem, hlistId, hkey⟩ := EntryTable.rowAt_eq_some.mp hold
      have hchosen := (h.chosenFor_iff hgrown (hgrown row hmem)).mpr
        ⟨hmem, hlistId, entry, hentry, hkey.symm, rfl⟩
      refine ⟨_, List.mem_append_right _ (List.mem_map_of_mem
        (List.mem_filter.mpr ⟨hgrown row hmem, ?_⟩)), ?_⟩
      · rw [hchosen]
        rfl
      · rw [htext, PriceListEntry.textKey_eq, ← hkey]
        exact congrArg textOf (PriceListEntry.key_eq_iff.mp
          (updateRow_key companyId _ row)).2

/-- The returned rows are in the one currency that the contract accepts. -/
theorem currency_returned
    (h : Looked table companyId listId entries existing)
    (hgrown : ∀ row ∈ table.rows, row ∈ grown.rows) {row : PriceListEntry}
    (hrow : row ∈ List.zipWith (newRow companyId listId)
          (toInsert (entries.map (prepare existing))) draws ++
        grown.updatedRows companyId
          (toUpdate (entries.map (prepare existing)))) :
    row.currency = DEFAULT_PRICE_CURRENCY := by
  rcases List.mem_append.mp hrow with hnew | hupdated
  · obtain ⟨p, -, id, -, rfl⟩ := mem_newRows hnew
    exact p.entry.literal
  · obtain ⟨old, hold, rfl⟩ := List.mem_map.mp hupdated
    rw [List.mem_filter, Option.isSome_iff_exists] at hold
    obtain ⟨hmem, price, hchosen⟩ := hold
    obtain ⟨-, -, entry, -, -, hprice⟩ :=
      (h.chosenFor_iff hgrown hmem).mp hchosen
    unfold updateRow
    rw [hchosen, ← hprice]
    exact entry.literal

theorem exists_entryView {row : PriceListEntry}
    (h : row.currency = DEFAULT_PRICE_CURRENCY) :
    ∃ view, toPriceListEntryView row = .ok view := by
  unfold toPriceListEntryView requireUah
  rw [h, if_neg fun hne => hne rfl]
  exact ⟨_, rfl⟩

theorem exists_view (h : Looked table companyId listId entries existing)
    (hlength : entries.length ≤ draws.length)
    (hgrown : ∀ row ∈ table.rows, row ∈ grown.rows) {entry : SetEntry}
    (hentry : entry ∈ entries) :
    ∃ view, viewOf (returnedByKey (List.zipWith (newRow companyId listId)
          (toInsert (entries.map (prepare existing))) draws ++
        grown.updatedRows companyId
          (toUpdate (entries.map (prepare existing)))))
      (prepare existing entry) = .ok view := by
  obtain ⟨row, hrow, htext⟩ := h.exists_returned hlength hgrown hentry
  obtain ⟨returned, hreturned⟩ := exists_returnedByKey hrow
  rw [htext] at hreturned
  have huah := h.currency_returned hgrown (returnedByKey_eq_some hreturned).1
  unfold viewOf
  have hfound : returnedByKey _ (prepare existing entry).entry.textKey =
    some returned := hreturned
  rw [hfound]
  exact exists_entryView huah

end Looked

/-! ## An upsert

What setting the entries should do, as one call and as one call for each. -/

/-- What the input has for a product or a variant: its last entry for it. -/
def lastPrice (entries : List SetEntry) (key : ItemKey) :
    Option (ℤ × String) :=
  (lastAt SetEntry.itemKey entries key).map SetEntry.price

/-- The entries of the list are the old ones overridden by the input, in one
row each; a row that is overridden stays the row it is, and no other row
changes. -/
structure IsUpsert (table table' : EntryTable referenced) (listId : Uuid)
    (entries : List SetEntry) : Prop where
  overridden : ∀ key, table'.priceAt listId key =
    (lastPrice entries key).or (table.priceAt listId key)
  oneRow : ∀ a ∈ table'.rows, ∀ b ∈ table'.rows,
    a.priceListId = b.priceListId → a.itemKey = b.itemKey → a = b
  kept : ∀ row ∈ table.rows, ∃ row' ∈ table'.rows, row'.id = row.id ∧
    row'.companyId = row.companyId ∧ row'.key = row.key
  others : ∀ row : PriceListEntry, (row.priceListId = listId →
      ∀ entry ∈ entries, entry.itemKey ≠ row.itemKey) →
    (row ∈ table'.rows ↔ row ∈ table.rows)

/-- The call that sets one entry. -/
def SetInput.single (priceListId : IdText) (entry : SetEntry) : SetInput :=
  ⟨priceListId, [entry], Nat.le_refl 1,
    (by decide : 1 ≤ SET_PRICE_LIST_ENTRIES_MAX_ITEMS)⟩

/-- The entries set one call at a time, each call with an id it may draw. -/
def applyEach (companyId : Uuid) (priceListId : IdText)
    (table : EntryTable referenced) (entries : List (SetEntry × Uuid)) :
    Except Failure (EntryTable referenced) :=
  entries.foldlM (fun table (entry, id) =>
    (setStaffPriceListEntries table companyId [id]
      (.single priceListId entry)).map Prod.fst) table

/-- The call succeeds, upserts, and leaves the list as one call for each entry
does. -/
def Upserts (table : EntryTable referenced) (companyId : Uuid)
    (draws : List Uuid) (input : SetInput) : Prop :=
  ∃ table' items,
    setStaffPriceListEntries table companyId draws input =
        .ok (table', items) ∧
      IsUpsert table table' input.priceListId.uuid input.entries ∧
      ∃ each, applyEach companyId input.priceListId table
          (input.entries.zip draws) = .ok each ∧
        IsUpsert table each input.priceListId.uuid input.entries ∧
        ∀ key, each.priceAt input.priceListId.uuid key =
          table'.priceAt input.priceListId.uuid key

section Call

variable {table : EntryTable referenced} {companyId : Uuid}
  {draws : List Uuid}

theorem requireLockedPriceListId_eq {id : IdText}
    (hlist : ∃ list ∈ referenced.priceLists,
      list.companyId = companyId ∧ list.id = id.uuid) :
    requireLockedPriceListId referenced companyId id = .ok id.uuid := by
  unfold requireLockedPriceListId
  split
  · next list hfind =>
    have hfound := List.find?_some hfind
    rw [Bool.and_eq_true, decide_eq_true_eq, decide_eq_true_eq] at hfound
    rw [hfound.2]
  · next hnone =>
    obtain ⟨list, hmem, hcompany, hid⟩ := hlist
    have hnot := List.find?_eq_none.mp hnone list hmem
    rw [Bool.and_eq_true, decide_eq_true_eq, decide_eq_true_eq] at hnot
    exact absurd ⟨hcompany, hid⟩ hnot

theorem expectRows_eq {rows expected : ℕ} (h : rows = expected)
    (message : String) : expectRows rows expected message = .ok () := by
  unfold expectRows
  rw [if_neg (not_not_intro h)]

/-- For entries in lower case it is the same which key is used. -/
theorem mem_lastWriteWins_iff {entries : List SetEntry}
    (hlower : ∀ entry ∈ entries, entry.InLowerCase) {entry : SetEntry} :
    entry ∈ lastWriteWins entries ↔
      lastAt SetEntry.itemKey entries entry.itemKey = some entry := by
  have hsame (h : entry ∈ entries) :
      lastAt SetEntry.textKey entries entry.textKey =
        lastAt SetEntry.itemKey entries entry.itemKey := by
    refine lastAt_congr fun other hother => ?_
    rw [SetEntry.textKey_eq (hlower other hother),
      SetEntry.textKey_eq (hlower entry h)]
    exact ⟨textOf_inj, congrArg textOf⟩
  rw [mem_lastWriteWins]
  constructor
  · intro hlast
    rw [← hsame (lastAt_key hlast).1]
    exact hlast
  · intro hlast
    rw [hsame (lastAt_key hlast).1]
    exact hlast

theorem mem_of_lastWriteWins {entries : List SetEntry} {entry : SetEntry}
    (h : entry ∈ lastWriteWins entries) : entry ∈ entries :=
  (lastAt_key (mem_lastWriteWins.mp h)).1

theorem length_lastWriteWins (entries : List SetEntry) :
    (lastWriteWins entries).length ≤ entries.length := by
  have hnodup : (lastWriteWins entries).Nodup :=
    (nodup_lastWriteWins entries).of_map SetEntry.textKey
  exact (hnodup.subperm fun entry => mem_of_lastWriteWins).length_le

/-- The entries that the call works with. -/
theorem looked {input : SetInput} (hlist : ∃ list ∈ referenced.priceLists,
      list.companyId = companyId ∧ list.id = input.priceListId.uuid)
    (hnamed : ∀ entry ∈ input.entries, referenced.Named companyId entry)
    (hlower : ∀ entry ∈ input.entries, entry.InLowerCase) :
    Looked table companyId input.priceListId.uuid
      (lastWriteWins input.entries)
      (existingByKey (existingRows table companyId input.priceListId.uuid
        ((lastWriteWins input.entries).map fun entry =>
          entry.productId.uuid))) := by
  have hlower' : ∀ entry ∈ lastWriteWins input.entries, entry.InLowerCase :=
    fun entry h => hlower entry (mem_of_lastWriteWins h)
  refine ⟨hlist, fun entry h => hnamed entry (mem_of_lastWriteWins h),
    hlower', ?_, ?_⟩
  · have htexts : (lastWriteWins input.entries).map SetEntry.textKey =
        ((lastWriteWins input.entries).map SetEntry.itemKey).map textOf := by
      rw [List.map_map]
      exact List.map_congr_left fun entry h =>
        SetEntry.textKey_eq (hlower' entry h)
    refine List.Nodup.of_map textOf ?_
    rw [← htexts]
    exact nodup_lastWriteWins input.entries
  · intro entry h
    rw [SetEntry.textKey_eq (hlower' entry h)]
    exact EntryTable.existing_eq hlist
      (List.mem_map_of_mem (f := fun entry => entry.productId.uuid) h)

/-- A call with ids in lower case upserts, and the ids of its rows are old or
drawn. -/
theorem isUpsert_of_inLowerCase {input : SetInput}
    (hlist : ∃ list ∈ referenced.priceLists,
      list.companyId = companyId ∧ list.id = input.priceListId.uuid)
    (hnamed : ∀ entry ∈ input.entries, referenced.Named companyId entry)
    (hfresh : Fresh table draws)
    (hlength : input.entries.length ≤ draws.length)
    (hlower : ∀ entry ∈ input.entries, entry.InLowerCase) :
    ∃ table' items,
      setStaffPriceListEntries table companyId draws input =
          .ok (table', items) ∧
        IsUpsert table table' input.priceListId.uuid input.entries ∧
        ∀ row ∈ table'.rows,
          row.id ∈ table.rows.map PriceListEntry.id ∨ row.id ∈ draws := by
  have h : Looked table companyId _ _ _ := looked hlist hnamed hlower
  generalize hexisting : existingByKey (existingRows table companyId
    input.priceListId.uuid ((lastWriteWins input.entries).map fun entry =>
      entry.productId.uuid)) = existing at h
  have hlength' := (length_lastWriteWins input.entries).trans hlength
  obtain ⟨grown, hinsert, hrows⟩ := h.exists_insert hfresh hlength'
  have hgrown := Looked.mem_of_grown hrows
  obtain ⟨items, hitems⟩ := exists_mapM fun p hp => by
    obtain ⟨entry, hentry, hprepared⟩ := List.mem_map.mp hp
    rw [← hprepared]
    exact h.exists_view hlength' hgrown hentry
  refine ⟨grown.update companyId (toUpdate ((lastWriteWins
    input.entries).map (prepare existing))), items, ?_,
      ⟨fun key => ?_, ?_, ?_, ?_⟩, ?_⟩
  · unfold setStaffPriceListEntries
    refine bind_eq_ok.mpr ⟨_, requireLockedPriceListId_eq hlist, ?_⟩
    dsimp only
    rw [hexisting]
    refine bind_eq_ok.mpr ⟨grown, hinsert, bind_eq_ok.mpr ⟨(),
      expectRows_eq ?_ _, bind_eq_ok.mpr ⟨(),
        expectRows_eq (h.length_updatedRows hgrown) _,
        bind_eq_ok.mpr ⟨items, hitems, rfl⟩⟩⟩⟩
    rw [List.length_zipWith, Nat.min_eq_left
      ((Looked.length_toInsert _ _).trans hlength')]
  · unfold lastPrice
    cases hlast : lastAt SetEntry.itemKey input.entries key with
    | some entry =>
        obtain rfl := (lastAt_key hlast).2
        exact h.priceAt_update hlength' hrows
          ((mem_lastWriteWins_iff hlower).mpr hlast)
    | none =>
        rw [Option.map_none, Option.none_or]
        unfold EntryTable.priceAt
        refine congrArg _ (Option.ext fun row => ?_)
        rw [EntryTable.rowAt_eq_some, EntryTable.rowAt_eq_some]
        refine and_congr_left fun ⟨_, hkey⟩ => h.mem_update_iff hrows ?_
        intro _ entry hentry hsame
        have hexists : ∃ last, lastAt SetEntry.itemKey input.entries
            entry.itemKey = some last :=
          exists_lastAt (mem_of_lastWriteWins hentry)
        rw [hsame, hkey, hlast] at hexists
        cases hexists.choose_spec
  · intro a ha b hb hlistId hkey
    exact EntryTable.eq_of_key ha hb
      (PriceListEntry.key_eq_iff.mpr ⟨hlistId, hkey⟩)
  · intro row hrow
    exact ⟨_, List.mem_map_of_mem (hgrown row hrow), updateRow_id _ _ _,
      updateRow_companyId _ _ _, updateRow_key _ _ _⟩
  · intro row hother
    refine h.mem_update_iff hrows fun hlistId entry hentry => ?_
    exact hother hlistId entry (mem_of_lastWriteWins hentry)
  · intro row hrow
    obtain ⟨old, hold, rfl⟩ := List.mem_map.mp hrow
    rw [updateRow_id]
    rw [hrows] at hold
    rcases List.mem_append.mp hold with hold | hnew
    · exact .inl (List.mem_map_of_mem hold)
    · obtain ⟨p, -, id, hid, rfl⟩ := mem_newRows hnew
      exact .inr hid

/-! ## One call for each entry

Upserts one after another are one upsert. -/

theorem lastPrice_cons (entry : SetEntry) (entries : List SetEntry)
    (key : ItemKey) :
    lastPrice (entry :: entries) key =
      (lastPrice entries key).or (lastPrice [entry] key) := by
  unfold lastPrice
  rw [lastAt_cons, lastAt_cons, lastAt_nil, Option.none_or, Option.map_or]

/-- One upsert after another. -/
theorem IsUpsert.cons {table' table'' : EntryTable referenced}
    {listId : Uuid} {entry : SetEntry} {entries : List SetEntry}
    (h : IsUpsert table table' listId [entry])
    (h' : IsUpsert table' table'' listId entries) :
    IsUpsert table table'' listId (entry :: entries) where
  overridden key := by
    rw [h'.overridden, h.overridden, lastPrice_cons entry entries,
      Option.or_assoc]
  oneRow := h'.oneRow
  kept row hrow := by
    obtain ⟨row', hrow', hid', hcompany', hkey'⟩ := h.kept row hrow
    obtain ⟨row'', hrow'', hid'', hcompany'', hkey''⟩ := h'.kept row' hrow'
    exact ⟨row'', hrow'', hid''.trans hid', hcompany''.trans hcompany',
      hkey''.trans hkey'⟩
  others row hother := by
    rw [h'.others row fun hlistId other hmem =>
        hother hlistId other (List.mem_cons_of_mem _ hmem),
      h.others row fun hlistId other hmem =>
        hother hlistId other (List.mem_singleton.mp hmem ▸
          List.mem_cons_self)]

theorem single_isUpsert {priceListId : IdText}
    (hlist : ∃ list ∈ referenced.priceLists,
      list.companyId = companyId ∧ list.id = priceListId.uuid)
    {entry : SetEntry} (hnamed : referenced.Named companyId entry) {id : Uuid}
    (hid : id ∉ table.rows.map PriceListEntry.id)
    (hlower : entry.InLowerCase) :
    ∃ table', (setStaffPriceListEntries table companyId [id]
          (.single priceListId entry)).map Prod.fst = .ok table' ∧
        IsUpsert table table' priceListId.uuid [entry] ∧
        ∀ row ∈ table'.rows,
          row.id ∈ table.rows.map PriceListEntry.id ∨ row.id = id := by
  have hfresh : Fresh table [id] :=
    ⟨List.nodup_singleton id, fun id' hid' => List.mem_singleton.mp hid' ▸ hid⟩
  have hnamed' : ∀ e ∈ (SetInput.single priceListId entry).entries,
      referenced.Named companyId e :=
    fun e he => List.mem_singleton.mp he ▸ hnamed
  obtain ⟨table', items, hcall, hupsert, hids⟩ := isUpsert_of_inLowerCase
    hlist hnamed' hfresh (Nat.le_refl 1)
    fun e he => List.mem_singleton.mp he ▸ hlower
  refine ⟨table', ?_, hupsert, fun row hrow => ?_⟩
  · rw [hcall]
    rfl
  · exact (hids row hrow).imp_right List.mem_singleton.mp

theorem applyEach_isUpsert {priceListId : IdText}
    (hlist : ∃ list ∈ referenced.priceLists,
      list.companyId = companyId ∧ list.id = priceListId.uuid)
    {entries : List SetEntry}
    (hnamed : ∀ entry ∈ entries, referenced.Named companyId entry)
    (hfresh : Fresh table draws) (hlength : entries.length ≤ draws.length)
    (hlower : ∀ entry ∈ entries, entry.InLowerCase) :
    ∃ each, applyEach companyId priceListId table (entries.zip draws) =
        .ok each ∧ IsUpsert table each priceListId.uuid entries := by
  induction entries generalizing table draws with
  | nil =>
      refine ⟨table, rfl, fun key => rfl, ?_, ?_, fun row _ => Iff.rfl⟩
      · intro a ha b hb hlistId hkey
        exact EntryTable.eq_of_key ha hb
          (PriceListEntry.key_eq_iff.mpr ⟨hlistId, hkey⟩)
      · exact fun row hrow => ⟨row, hrow, rfl, rfl, rfl⟩
  | cons entry entries ih =>
      cases draws with
      | nil => cases hlength
      | cons id draws =>
          have hdraws := List.nodup_cons.mp hfresh.nodup
          obtain ⟨table', hcall, hupsert, hids⟩ := single_isUpsert hlist
            (hnamed entry List.mem_cons_self)
            (hfresh.new id List.mem_cons_self)
            (hlower entry List.mem_cons_self)
          have hrest : Fresh table' draws := by
            refine ⟨hdraws.2, fun id' hid' hmem => ?_⟩
            obtain ⟨row, hrow, hrowId⟩ := List.mem_map.mp hmem
            rcases hids row hrow with hold | hdrawn
            · exact hfresh.new id' (List.mem_cons_of_mem _ hid')
                (hrowId ▸ hold)
            · rw [hrowId] at hdrawn
              exact hdraws.1 (hdrawn ▸ hid')
          obtain ⟨each, heach, hafter⟩ := ih
            (fun e he => hnamed e (List.mem_cons_of_mem _ he)) hrest
            (Nat.le_of_succ_le_succ hlength)
            (fun e he => hlower e (List.mem_cons_of_mem _ he))
          refine ⟨each, ?_, hupsert.cons hafter⟩
          unfold applyEach at heach ⊢
          rw [List.zip_cons_cons, List.foldlM_cons]
          exact bind_eq_ok.mpr ⟨table', hcall, heach⟩

/-- A call that names a list of the company and what exists succeeds and
upserts exactly when every id of its entries is written in lower case. -/
theorem upserts_iff (table : EntryTable referenced) (companyId : Uuid)
    (draws : List Uuid) (input : SetInput)
    (hlist : ∃ list ∈ referenced.priceLists,
      list.companyId = companyId ∧ list.id = input.priceListId.uuid)
    (hnamed : ∀ entry ∈ input.entries, referenced.Named companyId entry)
    (hfresh : Fresh table draws)
    (hlength : input.entries.length ≤ draws.length) :
    Upserts table companyId draws input ↔
      ∀ entry ∈ input.entries, entry.InLowerCase := by
  constructor
  · intro ⟨table', items, hcall, _⟩
    exact inLowerCase_of_ok hcall
  · intro hlower
    obtain ⟨table', items, hcall, hupsert, -⟩ :=
      isUpsert_of_inLowerCase hlist hnamed hfresh hlength hlower
    obtain ⟨each, heach, hafter⟩ :=
      applyEach_isUpsert hlist hnamed hfresh hlength hlower
    refine ⟨table', items, hcall, hupsert, each, heach, hafter, fun key => ?_⟩
    rw [hafter.overridden, hupsert.overridden]

end Call

/-! ## A shop

A list with one price, and an input with a repeat. -/

/-- A product of the shop. -/
def cocoa : Uuid := ⟨"00000000-0000-4000-8000-0000000000ca", by decide +kernel⟩

/-- The price lists of the shop. -/
def shopLists : List PriceList := [⟨wholesale, shop, true, false⟩]

theorem shopLists_unique :
    ∀ a ∈ shopLists, ∀ b ∈ shopLists, a.id = b.id → a = b := by
  decide

/-- What the shop's entries may refer to. -/
def shopReferenced : Referenced where
  priceLists := shopLists
  products := [⟨flour, shop⟩, ⟨cocoa, shop⟩]
  variants := [⟨coarse, shop, flour⟩]
  list_unique := shopLists_unique

/-- The list has a price of flour. -/
def shopEntries : EntryTable shopReferenced where
  rows := [⟨anna, shop, wholesale, flour, none, 900, "UAH"⟩]
  id_unique := by decide +kernel
  key_unique := by decide +kernel
  refers := by decide +kernel

/-- The list's id as an input writes it. -/
def wholesaleText : IdText :=
  ⟨"00000000-0000-4000-8000-000000000004", by decide +kernel⟩

/-- A product's id as an input writes it. -/
def flourText : IdText :=
  ⟨"00000000-0000-4000-8000-000000000002", by decide +kernel⟩

/-- A variant's id as an input writes it. -/
def coarseText : IdText :=
  ⟨"00000000-0000-4000-8000-000000000003", by decide +kernel⟩

/-- The id of cocoa in capital letters. -/
def cocoaCapitals : IdText :=
  ⟨"00000000-0000-4000-8000-0000000000CA", by decide +kernel⟩

/-- An entry with a price. -/
def entryOf (productId : IdText) (variantId : Option IdText) (minor : ℕ)
    (h : minor ≤ 9223372036854775807) : SetEntry :=
  ⟨productId, variantId, ⟨minor, h⟩, "UAH", rfl⟩

/-- Flour twice, and a kind of it. -/
def flourPrices : SetInput where
  priceListId := wholesaleText
  entries := [entryOf flourText none 850 (by decide),
    entryOf flourText (some coarseText) 950 (by decide),
    entryOf flourText none 870 (by decide)]
  min := by decide
  max := by decide

theorem upserts_iff_flour :
    Upserts shopEntries shop [shop, flour, coarse] flourPrices :=
  (upserts_iff shopEntries shop [shop, flour, coarse] flourPrices
    (by decide) (by decide)
    ⟨by decide, by decide⟩ (by decide)).mpr (by decide)

/-- A call that sets one price, the product's id in capitals. -/
def cocoaPrice : SetInput where
  priceListId := wholesaleText
  entries := [entryOf cocoaCapitals none 500 (by decide)]
  min := by decide
  max := by decide

/-- The id is that of a product, and the call fails. -/
theorem not_upserts_capitals :
    (∀ entry ∈ cocoaPrice.entries, shopReferenced.Named shop entry ∧
        entry.productId.uuid = cocoa) ∧
      ¬ Upserts shopEntries shop [coarse] cocoaPrice := by
  refine ⟨by decide, fun ⟨table', items, hcall, _⟩ => ?_⟩
  have hcapital : ∀ entry ∈ cocoaPrice.entries, ¬ entry.InLowerCase := by
    decide
  exact hcapital _ List.mem_cons_self
    (inLowerCase_of_ok hcall _ List.mem_cons_self)

end Shozee.Pricing
