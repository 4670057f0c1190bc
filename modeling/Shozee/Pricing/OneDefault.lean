import Mathlib.Data.List.Nodup
import Shozee.Pricing.DefaultList

/-!
# One default price list

What a commit does to the lists is confined to rows that it has locked
(`confined`), and only a commit that makes a list the default gives a row the
flag (`default_kept`). So who has locked a row knows what it is like, and who
has the entry of the index knows which rows have the flag; that a default is
unique and active follows in any run (`sound_of_reach`).

A set-default to none that finds no default locks nothing. Another list may
then become the default before it commits (`defaultLeft_of_reach`); what has to
be ruled out is that a default commits beside it.
-/

namespace Shozee.Pricing.Defaults

open Shozee.Run

variable {d : Lists}

/-! ## Lists

What putting and removing rows does to lookups and to the default. -/

theorem Lists.mem_put {row r : ListRow} :
    r ∈ d.put row ↔ r ∈ d ∧ r.id ≠ row.id ∨
      r = row ∧ ∃ old ∈ d, old.id = row.id := by
  unfold Lists.put
  rw [List.mem_map]
  constructor
  · intro ⟨old, hold, hr⟩
    by_cases hid : old.id = row.id
    · rw [if_pos hid] at hr
      exact .inr ⟨hr.symm, old, hold, hid⟩
    · rw [if_neg hid] at hr
      exact .inl (hr ▸ ⟨hold, hid⟩)
  · rintro (⟨hr, hid⟩ | ⟨hr, old, hold, hid⟩)
    · exact ⟨r, hr, if_neg hid⟩
    · exact ⟨old, hold, (if_pos hid).trans hr.symm⟩

theorem Lists.ids_put (row : ListRow) :
    (d.put row).map ListRow.id = d.map ListRow.id := by
  unfold Lists.put
  rw [List.map_map]
  refine List.map_congr_left fun old _ => ?_
  unfold Function.comp
  dsimp only
  split
  · next hid => exact hid.symm
  · rfl

theorem Lists.mem_remove {id : String} {r : ListRow} :
    r ∈ d.remove id ↔ r ∈ d ∧ r.id ≠ id := by
  unfold Lists.remove
  rw [List.mem_filter, decide_eq_true_eq]

theorem Lists.row?_eq_some {id : String} {row : ListRow}
    (h : d.row? id = some row) : row ∈ d ∧ row.id = id := by
  have hid := List.find?_some h
  rw [decide_eq_true_eq] at hid
  exact ⟨List.mem_of_find?_eq_some h, hid⟩

theorem Lists.row?_eq_none {id : String} (h : d.row? id = none) :
    ∀ row ∈ d, row.id ≠ id := by
  intro row hrow hid
  exact List.find?_eq_none.mp h row hrow (decide_eq_true hid)

theorem Lists.default?_eq_some {row : ListRow} (h : d.default? = some row) :
    row ∈ d ∧ row.isDefault = true :=
  ⟨List.mem_of_find?_eq_some h, List.find?_some h⟩

theorem Lists.default?_eq_none (h : d.default? = none) :
    ∀ row ∈ d, row.isDefault = false := by
  intro row hrow
  exact eq_false_of_ne_true (List.find?_eq_none.mp h row hrow)

/-- Exactly this list is the default, or none is. -/
structure Lists.DefaultIs (d : Lists) (id : Option String) : Prop where
  only : ∀ row ∈ d, row.isDefault = true ↔ id = some row.id
  found : ∀ chosen ∈ id, ∃ row ∈ d, row.id = chosen

namespace Sound

theorem eq_of_id (h : Sound d) {a b : ListRow} (ha : a ∈ d) (hb : b ∈ d)
    (hid : a.id = b.id) : a = b :=
  List.inj_on_of_nodup_map h.ids ha hb hid

/-- A row that is put has the flag only in place of the row that had it. -/
theorem put (h : Sound d) {row : ListRow}
    (hrow : row.isDefault = true → row.isActive = true ∧
      ∀ r ∈ d, r.isDefault = true → r.id = row.id) : Sound (d.put row) where
  ids := by
    rw [Lists.ids_put]
    exact h.ids
  oneDefault := by
    intro a ha b hb hda hdb
    rcases Lists.mem_put.mp ha with ⟨hina, hida⟩ | ⟨hrowa, -⟩
    · rcases Lists.mem_put.mp hb with ⟨hinb, -⟩ | ⟨hrowb, -⟩
      · exact h.oneDefault a hina b hinb hda hdb
      · exact absurd ((hrow (hrowb ▸ hdb)).2 a hina hda) hida
    · rcases Lists.mem_put.mp hb with ⟨hinb, hidb⟩ | ⟨hrowb, -⟩
      · exact absurd ((hrow (hrowa ▸ hda)).2 b hinb hdb) hidb
      · rw [hrowa, hrowb]
  active := by
    intro r hr hd
    rcases Lists.mem_put.mp hr with ⟨hin, -⟩ | ⟨hput, -⟩
    · exact h.active r hin hd
    · rw [hput] at hd ⊢
      exact (hrow hd).1

theorem push (h : Sound d) {row : ListRow} (hnew : ∀ r ∈ d, r.id ≠ row.id)
    (hrow : row.isDefault = true → row.isActive = true ∧
      ∀ r ∈ d, r.isDefault = false) : Sound (d ++ [row]) where
  ids := by
    rw [List.map_append, List.map_singleton, ← List.concat_eq_append]
    refine h.ids.concat fun hmem => ?_
    obtain ⟨r, hr, hid⟩ := List.mem_map.mp hmem
    exact hnew r hr hid
  oneDefault := by
    intro a ha b hb hda hdb
    rw [List.mem_append, List.mem_singleton] at ha hb
    rcases ha with ha | rfl
    · rcases hb with hb | rfl
      · exact h.oneDefault a ha b hb hda hdb
      · rw [(hrow hdb).2 a ha] at hda
        cases hda
    · rcases hb with hb | rfl
      · rw [(hrow hda).2 b hb] at hdb
        cases hdb
      · rfl
  active := by
    intro r hr hd
    rw [List.mem_append, List.mem_singleton] at hr
    rcases hr with hr | rfl
    · exact h.active r hr hd
    · exact (hrow hd).1

theorem remove (h : Sound d) (id : String) : Sound (d.remove id) where
  ids := h.ids.sublist (List.filter_sublist.map _)
  oneDefault a ha b hb :=
    h.oneDefault a (Lists.mem_remove.mp ha).1 b (Lists.mem_remove.mp hb).1
  active row hrow := h.active row (Lists.mem_remove.mp hrow).1

end Sound

theorem defaultIs_put {row : ListRow} (hold : ∃ old ∈ d, old.id = row.id)
    (hrow : row.isDefault = true)
    (h : ∀ r ∈ d, r.isDefault = true → r.id = row.id) :
    (d.put row).DefaultIs (some row.id) where
  only r hr := by
    rcases Lists.mem_put.mp hr with ⟨hr, hid⟩ | ⟨rfl, -⟩
    · exact iff_of_false (fun hd => hid (h r hr hd))
        (fun hid' => hid (Option.some.inj hid').symm)
    · exact iff_of_true hrow rfl
  found chosen hchosen := by
    rw [Option.mem_some_iff] at hchosen
    exact ⟨row, Lists.mem_put.mpr (.inr ⟨rfl, hold⟩), hchosen⟩

theorem defaultIs_none (h : ∀ r ∈ d, r.isDefault = false) :
    d.DefaultIs none where
  only r hr := by
    rw [h r hr]
    exact iff_of_false nofun nofun
  found := nofun

/-! ## What a transaction knows

A row that is locked is as it was read. Who has the entry of the index knows
who has the flag. -/

/-- The row that a new default is to be is there as it was locked. -/
def Swap.Locked (d : Lists) : Swap → Prop
  | .insert _ => True
  | .existing row => row ∈ d

/-- The row that is written, or the id that is free. -/
def Swap.Ready (d : Lists) (id : String) : Swap → Prop
  | .insert _ => ∀ row ∈ d, row.id ≠ id
  | .existing row => row ∈ d ∧ id = row.id

/-- The row that has been waited for is there as it was then. -/
def Touched.Locked (d : Lists) (touched : Touched) : Prop :=
  touched.row ∈ d ∧ (touched.unset = true → touched.row.isDefault = true)

/-- What a request knows of the rows, for as long as it holds their locks. -/
def Knows (d : Lists) : Place → Prop
  | .idle => True
  | .clearing _ => True
  | .clearMissed _ => True
  | .clearLocked row => row ∈ d ∧ row.isDefault = true
  | .cleared row => row ∈ d ∧ row.isDefault = true
  | .locked request row => row ∈ d ∧
      ∀ id, request = .setDefaultPriceList id → id = some row.id
  | .changed request row row' => row ∈ d ∧ row'.id = row.id ∧
      row'.isDefault = row.isDefault ∧
      (row'.isDefault = true → row'.isActive = true) ∧
      ∀ id, request = .setDefaultPriceList id →
        id = some row.id ∧ row.isDefault = true
  | .deleted row => row ∈ d
  | .creating _ _ => True
  | .inserted row => row.isDefault = false ∧ ∀ r ∈ d, r.id ≠ row.id
  | .unsetting swap _ => swap.Locked d
  | .unset swap touched => swap.Locked d ∧ ∀ t ∈ touched, t.Locked d
  | .swapped swap id touched => swap.Ready d id ∧
      (∀ t ∈ touched, t.Locked d) ∧
      ∀ r ∈ d, r.isDefault = true → r.id = id ∨
        ∃ t ∈ touched, t.unset = true ∧ r.id = t.row.id

/-! ## Statements that change nothing

All but the commits, and those that only move on or refuse. -/

/-- The lists are as they were, and nothing is committed. -/
structure Quiet (d : Lists) (o : Result) : Prop where
  data : o.data = d
  out : o.out = [] ∨ ∃ why, o.out = [.failed why]

theorem quiet_goOn (d : Lists) (place : Place) : Quiet d (goOn d place) :=
  ⟨rfl, .inl rfl⟩

theorem quiet_refuse (d : Lists) (why : Refusal) : Quiet d (refuse d why) :=
  ⟨rfl, .inr ⟨why, rfl⟩⟩

theorem quiet_unsetCompanyDefaultLists (d : Lists) (swap : Swap) :
    Quiet d (unsetCompanyDefaultLists d swap) := by
  unfold unsetCompanyDefaultLists
  split
  · exact quiet_goOn d _
  · exact quiet_goOn d _

theorem quiet_begin (d : Lists) (request : Request) :
    Quiet d (begin d request) := by
  have hlocked : ∀ id, Quiet d (requireLockedPriceList d request id) := by
    intro id
    unfold requireLockedPriceList
    split
    · exact quiet_refuse d _
    · exact quiet_goOn d _
  cases request with
  | createPriceList name isDefault isActive =>
      show Quiet d (if isDefault then _ else _)
      split
      · exact quiet_unsetCompanyDefaultLists d _
      · exact quiet_goOn d _
  | setDefaultPriceList priceListId =>
      cases priceListId with
      | none =>
          show Quiet d (loadCompanyDefault d)
          unfold loadCompanyDefault
          split
          · exact quiet_goOn d _
          · exact quiet_goOn d _
      | some id => exact hlocked id
  | setPriceListActive id isActive => exact hlocked id
  | updatePriceList id name => exact hlocked id
  | deletePriceList id => exact hlocked id

theorem quiet_onLocked {row : ListRow} {request : Request} {o : Result}
    (h : onLocked d row request = some o) : Quiet d o := by
  unfold onLocked at h
  split at h
  · cases h
  · cases h
  · cases h
    split
    · exact quiet_goOn d _
    · split
      · exact quiet_unsetCompanyDefaultLists d _
      · exact quiet_goOn d _
  · cases h
    split
    · exact quiet_refuse d _
    · exact quiet_goOn d _
  · cases h
    exact quiet_goOn d _
  · cases h
    exact quiet_goOn d _

theorem quiet_writeDefault (d : Lists) (swap : Swap) (id : String)
    (touched : Option Touched) : Quiet d (writeDefault d swap id touched) := by
  unfold writeDefault
  split
  · exact quiet_refuse d _
  · exact quiet_goOn d _

theorem quiet_next {place : Place} {o : Result} (h : next d place = some o) :
    Quiet d o := by
  unfold next at h
  split at h
  · cases h
    unfold loadLocked
    split
    · exact quiet_goOn d _
    · split
      · exact quiet_goOn d _
      · exact quiet_goOn d _
  · cases h
    exact quiet_goOn d _
  · exact quiet_onLocked h
  · cases h
    unfold unsetLocked
    split
    · exact quiet_goOn d _
    · exact quiet_goOn d _
  · cases h
    exact quiet_writeDefault d _ _ _
  · cases h

theorem quiet_insertPriceList {id : String} {place : Place} {o : Result}
    (h : insertPriceList d id place = some o) : Quiet d o := by
  unfold insertPriceList at h
  split at h
  · cases h
    split
    · exact quiet_refuse d _
    · exact quiet_goOn d _
  · cases h
    split
    · exact quiet_refuse d _
    · exact quiet_writeDefault d _ _ _
  · cases h

/-- Only a commit changes the lists. -/
theorem statement_cases {place : Place} {a : Statement} {o : Result}
    (h : statement d place a = some o) :
    Quiet d o ∨ a = .commit ∧ commit d place = some o := by
  unfold statement at h
  split at h
  · cases h
    exact .inl (quiet_begin d _)
  · cases h
  · cases h
  · exact .inl (quiet_next h)
  · exact .inl (quiet_insertPriceList h)
  · exact .inr ⟨rfl, h⟩
  · cases h
    exact .inl (quiet_refuse d _)

/-! ## Commits

What a commit writes is confined to rows that it has locked. One kind of commit
gives the flag. -/

/-- Who makes a list the default by its commit. -/
def Place.Swaps : Place → Prop
  | .swapped .. => True
  | _ => False

theorem mem_apply_touched {touched : Option Touched} {r : ListRow}
    (hr : r ∈ Touched.apply d touched) :
    (∃ old ∈ d, old.id = r.id) ∧ (r.isDefault = true →
      r ∈ d ∧ ∀ t ∈ touched, t.unset = true → r.id ≠ t.row.id) := by
  cases touched with
  | none => exact ⟨⟨r, hr, rfl⟩, fun _ => ⟨hr, nofun⟩⟩
  | some t =>
      unfold Touched.apply at hr
      dsimp only at hr
      by_cases hunset : t.unset = true
      · rw [if_pos hunset] at hr
        rcases Lists.mem_put.mp hr with ⟨hmem, hid⟩ | ⟨rfl, hold⟩
        · exact ⟨⟨r, hmem, rfl⟩, fun _ => ⟨hmem, fun t' ht' _ =>
            Option.some.inj ht' ▸ hid⟩⟩
        · exact ⟨hold, nofun⟩
      · rw [if_neg hunset] at hr
        exact ⟨⟨r, hr, rfl⟩, fun _ => ⟨hr, fun t' ht' hunset' =>
          absurd (Option.some.inj ht' ▸ hunset') hunset⟩⟩

theorem Sound.apply_touched (h : Sound d) (touched : Option Touched) :
    Sound (Touched.apply d touched) := by
  cases touched with
  | none => exact h
  | some t =>
      unfold Touched.apply
      dsimp only
      split
      · exact h.put nofun
      · exact h

theorem Lists.mem_put_of_ne {row r : ListRow} (h : r.id ≠ row.id) :
    r ∈ d.put row ↔ r ∈ d := by
  rw [Lists.mem_put]
  constructor
  · rintro (⟨hr, -⟩ | ⟨hput, -⟩)
    · exact hr
    · exact absurd (congrArg ListRow.id hput) h
  · exact fun hr => .inl ⟨hr, h⟩

theorem mem_push_of_ne {row r : ListRow} (h : r.id ≠ row.id) :
    r ∈ d ++ [row] ↔ r ∈ d := by
  rw [List.mem_append, List.mem_singleton]
  exact or_iff_left fun hr => h (congrArg ListRow.id hr)

/-- A row that the transaction has not locked is there after its commit as it
was before. -/
theorem confined {place : Place} {o : Result} (hknows : Knows d place)
    (hcommit : commit d place = some o) {r : ListRow}
    (hr : Lock.row r.id ∉ place.held) : r ∈ o.data ↔ r ∈ d := by
  unfold commit at hcommit
  split at hcommit
  · cases hcommit
    exact Iff.rfl
  · next row =>
      cases hcommit
      refine Lists.mem_put_of_ne fun hid => hr ?_
      exact List.mem_cons_of_mem _ (List.mem_singleton.mpr
        (congrArg Lock.row hid))
  · next request row row' =>
      cases hcommit
      refine Lists.mem_put_of_ne fun hid => hr ?_
      rw [hknows.2.1] at hid
      exact List.mem_singleton.mpr (congrArg Lock.row hid)
  · next row =>
      cases hcommit
      rw [Lists.mem_remove]
      refine and_iff_left fun hid => hr ?_
      rw [hid]
      exact List.mem_cons_self
  · next row =>
      cases hcommit
      refine mem_push_of_ne fun hid => hr ?_
      exact List.mem_singleton.mpr (congrArg Lock.row hid)
  · next swap id touched =>
      cases hcommit
      have hid : r.id ≠ id := by
        rintro rfl
        exact hr (List.mem_cons_of_mem _ List.mem_cons_self)
      have htouched : r ∈ Touched.apply d touched ↔ r ∈ d := by
        cases touched with
        | none => exact Iff.rfl
        | some t =>
            unfold Touched.apply
            dsimp only
            split
            · refine Lists.mem_put_of_ne fun hid => hr ?_
              refine List.mem_cons_of_mem _ (List.mem_cons_of_mem _ ?_)
              exact List.mem_flatMap.mpr ⟨t, List.mem_singleton_self t,
                hid ▸ List.mem_cons_self⟩
            · exact Iff.rfl
      rw [← htouched]
      cases swap with
      | insert name => exact mem_push_of_ne hid
      | existing row =>
          refine Lists.mem_put_of_ne fun hrow => hid ?_
          exact hrow.trans hknows.1.2.symm
  · cases hcommit

/-- Other commits give no row the flag. -/
theorem default_kept {place : Place} {o : Result} (hknows : Knows d place)
    (hswaps : ¬ place.Swaps) (hcommit : commit d place = some o) {r : ListRow}
    (hr : r ∈ o.data) (hdefault : r.isDefault = true) :
    ∃ old ∈ d, old.isDefault = true ∧ old.id = r.id := by
  unfold commit at hcommit
  split at hcommit
  · cases hcommit
    exact ⟨r, hr, hdefault, rfl⟩
  · cases hcommit
    rcases Lists.mem_put.mp hr with ⟨hin, -⟩ | ⟨hput, -⟩
    · exact ⟨r, hin, hdefault, rfl⟩
    · rw [hput] at hdefault
      cases hdefault
  · next request row row' =>
      cases hcommit
      rcases Lists.mem_put.mp hr with ⟨hin, -⟩ | ⟨hput, -⟩
      · exact ⟨r, hin, hdefault, rfl⟩
      · rw [hput] at hdefault ⊢
        exact ⟨row, hknows.1, hknows.2.2.1.symm.trans hdefault,
          hknows.2.1.symm⟩
  · cases hcommit
    exact ⟨r, (Lists.mem_remove.mp hr).1, hdefault, rfl⟩
  · next row =>
      cases hcommit
      rw [List.mem_append, List.mem_singleton] at hr
      rcases hr with hin | rfl
      · exact ⟨r, hin, hdefault, rfl⟩
      · rw [hknows.1] at hdefault
        cases hdefault
  · exact absurd trivial hswaps
  · cases hcommit

/-- The rows that have the flag when the new default is written. -/
theorem default_apply_touched {swap : Swap} {id : String}
    {touched : Option Touched} (hknows : Knows d (.swapped swap id touched)) :
    ∀ r ∈ Touched.apply d touched, r.isDefault = true → r ∈ d ∧ r.id = id := by
  intro r hr hdefault
  obtain ⟨hin, hnot⟩ := (mem_apply_touched hr).2 hdefault
  rcases hknows.2.2 r hin hdefault with hid | ⟨t, ht, hunset, hid⟩
  · exact ⟨hin, hid⟩
  · exact absurd hid (hnot t ht hunset)

theorem sound_commit {place : Place} {o : Result} (h : Sound d)
    (hknows : Knows d place) (hcommit : commit d place = some o) :
    Sound o.data := by
  unfold commit at hcommit
  split at hcommit
  · cases hcommit
    exact h
  · cases hcommit
    exact h.put nofun
  · next request row row' =>
      cases hcommit
      obtain ⟨hrow, hid, hdefault, hactive, -⟩ := hknows
      refine h.put fun hd => ⟨hactive hd, fun r hr hdr => ?_⟩
      rw [h.oneDefault r hr row hrow hdr (hdefault.symm.trans hd), hid]
  · cases hcommit
    exact h.remove _
  · cases hcommit
    refine h.push hknows.2 fun hd => ?_
    rw [hknows.1] at hd
    cases hd
  · next swap id touched =>
      cases hcommit
      have hdefaults := default_apply_touched hknows
      have htouched := h.apply_touched touched
      cases swap with
      | insert name =>
          have hfree : ∀ r ∈ Touched.apply d touched, r.id ≠ id := by
            intro r hr hid
            obtain ⟨old, hold, hsame⟩ := (mem_apply_touched hr).1
            exact hknows.1 old hold (hsame.trans hid)
          refine htouched.push hfree fun _ => ⟨rfl, fun r hr => ?_⟩
          exact eq_false_of_ne_true fun hd => hfree r hr (hdefaults r hr hd).2
      | existing row =>
          refine htouched.put fun _ => ⟨rfl, fun r hr hd => ?_⟩
          exact (hdefaults r hr hd).2.trans hknows.1.2
  · cases hcommit

/-! ## A set-default

It takes the flag away first. What it relies on is about the list that it has
found for this. -/

/-- Who has looked for the default to take the flag away, and has no row
locked that has it. -/
def Place.Clears : Place → Prop
  | .clearing _ => True
  | .clearMissed _ => True
  | _ => False

/-- What it relies on. -/
def KnowsDefault (d : Lists) : Place → Prop
  | .clearing id => ∀ row ∈ d, row.isDefault = true → row.id = id
  | .clearMissed _ => ∀ row ∈ d, row.isDefault = false
  | _ => True

theorem mem_apply_touched_of_mem {touched : Option Touched} {row : ListRow}
    (hrow : row ∈ d) : ∃ old ∈ Touched.apply d touched, old.id = row.id := by
  cases touched with
  | none => exact ⟨row, hrow, rfl⟩
  | some t =>
      unfold Touched.apply
      dsimp only
      split
      · have hids := Lists.ids_put (d := d)
          { t.row with isDefault := false }
        have hmem : row.id ∈ (d.put { t.row with isDefault := false }).map
            ListRow.id := by
          rw [hids]
          exact List.mem_map_of_mem hrow
        obtain ⟨old, hold, hid⟩ := List.mem_map.mp hmem
        exact ⟨old, hold, hid⟩
      · exact ⟨row, hrow, rfl⟩

/-- A set-default that commits leaves the list that it was to choose. -/
theorem defaultIs_of_commit {place : Place} {o : Result} (h : Sound d)
    (hknows : Knows d place) (hdefault : KnowsDefault d place)
    (hcommit : commit d place = some o) {id : Option String}
    (hout : o.out = [.committed (.setDefaultPriceList id)]) :
    o.data.DefaultIs id := by
  unfold commit at hcommit
  split at hcommit
  · cases hcommit
    cases hout
    exact defaultIs_none hdefault
  · next row =>
      cases hcommit
      cases hout
      refine defaultIs_none fun r hr => ?_
      rcases Lists.mem_put.mp hr with ⟨hin, hid⟩ | ⟨hput, -⟩
      · refine eq_false_of_ne_true fun hd => hid ?_
        rw [h.oneDefault r hin row hknows.1 hd hknows.2]
      · rw [hput]
  · next request row row' =>
      cases hcommit
      obtain ⟨hrow, hid, hflag, -, hchosen⟩ := hknows
      have hrequest : request = .setDefaultPriceList id := by
        cases hout
        rfl
      obtain ⟨rfl, hrowDefault⟩ := hchosen id hrequest
      rw [← hid]
      refine defaultIs_put ⟨row, hrow, hid.symm⟩ (hflag.trans hrowDefault) ?_
      intro r hr hd
      rw [h.oneDefault r hr row hrow hd hrowDefault, hid]
  · cases hcommit
    cases hout
  · cases hcommit
    cases hout
  · next swap chosen touched =>
      cases hcommit
      have hdefaults := default_apply_touched hknows
      cases swap with
      | insert name => cases hout
      | existing row =>
          cases hout
          obtain ⟨hrow, hid⟩ := hknows.1
          have hthere : ∃ old ∈ Touched.apply d touched, old.id = row.id :=
            mem_apply_touched_of_mem hrow
          rw [hid]
          refine defaultIs_put hthere rfl ?_
          intro r hr hd
          exact (hdefaults r hr hd).2.trans hid
  · cases hcommit

/-! ## What the others do

The knowledge of a transaction survives what others commit. -/

theorem Swap.Locked.frame {d' : Lists} {swap : Swap}
    (hrow : ∀ r : ListRow, Lock.row r.id ∈ swap.held → (r ∈ d' ↔ r ∈ d))
    (h : swap.Locked d) : swap.Locked d' := by
  cases swap with
  | insert name => trivial
  | existing row => exact (hrow row List.mem_cons_self).mpr h

theorem Touched.Locked.frame {d' : Lists} {touched : Touched}
    (hrow : ∀ r : ListRow, Lock.row r.id ∈ touched.held → (r ∈ d' ↔ r ∈ d))
    (h : touched.Locked d) : touched.Locked d' :=
  ⟨(hrow touched.row List.mem_cons_self).mpr h.1, h.2⟩

/-- What a transaction knows survives the commits of the others. -/
theorem Knows.frame {place other : Place} {o : Result}
    (hknows : Knows d place) (hcommit : commit d place = some o)
    (hother : Knows d other) (hlocks : ∀ k ∈ place.held, k ∉ other.held) :
    Knows o.data other := by
  have hrow : ∀ r : ListRow, Lock.row r.id ∈ other.held →
      (r ∈ o.data ↔ r ∈ d) :=
    fun r hr => confined hknows hcommit fun hmem => hlocks _ hmem hr
  have htouched : ∀ touched : Option Touched,
      (∀ k ∈ touched.toList.flatMap Touched.held, k ∈ other.held) →
      (∀ t ∈ touched, t.Locked d) → ∀ t ∈ touched, t.Locked o.data := by
    intro touched hheld hlocked t ht
    refine (hlocked t ht).frame fun r hr => hrow r (hheld _ ?_)
    exact List.mem_flatMap.mpr ⟨t, Option.mem_toList.mpr ht, hr⟩
  cases other with
  | idle => trivial
  | clearing id => trivial
  | clearMissed lockedId => trivial
  | clearLocked row =>
      exact ⟨(hrow row List.mem_cons_self).mpr hother.1, hother.2⟩
  | cleared row =>
      exact ⟨(hrow row (List.mem_cons_of_mem _ List.mem_cons_self)).mpr
        hother.1, hother.2⟩
  | locked request row =>
      exact ⟨(hrow row List.mem_cons_self).mpr hother.1, hother.2⟩
  | changed request row row' =>
      exact ⟨(hrow row List.mem_cons_self).mpr hother.1, hother.2⟩
  | deleted row => exact (hrow row List.mem_cons_self).mpr hother
  | creating name isActive => trivial
  | inserted row =>
      refine ⟨hother.1, fun r hr hid => hother.2 r ?_ hid⟩
      exact (hrow r (hid ▸ List.mem_cons_self)).mp hr
  | unsetting swap id => exact Swap.Locked.frame hrow hother
  | unset swap touched =>
      refine ⟨Swap.Locked.frame (fun r hr => hrow r
        (List.mem_append_left _ hr)) hother.1, ?_⟩
      exact htouched touched (fun k hk => List.mem_append_right _ hk) hother.2
  | swapped swap id touched =>
      have hin : ∀ k ∈ touched.toList.flatMap Touched.held,
          k ∈ (Place.swapped swap id touched).held := fun k hk =>
        List.mem_cons_of_mem _ (List.mem_cons_of_mem _ hk)
      have hid : Lock.row id ∈ (Place.swapped swap id touched).held :=
        List.mem_cons_of_mem _ List.mem_cons_self
      refine ⟨?_, htouched touched hin hother.2.1, ?_⟩
      · cases swap with
        | insert name =>
            refine fun r hr hsame => hother.1 r ?_ hsame
            exact (hrow r (hsame ▸ hid)).mp hr
        | existing row =>
            exact ⟨(hrow row (hother.1.2 ▸ hid)).mpr hother.1.1, hother.1.2⟩
      · intro r hr hd
        have hswaps : ¬ place.Swaps := by
          intro hswaps
          refine hlocks .companyDefault ?_ List.mem_cons_self
          cases place with
          | swapped swap' id' touched' => exact List.mem_cons_self
          | _ => exact hswaps.elim
        obtain ⟨old, hold, hdold, hsame⟩ :=
          default_kept hknows hswaps hcommit hr hd
        rw [← hsame]
        exact hother.2.2 old hold hdold

/-- What it relies on about the default survives if no default commits. -/
theorem KnowsDefault.frame {place other : Place} {o : Result}
    (hknows : Knows d place) (hcommit : commit d place = some o)
    (hother : KnowsDefault d other) (hcond : place.Swaps → ¬ other.Clears) :
    KnowsDefault o.data other := by
  cases other with
  | clearing id =>
      intro r hr hd
      obtain ⟨old, hold, hdold, hsame⟩ :=
        default_kept hknows (fun hswaps => hcond hswaps trivial) hcommit hr hd
      rw [← hsame]
      exact hother old hold hdold
  | clearMissed lockedId =>
      intro r hr
      refine eq_false_of_ne_true fun hd => ?_
      obtain ⟨old, hold, hdold, -⟩ :=
        default_kept hknows (fun hswaps => hcond hswaps trivial) hcommit hr hd
      rw [hother old hold] at hdold
      cases hdold
  | _ => trivial

/-! ## What a statement finds out

One lemma for each statement: what its caller knows afterwards. -/

theorem knows_unsetCompanyDefaultLists {swap : Swap} (h : swap.Locked d) :
    Knows (unsetCompanyDefaultLists d swap).data
      (unsetCompanyDefaultLists d swap).place := by
  unfold unsetCompanyDefaultLists
  split
  · exact ⟨h, nofun⟩
  · exact h

theorem knows_requireLockedPriceList {request : Request} {id : String}
    (h : ∀ chosen, request = .setDefaultPriceList chosen →
      chosen = some id) :
    Knows (requireLockedPriceList d request id).data
      (requireLockedPriceList d request id).place := by
  unfold requireLockedPriceList
  split
  · trivial
  · next row hrow =>
      obtain ⟨hmem, hid⟩ := Lists.row?_eq_some hrow
      refine ⟨hmem, fun chosen hchosen => ?_⟩
      rw [h chosen hchosen, hid]

theorem knows_begin (d : Lists) (request : Request) :
    Knows (begin d request).data (begin d request).place := by
  cases request with
  | createPriceList name isDefault isActive =>
      unfold begin
      dsimp only
      split
      · exact knows_unsetCompanyDefaultLists trivial
      · trivial
  | setDefaultPriceList priceListId =>
      cases priceListId with
      | none =>
          unfold begin loadCompanyDefault
          dsimp only
          split
          · trivial
          · trivial
      | some id =>
          refine knows_requireLockedPriceList fun chosen hchosen => ?_
          cases hchosen
          rfl
  | setPriceListActive id isActive => exact knows_requireLockedPriceList nofun
  | updatePriceList id name => exact knows_requireLockedPriceList nofun
  | deletePriceList id => exact knows_requireLockedPriceList nofun

theorem knows_onLocked (hsound : Sound d) {row : ListRow} {request : Request}
    {o : Result} (hlocked : Knows d (.locked request row))
    (h : onLocked d row request = some o) : Knows o.data o.place := by
  obtain ⟨hrow, hrequest⟩ := hlocked
  unfold onLocked at h
  split at h
  · cases h
  · cases h
  · next id =>
      cases h
      split
      · next hkept =>
          refine ⟨hrow, rfl, rfl, fun _ => hkept.2, fun chosen hchosen => ?_⟩
          exact ⟨hrequest chosen hchosen, hkept.1⟩
      · split
        · exact knows_unsetCompanyDefaultLists hrow
        · exact ⟨hrow, nofun⟩
  · next id isActive =>
      cases h
      split
      · trivial
      · next hnot =>
          refine ⟨hrow, rfl, rfl, fun hd => ?_, nofun⟩
          cases isActive with
          | true => rfl
          | false => exact absurd ⟨nofun, hd⟩ hnot
  · cases h
    exact ⟨hrow, rfl, rfl, fun hd => hsound.active row hrow hd, nofun⟩
  · cases h
    exact hrow

theorem knows_writeDefault {swap : Swap} {id : String}
    {touched : Option Touched} (hready : swap.Ready d id)
    (htouched : ∀ t ∈ touched, t.Locked d) :
    Knows (writeDefault d swap id touched).data
      (writeDefault d swap id touched).place := by
  unfold writeDefault
  split
  · trivial
  · next hmeets =>
      refine ⟨hready, htouched, fun r hr hd => ?_⟩
      by_cases hid : r.id = id
      · exact .inl hid
      · by_contra hnot
        refine hmeets ⟨r, hr, hd, hid, fun t ht hunset hsame => hnot ?_⟩
        exact .inr ⟨t, ht, hunset, hsame⟩

theorem knows_insertPriceList {id : String} {place : Place} {o : Result}
    (hplace : Knows d place) (h : insertPriceList d id place = some o) :
    Knows o.data o.place := by
  unfold insertPriceList at h
  split at h
  · cases h
    split
    · trivial
    · next hfree => exact ⟨rfl, fun r hr hid => hfree ⟨r, hr, hid⟩⟩
  · cases h
    split
    · trivial
    · next hfree =>
        exact knows_writeDefault (fun r hr hid => hfree ⟨r, hr, hid⟩) hplace.2
  · cases h

theorem knows_next (hsound : Sound d) {place : Place} {o : Result}
    (hplace : Knows d place) (h : next d place = some o) :
    Knows o.data o.place := by
  unfold next at h
  split at h
  · cases h
    unfold loadLocked
    split
    · trivial
    · next row hrow =>
        split
        · next hd => exact ⟨(Lists.row?_eq_some hrow).1, hd⟩
        · trivial
  · cases h
    exact hplace
  · exact knows_onLocked hsound hplace h
  · cases h
    unfold unsetLocked
    split
    · exact ⟨hplace, nofun⟩
    · next row hrow =>
        refine ⟨hplace, fun t ht => ?_⟩
        rw [Option.mem_some_iff] at ht
        rw [← ht]
        exact ⟨(Lists.row?_eq_some hrow).1, id⟩
  · cases h
    exact knows_writeDefault ⟨hplace.1, rfl⟩ hplace.2
  · cases h

theorem knows_of_statement (hsound : Sound d) {place : Place} {a : Statement}
    {o : Result} (hplace : Knows d place) (h : statement d place a = some o) :
    Knows o.data o.place := by
  unfold statement at h
  split at h
  · cases h
    exact knows_begin d _
  · cases h
  · cases h
  · exact knows_next hsound hplace h
  · exact knows_insertPriceList hplace h
  · unfold commit at h
    split at h
    all_goals cases h
    all_goals trivial
  · cases h
    trivial

/-! ## What is found out of the default

The same for the list that has the flag. -/

theorem knowsDefault_of_not_clears {place : Place} (h : ¬ place.Clears) :
    KnowsDefault d place := by
  cases place with
  | clearing id => exact absurd trivial h
  | clearMissed lockedId => exact absurd trivial h
  | _ => trivial

theorem knowsDefault_unsetCompanyDefaultLists (d : Lists) (swap : Swap) :
    KnowsDefault (unsetCompanyDefaultLists d swap).data
      (unsetCompanyDefaultLists d swap).place := by
  unfold unsetCompanyDefaultLists
  split
  · exact knowsDefault_of_not_clears nofun
  · exact knowsDefault_of_not_clears nofun

theorem knowsDefault_requireLockedPriceList (d : Lists) (request : Request)
    (id : String) :
    KnowsDefault (requireLockedPriceList d request id).data
      (requireLockedPriceList d request id).place := by
  unfold requireLockedPriceList
  split
  · exact knowsDefault_of_not_clears nofun
  · exact knowsDefault_of_not_clears nofun

theorem knowsDefault_writeDefault (d : Lists) (swap : Swap) (id : String)
    (touched : Option Touched) :
    KnowsDefault (writeDefault d swap id touched).data
      (writeDefault d swap id touched).place := by
  unfold writeDefault
  split
  · exact knowsDefault_of_not_clears nofun
  · exact knowsDefault_of_not_clears nofun

/-- A set-default to none goes on with the default there is. -/
theorem knowsDefault_begin (hsound : Sound d) (request : Request) :
    KnowsDefault (begin d request).data (begin d request).place := by
  cases request with
  | createPriceList name isDefault isActive =>
      unfold begin
      dsimp only
      split
      · exact knowsDefault_unsetCompanyDefaultLists d _
      · exact knowsDefault_of_not_clears nofun
  | setDefaultPriceList priceListId =>
      cases priceListId with
      | none =>
          unfold begin loadCompanyDefault
          dsimp only
          split
          · next hnone => exact Lists.default?_eq_none hnone
          · next row hrow =>
              obtain ⟨hmem, hd⟩ := Lists.default?_eq_some hrow
              intro r hr hdr
              rw [hsound.oneDefault r hr row hmem hdr hd]
      | some id => exact knowsDefault_requireLockedPriceList d _ id
  | setPriceListActive id isActive =>
      exact knowsDefault_requireLockedPriceList d _ id
  | updatePriceList id name => exact knowsDefault_requireLockedPriceList d _ id
  | deletePriceList id => exact knowsDefault_requireLockedPriceList d _ id

/-- The row that has been looked for is the default, or there is none. -/
theorem knowsDefault_loadLocked (hsound : Sound d) {id : String}
    (hplace : KnowsDefault d (.clearing id)) :
    KnowsDefault (loadLocked d id).data (loadLocked d id).place := by
  unfold loadLocked
  split
  · next hnone =>
      intro r hr
      refine eq_false_of_ne_true fun hd => ?_
      exact Lists.row?_eq_none hnone r hr (hplace r hr hd)
  · next row hrow =>
      obtain ⟨hmem, hid⟩ := Lists.row?_eq_some hrow
      split
      · exact knowsDefault_of_not_clears nofun
      · next hnot =>
          intro r hr
          refine eq_false_of_ne_true fun hd => hnot ?_
          rw [← hsound.eq_of_id hr hmem ((hplace r hr hd).trans hid.symm)]
          exact hd

theorem knowsDefault_onLocked {row : ListRow} {request : Request} {o : Result}
    (h : onLocked d row request = some o) : KnowsDefault o.data o.place := by
  unfold onLocked at h
  split at h
  · cases h
  · cases h
  · cases h
    split
    · exact knowsDefault_of_not_clears nofun
    · split
      · exact knowsDefault_unsetCompanyDefaultLists d _
      · exact knowsDefault_of_not_clears nofun
  · cases h
    split
    · exact knowsDefault_of_not_clears nofun
    · exact knowsDefault_of_not_clears nofun
  · cases h
    exact knowsDefault_of_not_clears nofun
  · cases h
    exact knowsDefault_of_not_clears nofun

theorem knowsDefault_next (hsound : Sound d) {place : Place} {o : Result}
    (hplace : KnowsDefault d place) (h : next d place = some o) :
    KnowsDefault o.data o.place := by
  unfold next at h
  split at h
  · cases h
    exact knowsDefault_loadLocked hsound hplace
  · cases h
    exact knowsDefault_of_not_clears nofun
  · exact knowsDefault_onLocked h
  · cases h
    unfold unsetLocked
    split
    · exact knowsDefault_of_not_clears nofun
    · exact knowsDefault_of_not_clears nofun
  · cases h
    exact knowsDefault_writeDefault d _ _ _
  · cases h

theorem knowsDefault_insertPriceList {id : String} {place : Place} {o : Result}
    (h : insertPriceList d id place = some o) :
    KnowsDefault o.data o.place := by
  unfold insertPriceList at h
  split at h
  · cases h
    split
    · exact knowsDefault_of_not_clears nofun
    · exact knowsDefault_of_not_clears nofun
  · cases h
    split
    · exact knowsDefault_of_not_clears nofun
    · exact knowsDefault_writeDefault d _ _ _
  · cases h

/-- Who looks for the default finds the one there is. -/
theorem knowsDefault_of_statement (hsound : Sound d) {place : Place}
    {a : Statement} {o : Result} (hplace : KnowsDefault d place)
    (h : statement d place a = some o) :
    KnowsDefault o.data o.place := by
  unfold statement at h
  split at h
  · cases h
    exact knowsDefault_begin hsound _
  · cases h
  · cases h
  · exact knowsDefault_next hsound hplace h
  · exact knowsDefault_insertPriceList h
  · unfold commit at h
    split at h
    all_goals cases h
    all_goals exact knowsDefault_of_not_clears nofun
  · cases h
    exact knowsDefault_of_not_clears nofun

/-! ## Any run

The invariant for every run, and what the condition adds to it. -/

theorem soundRules (initial : Initial) :
    Server.Rules (server initial) (fun _ _ => True) (fun d _ => Sound d)
      (fun d _ place => Knows d place) where
  init := initial.2
  start := trivial
  unlocked := rfl
  step := by
    intro c p a o _ hinv hknows h
    refine ⟨?_, knows_of_statement hinv hknows h⟩
    rcases statement_cases h with hquiet | ⟨-, hcommit⟩
    · rw [hquiet.data]
      exact hinv
    · exact sound_commit hinv hknows hcommit
  frame := by
    intro c p a o q _ _ _ hknows hother h hlocks _
    rcases statement_cases h with hquiet | ⟨-, hcommit⟩
    · rw [hquiet.data]
      exact hother
    · exact hknows.frame hcommit hother hlocks

/-- The price lists, the locks on them and the requests in progress. -/
abbrev State := Server.State Lists Lock Place

/-- At most one list is the default, and it is active, whatever runs beside
whatever. -/
theorem sound_of_reach (initial : Initial) (c : Conf State Event)
    (hreach : (machine initial).Reach c) : Sound c.st.data :=
  ((soundRules initial).kept hreach).inv

/-- A default does not commit beside a set-default to none that has looked for
one and has none locked. -/
def NoneClears (_ : Lists) (place : Place) (a : ℕ × Statement)
    (other : Place) : Prop :=
  a.2 = .commit → place.Swaps → ¬ other.Clears

theorem defaultRules (initial : Initial) :
    Server.Rules (server initial) (Server.OthersMeet NoneClears)
      (fun d _ => Sound d)
      (fun d _ place => Knows d place ∧ KnowsDefault d place) where
  init := initial.2
  start := ⟨trivial, trivial⟩
  unlocked := rfl
  step := by
    intro c p a o _ hinv hknows h
    exact ⟨((soundRules initial).step c p a o trivial hinv hknows.1 h).1,
      knows_of_statement hinv hknows.1 h,
      knowsDefault_of_statement hinv hknows.2 h⟩
  frame := by
    intro c p a o q hq hok _ hknows hother h hlocks _
    rcases statement_cases h with hquiet | ⟨ha, hcommit⟩
    · rw [hquiet.data]
      exact hother
    · exact ⟨hknows.1.frame hcommit hother.1 hlocks,
        KnowsDefault.frame hknows.1 hcommit hother.2 (hok q hq ha)⟩

/-- What a step is to come to: a set-default that commits leaves exactly the
list it was to choose as the default, and what fails leaves every list as it
was. -/
structure StepRight (c c' : Conf State Event) : Prop where
  chosen : ∀ id, c'.log = .committed (.setDefaultPriceList id) :: c.log →
    c'.st.data.DefaultIs id
  failed : ∀ why, c'.log = .failed why :: c.log → c'.st.data = c.st.data

theorem stepRight_of_kept {initial : Initial} {c c' : Conf State Event}
    {p : ℕ} {a : Statement} (hsound : Sound c.st.data)
    (hknows : Knows c.st.data (c.st.place p))
    (hdefault : KnowsDefault c.st.data (c.st.place p))
    (hnext : (machine initial).next c (p, a) = some c') : StepRight c c' := by
  obtain ⟨s, out, hstep, rfl⟩ := Machine.next_eq_some.mp hnext
  obtain ⟨o, ho, rfl, -, rfl⟩ := Server.step_eq_some hstep
  rcases statement_cases ho with hquiet | ⟨-, hcommit⟩
  · refine ⟨fun id hlog => ?_, fun why hlog => hquiet.data⟩
    rcases hquiet.out with hout | ⟨why, hout⟩
    · have hlength := congrArg List.length hlog
      simp [hout] at hlength
    · simp [hout] at hlog
  · refine ⟨fun id hlog => ?_, fun why hlog => ?_⟩
    · refine defaultIs_of_commit hsound hknows hdefault hcommit ?_
      exact List.append_left_injective c.log hlog
    · have hout : o.out = [.failed why] :=
        List.append_left_injective c.log hlog
      unfold commit at hcommit
      split at hcommit
      all_goals cases hcommit
      all_goals cases hout

/-- What is to hold of a company at any time. -/
structure Upheld (initial : Initial) (c : Conf State Event) : Prop where
  sound : Sound c.st.data
  stepRight : ∀ a c', (machine initial).next c a = some c' → StepRight c c'

/-- In a run in which no default commits beside a set-default to none that has
found nothing to lock, everything holds. -/
theorem upheld_of_reachWhen (initial : Initial) (c : Conf State Event)
    (hreach : (machine initial).ReachWhen (Server.OthersMeet NoneClears) c) :
    Upheld initial c := by
  have hkept := (defaultRules initial).kept hreach
  refine ⟨hkept.inv, fun a c' hnext => ?_⟩
  obtain ⟨p, a⟩ := a
  exact stepRight_of_kept hkept.inv (hkept.knows p).1 (hkept.knows p).2 hnext

/-! ## Two runs

One that keeps a default throughout, and one in which it is lost between two
transactions. -/

/-- The default list of a company. -/
def retail : ListRow := ⟨"r", "Retail", true, true⟩

/-- Its other list. -/
def trade : ListRow := ⟨"t", "Trade", true, false⟩

/-- Retail prices are the default, and there are others. -/
def twoLists : Initial :=
  ⟨[retail, trade], by decide, by decide, by decide⟩

instance (place : Place) : Decidable place.Swaps := by
  unfold Place.Swaps
  split <;> infer_instance

instance (place : Place) : Decidable place.Clears := by
  unfold Place.Clears
  split <;> infer_instance

instance (d : Lists) (place : Place) (a : ℕ × Statement) (other : Place) :
    Decidable (NoneClears d place a other) := by
  unfold NoneClears
  infer_instance

/-- The default is moved, while a new list that was to be the default waits and
fails; then it is taken away. -/
def orderlyRun : List (ℕ × Statement) :=
  [(1, .begin (.setDefaultPriceList (some "t"))), (1, .next),
    (2, .begin (.createPriceList "Sale" true true)), (1, .next), (1, .next),
    (1, .commit), (2, .next), (2, .insert "s"),
    (3, .begin (.setPriceListActive "t" false)), (3, .next),
    (1, .begin (.setDefaultPriceList none)), (1, .next), (1, .next),
    (1, .commit)]

theorem upheld_of_reachWhen_orderly : ∃ c : Conf State Event,
    c.log = [.committed (.setDefaultPriceList none),
        .failed (.validation DEFAULT_PRICE_LIST_DEACTIVATE_MESSAGE),
        .failed (.conflict DEFAULT_PRICE_LIST_CONFLICT_MESSAGE),
        .committed (.setDefaultPriceList (some "t"))] ∧
      Upheld twoLists c := by
  obtain ⟨c, hexec, hlog⟩ : (machine twoLists).EndsIn (fun c =>
      c.log = [.committed (.setDefaultPriceList none),
        .failed (.validation DEFAULT_PRICE_LIST_DEACTIVATE_MESSAGE),
        .failed (.conflict DEFAULT_PRICE_LIST_CONFLICT_MESSAGE),
        .committed (.setDefaultPriceList (some "t"))]) orderlyRun := by
    decide
  have hmeets : (machine twoLists).StepsMeet (Server.OthersMeet NoneClears)
      (machine twoLists).start orderlyRun :=
    Server.stepsMeet_of_callers (fun _ _ _ _ _ => id) [1, 2, 3] orderlyRun
      (by decide) (fun _ _ => rfl) (by decide)
  exact ⟨c, hlog, upheld_of_reachWhen twoLists c
    (Machine.ReachWhen.of_exec .start orderlyRun hmeets hexec)⟩

/-- The default is moved while a set-default to none waits for the row that
had it; once it can have the row, it finds no flag there. -/
def overtakenRun : List (ℕ × Statement) :=
  [(1, .begin (.setDefaultPriceList (some "t"))), (1, .next), (1, .next),
    (2, .begin (.setDefaultPriceList none)), (1, .next), (1, .commit),
    (2, .next)]

/-- There has been a default all the time, and there is one when the
set-default to none has committed. -/
theorem defaultLeft_of_reach :
    ∃ c : Conf State Event, (machine twoLists).Reach c ∧
      ¬ Upheld twoLists c := by
  obtain ⟨c, hexec, hend⟩ : (machine twoLists).EndsIn (fun c =>
      ∃ c' ∈ (machine twoLists).next c (2, .commit),
        c'.log = .committed (.setDefaultPriceList none) :: c.log ∧
        ∃ row ∈ c'.st.data, row.isDefault = true) overtakenRun := by
    decide
  refine ⟨c, Machine.reach_of_exec overtakenRun hexec, fun hupheld => ?_⟩
  obtain ⟨c', hnext, hlog, row, hrow, hd⟩ := hend
  have hnone := (hupheld.stepRight (2, .commit) c' hnext).chosen none hlog
  cases (hnone.only row hrow).mp hd

end Shozee.Pricing.Defaults
