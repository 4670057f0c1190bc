import Shozee.Files.Protocol

/-!
# What is left in the store

Every object is under a key of a row that is there, and a row that has been
marked as purged has nothing in staging: `Owned`. A sweep that deletes a row or
marks it never looks at it again, so each step has to keep this by itself.

What can break it is an object that is written too late: an upload through a
URL that is still live when the sweep has been, or one that falls between the
sweep's delete and its commit, or a finalize that goes on when its transaction
has been rolled back. In a run without these (`timely`) nothing is left behind
once the sweeps find nothing to do (`noLeak_of_reachWhen`).
-/

namespace Shozee.Files

open Shozee.Run

variable {B : Type} {d : Data B}

/-! ## Keys

A key names its file, so objects of different rows are under different keys. -/

theorem durableKeys_fileId {row : FileRow} {key : ObjectKey}
    (h : key ∈ row.durableKeys) :
    key.fileId = row.id ∧ key.companyId = row.companyId ∧
      key.folder ≠ .uploads := by
  unfold FileRow.durableKeys FileRow.durableKey at h
  cases hpurpose : row.purpose with
  | catalog =>
      rw [hpurpose] at h
      rcases List.mem_cons.mp h with rfl | h
      · exact ⟨rfl, rfl, nofun⟩
      · obtain ⟨r, -, rfl⟩ := List.mem_map.mp h
        exact ⟨rfl, rfl, nofun⟩
  | signing =>
      rw [hpurpose] at h
      obtain rfl := List.mem_singleton.mp h
      exact ⟨rfl, rfl, nofun⟩

/-- The keys that objects of a row may be under. -/
def FileRow.keys (row : FileRow) : List ObjectKey :=
  row.stagingKey :: row.durableKeys

theorem keys_fileId {row : FileRow} {key : ObjectKey} (h : key ∈ row.keys) :
    key.fileId = row.id ∧ key.companyId = row.companyId := by
  rcases List.mem_cons.mp h with rfl | h
  · exact ⟨rfl, rfl⟩
  · obtain ⟨hid, hcompany, -⟩ := durableKeys_fileId h
    exact ⟨hid, hcompany⟩

theorem stagingKey_notMem_durableKeys {row other : FileRow} :
    row.stagingKey ∉ other.durableKeys :=
  fun h => (durableKeys_fileId h).2.2 rfl

theorem renditionKey_mem {row : FileRow} (h : row.purpose = .catalog)
    (r : Rendition) : row.renditionKey r ∈ row.durableKeys := by
  unfold FileRow.durableKeys
  rw [h]
  refine List.mem_cons_of_mem _ (List.mem_map_of_mem ?_)
  cases r <;> decide

/-! ## What a copy of a row says

A caller works with a copy of the row. What it relies on is never taken back.
-/

/-- The row is as it was requested, but for what may change. -/
def Data.Requested (d : Data B) (row : FileRow) : Prop :=
  ∃ first, d.requested row.id = some first ∧
    first.companyId = row.companyId ∧ first.purpose = row.purpose

/-- Whether a file's row says that it is ready. -/
def Data.IsReady (d : Data B) (id : String) : Prop :=
  ∃ row, d.rows id = some row ∧ row.status = .ready

theorem Data.Requested.keys_eq {row other : FileRow} (h : d.Requested row)
    (hother : d.Requested other) (hid : row.id = other.id) :
    row.stagingKey = other.stagingKey ∧
      row.durableKeys = other.durableKeys := by
  obtain ⟨first, hfirst, hcompany, hpurpose⟩ := h
  obtain ⟨first', hfirst', hcompany', hpurpose'⟩ := hother
  rw [hid, hfirst'] at hfirst
  cases hfirst
  have hc := hcompany.symm.trans hcompany'
  have hp := hpurpose.symm.trans hpurpose'
  have hrendition : row.renditionKey = other.renditionKey := by
    funext r
    rw [FileRow.renditionKey, FileRow.renditionKey, hid, hc]
  unfold FileRow.stagingKey FileRow.durableKeys FileRow.durableKey
  rw [hid, hc, hp, hrendition]
  exact ⟨rfl, rfl⟩

/-- What is never taken back: what was requested, and that a row is ready. -/
structure Lasting (d d' : Data B) : Prop where
  requested : ∀ id first, d.requested id = some first →
    d'.requested id = some first
  ready : ∀ id, d.IsReady id → d'.IsReady id

theorem Lasting.refl (d : Data B) : Lasting d d :=
  ⟨fun _ _ h => h, fun _ h => h⟩

theorem Lasting.of_eq {d d' : Data B} (hrequested : d'.requested = d.requested)
    (hrows : d'.rows = d.rows) : Lasting d d' := by
  refine ⟨fun id first h => hrequested ▸ h, fun id h => ?_⟩
  unfold Data.IsReady
  rw [hrows]
  exact h

theorem Data.Requested.lasting {d' : Data B} {row : FileRow}
    (h : d.Requested row) (hlasting : Lasting d d') : d'.Requested row := by
  obtain ⟨first, hfirst, hsame⟩ := h
  exact ⟨first, hlasting.requested _ _ hfirst, hsame⟩

/-! ## The invariant

`Owned` on the rows and the store, and for each stage what its call knows. -/

/-- Links and objects belong to rows, and these to requests. -/
structure Owned (d : Data B) : Prop where
  rows : ∀ id row, d.rows id = some row → row.id = id ∧ d.Requested row
  urls : ∀ url ∈ d.urls, ∃ first, d.requested url.fileId = some first ∧
    first.companyId = url.companyId
  objects : ∀ key, d.objects key ≠ none →
    ∃ row, d.rows key.fileId = some row ∧ key ∈ row.keys
  purged : ∀ id row, d.rows id = some row → row.stagingPurgedAt ≠ none →
    row.status = .ready ∧ d.objects row.stagingKey = none
  signing : ∀ id row, d.rows id = some row → row.status = .ready →
    row.purpose = .signing → row.stagingPurgedAt ≠ none

/-- What a call relies on at each of its stages. -/
def Stage.Knows (d : Data B) : Stage B → Prop
  | .idle | .ended => True
  | .validating row | .reading row | .staged row _ | .locked row _
  | .encoding row _ => d.Requested row ∧ row.purpose = .catalog
  | .putting row _ todo =>
      (d.Requested row ∧ row.purpose = .catalog) ∧
        ∀ entry ∈ todo, entry.1 ∈ row.durableKeys
  | .filling row _ _ _ | .refetching row _ _ | .reencoding row _ _ _
  | .answering row _ =>
      (d.Requested row ∧ row.purpose = .catalog) ∧ d.IsReady row.id
  | .refilling row _ todo =>
      ((d.Requested row ∧ row.purpose = .catalog) ∧ d.IsReady row.id) ∧
        ∀ entry ∈ todo, entry.1 ∈ row.durableKeys
  | .verifying row _ _ | .fetching row _ _ | .copying row _ _
  | .recording row _ _ => d.Requested row ∧ row.purpose = .signing
  | .recorded row | .purged row =>
      (d.Requested row ∧ row.purpose = .signing) ∧ row.status = .ready ∧
        row.stagingPurgedAt ≠ none
  | .sweeping selected _ _ _ | .swept selected =>
      ∀ row ∈ selected, d.Requested row ∧
        (row.status = .ready → d.IsReady row.id)

theorem Stage.Knows.lasting {d' : Data B} {stage : Stage B}
    (h : stage.Knows d) (hlasting : Lasting d d') : stage.Knows d' := by
  cases stage with
  | idle | ended => trivial
  | validating row | reading row | staged row | locked row | encoding row =>
      exact ⟨h.1.lasting hlasting, h.2⟩
  | putting row bytes todo => exact ⟨⟨h.1.1.lasting hlasting, h.1.2⟩, h.2⟩
  | filling row | refetching row | reencoding row | answering row =>
      exact ⟨⟨h.1.1.lasting hlasting, h.1.2⟩, hlasting.ready _ h.2⟩
  | refilling row =>
      exact ⟨⟨⟨h.1.1.1.lasting hlasting, h.1.1.2⟩,
        hlasting.ready _ h.1.2⟩, h.2⟩
  | verifying row | fetching row | copying row | recording row =>
      exact ⟨h.1.lasting hlasting, h.2⟩
  | recorded row | purged row =>
      exact ⟨⟨h.1.1.lasting hlasting, h.1.2⟩, h.2⟩
  | sweeping selected | swept selected =>
      exact fun row hrow => ⟨(h row hrow).1.lasting hlasting,
        fun hready => hlasting.ready _ ((h row hrow).2 hready)⟩

/-! ## Timely writes

The condition, for each statement that writes an object. -/

/-- A finalize puts objects of a row that is there. -/
def Stage.requestTimely (d : Data B) : Stage B → Bool
  | .putting row _ (_ :: _) => (d.rows row.id).isSome
  | _ => true

/-- What a sweep or a record has deleted is still gone when it commits. -/
def Stage.queryTimely (d : Data B) : Stage B → Bool
  | .swept selected =>
      selected.all fun row => row.sweptKeys.all fun key =>
        (d.objects key).isNone
  | .purged row => (d.objects row.stagingKey).isNone
  | _ => true

/-- Nothing is written too late: an upload finds the file's row, and its
staging not yet purged, and neither a finalize nor a commit is overtaken. -/
def timely (d : Data B) (place : Place B) : Statement B → Bool
  | .put url _ _ => (d.rows url.fileId).any (·.stagingPurgedAt = none)
  | .request => place.stage.requestTimely d
  | .query _ => !place.inTx || place.stage.queryTimely d
  | _ => true

/-! ## Changes

What putting or deleting one object does to the invariant. -/

theorem putObject_of_ne {key other : ObjectKey} (h : other ≠ key) (bytes : B) :
    (d.putObject key bytes).objects other = d.objects other :=
  Function.update_of_ne h _ _

theorem deleteObject_of_ne {key other : ObjectKey} (h : other ≠ key) :
    (d.deleteObject key).objects other = d.objects other :=
  Function.update_of_ne h _ _

theorem deleteObject_self (key : ObjectKey) :
    (d.deleteObject key).objects key = none :=
  Function.update_self _ _ _

theorem setRow_self (id : String) (row : Option FileRow) :
    (d.setRow id row).rows id = row :=
  Function.update_self _ _ _

theorem setRow_of_ne {id other : String} (h : other ≠ id)
    (row : Option FileRow) : (d.setRow id row).rows other = d.rows other :=
  Function.update_of_ne h _ _

theorem Owned.putObject (h : Owned d) {key : ObjectKey} {row : FileRow}
    (hrow : d.rows key.fileId = some row) (hkey : key ∈ row.keys)
    (hpurged : key = row.stagingKey → row.stagingPurgedAt = none) (bytes : B) :
    Owned (d.putObject key bytes) where
  rows := h.rows
  urls := h.urls
  objects other hother := by
    by_cases heq : other = key
    · subst heq
      exact ⟨row, hrow, hkey⟩
    · refine h.objects other ?_
      rwa [putObject_of_ne heq] at hother
  purged id other hother hmarked := by
    obtain ⟨hready, hnone⟩ := h.purged id other hother hmarked
    refine ⟨hready, ?_⟩
    by_cases heq : other.stagingKey = key
    · subst heq
      have hid := (h.rows id other hother).1
      have hsame : d.rows other.id = some row := hrow
      rw [hid, show d.rows id = some other from hother] at hsame
      cases hsame
      exact absurd (hpurged rfl) hmarked
    · exact (putObject_of_ne heq bytes).trans hnone
  signing := h.signing

theorem Owned.deleteObject (h : Owned d) (key : ObjectKey) :
    Owned (d.deleteObject key) where
  rows := h.rows
  urls := h.urls
  objects other hother := by
    refine h.objects other fun hnone => hother ?_
    by_cases heq : other = key
    · subst heq
      exact deleteObject_self _
    · exact (deleteObject_of_ne heq).trans hnone
  purged id other hother hmarked := by
    obtain ⟨hready, hnone⟩ := h.purged id other hother hmarked
    refine ⟨hready, ?_⟩
    by_cases heq : other.stagingKey = key
    · subst heq
      exact deleteObject_self _
    · exact (deleteObject_of_ne heq).trans hnone
  signing := h.signing

/-- Only the count of sweeps is different. -/
theorem Owned.of_eq {d d' : Data B} (h : Owned d) (hrows : d'.rows = d.rows)
    (hobjects : d'.objects = d.objects) (hurls : d'.urls = d.urls)
    (hrequested : d'.requested = d.requested) : Owned d' := by
  have hsame : ∀ row, d'.Requested row ↔ d.Requested row := by
    intro row
    unfold Data.Requested
    rw [hrequested]
  constructor
  · intro id row hrow
    rw [hrows] at hrow
    exact ⟨(h.rows id row hrow).1, (hsame row).mpr (h.rows id row hrow).2⟩
  · rw [hurls, hrequested]
    exact h.urls
  · rw [hobjects, hrows]
    exact h.objects
  · rw [hrows, hobjects]
    exact h.purged
  · rw [hrows]
    exact h.signing

/-- A row takes the place of one that says the same of the file. -/
theorem Owned.setRow (h : Owned d) {row : FileRow}
    (hrequested : d.Requested row)
    (hpurged : row.stagingPurgedAt ≠ none →
      row.status = .ready ∧ d.objects row.stagingKey = none)
    (hsigning : row.status = .ready → row.purpose = .signing →
      row.stagingPurgedAt ≠ none) : Owned (d.setRow row.id (some row)) := by
  have hcases : ∀ {id other},
      (d.setRow row.id (some row)).rows id = some other →
      (id = row.id ∧ other = row) ∨ d.rows id = some other := by
    intro id other hother
    by_cases hid : id = row.id
    · subst hid
      rw [setRow_self] at hother
      exact Or.inl ⟨rfl, (Option.some.inj hother).symm⟩
    · rw [setRow_of_ne hid] at hother
      exact Or.inr hother
  constructor
  · intro id other hother
    rcases hcases hother with ⟨rfl, rfl⟩ | hother
    · exact ⟨rfl, hrequested⟩
    · exact h.rows id other hother
  · exact h.urls
  · intro key hkey
    obtain ⟨old, hold, hmem⟩ := h.objects key hkey
    by_cases hid : key.fileId = row.id
    · obtain ⟨hold_id, hold_requested⟩ := h.rows _ _ hold
      obtain ⟨hstaging, hdurable⟩ :=
        hold_requested.keys_eq hrequested (hold_id.trans hid)
      refine ⟨row, ?_, ?_⟩
      · rw [hid]
        exact setRow_self _ _
      · rw [FileRow.keys, ← hstaging, ← hdurable]
        exact hmem
    · exact ⟨old, (setRow_of_ne hid _).trans hold, hmem⟩
  · intro id other hother hmarked
    rcases hcases hother with ⟨rfl, rfl⟩ | hother
    · exact hpurged hmarked
    · exact h.purged id other hother hmarked
  · intro id other hother
    rcases hcases hother with ⟨rfl, rfl⟩ | hother
    · exact hsigning
    · exact h.signing id other hother

theorem Lasting.setRow {row : FileRow} (h : row.status = .ready) :
    Lasting d (d.setRow row.id (some row)) := by
  refine ⟨fun _ _ hfirst => hfirst, fun id hready => ?_⟩
  by_cases hid : id = row.id
  · subst hid
    exact ⟨row, setRow_self _ _, h⟩
  · obtain ⟨found, hfound, hstatus⟩ := hready
    exact ⟨found, (setRow_of_ne hid _).trans hfound, hstatus⟩

/-! ## One statement

`Fine` is what each statement has to come to. One lemma for each of them. -/

/-- What a statement is to come to. -/
structure Fine (d : Data B) (o : Result B) : Prop where
  lasting : Lasting d o.data
  owned : Owned o.data
  knows : o.place.Knows o.data

theorem fine_goOn (h : Owned d) {stage : Stage B} (hstage : stage.Knows d) :
    Fine d (goOn d stage) :=
  ⟨.refl d, h, hstage⟩

theorem fine_refuse (h : Owned d) (e : FileError) : Fine d (refuse d e) :=
  ⟨.refl d, h, trivial⟩

theorem fine_ended (h : Owned d) (out : List Event) :
    Fine d ⟨d, .ended, out⟩ :=
  ⟨.refl d, h, trivial⟩

theorem Owned.pending {row : FileRow} {id : String} (h : Owned d)
    (hrow : d.rows id = some row) (hstatus : row.status = .pending) :
    row.stagingPurgedAt = none := by
  by_contra hmarked
  have hready := (h.purged id row hrow hmarked).1
  rw [hstatus] at hready
  cases hready

theorem catalogRow_eq_some {companyId fileId : String} {row : FileRow}
    (h : d.catalogRow companyId fileId = some row) :
    d.rows fileId = some row ∧ row.companyId = companyId ∧
      row.purpose = .catalog := by
  obtain ⟨hrow, hmatch⟩ := Option.filter_eq_some_iff.mp h
  exact ⟨hrow, (of_decide_eq_true hmatch).1, (of_decide_eq_true hmatch).2⟩

theorem Owned.rows_none (h : Owned d) {id : String}
    (hnew : d.requested id = none) : d.rows id = none := by
  by_contra hne
  obtain ⟨row, hrow⟩ := Option.ne_none_iff_exists'.mp hne
  obtain ⟨hid, first, hfirst, -⟩ := h.rows id row hrow
  rw [hid, hnew] at hfirst
  cases hfirst

theorem fine_requestUpload (h : Owned d) {upload : UploadRequest}
    {fileId : String} {now : ℕ} {o : Result B}
    (ho : requestUpload d upload fileId now = some o) : Fine d o := by
  unfold requestUpload at ho
  split at ho
  next hnew =>
    cases ho
    have hnone := h.rows_none hnew
    have hof_rows : ∀ {id row}, d.rows id = some row → id ≠ fileId := by
      rintro id row hrow rfl
      rw [hnone] at hrow
      cases hrow
    have hlasting : Lasting d
        { d.setRow fileId (some (upload.row fileId now)) with
          requested := Function.update d.requested fileId
            (some (upload.row fileId now)) } := by
      constructor
      · intro id first hfirst
        have hid : id ≠ fileId := by
          rintro rfl
          rw [hnew] at hfirst
          cases hfirst
        exact (Function.update_of_ne hid _ _).trans hfirst
      · rintro id ⟨row, hrow, hready⟩
        exact ⟨row, (setRow_of_ne (hof_rows hrow) _).trans hrow, hready⟩
    have hcases : ∀ {id other},
        (d.setRow fileId (some (upload.row fileId now))).rows id = some other →
          (id = fileId ∧ other = upload.row fileId now) ∨
            d.rows id = some other := by
      intro id other hother
      by_cases hid : id = fileId
      · subst hid
        rw [setRow_self] at hother
        exact Or.inl ⟨rfl, (Option.some.inj hother).symm⟩
      · rw [setRow_of_ne hid] at hother
        exact Or.inr hother
    refine ⟨hlasting, ?_, trivial⟩
    constructor
    · intro id other hother
      rcases hcases hother with ⟨rfl, rfl⟩ | hother
      · exact ⟨rfl, _, Function.update_self _ _ _, rfl, rfl⟩
      · exact ⟨(h.rows id other hother).1,
          (h.rows id other hother).2.lasting hlasting⟩
    · intro url hurl
      obtain ⟨first, hfirst, hcompany⟩ := h.urls url hurl
      exact ⟨first, hlasting.requested _ _ hfirst, hcompany⟩
    · intro key hkey
      obtain ⟨row, hrow, hmem⟩ := h.objects key hkey
      exact ⟨row, (setRow_of_ne (hof_rows hrow) _).trans hrow, hmem⟩
    · intro id other hother hmarked
      rcases hcases hother with ⟨rfl, rfl⟩ | hother
      · exact absurd rfl hmarked
      · exact h.purged id other hother hmarked
    · intro id other hother hready
      rcases hcases hother with ⟨rfl, rfl⟩ | hother
      · cases hready
      · exact h.signing id other hother hready
  next => cases ho

theorem fine_getUploadUrl (h : Owned d) (purpose : Purpose)
    (companyId fileId : String) (now : ℕ) :
    Fine d (getUploadUrl d purpose companyId fileId now) := by
  unfold getUploadUrl
  split
  next => exact fine_refuse h _
  next row hrow =>
    split
    next => exact fine_refuse h _
    next hmine =>
      split
      next => exact fine_refuse h _
      next =>
        split
        next => exact fine_refuse h _
        next =>
          split
          next => exact fine_refuse h _
          next =>
            obtain ⟨hid, first, hfirst, hcompany, -⟩ := h.rows _ _ hrow
            refine ⟨.of_eq rfl rfl, ?_, trivial⟩
            refine ⟨h.rows, ?_, h.objects, h.purged, h.signing⟩
            intro url hurl
            rcases List.mem_cons.mp hurl with rfl | hurl
            · refine ⟨first, hid ▸ hfirst, hcompany.trans ?_⟩
              by_contra hne
              exact hmine (Or.inl hne)
            · exact h.urls url hurl

theorem fine_put (h : Owned d) {url : SignedUrl} {bytes : B} {now : ℕ}
    {place : Place B} {o : Result B}
    (htimely : timely d place (.put url bytes now) = true)
    (ho : put d url bytes now = some o) : Fine d o := by
  unfold put at ho
  split at ho
  next hlive =>
    cases ho
    obtain ⟨row, hrow, hunpurged⟩ := (Option.any_eq_true _ _).mp htimely
    obtain ⟨hid, first, hfirst, hcompany, -⟩ := h.rows _ _ hrow
    obtain ⟨first', hfirst', hcompany'⟩ := h.urls url hlive.1
    rw [hid, hfirst'] at hfirst
    cases hfirst
    have hkey : stagingObjectKey url.companyId url.fileId = row.stagingKey := by
      rw [FileRow.stagingKey, hid, ← hcompany', hcompany]
    refine ⟨.of_eq rfl rfl, ?_, trivial⟩
    refine h.putObject hrow ?_ (fun _ => of_decide_eq_true hunpurged) bytes
    rw [hkey]
    exact List.mem_cons_self
  next => cases ho

theorem fine_finalize (h : Owned d) (companyId fileId : String) :
    Fine d (finalize d companyId fileId) := by
  unfold finalize
  split
  next => exact fine_refuse h _
  next row hrow =>
    obtain ⟨hrows, -, hpurpose⟩ := catalogRow_eq_some hrow
    obtain ⟨hid, hrequested⟩ := h.rows _ _ hrows
    split
    next hready =>
      exact fine_goOn h ⟨⟨hrequested, hpurpose⟩, row, hid ▸ hrows, hready⟩
    next =>
      split
      next => exact fine_refuse h _
      next => exact fine_goOn h ⟨hrequested, hpurpose⟩

theorem fine_record (h : Owned d) (input : RecordRequest) :
    Fine d (record d input) := by
  unfold record
  split
  next => exact fine_refuse h _
  next row hrow =>
    split
    next => exact fine_refuse h _
    next hmine =>
      have hpurpose : row.purpose = .signing := by
        by_contra hne
        exact hmine (Or.inr hne)
      split
      next =>
        split
        next => exact fine_ended h _
        next => exact fine_refuse h _
      next =>
        split
        next => exact fine_goOn h ⟨(h.rows _ _ hrow).2, hpurpose⟩
        next => exact fine_refuse h _

theorem knows_sweepNext {selected : List FileRow} (rest : List FileRow)
    (h : (Stage.swept selected).Knows d) :
    (sweepNext selected rest).Knows d := by
  cases rest with
  | nil => exact h
  | cons row rest => exact h

theorem fine_sweep (h : Owned d) {abandoned ready : List String} {now : ℕ}
    {o : Result B} (ho : sweep d abandoned ready now = some o) : Fine d o := by
  have hfound : ∀ ids : List String, ∀ row ∈ ids.filterMap d.rows,
      d.Requested row ∧ (row.status = .ready → d.IsReady row.id) := by
    intro ids row hmem
    obtain ⟨id, -, hrow⟩ := List.mem_filterMap.mp hmem
    obtain ⟨hid, hrequested⟩ := h.rows id row hrow
    exact ⟨hrequested, fun hready => ⟨row, hid ▸ hrow, hready⟩⟩
  unfold sweep at ho
  dsimp only at ho
  split at ho
  next =>
    cases ho
    refine fine_goOn h (knows_sweepNext _ fun row hmem => ?_)
    rcases List.mem_append.mp hmem with hmem | hmem
    · exact hfound _ row hmem
    · exact hfound _ row hmem
  next => cases ho

/-- An object is put under a durable key of a row that is there. -/
theorem Owned.putDurable (h : Owned d) {row found : FileRow} {key : ObjectKey}
    (hrequested : d.Requested row) (hfound : d.rows row.id = some found)
    (hkey : key ∈ row.durableKeys) (bytes : B) :
    Owned (d.putObject key bytes) := by
  obtain ⟨hid, hfound_requested⟩ := h.rows _ _ hfound
  obtain ⟨-, hdurable⟩ := hrequested.keys_eq hfound_requested hid.symm
  rw [hdurable] at hkey
  have hfileId := (durableKeys_fileId hkey).1.trans hid
  refine h.putObject (hfileId ▸ hfound) (List.mem_cons_of_mem _ hkey) ?_ bytes
  rintro rfl
  exact absurd hkey stagingKey_notMem_durableKeys

theorem knows_afterHeads {row : FileRow} (held : Bool)
    (todo missing : List Rendition)
    (h : (d.Requested row ∧ row.purpose = .catalog) ∧ d.IsReady row.id) :
    (afterHeads row held todo missing : Stage B).Knows d := by
  unfold afterHeads
  split
  · exact h
  · exact h
  · exact h

theorem fine_request (C : Content B) (h : Owned d) {stage : Stage B}
    (hknows : stage.Knows d)
    (htimely : ∀ row bytes entry todo,
      stage = .putting row bytes (entry :: todo) →
        (d.rows row.id).isSome = true)
    {o : Result B} (ho : request C d stage = some o) : Fine d o := by
  unfold request at ho
  split at ho
  next row =>
    split at ho
    next => cases ho; exact fine_refuse h _
    next =>
      split at ho
      next => cases ho; exact fine_refuse h _
      next => cases ho; exact fine_goOn h hknows
  next row =>
    split at ho
    next => cases ho; exact fine_refuse h _
    next =>
      split at ho
      next => cases ho; exact fine_goOn h hknows
      next => cases ho; exact fine_refuse h _
  next row bytes =>
    split at ho
    next => cases ho; exact fine_refuse h _
    next =>
      split at ho
      next => cases ho; exact fine_goOn h hknows
      next => cases ho; exact fine_refuse h _
  next row bytes key object todo =>
    cases ho
    obtain ⟨hrow, htodo⟩ := hknows
    obtain ⟨found, hfound⟩ := Option.isSome_iff_exists.mp (htimely _ _ _ _ rfl)
    have hput := h.putDurable hrow.1 hfound
      (htodo _ List.mem_cons_self) object
    exact ⟨.of_eq rfl rfl, hput, hrow,
      fun entry hentry => htodo entry (List.mem_cons_of_mem _ hentry)⟩
  next row held r todo missing =>
    split at ho
    next => cases ho; exact fine_goOn h (knows_afterHeads _ _ _ hknows)
    next => cases ho; exact fine_goOn h (knows_afterHeads _ _ _ hknows)
  next row held missing =>
    split at ho
    next => cases ho; exact fine_refuse h _
    next => cases ho; exact fine_goOn h hknows
  next row held key object todo =>
    cases ho
    obtain ⟨⟨hrow, found, hfound, hready⟩, htodo⟩ := hknows
    have hput := h.putDurable hrow.1 hfound
      (htodo _ List.mem_cons_self) object
    refine ⟨.of_eq rfl rfl, hput, ?_⟩
    have hrest : ∀ entry ∈ todo, entry.1 ∈ row.durableKeys :=
      fun entry hentry => htodo entry (List.mem_cons_of_mem _ hentry)
    dsimp only
    split
    · exact ⟨hrow, found, hfound, hready⟩
    · exact ⟨⟨hrow, found, hfound, hready⟩, hrest⟩
  next row input durable =>
    split at ho
    next =>
      split at ho
      next => cases ho; exact fine_refuse h _
      next => cases ho; exact fine_goOn h hknows
    next =>
      split at ho
      next => cases ho; exact fine_refuse h _
      next => cases ho; exact fine_goOn h hknows
  next row input durable =>
    split at ho
    next => cases ho; exact fine_refuse h _
    next =>
      split at ho
      next =>
        split at ho
        next => cases ho; exact fine_goOn h hknows
        next => cases ho; exact fine_goOn h hknows
      next => cases ho; exact fine_refuse h _
  next row input bytes =>
    split at ho
    next => cases ho; exact fine_refuse h _
    next source hsource =>
      split at ho
      next =>
        cases ho
        -- The object in staging says that the row is there.
        obtain ⟨found, hfound, -⟩ := h.objects row.stagingKey
          (Option.ne_none_iff_exists'.mpr ⟨source, hsource⟩)
        have hkey : row.signingKey ∈ row.durableKeys := by
          unfold FileRow.durableKeys FileRow.durableKey
          rw [hknows.2]
          exact List.mem_singleton_self _
        exact ⟨.of_eq rfl rfl, h.putDurable hknows.1 hfound hkey source, hknows⟩
      next => cases ho; exact fine_refuse h _
  next row =>
    cases ho
    exact ⟨.of_eq rfl rfl, h.deleteObject _, hknows⟩
  next selected row key keys rest =>
    cases ho
    exact ⟨.of_eq rfl rfl, (h.deleteObject key).of_eq rfl rfl rfl rfl, hknows⟩
  next => cases ho

theorem fine_encode (h : Owned d) {encoded : Option (Rendition → B)}
    {stage : Stage B} (hknows : stage.Knows d) {o : Result B}
    (ho : encode d encoded stage = some o) : Fine d o := by
  unfold encode at ho
  split at ho
  next row bytes =>
    split at ho
    next => cases ho; exact fine_refuse h _
    next encoded =>
      cases ho
      refine fine_goOn h ⟨hknows, fun entry hentry => ?_⟩
      rcases List.mem_cons.mp hentry with rfl | hentry
      · unfold FileRow.durableKeys FileRow.durableKey
        rw [hknows.2]
        exact List.mem_cons_self
      · obtain ⟨r, -, rfl⟩ := List.mem_map.mp hentry
        exact renditionKey_mem hknows.2 r
  next row held missing _ =>
    split at ho
    next => cases ho; exact fine_refuse h _
    next encoded =>
      cases ho
      refine fine_goOn h ⟨hknows, fun entry hentry => ?_⟩
      obtain ⟨r, -, rfl⟩ := List.mem_map.mp hentry
      exact renditionKey_mem hknows.1.2 r
  next => cases ho

/-! ## Commits

The commits of a sweep, which change several rows at once. -/

/-- What a sweep's commit makes of the rows. -/
def Data.commitSweep (d : Data B) (now : ℕ) (selected : List FileRow) :
    Data B :=
  { d with
    rows := fun id =>
      if id ∈ selected.map (·.id) then (d.rows id).bind (sweptRow now)
      else d.rows id }

/-- A row after the commit of a sweep: as it was, or marked as purged. -/
theorem commitSweep_rows {now : ℕ} {selected : List FileRow} {id : String}
    {row : FileRow} (h : (d.commitSweep now selected).rows id = some row) :
    (d.rows id = some row ∧ id ∉ selected.map (·.id)) ∨
      ∃ found, d.rows id = some found ∧ id ∈ selected.map (·.id) ∧
        found.status = .ready ∧
        row = { found with stagingPurgedAt := some now } := by
  unfold Data.commitSweep at h
  dsimp only at h
  split at h
  next hmem =>
    obtain ⟨found, hfound, hswept⟩ := Option.bind_eq_some_iff.mp h
    unfold sweptRow at hswept
    split at hswept
    next => cases hswept
    next hready =>
      exact Or.inr ⟨found, hfound, hmem, hready,
        (Option.some.inj hswept).symm⟩
  next hmem => exact Or.inl ⟨h, hmem⟩

/-- Rows that are ready, and rows that were not found, are there after the
commit. -/
theorem commitSweep_of_rows (now : ℕ) {selected : List FileRow} {id : String}
    {row : FileRow} (h : d.rows id = some row)
    (hkept : id ∈ selected.map (·.id) → row.status = .ready) :
    ∃ kept, (d.commitSweep now selected).rows id = some kept ∧
      kept.status = row.status ∧ kept.stagingKey = row.stagingKey ∧
      kept.durableKeys = row.durableKeys := by
  unfold Data.commitSweep
  dsimp only
  by_cases hmem : id ∈ selected.map (·.id)
  · have hready := hkept hmem
    refine ⟨{ row with stagingPurgedAt := some now }, ?_, rfl, rfl, rfl⟩
    rw [if_pos hmem, h, Option.bind_some, sweptRow, hready]
  · exact ⟨row, by rw [if_neg hmem, h], rfl, rfl, rfl⟩

theorem fine_commitSweep (h : Owned d) {now : ℕ} {selected : List FileRow}
    (hknows : (Stage.swept selected).Knows d)
    (hgone : ∀ row ∈ selected, ∀ key ∈ row.sweptKeys, d.objects key = none) :
    Fine d (goOn (d.commitSweep now selected) .ended) := by
  have hlasting : Lasting d (d.commitSweep now selected) := by
    refine ⟨fun _ _ hfirst => hfirst, fun id hready => ?_⟩
    obtain ⟨row, hrow, hstatus⟩ := hready
    obtain ⟨kept, hkept, hsame, -⟩ :=
      commitSweep_of_rows now hrow fun _ => hstatus
    exact ⟨kept, hkept, hsame.trans hstatus⟩
  refine ⟨hlasting, ?_, trivial⟩
  constructor
  · intro id row hrow
    rcases commitSweep_rows hrow with ⟨hrow, -⟩ | ⟨found, hfound, -, -, rfl⟩
    · exact ⟨(h.rows id row hrow).1, (h.rows id row hrow).2.lasting hlasting⟩
    · exact ⟨(h.rows id found hfound).1, (h.rows id found hfound).2⟩
  · exact h.urls
  · intro key hkey
    obtain ⟨row, hrow, hmem⟩ := h.objects key hkey
    have hready : key.fileId ∈ selected.map (·.id) → row.status = .ready := by
      -- A row that the sweep deletes has no object left.
      intro hswept
      by_contra hpending
      obtain ⟨copy, hcopy, hid⟩ := List.mem_map.mp hswept
      obtain ⟨hrequested, hready⟩ := hknows copy hcopy
      obtain ⟨hrow_id, hrow_requested⟩ := h.rows _ _ hrow
      obtain ⟨hstaging, hdurable⟩ :=
        hrequested.keys_eq hrow_requested (hid.trans hrow_id.symm)
      have hcopy_pending : copy.status = .pending := by
        cases hstatus : copy.status with
        | pending => rfl
        | ready =>
            obtain ⟨found, hfound, hfound_ready⟩ := hready hstatus
            rw [hid, hrow] at hfound
            cases hfound
            exact absurd hfound_ready hpending
      refine hkey (hgone copy hcopy key ?_)
      rw [FileRow.sweptKeys, hcopy_pending]
      dsimp only
      rw [hstaging, hdurable]
      exact hmem
    obtain ⟨kept, hkept, -, hstaging, hdurable⟩ :=
      commitSweep_of_rows now hrow hready
    refine ⟨kept, hkept, ?_⟩
    rw [FileRow.keys, hstaging, hdurable]
    exact hmem
  · intro id row hrow hmarked
    rcases commitSweep_rows hrow with ⟨hrow, -⟩ |
      ⟨found, hfound, hswept, hready, rfl⟩
    · exact h.purged id row hrow hmarked
    · refine ⟨hready, ?_⟩
      obtain ⟨copy, hcopy, hid⟩ := List.mem_map.mp hswept
      obtain ⟨hfound_id, hfound_requested⟩ := h.rows _ _ hfound
      obtain ⟨hstaging, -⟩ := (hknows copy hcopy).1.keys_eq hfound_requested
        (hid.trans hfound_id.symm)
      refine hgone copy hcopy _ ?_
      change found.stagingKey ∈ copy.sweptKeys
      rw [← hstaging]
      unfold FileRow.sweptKeys
      split
      · exact List.mem_cons_self
      · exact List.mem_singleton_self _
  · intro id row hrow hready
    rcases commitSweep_rows hrow with ⟨hrow, -⟩ | ⟨found, -, -, -, rfl⟩
    · exact h.signing id row hrow hready
    · exact fun _ => Option.some_ne_none _

theorem fine_query (C : Content B) (h : Owned d) {now : ℕ} {stage : Stage B}
    (hknows : stage.Knows d)
    (hswept : ∀ selected, stage = .swept selected →
      ∀ row ∈ selected, ∀ key ∈ row.sweptKeys, d.objects key = none)
    (hpurged : ∀ row, stage = .purged row → d.objects row.stagingKey = none)
    {o : Result B} (ho : query C d now stage = some o) : Fine d o := by
  unfold query at ho
  split at ho
  next row bytes =>
    split at ho
    next => cases ho; exact fine_refuse h _
    next found hfound =>
      obtain ⟨hrow, -, hpurpose⟩ := catalogRow_eq_some hfound
      obtain ⟨hid, hrequested⟩ := h.rows _ _ hrow
      split at ho
      next hready =>
        cases ho
        exact fine_goOn h ⟨⟨hrequested, hpurpose⟩, found, hid ▸ hrow, hready⟩
      next =>
        split at ho
        next => cases ho; exact fine_refuse h _
        next =>
          split at ho
          next => cases ho; exact fine_goOn h ⟨hrequested, hpurpose⟩
          next => cases ho; exact fine_refuse h _
  next row bytes =>
    split at ho
    next => cases ho; exact fine_refuse h _
    next found hfound =>
      obtain ⟨hrow, -, hpurpose⟩ := catalogRow_eq_some hfound
      obtain ⟨hid, hrequested⟩ := h.rows _ _ hrow
      split at ho
      next hpending =>
        cases ho
        have hnone := h.pending hrow hpending
        let saved : FileRow :=
          { found with
            status := .ready
            byteSize := C.byteSize bytes
            checksumSha256 := row.checksumSha256 }
        have hlasting : Lasting d (d.setRow saved.id (some saved)) :=
          .setRow rfl
        have howned : Owned (d.setRow saved.id (some saved)) := by
          refine h.setRow hrequested (absurd hnone) fun _ hsigning => ?_
          rw [show saved.purpose = .catalog from hpurpose] at hsigning
          cases hsigning
        rw [← hid]
        exact ⟨hlasting, howned, trivial⟩
      next => cases ho; exact fine_ended h _
  next => cases ho; exact fine_ended h _
  next row input _ =>
    split at ho
    next => cases ho; exact fine_refuse h _
    next found hfound =>
      split at ho
      next hpending =>
        cases ho
        obtain ⟨-, hrequested⟩ := h.rows _ _ hfound
        exact fine_goOn h
          ⟨⟨hrequested, hpending.2.2⟩, rfl, Option.some_ne_none _⟩
      next =>
        split at ho
        next => cases ho; exact fine_ended h _
        next => cases ho; exact fine_refuse h _
  next row =>
    cases ho
    obtain ⟨⟨hrequested, -⟩, hready, hmarked⟩ := hknows
    exact ⟨.setRow hready, h.setRow hrequested
      (fun _ => ⟨hready, hpurged row rfl⟩) (fun _ _ => hmarked), trivial⟩
  next selected _ rest =>
    cases ho
    exact fine_goOn h (knows_sweepNext _ hknows)
  next selected =>
    cases ho
    exact fine_commitSweep h hknows (hswept selected rfl)
  next => cases ho

/-! ## Any run

The invariant along a run, and what it says when everything has come to rest.
-/

theorem fine_statement (C : Content B) (h : Owned d) {place : Place B}
    (hknows : place.stage.Knows d) {a : Statement B}
    (htimely : timely d place a = true)
    {o : Run.Outcome (Data B) (Place B) Event}
    (ho : statement C d place a = some o) :
    Lasting d o.data ∧ Owned o.data ∧ o.place.stage.Knows o.data := by
  have hat : ∀ {inTx : Bool} {result : Option (Result B)},
      (∀ r, result = some r → Fine d r) →
      result.map (Outcome.at inTx) = some o →
        Lasting d o.data ∧ Owned o.data ∧ o.place.stage.Knows o.data := by
    intro inTx result hfine hmap
    obtain ⟨r, hr, rfl⟩ := Option.map_eq_some_iff.mp hmap
    exact ⟨(hfine r hr).lasting, (hfine r hr).owned, (hfine r hr).knows⟩
  have hsome : ∀ {inTx : Bool} {r : Result B}, Fine d r →
      some (Outcome.at inTx r) = some o →
        Lasting d o.data ∧ Owned o.data ∧ o.place.stage.Knows o.data := by
    intro inTx r hfine heq
    cases heq
    exact ⟨hfine.lasting, hfine.owned, hfine.knows⟩
  unfold statement at ho
  split at ho
  next time _ =>
    split at ho
    next =>
      cases ho
      exact ⟨.of_eq rfl rfl, h.of_eq rfl rfl rfl rfl,
        hknows.lasting (.of_eq rfl rfl)⟩
    next => cases ho
  next => exact hat (fun _ => fine_requestUpload h) ho
  next => exact hsome (fine_getUploadUrl h _ _ _ _) ho
  next => exact hat (fun _ => fine_put h htimely) ho
  next => exact hsome (fine_finalize h _ _) ho
  next => exact hsome (fine_record h _) ho
  next => exact hat (fun _ => fine_sweep h) ho
  next =>
    refine hat (fun _ => fine_request C h hknows ?_) ho
    intro row bytes entry todo hstage
    simp only [timely, hstage] at htimely
    exact htimely
  next => exact hat (fun _ => fine_encode h hknows) ho
  next =>
    split at ho
    next hopen =>
      refine hat (fun _ => fine_query C h hknows ?_ ?_) ho
      · intro selected hstage row hrow key hkey
        rw [timely, hopen, hstage, Stage.queryTimely] at htimely
        have hgone := List.all_eq_true.mp htimely row hrow
        exact Option.isNone_iff_eq_none.mp (List.all_eq_true.mp hgone key hkey)
      · intro row hstage
        rw [timely, hopen, hstage, Stage.queryTimely] at htimely
        exact Option.isNone_iff_eq_none.mp htimely
    next =>
      cases ho
      exact ⟨.refl d, h, trivial⟩
  next => cases ho
  next => cases ho
  next =>
    cases ho
    exact ⟨.refl d, h, trivial⟩
  next =>
    cases ho
    exact ⟨.refl d, h, hknows⟩
  next => cases ho

theorem owned_initial : Owned (.initial : Data B) where
  rows _ _ h := nomatch h
  urls _ h := absurd h List.not_mem_nil
  objects _ h := absurd rfl h
  purged _ _ h := nomatch h
  signing _ _ h := nomatch h

/-- The files, the locks on their rows and the calls in progress. -/
abbrev State (B : Type) := Server.State (Data B) String (Place B)

/-- Each statement of a run is timely. -/
def TimelyStep (c : Conf (State B) Event) (a : ℕ × Statement B) : Prop :=
  timely c.st.data (c.st.place a.1) a.2 = true

instance (c : Conf (State B) Event) (a : ℕ × Statement B) :
    Decidable (TimelyStep c a) :=
  inferInstanceAs (Decidable (_ = true))

theorem ownedRules (C : Content B) :
    Server.Rules (server C) TimelyStep (fun d _ => Owned d)
      (fun d _ place => place.stage.Knows d) where
  init := owned_initial
  start := trivial
  unlocked := rfl
  step := by
    intro c p a o hok hinv hknows ho
    exact (fine_statement C hinv hknows hok ho).2
  frame := by
    intro c p a o q _ hok hinv hknows hother ho _ _
    exact hother.lasting (fine_statement C hinv hknows hok ho).1

/-- Every URL has expired, by the slowest clock, and no sweep finds anything to
do. -/
structure Settled (d : Data B) : Prop where
  expired : ∀ url ∈ d.urls, url.expiresAt < d.time
  swept : ∀ id row, d.rows id = some row →
    ¬ row.Abandoned d.time ∧ ¬ row.Leftover

/-- No ready row has an object in staging, and every object is of a row that is
there. -/
structure NoLeak (d : Data B) : Prop where
  staging : ∀ id row, d.rows id = some row → row.status = .ready →
    d.objects row.stagingKey = none
  absent : ∀ key, d.objects key ≠ none →
    ∃ row, d.rows key.fileId = some row ∧ row.companyId = key.companyId

theorem Owned.noLeak (h : Owned d) (hsettled : Settled d) : NoLeak d where
  staging id row hrow hready := by
    refine (h.purged id row hrow fun hnone => ?_).2
    cases hpurpose : row.purpose with
    | catalog => exact (hsettled.swept id row hrow).2 ⟨hready, hpurpose, hnone⟩
    | signing => exact h.signing id row hrow hready hpurpose hnone
  absent key hkey := by
    obtain ⟨row, hrow, hmem⟩ := h.objects key hkey
    exact ⟨row, hrow, (keys_fileId hmem).2.symm⟩

/-- In a run of timely statements nothing is left behind. -/
theorem noLeak_of_reachWhen (C : Content B) (c : Conf (State B) Event)
    (hreach : (machine C).ReachWhen TimelyStep c)
    (hsettled : Settled c.st.data) : NoLeak c.st.data :=
  ((ownedRules C).kept hreach).inv.noLeak hsettled

/-! ## A photo

Uploaded and swept as it should be, and then uploaded once more. -/

/-- All contents are one. -/
def oneContent : Content Unit where
  byteSize _ := 1
  sha256Hex _ := "checksum"
  etag _ := "etag"
  uploadBytesMatchDeclaredMime _ _ := true
  bytesAreAsicContainer _ := true

/-- The link of an upload. -/
def photoUrl : SignedUrl := ⟨"company", "photo", 900000⟩

/-- A photo is uploaded and finalized. -/
def finalizedPhoto : List (ℕ × Statement Unit) :=
  [(0, .requestUpload ⟨"company", "user", .catalog, .png, 1, "checksum"⟩
      "photo" 0),
    (1, .getUploadUrl .catalog "company" "photo" 0), (2, .put photoUrl () 1),
    (3, .finalize "company" "photo"), (3, .request), (3, .request),
    (3, .query 2), (3, .request), (3, .encode (some fun _ => ())),
    (3, .request), (3, .request), (3, .request), (3, .request), (3, .request),
    (3, .query 3)]

/-- And it is swept from staging. -/
def sweptPhoto : List (ℕ × Statement Unit) :=
  finalizedPhoto ++
    [(4, .sweep [] ["photo"] 4), (4, .request), (4, .query 5), (4, .query 5)]

/-- Nothing more is uploaded, and the URL expires. -/
def quietPhoto : List (ℕ × Statement Unit) :=
  sweptPhoto ++ [(5, .tick 900001)]

/-- Before it does, the photo is uploaded again. -/
def uploadedAgain : List (ℕ × Statement Unit) :=
  sweptPhoto ++ [(5, .put photoUrl () 6), (6, .tick 900001)]

/-- What a run ends in. -/
def dataAfter (as : List (ℕ × Statement Unit)) : Data Unit :=
  ((machine oneContent).exec (machine oneContent).start as).elim .initial
    (·.st.data)

theorem dataAfter_eq {as : List (ℕ × Statement Unit)}
    {c : Conf (State Unit) Event}
    (h : (machine oneContent).exec (machine oneContent).start as = some c) :
    dataAfter as = c.st.data := by
  rw [dataAfter, h, Option.elim_some]

theorem rows_finalizedPhoto {id : String} (h : id ≠ "photo") :
    (dataAfter finalizedPhoto).rows id = none := by
  have hfinalized : (dataAfter finalizedPhoto).rows =
      Function.update (Function.update (fun _ => none) "photo" _) "photo" _ :=
    rfl
  rw [hfinalized, Function.update_of_ne h, Function.update_of_ne h]

/-- Nothing is left for a sweep when the photo has been swept. -/
theorem settled_of_swept {d : Data Unit}
    (hexpired : ∀ url ∈ d.urls, url.expiresAt < d.time)
    (hrows : ∀ id, d.rows id =
      if id ∈ ["photo"] then
        ((dataAfter finalizedPhoto).rows id).bind (sweptRow 5)
      else (dataAfter finalizedPhoto).rows id)
    (hphoto : (d.rows "photo").all (fun row =>
      row.status = .ready ∧ row.stagingPurgedAt ≠ none) = true) :
    Settled d where
  expired := hexpired
  swept id row hrow := by
    by_cases hid : id = "photo"
    · subst hid
      rw [hrow, Option.all_some] at hphoto
      obtain ⟨hready, hmarked⟩ := of_decide_eq_true hphoto
      refine ⟨fun habandoned => ?_, fun hleftover => hmarked hleftover.2.2⟩
      have hpending := habandoned.1
      rw [hready] at hpending
      cases hpending
    · have hselected : id ∉ ["photo"] := by simpa using hid
      rw [hrows, if_neg hselected, rows_finalizedPhoto hid] at hrow
      cases hrow

theorem noLeak_of_reachWhen_quietPhoto :
    ∃ c, (machine oneContent).exec (machine oneContent).start quietPhoto =
        some c ∧
      (c.st.data.rows "photo").isSome = true ∧ NoLeak c.st.data := by
  obtain ⟨c, hexec, hrow⟩ : (machine oneContent).EndsIn (fun c =>
      (c.st.data.rows "photo").isSome = true) quietPhoto := by decide
  have hdata := dataAfter_eq hexec
  refine ⟨c, hexec, hrow, noLeak_of_reachWhen oneContent c
    (Machine.ReachWhen.of_exec .start quietPhoto (by decide) hexec) ?_⟩
  rw [← hdata]
  exact settled_of_swept (by decide) (fun _ => rfl) (by decide)

/-- The object that is put after the sweep stays in staging. -/
theorem staging_leaked_after_sweep :
    ∃ c, (machine oneContent).Reach c ∧ Settled c.st.data ∧
      ¬ NoLeak c.st.data := by
  obtain ⟨c, hexec, hstaged⟩ : (machine oneContent).EndsIn (fun c =>
      (c.st.data.rows "photo").any (fun row => row.status = .ready ∧
        c.st.data.objects row.stagingKey ≠ none) = true) uploadedAgain := by
    decide
  have hdata := dataAfter_eq hexec
  obtain ⟨row, hrow, hready, hleft⟩ := by
    simpa only [Option.any_eq_true, decide_eq_true_eq] using hstaged
  refine ⟨c, Machine.reach_of_exec uploadedAgain hexec, ?_, fun hnoLeak =>
    hleft (hnoLeak.staging "photo" row hrow hready)⟩
  rw [← hdata]
  exact settled_of_swept (by decide) (fun _ => rfl) (by decide)

end Shozee.Files
