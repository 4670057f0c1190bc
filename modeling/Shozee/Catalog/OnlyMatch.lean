import Shozee.Catalog.Batches

/-!
# One of several is never picked

A text picks the only product that has its name, or else the only one whose
name it inflects, and so does the text of a variant (`pickProduct_eq_unique`,
`pickVariant_eq_unique`); a text that is split picks the only pair.

They are the only ones of what is looked at. The search by name shows the first
hundred products, in the order of their names, so that they are the only ones
of the catalogue when no match is behind the hundredth, and only then
(`resolved_only`).
-/

namespace Shozee.Catalog

open Shozee.Run Shozee.Validation

/-! ## The only match

A match is the only one by name or, where no name matches, the only one by
inflection. This does not depend on the order of the rows. -/

section Only

variable {α : Type} {L : Language}

variable (L) in
/-- The row is the only one with the name, or none has it and the row is the
only one whose name is inflected. -/
def IsOnly (nameOf : α → CodeUnits) (rows : List α) (query : CodeUnits)
    (row : α) : Prop :=
  (rows.filter fun row => normalizeUniqueMatchQuery L (nameOf row) =
      normalizeUniqueMatchQuery L query) = [row] ∨
    (rows.filter fun row => normalizeUniqueMatchQuery L (nameOf row) =
      normalizeUniqueMatchQuery L query) = [] ∧
    (rows.filter fun row => isInflectionOfName L query (nameOf row)) = [row]

variable (L) in
/-- The rows that matter for the text are the same. -/
structure SameMatches (nameOf : α → CodeUnits) (query : CodeUnits)
    (rows rows' : List α) : Prop where
  named : (rows.filter fun row => normalizeUniqueMatchQuery L (nameOf row) =
      normalizeUniqueMatchQuery L query).Perm
    (rows'.filter fun row => normalizeUniqueMatchQuery L (nameOf row) =
      normalizeUniqueMatchQuery L query)
  inflected : (rows.filter fun row =>
      isInflectionOfName L query (nameOf row)).Perm
    (rows'.filter fun row => isInflectionOfName L query (nameOf row))

theorem SameMatches.of_perm {nameOf : α → CodeUnits} {rows rows' : List α}
    (h : rows.Perm rows') (query : CodeUnits) :
    SameMatches L nameOf query rows rows' :=
  ⟨h.filter _, h.filter _⟩

theorem IsOnly.mem {nameOf : α → CodeUnits} {rows : List α}
    {query : CodeUnits} {row : α} (h : IsOnly L nameOf rows query row) :
    row ∈ rows := by
  rcases h with h | ⟨-, h⟩
  · exact (List.mem_filter.mp (h ▸ List.mem_singleton_self row)).1
  · exact (List.mem_filter.mp (h ▸ List.mem_singleton_self row)).1

theorem SameMatches.isOnly_iff {nameOf : α → CodeUnits} {query : CodeUnits}
    {rows rows' : List α} (h : SameMatches L nameOf query rows rows')
    (row : α) :
    IsOnly L nameOf rows query row ↔ IsOnly L nameOf rows' query row := by
  have hsingle : ∀ {found found' : List α}, found.Perm found' →
      (found = [row] ↔ found' = [row]) := fun h =>
    ⟨fun heq => List.perm_singleton.mp (heq ▸ h.symm),
      fun heq => List.perm_singleton.mp (heq ▸ h)⟩
  have hnone : ∀ {found found' : List α}, found.Perm found' →
      (found = [] ↔ found' = []) := fun h =>
    ⟨fun heq => List.perm_nil.mp (heq ▸ h.symm),
      fun heq => List.perm_nil.mp (heq ▸ h)⟩
  exact or_congr (hsingle h.named)
    (and_congr (hnone h.named) (hsingle h.inflected))

/-- What is picked by a text is the only match. -/
theorem pickUniqueReferenceMatch_eq_unique {nameOf : α → CodeUnits}
    {rows : List α} {query : CodeUnits} {row : α} :
    pickUniqueReferenceMatch L query rows (fun row => [some (nameOf row)])
        nameOf = .unique row ↔
      normalizeUniqueMatchQuery L query ≠ [] ∧
        IsOnly L nameOf rows query row := by
  have hexact : rows.filter (matchesExactly L query fun row =>
      [some (nameOf row)]) = rows.filter fun row =>
        normalizeUniqueMatchQuery L (nameOf row) =
          normalizeUniqueMatchQuery L query := by
    refine List.filter_congr fun row _ => ?_
    rw [matchesExactly, List.any_cons, List.any_nil, Bool.or_false,
      Option.any_some]
  unfold pickUniqueReferenceMatch pickUniqueNormalizedMatch IsOnly
  rw [hexact]
  by_cases hnil : normalizeUniqueMatchQuery L query = []
  · rw [if_pos hnil]
    exact iff_of_false nofun fun h => h.1 hnil
  rw [if_neg hnil, and_iff_right hnil]
  generalize (rows.filter fun row => decide
    (normalizeUniqueMatchQuery L (nameOf row) =
      normalizeUniqueMatchQuery L query)) = named
  generalize hinflected : (rows.filter fun row =>
    isInflectionOfName L query (nameOf row)) = inflected
  rcases named with _ | ⟨first, _ | ⟨next, named⟩⟩
  · dsimp only
    by_cases hrows : rows = []
    · rw [hrows, List.filter_nil] at hinflected
      rw [if_pos hrows, ← hinflected]
      exact iff_of_false nofun nofun
    · rw [if_neg hrows]
      dsimp only
      rcases inflected with _ | ⟨only, _ | ⟨next, inflected⟩⟩
      · exact iff_of_false nofun nofun
      · simp
      · exact iff_of_false nofun nofun
  · simp
  · exact iff_of_false nofun nofun

end Only

section Picks

variable {L : Language}

theorem pickProduct_eq_unique {query : CodeUnits}
    {candidates : ProductQueryCandidates} {row : ProductCandidate} :
    pickProduct L query candidates = .unique row ↔
      normalizeUniqueMatchQuery L query ≠ [] ∧
        IsOnly L ProductCandidate.name
          (candidatesForQuery L query candidates) query row :=
  pickUniqueReferenceMatch_eq_unique

/-- The variants that are left out of the choice have neither the name nor an
inflection of it. -/
theorem pickVariant_eq_unique {query : CodeUnits}
    {active : List VariantCandidate} {row : VariantCandidate} :
    pickVariant L query active = .unique row ↔
      normalizeUniqueMatchQuery L query ≠ [] ∧
        IsOnly L VariantCandidate.name active query row := by
  refine pickUniqueReferenceMatch_eq_unique.trans
    (and_congr_right fun hne => ?_)
  refine SameMatches.isOnly_iff ⟨?_, ?_⟩ row
  · rw [List.filter_filter]
    refine List.Perm.of_eq (List.filter_congr fun row _ => ?_)
    by_cases hname : normalizeUniqueMatchQuery L row.name =
        normalizeUniqueMatchQuery L query
    · have hcontains : fieldContainsQuery L (some row.name) query = true := by
        rw [fieldContainsQuery, hname]
        simp [hne]
      rw [hcontains]
      simp
    · simp [hname]
  · rw [List.filter_filter]
    refine List.Perm.of_eq (List.filter_congr fun row _ => ?_)
    cases isInflectionOfName L query row.name <;> simp

end Picks

/-! ## What is looked at

The pages that the search shows. When nothing is cut off, the rows that matter
are those of the catalogue. -/

section Looked

variable (L : Language) (db : Database) (tables : Tables L)

/-- The rows that the search finds, before the page of them is cut. -/
def foundRows (search : NameSearch) (status : Status) :
    List ProductCandidate :=
  let strictFindsNothing := !tables.products.any fun probe =>
    search.strict probe.name
  tables.products.filter fun row =>
    row.status = status &&
      if search.canRelax then
        search.relaxed row.name && (search.strict row.name ||
          strictFindsNothing)
      else search.strict row.name

/-- The products that a query is about. -/
def activeProducts : List ProductCandidate :=
  tables.products.filter fun row => row.status = .active

/-- The variants of a product that a query is about. -/
def activeVariants (product : ProductCandidate) : List VariantCandidate :=
  tables.variants.filter fun row =>
    row.productId = product.id && row.status = .active

/-- The search by name finds the products whose name is the text or is
inflected by it. -/
def FindsMatches : Prop :=
  ∀ query, normalizeUniqueMatchQuery L query ≠ [] →
    ∀ row ∈ activeProducts L tables,
      normalizeUniqueMatchQuery L row.name =
          normalizeUniqueMatchQuery L query ∨
        isInflectionOfName L query row.name = true →
      ∃ search,
        db.referenceNameSearch (normalizeReferenceQuery L query) =
            some search ∧
          row ∈ foundRows L tables search .active

/-- The search finds no more active products than are shown. -/
def Shown (query : CodeUnits) : Prop :=
  ∀ search,
    db.referenceNameSearch (normalizeReferenceQuery L query) = some search →
      (foundRows L tables search .active).length ≤ resolveLineCandidateMax

variable {L db tables}

theorem mem_searchRows_of_shown {search : NameSearch}
    (hlength : (foundRows L tables search .active).length ≤
      resolveLineCandidateMax) {row : ProductCandidate}
    (h : row ∈ foundRows L tables search .active) :
    row ∈ searchRows L db tables search .active := by
  have hpage : searchRows L db tables search .active =
      ((foundRows L tables search .active).mergeSort db.nameThenId).take
        resolveLineCandidateMax := rfl
  rw [hpage, List.take_of_length_le (by rwa [List.length_mergeSort])]
  exact (List.mergeSort_perm _ _).mem_iff.mpr h

/-- What is looked at for a text are active products. -/
theorem candidates_active (hL : L.Lawful) {queries : List CodeUnits}
    {value : CodeUnits} : ∀ row ∈ candidatesForQuery L value
      (loadCandidates L db tables queries .active),
        row ∈ activeProducts L tables := by
  intro row hrow
  refine List.mem_filter.mpr ?_
  rcases (mem_candidatesForQuery hL).mp hrow with h | h
  · exact ⟨h.1, decide_eq_true h.2.1⟩
  · exact ⟨h.2.mem.1, decide_eq_true h.2.mem.2⟩

/-- A search that finds no more than is shown shows every match. -/
theorem match_looked_of_shown (hL : L.Lawful)
    (hsearch : FindsMatches L db tables) {queries : List CodeUnits}
    {value : CodeUnits} (hne : normalizeUniqueMatchQuery L value ≠ [])
    (hvalue : normalizeReferenceQuery L value ∈ queries)
    (hshown : Shown L db tables value) :
    ∀ row ∈ activeProducts L tables,
      normalizeUniqueMatchQuery L row.name =
          normalizeUniqueMatchQuery L value ∨
        isInflectionOfName L value row.name = true →
      row ∈ candidatesForQuery L value
        (loadCandidates L db tables queries .active) := by
  intro row hrow hmatch
  obtain ⟨search, hsome, hfound⟩ := hsearch value hne row hrow hmatch
  exact (mem_candidatesForQuery hL).mpr (.inr ⟨hvalue, search, hsome,
    mem_searchRows_of_shown (hshown search hsome) hfound⟩)

theorem sameMatches_of_shown (hL : L.Lawful)
    (hsearch : FindsMatches L db tables) {queries : List CodeUnits}
    {value : CodeUnits} (hne : normalizeUniqueMatchQuery L value ≠ [])
    (hvalue : normalizeReferenceQuery L value ∈ queries)
    (hshown : Shown L db tables value) :
    SameMatches L ProductCandidate.name value
      (candidatesForQuery L value
        (loadCandidates L db tables queries .active))
      (activeProducts L tables) := by
  have hnodup : (candidatesForQuery L value
      (loadCandidates L db tables queries .active)).Nodup :=
    nodup_candidatesForQuery hL queries .active value
  have hactive := (nodup_of_apart hL tables.product_ids).filter
    fun row => row.status = .active
  have hfound := match_looked_of_shown hL hsearch hne hvalue hshown
  refine ⟨(List.perm_ext_iff_of_nodup (hnodup.filter _)
    (hactive.filter _)).mpr fun row => ?_,
    (List.perm_ext_iff_of_nodup (hnodup.filter _)
    (hactive.filter _)).mpr fun row => ?_⟩
  · rw [List.mem_filter, List.mem_filter]
    refine and_congr_left fun hname => ⟨candidates_active hL row, fun hrow => ?_⟩
    exact hfound row hrow (.inl (of_decide_eq_true hname))
  · rw [List.mem_filter, List.mem_filter]
    refine and_congr_left fun hinflected =>
      ⟨candidates_active hL row, fun hrow => ?_⟩
    exact hfound row hrow (.inr hinflected)

/-! ### What is cut off -/

variable (L tables) in
/-- No product that matters for the text is cut off: those with the name are
looked at, and where there are none, those whose name it inflects. -/
structure MatchesLooked (looked : List ProductCandidate) (value : CodeUnits) :
    Prop where
  named : ∀ row ∈ activeProducts L tables,
    normalizeUniqueMatchQuery L row.name = normalizeUniqueMatchQuery L value →
      row ∈ looked
  inflected : (∃ row ∈ activeProducts L tables,
      normalizeUniqueMatchQuery L row.name =
        normalizeUniqueMatchQuery L value) ∨
    ∀ row ∈ activeProducts L tables,
      isInflectionOfName L value row.name = true → row ∈ looked

/-- The only match of what is looked at is the only one there is exactly when
no product that matters is cut off. -/
theorem isOnly_active_iff (hL : L.Lawful) {looked : List ProductCandidate}
    {value : CodeUnits} {product : ProductCandidate} (hnodup : looked.Nodup)
    (hlooked : ∀ row ∈ looked, row ∈ activeProducts L tables)
    (h : IsOnly L ProductCandidate.name looked value product) :
    IsOnly L ProductCandidate.name (activeProducts L tables) value product ↔
      MatchesLooked L tables looked value := by
  have hactive : (activeProducts L tables).Nodup :=
    (nodup_of_apart hL tables.product_ids).filter _
  have hsame : ∀ {p : ProductCandidate → Bool},
      (∀ row ∈ activeProducts L tables, p row = true → row ∈ looked) →
      (looked.filter p).Perm ((activeProducts L tables).filter p) := by
    intro p hall
    refine (List.perm_ext_iff_of_nodup (hnodup.filter _)
      (hactive.filter _)).mpr fun row => ?_
    rw [List.mem_filter, List.mem_filter]
    exact and_congr_left fun hp => ⟨hlooked row, fun hrow => hall row hrow hp⟩
  have hmem := h.mem
  constructor
  · rintro (honly | ⟨hnone, honly⟩)
    · have hrow : ∀ row ∈ activeProducts L tables,
          normalizeUniqueMatchQuery L row.name =
            normalizeUniqueMatchQuery L value → row = product := by
        intro row hrow hname
        have hin : row ∈ [product] := by
          rw [← honly]
          exact List.mem_filter.mpr ⟨hrow, decide_eq_true hname⟩
        exact List.mem_singleton.mp hin
      refine ⟨fun row hin hname => hrow row hin hname ▸ hmem, .inl ?_⟩
      have hin := List.mem_filter.mp (honly ▸ List.mem_singleton_self product)
      exact ⟨product, hin.1, of_decide_eq_true hin.2⟩
    · refine ⟨fun row hin hname => ?_, .inr fun row hin hinflected => ?_⟩
      · have hno := List.filter_eq_nil_iff.mp hnone row hin
        exact absurd (decide_eq_true hname) hno
      · have hrow : row ∈ [product] := by
          rw [← honly]
          exact List.mem_filter.mpr ⟨hin, hinflected⟩
        exact List.mem_singleton.mp hrow ▸ hmem
  · intro hall
    have hnamed := hsame fun row hrow hname =>
      hall.named row hrow (of_decide_eq_true hname)
    rcases h with honly | ⟨hnone, honly⟩
    · rw [honly] at hnamed
      exact .inl (List.perm_singleton.mp hnamed.symm)
    · rw [hnone] at hnamed
      have hnone' := List.perm_nil.mp hnamed.symm
      rcases hall.inflected with ⟨row, hrow, hname⟩ | hinflected
      · have hno := List.filter_eq_nil_iff.mp hnone' row hrow
        exact absurd (decide_eq_true hname) hno
      · have hsameInflected := hsame hinflected
        rw [honly] at hsameInflected
        exact .inr ⟨hnone', List.perm_singleton.mp hsameInflected.symm⟩

end Looked

/-! ## What a line is resolved to

What should be said of a resolved line, for products, variants and texts that
name both. -/

section Resolved

variable (L : Language) (db : Database) (tables : Tables L)

/-- The variant of the product that the line says, or none for a product that
has no variants. -/
def VariantSettled (product : ProductCandidate) (line : LineReferenceInput)
    (found : ResolvedLineReference) : Prop :=
  match variantSelectionOf line with
  | .reference (.query text) =>
      ∃ variant, IsOnly L VariantCandidate.name
          (activeVariants L tables product) text variant ∧
        found = ⟨product.id, product.name, some variant.id, some variant.name⟩
  | .reference (.id id) =>
      ∃ variant ∈ activeVariants L tables product, variant.id = id ∧
        found = ⟨product.id, product.name, some variant.id, some variant.name⟩
  | _ => (∀ variant ∈ tables.variants, variant.productId ≠ product.id) ∧
      found = ⟨product.id, product.name, none, none⟩

/-- A product and its variant, each the only match of its words in one of the
splits of the text. -/
def IsPair (products : CodeUnits → List ProductCandidate) (value : CodeUnits)
    (product : ProductCandidate) (variant : VariantCandidate) : Prop :=
  ∃ split ∈ productVariantSplits L value,
    IsOnly L ProductCandidate.name (products split.1) split.1 product ∧
    IsOnly L VariantCandidate.name (activeVariants L tables product) split.2
      variant

/-- The line is resolved to the only product of its text, and its variant; or
to the only pair, when the text is split. -/
structure ResolvesOnly (lines : List LineReferenceInput)
    (whole parts : CodeUnits → List ProductCandidate)
    (line : LineReferenceInput) (found : ResolvedLineReference) : Prop where
  id : ∀ id, line.product = .id id →
    ∃ product ∈ activeProducts L tables, product.id = id ∧
      VariantSettled L tables product line found
  text : ∀ value, line.product = .query value →
    namedVariant L (load L db tables lines) line = none →
    ∃ product, IsOnly L ProductCandidate.name (whole value) value product ∧
      VariantSettled L tables product line found
  split : ∀ value, line.product = .query value →
    namedVariant L (load L db tables lines) line ≠ none →
    ∃ product variant, IsPair L tables parts value product variant ∧
      (∀ product' variant', IsPair L tables parts value product' variant' →
        product' = product ∧ variant' = variant) ∧
      found = ⟨product.id, product.name, some variant.id, some variant.name⟩

/-- Neither a product nor a variant has a `:` in its id. -/
def PlainIds : Prop :=
  (∀ row ∈ tables.products, (58 : CodeUnit) ∉ row.id) ∧
    ∀ row ∈ tables.variants, (58 : CodeUnit) ∉ row.id

variable {L db tables}

/-! ## Hits of splits

Splits that find the same pair count once. -/

/-- What hits of one variant share. -/
def hitKey (hit : ProductCandidate × VariantCandidate) : CodeUnits :=
  hit.1.id ++ codeUnits ":" ++ hit.2.id

/-- What a hit resolves a line to. -/
def hitFound (hit : ProductCandidate × VariantCandidate) :
    ResolvedLineReference :=
  ⟨hit.1.id, hit.1.name, some hit.2.id, some hit.2.name⟩

theorem mem_foldl_setHit {hits : List (ProductCandidate × VariantCandidate)}
    {seen : List (CodeUnits × ResolvedLineReference)} {entry}
    (h : entry ∈ hits.foldl setHit seen) :
    entry ∈ seen ∨ ∃ hit ∈ hits, entry = (hitKey hit, hitFound hit) := by
  induction hits generalizing seen with
  | nil => exact .inl h
  | cons hit hits ih =>
      rcases ih h with h | ⟨other, hother, heq⟩
      · have hset : entry ∈ seen ∨ entry = (hitKey hit, hitFound hit) := by
          unfold setHit at h
          dsimp only at h
          split at h
          next =>
            obtain ⟨old, hold, heq⟩ := List.mem_map.mp h
            split at heq
            next => exact .inr heq.symm
            next => exact .inl (heq ▸ hold)
          next =>
            rcases List.mem_append.mp h with h | h
            · exact .inl h
            · exact .inr (List.mem_singleton.mp h)
        rcases hset with h | h
        · exact .inl h
        · exact .inr ⟨hit, List.mem_cons_self, h⟩
      · exact .inr ⟨other, List.mem_cons_of_mem hit hother, heq⟩

/-- The key of a hit stays. -/
theorem exists_key_foldl_setHit
    {hits : List (ProductCandidate × VariantCandidate)}
    {seen : List (CodeUnits × ResolvedLineReference)} {key : CodeUnits}
    (h : (∃ entry ∈ seen, entry.1 = key) ∨ ∃ hit ∈ hits, hitKey hit = key) :
    ∃ entry ∈ hits.foldl setHit seen, entry.1 = key := by
  induction hits generalizing seen with
  | nil =>
      rcases h with h | ⟨hit, hhit, -⟩
      · exact h
      · exact absurd hhit List.not_mem_nil
  | cons hit hits ih =>
      refine ih ?_
      have hkept : (∃ entry ∈ seen, entry.1 = key) →
          ∃ entry ∈ setHit seen hit, entry.1 = key := by
        rintro ⟨entry, hentry, rfl⟩
        unfold setHit
        dsimp only
        split
        next =>
          refine ⟨_, List.mem_map_of_mem hentry, ?_⟩
          split
          next heq => exact heq.symm
          next => rfl
        next => exact ⟨entry, List.mem_append_left _ hentry, rfl⟩
      have hset : ∃ entry ∈ setHit seen hit, entry.1 = hitKey hit := by
        unfold setHit
        dsimp only
        split
        next hany =>
          obtain ⟨old, hold, heq⟩ := List.any_eq_true.mp hany
          refine ⟨_, List.mem_map_of_mem hold, ?_⟩
          rw [if_pos (of_decide_eq_true heq)]
          rfl
        next =>
          exact ⟨_, List.mem_append_right _ (List.mem_singleton_self _), rfl⟩
      rcases h with h | ⟨other, hother, rfl⟩
      · exact .inl (hkept h)
      · rcases List.mem_cons.mp hother with rfl | hother
        · exact .inl hset
        · exact .inr ⟨other, hother, rfl⟩

/-- A key tells what the ids are, as they have no `:` in them. -/
theorem eq_of_hitKey {hit other : ProductCandidate × VariantCandidate}
    (hhit : (58 : CodeUnit) ∉ hit.1.id ∧ (58 : CodeUnit) ∉ hit.2.id)
    (h : hitKey hit = hitKey other) :
    hit.1.id = other.1.id ∧ hit.2.id = other.2.id := by
  have hcolon : codeUnits ":" = [58] := by decide
  unfold hitKey at h
  rw [hcolon, List.append_assoc, List.append_assoc, List.singleton_append,
    List.singleton_append] at h
  obtain ⟨hproduct, -, hvariant⟩ :=
    (List.append_cons_inj_of_notMem hhit.1 hhit.2).mp h
  exact ⟨hproduct, hvariant⟩

/-- One entry is left when all the hits are one. -/
theorem resolveProductNamingItsVariant_eq_some {value : CodeUnits}
    {candidates : ProductQueryCandidates} {variants : List VariantCandidate}
    {found : ResolvedLineReference}
    (h : resolveProductNamingItsVariant L value candidates variants =
      some found) :
    ∃ hit, (∃ split ∈ productVariantSplits L value,
        splitHit L candidates variants split = some hit) ∧
      found = hitFound hit ∧
      ∀ split ∈ productVariantSplits L value, ∀ other,
        splitHit L candidates variants split = some other →
          hitKey other = hitKey hit := by
  unfold resolveProductNamingItsVariant at h
  dsimp only at h
  split at h
  next only honly =>
    have hmem : only ∈ ((productVariantSplits L value).filterMap
        (splitHit L candidates variants)).foldl setHit [] := by
      rw [honly]
      exact List.mem_singleton_self only
    rcases mem_foldl_setHit hmem with hmem | ⟨hit, hhit, rfl⟩
    · exact absurd hmem List.not_mem_nil
    refine ⟨hit, List.mem_filterMap.mp hhit, (Option.some.inj h).symm, ?_⟩
    intro split hsplit other hother
    have hkept : ∃ entry ∈ ((productVariantSplits L value).filterMap
        (splitHit L candidates variants)).foldl setHit [],
          entry.1 = hitKey other :=
      exists_key_foldl_setHit
        (.inr ⟨other, List.mem_filterMap.mpr ⟨split, hsplit, hother⟩, rfl⟩)
    rw [honly] at hkept
    obtain ⟨entry, hentry, hkey⟩ := hkept
    rw [← hkey, List.mem_singleton.mp hentry]
  next => cases h

/-! ## A line

The code's answer for each form of a line. -/

theorem productIds_perm (hL : L.Lawful) {ids : List CodeUnits}
    {product : ProductCandidate} (h : product.id ∈ ids) :
    ((loadVariantsForProducts L db tables ids).filter fun row =>
        row.productId = product.id).Perm
      (tables.variants.filter fun row => row.productId = product.id) := by
  refine (List.perm_ext_iff_of_nodup
    ((nodup_loadVariantsForProducts hL _).filter _)
    ((nodup_of_apart hL tables.variant_ids).filter _)).mpr fun row => ?_
  rw [List.mem_filter, List.mem_filter, mem_loadVariantsForProducts,
    decide_eq_true_eq]
  refine and_congr_left fun hid => and_iff_left ?_
  rwa [hid]

theorem activeVariants_perm (hL : L.Lawful) {ids : List CodeUnits}
    {product : ProductCandidate} (h : product.id ∈ ids) :
    ((loadVariantsForProducts L db tables ids).filter fun row =>
        row.productId = product.id && row.status = .active).Perm
      (activeVariants L tables product) := by
  have howned : ((loadVariantsForProducts L db tables ids).filter fun row =>
      row.productId = product.id).Perm
        (tables.variants.filter fun row => row.productId = product.id) :=
    productIds_perm hL h
  have hboth := howned.filter fun row => decide (row.status = .active)
  have hand : ∀ rows : List VariantCandidate,
      (rows.filter fun row => decide (row.productId = product.id)).filter
        (fun row => decide (row.status = .active)) =
      rows.filter fun row =>
        row.productId = product.id && row.status = .active := by
    intro rows
    rw [List.filter_filter]
    exact List.filter_congr fun row _ => Bool.and_comm _ _
  rw [hand, hand] at hboth
  exact hboth

/-- A referenced variant is one of the active ones of the product. -/
theorem resolveReferencedVariant_eq_ok {ref : EntityRef} {index : ℕ}
    {product : ProductCandidate} {owned active : List VariantCandidate}
    {variant : VariantCandidate}
    (h : resolveReferencedVariant L ref index product owned active =
      .ok variant) :
    match ref with
    | .id id => variant ∈ owned ∧ variant.status = .active ∧ variant.id = id
    | .query text => IsOnly L VariantCandidate.name active text variant := by
  cases ref with
  | id id =>
      unfold resolveReferencedVariant at h
      dsimp only at h ⊢
      split at h
      next => cases h
      next row hfind =>
        split at h
        next hstatus =>
          obtain rfl := Except.ok.inj h
          have hid : row.id = id := by simpa using List.find?_some hfind
          exact ⟨List.mem_of_find?_eq_some hfind, hstatus, hid⟩
        next => cases h
  | query text =>
      unfold resolveReferencedVariant at h
      dsimp only at h ⊢
      split at h
      next => cases h
      next =>
        split at h
        next => cases h
        next =>
          split at h
          next => cases h
          next => cases h
          next row hpicked =>
            obtain rfl := Except.ok.inj h
            exact (pickVariant_eq_unique.mp hpicked).2

theorem variantSettled (hL : L.Lawful) {ids : List CodeUnits}
    {product : ProductCandidate} (hid : product.id ∈ ids)
    {line : LineReferenceInput} {index : ℕ} {found : ResolvedLineReference}
    (h : resolveLineVariant L line index product
      (loadVariantsForProducts L db tables ids) = .ok found) :
    VariantSettled L tables product line found := by
  have howned : ((loadVariantsForProducts L db tables ids).filter fun row =>
      row.productId = product.id).Perm
        (tables.variants.filter fun row => row.productId = product.id) :=
    productIds_perm hL hid
  have hactive := howned.filter fun row => decide (row.status = .active)
  have hvariants : (tables.variants.filter fun row =>
      decide (row.productId = product.id)).filter
        (fun row => decide (row.status = .active)) =
      activeVariants L tables product := by
    rw [List.filter_filter]
    exact List.filter_congr fun row _ => Bool.and_comm _ _
  rw [hvariants] at hactive
  unfold resolveLineVariant at h
  unfold VariantSettled
  dsimp only at h
  generalize (loadVariantsForProducts L db tables ids).filter (fun row =>
    decide (row.productId = product.id)) = owned at h howned hactive
  generalize hfilter : owned.filter (fun row =>
    decide (row.status = .active)) = active at h hactive
  have hnone : ∀ other : Except LineError ResolvedLineReference,
      (if owned = [] then
        Except.ok (⟨product.id, product.name, none, none⟩ :
          ResolvedLineReference)
      else other) = .ok found → (∀ row, other ≠ .ok row) →
      (∀ variant ∈ tables.variants, variant.productId ≠ product.id) ∧
        found = ⟨product.id, product.name, none, none⟩ := by
    intro other hfound hother
    split at hfound
    next howns =>
      rw [howns] at howned
      have hempty := List.filter_eq_nil_iff.mp (List.nil_perm.mp howned)
      refine ⟨fun variant hvariant heq => ?_, (Except.ok.inj hfound).symm⟩
      exact hempty variant hvariant (decide_eq_true heq)
    next => exact absurd hfound (hother found)
  cases hselection : variantSelectionOf line with
  | unspecified =>
      rw [hselection] at h
      refine hnone _ h fun row => ?_
      split
      next => exact nofun
      next => exact nofun
  | base =>
      rw [hselection] at h
      refine hnone _ h fun row => ?_
      split
      next => exact nofun
      next => exact nofun
  | reference ref =>
      rw [hselection] at h
      dsimp only at h
      cases hreference : resolveReferencedVariant L ref index product owned
        active with
      | error error =>
          rw [hreference] at h
          cases h
      | ok variant =>
          rw [hreference] at h
          have hfound := (Except.ok.inj h).symm
          have hvariant := resolveReferencedVariant_eq_ok hreference
          cases ref with
          | id id =>
              refine ⟨variant, ?_, hvariant.2.2, hfound⟩
              rw [← hactive.mem_iff, ← hfilter]
              exact List.mem_filter.mpr
                ⟨hvariant.1, decide_eq_true hvariant.2.1⟩
          | query text =>
              exact ⟨variant, ((SameMatches.of_perm hactive text).isOnly_iff
                variant).mp hvariant, hfound⟩

theorem normalizeUniqueMatchQuery_ne_nil
    (hlower : ∀ text, L.toLowerCase text = [] → text = []) {text : CodeUnits}
    (h : normalizeReferenceQuery L text ≠ []) :
    normalizeUniqueMatchQuery L text ≠ [] :=
  fun hnil => h (hlower _ hnil)

/-- The parts of a split are words of the text, in either order. -/
theorem mem_productVariantSplits {value : CodeUnits}
    {split : CodeUnits × CodeUnits} (h : split ∈ productVariantSplits L value) :
    split.swap ∈ productVariantSplits L value ∧ split.1 ≠ [] := by
  have hwords : ∀ word ∈ wordsOf (L.nfc value), word ≠ [] :=
    fun _ hword => (isWord_of_mem hword).1
  unfold productVariantSplits at h ⊢
  dsimp only at h ⊢
  split at h
  next => exact absurd h List.not_mem_nil
  next hlength =>
    rw [if_neg hlength]
    have hsplit : (normalizeReferenceQuery L value).splitOn blank =
        wordsOf (L.nfc value) := by
      refine splitOn_blank_intercalate (fun hnil => ?_)
        fun _ => isWord_of_mem
      have htext : normalizeReferenceQuery L value =
        [blank].intercalate (wordsOf (L.nfc value)) := rfl
      rw [htext, hnil] at hlength
      exact hlength (.inl (by decide))
    rw [hsplit] at h hlength ⊢
    generalize wordsOf (L.nfc value) = words at h hlength hwords
    obtain ⟨index, hindex, hmem⟩ := List.mem_flatMap.mp h
    have hlt : index + 1 < words.length := by
      have := List.mem_range.mp hindex
      omega
    have hparts : ∀ {part : List CodeUnits}, part.length ≠ 0 →
        (∀ word ∈ part, word ∈ words) → [blank].intercalate part ≠ [] := by
      intro part hpart hsub hnil
      have hnone := (intercalate_eq_nil fun word hword =>
        hwords word (hsub word hword)).mp hnil
      rw [hnone] at hpart
      exact hpart rfl
    rcases List.mem_cons.mp hmem with rfl | hmem
    · refine ⟨List.mem_flatMap.mpr ⟨index, hindex,
        List.mem_cons_of_mem _ List.mem_cons_self⟩, hparts ?_ fun _ =>
          List.mem_of_mem_take⟩
      rw [List.length_take]
      omega
    · obtain rfl := List.mem_singleton.mp hmem
      refine ⟨List.mem_flatMap.mpr ⟨index, hindex, List.mem_cons_self⟩,
        hparts ?_ fun _ => List.mem_of_mem_drop⟩
      rw [List.length_drop]
      omega

theorem split_ne_nil (hL : L.Lawful)
    (hlower : ∀ text, L.toLowerCase text = [] → text = []) {value : CodeUnits}
    {split : CodeUnits × CodeUnits} (h : split ∈ productVariantSplits L value) :
    normalizeUniqueMatchQuery L split.1 ≠ [] ∧
      normalizeUniqueMatchQuery L split.2 ≠ [] := by
  have hpart : ∀ split ∈ productVariantSplits L value,
      normalizeUniqueMatchQuery L split.1 ≠ [] := by
    intro split h
    refine normalizeUniqueMatchQuery_ne_nil hlower ?_
    rw [normalize_split hL h]
    exact (mem_productVariantSplits h).2
  exact ⟨hpart split h, hpart split.swap (mem_productVariantSplits h).1⟩

/-- A split says a pair when each of its parts has the only match. -/
theorem splitHit_eq_some (hL : L.Lawful) {ids : List CodeUnits}
    {candidates : ProductQueryCandidates} {split : CodeUnits × CodeUnits}
    (hids : ∀ row ∈ candidatesForQuery L split.1 candidates, row.id ∈ ids)
    (hne : normalizeUniqueMatchQuery L split.1 ≠ [] ∧
      normalizeUniqueMatchQuery L split.2 ≠ [])
    {hit : ProductCandidate × VariantCandidate} :
    splitHit L candidates (loadVariantsForProducts L db tables ids) split =
        some hit ↔
      IsOnly L ProductCandidate.name
          (candidatesForQuery L split.1 candidates) split.1 hit.1 ∧
        IsOnly L VariantCandidate.name (activeVariants L tables hit.1)
          split.2 hit.2 := by
  have hvariant : ∀ product ∈ candidatesForQuery L split.1 candidates,
      ∀ variant, uniqueVariantByQuery L split.2
        ((loadVariantsForProducts L db tables ids).filter fun row =>
          row.productId = product.id && row.status = .active) =
            some variant ↔
        IsOnly L VariantCandidate.name (activeVariants L tables product)
          split.2 variant := by
    intro product hproduct variant
    have hperm : ((loadVariantsForProducts L db tables ids).filter fun row =>
        row.productId = product.id && row.status = .active).Perm
          (activeVariants L tables product) :=
      activeVariants_perm hL (hids product hproduct)
    rw [← (SameMatches.of_perm hperm split.2).isOnly_iff variant,
      ← and_iff_right hne.2 (b := IsOnly L VariantCandidate.name _ _ _),
      ← pickVariant_eq_unique, uniqueVariantByQuery]
    cases pickVariant L split.2 _ with
    | unique row => simp
    | none => exact iff_of_false nofun nofun
    | ambiguous ambiguity rows => exact iff_of_false nofun nofun
  have hpick : pickProduct L split.1 candidates = .unique hit.1 ↔
      IsOnly L ProductCandidate.name
        (candidatesForQuery L split.1 candidates) split.1 hit.1 :=
    pickProduct_eq_unique.trans (and_iff_right hne.1)
  unfold splitHit
  constructor
  · intro h
    split at h
    next product hunique =>
      obtain ⟨variant, hsome, heq⟩ := Option.map_eq_some_iff.mp h
      subst heq
      have honly := hpick.mp hunique
      exact ⟨honly, (hvariant product honly.mem variant).mp hsome⟩
    next => cases h
  · rintro ⟨hproduct, honly⟩
    rw [hpick.mpr hproduct]
    dsimp only
    rw [(hvariant hit.1 hproduct.mem hit.2).mpr honly, Option.map_some]

theorem resolveLine_eq_ok {loaded : Loaded} {line : LineReferenceInput}
    {index : ℕ} {found : ResolvedLineReference}
    (h : resolveLine L loaded line index = .ok found) :
    ∃ product, resolveProductRef L line.product index loaded.byId
        loaded.active loaded.archived = .ok product ∧
      resolveLineVariant L line index product loaded.variants = .ok found := by
  unfold resolveLine at h
  split at h
  next => cases h
  next product hproduct => exact ⟨product, hproduct, h⟩

theorem resolveProductRef_id {loaded : Loaded} {index : ℕ} {id : CodeUnits}
    {product : ProductCandidate}
    (h : resolveProductRef L (.id id) index loaded.byId loaded.active
      loaded.archived = .ok product) :
    loaded.byId id = some product := by
  unfold resolveProductRef at h
  dsimp only at h
  split at h
  next => cases h
  next row hrow =>
    split at h
    next =>
      obtain rfl := Except.ok.inj h
      exact hrow
    next => cases h

theorem resolveProductRef_text {loaded : Loaded} {index : ℕ}
    {value : CodeUnits} {product : ProductCandidate}
    (h : resolveProductRef L (.query value) index loaded.byId loaded.active
      loaded.archived = .ok product) :
    pickProduct L value loaded.active = .unique product := by
  unfold resolveProductRef at h
  dsimp only at h
  split at h
  next row hpicked =>
    obtain rfl := Except.ok.inj h
    exact hpicked
  next => cases h
  next =>
    split at h
    next => cases h
    next => cases h

/-- A line is resolved to the only match of the products that are looked at, or
of those among which the matches are the same. -/
theorem resolvesOnly_of_outcome (hL : L.Lawful)
    (hlower : ∀ text, L.toLowerCase text = [] → text = [])
    (hplain : PlainIds L tables) {lines : List LineReferenceInput}
    {line : LineReferenceInput} {index : ℕ}
    {found : ResolvedLineReference}
    (h : outcome L (load L db tables lines) line index = .ok found)
    {whole parts : CodeUnits → List ProductCandidate}
    (hwhole : ∀ value, line.product = .query value →
      normalizeUniqueMatchQuery L value ≠ [] →
      SameMatches L ProductCandidate.name value
        (candidatesForQuery L value (load L db tables lines).active)
        (whole value))
    (hparts : ∀ value, line.product = .query value →
      namedVariant L (load L db tables lines) line ≠ none →
      ∀ split ∈ productVariantSplits L value,
        SameMatches L ProductCandidate.name split.1
          (candidatesForQuery L split.1 (load L db tables lines).split)
          (parts split.1)) :
    ResolvesOnly L db tables lines whole parts line found := by
  have := hL.ordered
  obtain ⟨ids, hvariants, hbyId, hactive⟩ := load_variants db tables hL lines
  obtain ⟨splitIds, hsplitVariants, hsplit⟩ :=
    load_splitVariants db tables hL lines
  constructor
  · intro id hproduct
    have hnamed : namedVariant L (load L db tables lines) line = none := by
      unfold namedVariant
      rw [hproduct]
    rw [outcome, hnamed] at h
    obtain ⟨product, hpicked, hvariant⟩ := resolveLine_eq_ok h
    rw [hproduct] at hpicked
    have hrow := resolveProductRef_id hpicked
    rw [hvariants] at hvariant
    refine ⟨product, ?_, ?_, variantSettled hL (hbyId id product hrow) hvariant⟩
    · rw [load_byId] at hrow
      have hmem := List.mem_reverse.mp (List.mem_of_find?_eq_some hrow)
      obtain ⟨htable, hstatus, -⟩ := mem_loadProductsById.mp hmem
      exact List.mem_filter.mpr ⟨htable, decide_eq_true hstatus⟩
    · rw [load_byId] at hrow
      simpa using List.find?_some hrow
  · intro value hproduct hnone
    rw [outcome, hnone] at h
    obtain ⟨product, hpicked, hvariant⟩ := resolveLine_eq_ok h
    rw [hproduct] at hpicked
    obtain ⟨hne, honly⟩ := pickProduct_eq_unique.mp
      (resolveProductRef_text hpicked)
    rw [hvariants] at hvariant
    exact ⟨product, ((hwhole value hproduct hne).isOnly_iff product).mp honly,
      variantSettled hL (hactive value product honly.mem) hvariant⟩
  · intro value hproduct hsome
    obtain ⟨said, hsaid⟩ := Option.ne_none_iff_exists'.mp hsome
    rw [outcome, hsaid] at h
    obtain rfl := Except.ok.inj h
    unfold namedVariant at hsaid
    rw [hproduct] at hsaid
    dsimp only at hsaid
    split at hsaid
    next =>
      obtain ⟨hit, ⟨split, hmem, hhit⟩, hfound, hkeys⟩ :=
        resolveProductNamingItsVariant_eq_some hsaid
      rw [hsplitVariants] at hhit hkeys
      have hpair : ∀ split ∈ productVariantSplits L value, ∀ hit,
          splitHit L (load L db tables lines).split
              (loadVariantsForProducts L db tables splitIds) split = some hit ↔
            IsOnly L ProductCandidate.name (parts split.1) split.1 hit.1 ∧
              IsOnly L VariantCandidate.name (activeVariants L tables hit.1)
                split.2 hit.2 := by
        intro split hmem hit
        have hsame := hparts value hproduct hsome split hmem
        rw [← hsame.isOnly_iff]
        exact splitHit_eq_some hL (hsplit split.1)
          (split_ne_nil hL hlower hmem)
      have htables : ∀ split ∈ productVariantSplits L value, ∀ hit,
          splitHit L (load L db tables lines).split
              (loadVariantsForProducts L db tables splitIds) split = some hit →
            hit.1 ∈ tables.products ∧ hit.2 ∈ tables.variants := by
        intro split hmem hit hhit
        have honly := (splitHit_eq_some hL (hsplit split.1)
          (split_ne_nil hL hlower hmem)).mp hhit
        have hcandidate := honly.1.mem
        rw [load_split] at hcandidate
        exact ⟨mem_table_of_candidate hL hcandidate,
          (List.mem_filter.mp honly.2.mem).1⟩
      obtain ⟨hrow, hvariant⟩ := htables split hmem hit hhit
      refine ⟨hit.1, hit.2, ⟨split, hmem, (hpair split hmem hit).mp hhit⟩, ?_,
        hfound⟩
      rintro product variant ⟨split', hmem', honly⟩
      have hhit' := (hpair split' hmem' (product, variant)).mpr honly
      obtain ⟨hrow', hvariant'⟩ := htables split' hmem' _ hhit'
      obtain ⟨hid, hid'⟩ := eq_of_hitKey
        ⟨hplain.1 _ hrow', hplain.2 _ hvariant'⟩
        (hkeys split' hmem' (product, variant) hhit')
      constructor
      · exact eq_of_apart hL tables.product_ids hrow' hrow
          (by rw [hid]; exact Std.ReflCmp.compare_self)
      · exact eq_of_apart hL tables.variant_ids hvariant' hvariant
          (by rw [hid']; exact Std.ReflCmp.compare_self)
    next => cases hsaid

variable (L db tables) in
/-- No search for the text of the line, or for product words in it, finds more
than is shown. -/
def AllShown (line : LineReferenceInput) : Prop :=
  ∀ value, line.product = .query value →
    Shown L db tables value ∧
      ∀ split ∈ productVariantSplits L value, Shown L db tables split.1

variable (L db tables) in
/-- No product that matters for the line is cut off: none for its text, or, if
that is split, none that adds a pair to those of its splits or takes one away.
-/
def NoneCut (lines : List LineReferenceInput) (line : LineReferenceInput) :
    Prop :=
  ∀ value, line.product = .query value →
    (namedVariant L (load L db tables lines) line = none →
      MatchesLooked L tables
        (candidatesForQuery L value (load L db tables lines).active) value) ∧
    (namedVariant L (load L db tables lines) line ≠ none →
      ∀ product variant,
        IsPair L tables (fun _ => activeProducts L tables) value product
            variant ↔
          IsPair L tables (fun text => candidatesForQuery L text
            (load L db tables lines).split) value product variant)

theorem VariantSettled.productId {product : ProductCandidate}
    {line : LineReferenceInput} {found : ResolvedLineReference}
    (h : VariantSettled L tables product line found) :
    found.productId = product.id := by
  unfold VariantSettled at h
  split at h
  · obtain ⟨variant, -, rfl⟩ := h
    rfl
  · obtain ⟨variant, -, -, rfl⟩ := h
    rfl
  · rw [h.2]

/-- What is resolved among the products that are looked at is resolved among all
of them exactly when none that matters is cut off. -/
theorem resolvesOnly_iff (hL : L.Lawful)
    {lines : List LineReferenceInput} {line : LineReferenceInput}
    {found : ResolvedLineReference}
    (h : ResolvesOnly L db tables lines
      (fun text => candidatesForQuery L text (load L db tables lines).active)
      (fun text => candidatesForQuery L text (load L db tables lines).split)
      line found) :
    ResolvesOnly L db tables lines (fun _ => activeProducts L tables)
        (fun _ => activeProducts L tables) line found ↔
      NoneCut L db tables lines line := by
  have hwhole : ∀ {value product},
      IsOnly L ProductCandidate.name (candidatesForQuery L value
        (load L db tables lines).active) value product →
      (IsOnly L ProductCandidate.name (activeProducts L tables) value product ↔
        MatchesLooked L tables (candidatesForQuery L value
          (load L db tables lines).active) value) := fun honly =>
    isOnly_active_iff hL (nodup_candidatesForQuery hL _ _ _)
      (candidates_active hL) honly
  have hproduct : ∀ {a b : ProductCandidate}, a ∈ activeProducts L tables →
      b ∈ activeProducts L tables → a.id = b.id → a = b := by
    intro a b ha hb hid
    have := hL.ordered
    exact eq_of_apart hL tables.product_ids (List.mem_filter.mp ha).1
      (List.mem_filter.mp hb).1 (by rw [hid]; exact Std.ReflCmp.compare_self)
  have hvariant : ∀ {a b : VariantCandidate}, a ∈ tables.variants →
      b ∈ tables.variants → a.id = b.id → a = b := by
    intro a b ha hb hid
    have := hL.ordered
    exact eq_of_apart hL tables.variant_ids ha hb
      (by rw [hid]; exact Std.ReflCmp.compare_self)
  constructor
  · intro hall value hquery
    refine ⟨fun hnamed => ?_, fun hnamed => ?_⟩
    · obtain ⟨product, honly, hsettled⟩ := h.text value hquery hnamed
      obtain ⟨product', honly', hsettled'⟩ := hall.text value hquery hnamed
      obtain rfl : product' = product :=
        hproduct honly'.mem (candidates_active hL _ honly.mem)
          (hsettled'.productId.symm.trans hsettled.productId)
      exact (hwhole honly).mp honly'
    · obtain ⟨product, variant, hpair, hunique, hfound⟩ :=
        h.split value hquery hnamed
      obtain ⟨product', variant', hpair', hunique', hfound'⟩ :=
        hall.split value hquery hnamed
      rw [hfound] at hfound'
      obtain ⟨hid, -, hvariantId, -⟩ :=
        ResolvedLineReference.mk.inj hfound'
      have hsplitActive : ∀ {text : CodeUnits}, ∀ row ∈ candidatesForQuery L
          text (load L db tables lines).split,
          row ∈ activeProducts L tables := by
        intro text
        rw [load_split]
        exact candidates_active hL
      obtain ⟨split, -, honly, honlyVariant⟩ := id hpair
      obtain ⟨split', -, honly', honlyVariant'⟩ := id hpair'
      obtain rfl : product = product' :=
        hproduct (hsplitActive _ honly.mem) honly'.mem hid
      obtain rfl : variant = variant' :=
        hvariant (List.mem_filter.mp honlyVariant.mem).1
          (List.mem_filter.mp honlyVariant'.mem).1 (Option.some.inj hvariantId)
      intro a b
      constructor
      · intro hab
        obtain ⟨rfl, rfl⟩ := hunique' a b hab
        exact hpair
      · intro hab
        obtain ⟨rfl, rfl⟩ := hunique a b hab
        exact hpair'
  · intro hnone
    refine ⟨h.id, fun value hquery hnamed => ?_, fun value hquery hnamed => ?_⟩
    · obtain ⟨product, honly, hsettled⟩ := h.text value hquery hnamed
      exact ⟨product, (hwhole honly).mpr ((hnone value hquery).1 hnamed),
        hsettled⟩
    · obtain ⟨product, variant, hpair, hunique, hfound⟩ :=
        h.split value hquery hnamed
      have hsame := (hnone value hquery).2 hnamed
      exact ⟨product, variant, (hsame product variant).mpr hpair,
        fun product' variant' hpair' =>
          hunique product' variant' ((hsame product' variant').mp hpair'),
        hfound⟩

/-- Every line of a batch is resolved to the only match of the products that
are looked at; it is the only one there is exactly when no product that matters
is cut off, and none is when all that is found is shown. -/
theorem resolved_only (hL : L.Lawful)
    (hlower : ∀ text, L.toLowerCase text = [] → text = [])
    (hplain : PlainIds L tables) (hsearch : FindsMatches L db tables)
    {lines : List LineReferenceInput} {found : List ResolvedLineReference}
    (h : resolveCatalogLineReferences L db tables lines = .ok found) :
    List.Forall₂ (fun line one =>
      ResolvesOnly L db tables lines
          (fun text => candidatesForQuery L text
            (load L db tables lines).active)
          (fun text => candidatesForQuery L text (load L db tables lines).split)
          line one ∧
        (ResolvesOnly L db tables lines (fun _ => activeProducts L tables)
            (fun _ => activeProducts L tables) line one ↔
          NoneCut L db tables lines line) ∧
        (AllShown L db tables line →
          ResolvesOnly L db tables lines (fun _ => activeProducts L tables)
            (fun _ => activeProducts L tables) line one)) lines found := by
  have hsettled := resolve_settled L db tables lines
  rw [h] at hsettled
  have hfound := hsettled.eq_found
  refine List.forall₂_iff_get.mpr ⟨?_, ?_⟩
  · have hlength := congrArg List.length hfound
    simpa [outcomes] using hlength
  · intro i hline hone
    have houtcome : outcome L (load L db tables lines) (lines.get ⟨i, hline⟩)
        i = .ok (found.get ⟨i, hone⟩) := by
      have hget := congrArg (fun all => all[i]?) hfound
      rw [getElem?_outcomes, List.getElem?_map,
        List.getElem?_eq_getElem hline, List.getElem?_eq_getElem hone] at hget
      exact Option.some.inj hget
    have hmem : lines.get ⟨i, hline⟩ ∈ lines := List.get_mem lines ⟨i, hline⟩
    generalize lines.get ⟨i, hline⟩ = line at houtcome hmem
    have hlooked : ResolvesOnly L db tables lines
        (fun text => candidatesForQuery L text (load L db tables lines).active)
        (fun text => candidatesForQuery L text (load L db tables lines).split)
        line (found.get ⟨i, hone⟩) :=
      resolvesOnly_of_outcome hL hlower hplain houtcome
        (fun _ _ _ => SameMatches.of_perm (List.Perm.refl _) _)
        (fun _ _ _ _ _ => SameMatches.of_perm (List.Perm.refl _) _)
    refine ⟨hlooked, resolvesOnly_iff hL hlooked, ?_⟩
    intro hshown
    refine resolvesOnly_of_outcome hL hlower hplain houtcome ?_ ?_
    · intro value hproduct hne
      exact sameMatches_of_shown hL hsearch hne
        (mem_productQueriesOf.mpr ⟨line, hmem, value, hproduct, rfl⟩)
        (hshown value hproduct).1
    · intro value hproduct hsome split hsplit
      have hne := (split_ne_nil hL hlower hsplit).1
      rw [load_split]
      refine sameMatches_of_shown hL hsearch hne ?_
        ((hshown value hproduct).2 split hsplit)
      rw [normalize_split hL hsplit]
      refine mem_splitQueriesOf.mpr ⟨value, ?_, split, hsplit, rfl⟩
      by_contra hnot
      refine hsome ?_
      unfold namedVariant
      rw [hproduct]
      refine if_neg ?_
      rwa [List.contains_iff_mem]

end Resolved

/-! ## A hundred and one products

Two names are inflected by the text, and the second of them is behind the page.
-/

/-- A search that finds every name. -/
def everyName : Database where
  ilike := fun name literal => name = literal
  referenceNameSearch := fun _ => some ⟨fun _ => true, fun _ => true, false⟩
  nameThenId := fun row other =>
    (compareProductNameThenId smallLetters row other).isLE
  rowOrder := asStored

theorem findsMatches_everyName (tables : Tables smallLetters) :
    FindsMatches smallLetters everyName tables := by
  intro query _ row hrow _
  refine ⟨_, rfl, ?_⟩
  obtain ⟨hmem, hstatus⟩ := List.mem_filter.mp hrow
  refine List.mem_filter.mpr ⟨hmem, ?_⟩
  rw [hstatus]
  rfl

/-- «пасту», with the variant «лимон». -/
def inflected : LineReferenceInput :=
  ⟨.query (codeUnits "пасту"), some (.query (codeUnits "лимон")), none⟩

theorem resolved_only_inflected :
    List.Forall₂ (fun line one =>
      ResolvesOnly smallLetters everyName pastas [inflected]
          (fun text => candidatesForQuery smallLetters text
            (load smallLetters everyName pastas [inflected]).active)
          (fun text => candidatesForQuery smallLetters text
            (load smallLetters everyName pastas [inflected]).split) line one ∧
        (ResolvesOnly smallLetters everyName pastas [inflected]
            (fun _ => activeProducts smallLetters pastas)
            (fun _ => activeProducts smallLetters pastas) line one ↔
          NoneCut smallLetters everyName pastas [inflected] line) ∧
        (AllShown smallLetters everyName pastas line →
          ResolvesOnly smallLetters everyName pastas [inflected]
            (fun _ => activeProducts smallLetters pastas)
            (fun _ => activeProducts smallLetters pastas) line one))
      [inflected]
      [⟨pasta.id, pasta.name, some lemon.id, some lemon.name⟩] :=
  resolved_only smallLetters_lawful (fun _ h => h)
    (And.intro (by decide +kernel) (by decide +kernel))
    (findsMatches_everyName pastas) (by decide +kernel)

/-- Two digits. -/
def digits (n : ℕ) : CodeUnits :=
  [(48 + n / 10).toUInt16, (48 + n % 10).toUInt16]

/-- The product that the query inflects. -/
def cheese : ProductCandidate :=
  ⟨codeUnits "a", codeUnits "сир", .active, codeUnits "UAH"⟩

/-- «сир 00» … «сир 98». -/
def cheeseOf (n : ℕ) : ProductCandidate :=
  ⟨codeUnits "b" ++ digits n, codeUnits "сир " ++ digits n, .active,
    codeUnits "UAH"⟩

/-- A product of another word that the query inflects also. -/
def rawOne : ProductCandidate :=
  ⟨codeUnits "c", codeUnits "сира", .active, codeUnits "UAH"⟩

/-- The products stand in the order of their ids and in that of their names.
None is named «сиру», and of the first hundred «сир» alone is meant by it. -/
theorem cheeses_ordered :
    (cheese :: (List.range 99).map cheeseOf ++ [rawOne]).IsChain
        (fun row other => smallLetters.localeCompare row.id other.id = .lt) ∧
      (cheese :: (List.range 99).map cheeseOf ++ [rawOne]).IsChain
        (fun row other => everyName.nameThenId row other = true) ∧
      (∀ row ∈ cheese :: (List.range 99).map cheeseOf ++ [rawOne],
        normalizeUniqueMatchQuery smallLetters row.name ≠
          normalizeUniqueMatchQuery smallLetters (codeUnits "сиру")) ∧
      ∀ row ∈ (cheese :: (List.range 99).map cheeseOf ++ [rawOne]).take 100,
        isInflectionOfName smallLetters (codeUnits "сиру") row.name = true →
          row = cheese := by
  decide +kernel

theorem cheeses_apart : (cheese :: (List.range 99).map cheeseOf ++
    [rawOne]).Pairwise fun row other =>
      smallLetters.localeCompare row.id other.id ≠ .eq := by
  have := smallLetters_lawful.ordered
  have : IsTrans ProductCandidate fun row other =>
      smallLetters.localeCompare row.id other.id = .lt :=
    ⟨fun _ _ _ hlt hlt' => Std.TransCmp.lt_trans hlt hlt'⟩
  exact (List.isChain_iff_pairwise.mp cheeses_ordered.1).imp
    fun hlt heq => nomatch hlt.symm.trans heq

/-- A hundred and one products, of which a search fetches a hundred. -/
def cheeses : Tables smallLetters where
  products := cheese :: (List.range 99).map cheeseOf ++ [rawOne]
  variants := []
  product_ids := cheeses_apart
  variant_ids := List.Pairwise.nil

/-- «сиру». -/
def ofCheese : LineReferenceInput := ⟨.query (codeUnits "сиру"), none, none⟩

theorem cheeses_sorted : cheeses.products.Pairwise fun row other =>
    everyName.nameThenId row other = true := by
  have := transCmp_compareProductNameThenId smallLetters_lawful
  have : IsTrans ProductCandidate fun row other =>
      everyName.nameThenId row other = true :=
    ⟨fun _ _ _ hle hle' => Std.TransCmp.isLE_trans hle hle'⟩
  exact List.isChain_iff_pairwise.mp cheeses_ordered.2.1

theorem finds_cheese {row : ProductCandidate} :
    Finds smallLetters everyName cheeses (codeUnits "сиру") .active row ↔
      row ∈ cheeses.products.take 100 := by
  have hfound : cheeses.products.filter (fun row =>
      row.status = .active && true) = cheeses.products := by decide
  have hsorted : cheeses.products.mergeSort everyName.nameThenId =
      cheeses.products := List.mergeSort_of_pairwise cheeses_sorted
  constructor
  · rintro ⟨search, hsearch, hrow⟩
    obtain rfl := Option.some.inj hsearch
    have hpage : row ∈ ((cheeses.products.filter fun row =>
        row.status = .active && true).mergeSort
          everyName.nameThenId).take 100 := hrow
    rwa [hfound, hsorted] at hpage
  · intro hrow
    refine ⟨_, rfl, ?_⟩
    change row ∈ ((cheeses.products.filter fun row =>
      row.status = .active && true).mergeSort everyName.nameThenId).take 100
    rwa [hfound, hsorted]

theorem isOnly_cheese : IsOnly smallLetters ProductCandidate.name
    (candidatesForQuery smallLetters (codeUnits "сиру")
      (load smallLetters everyName cheeses [ofCheese]).active)
    (codeUnits "сиру") cheese := by
  have hqueries : productQueriesOf smallLetters [ofCheese] =
      [codeUnits "сиру"] := by decide
  have hnormal : normalizeReferenceQuery smallLetters (codeUnits "сиру") =
      codeUnits "сиру" := by decide
  have hload : (load smallLetters everyName cheeses [ofCheese]).active =
      loadCandidates smallLetters everyName cheeses [codeUnits "сиру"]
        .active := by
    rw [← hqueries]
    rfl
  have hnamed : ∀ row ∈ cheeses.products,
      normalizeUniqueMatchQuery smallLetters row.name ≠
        normalizeUniqueMatchQuery smallLetters (codeUnits "сиру") :=
    cheeses_ordered.2.2.1
  have hinflected : ∀ row ∈ cheeses.products.take 100,
      isInflectionOfName smallLetters (codeUnits "сиру") row.name = true →
        row = cheese := cheeses_ordered.2.2.2
  have hmem : ∀ row, row ∈ candidatesForQuery smallLetters (codeUnits "сиру")
      (load smallLetters everyName cheeses [ofCheese]).active ↔
        row ∈ cheeses.products.take 100 := by
    intro row
    rw [hload, mem_candidatesForQuery smallLetters_lawful, hnormal,
      finds_cheese]
    constructor
    · rintro (⟨hrow, -, hname, -⟩ | ⟨-, hrow⟩)
      · exact absurd hname (hnamed row hrow)
      · exact hrow
    · exact fun hrow => .inr ⟨List.mem_singleton_self _, hrow⟩
  have hnodup : (candidatesForQuery smallLetters (codeUnits "сиру")
      (load smallLetters everyName cheeses [ofCheese]).active).Nodup := by
    rw [hload]
    exact nodup_candidatesForQuery smallLetters_lawful _ _ _
  refine .inr ⟨?_, List.perm_singleton.mp
    ((List.perm_ext_iff_of_nodup (hnodup.filter _)
      (List.nodup_singleton _)).mpr fun row => ?_)⟩
  · refine List.filter_eq_nil_iff.mpr fun row hrow hname => ?_
    exact hnamed row (List.mem_of_mem_take ((hmem row).mp hrow))
      (of_decide_eq_true hname)
  · rw [List.mem_filter, hmem, List.mem_singleton]
    constructor
    · exact fun h => hinflected row h.1 h.2
    · rintro rfl
      exact ⟨List.mem_cons_self, by decide⟩

/-- «сиру» is said of «сир» and of «сира», and one of them is picked: the other
is behind the hundredth product. -/
theorem cheese_picked :
    FindsMatches smallLetters everyName cheeses ∧
      resolveCatalogLineReferences smallLetters everyName cheeses [ofCheese] =
        .ok [⟨cheese.id, cheese.name, none, none⟩] ∧
      ¬ ResolvesOnly smallLetters everyName cheeses [ofCheese]
        (fun _ => activeProducts smallLetters cheeses)
        (fun _ => activeProducts smallLetters cheeses) ofCheese
        ⟨cheese.id, cheese.name, none, none⟩ := by
  have hpicked : pickProduct smallLetters (codeUnits "сиру")
      (load smallLetters everyName cheeses [ofCheese]).active =
        .unique cheese :=
    pickProduct_eq_unique.mpr ⟨by decide, isOnly_cheese⟩
  have hfound : codeUnits "сиру" ∉
      (load smallLetters everyName cheeses [ofCheese]).unfoundQueries := by
    intro hmem
    have hnone := (mem_unfoundQueries.mp hmem).2.1
    have hcheese := isOnly_cheese.mem
    rw [hnone] at hcheese
    exact absurd hcheese List.not_mem_nil
  have hnamed : namedVariant smallLetters
      (load smallLetters everyName cheeses [ofCheese]) ofCheese = none := by
    refine if_neg ?_
    rwa [List.contains_iff_mem]
  have hvariants :
      (load smallLetters everyName cheeses [ofCheese]).variants = [] := by
    obtain ⟨ids, hids, -⟩ := load_variants everyName cheeses
      smallLetters_lawful [ofCheese]
    rw [hids]
    refine List.eq_nil_iff_forall_not_mem.mpr fun row hrow => ?_
    exact absurd (mem_loadVariantsForProducts.mp hrow).1 List.not_mem_nil
  have halone : outcomeAlone smallLetters everyName cheeses ofCheese =
      .ok ⟨cheese.id, cheese.name, none, none⟩ := by
    have hproduct : resolveProductRef smallLetters ofCheese.product 0
        (load smallLetters everyName cheeses [ofCheese]).byId
        (load smallLetters everyName cheeses [ofCheese]).active
        (load smallLetters everyName cheeses [ofCheese]).archived =
          .ok cheese := by
      dsimp only [ofCheese]
      rw [resolveProductRef]
      dsimp only [ofCheese] at hpicked
      rw [hpicked]
    rw [outcomeAlone, outcome, hnamed]
    dsimp only
    rw [resolveLine, hproduct]
    dsimp only
    rw [hvariants]
    rfl
  refine ⟨findsMatches_everyName cheeses, ?_, fun h => ?_⟩
  · rw [resolve_alone, halone]
  · obtain ⟨product, honly, -⟩ := h.text _ rfl hnamed
    have htwo : ((activeProducts smallLetters cheeses).filter fun row =>
        isInflectionOfName smallLetters (codeUnits "сиру") row.name).length =
          2 := by decide
    have hnone : (activeProducts smallLetters cheeses).filter (fun row =>
        normalizeUniqueMatchQuery smallLetters row.name =
          normalizeUniqueMatchQuery smallLetters (codeUnits "сиру")) = [] := by
      decide
    rcases honly with hone | ⟨-, hone⟩
    · rw [hnone] at hone
      cases hone
    · rw [hone] at htwo
      cases htwo

end Shozee.Catalog
