import Shozee.Run.Traverse
import Shozee.Catalog.OneLine

/-!
# Batches of lines

A batch throws the first terminal error of its lines, or else the first picker,
or else resolves them all (`resolve_settled`).

Each line is resolved as if it were alone, but for two leaks between the lines.
A line that states its variant and has the text of a line that does not is
overridden, where this text is read as product words and variant words: the
variant that was read takes the place of the one that is stated. And a text can
bring a row to another text: "a _ b" is asked for as "a  b", and a product that
is named so has the normalized name of the text "a b". The claim holds of
the other batches, and of those where the leak does not show
(`resolvedAsAlone_iff`).
-/

namespace Shozee.Catalog

open Shozee.Run Shozee.Validation

/-! ## The first error

Of the errors of all lines the first terminal one is thrown, else the first of
the others, and nothing is thrown when there is none. -/

section First

variable {α : Type}

/-- The first of the outcomes that fails with a terminal error, or the first
that fails with a picker. -/
def FirstAt (outcomes : List (Except LineError α)) (terminal : Bool) (i : ℕ)
    (error : LineError) : Prop :=
  outcomes[i]? = some (.error error) ∧ error.terminal = terminal ∧
    ∀ j < i, ∀ other, outcomes[j]? = some (.error other) →
      other.terminal ≠ terminal

/-- The error of a line if it is of the kind asked for. -/
def errorOf (terminal : Bool) : Except LineError α → Option LineError
  | .error error => if error.terminal = terminal then some error else none
  | .ok _ => none

theorem errorOf_eq_some_iff {terminal : Bool} {outcome : Except LineError α}
    {error : LineError} :
    errorOf terminal outcome = some error ↔
      outcome = .error error ∧ error.terminal = terminal := by
  cases outcome with
  | ok found => exact iff_of_false (by simp [errorOf]) (by simp)
  | error other =>
      unfold errorOf
      dsimp only
      split
      next h =>
        rw [Option.some.injEq, Except.error.injEq]
        exact ⟨fun heq => ⟨heq, heq ▸ h⟩, fun h => h.1⟩
      next h =>
        refine iff_of_false (Option.some_ne_none error).symm ?_
        rintro ⟨heq, hterminal⟩
        exact h (Except.error.inj heq ▸ hterminal)

theorem firstError_eq_some_iff {outcomes : List (Except LineError α)}
    {terminal : Bool} {error : LineError} :
    outcomes.findSome? (errorOf terminal) = some error ↔
      ∃ i, FirstAt outcomes terminal i error := by
  rw [List.findSome?_eq_some_iff]
  constructor
  · rintro ⟨before, outcome, after, rfl, hsome, hnone⟩
    obtain ⟨rfl, hterminal⟩ := errorOf_eq_some_iff.mp hsome
    refine ⟨before.length, by simp, hterminal, fun j hj other hother h => ?_⟩
    rw [List.getElem?_append_left hj] at hother
    have hnone := hnone _ (List.mem_of_getElem? hother)
    rw [errorOf_eq_some_iff.mpr ⟨rfl, h⟩] at hnone
    exact absurd hnone (Option.some_ne_none other)
  · rintro ⟨i, hi, hterminal, hfirst⟩
    have hlt := (List.getElem?_eq_some_iff.mp hi).1
    refine ⟨outcomes.take i, .error error, outcomes.drop (i + 1), ?_,
      errorOf_eq_some_iff.mpr ⟨rfl, hterminal⟩, fun outcome hmem => ?_⟩
    · rw [← (List.getElem?_eq_some_iff.mp hi).2, List.cons_getElem_drop_succ,
        List.take_append_drop]
    · obtain ⟨j, hj⟩ := List.mem_iff_getElem?.mp hmem
      rw [List.getElem?_take] at hj
      split at hj
      next hlt =>
        by_contra hne
        obtain ⟨other, hother⟩ := Option.ne_none_iff_exists'.mp hne
        obtain ⟨rfl, h⟩ := errorOf_eq_some_iff.mp hother
        exact hfirst j hlt other hj h
      next => exact absurd hj.symm (Option.some_ne_none outcome)

/-- The first terminal error is thrown, or else the first picker, or else all
are found. -/
inductive Settled (outcomes : List (Except LineError α)) :
    Except ResolutionError (List α) → Prop
  | terminal {i : ℕ} {error : LineError} (h : FirstAt outcomes true i error) :
      Settled outcomes (.error (.line error))
  | picker {i : ℕ} {error : LineError}
      (hnone : ∀ error, .error error ∈ outcomes → error.terminal = false)
      (h : FirstAt outcomes false i error) :
      Settled outcomes (.error (.line error))
  | found {found : List α} (h : outcomes = found.map .ok) :
      Settled outcomes (.ok found)

theorem FirstAt.unique {outcomes : List (Except LineError α)}
    {terminal : Bool} {i i' : ℕ} {error error' : LineError}
    (h : FirstAt outcomes terminal i error)
    (h' : FirstAt outcomes terminal i' error') : i = i' ∧ error = error' := by
  have hi : i = i' := by
    rcases Nat.lt_trichotomy i i' with hlt | heq | hgt
    · exact absurd h.2.1 (h'.2.2 i hlt error h.1)
    · exact heq
    · exact absurd h'.2.1 (h.2.2 i' hgt error' h'.1)
  refine ⟨hi, ?_⟩
  have hsame := h.1.symm.trans (hi ▸ h'.1)
  exact Except.error.inj (Option.some.inj hsame)

theorem FirstAt.mem {outcomes : List (Except LineError α)} {terminal : Bool}
    {i : ℕ} {error : LineError} (h : FirstAt outcomes terminal i error) :
    .error error ∈ outcomes :=
  List.mem_of_getElem? h.1

theorem not_mem_found {found : List α} {error : LineError} :
    (.error error : Except LineError α) ∉ found.map .ok := by
  intro hmem
  obtain ⟨one, -, hone⟩ := List.mem_map.mp hmem
  cases hone

theorem Settled.eq_found {outcomes : List (Except LineError α)}
    {found : List α} (h : Settled outcomes (.ok found)) :
    outcomes = found.map .ok := by
  cases h with
  | found hfound => exact hfound

theorem Settled.first_of_terminal {outcomes : List (Except LineError α)}
    {error : LineError} (h : Settled outcomes (.error (.line error)))
    (hterminal : error.terminal = true) :
    ∃ i, FirstAt outcomes true i error := by
  cases h with
  | @terminal i error hfirst => exact ⟨i, hfirst⟩
  | picker _ hfirst =>
      rw [hfirst.2.1] at hterminal
      exact absurd hterminal Bool.false_ne_true

theorem Settled.unique {outcomes : List (Except LineError α)}
    {settled settled' : Except ResolutionError (List α)}
    (h : Settled outcomes settled) (h' : Settled outcomes settled') :
    settled = settled' := by
  cases h with
  | terminal hfirst =>
      cases h' with
      | terminal hfirst' => rw [(hfirst.unique hfirst').2]
      | picker hnone _ =>
          exact absurd hfirst.2.1 (by simp [hnone _ hfirst.mem])
      | found hfound => exact absurd (hfound ▸ hfirst.mem) not_mem_found
  | picker hnone hfirst =>
      cases h' with
      | terminal hfirst' =>
          exact absurd hfirst'.2.1 (by simp [hnone _ hfirst'.mem])
      | picker _ hfirst' => rw [(hfirst.unique hfirst').2]
      | found hfound => exact absurd (hfound ▸ hfirst.mem) not_mem_found
  | found hfound =>
      cases h' with
      | terminal hfirst => exact absurd (hfound ▸ hfirst.mem) not_mem_found
      | picker _ hfirst => exact absurd (hfound ▸ hfirst.mem) not_mem_found
      | found hfound' =>
          have hsame := hfound.symm.trans hfound'
          rw [List.map_injective_iff.mpr (fun _ _ => Except.ok.inj) hsame]

theorem firstError_eq_none_iff {all : List (Except LineError α)}
    {terminal : Bool} :
    all.findSome? (errorOf terminal) = none ↔
      ∀ error, .error error ∈ all → error.terminal ≠ terminal := by
  rw [List.findSome?_eq_none_iff]
  constructor
  · intro h error hmem hterminal
    have hnone := h _ hmem
    rw [errorOf_eq_some_iff.mpr ⟨rfl, hterminal⟩] at hnone
    exact absurd hnone (Option.some_ne_none error)
  · intro h one hmem
    by_contra hne
    obtain ⟨error, herror⟩ := Option.ne_none_iff_exists'.mp hne
    obtain ⟨rfl, hterminal⟩ := errorOf_eq_some_iff.mp herror
    exact h error hmem hterminal

theorem exists_found {all : List (Except LineError α)}
    (h : ∀ error, .error error ∉ all) :
    ∃ found : List α, all = found.map .ok := by
  induction all with
  | nil => exact ⟨[], rfl⟩
  | cons one all ih =>
      obtain ⟨found, rfl⟩ := ih fun error hmem =>
        h error (List.mem_cons_of_mem _ hmem)
      cases one with
      | error error => exact absurd List.mem_cons_self (h error)
      | ok first => exact ⟨first :: found, rfl⟩

/-- The two searches for an error, and what they say of all. -/
theorem settled_cases (outcomes : List (Except LineError α)) :
    (∃ error, outcomes.findSome? (errorOf true) = some error ∧
      Settled outcomes (.error (.line error))) ∨
    (outcomes.findSome? (errorOf true) = none ∧
      ∃ error, outcomes.findSome? (errorOf false) = some error ∧
        Settled outcomes (.error (.line error))) ∨
    (outcomes.findSome? (errorOf true) = none ∧
      outcomes.findSome? (errorOf false) = none ∧
      ∃ found : List α, outcomes = found.map .ok) := by
  cases hterminal : outcomes.findSome? (errorOf true) with
  | some error =>
      obtain ⟨i, hi⟩ := firstError_eq_some_iff.mp hterminal
      exact .inl ⟨error, rfl, .terminal hi⟩
  | none =>
      have hno := firstError_eq_none_iff.mp hterminal
      cases hpicker : outcomes.findSome? (errorOf false) with
      | some error =>
          obtain ⟨i, hi⟩ := firstError_eq_some_iff.mp hpicker
          exact .inr (.inl ⟨rfl, error, rfl, .picker (fun error hmem =>
            eq_false_of_ne_true (hno error hmem)) hi⟩)
      | none =>
          have hno' := firstError_eq_none_iff.mp hpicker
          exact .inr (.inr ⟨rfl, rfl, exists_found fun error hmem =>
            hno' error hmem (eq_false_of_ne_true (hno error hmem))⟩)

theorem exists_settled (outcomes : List (Except LineError α)) :
    ∃ settled, Settled outcomes settled := by
  rcases settled_cases outcomes with ⟨error, -, h⟩ | ⟨-, error, -, h⟩ |
    ⟨-, -, found, h⟩
  · exact ⟨_, h⟩
  · exact ⟨_, h⟩
  · exact ⟨_, .found h⟩

/-- The error that is thrown of both is the same one, and of the same kind. -/
def SameFirst (outcomes outcomes' : List (Except LineError α)) : Prop :=
  ∃ (terminal : Bool) (error : LineError),
    (∃ i, FirstAt outcomes terminal i error) ∧
      (∃ i, FirstAt outcomes' terminal i error) ∧
      (terminal = false → ∀ other,
        .error other ∈ outcomes ∨ .error other ∈ outcomes' →
          other.terminal = false)

/-- Two lists of outcomes come to the same only where they are the same list,
or the same error is the first of both. -/
theorem settled_both_iff {outcomes outcomes' : List (Except LineError α)} :
    (∃ settled, Settled outcomes settled ∧ Settled outcomes' settled) ↔
      outcomes = outcomes' ∨ SameFirst outcomes outcomes' := by
  constructor
  · rintro ⟨settled, h, h'⟩
    cases h with
    | found hfound => exact .inl (hfound.trans h'.eq_found.symm)
    | @terminal i error hfirst =>
        exact .inr ⟨true, error, ⟨i, hfirst⟩,
          h'.first_of_terminal hfirst.2.1, fun h => absurd h (by decide)⟩
    | @picker i error hnone hfirst =>
        cases h' with
        | terminal hfirst' =>
            exact absurd hfirst'.2.1 (by simp [hfirst.2.1])
        | @picker j _ hnone' hfirst' =>
            refine .inr ⟨false, error, ⟨i, hfirst⟩, ⟨j, hfirst'⟩, ?_⟩
            exact fun _ other hother => hother.elim (hnone other) (hnone' other)
  · rintro (rfl | ⟨terminal, error, ⟨i, hi⟩, ⟨j, hj⟩, hnone⟩)
    · obtain ⟨settled, h⟩ := exists_settled outcomes
      exact ⟨settled, h, h⟩
    · cases terminal with
      | true => exact ⟨_, .terminal hi, .terminal hj⟩
      | false =>
          exact ⟨_, .picker (fun other hother => hnone rfl other (.inl hother))
            hi, .picker (fun other hother => hnone rfl other (.inr hother)) hj⟩

end First

/-! ## The loop over the lines

The loop as a function of what each line comes to. -/

section Loop

variable {L : Language} {db : Database} {tables : Tables L}

variable (L) in
/-- What one line comes to. -/
def outcome (loaded : Loaded) (line : LineReferenceInput) (index : ℕ) :
    Except LineError ResolvedLineReference :=
  match namedVariant L loaded line with
  | some found => .ok found
  | none => resolveLine L loaded line index

variable (L db tables) in

/-- What each line of a batch comes to, with the reads of the whole batch. -/
def outcomes (lines : List LineReferenceInput) :
    List (Except LineError ResolvedLineReference) :=
  lines.zipIdx.map fun entry =>
    outcome L (load L db tables lines) entry.1 entry.2

theorem getElem?_outcomes (lines : List LineReferenceInput) (i : ℕ) :
    (outcomes L db tables lines)[i]? = lines[i]?.map fun line =>
      outcome L (load L db tables lines) line i := by
  unfold outcomes
  rw [List.getElem?_map, List.getElem?_zipIdx, Option.map_map, Nat.zero_add]
  rfl

theorem resolveNext_eq (loaded : Loaded) (resolving : Resolving)
    (entry : LineReferenceInput × ℕ) :
    resolveNext L loaded resolving entry =
      ⟨resolving.resolved ++ [(outcome L loaded entry.1 entry.2).toOption],
        resolving.firstTerminal.or
          (errorOf true (outcome L loaded entry.1 entry.2)),
        resolving.firstPicker.or
          (errorOf false (outcome L loaded entry.1 entry.2))⟩ := by
  unfold resolveNext outcome
  dsimp only
  cases namedVariant L loaded entry.1 with
  | some found => simp [errorOf, Except.toOption]
  | none =>
      dsimp only
      cases resolveLine L loaded entry.1 entry.2 with
      | ok found => simp [errorOf, Except.toOption]
      | error error =>
          by_cases hterminal : error.terminal = true
          · simp [errorOf, Except.toOption, hterminal]
          · simp [errorOf, Except.toOption, hterminal]

theorem foldl_resolveNext (loaded : Loaded)
    (entries : List (LineReferenceInput × ℕ)) (resolving : Resolving) :
    entries.foldl (resolveNext L loaded) resolving =
      ⟨resolving.resolved ++ entries.map fun entry =>
          (outcome L loaded entry.1 entry.2).toOption,
        resolving.firstTerminal.or ((entries.map fun entry =>
          outcome L loaded entry.1 entry.2).findSome? (errorOf true)),
        resolving.firstPicker.or ((entries.map fun entry =>
          outcome L loaded entry.1 entry.2).findSome? (errorOf false))⟩ := by
  induction entries generalizing resolving with
  | nil => simp
  | cons entry entries ih =>
      rw [List.foldl_cons, ih, resolveNext_eq, List.map_cons, List.map_cons,
        List.findSome?_cons, List.findSome?_cons]
      dsimp only
      rw [List.append_assoc, List.singleton_append, Option.or_assoc,
        Option.or_assoc]
      cases errorOf true (outcome L loaded entry.1 entry.2) <;>
        cases errorOf false (outcome L loaded entry.1 entry.2) <;> rfl

/-- No line is missed where all are resolved. -/
theorem foundLines_eq {α : Type}
    {lineOf : Option α × ℕ → Except ResolutionError α}
    (h : ∀ one index, lineOf (some one, index) = .ok one) (found : List α)
    (start : ℕ) :
    ((found.map some).zipIdx start).mapM lineOf = .ok found := by
  induction found generalizing start with
  | nil => rfl
  | cons one found ih =>
      rw [List.map_cons, List.zipIdx_cons, List.mapM_cons, ih, h]
      rfl

variable (L db tables) in
theorem resolve_settled (lines : List LineReferenceInput) :
    Settled (outcomes L db tables lines)
      (resolveCatalogLineReferences L db tables lines) := by
  unfold resolveCatalogLineReferences
  dsimp only
  rw [foldl_resolveNext]
  dsimp only
  have houtcomes : (lines.zipIdx.map fun entry =>
      outcome L (load L db tables lines) entry.1 entry.2) =
        outcomes L db tables lines := rfl
  rw [Option.none_or, Option.none_or, List.nil_append, houtcomes]
  rcases settled_cases (outcomes L db tables lines) with
    ⟨error, hterminal, h⟩ | ⟨hterminal, error, hpicker, h⟩ |
      ⟨hterminal, hpicker, found, hfound⟩
  · rw [hterminal]
    exact h
  · rw [hterminal, hpicker]
    exact h
  · rw [hterminal, hpicker]
    have hresolved : (lines.zipIdx.map fun entry =>
        (outcome L (load L db tables lines) entry.1 entry.2).toOption) =
        found.map some := by
      have hmap := congrArg (List.map Except.toOption) hfound
      rw [outcomes, List.map_map, List.map_map] at hmap
      exact hmap
    dsimp only
    rw [hresolved, foundLines_eq fun _ _ => rfl]
    exact .found hfound

end Loop

/-! ## A batch and its lines alone

What it is for a batch to resolve each line as if it were alone, and the first
of the two ways in which it may not. -/

section Batch

variable (L : Language) (db : Database) (tables : Tables L)

/-- The line fails alone, with the error. -/
def FailsAlone (lines : List LineReferenceInput) (i : ℕ)
    (error : LineError) : Prop :=
  ∃ line, lines[i]? = some line ∧
    resolveCatalogLineReferences L db tables [line] = .error (.line error)

/-- Each line of the batch is resolved as if it were alone. -/
structure ResolvedAsAlone (lines : List LineReferenceInput) : Prop where
  succeeds : (∃ found,
      resolveCatalogLineReferences L db tables lines = .ok found) ↔
    ∀ line ∈ lines, ∃ found,
      resolveCatalogLineReferences L db tables [line] = .ok found
  results : ∀ found,
    resolveCatalogLineReferences L db tables lines = .ok found →
      List.Forall₂ (fun line one =>
        resolveCatalogLineReferences L db tables [line] = .ok [one]) lines found
  terminal : ∀ i error, FailsAlone L db tables lines i error →
    error.terminal = true →
    (∀ j < i, ∀ other, FailsAlone L db tables lines j other →
      other.terminal = false) →
    resolveCatalogLineReferences L db tables lines =
      .error (.line (error.atLine i))
  picker : ∀ i error, FailsAlone L db tables lines i error →
    (∀ j other, FailsAlone L db tables lines j other →
      other.terminal = false) →
    (∀ j < i, ∀ other, ¬ FailsAlone L db tables lines j other) →
    resolveCatalogLineReferences L db tables lines =
      .error (.line (error.atLine i))

/-- A line states its variant, and its product text is that of a line without
one, which alone is read as product words and variant words. -/
def Overridden (lines : List LineReferenceInput) (line : LineReferenceInput) :
    Prop :=
  isUnspecified (variantSelectionOf line) = false ∧
    ∃ other ∈ lines, other.product = line.product ∧
      isUnspecified (variantSelectionOf other) = true ∧
      (namedVariant L (load L db tables [other]) other).isSome = true

/-- What a line comes to in a batch of its own. -/
def outcomeAlone (line : LineReferenceInput) :
    Except LineError ResolvedLineReference :=
  outcome L (load L db tables [line]) line 0

/-- No line is overridden, or it does not show: of the lines that are not, the
first that fails with a terminal error comes before those that are, or it fails
as they do. -/
def Spared (lines : List LineReferenceInput) : Prop :=
  (∀ line ∈ lines, ¬ Overridden L db tables lines line) ∨
    ∃ (i : ℕ) (line : LineReferenceInput) (error : LineError),
      lines[i]? = some line ∧ ¬ Overridden L db tables lines line ∧
      outcomeAlone L db tables line = .error error ∧ error.terminal = true ∧
      (∀ j < i, ∀ other, lines[j]? = some other →
        ¬ Overridden L db tables lines other →
        ∀ error', outcomeAlone L db tables other = .error error' →
          error'.terminal = false) ∧
      (error = .notFound ∨ ∀ j < i, ∀ other, lines[j]? = some other →
        ¬ Overridden L db tables lines other)

variable {L db tables}

theorem resolve_alone (line : LineReferenceInput) :
    resolveCatalogLineReferences L db tables [line] =
      match outcomeAlone L db tables line with
      | .ok found => .ok [found]
      | .error error => .error (.line error) := by
  refine (resolve_settled L db tables [line]).unique ?_
  have houtcomes : outcomes L db tables [line] =
      [outcomeAlone L db tables line] := rfl
  rw [houtcomes]
  cases houtcome : outcomeAlone L db tables line with
  | ok found => exact .found rfl
  | error error =>
      have hfirst : FirstAt
          [(.error error : Except LineError ResolvedLineReference)]
          error.terminal 0 error :=
        ⟨rfl, rfl, fun j hj => absurd hj (Nat.not_lt_zero j)⟩
      cases hterminal : error.terminal with
      | true =>
          rw [hterminal] at hfirst
          exact .terminal hfirst
      | false =>
          rw [hterminal] at hfirst
          refine .picker (fun other hother => ?_) hfirst
          rw [Except.error.inj (List.mem_singleton.mp hother)]
          exact hterminal

theorem failsAlone_iff {lines : List LineReferenceInput} {i : ℕ}
    {error : LineError} :
    FailsAlone L db tables lines i error ↔
      ∃ line, lines[i]? = some line ∧
        outcomeAlone L db tables line = .error error := by
  refine exists_congr fun line => and_congr_right fun _ => ?_
  rw [resolve_alone]
  cases outcomeAlone L db tables line with
  | ok found => exact iff_of_false (by simp) (by simp)
  | error other => simp

theorem pickProduct_of_nil {query : CodeUnits}
    {candidates : ProductQueryCandidates}
    (h : candidatesForQuery L query candidates = []) :
    pickProduct L query candidates = .none := by
  unfold pickProduct pickUniqueReferenceMatch pickUniqueNormalizedMatch
  rw [h]
  by_cases hquery : normalizeUniqueMatchQuery L query = []
  · rw [if_pos hquery]
  · rw [if_neg hquery]
    rfl

theorem brought_congr {lines : List LineReferenceInput}
    {line other : LineReferenceInput} (h : other.product = line.product) :
    Brought L db tables lines other ↔ Brought L db tables lines line := by
  unfold Brought
  rw [h]

/-- Nothing is brought to a line in a batch of its own. -/
theorem not_brought_alone (line : LineReferenceInput) :
    ¬ Brought L db tables [line] line := by
  rintro ⟨value, hproduct, ⟨status, row, -, -, -, ⟨query, hquery, hloads⟩,
    hnot, -⟩ | ⟨split, -, row, -, -, -, ⟨query, hquery, hloads⟩, hnot, -⟩⟩
  · obtain ⟨one, hone, text, htext, rfl⟩ := mem_productQueriesOf.mp hquery
    rw [List.mem_singleton.mp hone, hproduct, EntityRef.query.injEq] at htext
    rw [← htext] at hloads
    exact hnot _ (List.mem_singleton_self _) hloads
  · obtain ⟨text, htext, hfrom⟩ := mem_splitQueriesOf.mp hquery
    obtain ⟨⟨one, hone, hsame, -⟩, -⟩ := mem_unfoundQueries.mp htext
    rw [List.mem_singleton.mp hone, hproduct, EntityRef.query.injEq] at hsame
    exact hnot query (mem_splitQueriesOf.mpr
      ⟨value, List.mem_singleton_self value, hsame ▸ hfrom⟩) hloads

theorem outcome_overridden (hL : L.Lawful) {lines : List LineReferenceInput}
    {line : LineReferenceInput} (hbrought : ¬ Brought L db tables lines line)
    (h : Overridden L db tables lines line) (index : ℕ) :
    (∃ found, outcome L (load L db tables lines) line index = .ok found) ∧
      outcomeAlone L db tables line = .error .notFound := by
  obtain ⟨hstated, other, hother, hsame, hselection, hsome⟩ := h
  obtain ⟨found, hfound⟩ := Option.isSome_iff_exists.mp hsome
  have hbatch := namedVariant_alone hL hother
    (mt (brought_congr hsame).mp hbrought) hsame hselection
  rw [hfound] at hbatch
  refine ⟨⟨found, by unfold outcome; rw [hbatch]⟩, ?_⟩
  have halone : namedVariant L (load L db tables [line]) line = none := by
    refine namedVariant_of_none fun one hone _ => ?_
    rw [List.mem_singleton.mp hone]
    exact hstated
  unfold outcomeAlone outcome
  rw [halone]
  dsimp only
  cases hproduct : line.product with
  | id id =>
      rw [namedVariant, hsame, hproduct] at hfound
      exact absurd hfound.symm (Option.some_ne_none found)
  | query value =>
      rw [hproduct] at hsame
      have hvalue : value ∈ (load L db tables [other]).unfoundQueries := by
        by_contra hvalue
        rw [namedVariant, hsame] at hfound
        dsimp only at hfound
        rw [if_neg (mt List.contains_iff_mem.mp hvalue)] at hfound
        exact absurd hfound.symm (Option.some_ne_none found)
      have hqueries : productQueriesOf L [other] = productQueriesOf L [line] := by
        unfold productQueriesOf
        rw [List.filterMap_cons, List.filterMap_cons, hsame, hproduct]
      obtain ⟨hactive, harchived⟩ := (mem_unfoundQueries.mp hvalue).2
      have hload : ∀ other, (load L db tables [other]).active =
          loadCandidates L db tables (productQueriesOf L [other]) .active :=
        fun _ => rfl
      have hload' : ∀ other, (load L db tables [other]).archived =
          loadCandidates L db tables (productQueriesOf L [other]) .archived :=
        fun _ => rfl
      rw [hload, hqueries, ← hload] at hactive
      rw [hload', hqueries, ← hload'] at harchived
      unfold resolveLine resolveProductRef
      rw [hproduct]
      dsimp only
      rw [pickProduct_of_nil hactive, pickProduct_of_nil harchived]

theorem outcome_not_overridden (hL : L.Lawful)
    {lines : List LineReferenceInput} {line : LineReferenceInput}
    (hline : line ∈ lines) (hbrought : ¬ Brought L db tables lines line)
    (h : ¬ Overridden L db tables lines line) (index : ℕ) :
    outcome L (load L db tables lines) line index =
      (outcomeAlone L db tables line).mapError (LineError.atLine index) := by
  have hnamed : namedVariant L (load L db tables lines) line =
      namedVariant L (load L db tables [line]) line := by
    cases hselection : isUnspecified (variantSelectionOf line) with
    | true =>
        exact namedVariant_alone hL hline hbrought rfl hselection
    | false =>
        have halone : namedVariant L (load L db tables [line]) line = none := by
          refine namedVariant_of_none fun one hone _ => ?_
          rw [List.mem_singleton.mp hone]
          exact hselection
        rw [halone]
        by_cases hother : ∃ other ∈ lines, other.product = line.product ∧
            isUnspecified (variantSelectionOf other) = true
        · obtain ⟨other, hother, hsame, hunspecified⟩ := hother
          rw [namedVariant_alone hL hother
            (mt (brought_congr hsame).mp hbrought) hsame hunspecified]
          refine Option.not_isSome_iff_eq_none.mp fun hsome => ?_
          exact h ⟨hselection, other, hother, hsame, hunspecified, hsome⟩
        · refine namedVariant_of_none fun other hmem hsame => ?_
          exact eq_false_of_ne_true fun hunspecified =>
            hother ⟨other, hmem, hsame, hunspecified⟩
  unfold outcomeAlone outcome
  rw [hnamed, resolveLine_alone hL hline hbrought]
  cases namedVariant L (load L db tables [line]) line <;> rfl

/-! ## The lines alone

The second way: rows that another line has loaded. `Disturbed` names it by the
outcomes of the lines. -/

section Alone

variable (L db tables) in
/-- What each line comes to alone, with the index that it has in the batch. -/
def ownOutcomes (lines : List LineReferenceInput) :
    List (Except LineError ResolvedLineReference) :=
  lines.zipIdx.map fun entry =>
    (outcomeAlone L db tables entry.1).mapError (LineError.atLine entry.2)

variable (L db tables) in
/-- From the rows that are loaded for the batch, the line does not come to what
it comes to from the rows that are loaded for it alone. -/
def Disturbed (lines : List LineReferenceInput) (i : ℕ)
    (line : LineReferenceInput) : Prop :=
  outcome L (load L db tables lines) line i ≠
    (outcomeAlone L db tables line).mapError (LineError.atLine i)

variable {lines : List LineReferenceInput}

theorem getElem?_ownOutcomes (i : ℕ) :
    (ownOutcomes L db tables lines)[i]? = lines[i]?.map fun line =>
      (outcomeAlone L db tables line).mapError (LineError.atLine i) := by
  unfold ownOutcomes
  rw [List.getElem?_map, List.getElem?_zipIdx, Option.map_map, Nat.zero_add]
  rfl

theorem ownOutcomes_eq_iff :
    ownOutcomes L db tables lines = outcomes L db tables lines ↔
      ∀ i line, lines[i]? = some line →
        ¬ Disturbed L db tables lines i line := by
  constructor
  · intro h i line hline hdisturbed
    have hi : (ownOutcomes L db tables lines)[i]? =
        (outcomes L db tables lines)[i]? := by rw [h]
    rw [getElem?_ownOutcomes, getElem?_outcomes, hline, Option.map_some,
      Option.map_some, Option.some.injEq] at hi
    exact hdisturbed hi.symm
  · intro h
    refine List.ext_getElem? fun i => ?_
    rw [getElem?_ownOutcomes, getElem?_outcomes]
    cases hline : lines[i]? with
    | none => rfl
    | some line =>
        rw [Option.map_some, Option.map_some, not_not.mp (h i line hline)]

theorem error_ownOutcomes_iff {i : ℕ} {error : LineError} :
    (ownOutcomes L db tables lines)[i]? = some (.error error) ↔
      ∃ one, FailsAlone L db tables lines i one ∧ one.atLine i = error := by
  rw [getElem?_ownOutcomes, Option.map_eq_some_iff]
  constructor
  · rintro ⟨line, hline, herror⟩
    cases halone : outcomeAlone L db tables line with
    | ok found =>
        rw [halone] at herror
        cases herror
    | error one =>
        rw [halone] at herror
        exact ⟨one, failsAlone_iff.mpr ⟨line, hline, halone⟩,
          Except.error.inj herror⟩
  · rintro ⟨one, hfails, rfl⟩
    obtain ⟨line, hline, halone⟩ := failsAlone_iff.mp hfails
    exact ⟨line, hline, by rw [halone]; rfl⟩

theorem ownOutcomes_eq_found_iff {found : List ResolvedLineReference} :
    ownOutcomes L db tables lines = found.map .ok ↔
      List.Forall₂ (fun line one =>
        resolveCatalogLineReferences L db tables [line] = .ok [one])
        lines found := by
  have hone : ∀ line one i,
      (outcomeAlone L db tables line).mapError (LineError.atLine i) =
          .ok one ↔
        resolveCatalogLineReferences L db tables [line] = .ok [one] := by
    intro line one i
    rw [resolve_alone]
    cases outcomeAlone L db tables line with
    | ok found => simp [Except.mapError]
    | error error => simp [Except.mapError]
  unfold ownOutcomes
  generalize 0 = start
  induction lines generalizing found start with
  | nil =>
      cases found with
      | nil => simp
      | cons one found => simp
  | cons line lines ih =>
      cases found with
      | nil => simp
      | cons one found =>
          rw [List.zipIdx_cons, List.map_cons, List.map_cons,
            List.cons_eq_cons, List.forall₂_cons]
          exact and_congr (hone line one start) (ih (start + 1))

/-- The lines of a batch are resolved as if they were alone where the batch
throws, or resolves, what their outcomes alone come to. -/
theorem resolvedAsAlone_iff_settled :
    ResolvedAsAlone L db tables lines ↔
      Settled (ownOutcomes L db tables lines)
        (resolveCatalogLineReferences L db tables lines) := by
  constructor
  · intro h
    obtain ⟨settled, hsettled⟩ := exists_settled (ownOutcomes L db tables lines)
    suffices hthrown : resolveCatalogLineReferences L db tables lines =
        settled by
      rw [hthrown]
      exact hsettled
    cases hsettled with
    | @terminal i _ hfirst =>
        obtain ⟨one, hfails, rfl⟩ := error_ownOutcomes_iff.mp hfirst.1
        have hterminal := hfirst.2.1
        rw [LineError.terminal_atLine] at hterminal
        refine h.terminal i one hfails hterminal fun j hj other hother => ?_
        have hne := hfirst.2.2 j hj _
          (error_ownOutcomes_iff.mpr ⟨other, hother, rfl⟩)
        rw [LineError.terminal_atLine] at hne
        exact eq_false_of_ne_true hne
    | @picker i _ hnone hfirst =>
        obtain ⟨one, hfails, rfl⟩ := error_ownOutcomes_iff.mp hfirst.1
        have hpicker : ∀ j other, FailsAlone L db tables lines j other →
            other.terminal = false := by
          intro j other hother
          rw [← LineError.terminal_atLine j other]
          exact hnone _ (List.mem_of_getElem?
            (error_ownOutcomes_iff.mpr ⟨other, hother, rfl⟩))
        refine h.picker i one hfails hpicker fun j hj other hother => ?_
        have hne := hfirst.2.2 j hj _
          (error_ownOutcomes_iff.mpr ⟨other, hother, rfl⟩)
        rw [LineError.terminal_atLine] at hne
        exact hne (hpicker j other hother)
    | @found found hfound =>
        have halone := ownOutcomes_eq_found_iff.mp hfound
        obtain ⟨found', hfound'⟩ := h.succeeds.mpr fun line hline => by
          obtain ⟨i, hi, rfl⟩ := List.getElem_of_mem hline
          exact ⟨_, halone.get hi (halone.length_eq ▸ hi)⟩
        have hsame := (ownOutcomes_eq_found_iff.mpr
          (h.results found' hfound')).symm.trans hfound
        rw [hfound', List.map_injective_iff.mpr
          (fun _ _ => Except.ok.inj) hsame]
  · intro h
    refine ⟨⟨?_, fun hall => ?_⟩, fun found hfound => ?_, ?_, ?_⟩
    · rintro ⟨found, hfound⟩ line hline
      rw [hfound] at h
      have halone := ownOutcomes_eq_found_iff.mp h.eq_found
      obtain ⟨i, hi, rfl⟩ := List.getElem_of_mem hline
      exact ⟨_, halone.get hi (halone.length_eq ▸ hi)⟩
    · have hno : ∀ error, .error error ∉ ownOutcomes L db tables lines := by
        intro error hmem
        obtain ⟨i, hi⟩ := List.mem_iff_getElem?.mp hmem
        obtain ⟨one, ⟨line, hline, hfails⟩, -⟩ := error_ownOutcomes_iff.mp hi
        obtain ⟨found, hfound⟩ := hall line (List.mem_of_getElem? hline)
        rw [hfails] at hfound
        cases hfound
      obtain ⟨found, hfound⟩ := exists_found hno
      exact ⟨found, h.unique (.found hfound)⟩
    · rw [hfound] at h
      exact ownOutcomes_eq_found_iff.mp h.eq_found
    · intro i error hfails hterminal hfirst
      refine h.unique (.terminal (i := i)
        ⟨error_ownOutcomes_iff.mpr ⟨error, hfails, rfl⟩, ?_, ?_⟩)
      · rw [LineError.terminal_atLine, hterminal]
      · intro j hj other hother
        obtain ⟨one, hone, rfl⟩ := error_ownOutcomes_iff.mp hother
        rw [LineError.terminal_atLine, hfirst j hj one hone]
        exact Bool.false_ne_true
    · intro i error hfails hnone hfirst
      refine h.unique (.picker (i := i) (fun other hother => ?_)
        ⟨error_ownOutcomes_iff.mpr ⟨error, hfails, rfl⟩, ?_, ?_⟩)
      · obtain ⟨j, hj⟩ := List.mem_iff_getElem?.mp hother
        obtain ⟨one, hone, rfl⟩ := error_ownOutcomes_iff.mp hj
        rw [LineError.terminal_atLine]
        exact hnone j one hone
      · rw [LineError.terminal_atLine]
        exact hnone i error hfails
      · intro j hj other hother
        obtain ⟨one, hone, rfl⟩ := error_ownOutcomes_iff.mp hother
        exact absurd hone (hfirst j hj one)

end Alone

/-! ## What the batch throws

Lines that are not overridden come to the same in the batch and alone. So the
two leaks are all there is, and the condition is exact. -/

section Apart

variable (hL : L.Lawful) {lines : List LineReferenceInput}
  (happart : ∀ line ∈ lines, ¬ Brought L db tables lines line)

include hL happart

/-- A line that is not overridden comes to what it comes to alone. -/
theorem outcomes_alone {i : ℕ} {line : LineReferenceInput}
    (hline : lines[i]? = some line)
    (h : ¬ Overridden L db tables lines line) :
    (outcomes L db tables lines)[i]? =
      some ((outcomeAlone L db tables line).mapError (LineError.atLine i)) := by
  have hmem := List.mem_of_getElem? hline
  rw [getElem?_outcomes, hline, Option.map_some,
    outcome_not_overridden hL hmem (happart line hmem) h]

theorem outcomes_fail {i : ℕ} {line : LineReferenceInput} {error : LineError}
    (hline : lines[i]? = some line) (h : ¬ Overridden L db tables lines line)
    (herror : outcomeAlone L db tables line = .error error) :
    (outcomes L db tables lines)[i]? = some (.error (error.atLine i)) := by
  rw [outcomes_alone hL happart hline h, herror]
  rfl

/-- The lines that fail in the batch are not overridden, and fail alone. -/
theorem exists_alone {i : ℕ} {error : LineError}
    (h : (outcomes L db tables lines)[i]? = some (.error error)) :
    ∃ line one, lines[i]? = some line ∧ ¬ Overridden L db tables lines line ∧
      outcomeAlone L db tables line = .error one ∧ one.atLine i = error := by
  cases hline : lines[i]? with
  | none => simp [getElem?_outcomes, hline] at h
  | some line =>
      refine ⟨line, ?_⟩
      by_cases hover : Overridden L db tables lines line
      · obtain ⟨⟨found, hfound⟩, -⟩ :=
          outcome_overridden hL (happart line (List.mem_of_getElem? hline))
            hover i
        simp [getElem?_outcomes, hline, hfound] at h
      · rw [outcomes_alone hL happart hline hover,
          Option.some.injEq] at h
        cases halone : outcomeAlone L db tables line with
        | ok found =>
            rw [halone] at h
            cases h
        | error one =>
            rw [halone] at h
            exact ⟨one, rfl, hover, rfl, Except.error.inj h⟩

/-- What saves a batch is thrown by it. -/
theorem resolve_first {i : ℕ} {line : LineReferenceInput} {error : LineError}
    (hline : lines[i]? = some line) (h : ¬ Overridden L db tables lines line)
    (herror : outcomeAlone L db tables line = .error error)
    (hterminal : error.terminal = true)
    (hfirst : ∀ j < i, ∀ other, lines[j]? = some other →
      ¬ Overridden L db tables lines other →
      ∀ error', outcomeAlone L db tables other = .error error' →
        error'.terminal = false) :
    resolveCatalogLineReferences L db tables lines =
      .error (.line (error.atLine i)) := by
  refine (resolve_settled L db tables lines).unique (.terminal (i := i)
    ⟨outcomes_fail hL happart hline h herror, ?_, ?_⟩)
  · rw [LineError.terminal_atLine, hterminal]
  · intro j hj other hother
    obtain ⟨line', one, hline', hover, hone, rfl⟩ :=
      exists_alone hL happart hother
    rw [LineError.terminal_atLine, hfirst j hj line' hline' hover one hone]
    exact Bool.false_ne_true

theorem resolvedAsAlone_of_none
    (h : ∀ line ∈ lines, ¬ Overridden L db tables lines line) :
    ResolvedAsAlone L db tables lines := by
  have hsame : ownOutcomes L db tables lines = outcomes L db tables lines := by
    refine ownOutcomes_eq_iff.mpr fun i line hline hdisturbed => ?_
    have hline := List.mem_of_getElem? hline
    exact hdisturbed
      (outcome_not_overridden hL hline (happart line hline) (h line hline) i)
  rw [resolvedAsAlone_iff_settled, hsame]
  exact resolve_settled L db tables lines

/-- A line that is overridden fails alone. -/
theorem failsAlone_of_overridden {i : ℕ} {line : LineReferenceInput}
    (hline : lines[i]? = some line) (h : Overridden L db tables lines line) :
    FailsAlone L db tables lines i .notFound :=
  failsAlone_iff.mpr
    ⟨line, hline, (outcome_overridden hL
      (happart line (List.mem_of_getElem? hline)) h 0).2⟩

theorem resolvedAsAlone_of_spared (h : Spared L db tables lines) :
    ResolvedAsAlone L db tables lines := by
  rcases h with hnone | ⟨i, line, error, hline, hover, herror, hterminal,
    hfirst, hsame⟩
  · exact resolvedAsAlone_of_none hL happart hnone
  have hthrown := resolve_first hL happart hline hover herror hterminal
    hfirst
  have hfails := failsAlone_iff.mpr ⟨line, hline, herror⟩
  refine ⟨?_, fun found hfound => ?_, ?_, ?_⟩
  · refine iff_of_false ?_ fun hall => ?_
    · rintro ⟨found, hfound⟩
      rw [hthrown] at hfound
      cases hfound
    · obtain ⟨found, hfound⟩ := hall line (List.mem_of_getElem? hline)
      obtain ⟨line', hline', hfails⟩ := hfails
      rw [hline, Option.some.injEq] at hline'
      rw [← hline', hfound] at hfails
      cases hfails
  · rw [hthrown] at hfound
    cases hfound
  · intro j other hother hterminal' hfirst'
    rw [hthrown]
    rcases Nat.lt_trichotomy j i with hlt | rfl | hgt
    · obtain ⟨line', hline', hone⟩ := failsAlone_iff.mp hother
      by_cases hover' : Overridden L db tables lines line'
      · rcases hsame with rfl | hsame
        · have halone := (outcome_overridden hL
            (happart line' (List.mem_of_getElem? hline')) hover' 0).2
          rw [hone, Except.error.injEq] at halone
          rw [halone]
          rfl
        · exact absurd hover' (hsame j hlt line' hline')
      · rw [hfirst j hlt line' hline' hover' other hone] at hterminal'
        exact absurd hterminal' Bool.false_ne_true
    · obtain ⟨line', hline', hone⟩ := failsAlone_iff.mp hother
      rw [hline, Option.some.injEq] at hline'
      rw [← hline', herror, Except.error.injEq] at hone
      rw [hone]
    · rw [hfirst' i hgt error hfails] at hterminal
      exact absurd hterminal Bool.false_ne_true
  · intro j other hother hnone _
    rw [hnone i error hfails] at hterminal
    exact absurd hterminal Bool.false_ne_true

theorem spared_of_resolvedAsAlone (h : ResolvedAsAlone L db tables lines) :
    Spared L db tables lines := by
  by_cases hover : ∃ line ∈ lines, Overridden L db tables lines line
  swap
  · exact .inl fun line hline hline' => hover ⟨line, hline, hline'⟩
  obtain ⟨line, hline, hover⟩ := hover
  obtain ⟨k, hk⟩ := List.mem_iff_getElem?.mp hline
  have hsome : ∃ i, ∃ error, FailsAlone L db tables lines i error ∧
      error.terminal = true :=
    ⟨k, .notFound, failsAlone_of_overridden hL happart hk hover, rfl⟩
  -- the first line that fails alone with a terminal error
  obtain ⟨i, ⟨error, hfails, hterminal⟩, hfirst⟩ : ∃ i,
      (∃ error, FailsAlone L db tables lines i error ∧
        error.terminal = true) ∧
      ∀ j < i, ¬ ∃ error, FailsAlone L db tables lines j error ∧
        error.terminal = true := by
    classical
    exact ⟨Nat.find hsome, Nat.find_spec hsome, fun j hj =>
      Nat.find_min hsome hj⟩
  have hthrown := h.terminal i error hfails hterminal fun j hj other hother =>
    eq_false_of_ne_true fun hother' => hfirst j hj ⟨other, hother, hother'⟩
  obtain ⟨first, hline', halone⟩ := failsAlone_iff.mp hfails
  by_cases hover' : Overridden L db tables lines first
  · -- the batch throws what another line fails with
    have hnotFound := (outcome_overridden hL
      (happart first (List.mem_of_getElem? hline')) hover' 0).2
    rw [halone, Except.error.injEq] at hnotFound
    rw [hnotFound] at hthrown
    have hsettled :=
      resolve_settled L db tables lines
    rw [hthrown] at hsettled
    obtain ⟨t, hmem, hterminal', hfirst'⟩ := hsettled.first_of_terminal rfl
    obtain ⟨other, one, hother, hover, hone, hone'⟩ :=
      exists_alone hL happart hmem
    have hsame : one = .notFound := by
      cases one with
      | notFound => rfl
      | conflict shown => cases hone'
    subst hsame
    refine .inr ⟨t, other, .notFound, hother, hover, hone, rfl, ?_, .inl rfl⟩
    intro j hj line hline hover error' herror'
    have hmem' := outcomes_fail hL happart hline hover herror'
    have hne := hfirst' j hj _ hmem'
    rw [LineError.terminal_atLine] at hne
    exact eq_false_of_ne_true hne
  · refine .inr ⟨i, first, error, hline', hover', halone, hterminal, ?_, ?_⟩
    · intro j hj other hother _ error' herror'
      exact eq_false_of_ne_true fun hterminal' => hfirst j hj
        ⟨error', failsAlone_iff.mpr ⟨other, hother, herror'⟩, hterminal'⟩
    · refine .inr fun j hj other hother hother' => hfirst j hj ⟨.notFound,
        failsAlone_of_overridden hL happart hother hother', rfl⟩

end Apart

end Batch

/-! ## A stated variant that is overridden

A batch of two lines with one text, of which one states another variant than
the text says. -/

/-- Texts of small letters, in their order. -/
def smallLetters : Language := ⟨id, id, List.compareLex compare⟩

theorem smallLetters_lawful : smallLetters.Lawful where
  ordered := inferInstanceAs (Std.TransCmp (List.compareLex compare))
  nfc_part := fun _ => rfl

/-- A product. -/
def pasta : ProductCandidate :=
  ⟨codeUnits "p", codeUnits "паста", .active, codeUnits "UAH"⟩

/-- A variant of it. -/
def lemon : VariantCandidate :=
  ⟨codeUnits "v", codeUnits "p", codeUnits "лимон", .active⟩

/-- Another variant. -/
def raspberry : VariantCandidate :=
  ⟨codeUnits "w", codeUnits "p", codeUnits "малина", .active⟩

/-- The catalog of the product and its variants. -/
def pastas : Tables smallLetters where
  products := [pasta]
  variants := [lemon, raspberry]
  product_ids := List.pairwise_singleton _ _
  variant_ids := by decide

/-- The search finds the names that have every word of the query. -/
def byWords : Database where
  ilike := fun name literal => name = literal
  referenceNameSearch := fun query =>
    let has := fun name => (wordsOf query).all fun word =>
      (wordsOf name).contains word
    some ⟨has, has, false⟩
  nameThenId := fun row other =>
    (compareProductNameThenId smallLetters row other).isLE
  rowOrder := asStored

/-- «паста лимон». -/
def named : LineReferenceInput :=
  ⟨.query (codeUnits "паста лимон"), none, none⟩

/-- «паста лимон», and the variant «малина». -/
def stated : LineReferenceInput :=
  ⟨.query (codeUnits "паста лимон"), some (.query (codeUnits "малина")), none⟩

end Shozee.Catalog
