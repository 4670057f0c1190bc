import Mathlib.Algebra.Order.Ring.Rat
import Shozee.Run.Uuid
import Shozee.Run.Windows
import Shozee.Search.Query

/-!
# Hits

What the matchers of the modules make of the rows that they fetch. A matcher
has the database sort its rows by exactness, rank and id, fetches one more than
it shows, and sorts the hits by the same three (`sortHits`).
-/

namespace Shozee.Search

open Shozee.Run

/-- The types of records that a search shows. -/
inductive SearchEntityType
  | order
  | customer
  | customerGroup
  | counterparty
  | product
  | variant
  | priceList
  | document
deriving DecidableEq, Repr

/-- A hit as the client gets it. -/
structure SearchHit where
  id : Uuid
  label : CodeUnits
  sublabel : Option CodeUnits
  status : Option CodeUnits
  matchedOn : SearchMatchedOn
  exact : Bool
deriving DecidableEq

/-- A hit with what it is sorted by. -/
structure InternalHit extends SearchHit where
  type : SearchEntityType
  rank : ℚ
deriving DecidableEq

/-- The page of one type. -/
structure SearchGroup where
  type : SearchEntityType
  hits : List SearchHit
  truncated : Bool
deriving DecidableEq

/-- What rows and hits are sorted by. -/
structure Ranked where
  exact : Bool
  rank : ℚ
  id : Uuid
deriving DecidableEq

/-- Exact ones first, then by rank, the highest first, then by id. -/
def Ranked.le (left right : Ranked) : Bool :=
  if left.exact ≠ right.exact then left.exact
  else if left.rank ≠ right.rank then decide (right.rank < left.rank)
  else decide (left.id ≤ right.id)

/-- What a hit is sorted by. -/
def InternalHit.ranked (hit : InternalHit) : Ranked :=
  ⟨hit.exact, hit.rank, hit.id⟩

/-- The reason of a hit. -/
def InternalHit.preference (hit : InternalHit) : SearchHitPreference :=
  ⟨hit.exact, hit.matchedOn⟩

/-- The record of a hit. -/
def InternalHit.key (hit : InternalHit) : SearchEntityType × Uuid :=
  (hit.type, hit.id)

/-- Exact hits first, then by rank, then by id. -/
def sortHits (hits : List InternalHit) : List InternalHit :=
  hits.mergeSort fun left right => left.ranked.le right.ranked

/-- A text cut to a length. -/
def clip (value : CodeUnits) (max : ℕ) : CodeUnits :=
  if value.length ≤ max then value else value.take max

/-- A text cut to a length, none if nothing is left. -/
def optionalClip (value : Option CodeUnits) (max : ℕ) : Option CodeUnits :=
  value.bind fun value =>
    if value.length = 0 then none
    else
      let clipped := clip value max
      if clipped.length = 0 then none else some clipped

/-- The page of a type, if it has a hit. -/
def toDisplayGroup (type : SearchEntityType) (hits : List InternalHit)
    (limit : ℕ) : Option SearchGroup :=
  if hits.length = 0 then none
  else
    let truncated := decide (limit < hits.length)
    let page := if truncated then hits.take limit else hits
    some ⟨type, page.map InternalHit.toSearchHit, truncated⟩

/-- `present.reduce(pickPreferredSearchHit, first)`. -/
def reducePreferred (first : SearchHitPreference)
    (present : List SearchHitPreference) : SearchHitPreference :=
  present.foldl (pickPreferredSearchHit id) first

/-! ## The order

Exact ones first, then by rank, then by id. -/

theorem Ranked.le_iff {left right : Ranked} :
    left.le right = true ↔
      (left.exact = true ∧ right.exact = false) ∨
        left.exact = right.exact ∧ (right.rank < left.rank ∨
          left.rank = right.rank ∧ left.id ≤ right.id) := by
  unfold Ranked.le
  by_cases hexact : left.exact = right.exact
  · rw [if_neg (not_not.mpr hexact)]
    by_cases hrank : left.rank = right.rank
    · rw [if_neg (not_not.mpr hrank), decide_eq_true_eq]
      simp [hexact, hrank]
    · rw [if_pos hrank, decide_eq_true_eq]
      simp [hexact, hrank]
  · rw [if_pos hexact]
    simp only [hexact, false_and, or_false]
    cases hleft : left.exact <;> cases hright : right.exact <;>
      simp_all

theorem Ranked.sorts : Sorts Ranked.le where
  trans := by
    intro a b c hab hbc
    rw [Ranked.le_iff] at hab hbc ⊢
    rcases hab with ⟨ha, hb⟩ | ⟨hab, hab'⟩
    · rcases hbc with ⟨hb', _⟩ | ⟨hbc, _⟩
      · rw [hb] at hb'
        cases hb'
      · exact .inl ⟨ha, hbc ▸ hb⟩
    · rcases hbc with ⟨hb, hc⟩ | ⟨hbc, hbc'⟩
      · exact .inl ⟨hab.trans hb, hc⟩
      · refine .inr ⟨hab.trans hbc, ?_⟩
        rcases hab' with hlt | ⟨heq, hle⟩
        · rcases hbc' with hlt' | ⟨heq', _⟩
          · exact .inl (hlt'.trans hlt)
          · exact .inl (heq' ▸ hlt)
        · rcases hbc' with hlt' | ⟨heq', hle'⟩
          · exact .inl (heq ▸ hlt')
          · exact .inr ⟨heq.trans heq', hle.trans hle'⟩
  total := by
    intro a b
    rw [Bool.or_eq_true, Ranked.le_iff, Ranked.le_iff]
    by_cases hexact : a.exact = b.exact
    · rcases lt_trichotomy a.rank b.rank with hlt | heq | hgt
      · exact .inr (.inr ⟨hexact.symm, .inl hlt⟩)
      · rcases le_total a.id b.id with hle | hle
        · exact .inl (.inr ⟨hexact, .inr ⟨heq, hle⟩⟩)
        · exact .inr (.inr ⟨hexact.symm, .inr ⟨heq.symm, hle⟩⟩)
      · exact .inl (.inr ⟨hexact, .inl hgt⟩)
    · cases ha : a.exact with
      | true =>
          rw [ha] at hexact
          exact .inl (.inl ⟨rfl, eq_false_of_ne_true (Ne.symm hexact)⟩)
      | false =>
          rw [ha] at hexact
          exact .inr (.inl ⟨eq_true_of_ne_false (Ne.symm hexact), rfl⟩)

theorem sorts_ranked {α : Type} (ranked : α → Ranked) :
    Sorts fun a b => (ranked a).le (ranked b) where
  trans := fun a b c => Ranked.sorts.trans (ranked a) (ranked b) (ranked c)
  total := fun a b => Ranked.sorts.total (ranked a) (ranked b)

/-- What comes up to an exact one is exact. -/
theorem Ranked.exact_of_le {left right : Ranked} (h : left.le right = true)
    (hright : right.exact = true) : left.exact = true := by
  rcases Ranked.le_iff.mp h with ⟨hleft, _⟩ | ⟨hsame, _⟩
  · exact hleft
  · exact hsame.trans hright

/-! ## A page

The first hits of a sorted list. -/

/-- A group shows the first hits, and tells whether there are more. -/
theorem toDisplayGroup_hits (type : SearchEntityType)
    (hits : List InternalHit) (limit : ℕ) :
    (toDisplayGroup type hits limit).toList.flatMap SearchGroup.hits =
        (hits.take limit).map InternalHit.toSearchHit ∧
      (toDisplayGroup type hits limit).toList.any SearchGroup.truncated =
        decide (limit < hits.length) := by
  unfold toDisplayGroup
  by_cases hnil : hits.length = 0
  · rw [if_pos hnil, List.eq_nil_of_length_eq_zero hnil]
    exact ⟨by simp, by simp⟩
  · rw [if_neg hnil]
    refine ⟨?_, Bool.or_false _⟩
    dsimp only
    rw [Option.toList_some, List.flatMap_singleton]
    by_cases hmore : limit < hits.length
    · rw [if_pos (decide_eq_true hmore)]
    · rw [if_neg (by simpa using hmore),
        List.take_of_length_le (Nat.le_of_not_lt hmore)]

end Shozee.Search
