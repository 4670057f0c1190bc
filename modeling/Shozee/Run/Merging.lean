import Mathlib.Data.List.Basic
import Mathlib.Logic.Relation

/-!
# Merging neighbours

A list is merged by joining two neighbours at a time: of those that have a rank
the pair of the lowest one, and of several with this rank the leftmost, until
no two neighbours have a rank any more. A pass over the list finds the pair
(`scan`), and every round makes the list shorter, so that the rounds come to an
end (`mergeLoop_ends`).

What the loop comes to is the one list that such rounds lead to and from which
no round goes on (`mergeLoop_merged`, `Merged.unique`), and what every round
keeps is kept by all of them (`Merged.keeps`).
-/

namespace Shozee.Run

variable {α : Type*} (rank : α → α → Option ℕ) (join : α → α → α)

/-! ## Rounds

A round by itself, without saying how the pair is found. -/

/-- The rank of the pair that begins at the index. -/
def rankAt (l : List α) (i : ℕ) : Option ℕ :=
  match l[i]?, l[i + 1]? with
  | some left, some right => rank left right
  | _, _ => none

/-- The list with the pair at the index joined. -/
def mergeAt (l : List α) (i : ℕ) : List α :=
  match l[i]?, l[i + 1]? with
  | some left, some right => l.take i ++ join left right :: l.drop (i + 2)
  | _, _ => l

/-- At the index stands the leftmost of the pairs of the lowest rank. -/
structure Lowest (l : List α) (i r : ℕ) : Prop where
  rank_eq : rankAt rank l i = some r
  left : ∀ j < i, ∀ r', rankAt rank l j = some r' → r < r'
  all : ∀ j r', rankAt rank l j = some r' → r ≤ r'

/-- A round: the pair of the lowest rank is joined, the leftmost of these. -/
def Round (l l' : List α) : Prop :=
  ∃ i r, Lowest rank l i r ∧ l' = mergeAt join l i

/-- Rounds lead from the list to the other one, and none goes on from there. -/
structure Merged (l out : List α) : Prop where
  rounds : Relation.ReflTransGen (Round rank join) l out
  done : ∀ i, rankAt rank out i = none

/-! ## The loop

The pass over the pairs keeps the best pair so far. Its result is the pair of
the round. -/

/-- A pass over the pairs of a list, with the best index and rank so far. -/
def scan (index : ℕ) (best : Option (ℕ × ℕ)) : List α → Option (ℕ × ℕ)
  | left :: right :: rest =>
      let best :=
        match rank left right with
        | none => best
        | some r =>
            if best.all fun old => decide (r < old.2) then some (index, r)
            else best
      scan (index + 1) best (right :: rest)
  | _ => best

/-- The loop, for a number of rounds. -/
def mergeLoop : ℕ → List α → Option (List α)
  | 0, _ => none
  | fuel + 1, l =>
      match scan rank 0 none l with
      | none => some l
      | some (i, _) => mergeLoop fuel (mergeAt join l i)

variable {rank join}

theorem Lowest.unique {l : List α} {i i' r r' : ℕ} (h : Lowest rank l i r)
    (h' : Lowest rank l i' r') : i = i' ∧ r = r' := by
  have hr : r = r' := Nat.le_antisymm (h.all i' r' h'.rank_eq)
    (h'.all i r h.rank_eq)
  refine ⟨?_, hr⟩
  rcases Nat.lt_trichotomy i i' with hlt | heq | hgt
  · exact absurd (h'.left i hlt r h.rank_eq) (hr ▸ Nat.lt_irrefl r)
  · exact heq
  · exact absurd (h.left i' hgt r' h'.rank_eq) (hr ▸ Nat.lt_irrefl r)

variable (rank) in
/-- What the pass has found in the pairs before an index. -/
def Best (l : List α) (n : ℕ) : Option (ℕ × ℕ) → Prop
  | none => ∀ j < n, rankAt rank l j = none
  | some (i, r) => i < n ∧ rankAt rank l i = some r ∧
      (∀ j < i, ∀ r', rankAt rank l j = some r' → r < r') ∧
      ∀ j < n, ∀ r', rankAt rank l j = some r' → r ≤ r'

theorem rankAt_of_length {l : List α} {i : ℕ} (h : l.length ≤ i + 1) :
    rankAt rank l i = none := by
  unfold rankAt
  rw [List.getElem?_eq_none h]
  cases l[i]? <;> rfl

theorem rankAt_append (before : List α) (left right : α) (rest : List α) :
    rankAt rank (before ++ left :: right :: rest) before.length =
      rank left right := by
  unfold rankAt
  rw [List.getElem?_append_right (Nat.le_refl _),
    List.getElem?_append_right (Nat.le_succ _), Nat.sub_self,
    Nat.succ_sub (Nat.le_refl _), Nat.sub_self]
  rfl

theorem Best.more {l : List α} {n : ℕ} {best : Option (ℕ × ℕ)}
    (h : Best rank l n best) (hnone : rankAt rank l n = none) :
    Best rank l (n + 1) best := by
  cases best with
  | none =>
      intro j hj
      rcases Nat.lt_succ_iff_lt_or_eq.mp hj with hj | rfl
      · exact h j hj
      · exact hnone
  | some found =>
      obtain ⟨hlt, hrank, hleft, hall⟩ := h
      refine ⟨Nat.lt_succ_of_lt hlt, hrank, hleft, fun j hj r' hr' => ?_⟩
      rcases Nat.lt_succ_iff_lt_or_eq.mp hj with hj | rfl
      · exact hall j hj r' hr'
      · rw [hnone] at hr'
        exact absurd hr' (Option.some_ne_none r').symm

theorem Best.next {l : List α} {n r : ℕ} {best : Option (ℕ × ℕ)}
    (h : Best rank l n best) (hrank : rankAt rank l n = some r) :
    Best rank l (n + 1)
      (if best.all fun old => decide (r < old.2) then some (n, r) else best) := by
  cases best with
  | none =>
      refine ⟨Nat.lt_succ_self n, hrank, fun j hj r' hr' => ?_,
        fun j hj r' hr' => ?_⟩
      · rw [h j hj] at hr'
        exact absurd hr' (Option.some_ne_none r').symm
      · rcases Nat.lt_succ_iff_lt_or_eq.mp hj with hj | rfl
        · rw [h j hj] at hr'
          exact absurd hr' (Option.some_ne_none r').symm
        · rw [hrank, Option.some.injEq] at hr'
          exact hr' ▸ Nat.le_refl r
  | some found =>
      obtain ⟨hlt, hfound, hleft, hall⟩ := h
      rw [Option.all_some]
      by_cases hlower : r < found.2
      · rw [if_pos (decide_eq_true hlower)]
        refine ⟨Nat.lt_succ_self n, hrank, fun j hj r' hr' =>
          Nat.lt_of_lt_of_le hlower (hall j hj r' hr'), fun j hj r' hr' => ?_⟩
        rcases Nat.lt_succ_iff_lt_or_eq.mp hj with hj | rfl
        · exact Nat.le_trans (Nat.le_of_lt hlower) (hall j hj r' hr')
        · rw [hrank, Option.some.injEq] at hr'
          exact hr' ▸ Nat.le_refl r
      · rw [if_neg (mt of_decide_eq_true hlower)]
        refine ⟨Nat.lt_succ_of_lt hlt, hfound, hleft, fun j hj r' hr' => ?_⟩
        rcases Nat.lt_succ_iff_lt_or_eq.mp hj with hj | rfl
        · exact hall j hj r' hr'
        · rw [hrank, Option.some.injEq] at hr'
          exact hr' ▸ Nat.le_of_not_lt hlower

theorem scan_best (before rest : List α) (best : Option (ℕ × ℕ))
    (h : Best rank (before ++ rest) before.length best) :
    Best rank (before ++ rest) (before ++ rest).length
      (scan rank before.length best rest) := by
  induction rest generalizing before best with
  | nil =>
      rw [List.append_nil] at h ⊢
      exact h
  | cons left rest ih =>
      cases rest with
      | nil =>
          rw [List.length_append]
          exact h.more (rankAt_of_length (by simp))
      | cons right rest =>
          have hrank : rankAt rank (before ++ left :: right :: rest)
              before.length = rank left right :=
            rankAt_append before left right rest
          have ih := ih (before ++ [left])
          rw [List.append_assoc, List.singleton_append, List.length_append]
            at ih
          refine ih _ ?_
          cases hpair : rank left right with
          | none => exact h.more (hrank.trans hpair)
          | some r => exact h.next (hrank.trans hpair)

variable (rank) in
/-- The pass finds no pair where none has a rank, and the leftmost of the lowest
one otherwise. -/
theorem scan_spec (l : List α) :
    Best rank l l.length (scan rank 0 none l) :=
  scan_best [] l none fun j hj => absurd hj (Nat.not_lt_zero j)

theorem scan_eq_none {l : List α} (h : scan rank 0 none l = none) (i : ℕ) :
    rankAt rank l i = none := by
  have hbest := scan_spec rank l
  rw [h] at hbest
  rcases Nat.lt_or_ge i l.length with hlt | hge
  · exact hbest i hlt
  · exact rankAt_of_length (Nat.le_succ_of_le hge)

theorem scan_eq_some {l : List α} {i r : ℕ}
    (h : scan rank 0 none l = some (i, r)) : Lowest rank l i r := by
  have hbest := scan_spec rank l
  rw [h] at hbest
  obtain ⟨-, hrank, hleft, hall⟩ := hbest
  refine ⟨hrank, hleft, fun j r' hr' => ?_⟩
  rcases Nat.lt_or_ge j l.length with hlt | hge
  · exact hall j hlt r' hr'
  · rw [rankAt_of_length (Nat.le_succ_of_le hge)] at hr'
    exact absurd hr' (Option.some_ne_none r').symm

variable (join) in
/-- Where a pair has a rank, it stands between what is before and after it. -/
theorem exists_pair {l : List α} {i r : ℕ} (h : rankAt rank l i = some r) :
    ∃ before left right after, l = before ++ left :: right :: after ∧
      before.length = i ∧ rank left right = some r ∧
      mergeAt join l i = before ++ join left right :: after := by
  unfold rankAt at h
  split at h
  next left right hleft hright =>
    obtain ⟨hi, rfl⟩ := List.getElem?_eq_some_iff.mp hleft
    obtain ⟨hi', rfl⟩ := List.getElem?_eq_some_iff.mp hright
    refine ⟨l.take i, l[i], l[i + 1], l.drop (i + 2), ?_,
      List.length_take_of_le (Nat.le_of_lt hi), h, ?_⟩
    · rw [← List.drop_eq_getElem_cons hi', ← List.drop_eq_getElem_cons hi,
        List.take_append_drop]
    · unfold mergeAt
      rw [hleft, hright]
  next => exact absurd h (Option.some_ne_none r).symm

variable (join) in
theorem length_mergeAt {l : List α} {i r : ℕ} (h : rankAt rank l i = some r) :
    (mergeAt join l i).length + 1 = l.length := by
  obtain ⟨before, left, right, after, rfl, -, -, hmerge⟩ := exists_pair join h
  rw [hmerge, List.length_append, List.length_append]
  rfl

/-! ## What the loop comes to

Each round is determined, so rounds come to one list; and each makes the list
shorter. -/

theorem mergeLoop_merged {fuel : ℕ} {l out : List α}
    (h : mergeLoop rank join fuel l = some out) : Merged rank join l out := by
  induction fuel generalizing l with
  | zero => cases h
  | succ fuel ih =>
      unfold mergeLoop at h
      split at h
      next hscan =>
        cases h
        exact ⟨.refl, scan_eq_none hscan⟩
      next i r hscan =>
        have hrest := ih h
        exact ⟨.head ⟨i, r, scan_eq_some hscan, rfl⟩ hrest.rounds, hrest.done⟩

/-- There are fewer rounds than there are elements. -/
theorem mergeLoop_ends {fuel : ℕ} {l : List α} (h : l.length < fuel) :
    ∃ out, mergeLoop rank join fuel l = some out := by
  induction fuel generalizing l with
  | zero => exact absurd h (Nat.not_lt_zero _)
  | succ fuel ih =>
      unfold mergeLoop
      cases hscan : scan rank 0 none l with
      | none => exact ⟨l, rfl⟩
      | some found =>
          have hlength := length_mergeAt join (scan_eq_some hscan).rank_eq
          exact ih (by omega)

theorem Round.unique {l l' l'' : List α} (h : Round rank join l l')
    (h' : Round rank join l l'') : l' = l'' := by
  obtain ⟨i, r, hlowest, rfl⟩ := h
  obtain ⟨i', r', hlowest', rfl⟩ := h'
  rw [(hlowest.unique hlowest').1]

theorem Round.not_done {l l' : List α} (h : Round rank join l l') :
    ¬ ∀ i, rankAt rank l i = none := by
  obtain ⟨i, r, hlowest, -⟩ := h
  intro hdone
  have hrank := hlowest.rank_eq
  rw [hdone i] at hrank
  exact absurd hrank (Option.some_ne_none r).symm

/-- Rounds come to one list. -/
theorem Merged.unique {l out out' : List α} (h : Merged rank join l out)
    (h' : Merged rank join l out') : out = out' := by
  obtain ⟨hrounds, hdone⟩ := h
  induction hrounds using Relation.ReflTransGen.head_induction_on with
  | refl =>
      rcases h'.rounds.cases_head with heq | ⟨next, hround, -⟩
      · exact heq
      · exact absurd hdone hround.not_done
  | head hround hrest ih =>
      rcases h'.rounds.cases_head with rfl | ⟨next, hround', hrest'⟩
      · exact absurd h'.done hround.not_done
      · rw [← hround.unique hround'] at hrest'
        exact ih ⟨hrest', h'.done⟩

/-- What every round keeps is kept by all of them. -/
theorem Merged.keeps {P : List α → Prop}
    (hstep : ∀ before left right after r,
      rank left right = some r → P (before ++ left :: right :: after) →
        P (before ++ join left right :: after))
    {l out : List α} (h : Merged rank join l out) (hl : P l) : P out := by
  obtain ⟨hrounds, -⟩ := h
  induction hrounds with
  | refl => exact hl
  | tail _ hround ih =>
      obtain ⟨i, r, hlowest, rfl⟩ := hround
      obtain ⟨before, left, right, after, rfl, -, hrank, hmerge⟩ :=
        exists_pair join hlowest.rank_eq
      rw [hmerge]
      exact hstep before left right after r hrank ih

end Shozee.Run
