import Mathlib

/-!
# Paging by key

Rows have distinct keys and stand in descending order of them. A page is what
comes first among the rows after its cursor, and its own cursor is that of its
last row, if there are more rows than it holds. A reader who follows the
cursors sees every row once, in the order of the rows, and reaches a page
without a cursor: `follows_of_answers`.
-/

namespace Shozee.Run

variable {α β γ κ ε ρ : Type*}

/-- The pages from a cursor on, the last of which has none itself. -/
inductive Follows (fetch : Option γ → Except ε ρ) (next : ρ → Option γ) :
    Option γ → List ρ → Prop
  | last {cursor : Option γ} {page : ρ} (hfetch : fetch cursor = .ok page)
      (hnext : next page = none) : Follows fetch next cursor [page]
  | more {cursor : Option γ} {page : ρ} {pages : List ρ} {cursor' : γ}
      (hfetch : fetch cursor = .ok page) (hnext : next page = some cursor')
      (hpages : Follows fetch next (some cursor') pages) :
      Follows fetch next cursor (page :: pages)

/-- There is one way to follow the cursors. -/
theorem Follows.unique {fetch : Option γ → Except ε ρ} {next : ρ → Option γ}
    {cursor : Option γ} {pages pages' : List ρ}
    (h : Follows fetch next cursor pages)
    (h' : Follows fetch next cursor pages') : pages = pages' := by
  induction h generalizing pages' with
  | last hfetch hnext =>
      cases h' with
      | last hfetch' hnext' =>
          rw [hfetch, Except.ok.injEq] at hfetch'
          rw [hfetch']
      | more hfetch' hnext' hpages' =>
          rw [hfetch, Except.ok.injEq] at hfetch'
          rw [← hfetch', hnext] at hnext'
          cases hnext'
  | more hfetch hnext hpages ih =>
      cases h' with
      | last hfetch' hnext' =>
          rw [hfetch, Except.ok.injEq] at hfetch'
          rw [← hfetch', hnext] at hnext'
          cases hnext'
      | more hfetch' hnext' hpages' =>
          rw [hfetch, Except.ok.injEq] at hfetch'
          rw [← hfetch', hnext, Option.some.injEq] at hnext'
          subst hfetch' hnext'
          rw [ih hpages']

/-- A page of the rows that are left. -/
structure PageOf (items : ρ → List β) (next : ρ → Option γ) (view : α → β)
    (encode : α → γ) (limit : ℕ) (rows : List α) (page : ρ) : Prop where
  items_eq : items page = (rows.take limit).map view
  next_eq : next page =
    if limit < rows.length then (rows.take limit).getLast?.map encode
    else none

section Descending

variable [LinearOrder κ] (key : α → κ)

/-- Rows sorted by their keys, the greatest first. -/
def Descending (rows : List α) : Prop :=
  rows.Pairwise fun a b => key b < key a

variable {key}

/-- The rows after one of them are those that stand behind it. -/
theorem Descending.filter_lt {front back : List α} {row : α}
    (h : Descending key (front ++ row :: back)) :
    (front ++ row :: back).filter (fun other => key other < key row) =
      back := by
  obtain ⟨-, hback, hacross⟩ := List.pairwise_append.mp h
  have hfront : front.filter (fun other => key other < key row) = [] := by
    rw [List.filter_eq_nil_iff]
    intro other hother
    rw [decide_eq_true_eq]
    exact not_lt_of_gt (hacross other hother row List.mem_cons_self)
  have hrest : back.filter (fun other => key other < key row) = back := by
    rw [List.filter_eq_self]
    intro other hother
    rw [decide_eq_true_eq]
    exact List.rel_of_pairwise_cons hback hother
  rw [List.filter_append, List.filter_cons_of_neg (by simp), hfront, hrest,
    List.nil_append]

/-- Two arrangements of the same rows in descending order are one. -/
theorem Descending.eq_of_mem_iff {rows rows' : List α}
    (h : Descending key rows) (h' : Descending key rows')
    (hmem : ∀ a, a ∈ rows ↔ a ∈ rows') : rows = rows' := by
  have hne : ∀ a b : α, key b < key a → a ≠ b := by
    intro a b hlt heq
    rw [heq] at hlt
    exact lt_irrefl _ hlt
  refine List.Perm.eq_of_pairwise (fun a b _ _ hab hba => ?_) h h'
    ((List.perm_ext_iff_of_nodup (h.imp (hne _ _)) (h'.imp (hne _ _))).mpr hmem)
  exact absurd hab (not_lt_of_gt hba)

variable {fetch : Option γ → Except ε ρ} {items : ρ → List β}
  {next : ρ → Option γ} {view : α → β} {encode : α → γ} {limit : ℕ}

/-- From wherever a reader stands, the rest of the rows is read. -/
theorem follows_from {all : List α} (hall : Descending key all)
    (hlimit : 1 ≤ limit)
    (hafter : ∀ row ∈ all, ∃ page, fetch (some (encode row)) = .ok page ∧
      PageOf items next view encode limit
        (all.filter fun other => key other < key row) page)
    (n : ℕ) (front rest : List α) (hn : rest.length ≤ n)
    (hsplit : all = front ++ rest) (cursor : Option γ)
    (hfetch : ∃ page, fetch cursor = .ok page ∧
      PageOf items next view encode limit rest page) :
    ∃ pages, Follows fetch next cursor pages ∧
      pages.flatMap items = rest.map view := by
  induction n generalizing front rest cursor with
  | zero =>
      obtain ⟨page, hpage, hof⟩ := hfetch
      have hnil : rest = [] := List.length_eq_zero_iff.mp (by omega)
      have hitems := hof.items_eq
      have hnext := hof.next_eq
      rw [hnil] at hitems hnext ⊢
      rw [if_neg (by simp)] at hnext
      refine ⟨[page], .last hpage hnext, ?_⟩
      simp [hitems]
  | succ n ih =>
      obtain ⟨page, hpage, hof⟩ := hfetch
      by_cases hmore : limit < rest.length
      · have hnext := hof.next_eq
        rw [if_pos hmore] at hnext
        have hlast : (rest.take limit).getLast? = some rest[limit - 1] := by
          rw [List.getLast?_eq_getElem?, List.length_take,
            Nat.min_eq_left (by omega), List.getElem?_take_of_lt (by omega),
            List.getElem?_eq_getElem (by omega)]
        rw [hlast, Option.map_some] at hnext
        have hrest : rest = rest.take (limit - 1) ++
            rest[limit - 1] :: rest.drop limit := by
          conv_lhs => rw [← List.take_append_drop (limit - 1) rest]
          rw [List.drop_eq_getElem_cons (by omega)]
          rw [show limit - 1 + 1 = limit by omega]
        have hall' : all = (front ++ rest.take (limit - 1)) ++
            rest[limit - 1] :: rest.drop limit := by
          rw [List.append_assoc, ← hrest]
          exact hsplit
        have hback : all.filter (fun other =>
            key other < key rest[limit - 1]) = rest.drop limit := by
          have hdescending := hall
          rw [hall'] at hdescending
          conv_lhs => rw [hall']
          exact hdescending.filter_lt
        have hmem : rest[limit - 1] ∈ all := by
          rw [hsplit]
          exact List.mem_append_right _ (List.getElem_mem _)
        obtain ⟨page', hpage', hof'⟩ := hafter _ hmem
        rw [hback] at hof'
        obtain ⟨pages, hpages, hflat⟩ := ih (front ++ rest.take limit)
          (rest.drop limit) (by rw [List.length_drop]; omega)
          (by rw [List.append_assoc, List.take_append_drop]; exact hsplit)
          (some (encode rest[limit - 1])) ⟨page', hpage', hof'⟩
        refine ⟨page :: pages, .more hpage hnext hpages, ?_⟩
        rw [List.flatMap_cons, hflat, hof.items_eq, ← List.map_append,
          List.take_append_drop]
      · have hnext := hof.next_eq
        rw [if_neg hmore] at hnext
        refine ⟨[page], .last hpage hnext, ?_⟩
        rw [List.flatMap_singleton, hof.items_eq,
          List.take_of_length_le (by omega)]

/-- Following the cursors from the first page reads the rows once each. -/
theorem follows_of_answers {all : List α} (hall : Descending key all)
    (hlimit : 1 ≤ limit)
    (hfirst : ∃ page, fetch none = .ok page ∧
      PageOf items next view encode limit all page)
    (hafter : ∀ row ∈ all, ∃ page, fetch (some (encode row)) = .ok page ∧
      PageOf items next view encode limit
        (all.filter fun other => key other < key row) page) :
    ∃ pages, Follows fetch next none pages ∧
      pages.flatMap items = all.map view :=
  follows_from hall hlimit hafter all.length [] all (Nat.le_refl _) rfl none
    hfirst

end Descending

end Shozee.Run
