import Mathlib.Algebra.Order.Monoid.Defs
import Mathlib.Data.List.Basic

/-!
# The cheapest way

From a state a search goes on by one of the state's choices, which costs
something and adds to what is found, until it comes to a state where it ends.
What was found from a state is kept in a table and not looked for again. When
every state leads to smaller ones and no state that it comes to is left without
a choice, what is found is a way to the end, and none is cheaper, whatever way
led to the state and whatever was looked for before (`search_cheapest`).
-/

namespace Shozee.Run

/-- How to go on from a state. -/
structure Choice (σ κ α : Type*) where
  cost : κ
  adds : List α
  next : σ

/-- What is found from a state. -/
structure Found (κ α : Type*) where
  cost : κ
  parts : List α

variable {σ κ α : Type*}

/-- A choice in front of what was found after it. -/
def Choice.before [Add κ] (choice : Choice σ κ α) (rest : Found κ α) :
    Found κ α :=
  ⟨choice.cost + rest.cost, choice.adds ++ rest.parts⟩

/-- The first of the cheapest, of those seen so far and one more. -/
def pick (cheaper : κ → κ → Bool) (chosen : Option (Found κ α))
    (found : Found κ α) : Option (Found κ α) :=
  match chosen with
  | none => some found
  | some best => if cheaper found.cost best.cost then some found else some best

/-- The states looked at, with what was found from them. -/
abbrev Memo (σ κ α : Type*) := List (σ × Found κ α)

section Search

variable [DecidableEq σ] [AddCommMonoid κ]
variable (ends : σ → Bool) (choices : σ → List (Choice σ κ α))
variable (cheaper : κ → κ → Bool) (deadEnd : Found κ α)

/-- What is found from a state, and the table after it. -/
def search : ℕ → σ → Memo σ κ α → Found κ α × Memo σ κ α
  | 0, _, memo => (deadEnd, memo)
  | fuel + 1, s, memo =>
      if ends s then (⟨0, []⟩, memo)
      else
        match memo.lookup s with
        | some known => (known, memo)
        | none =>
            let tried := (choices s).foldl (fun tried choice =>
              let rest := search fuel choice.next tried.2
              (pick cheaper tried.1 (choice.before rest.1), rest.2))
              (none, memo)
            let found := tried.1.getD deadEnd
            (found, (s, found) :: tried.2)

end Search

section Ways

variable [AddCommMonoid κ]

/-- What there is to find from a state: the choices of some way to an end. -/
inductive Ways (ends : σ → Bool) (choices : σ → List (Choice σ κ α)) :
    σ → Found κ α → Prop
  | ended {s : σ} (h : ends s = true) : Ways ends choices s ⟨0, []⟩
  | step {s : σ} {choice : Choice σ κ α} {rest : Found κ α}
      (h : ends s = false) (hchoice : choice ∈ choices s)
      (hrest : Ways ends choices choice.next rest) :
      Ways ends choices s (choice.before rest)

variable [LinearOrder κ]

/-- A way to an end that no other is cheaper than. -/
structure Cheapest (ends : σ → Bool) (choices : σ → List (Choice σ κ α))
    (s : σ) (found : Found κ α) : Prop where
  way : Ways ends choices s found
  least : ∀ other, Ways ends choices s other → found.cost ≤ other.cost

/-- What is chosen among the choices that were tried. -/
structure Chosen (ends : σ → Bool) (choices : σ → List (Choice σ κ α))
    (tried : List (Choice σ κ α)) (chosen : Option (Found κ α)) : Prop where
  none : chosen = none → tried = []
  way : ∀ found ∈ chosen, ∃ choice ∈ tried, ∃ rest,
    Ways ends choices choice.next rest ∧ found = choice.before rest
  least : ∀ found ∈ chosen, ∀ choice ∈ tried, ∀ rest,
    Ways ends choices choice.next rest → found.cost ≤ choice.cost + rest.cost

/-- What is remembered of a state is cheapest there. -/
def SoundMemo (ends : σ → Bool) (choices : σ → List (Choice σ κ α))
    (memo : Memo σ κ α) : Prop :=
  ∀ entry ∈ memo, Cheapest ends choices entry.1 entry.2

variable {ends : σ → Bool} {choices : σ → List (Choice σ κ α)}

/-- All of the choices of a state tried. -/
theorem Chosen.cheapest {s : σ} (hends : ends s = false)
    {found : Found κ α} (h : Chosen ends choices (choices s) (some found)) :
    Cheapest ends choices s found := by
  constructor
  · obtain ⟨choice, hchoice, rest, hrest, rfl⟩ := h.way found rfl
    exact .step hends hchoice hrest
  · intro other hother
    cases hother with
    | ended hended => exact absurd hends (Bool.eq_false_iff.not.mpr
        (not_not.mpr hended))
    | step _ hchoice hrest => exact h.least found rfl _ hchoice _ hrest

variable [IsOrderedAddMonoid κ] {cheaper : κ → κ → Bool}

theorem Chosen.picked (hcheaper : ∀ a b, cheaper a b = true ↔ a < b)
    {tried : List (Choice σ κ α)} {chosen : Option (Found κ α)}
    (h : Chosen ends choices tried chosen) {choice : Choice σ κ α}
    {rest : Found κ α} (hrest : Cheapest ends choices choice.next rest) :
    Chosen ends choices (tried ++ [choice])
      (pick cheaper chosen (choice.before rest)) := by
  have hnew : ∀ other, Ways ends choices choice.next other →
      (choice.before rest).cost ≤ choice.cost + other.cost := fun other hother =>
    add_le_add_right (hrest.least other hother) _
  have htried : ∀ c ∈ tried, c ∈ tried ++ [choice] := fun c hc =>
    List.mem_append_left _ hc
  have hlast : choice ∈ tried ++ [choice] :=
    List.mem_append_right _ (List.mem_singleton.mpr rfl)
  cases chosen with
  | none =>
      have hnil := h.none rfl
      subst hnil
      refine ⟨fun hnone => ?_, fun found hfound => ?_, fun found hfound => ?_⟩
      · cases hnone
      · cases hfound
        exact ⟨choice, hlast, rest, hrest.way, rfl⟩
      · cases hfound
        intro c hc other hother
        cases List.mem_singleton.mp hc
        exact hnew other hother
  | some best =>
      obtain ⟨c, hc, other, hother, hbest⟩ := h.way best rfl
      unfold pick
      dsimp only
      by_cases hlt : cheaper (choice.before rest).cost best.cost = true
      · rw [if_pos hlt]
        refine ⟨fun hnone => ?_, fun found hfound => ?_, fun found hfound => ?_⟩
        · cases hnone
        · cases hfound
          exact ⟨choice, hlast, rest, hrest.way, rfl⟩
        · cases hfound
          intro c hc other hother
          rcases List.mem_append.mp hc with hc | hc
          · exact ((hcheaper _ _).mp hlt).le.trans
              (h.least best rfl c hc other hother)
          · cases List.mem_singleton.mp hc
            exact hnew other hother
      · rw [if_neg hlt]
        have hle : best.cost ≤ (choice.before rest).cost :=
          le_of_not_gt fun hgt => hlt ((hcheaper _ _).mpr hgt)
        refine ⟨fun hnone => ?_, fun found hfound => ?_, fun found hfound => ?_⟩
        · cases hnone
        · cases hfound
          exact ⟨c, htried c hc, other, hother, hbest⟩
        · cases hfound
          intro c hc other hother
          rcases List.mem_append.mp hc with hc | hc
          · exact h.least best rfl c hc other hother
          · cases List.mem_singleton.mp hc
            exact hle.trans (hnew other hother)

/-- Choices tried one after the other, each looked at with the table that the
one before left. -/
theorem Chosen.tried (hcheaper : ∀ a b, cheaper a b = true ↔ a < b)
    {look : σ → Memo σ κ α → Found κ α × Memo σ κ α}
    (later : List (Choice σ κ α))
    (hlook : ∀ choice ∈ later, ∀ memo, SoundMemo ends choices memo →
      Cheapest ends choices choice.next (look choice.next memo).1 ∧
        SoundMemo ends choices (look choice.next memo).2)
    {tried : List (Choice σ κ α)} {chosen : Option (Found κ α)}
    {memo : Memo σ κ α} (hchosen : Chosen ends choices tried chosen)
    (hmemo : SoundMemo ends choices memo) :
    let last := later.foldl (fun tried choice =>
      let rest := look choice.next tried.2
      (pick cheaper tried.1 (choice.before rest.1), rest.2)) (chosen, memo)
    Chosen ends choices (tried ++ later) last.1 ∧
      SoundMemo ends choices last.2 := by
  induction later generalizing tried chosen memo with
  | nil =>
      rw [List.append_nil]
      exact ⟨hchosen, hmemo⟩
  | cons choice later ih =>
      obtain ⟨hrest, hmemo⟩ := hlook choice List.mem_cons_self memo hmemo
      have hlater := ih (fun c hc => hlook c (List.mem_cons_of_mem _ hc))
        (hchosen.picked hcheaper hrest) hmemo
      rw [List.append_assoc, List.singleton_append] at hlater
      exact hlater

variable [DecidableEq σ] {deadEnd : Found κ α}

/-- What is found is a cheapest way, and so is everything in the table; `P` is
kept from a state to the next, and `size` gets smaller. -/
theorem search_cheapest (hcheaper : ∀ a b, cheaper a b = true ↔ a < b)
    (P : σ → Prop) (size : σ → ℕ)
    (hgoes : ∀ s, P s → ends s = false → choices s ≠ [])
    (hnext : ∀ s, P s → ends s = false → ∀ choice ∈ choices s,
      P choice.next ∧ size choice.next < size s)
    (fuel : ℕ) {s : σ} (hP : P s) (hfuel : size s < fuel) {memo : Memo σ κ α}
    (hmemo : SoundMemo ends choices memo) :
    Cheapest ends choices s (search ends choices cheaper deadEnd fuel s memo).1 ∧
      SoundMemo ends choices
        (search ends choices cheaper deadEnd fuel s memo).2 := by
  induction fuel generalizing s memo with
  | zero => cases hfuel
  | succ fuel ih =>
      unfold search
      cases hends : ends s with
      | true =>
          rw [if_pos rfl]
          refine ⟨⟨.ended hends, fun other hother => ?_⟩, hmemo⟩
          cases hother with
          | ended => exact le_refl _
          | step hfalse => exact absurd (hfalse.symm.trans hends) (by decide)
      | false =>
          rw [if_neg Bool.false_ne_true]
          cases hlookup : memo.lookup s with
          | some known =>
              obtain ⟨before, after, hsplit, -⟩ :=
                List.lookup_eq_some_iff.mp hlookup
              refine ⟨hmemo (s, known) ?_, hmemo⟩
              rw [hsplit]
              exact List.mem_append_right _ List.mem_cons_self
          | none =>
              dsimp only
              have hlook : ∀ choice ∈ choices s, ∀ memo,
                  SoundMemo ends choices memo → _ := fun choice hchoice memo =>
                ih (hnext s hP hends choice hchoice).1 (lt_of_lt_of_le
                  (hnext s hP hends choice hchoice).2
                  (Nat.le_of_lt_succ hfuel))
              have hnone : Chosen ends choices [] none :=
                ⟨fun _ => rfl, by simp, by simp⟩
              obtain ⟨hchosen, hmemo⟩ := Chosen.tried hcheaper (choices s)
                hlook hnone hmemo
              rw [List.nil_append] at hchosen
              generalize (choices s).foldl _ _ = last at hchosen hmemo ⊢
              obtain ⟨chosen, memo'⟩ := last
              cases chosen with
              | none =>
                  exact absurd (hchosen.none rfl) (hgoes s hP hends)
              | some found =>
                  have hfound := hchosen.cheapest hends
                  refine ⟨hfound, fun entry hentry => ?_⟩
                  rcases List.mem_cons.mp hentry with rfl | hentry
                  · exact hfound
                  · exact hmemo entry hentry

end Ways

end Shozee.Run
