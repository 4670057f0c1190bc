import Mathlib.Data.Finset.Card
import Mathlib.Data.Finset.SDiff
import Mathlib.Logic.Relation

/-!
# A search with a worklist

A loop takes the elements of a list one by one, keeps those it has not seen
and appends what each of them leads to at the end of the list. What an element
leads to is `next`, which may fail; the loop runs on fuel.

Inside a finite set that `next` does not leave, some fuel is enough and more
changes nothing: each round either takes an element that was seen, and the
list is one shorter, or sees a new one, and one less of the set is left.
`explore_spec` says that together with what has been seen at the end, which is
what the elements of the list lead to in any number of steps.
-/

namespace Shozee.Run

variable {α ε : Type*}

/-- One step of the search. -/
def Leads (next : α → Except ε (List α)) (a b : α) : Prop :=
  ∃ more, next a = .ok more ∧ b ∈ more

/-- `next` answers on the set and does not leave it. -/
def Stays (next : α → Except ε (List α)) (u : Finset α) : Prop :=
  ∀ a ∈ u, ∃ more, next a = .ok more ∧ ∀ b ∈ more, b ∈ u

/-- What the seen elements lead to is seen or on the list. -/
def Covered (next : α → Except ε (List α)) (seen pending : List α) : Prop :=
  ∀ a ∈ seen, ∀ b, Leads next a b → b ∈ seen ∨ b ∈ pending

variable {next : α → Except ε (List α)} {u : Finset α}

theorem Leads.mem {a b : α} {more : List α} (hnext : next a = .ok more)
    (h : Leads next a b) : b ∈ more := by
  obtain ⟨more', hnext', hmem⟩ := h
  rw [hnext] at hnext'
  cases hnext'
  exact hmem

/-- A walk from a seen element stays among the seen until it passes the
list. -/
theorem Covered.reaches {seen pending : List α} {a x : α}
    (hcovered : Covered next seen pending) (ha : a ∈ seen)
    (h : Relation.ReflTransGen (Leads next) a x) :
    x ∈ seen ∨ ∃ s ∈ pending, Relation.ReflTransGen (Leads next) s x := by
  induction h with
  | refl => exact Or.inl ha
  | tail _ hstep ih =>
      rcases ih with hseen | ⟨s, hs, hwalk⟩
      · rcases hcovered _ hseen _ hstep with hnew | hnew
        · exact Or.inl hnew
        · exact Or.inr ⟨_, hnew, .refl⟩
      · exact Or.inr ⟨s, hs, hwalk.tail hstep⟩

/-- Taking up a new element keeps the seen ones covered. -/
theorem Covered.take {seen pending more : List α} {a : α}
    (hcovered : Covered next seen (a :: pending))
    (hnext : next a = .ok more) :
    Covered next (seen ++ [a]) (pending ++ more) := by
  intro b hb c hstep
  rw [List.mem_append, List.mem_singleton] at hb
  rw [List.mem_append, List.mem_singleton, List.mem_append]
  rcases hb with hb | rfl
  · rcases hcovered b hb c hstep with hc | hc
    · exact Or.inl (Or.inl hc)
    · rcases List.mem_cons.mp hc with rfl | hc
      · exact Or.inl (Or.inr rfl)
      · exact Or.inr (Or.inl hc)
  · exact Or.inr (Or.inr (hstep.mem hnext))

variable [DecidableEq α]

/-- The loop, from what is `seen` and what is on the list. `spent` is the
answer without fuel. -/
def explore (next : α → Except ε (List α)) (spent : ε) :
    ℕ → List α → List α → Except ε (List α)
  | 0, _, _ => .error spent
  | _ + 1, seen, [] => .ok seen
  | fuel + 1, seen, a :: pending =>
      if a ∈ seen then explore next spent fuel seen pending
      else do
        let more ← next a
        explore next spent fuel (seen ++ [a]) (pending ++ more)

/-- What is left of the set shrinks with each new element. -/
theorem card_left_lt {seen : List α} {a : α} (ha : a ∈ u) (hnew : a ∉ seen) :
    (u \ (seen ++ [a]).toFinset).card < (u \ seen.toFinset).card := by
  refine Finset.card_lt_card (Finset.ssubset_iff_subset_ne.mpr ⟨?_, ?_⟩)
  · intro b hb
    rw [Finset.mem_sdiff, List.mem_toFinset, List.mem_append, not_or] at hb
    rw [Finset.mem_sdiff, List.mem_toFinset]
    exact ⟨hb.1, hb.2.1⟩
  · intro hsame
    have hleft : a ∈ u \ seen.toFinset := by
      rw [Finset.mem_sdiff, List.mem_toFinset]
      exact ⟨ha, hnew⟩
    rw [← hsame, Finset.mem_sdiff, List.mem_toFinset] at hleft
    exact hleft.2 (List.mem_append_right _ (List.mem_singleton_self a))

/-- The search inside a set that `next` stays in: it ends, and what it has
seen then is what it had seen before and what the list leads to. -/
theorem explore_spec (spent : ε) (hstays : Stays next u)
    {seen pending : List α}
    (hpending : ∀ a ∈ pending, a ∈ u) (hcovered : Covered next seen pending) :
    ∃ n result,
      (∀ fuel, n ≤ fuel → explore next spent fuel seen pending = .ok result) ∧
      ∀ x, x ∈ result ↔
        x ∈ seen ∨ ∃ s ∈ pending, Relation.ReflTransGen (Leads next) s x := by
  -- A new element makes the set that is left smaller, an old one the list.
  induction hleft : (u \ seen.toFinset).card using Nat.strong_induction_on
    generalizing seen pending with
  | _ left ih =>
    induction pending with
    | nil =>
        refine ⟨1, seen, ?_, ?_⟩
        · intro fuel hfuel
          obtain ⟨fuel, rfl⟩ := Nat.exists_eq_add_of_le' hfuel
          rfl
        · intro x
          simp
    | cons a pending ihpending =>
        have hrest : ∀ b ∈ pending, b ∈ u := fun b hb =>
          hpending b (List.mem_cons_of_mem _ hb)
        by_cases hseen : a ∈ seen
        · have hcovered' : Covered next seen pending := by
            intro b hb c hstep
            rcases hcovered b hb c hstep with hc | hc
            · exact Or.inl hc
            · rcases List.mem_cons.mp hc with rfl | hc
              · exact Or.inl hseen
              · exact Or.inr hc
          obtain ⟨n, result, hrun, hresult⟩ := ihpending hrest hcovered'
          refine ⟨n + 1, result, ?_, ?_⟩
          · intro fuel hfuel
            obtain ⟨fuel, rfl⟩ :=
              Nat.exists_eq_add_of_le' (Nat.le_of_add_left_le hfuel)
            rw [explore, if_pos hseen]
            exact hrun fuel (Nat.le_of_succ_le_succ hfuel)
          · intro x
            rw [hresult x]
            constructor
            · rintro (hx | ⟨s, hs, hwalk⟩)
              · exact Or.inl hx
              · exact Or.inr ⟨s, List.mem_cons_of_mem _ hs, hwalk⟩
            · rintro (hx | ⟨s, hs, hwalk⟩)
              · exact Or.inl hx
              · rcases List.mem_cons.mp hs with rfl | hs
                · exact hcovered'.reaches hseen hwalk
                · exact Or.inr ⟨s, hs, hwalk⟩
        · have ha : a ∈ u := hpending a List.mem_cons_self
          obtain ⟨more, hnext, hmore⟩ := hstays a ha
          have hpending' : ∀ b ∈ pending ++ more, b ∈ u := by
            intro b hb
            rcases List.mem_append.mp hb with hb | hb
            · exact hrest b hb
            · exact hmore b hb
          obtain ⟨n, result, hrun, hresult⟩ :=
            ih _ (hleft ▸ card_left_lt ha hseen) hpending'
              (hcovered.take hnext) rfl
          refine ⟨n + 1, result, ?_, ?_⟩
          · intro fuel hfuel
            obtain ⟨fuel, rfl⟩ :=
              Nat.exists_eq_add_of_le' (Nat.le_of_add_left_le hfuel)
            rw [explore, if_neg hseen, hnext]
            exact hrun fuel (Nat.le_of_succ_le_succ hfuel)
          · intro x
            rw [hresult x, List.mem_append, List.mem_singleton]
            constructor
            · rintro ((hx | rfl) | ⟨s, hs, hwalk⟩)
              · exact Or.inl hx
              · exact Or.inr ⟨x, List.mem_cons_self, .refl⟩
              · rcases List.mem_append.mp hs with hs | hs
                · exact Or.inr ⟨s, List.mem_cons_of_mem _ hs, hwalk⟩
                · exact Or.inr ⟨a, List.mem_cons_self,
                    .head ⟨more, hnext, hs⟩ hwalk⟩
            · rintro (hx | ⟨s, hs, hwalk⟩)
              · exact Or.inl (Or.inl hx)
              · rcases List.mem_cons.mp hs with rfl | hs
                · rcases hwalk.cases_head with rfl | ⟨b, hstep, hwalk⟩
                  · exact Or.inl (Or.inr rfl)
                  · exact Or.inr ⟨b, List.mem_append_right _
                      (hstep.mem hnext), hwalk⟩
                · exact Or.inr ⟨s, List.mem_append_left _ hs, hwalk⟩

/-- The search from the start. -/
theorem explore_reaches (spent : ε) (hstays : Stays next u)
    (starts : List α)
    (hstarts : ∀ a ∈ starts, a ∈ u) :
    ∃ n result,
      (∀ fuel, n ≤ fuel → explore next spent fuel [] starts = .ok result) ∧
      ∀ x, x ∈ result ↔
        ∃ s ∈ starts, Relation.ReflTransGen (Leads next) s x := by
  obtain ⟨n, result, hrun, hresult⟩ :=
    explore_spec spent hstays hstarts
      (fun _ ha => absurd ha List.not_mem_nil)
  refine ⟨n, result, hrun, fun x => ?_⟩
  rw [hresult x]
  simp

end Shozee.Run
