import Mathlib.Data.List.Forall2

/-!
# Lists through functions that may fail

A traversal answers when the function does on every element, with what it
answered to each, and fails only as the function does on one of them.
-/

namespace Shozee.Run

variable {α β ε : Type*}

theorem mapM_eq_ok {f : α → Except ε β} {l : List α} {out : List β} :
    l.mapM f = .ok out ↔ List.Forall₂ (fun a b => f a = .ok b) l out := by
  induction l generalizing out with
  | nil =>
      rw [List.mapM_nil, List.forall₂_nil_left_iff]
      exact ⟨fun h => (Except.ok.inj h).symm, fun h => h ▸ rfl⟩
  | cons a l ih =>
      rw [List.mapM_cons, List.forall₂_cons_left_iff]
      cases hhead : f a with
      | error e =>
          refine iff_of_false (fun h => ?_) (fun ⟨_, _, h, _⟩ => ?_)
          · cases h
          · cases h
      | ok b =>
          cases htail : l.mapM f with
          | error e =>
              refine iff_of_false (fun h => ?_) (fun ⟨_, _, _, h, _⟩ => ?_)
              · cases h
              · rw [ih.mpr h] at htail
                cases htail
          | ok bs =>
              constructor
              · intro h
                cases h
                exact ⟨b, bs, rfl, ih.mp htail, rfl⟩
              · intro ⟨b', bs', hb, hbs, hout⟩
                cases hb
                rw [ih.mpr hbs] at htail
                cases htail
                rw [hout]
                rfl

theorem mapM_eq_some {f : α → Option β} {l : List α} {out : List β} :
    l.mapM f = some out ↔ List.Forall₂ (fun a b => f a = some b) l out := by
  induction l generalizing out with
  | nil =>
      rw [List.mapM_nil, List.forall₂_nil_left_iff]
      exact ⟨fun h => (Option.some.inj h).symm, fun h => h ▸ rfl⟩
  | cons a l ih =>
      rw [List.mapM_cons, List.forall₂_cons_left_iff]
      cases hhead : f a with
      | none =>
          refine iff_of_false (fun h => ?_) (fun ⟨_, _, h, _⟩ => ?_)
          · cases h
          · cases h
      | some b =>
          cases htail : l.mapM f with
          | none =>
              refine iff_of_false (fun h => ?_) (fun ⟨_, _, _, h, _⟩ => ?_)
              · cases h
              · rw [ih.mpr h] at htail
                cases htail
          | some bs =>
              constructor
              · intro h
                cases h
                exact ⟨b, bs, rfl, ih.mp htail, rfl⟩
              · rintro ⟨_, _, hb, hbs, rfl⟩
                cases hb
                rw [ih.mpr hbs] at htail
                cases htail
                rfl

theorem mapM_congr_mem {f g : α → Except ε β} {l : List α}
    (h : ∀ a ∈ l, f a = g a) : l.mapM f = l.mapM g := by
  induction l with
  | nil => rfl
  | cons a l ih =>
      rw [List.mapM_cons, List.mapM_cons, h a List.mem_cons_self,
        ih fun b hb => h b (List.mem_cons_of_mem a hb)]

/-- The answer to an element stands where the element does. -/
theorem getElem?_of_mapM {f : α → Except ε β} {l : List α} {out : List β}
    {i : ℕ} {a : α} (h : l.mapM f = .ok out) (ha : l[i]? = some a) :
    ∃ b, out[i]? = some b ∧ f a = .ok b := by
  have hall := mapM_eq_ok.mp h
  have hlt : i < l.length := (List.getElem?_eq_some_iff.mp ha).1
  have hlt' : i < out.length := hall.length_eq ▸ hlt
  refine ⟨out[i], List.getElem?_eq_getElem hlt', ?_⟩
  have hget := hall.get hlt hlt'
  rw [List.getElem?_eq_getElem hlt, Option.some.injEq] at ha
  rw [← ha]
  exact hget

/-- Every answer is to an element. -/
theorem mem_of_mapM {f : α → Except ε β} {l : List α} {out : List β} {b : β}
    (h : l.mapM f = .ok out) (hb : b ∈ out) : ∃ a ∈ l, f a = .ok b := by
  have hall := mapM_eq_ok.mp h
  induction hall with
  | nil => exact absurd hb List.not_mem_nil
  | cons hhead htail ih =>
      rcases List.mem_cons.mp hb with rfl | hb
      · exact ⟨_, List.mem_cons_self, hhead⟩
      · obtain ⟨a, ha, hfa⟩ := ih (mapM_eq_ok.mpr htail) hb
        exact ⟨a, List.mem_cons_of_mem _ ha, hfa⟩

/-- What is read off the answers, when each answer shows it of its
element. -/
theorem map_of_mapM {γ : Type*} {f : α → Except ε β} {g : β → γ} {k : α → γ}
    {l : List α} {out : List β} (h : l.mapM f = .ok out)
    (hread : ∀ a b, f a = .ok b → g b = k a) : out.map g = l.map k := by
  have hall := mapM_eq_ok.mp h
  induction hall with
  | nil => rfl
  | cons hhead htail ih =>
      rw [List.map_cons, List.map_cons, hread _ _ hhead,
        ih (mapM_eq_ok.mpr htail)]

theorem mapM_eq_error {f : α → Except ε β} {l : List α} {e : ε}
    (h : l.mapM f = .error e) : ∃ a ∈ l, f a = .error e := by
  induction l with
  | nil => cases h
  | cons a l ih =>
      rw [List.mapM_cons] at h
      cases hhead : f a with
      | error e' =>
          rw [hhead] at h
          cases h
          exact ⟨a, List.mem_cons_self, hhead⟩
      | ok b =>
          rw [hhead] at h
          cases htail : l.mapM f with
          | error e' =>
              rw [htail] at h
              cases h
              obtain ⟨a', ha', herror⟩ := ih htail
              exact ⟨a', List.mem_cons_of_mem _ ha', herror⟩
          | ok bs =>
              rw [htail] at h
              cases h

theorem exists_mapM {f : α → Except ε β} {l : List α}
    (h : ∀ a ∈ l, ∃ b, f a = .ok b) : ∃ out, l.mapM f = .ok out := by
  cases hout : l.mapM f with
  | ok out => exact ⟨out, rfl⟩
  | error e =>
      obtain ⟨a, ha, herror⟩ := mapM_eq_error hout
      obtain ⟨b, hb⟩ := h a ha
      rw [hb] at herror
      cases herror

theorem exists_mapM_iff {f : α → Except ε β} {l : List α} :
    (∃ out, l.mapM f = .ok out) ↔ ∀ a ∈ l, ∃ b, f a = .ok b := by
  refine ⟨?_, exists_mapM⟩
  rintro ⟨out, hout⟩ a ha
  obtain ⟨i, hi⟩ := List.getElem?_of_mem ha
  obtain ⟨b, -, hb⟩ := getElem?_of_mapM hout hi
  exact ⟨b, hb⟩

/-- What every element is known to give is what the list gives. -/
theorem mapM_eq_map {f : α → Except ε β} {g : α → β} {l : List α}
    (h : ∀ a ∈ l, f a = .ok (g a)) : l.mapM f = .ok (l.map g) :=
  mapM_eq_ok.mpr (List.forall₂_map_right_iff.mpr (List.forall₂_same.mpr h))

/-- What tells the elements apart tells the answers apart. -/
theorem pairwise_of_forall₂ {R : α → β → Prop} {P : α → α → Prop}
    {Q : β → β → Prop} {l : List α} {out : List β}
    (h : List.Forall₂ R l out) (hpairs : l.Pairwise P)
    (hstep : ∀ a a' b b', P a a' → R a b → R a' b' → Q b b') :
    out.Pairwise Q := by
  induction h with
  | nil => exact .nil
  | @cons a b l out hab hrest ih =>
      rw [List.pairwise_cons] at hpairs
      refine .cons (fun b' hb' => ?_) (ih hpairs.2)
      obtain ⟨i, hi, rfl⟩ := List.getElem_of_mem hb'
      have hi' : i < l.length := hrest.length_eq ▸ hi
      exact hstep a l[i] b out[i] (hpairs.1 _ (List.getElem_mem hi')) hab
        (hrest.get hi' hi)

/-- A sequence answers when both of its parts do. -/
theorem bind_eq_ok {α β ε : Type} {x : Except ε α} {f : α → Except ε β}
    {b : β} : (x >>= f) = .ok b ↔ ∃ a, x = .ok a ∧ f a = .ok b := by
  cases x with
  | error e =>
      refine iff_of_false (fun h => ?_) (fun ⟨_, h, _⟩ => ?_)
      · cases h
      · cases h
  | ok a =>
      constructor
      · exact fun h => ⟨a, rfl, h⟩
      · intro ⟨a', ha, hf⟩
        cases ha
        exact hf

/-- A sequence fails in its first part or in its second. -/
theorem bind_eq_error {α β ε : Type} {x : Except ε α} {f : α → Except ε β}
    {e : ε} :
    (x >>= f) = .error e ↔ x = .error e ∨ ∃ a, x = .ok a ∧ f a = .error e := by
  cases x with
  | error e' =>
      constructor
      · intro h
        cases h
        exact Or.inl rfl
      · rintro (h | ⟨_, h, _⟩)
        · cases h
          rfl
        · cases h
  | ok a =>
      constructor
      · exact fun h => Or.inr ⟨a, rfl, h⟩
      · rintro (h | ⟨a', ha, hf⟩)
        · cases h
        · cases ha
          exact hf

/-- A filter whose test always answers. -/
theorem filterM_eq_ok {α ε : Type} {f : α → Except ε Bool} {g : α → Bool}
    {l : List α} (h : ∀ a ∈ l, f a = .ok (g a)) :
    l.filterM f = .ok (l.filter g) := by
  have haux : ∀ acc, l.filterAuxM f acc =
      .ok ((l.filter g).reverse ++ acc) := by
    induction l with
    | nil => exact fun acc => rfl
    | cons a l ih =>
        intro acc
        rw [List.filterAuxM, h a List.mem_cons_self]
        dsimp only [bind, Except.bind]
        rw [ih fun b hb => h b (List.mem_cons_of_mem _ hb)]
        cases hg : g a with
        | true => simp [hg]
        | false => simp [hg]
  rw [List.filterM, haux]
  simp [bind, Except.bind, pure, Except.pure]

end Shozee.Run
