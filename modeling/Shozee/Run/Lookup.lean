import Mathlib.Data.List.Perm.Basic
import Mathlib.Data.List.Sort

/-!
# Looking a row up, and maps built by loops

A unique key makes a lookup independent of the order of the rows: `Only p l`
says that at most one element of the list is `p`, and then every arrangement
of the list finds the same one. Rows that a comparison tells apart are sorted
into one list (`mergeSort_congr`).

`Dict` is a map that a loop fills by setting keys. A later `set` wins, so what
a loop leaves under a key is the last row with that key.
-/

namespace Shozee.Run

variable {α β κ : Type*}

/-- At most one element of the list satisfies the predicate. -/
def Only (p : α → Bool) (l : List α) : Prop :=
  ∀ a ∈ l, ∀ b ∈ l, p a = true → p b = true → a = b

theorem Only.find?_eq_some_iff {p : α → Bool} {l : List α} (h : Only p l)
    {a : α} : l.find? p = some a ↔ a ∈ l ∧ p a = true := by
  constructor
  · intro hfind
    exact ⟨List.mem_of_find?_eq_some hfind, List.find?_some hfind⟩
  · intro ⟨ha, hp⟩
    cases hfind : l.find? p with
    | none => exact absurd hp (List.find?_eq_none.mp hfind a ha)
    | some b =>
        rw [h b (List.mem_of_find?_eq_some hfind) a ha
          (List.find?_some hfind) hp]

/-- Two lists that agree on the elements looked for find the same one. -/
theorem Only.find?_congr {p : α → Bool} {l l' : List α} (h : Only p l)
    (hsame : ∀ a, p a = true → (a ∈ l' ↔ a ∈ l)) : l'.find? p = l.find? p := by
  have h' : Only p l' := fun a ha b hb hpa hpb =>
    h a ((hsame a hpa).mp ha) b ((hsame b hpb).mp hb) hpa hpb
  refine Option.ext fun a => ?_
  rw [h'.find?_eq_some_iff, h.find?_eq_some_iff]
  exact and_congr_left (hsame a)

/-! ## Rows of a query

What a database may return for a query without an order: the rows, in some
order of its own. -/

/-- An order in which a database returns the rows of a query that does not ask
for one. -/
structure RowOrder where
  order : {α : Type} → List α → List α
  perm_order : ∀ {α : Type} (l : List α), (order l).Perm l

theorem RowOrder.mem_order (rowOrder : RowOrder) {α : Type} (l : List α)
    (a : α) : a ∈ rowOrder.order l ↔ a ∈ l :=
  (rowOrder.perm_order l).mem_iff

/-- Rows come as they are stored. -/
def asStored : RowOrder := ⟨id, fun _ => List.Perm.refl _⟩

/-- Rows come the last one first. -/
def lastFirst : RowOrder := ⟨List.reverse, List.reverse_perm⟩

/-! ## Rows that are sorted

Where a comparison tells rows apart there is one sorted list of them. -/

/-- Rows that the comparison tells apart are sorted into one list, in whatever
order they come. -/
theorem mergeSort_congr {cmp : α → α → Ordering} [Std.TransCmp cmp]
    {l l' : List α} (h : l.Perm l')
    (hapart : ∀ a ∈ l, ∀ b ∈ l, cmp a b = .eq → a = b) :
    l.mergeSort (fun a b => (cmp a b).isLE) =
      l'.mergeSort (fun a b => (cmp a b).isLE) := by
  have hsorted : ∀ l : List α,
      (l.mergeSort fun a b => (cmp a b).isLE).Pairwise
        fun a b => (cmp a b).isLE := fun l =>
    List.pairwise_mergeSort (fun _ _ _ => Std.TransCmp.isLE_trans)
      (fun a b => by
        have hswap : cmp b a = (cmp a b).swap := Std.OrientedCmp.eq_swap
        rw [hswap]
        cases cmp a b <;> rfl) l
  have hsame : (l.mergeSort fun a b => (cmp a b).isLE).Perm
      (l'.mergeSort fun a b => (cmp a b).isLE) :=
    ((List.mergeSort_perm l _).trans h).trans (List.mergeSort_perm l' _).symm
  refine hsame.eq_of_pairwise ?_ (hsorted l) (hsorted l')
  intro a b ha hb hab hba
  have hb := h.mem_iff.mpr ((List.mergeSort_perm l' _).mem_iff.mp hb)
  refine hapart a ((List.mergeSort_perm l _).mem_iff.mp ha) b hb ?_
  exact Std.OrientedCmp.isLE_antisymm hab hba

/-! ## Maps

What a loop leaves under a key, by the kind of the loop. -/

/-- A map, by what it has under each key. -/
abbrev Dict (κ β : Type*) := κ → Option β

namespace Dict

/-- No key has a value. -/
def empty : Dict κ β := fun _ => none

variable [DecidableEq κ]

/-- One key's value replaced. -/
def set (m : Dict κ β) (k : κ) (v : β) : Dict κ β :=
  fun k' => if k' = k then some v else m k'

theorem set_apply (m : Dict κ β) (k k' : κ) (v : β) :
    m.set k v k' = if k' = k then some v else m k' := rfl

/-- A round of a loop that passes the elements without a key by. -/
def setSome (m : Dict κ β) (k : Option κ) (v : β) : Dict κ β :=
  match k with
  | some k => m.set k v
  | none => m

/-- A loop that sets the keys of some of the elements leaves the last one
under each key. -/
theorem foldl_set (key : α → Option κ) (value : α → β) (l : List α)
    (m : Dict κ β) (k : κ) :
    l.foldl (fun m a => m.setSome (key a) (value a)) m k =
      ((l.reverse.find? fun a => key a = some k).map value).or (m k) := by
  induction l generalizing m with
  | nil => rfl
  | cons a l ih =>
      rw [List.foldl_cons, ih, List.reverse_cons, List.find?_append,
        Option.map_or, Option.or_assoc]
      refine congrArg _ ?_
      cases hkey : key a with
      | none => simp [setSome, hkey]
      | some k' =>
          by_cases hk : k = k'
          · simp [setSome, set_apply, hkey, hk]
          · simp [setSome, set_apply, hkey, hk, Ne.symm hk]

/-- A loop over the keys themselves leaves each its own value. -/
theorem foldl_set_self (value : κ → β) (l : List κ) (m : Dict κ β) {k : κ}
    (hmem : k ∈ l) : l.foldl (fun m k => m.set k (value k)) m k =
      some (value k) := by
  have hfold := foldl_set some value l m k
  have hfind : (l.reverse.find? fun k' => some k' = some k) = some k := by
    cases hfind : l.reverse.find? fun k' => some k' = some k with
    | none =>
        have hnone := List.find?_eq_none.mp hfind k (List.mem_reverse.mpr hmem)
        simp at hnone
    | some k' =>
        have hsome := List.find?_some hfind
        rw [decide_eq_true_eq, Option.some.injEq] at hsome
        rw [hsome]
  rw [hfind] at hfold
  exact hfold

/-- A loop that puts each element to those of its key. -/
theorem foldl_push (key : α → κ) (value : α → β) (l : List α)
    (m : Dict κ (List β)) (k : κ) :
    ((l.foldl (fun m a =>
        m.set (key a) (((m (key a)).getD []) ++ [value a])) m) k).getD [] =
      ((m k).getD []) ++ (l.filter fun a => key a = k).map value := by
  induction l generalizing m with
  | nil => simp
  | cons a l ih =>
      rw [List.foldl_cons, ih, set_apply]
      by_cases hk : k = key a
      · simp [hk]
      · simp [hk, Ne.symm hk]

end Dict

/-! ## Lists without repeats

A loop that skips what it has seen keeps the same elements, each once. -/

variable [DecidableEq α]

/-- A loop that drops what it has seen keeps every element. -/
theorem mem_foldl_unique (l seen : List α) (a : α) :
    a ∈ l.foldl (fun seen a => if a ∈ seen then seen else seen ++ [a]) seen ↔
      a ∈ seen ∨ a ∈ l := by
  induction l generalizing seen with
  | nil => simp
  | cons b l ih =>
      rw [List.foldl_cons, ih]
      by_cases hb : b ∈ seen
      · rw [if_pos hb]
        constructor
        · intro h
          exact h.imp_right (List.mem_cons_of_mem b)
        · intro h
          rcases h with h | h
          · exact .inl h
          · rcases List.mem_cons.mp h with rfl | h
            · exact .inl hb
            · exact .inr h
      · rw [if_neg hb, List.mem_append, List.mem_singleton, List.mem_cons,
          or_assoc]

theorem nodup_foldl_unique (l : List α) {seen : List α} (h : seen.Nodup) :
    (l.foldl (fun seen a => if a ∈ seen then seen else seen ++ [a])
      seen).Nodup := by
  induction l generalizing seen with
  | nil => exact h
  | cons b l ih =>
      rw [List.foldl_cons]
      by_cases hb : b ∈ seen
      · rw [if_pos hb]
        exact ih h
      · rw [if_neg hb]
        exact ih (List.nodup_append.mpr ⟨h, List.nodup_singleton b,
          fun a ha c hc => by
            rintro rfl
            exact hb (List.mem_singleton.mp hc ▸ ha)⟩)

end Shozee.Run
