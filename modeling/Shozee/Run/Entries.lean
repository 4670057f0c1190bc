import Mathlib.Algebra.BigOperators.Group.List.Basic
import Mathlib.Algebra.Order.BigOperators.Group.List
import Mathlib.Data.List.Nodup
import Mathlib.Data.List.Perm.Subperm
import Mathlib.Tactic.Abel

/-!
# Finite stores and what they add up to

`Entries` is a key-value store with finitely many keys, each at most once: the
list carries the proof. A key is written when it is absent and dropped whole,
which is all that a store of receipts does. `total f` adds up a quantity over
the entries, and each operation changes it by its own entry: that is what a
conservation argument needs of the store.

The second half says the same of a list of parties, of which one moves at a
time.
-/

namespace Shozee.Run

variable {κ ν μ : Type*}

/-- A key-value store with finitely many keys. -/
structure Entries (κ ν : Type*) where
  list : List (κ × ν)
  nodup : (list.map Prod.fst).Nodup

namespace Entries

/-- No key. -/
def empty : Entries κ ν := ⟨[], List.nodup_nil⟩

variable [DecidableEq κ]

/-- The value of a key. -/
def get (e : Entries κ ν) (k : κ) : Option ν :=
  (e.list.find? fun entry => entry.1 = k).map Prod.snd

theorem mem_of_get {e : Entries κ ν} {k : κ} {v : ν} (h : e.get k = some v) :
    (k, v) ∈ e.list := by
  obtain ⟨⟨k', v'⟩, hfind, rfl⟩ := Option.map_eq_some_iff.mp h
  have hk := List.find?_some hfind
  rw [decide_eq_true_eq] at hk
  have hmem := List.mem_of_find?_eq_some hfind
  exact hk ▸ hmem

theorem get_of_mem {e : Entries κ ν} {k : κ} {v : ν} (h : (k, v) ∈ e.list) :
    e.get k = some v := by
  unfold get
  cases hfind : e.list.find? fun entry => entry.1 = k with
  | none =>
      have hself := List.find?_eq_none.mp hfind _ h
      simp at hself
  | some entry =>
      have hk := List.find?_some hfind
      rw [decide_eq_true_eq] at hk
      have hmem := List.mem_of_find?_eq_some hfind
      have hsame := List.inj_on_of_nodup_map e.nodup hmem h hk
      rw [hsame]
      rfl

theorem get_eq_some_iff {e : Entries κ ν} {k : κ} {v : ν} :
    e.get k = some v ↔ (k, v) ∈ e.list :=
  ⟨mem_of_get, get_of_mem⟩

theorem get_eq_none_iff {e : Entries κ ν} {k : κ} :
    e.get k = none ↔ k ∉ e.list.map Prod.fst := by
  constructor
  · intro h hmem
    obtain ⟨⟨k', v⟩, hentry, rfl⟩ := List.mem_map.mp hmem
    rw [get_of_mem hentry] at h
    cases h
  · intro h
    cases hget : e.get k with
    | none => rfl
    | some v => exact absurd (List.mem_map.mpr ⟨_, mem_of_get hget, rfl⟩) h

/-- Writes an absent key; leaves the store alone if the key is there. -/
def putNew (e : Entries κ ν) (k : κ) (v : ν) : Entries κ ν :=
  if h : e.get k = none then
    ⟨(k, v) :: e.list, List.nodup_cons.mpr ⟨get_eq_none_iff.mp h, e.nodup⟩⟩
  else e

/-- One key removed. -/
def drop (e : Entries κ ν) (k : κ) : Entries κ ν where
  list := e.list.filter fun entry => entry.1 ≠ k
  nodup := e.nodup.sublist (List.filter_sublist.map Prod.fst)

theorem list_putNew {e : Entries κ ν} {k : κ} {v : ν} (h : e.get k = none) :
    (e.putNew k v).list = (k, v) :: e.list := by
  unfold putNew
  rw [dif_pos h]

theorem get_putNew {e : Entries κ ν} {k k' : κ} {v : ν}
    (h : e.get k = none) :
    (e.putNew k v).get k' = if k' = k then some v else e.get k' := by
  unfold get
  rw [list_putNew h, List.find?_cons]
  by_cases hk : k' = k
  · rw [if_pos hk, hk]
    simp
  · rw [if_neg hk]
    simp [Ne.symm hk]

theorem get_drop {e : Entries κ ν} {k k' : κ} :
    (e.drop k).get k' = if k' = k then none else e.get k' := by
  by_cases hk : k' = k
  · rw [if_pos hk, get_eq_none_iff, hk]
    intro hmem
    obtain ⟨entry, hentry, heq⟩ := List.mem_map.mp hmem
    have hne := (List.mem_filter.mp hentry).2
    simp [heq] at hne
  · rw [if_neg hk]
    ext v
    rw [get_eq_some_iff, get_eq_some_iff]
    show (k', v) ∈ e.list.filter _ ↔ _
    rw [List.mem_filter]
    simp [hk]

/-! ## Totals

Each operation changes a total by the part of its own entry, as no key occurs
twice. -/

section Total

variable [AddCommMonoid μ] (f : κ → ν → μ)

/-- A quantity summed over the entries. -/
def total (e : Entries κ ν) : μ := (e.list.map fun x => f x.1 x.2).sum

omit [DecidableEq κ] in
@[simp] theorem total_empty : (empty : Entries κ ν).total f = 0 := rfl

theorem total_putNew {e : Entries κ ν} {k : κ} {v : ν}
    (h : e.get k = none) : (e.putNew k v).total f = f k v + e.total f := by
  unfold total
  rw [list_putNew h, List.map_cons, List.sum_cons]

/-- Dropping an entry takes exactly its own part off the total. -/
theorem total_drop {e : Entries κ ν} {k : κ} {v : ν} (h : e.get k = some v) :
    e.total f = f k v + (e.drop k).total f := by
  have key : ∀ l : List (κ × ν), (l.map Prod.fst).Nodup → (k, v) ∈ l →
      (l.map fun x => f x.1 x.2).sum =
        f k v + ((l.filter fun x => x.1 ≠ k).map fun x => f x.1 x.2).sum := by
    intro l
    induction l with
    | nil => exact fun _ hmem => (List.not_mem_nil hmem).elim
    | cons x l ih =>
        intro hnodup hmem
        obtain ⟨hhead, htail⟩ := List.nodup_cons.mp hnodup
        rw [List.map_cons, List.sum_cons]
        rcases List.mem_cons.mp hmem with rfl | hmem
        · have hrest : (l.filter fun x => x.1 ≠ k) = l := by
            rw [List.filter_eq_self]
            intro y hy
            have hne : y.1 ≠ k := fun heq =>
              hhead (List.mem_map.mpr ⟨y, hy, heq⟩)
            exact decide_eq_true hne
          rw [List.filter_cons_of_neg (by simp), hrest]
        · have hne : x.1 ≠ k := fun heq =>
            hhead (List.mem_map.mpr ⟨_, hmem, heq.symm⟩)
          rw [List.filter_cons_of_pos (by simpa using hne), List.map_cons,
            List.sum_cons, ih htail hmem]
          abel
  exact key e.list e.nodup (mem_of_get h)

end Total

section Order

variable [AddCommMonoid μ] [PartialOrder μ] [IsOrderedAddMonoid μ]
  {f : κ → ν → μ}

omit [DecidableEq κ] in
theorem total_nonneg {e : Entries κ ν}
    (hf : ∀ x ∈ e.list, 0 ≤ f x.1 x.2) : 0 ≤ e.total f :=
  List.sum_nonneg fun _ hx => by
    obtain ⟨x, hmem, rfl⟩ := List.mem_map.mp hx
    exact hf x hmem

omit [DecidableEq κ] in
/-- Distinct entries of a store add up to at most its total. -/
theorem sum_le_total {e : Entries κ ν} {l : List (κ × ν)}
    (hnodup : l.Nodup) (hsub : l ⊆ e.list)
    (hf : ∀ x ∈ e.list, 0 ≤ f x.1 x.2) :
    (l.map fun x => f x.1 x.2).sum ≤ e.total f := by
  obtain ⟨l', hperm, hsublist⟩ := List.subperm_of_subset hnodup hsub
  have heq : (l.map fun x => f x.1 x.2).sum =
      (l'.map fun x => f x.1 x.2).sum :=
    ((hperm.map fun x => f x.1 x.2).sum_eq).symm
  rw [heq]
  refine (hsublist.map fun x => f x.1 x.2).sum_le_sum ?_
  intro y hy
  obtain ⟨x, hx, rfl⟩ := List.mem_map.mp hy
  exact hf x hx

end Order

end Entries

/-! ## Lists of parties

A party that moves is replaced in the list. A sum over all of them changes by
what it gained. -/

/-- When one party moves, a sum over all of them changes by its part. -/
theorem sum_map_set {α : Type*} [AddCommMonoid μ] (f : α → μ) :
    ∀ {l : List α} {n : ℕ} {a b : α}, l[n]? = some a →
      ((l.set n b).map f).sum + f a = (l.map f).sum + f b := by
  intro l
  induction l with
  | nil => intro n a b h; simp at h
  | cons x l ih =>
      intro n a b h
      cases n with
      | zero =>
          obtain rfl : x = a := by simpa using h
          simp only [List.set_cons_zero, List.map_cons, List.sum_cons]
          abel
      | succ n =>
          have h' : l[n]? = some a := by simpa using h
          have hrest := ih (b := b) h'
          simp only [List.set_cons_succ, List.map_cons, List.sum_cons]
          rw [add_assoc, hrest, add_assoc]

/-- When the one element of a key is replaced, a sum over the list changes by
its part. -/
theorem sum_map_replace {α κ : Type*} [DecidableEq κ] [AddCommMonoid μ]
    (key : α → κ) (f : α → μ) {a b : α} :
    ∀ {l : List α}, (l.map key).Nodup → a ∈ l →
      ((l.map fun x => if key x = key a then b else x).map f).sum + f a =
        (l.map f).sum + f b := by
  intro l
  induction l with
  | nil => exact fun _ hmem => (List.not_mem_nil hmem).elim
  | cons x l ih =>
      intro hnodup hmem
      obtain ⟨hhead, htail⟩ := List.nodup_cons.mp hnodup
      rw [List.map_cons, List.map_cons, List.sum_cons, List.map_cons,
        List.sum_cons]
      rcases List.mem_cons.mp hmem with rfl | hmem
      · have hrest : (l.map fun x => if key x = key a then b else x) = l := by
          have hself : ∀ x ∈ l, (if key x = key a then b else x) = id x := by
            intro x hx
            rw [if_neg fun heq => hhead (List.mem_map.mpr ⟨x, hx, heq⟩)]
            rfl
          rw [List.map_congr_left hself, List.map_id]
        rw [if_pos rfl, hrest]
        abel
      · have hne : key x ≠ key a := fun heq =>
          hhead (List.mem_map.mpr ⟨a, hmem, heq.symm⟩)
        rw [if_neg hne, add_assoc, ih htail hmem, add_assoc]

/-- Who is where after one party has moved. -/
theorem getElem?_set_of_some {α : Type*} {l : List α} {n m : ℕ} {a b : α}
    (h : l[n]? = some a) :
    (l.set n b)[m]? = if m = n then some b else l[m]? := by
  have hlt : n < l.length := (List.getElem?_eq_some_iff.mp h).1
  rw [List.getElem?_set]
  by_cases hm : n = m
  · rw [if_pos hm, if_pos hm.symm, if_pos hlt]
  · rw [if_neg hm, if_neg (Ne.symm hm)]

theorem getElem?_set_cases {α : Type*} {l : List α} {n m : ℕ} {a b c : α}
    (h : l[n]? = some a) (hm : (l.set n b)[m]? = some c) :
    (m = n ∧ c = b) ∨ (m ≠ n ∧ l[m]? = some c) := by
  rw [getElem?_set_of_some h] at hm
  split at hm
  · rename_i heq
    exact Or.inl ⟨heq, (Option.some.inj hm).symm⟩
  · rename_i hne
    exact Or.inr ⟨hne, hm⟩

/-- Who is where after one party has joined. -/
theorem getElem?_concat_cases {α : Type*} {l : List α} {n : ℕ} {a b : α}
    (h : (l ++ [a])[n]? = some b) :
    l[n]? = some b ∨ n = l.length ∧ b = a := by
  by_cases hlt : n < l.length
  · rw [List.getElem?_append_left hlt] at h
    exact Or.inl h
  · rw [List.getElem?_append_right (by omega)] at h
    obtain ⟨hn, hb⟩ := List.getElem?_eq_some_iff.mp h
    have hzero : n - l.length = 0 := by simpa using hn
    refine Or.inr ⟨by omega, ?_⟩
    simpa [hzero] using hb.symm

end Shozee.Run
