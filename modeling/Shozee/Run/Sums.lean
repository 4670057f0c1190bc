import Mathlib.Algebra.BigOperators.Group.List.Basic
import Shozee.Run.Grouping

/-!
# Sums over groups

Adding up group by group is adding up at once: over the groups of a list, over
the values that a key takes, and over two lists whose elements meet.
-/

namespace Shozee.Run

variable {α β κ μ : Type*} [AddCommMonoid μ]

theorem sum_map_flatMap (f : α → List β) (g : β → μ) (l : List α) :
    ((l.flatMap f).map g).sum = (l.map fun a => ((f a).map g).sum).sum := by
  induction l with
  | nil => rfl
  | cons a l ih =>
      rw [List.flatMap_cons, List.map_append, List.sum_append, ih,
        List.map_cons, List.sum_cons]

theorem sum_map_filter_cons (p : α → Bool) (f : α → μ) (a : α) (l : List α) :
    (((a :: l).filter p).map f).sum =
      (if p a = true then f a else 0) + ((l.filter p).map f).sum := by
  by_cases hp : p a = true
  · rw [List.filter_cons_of_pos hp, List.map_cons, List.sum_cons, if_pos hp]
  · rw [List.filter_cons_of_neg hp, if_neg hp, zero_add]

theorem sum_map_filter (p : α → Bool) (f : α → μ) (l : List α) :
    ((l.filter p).map f).sum =
      (l.map fun a => if p a = true then f a else 0).sum := by
  induction l with
  | nil => rfl
  | cons a l ih => rw [sum_map_filter_cons, ih, List.map_cons, List.sum_cons]

/-- One of distinct keys is that of the element. -/
theorem sum_map_ite_key [DecidableEq κ] {keys : List κ} (hnodup : keys.Nodup)
    {k : κ} (hmem : k ∈ keys) (x : μ) :
    (keys.map fun k' => if k = k' then x else 0).sum = x := by
  induction keys with
  | nil => exact absurd hmem List.not_mem_nil
  | cons k' keys ih =>
      obtain ⟨hhead, htail⟩ := List.nodup_cons.mp hnodup
      rw [List.map_cons, List.sum_cons]
      by_cases hk : k = k'
      · have hrest : (keys.map fun k' => if k = k' then x else 0) =
            keys.map fun _ => (0 : μ) := by
          refine List.map_congr_left fun other hother => if_neg ?_
          intro heq
          rw [← hk, heq] at hhead
          exact hhead hother
        rw [if_pos hk, hrest, List.map_const', List.sum_replicate, nsmul_zero,
          add_zero]
      · rw [if_neg hk, zero_add, ih htail (List.mem_of_ne_of_mem hk hmem)]

/-- The elements by the value of a key, and all of them. -/
theorem sum_filter_keys [DecidableEq κ] {keys : List κ} (key : α → κ)
    (f : α → μ) (hnodup : keys.Nodup) {l : List α}
    (hall : ∀ a ∈ l, key a ∈ keys) :
    (keys.map fun k => ((l.filter fun a => key a = k).map f).sum).sum =
      (l.map f).sum := by
  induction l with
  | nil =>
      change (keys.map fun _ => (0 : μ)).sum = 0
      rw [List.map_const', List.sum_replicate, nsmul_zero]
  | cons a l ih =>
      obtain ⟨hhead, htail⟩ := List.forall_mem_cons.mp hall
      simp only [sum_map_filter_cons, decide_eq_true_eq]
      rw [List.sum_map_add, sum_map_ite_key hnodup hhead, ih htail,
        List.map_cons, List.sum_cons]

/-- Two lists whose elements meet, from either side. -/
theorem sum_swap (p : α → β → Bool) (f : α → β → μ) (l : List α)
    (m : List β) :
    (l.map fun a => ((m.filter fun b => p a b).map fun b => f a b).sum).sum =
      (m.map fun b =>
        ((l.filter fun a => p a b).map fun a => f a b).sum).sum := by
  simp only [sum_map_filter]
  induction l with
  | nil =>
      change 0 = (m.map fun _ => (0 : μ)).sum
      rw [List.map_const', List.sum_replicate, nsmul_zero]
  | cons a l ih =>
      simp only [List.map_cons, List.sum_cons]
      rw [List.sum_map_add, ih]

namespace Group

/-- What a group is chosen by all its elements are. -/
theorem filter_flatMap {p : α → Bool} {groups : List (Group α)}
    (hsame : ∀ g ∈ groups, ∀ a ∈ g.items, p a = p g.first) :
    (groups.flatMap items).filter p =
      (groups.filter fun g => p g.first).flatMap items := by
  induction groups with
  | nil => rfl
  | cons g groups ih =>
      obtain ⟨hhead, htail⟩ := List.forall_mem_cons.mp hsame
      rw [List.flatMap_cons, List.filter_append, ih htail]
      by_cases hp : p g.first = true
      · have hitems : g.items.filter p = g.items := by
          rw [List.filter_eq_self]
          intro a ha
          rw [hhead a ha]
          exact hp
        rw [List.filter_cons, if_pos hp, List.flatMap_cons, hitems]
      · have hitems : g.items.filter p = [] := by
          rw [List.filter_eq_nil_iff]
          intro a ha
          rw [hhead a ha]
          exact hp
        rw [List.filter_cons, if_neg hp, hitems, List.nil_append]

/-- The groups with some of the keys have the elements with those keys. -/
theorem perm_filter [DecidableEq κ] {key : α → κ} {l : List α}
    {groups : List (Group α)} (hperm : groups.Perm (groupBy key l))
    (p : κ → Bool) :
    ((groups.filter fun g => p (key g.first)).flatMap items).Perm
      (l.filter fun a => p (key a)) := by
  have hgrouped := grouped_groupBy key l
  have hsame : ∀ g ∈ groups, ∀ a ∈ g.items, p (key a) = p (key g.first) := by
    intro g hg a ha
    rw [hgrouped.items g (hperm.mem_iff.mp hg), List.mem_filter,
      decide_eq_true_eq] at ha
    rw [ha.2]
  rw [← filter_flatMap hsame]
  exact ((hperm.flatMap_right items).trans (perm_groupBy key l)).filter _

end Group

end Shozee.Run
