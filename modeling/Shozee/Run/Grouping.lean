import Mathlib.Data.List.Basic
import Mathlib.Data.List.Nodup

/-!
# Groups in the order of their first members

A list is split into groups by a key, as a loop over a map that keeps its keys
in insertion order does it: each element goes to the group of its key, and
opens one if there is none. A group has a first element by construction.

`Grouped` says what the loop has built of the elements so far: one group for
each key, with all elements of that key, in their order.
-/

namespace Shozee.Run

variable {α κ : Type*}

/-- A group, never empty. -/
structure Group (α : Type*) where
  first : α
  rest : List α
deriving DecidableEq

namespace Group

/-- The items of a group, the first one in front. -/
def items (g : Group α) : List α := g.first :: g.rest

variable [DecidableEq κ] (key : α → κ)

/-- One round of the loop. -/
def push (a : α) : List (Group α) → List (Group α)
  | [] => [⟨a, []⟩]
  | g :: groups =>
      if key g.first = key a then { g with rest := g.rest ++ [a] } :: groups
      else g :: push a groups

/-- The groups of a list, in the order of their first items. -/
def groupBy (l : List α) : List (Group α) :=
  l.foldl (fun groups a => push key a groups) []

/-- The groups of the elements `l`. -/
structure Grouped (l : List α) (groups : List (Group α)) : Prop where
  nodup : (groups.map fun g => key g.first).Nodup
  items : ∀ g ∈ groups, g.items = l.filter fun a => key a = key g.first
  found : ∀ a ∈ l, ∃ g ∈ groups, key g.first = key a

/-- Who the groups are about after one more element. -/
theorem keys_push (a : α) (groups : List (Group α)) :
    (push key a groups).map (fun g => key g.first) =
      if key a ∈ groups.map (fun g => key g.first) then
        groups.map fun g => key g.first
      else groups.map (fun g => key g.first) ++ [key a] := by
  induction groups with
  | nil => rfl
  | cons g groups ih =>
      unfold push
      by_cases hkey : key g.first = key a
      · rw [if_pos hkey, if_pos (List.mem_map.mpr ⟨g, List.mem_cons_self, hkey⟩)]
        rfl
      · rw [if_neg hkey, List.map_cons, ih]
        simp only [List.map_cons, List.mem_cons, Ne.symm hkey, false_or]
        split
        · rfl
        · rfl

variable {key}

/-- Each group after one more element: its own took the element in, or was
opened for it, and the others are as they were. -/
theorem mem_push {a : α} {groups : List (Group α)} {g : Group α}
    (hnodup : (groups.map fun g => key g.first).Nodup)
    (h : g ∈ push key a groups) :
    (g ∈ groups ∧ key g.first ≠ key a) ∨
      (∃ g' ∈ groups, key g'.first = key a ∧
        g = { g' with rest := g'.rest ++ [a] }) ∨
      g = ⟨a, []⟩ ∧ key a ∉ groups.map fun g => key g.first := by
  induction groups with
  | nil =>
      refine Or.inr (Or.inr ⟨List.mem_singleton.mp h, ?_⟩)
      exact List.not_mem_nil
  | cons g₀ groups ih =>
      obtain ⟨hhead, htail⟩ := List.nodup_cons.mp hnodup
      unfold push at h
      by_cases hkey : key g₀.first = key a
      · rw [if_pos hkey] at h
        rcases List.mem_cons.mp h with rfl | h
        · exact Or.inr (Or.inl ⟨g₀, List.mem_cons_self, hkey, rfl⟩)
        · refine Or.inl ⟨List.mem_cons_of_mem _ h, fun hsame => hhead ?_⟩
          exact List.mem_map.mpr ⟨g, h, hsame.trans hkey.symm⟩
      · rw [if_neg hkey] at h
        rcases List.mem_cons.mp h with rfl | h
        · exact Or.inl ⟨List.mem_cons_self, hkey⟩
        · rcases ih htail h with ⟨hmem, hne⟩ | ⟨g', hmem, hrest⟩ | ⟨rfl, hnew⟩
          · exact Or.inl ⟨List.mem_cons_of_mem _ hmem, hne⟩
          · exact Or.inr (Or.inl ⟨g', List.mem_cons_of_mem _ hmem, hrest⟩)
          · refine Or.inr (Or.inr ⟨rfl, ?_⟩)
            rw [List.map_cons, List.mem_cons, not_or]
            exact ⟨Ne.symm hkey, hnew⟩

theorem Grouped.push {l : List α} {groups : List (Group α)}
    (h : Grouped key l groups) (a : α) :
    Grouped key (l ++ [a]) (Group.push key a groups) := by
  have hkeys := keys_push key a groups
  refine ⟨?_, ?_, ?_⟩
  · rw [hkeys]
    split
    · exact h.nodup
    · rename_i hnew
      rw [List.nodup_append]
      refine ⟨h.nodup, List.nodup_singleton _, ?_⟩
      intro k hk k' hk' heq
      rw [List.mem_singleton.mp hk'] at heq
      exact hnew (heq ▸ hk)
  · intro g hg
    rw [List.filter_append]
    rcases mem_push h.nodup hg with ⟨hmem, hne⟩ | ⟨g', hmem, hkey, rfl⟩ |
        ⟨rfl, hnew⟩
    · rw [h.items g hmem]
      simp [Ne.symm hne]
    · show g'.items ++ [a] = _
      rw [h.items g' hmem]
      simp [hkey]
    · have hnone : (l.filter fun b => key b = key a) = [] := by
        rw [List.filter_eq_nil_iff]
        intro b hb hsame
        obtain ⟨g, hmem, hkey⟩ := h.found b hb
        exact hnew (List.mem_map.mpr
          ⟨g, hmem, hkey.trans (of_decide_eq_true hsame)⟩)
      rw [hnone]
      simp [Group.items]
  · intro b hb
    have hin : key b ∈ (Group.push key a groups).map fun g => key g.first := by
      rw [hkeys]
      rcases List.mem_append.mp hb with hb | hb
      · obtain ⟨g, hmem, hkey⟩ := h.found b hb
        have hold : key b ∈ groups.map fun g => key g.first :=
          List.mem_map.mpr ⟨g, hmem, hkey⟩
        split
        · exact hold
        · exact List.mem_append_left _ hold
      · rw [List.mem_singleton.mp hb]
        split
        · assumption
        · exact List.mem_append_right _ List.mem_cons_self
    obtain ⟨g, hmem, hkey⟩ := List.mem_map.mp hin
    exact ⟨g, hmem, hkey⟩

/-- The loop groups everything it went over. -/
theorem grouped_groupBy (key : α → κ) (l : List α) :
    Grouped key l (groupBy key l) := by
  have hloop : ∀ (l done : List α) (groups : List (Group α)),
      Grouped key done groups → Grouped key (done ++ l)
        (l.foldl (fun groups a => Group.push key a groups) groups) := by
    intro l
    induction l with
    | nil =>
        intro done groups h
        rw [List.append_nil]
        exact h
    | cons a l ih =>
        intro done groups h
        have hnext := ih (done ++ [a]) _ (h.push a)
        rwa [List.append_assoc] at hnext
  exact hloop l [] [] ⟨List.nodup_nil, nofun, nofun⟩

/-- The groups have all the elements between them. -/
theorem perm_groupBy (key : α → κ) (l : List α) :
    ((groupBy key l).flatMap items).Perm l := by
  have hpush : ∀ (a : α) (groups : List (Group α)),
      ((Group.push key a groups).flatMap items).Perm
        (groups.flatMap items ++ [a]) := by
    intro a groups
    induction groups with
    | nil => exact List.Perm.refl _
    | cons g groups ih =>
        unfold Group.push
        by_cases hkey : key g.first = key a
        · rw [if_pos hkey, List.flatMap_cons, List.flatMap_cons,
            List.append_assoc]
          change (((g.items ++ [a]) ++ groups.flatMap items)).Perm _
          rw [List.append_assoc]
          exact List.perm_append_comm.append_left g.items
        · rw [if_neg hkey, List.flatMap_cons, List.flatMap_cons,
            List.append_assoc]
          exact ih.append_left g.items
  have hloop : ∀ (l : List α) (groups : List (Group α)),
      ((l.foldl (fun groups a => Group.push key a groups) groups).flatMap
        items).Perm (groups.flatMap items ++ l) := by
    intro l
    induction l with
    | nil =>
        intro groups
        rw [List.append_nil]
        exact List.Perm.refl _
    | cons a l ih =>
        intro groups
        refine (ih (Group.push key a groups)).trans ?_
        rw [List.append_cons]
        exact (hpush a groups).append_right l
  exact hloop l []

end Group

/-! ## Maps that keep the order of their keys

A loop that updates a map key by key comes to what grouping first and folding
each group would. -/

section Upsert

variable {β : Type*} [DecidableEq κ]

/-- Puts at a key what comes of what was there; a new key comes last. -/
def upsert (k : κ) (f : Option β → β) : List (κ × β) → List (κ × β)
  | [] => [(k, f none)]
  | (k', b) :: entries =>
      if k' = k then (k', f (some b)) :: entries
      else (k', b) :: upsert k f entries

/-- A loop that adds each element to what is at its key. -/
def collect (key : α → κ) (fresh : α → β) (add : β → α → β) (l : List α) :
    List (κ × β) :=
  l.foldl (fun entries a =>
    upsert (key a) (fun b => add (b.getD (fresh a)) a) entries) []

/-- What the loop leaves at a key is what its group adds up to. -/
theorem collect_eq_groupBy (key : α → κ) (fresh : α → β) (add : β → α → β)
    (l : List α) :
    collect key fresh add l = (Group.groupBy key l).map fun g =>
      (key g.first, g.items.foldl add (fresh g.first)) := by
  have hpush : ∀ (a : α) (groups : List (Group α)),
      upsert (key a) (fun b => add (b.getD (fresh a)) a)
          (groups.map fun g =>
            (key g.first, g.items.foldl add (fresh g.first))) =
        (Group.push key a groups).map fun g =>
          (key g.first, g.items.foldl add (fresh g.first)) := by
    intro a groups
    induction groups with
    | nil => rfl
    | cons g groups ih =>
        rw [List.map_cons]
        unfold upsert Group.push
        by_cases hkey : key g.first = key a
        · rw [if_pos hkey, if_pos hkey, List.map_cons]
          refine congrArg (· :: _) (Prod.ext rfl ?_)
          change add (g.items.foldl add (fresh g.first)) a =
            (g.items ++ [a]).foldl add (fresh g.first)
          rw [List.foldl_append]
          rfl
        · rw [if_neg hkey, if_neg hkey, List.map_cons, ih]
  have hloop : ∀ (l : List α) (groups : List (Group α)),
      l.foldl (fun entries a =>
          upsert (key a) (fun b => add (b.getD (fresh a)) a) entries)
          (groups.map fun g =>
            (key g.first, g.items.foldl add (fresh g.first))) =
        (l.foldl (fun groups a => Group.push key a groups) groups).map
          fun g => (key g.first, g.items.foldl add (fresh g.first)) := by
    intro l
    induction l with
    | nil => exact fun _ => rfl
    | cons a l ih =>
        intro groups
        rw [List.foldl_cons, List.foldl_cons, hpush, ih]
  exact hloop l []

end Upsert

/-! ## The last element at each key

A map that is set again and again keeps the last value of each key, at the
place of the first. -/

section Last

variable {κ' : Type*} [DecidableEq κ] [DecidableEq κ'] (key : α → κ)

/-- The last element with a key. -/
def lastAt (l : List α) (k : κ) : Option α :=
  l.reverse.find? fun a => key a = k

/-- What a map is left with when each element is put at its key: the values, in
the order in which the keys came. -/
def lastOnes (l : List α) : List α :=
  (l.foldl (fun entries a => upsert (key a) (fun _ => a) entries) []).map
    Prod.snd

variable {key}

theorem lastAt_nil (k : κ) : lastAt key [] k = none := rfl

theorem lastAt_cons (a : α) (l : List α) (k : κ) :
    lastAt key (a :: l) k =
      (lastAt key l k).or (if key a = k then some a else none) := by
  unfold lastAt
  rw [List.reverse_cons, List.find?_append, List.find?_singleton]
  by_cases h : key a = k
  · rw [if_pos h, if_pos (decide_eq_true h)]
  · rw [if_neg h, if_neg (by rwa [decide_eq_true_eq])]

theorem lastAt_congr {key' : α → κ'} {l : List α} {k : κ} {k' : κ'}
    (h : ∀ a ∈ l, key a = k ↔ key' a = k') :
    lastAt key l k = lastAt key' l k' := by
  induction l with
  | nil => rfl
  | cons a l ih =>
      rw [lastAt_cons, lastAt_cons, ih fun b hb =>
        h b (List.mem_cons_of_mem a hb)]
      simp only [h a List.mem_cons_self]

theorem lastAt_key {l : List α} {k : κ} {a : α} (h : lastAt key l k = some a) :
    a ∈ l ∧ key a = k := by
  unfold lastAt at h
  have hkey := List.find?_some h
  rw [decide_eq_true_eq] at hkey
  exact ⟨List.mem_reverse.mp (List.mem_of_find?_eq_some h), hkey⟩

theorem exists_lastAt {l : List α} {a : α} (h : a ∈ l) :
    ∃ b, lastAt key l (key a) = some b := by
  rw [← Option.isSome_iff_exists]
  unfold lastAt
  rw [List.find?_isSome]
  exact ⟨a, List.mem_reverse.mpr h, decide_eq_true rfl⟩

theorem items_ne_nil (g : Group α) : g.items ≠ [] := List.cons_ne_nil _ _

theorem lastOnes_eq_groupBy (l : List α) :
    lastOnes key l = (Group.groupBy key l).map fun g =>
      g.items.getLast (items_ne_nil g) := by
  have hcollect := collect_eq_groupBy key id (fun _ a => a) l
  unfold collect at hcollect
  unfold lastOnes
  rw [hcollect, List.map_map]
  refine List.map_congr_left fun g _ => ?_
  have hlast : ∀ (rest : List α) (a : α),
      rest.foldl (fun _ b => b) a = (a :: rest).getLast (by simp) := by
    intro rest
    induction rest with
    | nil => exact fun a => rfl
    | cons b rest ih =>
        intro a
        rw [List.foldl_cons, ih, List.getLast_cons_cons]
  exact hlast g.rest g.first

theorem getLast_group {l : List α} {g : Group α}
    (hg : g ∈ Group.groupBy key l) :
    lastAt key l (key g.first) =
      some (g.items.getLast (items_ne_nil g)) := by
  have hitems := (Group.grouped_groupBy key l).items g hg
  rw [← List.getLast?_eq_some_getLast, hitems, List.getLast?_filter]
  rfl

theorem nodup_lastOnes (l : List α) : ((lastOnes key l).map key).Nodup := by
  have hkeys : (lastOnes key l).map key =
      (Group.groupBy key l).map fun g => key g.first := by
    rw [lastOnes_eq_groupBy, List.map_map]
    refine List.map_congr_left fun g hg => ?_
    exact (lastAt_key (getLast_group hg)).2
  rw [hkeys]
  exact (Group.grouped_groupBy key l).nodup

/-- The map is left with the last element at each key. -/
theorem mem_lastOnes {l : List α} {a : α} :
    a ∈ lastOnes key l ↔ lastAt key l (key a) = some a := by
  rw [lastOnes_eq_groupBy, List.mem_map]
  constructor
  · intro ⟨g, hg, ha⟩
    have hlast := getLast_group hg
    rw [ha] at hlast
    rw [(lastAt_key hlast).2]
    exact hlast
  · intro ha
    obtain ⟨g, hg, hkey⟩ :=
      (Group.grouped_groupBy key l).found a (lastAt_key ha).1
    refine ⟨g, hg, ?_⟩
    have hlast := getLast_group hg
    rw [hkey, ha, Option.some.injEq] at hlast
    exact hlast.symm

end Last

end Shozee.Run
