import Mathlib.Data.List.Basic

/-!
# Windows of a sorted list

A store sorts its rows and answers with the first of them. Who asked turns
these into what is shown and sorts again, by an order of its own.

Where the two orders agree on the rows, this is the beginning of everything
sorted (`page_of_window`). And a row before which there are few is in the
window, whatever else there is (`mem_window`).
-/

namespace Shozee.Run

/-- A comparator that a list can be sorted by. -/
structure Sorts {α : Type*} (le : α → α → Bool) : Prop where
  trans : ∀ a b c, le a b = true → le b c = true → le a c = true
  total : ∀ a b, (le a b || le b a) = true

/-- The first rows in an order. -/
def window {α : Type*} (le : α → α → Bool) (n : ℕ) (rows : List α) : List α :=
  (rows.mergeSort le).take n

section Window

variable {α β : Type*} {le : α → α → Bool} {rows : List α}

theorem mem_of_mem_window {n : ℕ} {row : α} (h : row ∈ window le n rows) :
    row ∈ rows :=
  (List.mergeSort_perm rows le).mem_iff.mp (List.mem_of_mem_take h)

theorem length_window (n : ℕ) :
    (window le n rows).length = min n rows.length := by
  unfold window
  rw [List.length_take, (List.mergeSort_perm rows le).length_eq]

/-- What tells the rows apart tells those of the window apart. -/
theorem nodup_map_window {f : α → β} {n : ℕ} (h : (rows.map f).Nodup) :
    ((window le n rows).map f).Nodup :=
  (((List.mergeSort_perm rows le).map f).nodup_iff.mpr h).sublist
    ((List.take_sublist n _).map f)

theorem pairwise_window (hle : Sorts le) (n : ℕ) :
    (window le n rows).Pairwise fun a b => le a b = true :=
  (List.pairwise_mergeSort hle.trans hle.total rows).sublist
    (List.take_sublist n _)

/-- A window is in order already. -/
theorem mergeSort_window (hle : Sorts le) (n : ℕ) :
    (window le n rows).mergeSort le = window le n rows :=
  List.mergeSort_of_pairwise (pairwise_window hle n)

theorem map_window {le' : β → β → Bool} {f : α → β}
    (hagree : ∀ a ∈ rows, ∀ b ∈ rows, le a b = le' (f a) (f b)) (n : ℕ) :
    (window le n rows).map f = window le' n (rows.map f) := by
  unfold window
  rw [List.map_take, List.map_mergeSort hagree]

/-- The first of a window are the first of all. -/
theorem page_of_window {le' : β → β → Bool} {f : α → β} (hle' : Sorts le')
    (hagree : ∀ a ∈ rows, ∀ b ∈ rows, le a b = le' (f a) (f b)) {k n : ℕ}
    (hkn : k ≤ n) :
    (((window le n rows).map f).mergeSort le').take k =
      window le' k (rows.map f) := by
  rw [map_window hagree, mergeSort_window hle']
  unfold window
  rw [List.take_take, Nat.min_eq_left hkn]

/-- A row is in the window when no more than its length come up to it. -/
theorem mem_window (hle : Sorts le) {n : ℕ} {row : α} (hrow : row ∈ rows)
    (hfew : rows.countP (fun other => le other row) ≤ n) :
    row ∈ window le n rows := by
  have hperm := List.mergeSort_perm rows le
  have hsorted := List.pairwise_mergeSort hle.trans hle.total rows
  rw [← hperm.countP_eq] at hfew
  have hmem := hperm.mem_iff.mpr hrow
  unfold window
  generalize rows.mergeSort le = sorted at hfew hsorted hmem ⊢
  rw [← List.take_append_drop n sorted] at hfew hsorted hmem
  rcases List.mem_append.mp hmem with htake | hdrop
  · exact htake
  -- Behind the window, all of the window comes before it, and it does itself.
  · obtain ⟨_, _, hbefore⟩ := List.pairwise_append.mp hsorted
    have hall : (sorted.take n).countP (fun other => le other row) =
        (sorted.take n).length :=
      List.countP_eq_length.mpr fun other hother => hbefore other hother row
        hdrop
    have hself : 0 < (sorted.drop n).countP (fun other => le other row) :=
      List.countP_pos_iff.mpr ⟨row, hdrop, by
        simpa using hle.total row row⟩
    have hlong : n < sorted.length := by
      have := List.length_pos_of_mem hdrop
      rw [List.length_drop] at this
      omega
    rw [List.countP_append, hall, List.length_take,
      Nat.min_eq_left (Nat.le_of_lt hlong)] at hfew
    omega

end Window

end Shozee.Run
