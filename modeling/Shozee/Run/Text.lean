import Mathlib.Data.List.DropRight
import Mathlib.Data.List.Infix

/-!
# Texts

What the services do with texts, a character at a time.

A text of words with one separator between them has these words between its
separators (`splitOnP_intercalate`), and it is cut in two between any
two of them (`intercalate_append`). Joining words in groups and then the groups
that are not empty joins all the words (`intercalate_groups`).
-/

namespace Shozee.Run

/-- The characters of `\s`, which `trim` takes off. -/
def isWhiteSpace (c : Char) : Bool :=
  (9 ≤ c.toNat && c.toNat ≤ 13) || (8192 ≤ c.toNat && c.toNat ≤ 8202) ||
    c.toNat ∈ [32, 160, 5760, 8232, 8233, 8239, 8287, 12288, 65279]

/-- `text.split(/\s+/).filter(Boolean)`. -/
def splitWords (text : String) : List String :=
  ((text.toList.splitOnP isWhiteSpace).filter (· ≠ [])).map String.ofList

/-- `String.prototype.includes`. -/
def includes (text part : String) : Bool :=
  decide (part.toList <:+: text.toList)

/-- `String.prototype.startsWith`. -/
def startsWith (text start : String) : Bool :=
  decide (start.toList <+: text.toList)

/-- `String.prototype.endsWith`. -/
def endsWith (text ending : String) : Bool :=
  decide (ending.toList <:+ text.toList)

/-! ## Words between separators

Splitting and joining, and what can be said of the words when some of them are
empty. -/

section Words

variable {α : Type*} {p : α → Bool}

/-- Words without the separators around them. -/
theorem dropWhile_framed {left words right : List α} (hne : words ≠ [])
    (hwords : ∀ a ∈ words, p a = false) (hleft : ∀ a ∈ left, p a = true)
    (hright : ∀ a ∈ right, p a = true) :
    ((left ++ words ++ right).dropWhile p).rdropWhile p = words := by
  have hdrop : ∀ {left words : List α} (rest : List α), words ≠ [] →
      (∀ a ∈ words, p a = false) → (∀ a ∈ left, p a = true) →
      (left ++ (words ++ rest)).dropWhile p = words ++ rest := by
    intro left words rest hne hwords hleft
    obtain ⟨a, words, rfl⟩ := List.exists_cons_of_ne_nil hne
    rw [List.dropWhile_append_of_pos hleft, List.cons_append,
      List.dropWhile_cons, hwords a List.mem_cons_self,
      if_neg Bool.false_ne_true]
  rw [List.append_assoc, hdrop right hne hwords hleft, List.rdropWhile,
    List.reverse_append]
  have hback := hdrop [] (mt List.reverse_eq_nil_iff.mp hne)
    (fun a ha => hwords a (List.mem_reverse.mp ha))
    (fun a ha => hright a (List.mem_reverse.mp ha))
  rw [List.append_nil] at hback
  rw [hback, List.reverse_reverse]

/-- What stands between separators has none of them in it. -/
theorem of_mem_splitOnP {xs part : List α} (h : part ∈ xs.splitOnP p) {x : α}
    (hx : x ∈ part) : p x = false := by
  induction xs generalizing part with
  | nil =>
      rw [List.splitOnP_nil, List.mem_singleton] at h
      rw [h] at hx
      exact absurd hx List.not_mem_nil
  | cons y xs ih =>
      rw [List.splitOnP_cons_eq_if_modifyHead] at h
      by_cases hy : p y = true
      · rw [if_pos hy] at h
        rcases List.mem_cons.mp h with rfl | h
        · exact absurd hx List.not_mem_nil
        · exact ih h hx
      · rw [if_neg hy] at h
        obtain ⟨first, parts, hparts⟩ :=
          List.exists_cons_of_ne_nil (List.splitOnP_ne_nil p xs)
        rw [hparts] at h ih
        rcases List.mem_cons.mp h with rfl | h
        · rcases List.mem_cons.mp hx with rfl | hx
          · exact eq_false_of_ne_true hy
          · exact ih List.mem_cons_self hx
        · exact ih (List.mem_cons_of_mem first h) hx

/-- All that stands between separators. -/
theorem flatten_splitOnP (xs : List α) :
    (xs.splitOnP p).flatten = xs.filter fun x => !p x := by
  induction xs with
  | nil => rfl
  | cons x xs ih =>
      rw [List.splitOnP_cons_eq_if_modifyHead]
      by_cases hx : p x = true
      · rw [if_pos hx, List.flatten_cons, ih, List.nil_append,
          List.filter_cons_of_neg (by simpa using hx)]
      · obtain ⟨first, parts, hparts⟩ :=
          List.exists_cons_of_ne_nil (List.splitOnP_ne_nil p xs)
        rw [hparts, List.flatten_cons] at ih
        rw [if_neg hx, hparts, List.modifyHead_cons, List.flatten_cons,
          List.cons_append, ih, List.filter_cons_of_pos (by simpa using hx)]

theorem filter_intercalate {sep : List α} (hsep : ∀ x ∈ sep, p x = false)
    (words : List (List α)) :
    (sep.intercalate words).filter p = words.flatten.filter p := by
  have hnone : sep.filter p = [] :=
    List.filter_eq_nil_iff.mpr fun x hx => by
      rw [hsep x hx]
      exact Bool.false_ne_true
  induction words with
  | nil => rfl
  | cons word rest ih =>
      by_cases hrest : rest = []
      · rw [hrest, List.intercalate_singleton, List.flatten_singleton]
      · rw [List.intercalate_cons_of_ne_nil hrest, List.filter_append,
          List.filter_append, hnone, List.append_nil, ih, List.flatten_cons,
          List.filter_append]

theorem intercalate_append (sep : List α) {xs ys : List (List α)}
    (hxs : xs ≠ []) (hys : ys ≠ []) :
    sep.intercalate (xs ++ ys) =
      sep.intercalate xs ++ sep ++ sep.intercalate ys := by
  induction xs with
  | nil => exact absurd rfl hxs
  | cons x xs ih =>
      cases xs with
      | nil => simp [List.intercalate_cons_of_ne_nil hys]
      | cons x' xs =>
          rw [List.cons_append, List.cons_append,
            List.intercalate_cons_cons, ← List.cons_append,
            ih (List.cons_ne_nil x' xs), List.intercalate_cons_cons]
          simp only [List.append_assoc]

theorem mem_intercalate {sep : List α} {words : List (List α)} {x : α}
    (h : x ∈ sep.intercalate words) : x ∈ sep ∨ ∃ word ∈ words, x ∈ word := by
  induction words with
  | nil => exact absurd h List.not_mem_nil
  | cons word rest ih =>
      by_cases hrest : rest = []
      · rw [hrest, List.intercalate_singleton] at h
        exact Or.inr ⟨word, List.mem_cons_self, h⟩
      · rw [List.intercalate_cons_of_ne_nil hrest] at h
        rcases List.mem_append.mp h with h | h
        · rcases List.mem_append.mp h with h | h
          · exact Or.inr ⟨word, List.mem_cons_self, h⟩
          · exact Or.inl h
        · rcases ih h with h | ⟨other, hother, h⟩
          · exact Or.inl h
          · exact Or.inr ⟨other, List.mem_cons_of_mem word hother, h⟩

theorem intercalate_eq_nil {sep : List α} {words : List (List α)}
    (h : ∀ word ∈ words, word ≠ []) :
    sep.intercalate words = [] ↔ words = [] := by
  refine ⟨fun hnil => ?_, fun hnil => hnil ▸ rfl⟩
  cases words with
  | nil => rfl
  | cons word rest =>
      have hword := h word List.mem_cons_self
      cases rest with
      | nil =>
          rw [List.intercalate_singleton] at hnil
          exact absurd hnil hword
      | cons next rest =>
          rw [List.intercalate_cons_cons, List.append_assoc] at hnil
          exact absurd (List.append_eq_nil_iff.mp hnil).1 hword

theorem intercalate_groups (sep : List α) (groups : List (List (List α)))
    (h : ∀ group ∈ groups, ∀ word ∈ group, word ≠ []) :
    sep.intercalate ((groups.map sep.intercalate).filter fun chunk =>
      0 < chunk.length) = sep.intercalate groups.flatten := by
  induction groups with
  | nil => rfl
  | cons group groups ih =>
      have hgroup := h group List.mem_cons_self
      have hgroups : ∀ g ∈ groups, ∀ word ∈ g, word ≠ [] :=
        fun g hg => h g (List.mem_cons_of_mem _ hg)
      rw [List.map_cons, List.flatten_cons, ← List.singleton_append,
        List.filter_append]
      by_cases hnil : group = []
      · subst hnil
        exact ih hgroups
      · have hchunk : sep.intercalate group ≠ [] :=
          mt (intercalate_eq_nil hgroup).mp hnil
        have hkeep := decide_eq_true (List.length_pos_iff.mpr hchunk)
        rw [List.filter_cons, if_pos hkeep, List.filter_nil]
        by_cases hflat : groups.flatten = []
        · have hrest := ih hgroups
          rw [hflat, List.intercalate_nil] at hrest
          rw [hflat, List.append_nil, (intercalate_eq_nil ?_).mp hrest,
            List.append_nil, List.intercalate_singleton]
          intro chunk hmem
          have hlen := of_decide_eq_true (List.mem_filter.mp hmem).2
          exact List.length_pos_iff.mp hlen
        · have hwords : ∀ word ∈ groups.flatten, word ≠ [] := by
            intro word hmem
            obtain ⟨g, hg, hword⟩ := List.mem_flatten.mp hmem
            exact hgroups g hg word hword
          have hrest := ih hgroups
          rw [intercalate_append _ (List.cons_ne_nil _ _) ?_, hrest,
            List.intercalate_singleton, intercalate_append _ hnil hflat]
          intro hfilter
          rw [hfilter, List.intercalate_nil] at hrest
          exact hflat ((intercalate_eq_nil hwords).mp hrest.symm)

/-- Words with one separator between them are the words of the whole. -/
theorem splitOnP_intercalate {sep : α} (hsep : p sep = true)
    {words : List (List α)} (hne : words ≠ [])
    (h : ∀ word ∈ words, ∀ x ∈ word, p x = false) :
    ([sep].intercalate words).splitOnP p = words := by
  induction words with
  | nil => exact absurd rfl hne
  | cons word words ih =>
      have hword := h word List.mem_cons_self
      cases words with
      | nil =>
          rw [List.intercalate_singleton, List.splitOnP_eq_singleton hword]
      | cons word' words =>
          have ih := ih (List.cons_ne_nil word' words) fun word hmem =>
            h word (List.mem_cons_of_mem _ hmem)
          rw [List.intercalate_cons_cons, List.append_assoc,
            List.singleton_append,
            List.splitOnP_append_cons_of_forall_mem hword sep hsep, ih]

end Words

end Shozee.Run
