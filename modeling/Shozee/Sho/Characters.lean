import Mathlib.Data.List.Chain
import Shozee.Sho.Tokenizer

/-!
# Characters of a text

The characters follow one another and cover the text; the `SPACE` before a
text without one is at the place of the first of them (`charsOf_pairwise`,
`charsOf_covers`). The pieces are the characters, cut (`pieces_flatten`), and
what a piece was written with can be told from its text: no character ends with
half of a pair whose other half begins the next one (`pieces_legible`,
`map_char_eq`).
-/

namespace Shozee.Sho.Tokenizer

open Shozee.Run

/-! ## Characters

The items of a text are in order and without gaps. Only the added `SPACE` is at
a place that another item has too. -/

/-- One item begins and ends no later than the other. -/
def Before (item other : Item) : Prop :=
  item.start ≤ other.start ∧ item.stop ≤ other.stop

/-- The item is of the text from `low` to `high`. -/
def Within (low high : ℕ) (item : Item) : Prop :=
  low ≤ item.start ∧ item.start < item.stop ∧ item.stop ≤ high

theorem Within.mono {low low' high high' : ℕ} {item : Item}
    (h : Within low high item) (hlow : low' ≤ low) (hhigh : high ≤ high') :
    Within low' high' item :=
  ⟨Nat.le_trans hlow h.1, h.2.1, Nat.le_trans h.2.2 hhigh⟩

theorem itemsFrom_within (index : ℕ) (text : CodeUnits) :
    ∀ item ∈ itemsFrom index text,
      Within index (index + text.length) item := by
  fun_induction itemsFrom index text with
  | case1 index => exact fun _ h => absurd h List.not_mem_nil
  | case2 index unit =>
      intro item hmem
      rw [List.mem_singleton.mp hmem]
      exact ⟨Nat.le_refl _, Nat.lt_succ_self _, Nat.le_refl _⟩
  | case3 index unit next rest hpair ih =>
      intro item hmem
      rcases List.mem_cons.mp hmem with rfl | hmem
      · exact ⟨Nat.le_refl _, by simp, by simp⟩
      · exact (ih item hmem).mono (Nat.le_add_right _ _) (by simp; omega)
  | case4 index unit next rest hpair ih =>
      intro item hmem
      rcases List.mem_cons.mp hmem with rfl | hmem
      · exact ⟨Nat.le_refl _, by simp, by simp⟩
      · exact (ih item hmem).mono (Nat.le_succ _) (by simp; omega)

theorem itemsFrom_pairwise (index : ℕ) (text : CodeUnits) :
    (itemsFrom index text).Pairwise fun item other =>
      item.stop ≤ other.start := by
  fun_induction itemsFrom index text with
  | case1 index => exact .nil
  | case2 index unit => exact List.pairwise_singleton _ _
  | case3 index unit next rest hpair ih =>
      exact .cons (fun item hmem => (itemsFrom_within _ _ item hmem).1) ih
  | case4 index unit next rest hpair ih =>
      exact .cons (fun item hmem => (itemsFrom_within _ _ item hmem).1) ih

theorem itemsFrom_covers (index : ℕ) (text : CodeUnits) {k : ℕ}
    (hlow : index ≤ k) (hhigh : k < index + text.length) :
    ∃ item ∈ itemsFrom index text, item.start ≤ k ∧ k < item.stop := by
  fun_induction itemsFrom index text with
  | case1 index => exact absurd hhigh (Nat.not_lt.mpr hlow)
  | case2 index unit => exact ⟨_, List.mem_cons_self, hlow, hhigh⟩
  | case3 index unit next rest hpair ih =>
      by_cases hk : k < index + 2
      · exact ⟨_, List.mem_cons_self, hlow, hk⟩
      · obtain ⟨item, hmem, hitem⟩ := ih (Nat.le_of_not_lt hk) (by
          simp only [List.length_cons] at hhigh
          omega)
        exact ⟨item, List.mem_cons_of_mem _ hmem, hitem⟩
  | case4 index unit next rest hpair ih =>
      by_cases hk : k < index + 1
      · exact ⟨_, List.mem_cons_self, hlow, hk⟩
      · obtain ⟨item, hmem, hitem⟩ := ih (Nat.le_of_not_lt hk) (by
          simp only [List.length_cons] at hhigh ⊢
          omega)
        exact ⟨item, List.mem_cons_of_mem _ hmem, hitem⟩

/-- No item ends before the first one does. -/
theorem itemsFrom_first (index : ℕ) (text : CodeUnits) :
    ∀ item ∈ itemsFrom index text,
      index + firstCharLength text ≤ item.stop := by
  intro item hmem
  have hlater : ∀ first rest, itemsFrom index text = first :: rest →
      first.stop = index + firstCharLength text →
      index + firstCharLength text ≤ item.stop := by
    intro first rest heq hfirst
    have hpairs := itemsFrom_pairwise index text
    have hwithin := (itemsFrom_within index text item hmem).2.1
    rw [heq] at hmem hpairs
    rcases List.mem_cons.mp hmem with rfl | hmem
    · exact Nat.le_of_eq hfirst.symm
    · have hle := (List.pairwise_cons.mp hpairs).1 item hmem
      omega
  match text with
  | [] => exact absurd hmem List.not_mem_nil
  | [unit] => exact hlater _ _ rfl rfl
  | unit :: next :: rest =>
      cases hpair : isHighSurrogate unit && isLowSurrogate next with
      | true => 
          refine hlater _ _ (by rw [itemsFrom, if_pos hpair]) ?_
          simp [firstCharLength, hpair]
      | false =>
          refine hlater _ _ (by rw [itemsFrom, if_neg (by simp [hpair])]) ?_
          simp [firstCharLength, hpair]

theorem firstCharLength_pos {text : CodeUnits} (h : text ≠ []) :
    0 < firstCharLength text := by
  unfold firstCharLength
  split
  · exact absurd rfl h
  · exact Nat.one_pos
  · split
    · exact Nat.two_pos
    · exact Nat.one_pos

theorem firstCharLength_le (text : CodeUnits) :
    firstCharLength text ≤ text.length := by
  unfold firstCharLength
  split
  · exact Nat.le_refl 0
  · exact Nat.le_refl 1
  · split <;> simp

theorem charsOf_within (text : CodeUnits) :
    ∀ item ∈ charsOf text, Within 0 text.length item := by
  intro item hmem
  rcases List.mem_append.mp hmem with hmem | hmem
  · split at hmem
    next hfirst =>
      rw [List.mem_singleton.mp hmem]
      exact ⟨Nat.le_refl 0, firstCharLength_pos hfirst.1,
        firstCharLength_le text⟩
    next => exact absurd hmem List.not_mem_nil
  · have hwithin := itemsFrom_within 0 text item hmem
    rw [Nat.zero_add] at hwithin
    exact hwithin

theorem charsOf_pairwise (text : CodeUnits) :
    (charsOf text).Pairwise Before := by
  have hitems : (itemsFrom 0 text).Pairwise Before := by
    refine (itemsFrom_pairwise 0 text).imp_of_mem ?_
    intro item other hmem hmem' hle
    have hitem := (itemsFrom_within 0 text item hmem).2.1
    have hother := (itemsFrom_within 0 text other hmem').2.1
    exact ⟨by omega, by omega⟩
  unfold charsOf
  split
  · refine .cons (fun item hmem => ⟨Nat.zero_le _, ?_⟩) hitems
    have hstop := itemsFrom_first 0 text item hmem
    rw [Nat.zero_add] at hstop
    exact hstop
  · exact hitems

theorem charsOf_covers {text : CodeUnits} {k : ℕ} (h : k < text.length) :
    ∃ item ∈ charsOf text, item.start ≤ k ∧ k < item.stop := by
  have hhigh : k < 0 + text.length := by rw [Nat.zero_add]; exact h
  obtain ⟨item, hmem, hitem⟩ := itemsFrom_covers 0 text (Nat.zero_le k) hhigh
  exact ⟨item, List.mem_append_right _ hmem, hitem⟩

/-! ## Pieces

A round of the loop puts a character at the end of a piece or begins a new one.
-/

theorem pushItem_flatten (pieces : List (List Item)) (item : Item) :
    (pushItem pieces item).flatten = pieces.flatten ++ [item] := by
  unfold pushItem
  split
  next hnone =>
    rw [List.getLast?_eq_none_iff.mp hnone]
    rfl
  next current hlast =>
    have hpieces := List.dropLast_append_getLast? current hlast
    split
    · simp
    · conv_rhs => rw [← hpieces]
      simp

/-- The pieces are the characters, cut. -/
theorem pieces_flatten (text : CodeUnits) :
    (pieces text).flatten = charsOf text := by
  have hfold : ∀ (items : List Item) (pieces : List (List Item)),
      (items.foldl pushItem pieces).flatten = pieces.flatten ++ items := by
    intro items
    induction items with
    | nil => simp
    | cons item items ih =>
        intro pieces
        rw [List.foldl_cons, ih, pushItem_flatten, List.append_assoc,
          List.singleton_append]
  exact hfold (charsOf text) []

/-! ## The text of a piece

The table of the cache has texts for keys. A text tells its characters if no
two of them are joined into one, and a piece that is cut where the tokenizer
cuts is of that kind. -/

/-- The characters of a text. -/
def codePointsOf : CodeUnits → List CodeUnits
  | [] => []
  | [unit] => [[unit]]
  | unit :: next :: rest =>
      if isHighSurrogate unit && isLowSurrogate next then
        [unit, next] :: codePointsOf rest
      else [unit] :: codePointsOf (next :: rest)

/-- A unit on its own, or a pair of surrogates. -/
def IsChar : CodeUnits → Prop
  | [_] => True
  | [unit, next] => (isHighSurrogate unit && isLowSurrogate next) = true
  | _ => False

/-- The two do not make one character. -/
def Apart (char other : CodeUnits) : Prop :=
  ∀ unit next, char = [unit] → other.head? = some next →
    (isHighSurrogate unit && isLowSurrogate next) = false

/-- The characters can be told from their text. -/
structure Legible (chars : List CodeUnits) : Prop where
  isChar : ∀ char ∈ chars, IsChar char
  apart : chars.IsChain Apart

theorem IsChar.ne_nil {char : CodeUnits} (h : IsChar char) : char ≠ [] := by
  rintro rfl
  exact h

theorem codePointsOf_single {unit : CodeUnit} {rest : CodeUnits}
    (h : ∀ next, rest.head? = some next →
      (isHighSurrogate unit && isLowSurrogate next) = false) :
    codePointsOf (unit :: rest) = [unit] :: codePointsOf rest := by
  cases rest with
  | nil => rfl
  | cons next rest =>
      rw [codePointsOf, h next rfl, if_neg Bool.false_ne_true]

theorem Legible.codePointsOf_flatten {chars : List CodeUnits}
    (h : Legible chars) : codePointsOf chars.flatten = chars := by
  induction chars with
  | nil => rfl
  | cons char chars ih =>
      obtain ⟨hfirst, hchain⟩ := List.isChain_cons.mp h.apart
      have hrest := ih ⟨fun char hmem =>
        h.isChar char (List.mem_cons_of_mem _ hmem), hchain⟩
      have hchar := h.isChar char List.mem_cons_self
      match char, hchar, hfirst with
      | [unit, next], hpair, _ =>
          rw [List.flatten_cons, List.cons_append, List.cons_append,
            List.nil_append, codePointsOf, if_pos (show _ = true from hpair),
            hrest]
      | [unit], _, hfirst =>
          rw [List.flatten_cons, List.cons_append, List.nil_append,
            codePointsOf_single, hrest]
          intro next hnext
          cases chars with
          | nil => cases hnext
          | cons other chars =>
              have hother := (h.isChar other
                (List.mem_cons_of_mem _ List.mem_cons_self)).ne_nil
              rw [List.flatten_cons, List.head?_append_of_ne_nil _ hother]
                at hnext
              exact hfirst other rfl unit next rfl hnext

theorem Legible.of_isInfix {chars part : List CodeUnits} (h : Legible chars)
    (hpart : part <:+: chars) : Legible part :=
  ⟨fun char hmem => h.isChar char (hpart.subset hmem), h.apart.infix hpart⟩

theorem isChar_charOf {char : CodeUnits} (h : IsChar char) :
    IsChar (charOf char) := by
  unfold charOf
  split
  · trivial
  · exact h

/-- What an item begins with: the text's own unit, or `SPACE` for a blank. -/
theorem itemsFrom_head (index : ℕ) (text : CodeUnits) :
    ∀ item ∈ (itemsFrom index text).head?,
      item.char.head? = text.head? ∨ item.char = [space] := by
  intro item hmem
  match text with
  | [] => cases hmem
  | [unit] =>
      cases hmem
      dsimp only [charOf]
      split
      · exact .inr rfl
      · exact .inl rfl
  | unit :: next :: rest =>
      unfold itemsFrom at hmem
      split at hmem
      all_goals
        cases hmem
        dsimp only [charOf]
        split
        · exact .inr rfl
        · exact .inl rfl

theorem Legible.cons {char : CodeUnits} {chars : List CodeUnits}
    (hchar : IsChar char) (hfirst : ∀ other ∈ chars.head?, Apart char other)
    (h : Legible chars) : Legible (char :: chars) where
  isChar other hmem := by
    rcases List.mem_cons.mp hmem with rfl | hmem
    · exact hchar
    · exact h.isChar other hmem
  apart := List.isChain_cons.mpr ⟨hfirst, h.apart⟩

theorem isLowSurrogate_space : isLowSurrogate space = false := by decide

theorem isHighSurrogate_space : isHighSurrogate space = false := by decide

theorem apart_pair {unit next : CodeUnit} (other : CodeUnits) :
    Apart (charOf [unit, next]) other := by
  intro first second hfirst
  unfold charOf at hfirst
  rw [if_neg (by simp)] at hfirst
  cases hfirst

theorem space_apart (other : CodeUnits) : Apart [space] other := by
  intro unit next hunit _
  cases hunit
  rw [isHighSurrogate_space]
  rfl

theorem itemsFrom_legible (index : ℕ) (text : CodeUnits) :
    Legible ((itemsFrom index text).map Item.char) := by
  fun_induction itemsFrom index text with
  | case1 index => exact ⟨fun _ h => absurd h List.not_mem_nil, .nil⟩
  | case2 index unit =>
      exact .cons (isChar_charOf trivial) (fun _ h => nomatch h)
        ⟨fun _ h => absurd h List.not_mem_nil, .nil⟩
  | case3 index unit next rest hpair ih =>
      exact .cons (isChar_charOf hpair) (fun other _ => apart_pair other) ih
  | case4 index unit next rest hpair ih =>
      refine .cons (isChar_charOf trivial) (fun other hother => ?_) ih
      rw [List.head?_map] at hother
      obtain ⟨item, hitem, rfl⟩ := Option.mem_map.mp hother
      intro first second hfirst hsecond
      have hhigh : isHighSurrogate first = true → first = unit := by
        intro hhigh
        unfold charOf at hfirst
        split at hfirst
        · cases hfirst
          rw [isHighSurrogate_space] at hhigh
          exact absurd hhigh Bool.false_ne_true
        · cases hfirst
          rfl
      rw [Bool.and_eq_false_imp]
      intro hfirst'
      rw [hhigh hfirst'] at hfirst'
      rcases itemsFrom_head _ _ item hitem with hhead | hspace
      · rw [hhead] at hsecond
        cases hsecond
        simp only [Bool.and_eq_true, not_and, Bool.not_eq_true] at hpair
        exact hpair hfirst'
      · rw [hspace] at hsecond
        cases hsecond
        exact isLowSurrogate_space

theorem charsOf_legible (text : CodeUnits) :
    Legible ((charsOf text).map Item.char) := by
  unfold charsOf
  split
  · exact .cons trivial (fun other _ => space_apart other)
      (itemsFrom_legible 0 text)
  · exact itemsFrom_legible 0 text

theorem pieces_legible {text : CodeUnits} {piece : List Item}
    (h : piece ∈ pieces text) : Legible (piece.map Item.char) := by
  refine (charsOf_legible text).of_isInfix ?_
  rw [← pieces_flatten]
  exact (List.infix_of_mem_flatten h).map Item.char

/-- The text of a piece says its characters. -/
theorem map_char_eq {piece other : List Item}
    (h : Legible (piece.map Item.char)) (h' : Legible (other.map Item.char))
    (hkey : keyOf piece = keyOf other) :
    piece.map Item.char = other.map Item.char := by
  have hflatten : ∀ piece : List Item,
      keyOf piece = (piece.map Item.char).flatten := fun piece =>
    (List.flatMap_def ..)
  rw [hflatten, hflatten] at hkey
  rw [← h.codePointsOf_flatten, hkey, h'.codePointsOf_flatten]

end Shozee.Sho.Tokenizer
