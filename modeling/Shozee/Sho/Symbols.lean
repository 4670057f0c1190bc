import Shozee.Sho.Tokenizer

/-!
# Symbols of a piece

A piece is cut into symbols, which know the positions of their characters in
the piece, and neighbours are merged. The positions stay in their order: each
stands once, but where its character is given by bytes, for each of which there
is a symbol that is never merged (`merge_positions`, `merge_pairwise`).
-/

namespace Shozee.Sho.Tokenizer

open Shozee.Run

/-! ## Positions

A symbol knows the positions of its characters. A character that is given by
bytes has its position once for each byte. -/

section Positions

variable (spec : TokenizerSpec)

/-- How many symbols a character gives at its position. -/
def copies (char : CodeUnits) : ℕ :=
  if (spec.vocab char).isSome then 1
  else if spec.byteFallback && ((utf8Bytes char).map byteName).all
      fun name => (spec.vocab name).isSome then (utf8Bytes char).length
  else 1

/-- The positions of a piece in their order. -/
def positionsOf (piece : List Item) : List ℕ :=
  piece.zipIdx.flatMap fun entry =>
    List.replicate (copies spec entry.1.char) entry.2

/-- A symbol has a position, and several only where each is of a character
that gives one symbol. -/
structure Sound (single : ℕ → Prop) (symbol : BpeSymbol) : Prop where
  positions_ne : symbol.positions ≠ []
  atomic : symbol.atomic = true → ∃ position, symbol.positions = [position]
  single : symbol.atomic = false → ∀ position ∈ symbol.positions,
    single position
  unknown : symbol.unknown = true → symbol.atomic = false

variable {spec}

theorem utf8Bytes_ne_nil (char : CodeUnits) : utf8Bytes char ≠ [] := by
  unfold utf8Bytes
  dsimp only
  repeat' split
  all_goals exact List.cons_ne_nil _ _

theorem copies_pos (char : CodeUnits) : 0 < copies spec char := by
  unfold copies
  repeat' split
  · exact Nat.one_pos
  · exact List.length_pos_of_ne_nil (utf8Bytes_ne_nil char)
  · exact Nat.one_pos

theorem pushSymbol_positions (symbols : List BpeSymbol) (item : Item)
    (position : ℕ) :
    (pushSymbol spec symbols (item, position)).flatMap BpeSymbol.positions =
      symbols.flatMap BpeSymbol.positions ++
        List.replicate (copies spec item.char) position := by
  unfold pushSymbol copies
  dsimp only
  split
  · simp
  split
  · rw [List.flatMap_append, List.map_map, List.flatMap_map]
    simp [← List.map_eq_flatMap]
  split
  next previous hlast =>
    split
    · have hsymbols := List.dropLast_append_getLast? previous hlast
      conv_rhs => rw [← hsymbols]
      simp
    · simp
  next => simp

theorem pushSymbol_sound {single : ℕ → Prop} {symbols : List BpeSymbol}
    {item : Item} {position : ℕ} (h : ∀ symbol ∈ symbols, Sound single symbol)
    (hsingle : copies spec item.char = 1 → single position) :
    ∀ symbol ∈ pushSymbol spec symbols (item, position),
      Sound single symbol := by
  have hadd : ∀ added : List BpeSymbol,
      (∀ symbol ∈ added, Sound single symbol) →
        ∀ symbol ∈ symbols ++ added, Sound single symbol :=
    fun added hadded _ hmem =>
      (List.mem_append.mp hmem).elim (h _) (hadded _)
  have hplain : ∀ unknown, copies spec item.char = 1 → ∀ symbol ∈
      [(⟨item.char, [position], false, unknown⟩ : BpeSymbol)],
      Sound single symbol := by
    intro unknown hcopies symbol hmem
    rw [List.mem_singleton.mp hmem]
    refine ⟨List.cons_ne_nil _ _, fun hatomic => absurd hatomic
      Bool.false_ne_true, fun _ p hp => ?_, fun _ => rfl⟩
    rw [List.mem_singleton.mp hp]
    exact hsingle hcopies
  unfold pushSymbol
  dsimp only
  split
  next hvocab =>
    exact hadd _ (hplain false (if_pos hvocab))
  next hvocab =>
    split
    next =>
      refine hadd _ fun symbol hmem => ?_
      obtain ⟨name, -, rfl⟩ := List.mem_map.mp hmem
      exact ⟨List.cons_ne_nil _ _, fun _ => ⟨position, rfl⟩,
        fun hatomic => absurd hatomic.symm Bool.false_ne_true,
        fun hunknown => absurd hunknown Bool.false_ne_true⟩
    next hbytes =>
      have hcopies : copies spec item.char = 1 :=
        (if_neg hvocab).trans (if_neg hbytes)
      split
      next previous hlast =>
        split
        next hfuse =>
          have hprevious := h previous (List.mem_of_getLast? hlast)
          have hatomic := hprevious.unknown (Bool.and_eq_true_iff.mp hfuse).2
          intro symbol hmem
          rcases List.mem_append.mp hmem with hmem | hmem
          · exact h symbol (List.mem_of_mem_dropLast hmem)
          · rw [List.mem_singleton.mp hmem]
            refine ⟨List.append_ne_nil_of_right_ne_nil _
              (List.cons_ne_nil _ _), fun h => ?_, fun _ p hp => ?_,
              hprevious.unknown⟩
            · rw [hatomic] at h
              exact absurd h Bool.false_ne_true
            · rcases List.mem_append.mp hp with hp | hp
              · exact hprevious.single hatomic p hp
              · rw [List.mem_singleton.mp hp]
                exact hsingle hcopies
        next => exact hadd _ (hplain true hcopies)
      next => exact hadd _ (hplain true hcopies)

theorem symbolsOf_positions (piece : List Item) :
    (symbolsOf spec piece).flatMap BpeSymbol.positions =
      positionsOf spec piece := by
  have hfold : ∀ (entries : List (Item × ℕ)) (symbols : List BpeSymbol),
      (entries.foldl (pushSymbol spec) symbols).flatMap BpeSymbol.positions =
        symbols.flatMap BpeSymbol.positions ++ entries.flatMap fun entry =>
          List.replicate (copies spec entry.1.char) entry.2 := by
    intro entries
    induction entries with
    | nil => simp
    | cons entry entries ih =>
        intro symbols
        rw [List.foldl_cons, ih, pushSymbol_positions, List.flatMap_cons,
          List.append_assoc]
  exact hfold piece.zipIdx []

variable (spec) in
/-- The positions whose characters give one symbol. -/
def Single (piece : List Item) (position : ℕ) : Prop :=
  ∃ item, piece[position]? = some item ∧ copies spec item.char = 1

theorem symbolsOf_sound (piece : List Item) :
    ∀ symbol ∈ symbolsOf spec piece, Sound (Single spec piece) symbol := by
  have hfold : ∀ (entries : List (Item × ℕ)) (symbols : List BpeSymbol),
      (∀ entry ∈ entries, piece[entry.2]? = some entry.1) →
      (∀ symbol ∈ symbols, Sound (Single spec piece) symbol) →
      ∀ symbol ∈ entries.foldl (pushSymbol spec) symbols,
        Sound (Single spec piece) symbol := by
    intro entries
    induction entries with
    | nil => exact fun symbols _ h => h
    | cons entry entries ih =>
        intro symbols hentries h
        refine ih _ (fun entry hmem =>
          hentries entry (List.mem_cons_of_mem _ hmem)) ?_
        exact pushSymbol_sound h fun hcopies =>
          ⟨entry.1, hentries entry List.mem_cons_self, hcopies⟩
  exact hfold piece.zipIdx [] (fun entry hmem =>
    List.mem_zipIdx_iff_getElem?.mp hmem) fun symbol hmem =>
      absurd hmem List.not_mem_nil

/-! ## Merging

A merge joins two neighbours and their positions. Symbols of bytes have no
rank, so they stay. -/

variable (spec) in
theorem merge_merged (symbols : List BpeSymbol) :
    Merged (pairRank spec) joined symbols (merge spec symbols) := by
  have hends : ∃ out, mergeLoop (pairRank spec) joined (symbols.length + 1)
      symbols = some out := mergeLoop_ends (Nat.lt_succ_self symbols.length)
  obtain ⟨out, hout⟩ := hends
  unfold merge
  rw [hout]
  exact mergeLoop_merged hout

theorem atomic_of_pairRank {left right : BpeSymbol} {r : ℕ}
    (h : pairRank spec left right = some r) :
    left.atomic = false ∧ right.atomic = false := by
  unfold pairRank at h
  split at h
  next => exact absurd h (Option.some_ne_none r).symm
  next hplain =>
    simp only [Bool.or_eq_true, not_or, Bool.not_eq_true] at hplain
    exact ⟨hplain.1.1.1, hplain.1.1.2⟩

theorem Sound.joined {single : ℕ → Prop} {left right : BpeSymbol}
    (hleft : Sound single left) (hright : Sound single right)
    (hatomic : left.atomic = false) (hatomic' : right.atomic = false) :
    Sound single (joined left right) where
  positions_ne := List.append_ne_nil_of_left_ne_nil hleft.positions_ne _
  atomic h := absurd h Bool.false_ne_true
  single _ position hmem :=
    (List.mem_append.mp hmem).elim (hleft.single hatomic position)
      (hright.single hatomic' position)
  unknown _ := rfl

theorem merge_positions (piece : List Item) :
    (merge spec (symbolsOf spec piece)).flatMap BpeSymbol.positions =
        positionsOf spec piece ∧
      ∀ symbol ∈ merge spec (symbolsOf spec piece),
        Sound (Single spec piece) symbol := by
  refine (merge_merged spec (symbolsOf spec piece)).keeps
    (P := fun symbols => symbols.flatMap BpeSymbol.positions =
        positionsOf spec piece ∧
      ∀ symbol ∈ symbols, Sound (Single spec piece) symbol) ?_
    ⟨symbolsOf_positions piece, symbolsOf_sound piece⟩
  rintro before left right after r hrank ⟨hpositions, hsound⟩
  refine ⟨?_, fun symbol hmem => ?_⟩
  · rw [← hpositions]
    simp [joined]
  · obtain ⟨hatomic, hatomic'⟩ := atomic_of_pairRank hrank
    rcases List.mem_append.mp hmem with hmem | hmem
    · exact hsound symbol (List.mem_append_left _ hmem)
    rcases List.mem_cons.mp hmem with rfl | hmem
    · refine .joined (hsound left ?_) (hsound right ?_) hatomic hatomic'
      · exact List.mem_append_right _ List.mem_cons_self
      · exact List.mem_append_right _
          (List.mem_cons_of_mem _ List.mem_cons_self)
    · exact hsound symbol (List.mem_append_right _
        (List.mem_cons_of_mem _ (List.mem_cons_of_mem _ hmem)))

/-- The positions are in order, and one stands twice only where its character
gives several symbols. -/
theorem positionsOf_pairwise (piece : List Item) :
    (positionsOf spec piece).Pairwise fun position other =>
      position < other ∨ position = other ∧ ¬ Single spec piece position := by
  unfold positionsOf
  rw [List.pairwise_flatMap]
  constructor
  · rintro ⟨item, position⟩ hmem
    refine List.pairwise_replicate.mpr ?_
    by_cases hcopies : copies spec item.char ≤ 1
    · exact .inl hcopies
    · refine .inr (.inr ⟨rfl, ?_⟩)
      rintro ⟨other, hother, hsingle⟩
      rw [List.mem_zipIdx_iff_getElem?.mp hmem, Option.some.injEq] at hother
      rw [← hother] at hsingle
      exact hcopies (Nat.le_of_eq hsingle)
  · have hindexes : (piece.zipIdx.map Prod.snd).Pairwise (· < ·) := by
      rw [List.zipIdx_map_snd]
      exact List.pairwise_lt_range'
    refine (List.pairwise_map.mp hindexes).imp fun hlt x hx y hy => .inl ?_
    rw [List.eq_of_mem_replicate hx, List.eq_of_mem_replicate hy]
    exact hlt

theorem mem_positionsOf {piece : List Item} {position : ℕ} :
    position ∈ positionsOf spec piece ↔ position < piece.length := by
  unfold positionsOf
  rw [List.mem_flatMap]
  constructor
  · rintro ⟨entry, hmem, hposition⟩
    rw [List.eq_of_mem_replicate hposition]
    exact (List.getElem?_eq_some_iff.mp
      (List.mem_zipIdx_iff_getElem?.mp hmem)).1
  · intro hlt
    exact ⟨(piece[position], position), List.mem_zipIdx_iff_getElem?.mpr
      (List.getElem?_eq_getElem hlt),
      List.mem_replicate.mpr ⟨(copies_pos _).ne', rfl⟩⟩

/-- A symbol's positions are in order. -/
theorem Sound.pairwise {piece : List Item} {symbol : BpeSymbol}
    (h : Sound (Single spec piece) symbol)
    (hsub : symbol.positions.Sublist (positionsOf spec piece)) :
    symbol.positions.Pairwise (· < ·) := by
  cases hatomic : symbol.atomic with
  | true =>
      obtain ⟨position, hposition⟩ := h.atomic hatomic
      rw [hposition]
      exact List.pairwise_singleton _ _
  | false =>
      have hsingle := h.single hatomic
      refine ((positionsOf_pairwise piece).sublist hsub).imp_of_mem ?_
      rintro position other hmem - (hlt | ⟨-, hnot⟩)
      · exact hlt
      · exact absurd (hsingle position hmem) hnot

end Positions

end Shozee.Sho.Tokenizer
