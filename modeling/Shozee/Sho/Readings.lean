import Mathlib.Algebra.Order.Ring.Nat
import Shozee.Sho.Lines

/-!
# The cheapest reading of an order

A way to cut the pieces, in order, into lines that are allowed and pieces that
are part of none (`Cut`) is a way of the search (`ways_iff`). A product can be
cut off at every place: alone, or with the piece that is said with it, which
the repair pass never marks (`marked_repaired`). So the search comes to no dead
end, and what it finds is a cut with the least cost.

Each product is in one line of the reading, and the line says it, unless the
line right after is said in its place (`carriedLines_says`).
-/

namespace Shozee.Sho.Lines

open Shozee.Run

/-! ## Cuts

A way to part the pieces into lines and strays. Nothing is left out and nothing
is used twice. -/

/-- A line, or a piece that is no part of one; a quantity that comes after a
product is asked about. -/
inductive Part
  | line (chunk : Chunk)
  | stray (piece : LinePiece) (asked : Bool)

/-- The pieces of a part. -/
def Part.pieces : Part → List LinePiece
  | .line chunk => chunk.pieces
  | .stray piece _ => [piece]

/-- The chunks of a part. A stray piece is one if it is asked about. -/
def Part.chunks : Part → List Chunk
  | .line chunk => [chunk]
  | .stray piece asked => if asked then [⟨[piece], [piece.kind]⟩] else []

section Reader

variable (W : Words)

/-- The parts of pieces that come after a line with the quantity on a side, or
after none, and after a product or not. -/
inductive Cut : List LinePiece → Option Side → Bool → List Part → Cost → Prop
  | nil (side : Option Side) (seen : Bool) : Cut [] side seen [] noCost
  | line {slice rest : List LinePiece} {kinds : List LineKind}
      {side : Option Side} {seen : Bool} {parts : List Part} {cost : Cost}
      (hne : slice ≠ []) (hkinds : kinds ∈ readingsOf slice)
      (hallowed : allowed W ⟨slice, kinds⟩ rest.head? seen = true)
      (hrest : Cut rest ((sideOf kinds).or side)
        (seen || kinds.contains .product) parts cost) :
      Cut (slice ++ rest) side seen (.line ⟨slice, kinds⟩ :: parts)
        (chunkCost ⟨slice, kinds⟩ rest.head? rest[1]? side + cost)
  | stray {piece : LinePiece} {rest : List LinePiece} {side : Option Side}
      {seen : Bool} {parts : List Part} {cost : Cost}
      (hkind : piece.kind ≠ .product) (hrest : Cut rest side seen parts cost) :
      Cut (piece :: rest) side seen
        (.stray piece (seen ∧ piece.kind = .quantity) :: parts)
        (orphanCost + cost)

variable {W}

theorem Cut.pieces_eq {pieces : List LinePiece} {side : Option Side}
    {seen : Bool} {parts : List Part} {cost : Cost}
    (h : Cut W pieces side seen parts cost) :
    parts.flatMap Part.pieces = pieces := by
  induction h with
  | nil => rfl
  | line _ _ _ _ ih => exact congrArg (_ ++ ·) ih
  | stray _ _ ih => exact congrArg (_ :: ·) ih

/-- Whether a piece is a product. -/
def isProduct (piece : LinePiece) : Bool := piece.kind = .product

/-- Every product is in one of the lines, in its place. -/
theorem Cut.products_eq {pieces : List LinePiece} {side : Option Side}
    {seen : Bool} {parts : List Part} {cost : Cost}
    (h : Cut W pieces side seen parts cost) :
    ((parts.flatMap Part.chunks).flatMap Chunk.pieces).filter isProduct =
      pieces.filter isProduct := by
  induction h with
  | nil => rfl
  | line _ _ _ _ ih =>
      rw [List.flatMap_cons, List.flatMap_append, List.filter_append, ih,
        List.filter_append]
      rw [Part.chunks, List.flatMap_singleton]
  | @stray piece rest side seen parts cost hkind _ ih =>
      have hnot : ¬ isProduct piece = true := by
        rw [isProduct, decide_eq_true_iff]
        exact hkind
      rw [List.flatMap_cons, List.flatMap_append, List.filter_append, ih,
        List.filter_cons_of_neg hnot, Part.chunks]
      split
      · rw [List.flatMap_singleton, List.filter_cons_of_neg hnot,
          List.filter_nil, List.nil_append]
      · rfl

/-! ## How long a line is

A shape has at most so many places, and a run stands in one of them. -/

/-- A kind that a run leaves as it is. -/
def stands (kind : LineKind) : Bool := kind ≠ .variant

theorem countP_withoutRuns (kinds : List LineKind) :
    (withoutRuns kinds).countP stands = kinds.countP stands := by
  induction kinds using withoutRuns.induct with
  | case1 rest ih =>
      rw [withoutRuns, ih]
      rfl
  | case2 kind rest hnot ih =>
      rw [withoutRuns, List.countP_cons, List.countP_cons, ih]
      exact hnot
  | case3 => rfl

theorem shapes_small : ∀ shape ∈ shapes,
    shape.1.countP stands ≤ 2 := by
  decide

theorem length_of_isShape {kinds : List LineKind} (h : isShape kinds = true) :
    kinds.length ≤ longestLine := by
  unfold isShape shapeOf at h
  split at h
  · cases h
  · next hattrs =>
    rw [Option.any_some, Option.isSome_iff_exists] at h
    obtain ⟨side, hside⟩ := h
    obtain ⟨before, after, hshapes, -⟩ := List.lookup_eq_some_iff.mp hside
    have hsmall := shapes_small (withoutRuns kinds, side) (by
      rw [hshapes]
      exact List.mem_append_right _ List.mem_cons_self)
    rw [countP_withoutRuns] at hsmall
    have hlength := List.length_eq_countP_add_countP stands (l := kinds)
    have hcount : kinds.countP (fun kind => ¬ stands kind = true) =
        kinds.count .variant := by
      refine List.countP_congr fun kind _ => ?_
      cases kind <;> decide
    rw [hcount] at hlength
    unfold longestLine
    omega

/-! ## Costs

The parts of a cost, as a lexicographic order. -/

/-- The places before the first one found. -/
theorem find_finRange_iff {n : ℕ} {p : Fin n → Bool} {part : Fin n} :
    (List.finRange n).find? p = some part ↔
      p part = true ∧ ∀ earlier < part, p earlier = false := by
  rw [List.find?_eq_some_iff_append]
  constructor
  · rintro ⟨hpart, before, after, hsplit, hbefore⟩
    refine ⟨hpart, fun earlier hlt => ?_⟩
    have hmem : earlier ∈ before ++ part :: after :=
      hsplit ▸ List.mem_finRange earlier
    have hsorted : (before ++ part :: after).Pairwise (· < ·) :=
      hsplit ▸ List.pairwise_lt_finRange n
    rcases List.mem_append.mp hmem with hmem | hmem
    · exact (Bool.not_eq_true' _).mp (hbefore earlier hmem)
    · rcases List.mem_cons.mp hmem with rfl | hmem
      · exact absurd hlt (lt_irrefl _)
      · have hafter := (List.pairwise_append.mp hsorted).2.1
        exact absurd (List.rel_of_pairwise_cons hafter hmem) hlt.asymm
  · rintro ⟨hpart, hearlier⟩
    obtain ⟨before, after, hsplit⟩ :=
      List.append_of_mem (List.mem_finRange part)
    refine ⟨hpart, before, after, hsplit, fun earlier hmem => ?_⟩
    have hsorted : (before ++ part :: after).Pairwise (· < ·) :=
      hsplit ▸ List.pairwise_lt_finRange n
    have hlt := (List.pairwise_append.mp hsorted).2.2 earlier hmem part
      List.mem_cons_self
    rw [hearlier earlier hlt]
    rfl

theorem cheaper_iff (left right : Cost) :
    cheaper left right = true ↔ left < right := by
  unfold cheaper
  constructor
  · intro h
    cases hfind : (List.finRange 7).find? fun part =>
        ofLex left part ≠ ofLex right part with
    | none =>
        rw [hfind] at h
        cases h
    | some part =>
        rw [hfind, Option.any_some] at h
        obtain ⟨-, hearlier⟩ := find_finRange_iff.mp hfind
        refine ⟨part, fun earlier hlt => ?_, of_decide_eq_true h⟩
        exact not_not.mp (of_decide_eq_false (hearlier earlier hlt))
  · rintro ⟨part, hearlier, hlt⟩
    have hfind : (List.finRange 7).find? (fun part =>
        ofLex left part ≠ ofLex right part) = some part := by
      refine find_finRange_iff.mpr ⟨decide_eq_true hlt.ne, fun earlier h => ?_⟩
      exact decide_eq_false (not_not.mpr (hearlier earlier h))
    rw [hfind]
    exact decide_eq_true hlt

theorem noCost_eq_zero : noCost = 0 := by
  funext part
  match part with
  | 0 | 1 | 2 | 3 | 4 | 5 | 6 => rfl

/-! ## The ways of the search

A choice at a place is the first part of some cut of what is left, and the
other way round. -/

variable {pieces : List LinePiece}

theorem length_of_readingsOf {slice : List LinePiece} {kinds : List LineKind}
    (h : kinds ∈ readingsOf slice) : kinds.length = slice.length := by
  unfold readingsOf at h
  dsimp only at h
  split at h
  · rcases List.mem_cons.mp h with rfl | h
    · rw [List.length_set, List.length_map]
    · cases List.mem_singleton.mp h
      exact List.length_map _
  · cases List.mem_singleton.mp h
    exact List.length_map _

theorem isShape_of_allowed {chunk : Chunk} {following : Option LinePiece}
    {seen : Bool} (h : allowed W chunk following seen = true) :
    isShape chunk.kinds = true := by
  unfold allowed at h
  split at h
  · cases h
  · next hnot =>
    by_contra hshape
    exact hnot (by rw [Bool.not_eq_true] at hshape; rw [hshape]; rfl)

theorem drop_append_of_drop {start : ℕ} {slice rest : List LinePiece}
    (h : pieces.drop start = slice ++ rest) :
    pieces.drop (start + slice.length) = rest := by
  rw [← List.drop_drop, h, List.drop_left]

theorem getElem?_of_drop {start : ℕ} {rest : List LinePiece}
    (h : pieces.drop start = rest) (index : ℕ) :
    pieces[start + index]? = rest[index]? := by
  rw [← h, List.getElem?_drop]

/-- What may be said of a line that is tried at a place. -/
theorem mem_choicesAt_line {start : ℕ} {side : Option Side} {seen : Bool}
    {slice rest : List LinePiece} {kinds : List LineKind}
    (hpieces : pieces.drop start = slice ++ rest) (hne : slice ≠ [])
    (hkinds : kinds ∈ readingsOf slice)
    (hallowed : allowed W ⟨slice, kinds⟩ rest.head? seen = true) :
    (⟨chunkCost ⟨slice, kinds⟩ rest.head? rest[1]? side, [⟨slice, kinds⟩],
      (start + slice.length, (sideOf kinds).or side,
        seen || kinds.contains .product)⟩ : Choice Place Cost Chunk) ∈
      choicesAt W pieces (start, side, seen) := by
  have hpos := List.length_pos_iff.mpr hne
  have hrest := drop_append_of_drop hpieces
  have hlong : slice.length ≤ longestLine := by
    rw [← length_of_readingsOf hkinds]
    exact length_of_isShape (isShape_of_allowed hallowed)
  have hroom : slice.length ≤ pieces.length - start := by
    rw [← List.length_drop, hpieces, List.length_append]
    exact Nat.le_add_right _ _
  refine List.mem_append_left _ (List.mem_flatMap.mpr
    ⟨slice.length - 1, ?_, ?_⟩)
  · rw [List.mem_reverse, List.mem_range]
    omega
  · rw [Nat.sub_add_cancel hpos]
    have hslice : (pieces.drop start).take slice.length = slice := by
      rw [hpieces, List.take_left]
    have hhead : pieces[start + slice.length]? = rest.head? := by
      rw [List.head?_eq_getElem?]
      exact getElem?_of_drop hrest 0
    refine List.mem_filterMap.mpr ⟨kinds, hslice.symm ▸ hkinds, ?_⟩
    rw [hslice, hhead, if_pos hallowed, getElem?_of_drop hrest 1]

theorem mem_choicesAt_stray {start : ℕ} {side : Option Side} {seen : Bool}
    {piece : LinePiece} (hpiece : pieces[start]? = some piece)
    (hkind : piece.kind ≠ .product) :
    (⟨orphanCost, (Part.stray piece (seen ∧ piece.kind = .quantity)).chunks,
      (start + 1, side, seen)⟩ : Choice Place Cost Chunk) ∈
      choicesAt W pieces (start, side, seen) := by
  refine List.mem_append_right _ ?_
  rw [hpiece]
  dsimp only
  rw [if_neg hkind, List.mem_singleton, Part.chunks]
  by_cases hasked : seen = true ∧ piece.kind = .quantity
  · rw [if_pos hasked, if_pos (decide_eq_true hasked)]
  · rw [if_neg hasked, if_neg (by simpa using hasked)]

/-- The choices at a place are the first parts of its cuts. -/
theorem choicesAt_cases {start : ℕ} {side : Option Side} {seen : Bool}
    (hstart : start < pieces.length) {choice : Choice Place Cost Chunk}
    (h : choice ∈ choicesAt W pieces (start, side, seen)) :
    (∃ slice rest kinds, pieces.drop start = slice ++ rest ∧ slice ≠ [] ∧
      kinds ∈ readingsOf slice ∧
      allowed W ⟨slice, kinds⟩ rest.head? seen = true ∧
      choice = ⟨chunkCost ⟨slice, kinds⟩ rest.head? rest[1]? side,
        [⟨slice, kinds⟩], (start + slice.length, (sideOf kinds).or side,
          seen || kinds.contains .product)⟩) ∨
      ∃ piece, pieces[start]? = some piece ∧ piece.kind ≠ .product ∧
        choice = ⟨orphanCost,
          (Part.stray piece (seen ∧ piece.kind = .quantity)).chunks,
          (start + 1, side, seen)⟩ := by
  rcases List.mem_append.mp h with h | h
  · left
    obtain ⟨shorter, hshorter, h⟩ := List.mem_flatMap.mp h
    obtain ⟨kinds, hkinds, hchoice⟩ := List.mem_filterMap.mp h
    rw [List.mem_reverse, List.mem_range] at hshorter
    have hsplit := (List.take_append_drop (shorter + 1)
      (pieces.drop start)).symm
    generalize hslice : (pieces.drop start).take (shorter + 1) = slice
      at hsplit hkinds hchoice
    generalize (pieces.drop start).drop (shorter + 1) = rest at hsplit
    have hlength : slice.length = shorter + 1 := by
      rw [← hslice, List.length_take, List.length_drop]
      omega
    have hrest := drop_append_of_drop hsplit
    have hhead : pieces[start + (shorter + 1)]? = rest.head? := by
      rw [List.head?_eq_getElem?, ← hlength]
      exact getElem?_of_drop hrest 0
    have hsecond : pieces[start + (shorter + 1) + 1]? = rest[1]? := by
      rw [← hlength]
      exact getElem?_of_drop hrest 1
    rw [hhead, hsecond] at hchoice
    dsimp only at hchoice
    split at hchoice
    · next hallowed =>
      refine ⟨slice, rest, kinds, hsplit, ?_, hkinds, hallowed, ?_⟩
      · rintro rfl
        cases hlength
      · rw [hlength]
        exact (Option.some.inj hchoice).symm
    · cases hchoice
  · right
    rw [List.getElem?_eq_getElem hstart] at h
    dsimp only at h
    split at h
    · cases h
    · next hkind =>
      refine ⟨_, List.getElem?_eq_getElem hstart, hkind, ?_⟩
      rw [List.mem_singleton.mp h, Part.chunks]
      by_cases hasked : seen = true ∧ pieces[start].kind = .quantity
      · rw [if_pos hasked, if_pos (decide_eq_true hasked)]
      · rw [if_neg hasked, if_neg (by simpa using hasked)]

theorem endsAt_of_drop {start : ℕ} {rest : List LinePiece}
    (h : pieces.drop start = rest) (hne : rest ≠ []) (side : Option Side)
    (seen : Bool) : endsAt pieces (start, side, seen) = false := by
  refine decide_eq_false fun hend => hne ?_
  have hend : start = pieces.length := hend
  rw [← h, hend, List.drop_length]

theorem ways_of_cut {rest : List LinePiece} {side : Option Side} {seen : Bool}
    {parts : List Part} {cost : Cost} (h : Cut W rest side seen parts cost)
    {start : ℕ} (hpieces : pieces.drop start = rest)
    (hstart : start ≤ pieces.length) :
    Ways (endsAt pieces) (choicesAt W pieces) (start, side, seen)
      ⟨cost, parts.flatMap Part.chunks⟩ := by
  induction h generalizing start with
  | nil =>
      have hend : start = pieces.length :=
        le_antisymm hstart (List.drop_eq_nil_iff.mp hpieces)
      rw [noCost_eq_zero]
      exact .ended (decide_eq_true hend)
  | @line slice rest kinds side seen parts cost hne hkinds hallowed _ ih =>
      have hlater := drop_append_of_drop hpieces
      have hroom : start + slice.length ≤ pieces.length := by
        have hlength := congrArg List.length hpieces
        rw [List.length_drop, List.length_append] at hlength
        have hpos := List.length_pos_iff.mpr hne
        omega
      have hends := endsAt_of_drop hpieces
        (List.append_ne_nil_of_left_ne_nil hne _) side seen
      exact .step hends (mem_choicesAt_line hpieces hne hkinds hallowed)
        (ih hlater hroom)
  | @stray piece rest side seen parts cost hkind _ ih =>
      have hpiece : pieces[start]? = some piece :=
        getElem?_of_drop hpieces 0
      have hlater : pieces.drop (start + 1) = rest :=
        drop_append_of_drop
          (show pieces.drop start = [piece] ++ rest from hpieces)
      have hlt := (List.getElem?_eq_some_iff.mp hpiece).1
      have hends := endsAt_of_drop hpieces (List.cons_ne_nil _ _) side seen
      exact .step hends (mem_choicesAt_stray hpiece hkind) (ih hlater hlt)

theorem cut_of_ways {place : Place} {found : Reading}
    (h : Ways (endsAt pieces) (choicesAt W pieces) place found)
    (hstart : place.1 ≤ pieces.length) :
    ∃ parts, Cut W (pieces.drop place.1) place.2.1 place.2.2 parts
      found.cost ∧ found.parts = parts.flatMap Part.chunks := by
  induction h with
  | @ended place hend =>
      have hend : place.1 = pieces.length := of_decide_eq_true hend
      rw [hend, List.drop_length, ← noCost_eq_zero]
      exact ⟨[], .nil _ _, rfl⟩
  | @step place choice found hend hchoice _ ih =>
      obtain ⟨start, side, seen⟩ := place
      have hlt : start < pieces.length :=
        lt_of_le_of_ne hstart (of_decide_eq_false hend)
      rcases choicesAt_cases hlt hchoice with
        ⟨slice, rest, kinds, hpieces, hne, hkinds, hallowed, rfl⟩ |
        ⟨piece, hpiece, hkind, rfl⟩
      · have hlater := drop_append_of_drop hpieces
        have hroom : start + slice.length ≤ pieces.length := by
          have hlength := congrArg List.length hpieces
          rw [List.length_drop, List.length_append] at hlength
          omega
        obtain ⟨parts, hcut, hparts⟩ := ih hroom
        dsimp only at hcut
        rw [hlater] at hcut
        refine ⟨.line ⟨slice, kinds⟩ :: parts, ?_, ?_⟩
        · dsimp only
          rw [hpieces]
          exact .line hne hkinds hallowed hcut
        · exact congrArg ([⟨slice, kinds⟩] ++ ·) hparts
      · obtain ⟨parts, hcut, hparts⟩ := ih hlt
        refine ⟨.stray piece (seen ∧ piece.kind = .quantity) :: parts, ?_, ?_⟩
        · obtain ⟨hlt, rfl⟩ := List.getElem?_eq_some_iff.mp hpiece
          dsimp only
          rw [List.drop_eq_getElem_cons hlt]
          exact .stray hkind hcut
        · exact congrArg (_ ++ ·) hparts

/-! ## No dead end

A product can be a line by itself, so every place has a choice. -/

theorem lineWith_no_connector : ∀ word ∈ lineWith,
    connectors.contains word = false := by
  decide

/-- A line of a product alone, where the piece after it is not said with it. -/
theorem allowed_product {piece : LinePiece} (hkind : piece.kind = .product)
    {following : Option LinePiece}
    (hbound : boundTo following (some .product) = false) (seen : Bool) :
    [.product] ∈ readingsOf [piece] ∧
      allowed W ⟨[piece], [.product]⟩ following seen = true := by
  constructor
  · unfold readingsOf
    simp [hkind]
  · have hseen : (seen || [LineKind.product].contains .product) = true :=
      Bool.or_true seen
    have hshape : isShape [.product] = true := by decide
    have hbroken : brokenRun W ⟨[piece], [.product]⟩ = false := rfl
    have hmeasure : measureAfterCount ⟨[piece], [.product]⟩ = true := rfl
    unfold allowed
    rw [hshape, hseen, hbroken, hmeasure, if_neg (by decide)]
    simp only [List.tail_cons, List.any_nil, List.getLast?_singleton, hbound]
    rfl

/-- A line of a product and the piece that is said with it. -/
theorem allowed_bound {piece bound : LinePiece}
    (hkind : piece.kind = .product)
    (hbound : boundTo (some bound) (some .product) = true)
    (hmark : bound.replaces = true → slotOf bound = .product ∨
      ¬ SaidWith bound.gap) (following : Option LinePiece) (seen : Bool) :
    [.product, .variant] ∈ readingsOf [piece, bound] ∧
      allowed W ⟨[piece, bound], [.product, .variant]⟩ following seen =
        true := by
  have hbound' : bound.kind = .variant ∧ SaidWith bound.gap := by
    simpa [boundTo, SaidWith, and_assoc] using hbound
  obtain ⟨hvariant, hgap⟩ := hbound'
  have hreplaces : bound.replaces = false := by
    by_contra htrue
    rcases hmark (Bool.not_eq_false _ ▸ htrue) with hslot | hnot
    · simp [slotOf, hvariant] at hslot
    · exact hnot hgap
  have hjoined : joined bound = false := by
    obtain ⟨word, hword⟩ := List.length_eq_one_iff.mp hgap.1
    have hmem := hgap.2
    rw [hword, List.any_cons, List.any_nil, Bool.or_false,
      List.contains_iff_mem] at hmem
    rw [joined, hword, List.any_cons, List.any_nil, Bool.or_false]
    exact lineWith_no_connector word hmem
  constructor
  · have hplain : [piece, bound].map LinePiece.kind =
        [.product, .variant] := by
      rw [List.map_cons, List.map_singleton, hkind, hvariant]
    unfold readingsOf
    dsimp only
    rw [hplain]
    split
    · exact List.mem_cons_self
    · exact List.mem_cons_self
  · have hseen : (seen || [LineKind.product, .variant].contains .product) =
        true := Bool.or_true seen
    have hshape : isShape [.product, .variant] = true := by decide
    have hbroken : brokenRun W ⟨[piece, bound], [.product, .variant]⟩ =
        false := rfl
    have hmeasure : measureAfterCount
        ⟨[piece, bound], [.product, .variant]⟩ = true := rfl
    have hreversed : reversedVariant
        ⟨[piece, bound], [.product, .variant]⟩ = none := rfl
    have hfollowing : boundTo following (some .variant) = false := by
      cases following with
      | none => rfl
      | some next => simp [boundTo]
    unfold allowed
    rw [hshape, hseen, hbroken, hmeasure, if_neg (by decide), hreversed]
    simp only [List.tail_cons, List.any_cons, List.any_nil, hjoined, hreplaces,
      List.getLast?_cons_cons, List.getLast?_singleton, hfollowing]
    rfl

theorem choicesAt_ne_nil (hmarked : Marked pieces) {place : Place}
    (hlt : place.1 < pieces.length) : choicesAt W pieces place ≠ [] := by
  obtain ⟨start, side, seen⟩ := place
  have hdrop := List.drop_eq_getElem_cons hlt
  dsimp only at hdrop
  by_cases hkind : pieces[start].kind = .product
  · cases hbound : boundTo pieces[start + 1]? (some .product) with
    | false =>
        have hhead : (pieces.drop (start + 1)).head? = pieces[start + 1]? :=
          List.head?_drop
        obtain ⟨hread, hallowed⟩ := allowed_product (W := W) hkind
          (hhead.symm ▸ hbound) seen
        have hdrop : pieces.drop start =
            [pieces[start]] ++ pieces.drop (start + 1) := hdrop
        exact List.ne_nil_of_mem (mem_choicesAt_line hdrop
          (List.cons_ne_nil _ _) hread hallowed)
    | true =>
        cases hnext : pieces[start + 1]? with
        | none =>
            rw [hnext] at hbound
            cases hbound
        | some bound =>
            rw [hnext] at hbound
            obtain ⟨hnextlt, hget⟩ := List.getElem?_eq_some_iff.mp hnext
            rw [List.drop_eq_getElem_cons hnextlt, hget] at hdrop
            obtain ⟨hread, hallowed⟩ := allowed_bound (W := W) hkind hbound
              (hmarked bound (List.mem_of_getElem? hnext))
              (pieces.drop (start + 1 + 1)).head? seen
            have hdrop : pieces.drop start = [pieces[start], bound] ++
                pieces.drop (start + 1 + 1) := hdrop
            exact List.ne_nil_of_mem (mem_choicesAt_line hdrop
              (List.cons_ne_nil _ _) hread hallowed)
  · exact List.ne_nil_of_mem
      (mem_choicesAt_stray (List.getElem?_eq_getElem hlt) hkind)

/-- What the search finds is a cheapest way from the first piece. -/
theorem bestReading_cheapest (hmarked : Marked pieces) :
    Cheapest (endsAt pieces) (choicesAt W pieces) (0, none, false)
      (bestReading W pieces) := by
  have hlt : ∀ place : Place, place.1 ≤ pieces.length →
      endsAt pieces place = false → place.1 < pieces.length :=
    fun place hle hends => lt_of_le_of_ne hle (of_decide_eq_false hends)
  refine (search_cheapest cheaper_iff (fun place : Place =>
    place.1 ≤ pieces.length) (fun place => pieces.length - place.1)
    (fun place hle hends => choicesAt_ne_nil hmarked (hlt place hle hends))
    ?_ (pieces.length + 1) (Nat.zero_le _) (Nat.lt_succ_of_le (Nat.sub_le _ _))
    (fun entry hentry => absurd hentry List.not_mem_nil)).1
  rintro ⟨start, side, seen⟩ hle hends choice hchoice
  have hstart := hlt _ hle hends
  rcases choicesAt_cases hstart hchoice with
    ⟨slice, rest, kinds, hpieces, hne, -, -, rfl⟩ | ⟨piece, -, -, rfl⟩
  · have hlength := congrArg List.length hpieces
    have hpos := List.length_pos_iff.mpr hne
    rw [List.length_drop, List.length_append] at hlength
    dsimp only at hstart ⊢
    omega
  · dsimp only at hstart ⊢
    omega

/-! ## What a line of the reading says

Each line has one product, and the attributes that stand with it are its own.
-/

theorem mem_attrs {chunk : Chunk} {index : ℕ} {piece : LinePiece}
    (hpiece : chunk.pieces[index]? = some piece)
    (hkind : chunk.kinds[index]? = some .variant) :
    piece.text ∈ chunk.attrs := by
  refine List.mem_map.mpr ⟨(piece, .variant), List.mem_filter.mpr ⟨?_, rfl⟩,
    rfl⟩
  exact List.mem_of_getElem? (List.getElem?_zip_eq_some.mpr ⟨hpiece, hkind⟩)

theorem count_withoutRuns (kinds : List LineKind) :
    (withoutRuns kinds).count .product = kinds.count .product := by
  induction kinds using withoutRuns.induct with
  | case1 rest ih =>
      rw [withoutRuns, ih]
      rfl
  | case2 kind rest hnot ih =>
      rw [withoutRuns, List.count_cons, List.count_cons, ih]
      exact hnot
  | case3 => rfl

theorem shapes_one_product : ∀ shape ∈ shapes,
    shape.1.count .product ≤ 1 := by
  decide

theorem count_of_isShape {kinds : List LineKind} (h : isShape kinds = true) :
    kinds.count .product ≤ 1 := by
  unfold isShape shapeOf at h
  split at h
  · cases h
  · rw [Option.any_some, Option.isSome_iff_exists] at h
    obtain ⟨side, hside⟩ := h
    obtain ⟨before, after, hshapes, -⟩ := List.lookup_eq_some_iff.mp hside
    rw [← count_withoutRuns]
    exact shapes_one_product (withoutRuns kinds, side) (by
      rw [hshapes]
      exact List.mem_append_right _ List.mem_cons_self)

/-- There is no other place of what is counted once. -/
theorem eq_of_count_le_one {α : Type} [DecidableEq α] {xs : List α} {a : α}
    (h : xs.count a ≤ 1) {i j : ℕ} (hi : xs[i]? = some a)
    (hj : xs[j]? = some a) : i = j := by
  by_contra hne
  wlog hlt : i < j generalizing i j with hswap
  · exact hswap hj hi (Ne.symm hne)
      (lt_of_le_of_ne (Nat.le_of_not_lt hlt) (Ne.symm hne))
  have hbefore : List.Sublist [a] (xs.take j) := by
    refine List.singleton_sublist.mpr (List.mem_of_getElem? (i := i) ?_)
    rw [List.getElem?_take_of_lt hlt, hi]
  have hafter : List.Sublist [a] (xs.drop j) := by
    refine List.singleton_sublist.mpr (List.mem_of_getElem? (i := 0) ?_)
    rw [List.getElem?_drop, Nat.add_zero, hj]
  have htwo := hbefore.append hafter
  rw [List.take_append_drop] at htwo
  have hcount := List.replicate_sublist_iff.mp
    (show (List.replicate 2 a).Sublist xs from htwo)
  omega

/-- A chunk that says what the product in it is. -/
def SaysProducts (chunk : Chunk) : Prop :=
  ∀ piece ∈ chunk.pieces, piece.kind = .product →
    ∃ product, chunk.text .product = some product ∧
      (piece.text = product ∨ piece.text ∈ chunk.attrs)

theorem text_of_product {chunk : Chunk} (hshape : isShape chunk.kinds = true)
    {index : ℕ} {piece : LinePiece} (hpiece : chunk.pieces[index]? = some piece)
    (hkind : chunk.kinds[index]? = some .product) :
    chunk.text .product = some piece.text := by
  have hmem := List.mem_of_getElem? hkind
  unfold Chunk.text
  cases hfound : chunk.kinds.idxOf? .product with
  | none => exact absurd hmem (List.idxOf?_eq_none_iff.mp hfound)
  | some first =>
      have hfirst : chunk.kinds[first]? = some .product := by
        obtain ⟨hlt, hget, -⟩ := List.idxOf?_eq_some_iff.mp hfound
        rw [List.getElem?_eq_getElem hlt, hget]
      cases eq_of_count_le_one (count_of_isShape hshape) hfirst hkind
      rw [Option.bind_some, hpiece, Option.map_some]

theorem saysProducts_of_allowed {slice : List LinePiece}
    {kinds : List LineKind} (hkinds : kinds ∈ readingsOf slice)
    (hshape : isShape kinds = true) : SaysProducts ⟨slice, kinds⟩ := by
  intro piece hpiece hkind
  obtain ⟨index, hindex⟩ := List.mem_iff_getElem?.mp hpiece
  have hplain : (slice.map LinePiece.kind)[index]? = some .product := by
    rw [List.getElem?_map, hindex, Option.map_some, hkind]
  unfold readingsOf at hkinds
  dsimp only at hkinds
  split at hkinds
  · next hvaried =>
    rcases List.mem_cons.mp hkinds with rfl | hkinds
    · -- The second piece is read as an attribute of the first.
      have hfirst : (slice.map LinePiece.kind)[0]? = some .product := by
        rw [Bool.and_eq_true, Bool.and_eq_true] at hvaried
        exact of_decide_eq_true hvaried.1.2
      have hset : ((slice.map LinePiece.kind).set 1 .variant)[0]? =
          some .product := by
        rw [List.getElem?_set_ne (by decide), hfirst]
      have hhead : ∃ first, slice[0]? = some first := by
        rw [List.getElem?_map] at hfirst
        exact ⟨_, (Option.map_eq_some_iff.mp hfirst).choose_spec.1⟩
      obtain ⟨first, hhead⟩ := hhead
      refine ⟨first.text, text_of_product hshape hhead hset, ?_⟩
      by_cases hone : index = 1
      · subst hone
        refine Or.inr (mem_attrs hindex ?_)
        have hlt := (List.getElem?_eq_some_iff.mp hplain).1
        exact List.getElem?_set_self hlt
      · have hkept : ((slice.map LinePiece.kind).set 1 .variant)[index]? =
            some .product := by
          rw [List.getElem?_set_ne (Ne.symm hone), hplain]
        have hzero := eq_of_count_le_one (count_of_isShape hshape) hset hkept
        subst hzero
        exact Or.inl (congrArg LinePiece.text
          (Option.some.inj (hindex.symm.trans hhead)))
    · cases List.mem_singleton.mp hkinds
      exact ⟨_, text_of_product hshape hindex hplain, Or.inl rfl⟩
  · cases List.mem_singleton.mp hkinds
    exact ⟨_, text_of_product hshape hindex hplain, Or.inl rfl⟩

theorem Cut.saysProducts {side : Option Side} {seen : Bool}
    {parts : List Part} {cost : Cost}
    (h : Cut W pieces side seen parts cost) :
    ∀ chunk ∈ parts.flatMap Part.chunks, SaysProducts chunk := by
  induction h with
  | nil => exact fun _ hmem => absurd hmem List.not_mem_nil
  | line _ hkinds hallowed _ ih =>
      intro chunk hmem
      rcases List.mem_append.mp hmem with hmem | hmem
      · cases List.mem_singleton.mp hmem
        exact saysProducts_of_allowed hkinds (isShape_of_allowed hallowed)
      · exact ih chunk hmem
  | stray hkind _ ih =>
      intro chunk hmem
      rcases List.mem_append.mp hmem with hmem | hmem
      · unfold Part.chunks at hmem
        dsimp only at hmem
        split at hmem
        · cases List.mem_singleton.mp hmem
          intro piece hpiece hproduct
          cases List.mem_singleton.mp hpiece
          exact absurd hproduct hkind
        · cases hmem
      · exact ih chunk hmem

/-! ## The lines that are carried

Lines of one product are summed or kept apart. Either way each chunk is said by
one of them. -/

/-- What is said of a chunk with a product. -/
def SaidOf (chunk : Chunk) (said : SaidLine) : Prop :=
  chunk.text .product = some said.line.product ∧
    said.line.attrs = chunk.attrs ∧ said.stray = false

/-- Each of the chunks with a product is said, or the next is said in its
place. -/
def Carried (chunks : List Chunk) (said : List SaidLine) : Prop :=
  ∀ index chunk, chunks[index]? = some chunk →
    (chunk.text .product).isSome = true →
      (∃ next, chunks[index + 1]? = some next ∧ replacing next = true) ∨
        (index + 1 = chunks.length ∧
          ∃ last, said.getLast? = some last ∧ SaidOf chunk last) ∨
        ∃ earlier ∈ said.dropLast, SaidOf chunk earlier

theorem not_quantity_of_text {chunk : Chunk} {product : String}
    (h : chunk.text .product = some product) :
    shapeIs chunk [.quantity] = false := by
  refine decide_eq_false fun hshape => ?_
  unfold shapeOf at hshape
  split at hshape
  · cases hshape
  · have hcount : chunk.kinds.count .product = 0 := by
      rw [← count_withoutRuns, Option.some.inj hshape]
      rfl
    have hnone : chunk.kinds.idxOf? .product = none :=
      List.idxOf?_eq_none_iff.mpr (List.count_eq_zero.mp hcount)
    unfold Chunk.text at h
    rw [hnone] at h
    cases h

theorem carryLine_cases (ones : List ℕ) (index : ℕ) (chunk : Chunk)
    (next : Option Chunk) (said : List SaidLine) :
    (carryLine ones index chunk next said = said ∧ said = [] ∧
      chunk.text .product = none) ∨
      ∃ last, carryLine ones index chunk next said =
          (if replacing chunk then said.dropLast else said) ++ [last] ∧
        last.line.attrs = chunk.attrs ∧
        last.stray = shapeIs chunk [.quantity] ∧
        ∀ product, chunk.text .product = some product →
          last.line.product = product := by
  unfold carryLine
  cases htext : chunk.text .product with
  | none =>
      rw [Option.none_or]
      cases hlast : said.getLast? with
      | none => exact Or.inl ⟨rfl, List.getLast?_eq_none_iff.mp hlast, rfl⟩
      | some before =>
          refine Or.inr ⟨_, rfl, ?_, rfl, fun product h => by cases h⟩
          dsimp only
          split <;> rfl
  | some product =>
      refine Or.inr ⟨_, rfl, ?_, rfl, ?_⟩
      · dsimp only [Option.some_or]
        split <;> rfl
      · intro product' hproduct
        cases hproduct
        dsimp only [Option.some_or]
        split <;> rfl

theorem Carried.carryLine {chunks : List Chunk} {said : List SaidLine}
    (h : Carried chunks said) (ones : List ℕ) (chunk : Chunk)
    (next : Option Chunk) :
    Carried (chunks ++ [chunk])
      (carryLine ones chunks.length chunk next said) := by
  rcases carryLine_cases ones chunks.length chunk next said with
    ⟨hsaid, hnil, hnone⟩ | ⟨last, hsaid, hattrs, hstray, hproduct⟩
  · rw [hsaid]
    subst hnil
    intro index before hbefore hsome
    rcases lt_or_ge index chunks.length with hlt | hge
    · rw [List.getElem?_append_left hlt] at hbefore
      rcases h index before hbefore hsome with
        ⟨after, hafter, hreplacing⟩ | ⟨-, _, hlast, -⟩ | ⟨_, hmem, -⟩
      · refine Or.inl ⟨after, ?_, hreplacing⟩
        rw [List.getElem?_append_left (List.getElem?_eq_some_iff.mp hafter).1]
        exact hafter
      · cases hlast
      · cases hmem
    · rw [List.getElem?_append_right hge, List.getElem?_singleton] at hbefore
      split at hbefore
      · cases hbefore
        rw [hnone] at hsome
        cases hsome
      · cases hbefore
  · rw [hsaid]
    intro index before hbefore hsome
    rw [List.dropLast_concat, List.getLast?_concat, List.length_append,
      List.length_singleton]
    rcases lt_or_ge index chunks.length with hlt | hge
    · rw [List.getElem?_append_left hlt] at hbefore
      rcases h index before hbefore hsome with
        ⟨after, hafter, hreplacing⟩ | ⟨hend, line, hlast, hline⟩ |
        ⟨line, hmem, hline⟩
      · refine Or.inl ⟨after, ?_, hreplacing⟩
        rw [List.getElem?_append_left (List.getElem?_eq_some_iff.mp hafter).1]
        exact hafter
      · -- The line before is the one that a replacing chunk takes off.
        split
        · next hreplacing =>
          refine Or.inl ⟨chunk, ?_, hreplacing⟩
          rw [hend, List.getElem?_concat_length]
        · exact Or.inr (Or.inr ⟨line, List.mem_of_getLast? hlast, hline⟩)
      · refine Or.inr (Or.inr ⟨line, ?_, hline⟩)
        split
        · exact hmem
        · exact List.mem_of_mem_dropLast hmem
    · rw [List.getElem?_append_right hge, List.getElem?_singleton] at hbefore
      split at hbefore
      · next hzero =>
        cases hbefore
        obtain ⟨product, htext⟩ := Option.isSome_iff_exists.mp hsome
        refine Or.inr (Or.inl ⟨by omega, last, rfl, ?_, hattrs, ?_⟩)
        · rw [hproduct product htext, htext]
        · rw [hstray, not_quantity_of_text htext]
      · cases hbefore

theorem Carried.carryLines {chunks : List Chunk} {said : List SaidLine}
    (h : Carried chunks said) (ones : List ℕ) (rest : List Chunk) :
    Carried (chunks ++ rest)
      (carryLines ones chunks.length rest said) := by
  induction rest generalizing chunks said with
  | nil =>
      rw [List.append_nil]
      exact h
  | cons chunk rest ih =>
      have hrest := ih (h.carryLine ones chunk rest.head?)
      rw [List.append_assoc, List.length_append] at hrest
      exact hrest

/-- The line has a product with its attributes, in these or in other forms. -/
def OrderLine.Says (W : Words) (line : OrderLine) (product : String)
    (attrs : List String) : Prop :=
  (line.product = product ∧ line.attrs = attrs) ∨
    (sameName W line.product product = true ∧
      sameAttrs W line.attrs attrs = true)

theorem sumLine_cases (reading : List OrderLine × Option ℕ)
    (said : SaidLine) :
    (∃ index earlier summed, reading.1[index]? = some earlier ∧
      summed.product = earlier.product ∧ summed.attrs = earlier.attrs ∧
      (said.stray = false →
        earlier.Says W said.line.product said.line.attrs) ∧
      (sumLine W reading said).1 = reading.1.set index summed) ∨
      ∃ line, line.product = said.line.product ∧
        line.attrs = said.line.attrs ∧
        (sumLine W reading said).1 = reading.1 ++ [line] := by
  obtain ⟨lines, last⟩ := reading
  unfold sumLine
  dsimp only
  split
  · next index summed hmatch =>
    obtain ⟨target, htarget, hmatch⟩ := Option.bind_eq_some_iff.mp hmatch
    obtain ⟨earlier, hearlier, hmatch⟩ := Option.bind_eq_some_iff.mp hmatch
    obtain ⟨quantity, -, hsummed⟩ := Option.map_eq_some_iff.mp hmatch
    cases hsummed
    refine Or.inl ⟨index, earlier, { earlier with
      quantity := some quantity
      said := earlier.said ++ said.line.said }, hearlier, rfl, rfl,
      fun hstray => ?_, rfl⟩
    rw [if_neg (by rw [hstray]; decide)] at htarget
    obtain ⟨⟨found, place⟩, hfind, rfl⟩ := Option.map_eq_some_iff.mp htarget
    have hplace := List.mem_of_find?_eq_some hfind
    rw [List.mem_reverse, List.mem_zipIdx_iff_getElem?] at hplace
    have hsame := List.find?_some hfind
    rw [Bool.and_eq_true] at hsame
    cases hplace.symm.trans hearlier
    exact Or.inr hsame
  · refine Or.inr ⟨_, ?_, ?_, rfl⟩
    · split <;> rfl
    · split <;> rfl

/-- A line stays, with its product and its attributes. -/
theorem sumLine_keeps {reading : List OrderLine × Option ℕ} (said : SaidLine)
    {product : String} {attrs : List String}
    (h : ∃ line ∈ reading.1, line.Says W product attrs) :
    ∃ line ∈ (sumLine W reading said).1, line.Says W product attrs := by
  obtain ⟨line, hmem, hsays⟩ := h
  rcases sumLine_cases (W := W) reading said with
    ⟨index, earlier, summed, hearlier, hproduct, hattrs, -, hlines⟩ |
    ⟨added, -, -, hlines⟩
  · rw [hlines]
    obtain ⟨place, hplace⟩ := List.mem_iff_getElem?.mp hmem
    by_cases hsame : index = place
    · subst hsame
      cases hplace.symm.trans hearlier
      refine ⟨summed, List.mem_of_getElem? (i := index) ?_, ?_⟩
      · exact List.getElem?_set_self (List.getElem?_eq_some_iff.mp hplace).1
      · unfold OrderLine.Says
        rw [hproduct, hattrs]
        exact hsays
    · refine ⟨line, List.mem_of_getElem? (i := place) ?_, hsays⟩
      rw [List.getElem?_set_ne hsame, hplace]
  · rw [hlines]
    exact ⟨line, List.mem_append_left _ hmem, hsays⟩

theorem sumLine_told (reading : List OrderLine × Option ℕ) {said : SaidLine}
    (hstray : said.stray = false) :
    ∃ line ∈ (sumLine W reading said).1,
      line.Says W said.line.product said.line.attrs := by
  rcases sumLine_cases (W := W) reading said with
    ⟨index, earlier, summed, hearlier, hproduct, hattrs, hsays, hlines⟩ |
    ⟨added, hproduct, hattrs, hlines⟩
  · rw [hlines]
    refine ⟨summed, List.mem_of_getElem? (i := index) ?_, ?_⟩
    · exact List.getElem?_set_self (List.getElem?_eq_some_iff.mp hearlier).1
    · unfold OrderLine.Says
      rw [hproduct, hattrs]
      exact hsays hstray
  · rw [hlines]
    exact ⟨added, List.mem_append_right _ (List.mem_singleton.mpr rfl),
      Or.inl ⟨hproduct, hattrs⟩⟩

theorem foldl_sumLine_keeps (said : List SaidLine)
    {reading : List OrderLine × Option ℕ} {product : String}
    {attrs : List String}
    (h : ∃ line ∈ reading.1, line.Says W product attrs) :
    ∃ line ∈ (said.foldl (sumLine W) reading).1,
      line.Says W product attrs := by
  induction said generalizing reading with
  | nil => exact h
  | cons next rest ih => exact ih (sumLine_keeps next h)

theorem summed_says {said : List SaidLine} {line : SaidLine}
    (hmem : line ∈ said) (hstray : line.stray = false) :
    ∃ found ∈ summed W said,
      found.Says W line.line.product line.line.attrs := by
  obtain ⟨before, after, rfl⟩ := List.append_of_mem hmem
  rw [summed, List.foldl_append, List.foldl_cons]
  exact foldl_sumLine_keeps after (sumLine_told _ hstray)

/-- Each product of a reading is in a line, unless the next chunk is said in
the place of its line. -/
theorem carriedLines_says (W : Words) {chunks : List Chunk} {index : ℕ}
    {chunk : Chunk} (hchunk : chunks[index]? = some chunk) {product : String}
    (htext : chunk.text .product = some product) :
    (∃ next, chunks[index + 1]? = some next ∧ replacing next = true) ∨
      ∃ line ∈ carriedLines W chunks, line.Says W product chunk.attrs := by
  have hnone : Carried [] [] := fun _ _ h => by cases h
  have hcarried := hnone.carryLines (spreadCounts W chunks) chunks
  have hsaid : ∀ said ∈ carryLines (spreadCounts W chunks) 0 chunks [],
      SaidOf chunk said → ∃ line ∈ carriedLines W chunks,
        line.Says W product chunk.attrs := by
    intro said hmem hof
    obtain ⟨line, hline, hsays⟩ := summed_says (W := W) hmem hof.2.2
    refine ⟨line, hline, ?_⟩
    rw [← hof.2.1, Option.some.inj (htext.symm.trans hof.1)]
    exact hsays
  rcases hcarried index chunk hchunk (by rw [htext]; rfl) with
    hreplaced | ⟨-, last, hlast, hof⟩ | ⟨earlier, hmem, hof⟩
  · exact Or.inl hreplaced
  · exact Or.inr (hsaid last (List.mem_of_getLast? hlast) hof)
  · exact Or.inr (hsaid earlier (List.mem_of_mem_dropLast hmem) hof)

/-! ## The reading

Pieces without marks come out as the lines of a cheapest cut. -/

/-- A reading of the pieces, and the lines of it. -/
structure ReadsBest (W : Words) (pieces : List LinePiece) (reading : Reading)
    (lines : List OrderLine) : Prop where
  cut : ∃ parts, Cut W pieces none false parts reading.cost ∧
    reading.parts = parts.flatMap Part.chunks ∧
    parts.flatMap Part.pieces = pieces
  least : ∀ parts cost, Cut W pieces none false parts cost →
    reading.cost ≤ cost
  products : (reading.parts.flatMap Chunk.pieces).filter isProduct =
    pieces.filter isProduct
  said : ∀ index chunk, reading.parts[index]? = some chunk →
    ∀ piece ∈ chunk.pieces, piece.kind = .product →
      (∃ next, reading.parts[index + 1]? = some next ∧
        replacing next = true) ∨
      ∃ line ∈ lines, ∃ product attrs, line.Says W product attrs ∧
        (piece.text = product ∨ piece.text ∈ attrs)

/-- Whatever pieces were given with no mark, the lines are those of a cheapest
reading of the repaired pieces, with every product in one of its chunks. -/
theorem linesBySide_reads (W : Words) (given : List LinePiece)
    (takeBack : Bool) (hgiven : ∀ piece ∈ given, piece.replaces = false)
    (hproduct : ∃ piece ∈ repaired W given takeBack,
      piece.kind = .product) :
    ∃ side, linesBySide W given takeBack = some side ∧
      ReadsBest W (repaired W given takeBack)
        (bestReading W (repaired W given takeBack)) side.lines := by
  have hmarked := marked_repaired W hgiven takeBack
  generalize hpieces : repaired W given takeBack = pieces
    at hproduct hmarked ⊢
  have hany : pieces.any (fun piece => piece.kind = .product) = true := by
    obtain ⟨piece, hmem, hkind⟩ := hproduct
    exact List.any_eq_true.mpr ⟨piece, hmem, decide_eq_true hkind⟩
  have hbest := bestReading_cheapest (W := W) hmarked
  obtain ⟨parts, hcut, hparts⟩ := cut_of_ways hbest.way (Nat.zero_le _)
  rw [List.drop_zero] at hcut
  have hlines : linesBySide W given takeBack =
      some ⟨carriedLines W (bestReading W pieces).parts,
        pieces.length - ((bestReading W pieces).parts.map fun chunk =>
          chunk.pieces.length).sum⟩ := by
    unfold linesBySide
    rw [hpieces]
    exact if_pos hany
  refine ⟨_, hlines, ?_⟩
  refine ⟨⟨parts, hcut, hparts, hcut.pieces_eq⟩, fun others cost hother => ?_,
    ?_, fun index chunk hchunk piece hpiece hkind => ?_⟩
  · exact hbest.least _
      (ways_of_cut hother (show pieces.drop 0 = pieces from rfl)
        (Nat.zero_le _))
  · rw [hparts]
    exact hcut.products_eq
  · have hmem := List.mem_of_getElem? hchunk
    rw [hparts] at hmem
    obtain ⟨product, htext, hsaid⟩ :=
      hcut.saysProducts chunk hmem piece hpiece hkind
    rcases carriedLines_says W hchunk htext with hreplaced |
      ⟨line, hline, hsays⟩
    · exact Or.inl hreplaced
    · exact Or.inr ⟨line, hline, product, chunk.attrs, hsays, hsaid⟩

end Reader

/-- Words that match as they are, numbers in one digit and no units. -/
def plainWords : Words where
  wordMatch := fun word other => word = other
  valueOf := fun said =>
    match said.toList with
    | [c] => if isDigit c then some (c.toNat - 48 : ℕ) else none
    | _ => none
  isUnit := fun _ => false
  isPieceUnit := fun _ => false
  canonicalSum := fun sum => String.ofList (Nat.toDigits 10 sum.num.toNat)

/-- «2 торт з малиною ой ні 3». -/
def cakes : List LinePiece :=
  [⟨.quantity, "2", [], false, false, false, false⟩,
    ⟨.product, "торт", [], false, false, false, false⟩,
    ⟨.variant, "малиною", ["з"], false, false, false, false⟩,
    ⟨.quantity, "3", ["ой", "ні"], false, false, false, false⟩]

theorem linesBySide_reads_cakes :
    ∃ side, linesBySide plainWords cakes false = some side ∧
      ReadsBest plainWords (repaired plainWords cakes false)
        (bestReading plainWords (repaired plainWords cakes false))
        side.lines :=
  linesBySide_reads plainWords cakes false (by decide)
    (by decide)

end Shozee.Sho.Lines
