import Shozee.Sho.Symbols
import Shozee.Sho.Characters

/-!
# What a text is encoded to

What is kept of a piece depends on its characters alone, and these can be told
from the text it is kept under, so a text is encoded alike whatever was encoded
before (`encode_eq`). The items of the tokens are those of the text in their
order, so that offsets do not go back (`offsetOf_pairwise`) and what is no
white space is in one of them (`offsetOf_covers`). The rank of a merge is that
of its first occurrence (`ranksOf_eq`).
-/

namespace Shozee.Sho.Tokenizer

open Shozee.Run
open Shozee.Validation (isSpaceUnit)

section Encode

variable {spec : TokenizerSpec}

/-! ## The cache

What is kept under the text of a piece is what the piece is merged to. So
looking it up is computing it, and the cache can be forgotten. -/

/-- What a piece is merged to depends on its characters alone. -/
theorem mergedOf_congr {piece other : List Item}
    (h : piece.map Item.char = other.map Item.char) :
    mergedOf spec piece = mergedOf spec other := by
  have hsymbols : ∀ piece : List Item, symbolsOf spec piece =
      (piece.map Item.char).zipIdx.foldl (fun symbols entry =>
        pushSymbol spec symbols (⟨entry.1, 0, 0⟩, entry.2)) [] := by
    intro piece
    rw [List.zipIdx_map, List.foldl_map]
    rfl
  unfold mergedOf
  rw [hsymbols, hsymbols, h]

variable (spec) in
/-- What is kept is what the piece is merged to, for every piece with the
text. -/
def Kept (cache : Cache) : Prop :=
  ∀ piece merged, Legible (piece.map Item.char) →
    cache (keyOf piece) = some merged → merged = mergedOf spec piece

theorem kept_empty : Kept spec Dict.empty :=
  fun _ _ _ h => absurd h.symm (Option.some_ne_none _)

theorem Kept.set {cache : Cache} (h : Kept spec cache) {piece : List Item}
    (hpiece : Legible (piece.map Item.char)) :
    Kept spec (cache.set (keyOf piece) (mergedOf spec piece)) := by
  intro other merged hother hmerged
  rw [Dict.set_apply] at hmerged
  split at hmerged
  next hkey =>
    rw [← Option.some.inj hmerged]
    exact mergedOf_congr (map_char_eq hpiece hother hkey.symm)
  next => exact h other merged hother hmerged

variable (spec) in
/-- The tokens of a piece, without a cache. -/
def tokensOfPiece (piece : List Item) : List Token :=
  (mergedOf spec piece).map (tokenOf piece)

theorem encodePiece_eq {cache : Cache} (h : Kept spec cache)
    {piece : List Item} (hpiece : Legible (piece.map Item.char)) :
    (encodePiece spec cache piece).1 = tokensOfPiece spec piece ∧
      Kept spec (encodePiece spec cache piece).2 := by
  unfold encodePiece
  split
  next merged hmerged =>
    exact ⟨by rw [h piece merged hpiece hmerged]; rfl, h⟩
  next => exact ⟨rfl, h.set hpiece⟩

theorem foldl_encodePiece {pieces : List (List Item)}
    (hpieces : ∀ piece ∈ pieces, Legible (piece.map Item.char))
    (tokens : List Token) {cache : Cache} (h : Kept spec cache) :
    (pieces.foldl (fun (tokens, cache) piece =>
      let (found, cache) := encodePiece spec cache piece
      (tokens ++ found, cache)) (tokens, cache)).1 =
        tokens ++ pieces.flatMap (tokensOfPiece spec) ∧
      Kept spec (pieces.foldl (fun (tokens, cache) piece =>
        let (found, cache) := encodePiece spec cache piece
        (tokens ++ found, cache)) (tokens, cache)).2 := by
  induction pieces generalizing tokens cache with
  | nil => exact ⟨by simp, h⟩
  | cons piece pieces ih =>
      have hpiece := encodePiece_eq h (hpieces piece List.mem_cons_self)
      have ih := ih (fun piece hmem =>
        hpieces piece (List.mem_cons_of_mem _ hmem))
        (tokens ++ (encodePiece spec cache piece).1) hpiece.2
      rw [List.foldl_cons, List.flatMap_cons, ← List.append_assoc,
        ← hpiece.1]
      exact ih

theorem encodePieces_eq {cache : Cache} (h : Kept spec cache)
    {pieces : List (List Item)}
    (hpieces : ∀ piece ∈ pieces, Legible (piece.map Item.char)) :
    (encodePieces spec cache pieces).1 =
        pieces.flatMap (tokensOfPiece spec) ∧
      Kept spec (encodePieces spec cache pieces).2 :=
  foldl_encodePiece hpieces [] h

variable (spec) in
/-- The tokens of a text, without a cache. -/
def tokensOf (text : CodeUnits) : List Token :=
  (pieces text).flatMap (tokensOfPiece spec)

variable (spec) in
/-- What a text is encoded to, without a cache. -/
def encodingOf (limits : TokenizerLimits) (text : CodeUnits) : Encoding :=
  let content := sliceTo (tokensOf spec text) (limits.maxLength - 2)
  ⟨limits.bosId :: content.map Token.id ++ [limits.eosId],
    (0, 0) :: content.map (fun token => offsetOf text token.items) ++ [(0, 0)]⟩

variable (spec) in
/-- The cache after texts that were encoded, from the first one on. -/
def cacheAfter (limits : TokenizerLimits) (texts : List CodeUnits) : Cache :=
  texts.foldl (fun cache text => (encode spec limits cache text).2) Dict.empty

theorem encode_eq (limits : TokenizerLimits) {cache : Cache}
    (h : Kept spec cache) (text : CodeUnits) :
    (encode spec limits cache text).1 = encodingOf spec limits text ∧
      Kept spec (encode spec limits cache text).2 := by
  obtain ⟨htokens, hkept⟩ := encodePieces_eq h fun piece hpiece =>
    @pieces_legible text _ hpiece
  refine ⟨?_, hkept⟩
  unfold encode encodingOf tokensOf
  rw [← htokens]

theorem kept_cacheAfter (limits : TokenizerLimits) (texts : List CodeUnits) :
    Kept spec (cacheAfter spec limits texts) := by
  suffices hfold : ∀ cache, Kept spec cache → Kept spec (texts.foldl
      (fun cache text => (encode spec limits cache text).2) cache) from
    hfold _ kept_empty
  induction texts with
  | nil => exact fun _ h => h
  | cons text texts ih => exact fun cache h => ih _ (encode_eq limits h text).2

/-! ## The items of the tokens

Merging joins neighbours and keeps their order. The items of the tokens of a
text are the items of the text. -/

theorem mem_mergedOf {piece : List Item} {encoded : Encoded}
    (h : encoded ∈ mergedOf spec piece) :
    encoded.positions ≠ [] ∧
      ∀ position ∈ encoded.positions, position < piece.length := by
  obtain ⟨symbol, hsymbol, rfl⟩ := List.mem_map.mp h
  obtain ⟨hpositions, hsound⟩ := @merge_positions spec piece
  refine ⟨(hsound symbol hsymbol).positions_ne, fun position hmem => ?_⟩
  rw [← @mem_positionsOf spec, ← hpositions]
  exact List.mem_flatMap.mpr ⟨symbol, hsymbol, hmem⟩

variable (spec) in
/-- The items of a piece, where each symbol has them. -/
theorem items_of_piece (piece : List Item) :
    (tokensOfPiece spec piece).flatMap Token.items =
      (positionsOf spec piece).flatMap fun position =>
        piece[position]?.toList := by
  rw [← (merge_positions piece).1]
  unfold tokensOfPiece mergedOf tokenOf
  rw [List.flatMap_map, List.flatMap_map, List.flatMap_assoc]

theorem pairwise_of_positions {piece : List Item} (h : piece.Pairwise Before)
    {positions : List ℕ} (hpositions : positions.Pairwise (· ≤ ·)) :
    (positions.flatMap fun position => piece[position]?.toList).Pairwise
      Before := by
  rw [List.pairwise_flatMap]
  refine ⟨fun position _ => ?_,
    hpositions.imp fun hle item hitem other hother => ?_⟩
  · cases piece[position]? with
    | none => exact .nil
    | some item => exact List.pairwise_singleton _ _
  · obtain ⟨hlt, rfl⟩ := List.getElem?_eq_some_iff.mp
      (Option.mem_toList.mp hitem)
    obtain ⟨hlt', rfl⟩ := List.getElem?_eq_some_iff.mp
      (Option.mem_toList.mp hother)
    rcases Nat.lt_or_eq_of_le hle with hlt'' | rfl
    · exact List.pairwise_iff_getElem.mp h _ _ hlt hlt' hlt''
    · exact ⟨Nat.le_refl _, Nat.le_refl _⟩

variable (spec) in
theorem items_of_text (text : CodeUnits) :
    (tokensOf spec text).flatMap Token.items =
      (pieces text).flatMap fun piece =>
        (positionsOf spec piece).flatMap fun position =>
          piece[position]?.toList := by
  unfold tokensOf
  rw [List.flatMap_assoc]
  exact List.flatMap_congr fun piece _ => items_of_piece spec piece

/-- The items of the tokens of a text, in the text's order. -/
theorem items_pairwise (text : CodeUnits) :
    ((tokensOf spec text).flatMap Token.items).Pairwise Before := by
  have hchars := charsOf_pairwise text
  rw [← pieces_flatten, List.pairwise_flatten] at hchars
  have hmem : ∀ {piece : List Item} {positions : List ℕ} {item : Item},
      item ∈ positions.flatMap (fun position => piece[position]?.toList) →
        item ∈ piece := by
    intro piece positions item hitem
    obtain ⟨position, -, hitem⟩ := List.mem_flatMap.mp hitem
    exact List.mem_of_getElem? (Option.mem_toList.mp hitem)
  rw [items_of_text, List.pairwise_flatMap]
  refine ⟨fun piece hpiece => pairwise_of_positions (hchars.1 piece hpiece) ?_,
    hchars.2.imp fun hall item hitem other hother =>
      hall item (hmem hitem) other (hmem hother)⟩
  exact (positionsOf_pairwise piece).imp fun h =>
    h.elim Nat.le_of_lt fun heq => Nat.le_of_eq heq.1

theorem items_covers {text : CodeUnits} {item : Item}
    (h : item ∈ charsOf text) :
    ∃ token ∈ tokensOf spec text, item ∈ token.items := by
  rw [← List.mem_flatMap, items_of_text]
  rw [← pieces_flatten] at h
  obtain ⟨piece, hpiece, hitem⟩ := List.mem_flatten.mp h
  obtain ⟨position, hlt, rfl⟩ := List.getElem_of_mem hitem
  refine List.mem_flatMap.mpr ⟨piece, hpiece, List.mem_flatMap.mpr
    ⟨position, mem_positionsOf.mpr hlt, ?_⟩⟩
  exact Option.mem_toList.mpr (List.getElem?_eq_getElem hlt)

theorem mem_tokensOf {text : CodeUnits} {token : Token}
    (h : token ∈ tokensOf spec text) :
    token.items ≠ [] ∧
      ∀ item ∈ token.items, Within 0 text.length item := by
  obtain ⟨piece, hpiece, htoken⟩ := List.mem_flatMap.mp h
  obtain ⟨encoded, hencoded, rfl⟩ := List.mem_map.mp htoken
  obtain ⟨hne, hlt⟩ := mem_mergedOf hencoded
  constructor
  · obtain ⟨position, rest, heq⟩ := List.exists_cons_of_ne_nil hne
    have hposition := hlt position (heq ▸ List.mem_cons_self)
    refine List.ne_nil_of_mem (List.mem_flatMap.mpr ⟨position,
      heq ▸ List.mem_cons_self, Option.mem_toList.mpr
        (List.getElem?_eq_getElem hposition)⟩)
  · intro item hitem
    obtain ⟨position, -, hitem⟩ := List.mem_flatMap.mp hitem
    refine charsOf_within text item ?_
    rw [← pieces_flatten]
    exact List.mem_flatten.mpr ⟨piece, hpiece,
      List.mem_of_getElem? (Option.mem_toList.mp hitem)⟩

/-! ## Offsets

A token begins where its first item does, after white space, and ends with its
last one. -/

/-- From `start` on only white space is passed, and what is not passed is the
end or no white space. -/
theorem skipBlank_spec (text : CodeUnits) (width start : ℕ) :
    start ≤ skipBlank text width start ∧
      skipBlank text width start ≤ start + width ∧
      (∀ k, start ≤ k → k < skipBlank text width start →
        (text[k]?).any isSpaceUnit = true) ∧
      (skipBlank text width start = start + width ∨
        (text[skipBlank text width start]?).any isSpaceUnit = false) := by
  induction width generalizing start with
  | zero =>
      exact ⟨Nat.le_refl _, Nat.le_refl _, fun k hle hlt =>
        absurd hlt (Nat.not_lt.mpr hle), .inl rfl⟩
  | succ width ih =>
      unfold skipBlank
      split
      next hspace =>
        obtain ⟨hle, hle', hall, hend⟩ := ih (start + 1)
        refine ⟨by omega, by omega, fun k hk hk' => ?_, ?_⟩
        · rcases Nat.eq_or_lt_of_le hk with rfl | hk
          · exact hspace
          · exact hall k hk hk'
        · rcases hend with hend | hend
          · exact .inl (by omega)
          · exact .inr hend
      next hspace =>
        exact ⟨Nat.le_refl _, Nat.le_add_right _ _, fun k hle hlt =>
          absurd hlt (Nat.not_lt.mpr hle), .inr (eq_false_of_ne_true hspace)⟩

theorem skipBlank_mono {text : CodeUnits} {width width' start start' : ℕ}
    (hstart : start ≤ start') (hend : start + width ≤ start' + width') :
    skipBlank text width start ≤ skipBlank text width' start' := by
  obtain ⟨-, hle, hall, -⟩ := skipBlank_spec text width start
  obtain ⟨hle', -, -, hstop⟩ := skipBlank_spec text width' start'
  by_contra hlt
  have hlt := Nat.lt_of_not_le hlt
  rcases hstop with hstop | hstop
  · omega
  · have hspace := hall _ (Nat.le_trans hstart hle') hlt
    rw [hstop] at hspace
    exact Bool.false_ne_true hspace

/-- A token that has items begins where the first one does, or at what is no
white space after that, and ends where the last one does. -/
theorem offsetOf_eq {text : CodeUnits} {items : List Item} (h : items ≠ []) :
    offsetOf text items =
      (skipBlank text ((items.getLast h).stop - (items.head h).start)
        (items.head h).start, (items.getLast h).stop) := by
  unfold offsetOf
  rw [List.head?_eq_some_head h, List.getLast?_eq_some_getLast h]

theorem before_refl (item : Item) : Before item item :=
  ⟨Nat.le_refl _, Nat.le_refl _⟩

theorem head_before {items : List Item} (h : items ≠ [])
    (hitems : items.Pairwise Before) {item : Item} (hmem : item ∈ items) :
    Before (items.head h) item := by
  cases items with
  | nil => exact absurd rfl h
  | cons first items =>
      rcases List.mem_cons.mp hmem with rfl | hmem
      · exact before_refl item
      · exact (List.pairwise_cons.mp hitems).1 item hmem

theorem before_getLast {items : List Item} (h : items ≠ [])
    (hitems : items.Pairwise Before) {item : Item} (hmem : item ∈ items) :
    Before item (items.getLast h) := by
  have hsplit := List.dropLast_append_getLast h
  rw [← hsplit, List.pairwise_append] at hitems
  rw [← hsplit] at hmem
  rcases List.mem_append.mp hmem with hmem | hmem
  · exact hitems.2.2 item hmem _ (List.mem_singleton_self _)
  · rw [List.mem_singleton.mp hmem]
    exact before_refl _

theorem items_of_token {text : CodeUnits} {token : Token}
    (h : token ∈ tokensOf spec text) : token.items.Pairwise Before :=
  (List.pairwise_flatMap.mp (items_pairwise text)).1 token h

theorem offsetOf_within {text : CodeUnits} {token : Token}
    (h : token ∈ tokensOf spec text) :
    (offsetOf text token.items).1 ≤ (offsetOf text token.items).2 ∧
      (offsetOf text token.items).2 ≤ text.length := by
  obtain ⟨hne, hwithin⟩ := mem_tokensOf h
  have hbefore := head_before hne (items_of_token h) (List.getLast_mem hne)
  have hfirst := hwithin _ (List.head_mem hne)
  have hlast := hwithin _ (List.getLast_mem hne)
  rw [offsetOf_eq hne]
  refine ⟨?_, hlast.2.2⟩
  have hskip := (skipBlank_spec text ((token.items.getLast hne).stop -
    (token.items.head hne).start) (token.items.head hne).start).2.1
  have hle := hbefore.2
  have hlt := hfirst.2.1
  dsimp only
  omega

/-- Offsets do not go back. -/
theorem offsetOf_pairwise (text : CodeUnits) :
    (tokensOf spec text).Pairwise fun token other =>
      (offsetOf text token.items).1 ≤ (offsetOf text other.items).1 ∧
        (offsetOf text token.items).2 ≤ (offsetOf text other.items).2 := by
  refine (List.pairwise_flatMap.mp (items_pairwise text)).2.imp_of_mem ?_
  intro token other htoken hother hall
  obtain ⟨hne, hwithin⟩ := mem_tokensOf htoken
  obtain ⟨hne', hwithin'⟩ := mem_tokensOf hother
  have hstart := (hall _ (List.head_mem hne) _ (List.head_mem hne')).1
  have hstop := (hall _ (List.getLast_mem hne) _ (List.getLast_mem hne')).2
  have hbefore := head_before hne (items_of_token htoken)
    (List.getLast_mem hne)
  have hbefore' := head_before hne' (items_of_token hother)
    (List.getLast_mem hne')
  have hfirst := (hwithin _ (List.head_mem hne)).2.1
  have hfirst' := (hwithin' _ (List.head_mem hne')).2.1
  have hle := hbefore.2
  have hle' := hbefore'.2
  rw [offsetOf_eq hne, offsetOf_eq hne']
  exact ⟨skipBlank_mono hstart (by omega), hstop⟩

/-- What is no white space is in the offset of a token. -/
theorem offsetOf_covers {text : CodeUnits} {k : ℕ} {unit : CodeUnit}
    (hunit : text[k]? = some unit) (hspace : isSpaceUnit unit = false) :
    ∃ token ∈ tokensOf spec text,
      (offsetOf text token.items).1 ≤ k ∧ k < (offsetOf text token.items).2 := by
  obtain ⟨item, hitem, hstart, hstop⟩ :=
    charsOf_covers (List.getElem?_eq_some_iff.mp hunit).1
  obtain ⟨token, htoken, hmem⟩ := @items_covers spec _ _ hitem
  obtain ⟨hne, -⟩ := mem_tokensOf htoken
  have hitems := items_of_token htoken
  refine ⟨token, htoken, ?_⟩
  rw [offsetOf_eq hne]
  have hfirst := (head_before hne hitems hmem).1
  have hlast := (before_getLast hne hitems hmem).2
  refine ⟨?_, Nat.lt_of_lt_of_le hstop hlast⟩
  by_contra hlt
  have hpassed := (skipBlank_spec text _ _).2.2.1 k
    (Nat.le_trans hfirst hstart) (Nat.lt_of_not_le hlt)
  rw [hunit, Option.any_some, hspace] at hpassed
  exact Bool.false_ne_true hpassed

/-! ## Ranks

Of two merges of the same texts the first one counts, as a key is set once. -/

variable (spec) in
/-- The rank of the first merge of the two texts, if there is a token for what
they make. -/
def rankOf (left right : CodeUnits) : Option ℕ :=
  if (spec.vocab (left ++ right)).isSome then
    spec.merges.idxOf? (left, right)
  else none

/-- The first value set under a key stays. -/
theorem setNew_apply (row : Dict CodeUnits ℕ) (key right : CodeUnits)
    (rank : ℕ) :
    (if (row key).isSome then row else row.set key rank) right =
      (row right).or (if key = right then some rank else none) := by
  cases hrow : row key with
  | some old =>
      rw [if_pos Option.isSome_some]
      by_cases hkey : key = right
      · rw [← hkey, hrow, Option.some_or]
      · rw [if_neg hkey, Option.or_none]
  | none =>
      rw [if_neg (by simp), Dict.set_apply]
      by_cases hkey : key = right
      · rw [if_pos hkey.symm, if_pos hkey, ← hkey, hrow, Option.none_or]
      · rw [if_neg (Ne.symm hkey), if_neg hkey, Option.or_none]

theorem pushMerge_bind (vocab : Dict CodeUnits ℤ)
    (ranks : Dict CodeUnits (Dict CodeUnits ℕ))
    (pair : CodeUnits × CodeUnits) (rank : ℕ) (left right : CodeUnits) :
    ((pushMerge vocab ranks (pair, rank)) left).bind (fun row => row right) =
      ((ranks left).bind fun row => row right).or
        (if (vocab (left ++ right)).isSome ∧ pair = (left, right) then
          some rank
        else none) := by
  obtain ⟨left', right'⟩ := pair
  unfold pushMerge
  dsimp only
  have hrow : ∀ left, ((ranks left).getD Dict.empty) right =
      (ranks left).bind fun row => row right := by
    intro left
    cases ranks left <;> rfl
  split
  next hvocab =>
    rw [if_neg, Option.or_none]
    rintro ⟨hsome, heq⟩
    obtain ⟨rfl, rfl⟩ := Prod.mk.inj heq
    rw [Option.isNone_iff_eq_none.mp hvocab] at hsome
    exact Bool.false_ne_true hsome
  next hvocab =>
    rw [Dict.set_apply]
    by_cases hleft : left = left'
    · subst hleft
      rw [if_pos rfl, Option.bind_some, setNew_apply, hrow]
      refine congrArg _ ?_
      by_cases hright : right' = right
      · subst hright
        rw [Option.isNone_iff_eq_none] at hvocab
        rw [if_pos rfl, if_pos ⟨Option.isSome_iff_ne_none.mpr hvocab, rfl⟩]
      · rw [if_neg hright, if_neg fun h => hright (Prod.mk.inj h.2).2]
    · rw [if_neg hleft, if_neg fun h => hleft (Prod.mk.inj h.2).1.symm,
        Option.or_none]

theorem foldl_pushMerge (vocab : Dict CodeUnits ℤ)
    (merges : List (CodeUnits × CodeUnits)) (start : ℕ)
    (ranks : Dict CodeUnits (Dict CodeUnits ℕ)) (left right : CodeUnits) :
    (((merges.zipIdx start).foldl (pushMerge vocab) ranks) left).bind
        (fun row => row right) =
      ((ranks left).bind fun row => row right).or
        (if (vocab (left ++ right)).isSome then
          (merges.idxOf? (left, right)).map (start + ·)
        else none) := by
  induction merges generalizing start ranks with
  | nil => simp
  | cons pair merges ih =>
      rw [List.zipIdx_cons, List.foldl_cons, ih, pushMerge_bind,
        Option.or_assoc, List.idxOf?_cons]
      refine congrArg _ ?_
      by_cases hvocab : (vocab (left ++ right)).isSome
      · by_cases hpair : pair = (left, right)
        · simp [hvocab, hpair]
        · simp [hvocab, hpair, Option.map_map, Function.comp_def,
            Nat.add_assoc, Nat.add_comm 1]
      · simp [hvocab]

/-- The table that the constructor fills has the rank of the first merge. -/
theorem ranksOf_eq (left right : CodeUnits) :
    (ranksOf spec left).bind (fun row => row right) =
      rankOf spec left right := by
  have hfold := foldl_pushMerge spec.vocab spec.merges 0 Dict.empty left right
  refine hfold.trans ?_
  unfold rankOf
  simp [Dict.empty]

variable (spec) in
/-- The rank of two neighbours that can be merged. -/
def mergeRank (left right : BpeSymbol) : Option ℕ :=
  if left.atomic || right.atomic || left.unknown || right.unknown then none
  else rankOf spec left.text right.text

theorem pairRank_eq : pairRank spec = mergeRank spec := by
  funext left right
  unfold pairRank mergeRank
  rw [ranksOf_eq]

end Encode

/-! ## The whole

The parts of the contract, for a text after any others. -/

section Faithful

variable (spec : TokenizerSpec) (limits : TokenizerLimits)

/-- The offsets of the tokens between the first and the last one, which are
special. -/
def innerOffsets (encoding : Encoding) : List Offset :=
  encoding.offsets.tail.dropLast

/-- What a text is encoded to after other texts were encoded. -/
structure Faithful (before : List CodeUnits) (text : CodeUnits) : Prop where
  ends : ∀ piece ∈ pieces text, ∃ rounds,
    mergeLoop (pairRank spec) joined rounds (symbolsOf spec piece) =
      some (merge spec (symbolsOf spec piece))
  merged : ∀ piece ∈ pieces text, ∀ symbols,
    Merged (mergeRank spec) joined (symbolsOf spec piece) symbols ↔
      symbols = merge spec (symbolsOf spec piece)
  done : ∀ piece ∈ pieces text, ∀ i,
    rankAt (mergeRank spec) (merge spec (symbolsOf spec piece)) i = none
  positions : ∀ piece ∈ pieces text,
    (merge spec (symbolsOf spec piece)).flatMap BpeSymbol.positions =
        positionsOf spec piece ∧
      ∀ symbol ∈ merge spec (symbolsOf spec piece),
        symbol.positions ≠ [] ∧ symbol.positions.Pairwise (· < ·)
  encoding : (encode spec limits (cacheAfter spec limits before) text).1 =
    encodingOf spec limits text
  within : ∀ offset ∈ innerOffsets
      (encode spec limits (cacheAfter spec limits before) text).1,
    offset.1 ≤ offset.2 ∧ offset.2 ≤ text.length
  ordered : (innerOffsets
      (encode spec limits (cacheAfter spec limits before) text).1).Pairwise
    fun offset next => offset.1 ≤ next.1 ∧ offset.2 ≤ next.2
  covers : ((tokensOf spec text).length : ℤ) ≤ limits.maxLength - 2 →
    ∀ k unit, text[k]? = some unit → isSpaceUnit unit = false →
      ∃ offset ∈ innerOffsets
          (encode spec limits (cacheAfter spec limits before) text).1,
        offset.1 ≤ k ∧ k < offset.2

theorem innerOffsets_encodingOf (text : CodeUnits) :
    innerOffsets (encodingOf spec limits text) =
      (sliceTo (tokensOf spec text) (limits.maxLength - 2)).map fun token =>
        offsetOf text token.items := by
  unfold innerOffsets encodingOf
  dsimp only
  rw [List.cons_append, List.tail_cons, List.dropLast_concat]

theorem sliceTo_sublist {α : Type} (l : List α) (stop : ℤ) :
    (sliceTo l stop).Sublist l :=
  List.take_sublist _ l

theorem sliceTo_of_le {α : Type} {l : List α} {stop : ℤ}
    (h : (l.length : ℤ) ≤ stop) : sliceTo l stop = l := by
  unfold sliceTo
  rw [if_neg (by omega), List.take_of_length_le (by omega)]

/-- Encoding is faithful, whatever was encoded and kept before. -/
theorem encode_faithful (before : List CodeUnits) (text : CodeUnits) :
    Faithful spec limits before text := by
  have hencoding :=
    (encode_eq limits (@kept_cacheAfter spec limits before) text).1
  have hmerged : ∀ symbols,
      Merged (mergeRank spec) joined symbols (merge spec symbols) := by
    intro symbols
    rw [← pairRank_eq]
    exact merge_merged spec symbols
  refine ⟨fun piece _ => ?_, fun piece _ symbols => ?_, fun piece _ => ?_,
    fun piece _ => ?_, hencoding, ?_, ?_, fun hall k unit hunit hspace => ?_⟩
  · have hends : ∃ out, mergeLoop (pairRank spec) joined
        ((symbolsOf spec piece).length + 1) (symbolsOf spec piece) =
          some out := mergeLoop_ends (Nat.lt_succ_self _)
    obtain ⟨out, hout⟩ := hends
    refine ⟨_, hout.trans ?_⟩
    rw [(mergeLoop_merged hout).unique (merge_merged spec _)]
  · constructor
    · exact fun h => h.unique (hmerged _)
    · rintro rfl
      exact hmerged _
  · exact (hmerged _).done
  · obtain ⟨hpositions, hsound⟩ := @merge_positions spec piece
    refine ⟨hpositions, fun symbol hsymbol =>
      ⟨(hsound symbol hsymbol).positions_ne, ?_⟩⟩
    refine (hsound symbol hsymbol).pairwise ?_
    rw [← hpositions]
    exact (List.infix_of_mem_flatten
      (List.mem_map_of_mem hsymbol)).sublist
  · rw [hencoding, innerOffsets_encodingOf]
    intro offset hoffset
    obtain ⟨token, htoken, rfl⟩ := List.mem_map.mp hoffset
    exact offsetOf_within ((sliceTo_sublist _ _).subset htoken)
  · rw [hencoding, innerOffsets_encodingOf, List.pairwise_map]
    exact (offsetOf_pairwise text).sublist (sliceTo_sublist _ _)
  · rw [hencoding, innerOffsets_encodingOf, sliceTo_of_le hall]
    obtain ⟨token, htoken, hcovers⟩ := offsetOf_covers hunit hspace
    exact ⟨_, List.mem_map_of_mem htoken, hcovers⟩

end Faithful

end Shozee.Sho.Tokenizer
