import Shozee.Run.Lookup
import Shozee.Run.Merging
import Shozee.Validation.EntityRef

/-!
# Subword tokens

The tokenizer of the slot filler (`sho/runtime/src/tokenizer.ts`): a text is
cut into pieces before each blank, a piece into symbols, and neighbouring
symbols are merged by their rank (`Shozee.Run.Merging`). What a piece is merged
to is kept under the text of the piece, with positions in the piece for the
offsets of the next occurrence.

A character is what `String.fromCodePoint` makes of a code point: two code
units for a surrogate pair, else one, also for a surrogate without its pair.
The vocabulary that `parseTokenizerSpec` reads is given.
-/

namespace Shozee.Sho.Tokenizer

open Shozee.Run
open Shozee.Validation (isSpaceUnit)

/-- `SPACE`, «▁». -/
def space : CodeUnit := 0x2581

/-- A tokenizer as its file describes it. -/
structure TokenizerSpec where
  vocab : Dict CodeUnits ℤ
  merges : List (CodeUnits × CodeUnits)
  unkToken : CodeUnits
  byteFallback : Bool
  fuseUnk : Bool

/-- The length of an encoding, and the ids at its two ends. -/
structure TokenizerLimits where
  maxLength : ℤ
  bosId : ℤ
  eosId : ℤ

/-- The place of a token in the text, in code units. -/
abbrev Offset := ℕ × ℕ

/-- The ids of a text and where each comes from. -/
structure Encoding where
  ids : List ℤ
  offsets : List Offset
deriving DecidableEq, Repr

/-- A character of a text, where it is (`at`) and where it ends (`end`). -/
structure Item where
  char : CodeUnits
  start : ℕ
  stop : ℕ
deriving DecidableEq, Repr

/-- A symbol while pairs are merged: its text, and the places of the piece that
it covers. -/
structure BpeSymbol where
  text : CodeUnits
  positions : List ℕ
  atomic : Bool
  unknown : Bool
deriving DecidableEq, Repr

/-- A merged symbol of a piece, as the cache keeps it. -/
structure Encoded where
  id : ℤ
  positions : List ℕ
deriving DecidableEq, Repr

/-- A token with the items of the text that it covers. -/
structure Token where
  id : ℤ
  items : List Item
deriving DecidableEq, Repr

/-! ## Characters

The code points of a text, with halves of pairs as they stand. -/

/-- `text.codePointAt(0) ?? 0`. -/
def codePoint : CodeUnits → ℕ
  | [] => 0
  | [unit] => unit.toNat
  | unit :: next :: _ =>
      if isHighSurrogate unit && isLowSurrogate next then
        (unit.toNat - 0xd800) * 0x400 + (next.toNat - 0xdc00) + 0x10000
      else unit.toNat

/-- The bytes of a character. A lone surrogate has those of the replacement
character. -/
def utf8Bytes (char : CodeUnits) : List ℕ :=
  let point := codePoint char
  if point < 0x80 then [point]
  else if point < 0x800 then
    [0xc0 ||| (point >>> 6), 0x80 ||| (point &&& 0x3f)]
  else if 0xd800 ≤ point ∧ point ≤ 0xdfff then [0xef, 0xbf, 0xbd]
  else if point < 0x10000 then
    [0xe0 ||| (point >>> 12), 0x80 ||| ((point >>> 6) &&& 0x3f),
      0x80 ||| (point &&& 0x3f)]
  else
    [0xf0 ||| (point >>> 18), 0x80 ||| ((point >>> 12) &&& 0x3f),
      0x80 ||| ((point >>> 6) &&& 0x3f), 0x80 ||| (point &&& 0x3f)]

/-- `<0x0A>`. -/
def byteName (byte : ℕ) : CodeUnits :=
  let digits := (Nat.toDigits 16 byte).map Char.toUpper
  let padded := List.replicate (2 - digits.length) '0' ++ digits
  codeUnits "<0x" ++ padded.map (fun c => c.toNat.toUInt16) ++ codeUnits ">"

/-- How many units the first character of a text has. -/
def firstCharLength : CodeUnits → ℕ
  | [] => 0
  | [_] => 1
  | unit :: next :: _ =>
      if isHighSurrogate unit && isLowSurrogate next then 2 else 1

/-! ## Pieces

A piece begins at each blank. -/

/-- A character, with a blank as `SPACE`. -/
def charOf (char : CodeUnits) : CodeUnits :=
  if char = [0x20] then [space] else char

/-- The characters of a text from an index on. -/
def itemsFrom (index : ℕ) : CodeUnits → List Item
  | [] => []
  | [unit] => [⟨charOf [unit], index, index + 1⟩]
  | unit :: next :: rest =>
      if isHighSurrogate unit && isLowSurrogate next then
        ⟨charOf [unit, next], index, index + 2⟩ :: itemsFrom (index + 2) rest
      else ⟨charOf [unit], index, index + 1⟩ :: itemsFrom (index + 1)
        (next :: rest)

/-- Whether a piece begins with a blank, or with the mark that stands for one.
-/
def startsWithBlank (text : CodeUnits) : Bool :=
  text.head? = some 0x20 || text.head? = some space

/-- The characters, after a `SPACE` that a text without one begins with. -/
def charsOf (text : CodeUnits) : List Item :=
  (if text ≠ [] ∧ startsWithBlank text = false then
    [⟨[space], 0, firstCharLength text⟩]
  else []) ++ itemsFrom 0 text

/-- A round of the loop over the characters; the piece that is added to is the
last one. -/
def pushItem (pieces : List (List Item)) (item : Item) : List (List Item) :=
  match pieces.getLast? with
  | none => [[item]]
  | some current =>
      if item.char = [space] then pieces ++ [[item]]
      else pieces.dropLast ++ [current ++ [item]]

/-- The pieces that are merged apart: each begins at a blank. -/
def pieces (text : CodeUnits) : List (List Item) :=
  (charsOf text).foldl pushItem []

/-! ## Ranks and symbols

The constructor's tables, and the merging of the symbols of one piece. -/

/-- One merge of the list. A pair whose result is no word of the vocabulary has
no rank. -/
def pushMerge (vocab : Dict CodeUnits ℤ)
    (ranks : Dict CodeUnits (Dict CodeUnits ℕ))
    (entry : (CodeUnits × CodeUnits) × ℕ) :
    Dict CodeUnits (Dict CodeUnits ℕ) :=
  let ((left, right), rank) := entry
  if (vocab (left ++ right)).isNone then ranks
  else
    let row := (ranks left).getD Dict.empty
    ranks.set left (if (row right).isSome then row else row.set right rank)

section Spec

variable (spec : TokenizerSpec)

/-- `ranks`, as the constructor fills it. -/
def ranksOf : Dict CodeUnits (Dict CodeUnits ℕ) :=
  spec.merges.zipIdx.foldl (pushMerge spec.vocab) Dict.empty

/-- The id of what is not in the vocabulary. -/
def unk : ℤ := (spec.vocab spec.unkToken).getD 0

/-- A round of the loop over a piece. -/
def pushSymbol (symbols : List BpeSymbol) (entry : Item × ℕ) :
    List BpeSymbol :=
  let (item, position) := entry
  if (spec.vocab item.char).isSome then
    symbols ++ [⟨item.char, [position], false, false⟩]
  else
    let names := (utf8Bytes item.char).map byteName
    if spec.byteFallback && names.all fun name => (spec.vocab name).isSome then
      symbols ++ names.map fun name => ⟨name, [position], true, false⟩
    else
      match symbols.getLast? with
      | some previous =>
          if spec.fuseUnk && previous.unknown then
            symbols.dropLast ++
              [{ previous with positions := previous.positions ++ [position] }]
          else symbols ++ [⟨item.char, [position], false, true⟩]
      | none => symbols ++ [⟨item.char, [position], false, true⟩]

/-- The symbols that a piece is merged from. -/
def symbolsOf (piece : List Item) : List BpeSymbol :=
  piece.zipIdx.foldl (pushSymbol spec) []

/-- The rank of a pair. Bytes and unknown characters are not merged by rank. -/
def pairRank (left right : BpeSymbol) : Option ℕ :=
  if left.atomic || right.atomic || left.unknown || right.unknown then none
  else (ranksOf spec left.text).bind fun row => row right.text

/-- The symbol of a merged pair. -/
def joined (left right : BpeSymbol) : BpeSymbol :=
  ⟨left.text ++ right.text, left.positions ++ right.positions, false, false⟩

/-- The loop, for more rounds than there are symbols to merge. -/
def merge (symbols : List BpeSymbol) : List BpeSymbol :=
  (mergeLoop (pairRank spec) joined (symbols.length + 1) symbols).getD symbols

/-! ## Encoding

A piece is looked up before it is merged. The offsets of a token are found from
its items. -/

/-- The merged symbols of the pieces met before, by their texts. -/
abbrev Cache := Dict CodeUnits (List Encoded)

/-- The text of a piece. -/
def keyOf (piece : List Item) : CodeUnits := piece.flatMap Item.char

/-- The id of a symbol. -/
def idOf (symbol : BpeSymbol) : ℤ :=
  if symbol.unknown then unk spec
  else (spec.vocab symbol.text).getD (unk spec)

/-- What is kept of a piece. -/
def mergedOf (piece : List Item) : List Encoded :=
  (merge spec (symbolsOf spec piece)).map fun symbol =>
    ⟨idOf spec symbol, symbol.positions⟩

/-- The token of a symbol, in a piece with the same text. -/
def tokenOf (piece : List Item) (encoded : Encoded) : Token :=
  ⟨encoded.id, encoded.positions.flatMap fun position =>
    piece[position]?.toList⟩

/-- The tokens of a piece, from the cache if it has them. -/
def encodePiece (cache : Cache) (piece : List Item) : List Token × Cache :=
  match cache (keyOf piece) with
  | some merged => (merged.map (tokenOf piece), cache)
  | none =>
      let merged := mergedOf spec piece
      (merged.map (tokenOf piece), cache.set (keyOf piece) merged)

/-- The tokens of all pieces, the cache growing with them. -/
def encodePieces (cache : Cache) (pieces : List (List Item)) :
    List Token × Cache :=
  pieces.foldl (fun (tokens, cache) piece =>
    let (found, cache) := encodePiece spec cache piece
    (tokens ++ found, cache)) ([], cache)

/-- `while (start < end && /\s/.test(text.charAt(start))) start++`. -/
def skipBlank (text : CodeUnits) : ℕ → ℕ → ℕ
  | 0, start => start
  | width + 1, start =>
      if (text[start]?).any isSpaceUnit then skipBlank text width (start + 1)
      else start

/-- Where a token comes from, leading blanks left out. -/
def offsetOf (text : CodeUnits) (items : List Item) : Offset :=
  match items.head?, items.getLast? with
  | some first, some last =>
      (skipBlank text (last.stop - first.start) first.start, last.stop)
  | _, _ => (0, 0)

/-- `tokens.slice(0, end)`. -/
def sliceTo {α : Type} (l : List α) (stop : ℤ) : List α :=
  l.take (if stop < 0 then l.length - (-stop).toNat else stop.toNat)

/-- The encoding of a text: what fits between the two ends. -/
def encode (limits : TokenizerLimits) (cache : Cache) (text : CodeUnits) :
    Encoding × Cache :=
  let (tokens, cache) := encodePieces spec cache (pieces text)
  let content := sliceTo tokens (limits.maxLength - 2)
  (⟨limits.bosId :: content.map Token.id ++ [limits.eosId],
    (0, 0) :: content.map (fun token => offsetOf text token.items) ++
      [(0, 0)]⟩, cache)

end Spec

end Shozee.Sho.Tokenizer
