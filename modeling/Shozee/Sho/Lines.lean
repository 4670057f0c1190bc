import Mathlib.Algebra.GroupWithZero.Nat
import Mathlib.Algebra.Order.Group.PiLex
import Mathlib.Data.Fin.VecNotation
import Shozee.Run.Cheapest
import Shozee.Sho.Repairs

/-!
# The lines of an order

The reading of pieces as lines (`sho/runtime/src/lines.ts`): runs of pieces
that may be a line, what a reading costs, the search for the cheapest one, and
the lines it says with the quantities of one product summed (`summed` and
`additive` of `repair.ts`).

A run of attributes is one part of a line's shape. The text that the search
keeps a reading under tells the start, the side and `seen` apart, so it is
those three.
-/

namespace Shozee.Sho.Lines

open Shozee.Run

/-- On which side of its product a line has its quantity. -/
inductive Side
  | before
  | after
deriving DecidableEq, Repr

/-- Neighbouring pieces that are read as one line, with the slot that each is
read in. -/
structure Chunk where
  pieces : List LinePiece
  kinds : List LineKind
deriving DecidableEq, Repr

/-- `[orphans, lines, wrapped, bare, reversed, switches, split]`. -/
abbrev Cost := Lex (Fin 7 → ℕ)

/-- What the search answers with: a cost and the chunks in order. -/
abbrev Reading := Found Cost Chunk

/-! ## Shapes

A line is a product with a quantity and attributes in one of the listed orders.
A run of attributes counts as one of them. -/

/-- `SHAPES`: the shapes of a line, and the side the quantity is on. -/
def shapes : List (List LineKind × Option Side) :=
  [([.quantity, .product], some .before),
    ([.quantity, .product, .variant], some .before),
    ([.quantity, .variant, .product], some .before),
    ([.quantity, .variant, .product, .variant], some .before),
    ([.quantity, .variant], some .before),
    ([.product, .quantity], some .after),
    ([.product, .variant, .quantity], some .after),
    ([.product, .quantity, .variant], some .after),
    ([.variant, .product, .quantity], some .after),
    ([.variant, .product, .variant, .quantity], some .after),
    ([.variant, .quantity], some .after),
    ([.product], none),
    ([.product, .variant], none),
    ([.variant, .product], none),
    ([.variant, .product, .variant], none),
    ([.variant], none)]

/-- The shapes with a variant on either side of the product, which cost more
than the plain ones. -/
def wrapped : List (List LineKind) :=
  [[.quantity, .variant, .product, .variant],
    [.variant, .product, .variant, .quantity],
    [.variant, .product, .variant]]

/-- A line has this many attributes at most. -/
def mostAttrs : ℕ := 4

/-- A chunk is a product, a quantity and its attributes at most. -/
def longestLine : ℕ := 2 + mostAttrs

/-- The kinds with each run of variants as one of them. -/
def withoutRuns : List LineKind → List LineKind
  | .variant :: .variant :: rest => withoutRuns (.variant :: rest)
  | kind :: rest => kind :: withoutRuns rest
  | [] => []

/-- The shape of a line's kinds, if it has no more attributes than a line
may. -/
def shapeOf (kinds : List LineKind) : Option (List LineKind) :=
  if mostAttrs < kinds.count .variant then none else some (withoutRuns kinds)

/-- Whether slots, with a run of attributes taken as one, are a line. -/
def isShape (kinds : List LineKind) : Bool :=
  (shapeOf kinds).any fun shape => (shapes.lookup shape).isSome

/-- Whether a chunk has one shape. -/
def shapeIs (chunk : Chunk) (shape : List LineKind) : Bool :=
  shapeOf chunk.kinds = some shape

/-- The side of the quantity in a shape that has one. -/
def sideOf (kinds : List LineKind) : Option Side :=
  (shapeOf kinds).bind fun shape => (shapes.lookup shape).join

/-- Whether a piece is a variant that a small word ties to the product before
it, so that no line ends between. -/
def boundTo (piece : Option LinePiece) (kind : Option LineKind) : Bool :=
  piece.any fun piece => piece.kind = .variant && kind = some .product &&
    piece.gap.length = 1 && piece.gap.any lineWith.contains

/-- The slots that pieces may be read in. A second piece after a product may be
its variant. -/
def readingsOf (pieces : List LinePiece) : List (List LineKind) :=
  let plain := pieces.map LinePiece.kind
  let varied := pieces[1]?.any LinePiece.mayBeVariant &&
    plain[0]? = some .product &&
      (pieces.length = 2 || plain[2]? = some .quantity)
  if varied then [plain.set 1 .variant, plain] else [plain]

/-- A variant in front of its product. -/
def reversedVariant (chunk : Chunk) : Option LinePiece :=
  match chunk.kinds.idxOf? .variant, chunk.kinds.idxOf? .product with
  | some variant, some product =>
      if variant < product then chunk.pieces[variant]? else none
  | _, _ => none

/-! ## Runs of attributes

Where attributes that follow one another belong together, and what breaks them.
-/

/-- Prepositions that join two attributes of one line. -/
def runPrepositions : List String :=
  ["по", "на", "у", "в", "для", "під", "под", "з", "із", "зі", "с", "со"]

/-- Prepositions that put a measure after the count. -/
def measurePrepositions : List String := ["по", "на"]

/-- The digits of ASCII. -/
def isDigit (c : Char) : Bool := '0' ≤ c && c ≤ '9'

/-- `/^[0-9]/`. -/
def numberLed (text : String) : Bool := text.toList.head?.any isDigit

/-- `/^[0-9]+([.,][0-9]+)?$/`. -/
def plainNumber (word : String) : Bool :=
  let text := word.toList
  let rest := text.dropWhile isDigit
  !(text.takeWhile isDigit).isEmpty &&
    match rest with
    | [] => true
    | mark :: decimals => (mark = '.' || mark = ',') && !decimals.isEmpty &&
        decimals.all isDigit

section Reader

variable (W : Words)

/-- Whether a text is a number without a unit. -/
def bareNumber (text : String) : Bool :=
  (splitBlank text).all fun word =>
    plainNumber word || ((W.valueOf word).isSome && !W.isUnit word)

/-- Whether a second attribute cannot go on the first one's line: two numbers
stand side by side, or something other than one joining preposition between. -/
def breaksRun (piece before : LinePiece) (startsRun withBefore : Bool) :
    Bool :=
  let words := piece.gap.filter fun word => !labelWords.contains word
  let only := words.head?
  let dimension := only = some "на" && bareNumber W piece.text &&
    bareNumber W before.text
  let preposition := words.length = 1 &&
    only.any runPrepositions.contains &&
      !(only.any lineWith.contains && withBefore) && !dimension
  let numbers := numberLed piece.text && numberLed before.text && !preposition
  numbers || (!words.isEmpty && !preposition) || (startsRun && before.unknown)

/-- Where the run of variants before a place starts. -/
def runStart (kinds : List LineKind) : ℕ → ℕ
  | 0 => 0
  | start + 1 =>
      if kinds[start]? = some .variant then runStart kinds start else start + 1

/-- Whether a run of attributes inside a chunk is broken. -/
def brokenRun (chunk : Chunk) : Bool :=
  chunk.pieces.zipIdx.any fun (piece, index) =>
    match index with
    | 0 => false
    | last + 1 =>
        match chunk.pieces[last]? with
        | none => false
        | some before =>
            if chunk.kinds[last + 1]? = some .variant ∧
                chunk.kinds[last]? = some .variant then
              let start := runStart chunk.kinds last
              let withBefore := ((chunk.pieces.drop start).take
                (last + 1 - start)).any fun earlier =>
                  earlier.gap.any lineWith.contains
              let startsRun := last = 0 ||
                chunk.kinds[last - 1]? ≠ some .variant
              breaksRun W piece before startsRun withBefore
            else false

/-- Whether the variant of a chunk that has one after its quantity is a
measure, or was said again after a repair. -/
def measureAfterCount (chunk : Chunk) : Bool :=
  if shapeOf chunk.kinds ≠ some [.product, .quantity, .variant] then true
  else
    let first := (chunk.kinds.idxOf? .variant).bind (chunk.pieces[·]?)
    first.any fun first =>
      (first.gap.length = 1 && first.gap.any measurePrepositions.contains) ||
        (first.retaken && first.gap.isEmpty)

/-- Whether pieces may be read as a line. The first line needs a product, and a
variant in front of a product needs a reason. -/
def allowed (chunk : Chunk) (following : Option LinePiece) (seen : Bool) :
    Bool :=
  if !isShape chunk.kinds || !(seen || chunk.kinds.contains .product) ||
      brokenRun W chunk || !measureAfterCount chunk then false
  else if chunk.pieces.tail.any (fun piece =>
      joined piece || piece.replaces) ||
        boundTo following chunk.kinds.getLast? then false
  else
    match reversedVariant chunk with
    | none => true
    | some reversed =>
        chunk.kinds.head? = some .quantity || !seen ||
          adjectiveLike reversed.text

/-! ## Costs

What a reading pays for, the weightiest part first. Costs are compared part by
part. -/

/-- Whether a quantity and a variant are a line, as the product after them has
a quantity of its own. -/
def ownsQuantity (chunk : Chunk) (after : Option LinePiece) : Bool :=
  shapeIs chunk [.quantity, .variant] &&
    after.any fun after => after.kind = .quantity && !joined after

/-- A cost from its seven parts, the gravest first. -/
def costOf (orphans lines wrapped bare reversed switches split : ℕ) : Cost :=
  toLex ![orphans, lines, wrapped, bare, reversed, switches, split]

/-- What reading a chunk as a line costs; `side` is where the line before had
its quantity. -/
def chunkCost (chunk : Chunk) (following after : Option LinePiece)
    (side : Option Side) : Cost :=
  let own := sideOf chunk.kinds
  let reversed := (reversedVariant chunk).any fun reversed =>
    !adjectiveLike reversed.text
  let cuts := chunk.kinds.getLast? = some .variant &&
    chunk.pieces.getLast?.any (fun last => adjectiveLike last.text) &&
      following.any fun next => next.kind = .product && !joined next
  let split := cuts && !ownsQuantity chunk after
  let wraps := (shapeOf chunk.kinds).any wrapped.contains
  let switches := own.isSome && side.isSome && own ≠ side
  costOf 0 1 wraps.toNat own.isNone.toNat reversed.toNat switches.toNat
    split.toNat

/-- The cost of nothing. -/
def noCost : Cost := costOf 0 0 0 0 0 0 0

/-- The cost of a piece that is in no line, above any number of lines. -/
def orphanCost : Cost := costOf 1 0 0 0 0 0 0

/-- The first part where two costs differ is smaller on the left. -/
def cheaper (left right : Cost) : Bool :=
  ((List.finRange 7).find? fun part => ofLex left part ≠ ofLex right part).any
    fun part => ofLex left part < ofLex right part

/-! ## The search

Choices at a place, and where the search may end. The longest line is tried
first. -/

/-- Where the search is: the start, the side, and whether a product was
seen. -/
abbrev Place := ℕ × Option Side × Bool

/-- The lines that may start at a place, the longest first, and the piece there
as no part of a line. -/
def choicesAt (pieces : List LinePiece) (place : Place) :
    List (Choice Place Cost Chunk) :=
  let (start, side, seen) := place
  let lengths := (List.range (min longestLine (pieces.length - start))).reverse
  let chunks := lengths.flatMap fun shorter =>
    let length := shorter + 1
    let slice := (pieces.drop start).take length
    let following := pieces[start + length]?
    (readingsOf slice).filterMap fun kinds =>
      let chunk : Chunk := ⟨slice, kinds⟩
      if allowed W chunk following seen then
        some ⟨chunkCost chunk following pieces[start + length + 1]? side,
          [chunk], (start + length, (sideOf kinds).or side,
            seen || kinds.contains .product)⟩
      else none
  let strays :=
    match pieces[start]? with
    | none => []
    | some stray =>
        if stray.kind = .product then []
        else
          let repeated : List Chunk :=
            if seen ∧ stray.kind = .quantity then [⟨[stray], [stray.kind]⟩]
            else []
          [⟨orphanCost, repeated, (start + 1, side, seen)⟩]
  chunks ++ strays

/-- Whether the search has passed the last piece. -/
def endsAt (pieces : List LinePiece) (place : Place) : Bool :=
  place.1 = pieces.length

/-- The cheapest way to cut the pieces into lines and orphans. -/
def bestReading (pieces : List LinePiece) : Reading :=
  (search (endsAt pieces) (choicesAt W pieces) cheaper
    ⟨costOf pieces.length 0 0 0 0 0 0, []⟩ (pieces.length + 1)
    (0, none, false) []).1

/-! ## The lines of a reading

A product that is said again adds to its line when the units agree, and is a
line of its own otherwise. -/

/-- A line of the order: the product as it was said, its attributes and its
quantity. -/
structure OrderLine where
  product : String
  attrs : List String
  quantity : Option String
  said : List String
  asks : Bool
deriving DecidableEq, Repr

/-- A line with what decides whether it is added to the one before: that it is
a quantity on its own, or that a cue led it in. -/
structure SaidLine where
  line : OrderLine
  stray : Bool
  cued : Bool
deriving DecidableEq, Repr

/-- Whether a gap, apart from markers and fillers, is a cue for more. -/
def additive (gap : List String) : Bool :=
  let said := gap.filter fun word => !hedgeWords.contains word
  let words := said.drop (leadingMarkers said)
  let cue := if words.head?.any addJoiners.contains then words.tail else words
  (addCues.map " ".intercalate).contains (" ".intercalate cue)

/-- A quantity as a number and the unit said with it; no quantity has no unit
at all. -/
def countOf : Option String → Option (ℚ × Option String)
  | none => some (1, none)
  | some quantity =>
      let words := splitBlank quantity
      match W.valueOf quantity with
      | none => none
      | some value =>
          if words.all fun word => W.isUnit word || (W.valueOf word).isSome then
            some (value, some (" ".intercalate (words.filter fun word =>
              W.isUnit word && !W.isPieceUnit word)))
          else none

/-- No unit that measures is said. -/
def noUnit (unit : Option String) : Bool := unit.all (· = "")

/-- A quantity as a count of pieces: whole and without a unit. -/
def pieceCount (quantity : String) : Option ℚ :=
  match countOf W (some quantity) with
  | some (value, unit) => if noUnit unit ∧ value.isInt then some value else none
  | none => none

/-- Whether two units are one; a missing unit is that of the other. -/
def sameUnit (first second : Option String) : Bool :=
  if first.isNone || second.isNone then noUnit first && noUnit second
  else noUnit first || noUnit second ||
    sameName W (first.getD "") (second.getD "")

/-- The sum of two quantities of one unit, written as the decoder writes a
quantity. -/
def total (said more : OrderLine) : Option String :=
  match countOf W said.quantity, countOf W more.quantity with
  | some (value, first), some (more, second) =>
      if sameUnit W first second then
        let unit := if noUnit first then second else first
        let sum := W.canonicalSum (value + more)
        some (if noUnit unit then sum else sum ++ " " ++ unit.getD "")
      else none
  | _, _ => none

/-- The same attributes in any order, by word form. -/
def sameAttrs : List String → List String → Bool
  | [], right => right.isEmpty
  | attr :: left, right =>
      match right.findIdx? fun other => sameName W attr other with
      | some index => sameAttrs left (right.eraseIdx index)
      | none => false

/-- The line read is one more, or its quantity goes to a line before it. -/
def sumLine (reading : List OrderLine × Option ℕ) (said : SaidLine) :
    List OrderLine × Option ℕ :=
  let (lines, last) := reading
  let target :=
    if said.stray then if said.cued then last else none
    else (lines.zipIdx.reverse.find? fun (earlier, _) =>
      sameName W earlier.product said.line.product &&
        sameAttrs W earlier.attrs said.line.attrs).map (·.2)
  match target.bind fun index => lines[index]?.bind fun earlier =>
      (total W earlier said.line).map fun quantity =>
        (index, { earlier with
          quantity := some quantity
          said := earlier.said ++ said.line.said }) with
  | some (index, summed) => (lines.set index summed, some index)
  | none =>
      (lines ++ [if said.stray then { said.line with asks := true }
        else said.line], some lines.length)

/-- The lines with those added up that a cue asks to add. -/
def summed (said : List SaidLine) : List OrderLine :=
  (said.foldl (sumLine W) ([], none)).1

/-- Whether the next chunk begins with a product of its own. -/
def productAfter (chunk : Option Chunk) : Bool :=
  (chunk.bind fun chunk => chunk.pieces.head?).any fun next =>
    next.kind = .product && !joined next

/-- The quantity of each flavour of a counted list. -/
def one : String := "1"

/-- The shape of a count, a product and its first flavour, which a list of
flavours may follow. -/
def countedFlavour : List LineKind := [.quantity, .product, .variant]

/-- Connectors before the last of a list. -/
def listJoiners : List String := ["і", "й", "та", "и"]

/-- Whether a chunk replaces the line before it. -/
def replacing (chunk : Chunk) : Bool := chunk.pieces.any LinePiece.replaces

/-- The chunks that take «1» of a count spread over them. -/
def spreadCounts (chunks : List Chunk) : List ℕ :=
  chunks.zipIdx.flatMap fun (chunk, index) =>
    if shapeIs chunk countedFlavour then
      let flavours := (chunks.drop (index + 1)).takeWhile fun next =>
        shapeIs next [.variant] && !replacing next
      let after := index + 1 + flavours.length
      let listed := (chunks[after - 1]?.bind fun last =>
        last.pieces.head?).any fun piece =>
          piece.gap.any listJoiners.contains
      match pieceCount W ((chunk.pieces.head?.map LinePiece.text).getD "") with
      | some count =>
          if count < 2 ∨ ((after - index : ℕ) : ℚ) ≠ count ∨ listed = false
            then []
          else (List.range (after - index)).map (index + ·)
      | none => []
    else []

/-- The text of a chunk's piece in a slot. -/
def Chunk.text (chunk : Chunk) (kind : LineKind) : Option String :=
  ((chunk.kinds.idxOf? kind).bind (chunk.pieces[·]?)).map LinePiece.text

/-- The attributes of a chunk in their order. -/
def Chunk.attrs (chunk : Chunk) : List String :=
  ((chunk.pieces.zip chunk.kinds).filter fun (_, kind) =>
    kind = .variant).map fun (piece, _) => piece.text

/-- One chunk, with the lines said before it and the chunk after it. -/
def carryLine (ones : List ℕ) (index : ℕ) (chunk : Chunk)
    (next : Option Chunk) (said : List SaidLine) : List SaidLine :=
  match (chunk.text .product).or
      (said.getLast?.map fun last => last.line.product) with
  | none => said
  | some product =>
      let said := if replacing chunk then said.dropLast else said
      let spoken := chunk.text .quantity
      let line : OrderLine :=
        if ones.contains index then ⟨product, chunk.attrs, some one, [], false⟩
        else ⟨product, chunk.attrs, spoken, spoken.toList, false⟩
      said ++ [⟨line, shapeIs chunk [.quantity],
        additive ((chunk.pieces.head?.map LinePiece.gap).getD []) &&
          !productAfter next⟩]

/-- The lines of the chunks from one index on; a chunk without a product takes
the one of the line before. -/
def carryLines (ones : List ℕ) : ℕ → List Chunk → List SaidLine → List SaidLine
  | _, [], said => said
  | index, chunk :: rest, said =>
      carryLines ones (index + 1) rest
        (carryLine ones index chunk rest.head? said)

/-- The lines of a reading, added up. -/
def carriedLines (chunks : List Chunk) : List OrderLine :=
  summed W (carryLines (spreadCounts W chunks) 0 chunks [])

/-- The lines of a text and how many of its pieces are in none. -/
structure SideLines where
  lines : List OrderLine
  orphans : ℕ
deriving DecidableEq, Repr

/-- The lines of the pieces of a text, if one of them is a product. -/
def linesBySide (given : List LinePiece) (takeBack : Bool) :
    Option SideLines :=
  let pieces := repaired W given takeBack
  if pieces.any fun piece => piece.kind = .product then
    let chunks := (bestReading W pieces).parts
    let covered := (chunks.map fun chunk => chunk.pieces.length).sum
    some ⟨carriedLines W chunks, pieces.length - covered⟩
  else none

end Reader

end Shozee.Sho.Lines
