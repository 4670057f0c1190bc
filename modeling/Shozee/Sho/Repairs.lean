import Mathlib.Algebra.Order.Ring.Rat
import Shozee.Run.Text

/-!
# Repairs in the pieces of an order

The pieces of the lines of an order as they were said, and the pass that takes
back what a speaker takes back (`sho/runtime/src/repair.ts`, the words in
`lexicon/catalogue.ts` and `lexicon/repair.ts`). A phrase is kept as its words.

How two words are compared, what number a quantity says and which words are
units are taken as given (`Words`).
-/

namespace Shozee.Sho.Lines

open Shozee.Run

/-- What the pass asks of the other readers. -/
structure Words where
  wordMatch : String → String → Bool
  /-- `valueOf("quantity", said)`, a number or nothing. -/
  valueOf : String → Option ℚ
  /-- Whether a word is among `UNITS`. -/
  isUnit : String → Bool
  /-- Whether a word is among `PIECE_UNITS`. -/
  isPieceUnit : String → Bool
  /-- `canonicalNumber(cleanNumber(sum) ?? 0)`. -/
  canonicalSum : ℚ → String

/-- The slots of an order line. -/
inductive LineKind
  | product
  | quantity
  | variant
deriving DecidableEq, Repr

/-- A mark that is not set is `false`. -/
structure LinePiece where
  kind : LineKind
  text : String
  gap : List String
  mayBeVariant : Bool
  replaces : Bool
  unknown : Bool
  retaken : Bool
deriving DecidableEq, Repr

/-! ## Words

The lists of `lexicon/catalogue.ts` and `lexicon/repair.ts`. -/

/-- Words that join one item to the next or introduce it; the pieces have them
as gaps. -/
def connectors : List String :=
  ["і", "та", "ще", "плюс", "потім", "далі", "й", "и", "еще", "ещё", "также",
    "потом", "дальше", "а", "також", "туди", "туда", "додай", "додайте",
    "додамо", "добав", "добавь", "добавьте", "добавим", "давай", "давайте",
    "візьми", "візьміть", "запиши", "запишіть", "постав", "поставте", "дай",
    "дайте", "хочу", "хочемо", "возьми", "возьмите", "запишите", "поставь",
    "поставьте", "хотим", "нам", "мені", "мне", "ну", "так"]

/-- Small words before a value, which are gaps also. -/
def prepositions : List String :=
  ["з", "із", "зі", "с", "со", "без", "на", "по"]

/-- The prepositions that add something to what was said before. -/
def withWords : List String := ["з", "із", "зі", "с", "со"]

/-- The small words that may introduce a line. -/
def lineWith : List String := withWords ++ ["за"]

/-- Endings by which a word is taken for an adjective, so for a variant. -/
def adjectiveEndings : List String :=
  ["ий", "ій", "их", "ых", "ого", "ої", "ові", "ова", "ева", "ний", "ній"]

/-- Words that name what the value beside them is, never an item or a value
themselves. -/
def labelWords : List String :=
  ["розмір", "розміру", "розміри", "розмірів", "розмірі", "размер", "размера",
    "размеры", "размеров", "размере", "р", "size", "колір", "кольору",
    "кольори", "цвет", "цвета", "color", "colour"]

/-- Phrases by which a speaker takes back what was said. -/
def repairMarkers : List (List String) :=
  [["ой"], ["ой", "ні"], ["ні"], ["а", "ні"], ["ані"], ["вірніше"],
    ["точніше"], ["тобто"], ["ой", "нет"], ["а", "нет"], ["нет"], ["точнее"],
    ["вернее"], ["чекай"], ["ні-ні"], ["нет-нет"], ["переплутала"],
    ["переплутав"], ["перепутала"], ["перепутал"]]

/-- Phrases that only together take something back. -/
def phraseMarkers : List (List String) :=
  [["не", "те"], ["не", "так"], ["стоп", "не", "так"], ["стоп", "не", "те"]]

/-- Words that take back by themselves, but that may also be said for nothing.
-/
def loneMarkers : List String := ["ні", "нет"]

/-- Words that halt, which are a marker only beside a denial. -/
def haltWords : List String :=
  ["стоп", "почекай", "подожди", "стривай", "погоди"]

/-- The phrases that a halting word makes with a denial. -/
def haltPatterns (halt : String) : List (List String) :=
  [["а", "ні", halt], ["ані", halt], ["ні", halt], [halt, "ні"], ["ой", halt],
    ["а", "нет", halt], ["нет", halt], [halt, "нет"]]

/-- Those phrases for every halting word. -/
def combinedMarkers : List (List String) := haltWords.flatMap haltPatterns

/-- Phrases by which a speaker returns to what was taken back. -/
def backMarkers : List (List String) :=
  [["хоча", "ні"], ["хоча"], ["ні", "правильно"], ["правильно"],
    ["все-таки"], ["все", "таки"], ["все", "ж", "таки"], ["все", "ж-таки"],
    ["таки"], ["хотя", "нет"], ["хотя"], ["нет", "правильно"], ["всё-таки"],
    ["всё", "таки"]]

/-- Words for one more. -/
def more : List String := ["ще", "ещё", "еще"]

/-- Verbs that add an item. -/
def addVerbs : List String :=
  ["додай", "додайте", "додамо", "добавь", "добавьте", "добавим"]

/-- Words that lead in such a verb. -/
def lets : List String := ["давай", "давайте"]

/-- Verbs that order an item. -/
def orderVerbs : List String :=
  ["візьми", "візьміть", "запиши", "запишіть", "постав", "поставте", "дай",
    "дайте", "хочу", "хочемо", "возьми", "возьмите", "запишите", "поставь",
    "поставьте", "хотим"]

/-- Words for who the item is for. -/
def addressees : List String := ["нам", "мені", "мне"]

/-- What may stand beside a word for more in a cue. -/
def verbs : List String := addVerbs ++ orderVerbs ++ addressees

/-- What may stand in front of such a cue. -/
def leads : List String := lets ++ orderVerbs ++ addressees

/-- A word for more, alone or on either side of a verb. -/
def morePhrases : List (List String) :=
  more.flatMap fun word =>
    [word] :: verbs.flatMap fun verb => [[word, verb], [verb, word]]

/-- The phrases that say that a new item follows. -/
def addCues : List (List String) :=
  morePhrases ++
    leads.flatMap fun lead => morePhrases.map fun phrase => lead :: phrase

/-- The connectors that may stand before a cue. -/
def addJoiners : List String := ["і", "й", "та", "и", "а"]

/-- Words that only introduce more items. They are never a value that a repair
takes back. -/
def itemLeadWords : List String := more ++ verbs ++ lets ++ ["плюс"]

/-- Filler and sounds of hesitation, which change nothing in a list of items.
-/
def hedgeWords : List String :=
  ["напевно", "мабуть", "навєрно", "наверное", "наверно", "типу", "ну",
    "десь", "приблизно", "где-то", "е-е", "е-е-е", "ее", "еее", "э-э",
    "э-э-э", "ээ", "эээ", "а-а", "м-м", "ммм", "хм", "гм"]

/-! ## Markers

The words of a repair come in runs. How far back a run reaches depends on which
of them it has. -/

/-- How far a run of markers reaches. -/
inductive Strength
  | strong
  | lone
  | back
deriving DecidableEq, Repr

/-- All markers. -/
def phrases : List (List String) :=
  repairMarkers ++ combinedMarkers ++ phraseMarkers ++ backMarkers

/-- The markers that say less than a repair: returns, and lone denials. -/
def conditional : List (List String) :=
  backMarkers ++ loneMarkers.map ([·])

/-- A repair replaces two pieces at most. -/
def longestUnit : ℕ := 2

/-- A line has at most three parts, in the repair pass. -/
def longestRepair : ℕ := 3

/-- Every word of a repair marker. -/
def repairWords : List String := repairMarkers.flatten

/-- `text.split(" ")`. -/
def splitBlank (text : String) : List String :=
  (text.toList.splitOn ' ').map String.ofList

/-- How many words each phrase takes that starts at a place. -/
def phrasesAt (words : List String) (start : ℕ)
    (known : List (List String)) : List ℕ :=
  (known.filter fun phrase => phrase.isPrefixOf (words.drop start)).map
    List.length

/-- The longest start of the words that is a run of marker phrases; the places
that were reached are kept. -/
def leadingMarkers (words : List String)
    (known : List (List String) := phrases) : ℕ :=
  ((List.range words.length).foldl (fun (reached : List ℕ × ℕ) start =>
    if start ∈ reached.1 then
      (phrasesAt words start known).foldl (fun reached length =>
        (reached.1 ++ [start + length], max reached.2 (start + length)))
        reached
    else reached) ([0], 0)).2

/-- The places of the words that are part of some marker. -/
def markerWords (words : List String) : List ℕ :=
  (List.range words.length).flatMap fun start =>
    (phrasesAt words start phrases).flatMap fun length =>
      (List.range length).map (start + ·)

/-- Whether words are nothing but markers. -/
def markerRun (words : List String) : Bool :=
  0 < words.length && leadingMarkers words = words.length

/-- The words that are left without hedges; a connector stays even if it is
one. -/
def withoutHedges (words : List String) : List String :=
  words.filter fun word => !hedgeWords.contains word || connectors.contains word

/-! ## Pieces

What a repair takes back, replaces or leaves, by the slots of the pieces around
it. -/

/-- The slot of a piece. A product that may be a variant counts as a variant.
-/
def slotOf (piece : LinePiece) : LineKind :=
  if piece.kind = .product ∧ piece.mayBeVariant then .variant else piece.kind

/-- Whether a piece fills a slot other than the product. -/
def valueSlot (piece : Option LinePiece) : Bool :=
  piece.any fun piece => slotOf piece ≠ .product

/-- Whether a connector stands before a piece. -/
def joined (piece : LinePiece) : Bool :=
  piece.gap.any fun word => connectors.contains word

/-- A word that ends as an adjective. -/
def adjectiveLike (text : String) : Bool :=
  !text.toList.contains ' ' && adjectiveEndings.any fun ending =>
    endsWith text ending

section Repair

variable (W : Words)

/-- Two names are the same if their words match one by one. -/
def sameName (left right : String) : Bool :=
  let said := splitBlank left
  let again := splitBlank right
  said.length = again.length &&
    (said.zip again).all fun (word, other) => W.wordMatch word other

/-- Two pieces of one slot; products have to have the same name also. -/
def sameSlot (said repair : LinePiece) : Bool :=
  slotOf repair = slotOf said &&
    (slotOf repair ≠ .product || sameName W said.text repair.text)

/-- How much a marker in front of a piece says: a lone denial least, a return
only what it names, any other all of it. -/
def strengthOf (gap : List String) : Strength :=
  if gap.length = 1 ∧ gap.any loneMarkers.contains then .lone
  else if leadingMarkers gap conditional = gap.length ∧
      gap.any (fun word => !loneMarkers.contains word) then .back
  else .strong

/-- The last product among the pieces that are kept. -/
def lastProduct (kept : List LinePiece) : Option LinePiece :=
  kept.reverse.find? fun piece => slotOf piece = .product

/-- `kept.slice(-count)`. -/
def lastPieces (kept : List LinePiece) (count : ℕ) : List LinePiece :=
  kept.drop (kept.length - count)

/-- Whether a unit names the product of the last pieces again. -/
def repeatsProduct (kept unit : List LinePiece) : Bool :=
  let said := lastProduct (lastPieces kept longestUnit)
  let again := unit.find? fun piece => slotOf piece = .product
  said.any fun said => again.any fun again =>
    sameName W said.text again.text

/-- Whether a unit repairs what is kept: its gap is a run of markers, and the
slots agree as far as the marker's strength asks. -/
def repairs (kept unit : List LinePiece) : Bool :=
  match kept.getLast?, unit with
  | some previous, piece :: _ =>
      if markerRun piece.gap = false then false
      else
        match strengthOf piece.gap with
        | .back => slotOf previous = slotOf piece
        | .strong => true
        | .lone =>
            (valueSlot (some previous) && valueSlot (some piece)) ||
              repeatsProduct W kept unit
  | _, _ => false

/-- A unit is parallel to the last pieces if it has their slots in their order,
with no connector inside either. -/
def parallel (kept unit : List LinePiece) : Bool :=
  let said := lastPieces kept unit.length
  said.length = unit.length &&
    !(said.tail ++ unit.tail).any joined &&
    (said.zip unit).all fun (piece, repair) => sameSlot W piece repair

/-- Whether the product after a value has a value of that slot of its own. -/
def ownValue (value : LinePiece) (after : Option LinePiece) : Bool :=
  after.any fun after => slotOf after = slotOf value && !joined after

/-- Whether a value after a marker starts a line of its own: another product
follows it, and a halting word led it or that product has no value of its slot.
-/
def startsLine (kept : List LinePiece) (piece : LinePiece)
    (next after : Option LinePiece) : Bool :=
  match lastProduct kept, next with
  | some said, some next =>
      if slotOf next ≠ .product ∨ joined next ∨
          sameName W said.text next.text then false
      else piece.gap.any haltWords.contains || !ownValue piece after
  | _, _ => false

/-- A value that no product follows, or only one behind a connector. -/
def bare (piece : LinePiece) (next : Option LinePiece) : Bool :=
  valueSlot (some piece) &&
    next.all fun next => next.kind ≠ .product || joined next

/-- Whether a piece may replace a whole line, by the strength of its marker. -/
def replacesLine (kept : List LinePiece) (piece : LinePiece)
    (strength : Strength) : Bool :=
  (lastProduct kept).isSome &&
    (strength = .strong || (strength = .back && slotOf piece = .product))

/-- A piece put in the place of another, with the gap of the one it replaces.
-/
def inPlaceOf (piece : LinePiece) (said : Option LinePiece) : LinePiece :=
  { piece with
    gap := said.elim [] LinePiece.gap
    replaces := piece.replaces || said.any LinePiece.replaces }

/-- A removed piece that started a replacing line hands the mark on. -/
def removeAt (kept : List LinePiece) (index : ℕ) : List LinePiece :=
  let rest := kept.eraseIdx index
  if kept[index]?.any LinePiece.replaces then
    rest.modify index fun heir => { heir with replaces := true }
  else rest

/-- Whether a piece already belongs to the product in front of it. -/
def claimedByEarlier (kept : List LinePiece) (target : ℕ) : Bool :=
  let before := if target = 0 then none else kept[target - 1]?
  before.any fun before => kept[target]?.any fun piece =>
    before.kind = .product && !joined piece && !piece.replaces

/-- Where the loop of `productAt` stops, from `start` downwards. -/
def pastVariants (kept : List LinePiece) (piece : LinePiece) : ℕ → ℕ
  | 0 => 0
  | start + 1 =>
      let said := kept[start + 1]?.getD piece
      if slotOf said = .variant ∧ joined said = false then
        pastVariants kept piece start
      else start + 1

/-- Where the product of a bare value stands: for a quantity in front of the
variants that were said last, else in the last place. -/
def productAt (kept : List LinePiece) (piece : LinePiece) : ℕ :=
  let last := kept.length - 1
  if slotOf piece ≠ .quantity then last
  else
    let start := pastVariants kept piece last
    if start < last ∧ slotOf (kept[start]?.getD piece) = .product then start
    else last

/-- The pieces without what a bare value replaces: the piece of its slot in
front of the product or, for a variant, the adjective that the product's name
begins with. -/
def repairedLine (kept : List LinePiece) (piece : LinePiece) :
    List LinePiece :=
  let start := productAt kept piece
  match kept[start]? with
  | none => kept
  | some product =>
      if slotOf product ≠ .product ∨ joined product then kept
      else
        let said := if start = 0 then none else kept[start - 1]?
        if said.any (fun said => slotOf said = slotOf piece) &&
            !claimedByEarlier kept (start - 1) then
          removeAt kept (start - 1)
        else
          match splitBlank product.text with
          | adjective :: name =>
              if slotOf piece = .variant ∧ name ≠ [] ∧
                  adjectiveLike adjective then
                kept.set start { product with text := " ".intercalate name }
              else kept
          | [] => kept

/-- The parts of a line the pieces make: a run of attributes is one. -/
def partCount (pieces : List LinePiece) : ℕ :=
  (pieces.zipIdx.filter fun (piece, index) =>
    slotOf piece ≠ .variant || index = 0 ||
      (pieces[index - 1]?.getD piece |> slotOf) ≠ .variant).length

/-- Whether the rest of the pieces is short enough, and free of joins and
markers, for a list that ends with a repair. -/
def endsList (pieces : List LinePiece) (start : ℕ) : Bool :=
  partCount (pieces.drop start) ≤ longestRepair &&
    !(pieces.drop (start + 1)).any fun piece =>
      joined piece || !(markerWords piece.gap).isEmpty

/-- This many words of a gap may be taken back by a marker that ends it. -/
def longestDropped : ℕ := 4

/-- The loop of `withoutTakenBack`: `start` of the words are dropped. -/
def takenBackFrom (piece : LinePiece) (words : List String) (start : ℕ) :
    ℕ → LinePiece
  | 0 => piece
  | tries + 1 =>
      let dropped := words.take start
      if (markerWords words).contains (start - 1) || dropped.any fun word =>
          connectors.contains word || repairWords.contains word ||
            haltWords.contains word || itemLeadWords.contains word then piece
      else
        let run := leadingMarkers (words.drop start)
        if run = 0 then takenBackFrom piece words (start + 1) tries
        else
          match words.drop (start + run) with
          | [] => { piece with gap := [], retaken := true }
          | [word] =>
              if prepositions.contains word then
                { piece with gap := [word], retaken := true }
              else takenBackFrom piece words (start + 1) tries
          | _ => takenBackFrom piece words (start + 1) tries

/-- A piece without the words of its gap that a marker takes back. -/
def withoutTakenBack (piece : LinePiece) (index : ℕ) : LinePiece :=
  if index = 0 ∨ piece.kind = .product ∨ piece.mayBeVariant then piece
  else
    let words := withoutHedges piece.gap
    takenBackFrom piece words 1 (min longestDropped (words.length - 1))

/-- The locals of the loop of `repaired`. -/
structure Repairing where
  kept : List LinePiece
  undo : Option (List LinePiece × ℕ)

/-- The body of the loop, at `piece` with `later` after it. -/
def repairPiece (index : ℕ) (piece : LinePiece) (later : List LinePiece)
    (reading : Repairing) : Repairing :=
  let kept := reading.kept
  if repairs W kept ((piece :: later).take longestUnit) = false then
    { reading with kept := kept ++ [piece] }
  else
    let undo := some (kept, index)
    let strength := strengthOf piece.gap
    let next := later[0]?
    let sizes := if strength = .strong ∧ startsLine W kept piece next later[1]?
      then [longestUnit] else [longestUnit, 1]
    match sizes.find? fun size => size ≤ (piece :: later).length &&
        parallel W kept ((piece :: later).take size) with
    | some length =>
        let start := kept.length - length
        ⟨kept.take start ++ [inPlaceOf piece kept[start]?], undo⟩
    | none =>
        if bare piece next = false then
          let piece := if replacesLine kept piece strength then
            { piece with replaces := true } else piece
          ⟨kept ++ [piece], undo⟩
        else ⟨repairedLine kept piece ++ [{ piece with gap := [] }], undo⟩

/-- The pieces in order, each with those after it. -/
def repairLoop : ℕ → List LinePiece → Repairing → Repairing
  | _, [], reading => reading
  | index, piece :: later, reading =>
      repairLoop (index + 1) later (repairPiece W index piece later reading)

/-- The pieces that remain of a line. With `takeBack` a repair at its end is
undone. -/
def repaired (given : List LinePiece) (takeBack : Bool) : List LinePiece :=
  let pieces := given.zipIdx.map fun (piece, index) =>
    withoutTakenBack piece index
  let reading := repairLoop W 0 pieces ⟨[], none⟩
  match takeBack, reading.undo with
  | true, some (before, start) =>
      if endsList pieces start then before else reading.kept
  | _, _ => reading.kept

end Repair

/-! ## The pieces a repair marks

A mark says that a piece goes with what is before it. Every marked piece has a
product before it, and removing pieces keeps this. -/

/-- A gap that says what follows with what is before, «торт з малиною». -/
def SaidWith (gap : List String) : Prop :=
  gap.length = 1 ∧ gap.any lineWith.contains = true

/-- A piece that is said with what is before it starts no line in place of
another. -/
def Marked (kept : List LinePiece) : Prop :=
  ∀ piece ∈ kept, piece.replaces = true →
    slotOf piece = .product ∨ ¬ SaidWith piece.gap

theorem lineWith_no_marker : ∀ word ∈ lineWith, markerRun [word] = false := by
  decide

theorem not_with_of_markerRun {gap : List String} (h : markerRun gap = true) :
    ¬ SaidWith gap := by
  rintro ⟨hlength, hany⟩
  obtain ⟨word, rfl⟩ := List.length_eq_one_iff.mp hlength
  obtain ⟨_, hmem, hword⟩ := List.any_eq_true.mp hany
  cases List.mem_singleton.mp hmem
  have hnot := lineWith_no_marker word (List.contains_iff_mem.mp hword)
  exact Bool.false_ne_true (hnot.symm.trans h)

theorem Marked.concat {kept : List LinePiece} (h : Marked kept)
    {piece : LinePiece} (hpiece : piece.replaces = true →
      slotOf piece = .product ∨ ¬ SaidWith piece.gap) :
    Marked (kept ++ [piece]) := by
  intro p hp
  rcases List.mem_append.mp hp with hp | hp
  · exact h p hp
  · cases List.mem_singleton.mp hp
    exact hpiece

theorem Marked.of_subset {kept rest : List LinePiece} (h : Marked kept)
    (hsub : ∀ piece ∈ rest, piece ∈ kept) : Marked rest :=
  fun piece hpiece => h piece (hsub piece hpiece)

/-- The mark of a removed piece goes to a product. -/
theorem Marked.removeAt {kept : List LinePiece} (h : Marked kept) {index : ℕ}
    (hheir : ∀ heir, kept[index + 1]? = some heir →
      slotOf heir = .product) : Marked (removeAt kept index) := by
  have hrest : Marked (kept.eraseIdx index) :=
    h.of_subset fun piece hpiece => List.mem_of_mem_eraseIdx hpiece
  unfold Lines.removeAt
  dsimp only
  split
  · intro piece hpiece hreplaces
    obtain ⟨at', hat⟩ := List.mem_iff_getElem?.mp hpiece
    rw [List.getElem?_modify] at hat
    obtain ⟨heir, hget, heq⟩ := Option.map_eq_some_iff.mp hat
    by_cases hsame : index = at'
    · subst hsame
      rw [if_pos rfl] at heq
      rw [List.getElem?_eraseIdx_of_ge (le_refl _)] at hget
      have hproduct := hheir heir hget
      rw [← heq]
      exact Or.inl hproduct
    · rw [if_neg hsame] at heq
      subst heq
      exact hrest heir (List.mem_of_getElem? hget) hreplaces
  · exact hrest

section Repair

variable (W : Words)

theorem Marked.repairedLine {kept : List LinePiece} (h : Marked kept)
    (piece : LinePiece) : Marked (repairedLine kept piece) := by
  unfold Lines.repairedLine
  dsimp only
  cases hproduct : kept[productAt kept piece]? with
  | none => exact h
  | some product =>
      dsimp only
      split
      · exact h
      · next hslot =>
        have hslot : slotOf product = .product := by
          by_contra hne
          exact hslot (Or.inl hne)
        generalize hsaid : (if productAt kept piece = 0 then none
          else kept[productAt kept piece - 1]?) = said
        split
        · next hremove =>
          -- What is removed stands right before the product.
          refine h.removeAt fun heir hheir => ?_
          have hpos : productAt kept piece ≠ 0 := by
            intro hzero
            rw [if_pos hzero] at hsaid
            subst hsaid
            exact Bool.false_ne_true hremove
          rw [Nat.sub_add_cancel (Nat.pos_of_ne_zero hpos), hproduct] at hheir
          cases hheir
          exact hslot
        · split
          · split
            · intro p hp
              rcases List.mem_or_eq_of_mem_set hp with hp | rfl
              · exact h p hp
              · exact fun _ => Or.inl hslot
            · exact h
          · exact h

theorem replaces_takenBackFrom (piece : LinePiece) (words : List String)
    (start tries : ℕ) :
    (takenBackFrom piece words start tries).replaces = piece.replaces := by
  induction tries generalizing start with
  | zero => rfl
  | succ tries ih =>
      unfold takenBackFrom
      dsimp only
      split
      · rfl
      · split
        · exact ih _
        · split
          · rfl
          · split
            · rfl
            · exact ih _
          · exact ih _

theorem replaces_withoutTakenBack (piece : LinePiece) (index : ℕ) :
    (withoutTakenBack piece index).replaces = piece.replaces := by
  unfold withoutTakenBack
  split
  · rfl
  · exact replaces_takenBackFrom piece _ _ _

/-- What stands before the piece that takes a place has its slot. -/
theorem slotOf_of_parallel {kept unit : List LinePiece} {piece : LinePiece}
    {later : List LinePiece} {length : ℕ} (hlength : 0 < length)
    (hunit : unit = (piece :: later).take length)
    (hle : length ≤ (piece :: later).length)
    (h : parallel W kept unit = true) {first : LinePiece}
    (hfirst : kept[kept.length - length]? = some first) :
    slotOf piece = slotOf first := by
  obtain ⟨length, rfl⟩ := Nat.exists_eq_succ_of_ne_zero hlength.ne'
  have hcount : unit.length = length + 1 := by
    rw [hunit, List.length_take, Nat.min_eq_left hle]
  unfold parallel at h
  dsimp only at h
  rw [Bool.and_eq_true, Bool.and_eq_true, hcount] at h
  obtain ⟨-, hall⟩ := h
  have hsaid : (lastPieces kept (length + 1))[0]? = some first := by
    rw [lastPieces, List.getElem?_drop, Nat.add_zero]
    exact hfirst
  have hpair : (first, piece) ∈
      (lastPieces kept (length + 1)).zip unit := by
    refine List.mem_of_getElem? (i := 0) ?_
    rw [List.getElem?_zip_eq_some]
    exact ⟨hsaid, by rw [hunit]; rfl⟩
  have hslot := List.all_eq_true.mp hall _ hpair
  unfold sameSlot at hslot
  rw [Bool.and_eq_true] at hslot
  exact of_decide_eq_true hslot.1

/-- Every piece that is kept, and every piece that an undo would bring back, is
marked. -/
structure Repairing.Marked (reading : Repairing) : Prop where
  kept : Lines.Marked reading.kept
  undo : ∀ before ∈ reading.undo, Lines.Marked before.1

theorem Repairing.Marked.repairPiece {reading : Repairing}
    (h : reading.Marked) (index : ℕ) {piece : LinePiece}
    (hpiece : piece.replaces = false) (later : List LinePiece) :
    (repairPiece W index piece later reading).Marked := by
  have hfalse : ∀ {p : Prop}, piece.replaces = true → p := fun htrue =>
    absurd (htrue.symm.trans hpiece) (by decide)
  have hundo : ∀ before ∈ some (reading.kept, index),
      Lines.Marked before.1 := by
    rintro _ ⟨⟩
    exact h.kept
  unfold Lines.repairPiece
  dsimp only
  split
  · exact ⟨h.kept.concat hfalse, h.undo⟩
  · next hrepairs =>
    have hmarker : markerRun piece.gap = true := by
      rw [Bool.not_eq_false] at hrepairs
      unfold repairs at hrepairs
      split at hrepairs
      · next heq =>
        rw [List.take_cons (by decide)] at heq
        cases heq
        split at hrepairs
        · cases hrepairs
        · next hnot => exact Bool.not_eq_false _ ▸ hnot
      · cases hrepairs
    split
    · next length hfind =>
      have hsize := List.find?_some hfind
      rw [Bool.and_eq_true, decide_eq_true_iff] at hsize
      have hpos : 0 < length := by
        have hmem := List.mem_of_find?_eq_some hfind
        split at hmem
        · cases List.mem_singleton.mp hmem
          decide
        · rcases List.mem_cons.mp hmem with rfl | hmem
          · decide
          · cases List.mem_singleton.mp hmem
            decide
      refine ⟨Marked.concat (h.kept.of_subset fun p hp =>
        List.mem_of_mem_take hp) fun hreplaces => ?_, hundo⟩
      cases hfirst : reading.kept[reading.kept.length - length]? with
      | none =>
          rw [hfirst] at hreplaces
          exact hfalse (by simpa [inPlaceOf] using hreplaces)
      | some first =>
          have hslot := slotOf_of_parallel W hpos rfl hsize.1 hsize.2 hfirst
          have hmarked : first.replaces = true := by
            rw [hfirst] at hreplaces
            simpa [inPlaceOf, hpiece] using hreplaces
          rcases h.kept first (List.mem_of_getElem? hfirst) hmarked with
            hproduct | hgap
          · exact Or.inl (hslot.trans hproduct)
          · exact Or.inr hgap
    · split
      · refine ⟨h.kept.concat fun _ => Or.inr ?_, hundo⟩
        split
        · exact not_with_of_markerRun hmarker
        · exact not_with_of_markerRun hmarker
      · exact ⟨(h.kept.repairedLine piece).concat hfalse, hundo⟩

theorem Repairing.Marked.repairLoop {reading : Repairing} (h : reading.Marked)
    (index : ℕ) {pieces : List LinePiece}
    (hpieces : ∀ piece ∈ pieces, piece.replaces = false) :
    (repairLoop W index pieces reading).Marked := by
  induction pieces generalizing reading index with
  | nil => exact h
  | cons piece later ih =>
      exact ih (h.repairPiece W index (hpieces piece List.mem_cons_self) later)
        _ fun p hp => hpieces p (List.mem_cons_of_mem _ hp)

/-- Of pieces with no mark, the pass marks none that is said with what is
before it. -/
theorem marked_repaired {given : List LinePiece}
    (hgiven : ∀ piece ∈ given, piece.replaces = false) (takeBack : Bool) :
    Marked (repaired W given takeBack) := by
  have hpieces : ∀ piece ∈ given.zipIdx.map fun (piece, index) =>
      withoutTakenBack piece index, piece.replaces = false := by
    intro piece hpiece
    obtain ⟨⟨said, index⟩, hmem, rfl⟩ := List.mem_map.mp hpiece
    rw [replaces_withoutTakenBack]
    exact hgiven said (List.fst_mem_of_mem_zipIdx hmem)
  have hstart : Repairing.Marked ⟨[], none⟩ :=
    ⟨fun _ h => absurd h List.not_mem_nil, fun _ h => by cases h⟩
  have hloop := hstart.repairLoop W 0 hpieces
  unfold repaired
  dsimp only
  split
  · next before start hundo =>
    split
    · exact hloop.undo _ hundo
    · exact hloop.kept
  · exact hloop.kept

end Repair

end Shozee.Sho.Lines
