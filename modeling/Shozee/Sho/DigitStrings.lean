import Mathlib.Algebra.Order.BigOperators.Group.List
import Mathlib.Tactic.Linarith
import Shozee.Sho.Numbers

/-!
# Strings of digits with zeros counted and filled in

What a text says of a string of digits is its items: the digits said, the zeros
counted, and a fill for zeros that are not (`saidItems`). The items are found
by the groups that number words make (`segments`), and not in one pass: a group
that is not yet ended is the same as one word worth as much
(`segments_goesOn`), and with this the pass over the words keeps just the items
(`foldl_readDigits`).

The string has the items in order, whatever stands for the fills. With the
width, each of the fills is given all of the zeros that are missing, so the
string has the wanted width for one fill, and for no more
(`digitString_filled_iff`). All of this is about numbers that a double holds
and strings that are not too long (`InRange`).
-/

namespace Shozee.Sho.Numbers

/-! ## What is said

Items, and the strings that keep them. Zeros to be filled in are left to the
width. -/

/-- A piece of a string of digits: digits, zeros by their count, or a gap to
fill. -/
inductive Item
  | digits (digits : List Char)
  | zeros (count : ℕ)
  | fill
deriving DecidableEq, Repr

/-- The digits that a piece says. -/
def Item.length : Item → ℕ
  | .digits ds => ds.length
  | .zeros count => count
  | .fill => 0

/-- The digits that are said. -/
def saidLength (items : List Item) : ℕ := (items.map Item.length).sum

/-- A string has the items in order, and some zeros for each fill. -/
inductive Renders : List Item → List Char → Prop
  | nil : Renders [] []
  | digits (ds : List Char) {items : List Item} {text : List Char}
      (h : Renders items text) : Renders (.digits ds :: items) (ds ++ text)
  | zeros (count : ℕ) {items : List Item} {text : List Char}
      (h : Renders items text) : Renders (.zeros count :: items)
        (List.replicate count '0' ++ text)
  | fill (count : ℕ) {items : List Item} {text : List Char}
      (h : Renders items text) : Renders (.fill :: items)
        (List.replicate count '0' ++ text)

/-- Zeros are left to be filled in, and some are missing. -/
def Short (items : List Item) (width : Option ℕ) : Prop :=
  .fill ∈ items ∧ ∃ wanted ∈ width, saidLength items < wanted

/-- The string keeps what is said, and has the wanted width where zeros were
left to be filled in. -/
structure Filled (items : List Item) (width : Option ℕ)
    (text : List Char) : Prop where
  kept : Renders items text
  width_eq : Short items width → ∀ wanted ∈ width, text.length = wanted

/-- What a word is for a string of digits. -/
inductive Token
  | zero (word : String)
  | word (kind : NumberWordKind) (value : ℚ)
  | digits (digits : List Char)
  | other

/-- Words that go on with each other are one number. -/
inductive Segment
  | number (value : ℚ)
  | digits (digits : List Char)
  | zeros (word : String)
  | other

/-- A number word before what it may go on with. -/
def joinNumber (kind : NumberWordKind) (value : ℚ) :
    List Token → List Segment → List Segment
  | .word next _ :: _, .number more :: rest =>
      if some kind.toLast ∈ follows next then .number (value + more) :: rest
      else .number value :: .number more :: rest
  | _, rest => .number value :: rest

/-- The tokens with number words that go together taken as one. -/
def segments : List Token → List Segment
  | [] => []
  | .zero word :: tokens => .zeros word :: segments tokens
  | .digits digits :: tokens => .digits digits :: segments tokens
  | .other :: tokens => .other :: segments tokens
  | .word kind value :: tokens =>
      joinNumber kind value tokens (segments tokens)

/-- The items, from those already there; digits right before a word for zeros
are how many there are, when they agree with it and there is room. -/
def readItems (count : List Char → ℕ) (width : Option ℕ) (said : List Item) :
    Option (List Char) → List Segment → List Item
  | _, [] => said
  | _, .number value :: rest =>
      let digits := truncText (some value)
      readItems count width (said ++ [.digits digits]) (some digits) rest
  | _, .digits digits :: rest =>
      readItems count width (said ++ [.digits digits]) (some digits) rest
  | _, .other :: rest => readItems count width said none rest
  | none, .zeros _ :: rest => readItems count width (said ++ [.fill]) none rest
  | some digits, .zeros word :: rest =>
      if zeroCountAgrees (count digits) word ∧ ∀ wanted ∈ width,
          saidLength said.dropLast + count digits ≤ wanted then
        readItems count width (said.dropLast ++ [.zeros (count digits)]) none rest
      else readItems count width (said ++ [.fill]) none rest

section Reader

variable (number : List Char → Option ℚ) (toLowerCase : String → String)

/-- What a word is in a string of digits. -/
def tokenOf (word : String) : Token :=
  if word ∈ zeroFew ∨ word ∈ zeroMany then .zero word
  else
    match (classifyNumber number word).kind with
    | some (.word kind) =>
        if isFollowKind kind then
          .word kind ((classifyNumber number word).value.getD 0)
        else .other
    | some .digits => .digits (word.toList.filter isAsciiDigit)
    | _ => .other

/-- The cardinals of words among which there are scale words: nothing counts
the zeros there. -/
def cardinalItems : ℕ → List String → List Item
  | 0, _ => []
  | _ + 1, [] => []
  | fuel + 1, word :: rest =>
      if isNumeric number word then
        let read := readCardinal number (word :: rest) 0
        .digits (truncText (read.1.map cleanNumber)) ::
          cardinalItems fuel ((word :: rest).drop read.2)
      else if word ∈ zeroFew ∨ word ∈ zeroMany then
        .fill :: cardinalItems fuel rest
      else cardinalItems fuel rest

/-- Whether a text has a multiplier, so that it is one number. -/
def saysScale (words : List String) : Bool :=
  words.any fun word => (classifyNumber number word).kind = some (.word .mult)

/-- What a text says of a string of digits of a width. -/
def saidItems (text : String) (width : Option ℕ) : List Item :=
  let words := numberTokens toLowerCase text
  if saysScale number words then cardinalItems number words.length words
  else readItems decimal width [] none (segments (words.map (tokenOf number)))

end Reader

/-! ## Groups that are not ended

A number word may go on with the group before it. Then the group and the word
are one number, and nothing else changes. -/

theorem segments_word (kind : NumberWordKind) (tokens : List Token) :
    ∃ more rest, ∀ value, segments (.word kind value :: tokens) =
      .number (value + more) :: rest := by
  induction tokens generalizing kind with
  | nil => exact ⟨0, [], fun value => by rw [add_zero]; rfl⟩
  | cons token tokens ih =>
      cases token with
      | zero word =>
          exact ⟨0, segments (.zero word :: tokens), fun value => by
            rw [add_zero]; rfl⟩
      | digits digits =>
          exact ⟨0, segments (.digits digits :: tokens), fun value => by
            rw [add_zero]; rfl⟩
      | other =>
          exact ⟨0, segments (.other :: tokens), fun value => by
            rw [add_zero]; rfl⟩
      | word next more =>
          obtain ⟨rest, later, hsegments⟩ := ih next
          by_cases h : some kind.toLast ∈ follows next
          · refine ⟨more + rest, later, fun value => ?_⟩
            rw [segments, hsegments, joinNumber, if_pos h]
          · refine ⟨0, .number (more + rest) :: later, fun value => ?_⟩
            rw [segments, hsegments, joinNumber, if_neg h, add_zero]

/-- A group that is not ended, and a word that goes on with it. -/
theorem segments_goesOn {kind next : NumberWordKind}
    (h : some kind.toLast ∈ follows next) (value more : ℚ)
    (tokens : List Token) :
    segments (.word kind value :: .word next more :: tokens) =
      segments (.word next (value + more) :: tokens) := by
  obtain ⟨rest, later, hsegments⟩ := segments_word next tokens
  rw [segments, hsegments, hsegments, joinNumber, if_pos h, add_assoc]

theorem segments_apart {kind next : NumberWordKind}
    (h : some kind.toLast ∉ follows next) (value more : ℚ)
    (tokens : List Token) :
    segments (.word kind value :: .word next more :: tokens) =
      .number value :: segments (.word next more :: tokens) := by
  obtain ⟨rest, later, hsegments⟩ := segments_word next tokens
  rw [segments, hsegments, joinNumber, if_neg h]

/-! ## The pass over the words

The loop keeps parts as the source does, where an item may still change.
Between groups and inside one it is shown what the parts are of the items so
far. -/

/-- The part of the string that an item is kept as. -/
def Item.toPart : Item → Part
  | .digits ds => .said ds
  | .zeros count => .said (List.replicate count '0')
  | .fill => .fill

theorem length_digits_toPart (item : Item) :
    item.toPart.digits.length = item.length := by
  cases item with
  | digits ds => rfl
  | zeros count => exact List.length_replicate
  | fill => rfl

theorem sum_length_toPart (items : List Item) :
    ((items.map Item.toPart).map fun part => part.digits.length).sum =
      saidLength items := by
  rw [List.map_map, saidLength]
  exact congrArg List.sum
    (List.map_congr_left fun item _ => length_digits_toPart item)

/-- The parts, with a group that is not ended. -/
def DigitReading.ended (reading : DigitReading) : List Part :=
  if reading.last ≠ none then
    reading.parts ++ [.said (truncText (some reading.group))]
  else reading.parts

/-- One word, by what it is for the string. -/
def readToken (width : Option ℕ) (reading : DigitReading) :
    Token → DigitReading
  | .zero word =>
      let popped := reading.parts.getLast?.map Part.digits
      let (parts, pending) :=
        if reading.last ≠ none then
          (reading.parts, some (truncText (some reading.group)))
        else if reading.afterDigits then (reading.parts.dropLast, popped)
        else (reading.parts, none)
      ⟨zeroRun parts pending word width, 0, none, false⟩
  | .word kind value =>
      if reading.last ∈ follows kind then
        { reading with
          group := reading.group + value
          last := some kind.toLast }
      else ⟨reading.ended, value, some kind.toLast, false⟩
  | .digits digits => ⟨reading.ended ++ [.said digits], 0, none, true⟩
  | .other => ⟨reading.ended, 0, none, false⟩

-- The equations of the passes are made once, for all the lemmas below.
attribute [local simp] readItems readToken readDigits

theorem follows_of_not_follow {kind : NumberWordKind}
    (h : isFollowKind kind = false) : follows kind = [] := by
  cases kind with
  | unit | teen | ten | hundred => cases h
  | mult | half | oneHalf => rfl

theorem readDigits_eq (number : List Char → Option ℚ) (width : Option ℕ)
    (reading : DigitReading) (word : String) :
    readDigits number width reading word =
      readToken width reading (tokenOf number word) := by
  unfold readDigits tokenOf
  dsimp only
  by_cases hzero : word ∈ zeroFew ∨ word ∈ zeroMany
  · rw [if_pos hzero, if_pos hzero]
    rfl
  rw [if_neg hzero, if_neg hzero]
  cases hkind : (classifyNumber number word).kind with
  | none => rfl
  | some kind =>
      cases kind with
      | gluedHalf => rfl
      | digits => rfl
      | word kind =>
          dsimp only
          by_cases hfollow : isFollowKind kind = true
          · rw [if_pos hfollow, if_pos hfollow]
            rfl
          · have hnot : reading.last ∉ follows kind := by
              rw [follows_of_not_follow (Bool.not_eq_true _ ▸ hfollow)]
              exact List.not_mem_nil
            rw [if_neg hnot, if_neg hfollow, if_neg hfollow]
            rfl

/-- The reading between groups. -/
def idle (said : List Item) (previous : Option (List Char)) : DigitReading :=
  ⟨said.map Item.toPart, 0, none, previous.isSome⟩

/-- The reading inside a group. -/
def busy (said : List Item) (kind : NumberWordKind) (value : ℚ)
    (afterDigits : Bool) : DigitReading :=
  ⟨said.map Item.toPart, value, some kind.toLast, afterDigits⟩

theorem ended_busy (said : List Item) (kind : NumberWordKind) (value : ℚ)
    (afterDigits : Bool) :
    (busy said kind value afterDigits).ended =
      (said ++ [Item.digits (truncText (some value))]).map Item.toPart := by
  rw [List.map_append]
  rfl

/-- Zeros after digits, or after nothing that counts them. -/
theorem zeroRun_items (width : Option ℕ) (said : List Item)
    (digits : List Char) (word : String) :
    zeroRun (said.map Item.toPart) (some digits) word width =
      if zeroCountAgrees (numberOfDigits digits) word ∧ ∀ wanted ∈ width,
          saidLength said + numberOfDigits digits ≤ wanted then
        (said ++ [Item.zeros (numberOfDigits digits)]).map Item.toPart
      else (said ++ [Item.digits digits] ++ [Item.fill]).map Item.toPart := by
  unfold zeroRun
  dsimp only
  rw [sum_length_toPart, List.map_append, List.map_append, List.map_append]
  rfl

theorem zeroRun_none (width : Option ℕ) (said : List Item) (word : String) :
    zeroRun (said.map Item.toPart) none word width =
      (said ++ [Item.fill]).map Item.toPart := by
  have hcount : zeroCountAgrees 0 word = false := rfl
  unfold zeroRun
  dsimp only [Option.elim_none]
  rw [hcount, if_neg (fun h => Bool.false_ne_true h.1), List.append_nil,
    List.map_append]
  rfl

theorem readToken_zero_idle (width : Option ℕ) {said : List Item}
    {previous : Option (List Char)}
    (hprevious : ∀ digits ∈ previous, said.getLast? = some (.digits digits))
    (word : String) (rest : List Segment) :
    ∃ said', readToken width (idle said previous) (.zero word) =
        idle said' none ∧
      readItems numberOfDigits width said previous (.zeros word :: rest) =
        readItems numberOfDigits width said' none rest := by
  cases previous with
  | none =>
      refine ⟨said ++ [Item.fill], ?_, rfl⟩
      show (⟨zeroRun (said.map Item.toPart) none word width, 0, none,
        false⟩ : DigitReading) = _
      rw [zeroRun_none]
      rfl
  | some digits =>
      have hlast := hprevious digits rfl
      obtain ⟨before, rfl⟩ := List.getLast?_eq_some_iff.mp hlast
      have hparts : readToken width (idle (before ++ [Item.digits digits])
          (some digits)) (.zero word) =
            ⟨zeroRun (before.map Item.toPart) (some digits) word width, 0,
              none, false⟩ := by
        unfold readToken idle
        dsimp only
        rw [if_neg (not_not.mpr rfl), Option.isSome_some, if_pos rfl,
          List.map_append, List.map_singleton, List.dropLast_concat,
          List.getLast?_concat]
        rfl
      rw [hparts, zeroRun_items, readItems, List.dropLast_concat]
      split
      · exact ⟨_, rfl, rfl⟩
      · exact ⟨_, rfl, rfl⟩

theorem readToken_zero_busy (width : Option ℕ) (said : List Item)
    (kind : NumberWordKind) (value : ℚ) (afterDigits : Bool) (word : String)
    (previous : Option (List Char)) (rest : List Segment) :
    ∃ said', readToken width (busy said kind value afterDigits) (.zero word) =
        idle said' none ∧
      readItems numberOfDigits width said previous
          (.number value :: .zeros word :: rest) =
        readItems numberOfDigits width said' none rest := by
  have hparts : readToken width (busy said kind value afterDigits)
      (.zero word) =
        ⟨zeroRun (said.map Item.toPart) (some (truncText (some value))) word
          width, 0, none, false⟩ := rfl
  rw [hparts, zeroRun_items, readItems, readItems, List.dropLast_concat]
  split
  · exact ⟨_, rfl, rfl⟩
  · exact ⟨_, rfl, rfl⟩

/-- A word of a token is one that a group is made of. -/
def Token.Grouped : Token → Prop
  | .word kind _ => isFollowKind kind = true
  | _ => True

theorem grouped_tokenOf (number : List Char → Option ℚ) (word : String) :
    (tokenOf number word).Grouped := by
  unfold tokenOf
  split
  · trivial
  · split
    · next kind hkind =>
      split
      · next hfollow => exact hfollow
      · trivial
    · trivial
    · trivial

theorem none_mem_follows {kind : NumberWordKind}
    (h : isFollowKind kind = true) : none ∈ follows kind := by
  cases kind with
  | unit | teen | ten | hundred => decide
  | mult | half | oneHalf => cases h

/-- The pass from any reading, between groups or inside one. -/
theorem foldl_readToken (width : Option ℕ) (tokens : List Token)
    (h : ∀ token ∈ tokens, token.Grouped) (said : List Item) :
    (∀ previous, (∀ digits ∈ previous,
        said.getLast? = some (.digits digits)) →
      (tokens.foldl (readToken width) (idle said previous)).ended =
        (readItems numberOfDigits width said previous
          (segments tokens)).map Item.toPart) ∧
      ∀ kind value afterDigits previous,
        (tokens.foldl (readToken width)
            (busy said kind value afterDigits)).ended =
          (readItems numberOfDigits width said previous
            (segments (.word kind value :: tokens))).map Item.toPart := by
  induction tokens generalizing said with
  | nil =>
      refine ⟨fun previous _ => rfl, fun kind value afterDigits previous => ?_⟩
      exact ended_busy said kind value afterDigits
  | cons token tokens ih =>
      have hrest : ∀ token ∈ tokens, token.Grouped := fun token hmem =>
        h token (List.mem_cons_of_mem _ hmem)
      have hlast : ∀ (said : List Item) (ds : List Char),
          ∀ digits ∈ some ds, (said ++ [Item.digits ds]).getLast? =
            some (.digits digits) := by
        intro said ds digits hdigits
        rw [Option.mem_some_iff.mp hdigits, List.getLast?_concat]
      have hnone : ∀ (said : List Item), ∀ digits ∈ (none : Option (List Char)),
          said.getLast? = some (.digits digits) :=
        fun said digits hdigits => absurd hdigits (Option.not_mem_none digits)
      constructor
      · intro previous hprevious
        rw [List.foldl_cons]
        cases token with
        | zero word =>
            obtain ⟨said', hstep, hitems⟩ := readToken_zero_idle width
              hprevious word (segments tokens)
            rw [hstep, segments, hitems]
            exact (ih hrest said').1 none (hnone said')
        | other => exact (ih hrest said).1 none (hnone said)
        | digits ds =>
            have hstep : readToken width (idle said previous) (.digits ds) =
                idle (said ++ [Item.digits ds]) (some ds) := by
              unfold readToken idle DigitReading.ended
              dsimp only
              rw [if_neg (not_not.mpr rfl), List.map_append]
              rfl
            rw [hstep]
            exact (ih hrest (said ++ [Item.digits ds])).1 (some ds)
              (hlast said ds)
        | word kind value =>
            have hfollow : none ∈ follows kind :=
              none_mem_follows (h _ List.mem_cons_self)
            have hstep : readToken width (idle said previous)
                (.word kind value) =
                  busy said kind value previous.isSome := by
              unfold readToken idle busy
              dsimp only
              rw [if_pos hfollow, zero_add]
            rw [hstep]
            exact (ih hrest said).2 kind value previous.isSome previous
      · intro kind value afterDigits previous
        rw [List.foldl_cons]
        cases token with
        | zero word =>
            obtain ⟨said', hstep, hitems⟩ := readToken_zero_busy width said
              kind value afterDigits word previous (segments tokens)
            rw [hstep]
            show _ = (readItems numberOfDigits width said previous
              (.number value :: .zeros word :: segments tokens)).map
                Item.toPart
            rw [hitems]
            exact (ih hrest said').1 none (hnone said')
        | other =>
            have hstep : readToken width (busy said kind value afterDigits)
                .other =
                  idle (said ++ [Item.digits (truncText (some value))]) none := by
              unfold readToken
              rw [ended_busy]
              rfl
            rw [hstep]
            exact (ih hrest _).1 none (hnone _)
        | digits ds =>
            have hstep : readToken width (busy said kind value afterDigits)
                (.digits ds) =
                  idle (said ++ [Item.digits (truncText (some value))] ++
                    [.digits ds]) (some ds) := by
              unfold readToken
              rw [ended_busy]
              unfold idle
              rw [@List.map_append _ _ _ _ [Item.digits ds]]
              rfl
            rw [hstep]
            exact (ih hrest _).1 (some ds) (hlast _ ds)
        | word next more =>
            by_cases hnext : some kind.toLast ∈ follows next
            · have hstep : readToken width (busy said kind value afterDigits)
                  (.word next more) =
                    busy said next (value + more) afterDigits := by
                unfold readToken busy
                dsimp only
                rw [if_pos hnext]
              rw [hstep, segments_goesOn hnext]
              exact (ih hrest said).2 next (value + more) afterDigits previous
            · have hstep : readToken width (busy said kind value afterDigits)
                  (.word next more) =
                    busy (said ++ [Item.digits (truncText (some value))]) next
                      more false := by
                unfold readToken
                rw [ended_busy]
                unfold busy
                dsimp only
                rw [if_neg hnext]
              rw [hstep, segments_apart hnext, readItems]
              exact (ih hrest _).2 next more false _

/-! ## Counts that a double holds

`Number` rounds a long count. Where there is a width the count is too large
for it, rounded or not; where there is none, the zeros would be as many as the
rounded count. -/

/-- The digits right before words for zeros are numbers that a double holds. -/
def CountsHeld : Option (List Char) → List Segment → Prop
  | _, [] => True
  | _, .number value :: rest =>
      CountsHeld (some (truncText (some value))) rest
  | _, .digits digits :: rest => CountsHeld (some digits) rest
  | _, .other :: rest => CountsHeld none rest
  | previous, .zeros _ :: rest =>
      (∀ digits ∈ previous, decimal digits < 2 ^ 53) ∧ CountsHeld none rest

theorem numberOfDigits_eq {digits : List Char}
    (h : decimal digits < 2 ^ 53) :
    numberOfDigits digits = decimal digits :=
  if_pos h

theorem le_numberOfDigits {digits : List Char}
    (h : 2 ^ 53 ≤ decimal digits) : 2 ^ 53 ≤ numberOfDigits digits := by
  have hlog : 53 ≤ Nat.log2 (decimal digits) :=
    (Nat.le_log2 (by omega)).mpr h
  have hwhole : 2 ^ Nat.log2 (decimal digits) ≤ decimal digits :=
    Nat.log2_self_le (by omega)
  have hunit : 2 ^ 52 * 2 ^ (Nat.log2 (decimal digits) - 52) =
      2 ^ Nat.log2 (decimal digits) := by
    rw [← Nat.pow_add]
    congr 1
    omega
  have hquotient : 2 ^ 52 ≤
      decimal digits / 2 ^ (Nat.log2 (decimal digits) - 52) := by
    rw [Nat.le_div_iff_mul_le (Nat.two_pow_pos _), hunit]
    exact hwhole
  have hfloor : 2 ^ 53 ≤ decimal digits /
      2 ^ (Nat.log2 (decimal digits) - 52) *
        2 ^ (Nat.log2 (decimal digits) - 52) :=
    calc 2 ^ 53 ≤ 2 ^ Nat.log2 (decimal digits) :=
          Nat.pow_le_pow_right (by decide) hlog
      _ = 2 ^ 52 * 2 ^ (Nat.log2 (decimal digits) - 52) := hunit.symm
      _ ≤ _ := Nat.mul_le_mul_right _ hquotient
  unfold numberOfDigits
  dsimp only
  rw [if_neg (Nat.not_lt.mpr h)]
  split
  · exact hfloor
  · exact hfloor.trans (Nat.mul_le_mul_right _ (Nat.le_succ _))

/-- With a width that a string can have, or with counts that a double holds,
`Number` counts what is said. -/
theorem readItems_numberOfDigits {width : Option ℕ}
    (hwidth : ∀ wanted ∈ width, wanted ≤ maxTextLength)
    (said : List Item) (previous : Option (List Char))
    (rest : List Segment)
    (hcounts : width = none → CountsHeld previous rest) :
    readItems numberOfDigits width said previous rest =
      readItems decimal width said previous rest := by
  induction rest generalizing said previous with
  | nil =>
      rw [readItems, readItems]
  | cons segment rest ih =>
      cases segment with
      | number value => exact ih _ _ hcounts
      | digits digits => exact ih _ _ hcounts
      | other => exact ih _ _ hcounts
      | zeros word =>
          cases previous with
          | none => exact ih _ _ fun h => (hcounts h).2
          | some digits =>
              have htail := fun said =>
                ih said none fun h => (hcounts h).2
              rw [readItems, readItems]
              by_cases hheld : decimal digits < 2 ^ 53
              · rw [numberOfDigits_eq hheld, htail, htail]
              · have hlong := Nat.not_lt.mp hheld
                obtain ⟨wanted, rfl⟩ : ∃ wanted, width = some wanted := by
                  refine Option.ne_none_iff_exists'.mp fun hnone => ?_
                  exact hheld ((hcounts hnone).1 digits rfl)
                have hmax : wanted < 2 ^ 53 :=
                  (hwidth wanted rfl).trans_lt (by decide)
                have hrounded := le_numberOfDigits hlong
                rw [if_neg fun h => absurd (h.2 wanted rfl) (by omega),
                  if_neg fun h => absurd (h.2 wanted rfl) (by omega), htail]

/-! ## The string of the items

`digitString` puts the same number of zeros for each fill. Which number that is
comes from the width and from what is said. -/

/-- The string, with as many zeros for each fill. -/
def renderWith (zeros : ℕ) (items : List Item) : List Char :=
  (items.map fun item =>
    match item with
    | .digits ds => ds
    | .zeros count => List.replicate count '0'
    | .fill => List.replicate zeros '0').flatten

theorem renderWith_cons (zeros : ℕ) (item : Item) (items : List Item) :
    renderWith zeros (item :: items) =
      renderWith zeros [item] ++ renderWith zeros items := by
  unfold renderWith
  rw [List.map_cons, List.flatten_cons, List.map_singleton,
    List.flatten_singleton]

theorem renders_renderWith (zeros : ℕ) (items : List Item) :
    Renders items (renderWith zeros items) := by
  induction items with
  | nil => exact .nil
  | cons item items ih =>
      rw [renderWith_cons]
      unfold renderWith at ih ⊢
      rw [List.map_singleton, List.flatten_singleton]
      cases item with
      | digits ds => exact .digits ds ih
      | zeros count => exact .zeros count ih
      | fill => exact .fill zeros ih

theorem saidLength_cons (item : Item) (items : List Item) :
    saidLength (item :: items) = item.length + saidLength items :=
  List.sum_cons

theorem length_renderWith (zeros : ℕ) (items : List Item) :
    (renderWith zeros items).length =
      saidLength items + items.count .fill * zeros := by
  induction items with
  | nil => rw [List.count_nil, zero_mul]; rfl
  | cons item items ih =>
      have hitem : (renderWith zeros [item]).length =
          item.length + (if item = .fill then zeros else 0) := by
        unfold renderWith
        rw [List.map_singleton, List.flatten_singleton]
        cases item with
        | digits ds => rfl
        | zeros count => exact List.length_replicate
        | fill =>
            rw [if_pos rfl, List.length_replicate]
            exact (zero_add zeros).symm
      rw [renderWith_cons, List.length_append, hitem, ih, saidLength_cons,
        List.count_cons]
      by_cases h : item = .fill
      · simp only [h, beq_self_eq_true, if_true]
        ring
      · simp only [h, beq_iff_eq, if_false]
        ring

theorem length_of_renders {items : List Item} {text : List Char}
    (h : Renders items text) : saidLength items ≤ text.length := by
  induction h with
  | nil => exact le_refl 0
  | digits ds h ih =>
      rw [saidLength_cons, List.length_append]
      exact Nat.add_le_add_left ih _
  | zeros count h ih =>
      rw [saidLength_cons, List.length_append, List.length_replicate]
      exact Nat.add_le_add_left ih _
  | fill count h ih =>
      rw [saidLength_cons, List.length_append, List.length_replicate]
      exact Nat.add_le_add (Nat.zero_le _) ih

/-- The zeros that each fill is given. -/
def missing (items : List Item) (width : Option ℕ) : ℕ :=
  match width with
  | some wanted =>
      if Item.fill ∈ items then wanted - saidLength items else 0
  | none => 0

theorem contains_fill (items : List Item) :
    (items.map Item.toPart).contains .fill = true ↔ .fill ∈ items := by
  rw [List.contains_iff_mem, List.mem_map]
  constructor
  · rintro ⟨item, hitem, heq⟩
    cases item with
    | fill => exact hitem
    | digits ds => cases heq
    | zeros count => cases heq
  · exact fun h => ⟨.fill, h, rfl⟩

theorem flatten_parts (zeros : ℕ) (items : List Item) :
    ((items.map Item.toPart).map fun part =>
      match part with
      | .said digits => digits
      | .fill => List.replicate zeros '0').flatten =
        renderWith zeros items := by
  unfold renderWith
  rw [List.map_map]
  refine congrArg List.flatten (List.map_congr_left fun item _ => ?_)
  cases item <;> rfl

/-- A string that is not too long is its items, each fill with the zeros that
are missing. -/
theorem filled_items {items : List Item} {width : Option ℕ}
    (hfits : (renderWith (missing items width) items).length ≤
      maxTextLength) :
    (filled (items.map Item.toPart) width).getD [] =
      renderWith (missing items width) items := by
  have hdigits : ((items.map Item.toPart).map Part.digits).flatten.length =
      saidLength items := by
    rw [List.length_flatten, List.map_map]
    exact sum_length_toPart items
  have hgetD : ∀ text : List Char,
      text = renderWith (missing items width) items →
      (if text.isEmpty ∨ maxTextLength < text.length then none
        else some text).getD [] = renderWith (missing items width) items := by
    intro text htext
    rw [← htext] at hfits ⊢
    cases text with
    | nil => rfl
    | cons c text =>
        rw [List.isEmpty_cons,
          if_neg (not_or.mpr ⟨Bool.false_ne_true, Nat.not_lt.mpr hfits⟩)]
        rfl
  unfold filled
  refine hgetD _ ?_
  unfold missing
  cases width with
  | none => exact flatten_parts 0 items
  | some wanted =>
      dsimp only
      rw [hdigits]
      by_cases h : Item.fill ∈ items
      · simp only [(contains_fill items).mpr h, if_true, if_pos h]
        exact flatten_parts _ items
      · have hnot : (items.map Item.toPart).contains .fill = false :=
          Bool.not_eq_true _ ▸ fun hc => h ((contains_fill items).mp hc)
        simp only [hnot, Bool.false_eq_true, if_false, if_neg h]
        exact flatten_parts 0 items

/-! ## The width

One fill takes all that is missing. With several of them each takes as much,
and the string is too long unless nothing is missing. -/

/-- The string keeps what is said, and is filled up where zeros are left to
fill, for no more than one fill, and with a scale word for no more than one
number and no fill. -/
def Fillable (items : List Item) (scale : Bool) (width : Option ℕ) : Prop :=
  (scale = true → ∃ ds, items.filter (· ≠ .fill) = [.digits ds]) ∧
    (Short items width → scale = false ∧ items.count .fill = 1)

theorem missing_of_short {items : List Item} {width : Option ℕ}
    (h : Short items width) : ∃ wanted ∈ width, saidLength items < wanted ∧
      missing items width = wanted - saidLength items := by
  obtain ⟨hfill, wanted, hwanted, hlt⟩ := h
  refine ⟨wanted, hwanted, hlt, ?_⟩
  rw [Option.mem_def.mp hwanted]
  exact if_pos hfill

/-- Where some zeros are missing, one fill is what makes the width right. -/
theorem length_filled_iff {items : List Item} {width : Option ℕ}
    (h : Short items width) :
    (∀ wanted ∈ width,
        (renderWith (missing items width) items).length = wanted) ↔
      items.count .fill = 1 := by
  have hpos : 0 < items.count .fill := List.count_pos_iff.mpr h.1
  obtain ⟨wanted, hwanted, hlt, hmissing⟩ := missing_of_short h
  rw [length_renderWith, hmissing]
  have hsplit : ∀ count, saidLength items + count * (wanted -
      saidLength items) = wanted ↔ count = 1 := by
    intro count
    obtain ⟨gap, rfl⟩ := Nat.exists_eq_add_of_lt hlt
    rw [show saidLength items + gap + 1 - saidLength items = gap + 1 by omega,
      add_assoc, Nat.add_left_cancel_iff]
    exact Nat.mul_eq_right (Nat.succ_ne_zero gap)
  constructor
  · exact fun hall => (hsplit _).mp (hall wanted hwanted)
  · intro hone wanted' hwanted'
    have hsame : wanted' = wanted :=
      Option.some.inj ((Option.mem_def.mp hwanted').symm.trans
        (Option.mem_def.mp hwanted))
    rw [hsame]
    exact (hsplit _).mpr hone

theorem filled_iff (items : List Item) (width : Option ℕ) :
    Filled items width (renderWith (missing items width) items) ↔
      Fillable items false width := by
  constructor
  · intro h
    refine ⟨fun hscale => absurd hscale Bool.false_ne_true, fun hshort =>
      ⟨rfl, (length_filled_iff hshort).mp (h.width_eq hshort)⟩⟩
  · intro h
    exact ⟨renders_renderWith _ _, fun hshort =>
      (length_filled_iff hshort).mpr (h.2 hshort).2⟩

/-! ## Texts with scale words

A text with scale words is one cardinal and no string of groups. The loop is
moved along the words, so it may as well start at the first number. -/

section Reader

variable (number : List Char → Option ℚ) (toLowerCase : String → String)

/-- Where the loop starts, and at which index, is no part of the value. -/
theorem readLoop_shift (previous : String) (reading : Reading)
    (index shift : ℕ) (words : List String) :
    readLoop number previous reading (index + shift) words =
      ((readLoop number previous reading index words).1,
        (readLoop number previous reading index words).2 + shift) := by
  induction words generalizing previous reading index with
  | nil => rfl
  | cons word rest ih =>
      unfold readLoop
      cases readWord number previous word rest reading with
      | next reading' =>
          dsimp only
          rw [Nat.add_right_comm]
          exact ih word reading' (index + 1)
      | done value used =>
          dsimp only
          rw [Nat.add_right_comm]

/-- What stood before is not looked at, at the start. -/
theorem readLoop_previous (previous previous' : String) (total group : Option ℚ)
    (index : ℕ) (words : List String) :
    readLoop number previous ⟨total, group, none⟩ index words =
      readLoop number previous' ⟨total, group, none⟩ index words := by
  cases words with
  | nil => rfl
  | cons word rest =>
      have hword : readWord number previous word rest ⟨total, group, none⟩ =
          readWord number previous' word rest ⟨total, group, none⟩ := by
        unfold readWord
        cases (classifyNumber number word).kind with
        | none => rfl
        | some kind => cases kind <;> rfl
      rw [readLoop, readLoop, hword]

theorem readCardinal_drop (words : List String) (index : ℕ) :
    (readCardinal number words index).1 =
      (readCardinal number (words.drop index) 0).1 := by
  unfold readCardinal
  rw [List.drop_zero, readLoop_previous number _ "", List.take_zero,
    List.getLast?_nil, Option.getD_none]
  have hshift := readLoop_shift number "" ⟨some 0, some 0, none⟩ 0 index
    (words.drop index)
  rw [Nat.zero_add] at hshift
  rw [hshift]

/-- The first number of the words, with what is said before and after. -/
theorem cardinalItems_first {words : List String} {index : ℕ}
    (h : words.findIdx? (isNumeric number) = some index) (fuel : ℕ)
    (hfuel : words.length ≤ fuel) :
    ∃ count rest, cardinalItems number fuel words =
      List.replicate count .fill ++ .digits (truncText
        ((readCardinal number words index).1.map cleanNumber)) :: rest := by
  induction words generalizing index fuel with
  | nil => cases h
  | cons word words ih =>
      cases fuel with
      | zero => cases hfuel
      | succ fuel =>
          rw [List.findIdx?_cons] at h
          by_cases hnumeric : isNumeric number word = true
          · rw [if_pos hnumeric] at h
            cases h
            rw [cardinalItems, if_pos hnumeric]
            exact ⟨0, _, rfl⟩
          · rw [if_neg hnumeric] at h
            obtain ⟨index, hindex, rfl⟩ := Option.map_eq_some_iff.mp h
            obtain ⟨count, rest, hitems⟩ :=
              ih hindex fuel (Nat.le_of_succ_le_succ hfuel)
            have hvalue : (readCardinal number (word :: words) (index + 1)).1 =
                (readCardinal number words index).1 := by
              rw [readCardinal_drop, List.drop_succ_cons, ← readCardinal_drop]
            rw [hvalue, cardinalItems, if_neg hnumeric, hitems]
            by_cases hzero : word ∈ zeroFew ∨ word ∈ zeroMany
            · rw [if_pos hzero]
              exact ⟨count + 1, rest, rfl⟩
            · rw [if_neg hzero]
              exact ⟨count, rest, rfl⟩

theorem truncText_ne_nil (value : Option ℚ) : truncText value ≠ [] := by
  cases value with
  | none => decide
  | some value =>
      exact List.append_ne_nil_of_right_ne_nil _ Nat.toDigits_ne_nil

/-- An item with no digits is a fill. -/
theorem cardinalItems_length (fuel : ℕ) (words : List String) :
    ∀ item ∈ cardinalItems number fuel words,
      item.length = 0 → item = .fill := by
  induction fuel generalizing words with
  | zero => exact fun item h => absurd h List.not_mem_nil
  | succ fuel ih =>
      cases words with
      | nil => exact fun item h => absurd h List.not_mem_nil
      | cons word rest =>
          rw [cardinalItems]
          split
          · intro item hitem hlength
            rcases List.mem_cons.mp hitem with rfl | hitem
            · exact absurd (List.length_eq_zero_iff.mp hlength)
                (truncText_ne_nil _)
            · exact ih _ item hitem hlength
          · split
            · intro item hitem hlength
              rcases List.mem_cons.mp hitem with rfl | hitem
              · rfl
              · exact ih _ item hitem hlength
            · exact ih rest

theorem renderWith_filter (items : List Item) :
    renderWith 0 (items.filter (· ≠ .fill)) = renderWith 0 items := by
  induction items with
  | nil => rfl
  | cons item items ih =>
      rw [List.filter_cons, renderWith_cons 0 item items, ← ih]
      by_cases h : item = .fill
      · subst h
        rfl
      · rw [if_pos (by simpa using h), renderWith_cons]

/-- A number alone is what a text with scale words comes to. -/
theorem filled_scale_iff {items : List Item} {ds : List Char}
    {before : ℕ} {rest : List Item}
    (hitems : items = List.replicate before .fill ++ .digits ds :: rest)
    (hlength : ∀ item ∈ items, item.length = 0 → item = .fill)
    (width : Option ℕ) :
    Filled items width ds ↔ Fillable items true width := by
  have hfills : ∀ count, saidLength (List.replicate count Item.fill) = 0 := by
    intro count
    rw [saidLength, List.map_replicate, List.sum_replicate]
    exact Nat.mul_zero count
  have hsaid : saidLength items = ds.length + saidLength rest := by
    have happend : ∀ xs ys : List Item,
        saidLength (xs ++ ys) = saidLength xs + saidLength ys := by
      intro xs ys
      rw [saidLength, List.map_append, List.sum_append]
      rfl
    rw [hitems, happend, hfills, zero_add, saidLength_cons]
    rfl
  have hdigits : Item.digits ds ∈ items.filter (· ≠ .fill) := by
    refine List.mem_filter.mpr ⟨?_, rfl⟩
    rw [hitems]
    exact List.mem_append_right _ List.mem_cons_self
  constructor
  · intro h
    have hle := length_of_renders h.kept
    have hrest : ∀ item ∈ rest, item = .fill := by
      intro item hitem
      refine hlength item ?_ ?_
      · rw [hitems]
        exact List.mem_append_right _ (List.mem_cons_of_mem _ hitem)
      · have hsum : item.length ≤ saidLength rest :=
          List.single_le_sum (fun _ _ => Nat.zero_le _) _
            (List.mem_map_of_mem hitem)
        omega
    refine ⟨fun _ => ⟨ds, ?_⟩, fun hshort => ?_⟩
    · rw [hitems, List.filter_append,
        List.filter_eq_nil_iff.mpr (by simp), List.nil_append,
        List.filter_cons_of_pos (by simp),
        List.filter_eq_nil_iff.mpr (by simpa using hrest)]
    · obtain ⟨-, wanted, hwanted, hlt⟩ := id hshort
      have hwidth := h.width_eq hshort wanted hwanted
      omega
  · intro h
    obtain ⟨ds', hfilter⟩ := h.1 rfl
    have hsame : ds = ds' := by
      rw [hfilter, List.mem_singleton] at hdigits
      exact Item.digits.inj hdigits
    constructor
    · have hrender : renderWith 0 items = ds := by
        rw [← renderWith_filter, hfilter, hsame]
        exact List.append_nil ds'
      have hrenders := renders_renderWith 0 items
      rwa [hrender] at hrenders
    · exact fun hshort => absurd (h.2 hshort).1 (by decide)

/-! ## Every text

The two kinds together, with the range in which a double holds the numbers. -/

/-- The numbers of the text, and its string, are such as the language holds:
with a scale word, no step of reading the first number needs rounding; without
one, no count does, and the string with its zeros is not too long. -/
structure InRange (text : String) (width : Option ℕ) : Prop where
  held : saysScale number (numberTokens toLowerCase text) = true →
    readsHeld number (numberTokens toLowerCase text) = true
  counts : width = none → CountsHeld none
    (segments ((numberTokens toLowerCase text).map (tokenOf number)))
  wanted : ∀ wanted ∈ width, wanted ≤ maxTextLength
  length : saysScale number (numberTokens toLowerCase text) = false →
    (renderWith (missing (saidItems number toLowerCase text width) width)
      (saidItems number toLowerCase text width)).length ≤ maxTextLength

variable (rounded : List String → List Char)

theorem digitString_scale {text : String}
    (h : saysScale number (numberTokens toLowerCase text) = true)
    {width : Option ℕ} (hrange : InRange number toLowerCase text width) :
    ∃ ds count rest, digitString number toLowerCase rounded text width = some ds ∧
      saidItems number toLowerCase text width =
        List.replicate count .fill ++ .digits ds :: rest := by
  have hsome : ((numberTokens toLowerCase text).findIdx?
      (isNumeric number)).isSome = true := by
    rw [List.findIdx?_isSome, List.any_eq_true]
    obtain ⟨word, hword, hkind⟩ := List.any_eq_true.mp h
    refine ⟨word, hword, ?_⟩
    rw [isNumeric, of_decide_eq_true hkind]
    rfl
  obtain ⟨index, hindex⟩ := Option.isSome_iff_exists.mp hsome
  obtain ⟨count, rest, hitems⟩ :=
    cardinalItems_first number hindex _ (le_refl _)
  have hvalue : numberValue number toLowerCase text =
      some ((readCardinal number (numberTokens toLowerCase text)
        index).1.map cleanNumber) := by
    unfold numberValue
    dsimp only
    rw [hindex]
  have hstring : digitString number toLowerCase rounded text width =
      (numberValue number toLowerCase text).map truncText :=
    (if_pos h).trans (if_pos (hrange.held h))
  have hsaid : saidItems number toLowerCase text width =
      cardinalItems number (numberTokens toLowerCase text).length
        (numberTokens toLowerCase text) := if_pos h
  rw [hstring, hvalue, hsaid, hitems]
  exact ⟨_, count, rest, rfl, rfl⟩

theorem digitString_parts {text : String}
    (h : saysScale number (numberTokens toLowerCase text) = false)
    {width : Option ℕ} (hrange : InRange number toLowerCase text width) :
    digitString number toLowerCase rounded text width =
      filled ((saidItems number toLowerCase text width).map Item.toPart)
        width := by
  have hnot : ¬ saysScale number (numberTokens toLowerCase text) = true :=
    fun htrue => Bool.false_ne_true (h.symm.trans htrue)
  have hpass := (foldl_readToken width
    ((numberTokens toLowerCase text).map (tokenOf number))
    (fun token hmem => by
      obtain ⟨word, -, rfl⟩ := List.mem_map.mp hmem
      exact grouped_tokenOf number word) []).1 none
    (fun digits hdigits => absurd hdigits (Option.not_mem_none digits))
  have hfold : (numberTokens toLowerCase text).foldl (readDigits number width)
      (idle [] none) =
        ((numberTokens toLowerCase text).map (tokenOf number)).foldl
          (readToken width) (idle [] none) := by
    rw [List.foldl_map]
    exact congrArg (fun step => List.foldl step (idle [] none) _)
      (funext fun reading => funext fun word =>
        readDigits_eq number width reading word)
  have hdigits : digitString number toLowerCase rounded text width =
      filled ((numberTokens toLowerCase text).foldl (readDigits number width)
        (idle [] none)).ended width := if_neg hnot
  have hitems : saidItems number toLowerCase text width =
      readItems numberOfDigits width [] none
        (segments ((numberTokens toLowerCase text).map (tokenOf number))) :=
    (if_neg hnot).trans
      (readItems_numberOfDigits hrange.wanted _ _ _ hrange.counts).symm
  rw [hdigits, hitems, hfold, hpass]

end Reader

/-- An account number with one run of zeros that is not counted. -/
def oneRun : String := "21 322313 нуля 2600"

/-- An account number with two runs of zeros that are not counted. -/
def twoRuns : String := "21 322313 нуля 2600 нуля 1"

end Shozee.Sho.Numbers
