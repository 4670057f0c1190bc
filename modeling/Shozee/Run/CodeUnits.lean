import Mathlib.Data.List.Forall2

/-!
# Texts of code units

A text as JavaScript has it is a list of 16-bit code units, with surrogates
that need not come in pairs. `quote` is its JSON text: most units stand for
themselves, some are escaped, and which of them a quoted text begins with can
be read off its front, whatever follows (`readUnit`). So a quoted text says
where it ends, and two of them that are followed by anything at all are one
text (`quote_readable`).
-/

namespace Shozee.Run

/-- A unit of UTF-16. -/
abbrev CodeUnit := UInt16

/-- Texts as the language has them. -/
abbrev CodeUnits := List CodeUnit

instance : LawfulBEq CodeUnits := inferInstance

/-- A text of characters that are one code unit each. -/
def codeUnits (text : String) : CodeUnits :=
  text.toList.map fun c => c.toNat.toUInt16

/-! ## Texts of bytes below 128

A text of such characters has its bytes for code units. -/

theorem not_lt_of_marked {byte mark : UInt8} (h : 128 ≤ mark.toNat) :
    ¬ (byte ||| mark) < 128 := by
  rw [UInt8.lt_iff_toNat_lt, UInt8.toNat_or]
  have hle : mark.toNat ≤ byte.toNat ||| mark.toNat := Nat.right_le_or
  have h128 : (128 : UInt8).toNat = 128 := rfl
  omega

theorem utf8Size_of_lt {c : Char}
    (h : ∀ byte ∈ String.utf8EncodeChar c, byte < 128) : c.utf8Size = 1 := by
  rcases Char.utf8Size_eq c with hsize | hsize | hsize | hsize
  · exact hsize
  · rw [String.utf8EncodeChar_eq_cons_cons hsize] at h
    exact absurd (h _ List.mem_cons_self) (not_lt_of_marked (by decide))
  · rw [String.utf8EncodeChar_eq_cons_cons_cons hsize] at h
    exact absurd (h _ List.mem_cons_self) (not_lt_of_marked (by decide))
  · rw [String.utf8EncodeChar_eq_cons_cons_cons_cons hsize] at h
    exact absurd (h _ List.mem_cons_self) (not_lt_of_marked (by decide))

theorem units_of_utf8Encode {chars : List Char}
    (h : ∀ byte ∈ chars.utf8Encode.data.toList, byte < 128) :
    chars.map (fun c => c.toNat.toUInt16) =
      chars.utf8Encode.data.toList.map fun byte => byte.toNat.toUInt16 := by
  induction chars with
  | nil => rfl
  | cons c chars ih =>
      have hbytes : (c :: chars).utf8Encode.data.toList =
          String.utf8EncodeChar c ++ chars.utf8Encode.data.toList := by
        rw [List.utf8Encode_cons, List.utf8Encode_singleton,
          ByteArray.data_append, Array.toList_append, List.data_toByteArray]
      rw [hbytes] at h ⊢
      have hsize := utf8Size_of_lt fun byte hbyte =>
        h byte (List.mem_append_left _ hbyte)
      rw [String.utf8EncodeChar_eq_singleton hsize, List.map_append,
        ← ih fun byte hbyte => h byte (List.mem_append_right _ hbyte)]
      have hlow : c.val.toNat ≤ 127 :=
        UInt32.le_iff_toNat_le.mp (Char.utf8Size_eq_one_iff.mp hsize)
      have hunit : c.val.toUInt8.toNat = c.toNat := by
        rw [UInt32.toNat_toUInt8, Nat.mod_eq_of_lt (by omega)]
        rfl
      rw [List.map_cons, List.map_singleton, hunit, List.singleton_append]

/-- `codeUnits`, off the bytes where they can be read off them. -/
def unitsOfBytes (text : String) : CodeUnits :=
  if text.toByteArray.data.toList.all (· < 128) then
    text.toByteArray.data.toList.map fun byte => byte.toNat.toUInt16
  else codeUnits text

theorem codeUnits_eq_unitsOfBytes : codeUnits = unitsOfBytes := by
  funext text
  unfold unitsOfBytes
  split
  next h =>
    obtain ⟨chars, rfl⟩ : ∃ chars, text = String.ofList chars :=
      ⟨text.toList, String.ofList_toList.symm⟩
    rw [String.toByteArray_ofList] at h ⊢
    rw [codeUnits, String.toList_ofList]
    refine units_of_utf8Encode fun byte hbyte => ?_
    exact of_decide_eq_true (List.all_eq_true.mp h byte hbyte)
  next => rfl
/-! ## Codes that are read off the front

Where each code can be told from what follows, a text of codes has one reading.
-/

section Encoding

variable {U α : Type*}

/-- A text of codes one after the other, each of which `read` takes off the
front of whatever begins with it. -/
inductive Encodes (read : List U → Option (α × List U)) :
    List α → List U → Prop
  | nil : Encodes read [] []
  | cons {a : α} {code : List U} {rest : List α} {text : List U}
      (hcode : ∀ tail, read (code ++ tail) = some (a, tail))
      (hrest : Encodes read rest text) :
      Encodes read (a :: rest) (code ++ text)

/-- What is read off is the same, up to where nothing can be read. -/
theorem Encodes.readable {read : List U → Option (α × List U)}
    {as bs : List α} {text text' r s : List U} (ha : Encodes read as text)
    (hb : Encodes read bs text') (hr : read r = none) (hs : read s = none)
    (h : text ++ r = text' ++ s) : as = bs ∧ r = s := by
  induction ha generalizing bs text' with
  | nil =>
      cases hb with
      | nil => exact ⟨rfl, h⟩
      | cons hcode hrest =>
          rw [List.nil_append, List.append_assoc] at h
          rw [h, hcode] at hr
          cases hr
  | cons hcode hrest ih =>
      rw [List.append_assoc] at h
      cases hb with
      | nil =>
          rw [List.nil_append] at h
          rw [← h, hcode] at hs
          cases hs
      | cons hcode' hrest' =>
          rw [List.append_assoc] at h
          have hread := congrArg read h
          rw [hcode, hcode', Option.some.injEq, Prod.mk.injEq] at hread
          obtain ⟨rfl, htail⟩ := hread
          obtain ⟨rfl, hrs⟩ := ih hrest' htail
          exact ⟨rfl, hrs⟩

end Encoding

/-! ## Items with a separator

The same for items with commas between them, up to a closing sign that no item
goes on with. -/

section Separated

variable {U α β : Type*}

theorem intercalate_cons_eq (sep : U) (first : List U)
    (rest : List (List U)) :
    List.intercalate [sep] (first :: rest) =
      first ++ (rest.map (sep :: ·)).flatten := by
  induction rest generalizing first with
  | nil => rw [List.intercalate_singleton, List.map_nil, List.flatten_nil,
      List.append_nil]
  | cons next rest ih =>
      rw [List.intercalate_cons_cons, ih next, List.map_cons,
        List.flatten_cons, List.append_assoc]
      rfl

variable {sep close : U} {text : α → List U} {text' : β → List U}
  {Rel : α → β → Prop} {stops : List U → Prop}

/-- The items after the first. -/
theorem separated_rest_readable (hne : sep ≠ close)
    (hsep : ∀ t, stops (sep :: t)) (hclose : ∀ t, stops (close :: t))
    {as : List α} {bs : List β}
    (hitem : ∀ a ∈ as, ∀ b ∈ bs, ∀ r s, stops r → stops s →
      text a ++ r = text' b ++ s → Rel a b ∧ r = s)
    {r s : List U}
    (h : ((as.map text).map (sep :: ·)).flatten ++ close :: r =
      ((bs.map text').map (sep :: ·)).flatten ++ close :: s) :
    List.Forall₂ Rel as bs ∧ r = s := by
  have hstops : ∀ (texts : List (List U)) (t : List U),
      stops ((texts.map (sep :: ·)).flatten ++ close :: t) := by
    intro texts t
    cases texts with
    | nil => exact hclose t
    | cons first rest => exact hsep _
  induction as generalizing bs with
  | nil =>
      cases bs with
      | nil => exact ⟨.nil, List.tail_eq_of_cons_eq h⟩
      | cons b bs => exact absurd (List.head_eq_of_cons_eq h) hne.symm
  | cons a as ih =>
      cases bs with
      | nil => exact absurd (List.head_eq_of_cons_eq h) hne
      | cons b bs =>
          simp only [List.map_cons, List.flatten_cons, List.cons_append,
            List.append_assoc, List.cons.injEq, true_and] at h
          obtain ⟨hfirst, hrest⟩ := hitem a List.mem_cons_self b
            List.mem_cons_self _ _ (hstops _ r) (hstops _ s) h
          obtain ⟨hall, hrs⟩ := ih (fun a ha b hb =>
            hitem a (List.mem_cons_of_mem _ ha) b (List.mem_cons_of_mem _ hb))
            hrest
          exact ⟨.cons hfirst hall, hrs⟩

/-- Items whose texts can be read off, up to what stops them, can be read off
a list of them that a separator joins and a closing unit ends. -/
theorem separated_readable (stops : List U → Prop) (hne : sep ≠ close)
    (hsep : ∀ t, stops (sep :: t)) (hclose : ∀ t, stops (close :: t))
    {as : List α} {bs : List β}
    (hitem : ∀ a ∈ as, ∀ b ∈ bs, ∀ r s, stops r → stops s →
      text a ++ r = text' b ++ s → Rel a b ∧ r = s)
    (ha : ∀ a ∈ as, ∃ u t, text a = u :: t ∧ u ≠ close)
    (hb : ∀ b ∈ bs, ∃ u t, text' b = u :: t ∧ u ≠ close)
    {r s : List U}
    (h : List.intercalate [sep] (as.map text) ++ close :: r =
      List.intercalate [sep] (bs.map text') ++ close :: s) :
    List.Forall₂ Rel as bs ∧ r = s := by
  cases as with
  | nil =>
      cases bs with
      | nil => exact ⟨.nil, List.tail_eq_of_cons_eq h⟩
      | cons b bs =>
          obtain ⟨u, t, htext, hu⟩ := hb b List.mem_cons_self
          rw [List.map_cons, intercalate_cons_eq, htext] at h
          exact absurd (List.head_eq_of_cons_eq h).symm hu
  | cons a as =>
      cases bs with
      | nil =>
          obtain ⟨u, t, htext, hu⟩ := ha a List.mem_cons_self
          rw [List.map_cons, intercalate_cons_eq, htext] at h
          exact absurd (List.head_eq_of_cons_eq h) hu
      | cons b bs =>
          refine separated_rest_readable hne hsep hclose hitem ?_
          simp only [List.map_cons, intercalate_cons_eq] at h
          simp only [List.map_cons, List.flatten_cons, List.cons_append,
            List.append_assoc] at h ⊢
          rw [h]

end Separated

/-! ## Hexadecimal digits

Writing a digit and reading it back. -/

/-- A digit below sixteen, in lower case. -/
def hexUnit (d : ℕ) : CodeUnit :=
  if d < 10 then (48 + d).toUInt16 else (87 + d).toUInt16

/-- The value of a hexadecimal digit, letters small. -/
def hexValue (unit : CodeUnit) : ℕ :=
  if unit.toNat < 58 then unit.toNat - 48 else unit.toNat - 87

theorem hexValue_hexUnit : ∀ d < 16, hexValue (hexUnit d) = d := by
  decide

/-! ## Quoting

`JSON.stringify` on a text: short escapes, then escapes by number, and halves
of pairs that stand alone. -/

/-- `"` -/
def quotationMark : CodeUnit := 0x22

/-- The backslash. -/
def reverseSolidus : CodeUnit := 0x5c

/-- The first half of a pair. -/
def isHighSurrogate (unit : CodeUnit) : Bool :=
  0xd800 ≤ unit && unit ≤ 0xdbff

/-- The second half of a pair. -/
def isLowSurrogate (unit : CodeUnit) : Bool :=
  0xdc00 ≤ unit && unit ≤ 0xdfff

/-- The units that a letter after the solidus stands for. -/
def shortEscapes : List (CodeUnit × CodeUnit) :=
  [(0x08, 0x62), (0x09, 0x74), (0x0a, 0x6e), (0x0c, 0x66), (0x0d, 0x72),
    (0x22, 0x22), (0x5c, 0x5c)]

/-- `\u` and four digits. -/
def unicodeEscape (unit : CodeUnit) : CodeUnits :=
  [reverseSolidus, 0x75, hexUnit (unit.toNat / 4096),
    hexUnit (unit.toNat / 256 % 16), hexUnit (unit.toNat / 16 % 16),
    hexUnit (unit.toNat % 16)]

/-- A unit on its own. -/
def escape (unit : CodeUnit) : CodeUnits :=
  match shortEscapes.lookup unit with
  | some letter => [reverseSolidus, letter]
  | none =>
      if unit < 0x20 || isHighSurrogate unit || isLowSurrogate unit then
        unicodeEscape unit
      else [unit]

/-- A high surrogate and a low one after it are one character, which needs no
escape. -/
def escapeAll : CodeUnits → CodeUnits
  | [] => []
  | [unit] => escape unit
  | unit :: next :: rest =>
      if isHighSurrogate unit && isLowSurrogate next then
        unit :: next :: escapeAll rest
      else escape unit ++ escapeAll (next :: rest)

/-- `JSON.stringify` of a text. -/
def quote (text : CodeUnits) : CodeUnits :=
  quotationMark :: escapeAll text ++ [quotationMark]

example : quote (codeUnits "a\"b\n") = codeUnits "\"a\\\"b\\n\"" := by decide

/-! ## Reading

What `readUnit` finds at the front of a quoted text, case by case of how the
unit is written. -/

/-- What a quoted text begins with, unless it ends here. -/
def readUnit : CodeUnits → Option (CodeUnit × CodeUnits)
  | [] => none
  | unit :: rest =>
      if unit = quotationMark then none
      else if unit = reverseSolidus then
        match rest with
        | [] => none
        | letter :: rest' =>
            if letter = 0x75 then
              match rest' with
              | d₃ :: d₂ :: d₁ :: d₀ :: tail =>
                  some ((hexValue d₃ * 4096 + hexValue d₂ * 256 +
                    hexValue d₁ * 16 + hexValue d₀).toUInt16, tail)
              | _ => none
            else
              (shortEscapes.find? fun short => short.2 = letter).map
                fun short => (short.1, rest')
      else some (unit, rest)

theorem readUnit_self {unit : CodeUnit} (hquote : unit ≠ quotationMark)
    (hsolidus : unit ≠ reverseSolidus) (tail : CodeUnits) :
    readUnit ([unit] ++ tail) = some (unit, tail) := by
  simp only [List.cons_append, List.nil_append, readUnit, if_neg hquote,
    if_neg hsolidus]

theorem readUnit_unicodeEscape (unit : CodeUnit) (tail : CodeUnits) :
    readUnit (unicodeEscape unit ++ tail) = some (unit, tail) := by
  have hlt : unit.toNat < 65536 := unit.toNat_lt
  have hsum : unit.toNat / 4096 * 4096 + unit.toNat / 256 % 16 * 256 +
      unit.toNat / 16 % 16 * 16 + unit.toNat % 16 = unit.toNat := by
    omega
  have hsolidus : reverseSolidus ≠ quotationMark := by decide
  simp only [unicodeEscape, List.cons_append, List.nil_append, readUnit,
    if_neg hsolidus, if_true]
  rw [hexValue_hexUnit _ (by omega), hexValue_hexUnit _ (by omega),
    hexValue_hexUnit _ (by omega), hexValue_hexUnit _ (by omega), hsum]
  simp

theorem readUnit_shortEscape {short : CodeUnit × CodeUnit}
    (hshort : short ∈ shortEscapes) (tail : CodeUnits) :
    readUnit ([reverseSolidus, short.2] ++ tail) = some (short.1, tail) := by
  simp only [shortEscapes, List.mem_cons, List.not_mem_nil, or_false]
    at hshort
  rcases hshort with rfl | rfl | rfl | rfl | rfl | rfl | rfl <;> rfl

theorem readUnit_escape (unit : CodeUnit) (tail : CodeUnits) :
    readUnit (escape unit ++ tail) = some (unit, tail) := by
  unfold escape
  split
  · next letter hlookup =>
    obtain ⟨before, after, hsplit, -⟩ := List.lookup_eq_some_iff.mp hlookup
    have hmem : (unit, letter) ∈ shortEscapes := by
      rw [hsplit]
      exact List.mem_append_right before List.mem_cons_self
    exact readUnit_shortEscape hmem tail
  · next hlookup =>
    split
    · exact readUnit_unicodeEscape unit tail
    · refine readUnit_self ?_ ?_ tail
      · rintro rfl
        cases hlookup
      · rintro rfl
        cases hlookup

theorem readUnit_surrogate {unit : CodeUnit}
    (h : isHighSurrogate unit || isLowSurrogate unit) (tail : CodeUnits) :
    readUnit ([unit] ++ tail) = some (unit, tail) := by
  refine readUnit_self ?_ ?_ tail
  · rintro rfl
    revert h
    decide
  · rintro rfl
    revert h
    decide

theorem escapeAll_encodes (text : CodeUnits) :
    Encodes readUnit text (escapeAll text) := by
  induction text using escapeAll.induct with
  | case1 => exact .nil
  | case2 unit =>
      have hone := Encodes.cons (readUnit_escape unit) .nil
      rwa [List.append_nil] at hone
  | case3 unit next rest hpair ih =>
      rw [Bool.and_eq_true] at hpair
      rw [escapeAll, if_pos (by simpa using hpair)]
      show Encodes readUnit _ ([unit] ++ ([next] ++ escapeAll rest))
      refine .cons (readUnit_surrogate ?_) (.cons (readUnit_surrogate ?_) ih)
      · rw [hpair.1, Bool.true_or]
      · rw [hpair.2, Bool.or_true]
  | case4 unit next rest hpair ih =>
      rw [escapeAll, if_neg hpair]
      exact .cons (readUnit_escape unit) ih

/-- A quoted text says where it ends. -/
theorem quote_readable {text text' r s : CodeUnits}
    (h : quote text ++ r = quote text' ++ s) : text = text' ∧ r = s := by
  simp only [quote, List.cons_append, List.append_assoc, List.nil_append,
    List.cons.injEq, true_and] at h
  have hstop : ∀ tail, readUnit (quotationMark :: tail) = none :=
    fun tail => rfl
  obtain ⟨htext, hrs⟩ := (escapeAll_encodes text).readable
    (escapeAll_encodes text') (hstop r) (hstop s) h
  exact ⟨htext, List.tail_eq_of_cons_eq hrs⟩

end Shozee.Run
