import Mathlib.Data.List.Forall2
import Mathlib.Data.List.Sort
import Shozee.Run.CodeUnits

/-!
# JSON values and their canonical text

A JSON value is a tree, and its canonical text writes it without blanks and
each object with its members in the order of their keys. What the text of a
number is, is left open, up to what makes it readable: numbers have texts of
their own, in units that no other value begins with or goes on in.

Two values have one text just when they are the same up to the order of the
members of their objects: `Json.text_eq_iff`. The text is read off from its
front. What it begins with tells what it is the text of, and every value but a
number says where it ends; a number ends where a unit comes that is not one of
its own (`Stops`), which is what stands after an element or a member.
-/

namespace Shozee.Run

/-- The units that the texts of numbers are written in. -/
def isNumberUnit (unit : CodeUnit) : Bool :=
  (0x30 ≤ unit && unit ≤ 0x39) || unit = 0x2d || unit = 0x2e || unit = 0x2b ||
    unit = 0x65

/-- The texts of the numbers of a type. -/
structure NumberTexts (F : Type) where
  zero : F
  text : F → CodeUnits
  text_zero : text zero = codeUnits "0"
  injective : Function.Injective text
  nonempty : ∀ x, text x ≠ []
  units : ∀ x, ∀ unit ∈ text x, isNumberUnit unit

/-! ## Whole numbers

The safe integers, as an instance of the numbers with texts of their own. -/

/-- The whole numbers that are numbers of the language, up to one on. -/
def SafeInteger : Type := {n : ℤ // n.natAbs ≤ 9007199254740991}

deriving instance DecidableEq for SafeInteger

/-- The decimal digits of a number. -/
def digitUnits (n : ℕ) : CodeUnits :=
  (Nat.toDigits 10 n).map fun c => c.toNat.toUInt16

/-- A whole number as JSON writes it. -/
def integerText (n : ℤ) : CodeUnits :=
  if n < 0 then 0x2d :: digitUnits n.natAbs else digitUnits n.natAbs

theorem toNat_of_mem_toDigits {n : ℕ} {c : Char}
    (h : c ∈ Nat.toDigits 10 n) : 48 ≤ c.toNat ∧ c.toNat ≤ 57 :=
  Char.isDigit_iff_toNat.mp
    (Nat.isDigit_of_mem_toDigits (by decide) (by decide) h)

theorem mem_digitUnits {n : ℕ} {unit : CodeUnit} (h : unit ∈ digitUnits n) :
    48 ≤ unit.toNat ∧ unit.toNat ≤ 57 := by
  obtain ⟨c, hc, rfl⟩ := List.mem_map.mp h
  obtain ⟨hle, hge⟩ := toNat_of_mem_toDigits hc
  have hunit : c.toNat.toUInt16.toNat = c.toNat :=
    UInt16.toNat_ofNat_of_lt' (lt_of_le_of_lt hge (by decide))
  rw [hunit]
  exact ⟨hle, hge⟩

theorem digitUnits_injective {m n : ℕ} (h : digitUnits m = digitUnits n) :
    m = n := by
  have hread : ∀ n, (digitUnits n).map (fun unit => unit.toNat) =
      (Nat.toDigits 10 n).map Char.toNat := by
    intro n
    rw [digitUnits, List.map_map]
    refine List.map_congr_left fun c hc => ?_
    have hle := (toNat_of_mem_toDigits hc).2
    exact UInt16.toNat_ofNat_of_lt' (lt_of_le_of_lt hle (by decide))
  have hchars : (Nat.toDigits 10 m).map Char.toNat =
      (Nat.toDigits 10 n).map Char.toNat := by
    rw [← hread, ← hread, h]
  have hdigits : Nat.toDigits 10 m = Nat.toDigits 10 n :=
    List.map_injective_iff.mpr (fun _ _ => Char.toNat_inj.mp) hchars
  rw [← Nat.ofDigitChars_ten_toDigits (n := m), hdigits,
    Nat.ofDigitChars_ten_toDigits]

theorem digitUnits_ne_nil (n : ℕ) : digitUnits n ≠ [] := by
  rw [digitUnits, Ne, List.map_eq_nil_iff]
  exact Nat.toDigits_ne_nil

theorem integerText_injective {m n : ℤ} (h : integerText m = integerText n) :
    m = n := by
  have hminus : ∀ n k : ℕ, (0x2d : CodeUnit) :: digitUnits n ≠
      digitUnits k := by
    intro n k h
    have hunit := mem_digitUnits (n := k) (h ▸ List.mem_cons_self)
    exact absurd hunit.1 (by decide)
  unfold integerText at h
  split at h
  · next hm =>
    split at h
    · next hn =>
      have habs := digitUnits_injective (List.tail_eq_of_cons_eq h)
      omega
    · exact absurd h (hminus _ _)
  · next hm =>
    split at h
    · exact absurd h.symm (hminus _ _)
    · next hn =>
      have habs := digitUnits_injective h
      omega

theorem isNumberUnit_digit {unit : CodeUnit}
    (h : 48 ≤ unit.toNat ∧ unit.toNat ≤ 57) : isNumberUnit unit := by
  have hle : (0x30 : CodeUnit) ≤ unit := UInt16.le_iff_toNat_le.mpr h.1
  have hge : unit ≤ (0x39 : CodeUnit) := UInt16.le_iff_toNat_le.mpr h.2
  simp only [isNumberUnit, hle, hge, decide_true, Bool.true_and,
    Bool.true_or]

/-- A whole number is written in decimal digits. -/
def integerTexts : NumberTexts SafeInteger where
  zero := ⟨0, by decide⟩
  text n := integerText n.val
  text_zero := by decide
  injective _ _ h := Subtype.ext (integerText_injective h)
  nonempty n := by
    unfold integerText
    split
    · exact List.cons_ne_nil _ _
    · exact digitUnits_ne_nil _
  units n unit hunit := by
    unfold integerText at hunit
    split at hunit
    · rcases List.mem_cons.mp hunit with rfl | hdigit
      · decide
      · exact isNumberUnit_digit (mem_digitUnits hdigit)
    · exact isNumberUnit_digit (mem_digitUnits hunit)

/-! ## Values

Members are a list, so an object may have a key twice here. `Distinct` says
that it does not. -/

/-- JSON values over numbers of any kind. -/
inductive Json (F : Type)
  | null
  | bool (b : Bool)
  | number (x : F)
  | string (text : CodeUnits)
  | array (elements : List (Json F))
  | object (members : List (CodeUnits × Json F))

namespace Json

variable {F : Type}

/-- The parts of a value come before it. -/
theorem induct {P : Json F → Prop} (null : P .null) (bool : ∀ b, P (.bool b))
    (number : ∀ x, P (.number x)) (string : ∀ text, P (.string text))
    (array : ∀ elements : List (Json F), (∀ e ∈ elements, P e) →
      P (.array elements))
    (object : ∀ members : List (CodeUnits × Json F), (∀ m ∈ members, P m.2) →
      P (.object members)) : ∀ j, P j
  | .null => null
  | .bool b => bool b
  | .number x => number x
  | .string text => string text
  | .array elements => array elements fun e _ =>
      induct null bool number string array object e
  | .object members => object members fun m hm =>
      have hmember : sizeOf m.2 < sizeOf m := by
        obtain ⟨key, v⟩ := m
        show sizeOf v < 1 + sizeOf key + sizeOf v
        omega
      have hmembers : sizeOf m < sizeOf members := List.sizeOf_lt_of_mem hm
      induct null bool number string array object m.2

/-! ## Same up to the order of members

Arrays keep their order and objects do not. -/

mutual

/-- Two values that differ in the order of members only. -/
inductive Same : Json F → Json F → Prop
  | null : Same .null .null
  | bool (b : Bool) : Same (.bool b) (.bool b)
  | number (x : F) : Same (.number x) (.number x)
  | string (text : CodeUnits) : Same (.string text) (.string text)
  | array {es fs : List (Json F)} (helements : SameElements es fs) :
      Same (.array es) (.array fs)
  | object {ms ms' ns ns' : List (CodeUnits × Json F)} (hms : ms.Perm ms')
      (hns : ns.Perm ns') (hmembers : SameMembers ms' ns') :
      Same (.object ms) (.object ns)

/-- The same element by element. -/
inductive SameElements : List (Json F) → List (Json F) → Prop
  | nil : SameElements [] []
  | cons {e f : Json F} {es fs : List (Json F)} (h : Same e f)
      (hrest : SameElements es fs) : SameElements (e :: es) (f :: fs)

/-- The same member by member, keys equal. -/
inductive SameMembers :
    List (CodeUnits × Json F) → List (CodeUnits × Json F) → Prop
  | nil : SameMembers [] []
  | cons {key : CodeUnits} {v w : Json F} {ms ns : List (CodeUnits × Json F)}
      (h : Same v w) (hrest : SameMembers ms ns) :
      SameMembers ((key, v) :: ms) ((key, w) :: ns)

end

/-! ## The canonical text

Keys are sorted by their code units, and the texts of the parts are put between
brackets. -/

/-- `sort()` of keys, which compares their code units. -/
def sortKeys (keys : List CodeUnits) : List CodeUnits :=
  keys.insertionSort fun key other => key ≤ other

/-- In the order of the keys. -/
def sortByKey {α : Type*} (members : List (CodeUnits × α)) :
    List (CodeUnits × α) :=
  members.insertionSort fun m m' => m.1 ≤ m'.1

/-- `,` -/
def comma : CodeUnit := 0x2c

/-- `:` -/
def colon : CodeUnit := 0x3a

/-- `[` -/
def leftBracket : CodeUnit := 0x5b

/-- `]` -/
def rightBracket : CodeUnit := 0x5d

/-- The opening brace. -/
def leftBrace : CodeUnit := 0x7b

/-- The closing brace. -/
def rightBrace : CodeUnit := 0x7d

/-- `join(",")`. -/
def joinComma (texts : List CodeUnits) : CodeUnits :=
  List.intercalate [comma] texts

/-- A member: its quoted key and the text of its value. -/
def memberText (member : CodeUnits × CodeUnits) : CodeUnits :=
  quote member.1 ++ colon :: member.2

variable (N : NumberTexts F)

mutual

/-- The canonical text of a value, members sorted by their keys. -/
def text : Json F → CodeUnits
  | .null => codeUnits "null"
  | .bool b => if b then codeUnits "true" else codeUnits "false"
  | .number x => N.text x
  | .string t => quote t
  | .array es => leftBracket :: joinComma (elementTexts es) ++ [rightBracket]
  | .object ms =>
      leftBrace :: joinComma ((sortByKey (memberTexts ms)).map memberText) ++
        [rightBrace]

/-- The texts of elements. -/
def elementTexts : List (Json F) → List CodeUnits
  | [] => []
  | e :: es => text e :: elementTexts es

/-- The texts of members' values, beside their keys. -/
def memberTexts : List (CodeUnits × Json F) → List (CodeUnits × CodeUnits)
  | [] => []
  | (key, v) :: ms => (key, text v) :: memberTexts ms

end

theorem elementTexts_eq (es : List (Json F)) :
    elementTexts N es = es.map (text N) := by
  induction es with
  | nil => rfl
  | cons e es ih => rw [elementTexts, ih, List.map_cons]

theorem memberTexts_eq (ms : List (CodeUnits × Json F)) :
    memberTexts N ms = ms.map (Prod.map id (text N)) := by
  induction ms with
  | nil => rfl
  | cons m ms ih => rw [memberTexts, ih, List.map_cons]; rfl

mutual

/-- No object has a key twice. -/
def Distinct : Json F → Prop
  | .array es => DistinctElements es
  | .object ms => (ms.map Prod.fst).Nodup ∧ DistinctMembers ms
  | _ => True

/-- No object among the elements has a key twice. -/
def DistinctElements : List (Json F) → Prop
  | [] => True
  | e :: es => Distinct e ∧ DistinctElements es

/-- No object among the values has a key twice. -/
def DistinctMembers : List (CodeUnits × Json F) → Prop
  | [] => True
  | (_, v) :: ms => Distinct v ∧ DistinctMembers ms

end

theorem distinctElements_iff {es : List (Json F)} :
    DistinctElements es ↔ ∀ e ∈ es, e.Distinct := by
  induction es with
  | nil => simp [DistinctElements]
  | cons e es ih => rw [DistinctElements, ih, List.forall_mem_cons]

theorem distinctMembers_iff {ms : List (CodeUnits × Json F)} :
    DistinctMembers ms ↔ ∀ m ∈ ms, m.2.Distinct := by
  induction ms with
  | nil => simp [DistinctMembers]
  | cons m ms ih => rw [DistinctMembers, ih, List.forall_mem_cons]

theorem sameElements_iff {es fs : List (Json F)} :
    SameElements es fs ↔ List.Forall₂ Same es fs := by
  constructor
  · intro h
    induction es generalizing fs with
    | nil => cases h; exact .nil
    | cons e es ih => cases h with | cons h hrest => exact .cons h (ih hrest)
  · intro h
    induction h with
    | nil => exact .nil
    | cons h _ ih => exact .cons h ih

theorem sameMembers_iff {ms ns : List (CodeUnits × Json F)} :
    SameMembers ms ns ↔
      List.Forall₂ (fun m n => m.1 = n.1 ∧ Same m.2 n.2) ms ns := by
  constructor
  · intro h
    induction ms generalizing ns with
    | nil => cases h; exact .nil
    | cons m ms ih =>
        cases h with | cons h hrest => exact .cons ⟨rfl, h⟩ (ih hrest)
  · intro h
    induction h with
    | nil => exact .nil
    | @cons m n ms ns hmember _ ih =>
        obtain ⟨key, v⟩ := m
        obtain ⟨key', w⟩ := n
        obtain ⟨hkey, hsame⟩ := hmember
        cases hkey
        exact .cons hsame ih

/-- Under a key that both have, objects that are the same have the same. -/
theorem Same.member {ms ns : List (CodeUnits × Json F)}
    (h : Same (.object ms) (.object ns)) (hns : (ns.map Prod.fst).Nodup)
    (key : CodeUnits) {v w : Json F} (hv : (key, v) ∈ ms)
    (hw : (key, w) ∈ ns) : Same v w := by
  cases h with
  | @object _ ms' _ ns' hms hns' hmembers =>
    obtain ⟨i, hi⟩ := List.getElem?_of_mem (hms.mem_iff.mp hv)
    obtain ⟨hlt, hget⟩ := List.getElem?_eq_some_iff.mp hi
    have hall := sameMembers_iff.mp hmembers
    have hlt' : i < ns'.length := hall.length_eq ▸ hlt
    have hpair := hall.get hlt hlt'
    simp only [List.get_eq_getElem, hget] at hpair
    have hmem : ns'[i] ∈ ns := hns'.mem_iff.mpr (List.getElem_mem hlt')
    have hother : ns'[i] = (key, w) :=
      List.inj_on_of_nodup_map hns hmem hw hpair.1.symm
    rw [hother] at hpair
    exact hpair.2

/-- The same values under the same keys, key by key. -/
theorem Same.of_members {ms ns : List (CodeUnits × Json F)}
    (h : SameMembers ms ns) : Same (.object ms) (.object ns) :=
  .object (List.Perm.refl ms) (List.Perm.refl ns) h

/-! ## What a text begins with

The first unit of a text tells the kind of the value. -/

/-- What a value is, which its first unit tells. -/
inductive Kind
  | null | bool | number | string | array | object
deriving DecidableEq

/-- The kind of a value. -/
def kind : Json F → Kind
  | .null => .null
  | .bool _ => .bool
  | .number _ => .number
  | .string _ => .string
  | .array _ => .array
  | .object _ => .object

/-- The kind of value that a unit begins. -/
def kindAt (unit : CodeUnit) : Kind :=
  if unit = 0x6e then .null
  else if unit = 0x74 || unit = 0x66 then .bool
  else if unit = quotationMark then .string
  else if unit = leftBracket then .array
  else if unit = leftBrace then .object
  else .number

theorem kindAt_numberUnit {unit : CodeUnit} (h : isNumberUnit unit) :
    kindAt unit = .number ∧ unit ≠ rightBracket := by
  have hne : ∀ other : CodeUnit, isNumberUnit other = false →
      unit ≠ other := by
    rintro other hother rfl
    rw [hother] at h
    cases h
  refine ⟨?_, hne _ (by decide)⟩
  rw [kindAt, if_neg (hne _ (by decide)), if_neg, if_neg (hne _ (by decide)),
    if_neg (hne _ (by decide)), if_neg (hne _ (by decide))]
  rw [Bool.or_eq_true, decide_eq_true_eq, decide_eq_true_eq]
  exact not_or.mpr ⟨hne _ (by decide), hne _ (by decide)⟩

variable {N}

theorem text_begins (j : Json F) :
    ∃ unit rest, text N j = unit :: rest ∧ kindAt unit = kind j ∧
      unit ≠ rightBracket := by
  cases j with
  | null => exact ⟨0x6e, _, rfl, rfl, by decide⟩
  | bool b =>
      cases b with
      | false => exact ⟨0x66, _, rfl, rfl, by decide⟩
      | true => exact ⟨0x74, _, rfl, rfl, by decide⟩
  | number x =>
      obtain ⟨unit, rest, htext⟩ := List.exists_cons_of_ne_nil (N.nonempty x)
      have hunit := N.units x unit (by rw [htext]; exact List.mem_cons_self)
      exact ⟨unit, rest, htext, kindAt_numberUnit hunit⟩
  | string t => exact ⟨quotationMark, _, rfl, rfl, by decide⟩
  | array es => exact ⟨leftBracket, _, rfl, rfl, by decide⟩
  | object ms => exact ⟨leftBrace, _, rfl, rfl, by decide⟩

theorem kind_eq {j k : Json F} {r s : CodeUnits}
    (h : text N j ++ r = text N k ++ s) : kind j = kind k := by
  obtain ⟨unit, rest, hj, hkind, -⟩ := text_begins (N := N) j
  obtain ⟨unit', rest', hk, hkind', -⟩ := text_begins (N := N) k
  rw [hj, hk] at h
  rw [← hkind, ← hkind', List.head_eq_of_cons_eq h]

/-! ## Reading

Each kind of value ends where it says, if what follows does not go on with a
number. -/

/-- What may stand after a value: nothing that a number would go on with. -/
def Stops (tail : CodeUnits) : Prop :=
  ∀ unit ∈ tail.head?, isNumberUnit unit = false

theorem stops_cons {unit : CodeUnit} (h : isNumberUnit unit = false)
    (tail : CodeUnits) : Stops (unit :: tail) := by
  rintro _ ⟨⟩
  exact h

/-- A number ends where its units do. -/
theorem number_readable {x y : F} {r s : CodeUnits} (hr : Stops r)
    (hs : Stops s) (h : N.text x ++ r = N.text y ++ s) : x = y ∧ r = s := by
  have htake : ∀ (x : F) (r : CodeUnits), Stops r →
      (N.text x ++ r).takeWhile isNumberUnit = N.text x := by
    intro x r hr
    rw [List.takeWhile_append_of_pos (N.units x)]
    cases r with
    | nil => exact List.append_nil _
    | cons unit tail =>
        rw [List.takeWhile_cons_of_neg (by simp [hr unit rfl]),
          List.append_nil]
  have htext : N.text x = N.text y := by
    rw [← htake x r hr, ← htake y s hs, h]
  rw [htext] at h
  exact ⟨N.injective htext, List.append_cancel_left h⟩

theorem bool_readable {b c : Bool} {r s : CodeUnits}
    (h : text N (.bool b) ++ r = text N (.bool c) ++ s) : b = c ∧ r = s := by
  cases b with
  | false =>
      cases c with
      | false => exact ⟨rfl, List.append_cancel_left h⟩
      | true =>
          have hunit : (0x66 : CodeUnit) = 0x74 := List.head_eq_of_cons_eq h
          exact absurd hunit (by decide)
  | true =>
      cases c with
      | false =>
          have hunit : (0x74 : CodeUnit) = 0x66 := List.head_eq_of_cons_eq h
          exact absurd hunit (by decide)
      | true => exact ⟨rfl, List.append_cancel_left h⟩

theorem text_array (es : List (Json F)) (r : CodeUnits) :
    text N (.array es) ++ r = leftBracket ::
      (List.intercalate [comma] (es.map (text N)) ++ rightBracket :: r) := by
  rw [text, elementTexts_eq, joinComma, List.cons_append, List.cons_append,
    List.append_assoc]
  rfl

/-- Sorting by the keys and writing the values are done in either order. -/
theorem sortByKey_map {α β : Type*} (f : α → β)
    (ms : List (CodeUnits × α)) :
    sortByKey (ms.map (Prod.map id f)) =
      (sortByKey ms).map (Prod.map id f) :=
  (List.map_insertionSort _ _ (Prod.map id f) ms fun _ _ _ _ => Iff.rfl).symm

theorem map_fst_sortByKey {α : Type*} (ms : List (CodeUnits × α)) :
    (sortByKey ms).map Prod.fst = sortKeys (ms.map Prod.fst) :=
  List.map_insertionSort _ _ Prod.fst ms fun _ _ _ _ => Iff.rfl

theorem text_object (ms : List (CodeUnits × Json F)) (r : CodeUnits) :
    text N (.object ms) ++ r = leftBrace ::
      (List.intercalate [comma] ((sortByKey ms).map fun m =>
        memberText (m.1, text N m.2)) ++ rightBrace :: r) := by
  rw [text, memberTexts_eq, sortByKey_map, List.map_map, joinComma,
    List.cons_append, List.cons_append, List.append_assoc]
  rfl

theorem sortByKey_perm {α : Type*} (ms : List (CodeUnits × α)) :
    (sortByKey ms).Perm ms :=
  List.perm_insertionSort _ _

/-- A value can be read off the front of a text, up to the order of members.
-/
theorem text_readable (j : Json F) : ∀ k : Json F, ∀ r s, Stops r → Stops s →
    text N j ++ r = text N k ++ s → Same j k ∧ r = s := by
  induction j using induct with
  | null =>
      intro k r s _ _ h
      cases k <;> cases kind_eq h
      exact ⟨.null, List.append_cancel_left h⟩
  | bool b =>
      intro k r s _ _ h
      cases k <;> cases kind_eq h
      obtain ⟨rfl, hrs⟩ := bool_readable h
      exact ⟨.bool b, hrs⟩
  | number x =>
      intro k r s hr hs h
      cases k <;> cases kind_eq h
      obtain ⟨rfl, hrs⟩ := number_readable hr hs h
      exact ⟨.number x, hrs⟩
  | string t =>
      intro k r s _ _ h
      cases k <;> cases kind_eq h
      obtain ⟨rfl, hrs⟩ := quote_readable h
      exact ⟨.string t, hrs⟩
  | array es ih =>
      intro k r s _ _ h
      cases k <;> cases kind_eq h
      next fs =>
      rw [text_array, text_array] at h
      have hbegins : ∀ e : Json F, ∃ unit rest, text N e = unit :: rest ∧
          unit ≠ rightBracket := by
        intro e
        obtain ⟨unit, rest, htext, -, hunit⟩ := text_begins (N := N) e
        exact ⟨unit, rest, htext, hunit⟩
      obtain ⟨hall, hrs⟩ := separated_readable Stops (by decide)
        (stops_cons (by decide)) (stops_cons (by decide))
        (fun e he f _ => ih e he f) (fun e _ => hbegins e)
        (fun f _ => hbegins f) (List.tail_eq_of_cons_eq h)
      exact ⟨.array (sameElements_iff.mpr hall), hrs⟩
  | object ms ih =>
      intro k r s _ _ h
      cases k <;> cases kind_eq h
      next ns =>
      rw [text_object, text_object] at h
      have hbegins : ∀ m : CodeUnits × Json F, ∃ unit rest,
          memberText (m.1, text N m.2) = unit :: rest ∧
            unit ≠ rightBrace :=
        fun m => ⟨quotationMark, _, rfl, by decide⟩
      have hmember : ∀ m ∈ sortByKey ms, ∀ n ∈ sortByKey ns, ∀ r s,
          Stops r → Stops s → memberText (m.1, text N m.2) ++ r =
            memberText (n.1, text N n.2) ++ s →
          (m.1 = n.1 ∧ Same m.2 n.2) ∧ r = s := by
        intro m hm n _ r s hr hs h
        simp only [memberText, List.append_assoc, List.cons_append] at h
        obtain ⟨hkey, hvalue⟩ := quote_readable h
        obtain ⟨hsame, hrs⟩ := ih m ((sortByKey_perm ms).mem_iff.mp hm) n.2 r
          s hr hs (List.tail_eq_of_cons_eq hvalue)
        exact ⟨⟨hkey, hsame⟩, hrs⟩
      obtain ⟨hall, hrs⟩ := separated_readable Stops (by decide)
        (stops_cons (by decide)) (stops_cons (by decide)) hmember
        (fun m _ => hbegins m) (fun n _ => hbegins n)
        (List.tail_eq_of_cons_eq h)
      exact ⟨.object (sortByKey_perm ms).symm (sortByKey_perm ns).symm
        (sameMembers_iff.mpr hall), hrs⟩

/-! ## The order of members does not show

Members with distinct keys have one sorted order. -/

theorem sortByKey_pairwise {α : Type*} (ms : List (CodeUnits × α)) :
    (sortByKey ms).Pairwise fun m m' => m.1 ≤ m'.1 := by
  have htotal : Std.Total fun m m' : CodeUnits × α => m.1 ≤ m'.1 :=
    ⟨fun m m' => List.le_total m.1 m'.1⟩
  have htrans : IsTrans (CodeUnits × α) fun m m' => m.1 ≤ m'.1 :=
    ⟨fun _ _ _ h h' => List.le_trans h h'⟩
  exact List.pairwise_insertionSort _ ms

/-- There is one way to sort members whose keys are distinct. -/
theorem sortByKey_eq_of_perm {α : Type*} {ms ns : List (CodeUnits × α)}
    (hdistinct : (ms.map Prod.fst).Nodup) (h : ms.Perm ns) :
    sortByKey ms = sortByKey ns := by
  refine List.Perm.eq_of_pairwise (fun m n hm hn hle hge => ?_)
    (sortByKey_pairwise ms) (sortByKey_pairwise ns)
    ((sortByKey_perm ms).trans (h.trans (sortByKey_perm ns).symm))
  have hkey : m.1 = n.1 := List.le_antisymm hle hge
  have hm' : m ∈ ms := (sortByKey_perm ms).mem_iff.mp hm
  have hn' : n ∈ ms := h.mem_iff.mpr ((sortByKey_perm ns).mem_iff.mp hn)
  exact List.inj_on_of_nodup_map hdistinct hm' hn' hkey

theorem text_eq_of_same (j : Json F) : j.Distinct → ∀ k : Json F, Same j k →
    text N j = text N k := by
  induction j using induct with
  | null => intro _ k h; cases h; rfl
  | bool b => intro _ k h; cases h; rfl
  | number x => intro _ k h; cases h; rfl
  | string t => intro _ k h; cases h; rfl
  | array es ih =>
      intro hdistinct k h
      rw [Distinct, distinctElements_iff] at hdistinct
      cases h with
      | @array _ fs helements =>
        have htexts : es.map (text N) = fs.map (text N) := by
          have hall := sameElements_iff.mp helements
          clear helements
          induction hall with
          | nil => rfl
          | cons h _ hrest =>
              rw [List.forall_mem_cons] at ih hdistinct
              rw [List.map_cons, List.map_cons, ih.1 hdistinct.1 _ h,
                hrest ih.2 hdistinct.2]
        rw [text, text, elementTexts_eq, elementTexts_eq, htexts]
  | object ms ih =>
      intro hdistinct k h
      rw [Distinct, distinctMembers_iff] at hdistinct
      obtain ⟨hkeys, hvalues⟩ := hdistinct
      cases h with
      | @object _ ms' ns ns' hms hns hmembers =>
        have htexts : ms'.map (Prod.map id (text N)) =
            ns'.map (Prod.map id (text N)) := by
          have hall := sameMembers_iff.mp hmembers
          have ih' : ∀ m ∈ ms', ∀ w, Same m.2 w → text N m.2 = text N w :=
            fun m hm w => ih m (hms.mem_iff.mpr hm)
              (hvalues m (hms.mem_iff.mpr hm)) w
          clear hms hns hmembers
          induction hall with
          | nil => rfl
          | @cons m n _ _ hmember _ hrest =>
              rw [List.forall_mem_cons] at ih'
              rw [List.map_cons, List.map_cons, hrest ih'.2, Prod.map, Prod.map,
                hmember.1, ih'.1 _ hmember.2]
        have hperm : (ms.map (Prod.map id (text N))).Perm
            (ns.map (Prod.map id (text N))) :=
          ((hms.map _).trans (List.Perm.of_eq htexts)).trans (hns.symm.map _)
        have hkeys' : ((ms.map (Prod.map id (text N))).map Prod.fst).Nodup := by
          rw [List.map_map]
          exact hkeys
        rw [text, text, memberTexts_eq, memberTexts_eq,
          sortByKey_eq_of_perm hkeys' hperm]

/-- Two values have one text just when they are the same up to the order of
members. -/
theorem text_eq_iff {j k : Json F} (hj : j.Distinct) :
    text N j = text N k ↔ Same j k := by
  refine ⟨fun h => ?_, text_eq_of_same j hj k⟩
  have hstops : Stops [] := by
    intro unit hunit
    cases hunit
  exact (text_readable (N := N) j k [] [] hstops hstops (by rw [h])).1

end Json

end Shozee.Run
