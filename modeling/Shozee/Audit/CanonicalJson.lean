import Shozee.Run.Json
import Shozee.Run.Traverse

/-!
# Canonical JSON of JavaScript values

`packages/core/src/runtime/audit/canonical-json.ts` writes the text that input
hashes, request hashes and job ids are taken of. It is given any value at all
and refuses what JSON has no word for. `JsValue` has the values that it tells
apart; an array may have holes, which `map` passes over and `join` writes as
nothing.

A value that is JSON is written as its canonical text (`serialize_json`), and
a value that has something else anywhere in it is refused, unless that is a
hole (`serialize_error_iff`).
-/

namespace Shozee.Audit

open Shozee.Run

/-- A number; `finite` has those that are not minus zero. -/
inductive JsNumber (F : Type)
  | finite (x : F)
  | negativeZero
  | nan
  | infinity (negative : Bool)
deriving DecidableEq, Repr

/-- The values of the language that the serializer tells apart. An array may
have holes. -/
inductive JsValue (F : Type)
  | null
  | boolean (b : Bool)
  | number (x : JsNumber F)
  | string (text : CodeUnits)
  | array (elements : List (Option (JsValue F)))
  | object (members : List (CodeUnits × JsValue F))
  | undefined
  | bigint
  | function
  | symbol

/-- A value that has no canonical text. -/
structure CoreInvariantError where
  message : CodeUnits
deriving DecidableEq, Repr

section Serialize

variable {F : Type}

namespace JsValue

/-- The parts of a value come before it. -/
theorem induct {P : JsValue F → Prop} (null : P .null)
    (boolean : ∀ b, P (.boolean b)) (number : ∀ x, P (.number x))
    (string : ∀ text, P (.string text))
    (array : ∀ elements : List (Option (JsValue F)),
      (∀ v, some v ∈ elements → P v) → P (.array elements))
    (object : ∀ members : List (CodeUnits × JsValue F),
      (∀ m ∈ members, P m.2) → P (.object members))
    (undefined : P .undefined) (bigint : P .bigint) (function : P .function)
    (symbol : P .symbol) : ∀ v, P v
  | .null => null
  | .boolean b => boolean b
  | .number x => number x
  | .string text => string text
  | .array elements => array elements fun v hv =>
      have helement : sizeOf v < sizeOf (some v) := by
        show sizeOf v < 1 + sizeOf v
        omega
      have helements : sizeOf (some v) < sizeOf elements :=
        List.sizeOf_lt_of_mem hv
      induct null boolean number string array object undefined bigint function
        symbol v
  | .object members => object members fun m hm =>
      have hmember : sizeOf m.2 < sizeOf m := by
        obtain ⟨key, v⟩ := m
        show sizeOf v < 1 + sizeOf key + sizeOf v
        omega
      have hmembers : sizeOf m < sizeOf members := List.sizeOf_lt_of_mem hm
      induct null boolean number string array object undefined bigint function
        symbol m.2
  | .undefined => undefined
  | .bigint => bigint
  | .function => function
  | .symbol => symbol

/-- Whether a value is `undefined`, which is an error of its own inside an
object. -/
def isUndefined : JsValue F → Bool
  | .undefined => true
  | _ => false

end JsValue

/-! ## The code

The recursive function and its loops, as the source has them. -/

/-- The error of a kind of value. -/
def unsupported (what : String) : CoreInvariantError :=
  ⟨codeUnits ("canonical JSON does not support " ++ what)⟩

/-- The error of a type, with the type's name. -/
def unsupportedType (typeOf : String) : CoreInvariantError :=
  unsupported ("type \"" ++ typeOf ++ "\"")

/-- The error of an undefined value, with its key. -/
def undefinedAt (key : CodeUnits) : CoreInvariantError :=
  ⟨codeUnits "canonical JSON does not support undefined value at key \"" ++
    key ++ codeUnits "\""⟩

/-- A member of an object, whose value `results` has under its key. -/
def serializeMember
    (results : List (CodeUnits × Except CoreInvariantError CodeUnits))
    (key : CodeUnits) : Except CoreInvariantError CodeUnits :=
  match results.lookup key with
  | none => .error (undefinedAt key)
  | some result => result.map fun text => Json.memberText (key, text)

variable (N : NumberTexts F)

mutual

/-- The canonical text of a value. A hole in an array is joined as nothing. -/
def serialize : JsValue F → Except CoreInvariantError CodeUnits
  | .null => .ok (codeUnits "null")
  | .boolean b => .ok (if b then codeUnits "true" else codeUnits "false")
  | .number (.finite x) => .ok (N.text x)
  | .number .negativeZero => .ok (codeUnits "0")
  | .number .nan => .error (unsupported "NaN")
  | .number (.infinity false) => .error (unsupported "Infinity")
  | .number (.infinity true) => .error (unsupported "-Infinity")
  | .string text => .ok (quote text)
  | .array elements => do
      let texts ← serializeElements elements
      .ok (Json.leftBracket :: Json.joinComma texts ++ [Json.rightBracket])
  | .object members => do
      let keys := Json.sortKeys (members.map Prod.fst)
      let texts ← keys.mapM (serializeMember (serializeValues members))
      .ok (Json.leftBrace :: Json.joinComma texts ++ [Json.rightBrace])
  | .undefined => .error (unsupportedType "undefined")
  | .bigint => .error (unsupportedType "bigint")
  | .function => .error (unsupportedType "function")
  | .symbol => .error (unsupportedType "symbol")

/-- A hole stays one and is joined as nothing. -/
def serializeElements : List (Option (JsValue F)) →
    Except CoreInvariantError (List CodeUnits)
  | [] => .ok []
  | none :: rest => do
      let texts ← serializeElements rest
      .ok ([] :: texts)
  | some v :: rest => do
      let text ← serialize v
      let texts ← serializeElements rest
      .ok (text :: texts)

/-- What each value of an object gives under its key. -/
def serializeValues : List (CodeUnits × JsValue F) →
    List (CodeUnits × Except CoreInvariantError CodeUnits)
  | [] => []
  | (key, v) :: rest =>
      (key, if v.isUndefined then .error (undefinedAt key) else serialize v) ::
        serializeValues rest

end

/-- The canonical text of a value. -/
def canonicalJson (v : JsValue F) : Except CoreInvariantError CodeUnits :=
  serialize N v

/-! ## What is JSON

The JSON value of a value, and the two ways in which there is none: something
in it is foreign, or an array has a hole. -/

mutual

/-- The JSON value that a value is, if it is one. -/
def asJson : JsValue F → Option (Json F)
  | .null => some .null
  | .boolean b => some (.bool b)
  | .number (.finite x) => some (.number x)
  | .number .negativeZero => some (.number N.zero)
  | .string text => some (.string text)
  | .array elements => (elementsAsJson elements).map .array
  | .object members => (membersAsJson members).map .object
  | _ => none

/-- Elements as JSON, if each is and none is a hole. -/
def elementsAsJson : List (Option (JsValue F)) → Option (List (Json F))
  | [] => some []
  | none :: _ => none
  | some v :: rest => do
      let j ← asJson v
      let js ← elementsAsJson rest
      some (j :: js)

/-- Members as JSON, if each is. -/
def membersAsJson : List (CodeUnits × JsValue F) →
    Option (List (CodeUnits × Json F))
  | [] => some []
  | (key, v) :: rest => do
      let j ← asJson v
      let js ← membersAsJson rest
      some ((key, j) :: js)

end

mutual

/-- Somewhere in the value is something that is neither JSON nor a hole. -/
def foreign : JsValue F → Bool
  | .number .nan | .number (.infinity _) => true
  | .undefined | .bigint | .function | .symbol => true
  | .array elements => foreignElements elements
  | .object members => foreignMembers members
  | _ => false

/-- Whether an element has something in it that the serializer throws for. -/
def foreignElements : List (Option (JsValue F)) → Bool
  | [] => false
  | none :: rest => foreignElements rest
  | some v :: rest => foreign v || foreignElements rest

/-- Whether a member has something in it that the serializer throws for. -/
def foreignMembers : List (CodeUnits × JsValue F) → Bool
  | [] => false
  | (_, v) :: rest => foreign v || foreignMembers rest

end

mutual

/-- Somewhere in the value is an array with a hole. -/
def holed : JsValue F → Bool
  | .array elements => holedElements elements
  | .object members => holedMembers members
  | _ => false

/-- Whether there is a hole among the elements or in one. -/
def holedElements : List (Option (JsValue F)) → Bool
  | [] => false
  | none :: _ => true
  | some v :: rest => holed v || holedElements rest

/-- Whether there is a hole in a member. -/
def holedMembers : List (CodeUnits × JsValue F) → Bool
  | [] => false
  | (_, v) :: rest => holed v || holedMembers rest

end

mutual

/-- No object has a key twice. -/
def distinct : JsValue F → Prop
  | .array elements => distinctElements elements
  | .object members =>
      (members.map Prod.fst).Nodup ∧ distinctMembers members
  | _ => True

/-- No object in the elements has a key twice. -/
def distinctElements : List (Option (JsValue F)) → Prop
  | [] => True
  | none :: rest => distinctElements rest
  | some v :: rest => distinct v ∧ distinctElements rest

/-- No object in the values has a key twice. -/
def distinctMembers : List (CodeUnits × JsValue F) → Prop
  | [] => True
  | (_, v) :: rest => distinct v ∧ distinctMembers rest

end

variable {N}

-- The equations of the five are made once, for all the lemmas below.
attribute [local simp] serialize asJson foreign holed distinct

theorem foreignElements_iff {es : List (Option (JsValue F))} :
    foreignElements es = true ↔ ∃ v, some v ∈ es ∧ foreign v = true := by
  induction es with
  | nil => simp [foreignElements]
  | cons e es ih =>
      cases e with
      | none => rw [foreignElements, ih]; simp
      | some v => rw [foreignElements, Bool.or_eq_true, ih]; simp [or_and_right,
          exists_or]

theorem foreignMembers_iff {ms : List (CodeUnits × JsValue F)} :
    foreignMembers ms = true ↔ ∃ m ∈ ms, foreign m.2 = true := by
  induction ms with
  | nil => simp [foreignMembers]
  | cons m ms ih => rw [foreignMembers, Bool.or_eq_true, ih]; simp

theorem holedElements_iff {es : List (Option (JsValue F))} :
    holedElements es = true ↔
      none ∈ es ∨ ∃ v, some v ∈ es ∧ holed v = true := by
  induction es with
  | nil => simp [holedElements]
  | cons e es ih =>
      cases e with
      | none => simp [holedElements]
      | some v =>
          rw [holedElements, Bool.or_eq_true, ih]
          simp only [List.mem_cons, reduceCtorEq, false_or,
            Option.some.injEq]
          constructor
          · rintro (h | h | ⟨w, hw, hh⟩)
            · exact Or.inr ⟨v, Or.inl rfl, h⟩
            · exact Or.inl h
            · exact Or.inr ⟨w, Or.inr hw, hh⟩
          · rintro (h | ⟨w, rfl | hw, hh⟩)
            · exact Or.inr (Or.inl h)
            · exact Or.inl hh
            · exact Or.inr (Or.inr ⟨w, hw, hh⟩)

theorem holedMembers_iff {ms : List (CodeUnits × JsValue F)} :
    holedMembers ms = true ↔ ∃ m ∈ ms, holed m.2 = true := by
  induction ms with
  | nil => simp [holedMembers]
  | cons m ms ih => rw [holedMembers, Bool.or_eq_true, ih]; simp

theorem distinctElements_iff {es : List (Option (JsValue F))} :
    distinctElements es ↔ ∀ v, some v ∈ es → distinct v := by
  induction es with
  | nil => simp [distinctElements]
  | cons e es ih =>
      cases e with
      | none => rw [distinctElements, ih]; simp
      | some v => rw [distinctElements, ih]; simp

theorem distinctMembers_iff {ms : List (CodeUnits × JsValue F)} :
    distinctMembers ms ↔ ∀ m ∈ ms, distinct m.2 := by
  induction ms with
  | nil => simp [distinctMembers]
  | cons m ms ih => rw [distinctMembers, ih, List.forall_mem_cons]

theorem elementsAsJson_iff {es : List (Option (JsValue F))}
    {js : List (Json F)} :
    elementsAsJson N es = some js ↔ List.Forall₂ (fun e j =>
      ∃ v, e = some v ∧ asJson N v = some j) es js := by
  induction es generalizing js with
  | nil =>
      rw [elementsAsJson, Option.some.injEq, List.forall₂_nil_left_iff]
      exact eq_comm
  | cons e es ih =>
      cases e with
      | none =>
          rw [elementsAsJson, List.forall₂_cons_left_iff]
          simp
      | some v =>
          rw [elementsAsJson, List.forall₂_cons_left_iff]
          simp only [Option.bind_eq_bind, Option.bind_eq_some_iff,
            Option.some.injEq, ih]
          constructor
          · rintro ⟨j, hj, js', hjs, rfl⟩
            exact ⟨j, js', ⟨v, rfl, hj⟩, hjs, rfl⟩
          · rintro ⟨j, js', ⟨w, rfl, hj⟩, hjs, rfl⟩
            exact ⟨j, hj, js', hjs, rfl⟩

theorem membersAsJson_iff {ms : List (CodeUnits × JsValue F)}
    {js : List (CodeUnits × Json F)} :
    membersAsJson N ms = some js ↔ List.Forall₂ (fun m j =>
      m.1 = j.1 ∧ asJson N m.2 = some j.2) ms js := by
  induction ms generalizing js with
  | nil =>
      rw [membersAsJson, Option.some.injEq, List.forall₂_nil_left_iff]
      exact eq_comm
  | cons m ms ih =>
      obtain ⟨key, v⟩ := m
      rw [membersAsJson, List.forall₂_cons_left_iff]
      simp only [Option.bind_eq_bind, Option.bind_eq_some_iff,
        Option.some.injEq, ih]
      constructor
      · rintro ⟨j, hj, js', hjs, rfl⟩
        exact ⟨(key, j), js', ⟨rfl, hj⟩, hjs, rfl⟩
      · rintro ⟨⟨key', j⟩, js', ⟨rfl, hj⟩, hjs, rfl⟩
        exact ⟨j, hj, js', hjs, rfl⟩

theorem elementsAsJson_eq_none {es : List (Option (JsValue F))} :
    elementsAsJson N es = none ↔
      none ∈ es ∨ ∃ v, some v ∈ es ∧ asJson N v = none := by
  induction es with
  | nil => simp [elementsAsJson]
  | cons e es ih =>
      cases e with
      | none => simp [elementsAsJson]
      | some v =>
          rw [elementsAsJson]
          cases hv : asJson N v with
          | none => simp [hv]
          | some j =>
              cases hes : elementsAsJson N es with
              | none =>
                  have hsome := ih.mp hes
                  simp only [Option.bind_eq_bind, Option.bind_some,
                    Option.bind_none, List.mem_cons, reduceCtorEq, false_or,
                    true_iff]
                  rcases hsome with hhole | ⟨w, hw, hnone⟩
                  · exact Or.inl hhole
                  · exact Or.inr ⟨w, Or.inr hw, hnone⟩
              | some js =>
                  rw [hes] at ih
                  have hnone := not_or.mp (mt ih.mpr (by simp))
                  simp only [Option.bind_eq_bind, Option.bind_some,
                    reduceCtorEq, List.mem_cons, false_or, false_iff, not_or]
                  refine ⟨hnone.1, ?_⟩
                  rintro ⟨w, hw | hw, hw'⟩
                  · rw [Option.some.inj hw, hv] at hw'
                    cases hw'
                  · exact hnone.2 ⟨w, hw, hw'⟩

theorem membersAsJson_eq_none {ms : List (CodeUnits × JsValue F)} :
    membersAsJson N ms = none ↔ ∃ m ∈ ms, asJson N m.2 = none := by
  induction ms with
  | nil => simp [membersAsJson]
  | cons m ms ih =>
      obtain ⟨key, v⟩ := m
      rw [membersAsJson, List.exists_mem_cons_iff, ← ih]
      cases asJson N v with
      | none => simp
      | some j => cases membersAsJson N ms <;> simp

/-- What is not JSON has something foreign or a hole. -/
theorem asJson_eq_none (v : JsValue F) :
    asJson N v = none ↔ foreign v = true ∨ holed v = true := by
  induction v using JsValue.induct with
  | number x =>
      cases x with
      | infinity negative => simp [asJson, foreign]
      | _ => simp [asJson, foreign, holed]
  | array es ih =>
      rw [asJson, Option.map_eq_none_iff, elementsAsJson_eq_none, foreign,
        holed, foreignElements_iff, holedElements_iff]
      constructor
      · rintro (hhole | ⟨v, hv, hnone⟩)
        · exact Or.inr (Or.inl hhole)
        · rcases (ih v hv).mp hnone with h | h
          · exact Or.inl ⟨v, hv, h⟩
          · exact Or.inr (Or.inr ⟨v, hv, h⟩)
      · rintro (⟨v, hv, h⟩ | hhole | ⟨v, hv, h⟩)
        · exact Or.inr ⟨v, hv, (ih v hv).mpr (Or.inl h)⟩
        · exact Or.inl hhole
        · exact Or.inr ⟨v, hv, (ih v hv).mpr (Or.inr h)⟩
  | object ms ih =>
      rw [asJson, Option.map_eq_none_iff, membersAsJson_eq_none, foreign,
        holed, foreignMembers_iff, holedMembers_iff]
      constructor
      · rintro ⟨m, hm, hnone⟩
        rcases (ih m hm).mp hnone with h | h
        · exact Or.inl ⟨m, hm, h⟩
        · exact Or.inr ⟨m, hm, h⟩
      · rintro (⟨m, hm, h⟩ | ⟨m, hm, h⟩)
        · exact ⟨m, hm, (ih m hm).mpr (Or.inl h)⟩
        · exact ⟨m, hm, (ih m hm).mpr (Or.inr h)⟩
  | _ => simp [asJson, foreign, holed]

/-! ## What the code does with a value

Foreign values are refused and holes are not. A value that is JSON has the text
of its JSON value. -/

variable (N) in

/-- The text of an element, empty for a hole. -/
def elementText :
    Option (JsValue F) → Except CoreInvariantError CodeUnits
  | none => .ok []
  | some v => serialize N v

theorem serializeElements_eq (es : List (Option (JsValue F))) :
    serializeElements N es = es.mapM (elementText N) := by
  induction es with
  | nil => rfl
  | cons e es ih =>
      rw [List.mapM_cons, ← ih]
      cases e with
      | none => rfl
      | some v => rfl

/-- Under its key an object has its value. -/
theorem lookup_of_mem {β : Type} {l : List (CodeUnits × β)}
    (hdistinct : (l.map Prod.fst).Nodup) {key : CodeUnits} {b : β}
    (h : (key, b) ∈ l) : l.lookup key = some b := by
  obtain ⟨before, after, rfl⟩ := List.append_of_mem h
  refine List.lookup_eq_some_iff.mpr ⟨before, after, rfl, fun m hm => ?_⟩
  rw [List.map_append, List.map_cons, List.nodup_append] at hdistinct
  rw [bne_iff_ne]
  exact (hdistinct.2.2 m.1 (List.mem_map_of_mem hm) key
    List.mem_cons_self).symm

variable (N) in

/-- The text of a member's value. -/
def memberResult (m : CodeUnits × JsValue F) :
    Except CoreInvariantError CodeUnits :=
  if m.2.isUndefined then .error (undefinedAt m.1) else serialize N m.2

theorem serializeValues_eq (ms : List (CodeUnits × JsValue F)) :
    serializeValues N ms = ms.map fun m => (m.1, memberResult N m) := by
  induction ms with
  | nil => rfl
  | cons m ms ih => rw [serializeValues, ih, List.map_cons, memberResult]

/-- A key is written with what its value gives. -/
theorem serializeMember_eq {ms : List (CodeUnits × JsValue F)}
    (hdistinct : (ms.map Prod.fst).Nodup) {m : CodeUnits × JsValue F}
    (hm : m ∈ ms) :
    serializeMember (serializeValues N ms) m.1 =
      (memberResult N m).map fun text => Json.memberText (m.1, text) := by
  have hkeys : ((serializeValues N ms).map Prod.fst).Nodup := by
    rw [serializeValues_eq, List.map_map]
    exact hdistinct
  have hmem : (m.1, memberResult N m) ∈ serializeValues N ms := by
    rw [serializeValues_eq]
    exact List.mem_map_of_mem (f := fun m => (m.1, memberResult N m)) hm
  rw [serializeMember, lookup_of_mem hkeys hmem]

theorem memberResult_ok_iff {m : CodeUnits × JsValue F} :
    (∃ text, memberResult N m = .ok text) ↔
      ∃ text, serialize N m.2 = .ok text := by
  unfold memberResult
  by_cases hundefined : m.2.isUndefined
  · rw [if_pos hundefined]
    cases hv : m.2 <;> rw [hv] at hundefined <;> cases hundefined
    simp [serialize]
  · rw [if_neg hundefined]

/-- A value is written just when nothing in it is foreign. -/
theorem serialize_ok_iff (v : JsValue F) : distinct v →
    ((∃ text, serialize N v = .ok text) ↔ foreign v = false) := by
  induction v using JsValue.induct with
  | null => exact fun _ => ⟨fun _ => rfl, fun _ => ⟨_, by rw [serialize]⟩⟩
  | boolean b =>
      exact fun _ => ⟨fun _ => rfl, fun _ => ⟨_, by rw [serialize]⟩⟩
  | number x =>
      intro _
      cases x with
      | infinity negative => cases negative <;> simp [serialize, foreign]
      | _ => simp [serialize, foreign]
  | string t =>
      exact fun _ => ⟨fun _ => rfl, fun _ => ⟨_, by rw [serialize]⟩⟩
  | array es ih =>
      intro hdistinct
      rw [distinct, distinctElements_iff] at hdistinct
      rw [foreign, Bool.eq_false_iff, ne_eq, foreignElements_iff]
      have helements : (∃ texts, serializeElements N es = .ok texts) ↔
          ∀ e ∈ es, ∃ text, elementText N e = .ok text := by
        rw [serializeElements_eq]
        exact exists_mapM_iff
      have hjoined : (∃ text, serialize N (.array es) = .ok text) ↔
          ∃ texts, serializeElements N es = .ok texts := by
        simp only [serialize, bind_eq_ok]
        constructor
        · rintro ⟨text, texts, htexts, -⟩
          exact ⟨texts, htexts⟩
        · rintro ⟨texts, htexts⟩
          exact ⟨_, texts, htexts, rfl⟩
      rw [hjoined, helements]
      constructor
      · rintro hall ⟨v, hv, hforeign⟩
        rw [(ih v hv (hdistinct v hv)).mp (hall (some v) hv)] at hforeign
        cases hforeign
      · intro hnone e he
        cases e with
        | none => exact ⟨[], rfl⟩
        | some v =>
            refine (ih v he (hdistinct v he)).mpr ?_
            rw [Bool.eq_false_iff]
            exact fun hforeign => hnone ⟨v, he, hforeign⟩
  | object ms ih =>
      intro hdistinct
      rw [distinct, distinctMembers_iff] at hdistinct
      obtain ⟨hkeys, hvalues⟩ := hdistinct
      rw [foreign, Bool.eq_false_iff, ne_eq, foreignMembers_iff]
      have hjoined : (∃ text, serialize N (.object ms) = .ok text) ↔
          ∀ key ∈ Json.sortKeys (ms.map Prod.fst),
            ∃ text, serializeMember (serializeValues N ms) key =
              .ok text := by
        rw [← exists_mapM_iff]
        simp only [serialize, bind_eq_ok]
        constructor
        · rintro ⟨text, texts, htexts, -⟩
          exact ⟨texts, htexts⟩
        · rintro ⟨texts, htexts⟩
          exact ⟨_, texts, htexts, rfl⟩
      have hmember : ∀ m ∈ ms,
          (∃ text, serializeMember (serializeValues N ms) m.1 = .ok text) ↔
            foreign m.2 = false := by
        intro m hm
        rw [serializeMember_eq hkeys hm, ← ih m hm (hvalues m hm),
          ← memberResult_ok_iff]
        cases memberResult N m <;> simp [Except.map]
      rw [hjoined]
      constructor
      · rintro hall ⟨m, hm, hforeign⟩
        have hkey : m.1 ∈ Json.sortKeys (ms.map Prod.fst) :=
          (List.perm_insertionSort _ _).mem_iff.mpr (List.mem_map_of_mem hm)
        rw [(hmember m hm).mp (hall m.1 hkey)] at hforeign
        cases hforeign
      · intro hnone key hkey
        obtain ⟨m, hm, rfl⟩ :=
          List.mem_map.mp ((List.perm_insertionSort _ _).mem_iff.mp hkey)
        refine (hmember m hm).mpr ?_
        rw [Bool.eq_false_iff]
        exact fun hforeign => hnone ⟨m, hm, hforeign⟩
  | _ => simp [serialize, foreign]

/-- A value that is JSON is written as the canonical text of what it is. -/
theorem serialize_json (v : JsValue F) : distinct v → ∀ j,
    asJson N v = some j → serialize N v = .ok (j.text N) ∧ j.Distinct := by
  induction v using JsValue.induct with
  | null =>
      rintro - j ⟨⟩
      exact ⟨rfl, trivial⟩
  | boolean b =>
      rintro - j ⟨⟩
      exact ⟨rfl, trivial⟩
  | number x =>
      intro _ j hj
      cases x with
      | finite x =>
          cases hj
          exact ⟨rfl, trivial⟩
      | negativeZero =>
          cases hj
          exact ⟨congrArg Except.ok N.text_zero.symm, trivial⟩
      | nan => cases hj
      | infinity negative => cases hj
  | string t =>
      rintro - j ⟨⟩
      exact ⟨rfl, trivial⟩
  | array es ih =>
      intro hdistinct j hj
      rw [distinct, distinctElements_iff] at hdistinct
      rw [asJson, Option.map_eq_some_iff] at hj
      obtain ⟨js, hjs, rfl⟩ := hj
      rw [elementsAsJson_iff] at hjs
      have hall : List.Forall₂
          (fun e j => j.Distinct ∧ elementText N e = .ok (j.text N)) es js := by
        have hmem := (List.forall₂_and_left _ _).mpr
          ⟨fun e (he : e ∈ es) => he, hjs⟩
        refine hmem.imp fun e j hej => ?_
        obtain ⟨he, v, rfl, hj⟩ := hej
        exact (ih v he (hdistinct v he) j hj).symm
      obtain ⟨hjsDistinct, htexts⟩ := (List.forall₂_and_left _ _).mp
        (List.Forall₂.flip hall)
      have hmapM : es.mapM (elementText N) = .ok (js.map (Json.text N)) :=
        mapM_eq_ok.mpr (List.forall₂_map_right_iff.mpr htexts.flip)
      refine ⟨?_, Json.distinctElements_iff.mpr hjsDistinct⟩
      rw [serialize, serializeElements_eq, hmapM, Json.text,
        Json.elementTexts_eq]
      rfl
  | object ms ih =>
      intro hdistinct j hj
      rw [distinct, distinctMembers_iff] at hdistinct
      obtain ⟨hkeys, hvalues⟩ := hdistinct
      rw [asJson, Option.map_eq_some_iff] at hj
      obtain ⟨js, hjs, rfl⟩ := hj
      rw [membersAsJson_iff] at hjs
      have hall : List.Forall₂ (fun m n => n.2.Distinct ∧ m.1 = n.1 ∧
          serializeMember (serializeValues N ms) m.1 =
            .ok (Json.memberText (n.1, n.2.text N))) ms js := by
        have hmem := (List.forall₂_and_left _ _).mpr
          ⟨fun m (hm : m ∈ ms) => hm, hjs⟩
        refine hmem.imp fun m n hmn => ?_
        obtain ⟨hm, hkey, hj⟩ := hmn
        obtain ⟨htext, hn⟩ := ih m hm (hvalues m hm) n.2 hj
        have hdefined : ¬ m.2.isUndefined = true := by
          intro hundefined
          cases hv : m.2 <;> rw [hv] at hundefined <;> cases hundefined
          rw [hv] at hj
          cases hj
        refine ⟨hn, hkey, ?_⟩
        rw [serializeMember_eq hkeys hm, memberResult, if_neg hdefined, htext,
          hkey]
        rfl
      obtain ⟨hjsDistinct, hrest⟩ := (List.forall₂_and_left _ _).mp
        (List.Forall₂.flip hall)
      have hsame : ms.map Prod.fst = js.map Prod.fst := by
        rw [← List.forall₂_eq_eq_eq, List.forall₂_map_left_iff,
          List.forall₂_map_right_iff]
        exact hjs.imp fun m n h => h.1
      have hmembers : ∀ n ∈ js, serializeMember (serializeValues N ms) n.1 =
          .ok (Json.memberText (n.1, n.2.text N)) := by
        refine ((List.forall₂_and_left (R := fun _ _ => True) js ms).mp ?_).1
        refine hrest.imp fun n m h => ?_
        rw [← h.1]
        exact ⟨by rw [h.2, h.1], trivial⟩
      have hsorted : Json.sortKeys (ms.map Prod.fst) =
          (Json.sortByKey js).map Prod.fst := by
        rw [hsame, Json.map_fst_sortByKey]
      have hmapM : (Json.sortKeys (ms.map Prod.fst)).mapM
          (serializeMember (serializeValues N ms)) =
            .ok ((Json.sortByKey js).map fun n =>
              Json.memberText (n.1, n.2.text N)) := by
        rw [hsorted, mapM_eq_ok, List.forall₂_map_left_iff,
          List.forall₂_map_right_iff, List.forall₂_same]
        exact fun n hn =>
          hmembers n ((Json.sortByKey_perm js).mem_iff.mp hn)
      refine ⟨?_, hsame ▸ hkeys, Json.distinctMembers_iff.mpr hjsDistinct⟩
      rw [serialize, hmapM, Json.text, Json.memberTexts_eq, Json.sortByKey_map,
        List.map_map]
      rfl
  | _ =>
      rintro - j ⟨⟩

/-! ## What a text stands for

So texts tell values apart up to the order of members, but for the values with
holes. -/

/-- A value whose objects have each key once, as every object does. -/
structure PlainValue (F : Type) where
  value : JsValue F
  distinct : distinct value

variable (N) in
/-- A value that is JSON is written, and like another one just when the two are
the same up to the order of members; and a value that is not JSON is refused.
-/
def ToldApart (a : PlainValue F) : Prop :=
  (∀ j, asJson N a.value = some j →
    (∃ text, canonicalJson N a.value = .ok text) ∧
      ∀ (b : PlainValue F) k, asJson N b.value = some k →
        (canonicalJson N a.value = canonicalJson N b.value ↔
          Json.Same j k)) ∧
    (asJson N a.value = none → ∃ e, canonicalJson N a.value = .error e)

theorem canonicalJson_eq_iff {a b : PlainValue F} {j k : Json F}
    (ha : asJson N a.value = some j) (hb : asJson N b.value = some k) :
    canonicalJson N a.value = canonicalJson N b.value ↔ Json.Same j k := by
  obtain ⟨htext, hj⟩ := serialize_json a.value a.distinct j ha
  obtain ⟨htext', -⟩ := serialize_json b.value b.distinct k hb
  rw [canonicalJson, canonicalJson, htext, htext', Except.ok.injEq]
  exact Json.text_eq_iff hj

theorem canonicalJson_error_iff (a : PlainValue F) :
    (∃ e, canonicalJson N a.value = .error e) ↔ foreign a.value = true := by
  have hok := serialize_ok_iff (N := N) a.value a.distinct
  unfold canonicalJson
  cases hserialize : serialize N a.value with
  | ok text =>
      rw [hok.mp ⟨text, hserialize⟩]
      simp
  | error e =>
      rw [hserialize] at hok
      simp only [reduceCtorEq, exists_false, false_iff,
        Bool.not_eq_false] at hok
      simp [hok]

/-- Just the values with a hole and nothing else that is foreign are not told
apart: they are written, with nothing where the hole is. -/
theorem toldApart_iff (a : PlainValue F) :
    ToldApart N a ↔ ¬ (holed a.value = true ∧ foreign a.value = false) := by
  constructor
  · rintro ⟨-, hrefused⟩ ⟨hholed, hforeign⟩
    have hnone : asJson N a.value = none :=
      (asJson_eq_none a.value).mpr (Or.inr hholed)
    have herror := (canonicalJson_error_iff a).mp (hrefused hnone)
    rw [hforeign] at herror
    cases herror
  · intro h
    refine ⟨fun j hj => ⟨?_, fun b k hk => canonicalJson_eq_iff hj hk⟩,
      fun hnone => (canonicalJson_error_iff a).mpr ?_⟩
    · exact ⟨_, (serialize_json a.value a.distinct j hj).1⟩
    · rcases (asJson_eq_none a.value).mp hnone with hforeign | hholed
      · exact hforeign
      · exact Bool.of_not_eq_false fun hforeign => h ⟨hholed, hforeign⟩

end Serialize

/-- `[,]`, an array of one hole. -/
def arrayOfHole : PlainValue SafeInteger where
  value := .array [none]
  distinct := trivial

/-- The array that a hole is written like. -/
def emptyArray : PlainValue SafeInteger where
  value := .array []
  distinct := trivial

/-- The hole is not refused, and the text is that of the empty array. -/
theorem arrayOfHole_collides :
    asJson integerTexts arrayOfHole.value = none ∧
      canonicalJson integerTexts arrayOfHole.value =
        .ok (codeUnits "[]") ∧
      canonicalJson integerTexts emptyArray.value = .ok (codeUnits "[]") ∧
      ¬ ToldApart integerTexts arrayOfHole := by
  have hhole : canonicalJson integerTexts arrayOfHole.value =
      .ok (codeUnits "[]") := rfl
  refine ⟨rfl, hhole, rfl, fun h => ?_⟩
  obtain ⟨e, he⟩ := h.2 rfl
  rw [hhole] at he
  cases he

end Shozee.Audit
