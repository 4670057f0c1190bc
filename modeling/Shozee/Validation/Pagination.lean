import Shozee.Run.IsoDate
import Shozee.Run.Keyset
import Shozee.Run.Uuid

/-!
# The pagination toolkit

A cursor is the texts of its fields with a separator between them. The values
of a record stand here in the order of the fields, and what the payload schema
of a list makes of the decoded values is a parameter of `decode`.

`decode_encode` is for the lists without a remainder: what has been encoded is
read back field by field, because none of the texts has the separator in it.
-/

namespace Shozee.Validation

open Shozee.Run

/-! ## Fields

The kinds of fields, with the text of a value and the value of a text. -/

/-- The kinds of fields of a cursor. The remainder takes what is left of the
text. -/
inductive CursorFieldKind
  | isoDatetime
  | uuid
  | booleanFlag
  | int
  | remainder
deriving DecidableEq, Repr

/-- What is written for a kind. -/
def EncodeValueFor : CursorFieldKind → Type
  | .isoDatetime => Instant
  | .booleanFlag => Bool
  | .int => ℤ
  | .uuid => String
  | .remainder => String

/-- What is read of a field, before the payload's schema sees it. -/
inductive DecodedValue
  | text (text : String)
  | flag (flag : Bool)
  | int (n : ℤ)
deriving DecidableEq

/-- The text of a field. -/
def encodeField : (kind : CursorFieldKind) → EncodeValueFor kind → String
  | .isoDatetime, value => Instant.toISOString value
  | .booleanFlag, value => cond value "1" "0"
  | .int, value => Int.repr value
  | .uuid, value => value
  | .remainder, value => value

/-- Digits, after a sign or not. It is exact, where `Number.parseInt` rounds
above `2 ^ 53`; the integers of a cursor are safe ones (`CursorValues`). -/
def parseInt (raw : List Char) : Option ℤ :=
  match raw with
  | '-' :: digits =>
      if digits = [] then none
      else (number digits).map fun n => -(n : ℤ)
  | digits =>
      if digits = [] then none else (number digits).map fun n => (n : ℤ)

/-- The value of a field's text. Texts and times are left to the schema. -/
def decodeField (kind : CursorFieldKind) (raw : String) :
    Option DecodedValue :=
  match kind with
  | .isoDatetime | .uuid | .remainder => some (.text raw)
  | .booleanFlag =>
      if raw ≠ "0" ∧ raw ≠ "1" then none else some (.flag (raw = "1"))
  | .int => (parseInt raw.toList).map .int

/-! ## The codec

Texts joined by a separator, and cut again. -/

/-- The fields with bars between. -/
def joined (parts : List (List Char)) : List Char := ['|'].intercalate parts

/-- The cursor of values. -/
def encode (values : List ((kind : CursorFieldKind) × EncodeValueFor kind)) :
    String :=
  String.ofList
    (joined (values.map fun value => (encodeField value.1 value.2).toList))

/-- The loop over the fields. -/
def decodeFields : List CursorFieldKind → List (List Char) →
    Option (List DecodedValue)
  | [], _ => some []
  | [.remainder], parts =>
      (decodeField .remainder (String.ofList (joined parts))).map ([·])
  | kind :: fields, parts =>
      (decodeField kind (String.ofList (parts.headD []))).bind fun value =>
        (decodeFields fields parts.tail).map (value :: ·)

/-- What a cursor holds: as many fields as there are to be, and a payload that
its schema takes. -/
def decode {τ : Type} (fields : List CursorFieldKind)
    (payload : List DecodedValue → Option τ) (cursor : String) : Option τ :=
  let parts := cursor.toList.splitOn '|'
  if fields.getLast? = some .remainder then
    if parts.length < fields.length then none
    else (decodeFields fields parts).bind payload
  else if parts.length ≠ fields.length then none
  else (decodeFields fields parts).bind payload

theorem decodeFields_cons {kind : CursorFieldKind}
    {fields : List CursorFieldKind} {parts : List (List Char)}
    (h : kind ≠ .remainder ∨ fields ≠ []) :
    decodeFields (kind :: fields) parts =
      (decodeField kind (String.ofList (parts.headD []))).bind fun value =>
        (decodeFields fields parts.tail).map (value :: ·) := by
  cases fields with
  | nil =>
      cases kind with
      | remainder => simp at h
      | isoDatetime | uuid | booleanFlag | int => rfl
  | cons kind' fields => cases kind <;> rfl

variable {values : List ((kind : CursorFieldKind) × EncodeValueFor kind)}
  {decoded : List DecodedValue}

/-- The fields are read back one by one. -/
theorem decodeFields_encoded (hplain : ∀ value ∈ values, value.1 ≠ .remainder)
    (hall : List.Forall₂ (fun value d =>
      decodeField value.1 (encodeField value.1 value.2) = some d) values
        decoded) :
    decodeFields (values.map (·.1))
        (values.map fun value => (encodeField value.1 value.2).toList) =
      some decoded := by
  induction hall with
  | nil => rfl
  | cons hhead _ ih =>
      obtain ⟨hkind, hrest⟩ := List.forall_mem_cons.mp hplain
      rw [List.map_cons, List.map_cons, decodeFields_cons (.inl hkind),
        List.headD_cons, String.ofList_toList, hhead, Option.bind_some,
        List.tail_cons, ih hrest, Option.map_some]

/-- A cursor whose fields have no separator is read back. -/
theorem decode_encode {τ : Type} (payload : List DecodedValue → Option τ)
    (hne : values ≠ []) (hplain : ∀ value ∈ values, value.1 ≠ .remainder)
    (hclean : ∀ value ∈ values, '|' ∉ (encodeField value.1 value.2).toList)
    (hall : List.Forall₂ (fun value d =>
      decodeField value.1 (encodeField value.1 value.2) = some d) values
        decoded) :
    decode (values.map (·.1)) payload (encode values) = payload decoded := by
  have hsplit : (encode values).toList.splitOn '|' =
      values.map fun value => (encodeField value.1 value.2).toList := by
    unfold encode joined
    rw [String.toList_ofList, List.splitOn_intercalate]
    · intro part hpart
      obtain ⟨value, hvalue, rfl⟩ := List.mem_map.mp hpart
      exact hclean value hvalue
    · simpa using hne
  have hlast : (values.map (·.1)).getLast? ≠ some .remainder := by
    intro hlast
    obtain ⟨value, hvalue, hkind⟩ :=
      List.mem_map.mp (List.mem_of_getLast? hlast)
    exact hplain value hvalue hkind
  unfold decode
  dsimp only
  rw [hsplit, if_neg hlast, if_neg (by simp),
    decodeFields_encoded hplain hall, Option.bind_some]

/-! ## Pages

The page is cut off the rows that were fetched, which are one more than it
shows if there are more. -/

/-- A page and its cursor. -/
def paginate {α : Type} (rows : List α) (limit : ℕ)
    (encodeCursor : α → String) : List α × Option String :=
  let hasMore := decide (rows.length > limit)
  let page := if hasMore = true then rows.take limit else rows
  (page, if hasMore = true then page.getLast?.map encodeCursor else none)

/-- A page of one row more than it shows is a page of all of them. -/
theorem paginate_take {α : Type} (rows : List α) (limit : ℕ)
    (encodeCursor : α → String) :
    paginate (rows.take (limit + 1)) limit encodeCursor =
      (rows.take limit, if limit < rows.length then
        (rows.take limit).getLast?.map encodeCursor else none) := by
  unfold paginate
  dsimp only
  by_cases hmore : limit < rows.length
  · have hlength : (rows.take (limit + 1)).length > limit := by
      rw [List.length_take]
      omega
    rw [if_pos (decide_eq_true hlength), if_pos (decide_eq_true hlength),
      if_pos hmore, List.take_take, Nat.min_eq_left (Nat.le_succ limit)]
  · have hlength : ¬ (rows.take (limit + 1)).length > limit := by
      rw [List.length_take]
      omega
    rw [if_neg (by simp only [decide_eq_true_eq]; exact hlength),
      if_neg (by simp only [decide_eq_true_eq]; exact hlength), if_neg hmore,
      List.take_of_length_le (by omega), List.take_of_length_le (by omega)]

/-! ## Searching -/

/-- `undefined` is `none`. -/
def sanitizeLikeLiteral (query : String) : Option String :=
  let literal := query.toList.filter fun c => c ∉ ['\\', '%', '_']
  if literal = [] then none else some (String.ofList literal)

end Shozee.Validation
