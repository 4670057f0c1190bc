import Shozee.Validation.Pagination

/-!
# Cursors are read back

Up to the last field none of the texts has the separator in it, so a cursor is
cut where its fields end; what is left when a remainder is reached is its text,
separators and all (`decodeFields_joined`). The values themselves are read back
from their texts, so cursors of one list tell its values apart
(`decode_encode_last`).

A cursor of no fields is the empty text, which is one part and no fields.
-/

namespace Shozee.Validation

open Shozee.Run

/-- A value of a cursor with its kind. -/
abbrev CursorValue := (kind : CursorFieldKind) × EncodeValueFor kind

/-- `Number.MAX_SAFE_INTEGER`. -/
def maxSafeInteger : ℤ := 9007199254740991

/-- The integers that are exact. -/
def IsSafeInteger (n : ℤ) : Prop := -maxSafeInteger ≤ n ∧ n ≤ maxSafeInteger

/-- The values of a field's type. -/
def CursorValue.Typed : CursorValue → Prop
  | ⟨.isoDatetime, _⟩ => True
  | ⟨.uuid, text⟩ =>
      isCanonicalUuid (String.toList text |>.map Char.toLower) = true
  | ⟨.booleanFlag, _⟩ => True
  | ⟨.int, n⟩ => IsSafeInteger n
  | ⟨.remainder, _⟩ => True

/-- What is read back of a value. -/
def CursorValue.decoded : CursorValue → DecodedValue
  | ⟨.isoDatetime, date⟩ => .text (Instant.toISOString date)
  | ⟨.uuid, text⟩ => .text text
  | ⟨.booleanFlag, flag⟩ => .flag flag
  | ⟨.int, n⟩ => .int n
  | ⟨.remainder, text⟩ => .text text

/-- The text of a value. -/
def CursorValue.text (value : CursorValue) : List Char :=
  (encodeField value.1 value.2).toList

/-! ## Fields

Each value is read back from its text, and only a remainder may have the
separator in it. -/

theorem number_ofDigitChars {text : List Char}
    (h : ∀ c ∈ text, c.isDigit = true) (n : ℕ) :
    text.foldlM (fun n c => (digitValue c).map (10 * n + ·)) n =
      some (Nat.ofDigitChars 10 text n) := by
  induction text generalizing n with
  | nil => rfl
  | cons c text ih =>
      obtain ⟨hc, htext⟩ := List.forall_mem_cons.mp h
      have hvalue : digitValue c = some (c.toNat - 48) := by
        unfold digitValue
        rw [if_pos hc]
      rw [number_cons, hvalue, Option.bind_some, ih htext,
        Nat.ofDigitChars_cons]
      rfl

theorem number_toDigits (n : ℕ) : number (Nat.toDigits 10 n) = some n := by
  have hdigits : ∀ c ∈ Nat.toDigits 10 n, c.isDigit = true := fun c hc =>
    Nat.isDigit_of_mem_toDigits (by omega) (by omega) hc
  unfold number
  rw [number_ofDigitChars hdigits, Nat.ofDigitChars_ten_toDigits]

theorem parseInt_intRepr (n : ℤ) : parseInt (Int.repr n).toList = some n := by
  rw [Int.repr_eq_if]
  split
  next hpos =>
    rw [Nat.toList_repr]
    have hdash : '-' ∉ Nat.toDigits 10 n.toNat := by
      intro hmem
      exact absurd (Nat.isDigit_of_mem_toDigits (by omega) (by omega) hmem)
        (by decide)
    have hnumber := number_toDigits n.toNat
    have hne : Nat.toDigits 10 n.toNat ≠ [] := Nat.toDigits_ne_nil
    generalize Nat.toDigits 10 n.toNat = digits at hdash hnumber hne
    unfold parseInt
    split
    next => exact absurd List.mem_cons_self hdash
    next =>
      rw [if_neg hne, hnumber]
      show some ((n.toNat : ℕ) : ℤ) = some n
      exact congrArg some (by omega)
  next hneg =>
    have htext : ("-" ++ (-n).toNat.repr).toList =
        '-' :: Nat.toDigits 10 (-n).toNat := by
      rw [String.toList_append, Nat.toList_repr]
      rfl
    rw [htext]
    show (if Nat.toDigits 10 (-n).toNat = [] then none
      else Option.map (fun n => -n) (do
        let a ← number (Nat.toDigits 10 (-n).toNat)
        pure (a : ℤ))) = some n
    rw [if_neg Nat.toDigits_ne_nil, number_toDigits]
    show some (-((-n).toNat : ℤ)) = some n
    exact congrArg some (by omega)

theorem separator_notMem_intRepr (n : ℤ) : '|' ∉ (Int.repr n).toList := by
  have hdigits : ∀ k, '|' ∉ (Nat.repr k).toList := by
    intro k hmem
    rw [Nat.toList_repr] at hmem
    exact absurd (Nat.isDigit_of_mem_toDigits (by omega) (by omega) hmem)
      (by decide)
  rw [Int.repr_eq_if]
  split
  · exact hdigits _
  · rw [String.toList_append, List.mem_append, not_or]
    exact ⟨by decide, hdigits _⟩

theorem toISOString_injective {date date' : Instant}
    (h : date.toISOString = date'.toISOString) : date = date' := by
  have htime := congrArg isoTime (String.ofList_injective h)
  rw [isoTime_isoText, isoTime_isoText, Option.some.injEq] at htime
  exact Instant.ext_time htime

/-- A value is read back from its text. -/
theorem decodeField_encodeField (value : CursorValue) :
    decodeField value.1 (encodeField value.1 value.2) =
      some value.decoded := by
  obtain ⟨kind, value⟩ := value
  cases kind with
  | isoDatetime | uuid | remainder => rfl
  | booleanFlag =>
      cases value with
      | true => rfl
      | false => rfl
  | int => exact congrArg (Option.map DecodedValue.int) (parseInt_intRepr value)

/-- Only a remainder has the separator in its text. -/
theorem separator_notMem_text {value : CursorValue} (htyped : value.Typed)
    (hkind : value.1 ≠ .remainder) : '|' ∉ value.text := by
  obtain ⟨kind, value⟩ := value
  unfold CursorValue.text
  cases kind with
  | isoDatetime =>
      show '|' ∉ (Instant.toISOString value).toList
      unfold Instant.toISOString
      rw [String.toList_ofList]
      exact Instant.notMem_isoText value (by decide) (by decide)
  | uuid =>
      intro hmem
      have hlower : '|' ∈ (String.toList value).map Char.toLower :=
        List.mem_map.mpr ⟨'|', hmem, by decide⟩
      refine Uuid.notMem_text (c := '|')
        ⟨String.ofList ((String.toList value).map Char.toLower),
          canonical_ofList htyped⟩ (by decide) (by decide) ?_
      rw [String.toList_ofList]
      exact hlower
  | booleanFlag =>
      cases value with
      | true => decide
      | false => decide
  | int => exact separator_notMem_intRepr value
  | remainder => exact absurd rfl hkind

/-- Values of one kind that are read back alike are the same. -/
theorem value_eq_of_decoded {value value' : CursorValue}
    (hkind : value.1 = value'.1) (h : value.decoded = value'.decoded) :
    value = value' := by
  obtain ⟨kind, value⟩ := value
  obtain ⟨kind', value'⟩ := value'
  dsimp only at hkind
  subst hkind
  refine congrArg (Sigma.mk kind) ?_
  cases kind with
  | isoDatetime => exact toISOString_injective (DecodedValue.text.inj h)
  | uuid | remainder => exact DecodedValue.text.inj h
  | booleanFlag => exact DecodedValue.flag.inj h
  | int => exact DecodedValue.int.inj h

/-! ## The cursor

Cutting the joined texts gives the texts again, the remainder taking all that
is left. -/

theorem joined_cons {part : List Char} {parts : List (List Char)}
    (h : parts ≠ []) : joined (part :: parts) = part ++ '|' :: joined parts := by
  unfold joined
  rw [List.intercalate_cons_of_ne_nil h, List.append_assoc]
  rfl

/-- A remainder takes all the parts that are left. -/
theorem decodeFields_remainder {kind : CursorFieldKind}
    (h : kind = .remainder) (parts : List (List Char)) :
    decodeFields [kind] parts =
      (decodeField kind (String.ofList (joined parts))).map ([·]) := by
  rw [h]
  rfl

/-- What is decoded from the parts of a cursor. -/
theorem decodeFields_joined {values : List CursorValue} (hne : values ≠ [])
    (htyped : ∀ value ∈ values, value.Typed)
    (hplain : ∀ value ∈ values.dropLast, value.1 ≠ .remainder) :
    decodeFields (values.map (·.1))
        ((joined (values.map CursorValue.text)).splitOn '|') =
      some (values.map CursorValue.decoded) := by
  induction values with
  | nil => exact absurd rfl hne
  | cons value rest ih =>
      obtain ⟨hvalue, hrest⟩ := List.forall_mem_cons.mp htyped
      cases rest with
      | nil =>
          have htext : joined ([value].map CursorValue.text) = value.text :=
            List.intercalate_singleton
          have hread := decodeField_encodeField value
          rw [← String.ofList_toList (s := encodeField value.1 value.2)]
            at hread
          change decodeField value.1 (String.ofList value.text) = _ at hread
          rw [htext, List.map_singleton]
          by_cases hkind : value.1 = .remainder
          -- The parts of the last text are put together again.
          · rw [decodeFields_remainder hkind, joined,
              List.intercalate_splitOn, hread]
            rfl
          · have hclean := separator_notMem_text hvalue hkind
            rw [List.splitOn_eq_singleton hclean,
              decodeFields_cons (.inl hkind), List.headD_cons, hread]
            rfl
      | cons next rest =>
          rw [List.dropLast_cons_cons] at hplain
          obtain ⟨hkind, hplain⟩ := List.forall_mem_cons.mp hplain
          have hclean := separator_notMem_text hvalue hkind
          have ih := ih (List.cons_ne_nil _ _) hrest hplain
          have hjoined : joined ((value :: next :: rest).map
              CursorValue.text) = value.text ++ '|' :: joined
                ((next :: rest).map CursorValue.text) :=
            joined_cons (List.cons_ne_nil _ _)
          have hread := decodeField_encodeField value
          rw [← String.ofList_toList (s := encodeField value.1 value.2)]
            at hread
          change decodeField value.1 (String.ofList value.text) = _ at hread
          rw [hjoined, List.splitOn_append_cons_self_of_not_mem hclean,
            List.map_cons, decodeFields_cons (.inl hkind), List.headD_cons,
            List.tail_cons, hread, ih]
          rfl

/-- The parts of a cursor are its fields, and more only for a remainder. -/
theorem length_splitOn_joined {values : List CursorValue} (hne : values ≠ [])
    (htyped : ∀ value ∈ values, value.Typed)
    (hplain : ∀ value ∈ values.dropLast, value.1 ≠ .remainder) :
    values.length ≤
        ((joined (values.map CursorValue.text)).splitOn '|').length ∧
      ((values.map (·.1)).getLast? ≠ some .remainder →
        ((joined (values.map CursorValue.text)).splitOn '|').length =
          values.length) := by
  induction values with
  | nil => exact absurd rfl hne
  | cons value rest ih =>
      obtain ⟨hvalue, hrest⟩ := List.forall_mem_cons.mp htyped
      cases rest with
      | nil =>
          have htext : joined ([value].map CursorValue.text) = value.text :=
            List.intercalate_singleton
          rw [htext]
          refine ⟨List.length_pos_of_ne_nil (List.splitOn_ne_nil _ _),
            fun hlast => ?_⟩
          have hkind : value.1 ≠ .remainder := fun h =>
            hlast (congrArg some h)
          rw [List.splitOn_eq_singleton (separator_notMem_text hvalue hkind)]
          rfl
      | cons next rest =>
          rw [List.dropLast_cons_cons] at hplain
          obtain ⟨hkind, hplain⟩ := List.forall_mem_cons.mp hplain
          have hclean := separator_notMem_text hvalue hkind
          obtain ⟨hle, heq⟩ := ih (List.cons_ne_nil _ _) hrest hplain
          have hjoined : joined ((value :: next :: rest).map
              CursorValue.text) = value.text ++ '|' :: joined
                ((next :: rest).map CursorValue.text) :=
            joined_cons (List.cons_ne_nil _ _)
          rw [hjoined, List.splitOn_append_cons_self_of_not_mem hclean]
          exact ⟨Nat.succ_le_succ hle, fun hlast =>
            congrArg Nat.succ (heq hlast)⟩

/-- A cursor is read back. -/
theorem decode_encode_last {τ : Type} (payload : List DecodedValue → Option τ)
    {values : List CursorValue} (hne : values ≠ [])
    (htyped : ∀ value ∈ values, value.Typed)
    (hplain : ∀ value ∈ values.dropLast, value.1 ≠ .remainder) :
    decode (values.map (·.1)) payload (encode values) =
      payload (values.map CursorValue.decoded) := by
  have htext : (encode values).toList =
      joined (values.map CursorValue.text) :=
    String.toList_ofList
  have hfields := decodeFields_joined hne htyped hplain
  obtain ⟨hle, heq⟩ := length_splitOn_joined hne htyped hplain
  unfold decode
  rw [htext]
  dsimp only
  rw [hfields, List.length_map, Option.bind_some]
  split
  next => rw [if_neg (Nat.not_lt.mpr hle)]
  next hlast => rw [if_neg (not_not.mpr (heq hlast))]

theorem values_eq_of_decoded {values values' : List CursorValue}
    (hkinds : values.map (·.1) = values'.map (·.1))
    (h : values.map CursorValue.decoded = values'.map CursorValue.decoded) :
    values = values' := by
  induction values generalizing values' with
  | nil => exact (List.map_eq_nil_iff.mp hkinds.symm).symm
  | cons value values ih =>
      cases values' with
      | nil => cases hkinds
      | cons value' values' =>
          rw [List.map_cons, List.map_cons, List.cons.injEq] at hkinds h
          rw [value_eq_of_decoded hkinds.1 h.1, ih hkinds.2 h.2]

/-- The lists of values that a cursor is made of. -/
structure CursorValues (values : List CursorValue) : Prop where
  typed : ∀ value ∈ values, value.Typed
  plain : ∀ value ∈ values.dropLast, value.1 ≠ .remainder

/-- A cursor of one field or more is read back, whatever the payload schema
makes of its values, and it tells them apart. -/
theorem cursorCodec {values : List CursorValue} (hne : values ≠ [])
    (hvalues : CursorValues values) :
    (∀ {τ : Type} (payload : List DecodedValue → Option τ),
      decode (values.map (·.1)) payload (encode values) =
        payload (values.map CursorValue.decoded)) ∧
    ∀ values', CursorValues values' →
      values'.map (·.1) = values.map (·.1) →
      encode values' = encode values → values' = values := by
  refine ⟨fun payload =>
    decode_encode_last payload hne hvalues.typed hvalues.plain, ?_⟩
  intro values' hvalues' hkinds hencode
  have hne' : values' ≠ [] := by
    rintro rfl
    exact hne (List.map_eq_nil_iff.mp hkinds.symm)
  have hread := decode_encode_last some hne hvalues.typed hvalues.plain
  have hread' := decode_encode_last some hne' hvalues'.typed hvalues'.plain
  rw [hkinds, hencode, hread, Option.some.injEq] at hread'
  exact values_eq_of_decoded hkinds hread'.symm

theorem cursorCodec_name :
    decode [.int, .remainder] some
        (encode [⟨.int, (7 : ℤ)⟩, ⟨.remainder, "a|b"⟩]) =
      some [.int 7, .text "a|b"] := by
  refine (@cursorCodec [⟨.int, (7 : ℤ)⟩, ⟨.remainder, "a|b"⟩]
    (List.cons_ne_nil _ _) ⟨?_, ?_⟩).1 some
  · intro value hvalue
    simp only [List.mem_cons, List.not_mem_nil, or_false] at hvalue
    rcases hvalue with rfl | rfl
    · exact ⟨by decide, by decide⟩
    · trivial
  · intro value hvalue
    rw [List.mem_singleton.mp hvalue]
    decide

/-- The cursor of no fields is not read back. -/
theorem noFields_lost :
    CursorValues [] ∧ decode ([] : List CursorFieldKind) some (encode []) =
      none := by
  refine ⟨⟨fun value h => absurd h List.not_mem_nil,
    fun value h => absurd h List.not_mem_nil⟩, by decide⟩

end Shozee.Validation
