import Shozee.Companies.Prefix
import Shozee.Documents.Numbers
import Shozee.Orders.Numbers
import Shozee.Search.Query

/-!
# Numbers as they are typed

The numbers of orders and documents are of digits, dashes, and the capitals of
two alphabets (`IsNumber`). So what somebody types for one, in small letters or
capitals, with a number sign in front and spaces around, has one normal form,
and that is the number (`canonicalizeOrderNumberToken_typed`,
`canonicalizeDocumentNumberQuery_typed`).

What is relied on of the language is what Unicode says of these characters
(`PlainLetters`).
-/

namespace Shozee.References

open Shozee.Run
open Shozee.Validation
open Shozee.Search

/-! ## Units

The units of numbers, and what a language may not do to them. -/

/-- A unit of a number. -/
def isNumberUnit (unit : CodeUnit) : Bool :=
  isDigitUnit unit || unit = dash || (65 ≤ unit && unit ≤ 90) ||
    (0x410 ≤ unit && unit ≤ 0x42F)

/-- A unit of a number as it may be typed. -/
def isTypedUnit (unit : CodeUnit) : Bool := isNumberUnit (upperUnit unit)

/-- A text of white space. -/
def AllSpaces (text : CodeUnits) : Prop :=
  ∀ unit ∈ text, isSpaceUnit unit = true

/-- A text of what numbers are typed with. -/
def AllTyped (text : CodeUnits) : Prop :=
  ∀ unit ∈ text, isTypedUnit unit = true

/-- What is relied on of the language: none of these letters is decomposed or
composed with what is beside it, and each has one capital. -/
structure PlainLetters (L : SearchLanguage) : Prop where
  nfc : ∀ {before text after : CodeUnits}, AllSpaces before → AllTyped text →
    AllSpaces after → ∃ before' after', AllSpaces before' ∧ AllSpaces after' ∧
      L.nfc (before ++ text ++ after) = before' ++ text ++ after'
  upper : ∀ {text : CodeUnits}, AllTyped text →
    L.toLocaleUpperCase text = text.map upperUnit

theorem isNumberUnit_ranges {unit : CodeUnit} (h : isNumberUnit unit = true) :
    (48 ≤ unit.toNat ∧ unit.toNat ≤ 57) ∨ unit.toNat = 45 ∨
      (65 ≤ unit.toNat ∧ unit.toNat ≤ 90) ∨
      (0x410 ≤ unit.toNat ∧ unit.toNat ≤ 0x42F) := by
  unfold isNumberUnit isDigitUnit at h
  simp only [Bool.or_eq_true, Bool.and_eq_true, decide_eq_true_eq,
    UInt16.le_iff_toNat_le, UInt16.reduceToNat] at h
  rcases h with ((h | rfl) | h) | h
  · exact .inl h
  · exact .inr (.inl rfl)
  · exact .inr (.inr (.inl h))
  · exact .inr (.inr (.inr h))

theorem space_table : ∀ n ∈ List.range' 9 5 ++ List.range' 8192 11 ++
    [32, 160, 5760, 8232, 8233, 8239, 8287, 12288, 65279],
      isTypedUnit n.toUInt16 = false := by
  decide

theorem isSpaceUnit_of_isTypedUnit {unit : CodeUnit}
    (h : isTypedUnit unit = true) : isSpaceUnit unit = false := by
  by_contra hspace
  rw [Bool.not_eq_false] at hspace
  have htable := space_table _ (mem_of_isSpaceUnit hspace)
  rw [Nat.toUInt16_eq, UInt16.ofNat_toNat, h] at htable
  cases htable

theorem ne_numberSign_of_isTypedUnit {unit : CodeUnit}
    (h : isTypedUnit unit = true) : unit ≠ numberSign := by
  rintro rfl
  exact absurd h (by decide)

theorem upperUnit_of_isNumberUnit {unit : CodeUnit}
    (h : isNumberUnit unit = true) : upperUnit unit = unit := by
  have hranges := isNumberUnit_ranges h
  rw [upperUnit, if_neg, if_neg]
  · simp only [UInt16.le_iff_toNat_le, UInt16.reduceToNat]
    omega
  · simp only [UInt16.le_iff_toNat_le, UInt16.reduceToNat]
    omega

theorem ne_numberSign_of_isSpaceUnit {unit : CodeUnit}
    (h : isSpaceUnit unit = true) : unit ≠ numberSign := by
  rintro rfl
  exact absurd h (by decide)

/-! ## What is typed for a number

A number in any letter case, with signs and spaces around it. -/

/-- A text of the units of numbers. -/
def IsNumber (text : CodeUnits) : Prop :=
  ∀ unit ∈ text, isNumberUnit unit = true

theorem IsNumber.typed {text : CodeUnits} (h : IsNumber text) :
    AllTyped text := by
  intro unit hunit
  rw [isTypedUnit, upperUnit_of_isNumberUnit (h unit hunit)]
  exact h unit hunit

theorem IsNumber.upper {text : CodeUnits} (h : IsNumber text) :
    text.map upperUnit = text := by
  conv_rhs => rw [← List.map_id text]
  exact List.map_congr_left fun unit hunit =>
    upperUnit_of_isNumberUnit (h unit hunit)

/-- The number in letters of any case, behind a number sign or not, with spaces
around. -/
inductive TypedFor (number : CodeUnits) : CodeUnits → Prop
  | bare {before text after : CodeUnits} (hbefore : AllSpaces before)
      (htext : text.map upperUnit = number) (hafter : AllSpaces after) :
      TypedFor number (before ++ text ++ after)
  | signed {before between text after : CodeUnits}
      (hbefore : AllSpaces before) (hbetween : AllSpaces between)
      (htext : text.map upperUnit = number) (hafter : AllSpaces after) :
      TypedFor number (before ++ numberSign :: between ++ text ++ after)

theorem allTyped_of_map {text number : CodeUnits} (hnumber : IsNumber number)
    (h : text.map upperUnit = number) : AllTyped text := by
  intro unit hunit
  refine hnumber (upperUnit unit) ?_
  rw [← h]
  exact List.mem_map_of_mem hunit

theorem withoutNumberSigns_spaces {text : CodeUnits} (h : AllSpaces text) :
    withoutNumberSigns text = text :=
  List.filter_eq_self.mpr fun unit hunit =>
    decide_eq_true (ne_numberSign_of_isSpaceUnit (h unit hunit))

theorem withoutNumberSigns_typed {text : CodeUnits} (h : AllTyped text) :
    withoutNumberSigns text = text :=
  List.filter_eq_self.mpr fun unit hunit =>
    decide_eq_true (ne_numberSign_of_isTypedUnit (h unit hunit))

/-- Without number signs there is the number between spaces. -/
theorem TypedFor.framed {number raw : CodeUnits} (h : TypedFor number raw)
    (hnumber : IsNumber number) :
    ∃ before text after, AllSpaces before ∧ AllSpaces after ∧
      AllTyped text ∧ text.map upperUnit = number ∧
      withoutNumberSigns raw = before ++ text ++ after := by
  cases h with
  | @bare before text after hbefore htext hafter =>
      have htyped := allTyped_of_map hnumber htext
      refine ⟨before, text, after, hbefore, hafter, htyped, htext, ?_⟩
      have hsplit : withoutNumberSigns (before ++ text ++ after) =
          withoutNumberSigns before ++ withoutNumberSigns text ++
            withoutNumberSigns after := by
        simp only [withoutNumberSigns, List.filter_append]
      rw [hsplit, withoutNumberSigns_spaces hbefore,
        withoutNumberSigns_typed htyped, withoutNumberSigns_spaces hafter]
  | @signed before between text after hbefore hbetween htext hafter =>
      have htyped := allTyped_of_map hnumber htext
      refine ⟨before ++ between, text, after, ?_, hafter, htyped, htext, ?_⟩
      · intro unit hunit
        rcases List.mem_append.mp hunit with hunit | hunit
        · exact hbefore unit hunit
        · exact hbetween unit hunit
      have hsplit : withoutNumberSigns
          (before ++ numberSign :: between ++ text ++ after) =
          withoutNumberSigns before ++ withoutNumberSigns between ++
            withoutNumberSigns text ++ withoutNumberSigns after := by
        simp [withoutNumberSigns, List.filter_append]
      rw [hsplit, withoutNumberSigns_spaces hbefore,
        withoutNumberSigns_spaces hbetween, withoutNumberSigns_typed htyped,
        withoutNumberSigns_spaces hafter]

/-! ## The parts of a number

The prefix and the digits are of these units, and so is every number that the
services write. -/

/-- What stands between the dashes of a number. -/
structure IsPart (text : CodeUnits) : Prop where
  nonempty : text ≠ []
  number : IsNumber text
  dashless : dash ∉ text

theorem IsNumber.append {text more : CodeUnits} (h : IsNumber text)
    (hmore : IsNumber more) : IsNumber (text ++ dash :: more) := by
  intro unit hunit
  rcases List.mem_append.mp hunit with hunit | hunit
  · exact h unit hunit
  · rcases List.mem_cons.mp hunit with rfl | hunit
    · decide
    · exact hmore unit hunit

theorem prefixChar_table : ∀ n < 128,
    Companies.isPrefixChar (Char.ofNat n) = true →
      isNumberUnit n.toUInt16 = true ∧ n.toUInt16 ≠ dash := by
  decide

theorem isNumberUnit_of_isPrefixChar {c : Char}
    (h : Companies.isPrefixChar c = true) :
    isNumberUnit c.toNat.toUInt16 = true ∧ c.toNat.toUInt16 ≠ dash := by
  have hlt : c.toNat < 128 := by
    unfold Companies.isPrefixChar at h
    simp only [Bool.or_eq_true, Bool.and_eq_true, decide_eq_true_eq,
      Char.le_def, UInt32.le_iff_toNat_le] at h
    have hval : c.toNat = c.val.toNat := rfl
    rcases h with h | h
    · have : c.val.toNat ≤ 90 := h.2
      omega
    · have : c.val.toNat ≤ 57 := h.2
      omega
  have htable := prefixChar_table _ hlt
  rw [Char.ofNat_toNat] at htable
  exact htable h

theorem isPart_codeUnits {text : String} (h : Companies.IsPrefix text) :
    IsPart (codeUnits text) where
  nonempty hnil := h.nonempty (List.map_eq_nil_iff.mp hnil)
  number unit hunit := by
    obtain ⟨c, hc, rfl⟩ := List.mem_map.mp hunit
    exact (isNumberUnit_of_isPrefixChar (h.chars c hc)).1
  dashless hdash := by
    obtain ⟨c, hc, heq⟩ := List.mem_map.mp hdash
    exact (isNumberUnit_of_isPrefixChar (h.chars c hc)).2 heq

theorem isPrefixChar_base36Digit : ∀ digit < 36,
    Companies.isPrefixChar (Orders.base36Digit digit) = true := by
  decide

theorem isPrefix_base36 (n : ℕ) :
    Companies.IsPrefix (String.ofList (Orders.base36 n)) where
  nonempty := by
    rw [String.toList_ofList, Orders.base36]
    split
    next => exact List.cons_ne_nil _ _
    next hne =>
      rw [Ne, List.reverse_eq_nil_iff, List.map_eq_nil_iff,
        Nat.digits_eq_nil_iff_eq_zero]
      exact hne
  chars c hc := by
    rw [String.toList_ofList, Orders.base36] at hc
    split at hc
    next =>
      rw [List.mem_singleton.mp hc]
      decide
    next =>
      obtain ⟨digit, hdigit, rfl⟩ :=
        List.mem_map.mp (List.mem_reverse.mp hc)
      exact isPrefixChar_base36Digit digit
        (Nat.digits_lt_base (by omega) hdigit)

/-- Digits with zeros in front of them. -/
theorem isPrefix_padStart (n width : ℕ) :
    Companies.IsPrefix (Documents.padStart (toString n) width '0') := by
  have hlist : (Documents.padStart (toString n) width '0').toList =
      List.replicate (width - (toString n).length) '0' ++
        Nat.toDigits 10 n := by
    rw [Documents.padStart, String.toList_append, String.toList_ofList,
      Companies.toString_toList]
  constructor
  · rw [hlist]
    exact List.append_ne_nil_of_right_ne_nil _ (Nat.toDigits_ne_nil)
  · intro c hc
    rw [hlist, List.mem_append] at hc
    rcases hc with hc | hc
    · rw [List.eq_of_mem_replicate hc]
      decide
    · exact Companies.isPrefixChar_of_isDigit
        (Nat.isDigit_of_mem_toDigits (by decide) (by decide) hc)

theorem isPart_documentTypeCode (type : Documents.DocumentType) :
    IsPart (codeUnits (Documents.documentTypeCode type)) := by
  cases type with
  | payment_invoice =>
      exact ⟨by decide, List.all_eq_true.mp (by decide), by decide⟩
  | delivery_note =>
      exact ⟨by decide, List.all_eq_true.mp (by decide), by decide⟩

theorem codeUnits_append (a b : String) :
    codeUnits (a ++ b) = codeUnits a ++ codeUnits b := by
  rw [codeUnits, String.toList_append, List.map_append]
  rfl

/-- The number of an order is of two parts. -/
theorem parts_of_formatStaffOrderNumber {numbering number : String} {seq : ℤ}
    (h : Orders.formatStaffOrderNumber numbering seq = .ok number) :
    ∃ code, IsPart code ∧
      codeUnits number = codeUnits numbering ++ dash :: code := by
  have hseq : 0 < seq := by
    by_contra hneg
    rw [Orders.formatStaffOrderNumber, Orders.obfuscateSeq,
      if_pos (by omega)] at h
    cases h
  rw [Orders.formatStaffOrderNumber_eq numbering hseq] at h
  cases h
  refine ⟨_, isPart_codeUnits (isPrefix_base36 (Orders.obfuscated seq)), ?_⟩
  simp [codeUnits, dash]

/-- The digits of a sequence number in a document's number. -/
def sequenceText (sequence : ℕ) : CodeUnits :=
  codeUnits (Documents.padStart (toString sequence) 6 '0')

/-- The number of a document is of three parts. -/
theorem parts_of_formatDocumentNumber (numbering : String)
    (type : Documents.DocumentType) (sequence : ℕ) :
    codeUnits (Documents.formatDocumentNumber numbering type sequence) =
      codeUnits numbering ++ dash ::
        (codeUnits (Documents.documentTypeCode type) ++ dash ::
          sequenceText sequence) := by
  have hdash : codeUnits "-" = [dash] := by decide
  rw [Documents.formatDocumentNumber, codeUnits_append, codeUnits_append,
    codeUnits_append, codeUnits_append, hdash, sequenceText]
  simp only [List.append_assoc, List.cons_append, List.nil_append]

theorem isPart_sequenceText (sequence : ℕ) : IsPart (sequenceText sequence) :=
  isPart_codeUnits (isPrefix_padStart sequence 6)

/-! ## Normal forms

What is typed has one normal form, and it is the number. -/

section Language

variable {L : SearchLanguage} (hL : PlainLetters L)

include hL

theorem foldIdentifier_framed {before text after : CodeUnits}
    (hne : text ≠ []) (hbefore : AllSpaces before) (htext : AllTyped text)
    (hafter : AllSpaces after) :
    foldIdentifier L (before ++ text ++ after) = text.map upperUnit := by
  obtain ⟨before', after', hbefore', hafter', hnfc⟩ :=
    hL.nfc hbefore htext hafter
  rw [foldIdentifier, hnfc, trim,
    dropWhile_framed hne (fun unit hunit =>
      isSpaceUnit_of_isTypedUnit (htext unit hunit)) hbefore' hafter',
    hL.upper htext]

theorem foldIdentifier_number {text : CodeUnits} (hne : text ≠ [])
    (h : IsNumber text) : foldIdentifier L text = text := by
  have hnone : AllSpaces [] := fun _ hunit => absurd hunit List.not_mem_nil
  have hframed := foldIdentifier_framed hL hne hnone h.typed hnone
  rwa [List.nil_append, List.append_nil, h.upper] at hframed

theorem canonicalizeOrderNumberToken_typed {numbering code raw : CodeUnits}
    (hnumbering : IsPart numbering) (hcode : IsPart code)
    (htyped : TypedFor (numbering ++ dash :: code) raw) :
    canonicalizeOrderNumberToken L raw numbering =
      some (numbering ++ dash :: code) := by
  have hnumber := hnumbering.number.append hcode.number
  obtain ⟨before, text, after, hbefore, hafter, htext, hupper, hraw⟩ :=
    htyped.framed hnumber
  have hdash : dash ∈ numbering ++ dash :: code :=
    List.mem_append_right _ List.mem_cons_self
  have hne : text ≠ [] := by
    rintro rfl
    rw [← hupper] at hdash
    exact absurd hdash List.not_mem_nil
  have hstripped : foldIdentifier L (withoutNumberSigns raw) =
      numbering ++ dash :: code := by
    rw [hraw, foldIdentifier_framed hL hne hbefore htext hafter, hupper]
  have hother : numbering ++ dash :: code ≠ numbering := by
    intro heq
    rw [heq] at hdash
    exact hnumbering.dashless hdash
  have hcanonical : isCanonicalOrderNumberToken L raw = true := by
    rw [isCanonicalOrderNumberToken, hstripped]
    exact List.contains_iff_mem.mpr hdash
  unfold canonicalizeOrderNumberToken
  rw [hstripped, foldIdentifier_number hL hnumbering.nonempty
    hnumbering.number]
  dsimp only
  rw [if_neg (List.append_ne_nil_of_left_ne_nil hnumbering.nonempty _),
    if_neg hother, if_pos hcanonical]

theorem canonicalizeDocumentNumberQuery_typed
    {numbering code digits raw : CodeUnits} (hnumbering : IsPart numbering)
    (hcode : IsPart code) (hdigits : IsPart digits)
    (htyped : TypedFor (numbering ++ dash :: (code ++ dash :: digits)) raw) :
    canonicalizeDocumentNumberQuery L raw numbering =
      .canonical (numbering ++ dash :: (code ++ dash :: digits)) := by
  have hnumber := hnumbering.number.append
    (hcode.number.append hdigits.number)
  obtain ⟨before, text, after, hbefore, hafter, htext, hupper, hraw⟩ :=
    htyped.framed hnumber
  have hdash : dash ∈ numbering ++ dash :: (code ++ dash :: digits) :=
    List.mem_append_right _ List.mem_cons_self
  have hne : text ≠ [] := by
    rintro rfl
    rw [← hupper] at hdash
    exact absurd hdash List.not_mem_nil
  have hspaces : ∀ {spaces : CodeUnits}, AllSpaces spaces →
      spaces.filter (fun unit => !isSpaceUnit unit) = [] := by
    intro spaces h
    refine List.filter_eq_nil_iff.mpr fun unit hunit => ?_
    rw [h unit hunit]
    exact Bool.false_ne_true
  have htext_kept : text.filter (fun unit => !isSpaceUnit unit) = text :=
    List.filter_eq_self.mpr fun unit hunit => by
      rw [isSpaceUnit_of_isTypedUnit (htext unit hunit)]
      rfl
  have hnone : AllSpaces [] := fun _ hunit => absurd hunit List.not_mem_nil
  have hframed := foldIdentifier_framed hL hne hnone htext hnone
  rw [List.nil_append, List.append_nil] at hframed
  have hstripped : foldIdentifier L
      ((withoutNumberSigns raw).filter fun unit => !isSpaceUnit unit) =
      numbering ++ dash :: (code ++ dash :: digits) := by
    rw [hraw, List.filter_append, List.filter_append, hspaces hbefore,
      hspaces hafter, htext_kept, List.nil_append, List.append_nil, hframed,
      hupper]
  have hother : numbering ++ dash :: (code ++ dash :: digits) ≠ numbering := by
    intro heq
    rw [heq] at hdash
    exact hnumbering.dashless hdash
  have hsplit : (numbering ++ dash :: (code ++ dash :: digits)).splitOn dash =
      [numbering, code, digits] := by
    have hjoin : [dash].intercalate [numbering, code, digits] =
        numbering ++ dash :: (code ++ dash :: digits) := by
      simp [List.intercalate_cons_cons]
    rw [← hjoin]
    refine List.splitOn_intercalate dash ?_ (List.cons_ne_nil _ _)
    intro part hpart
    rcases List.mem_cons.mp hpart with rfl | hpart
    · exact hnumbering.dashless
    rcases List.mem_cons.mp hpart with rfl | hpart
    · exact hcode.dashless
    rw [List.mem_singleton.mp hpart]
    exact hdigits.dashless
  unfold canonicalizeDocumentNumberQuery
  rw [hstripped, foldIdentifier_number hL hnumbering.nonempty
    hnumbering.number]
  dsimp only
  rw [if_neg (List.append_ne_nil_of_left_ne_nil hnumbering.nonempty _),
    if_neg hother, if_neg, hsplit]
  rw [List.contains_iff_mem.mpr hdash]
  exact nofun

end Language

end Shozee.References
