import Mathlib.Data.List.Nodup
import Shozee.Documents.Protocol

/-!
# Document numbers can be told apart

A number is written in at least six digits, and leading zeros do not change
what it reads as: so two numbers of one type that are written alike are the
same, and numbers of different types differ in their code.
-/

namespace Shozee.Documents

/-- What digits read as, whatever zeros stand before them. -/
theorem ofDigitChars_padStart (n width : ℕ) :
    Nat.ofDigitChars 10 (padStart (toString n) width '0').toList 0 = n := by
  have hdigits : (toString n).toList = Nat.toDigits 10 n := by
    show (Nat.repr n).toList = _
    simp [Nat.repr]
  unfold padStart
  rw [String.toList_append, String.toList_ofList, Nat.ofDigitChars_append,
    Nat.ofDigitChars_replicate_zero, hdigits, Nat.mul_zero,
    Nat.ofDigitChars_ten_toDigits]

theorem padStart_injective {n m width : ℕ}
    (h : padStart (toString n) width '0' = padStart (toString m) width '0') :
    n = m := by
  rw [← ofDigitChars_padStart n width, h, ofDigitChars_padStart]

theorem documentTypeCode_toList (type : DocumentType) :
    (documentTypeCode type).toList =
      match type with
      | .payment_invoice => ['Р', 'Х']
      | .delivery_note => ['В', 'Н'] := by
  cases type
  · rfl
  · rfl

theorem formatDocumentNumber_toList (numberingPrefix : String)
    (type : DocumentType) (n : ℕ) :
    (formatDocumentNumber numberingPrefix type n).toList =
      numberingPrefix.toList ++ ('-' :: (documentTypeCode type).toList ++
        '-' :: (padStart (toString n) 6 '0').toList) := by
  unfold formatDocumentNumber
  simp [String.toList_append]

/-- A formatted number tells the type and the number. -/
theorem formatDocumentNumber_injective {numberingPrefix : String}
    {type type' : DocumentType} {n m : ℕ}
    (h : formatDocumentNumber numberingPrefix type n =
      formatDocumentNumber numberingPrefix type' m) :
    type = type' ∧ n = m := by
  have hlist := congrArg String.toList h
  rw [formatDocumentNumber_toList, formatDocumentNumber_toList,
    List.append_right_inj, documentTypeCode_toList,
    documentTypeCode_toList] at hlist
  have htail : type = type' ∧ (padStart (toString n) 6 '0').toList =
      (padStart (toString m) 6 '0').toList := by
    cases type <;> cases type' <;> simp at hlist ⊢ <;> exact hlist
  exact ⟨htail.1, padStart_injective (String.toList_inj.mp htail.2)⟩

/-- The numbers of a type from `1` to `n`, the last one first. -/
def numbersUpTo (numberingPrefix : String) (type : DocumentType) :
    ℕ → List String
  | 0 => []
  | n + 1 =>
      formatDocumentNumber numberingPrefix type (n + 1) ::
        numbersUpTo numberingPrefix type n

theorem mem_numbersUpTo {numberingPrefix : String} {type : DocumentType}
    {n : ℕ} {number : String} :
    number ∈ numbersUpTo numberingPrefix type n ↔
      ∃ k, 1 ≤ k ∧ k ≤ n ∧
        number = formatDocumentNumber numberingPrefix type k := by
  induction n with
  | zero =>
      constructor
      · intro h; cases h
      · intro ⟨k, hpos, hle, _⟩; omega
  | succ n ih =>
      rw [numbersUpTo, List.mem_cons, ih]
      constructor
      · intro h
        rcases h with rfl | ⟨k, hpos, hle, hk⟩
        · exact ⟨n + 1, by omega, Nat.le_refl _, rfl⟩
        · exact ⟨k, hpos, by omega, hk⟩
      · intro ⟨k, hpos, hle, hk⟩
        by_cases hlast : k = n + 1
        · exact Or.inl (hlast ▸ hk)
        · exact Or.inr ⟨k, hpos, by omega, hk⟩

end Shozee.Documents
