import Shozee.DocGeneration.Readings

/-!
# The sum in words is the sum in digits

An amount of kopiykas on the wire is its decimal digits; the last two are the
kopiykas whatever the length (`leftpad_toDigits`). `uahAmountInWords` says the
amount, and both it and `formatMoneyUah` read back as it.
-/

namespace Shozee.DocGeneration

open Shozee.Orders (formatMoneyMinor formatMinorUnits groupThousands
  groupReversed)

/-! ## Digits

Of the decimal digits the last two are the kopiykas, and the others the
hryvnias. -/

/-- The wire form of an amount of kopiykas. -/
def minorOf (amount : ℕ) : Text := Nat.toDigits 10 amount

theorem leftpad_toDigits (amount : ℕ) :
    (Nat.toDigits 10 amount).leftpad 3 '0' =
      Nat.toDigits 10 (amount / 100) ++
        [(amount / 10 % 10).digitChar, (amount % 10).digitChar] := by
  by_cases hten : amount < 10
  · rw [Nat.toDigits_of_lt_base hten, Nat.div_eq_of_lt (by omega : amount < 100),
      Nat.div_eq_of_lt hten, Nat.mod_eq_of_lt hten]
    rfl
  · rw [Nat.toDigits_of_base_le (by omega) (by omega : 10 ≤ amount)]
    by_cases hhundred : amount < 100
    · rw [Nat.toDigits_of_lt_base (by omega : amount / 10 < 10),
        Nat.div_eq_of_lt hhundred,
        Nat.mod_eq_of_lt (by omega : amount / 10 < 10)]
      rfl
    · rw [Nat.toDigits_of_base_le (by omega) (by omega : 10 ≤ amount / 10),
        show amount / 10 / 10 = amount / 100 by omega, List.append_assoc]
      have hlength := Nat.length_toDigits_pos (b := 10) (n := amount / 100)
      rw [List.leftpad, List.length_append, Nat.sub_eq_zero_of_le]
      · rfl
      · simp only [List.cons_append, List.nil_append, List.length_cons,
          List.length_nil]
        omega

theorem take_padded (amount : ℕ) :
    ((Nat.toDigits 10 amount).leftpad 3 '0').take
      (((Nat.toDigits 10 amount).leftpad 3 '0').length - 2) =
        Nat.toDigits 10 (amount / 100) := by
  rw [leftpad_toDigits, List.length_append]
  exact List.take_left

theorem drop_padded (amount : ℕ) :
    ((Nat.toDigits 10 amount).leftpad 3 '0').drop
      (((Nat.toDigits 10 amount).leftpad 3 '0').length - 2) =
        [(amount / 10 % 10).digitChar, (amount % 10).digitChar] := by
  rw [leftpad_toDigits, List.length_append]
  exact List.drop_left

theorem twoDigitKopiyky_eq : ∀ k < 100,
    twoDigitKopiyky k = [(k / 10).digitChar, (k % 10).digitChar] := by
  decide

theorem numberOf_two : ∀ k < 100,
    numberOf [(k / 10).digitChar, (k % 10).digitChar] = k := by
  decide

theorem numberOf_dropWhile (digits : Text) :
    numberOf (digits.dropWhile (· = '0')) = numberOf digits := by
  induction digits with
  | nil => rfl
  | cons c digits ih =>
      by_cases hc : c = '0'
      · subst hc
        rw [List.dropWhile_cons, if_pos (decide_eq_true rfl), ih, numberOf,
          numberOf, Nat.ofDigitChars_cons]
        rfl
      · rw [List.dropWhile_cons, if_neg (by simpa using hc)]

/-- The digits left of the whole hryvnias read as them. -/
theorem significant_digits {n : ℕ} (hlt : n < 1000000000000)
    {significant : Text}
    (h : significant = (Nat.toDigits 10 n).dropWhile (· = '0')) :
    (if significant = [] then ['0'] else significant).length ≤
        MAX_HRN_DIGITS ∧
      numberOf (if significant = [] then ['0'] else significant) = n := by
  have hlength : (Nat.toDigits 10 n).length ≤ 12 :=
    (Nat.length_toDigits_le_iff (by omega) (by omega)).mpr (by omega)
  have hnumber := numberOf_dropWhile (Nat.toDigits 10 n)
  rw [← h, numberOf, numberOf, Nat.ofDigitChars_ten_toDigits] at hnumber
  by_cases hnil : significant = []
  · rw [if_pos hnil]
    rw [hnil, Nat.ofDigitChars_nil] at hnumber
    exact ⟨by decide, hnumber⟩
  · rw [if_neg hnil]
    refine ⟨le_trans ?_ hlength, hnumber⟩
    rw [h]
    exact (List.dropWhile_suffix _).length_le

/-! ## In words

The words of `uahAmountInWords` are those of the amount. -/

/-- The amount is said. -/
theorem uahAmountInWords_said {amount : ℕ} (hlt : amount < 100000000000000) :
    ∃ text, uahAmountInWords (minorOf amount) = .ok text ∧
      AmountSaid amount text := by
  have hdigits : (minorOf amount).all Char.isDigit = true :=
    List.all_eq_true.mpr fun c hc =>
      Nat.isDigit_of_mem_toDigits (by omega) (by omega) hc
  have hlegal : ¬ ((minorOf amount).length = 0 ∨
      (minorOf amount).all Char.isDigit = false) := by
    rw [hdigits]
    rintro (h | h)
    · exact Nat.toDigits_ne_nil (List.length_eq_zero_iff.mp h)
    · cases h
  obtain ⟨words, hcardinal, -, hwords⟩ :=
    integerToUkWords_eq (by omega : amount / 100 < 1000000000000)
  refine ⟨_, ?_, .said hcardinal⟩
  have hsignificant := significant_digits
    (by omega : amount / 100 < 1000000000000) rfl
  have hkopiyky := numberOf_two (amount % 100) (by omega)
  have hpadded := twoDigitKopiyky_eq (amount % 100) (by omega)
  rw [show amount % 100 / 10 = amount / 10 % 10 by omega,
    show amount % 100 % 10 = amount % 10 by omega] at hkopiyky hpadded
  rw [uahAmountInWords, if_neg hlegal, minorOf]
  dsimp only
  rw [take_padded, drop_padded]
  rw [if_neg (Nat.not_lt.mpr hsignificant.1), hsignificant.2, hkopiyky,
    hpadded, hwords, show HRYVNIA_FORMS = hryvnia.table from rfl,
    show KOPIYKA_FORMS = kopiyka.table from rfl, formOf_table, formOf_table]

/-! ## In digits

Blanks between the groups do not change what the digits read as. -/

/-- An amount in the currency. -/
def formatMoneyUah (minor : ℤ) : String := formatMoneyMinor minor "UAH"

/-- Groups of digits with blanks between, a comma, two digits and the
currency. -/
def readMoney (text : Text) : Option ℕ :=
  match (text.filter (· ≠ ' ')).splitOn ',' with
  | [whole, rest] =>
      let frac := rest.take 2
      if whole.all Char.isDigit = true ∧ frac.all Char.isDigit = true ∧
          frac.length = 2 ∧ rest.drop 2 = "грн".toList then
        some (numberOf (whole ++ frac))
      else none
  | _ => none

example : (formatMoneyUah 123456).toList = "1 234,56 грн".toList := by
  decide

theorem filter_groupReversed (digits : Text) :
    (groupReversed digits).filter (· ≠ ' ') = digits.filter (· ≠ ' ') := by
  fun_induction groupReversed digits with
  | case1 a b c d rest ih =>
      have hblank : (' ' :: groupReversed (d :: rest)).filter (· ≠ ' ') =
          (groupReversed (d :: rest)).filter (· ≠ ' ') :=
        List.filter_cons_of_neg (by decide)
      change ([a, b, c] ++ ' ' :: groupReversed (d :: rest)).filter _ = _
      rw [List.filter_append, hblank, ih, ← List.filter_append]
      rfl
  | case2 => rfl

theorem filter_groupThousands (digits : Text) :
    (groupThousands digits).filter (· ≠ ' ') = digits.filter (· ≠ ' ') := by
  rw [groupThousands, List.filter_reverse, filter_groupReversed,
    ← List.filter_reverse, List.reverse_reverse]

theorem formatMoneyUah_toList (amount : ℕ) :
    (formatMoneyUah amount).toList =
      groupThousands (Nat.toDigits 10 (amount / 100)) ++
        ',' :: [(amount / 10 % 10).digitChar, (amount % 10).digitChar] ++
          " грн".toList := by
  have hsign : ¬ (amount : ℤ) < 0 := by omega
  rw [formatMoneyUah, formatMoneyMinor, formatMinorUnits, Int.natAbs_natCast,
    take_padded, drop_padded, if_neg hsign]
  simp only [String.toList_append, String.toList_ofList, List.append_assoc]
  rfl

theorem isDigit_digitChar : ∀ d < 10, d.digitChar.isDigit = true := by
  decide

theorem ne_of_isDigit {c d : Char} (hc : c.isDigit = true)
    (hd : d.isDigit = false) : c ≠ d := by
  rintro rfl
  rw [hc] at hd
  cases hd

theorem filter_digits {digits : Text} (h : ∀ c ∈ digits, c.isDigit = true) :
    digits.filter (· ≠ ' ') = digits :=
  List.filter_eq_self.mpr fun c hc =>
    decide_eq_true (ne_of_isDigit (h c hc) rfl)

/-- The sum in digits reads as the amount. -/
theorem readMoney_formatMoneyUah (amount : ℕ) :
    readMoney (formatMoneyUah amount).toList = some amount := by
  have hwhole : ∀ c ∈ Nat.toDigits 10 (amount / 100), c.isDigit = true :=
    fun c hc => Nat.isDigit_of_mem_toDigits (by omega) (by omega) hc
  have hfrac : ∀ c ∈ [(amount / 10 % 10).digitChar, (amount % 10).digitChar],
      c.isDigit = true := by
    simp only [List.forall_mem_cons]
    exact ⟨isDigit_digitChar _ (by omega), isDigit_digitChar _ (by omega),
      fun _ h => absurd h List.not_mem_nil⟩
  have hnumber := congrArg numberOf (leftpad_toDigits amount)
  have hlength : [(amount / 10 % 10).digitChar,
      (amount % 10).digitChar].length = 2 := rfl
  rw [formatMoneyUah_toList]
  generalize Nat.toDigits 10 (amount / 100) = whole at hwhole hnumber ⊢
  generalize [(amount / 10 % 10).digitChar, (amount % 10).digitChar] =
    frac at hfrac hnumber hlength ⊢
  have hfilter : (groupThousands whole ++ ',' :: frac ++ " грн".toList).filter
      (· ≠ ' ') = [','].intercalate [whole, frac ++ "грн".toList] := by
    rw [List.filter_append, List.filter_append, filter_groupThousands,
      filter_digits hwhole, List.filter_cons_of_pos (by decide),
      filter_digits hfrac, List.intercalate_cons_cons,
      List.intercalate_singleton, List.append_assoc, List.append_assoc]
    rfl
  have hsplit : ([','].intercalate [whole, frac ++ "грн".toList]).splitOn ',' =
      [whole, frac ++ "грн".toList] := by
    apply List.splitOn_intercalate ','
    · intro part hpart hcomma
      simp only [List.mem_cons, List.not_mem_nil, or_false] at hpart
      rcases hpart with rfl | rfl
      · exact ne_of_isDigit (hwhole _ hcomma) rfl rfl
      · rcases List.mem_append.mp hcomma with hcomma | hcomma
        · exact ne_of_isDigit (hfrac _ hcomma) rfl rfl
        · exact absurd hcomma (by decide)
    · exact List.cons_ne_nil _ _
  rw [readMoney, hfilter, hsplit]
  dsimp only
  rw [← hlength, List.take_left, List.drop_left, if_pos, ← hnumber]
  · rw [numberOf, List.leftpad, Nat.ofDigitChars_append,
      Nat.ofDigitChars_replicate_zero, Nat.mul_zero,
      Nat.ofDigitChars_ten_toDigits]
  · exact ⟨List.all_eq_true.mpr hwhole, List.all_eq_true.mpr hfrac, rfl, rfl⟩

/-! ## One sum

The two texts of one amount. -/

/-- The words are the one way to say the amount, and tell it: so do the
digits. -/
theorem invoiceSum {amount : ℕ}
    (hdigits : (minorOf (amount / 100)).length ≤ MAX_HRN_DIGITS) :
    ∃ text, uahAmountInWords (minorOf amount) = .ok text ∧
      (∀ other, AmountSaid amount other ↔ other = text) ∧
      readAmount text = some amount ∧
      (∀ other, (minorOf (other / 100)).length ≤ MAX_HRN_DIGITS →
        uahAmountInWords (minorOf other) = .ok text → other = amount) ∧
      readMoney (formatMoneyUah amount).toList = some amount := by
  have hlimit : ∀ n, (minorOf (n / 100)).length ≤ MAX_HRN_DIGITS →
      n < 100000000000000 := by
    intro n hn
    have hlt := (Nat.length_toDigits_le_iff (by omega) (by decide)).mp hn
    rw [show (10 : ℕ) ^ MAX_HRN_DIGITS = 1000000000000 from rfl] at hlt
    omega
  obtain ⟨text, hok, hsaid⟩ := uahAmountInWords_said (hlimit amount hdigits)
  refine ⟨text, hok, fun other => ⟨hsaid.unique, fun h => h ▸ hsaid⟩,
    hsaid.readAmount_eq, ?_, readMoney_formatMoneyUah amount⟩
  intro other hother hsame
  obtain ⟨text', hok', hsaid'⟩ := uahAmountInWords_said (hlimit other hother)
  rw [hok'] at hsame
  cases hsame
  have hread := hsaid.readAmount_eq
  rw [hsaid'.readAmount_eq] at hread
  exact Option.some.inj hread

theorem invoiceSum_rare : ∃ text,
    uahAmountInWords (minorOf 1200001100000) = .ok text ∧
      readAmount text = some 1200001100000 := by
  obtain ⟨text, hok, _, hread, _⟩ := @invoiceSum 1200001100000
    (by decide)
  exact ⟨text, hok, hread⟩

end Shozee.DocGeneration
