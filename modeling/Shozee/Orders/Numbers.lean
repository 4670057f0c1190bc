import Mathlib.Data.Int.ModEq
import Mathlib.Data.Nat.Digits.Defs
import Shozee.Orders.Create

/-!
# Order numbers can be told apart

An order number is the company's prefix, a dash and the sequence number, which
is multiplied, shifted and reduced modulo a prime and then written in base 36.
Digits are no dashes, so the last dash tells where the prefix ends; the digits
tell the residue; and the multiplier is invertible modulo the prime, so the
residue tells the sequence number up to the modulus.
-/

namespace Shozee.Orders

/-! ## Formatting

The multiplier, the shift and the modulus of `obfuscateSeq`, and the digits of
`toBase36`. -/

/-- A number that the functions do not take. -/
structure RangeError where
  message : String
deriving DecidableEq, Repr

/-- The factor of the permutation. -/
def OBFUSCATE_SEQ_MULTIPLIER : ℤ := 73856093

/-- The offset of the permutation. -/
def OBFUSCATE_SEQ_OFFSET : ℤ := 12345

/-- The prime that numbers are taken by. -/
def OBFUSCATE_SEQ_MODULUS : ℤ := 1000000007

/-- The digits of base 36. -/
def BASE36_DIGITS : List Char :=
  ['0', '1', '2', '3', '4', '5', '6', '7', '8', '9', 'A', 'B', 'C', 'D', 'E',
    'F', 'G', 'H', 'I', 'J', 'K', 'L', 'M', 'N', 'O', 'P', 'Q', 'R', 'S', 'T',
    'U', 'V', 'W', 'X', 'Y', 'Z']

/-- The loop of `toBase36`. No number goes through more rounds than it has
units, so it is fuel enough for itself. -/
def toBase36Loop : (fuel remaining : ℕ) → (encoded : List Char) →
    Except RangeError (List Char)
  | 0, _, encoded => .ok encoded
  | fuel + 1, remaining, encoded =>
      if 0 < remaining then
        match BASE36_DIGITS[remaining % 36]? with
        | none => .error ⟨"toBase36 remainder left the 0-35 range"⟩
        | some digit => toBase36Loop fuel (remaining / 36) (digit :: encoded)
      else .ok encoded

/-- A number in base 36. -/
def toBase36 (n : ℤ) : Except RangeError (List Char) :=
  if n < 0 then .error ⟨"toBase36 expects a non-negative bigint"⟩
  else if n = 0 then .ok ['0']
  else toBase36Loop n.toNat n.toNat []

/-- The text of a sequence, which does not show its order. -/
def obfuscateSeq (seq : ℤ) : Except RangeError (List Char) :=
  if seq < 1 then .error ⟨"obfuscateSeq expects a positive sequence"⟩
  else
    toBase36 ((seq * OBFUSCATE_SEQ_MULTIPLIER + OBFUSCATE_SEQ_OFFSET) %
      OBFUSCATE_SEQ_MODULUS)

/-- The stored `orders.order_number`. -/
def formatStaffOrderNumber (numberingPrefix : String) (seq : ℤ) :
    Except RangeError String := do
  let code ← obfuscateSeq seq
  return String.ofList (numberingPrefix.toList ++ '-' :: code)

/-! ## Digits

Reading a code back gives the number that it was made of, and no digit is a
dash. -/

/-- A digit of base 36. -/
def base36Digit (digit : ℕ) : Char := BASE36_DIGITS.getD digit '0'

/-- The number that a code is of. -/
def base36Value (code : List Char) : ℕ :=
  Nat.ofDigits 36 (code.reverse.map BASE36_DIGITS.idxOf)

theorem idxOf_base36Digit : ∀ digit < 36,
    BASE36_DIGITS.idxOf (base36Digit digit) = digit := by
  decide

theorem base36Digit_ne_dash : ∀ a < 36, base36Digit a ≠ '-' := by
  decide

theorem base36_getElem? {digit : ℕ} (h : digit < 36) :
    BASE36_DIGITS[digit]? = some (base36Digit digit) := by
  have hlength : digit < BASE36_DIGITS.length := h
  rw [base36Digit, List.getD_eq_getElem?_getD,
    List.getElem?_eq_getElem hlength, Option.getD_some]

/-- The loop writes the digits in front of what is there, the last first. -/
theorem toBase36Loop_eq {fuel remaining : ℕ} (hfuel : remaining ≤ fuel)
    (encoded : List Char) :
    toBase36Loop fuel remaining encoded =
      .ok (((Nat.digits 36 remaining).map base36Digit).reverse ++ encoded) := by
  induction fuel generalizing remaining encoded with
  | zero =>
      rw [Nat.eq_zero_of_le_zero hfuel]
      rfl
  | succ fuel ih =>
      rw [toBase36Loop]
      by_cases hpos : 0 < remaining
      · rw [if_pos hpos, base36_getElem? (Nat.mod_lt _ (by omega))]
        dsimp only
        rw [ih (by omega), Nat.digits_def' (by omega) hpos]
        simp
      · rw [if_neg hpos, Nat.eq_zero_of_not_pos hpos]
        simp

/-- The code of a natural number. -/
def base36 (n : ℕ) : List Char :=
  if n = 0 then ['0'] else ((Nat.digits 36 n).map base36Digit).reverse

theorem toBase36_natCast (n : ℕ) : toBase36 n = .ok (base36 n) := by
  unfold toBase36 base36
  rw [if_neg (by omega)]
  by_cases hzero : n = 0
  · rw [if_pos (by omega), if_pos hzero]
  · rw [if_neg (by omega), if_neg hzero, Int.toNat_natCast,
      toBase36Loop_eq le_rfl, List.append_nil]

theorem dash_notMem_base36 (n : ℕ) : '-' ∉ base36 n := by
  unfold base36
  split
  · decide
  · intro hmem
    obtain ⟨digit, hdigit, hdash⟩ :=
      List.mem_map.mp (List.mem_reverse.mp hmem)
    exact base36Digit_ne_dash digit (Nat.digits_lt_base (by omega) hdigit)
      hdash

theorem base36Value_base36 (n : ℕ) : base36Value (base36 n) = n := by
  unfold base36
  split
  · rename_i hzero
    rw [hzero]
    decide
  · have hdigits : (Nat.digits 36 n).map
        (BASE36_DIGITS.idxOf ∘ base36Digit) = Nat.digits 36 n := by
      rw [List.map_congr_left (g := id), List.map_id]
      intro digit hdigit
      exact idxOf_base36Digit digit (Nat.digits_lt_base (by omega) hdigit)
    rw [base36Value, List.reverse_reverse, List.map_map, hdigits,
      Nat.ofDigits_digits]

theorem base36_injective {n m : ℕ} (h : base36 n = base36 m) : n = m := by
  rw [← base36Value_base36 n, h, base36Value_base36]

/-! ## Sequence numbers

The last dash separates the prefix from the code, and the code tells the
residue. So two numbers are equal just when prefix and residue are. -/

/-- What is written for a sequence number. -/
def obfuscated (seq : ℤ) : ℕ :=
  ((seq * OBFUSCATE_SEQ_MULTIPLIER + OBFUSCATE_SEQ_OFFSET) %
    OBFUSCATE_SEQ_MODULUS).toNat

theorem obfuscated_cast (seq : ℤ) :
    (obfuscated seq : ℤ) =
      (seq * OBFUSCATE_SEQ_MULTIPLIER + OBFUSCATE_SEQ_OFFSET) %
        OBFUSCATE_SEQ_MODULUS :=
  Int.toNat_of_nonneg (Int.emod_nonneg _ (by decide))

theorem formatStaffOrderNumber_eq (numberingPrefix : String) {seq : ℤ}
    (hseq : 0 < seq) :
    formatStaffOrderNumber numberingPrefix seq =
      .ok (String.ofList
        (numberingPrefix.toList ++ '-' :: base36 (obfuscated seq))) := by
  unfold formatStaffOrderNumber obfuscateSeq
  rw [if_neg (by omega), ← obfuscated_cast, toBase36_natCast]
  rfl

/-- The multiplier is invertible. -/
theorem obfuscated_eq_iff {s t : ℤ} :
    obfuscated s = obfuscated t ↔ s ≡ t [ZMOD OBFUSCATE_SEQ_MODULUS] := by
  have hcoprime : Int.gcd OBFUSCATE_SEQ_MODULUS OBFUSCATE_SEQ_MULTIPLIER = 1 :=
    by decide
  rw [← Int.natCast_inj, obfuscated_cast, obfuscated_cast]
  constructor
  · intro h
    have hshift : s * OBFUSCATE_SEQ_MULTIPLIER ≡
        t * OBFUSCATE_SEQ_MULTIPLIER [ZMOD OBFUSCATE_SEQ_MODULUS] :=
      Int.ModEq.add_right_cancel' OBFUSCATE_SEQ_OFFSET h
    have hcancelled := Int.ModEq.cancel_right_div_gcd (by decide) hshift
    rw [hcoprime] at hcancelled
    exact hcancelled
  · intro h
    exact (h.mul_right _).add_right _

/-- Where the last dash stands, whatever stands before it. -/
theorem append_dash_inj {before before' code code' : List Char}
    (hcode : '-' ∉ code) (hcode' : '-' ∉ code')
    (h : before ++ '-' :: code = before' ++ '-' :: code') :
    before = before' ∧ code = code' := by
  rcases List.append_eq_append_iff.mp h with ⟨between, hbefore, hrest⟩ |
    ⟨between, hbefore, hrest⟩
  · cases between with
    | nil => exact ⟨by simpa using hbefore.symm, (List.cons.inj hrest).2⟩
    | cons c between =>
        exact absurd ((List.cons.inj hrest).2 ▸
          List.mem_append_right between List.mem_cons_self) hcode
  · cases between with
    | nil => exact ⟨by simpa using hbefore, (List.cons.inj hrest).2.symm⟩
    | cons c between =>
        exact absurd ((List.cons.inj hrest).2 ▸
          List.mem_append_right between List.mem_cons_self) hcode'

/-- A number tells its prefix, and its sequence number up to the modulus. -/
theorem formatStaffOrderNumber_eq_iff {p q : String} {s t : ℤ} (hs : 0 < s)
    (ht : 0 < t) :
    formatStaffOrderNumber p s = formatStaffOrderNumber q t ↔
      p = q ∧ s ≡ t [ZMOD OBFUSCATE_SEQ_MODULUS] := by
  rw [formatStaffOrderNumber_eq p hs, formatStaffOrderNumber_eq q ht,
    Except.ok.injEq, String.ofList_inj]
  constructor
  · intro h
    obtain ⟨hbefore, hcode⟩ := append_dash_inj
      (dash_notMem_base36 _) (dash_notMem_base36 _) h
    exact ⟨String.toList_inj.mp hbefore,
      obfuscated_eq_iff.mp (base36_injective hcode)⟩
  · intro ⟨hbefore, hseq⟩
    rw [hbefore, obfuscated_eq_iff.mpr hseq]

example : formatStaffOrderNumber "N5" 2 = .ok "N5-2FY8Z7" := by
  decide

end Shozee.Orders
