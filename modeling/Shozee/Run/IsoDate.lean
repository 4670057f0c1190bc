import Mathlib.Data.Int.Notation
import Mathlib.Data.List.Basic
import Mathlib.Order.Basic
import Mathlib.Tactic.IntervalCases
import Shozee.Run.Calendar

/-!
# Dates as ISO text

An instant is a number of milliseconds since the start of 1970, and its text
has a field for each part of the date and the time of day, down to the
millisecond. `isoTime` reads text of that form, with the seconds or their
fraction left out or with more digits than there are milliseconds; what it
reads off the text of an instant is the instant: `isoTime_toISOString`.
-/

namespace Shozee.Run

open Calendar

/-! ## Digits

Fields of a fixed number of digits, written and read. -/

/-- The last digit of a number. -/
def digit (n : ℕ) : Char := Nat.digitChar (n % 10)

/-- The value of a digit. -/
def digitValue (c : Char) : Option ℕ :=
  if c.isDigit then some (c.toNat - 48) else none

/-- The number that digits write. -/
def number (text : List Char) : Option ℕ :=
  text.foldlM (fun n c => (digitValue c).map (10 * n + ·)) 0

theorem digitValue_digit (n : ℕ) : digitValue (digit n) = some (n % 10) := by
  have hlt := Nat.mod_lt n (show 0 < 10 by decide)
  unfold digit
  generalize n % 10 = k at *
  interval_cases k <;> decide

theorem isDigit_digit (n : ℕ) : (digit n).isDigit = true := by
  have hvalue := digitValue_digit n
  unfold digitValue at hvalue
  by_cases hdigit : (digit n).isDigit = true
  · exact hdigit
  · rw [if_neg hdigit] at hvalue
    cases hvalue

theorem number_cons (n : ℕ) (c : Char) (text : List Char) :
    (c :: text).foldlM (fun n c => (digitValue c).map (10 * n + ·)) n =
      (digitValue c).bind fun d =>
        text.foldlM (fun n c => (digitValue c).map (10 * n + ·))
          (10 * n + d) := by
  rw [List.foldlM_cons, Option.bind_eq_bind]
  cases digitValue c with
  | none => rfl
  | some d => rfl

/-- The last two digits of a number. -/
def twoDigits (n : ℕ) : List Char := [digit (n / 10), digit n]

/-- The last three digits of a number. -/
def threeDigits (n : ℕ) : List Char :=
  [digit (n / 100), digit (n / 10), digit n]

/-- The last four digits of a number. -/
def fourDigits (n : ℕ) : List Char :=
  [digit (n / 1000), digit (n / 100), digit (n / 10), digit n]

theorem number_twoDigits {n : ℕ} (h : n < 100) :
    number (twoDigits n) = some n := by
  unfold number twoDigits
  rw [number_cons, digitValue_digit, Option.bind_some, number_cons,
    digitValue_digit, Option.bind_some, List.foldlM_nil]
  exact congrArg some (by omega)

theorem number_threeDigits {n : ℕ} (h : n < 1000) :
    number (threeDigits n) = some n := by
  unfold number threeDigits
  rw [number_cons, digitValue_digit, Option.bind_some, number_cons,
    digitValue_digit, Option.bind_some, number_cons, digitValue_digit,
    Option.bind_some, List.foldlM_nil]
  exact congrArg some (by omega)

theorem number_fourDigits {n : ℕ} (h : n < 10000) :
    number (fourDigits n) = some n := by
  unfold number fourDigits
  rw [number_cons, digitValue_digit, Option.bind_some, number_cons,
    digitValue_digit, Option.bind_some, number_cons, digitValue_digit,
    Option.bind_some, number_cons, digitValue_digit, Option.bind_some,
    List.foldlM_nil]
  exact congrArg some (by omega)

/-! ## Instants

The date and the time of day are the quotient and the remainder by the length
of a day. -/

/-- The milliseconds of a day. -/
def msPerDay : ℕ := 86400000

/-- Milliseconds from the start of year 0 to the start of 1970. -/
def epoch : ℕ := 719528 * msPerDay

/-- An instant whose year has four digits. -/
structure Instant where
  time : ℤ
  lower : -62167219200000 ≤ time
  upper : time < 253402300800000
deriving DecidableEq

namespace Instant

theorem ext_time {a b : Instant} (h : a.time = b.time) : a = b := by
  cases a
  cases b
  cases h
  rfl

instance : LinearOrder Instant :=
  LinearOrder.lift' time fun _ _ => ext_time

/-- Milliseconds since the start of year 0. -/
def elapsed (instant : Instant) : ℕ := (instant.time + epoch).toNat

theorem elapsed_eq (instant : Instant) :
    (instant.elapsed : ℤ) = instant.time + epoch := by
  have hlower := instant.lower
  unfold elapsed epoch msPerDay
  omega

/-- The day of an instant. -/
def date (instant : Instant) : Date :=
  Date.ofDays (instant.elapsed / msPerDay)

theorem year_date_lt (instant : Instant) : instant.date.year < 10000 := by
  have hupper := instant.upper
  have helapsed := instant.elapsed_eq
  refine Date.year_ofDays_lt ?_
  rw [show daysBeforeYear 10000 = 3652425 from rfl]
  unfold epoch at helapsed
  unfold msPerDay at *
  omega

/-- The time of a day, to the millisecond. -/
def timeText (ms : ℕ) : List Char :=
  twoDigits (ms / 3600000) ++ ':' :: twoDigits (ms / 60000 % 60) ++
    ':' :: twoDigits (ms / 1000 % 60) ++ '.' :: threeDigits (ms % 1000) ++
    ['Z']

/-- An instant as a text. -/
def isoText (instant : Instant) : List Char :=
  fourDigits instant.date.year ++ '-' :: twoDigits (instant.date.month + 1) ++
    '-' :: twoDigits instant.date.day ++
    'T' :: timeText (instant.elapsed % msPerDay)

/-- `Date.prototype.toISOString`, for the years of four digits. -/
def toISOString (instant : Instant) : String := String.ofList instant.isoText

end Instant

namespace Instant

theorem length_isoText (instant : Instant) : instant.isoText.length = 24 :=
  rfl

/-- A separator is not in the text of an instant. -/
theorem notMem_isoText (instant : Instant) {c : Char}
    (hdigit : c.isDigit = false) (hsign : c ∉ ['-', 'T', ':', '.', 'Z']) :
    c ∉ instant.isoText := by
  have hne : ∀ n, c ≠ digit n := by
    intro n heq
    rw [heq, isDigit_digit] at hdigit
    cases hdigit
  simp only [List.mem_cons, List.not_mem_nil, or_false, not_or] at hsign
  simp [isoText, timeText, twoDigits, threeDigits, fourDigits, hne, hsign]

end Instant

/-! ## Reading

Reading takes the fields at their places. The text of an instant has them
there. -/

/-- The digits of a fraction of a second, and no more of them than count. -/
def milliseconds (digits : List Char) : Option ℕ :=
  if digits ≠ [] ∧ digits.all (·.isDigit) then
    number ((digits ++ ['0', '0']).take 3)
  else none

/-- What follows the minutes. -/
def secondsOf (text : List Char) : Option (ℕ × ℕ) :=
  if text = ['Z'] then some (0, 0)
  else if text[0]? = some ':' ∧ text.getLast? = some 'Z' then
    (number ((text.drop 1).take 2)).bind fun second =>
      let fraction := (text.drop 3).dropLast
      if fraction = [] then some (second, 0)
      else if fraction[0]? = some '.' then
        (milliseconds (fraction.drop 1)).map fun ms => (second, ms)
      else none
  else none

/-- The time that ISO text writes, in milliseconds since 1970. -/
def isoTime (text : List Char) : Option ℤ :=
  if text[4]? = some '-' ∧ text[7]? = some '-' ∧ text[10]? = some 'T' ∧
      text[13]? = some ':' then
    (number (text.take 4)).bind fun year =>
    (number ((text.drop 5).take 2)).bind fun month =>
    (number ((text.drop 8).take 2)).bind fun day =>
    (number ((text.drop 11).take 2)).bind fun hour =>
    (number ((text.drop 14).take 2)).bind fun minute =>
    (secondsOf (text.drop 16)).bind fun (second, ms) =>
      let date : Date := ⟨year, month - 1, day⟩
      if 1 ≤ month ∧ date.Valid ∧ hour < 24 ∧ minute < 60 ∧ second < 60 then
        some (((date.toDays * msPerDay + hour * 3600000 + minute * 60000 +
          second * 1000 + ms : ℕ) : ℤ) - epoch)
      else none
  else none

theorem milliseconds_threeDigits {n : ℕ} (h : n < 1000) :
    milliseconds (threeDigits n) = some n := by
  unfold milliseconds
  rw [if_pos]
  · exact number_threeDigits h
  · simp [threeDigits, isDigit_digit]

theorem secondsOf_text {second ms : ℕ} (hsecond : second < 100)
    (hms : ms < 1000) :
    secondsOf (':' :: twoDigits second ++ '.' :: threeDigits ms ++ ['Z']) =
      some (second, ms) := by
  unfold secondsOf
  rw [if_neg (by simp), if_pos ⟨rfl, rfl⟩]
  change (number (twoDigits second)).bind _ = _
  rw [number_twoDigits hsecond, Option.bind_some]
  dsimp only
  have hfraction : ((':' :: twoDigits second ++ '.' :: threeDigits ms ++
      ['Z']).drop 3).dropLast = '.' :: threeDigits ms := rfl
  rw [hfraction, if_neg (List.cons_ne_nil _ _), List.getElem?_cons_zero,
    if_pos rfl]
  change (milliseconds (threeDigits ms)).map _ = _
  rw [milliseconds_threeDigits hms, Option.map_some]

theorem Instant.day_date_lt (instant : Instant) :
    instant.date.day < 100 := by
  have hvalid : instant.date.Valid := Date.valid_ofDays _
  have hle := daysInMonth_le instant.date.month hvalid.1
    (isLeapYear instant.date.year)
  have hday := hvalid.2.2
  omega

/-- Text and back. -/
theorem isoTime_isoText (instant : Instant) :
    isoTime instant.isoText = some instant.time := by
  have hvalid : instant.date.Valid := Date.valid_ofDays _
  have hdays : instant.date.toDays = instant.elapsed / msPerDay :=
    Date.toDays_ofDays _
  have helapsed := instant.elapsed_eq
  have hms : instant.elapsed % msPerDay < 86400000 :=
    Nat.mod_lt _ (by decide)
  have hdiv := Nat.div_add_mod' instant.elapsed msPerDay
  rw [← hdays] at hdiv
  unfold isoTime Instant.isoText Instant.timeText
  generalize instant.elapsed % msPerDay = ms at *
  have hmonth := hvalid.1
  rw [if_pos ⟨rfl, rfl, rfl, rfl⟩]
  change (number (fourDigits instant.date.year)).bind _ = _
  rw [number_fourDigits instant.year_date_lt, Option.bind_some]
  change (number (twoDigits (instant.date.month + 1))).bind _ = _
  rw [number_twoDigits (by omega), Option.bind_some]
  change (number (twoDigits instant.date.day)).bind _ = _
  rw [number_twoDigits instant.day_date_lt, Option.bind_some]
  change (number (twoDigits (ms / 3600000))).bind _ = _
  rw [number_twoDigits (by omega), Option.bind_some]
  change (number (twoDigits (ms / 60000 % 60))).bind _ = _
  rw [number_twoDigits (by omega), Option.bind_some]
  change (secondsOf (':' :: twoDigits (ms / 1000 % 60) ++
    '.' :: threeDigits (ms % 1000) ++ ['Z'])).bind _ = _
  rw [secondsOf_text (by omega) (by omega), Option.bind_some]
  dsimp only [Nat.add_sub_cancel]
  rw [if_pos ⟨by omega, hvalid, by omega, by omega, by omega⟩]
  have htime : ms / 3600000 * 3600000 + ms / 60000 % 60 * 60000 +
      ms / 1000 % 60 * 1000 + ms % 1000 = ms := by
    omega
  have hsum : instant.date.toDays * msPerDay + ms / 3600000 * 3600000 +
      ms / 60000 % 60 * 60000 + ms / 1000 % 60 * 1000 + ms % 1000 =
        instant.elapsed := by
    omega
  refine congrArg some ?_
  rw [show (⟨instant.date.year, instant.date.month + 1 - 1,
    instant.date.day⟩ : Date) = instant.date from rfl, hsum]
  omega

end Shozee.Run
