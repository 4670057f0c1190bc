import Mathlib.Data.Nat.Notation
import Mathlib.Tactic.SplitIfs

/-!
# The Gregorian calendar

Days are counted from the first of January of year 0, and a date is read off
the count: the year, then the month of the year, then the day of the month.
`toDays_ofDays` is the way back.

The first guess at a year divides by the mean length of one; the leap days
that have come so far may put it one off to either side.
-/

namespace Shozee.Run.Calendar

/-- The Gregorian rule. -/
def isLeapYear (year : ℕ) : Bool :=
  year % 4 = 0 && (year % 100 ≠ 0 || year % 400 = 0)

/-- The days before a year begins. -/
def daysBeforeYear (year : ℕ) : ℕ :=
  365 * year + (year + 3) / 4 - (year + 99) / 100 + (year + 399) / 400

/-- The days of a year. -/
def yearLength (year : ℕ) : ℕ := if isLeapYear year then 366 else 365

theorem daysBeforeYear_succ (year : ℕ) :
    daysBeforeYear (year + 1) = daysBeforeYear year + yearLength year := by
  have hfour : (year + 1 + 3) / 4 =
      (year + 3) / 4 + if year % 4 = 0 then 1 else 0 := by
    split_ifs
    · omega
    · omega
  have hhundred : (year + 1 + 99) / 100 =
      (year + 99) / 100 + if year % 100 = 0 then 1 else 0 := by
    split_ifs
    · omega
    · omega
  have hcycle : (year + 1 + 399) / 400 =
      (year + 399) / 400 + if year % 400 = 0 then 1 else 0 := by
    split_ifs
    · omega
    · omega
  have hle : (year + 99) / 100 ≤ 365 * year + (year + 3) / 4 := by omega
  have h4 : year % 100 = 0 → year % 4 = 0 := by omega
  have h100 : year % 400 = 0 → year % 100 = 0 := by omega
  have hlength : yearLength year + (if year % 100 = 0 then 1 else 0) =
      365 + (if year % 4 = 0 then 1 else 0) +
        if year % 400 = 0 then 1 else 0 := by
    unfold yearLength isLeapYear
    by_cases hleap4 : year % 4 = 0
    · by_cases hleap100 : year % 100 = 0
      · by_cases hleap400 : year % 400 = 0
        · simp [hleap4, hleap100, hleap400]
        · simp [hleap4, hleap100, hleap400]
      · simp [hleap4, hleap100, mt h100 hleap100]
    · simp [hleap4, mt h4 hleap4, mt h100 (mt h4 hleap4)]
  unfold daysBeforeYear
  rw [hfour, hhundred, hcycle]
  omega

/-- The year of a day. -/
def yearOf (day : ℕ) : ℕ :=
  let guess := 400 * day / 146097
  if day < daysBeforeYear guess then guess - 1
  else if day < daysBeforeYear (guess + 1) then guess
  else guess + 1

/-- The leap days stray little from one in so many days. -/
theorem daysBeforeYear_bounds (year : ℕ) :
    146097 * year ≤ 400 * daysBeforeYear year + 396 ∧
      400 * daysBeforeYear year ≤ 146097 * year + 699 := by
  unfold daysBeforeYear
  omega

theorem daysBeforeYear_mono {year year' : ℕ} (h : year ≤ year') :
    daysBeforeYear year ≤ daysBeforeYear year' := by
  induction h with
  | refl => exact Nat.le_refl _
  | step _ ih =>
      rw [daysBeforeYear_succ]
      omega

theorem yearOf_spec (day : ℕ) : daysBeforeYear (yearOf day) ≤ day ∧
    day < daysBeforeYear (yearOf day + 1) := by
  have hlow : 146097 * (400 * day / 146097) ≤ 400 * day :=
    Nat.mul_div_le (400 * day) 146097
  have hhigh : 400 * day < 146097 * (400 * day / 146097 + 1) :=
    Nat.lt_mul_div_succ (400 * day) (by decide)
  unfold yearOf
  generalize 400 * day / 146097 = guess at *
  dsimp only
  split_ifs with hbefore hwithin
  · cases guess with
    | zero => exact absurd hbefore (Nat.not_lt_zero day)
    | succ year =>
        have hyear := (daysBeforeYear_bounds year).2
        refine ⟨?_, hbefore⟩
        change daysBeforeYear year ≤ day
        omega
  · exact ⟨Nat.le_of_not_lt hbefore, hwithin⟩
  · have hnext := (daysBeforeYear_bounds (guess + 1 + 1)).1
    exact ⟨Nat.le_of_not_lt hwithin, by omega⟩

/-- The days of the year before a month begins; months count from 0. -/
def daysBeforeMonth (leap : Bool) (month : ℕ) : ℕ :=
  match month with
  | 0 => 0
  | 1 => 31
  | 2 => leap.toNat + 59
  | 3 => leap.toNat + 90
  | 4 => leap.toNat + 120
  | 5 => leap.toNat + 151
  | 6 => leap.toNat + 181
  | 7 => leap.toNat + 212
  | 8 => leap.toNat + 243
  | 9 => leap.toNat + 273
  | 10 => leap.toNat + 304
  | 11 => leap.toNat + 334
  | _ => leap.toNat + 365

/-- The days of a month, months counted from zero. -/
def daysInMonth (leap : Bool) (month : ℕ) : ℕ :=
  daysBeforeMonth leap (month + 1) - daysBeforeMonth leap month

theorem daysInMonth_le :
    ∀ month < 12, ∀ leap, daysInMonth leap month ≤ 31 := by
  decide

/-- The last of the months that have begun. -/
def monthOf (leap : Bool) (dayOfYear : ℕ) : ℕ → ℕ
  | 0 => 0
  | month + 1 =>
      if daysBeforeMonth leap (month + 1) ≤ dayOfYear then month + 1
      else monthOf leap dayOfYear month

theorem monthOf_spec (leap : Bool) (dayOfYear last : ℕ)
    (hlast : dayOfYear < daysBeforeMonth leap (last + 1)) :
    monthOf leap dayOfYear last ≤ last ∧
      daysBeforeMonth leap (monthOf leap dayOfYear last) ≤ dayOfYear ∧
      dayOfYear < daysBeforeMonth leap (monthOf leap dayOfYear last + 1) := by
  induction last with
  | zero => exact ⟨Nat.le_refl 0, Nat.zero_le dayOfYear, hlast⟩
  | succ month ih =>
      unfold monthOf
      by_cases hbegun : daysBeforeMonth leap (month + 1) ≤ dayOfYear
      · rw [if_pos hbegun]
        exact ⟨Nat.le_refl _, hbegun, hlast⟩
      · rw [if_neg hbegun]
        obtain ⟨hle, hspec⟩ := ih (Nat.lt_of_not_le hbegun)
        exact ⟨Nat.le_succ_of_le hle, hspec⟩

/-- A date; the month counts from 0 and the day from 1. -/
structure Date where
  year : ℕ
  month : ℕ
  day : ℕ
deriving DecidableEq, Repr

/-- The date is one of the calendar. -/
def Date.Valid (date : Date) : Prop :=
  date.month < 12 ∧ 1 ≤ date.day ∧
    date.day ≤ daysInMonth (isLeapYear date.year) date.month

instance (date : Date) : Decidable date.Valid :=
  inferInstanceAs (Decidable (_ ∧ _ ∧ _))

/-- The date of a count of days. -/
def Date.ofDays (days : ℕ) : Date :=
  let year := yearOf days
  let dayOfYear := days - daysBeforeYear year
  let month := monthOf (isLeapYear year) dayOfYear 11
  { year, month
    day := dayOfYear - daysBeforeMonth (isLeapYear year) month + 1 }

/-- The days before a date. -/
def Date.toDays (date : Date) : ℕ :=
  daysBeforeYear date.year +
    daysBeforeMonth (isLeapYear date.year) date.month + (date.day - 1)

theorem monthOf_dayOfYear (days : ℕ) :
    let leap := isLeapYear (yearOf days)
    let dayOfYear := days - daysBeforeYear (yearOf days)
    monthOf leap dayOfYear 11 ≤ 11 ∧
      daysBeforeMonth leap (monthOf leap dayOfYear 11) ≤ dayOfYear ∧
      dayOfYear < daysBeforeMonth leap (monthOf leap dayOfYear 11 + 1) := by
  obtain ⟨hbegun, hwithin⟩ := yearOf_spec days
  refine monthOf_spec (isLeapYear (yearOf days)) _ 11 ?_
  rw [daysBeforeYear_succ] at hwithin
  unfold yearLength at hwithin
  cases hleap : isLeapYear (yearOf days) with
  | false =>
      rw [hleap] at hwithin
      change _ < 365
      simp only [Bool.false_eq_true, if_false] at hwithin
      omega
  | true =>
      rw [hleap] at hwithin
      change _ < 366
      simp only [if_true] at hwithin
      omega

theorem Date.valid_ofDays (days : ℕ) : (Date.ofDays days).Valid := by
  obtain ⟨hle, hbegun, hwithin⟩ := monthOf_dayOfYear days
  unfold Date.ofDays Date.Valid daysInMonth
  dsimp only
  omega

/-- The date of a day is that day. -/
theorem Date.toDays_ofDays (days : ℕ) : (Date.ofDays days).toDays = days := by
  obtain ⟨-, hbegun, -⟩ := monthOf_dayOfYear days
  have hyear := (yearOf_spec days).1
  unfold Date.ofDays Date.toDays
  dsimp only
  omega

theorem Date.year_ofDays_lt {days year : ℕ} (h : days < daysBeforeYear year) :
    (Date.ofDays days).year < year := by
  have hbegun := (yearOf_spec days).1
  change yearOf days < year
  refine Nat.lt_of_not_le fun hle => ?_
  have hmono := daysBeforeYear_mono hle
  omega

/-! ## Dates in order

Dates are compared field by field, and days by their count. The two orders are
one. -/

/-- The fields of one date come before those of the other. -/
def Date.Before (date date' : Date) : Prop :=
  date.year < date'.year ∨ date.year = date'.year ∧
    (date.month < date'.month ∨
      date.month = date'.month ∧ date.day < date'.day)

theorem daysBeforeMonth_mono :
    ∀ leap, ∀ month' < 13, ∀ month < month' + 1,
      daysBeforeMonth leap month ≤ daysBeforeMonth leap month' := by
  decide

theorem Date.Valid.before_next_month {date : Date} (h : date.Valid) :
    daysBeforeMonth (isLeapYear date.year) date.month + (date.day - 1) <
      daysBeforeMonth (isLeapYear date.year) (date.month + 1) := by
  obtain ⟨hmonth, hfirst, hlast⟩ := h
  have hmono := daysBeforeMonth_mono (isLeapYear date.year) (date.month + 1)
    (by omega) date.month (by omega)
  unfold daysInMonth at hlast
  omega

theorem Date.Valid.before_next_year {date : Date} (h : date.Valid) :
    date.toDays < daysBeforeYear (date.year + 1) := by
  have hnext := h.before_next_month
  have hmonth := h.1
  have hmono := daysBeforeMonth_mono (isLeapYear date.year) 12 (by decide)
    (date.month + 1) (by omega)
  have hlength : daysBeforeMonth (isLeapYear date.year) 12 =
      yearLength date.year := by
    unfold yearLength
    cases isLeapYear date.year with
    | false => rfl
    | true => rfl
  rw [daysBeforeYear_succ]
  unfold Date.toDays
  omega

/-- Days count up in the order of dates. -/
theorem Date.toDays_lt {date date' : Date} (h : date.Valid) (h' : date'.Valid)
    (hbefore : date.Before date') : date.toDays < date'.toDays := by
  obtain hyear | ⟨hyear, hrest⟩ := hbefore
  · have hmono := daysBeforeYear_mono hyear
    have hnext := h.before_next_year
    have hbegun : daysBeforeYear date'.year ≤ date'.toDays := by
      unfold Date.toDays
      omega
    have hsucc : date.year.succ = date.year + 1 := rfl
    rw [hsucc] at hmono
    omega
  · have hnext := h.before_next_month
    have hmonth' := h'.1
    have hfirst := h.2.1
    obtain hmonth | ⟨hmonth, hday⟩ := hrest
    · have hmono := daysBeforeMonth_mono (isLeapYear date.year) date'.month
        (by omega) (date.month + 1) (by omega)
      unfold Date.toDays
      rw [← hyear]
      omega
    · unfold Date.toDays
      rw [← hyear, ← hmonth]
      omega

theorem Date.toDays_order {date date' : Date} (h : date.Valid)
    (h' : date'.Valid) : (date.Before date' ↔ date.toDays < date'.toDays) ∧
      (date = date' ↔ date.toDays = date'.toDays) := by
  have hforth := Date.toDays_lt h h'
  have hback := Date.toDays_lt h' h
  have hcases : date.Before date' ∨ date = date' ∨ date'.Before date := by
    unfold Date.Before
    cases date
    cases date'
    simp only [Date.mk.injEq]
    omega
  rcases hcases with hbefore | rfl | hafter
  · have hlt := hforth hbefore
    refine ⟨iff_of_true hbefore hlt, iff_of_false ?_ (Nat.ne_of_lt hlt)⟩
    rintro rfl
    exact Nat.lt_irrefl _ hlt
  · refine ⟨iff_of_false ?_ (Nat.lt_irrefl _), iff_of_true rfl rfl⟩
    unfold Date.Before
    omega
  · have hlt := hback hafter
    refine ⟨iff_of_false ?_ (Nat.lt_asymm hlt),
      iff_of_false ?_ (Nat.ne_of_gt hlt)⟩
    · intro hbefore
      exact Nat.lt_asymm hlt (hforth hbefore)
    · rintro rfl
      exact Nat.lt_irrefl _ hlt

end Shozee.Run.Calendar
