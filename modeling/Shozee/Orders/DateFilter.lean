import Mathlib.Data.Rat.Floor
import Shozee.Orders.Listing
import Shozee.Run.TextOrder

/-!
# The range of dates in the filter of orders

The filter's schema refuses a range that ends before it begins, and compares
the two texts for it. A text has the date, the hour and the minute in a fixed
form, and then may end, or go on with the seconds, and then with a fraction of
any length. So the texts are ordered as the instants are where they differ in
what both have (`told_head`, `told_seconds`), and are not where the one only
goes on with the other: then the longer is the smaller text and the later
instant. `range_told_iff` has the exact texts for which the comparison is
right.
-/

namespace Shozee.Orders.Listing

open Shozee.Run
open Shozee.Run.Calendar

/-! ## The refinement

The schema compares the two texts, and only if both are there. -/

/-- `createdFrom <= createdTo`, on the texts. -/
def createdRangeOrdered (createdFrom createdTo : IsoDatetime) : Bool :=
  decide (textLe createdFrom.text.toList createdTo.text.toList)

/-- What the filter's schema requires of its fields together. -/
def refineRange (filter : ListOrdersFilter) : Bool :=
  match filter.createdFrom, filter.createdTo with
  | some createdFrom, some createdTo =>
      createdRangeOrdered createdFrom createdTo
  | _, _ => true

/-! ## What a text stands for

The instant, with all digits of its fraction. `Date` would read three of them.
-/

/-- The number in some places of a text. -/
def fieldAt (text : List Char) (start length : ℕ) : ℕ :=
  (number ((text.drop start).take length)).getD 0

/-- What follows the minutes, in seconds. -/
def secondsAt (text : List Char) : ℚ :=
  if text[0]? = some ':' then
    fieldAt text 1 2 + fractionOf ((text.drop 4).dropLast)
  else 0

/-- The minutes of a time without its seconds. -/
def minutesAt (text : List Char) : ℕ :=
  let date : Date :=
    ⟨fieldAt text 0 4, fieldAt text 5 2 - 1, fieldAt text 8 2⟩
  (date.toDays * 24 + fieldAt text 11 2) * 60 + fieldAt text 14 2

/-- The instant, in seconds since 1970, with all of the fraction. -/
def IsoDatetime.instant (datetime : IsoDatetime) : ℚ :=
  minutesAt datetime.text.toList * 60 +
    secondsAt (datetime.text.toList.drop 16) - (epoch / 1000 : ℕ)

/-! ## The parts of a text

A text that the schema lets through has a head of fixed length, and then
seconds and a fraction, or not. -/

/-- The fraction of a second, where a text has it. -/
inductive FractionText : List Char → ℚ → Prop
  | none : FractionText [] 0
  | digits {digits : List Char} (hne : digits ≠ [])
      (hdigits : digits.all (·.isDigit) = true) :
      FractionText ('.' :: digits) (fractionOf digits)

/-- The seconds of a text, where it has them, without the `Z`. -/
inductive SecondsText : List Char → ℚ → Prop
  | minutes : SecondsText [] 0
  | seconds {s fraction : List Char} {n : ℕ} {w : ℚ} (hlength : s.length = 2)
      (hnumber : number s = some n) (hlt : n < 60)
      (hfraction : FractionText fraction w) :
      SecondsText (':' :: s ++ fraction) (n + w)

/-- The date, the hour and the minute. -/
inductive HeadText : List Char → ℕ → Prop
  | mk {year month day hour minute : List Char} {date : Date} {h m : ℕ}
      (hlengths : year.length = 4 ∧ month.length = 2 ∧ day.length = 2 ∧
        hour.length = 2 ∧ minute.length = 2)
      (hnumbers : number year = some date.year ∧
        number month = some (date.month + 1) ∧ number day = some date.day ∧
        number hour = some h ∧ number minute = some m)
      (hvalid : date.Valid) (hbounds : h < 24 ∧ m < 60) :
      HeadText
        (year ++ '-' :: (month ++ '-' :: (day ++ 'T' :: (hour ++
          ':' :: minute))))
        ((date.toDays * 24 + h) * 60 + m)

theorem getElem_split (start n : ℕ) {text : List Char} {c : Char}
    (h : text[start + n]? = some c) :
    text.drop start =
        (text.drop start).take n ++ c :: text.drop (start + n + 1) ∧
      ((text.drop start).take n).length = n := by
  obtain ⟨hlt, hget⟩ := List.getElem?_eq_some_iff.mp h
  have hlength : ((text.drop start).take n).length = n := by
    rw [List.length_take, List.length_drop]
    omega
  refine ⟨?_, hlength⟩
  conv_lhs => rw [← List.take_append_drop n (text.drop start)]
  rw [List.drop_drop, List.drop_eq_getElem_cons hlt, hget]

theorem number_letter (rest : List Char) (n : ℕ) :
    ('Z' :: rest).foldlM (fun n c => (digitValue c).map (10 * n + ·)) n =
      none := by
  rw [number_cons]
  rfl

/-- Two digits come between the colon and the ending. -/
theorem two_digits {text : List Char} {n : ℕ} (hcolon : text[0]? = some ':')
    (hlast : text.getLast? = some 'Z')
    (hnumber : number ((text.drop 1).take 2) = some n) :
    ∃ s rest, text = ':' :: s ++ (rest ++ ['Z']) ∧ s.length = 2 ∧
      number s = some n := by
  obtain ⟨body, rfl⟩ : ∃ body, text = body ++ ['Z'] :=
    ⟨text.dropLast, (List.dropLast_append_getLast? 'Z' hlast).symm⟩
  cases body with
  | nil => cases hcolon
  | cons c body =>
      cases hcolon
      cases body with
      | nil =>
          unfold number at hnumber
          rw [show ((':' :: [] ++ ['Z']).drop 1).take 2 = ['Z'] from rfl,
            number_letter] at hnumber
          cases hnumber
      | cons s₁ body =>
          cases body with
          | nil =>
              unfold number at hnumber
              rw [show ((':' :: [s₁] ++ ['Z']).drop 1).take 2 = [s₁, 'Z']
                from rfl, number_cons, Option.bind_eq_some_iff] at hnumber
              obtain ⟨d, -, hnumber⟩ := hnumber
              rw [number_letter] at hnumber
              cases hnumber
          | cons s₂ rest => exact ⟨[s₁, s₂], rest, rfl, rfl, hnumber⟩

/-- What follows the minutes in a text that the schema accepts. -/
theorem seconds_of_valid {text : List Char} {second ms : ℕ}
    (h : secondsOf text = some (second, ms)) (hlt : second < 60) :
    ∃ seconds, text = seconds ++ ['Z'] ∧
      SecondsText seconds (secondsAt text) ∧
      (second * 1000 + ms : ℤ) = ⌊secondsAt text * 1000⌋ := by
  unfold secondsOf at h
  by_cases hminutes : text = ['Z']
  · subst hminutes
    rw [if_pos rfl] at h
    cases h
    refine ⟨[], rfl, .minutes, ?_⟩
    rw [show secondsAt ['Z'] = 0 from rfl]
    norm_num
  rw [if_neg hminutes] at h
  by_cases hends : text[0]? = some ':' ∧ text.getLast? = some 'Z'
  swap
  · rw [if_neg hends] at h
    cases h
  rw [if_pos hends, Option.bind_eq_some_iff] at h
  obtain ⟨n, hnumber, hrest⟩ := h
  obtain ⟨s, rest, rfl, hlength, hs⟩ := two_digits hends.1 hends.2 hnumber
  obtain ⟨s₁, s₂, rfl⟩ := List.length_eq_two.mp hlength
  have hfraction : ((':' :: [s₁, s₂] ++ (rest ++ ['Z'])).drop 3).dropLast =
      rest := List.dropLast_concat
  have hfield : fieldAt (':' :: [s₁, s₂] ++ (rest ++ ['Z'])) 1 2 = n := by
    show (number [s₁, s₂]).getD 0 = n
    rw [hs, Option.getD_some]
  rw [hfraction] at hrest
  unfold secondsAt
  rw [if_pos hends.1, hfield]
  cases rest with
  | nil =>
      rw [if_pos rfl] at hrest
      cases hrest
      have hdrop : ((':' :: [s₁, s₂] ++ (([] : List Char) ++ ['Z'])).drop
          4).dropLast = [] := rfl
      refine ⟨[':', s₁, s₂], rfl, .seconds rfl hs hlt .none, ?_⟩
      rw [hdrop, fractionOf, add_zero, eq_comm, Int.floor_eq_iff]
      push_cast
      exact ⟨by linarith, by linarith⟩
  | cons point digits =>
      rw [if_neg (List.cons_ne_nil _ _)] at hrest
      by_cases hpoint : (point :: digits)[0]? = some '.'
      swap
      · rw [if_neg hpoint] at hrest
        cases hrest
      rw [if_pos hpoint] at hrest
      cases hpoint
      obtain ⟨ms', hms, hpair⟩ := Option.map_eq_some_iff.mp hrest
      cases hpair
      have hdigits : digits ≠ [] ∧ digits.all (·.isDigit) := by
        by_contra hnot
        unfold milliseconds at hms
        rw [show ('.' :: digits).drop 1 = digits from rfl, if_neg hnot] at hms
        cases hms
      have hdrop : ((':' :: [s₁, s₂] ++ ('.' :: digits ++ ['Z'])).drop
          4).dropLast = digits := List.dropLast_concat
      rw [hdrop]
      refine ⟨':' :: [s₁, s₂] ++ '.' :: digits, by simp,
        .seconds rfl hs hlt (.digits hdigits.1 hdigits.2), ?_⟩
      have hwhole : ((second : ℚ) + fractionOf digits) * 1000 =
          ((second * 1000 : ℕ) : ℚ) + fractionOf digits * 1000 := by
        push_cast
        ring
      have hfloor : (ms : ℤ) = ⌊fractionOf digits * 1000⌋ :=
        milliseconds_eq_floor hms
      rw [hwhole, Int.floor_natCast_add, hfloor, Nat.cast_mul]
      rfl

/-- What the schema accepts, part by part. -/
theorem parts_of_valid {text : List Char} {time : ℤ}
    (h : isoTime text = some time) :
    ∃ head seconds, text = head ++ (seconds ++ ['Z']) ∧
      HeadText head (minutesAt text) ∧
      SecondsText seconds (secondsAt (text.drop 16)) ∧
      time = minutesAt text * 60000 + ⌊secondsAt (text.drop 16) * 1000⌋ -
        epoch := by
  unfold isoTime at h
  by_cases hform : text[4]? = some '-' ∧ text[7]? = some '-' ∧
      text[10]? = some 'T' ∧ text[13]? = some ':'
  swap
  · rw [if_neg hform] at h
    cases h
  rw [if_pos hform] at h
  obtain ⟨hyear, hmonth, hday, hhour⟩ := hform
  simp only [Option.bind_eq_some_iff] at h
  obtain ⟨year, hyearValue, month, hmonthValue, day, hdayValue, hour,
    hhourValue, minute, hminuteValue, ⟨second, ms⟩, hseconds, h⟩ := h
  dsimp only at h
  by_cases hfields : 1 ≤ month ∧ (⟨year, month - 1, day⟩ : Date).Valid ∧
      hour < 24 ∧ minute < 60 ∧ second < 60
  swap
  · rw [if_neg hfields] at h
    cases h
  rw [if_pos hfields] at h
  obtain ⟨hone, hvalid, hhourLt, hminuteLt, hsecondLt⟩ := hfields
  obtain ⟨seconds, htail, hsecondsText, hfloor⟩ :=
    seconds_of_valid hseconds hsecondLt
  obtain ⟨hyearSplit, hyearLength⟩ := getElem_split 0 4 hyear
  obtain ⟨hmonthSplit, hmonthLength⟩ := getElem_split 5 2 hmonth
  obtain ⟨hdaySplit, hdayLength⟩ := getElem_split 8 2 hday
  obtain ⟨hhourSplit, hhourLength⟩ := getElem_split 11 2 hhour
  have hminuteSplit : text.drop 14 =
      (text.drop 14).take 2 ++ text.drop 16 := by
    conv_lhs => rw [← List.take_append_drop 2 (text.drop 14)]
    rw [List.drop_drop]
  have hminuteLength : ((text.drop 14).take 2).length = 2 := by
    have hlong : 16 < text.length := by
      by_contra hshort
      rw [List.drop_eq_nil_of_le (not_lt.mp hshort)] at htail
      exact absurd htail (by simp)
    rw [List.length_take, List.length_drop]
    omega
  have hminutes : minutesAt text =
      ((⟨year, month - 1, day⟩ : Date).toDays * 24 + hour) * 60 + minute := by
    unfold minutesAt fieldAt
    rw [List.drop_zero, hyearValue, hmonthValue, hdayValue, hhourValue,
      hminuteValue]
    rfl
  rw [hminutes]
  refine ⟨_, seconds, ?_, .mk
    ⟨hyearLength, hmonthLength, hdayLength, hhourLength, hminuteLength⟩
    ⟨hyearValue, ?_, hdayValue, hhourValue, hminuteValue⟩ hvalid
    ⟨hhourLt, hminuteLt⟩, hsecondsText, ?_⟩
  · simp only [List.append_assoc, List.cons_append]
    rw [← htail, ← hminuteSplit, ← hhourSplit, ← hdaySplit, ← hmonthSplit]
    rw [List.drop_zero] at hyearSplit
    exact hyearSplit
  · rw [hmonthValue]
    exact congrArg some (by simp only; omega)
  · rw [← hfloor, ← Option.some.inj h]
    unfold msPerDay
    push_cast
    ring

/-! ## The order of the parts

Where two texts have the same part, letters and numbers are in one order. Where
one of them ends, its `Z` is compared with what the other goes on with, and the
missing part counts as zero. -/

theorem HeadText.length {head : List Char} {minutes : ℕ}
    (h : HeadText head minutes) : head.length = 16 := by
  cases h with
  | mk hlengths hnumbers hvalid hbounds =>
    simp only [List.length_append, List.length_cons]
    omega

/-- Dates, hours and minutes are in the order of their texts. -/
theorem HeadText.order {head head' : List Char} {minutes minutes' : ℕ}
    (h : HeadText head minutes) (h' : HeadText head' minutes') :
    (head < head' ↔ minutes < minutes') ∧
      (head = head' ↔ minutes = minutes') := by
  cases h with
  | @mk year month day hour minute date hh mm hlengths hnumbers hvalid
      hbounds =>
    cases h' with
    | @mk year' month' day' hour' minute' date' hh' mm' hlengths' hnumbers'
        hvalid' hbounds' =>
      obtain ⟨hyear, hmonth, hday, hhour, hminute⟩ := hlengths
      obtain ⟨hyear', hmonth', hday', hhour', hminute'⟩ := hlengths'
      obtain ⟨nyear, nmonth, nday, nhour, nminute⟩ := hnumbers
      obtain ⟨nyear', nmonth', nday', nhour', nminute'⟩ := hnumbers'
      obtain ⟨oyear, eyear⟩ :=
        number_order (hyear.trans hyear'.symm) nyear nyear'
      obtain ⟨omonth, emonth⟩ :=
        number_order (hmonth.trans hmonth'.symm) nmonth nmonth'
      obtain ⟨oday, eday⟩ := number_order (hday.trans hday'.symm) nday nday'
      obtain ⟨ohour, ehour⟩ :=
        number_order (hhour.trans hhour'.symm) nhour nhour'
      obtain ⟨ominute, eminute⟩ :=
        number_order (hminute.trans hminute'.symm) nminute nminute'
      rw [append_cons_lt_iff (hyear.trans hyear'.symm),
        append_cons_lt_iff (hmonth.trans hmonth'.symm),
        append_cons_lt_iff (hday.trans hday'.symm),
        append_cons_lt_iff (hhour.trans hhour'.symm),
        append_cons_eq_iff (hyear.trans hyear'.symm),
        append_cons_eq_iff (hmonth.trans hmonth'.symm),
        append_cons_eq_iff (hday.trans hday'.symm),
        append_cons_eq_iff (hhour.trans hhour'.symm), oyear, omonth, oday,
        ohour, ominute, eyear, emonth, eday, ehour, eminute]
      have hdays := Date.toDays_order hvalid hvalid'
      unfold Date.Before at hdays
      obtain ⟨hlt, heq⟩ := hdays
      have hfields : date = date' ↔ date.year = date'.year ∧
          date.month = date'.month ∧ date.day = date'.day := by
        cases date
        cases date'
        exact Iff.of_eq (Date.mk.injEq _ _ _ _ _ _)
      rw [hfields] at heq
      generalize date.toDays = days at *
      generalize date'.toDays = days' at *
      omega

theorem FractionText.bounds {fraction : List Char} {w : ℚ}
    (h : FractionText fraction w) : 0 ≤ w ∧ w < 1 := by
  cases h with
  | none => exact ⟨le_refl 0, one_pos⟩
  | digits hne hdigits => exact fractionOf_bounds hdigits

theorem FractionText.eq_zero_iff {fraction : List Char} {w : ℚ}
    (h : FractionText fraction w) :
    w = 0 ↔ fraction.all addsNothing = true := by
  cases h with
  | none => exact iff_of_true rfl rfl
  | digits hne hdigits =>
      rw [fractionOf_eq_zero_iff hdigits, List.all_cons,
        show addsNothing '.' = true from rfl, Bool.true_and]

theorem FractionText.told {fraction fraction' : List Char} {w w' : ℚ}
    (h : FractionText fraction w) (h' : FractionText fraction' w') :
    OrderTold fraction fraction' w w' := by
  cases h with
  | none =>
      cases h' with
      | none => exact told_nil
      | digits hne hdigits =>
          exact told_longer ⟨'.', _, rfl, by decide⟩
            (fractionOf_bounds hdigits).1
  | @digits ds hne hdigits =>
      cases h' with
      | none =>
          exact told_shorter ⟨'.', _, rfl, by decide⟩
            (fractionOf_bounds hdigits).1
            (FractionText.digits hne hdigits).eq_zero_iff
      | @digits es hne' hdigits' =>
          have htold := (told_fraction hdigits hdigits').append ['.'] 0
          rw [zero_add, zero_add] at htold
          exact htold

theorem SecondsText.bounds {seconds : List Char} {u : ℚ}
    (h : SecondsText seconds u) : 0 ≤ u ∧ u < 60 := by
  cases h with
  | minutes => exact ⟨le_refl 0, by norm_num⟩
  | @seconds s fraction n w hlength hnumber hlt hfraction =>
      obtain ⟨hnonneg, hone⟩ := hfraction.bounds
      have hcast : (n : ℚ) + 1 ≤ 60 := by exact_mod_cast hlt
      have hzero : (0 : ℚ) ≤ n := Nat.cast_nonneg n
      exact ⟨by linarith, by linarith⟩

theorem SecondsText.eq_zero_iff {seconds : List Char} {u : ℚ}
    (h : SecondsText seconds u) :
    u = 0 ↔ seconds.all addsNothing = true := by
  cases h with
  | minutes => exact iff_of_true rfl rfl
  | @seconds s fraction n w hlength hnumber hlt hfraction =>
      have hdigits : n = 0 ↔ s.all addsNothing = true :=
        number_eq_zero_iff hnumber
      rw [add_eq_zero_iff_of_nonneg (Nat.cast_nonneg n) hfraction.bounds.1,
        Nat.cast_eq_zero, hdigits, hfraction.eq_zero_iff, List.all_append,
        List.all_cons, show addsNothing ':' = true from rfl, Bool.true_and,
        Bool.and_eq_true]

/-- The seconds are told by the texts. -/
theorem SecondsText.told {seconds seconds' : List Char} {u v : ℚ}
    (h : SecondsText seconds u) (h' : SecondsText seconds' v) :
    OrderTold seconds seconds' u v := by
  have hbounds := h.bounds
  have hbounds' := h'.bounds
  cases h with
  | minutes =>
      cases h' with
      | minutes => exact told_nil
      | seconds => exact told_longer ⟨':', _, rfl, by decide⟩ hbounds'.1
  | @seconds s fraction n w hlength hnumber hlt hfraction =>
      cases h' with
      | minutes =>
          exact told_shorter ⟨':', _, rfl, by decide⟩ hbounds.1
            (SecondsText.seconds hlength hnumber hlt hfraction).eq_zero_iff
      | @seconds s' fraction' n' w' hlength' hnumber' hlt' hfraction' =>
          obtain ⟨horder, hequal⟩ :=
            number_order (hlength.trans hlength'.symm) hnumber hnumber'
          by_cases hsame : s = s'
          · subst hsame
            rw [hequal.mp rfl]
            exact (hfraction.told hfraction').append (':' :: s) n'
          · obtain ⟨hw, hw'⟩ := hfraction.bounds
            obtain ⟨hv, hv'⟩ := hfraction'.bounds
            refine told_of_ne (a := ':' :: s) (b := ':' :: s')
              (by rw [List.length_cons, List.length_cons, hlength, hlength'])
              (fun h => hsame (List.tail_eq_of_cons_eq h)) ?_
            rw [List.cons_lt_cons_iff, horder]
            simp only [lt_irrefl, true_and, false_or]
            exact nat_add_le_iff (fun h => hsame (hequal.mpr h)) hw hw' hv hv'

/-- The time that the filter compares with is the instant, less what is under
a millisecond. -/
theorem IsoDatetime.getTime_eq_floor (datetime : IsoDatetime) :
    datetime.getTime = ⌊datetime.instant * 1000⌋ := by
  obtain ⟨time, htime⟩ := Option.isSome_iff_exists.mp datetime.valid
  obtain ⟨-, -, -, -, -, hvalue⟩ := parts_of_valid htime
  have hgetTime : datetime.getTime = time := Option.get_of_eq_some _ htime
  have hinstant : datetime.instant * 1000 =
      ((minutesAt datetime.text.toList * 60000 - epoch : ℤ) : ℚ) +
        secondsAt (datetime.text.toList.drop 16) * 1000 := by
    unfold IsoDatetime.instant
    rw [show epoch / 1000 = 62167219200 from rfl,
      show epoch = 62167219200000 from rfl]
    push_cast
    ring
  rw [hgetTime, hinstant, Int.floor_intCast_add, hvalue]
  ring

/-! ## The range is told by the texts

The schema and the instants agree on a range unless one text goes on where the
other ends; `GoesOn` says which pairs are right all the same. The range at the
end is in order and is refused. -/

/-- A text without its `Z`. -/
def IsoDatetime.body (datetime : IsoDatetime) : List Char :=
  datetime.text.toList.dropLast

theorem told_parts {head head' seconds seconds' : List Char} {m m' : ℕ}
    {u v : ℚ} (hhead : HeadText head m) (hhead' : HeadText head' m')
    (hseconds : SecondsText seconds u) (hseconds' : SecondsText seconds' v) :
    OrderTold (head ++ seconds) (head' ++ seconds') (m * 60 + u)
      (m' * 60 + v) := by
  obtain ⟨horder, hequal⟩ := hhead.order hhead'
  by_cases hsame : head = head'
  · subst hsame
    rw [hequal.mp rfl]
    exact (hseconds.told hseconds').append head _
  · obtain ⟨hu, hu'⟩ := hseconds.bounds
    obtain ⟨hv, hv'⟩ := hseconds'.bounds
    refine told_of_ne (hhead.length.trans hhead'.length.symm) hsame ?_
    have hminutes := nat_add_le_iff (w := u / 60) (v := v / 60)
      (fun h => hsame (hequal.mpr h)) (by linarith) (by linarith)
      (by linarith) (by linarith)
    rw [horder, hminutes]
    constructor
    · intro h
      linarith
    · intro h
      linarith

/-- The schema accepts a range just when it does not end before it begins, for
just those texts of which neither goes on with the other; the first may go on
with zeros. -/
theorem range_told_iff (filter : ListOrdersFilter)
    (createdFrom createdTo : IsoDatetime) :
    ((refineRange { filter with
        createdFrom := some createdFrom
        createdTo := some createdTo } = true ↔
      createdFrom.instant ≤ createdTo.instant) ↔
      GoesOn createdFrom.body createdTo.body) := by
  obtain ⟨time, htime⟩ := Option.isSome_iff_exists.mp createdFrom.valid
  obtain ⟨time', htime'⟩ := Option.isSome_iff_exists.mp createdTo.valid
  obtain ⟨head, seconds, htext, hhead, hseconds, -⟩ := parts_of_valid htime
  obtain ⟨head', seconds', htext', hhead', hseconds', -⟩ :=
    parts_of_valid htime'
  have htold := told_parts hhead hhead' hseconds hseconds'
  have hbody : createdFrom.body = head ++ seconds := by
    rw [IsoDatetime.body, htext, ← List.append_assoc, List.dropLast_concat]
  have hbody' : createdTo.body = head' ++ seconds' := by
    rw [IsoDatetime.body, htext', ← List.append_assoc, List.dropLast_concat]
  have hrefine : refineRange { filter with
      createdFrom := some createdFrom
      createdTo := some createdTo } = true ↔
      textLe (head ++ seconds ++ ['Z']) (head' ++ seconds' ++ ['Z']) := by
    rw [List.append_assoc, ← htext, List.append_assoc, ← htext']
    exact decide_eq_true_iff
  have hinstant : createdFrom.instant ≤ createdTo.instant ↔
      (minutesAt createdFrom.text.toList : ℚ) * 60 +
          secondsAt (createdFrom.text.toList.drop 16) ≤
        minutesAt createdTo.text.toList * 60 +
          secondsAt (createdTo.text.toList.drop 16) :=
    sub_le_sub_iff_right _
  rw [hbody, hbody', hrefine, hinstant]
  exact htold

/-- A second, and half a second after it. -/
def onTheSecond : IsoDatetime := ⟨"2026-04-01T00:00:00Z", by decide +kernel⟩

/-- A time with a fraction. -/
def halfASecondLater : IsoDatetime :=
  ⟨"2026-04-01T00:00:00.500Z", by decide +kernel⟩

/-- The filter of a time range. -/
def rangeFilter (createdFrom createdTo : IsoDatetime) : ListOrdersFilter :=
  ⟨none, none, none, some createdFrom, some createdTo⟩

/-- The range from the second is refused, and the one back to it accepted. -/
theorem range_compared_as_text :
    onTheSecond.instant < halfASecondLater.instant ∧
      refineRange (rangeFilter onTheSecond halfASecondLater) = false ∧
      refineRange (rangeFilter halfASecondLater onTheSecond) = true := by
  decide +kernel

end Shozee.Orders.Listing
