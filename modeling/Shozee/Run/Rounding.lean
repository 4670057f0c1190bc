import Mathlib.Algebra.Order.Ring.Rat
import Mathlib.Tactic.Linarith
import Mathlib.Tactic.Positivity
import Mathlib.Tactic.Ring
import Mathlib.Tactic.FieldSimp

/-!
# Rounding with ties away from zero

`RoundsHalfAway x n` says that no integer is nearer to `x` than `n`, and that
of two that are equally near `n` is the one further from zero. There is one
such integer, and for a quotient of natural numbers it is found by one
division with remainder.
-/

namespace Shozee.Run

/-- A whole number is nearest, and of two the one further from zero. -/
structure RoundsHalfAway (x : ℚ) (n : ℤ) : Prop where
  near : |x - n| ≤ 1 / 2
  away : |x - n| = 1 / 2 → |x| ≤ |(n : ℚ)|

variable {x : ℚ} {n m : ℤ}

theorem RoundsHalfAway.neg (h : RoundsHalfAway x n) :
    RoundsHalfAway (-x) (-n) := by
  have hdiff : |-x - ((-n : ℤ) : ℚ)| = |x - n| := by
    rw [← abs_neg (x - n)]
    push_cast
    ring_nf
  refine ⟨hdiff ▸ h.near, fun htie => ?_⟩
  rw [abs_neg, Int.cast_neg, abs_neg]
  exact h.away (hdiff ▸ htie)

/-- Two neighbours cannot both be the rounding. -/
theorem RoundsHalfAway.not_succ (h : RoundsHalfAway x n)
    (h' : RoundsHalfAway x (n + 1)) : False := by
  have hnear := abs_le.mp h.near
  have hnear' := abs_le.mp h'.near
  push_cast at hnear'
  have hx : x = n + 1 / 2 := by linarith
  have haway := h.away (by rw [hx]; norm_num)
  have haway' := h'.away (by rw [hx]; push_cast; norm_num)
  push_cast at haway'
  rcases le_or_gt 0 n with hn | hn
  · have hn : (0 : ℚ) ≤ n := by exact_mod_cast hn
    rw [hx, abs_of_nonneg (by linarith), abs_of_nonneg hn] at haway
    linarith
  · have hn : (n : ℚ) ≤ -1 := by exact_mod_cast Int.le_sub_one_of_lt hn
    rw [hx, abs_of_nonpos (by linarith), abs_of_nonpos (by linarith)] at haway'
    linarith

theorem RoundsHalfAway.unique (h : RoundsHalfAway x n)
    (h' : RoundsHalfAway x m) : n = m := by
  have hnear := abs_le.mp h.near
  have hnear' := abs_le.mp h'.near
  have hle : n ≤ m + 1 := by
    have : (n : ℚ) ≤ m + 1 := by linarith
    exact_mod_cast this
  have hge : m ≤ n + 1 := by
    have : (m : ℚ) ≤ n + 1 := by linarith
    exact_mod_cast this
  rcases lt_trichotomy n m with hlt | heq | hgt
  · obtain rfl : m = n + 1 := by omega
    exact (h.not_succ h').elim
  · exact heq
  · obtain rfl : n = m + 1 := by omega
    exact (h'.not_succ h).elim

/-- A whole part and a proper fraction. -/
theorem roundsHalfAway_add (q : ℕ) {r b : ℕ} (hr : r < b) :
    RoundsHalfAway (q + r / b) (if b ≤ r * 2 then q + 1 else q : ℕ) := by
  have hb : (0 : ℚ) < b := by exact_mod_cast Nat.zero_lt_of_lt hr
  have hlt : (r : ℚ) / b < 1 := by
    rw [div_lt_one hb]
    exact_mod_cast hr
  have hnonneg : (0 : ℚ) ≤ r / b := by positivity
  have hquotient : (0 : ℚ) ≤ q := Nat.cast_nonneg q
  split
  · rename_i hup
    have hhalf : (1 : ℚ) / 2 ≤ r / b := by
      rw [div_le_div_iff₀ (by norm_num) hb]
      have : (b : ℚ) ≤ r * 2 := by exact_mod_cast hup
      linarith
    refine ⟨?_, fun _ => ?_⟩
    · rw [abs_le]
      push_cast
      constructor
      · linarith
      · linarith
    · push_cast
      rw [abs_of_nonneg (by linarith), abs_of_nonneg (by linarith)]
      linarith
  · rename_i hdown
    have hhalf : (r : ℚ) / b < 1 / 2 := by
      rw [div_lt_div_iff₀ hb (by norm_num)]
      have : (r : ℚ) * 2 < b := by exact_mod_cast not_le.mp hdown
      linarith
    have hdiff : |(q : ℚ) + r / b - ((q : ℕ) : ℤ)| = r / b := by
      push_cast
      rw [add_sub_cancel_left, abs_of_nonneg hnonneg]
    refine ⟨?_, fun htie => ?_⟩
    · rw [hdiff]
      exact hhalf.le
    · rw [hdiff] at htie
      exact absurd htie hhalf.ne

/-- Division with remainder rounds a quotient of natural numbers. -/
theorem roundsHalfAway_div (a : ℕ) {b : ℕ} (hb : 0 < b) :
    RoundsHalfAway (a / b)
      (if b ≤ a % b * 2 then a / b + 1 else a / b : ℕ) := by
  have hb' : (0 : ℚ) < b := by exact_mod_cast hb
  have hx : (a / b : ℚ) = (a / b : ℕ) + (a % b : ℕ) / b := by
    have hdiv : (a : ℚ) = b * (a / b : ℕ) + (a % b : ℕ) := by
      exact_mod_cast (Nat.div_add_mod a b).symm
    rw [hdiv]
    field_simp
  rw [hx]
  exact roundsHalfAway_add _ (Nat.mod_lt a hb)

end Shozee.Run
