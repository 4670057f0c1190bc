import Mathlib.Algebra.BigOperators.Group.List.Basic
import Mathlib.Algebra.GroupWithZero.Nat

/-!
# Numerals

A language has names for some numbers. A number is said by the greatest of them
that fits, and then what is left (`Said`). Of large numbers each group of
digits is said like this and followed by the name of its scale.

What a text of numerals is worth is added up group by group (`Token.value`),
and a group that is said adds what it is worth (`foldl_group`).
-/

namespace Shozee.Run

/-! ## The greatest that fits

The numbers with names, and the way a number is said with them. It is said in
one way. -/

/-- The greatest number with a name that is not above `n`. -/
structure GreatestFit (named : ℕ → Prop) (a n : ℕ) : Prop where
  isNamed : named a
  fits : a ≤ n
  greatest : ∀ b, named b → b ≤ n → b ≤ a

/-- A number said by the greatest name that fits, and then the rest. -/
inductive Said (named : ℕ → Prop) : ℕ → List ℕ → Prop
  | nothing : Said named 0 []
  | greatest {a n : ℕ} {rest : List ℕ} (h : GreatestFit named a n)
      (hrest : Said named (n - a) rest) : Said named n (a :: rest)

namespace Said

variable {named : ℕ → Prop} {n : ℕ} {said : List ℕ}

/-- What is said is worth the number. -/
theorem sum_eq (h : Said named n said) : said.sum = n := by
  induction h with
  | nothing => rfl
  | greatest h _ ih =>
      rw [List.sum_cons, ih]
      exact Nat.add_sub_cancel' h.fits

theorem named_of_mem (h : Said named n said) : ∀ a ∈ said, named a := by
  induction h with
  | nothing => exact fun a ha => absurd ha List.not_mem_nil
  | greatest h _ ih =>
      intro a ha
      rcases List.mem_cons.mp ha with rfl | ha
      · exact h.isNamed
      · exact ih a ha

theorem ne_nil (h : Said named n said) (hn : 0 < n) : said ≠ [] := by
  rintro rfl
  have hsum := h.sum_eq
  rw [List.sum_nil] at hsum
  omega

theorem unique (hzero : ¬ named 0) (h : Said named n said) {said' : List ℕ}
    (h' : Said named n said') : said' = said := by
  induction h generalizing said' with
  | nothing =>
      cases h' with
      | nothing => rfl
      | greatest h _ =>
          have hfits := Nat.le_zero.mp h.fits
          exact absurd (hfits ▸ h.isNamed) hzero
  | greatest h _ ih =>
      cases h' with
      | nothing =>
          have hfits := Nat.le_zero.mp h.fits
          exact absurd (hfits ▸ h.isNamed) hzero
      | greatest h' hrest' =>
          have heq := Nat.le_antisymm
            (h.greatest _ h'.isNamed h'.fits) (h'.greatest _ h.isNamed h.fits)
          subst heq
          rw [ih hrest']

end Said

/-! ## Adding up

A scale multiplies the group before it, and a group is the sum of its words. -/

/-- A word of a number: it adds to the group, or multiplies it. -/
inductive Token
  | add (n : ℕ)
  | scale (n : ℕ)
deriving DecidableEq, Repr

/-- The total so far and the group that is being added to. -/
def Token.next : ℕ × ℕ → Token → ℕ × ℕ
  | (total, group), .add n => (total, group + n)
  | (total, group), .scale n => (total + group * n, 0)

/-- The number that words stand for. -/
def Token.value (tokens : List Token) : ℕ :=
  let sums := tokens.foldl Token.next (0, 0)
  sums.1 + sums.2

theorem foldl_add (total group : ℕ) (said : List ℕ) :
    (said.map Token.add).foldl Token.next (total, group) =
      (total, group + said.sum) := by
  induction said generalizing group with
  | nil => rfl
  | cons a said ih =>
      rw [List.map_cons, List.foldl_cons, Token.next, ih, List.sum_cons,
        Nat.add_assoc]

/-- A group and its scale. -/
theorem foldl_group (total : ℕ) (said : List ℕ) (scale : ℕ) :
    (said.map Token.add ++ [Token.scale scale]).foldl Token.next (total, 0) =
      (total + said.sum * scale, 0) := by
  rw [List.foldl_append, foldl_add, Nat.zero_add]
  rfl

end Shozee.Run
