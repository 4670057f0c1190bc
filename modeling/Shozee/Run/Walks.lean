import Mathlib.Data.Nat.Init
import Mathlib.Logic.Relation

/-!
# Walks that come to an end

A loop goes on from what it has come to, or is left. Where what it goes on with
is smaller or the same, it is left at some time if and only if it nowhere goes
on with the same (`leaves_iff`).
-/

namespace Shozee.Run

variable {α : Type*} (next : α → Option α)

/-- From one the loop goes on with the other. -/
def GoesTo (a b : α) : Prop := next a = some b

/-- What the loop comes to from a start. -/
def ComesTo (a b : α) : Prop := Relation.ReflTransGen (GoesTo next) a b

/-- The loop is left at some time. -/
inductive Leaves : α → Prop
  | stop {a : α} (h : next a = none) : Leaves a
  | on {a b : α} (h : next a = some b) (hrest : Leaves b) : Leaves a

variable {next}

theorem Leaves.of_comesTo {a b : α} (h : Leaves next a)
    (hcomes : ComesTo next a b) : Leaves next b := by
  induction hcomes with
  | refl => exact h
  | tail _ hgoes ih =>
      cases ih with
      | stop hstop => exact absurd (hstop.symm.trans hgoes) (by simp)
      | on hnext hrest =>
          rw [← Option.some.inj (hnext.symm.trans hgoes)]
          exact hrest

theorem Leaves.not_same {a : α} (h : Leaves next a) : next a ≠ some a := by
  induction h with
  | stop hstop => rw [hstop]; exact (Option.some_ne_none _).symm
  | on hnext hrest ih =>
      intro hsame
      rw [hnext, Option.some.injEq] at hsame
      subst hsame
      exact ih hnext

theorem leaves_iff {size : α → ℕ}
    (hdown : ∀ a b, next a = some b → size b < size a ∨ b = a) (a : α) :
    Leaves next a ↔ ∀ b, ComesTo next a b → next b ≠ some b := by
  constructor
  · exact fun h b hcomes => (h.of_comesTo hcomes).not_same
  · intro h
    -- what the loop goes on with is smaller, since it is not the same
    induction hsize : size a using Nat.strongRecOn generalizing a with
    | ind n ih =>
        subst hsize
        cases hnext : next a with
        | none => exact .stop hnext
        | some b =>
            rcases hdown a b hnext with hlt | rfl
            · exact .on hnext (ih _ hlt b (fun c hcomes =>
                h c (.head hnext hcomes)) rfl)
            · exact absurd hnext (h b .refl)

end Shozee.Run
