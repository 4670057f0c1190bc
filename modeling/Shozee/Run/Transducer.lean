import Mathlib.Algebra.BigOperators.Group.List.Basic
import Mathlib.Algebra.Order.Monoid.Unbundled.Basic
import Mathlib.Logic.Function.Basic

/-!
# Transducers

A store that answers every request at once is a transducer: a state, and for
each input the next state and an answer. Two of them are interchangeable on a
list of inputs when they answer it alike. The relation that shows it is kept by
every step and may speak of the inputs that are still to come, which is where
the assumptions on the list go. Answers that cost something are paid for by a
potential of the state.
-/

namespace Shozee.Run

/-- Where a transducer starts, and what it does with an input. -/
structure Transducer (σ ι ο : Type*) where
  init : σ
  step : σ → ι → σ × ο

namespace Transducer

variable {σ τ ι ο : Type*}

/-- The answers to a list of inputs. -/
def answersFrom (T : Transducer σ ι ο) : σ → List ι → List ο
  | _, [] => []
  | s, i :: rest => (T.step s i).2 :: T.answersFrom (T.step s i).1 rest

/-- The answers to inputs from the beginning. -/
def answers (T : Transducer σ ι ο) (inputs : List ι) : List ο :=
  T.answersFrom T.init inputs

/-- Where a list of inputs leads. -/
def stateFrom (T : Transducer σ ι ο) : σ → List ι → σ
  | s, [] => s
  | s, i :: rest => T.stateFrom (T.step s i).1 rest

theorem length_answersFrom (T : Transducer σ ι ο) (s : σ) (inputs : List ι) :
    (T.answersFrom s inputs).length = inputs.length := by
  induction inputs generalizing s with
  | nil => rfl
  | cons i rest ih => exact congrArg (· + 1) (ih _)

theorem answersFrom_append (T : Transducer σ ι ο) (s : σ)
    (inputs more : List ι) :
    T.answersFrom s (inputs ++ more) =
      T.answersFrom s inputs ++ T.answersFrom (T.stateFrom s inputs) more := by
  induction inputs generalizing s with
  | nil => rfl
  | cons i rest ih => exact congrArg ((T.step s i).2 :: ·) (ih _)

/-- The answers to a stretch of the inputs. -/
theorem answers_stretch (T : Transducer σ ι ο)
    (before stretch after : List ι) :
    ((T.answers (before ++ stretch ++ after)).drop before.length).take
        stretch.length =
      T.answersFrom (T.stateFrom T.init before) stretch := by
  unfold answers
  rw [List.append_assoc, answersFrom_append, answersFrom_append,
    List.drop_left' (T.length_answersFrom _ _),
    List.take_left' (T.length_answersFrom _ _)]

/-- What every input leaves true, when the inputs to come may be spoken of. -/
theorem stateFrom_kept {T : Transducer σ ι ο} {P : List ι → σ → Prop}
    (hstep : ∀ i rest s, P (i :: rest) s → P rest (T.step s i).1)
    (inputs more : List ι) (s : σ) (h : P (inputs ++ more) s) :
    P more (T.stateFrom s inputs) := by
  induction inputs generalizing s with
  | nil => exact h
  | cons i rest ih => exact ih _ (hstep i (rest ++ more) s h)

/-- The same store, asked in other words. -/
def comap {κ : Type*} (T : Transducer σ ι ο) (f : κ → ι) :
    Transducer σ κ ο where
  init := T.init
  step s k := T.step s (f k)

theorem answers_map {κ : Type*} (T : Transducer σ ι ο) (f : κ → ι)
    (inputs : List κ) :
    T.answers (inputs.map f) = (T.comap f).answers inputs := by
  have hfrom : ∀ (inputs : List κ) (s : σ), T.answersFrom s (inputs.map f) =
      (T.comap f).answersFrom s inputs := by
    intro inputs
    induction inputs with
    | nil => exact fun s => rfl
    | cons k rest ih =>
        exact fun s => congrArg ((T.step s (f k)).2 :: ·) (ih _)
  exact hfrom inputs T.init

/-- The same store, with other words for its answers. -/
def mapAnswers {κ : Type*} (T : Transducer σ ι ο) (g : ο → κ) :
    Transducer σ ι κ where
  init := T.init
  step s i := ((T.step s i).1, g (T.step s i).2)

theorem answers_mapAnswers {κ : Type*} (T : Transducer σ ι ο) (g : ο → κ)
    (inputs : List ι) :
    (T.mapAnswers g).answers inputs = (T.answers inputs).map g := by
  have hfrom : ∀ (inputs : List ι) (s : σ),
      (T.mapAnswers g).answersFrom s inputs =
        (T.answersFrom s inputs).map g := by
    intro inputs
    induction inputs with
    | nil => exact fun s => rfl
    | cons i rest ih => exact fun s => congrArg (g (T.step s i).2 :: ·) (ih _)
  exact hfrom inputs T.init

/-- A potential that pays for every answer pays for all of them. -/
theorem sum_cost_add_potential_le {M : Type*} [AddCommMonoid M] [Preorder M]
    [AddLeftMono M] (T : Transducer σ ι ο) {P : List ι → σ → Prop}
    (cost : ο → M) (potential : σ → M)
    (hstep : ∀ i rest s, P (i :: rest) s →
      cost (T.step s i).2 + potential (T.step s i).1 ≤ potential s ∧
        P rest (T.step s i).1)
    (inputs : List ι) (s : σ) (h : P inputs s) :
    ((T.answersFrom s inputs).map cost).sum +
        potential (T.stateFrom s inputs) ≤ potential s := by
  induction inputs generalizing s with
  | nil =>
      simp only [answersFrom, List.map_nil, List.sum_nil, zero_add, stateFrom,
        le_refl]
  | cons i rest ih =>
      obtain ⟨hpaid, hrest⟩ := hstep i rest s h
      have hall := ih _ hrest
      simp only [answersFrom, stateFrom, List.map_cons, List.sum_cons,
        add_assoc]
      exact (add_le_add_right hall _).trans hpaid

/-- A relation, indexed by the inputs to come, that makes the two answer the
next one alike and goes on after it. -/
def Bisimulation (T : Transducer σ ι ο) (U : Transducer τ ι ο)
    (R : List ι → σ → τ → Prop) : Prop :=
  ∀ i rest s t, R (i :: rest) s t →
    (T.step s i).2 = (U.step t i).2 ∧ R rest (T.step s i).1 (U.step t i).1

theorem Bisimulation.answersFrom_eq {T : Transducer σ ι ο}
    {U : Transducer τ ι ο} {R : List ι → σ → τ → Prop}
    (h : Bisimulation T U R) (inputs : List ι) (s : σ) (t : τ)
    (hR : R inputs s t) : T.answersFrom s inputs = U.answersFrom t inputs := by
  induction inputs generalizing s t with
  | nil => rfl
  | cons i rest ih =>
      obtain ⟨hanswer, hrest⟩ := h i rest s t hR
      simp only [answersFrom]
      rw [hanswer, ih _ _ hrest]

theorem Bisimulation.answers_eq {T : Transducer σ ι ο} {U : Transducer τ ι ο}
    {R : List ι → σ → τ → Prop} (h : Bisimulation T U R) {inputs : List ι}
    (hR : R inputs T.init U.init) : T.answers inputs = U.answers inputs :=
  h.answersFrom_eq inputs T.init U.init hR

end Transducer

end Shozee.Run
