import Mathlib.Logic.Function.Basic
import Shozee.Run.Machine

/-!
# Transactions beside one another

Any number of callers run transactions on shared data. A statement is a
function of the data as committed and of where its caller is; it says what the
data is then, where the caller goes, and what there is to report. What a caller
has locked follows from where it is: a statement that leads to a place with a
lock waits until nobody else has it, and a statement that leads to one without
gives it up.

A statement that waits reads what is committed when its wait is over, which is
READ COMMITTED under row locks. An open transaction shows nothing: it changes
the data with its last statement, and one that fails or crashes has a statement
that leads back to a place without locks.

`Server.Rules` is the proof rule. `inv` is what the data and the history are
at any time, `knows` what a caller in some place may rely on; a statement
keeps the first and gives its caller the second (`step`), and leaves what
others rely on, who hold no lock that the caller holds before or after
(`frame`).
-/

namespace Shozee.Run

/-- What a statement does. -/
structure Outcome (δ φ ε : Type*) where
  data : δ
  place : φ
  out : List ε

/-- Callers of one kind of server: data `δ`, locks `κ`, places `φ`, statements
`α`, reports `ε`. -/
structure Server (δ κ φ α ε : Type*) where
  init : δ
  start : φ
  held : φ → List κ
  statement : δ → φ → α → Option (Outcome δ φ ε)

namespace Server

variable {δ κ φ α ε : Type*} [DecidableEq κ]

/-- The data, who has which lock, and where everybody is. -/
structure State (δ κ φ : Type*) where
  data : δ
  lock : κ → Option ℕ
  place : ℕ → φ

section Steps

variable (S : Server δ κ φ α ε)

/-- The locks of the caller `p` when it has come to a place. -/
def relock (lock : κ → Option ℕ) (p : ℕ) (place : φ) (k : κ) : Option ℕ :=
  if k ∈ S.held place then some p
  else if lock k = some p then none
  else lock k

/-- The caller `p` runs a statement, once it can have the locks. -/
def step (s : State δ κ φ) : ℕ × α → Option (State δ κ φ × List ε)
  | (p, a) =>
      match S.statement s.data (s.place p) a with
      | none => none
      | some o =>
          if ∀ k ∈ S.held o.place, s.lock k = none ∨ s.lock k = some p then
            some ({ data := o.data
                    lock := S.relock s.lock p o.place
                    place := Function.update s.place p o.place }, o.out)
          else none

/-- The server as a machine: a step is a statement of one process. -/
def machine : Machine (State δ κ φ) (ℕ × α) ε where
  init := ⟨S.init, fun _ => none, fun _ => S.start⟩
  step := S.step

end Steps

variable {S : Server δ κ φ α ε}

theorem step_eq_some {s s' : State δ κ φ} {p : ℕ} {a : α} {out : List ε}
    (h : S.step s (p, a) = some (s', out)) :
    ∃ o, S.statement s.data (s.place p) a = some o ∧ out = o.out ∧
      (∀ k ∈ S.held o.place, s.lock k = none ∨ s.lock k = some p) ∧
      s' = ⟨o.data, S.relock s.lock p o.place,
        Function.update s.place p o.place⟩ := by
  simp only [step] at h
  split at h
  · cases h
  · next o ho =>
      split at h
      · next hfree =>
          cases h
          exact ⟨o, ho, rfl, hfree, rfl⟩
      · cases h

/-- Who is in a place with a lock has it. -/
def Locked (S : Server δ κ φ α ε) (s : State δ κ φ) : Prop :=
  ∀ p, ∀ k ∈ S.held (s.place p), s.lock k = some p

theorem Locked.step {s : State δ κ φ} (h : S.Locked s) {p : ℕ} {place : φ}
    {data : δ} (hfree : ∀ k ∈ S.held place,
      s.lock k = none ∨ s.lock k = some p) :
    S.Locked ⟨data, S.relock s.lock p place,
      Function.update s.place p place⟩ := by
  intro q k hk
  show S.relock s.lock p place k = some q
  unfold relock
  by_cases hq : q = p
  · subst hq
    have hk : k ∈ S.held place := by simpa using hk
    rw [if_pos hk]
  · have hk : k ∈ S.held (s.place q) := by simpa [hq] using hk
    have hheld := h q k hk
    by_cases hmine : k ∈ S.held place
    · cases hfree k hmine with
      | inl hnone => rw [hnone] at hheld; cases hheld
      | inr hp => rw [hp] at hheld; exact absurd (Option.some.inj hheld).symm hq
    · rw [if_neg hmine, if_neg, hheld]
      rw [hheld]
      exact fun heq => hq (Option.some.inj heq)

/-- The proof rule: an invariant, what a place may rely on, and their
obligations. A statement may be assumed to meet `ok`. -/
structure Rules (S : Server δ κ φ α ε)
    (ok : Conf (State δ κ φ) ε → ℕ × α → Prop)
    (inv : δ → List ε → Prop) (knows : δ → List ε → φ → Prop) : Prop where
  init : inv S.init []
  start : knows S.init [] S.start
  unlocked : S.held S.start = []
  step : ∀ (c : Conf (State δ κ φ) ε) (p : ℕ) (a : α) (o : Outcome δ φ ε),
    ok c (p, a) → inv c.st.data c.log →
    knows c.st.data c.log (c.st.place p) →
    S.statement c.st.data (c.st.place p) a = some o →
    inv o.data (o.out ++ c.log) ∧ knows o.data (o.out ++ c.log) o.place
  frame : ∀ (c : Conf (State δ κ φ) ε) (p : ℕ) (a : α) (o : Outcome δ φ ε)
    (q : ℕ), q ≠ p → ok c (p, a) → inv c.st.data c.log →
    knows c.st.data c.log (c.st.place p) →
    knows c.st.data c.log (c.st.place q) →
    S.statement c.st.data (c.st.place p) a = some o →
    (∀ k ∈ S.held (c.st.place p), k ∉ S.held (c.st.place q)) →
    (∀ k ∈ S.held o.place, k ∉ S.held (c.st.place q)) →
    knows o.data (o.out ++ c.log) (c.st.place q)

/-- What the rule keeps of a configuration. -/
structure Kept (S : Server δ κ φ α ε) (inv : δ → List ε → Prop)
    (knows : δ → List ε → φ → Prop) (c : Conf (State δ κ φ) ε) : Prop where
  locked : S.Locked c.st
  inv : inv c.st.data c.log
  knows : ∀ p, knows c.st.data c.log (c.st.place p)

variable {ok : Conf (State δ κ φ) ε → ℕ × α → Prop}
  {inv : δ → List ε → Prop} {knows : δ → List ε → φ → Prop}

theorem Rules.next (h : Rules S ok inv knows)
    {c c' : Conf (State δ κ φ) ε} {p : ℕ} {a : α}
    (hkept : Kept S inv knows c) (hok : ok c (p, a))
    (hnext : S.machine.next c (p, a) = some c') : Kept S inv knows c' := by
  obtain ⟨s, out, hstep, rfl⟩ := Machine.next_eq_some.mp hnext
  obtain ⟨o, ho, rfl, hfree, rfl⟩ := step_eq_some hstep
  have hmine := h.step c p a o hok hkept.inv (hkept.knows p) ho
  refine
    { locked := hkept.locked.step hfree
      inv := hmine.1
      knows := fun q => ?_ }
  show knows o.data (o.out ++ c.log) (Function.update c.st.place p o.place q)
  by_cases hq : q = p
  · subst hq
    rw [Function.update_self]
    exact hmine.2
  · rw [Function.update_of_ne hq]
    refine h.frame c p a o q hq hok hkept.inv (hkept.knows p) (hkept.knows q)
      ho (fun k hk hother => ?_) (fun k hk hother => ?_)
    · have hheld := hkept.locked p k hk
      rw [hkept.locked q k hother] at hheld
      exact hq (Option.some.inj hheld)
    · have hheld := hkept.locked q k hother
      cases hfree k hk with
      | inl hnone => rw [hnone] at hheld; cases hheld
      | inr hp =>
          rw [hp] at hheld
          exact hq (Option.some.inj hheld).symm

/-- Every run keeps the invariant, and everybody knows what its place says. -/
theorem Rules.kept (h : Rules S ok inv knows) {c : Conf (State δ κ φ) ε}
    (hreach : S.machine.ReachWhen ok c) : Kept S inv knows c := by
  refine Machine.ReachWhen.invariant (I := Kept S inv knows) ?_ ?_ hreach
  · refine
      { locked := fun p k hk => ?_
        inv := h.init
        knows := fun _ => h.start }
    have hk : k ∈ S.held S.start := hk
    rw [h.unlocked] at hk
    cases hk
  · intro c a c' _ hkept hok hnext
    exact h.next hkept hok hnext

/-! ## Conditions on what others are doing

Some steps are right only in view of the places of other callers. Such a
condition is met along a run when the callers that take part in it meet it. -/

/-- A step meets a condition on the place of each other caller. -/
def OthersMeet (cond : δ → φ → ℕ × α → φ → Prop) (c : Conf (State δ κ φ) ε)
    (a : ℕ × α) : Prop :=
  ∀ q, q ≠ a.1 → cond c.st.data (c.st.place a.1) a (c.st.place q)

/-- Who takes no part in a run stays where it is. -/
theorem place_of_next {c d : Conf (State δ κ φ) ε} {a : ℕ × α} {q : ℕ}
    (hq : q ≠ a.1) (h : S.machine.next c a = some d) :
    d.st.place q = c.st.place q := by
  obtain ⟨p, a⟩ := a
  obtain ⟨s, out, hstep, rfl⟩ := Machine.next_eq_some.mp h
  obtain ⟨o, -, rfl, -, rfl⟩ := step_eq_some hstep
  exact Function.update_of_ne hq _ _

/-- It is enough to look at the callers that take part. -/
theorem stepsMeet_of_callers {cond : δ → φ → ℕ × α → φ → Prop}
    (hidle : ∀ d place a, cond d place a S.start) (callers : List ℕ)
    (as : List (ℕ × α)) {c : Conf (State δ κ φ) ε}
    (hcallers : ∀ a ∈ as, a.1 ∈ callers)
    (hstart : ∀ q, q ∉ callers → c.st.place q = S.start)
    (h : S.machine.StepsMeet (fun c a => ∀ q ∈ callers, q ≠ a.1 →
      cond c.st.data (c.st.place a.1) a (c.st.place q)) c as) :
    S.machine.StepsMeet (OthersMeet cond) c as := by
  induction as generalizing c with
  | nil => trivial
  | cons a as ih =>
      obtain ⟨hfirst, hrest⟩ := h
      constructor
      · intro q hq
        by_cases hmem : q ∈ callers
        · exact hfirst q hmem hq
        · rw [hstart q hmem]
          exact hidle _ _ _
      · cases hnext : S.machine.next c a with
        | none => rw [hnext] at hrest; exact hrest.elim
        | some d =>
            rw [hnext] at hrest
            refine ih (fun a' ha' => hcallers a' (List.mem_cons_of_mem a ha'))
              (fun q hq => ?_) hrest
            have hne : q ≠ a.1 := fun heq =>
              hq (heq ▸ hcallers a List.mem_cons_self)
            rw [place_of_next hne hnext]
            exact hstart q hq

end Server

end Shozee.Run
