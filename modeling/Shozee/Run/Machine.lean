import Mathlib.Data.List.Basic
import Mathlib.Data.Option.Basic

/-!
# Machines that report what they did

A component of a server is a state, a partial step function over labelled
actions, and the observable facts a step reports: a row committed, a call
answered. Everything the environment chooses (which caller moves, what a
clock read, which fresh id was drawn) is part of the action, so the step
function itself is a function and a run is a list of actions.

The facts reported so far travel beside the state, newest first. Properties
of whole histories are then properties of a configuration, and one induction
serves them all: `ReachWhen.invariant`.

`Told ok log` says that each fact in a history is right in view of the facts
before it, which is how a property of two distant events becomes a property
of one step.

`ReachWhen ok` restricts a run to steps that meet a side condition on the
configuration they start from. A machine with no side condition is the case
`Reach`. `Simulation` carries reachability from one machine to another along
a projection, which is how a component that embeds another inherits its
invariants. A machine may be `watched`: what a property says about a whole
history, and the log does not, is then kept beside the state.
-/

namespace Shozee.Run

variable {σ α ε : Type*}

/-- A state together with everything reported so far, newest first. -/
structure Conf (σ ε : Type*) where
  st : σ
  log : List ε

/-- A machine: where it starts, and what an action does if it is enabled. -/
structure Machine (σ α ε : Type*) where
  init : σ
  step : σ → α → Option (σ × List ε)

namespace Machine

variable (M : Machine σ α ε)

/-- The configuration every run starts from. -/
def start : Conf σ ε := ⟨M.init, []⟩

/-- One action on a configuration. -/
def next (c : Conf σ ε) (a : α) : Option (Conf σ ε) :=
  (M.step c.st a).map fun r => ⟨r.1, r.2 ++ c.log⟩

/-- A whole run, given as the list of its actions. -/
def exec : Conf σ ε → List α → Option (Conf σ ε)
  | c, [] => some c
  | c, a :: as => (M.next c a).bind fun c' => exec c' as

/-- The configurations a run reaches when each of its steps meets `ok`. -/
inductive ReachWhen (ok : Conf σ ε → α → Prop) : Conf σ ε → Prop
  | start : ReachWhen ok M.start
  | next {c c' : Conf σ ε} {a : α} : ReachWhen ok c → ok c a →
      M.next c a = some c' → ReachWhen ok c'

/-- The configurations any run reaches. -/
def Reach (c : Conf σ ε) : Prop := M.ReachWhen (fun _ _ => True) c

/-- The configurations a run that goes on from `c` reaches under `ok`. -/
inductive LaterWhen (ok : Conf σ ε → α → Prop) (c : Conf σ ε) :
    Conf σ ε → Prop
  | refl : LaterWhen ok c c
  | next {d d' : Conf σ ε} {a : α} : LaterWhen ok c d → ok d a →
      M.next d a = some d' → LaterWhen ok c d'

/-- The configurations any run that goes on from `c` reaches. -/
def Later (c d : Conf σ ε) : Prop := M.LaterWhen (fun _ _ => True) c d

/-- Each step of the run `as` from `c` is enabled and meets `ok`. -/
def StepsMeet (ok : Conf σ ε → α → Prop) : Conf σ ε → List α → Prop
  | _, [] => True
  | c, a :: as => ok c a ∧
      match M.next c a with
      | none => False
      | some c' => StepsMeet ok c' as

instance stepsMeetDecidable (ok : Conf σ ε → α → Prop)
    [∀ c a, Decidable (ok c a)] :
    ∀ c as, Decidable (M.StepsMeet ok c as)
  | _, [] => isTrue trivial
  | c, a :: as =>
      have : Decidable (match M.next c a with
          | none => False
          | some c' => M.StepsMeet ok c' as) :=
        match M.next c a with
        | none => isFalse id
        | some c' => stepsMeetDecidable ok c' as
      inferInstanceAs (Decidable (_ ∧ _))

/-- The run `as` goes through, and what it ends in is `P`. -/
def EndsIn (P : Conf σ ε → Prop) (as : List α) : Prop :=
  ∃ c, M.exec M.start as = some c ∧ P c

instance endsInDecidable (P : Conf σ ε → Prop) [DecidablePred P]
    (as : List α) : Decidable (M.EndsIn P as) :=
  match h : M.exec M.start as with
  | none => isFalse fun ⟨_, hexec, _⟩ => nomatch h.symm.trans hexec
  | some c => decidable_of_iff (P c)
      ⟨fun hc => ⟨c, h, hc⟩, fun ⟨_, hexec, hc⟩ =>
        Option.some.inj (h.symm.trans hexec) ▸ hc⟩

end Machine

namespace Machine

variable {M : Machine σ α ε} {ok ok' : Conf σ ε → α → Prop}
  {c c' d d' : Conf σ ε} {a : α}

/-- What a step does, read off the step function: the new state, and the log
with what the step reported in front. -/
theorem next_eq_some :
    M.next c a = some c' ↔
      ∃ s out, M.step c.st a = some (s, out) ∧ c' = ⟨s, out ++ c.log⟩ := by
  unfold next
  constructor
  · intro h
    obtain ⟨r, hr, hc⟩ := Option.map_eq_some_iff.mp h
    exact ⟨r.1, r.2, hr, hc.symm⟩
  · rintro ⟨s, out, hr, rfl⟩
    rw [hr]
    rfl

theorem exec_cons {as : List α} :
    M.exec c (a :: as) = (M.next c a).bind fun c' => M.exec c' as := rfl

theorem LaterWhen.trans (h : M.LaterWhen ok c d) (h' : M.LaterWhen ok d d') :
    M.LaterWhen ok c d' := by
  induction h' with
  | refl => exact h
  | next _ hok hnext ih => exact .next ih hok hnext

theorem ReachWhen.later (h : M.ReachWhen ok c) (h' : M.LaterWhen ok c d) :
    M.ReachWhen ok d := by
  induction h' with
  | refl => exact h
  | next _ hok hnext ih => exact .next ih hok hnext

theorem ReachWhen.mono (himp : ∀ c a, ok c a → ok' c a)
    (h : M.ReachWhen ok c) : M.ReachWhen ok' c := by
  induction h with
  | start => exact .start
  | next _ hok hnext ih => exact .next ih (himp _ _ hok) hnext

/-- A condition may be replaced by one that it implies wherever the run
gets to. -/
theorem ReachWhen.imp {I : Conf σ ε → Prop}
    (hI : ∀ c, M.ReachWhen ok c → I c)
    (himp : ∀ c a, I c → ok c a → ok' c a) (h : M.ReachWhen ok c) :
    M.ReachWhen ok' c := by
  induction h with
  | start => exact .start
  | next hr hok hnext ih => exact .next ih (himp _ _ (hI _ hr) hok) hnext

theorem ReachWhen.reach (h : M.ReachWhen ok c) : M.Reach c :=
  h.mono fun _ _ _ => trivial

/-- The one induction over runs: what holds at the start and is kept by every
step that meets the condition, holds wherever the run gets to. -/
theorem ReachWhen.invariant {I : Conf σ ε → Prop} (hstart : I M.start)
    (hstep : ∀ c a c', M.ReachWhen ok c → I c → ok c a →
      M.next c a = some c' → I c')
    (h : M.ReachWhen ok c) : I c := by
  induction h with
  | start => exact hstart
  | next hr hok hnext ih => exact hstep _ _ _ hr ih hok hnext

/-- The same induction along a run that is already under way. -/
theorem LaterWhen.invariant {I : Conf σ ε → Prop} (hc : I c)
    (hstep : ∀ d a d', I d → ok d a → M.next d a = some d' → I d')
    (h : M.LaterWhen ok c d) : I d := by
  induction h with
  | refl => exact hc
  | next _ hok hnext ih => exact hstep _ _ _ ih hok hnext

/-- A run given as a list of actions reaches what it ends in, when its steps
meet the condition. -/
theorem ReachWhen.of_exec (h : M.ReachWhen ok c) (as : List α)
    (hok : M.StepsMeet ok c as) (hexec : M.exec c as = some d) :
    M.ReachWhen ok d := by
  induction as generalizing c with
  | nil =>
      obtain rfl : c = d := by simpa [exec] using hexec
      exact h
  | cons a as ih =>
      obtain ⟨hfirst, hrest⟩ := hok
      rw [exec_cons] at hexec
      cases hnext : M.next c a with
      | none => rw [hnext] at hrest; exact hrest.elim
      | some c' =>
          rw [hnext] at hrest hexec
          exact ih (.next h hfirst hnext) hrest hexec

/-- Any run that executes reaches what it ends in. -/
theorem reach_of_exec (as : List α) (hexec : M.exec M.start as = some d) :
    M.Reach d := by
  have key : ∀ (as : List α) (c : Conf σ ε), M.Reach c →
      M.exec c as = some d → M.Reach d := by
    intro as
    induction as with
    | nil =>
        intro c hc h
        obtain rfl : c = d := by simpa [exec] using h
        exact hc
    | cons a as ih =>
        intro c hc h
        rw [exec_cons] at h
        obtain ⟨c', hnext, hrest⟩ := Option.bind_eq_some_iff.mp h
        exact ih c' (.next hc trivial hnext) hrest
  exact key as M.start .start hexec

end Machine

/-! ## Histories

A history is in order if each fact is right given the facts before it. One step
adds at most one fact, so a step lemma is about that fact alone. -/

/-- Each fact of the history is `ok` given what had been told before it. -/
def Told (ok : List ε → ε → Prop) : List ε → Prop
  | [] => True
  | e :: older => ok older e ∧ Told ok older

theorem Told.nil {ok : List ε → ε → Prop} : Told ok [] := trivial

theorem Told.older {ok : List ε → ε → Prop} {newer older : List ε}
    (h : Told ok (newer ++ older)) : Told ok older := by
  induction newer with
  | nil => exact h
  | cons e newer ih => exact ih h.2

/-- What the history says about one of its facts. -/
theorem Told.ok {ok : List ε → ε → Prop} {newer older : List ε} {e : ε}
    (h : Told ok (newer ++ e :: older)) : ok older e :=
  h.older.1

/-- A fact stands somewhere in the history, and is right there. -/
theorem Told.of_mem {ok : List ε → ε → Prop} {log : List ε} {e : ε}
    (h : Told ok log) (he : e ∈ log) :
    ∃ older, older ⊆ log ∧ ok older e := by
  obtain ⟨newer, older, rfl⟩ := List.append_of_mem he
  refine ⟨older, ?_, h.ok⟩
  exact fun x hx => List.mem_append_right newer (List.mem_cons_of_mem e hx)

/-- Where a fact stands in a history that one step has just added to: it is
the new one, or it stands where it stood. -/
theorem split_of_append {out log newer older : List ε} {e : ε}
    (hlen : out.length ≤ 1) (h : out ++ log = newer ++ e :: older) :
    (out = [e] ∧ newer = [] ∧ log = older) ∨
      ∃ rest, newer = out ++ rest ∧ log = rest ++ e :: older := by
  match out, hlen with
  | [], _ => exact Or.inr ⟨newer, rfl, h⟩
  | [e'], _ =>
      cases newer with
      | nil =>
          obtain ⟨rfl, rfl⟩ := List.cons.inj h
          exact Or.inl ⟨rfl, rfl, rfl⟩
      | cons e'' rest =>
          obtain ⟨rfl, hrest⟩ := List.cons.inj h
          exact Or.inr ⟨rest, rfl, hrest⟩

/-- A step that reports at most one fact keeps the history right when that
fact is. -/
theorem Told.append {ok : List ε → ε → Prop} {out log : List ε}
    (h : Told ok log) (hlen : out.length ≤ 1) (hout : ∀ e ∈ out, ok log e) :
    Told ok (out ++ log) := by
  match out, hlen with
  | [], _ => exact h
  | [e], _ => exact ⟨hout e List.mem_cons_self, h⟩

/-! ## One machine inside another

A machine that works by moving another one: what holds of the inner one in
every run holds of its part of the outer state. -/

variable {σ' α' ε' : Type*}

/-- `M` moves a copy of `N`: along `proj`, every step of `M` either leaves
the copy alone and reports nothing of it, or is one of its steps. -/
structure Simulation (M : Machine σ α ε) (N : Machine σ' α' ε') where
  proj : σ → σ'
  seen : ε → Option ε'
  init_eq : proj M.init = N.init
  step_sim : ∀ s a s' out, M.step s a = some (s', out) →
    (proj s' = proj s ∧ out.filterMap seen = []) ∨
      ∃ b, N.step (proj s) b = some (proj s', out.filterMap seen)

namespace Simulation

variable {M : Machine σ α ε} {N : Machine σ' α' ε'}

/-- The configuration of the inner machine that an outer one contains. -/
def view (S : Simulation M N) (c : Conf σ ε) : Conf σ' ε' :=
  ⟨S.proj c.st, c.log.filterMap S.seen⟩

/-- What any run of the outer machine does to the inner one, the inner
machine could have done by itself. -/
theorem reach (S : Simulation M N) {c : Conf σ ε} (h : M.Reach c) :
    N.Reach (S.view c) := by
  refine Machine.ReachWhen.invariant (I := fun c => N.Reach (S.view c)) ?_ ?_ h
  · show N.Reach ⟨S.proj M.init, []⟩
    rw [S.init_eq]
    exact .start
  · intro c a c' _ ih _ hnext
    obtain ⟨s, out, hstep, rfl⟩ := Machine.next_eq_some.mp hnext
    rcases S.step_sim _ _ _ _ hstep with ⟨hproj, hout⟩ | ⟨b, hb⟩
    · have hview : S.view ⟨s, out ++ c.log⟩ = S.view c := by
        simp only [view, hproj, List.filterMap_append, hout, List.nil_append]
      rw [hview]
      exact ih
    · refine .next (a := b) ih trivial (Machine.next_eq_some.mpr ?_)
      exact ⟨_, _, hb, by simp only [view, List.filterMap_append]⟩

end Simulation

/-! ## A machine that is watched

A record beside the state, for what a proof wants to remember of a run. -/

variable {γ : Type*}

/-- The machine with a record of its steps that the steps do not read. -/
def Machine.watched (M : Machine σ α ε) (record : γ)
    (note : σ → σ → List ε → γ → γ) : Machine (σ × γ) α ε where
  init := (M.init, record)
  step s a := (M.step s.1 a).map fun r => ((r.1, note s.1 r.1 r.2 s.2), r.2)

section Watched

variable {M : Machine σ α ε} {record : γ} {note : σ → σ → List ε → γ → γ}

theorem watched_step {s s' : σ × γ} {a : α} {out : List ε} :
    (M.watched record note).step s a = some (s', out) ↔
      M.step s.1 a = some (s'.1, out) ∧ s'.2 = note s.1 s'.1 out s.2 := by
  constructor
  · intro h
    obtain ⟨r, hr, heq⟩ := Option.map_eq_some_iff.mp h
    cases heq
    exact ⟨hr, rfl⟩
  · rintro ⟨hr, hrecord⟩
    refine Option.map_eq_some_iff.mpr ⟨(s'.1, out), hr, ?_⟩
    rw [← hrecord]

/-- Watching a machine leaves its runs as they are. -/
def watching (M : Machine σ α ε) (record : γ)
    (note : σ → σ → List ε → γ → γ) :
    Simulation (M.watched record note) M where
  proj := Prod.fst
  seen := some
  init_eq := rfl
  step_sim := by
    intro s a s' out h
    refine .inr ⟨a, ?_⟩
    rw [List.filterMap_some]
    exact (watched_step.mp h).1

theorem reach_of_watched {c : Conf (σ × γ) ε}
    (h : (M.watched record note).Reach c) : M.Reach ⟨c.st.1, c.log⟩ := by
  have hview := (watching M record note).reach h
  unfold Simulation.view watching at hview
  rw [List.filterMap_some] at hview
  exact hview

/-- Every run can be watched. -/
theorem exists_watched {c : Conf σ ε} (h : M.Reach c) :
    ∃ r, (M.watched record note).Reach ⟨(c.st, r), c.log⟩ := by
  refine Machine.ReachWhen.invariant
    (I := fun c => ∃ r, (M.watched record note).Reach ⟨(c.st, r), c.log⟩)
    ⟨record, .start⟩ ?_ h
  rintro c a c' _ ⟨r, hr⟩ _ hnext
  obtain ⟨s, out, hstep, rfl⟩ := Machine.next_eq_some.mp hnext
  refine ⟨note c.st s out r, .next (a := a) hr trivial ?_⟩
  exact Machine.next_eq_some.mpr
    ⟨(s, note c.st s out r), out, watched_step.mpr ⟨hstep, rfl⟩, rfl⟩

end Watched

end Shozee.Run
