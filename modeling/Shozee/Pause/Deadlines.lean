import Mathlib
import Shozee.Pause.SingleClaim

/-!
# A pause lives as long as it was told to

A client is told of a pause with its deadline. As long as nobody takes the
pause from there, the key must hold it until then.

A key that is set gets a time to live that covers the record's deadline. A
key that is swapped keeps the deadline it has, which is right for a claim, a
release and a cancellation: none of them puts the record's deadline off. An
install over what is still stored, and a revision, do put it off; these need a
key that lives long enough already (`Fitting`).
-/

namespace Shozee.Pause

open Shozee.Run

variable {υ : Type} {interactions : Interactions υ}

/-! ## What was told and still stands

A pause stands from the write that told a client of it until somebody takes it
on. What a call has read since then is this pause, or nothing. -/

/-- The pause that a write tells its client of. -/
def Event.told : Event υ → Option (PauseRecord υ)
  | .wrote _ .«open» _ after | .wrote _ .revise _ after => after
  | _ => none

/-- The revision that a write takes on: it is claimed, cancelled, revised or
replaced. -/
def Event.replaced : Event υ → Option RevisionKey
  | .wrote _ _ (some before) _ => some before.key
  | _ => none

/-- The pause was told, and nobody has taken it on since. -/
def Standing (r : PauseRecord υ) : List (Event υ) → Prop
  | [] => False
  | e :: log => e.told = some r ∨ Standing r log ∧ e.replaced ≠ some r.key

instance standingDecidable [DecidableEq υ] (r : PauseRecord υ) :
    ∀ log : List (Event υ), Decidable (Standing r log)
  | [] => inferInstanceAs (Decidable False)
  | e :: log =>
      have : Decidable (Standing r log) := standingDecidable r log
      inferInstanceAs (Decidable
        (e.told = some r ∨ Standing r log ∧ e.replaced ≠ some r.key))

/-- The call that has read, if the event is a read. -/
def Event.readBy : Event υ → Option Nat
  | .read p _ => some p
  | _ => none

/-- The call has read its key since the pause was told. -/
def ReadSince (p : Nat) (r : PauseRecord υ) : List (Event υ) → Prop
  | [] => False
  | e :: log => e.told ≠ some r ∧ (e.readBy = some p ∨ ReadSince p r log)

theorem told_of_quiet {e : Event υ} (h : e.isWrite = false) :
    e.told = none ∧ e.replaced = none := by
  match e, h with
  | .rejected _, _ => exact ⟨rfl, rfl⟩
  | .read _ _, _ => exact ⟨rfl, rfl⟩
  | .looked _ _, _ => exact ⟨rfl, rfl⟩
  | .answered _ _, _ => exact ⟨rfl, rfl⟩

theorem told_eq_some {e : Event υ} {r : PauseRecord υ}
    (h : e.told = some r) : ∃ p move before,
      e = .wrote p move before (some r) ∧
        (move = .«open» ∨ move = .revise) := by
  unfold Event.told at h
  split at h
  · rename_i p before after
    exact ⟨p, .«open», before, by rw [h], Or.inl rfl⟩
  · rename_i p before after
    exact ⟨p, .revise, before, by rw [h], Or.inr rfl⟩
  · cases h

/-- What writes nothing leaves each pause where it stands. -/
theorem standing_append {r : PauseRecord υ} {out log : List (Event υ)}
    (hquiet : ∀ e ∈ out, e.isWrite = false)
    (h : Standing r (out ++ log)) : Standing r log := by
  induction out with
  | nil => exact h
  | cons e out ih =>
      obtain ⟨htold, -⟩ := told_of_quiet (hquiet e List.mem_cons_self)
      rcases h with h | h
      · rw [htold] at h
        cases h
      · exact ih (fun e he => hquiet e (List.mem_cons_of_mem _ he)) h.1

/-- A pause that stands is an open one. -/
theorem standing_open {r : PauseRecord υ} {log : List (Event υ)}
    (htold : Told Follows log) (h : Standing r log) :
    r.status = .«open» := by
  induction log with
  | nil => exact h.elim
  | cons e log ih =>
      rcases h with h | h
      · obtain ⟨p, move, before, rfl, rfl | rfl⟩ := told_eq_some h
        · obtain ⟨r', hr, hopen, -⟩ := htold.1
          exact Option.some.inj hr ▸ hopen
        · obtain ⟨r₁, r', -, hr, hopen, -⟩ := htold.1
          exact Option.some.inj hr ▸ hopen
      · exact ih htold.2 h.1

/-- A call that has read since a pause was told, and not just now, has done so
before, and the pause stood there. -/
theorem readSince_append {r : PauseRecord υ} {p : Nat}
    {out log : List (Event υ)} (hout : ∀ e ∈ out, e.readBy ≠ some p)
    (hstanding : Standing r (out ++ log)) (h : ReadSince p r (out ++ log)) :
    Standing r log ∧ ReadSince p r log := by
  induction out with
  | nil => exact ⟨hstanding, h⟩
  | cons e out ih =>
      obtain ⟨hnew, hread⟩ := h
      have hold := hread.resolve_left (hout e List.mem_cons_self)
      have hstood := (hstanding.resolve_left hnew).1
      exact ih (fun e he => hout e (List.mem_cons_of_mem _ he)) hstood hold

theorem ReadSince.mem {r : PauseRecord υ} {p : Nat} {log : List (Event υ)}
    (h : ReadSince p r log) : ∃ seen, .read p seen ∈ log := by
  induction log with
  | nil => exact h.elim
  | cons e log ih =>
      rcases h.2 with hread | hold
      · match e, hread with
        | .read q seen, hread =>
            obtain rfl := Option.some.inj hread
            exact ⟨seen, List.mem_cons_self⟩
      · obtain ⟨seen, hmem⟩ := ih hold
        exact ⟨seen, List.mem_cons_of_mem _ hmem⟩

/-! ## The condition

A key that is set lives at least as long as its record. A swap keeps the
deadline that the key has, and that is enough unless it brings a later one. -/

variable [DecidableEq υ]

/-- The record that a call is about to write over a stored one with a deadline
of its own, and the deadline of the key. -/
def overwrites (s : State υ) (call : Call υ) : Option (PauseRecord υ × Int) :=
  match call.phase with
  | .swapping _ expected next _ =>
      if (call.task.move = .«open» ∨ call.task.move = .revise) ∧
          s.get next.conversationId = some expected then
        (s.store next.conversationId).map fun entry => (next, entry.deadline)
      else none
  | _ => none

/-- Every clock is the store's. -/
def OneClock (c : Conf (State υ) (Event υ)) : Act υ → Prop
  | .«open» _ _ _ now | .decide _ now => now = c.st.now
  | _ => True

/-- A key that is written over lives as long as what is written. -/
def Outlives (c : Conf (State υ) (Event υ)) : Act υ → Prop
  | .write p => ∀ call ∈ c.st.calls[p]?, ∀ w ∈ overwrites c.st call,
      w.1.expiresAt ≤ w.2
  | _ => True

/-- The step reads one clock, and its key does not go before its time. -/
def Fitting (c : Conf (State υ) (Event υ)) (a : Act υ) : Prop :=
  OneClock c a ∧ Outlives c a

instance (c : Conf (State υ) (Event υ)) :
    ∀ a : Act υ, Decidable (OneClock c a)
  | .«open» .. | .decide .. => inferInstanceAs (Decidable (_ = _))
  | .tick _ | .call _ | .read _ | .write _ => .isTrue trivial

instance (c : Conf (State υ) (Event υ)) :
    ∀ a : Act υ, Decidable (Outlives c a)
  | .write p => inferInstanceAs (Decidable (∀ call ∈ c.st.calls[p]?, _))
  | .tick _ | .«open» .. | .call _ | .read _ | .decide .. => .isTrue trivial

instance (c : Conf (State υ) (Event υ)) (a : Act υ) :
    Decidable (Fitting c a) :=
  inferInstanceAs (Decidable (_ ∧ _))

/-! ## Who wrote and who looked

Each kind of step by what it reports: reading shows the record, deciding the
clock, and writing the move. -/

section Actions

variable {s s' : State υ} {a : Act υ} {out : List (Event υ)} {p : Nat}

omit [DecidableEq υ] in
theorem callRead_out {call : Call υ} (h : callRead s p call = some (s', out)) :
    ∀ e ∈ out, e.isWrite = false ∧ ∀ q now, e ≠ .looked q now := by
  unfold callRead at h
  dsimp only at h
  split at h
  · obtain ⟨-, rfl⟩ := Prod.mk.inj (Option.some.inj h)
    simp [Event.isWrite]
  · obtain ⟨-, rfl⟩ := Prod.mk.inj (Option.some.inj h)
    simp [Event.isWrite]
  · cases h

omit [DecidableEq υ] in
theorem callDecide_out {call : Call υ} {now : Int}
    (h : callDecide interactions s p call now = some (s', out)) :
    ∀ e ∈ out, e = .looked p now ∨ ∃ answer, e = .answered p answer := by
  unfold callDecide at h
  split at h
  · split at h
    all_goals
      obtain ⟨-, rfl⟩ := Prod.mk.inj (Option.some.inj h)
      intro e he
    · rcases List.mem_pair.mp he with he | he
      · exact Or.inr ⟨_, he⟩
      · exact Or.inl he
    · exact Or.inl (List.mem_singleton.mp he)
    · exact Or.inl (List.mem_singleton.mp he)
  · cases h

theorem callWrite_out {call : Call υ}
    (h : callWrite s p call = some (s', out)) :
    ∀ e ∈ out, ∀ q now, e ≠ .looked q now := by
  unfold callWrite at h
  split at h
  · split at h
    · obtain ⟨-, rfl⟩ := Prod.mk.inj (Option.some.inj h)
      split <;> simp
    · split at h
      all_goals
        obtain ⟨-, rfl⟩ := Prod.mk.inj (Option.some.inj h)
        simp
  · split at h
    all_goals
      obtain ⟨-, rfl⟩ := Prod.mk.inj (Option.some.inj h)
      simp
  · split at h
    all_goals
      obtain ⟨-, rfl⟩ := Prod.mk.inj (Option.some.inj h)
      simp
  · cases h

/-- Only a write writes. -/
theorem wrote_of_step (h : step interactions s a = some (s', out))
    {move : Move} {before after : Option (PauseRecord υ)}
    (he : .wrote p move before after ∈ out) : a = .write p := by
  cases a with
  | write q =>
      obtain ⟨call, -, hwrite⟩ := Option.bind_eq_some_iff.mp h
      have hmoves : ∃ s₁ ph, s' = s₁.setCall q { call with phase := ph } ∧
          Advances interactions s q call.task call.phase s₁ ph out :=
        advances_of_write hwrite
      obtain ⟨s₁, ph, -, hadv⟩ := hmoves
      obtain rfl := Option.some.inj (hadv.call_eq _ he)
      rfl
  | tick now =>
      simp only [step] at h
      split at h <;> cases h
      cases he
  | «open» scope input id now =>
      simp only [step] at h
      split at h
      · cases h
      · split at h <;> cases h
        · simp at he
        · cases he
  | call task =>
      simp only [step] at h
      split at h <;> cases h
      cases he
  | read q =>
      obtain ⟨call, -, hread⟩ := Option.bind_eq_some_iff.mp h
      have hquiet := (callRead_out hread _ he).1
      cases hquiet
  | decide q now =>
      obtain ⟨call, -, hdecide⟩ := Option.bind_eq_some_iff.mp h
      rcases callDecide_out hdecide _ he with heq | ⟨answer, heq⟩
      · cases heq
      · cases heq

/-- Only a decision looks at the clock. -/
theorem looked_of_step (h : step interactions s a = some (s', out))
    {now : Int} (he : .looked p now ∈ out) : a = .decide p now := by
  cases a with
  | write q =>
      obtain ⟨call, -, hwrite⟩ := Option.bind_eq_some_iff.mp h
      exact absurd rfl (callWrite_out hwrite _ he p now)
  | tick now' =>
      simp only [step] at h
      split at h <;> cases h
      cases he
  | «open» scope input id now' =>
      simp only [step] at h
      split at h
      · cases h
      · split at h <;> cases h
        · simp at he
        · cases he
  | call task =>
      simp only [step] at h
      split at h <;> cases h
      cases he
  | read q =>
      obtain ⟨call, -, hread⟩ := Option.bind_eq_some_iff.mp h
      exact absurd rfl ((callRead_out hread _ he).2 p now)
  | decide q now' =>
      obtain ⟨call, -, hdecide⟩ := Option.bind_eq_some_iff.mp h
      rcases callDecide_out hdecide _ he with heq | ⟨answer, heq⟩
      · cases heq
        rfl
      · cases heq

end Actions

/-! ## What a key outlives

The invariant on keys and on calls that are about to set one. Steps that write
nothing are one lemma, and the others go by the command of the store. -/

/-- Each key outlives what it holds, each key that is about to be set will, and
what stands is still stored. -/
structure Timed (c : Conf (State υ) (Event υ)) : Prop where
  stored : ∀ k entry, c.st.store k = some entry →
    entry.record.expiresAt ≤ entry.deadline
  setting : ∀ (p : Nat) (call : Call υ) (attempt : Nat) (next : PauseRecord υ)
    (ttlMs : Int), c.st.calls[p]? = some call →
      call.phase = .setting attempt next ttlMs →
        next.expiresAt ≤ c.st.now + ttlMs
  held : ∀ r, Standing r c.log → c.st.now < r.expiresAt →
    ∃ deadline, c.st.store r.conversationId = some ⟨r, deadline⟩

omit [DecidableEq υ] in
/-- A pause that stands is found until its deadline. -/
theorem Timed.get {c : Conf (State υ) (Event υ)} (h : Timed c)
    {r : PauseRecord υ} (hstanding : Standing r c.log)
    (hearly : c.st.now < r.expiresAt) :
    c.st.get r.conversationId = some r := by
  obtain ⟨deadline, hstore⟩ := h.held r hstanding hearly
  have hlong := h.stored _ _ hstore
  have hlive : c.st.now < deadline := lt_of_lt_of_le hearly hlong
  unfold State.get
  rw [hstore]
  exact if_pos hlive

omit [DecidableEq υ] in
/-- A step that writes nothing. -/
theorem Timed.quiet {s s' : State υ} {out log : List (Event υ)}
    (h : Timed ⟨s, log⟩) (hquiet : ∀ e ∈ out, e.isWrite = false)
    (hstore : s'.store = s.store) (hnow : s.now ≤ s'.now)
    (hcalls : ∀ (p : Nat) (call : Call υ) (attempt : Nat)
      (next : PauseRecord υ) (ttlMs : Int), s'.calls[p]? = some call →
        call.phase = .setting attempt next ttlMs →
          next.expiresAt ≤ s.now + ttlMs) : Timed ⟨s', out ++ log⟩ := by
  refine ⟨?_, ?_, ?_⟩
  · simp only [hstore]
    exact h.stored
  · intro p call attempt next ttlMs hp hph
    have hlong := hcalls p call attempt next ttlMs hp hph
    show next.expiresAt ≤ s'.now + ttlMs
    omega
  · intro r hstanding hearly
    simp only [hstore]
    exact h.held r (standing_append hquiet hstanding)
      (lt_of_le_of_lt hnow hearly)

omit [DecidableEq υ] in
/-- A write to a key that outlives what is written there. -/
theorem Timed.write {s s' : State υ} {notes log : List (Event υ)} {k : Text}
    {entry : Option (Entry υ)} {p : Nat} {move : Move}
    {before after : Option (PauseRecord υ)} (h : Timed ⟨s, log⟩)
    (hnotes : ∀ e ∈ notes, e.isWrite = false)
    (hget : s.get k = before)
    (hstore : s'.store = Function.update s.store k entry)
    (hnow : s'.now = s.now) (hafter : entry.map Entry.record = after)
    (hkeyed : ∀ next ∈ after, next.conversationId = k)
    (hlong : ∀ e ∈ entry, e.record.expiresAt ≤ e.deadline)
    (hcalls : ∀ (q : Nat) (call : Call υ) (attempt : Nat)
      (next : PauseRecord υ) (ttlMs : Int), s'.calls[q]? = some call →
        call.phase = .setting attempt next ttlMs →
          next.expiresAt ≤ s.now + ttlMs) :
    Timed ⟨s', notes ++ .wrote p move before after :: log⟩ := by
  have hstoreAt : ∀ k', s'.store k' = if k' = k then entry else s.store k' := by
    intro k'
    rw [hstore, Function.update_apply]
  refine ⟨?_, ?_, ?_⟩
  · intro k' entry' hentry
    change s'.store k' = some entry' at hentry
    rw [hstoreAt] at hentry
    split at hentry
    · exact hlong entry' hentry
    · exact h.stored k' entry' hentry
  · intro q call attempt next ttlMs hq hph
    show next.expiresAt ≤ s'.now + ttlMs
    rw [hnow]
    exact hcalls q call attempt next ttlMs hq hph
  · intro r hstanding hearly
    change s'.now < r.expiresAt at hearly
    rw [hnow] at hearly
    show ∃ deadline, s'.store r.conversationId = some ⟨r, deadline⟩
    rw [hstoreAt]
    rcases standing_append hnotes hstanding with htold | ⟨hold, hkept⟩
    · obtain ⟨_, _, _, heq, -⟩ := told_eq_some htold
      cases heq
      rw [if_pos (hkeyed r rfl)]
      obtain ⟨e, rfl, rfl⟩ := Option.map_eq_some_iff.mp hafter
      exact ⟨e.deadline, rfl⟩
    · -- the key under which it stands is not the one that is written
      have hfound := h.get hold hearly
      have hne : r.conversationId ≠ k := by
        rintro rfl
        change s.get r.conversationId = some r at hfound
        rw [hget] at hfound
        subst hfound
        exact hkept rfl
      rw [if_neg hne]
      exact h.held r hold hearly

/-- A swap that puts no deadline off, or one that the key outlives. -/
theorem swapped_outlives {s : State υ} {log : List (Event υ)} {p : Nat}
    {call : Call υ} {attempt : Nat} {expected next : PauseRecord υ}
    {won : Answer υ} {now deadline : Int}
    (hp : s.calls[p]? = some call)
    (hph : call.phase = .swapping attempt expected next won)
    (hswaps : Swaps interactions call.task expected next won now)
    (hget : s.get next.conversationId = some expected)
    (hstore : s.store next.conversationId = some ⟨expected, deadline⟩)
    (hlong : expected.expiresAt ≤ deadline)
    (hoverwrite : Outlives ⟨s, log⟩ (.write p)) :
    next.expiresAt ≤ deadline := by
  -- an install and a revision have a deadline of their own
  have hown : call.task.move = .«open» ∨ call.task.move = .revise →
      next.expiresAt ≤ deadline := by
    intro hmove
    refine hoverwrite call hp (next, deadline) ?_
    unfold overwrites
    rw [hph]
    show (next, deadline) ∈ (if _ then _ else none)
    rw [if_pos ⟨hmove, hget⟩, hstore]
    rfl
  obtain ⟨task, phase⟩ := call
  cases hswaps with
  | install => exact hown (Or.inl rfl)
  | revise => exact hown (Or.inr rfl)
  | claim => exact hlong
  | release => exact hlong
  | abandon =>
      have hmin := min_le_left expected.expiresAt (now + ABANDON_HOLD_MS)
      exact hmin.trans hlong

omit [DecidableEq υ] in
/-- Who is about to set a key after a step of the call `p`. -/
theorem Timed.calls {s s' : State υ} {log : List (Event υ)} {p : Nat}
    {call : Call υ} {ph' : Phase υ} (h : Timed ⟨s, log⟩)
    (hcalls : s'.calls = s.calls) (hp : s.calls[p]? = some call)
    (hown : ∀ attempt next ttlMs, ph' = .setting attempt next ttlMs →
      next.expiresAt ≤ s.now + ttlMs)
    (q : Nat) (call' : Call υ) (attempt : Nat) (next : PauseRecord υ)
    (ttlMs : Int)
    (hq : (s'.setCall p { call with phase := ph' }).calls[q]? = some call')
    (hph : call'.phase = .setting attempt next ttlMs) :
    next.expiresAt ≤ s.now + ttlMs := by
  rcases call_cases hcalls hp hq with ⟨rfl, rfl⟩ | ⟨-, hq⟩
  · exact hown attempt next ttlMs hph
  · exact h.setting q call' attempt next ttlMs hq hph

theorem Timed.advance {s s' : State υ} {log out : List (Event υ)} {a : Act υ}
    {p : Nat} {call : Call υ} {ph' : Phase υ} (h : Timed ⟨s, log⟩)
    (hp : s.calls[p]? = some call)
    (hready : Ready interactions log p call.task call.phase)
    (hadv : Advances interactions s p call.task call.phase s' ph' out)
    (hstep : step interactions s a =
      some (s'.setCall p { call with phase := ph' }, out))
    (hfit : Fitting ⟨s, log⟩ a) :
    Timed ⟨s'.setCall p { call with phase := ph' }, out ++ log⟩ := by
  obtain ⟨hnow, -, hcalls⟩ := hadv.frame
  obtain ⟨task, phase⟩ := call
  dsimp only at hready hadv
  -- whatever leads anywhere but to a set
  have hafter : (∀ attempt next ttlMs, ph' ≠ .setting attempt next ttlMs) →
      ∀ (q : Nat) (call' : Call υ) (attempt : Nat) (next : PauseRecord υ)
        (ttlMs : Int), (s'.setCall p ⟨task, ph'⟩).calls[q]? = some call' →
          call'.phase = .setting attempt next ttlMs →
            next.expiresAt ≤ s.now + ttlMs := fun hnot =>
    h.calls hcalls hp fun attempt next ttlMs hph =>
      absurd hph (hnot attempt next ttlMs)
  have hle : s.now ≤ (s'.setCall p ⟨task, ph'⟩).now := hnow.ge
  have hanswer : ∀ {answer : Answer υ},
      ∀ e ∈ [Event.answered p answer], e.isWrite = false := by
    intro answer e he
    rw [List.mem_singleton.mp he]
    rfl
  cases hadv with
  | @swapped attempt expected next won hget =>
      obtain ⟨hread, now, -, hswaps⟩ := hready
      obtain ⟨deadline, hstore, -⟩ := get_eq_some hget
      obtain rfl := wrote_of_step hstep
        (List.mem_append_right _ List.mem_cons_self)
      have hlong := swapped_outlives hp rfl hswaps hget hstore
        (h.stored _ _ hstore) hfit.2
      have hset : (s.swap next).store = Function.update s.store
          next.conversationId (some ⟨next, deadline⟩) := by
        show Function.update s.store _ _ = _
        rw [hstore]
        rfl
      rw [List.append_assoc]
      refine h.write ?_ hget hset rfl rfl ?_ ?_ (hafter ?_)
      · split
        · exact hanswer
        · exact fun e he => (List.not_mem_nil he).elim
      · intro next' hnext
        cases hnext
        rfl
      · intro e he
        cases he
        exact hlong
      · cases task <;> exact fun _ _ _ h => by cases h
  | @set attempt next ttlMs hget =>
      have hlong : next.expiresAt ≤ s.now + ttlMs :=
        h.setting p _ attempt next ttlMs hp rfl
      have hwrote : Timed ⟨(s.setKey next.conversationId
          (some ⟨next, s.now + max 1 ttlMs⟩)).setCall p ⟨task, .ended⟩,
          [.answered p (.opened (publicPauseOf next))] ++
            .wrote p .«open» none (some next) :: log⟩ := by
        refine h.write hanswer hget rfl rfl rfl ?_ ?_
          (hafter fun _ _ _ h => by cases h)
        · intro next' hnext
          cases hnext
          rfl
        · intro e he
          cases he
          have hmax := le_max_right 1 ttlMs
          show next.expiresAt ≤ s.now + max 1 ttlMs
          omega
      exact hwrote
  | @drop cancelled hget =>
      have hwrote : Timed ⟨(s.setKey task.conversationId none).setCall p
          ⟨task, .ended⟩, [.answered p .cancelled] ++
            .wrote p .drop (some cancelled) none :: log⟩ :=
        h.write hanswer hget rfl rfl rfl (fun _ h => by cases h)
          (fun _ h => by cases h) (hafter fun _ _ _ h => by cases h)
      exact hwrote
  | @setNew attempt existing now next ttlMs hdecide =>
      obtain rfl := looked_of_step hstep List.mem_cons_self
      have hclock : now = s.now := hfit.1
      obtain ⟨-, rfl⟩ := decide_eq_setNew hdecide
      refine h.quiet (by simp [Event.isWrite]) rfl hle
        (h.calls hcalls hp fun attempt' next' ttlMs' hph => ?_)
      cases hph
      have hmax := le_max_right 1 (next.expiresAt - now)
      omega
  | read =>
      exact h.quiet (by simp [Event.isWrite]) rfl hle
        (hafter fun _ _ _ h => by cases h)
  | lastRead =>
      exact h.quiet (by simp [Event.isWrite]) rfl hle
        (hafter fun _ _ _ h => by cases h)
  | answer =>
      exact h.quiet (by simp [Event.isWrite]) rfl hle
        (hafter fun _ _ _ h => by cases h)
  | swap =>
      exact h.quiet (by simp [Event.isWrite]) rfl hle
        (hafter fun _ _ _ h => by cases h)
  | lost =>
      exact h.quiet (by simp [Event.isWrite]) rfl hle
        (hafter fun _ _ _ h => by cases h)
  | dropGone =>
      exact h.quiet (by simp [Event.isWrite]) rfl hle
        (hafter fun _ _ _ h => by cases h)
  | @retry attempt =>
      refine h.quiet (by simp [Event.isWrite]) rfl hle (hafter ?_)
      cases attempt <;> exact fun _ _ _ h => by cases h
  | @taken attempt =>
      refine h.quiet (by simp [Event.isWrite]) rfl hle (hafter ?_)
      cases attempt <;> exact fun _ _ _ h => by cases h

theorem timed_of_reach {c : Conf (State υ) (Event υ)}
    (h : (machine interactions).ReachWhen Fitting c) : Timed c := by
  refine Machine.ReachWhen.invariant (I := Timed) ?_ ?_ h
  · refine ⟨?_, ?_, ?_⟩
    · intro k entry h
      cases h
    · exact fun p call attempt next ttlMs h => by
        simp [Machine.start, machine, State.initial] at h
    · exact fun r h => h.elim
  intro c a c' hc ih hfit hnext
  obtain ⟨s, out, hs, rfl⟩ := Machine.next_eq_some.mp hnext
  have hjoin : ∀ {ids : List Text} {task : Task υ}, Timed ⟨{ c.st with
      ids
      calls := c.st.calls ++ [⟨task, .reading 0⟩] }, [] ++ c.log⟩ := by
    intro ids task
    refine ih.quiet (fun _ h => absurd h List.not_mem_nil) rfl le_rfl
      fun p call attempt next ttlMs hp hph => ?_
    rcases getElem?_concat_cases hp with hp | ⟨-, rfl⟩
    · exact ih.setting p call attempt next ttlMs hp hph
    · cases hph
  cases moves_of_step hs with
  | tick hnow =>
      exact ih.quiet (fun _ h => absurd h List.not_mem_nil) rfl hnow ih.setting
  | reject =>
      exact ih.quiet (by simp [Event.isWrite]) rfl le_rfl ih.setting
  | install => exact hjoin
  | call => exact hjoin
  | advance hp hadv =>
      have hready := (tracked_of_reach hc.reach).ready _ _ hp
      exact ih.advance hp hready hadv hs hfit

/-! ## An answer to what stands

A call that brings a valid answer reads the pause, decides to claim it and
swaps it. At each of these stages it is shown what the call has in hand. -/

/-- The call brings a valid answer to this very pause, for its owner. -/
def Answers (interactions : Interactions υ) (task : Task υ)
    (r : PauseRecord υ) (value : υ) : Prop :=
  ∃ scope answer type data,
    task = .claim scope r.interactionId r.revision answer ∧
      scope.conversationId = r.conversationId ∧ scope.bind = r.bind ∧
      interactions r.kind = some type ∧ type.answer answer = .ok data ∧
      type.resolve data r.secret = .resolved value

section Answers

variable {task : Task υ} {r : PauseRecord υ} {value : υ} {now : Int}

omit [DecidableEq υ] in
theorem Answers.conversationId (h : Answers interactions task r value) :
    task.conversationId = r.conversationId := by
  obtain ⟨scope, answer, type, data, rfl, hconv, -⟩ := h
  exact hconv

omit [DecidableEq υ] in
theorem Answers.sees (h : Answers interactions task r value) :
    task.sees (some r) = some r := by
  obtain ⟨scope, answer, type, data, rfl, -, hbind, -⟩ := h
  show Option.filter (fun record => decide (record.bind = scope.bind))
    (some r) = some r
  rw [Option.filter_eq_some_iff]
  exact ⟨rfl, decide_eq_true hbind.symm⟩

omit [DecidableEq υ] in
theorem Answers.decide (h : Answers interactions task r value)
    (hopen : r.status = .«open») (hearly : now < r.expiresAt) :
    task.decide interactions (some r) now =
      .swap r { r with status := .claimed }
        (.claimed { r with status := .claimed } value) := by
  obtain ⟨scope, answer, type, data, rfl, -, -, htype, hdata, hvalue⟩ := h
  have hexpired : isExpired r now = false := by
    simp only [isExpired, decide_eq_false_iff_not]
    omega
  simp only [Task.decide, decideClaim, hopen, hexpired, htype, hdata, hvalue]
  simp

omit [DecidableEq υ] in
theorem Answers.lost (h : Answers interactions task r value)
    (expected : PauseRecord υ) : task.lost expected = some .gone := by
  obtain ⟨scope, answer, type, data, rfl, -⟩ := h
  rfl

omit [DecidableEq υ] in
theorem Answers.atOnce (h : Answers interactions task r value) :
    task.answersAtOnce = true := by
  obtain ⟨scope, answer, type, data, rfl, -⟩ := h
  rfl

end Answers

/-- Where a call is that has read what it answers. -/
def Serving (r : PauseRecord υ) (value : υ) : Phase υ → Prop
  | .deciding _ existing => existing = some r
  | .swapping _ expected next won => expected = r ∧
      next = { r with status := .claimed } ∧
      won = .claimed { r with status := .claimed } value
  | _ => False

/-- Each call that has read, since it was told, the pause it answers is on its
way to claim it. -/
def Served (interactions : Interactions υ) (c : Conf (State υ) (Event υ)) :
    Prop :=
  ∀ (p : Nat) (call : Call υ) (r : PauseRecord υ) (value : υ),
    c.st.calls[p]? = some call → Answers interactions call.task r value →
      Standing r c.log → c.st.now < r.expiresAt → ReadSince p r c.log →
        Serving r value call.phase

/-- A step of the call itself, if the pause stands after it. -/
theorem Served.own {s s' : State υ} {log out : List (Event υ)} {p : Nat}
    {task : Task υ} {ph ph' : Phase υ} {a : Act υ} {r : PauseRecord υ}
    {value : υ} (hadv : Advances interactions s p task ph s' ph' out)
    (hstep : step interactions s a =
      some (s'.setCall p ⟨task, ph'⟩, out))
    (hclock : OneClock ⟨s, log⟩ a)
    (hready : Ready interactions log p task ph)
    (htold : Told Follows log) (htimed : Timed ⟨s, log⟩)
    (hanswers : Answers interactions task r value)
    (hstanding : Standing r (out ++ log)) (hearly : s.now < r.expiresAt)
    (hread : ReadSince p r (out ++ log))
    (hserving : Standing r log → ReadSince p r log → Serving r value ph) :
    Serving r value ph' := by
  -- what the call has in hand, when this step is not its read
  have hearlier : (∀ e ∈ out, e.readBy ≠ some p) →
      Standing r log ∧ Serving r value ph := by
    intro hout
    obtain ⟨hstood, hsince⟩ := readSince_append hout hstanding hread
    exact ⟨hstood, hserving hstood hsince⟩
  have hlost := hanswers.lost
  cases hadv with
  | read =>
      have hstood : Standing r log :=
        standing_append (by simp [Event.isWrite]) hstanding
      show task.sees (s.get task.conversationId) = some r
      rw [hanswers.conversationId, htimed.get hstood hearly, hanswers.sees]
  | lastRead =>
      have hnone := hready r
      rw [hlost r] at hnone
      cases hnone
  | @answer attempt existing now answer hdecide =>
      obtain rfl := looked_of_step hstep
        (List.mem_cons_of_mem _ List.mem_cons_self)
      obtain rfl : now = s.now := hclock
      obtain ⟨hstood, hin⟩ := hearlier (by simp [Event.readBy])
      obtain rfl : existing = some r := hin
      rw [hanswers.decide (standing_open htold hstood) hearly] at hdecide
      cases hdecide
  | @swap attempt existing now expected next won hdecide =>
      obtain rfl := looked_of_step hstep List.mem_cons_self
      obtain rfl : now = s.now := hclock
      obtain ⟨hstood, hin⟩ := hearlier (by simp [Event.readBy])
      obtain rfl : existing = some r := hin
      rw [hanswers.decide (standing_open htold hstood) hearly] at hdecide
      cases hdecide
      exact ⟨rfl, rfl, rfl⟩
  | setNew hdecide =>
      obtain ⟨rfl, -⟩ := decide_eq_setNew hdecide
      cases hlost r
  | @swapped attempt expected next won hget =>
      have hout : ∀ e ∈ (if task.answersAtOnce then [Event.answered p won]
          else []) ++ [.wrote p task.move (some expected) (some next)],
          e.readBy ≠ some p := by
        split <;> simp [Event.readBy]
      obtain ⟨rfl, -, -⟩ := (hearlier hout).2
      -- the claim takes the pause on
      rw [List.append_assoc] at hstanding
      have hclaim := standing_append (by split <;> simp [Event.isWrite])
        hstanding
      obtain ⟨scope, answer, type, data, rfl, -⟩ := hanswers
      rcases hclaim with htold | ⟨-, hkept⟩
      · cases htold
      · exact absurd rfl hkept
  | @lost attempt expected next won answer hget =>
      obtain ⟨hstood, rfl, rfl, -⟩ := hearlier (by simp [Event.readBy])
      exact absurd (htimed.get hstood hearly) hget
  | @retry attempt expected next won hget hnone =>
      rw [hlost expected] at hnone
      cases hnone
  | set => exact (hearlier (by simp [Event.readBy])).2.elim
  | taken => exact (hearlier (by simp [Event.readBy])).2.elim
  | drop => exact (hearlier (by simp [Event.readBy])).2.elim
  | dropGone => exact (hearlier (by simp [Event.readBy])).2.elim

theorem served_of_reach {c : Conf (State υ) (Event υ)}
    (h : (machine interactions).ReachWhen Fitting c) :
    Served interactions c := by
  refine Machine.ReachWhen.invariant (I := Served interactions) ?_ ?_ h
  · exact fun p call r value hp => by
      simp [Machine.start, machine, State.initial] at hp
  intro c a c' hc ih hfit hnext
  obtain ⟨s, out, hs, rfl⟩ := Machine.next_eq_some.mp hnext
  have hjoin : ∀ {ids : List Text} {task : Task υ}, Served interactions
      ⟨{ c.st with
        ids
        calls := c.st.calls ++ [⟨task, .reading 0⟩] }, c.log⟩ := by
    intro ids task p call r value hp hanswers hstanding hearly hread
    rcases getElem?_concat_cases hp with hp | ⟨rfl, rfl⟩
    · exact ih p call r value hp hanswers hstanding hearly hread
    · obtain ⟨seen, hmem⟩ := hread.mem
      have hlt := (reported_of_reach hc.reach).joined _ hmem _ rfl
      exact absurd hlt (Nat.lt_irrefl _)
  cases moves_of_step hs with
  | tick hnow =>
      intro p call r value hp hanswers hstanding hearly hread
      exact ih p call r value hp hanswers hstanding
        (lt_of_le_of_lt hnow hearly) hread
  | @reject id answer hid =>
      intro p call r value hp hanswers hstanding hearly hread
      have hout : ∀ e ∈ [Event.rejected answer], e.readBy ≠ some p := by
        simp [Event.readBy]
      obtain ⟨hstood, hsince⟩ := readSince_append hout hstanding hread
      exact ih p call r value hp hanswers hstood hearly hsince
  | install => exact hjoin
  | call => exact hjoin
  | @advance p call s' ph' out hp hadv =>
      have hnow := hadv.frame.1
      intro q call' r value hq hanswers hstanding hearly hread
      change s'.now < r.expiresAt at hearly
      rw [hnow] at hearly
      rcases call_cases hadv.frame.2.2 hp hq with ⟨rfl, rfl⟩ | ⟨hne, hq⟩
      · exact Served.own hadv hs hfit.1
          ((tracked_of_reach hc.reach).ready _ _ hp)
          (recorded_of_reach hc.reach).told (timed_of_reach hc) hanswers
          hstanding hearly hread fun hstood hsince =>
            ih q call r value hp hanswers hstood hearly hsince
      · have hout : ∀ e ∈ out, e.readBy ≠ some q := by
          intro e he heq
          have hcall := hadv.call_eq e he
          cases e with
          | read q' seen =>
              obtain rfl := Option.some.inj heq
              exact hne (Option.some.inj hcall)
          | _ => cases heq
        obtain ⟨hstood, hsince⟩ := readSince_append hout hstanding hread
        exact ih q call' r value hq hanswers hstood hearly hsince

/-! ## The contract

From where the call is, its own steps lead to a claim, as long as nobody comes
in between: one lemma for each stage, backwards from the write. -/

/-- What goes on from here, by the call's own steps at the store's time. -/
def Claims (interactions : Interactions υ) (c : Conf (State υ) (Event υ))
    (p : Nat) (r : PauseRecord υ) (value : υ) : Prop :=
  ∃ own, own <:+ [.read p, .decide p c.st.now, .write p] ∧
    ∃ c', (machine interactions).exec c own = some c' ∧
      .answered p (.claimed { r with status := .claimed } value) ∈ c'.log

/-- Until its deadline, a pause that stands is found, and a valid answer of its
owner that starts now, or has read the pause, goes through and claims it. -/
structure StaysAnswerable (interactions : Interactions υ)
    (c : Conf (State υ) (Event υ)) : Prop where
  found : ∀ r, Standing r c.log → c.st.now < r.expiresAt →
    c.st.get r.conversationId = some r
  served : ∀ (p : Nat) (call : Call υ) (r : PauseRecord υ) (value : υ),
    c.st.calls[p]? = some call → Answers interactions call.task r value →
      Standing r c.log → c.st.now < r.expiresAt →
        (call.phase = .reading 0 ∨ ReadSince p r c.log) →
          Claims interactions c p r value

section Claims

variable {c : Conf (State υ) (Event υ)} {p : Nat} {task : Task υ}
  {r : PauseRecord υ} {value : υ}

omit [DecidableEq υ] in
theorem getElem?_setCall {s : State υ} {call call' : Call υ}
    (hp : s.calls[p]? = some call) :
    (s.setCall p call').calls[p]? = some call' := by
  show (s.calls.set p call')[p]? = some call'
  rw [getElem?_set_of_some hp, if_pos rfl]

theorem next_of_step {a : Act υ} {s' : State υ} {out : List (Event υ)}
    (h : step interactions c.st a = some (s', out)) :
    (machine interactions).next c a = some ⟨s', out ++ c.log⟩ :=
  Machine.next_eq_some.mpr ⟨s', out, h, rfl⟩

/-- From the write. -/
theorem claims_of_swapping {attempt : Nat} {next : PauseRecord υ}
    {won : Answer υ}
    (hp : c.st.calls[p]? = some ⟨task, .swapping attempt r next won⟩)
    (hatOnce : task.answersAtOnce = true)
    (hget : c.st.get next.conversationId = some r) :
    ∃ c', (machine interactions).exec c [.write p] = some c' ∧
      .answered p won ∈ c'.log := by
  have hstep : step interactions c.st (.write p) =
      some ((c.st.swap next).setCall p ⟨task, task.afterWrite next⟩,
        [.answered p won, .wrote p task.move (some r) (some next)]) := by
    show (c.st.calls[p]?).bind (callWrite c.st p) = _
    rw [hp, Option.bind_some]
    simp only [callWrite]
    rw [if_pos hget, if_pos hatOnce]
    rfl
  have hnext := next_of_step hstep
  exact ⟨_, by rw [Machine.exec_cons, hnext]; rfl, List.mem_cons_self⟩

/-- From the decision. -/
theorem claims_of_deciding {attempt : Nat}
    (hp : c.st.calls[p]? = some ⟨task, .deciding attempt (some r)⟩)
    (hanswers : Answers interactions task r value)
    (hopen : r.status = .«open») (hearly : c.st.now < r.expiresAt)
    (hget : c.st.get r.conversationId = some r) :
    ∃ c', (machine interactions).exec c [.decide p c.st.now, .write p] =
        some c' ∧
      .answered p (.claimed { r with status := .claimed } value) ∈ c'.log := by
  have hstep : step interactions c.st (.decide p c.st.now) =
      some (c.st.setCall p ⟨task, .swapping attempt r
        { r with status := .claimed }
        (.claimed { r with status := .claimed } value)⟩,
          [.looked p c.st.now]) := by
    show (c.st.calls[p]?).bind _ = _
    rw [hp, Option.bind_some]
    simp only [callDecide, hanswers.decide hopen hearly]
  have hnext := next_of_step hstep
  rw [Machine.exec_cons, hnext]
  exact claims_of_swapping (getElem?_setCall hp) hanswers.atOnce hget

/-- From the start. -/
theorem claims_of_reading {attempt : Nat}
    (hp : c.st.calls[p]? = some ⟨task, .reading attempt⟩)
    (hanswers : Answers interactions task r value)
    (hopen : r.status = .«open») (hearly : c.st.now < r.expiresAt)
    (hget : c.st.get r.conversationId = some r) :
    ∃ c', (machine interactions).exec c
        [.read p, .decide p c.st.now, .write p] = some c' ∧
      .answered p (.claimed { r with status := .claimed } value) ∈ c'.log := by
  have hstep : step interactions c.st (.read p) =
      some (c.st.setCall p ⟨task, .deciding attempt (some r)⟩,
        [.read p (some r)]) := by
    show (c.st.calls[p]?).bind (callRead c.st p) = _
    rw [hp, Option.bind_some]
    simp only [callRead, hanswers.conversationId, hget, hanswers.sees]
  have hnext := next_of_step hstep
  rw [Machine.exec_cons, hnext]
  exact claims_of_deciding (getElem?_setCall hp) hanswers hopen hearly hget

end Claims

theorem answerable_of_fitting {c : Conf (State υ) (Event υ)}
    (h : (machine interactions).ReachWhen Fitting c) :
    StaysAnswerable interactions c := by
  have htimed := timed_of_reach h
  refine ⟨fun r => htimed.get, ?_⟩
  intro p call r value hp hanswers hstanding hearly hphase
  have hopen := standing_open (recorded_of_reach h.reach).told hstanding
  have hget := htimed.get hstanding hearly
  obtain ⟨task, phase⟩ := call
  rcases hphase with rfl | hread
  · exact ⟨_, List.suffix_refl _,
      claims_of_reading hp hanswers hopen hearly hget⟩
  · have hserving := served_of_reach h p _ r value hp hanswers hstanding
      hearly hread
    cases phase with
    | deciding attempt existing =>
        obtain rfl : existing = some r := hserving
        exact ⟨_, List.suffix_cons _ _,
          claims_of_deciding hp hanswers hopen hearly hget⟩
    | swapping attempt expected next won =>
        obtain ⟨rfl, rfl, rfl⟩ := hserving
        exact ⟨_, (List.suffix_cons _ _).trans (List.suffix_cons _ _),
          claims_of_swapping hp hanswers.atOnce hget⟩
    | _ => exact hserving.elim

/-! ## A question over a claimed one

A run that meets the condition, and one that does not. In the second the key of
a claimed pause is about to run out, and a new question inherits its deadline.
-/

/-- The pause is revised at once, and answered at the last moment. -/
def revisedPause : List (Act Nat) :=
  openedPause ++
    [.call (.revise owner ['1'] question), .read 1, .decide 1 0, .write 1,
      .tick 59999, .call (.claim owner ['1'] 2 7)]

theorem answerable_of_fitting_revised :
    ∃ c, (machine picks).exec (machine picks).start revisedPause = some c ∧
      (Standing { pickedPause with revision := 2 } c.log ∧
        c.st.now = 59999 ∧
        c.st.calls[2]? = some ⟨.claim owner ['1'] 2 7, .reading 0⟩) ∧
      StaysAnswerable picks c := by
  obtain ⟨c, hexec, hc⟩ : (machine picks).EndsIn
      (fun c => Standing { pickedPause with revision := 2 } c.log ∧
        c.st.now = 59999 ∧
        c.st.calls[2]? = some ⟨.claim owner ['1'] 2 7, .reading 0⟩)
      revisedPause := by
    decide
  exact ⟨c, hexec, hc, answerable_of_fitting
    (Machine.ReachWhen.of_exec .start revisedPause (by decide) hexec)⟩

/-- The first question is claimed ten seconds before its deadline, and a second
one takes the key over with what is left of its time. -/
def secondQuestion : List (Act Nat) :=
  openedPause ++
    [.tick 50000, .call (.claim owner ['1'] 1 7), .read 1, .decide 1 50000,
      .write 1, .«open» owner question ['2'] 50000, .read 2, .decide 2 50000,
      .write 2, .tick 60001, .call (.claim owner ['2'] 1 7), .read 3,
      .decide 3 60001]

/-- Another pause in the same slot. -/
def secondPause : PauseRecord Nat :=
  { pickedPause with interactionId := ['2'], expiresAt := 110000 }

/-- A pause that stands is gone almost fifty seconds before its deadline, on
one clock, and the valid answer to it is refused. -/
theorem pause_gone_early : ∃ c, (machine picks).ReachWhen OneClock c ∧
    Standing secondPause c.log ∧ c.st.now < secondPause.expiresAt ∧
      c.st.get secondPause.conversationId = none ∧
      ∃ call, c.st.calls[3]? = some call ∧
        Answers picks call.task secondPause 7 ∧
          .answered 3 .gone ∈ c.log := by
  obtain ⟨c, hexec, hstanding, hnow, hget, hcall, hanswer⟩ :
      (machine picks).EndsIn (fun c => Standing secondPause c.log ∧
        c.st.now < secondPause.expiresAt ∧
        c.st.get secondPause.conversationId = none ∧
        c.st.calls[3]? = some ⟨.claim owner ['2'] 1 7, .ended⟩ ∧
        .answered 3 .gone ∈ c.log) secondQuestion := by
    decide
  refine ⟨c, Machine.ReachWhen.of_exec .start secondQuestion
    (by decide) hexec, hstanding, hnow, hget, _, hcall, ?_, hanswer⟩
  exact ⟨owner, 7, _, 7, rfl, rfl, rfl, rfl, rfl, rfl⟩

end Shozee.Pause
