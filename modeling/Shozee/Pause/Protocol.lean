import Mathlib.Logic.Function.Basic
import Shozee.Run.Machine
import Shozee.Pause.Kit

/-!
# Calls of the kit over one store

Every call reads the conversation's key, looks at the clock, and writes by one
atomic command of the store. Each of these is a step of its own, and any
number of calls interleave between any two of them.

The store is the Redis one: a key is set with a time to live, a
compare-and-set keeps the deadline that the key has, and a key whose deadline
has passed is not there. What a dead key held stays in the model's store until
it is set again; nothing reads it.

A clock reading is part of the action that takes it, and so is a fresh id. A
call that is still under way when a run ends may have crashed. The store
itself does not fail.
-/

namespace Shozee.Pause

open Shozee.Run

variable {υ : Type} [DecidableEq υ]

/-- What a key holds and until when. -/
structure Entry (υ : Type) where
  record : PauseRecord υ
  deadline : Int
deriving DecidableEq

/-- Where a call is: about to read, about to look at the clock, about to write
in one of three ways, about to read once more, or done. -/
inductive Phase (υ : Type)
  | reading (attempt : Nat)
  | deciding (attempt : Nat) (existing : Option (PauseRecord υ))
  | swapping (attempt : Nat) (expected next : PauseRecord υ) (won : Answer υ)
  | setting (attempt : Nat) (next : PauseRecord υ) (ttlMs : Int)
  | holding (cancelled : PauseRecord υ)
  | lastReading
  | ended
deriving DecidableEq

/-- A call of the kit and how far it is. -/
structure Call (υ : Type) where
  task : Task υ
  phase : Phase υ
deriving DecidableEq

/-- The time, the store, the ids drawn so far and the calls. -/
structure State (υ : Type) where
  now : Int
  store : Text → Option (Entry υ)
  ids : List Text
  calls : List (Call υ)

/-- No key and no call. -/
def State.initial : State υ where
  now := 0
  store := fun _ => none
  ids := []
  calls := []

/-- The steps of the system: time passes, calls begin, and each reads, decides
and writes apart. -/
inductive Act (υ : Type)
  | tick (now : Int)
  | «open» (scope : PauseScope) (input : Question υ) (id : Text) (now : Int)
  | call (task : Task υ)
  | read (p : Nat)
  | decide (p : Nat) (now : Int)
  | write (p : Nat)
deriving DecidableEq

/-- What a write does to a pause. -/
inductive Move
  | «open»
  | revise
  | claim
  | release
  | cancel
  | drop
deriving DecidableEq, Repr

/-- `seen` is what the key held, `looked` is a clock reading. A question that
was not built has made no call. -/
inductive Event (υ : Type)
  | rejected (answer : Answer υ)
  | read (p : Nat) (seen : Option (PauseRecord υ))
  | looked (p : Nat) (now : Int)
  | wrote (p : Nat) (move : Move) (before after : Option (PauseRecord υ))
  | answered (p : Nat) (answer : Answer υ)
deriving DecidableEq

/-- What a reader finds under the key. -/
def State.get (s : State υ) (conversationId : Text) :
    Option (PauseRecord υ) :=
  match s.store conversationId with
  | none => none
  | some entry => if s.now < entry.deadline then some entry.record else none

/-- One call changed. -/
def State.setCall (s : State υ) (p : Nat) (call : Call υ) : State υ :=
  { s with calls := s.calls.set p call }

/-- One key set or dropped. -/
def State.setKey (s : State υ) (conversationId : Text)
    (entry : Option (Entry υ)) : State υ :=
  { s with store := Function.update s.store conversationId entry }

/-- The swap keeps the deadline of the key. -/
def State.swap (s : State υ) (next : PauseRecord υ) : State υ :=
  s.setKey next.conversationId ((s.store next.conversationId).map fun entry =>
    { entry with record := next })

/-- The move that a task's own write makes; a peek has none. -/
def Task.move : Task υ → Move
  | .install _ | .peek _ => .«open»
  | .claim .. => .claim
  | .revise .. => .revise
  | .abandon .. => .cancel
  | .release .. => .release

/-- What follows a task's own write. A question that was dropped is held until
the caller's work on it is done. -/
def Task.afterWrite (task : Task υ) (next : PauseRecord υ) : Phase υ :=
  match task with
  | .abandon .. => .holding next
  | _ => .ended

/-- What is answered with a task's own write. -/
def Task.answersAtOnce : Task υ → Bool
  | .abandon .. => false
  | _ => true

/-- After a lost attempt: two attempts, and then one more read. -/
def again : Nat → Phase υ
  | 0 => .reading 1
  | _ => .lastReading

/-- A call's read of its key. The last read is after all attempts. -/
def callRead (s : State υ) (p : Nat) (call : Call υ) :
    Option (State υ × List (Event υ)) :=
  let held := s.get call.task.conversationId
  match call.phase with
  | .reading attempt =>
      some (s.setCall p { call with
        phase := .deciding attempt (call.task.sees held) }, [.read p held])
  | .lastReading =>
      some (s.setCall p { call with phase := .ended },
        [.answered p (call.task.lastAnswer (call.task.sees held)),
          .read p held])
  | _ => none

/-- A call's decision on what it has read. -/
def callDecide (interactions : Interactions υ) (s : State υ) (p : Nat)
    (call : Call υ) (now : Int) : Option (State υ × List (Event υ)) :=
  match call.phase with
  | .deciding attempt existing =>
      match call.task.decide interactions existing now with
      | .answer answer =>
          some (s.setCall p { call with phase := .ended },
            [.answered p answer, .looked p now])
      | .swap expected next won =>
          some (s.setCall p { call with
            phase := .swapping attempt expected next won }, [.looked p now])
      | .setNew next ttlMs =>
          some (s.setCall p { call with
            phase := .setting attempt next ttlMs }, [.looked p now])
  | _ => none

/-- A call's write, which only replaces what it has read. -/
def callWrite (s : State υ) (p : Nat) (call : Call υ) :
    Option (State υ × List (Event υ)) :=
  match call.phase with
  | .swapping attempt expected next won =>
      if s.get next.conversationId = some expected then
        some ((s.swap next).setCall p
            { call with phase := call.task.afterWrite next },
          (if call.task.answersAtOnce then [.answered p won] else []) ++
            [.wrote p call.task.move (some expected) (some next)])
      else
        match call.task.lost expected with
        | some answer => some (s.setCall p { call with phase := .ended },
            [.answered p answer])
        | none => some (s.setCall p { call with phase := again attempt }, [])
  | .setting attempt next ttlMs =>
      if s.get next.conversationId = none then
        some ((s.setKey next.conversationId
            (some ⟨next, s.now + max 1 ttlMs⟩)).setCall p
            { call with phase := .ended },
          [.answered p (.opened (publicPauseOf next)),
            .wrote p .«open» none (some next)])
      else some (s.setCall p { call with phase := again attempt }, [])
  | .holding cancelled =>
      if s.get call.task.conversationId = some cancelled then
        some ((s.setKey call.task.conversationId none).setCall p
            { call with phase := .ended },
          [.answered p .cancelled, .wrote p .drop (some cancelled) none])
      else some (s.setCall p { call with phase := .ended },
        [.answered p .cancelled])
  | _ => none

variable (interactions : Interactions υ)

/-- One step of the system, where it is possible. -/
def step (s : State υ) : Act υ → Option (State υ × List (Event υ))
  | .tick now => if s.now ≤ now then some ({ s with now }, []) else none
  | .«open» scope input id now =>
      if id ∈ s.ids then none
      else
        let s' := { s with ids := id :: s.ids }
        match build interactions scope input id 1 now with
        | .error answer => some (s', [.rejected answer])
        | .ok record => some ({ s' with
            calls := s.calls ++ [⟨.install record, .reading 0⟩] }, [])
  | .call task =>
      match task with
      | .install _ => none
      | _ => some ({ s with calls := s.calls ++ [⟨task, .reading 0⟩] }, [])
  | .read p => (s.calls[p]?).bind (callRead s p)
  | .decide p now => (s.calls[p]?).bind fun call =>
      callDecide interactions s p call now
  | .write p => (s.calls[p]?).bind (callWrite s p)

/-- The system. -/
def machine : Machine (State υ) (Act υ) (Event υ) :=
  ⟨.initial, step interactions⟩

/-! ## What a step does

One constructor of `Advances` for each step of a call, and `Moves` for the
steps of the whole. -/

/-- What one step of the call `p` does to the store, where it leaves the call,
and what it reports. -/
inductive Advances (s : State υ) (p : Nat) (task : Task υ) :
    Phase υ → State υ → Phase υ → List (Event υ) → Prop
  | read {attempt} :
      Advances s p task (.reading attempt) s
        (.deciding attempt (task.sees (s.get task.conversationId)))
        [.read p (s.get task.conversationId)]
  | lastRead :
      Advances s p task .lastReading s .ended
        [.answered p (task.lastAnswer (task.sees (s.get task.conversationId))),
          .read p (s.get task.conversationId)]
  | answer {attempt existing now answer}
      (hdecide : task.decide interactions existing now = .answer answer) :
      Advances s p task (.deciding attempt existing) s .ended
        [.answered p answer, .looked p now]
  | swap {attempt existing now expected next won}
      (hdecide : task.decide interactions existing now =
        .swap expected next won) :
      Advances s p task (.deciding attempt existing) s
        (.swapping attempt expected next won) [.looked p now]
  | setNew {attempt existing now next ttlMs}
      (hdecide : task.decide interactions existing now =
        .setNew next ttlMs) :
      Advances s p task (.deciding attempt existing) s
        (.setting attempt next ttlMs) [.looked p now]
  | swapped {attempt expected next won}
      (hget : s.get next.conversationId = some expected) :
      Advances s p task (.swapping attempt expected next won) (s.swap next)
        (task.afterWrite next)
        ((if task.answersAtOnce then [.answered p won] else []) ++
          [.wrote p task.move (some expected) (some next)])
  | lost {attempt expected next won answer}
      (hget : s.get next.conversationId ≠ some expected)
      (hlost : task.lost expected = some answer) :
      Advances s p task (.swapping attempt expected next won) s .ended
        [.answered p answer]
  | retry {attempt expected next won}
      (hget : s.get next.conversationId ≠ some expected)
      (hlost : task.lost expected = none) :
      Advances s p task (.swapping attempt expected next won) s
        (again attempt) []
  | set {attempt next ttlMs} (hget : s.get next.conversationId = none) :
      Advances s p task (.setting attempt next ttlMs)
        (s.setKey next.conversationId (some ⟨next, s.now + max 1 ttlMs⟩))
        .ended [.answered p (.opened (publicPauseOf next)),
          .wrote p .«open» none (some next)]
  | taken {attempt next ttlMs} (hget : s.get next.conversationId ≠ none) :
      Advances s p task (.setting attempt next ttlMs) s (again attempt) []
  | drop {cancelled} (hget : s.get task.conversationId = some cancelled) :
      Advances s p task (.holding cancelled)
        (s.setKey task.conversationId none) .ended
        [.answered p .cancelled, .wrote p .drop (some cancelled) none]
  | dropGone {cancelled}
      (hget : s.get task.conversationId ≠ some cancelled) :
      Advances s p task (.holding cancelled) s .ended
        [.answered p .cancelled]

/-- Everything a step may do. -/
inductive Moves (s : State υ) : State υ → List (Event υ) → Prop
  | tick {now} (hnow : s.now ≤ now) : Moves s { s with now } []
  | reject {id answer} (hid : id ∉ s.ids) :
      Moves s { s with ids := id :: s.ids } [.rejected answer]
  | install {scope input id now record} (hid : id ∉ s.ids)
      (hbuild : build interactions scope input id 1 now = .ok record) :
      Moves s { s with
        ids := id :: s.ids
        calls := s.calls ++ [⟨.install record, .reading 0⟩] } []
  | call {task : Task υ} (htask : task.scope?.isSome = true) :
      Moves s { s with calls := s.calls ++ [⟨task, .reading 0⟩] } []
  | advance {p call s' ph' out} (hp : s.calls[p]? = some call)
      (h : Advances interactions s p call.task call.phase s' ph' out) :
      Moves s (s'.setCall p { call with phase := ph' }) out

variable {interactions}

omit [DecidableEq υ] in
theorem advances_of_read {s s' : State υ} {p : Nat} {call : Call υ}
    {out : List (Event υ)} (h : callRead s p call = some (s', out)) :
    ∃ s₁ ph, s' = s₁.setCall p { call with phase := ph } ∧
      Advances interactions s p call.task call.phase s₁ ph out := by
  unfold callRead at h
  dsimp only at h
  split at h
  · rename_i attempt hph
    obtain ⟨rfl, rfl⟩ := Prod.mk.inj (Option.some.inj h)
    exact ⟨s, _, rfl, hph ▸ .read⟩
  · rename_i hph
    obtain ⟨rfl, rfl⟩ := Prod.mk.inj (Option.some.inj h)
    exact ⟨s, _, rfl, hph ▸ .lastRead⟩
  · cases h

omit [DecidableEq υ] in
theorem advances_of_decide {s s' : State υ} {p : Nat} {call : Call υ}
    {now : Int} {out : List (Event υ)}
    (h : callDecide interactions s p call now = some (s', out)) :
    ∃ s₁ ph, s' = s₁.setCall p { call with phase := ph } ∧
      Advances interactions s p call.task call.phase s₁ ph out := by
  unfold callDecide at h
  split at h
  · rename_i attempt existing hph
    split at h
    · rename_i hdecide
      obtain ⟨rfl, rfl⟩ := Prod.mk.inj (Option.some.inj h)
      exact ⟨s, _, rfl, hph ▸ .answer hdecide⟩
    · rename_i hdecide
      obtain ⟨rfl, rfl⟩ := Prod.mk.inj (Option.some.inj h)
      exact ⟨s, _, rfl, hph ▸ .swap hdecide⟩
    · rename_i hdecide
      obtain ⟨rfl, rfl⟩ := Prod.mk.inj (Option.some.inj h)
      exact ⟨s, _, rfl, hph ▸ .setNew hdecide⟩
  · cases h

theorem advances_of_write {s s' : State υ} {p : Nat} {call : Call υ}
    {out : List (Event υ)} (h : callWrite s p call = some (s', out)) :
    ∃ s₁ ph, s' = s₁.setCall p { call with phase := ph } ∧
      Advances interactions s p call.task call.phase s₁ ph out := by
  unfold callWrite at h
  split at h
  · rename_i attempt expected next won hph
    split at h
    · rename_i hget
      obtain ⟨rfl, rfl⟩ := Prod.mk.inj (Option.some.inj h)
      exact ⟨_, _, rfl, hph ▸ .swapped hget⟩
    · rename_i hget
      split at h
      · rename_i hlost
        obtain ⟨rfl, rfl⟩ := Prod.mk.inj (Option.some.inj h)
        exact ⟨s, _, rfl, hph ▸ .lost hget hlost⟩
      · rename_i hlost
        obtain ⟨rfl, rfl⟩ := Prod.mk.inj (Option.some.inj h)
        exact ⟨s, _, rfl, hph ▸ .retry hget hlost⟩
  · rename_i attempt next ttlMs hph
    split at h
    · rename_i hget
      obtain ⟨rfl, rfl⟩ := Prod.mk.inj (Option.some.inj h)
      exact ⟨_, _, rfl, hph ▸ .set hget⟩
    · rename_i hget
      obtain ⟨rfl, rfl⟩ := Prod.mk.inj (Option.some.inj h)
      exact ⟨s, _, rfl, hph ▸ .taken hget⟩
  · rename_i cancelled hph
    split at h
    · rename_i hget
      obtain ⟨rfl, rfl⟩ := Prod.mk.inj (Option.some.inj h)
      exact ⟨_, _, rfl, hph ▸ .drop hget⟩
    · rename_i hget
      obtain ⟨rfl, rfl⟩ := Prod.mk.inj (Option.some.inj h)
      exact ⟨s, _, rfl, hph ▸ .dropGone hget⟩
  · cases h

theorem moves_of_step {s s' : State υ} {a : Act υ} {out : List (Event υ)}
    (h : step interactions s a = some (s', out)) :
    Moves interactions s s' out := by
  cases a with
  | tick now =>
      simp only [step] at h
      split at h
      · rename_i hnow
        obtain ⟨rfl, rfl⟩ := Prod.mk.inj (Option.some.inj h)
        exact .tick hnow
      · cases h
  | «open» scope input id now =>
      simp only [step] at h
      split at h
      · cases h
      · rename_i hid
        split at h
        · obtain ⟨rfl, rfl⟩ := Prod.mk.inj (Option.some.inj h)
          exact .reject hid
        · rename_i hbuild
          obtain ⟨rfl, rfl⟩ := Prod.mk.inj (Option.some.inj h)
          exact .install hid hbuild
  | call task =>
      simp only [step] at h
      split at h
      · cases h
      · rename_i hnot
        obtain ⟨rfl, rfl⟩ := Prod.mk.inj (Option.some.inj h)
        refine .call ?_
        cases task with
        | install record => exact absurd rfl (hnot record)
        | _ => rfl
  | read p =>
      obtain ⟨call, hp, hread⟩ := Option.bind_eq_some_iff.mp h
      obtain ⟨s₁, ph, rfl, hadv⟩ := advances_of_read hread
      exact .advance hp hadv
  | decide p now =>
      obtain ⟨call, hp, hdecide⟩ := Option.bind_eq_some_iff.mp h
      obtain ⟨s₁, ph, rfl, hadv⟩ := advances_of_decide hdecide
      exact .advance hp hadv
  | write p =>
      obtain ⟨call, hp, hwrite⟩ := Option.bind_eq_some_iff.mp h
      obtain ⟨s₁, ph, rfl, hadv⟩ := advances_of_write hwrite
      exact .advance hp hadv

end Shozee.Pause
