import Shozee.Run.Entries
import Shozee.Pause.Protocol

/-!
# What the history says about the slot

The history of the writes determines what each key holds (`slotOf`), and it
takes each revision of a pause through one automaton: opened or revised,
claimed, released, claimed again, and cancelled for good (`Follows`). A write
is a swap of exactly the record that its call has read, so what the call
decided about that record still holds when the write happens.
-/

namespace Shozee.Pause

open Shozee.Run

variable {υ : Type}

/-- One revision of one pause. -/
abbrev RevisionKey := Text × Nat

/-- The revision of a record. -/
def PauseRecord.key (record : PauseRecord υ) : RevisionKey :=
  (record.interactionId, record.revision)

/-- The status that a revision was last written with. -/
def stateOf (k : RevisionKey) : List (Event υ) → Option PauseStatus
  | [] => none
  | .wrote _ _ _ (some after) :: log =>
      if after.key = k then some after.status else stateOf k log
  | _ :: log => stateOf k log

/-- What the history leaves under a key. -/
def slotOf (conversationId : Text) :
    List (Event υ) → Option (PauseRecord υ)
  | [] => none
  | .wrote _ _ _ (some after) :: log =>
      if after.conversationId = conversationId then some after
      else slotOf conversationId log
  | .wrote _ _ (some before) none :: log =>
      if before.conversationId = conversationId then none
      else slotOf conversationId log
  | _ :: log => slotOf conversationId log

/-- A write takes its pause one step on. -/
def Follows (log : List (Event υ)) : Event υ → Prop
  | .wrote _ .«open» _ after =>
      ∃ r, after = some r ∧ r.status = .«open» ∧ stateOf r.key log = none
  | .wrote _ .revise before after =>
      ∃ r r', before = some r ∧ after = some r' ∧ r'.status = .«open» ∧
        r'.interactionId = r.interactionId ∧ r'.revision = r.revision + 1 ∧
        stateOf r.key log = some .«open» ∧ stateOf r'.key log = none
  | .wrote _ .claim before after =>
      ∃ r, before = some r ∧ after = some { r with status := .claimed } ∧
        stateOf r.key log = some .«open»
  | .wrote _ .release before after =>
      ∃ r, before = some r ∧ after = some { r with status := .«open» } ∧
        stateOf r.key log = some .claimed
  | .wrote _ .cancel before after =>
      ∃ r r', before = some r ∧ after = some r' ∧ r'.status = .cancelled ∧
        r'.key = r.key ∧ stateOf r.key log = some .«open»
  | .wrote _ .drop before after =>
      ∃ r, before = some r ∧ after = none ∧
        stateOf r.key log = some .cancelled
  | _ => True

/-- The event is this move on this revision. -/
def Event.moves (k : RevisionKey) (move : Move) : Event υ → Prop
  | .wrote _ move' (some before) _ => move' = move ∧ before.key = k
  | _ => False

/-! ## One revision's automaton

What the newest move on a revision says about it. Two moves that both need it
open have a release between them, and a cancelled one is not opened again. -/

/-- A revision that is claimed stays so until it is released, and one that is
cancelled stays so. -/
theorem stateOf_stays {k : RevisionKey} {st : PauseStatus}
    {newer older : List (Event υ)} (htold : Told Follows (newer ++ older))
    (hst : stateOf k older = some st)
    (hstays : st = .cancelled ∨
      st = .claimed ∧ ∀ e ∈ newer, ¬ e.moves k .release) :
    stateOf k (newer ++ older) = some st := by
  induction newer with
  | nil => exact hst
  | cons e newer ih =>
      have hbefore : stateOf k (newer ++ older) = some st := by
        refine ih htold.2 (hstays.imp_right fun h => ⟨h.1, ?_⟩)
        exact fun e he => h.2 e (List.mem_cons_of_mem _ he)
      have hne : st ≠ .«open» := by
        rcases hstays with rfl | ⟨rfl, -⟩ <;> exact fun h => nomatch h
      have hfollows : Follows (newer ++ older) e := htold.1
      -- a write that leaves the revision alone does not matter
      have hother : ∀ {p move before} {after : PauseRecord υ},
          e = .wrote p move before (some after) → after.key ≠ k →
            stateOf k (e :: newer ++ older) = some st := by
        rintro p move before after rfl hkey
        show (if after.key = k then _ else stateOf k (newer ++ older)) = _
        rw [if_neg hkey, hbefore]
      match e with
      | .rejected _ | .read _ _ | .looked _ _ | .answered _ _ => exact hbefore
      | .wrote p .«open» before after =>
          obtain ⟨r, rfl, -, hnone⟩ := hfollows
          refine hother rfl fun hkey => ?_
          rw [hkey, hbefore] at hnone
          cases hnone
      | .wrote p .revise before after =>
          obtain ⟨r, r', rfl, rfl, -, -, -, -, hnone⟩ := hfollows
          refine hother rfl fun hkey => ?_
          rw [hkey, hbefore] at hnone
          cases hnone
      | .wrote p .claim before after =>
          obtain ⟨r, rfl, rfl, hopen⟩ := hfollows
          refine hother rfl fun hkey => ?_
          rw [show r.key = k from hkey, hbefore] at hopen
          exact hne (Option.some.inj hopen)
      | .wrote p .release before after =>
          obtain ⟨r, rfl, rfl, hclaimed⟩ := hfollows
          refine hother rfl fun hkey => ?_
          rw [show r.key = k from hkey, hbefore] at hclaimed
          rcases hstays with rfl | ⟨-, hnone⟩
          · cases hclaimed
          · exact hnone _ List.mem_cons_self ⟨rfl, hkey⟩
      | .wrote p .cancel before after =>
          obtain ⟨r, r', rfl, rfl, -, hsame, hopen⟩ := hfollows
          refine hother rfl fun hkey => ?_
          rw [← hsame, hkey, hbefore] at hopen
          exact hne (Option.some.inj hopen)
      | .wrote p .drop before after =>
          obtain ⟨r, rfl, rfl, -⟩ := hfollows
          exact hbefore

/-- What a move says about its revision before and after it. -/
theorem stateOf_of_moves {k : RevisionKey} {move : Move} {e : Event υ}
    {log : List (Event υ)} (hfollows : Follows log e) (hmoves : e.moves k move) :
    (move = .claim → stateOf k log = some .«open» ∧
      stateOf k (e :: log) = some .claimed) ∧
    (move = .cancel → stateOf k log = some .«open» ∧
      stateOf k (e :: log) = some .cancelled) := by
  match e with
  | .wrote p move' none after => exact hmoves.elim
  | .rejected _ | .read _ _ | .looked _ _ | .answered _ _ => exact hmoves.elim
  | .wrote p move' (some before) after =>
      obtain ⟨rfl, rfl⟩ := hmoves
      refine ⟨?_, ?_⟩
      · rintro rfl
        obtain ⟨r, hr, rfl, hopen⟩ := hfollows
        obtain rfl := Option.some.inj hr
        exact ⟨hopen, if_pos rfl⟩
      · rintro rfl
        obtain ⟨r, r', hr, rfl, hst, hkey, hopen⟩ := hfollows
        obtain rfl := Option.some.inj hr
        refine ⟨hopen, ?_⟩
        show (if r'.key = before.key then some r'.status else _) = _
        rw [if_pos hkey, hst]

/-- Between two moves that both need an open revision, of which the first
claims it, it is released. -/
theorem released_between {k : RevisionKey} {move : Move}
    {newer mid older : List (Event υ)} {e e' : Event υ}
    (htold : Told Follows (newer ++ e' :: (mid ++ e :: older)))
    (hfirst : e.moves k .claim) (hlater : e'.moves k move)
    (hmove : move = .claim ∨ move = .cancel) :
    ∃ x ∈ mid, x.moves k .release := by
  have hrest := htold.older
  have hclaimed := ((stateOf_of_moves hrest.2.ok hfirst).1 rfl).2
  have hlaterOk := stateOf_of_moves hrest.1 hlater
  have hopen : stateOf k (mid ++ e :: older) = some .«open» :=
    hmove.elim (fun h => (hlaterOk.1 h).1) fun h => (hlaterOk.2 h).1
  by_contra hnone
  have hstays := stateOf_stays hrest.2 hclaimed
    (Or.inr ⟨rfl, fun x hx hmoves => hnone ⟨x, hx, hmoves⟩⟩)
  rw [hstays] at hopen
  cases hopen

/-- A cancelled revision is not claimed later. -/
theorem not_claimed_after_cancel {k : RevisionKey}
    {newer mid older : List (Event υ)} {e e' : Event υ}
    (htold : Told Follows (newer ++ e' :: (mid ++ e :: older)))
    (hfirst : e.moves k .cancel) : ¬ e'.moves k .claim := by
  intro hlater
  have hrest := htold.older
  have hcancelled := ((stateOf_of_moves hrest.2.ok hfirst).2 rfl).2
  have hopen := ((stateOf_of_moves hrest.1 hlater).1 rfl).1
  rw [stateOf_stays hrest.2 hcancelled (Or.inl rfl)] at hopen
  cases hopen

/-! ## Steps that write nothing

Most steps read, check or answer. The history of the writes is the same after
them. -/

/-- Whether an event is a write. -/
def Event.isWrite : Event υ → Bool
  | .wrote .. => true
  | _ => false

theorem quiet_append {out : List (Event υ)}
    (hquiet : ∀ e ∈ out, e.isWrite = false) (log : List (Event υ)) :
    (∀ k, stateOf k (out ++ log) = stateOf k log) ∧
      (∀ k, slotOf k (out ++ log) = slotOf k log) ∧
      (Told Follows log → Told Follows (out ++ log)) := by
  induction out with
  | nil => exact ⟨fun _ => rfl, fun _ => rfl, id⟩
  | cons e out ih =>
      obtain ⟨hstate, hslot, htold⟩ :=
        ih fun e he => hquiet e (List.mem_cons_of_mem _ he)
      match e, hquiet e List.mem_cons_self with
      | .rejected _, _ => exact ⟨hstate, hslot, fun h => ⟨trivial, htold h⟩⟩
      | .read _ _, _ => exact ⟨hstate, hslot, fun h => ⟨trivial, htold h⟩⟩
      | .looked _ _, _ => exact ⟨hstate, hslot, fun h => ⟨trivial, htold h⟩⟩
      | .answered _ _, _ => exact ⟨hstate, hslot, fun h => ⟨trivial, htold h⟩⟩

/-! ## Where each call is

A call has in hand what it read, and what it has checked about that. A swap
compares with exactly this record, so when it succeeds the record is still
there. -/

/-- The call has read this record, and it is one for its own eyes. -/
def Seen (log : List (Event υ)) (p : Nat) (task : Task υ)
    (record : PauseRecord υ) : Prop :=
  .read p (some record) ∈ log ∧
    record.conversationId = task.conversationId ∧
    ∀ scope ∈ task.scope?, record.bind = scope.bind

/-- What a call has in hand is what it read, and what it checked. -/
def Ready (interactions : Interactions υ) (log : List (Event υ)) (p : Nat)
    (task : Task υ) : Phase υ → Prop
  | .deciding _ existing => ∀ record ∈ existing, Seen log p task record
  | .swapping _ expected next won => Seen log p task expected ∧
      ∃ now, .looked p now ∈ log ∧
        Swaps interactions task expected next won now
  | .setting _ next ttlMs => task = .install next ∧
      ∃ now, .looked p now ∈ log ∧ ttlMs = max 1 (next.expiresAt - now)
  | .holding cancelled => cancelled.status = .cancelled ∧
      cancelled.conversationId = task.conversationId ∧
      (∀ scope ∈ task.scope?, cancelled.bind = scope.bind) ∧
      task.answersAtOnce = false ∧ ∃ record, Seen log p task record
  | .lastReading => ∀ expected, task.lost expected = none
  | .reading _ | .ended => True

theorem Ready.mono {interactions : Interactions υ} {log : List (Event υ)}
    {p : Nat} {task : Task υ} {ph : Phase υ}
    (h : Ready interactions log p task ph) (out : List (Event υ)) :
    Ready interactions (out ++ log) p task ph := by
  have hseen : ∀ {record}, Seen log p task record →
      Seen (out ++ log) p task record :=
    fun h => ⟨List.mem_append_right out h.1, h.2⟩
  cases ph with
  | reading attempt => trivial
  | deciding attempt existing => exact fun r hr => hseen (h r hr)
  | swapping attempt expected next won =>
      obtain ⟨hread, now, hlooked, hswaps⟩ := h
      exact ⟨hseen hread, now, List.mem_append_right out hlooked, hswaps⟩
  | setting attempt next ttlMs =>
      obtain ⟨htask, now, hlooked, httl⟩ := h
      exact ⟨htask, now, List.mem_append_right out hlooked, httl⟩
  | holding cancelled =>
      obtain ⟨hst, hconv, hbind, hheld, record, hread⟩ := h
      exact ⟨hst, hconv, hbind, hheld, record, hseen hread⟩
  | lastReading => exact h
  | ended => trivial

/-- A swap stays under the key that was read. -/
theorem Swaps.conversationId {interactions : Interactions υ} {task : Task υ}
    {expected next : PauseRecord υ} {won : Answer υ} {now : Int}
    (h : Swaps interactions task expected next won now)
    (hconv : expected.conversationId = task.conversationId) :
    next.conversationId = task.conversationId := by
  cases h with
  | install => rfl
  | claim => exact hconv
  | revise _ _ hbuild => exact (build_eq_ok hbuild).2.2.1
  | abandon => exact hconv
  | release => exact hconv

theorem get_eq_some {s : State υ} {k : Text} {record : PauseRecord υ}
    (h : s.get k = some record) :
    ∃ deadline, s.store k = some ⟨record, deadline⟩ ∧ s.now < deadline := by
  unfold State.get at h
  split at h
  · cases h
  · rename_i entry hstore
    split at h
    · rename_i hlive
      cases h
      exact ⟨entry.deadline, hstore, hlive⟩
    · cases h

/-- Each key holds records of its own conversation, and each call has in hand
what it read there. -/
structure Tracked (interactions : Interactions υ)
    (c : Conf (State υ) (Event υ)) : Prop where
  keyed : ∀ k entry, c.st.store k = some entry →
    entry.record.conversationId = k
  ready : ∀ p call, c.st.calls[p]? = some call →
    Ready interactions c.log p call.task call.phase

section Steps

variable {interactions : Interactions υ} {s s' : State υ} {p : Nat}
  {task : Task υ} {ph ph' : Phase υ} {out log : List (Event υ)}

/-- What a step of a call leaves under each key. -/
theorem Advances.store (h : Advances interactions s p task ph s' ph' out)
    (hready : Ready interactions log p task ph) (k : Text) :
    s'.store k = s.store k ∨ k = task.conversationId ∧
      ((∃ next deadline, s'.store k = some ⟨next, deadline⟩ ∧
        next.conversationId = task.conversationId) ∨ s'.store k = none) := by
  cases h with
  | @swapped attempt expected next won hget =>
      obtain ⟨hread, now, -, hswaps⟩ := hready
      have hconv := hswaps.conversationId hread.2.1
      obtain ⟨deadline, hstore, -⟩ := get_eq_some hget
      by_cases hk : k = next.conversationId
      · refine Or.inr ⟨hk.trans hconv, Or.inl ⟨next, deadline, ?_, hconv⟩⟩
        show Function.update s.store next.conversationId _ k = _
        rw [hk, Function.update_self, hstore]
        rfl
      · exact Or.inl (Function.update_of_ne hk _ _)
  | @set attempt next ttlMs hget =>
      obtain ⟨rfl, -⟩ := hready
      by_cases hk : k = next.conversationId
      · refine Or.inr ⟨hk, Or.inl ⟨next, s.now + max 1 ttlMs, ?_, rfl⟩⟩
        show Function.update s.store next.conversationId _ k = _
        rw [hk, Function.update_self]
      · exact Or.inl (Function.update_of_ne hk _ _)
  | drop hget =>
      by_cases hk : k = task.conversationId
      · refine Or.inr ⟨hk, Or.inr ?_⟩
        show Function.update s.store task.conversationId _ k = _
        rw [hk, Function.update_self]
      · exact Or.inl (Function.update_of_ne hk _ _)
  | _ => exact Or.inl rfl

theorem Advances.frame (h : Advances interactions s p task ph s' ph' out) :
    s'.now = s.now ∧ s'.ids = s.ids ∧ s'.calls = s.calls := by
  cases h <;> exact ⟨rfl, rfl, rfl⟩

/-- Who is where after a step of the call `p`. -/
theorem call_cases {call call' : Call υ} {q : Nat}
    (hcalls : s'.calls = s.calls) (hp : s.calls[p]? = some call)
    (hq : (s'.setCall p { call with phase := ph' }).calls[q]? = some call') :
    (q = p ∧ call' = { call with phase := ph' }) ∨
      (q ≠ p ∧ s.calls[q]? = some call') := by
  change (s'.calls.set p _)[q]? = _ at hq
  rw [hcalls, getElem?_set_of_some hp] at hq
  split at hq
  · rename_i heq
    exact Or.inl ⟨heq, (Option.some.inj hq).symm⟩
  · rename_i hne
    exact Or.inr ⟨hne, hq⟩

theorem Advances.ready (h : Advances interactions s p task ph s' ph' out)
    (hkeyed : ∀ k entry, s.store k = some entry →
      entry.record.conversationId = k)
    (hready : Ready interactions log p task ph) :
    Ready interactions (out ++ log) p task ph' := by
  cases h with
  | @read attempt =>
      intro record hrecord
      obtain ⟨hheld, hbind⟩ := sees_eq_some hrecord
      obtain ⟨deadline, hstore, -⟩ := get_eq_some hheld
      exact ⟨hheld ▸ List.mem_cons_self, hkeyed _ _ hstore, hbind⟩
  | @swap attempt existing now expected next won hdecide =>
      obtain ⟨rfl, hswaps⟩ := decide_eq_swap hdecide
      have hread := hready expected rfl
      exact ⟨⟨List.mem_cons_of_mem _ hread.1, hread.2⟩, now,
        List.mem_cons_self, hswaps⟩
  | @setNew attempt existing now next ttlMs hdecide =>
      obtain ⟨rfl, rfl⟩ := decide_eq_setNew hdecide
      exact ⟨rfl, now, List.mem_cons_self, rfl⟩
  | @swapped attempt expected next won hget =>
      obtain ⟨hread, now, -, hswaps⟩ := hready
      cases hswaps with
      | abandon =>
          exact ⟨rfl, hread.2.1, hread.2.2, rfl, expected,
            List.mem_cons_of_mem _ hread.1, hread.2⟩
      | _ => trivial
  | @retry attempt expected next won hget hlost =>
      have hlast : ∀ expected, task.lost expected = none := by
        intro expected
        cases task <;> first | rfl | cases hlost
      cases attempt with
      | zero => trivial
      | succ n => exact hlast
  | @taken attempt next ttlMs hget =>
      obtain ⟨rfl, -⟩ := hready
      cases attempt with
      | zero => trivial
      | succ n => exact fun _ => rfl
  | _ => trivial

end Steps

theorem tracked_of_reach [DecidableEq υ] {interactions : Interactions υ}
    {c : Conf (State υ) (Event υ)} (h : (machine interactions).Reach c) :
    Tracked interactions c := by
  refine Machine.ReachWhen.invariant (I := Tracked interactions) ?_ ?_ h
  · refine ⟨?_, ?_⟩
    · exact fun k entry h => nomatch h
    · exact fun p call h => by simp [Machine.start, machine, State.initial] at h
  intro c a c' _ ih _ hnext
  obtain ⟨s, out, hs, rfl⟩ := Machine.next_eq_some.mp hnext
  cases moves_of_step hs with
  | tick => exact ⟨ih.keyed, ih.ready⟩
  | reject => exact ⟨ih.keyed, fun p call hp => (ih.ready p call hp).mono _⟩
  | install =>
      refine ⟨ih.keyed, fun p call hp => ?_⟩
      rcases getElem?_concat_cases hp with hold | ⟨-, rfl⟩
      · exact ih.ready p call hold
      · trivial
  | call =>
      refine ⟨ih.keyed, fun p call hp => ?_⟩
      rcases getElem?_concat_cases hp with hold | ⟨-, rfl⟩
      · exact ih.ready p call hold
      · trivial
  | @advance p call s' ph' out hp hadv =>
      have hready := ih.ready p call hp
      refine ⟨?_, ?_⟩
      · intro k entry hstore
        change s'.store k = some entry at hstore
        rcases hadv.store hready k with hsame | ⟨rfl, hnew⟩
        · exact ih.keyed k entry (hsame ▸ hstore)
        · rcases hnew with ⟨next, deadline, hnext, hconv⟩ | hnone
          · rw [hstore] at hnext
            cases hnext
            exact hconv
          · rw [hstore] at hnone
            cases hnone
      · intro q call' hq
        rcases call_cases hadv.frame.2.2 hp hq with ⟨rfl, rfl⟩ | ⟨-, hq⟩
        · exact hadv.ready ih.keyed hready
        · exact (ih.ready q call' hq).mono out

end Shozee.Pause
