import Shozee.Turns.Locks

/-!
# The life of a turn

What a run has committed so far is read off its log: the rows that accepts
have inserted (`accepted`), and the holds that finalisers were told to hand
back (`handedBack`). The invariant `History` ties both to the rows: each row
goes back to the one accept that inserted it, an active row still has the hold
it was accepted with and nobody has been told to hand it back, and the row of
an ended turn has been told exactly once. A turn that was settled when it was
accepted ran nothing, and nobody is told about it.
-/

namespace Shozee.Turns

open Shozee.Run

/-! ## What the log says

The life of a turn as the log tells it: its insertion, the holds that were
handed back for it, and whether it was recovered while it was queued. -/

/-- The turns that an event puts into the table. -/
def Event.inserted : Event → List TurnRow
  | .committed _ _ _ writes _ => writes.filterMap Write.inserted
  | .refused .. => []

/-- The rows as accepts inserted them, newest first. -/
def accepted (log : List Event) : List TurnRow := log.flatMap Event.inserted

/-- The holds that an event gives back. -/
def Event.told : Event → List (TurnIdentity × BudgetHold)
  | .committed _ call _ _ answer => answer.told call
  | .refused .. => []

/-- The holds among these that were this turn's. -/
def holdsOf (identity : TurnIdentity)
    (told : List (TurnIdentity × BudgetHold)) : List BudgetHold :=
  (told.filter fun entry => entry.1 = identity).map Prod.snd

/-- The holds of a turn that its finalisers were told to hand back. -/
def handedBack (identity : TurnIdentity) (log : List Event) :
    List BudgetHold :=
  holdsOf identity (log.flatMap Event.told)

/-- The calls that end a turn because nobody will finish it. -/
def Call.recovers : Call → Bool
  | .interrupt .. | .sweep .. => true
  | .accept .. | .start .. | .finish .. => false

/-- The write ends this turn from `queued`. -/
def Write.endsQueued (identity : TurnIdentity) : Write → Bool
  | .insert _ => false
  | .update before after =>
      before.identity = identity ∧ before.status = .queued ∧
        after.isActive = false

/-- An interrupt or a sweep ended the turn while it was queued. -/
def Event.recoversQueued (identity : TurnIdentity) : Event → Bool
  | .committed _ call _ writes _ =>
      call.recovers && writes.any (Write.endsQueued identity)
  | .refused .. => false

/-- A queued turn was taken by a recovery. -/
def RecoveredQueued (log : List Event) (identity : TurnIdentity) : Prop :=
  ∃ e ∈ log, e.recoversQueued identity = true

/-- No turn was started past its start deadline, by the clock of the
transaction that started it. -/
def StartedInTime (log : List Event) : Prop :=
  ∀ p call now writes answer, .committed p call now writes answer ∈ log →
    ∀ before after, .update before after ∈ writes →
      before.status = .queued → after.status = .running →
      overdue now before = false

/-- What `p` is answered when it repeats the command of `origin`: the stored
turn, and nothing is written. It is refused only if the conversation is not
its own. -/
def Event.Repeats (author : Authors) (p : Nat) (origin : TurnRow) :
    Event → Prop
  | .committed q call _ writes answer => q = p → ∀ ctx input,
      call = .accept ctx input →
      input.ref.identity ctx.companyId = origin.identity →
      writes = [] ∧ ∃ status,
        answer = .settled (.replayed { origin.view with status })
  | .refused q call _ => q = p → ∀ ctx input,
      call = .accept ctx input →
      input.ref.identity ctx.companyId = origin.identity →
      owns author call = false

/-- The life of the turns of a run. -/
structure LifeCycle (author : Authors) (c : Conf State Event) : Prop where
  oneActive : OneActive c.st.rows
  acceptedOnce : ((accepted c.log).map TurnRow.identity).Nodup
  repeats : ∀ origin ∈ accepted c.log, ∀ p, c.st.phase p = .idle →
    ∀ d out, (machine author).Later c d → d.log = out ++ c.log →
      ∀ e ∈ out, e.Repeats author p origin
  kept : ∀ row ∈ c.st.rows, row.isActive = false →
    ∀ d, (machine author).Later c d → row ∈ d.st.rows
  handedBack : ∀ origin ∈ accepted c.log, ∃ row ∈ c.st.rows,
    row.identity = origin.identity ∧ handedBack origin.identity c.log =
      if origin.isActive ∧ row.isActive = false then [origin.hold] else []
  startedInTime : StartedInTime c.log
  notStarted : ∀ row ∈ c.st.rows, row.endReason = some .notStarted ↔
    RecoveredQueued c.log row.identity

/-! ## What one commit tells

A transaction writes each turn at most once, so what its commit adds about a
turn is read off one write. -/

theorem holdsOf_append (identity : TurnIdentity)
    (told told' : List (TurnIdentity × BudgetHold)) :
    holdsOf identity (told ++ told') =
      holdsOf identity told ++ holdsOf identity told' := by
  unfold holdsOf
  rw [List.filter_append, List.map_append]

theorem handedBack_append (identity : TurnIdentity) (out log : List Event) :
    handedBack identity (out ++ log) =
      handedBack identity out ++ handedBack identity log := by
  unfold handedBack
  rw [List.flatMap_append, holdsOf_append]

theorem Write.Legal.taken_identity {now : Int} {call : Call} {w : Write}
    (h : w.Legal now call) {entry : TurnIdentity × BudgetHold}
    (hentry : entry ∈ w.taken) : entry.1 = w.identity := by
  cases w with
  | insert row => cases hentry
  | update before after =>
      unfold Write.taken at hentry
      dsimp only at hentry
      split at hentry
      · cases hentry
      · rw [List.mem_singleton.mp hentry]
        exact h.update_identity.symm

theorem holdsOf_taken_of_ne {now : Int} {call : Call} {w : Write}
    {identity : TurnIdentity} (h : w.Legal now call)
    (hne : w.identity ≠ identity) : holdsOf identity w.taken = [] := by
  unfold holdsOf
  rw [List.map_eq_nil_iff, List.filter_eq_nil_iff]
  intro entry hentry heq
  simp only [decide_eq_true_eq] at heq
  exact hne ((h.taken_identity hentry).symm.trans heq)

/-- Writes of other turns take nothing off this one. -/
theorem holdsOf_writes_of_ne {now : Int} {call : Call} {writes : List Write}
    {identity : TurnIdentity} (hlegal : ∀ w ∈ writes, w.Legal now call)
    (hne : ∀ w ∈ writes, w.identity ≠ identity) :
    holdsOf identity (writes.flatMap Write.taken) = [] := by
  induction writes with
  | nil => rfl
  | cons w writes ih =>
      rw [List.flatMap_cons, holdsOf_append,
        holdsOf_taken_of_ne (hlegal w List.mem_cons_self)
          (hne w List.mem_cons_self),
        ih (fun w' h => hlegal w' (List.mem_cons_of_mem w h))
          (fun w' h => hne w' (List.mem_cons_of_mem w h))]
      rfl

/-- What a transaction takes off a turn is what its one write of it takes. -/
theorem holdsOf_writes_of_mem {now : Int} {call : Call}
    {writes : List Write} {w : Write}
    (hlegal : ∀ w ∈ writes, w.Legal now call)
    (hnodup : (writes.map Write.identity).Nodup) (hw : w ∈ writes) :
    holdsOf w.identity (writes.flatMap Write.taken) =
      holdsOf w.identity w.taken := by
  induction writes with
  | nil => cases hw
  | cons w' writes ih =>
      obtain ⟨hhead, htail⟩ := List.nodup_cons.mp hnodup
      have hlegal' := fun v hv => hlegal v (List.mem_cons_of_mem w' hv)
      rw [List.flatMap_cons, holdsOf_append]
      rcases List.mem_cons.mp hw with rfl | hw
      · have hrest : ∀ v ∈ writes, v.identity ≠ w.identity := by
          intro v hv heq
          exact hhead (List.mem_map.mpr ⟨v, hv, heq⟩)
        rw [holdsOf_writes_of_ne hlegal' hrest, List.append_nil]
      · have hne : w'.identity ≠ w.identity := by
          intro heq
          exact hhead (List.mem_map.mpr ⟨w, hw, heq.symm⟩)
        rw [holdsOf_taken_of_ne (hlegal w' List.mem_cons_self) hne,
          ih hlegal' htail hw]
        rfl

theorem endsQueued_identity {now : Int} {call : Call} {w : Write}
    {identity : TurnIdentity} (hlegal : w.Legal now call)
    (h : w.endsQueued identity = true) : w.identity = identity := by
  cases w with
  | insert row => cases h
  | update before after =>
      simp only [Write.endsQueued, decide_eq_true_eq] at h
      exact hlegal.update_identity.trans h.1

/-! ## Rows and their past

A row is accounted for by the accept that inserted it and by what has been
handed back since. One lemma for each kind of write: insert, start and end. -/

/-- The log accounts for a row. -/
structure Accounted (log : List Event) (row : TurnRow) : Prop where
  origin : ∃ origin ∈ accepted log, row.identity = origin.identity ∧
    row.view = { origin.view with status := row.status } ∧
    (row.isActive = true → origin.isActive = true ∧ row.hold = origin.hold) ∧
    handedBack row.identity log =
      if origin.isActive ∧ row.isActive = false then [origin.hold] else []
  unended : row.isActive = true → row.endReason = none
  notStarted : row.endReason = some .notStarted ↔
    RecoveredQueued log row.identity

/-- Nothing is on record about a turn that was never accepted. -/
def Unheard (log : List Event) (identity : TurnIdentity) : Prop :=
  handedBack identity log = [] ∧ ¬ RecoveredQueued log identity

/-- The log says what the rows are: which were accepted, how each went on, and
that nothing else is in the table. -/
structure History (c : Conf State Event) : Prop where
  sound : c.st.Sound
  identities : (c.st.rows.map TurnRow.identity).Perm
    ((accepted c.log).map TurnRow.identity)
  rows : ∀ row ∈ c.st.rows, Accounted c.log row
  unheard : ∀ identity, (∀ row ∈ c.st.rows, row.identity ≠ identity) →
    Unheard c.log identity
  legal : ∀ p call now writes answer,
    .committed p call now writes answer ∈ c.log →
    ∀ w ∈ writes, w.Legal now call

/-- What the log adds about one turn when a write of it commits. -/
structure Adds (call : Call) (log log' : List Event) (w : Write) : Prop where
  accepted : accepted log ⊆ accepted log'
  handedBack : handedBack w.identity log' =
    holdsOf w.identity w.taken ++ handedBack w.identity log
  recovered : RecoveredQueued log' w.identity ↔
    (call.recovers = true ∧ w.endsQueued w.identity = true) ∨
      RecoveredQueued log w.identity

theorem not_active_or {b : Bool} : ¬(b = true ∧ b = false) := by
  cases b <;> simp

theorem accounted_of_insert {now : Int} {call : Call} {row : TurnRow}
    {log log' : List Event} (hlegal : Write.Legal now call (.insert row))
    (hadds : Adds call log log' (.insert row)) (hrow : row ∈ accepted log')
    (hunheard : Unheard log row.identity) : Accounted log' row := by
  have hreason : row.endReason = none := by
    cases hlegal
    rfl
  have hrecovers : call.recovers = false := by
    cases hlegal
    rfl
  refine ⟨⟨row, hrow, rfl, rfl, fun ha => ⟨ha, rfl⟩, ?_⟩, fun _ => hreason, ?_⟩
  · rw [if_neg not_active_or]
    exact hadds.handedBack.trans hunheard.1
  · rw [hreason]
    refine ⟨(nomatch ·), fun h => ?_⟩
    rcases hadds.recovered.mp h with ⟨hcall, -⟩ | hold
    · rw [hrecovers] at hcall
      cases hcall
    · exact absurd hold hunheard.2

theorem accounted_of_start {now timeoutMs : Int} {call : Call}
    {row : TurnRow} {log log' : List Event} (hbefore : Accounted log row)
    (hactive : row.isActive = true)
    (hadds : Adds call log log' (.update row (startedRow now timeoutMs row))) :
    Accounted log' (startedRow now timeoutMs row) := by
  obtain ⟨origin, horigin, hid, hview, hheld, hback⟩ := hbefore.origin
  obtain ⟨hoactive, hhold⟩ := hheld hactive
  refine ⟨⟨origin, hadds.accepted horigin, hid, ?_, fun _ => ⟨hoactive, hhold⟩,
    ?_⟩, fun _ => hbefore.unended hactive, ?_⟩
  · show { row.view with status := TurnStatus.running } = _
    rw [hview]
    rfl
  · have hnew := hadds.handedBack
    rw [taken_started] at hnew
    have hold : handedBack row.identity log = [] := by
      rw [hback, if_neg]
      rw [hactive]
      simp
    rw [startedRow_isActive, if_neg (fun h => nomatch h.2)]
    exact hnew.trans hold
  · show row.endReason = _ ↔ _
    have hnot : ¬ RecoveredQueued log row.identity := by
      rw [← hbefore.notStarted, hbefore.unended hactive]
      exact fun h => nomatch h
    rw [hbefore.unended hactive]
    refine ⟨(nomatch ·), fun h => ?_⟩
    rcases hadds.recovered.mp h with ⟨-, hends⟩ | hold
    · simp only [Write.endsQueued, decide_eq_true_eq] at hends
      exact absurd hends.2.2 (by rw [startedRow_isActive]; simp)
    · exact absurd hold hnot

/-- The recoveries are the finalisers that give a reason. -/
theorem recovers_iff {call : Call} {f : Finaliser}
    (h : call.finaliser = some f) :
    call.recovers = true ↔ f.runningEndReason.isSome = true := by
  cases call <;> cases h <;> simp [Call.recovers, finishFinaliser,
    interruptFinaliser, sweepFinaliser]

theorem ended_notStarted_iff {f : Finaliser} {now : Int} {row : TurnRow} :
    (f.ended now row).endReason = some .notStarted ↔
      f.runningEndReason.isSome = true ∧ row.status = .queued := by
  unfold Finaliser.ended
  dsimp only
  cases hreason : f.runningEndReason with
  | none => simp
  | some reason =>
      by_cases hqueued : row.status = .queued
      · simp [hqueued]
      · cases reason <;> simp [hqueued, RunningEndReason.toEndReason]

theorem accounted_of_end {now : Int} {call : Call} {f : Finaliser}
    {row : TurnRow} {log log' : List Event} (hbefore : Accounted log row)
    (hcall : call.finaliser = some f) (hactive : row.isActive = true)
    (hadds : Adds call log log' (.update row (f.ended now row))) :
    Accounted log' (f.ended now row) := by
  obtain ⟨origin, horigin, hid, hview, hheld, hback⟩ := hbefore.origin
  obtain ⟨hoactive, hhold⟩ := hheld hactive
  have hnot : (f.ended now row).isActive = false := f.ended_not_active now row
  refine ⟨⟨origin, hadds.accepted horigin, hid, ?_, ?_, ?_⟩, ?_, ?_⟩
  · show { row.view with status := f.status.toStatus } = _
    rw [hview]
    rfl
  · intro ha
    rw [hnot] at ha
    cases ha
  · have hnew := hadds.handedBack
    rw [taken_ended] at hnew
    have hold : handedBack row.identity log = [] := by
      rw [hback, if_neg]
      rw [hactive]
      simp
    rw [hnot, if_pos ⟨hoactive, rfl⟩, ← hhold]
    refine hnew.trans ?_
    show holdsOf row.identity _ ++ handedBack row.identity log = _
    rw [hold]
    simp [holdsOf]
  · intro ha
    rw [hnot] at ha
    cases ha
  · have hfresh : ¬ RecoveredQueued log row.identity := by
      rw [← hbefore.notStarted, hbefore.unended hactive]
      exact fun h => nomatch h
    rw [ended_notStarted_iff, ← recovers_iff hcall]
    refine Iff.trans ?_ hadds.recovered.symm
    have hends : Write.endsQueued row.identity
        (.update row (f.ended now row)) = true ↔ row.status = .queued := by
      simp [Write.endsQueued, hnot]
    show _ ↔ (_ ∧ Write.endsQueued row.identity _ = true) ∨
      RecoveredQueued log row.identity
    rw [hends, or_iff_left hfresh]

theorem accounted_of_write {now : Int} {call : Call} {w : Write}
    {log log' : List Event} (hlegal : w.Legal now call)
    (hadds : Adds call log log' w)
    (hins : ∀ row, w = .insert row →
      row ∈ accepted log' ∧ Unheard log row.identity)
    (hbefore : ∀ before after, w = .update before after →
      Accounted log before) : Accounted log' w.row := by
  cases hlegal with
  | insert hcheck =>
      obtain ⟨hrow, hunheard⟩ := hins _ rfl
      exact accounted_of_insert (.insert hcheck) hadds hrow hunheard
  | start hstartable =>
      exact accounted_of_start (hbefore _ _ rfl)
        (isActive_of_startable hstartable) hadds
  | finalise hcall heligible =>
      exact accounted_of_end (hbefore _ _ rfl) hcall
        (isActive_of_eligible hcall heligible) hadds

/-- A row that nobody wrote is accounted for as before. -/
theorem Accounted.mono {log log' : List Event} {row : TurnRow}
    (h : Accounted log row) (haccepted : accepted log ⊆ accepted log')
    (hback : handedBack row.identity log' = handedBack row.identity log)
    (hrecovered : RecoveredQueued log' row.identity ↔
      RecoveredQueued log row.identity) : Accounted log' row := by
  obtain ⟨origin, horigin, hid, hview, hheld, hold⟩ := h.origin
  exact ⟨⟨origin, haccepted horigin, hid, hview, hheld, hback.trans hold⟩,
    h.unended, h.notStarted.trans hrecovered.symm⟩

/-! ## The invariant over runs

A commit adds to the log what it does to the rows, turn by turn. Turns that the
transaction did not write are accounted for as before. -/

/-- A refusal adds nothing to what the log says. -/
theorem History.refused {c : Conf State Event} (h : History c) (p : Nat)
    (call : Call) (e : TurnError) :
    History ⟨c.st, .refused p call e :: c.log⟩ := by
  have hrecovered : ∀ identity,
      RecoveredQueued (.refused p call e :: c.log) identity ↔
        RecoveredQueued c.log identity := by
    intro identity
    unfold RecoveredQueued
    rw [List.exists_mem_cons_iff]
    simp [Event.recoversQueued]
  refine ⟨h.sound, h.identities, fun row hrow => ?_, fun identity hnone => ?_,
    fun q call' now writes answer hmem => ?_⟩
  · exact (h.rows row hrow).mono (fun _ hx => hx) rfl (hrecovered _)
  · exact ⟨(h.unheard identity hnone).1,
      fun hrec => (h.unheard identity hnone).2 ((hrecovered _).mp hrec)⟩
  · rcases List.mem_cons.mp hmem with heq | hmem
    · cases heq
    · exact h.legal q call' now writes answer hmem

/-- The history speaks of the rows only. -/
theorem History.of_rows {s s' : State} {log : List Event}
    (h : History ⟨s, log⟩) (hsound : s'.Sound) (hrows : s'.rows = s.rows) :
    History ⟨s', log⟩ := by
  refine ⟨hsound, ?_, ?_, ?_, h.legal⟩
  · show (s'.rows.map TurnRow.identity).Perm _
    rw [hrows]
    exact h.identities
  · intro row hrow
    exact h.rows row (hrows ▸ hrow)
  · intro identity hnone
    exact h.unheard identity fun row hrow => hnone row (hrows ▸ hrow)

section Commit

variable {s : State} {p : Nat} {call : Call} {now : Int} {answer : Answer}
  {writes : List Write} {log : List Event}

theorem recovered_committed {identity : TurnIdentity} :
    RecoveredQueued (.committed p call now writes answer :: log) identity ↔
      (call.recovers = true ∧
        ∃ w ∈ writes, w.endsQueued identity = true) ∨
      RecoveredQueued log identity := by
  unfold RecoveredQueued
  rw [List.exists_mem_cons_iff]
  simp only [Event.recoversQueued, Bool.and_eq_true, List.any_eq_true]

theorem handedBack_committed {identity : TurnIdentity}
    (h : Tx.Sound s p ⟨call, now, .answering answer, writes⟩) :
    handedBack identity (.committed p call now writes answer :: log) =
      holdsOf identity (writes.flatMap Write.taken) ++
        handedBack identity log := by
  have htold : answer.told call = writes.flatMap Write.taken := h.reported
  have happ := handedBack_append identity
    [.committed p call now writes answer] log
  refine happ.trans ?_
  unfold handedBack
  rw [List.flatMap_singleton]
  show holdsOf identity (answer.told call) ++ _ = _
  rw [htold]

/-- What a commit adds about a turn that it writes. -/
theorem adds_of_commit
    (h : Tx.Sound s p ⟨call, now, .answering answer, writes⟩) {w : Write}
    (hw : w ∈ writes) :
    Adds call log (.committed p call now writes answer :: log) w := by
  refine ⟨fun row hrow => List.mem_append_right _ hrow, ?_, ?_⟩
  · rw [handedBack_committed h,
      holdsOf_writes_of_mem h.legal h.ids_nodup hw]
  · rw [recovered_committed]
    refine or_congr_left (and_congr_right fun _ => ⟨?_, fun hends => ?_⟩)
    · intro ⟨w', hw', hends⟩
      have heq := endsQueued_identity (h.legal w' hw') hends
      rw [h.write_eq hw' hw heq] at hends
      exact hends
    · exact ⟨w, hw, hends⟩

/-- A commit adds nothing about a turn that it does not write. -/
theorem silent_of_commit
    (h : Tx.Sound s p ⟨call, now, .answering answer, writes⟩)
    {identity : TurnIdentity} (hne : ∀ w ∈ writes, w.identity ≠ identity) :
    handedBack identity (.committed p call now writes answer :: log) =
        handedBack identity log ∧
      (RecoveredQueued (.committed p call now writes answer :: log)
        identity ↔ RecoveredQueued log identity) := by
  constructor
  · rw [handedBack_committed h, holdsOf_writes_of_ne h.legal hne]
    rfl
  · rw [recovered_committed]
    refine or_iff_right ?_
    intro ⟨_, w, hw, hends⟩
    exact hne w hw (endsQueued_identity (h.legal w hw) hends)

theorem History.commit (h : History ⟨s, log⟩)
    (hphase : s.phase p = .«open» ⟨call, now, .answering answer, writes⟩) :
    History ⟨s.close p (applyWrites s.rows writes),
      .committed p call now writes answer :: log⟩ := by
  have htx := h.sound.txs p _ hphase
  have hids := identities_applyWrites htx.legal s.rows
  refine ⟨h.sound.commit hphase, ?_, ?_, ?_, ?_⟩
  · refine hids.trans ?_
    show List.Perm _ ((writes.filterMap Write.inserted ++
      accepted log).map TurnRow.identity)
    rw [List.map_append, List.map_append]
    exact h.identities.append_left _
  · intro row hrow
    rcases htx.mem_applyWrites hrow with ⟨w, hw, rfl⟩ | ⟨hold, hne⟩
    · refine accounted_of_write (htx.legal w hw) (adds_of_commit htx hw) ?_ ?_
      · rintro row rfl
        refine ⟨List.mem_append_left _ ?_, h.unheard _ (htx.fresh _ hw _ rfl)⟩
        exact List.mem_filterMap.mpr ⟨_, hw, rfl⟩
      · rintro before after rfl
        exact h.rows before (htx.fits _ hw).2
    · obtain ⟨hback, hrecovered⟩ := silent_of_commit htx hne
      exact (h.rows row hold).mono
        (fun _ hx => List.mem_append_right _ hx) hback hrecovered
  · intro identity hnone
    have habsent : identity ∉
        (writes.filterMap Write.inserted ++ s.rows).map TurnRow.identity := by
      rw [← hids.mem_iff]
      intro hmem
      obtain ⟨row, hrow, heq⟩ := List.mem_map.mp hmem
      exact hnone row hrow heq
    rw [List.map_append, List.mem_append, not_or] at habsent
    have hold : ∀ row ∈ s.rows, row.identity ≠ identity := by
      intro row hrow heq
      exact habsent.2 (List.mem_map.mpr ⟨row, hrow, heq⟩)
    have hne : ∀ w ∈ writes, w.identity ≠ identity := by
      intro w hw heq
      cases w with
      | insert row =>
          refine habsent.1 (List.mem_map.mpr ⟨row, ?_, heq⟩)
          exact List.mem_filterMap.mpr ⟨_, hw, rfl⟩
      | update before after =>
          have hid := (htx.legal _ hw).update_identity
          exact hold before (htx.fits _ hw).2 (hid.symm.trans heq)
    obtain ⟨hback, hrecovered⟩ := silent_of_commit htx hne
    obtain ⟨hnil, hnot⟩ := h.unheard identity hold
    exact ⟨hback.trans hnil, fun hrec => hnot (hrecovered.mp hrec)⟩
  · intro q call' now' writes' answer' hmem
    rcases List.mem_cons.mp hmem with heq | hmem
    · obtain ⟨rfl, rfl, rfl, rfl, rfl⟩ := Event.committed.inj heq
      exact htx.legal
    · exact h.legal q call' now' writes' answer' hmem

end Commit

variable {author : Authors}

theorem Moves.history {s s' : State} {a : Act} {out log : List Event}
    (hmoves : Moves author s a s' out) (h : History ⟨s, log⟩) :
    History ⟨s', out ++ log⟩ := by
  have hsound := hmoves.sound h.sound
  cases hmoves with
  | refuse => exact h.refused _ _ _
  | begin => exact h.of_rows hsound rfl
  | advance => exact h.of_rows hsound rfl
  | throw => exact (h.of_rows hsound rfl).refused _ _ _
  | commit hphase => exact h.commit hphase
  | rollback => exact h.of_rows hsound rfl

theorem History.start : History (machine author).start where
  sound := State.Sound.initial
  identities := List.Perm.refl _
  rows := fun _ h => (List.not_mem_nil h).elim
  unheard := fun _ _ => ⟨rfl, fun ⟨_, h, _⟩ => List.not_mem_nil h⟩
  legal := fun _ _ _ _ _ h => (List.not_mem_nil h).elim

theorem history_of_reach {c : Conf State Event}
    (h : (machine author).Reach c) : History c := by
  refine Machine.ReachWhen.invariant (I := History) History.start ?_ h
  intro c a c' _ ih _ hnext
  obtain ⟨s, out, hstep, rfl⟩ := Machine.next_eq_some.mp hnext
  exact (moves_of_step hstep).history ih

theorem History.acceptedOnce {c : Conf State Event} (h : History c) :
    ((accepted c.log).map TurnRow.identity).Nodup :=
  h.identities.nodup_iff.mp h.sound.nodup

/-- The row of an accepted turn, and what has become of its hold. -/
theorem History.row_of_accepted {c : Conf State Event} (h : History c)
    {origin : TurnRow} (horigin : origin ∈ accepted c.log) :
    ∃ row ∈ c.st.rows, row.identity = origin.identity ∧
      row.view = { origin.view with status := row.status } ∧
      handedBack origin.identity c.log =
        if origin.isActive ∧ row.isActive = false then [origin.hold]
        else [] := by
  have hmem : origin.identity ∈ c.st.rows.map TurnRow.identity :=
    h.identities.mem_iff.mpr (List.mem_map.mpr ⟨origin, horigin, rfl⟩)
  obtain ⟨row, hrow, hid⟩ := List.mem_map.mp hmem
  obtain ⟨origin', horigin', hid', hview, -, hback⟩ := (h.rows row hrow).origin
  have hsame : origin' = origin :=
    List.inj_on_of_nodup_map h.acceptedOnce horigin' horigin
      (hid'.symm.trans hid)
  subst hsame
  exact ⟨row, hrow, hid, hview, hid ▸ hback⟩

theorem accepted_later {c d : Conf State Event} {out : List Event}
    (h : d.log = out ++ c.log) : accepted c.log ⊆ accepted d.log := by
  intro row hrow
  unfold accepted
  rw [h, List.flatMap_append]
  exact List.mem_append_right _ hrow

/-! ## A terminal row stays

Every update asks for an active row. So the row of an ended turn is in the
table, unchanged, in all that follows. -/

/-- A step leaves the row of an ended turn as it is. -/
theorem Moves.keeps {s s' : State} {a : Act} {out : List Event}
    (hmoves : Moves author s a s' out) (hs : s.Sound) {row : TurnRow}
    (hrow : row ∈ s.rows) (hended : row.isActive = false) :
    row ∈ s'.rows := by
  cases hmoves with
  | refuse => exact hrow
  | begin => exact hrow
  | advance => exact hrow
  | throw => exact hrow
  | rollback => exact hrow
  | commit hphase =>
      have htx := hs.txs _ _ hphase
      refine mem_applyWrites_of_ne ?_ hrow
      rintro w hw before after rfl heq
      have hsame : before = row :=
        hs.eq_of_identity (htx.fits _ hw).2 hrow heq
      have hactive := (htx.legal _ hw).update_active
      rw [hsame, hended] at hactive
      cases hactive

theorem kept_of_later {c d : Conf State Event} (hc : History c)
    (h : (machine author).Later c d) {row : TurnRow} (hrow : row ∈ c.st.rows)
    (hended : row.isActive = false) : row ∈ d.st.rows := by
  have key : History d ∧ row ∈ d.st.rows := by
    refine Machine.LaterWhen.invariant
      (I := fun d => History d ∧ row ∈ d.st.rows) ⟨hc, hrow⟩ ?_ h
    intro d a d' ⟨hd, hmem⟩ _ hnext
    obtain ⟨s, out, hstep, rfl⟩ := Machine.next_eq_some.mp hnext
    have hmoves := moves_of_step hstep
    exact ⟨hmoves.history hd, hmoves.keeps hd.sound hmem hended⟩
  exact key.2

/-! ## A repeat is answered with the stored turn

Wherever the second caller of a command is, the row that it will be answered
with is already there. The step lemma goes by the stages of its transaction. -/

theorem settledAccept_of_mem {s : State} (h : s.Sound) {row : TurnRow}
    (hrow : row ∈ s.rows) :
    settledAccept s.rows row.identity = some (.replayed row.view) := by
  unfold settledAccept
  dsimp only
  have hfind : ∀ found, List.find? (fun r : TurnRow =>
      decide (r.identity = row.identity)) (s.rows.filter fun r =>
        r.identity.conversation = row.identity.conversation ∧
          (r.identity = row.identity ∨ r.isActive)) = some found →
      found = row := by
    intro found hfound
    have hid := List.find?_some hfound
    rw [decide_eq_true_eq] at hid
    have hmem := List.mem_of_find?_eq_some hfound
    exact h.eq_of_identity (List.mem_filter.mp hmem).1 hrow hid
  split
  · rename_i receipt hreceipt
    rw [hfind receipt hreceipt]
  · rename_i hnone
    have hself := List.find?_eq_none.mp hnone row
      (List.mem_filter.mpr ⟨hrow, by simp⟩)
    simp at hself

/-- Where `p` may be when it repeats an accepted command. -/
def Tx.Repeats (origin : TurnRow) (tx : Tx) : Prop :=
  ∀ ctx input, tx.call = .accept ctx input →
    input.ref.identity ctx.companyId = origin.identity →
    tx.writes = [] ∧ (tx.stage = .settling ∨ ∃ status,
      tx.stage = .answering (.settled (.replayed { origin.view with status })))

theorem repeats_of_statement {s : State} {tx : Tx} {r : Result}
    {messageClash : Option Bool} {origin row : TurnRow} (hs : s.Sound)
    (hrow : row ∈ s.rows) (hid : row.identity = origin.identity)
    (hview : row.view = { origin.view with status := row.status })
    (htx : tx.Repeats origin)
    (h : statement s tx messageClash = some r) {ctx : StaffCtx}
    {input : AcceptTurnInput} (hcall : tx.call = .accept ctx input)
    (hinput : input.ref.identity ctx.companyId = origin.identity) :
    ∃ tx', r = .next tx' ∧ tx'.Repeats origin := by
  obtain ⟨hwrites, hstage⟩ := htx ctx input hcall hinput
  unfold statement at h
  rw [hcall] at h
  dsimp only at h
  unfold acceptStatement at h
  rcases hstage with hstage | ⟨status, hstage⟩
  · have hread : settledAccept s.rows (input.ref.identity ctx.companyId) =
        some (.replayed row.view) := by
      rw [hinput, ← hid]
      exact settledAccept_of_mem hs hrow
    simp only [hstage, hread] at h
    obtain rfl := Option.some.inj h
    refine ⟨_, rfl, fun _ _ _ _ => ⟨hwrites, Or.inr ⟨row.status, ?_⟩⟩⟩
    rw [hview]
  · simp only [hstage] at h
    cases h

theorem repeats_of_begin (origin : TurnRow) (call : Call) (now : Int) :
    Tx.Repeats origin ⟨call, now, call.firstStage, []⟩ := by
  intro ctx input hcall _
  obtain rfl : call = .accept ctx input := hcall
  exact ⟨rfl, Or.inl rfl⟩

/-- One step of a run in which the command of `origin` has been accepted: it
keeps `p` on the way to the stored turn, and what it tells `p` is that. -/
theorem Moves.repeats {s s' : State} {a : Act} {out log : List Event}
    {p : Nat} {origin : TurnRow} (hmoves : Moves author s a s' out)
    (h : History ⟨s, log⟩) (horigin : origin ∈ accepted log)
    (hp : ∀ tx, s.phase p = .«open» tx → tx.Repeats origin) :
    (∀ tx, s'.phase p = .«open» tx → tx.Repeats origin) ∧
      ∀ e ∈ out, e.Repeats author p origin := by
  obtain ⟨row, hrow, hid, hview, -⟩ := h.row_of_accepted horigin
  have hclosed : ∀ {q : Nat} {rows : List TurnRow} (tx : Tx),
      (s.close q rows).phase p = .«open» tx → tx.Repeats origin := by
    intro q rows tx hopen
    rw [close_phase] at hopen
    split at hopen
    · cases hopen
    · exact hp tx hopen
  have hkept : ∀ {q : Nat} {tx' : Tx}, (q = p → tx'.Repeats origin) →
      ∀ tx, (s.keep q tx').phase p = .«open» tx → tx.Repeats origin := by
    intro q tx' htx' tx hopen
    rw [keep_phase] at hopen
    split at hopen
    · rename_i hpq
      obtain rfl := Phase.open.inj hopen
      exact htx' hpq.symm
    · exact hp tx hopen
  cases hmoves with
  | @refuse q call now hphase howns =>
      refine ⟨hp, fun e he => ?_⟩
      obtain rfl := List.mem_singleton.mp he
      exact fun _ _ _ _ _ => howns
  | @begin q call now hphase howns =>
      exact ⟨hkept fun _ => repeats_of_begin _ _ _,
        fun e he => (List.not_mem_nil he).elim⟩
  | @advance q messageClash tx tx' hphase hstatement =>
      refine ⟨hkept fun hqp => ?_, fun e he => (List.not_mem_nil he).elim⟩
      subst hqp
      have hcall_eq : tx'.call = tx.call :=
        (extends_of_advances (advances_of_statement hstatement)
          (h.sound.txs _ _ hphase)).call_eq
      intro ctx input hcall hinput
      obtain ⟨tx'', heq, hrepeats⟩ := repeats_of_statement h.sound hrow hid
        hview (hp tx hphase) hstatement (hcall_eq ▸ hcall) hinput
      obtain rfl := Result.next.inj heq
      exact hrepeats ctx input hcall hinput
  | @throw q messageClash tx e hphase hstatement =>
      refine ⟨hclosed, fun e' he' => ?_⟩
      obtain rfl := List.mem_singleton.mp he'
      intro hqp ctx input hcall hinput
      subst hqp
      obtain ⟨tx'', heq, -⟩ := repeats_of_statement h.sound hrow hid hview
        (hp tx hphase) hstatement hcall hinput
      cases heq
  | @commit q call now answer writes hphase =>
      refine ⟨hclosed, fun e he => ?_⟩
      obtain rfl := List.mem_singleton.mp he
      intro hqp ctx input hcall hinput
      subst hqp
      obtain ⟨hwrites, hstage⟩ := hp _ hphase ctx input hcall hinput
      refine ⟨hwrites, ?_⟩
      rcases hstage with hstage | ⟨status, hstage⟩
      · cases hstage
      · exact ⟨status, Stage.answering.inj hstage⟩
  | rollback =>
      exact ⟨hclosed, fun e he => (List.not_mem_nil he).elim⟩

theorem repeats_of_later {c d : Conf State Event} {p : Nat}
    {origin : TurnRow} (hc : History c) (horigin : origin ∈ accepted c.log)
    (hidle : c.st.phase p = .idle) (h : (machine author).Later c d)
    {out : List Event} (hlog : d.log = out ++ c.log) :
    ∀ e ∈ out, e.Repeats author p origin := by
  have key : History d ∧ (∀ tx, d.st.phase p = .«open» tx →
      tx.Repeats origin) ∧ ∃ out, d.log = out ++ c.log ∧
        ∀ e ∈ out, e.Repeats author p origin := by
    refine Machine.LaterWhen.invariant (I := fun d => History d ∧
      (∀ tx, d.st.phase p = .«open» tx → tx.Repeats origin) ∧
      ∃ out, d.log = out ++ c.log ∧ ∀ e ∈ out, e.Repeats author p origin)
      ⟨hc, ?_, [], rfl, fun e he => (List.not_mem_nil he).elim⟩ ?_ h
    · intro tx hopen
      rw [hidle] at hopen
      cases hopen
    · intro d a d' ⟨hd, hp, outd, hlogd, hout⟩ _ hnext
      obtain ⟨s, new, hstep, rfl⟩ := Machine.next_eq_some.mp hnext
      have hmoves := moves_of_step hstep
      obtain ⟨hp', hnew⟩ := hmoves.repeats hd
        (accepted_later hlogd horigin) hp
      refine ⟨hmoves.history hd, hp', new ++ outd, ?_, ?_⟩
      · show new ++ d.log = _
        rw [hlogd, List.append_assoc]
      · intro e he
        rcases List.mem_append.mp he with he | he
        · exact hnew e he
        · exact hout e he
  obtain ⟨-, -, out', hlog', hout⟩ := key
  rw [hlog'] at hlog
  obtain rfl := List.append_cancel_right hlog
  exact hout

/-! ## The life cycle

The parts of the contract, put together from the invariant and the two lemmas
above. -/

theorem History.startedInTime {c : Conf State Event} (h : History c) :
    StartedInTime c.log := by
  intro p call now writes answer hmem before after hw hqueued hrunning
  cases h.legal p call now writes answer hmem _ hw with
  | start hstartable =>
      simp only [startable, Bool.and_eq_true] at hstartable
      simpa using hstartable.2
  | @finalise _ f _ hcall heligible =>
      have hstatus := f.ended_not_active now before
      unfold TurnRow.isActive at hstatus
      rw [hrunning] at hstatus
      cases hstatus

/-- In every state of every run at most one turn of a conversation is queued
or running, and each command has been accepted at most once; a call that
repeats it from then on is answered with the stored turn and writes nothing;
an ended turn's row never changes again; each turn that was accepted to run
and has ended has had its hold handed back to exactly one finaliser; none was
started past its start deadline; and a row's end reason is `not_started` if
and only if an interrupt or a sweep ended it from `queued`. -/
theorem lifeCycle_of_reach {c : Conf State Event}
    (h : (machine author).Reach c) : LifeCycle author c := by
  have hc := history_of_reach h
  refine ⟨hc.sound.lease, hc.acceptedOnce, ?_, ?_, ?_, hc.startedInTime, ?_⟩
  · intro origin horigin p hidle d out hlater hlog
    exact repeats_of_later hc horigin hidle hlater hlog
  · intro row hrow hended d hlater
    exact kept_of_later hc hlater hrow hended
  · intro origin horigin
    obtain ⟨row, hrow, hid, -, hback⟩ := hc.row_of_accepted horigin
    exact ⟨row, hrow, hid, hback⟩
  · intro row hrow
    exact (hc.rows row hrow).notStarted

/-! ## Two runs

A turn that the sweep ends, with a repeat of its command; and a turn that its
own worker ends from `queued`, which leaves no end reason. -/

/-- A member of a company. -/
def staff : StaffCtx := ⟨['c'], ['u']⟩

/-- The first message of a conversation, in capitals. -/
def greeting : AcceptTurnInput where
  ref := ⟨['V'], .chat, ['K']⟩
  sessionId := ['s']
  userMessageId := some ['M']
  placeholderMessageId := ['P']
  budgetHold := ⟨20, 30, ['d']⟩
  continuesCommandId := none
  settled := false
  userMessage_iff := by decide
  placeholder_own := by decide
  continues_other := by decide
  settled_chat := by decide

/-- An answer under the same command id. -/
def reply : AcceptTurnInput where
  ref := ⟨['v'], .answer, ['k']⟩
  sessionId := ['s']
  userMessageId := none
  placeholderMessageId := ['q']
  budgetHold := ⟨5, 5, ['d']⟩
  continuesCommandId := none
  settled := false
  userMessage_iff := by decide
  placeholder_own := by decide
  continues_other := by decide
  settled_chat := by decide

/-- All conversations are of that member. -/
def oneAuthor : Authors := fun _ => some ['u']

/-- The greeting is accepted and sent again, its turn runs past its deadline,
and a sweep and an interrupt both try to end it. -/
def sweptTurn : List Act :=
  [.begin 1 (.accept staff greeting) 0, .begin 2 (.accept staff greeting) 1,
    .statement 1 none, .statement 2 none, .statement 1 none, .commit 1,
    .statement 2 (some true), .statement 2 none, .commit 2,
    .begin 3 (.start staff ⟨['v'], .chat, ['k']⟩ 1000) 2, .statement 3 none,
    .commit 3, .begin 4 (.sweep ['c'] [⟨['V'], .chat, ['K']⟩]) 2000,
    .begin 5 (.interrupt ['c'] ⟨['v'], .chat, ['k']⟩) 2001,
    .statement 4 none, .statement 4 none, .statement 4 none, .commit 4,
    .statement 5 none, .statement 5 none, .commit 5]

theorem lifeCycle_of_reach_swept :
    ∃ c, (machine oneAuthor).exec (machine oneAuthor).start sweptTurn =
        some c ∧
      handedBack (greeting.ref.identity ['c']) c.log = [⟨20, 30, ['d']⟩] ∧
      LifeCycle oneAuthor c :=
  ⟨_, rfl, by decide,
    lifeCycle_of_reach (Machine.reach_of_exec sweptTurn rfl)⟩

/-- A greeting that is settled as it is accepted. -/
def settledGreeting : AcceptTurnInput :=
  { greeting with settled := true, settled_chat := by decide }

/-- After the settled greeting its command id is accepted for an answer too,
and the worker finishes that turn before it has started. -/
def unstartedTurn : List Act :=
  [.begin 1 (.accept staff settledGreeting) 0, .statement 1 none,
    .statement 1 none, .commit 1, .begin 2 (.accept staff reply) 1,
    .statement 2 none, .statement 2 none, .commit 2,
    .begin 3 (.finish staff reply.ref .failed) 2, .statement 3 none,
    .commit 3]

/-- A turn ended from `queued` by its own worker has no end reason, a command
id is accepted once for each kind of turn, and nobody is told to hand back the
hold of a settled turn. -/
theorem unstartedTurn_ends :
    ∃ c, (machine oneAuthor).exec (machine oneAuthor).start unstartedTurn =
        some c ∧
      (∃ before after writes answer, .committed 3 (.finish staff reply.ref
          .failed) 2 writes answer ∈ c.log ∧
        .update before after ∈ writes ∧ after ∈ c.st.rows ∧
        before.status = .queued ∧ after.isActive = false ∧
        after.endReason ≠ some .notStarted) ∧
      (∃ chat ∈ accepted c.log, ∃ answer ∈ accepted c.log, chat ≠ answer ∧
        chat.identity.conversation = answer.identity.conversation ∧
        chat.identity.commandId = answer.identity.commandId) ∧
      ∃ row ∈ c.st.rows, row.isActive = false ∧
        handedBack row.identity c.log = [] := by
  refine ⟨_, rfl, ⟨_, _, _, _, .head _, .head _, .head _, rfl, rfl, ?_⟩,
    ⟨_, .tail _ (.head _), _, .head _, ?_, rfl, rfl⟩,
    _, .tail _ (.head _), rfl, by decide⟩ <;> decide

end Shozee.Turns
