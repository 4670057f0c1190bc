import Shozee.Idempotency.Readings

/-!
# Retention periods

A key lives through periods. An insert opens one, and so does a takeover that
resets a row past its retention; a plain takeover goes on in the period it
finds. What a caller learns from a row, a persisted grant above all, was
learnt in one period, and this file says what a period can hold: one committed
execution at most (`CommitsOncePerPeriod`).

The step that matters is the plain takeover of a completed row. It was decided
on an older version of the row, inside its retention, and the retention of an
attempt's row does not move, so the row cannot be past it on the same reading
(`Dated`).
-/

namespace Shozee.Idempotency

open Shozee.Run

variable {H R : Type}

/-- The event starts a new retention period of the key. -/
def Event.opens (k : RowIdentity) : Event H R → Bool
  | .inserted _ env _ _ => env.identity = k
  | .tookOver _ env options _ _ => env.identity = k && options.reset.isSome
  | _ => false

/-- The event is a committed execution under the key. -/
def Event.commits (k : RowIdentity) : Event H R → Bool
  | .committed _ env _ _ _ => env.identity = k
  | _ => false

/-- How many periods the key has had. -/
def openings (k : RowIdentity) (log : List (Event H R)) : Nat :=
  log.countP (Event.opens k)

/-- The key's current period has its committed execution. -/
def doneSince (k : RowIdentity) : List (Event H R) → Bool
  | [] => false
  | e :: older =>
      if e.commits k then true
      else if e.opens k then false
      else doneSince k older

/-- A commit is the first of its period. -/
def CommitsOncePerPeriod (older : List (Event H R)) : Event H R → Prop
  | .committed _ env _ _ _ => doneSince env.identity older = false
  | _ => True

section Scan

variable {k : RowIdentity} {e : Event H R} {older : List (Event H R)}

theorem openings_cons : openings k (e :: older) =
    openings k older + if e.opens k then 1 else 0 :=
  List.countP_cons

theorem doneSince_of_commits (hcommits : e.commits k = true) :
    doneSince k (e :: older) = true :=
  if_pos hcommits

theorem doneSince_of_opens (hcommits : e.commits k = false)
    (hopens : e.opens k = true) : doneSince k (e :: older) = false := by
  rw [doneSince, hcommits, hopens]
  rfl

theorem doneSince_of_other (hcommits : e.commits k = false)
    (hopens : e.opens k = false) :
    doneSince k (e :: older) = doneSince k older := by
  rw [doneSince, hcommits, hopens]
  rfl

end Scan

/-- Without a new period, what has been committed stays so. -/
theorem doneSince_append {k : RowIdentity} {between older : List (Event H R)}
    (h : openings k (between ++ older) = openings k older)
    (hdone : doneSince k older = true) :
    doneSince k (between ++ older) = true := by
  induction between with
  | nil => exact hdone
  | cons e rest ih =>
      have hle : openings k older ≤ openings k (rest ++ older) :=
        (List.sublist_append_right rest older).countP_le
      rw [List.cons_append, openings_cons] at h
      have hopens : e.opens k = false := by
        by_contra hne
        rw [if_pos (Bool.of_not_eq_false hne)] at h
        omega
      rw [hopens] at h
      have hrest := ih (by simpa using h)
      rw [List.cons_append]
      by_cases hcommits : e.commits k = true
      · exact doneSince_of_commits hcommits
      · rw [doneSince_of_other (Bool.of_not_eq_true hcommits) hopens]
        exact hrest

/-! ## The retention a takeover decided on

A takeover is decided on a row that was read earlier. When it wins, the row is
still under the id that was read, and so has the retention that the decision
was made on. -/

/-- A row that a call has read, or decided to take over, has the retention it
was read with for as long as it is the same attempt's. -/
def PhaseDated (s : State H R) : Phase H R → Prop
  | .selected env existing => ∀ row, s.table env.identity = some row →
      row.attemptId = existing.attemptId → row.expiresAt = existing.expiresAt
  | .takingOver env options _ => options.reset = none →
      ∀ row, s.table env.identity = some row →
        row.attemptId = options.observedAttemptId →
        options.nowMs < row.expiresAt
  | _ => True

section Steps

variable [DecidableEq H] {s s' : State H R} {a : Act H R}
  {out log : List (Event H R)}

/-- A row a step leaves under an attempt that had reserved before is that
attempt's row still, with its retention. -/
theorem Moves.row_of_issued (h : Moves s a s' out) (hM : Minted ⟨s, log⟩)
    {k : RowIdentity} {row : Row H R} (hrow : s'.table k = some row)
    (hissued : Issued log row.attemptId) :
    ∃ row₀, s.table k = some row₀ ∧ row₀.attemptId = row.attemptId ∧
      row₀.expiresAt = row.expiresAt := by
  rcases h.row_cases hrow with hkept | hinserted | htaken
  · obtain ⟨row₀, status, response, hrow₀, rfl⟩ := hkept
    exact ⟨row₀, hrow₀, rfl, rfl⟩
  · obtain ⟨p, env, b, nowMs, round, hph, -, -, rfl⟩ := hinserted
    have hunused := hM.phases p
    rw [hph] at hunused
    rw [insertValues_attemptId] at hissued
    exact absurd hissued hunused
  · obtain ⟨p, env, options, b, row₀, hph, -, -, -, -, rfl⟩ := htaken
    have hunused := hM.phases p
    rw [hph] at hunused
    rw [takeoverSet_attemptId] at hissued
    exact absurd hissued hunused.2

theorem PhaseDated.step (h : Moves s a s' out) (hM : Minted ⟨s, log⟩)
    {ph : Phase H R} (hminted : PhaseMinted log ph)
    (hdated : PhaseDated s ph) : PhaseDated s' ph := by
  cases ph with
  | selected env existing =>
      intro row hrow hid
      obtain ⟨row₀, hrow₀, hid₀, hexp⟩ :=
        h.row_of_issued hM hrow (hid ▸ hminted)
      rw [← hexp]
      exact hdated row₀ hrow₀ (hid₀.trans hid)
  | takingOver env options b =>
      intro hplain row hrow hid
      obtain ⟨row₀, hrow₀, hid₀, hexp⟩ :=
        h.row_of_issued hM hrow (hid ▸ hminted.1)
      rw [← hexp]
      exact hdated hplain row₀ hrow₀ (hid₀.trans hid)
  | idle | starting | inserting | selecting | reloading | reloaded
  | executing | finalized | rolledBack | ended => trivial

theorem Moves.phaseDated (h : Moves s a s' out) (hM : Minted ⟨s, log⟩)
    (hold : ∀ p, PhaseDated s (s.phase p)) :
    ∀ q, PhaseDated s' (s'.phase q) := by
  intro q
  have hkept : PhaseDated s' (s.phase q) :=
    (hold q).step h hM (hM.phases q)
  have hupdate : ∀ {p : Nat} {ph : Phase H R}, PhaseDated s' ph →
      PhaseDated s' (if q = p then ph else s.phase q) := by
    intro p ph hph
    split
    · exact hph
    · exact hkept
  cases h with
  | tick | cleanup => exact hkept
  | @selectRow p env round row hph hrow =>
      simp only [setPhase_phase]
      refine hupdate fun row' hrow' _ => ?_
      rw [show s.table env.identity = some row' from hrow'] at hrow
      cases hrow
      rfl
  | @decideTakeOver p nowMs b env existing options hph hdec =>
      simp only [setPhase_phase]
      refine hupdate fun hplain row hrow hid => ?_
      have hread := hold p
      rw [hph] at hread
      obtain ⟨hobserved, hnow, -, -⟩ := decideExisting_options hdec
      rw [hread row hrow (hid.trans hobserved)]
      obtain ⟨-, ⟨-, rfl⟩ | ⟨hlive, -, -, rfl⟩⟩ := decideExisting_takeOver hdec
      · cases hplain
      · exact hlive
  | _ =>
      simp only [setPhase_phase]
      exact hupdate trivial

theorem dated_of_reach {c : Conf (State H R) (Event H R)}
    (h : protocol.Reach c) : ∀ p, PhaseDated c.st (c.st.phase p) := by
  refine h.invariant (I := fun c => ∀ p, PhaseDated c.st (c.st.phase p))
    ?_ ?_
  · intro p
    trivial
  intro c a c' hc ih _ hnext
  obtain ⟨s, out, hmoves, rfl⟩ := moves_of_next hnext
  exact hmoves.phaseDated (minted_of_reach hc) ih

omit [DecidableEq H] in
/-- Only a reset takes a completed row over. -/
theorem reset_of_completed {env : ReserveEnv H}
    {options : TakeoverOptions H} {b : AttemptId} {row : Row H R}
    (hdated : PhaseDated s (.takingOver env options b))
    (hrow : s.table env.identity = some row) (hwins : TakeoverWins options row)
    (hdone : row.status = .completed) : options.reset.isSome = true := by
  cases hreset : options.reset with
  | some reset => rfl
  | none =>
      have hlive := hdated hreset row hrow hwins.1
      exact absurd hwins.2 (not_reclaimable_of_completed hdone hlive)

/-! ## One commit a period

A completed row is reclaimed only past its retention, and then reset. So while
a period lasts, the row of its commit stands, and a second commit finds it
there. -/

/-- While the current period has its commit, the key has a completed row or
none. -/
def DoneRow (c : Conf (State H R) (Event H R)) : Prop :=
  ∀ k row, doneSince k c.log = true → c.st.table k = some row →
    row.status = .completed

theorem Moves.doneRow {c : Conf (State H R) (Event H R)}
    (h : Moves c.st a s' out)
    (hdated : ∀ p, PhaseDated c.st (c.st.phase p)) (hI : DoneRow c) :
    DoneRow ⟨s', out ++ c.log⟩ := by
  intro k row hdone hrow
  cases h with
  | @insertNew p env round b nowMs hph hnone =>
      simp only [setPhase_table, setRow_table] at hrow
      rw [List.singleton_append] at hdone
      split at hrow
      · next hk =>
          have hopens : Event.opens k
              (.inserted p env b nowMs : Event H R) = true :=
            decide_eq_true hk.symm
          rw [doneSince_of_opens rfl hopens] at hdone
          cases hdone
      · next hk =>
          have hother : Event.opens k
              (.inserted p env b nowMs : Event H R) = false :=
            decide_eq_false (Ne.symm hk)
          rw [doneSince_of_other rfl hother] at hdone
          exact hI k row hdone hrow
  | @takeOverWon p env options b row₀ hph hfree hprev hwins =>
      simp only [setPhase_table, setRow_table] at hrow
      rw [List.singleton_append] at hdone
      split at hrow
      · next hk =>
          by_cases hreset : options.reset.isSome = true
          · have hopens : Event.opens k
                (.tookOver p env options b row₀) = true := by
              rw [Event.opens, decide_eq_true hk.symm, hreset]
              rfl
            rw [doneSince_of_opens rfl hopens] at hdone
            cases hdone
          · have hplain : Event.opens k
                (.tookOver p env options b row₀) = false := by
              rw [Event.opens, Bool.of_not_eq_true hreset, Bool.and_false]
            rw [doneSince_of_other rfl hplain, hk] at hdone
            have hcompleted := hI _ row₀ hdone hprev
            have hread := hdated p
            rw [hph] at hread
            exact absurd (reset_of_completed hread hprev hwins hcompleted)
              hreset
      · next hk =>
          have hother : Event.opens k
              (.tookOver p env options b row₀) = false := by
            rw [Event.opens, decide_eq_false (Ne.symm hk), Bool.false_and]
          rw [doneSince_of_other rfl hother] at hdone
          exact hI k row hdone hrow
  | @commit p env r leaseEnd output row₀ hph hprev =>
      simp only [setPhase_table, setLock_table, setRow_table] at hrow
      rw [List.singleton_append] at hdone
      split at hrow
      · cases hrow; rfl
      · next hk =>
          have hother : Event.commits k
              (.committed p env r output row₀) = false :=
            decide_eq_false (Ne.symm hk)
          rw [doneSince_of_other hother rfl] at hdone
          exact hI k row hdone hrow
  | markFailedOwned hph hfree hprev howned =>
      simp only [setPhase_table, setRow_table] at hrow
      split at hrow
      · next hk =>
          have hcompleted := hI k _ hdone (hk ▸ hprev)
          rw [howned.2] at hcompleted
          cases hcompleted
      · exact hI k row hdone hrow
  | cleanup =>
      simp only [setRow_table] at hrow
      split at hrow
      · cases hrow
      · exact hI k row hdone hrow
  | _ => exact hI k row hdone hrow

theorem doneRow_of_reach {c : Conf (State H R) (Event H R)}
    (h : protocol.Reach c) : DoneRow c := by
  refine h.invariant (I := DoneRow) (fun _ _ hdone => by cases hdone) ?_
  intro c a c' hc ih _ hnext
  obtain ⟨s, out, hmoves, rfl⟩ := moves_of_next hnext
  exact hmoves.doneRow (dated_of_reach hc) ih

theorem commitsOncePerPeriod_of_reach {c : Conf (State H R) (Event H R)}
    (h : protocol.Reach c) : Told CommitsOncePerPeriod c.log := by
  refine h.invariant (I := fun c => Told CommitsOncePerPeriod c.log) .nil ?_
  intro c a c' hc ih _ hnext
  obtain ⟨s, out, hmoves, rfl⟩ := moves_of_next hnext
  refine ih.append hmoves.out_length_le fun e he => ?_
  cases e with
  | committed p env r output row =>
      obtain ⟨hrow, leaseEnd, hph⟩ := hmoves.committed_of_mem he
      obtain ⟨-, row', hrow', howned⟩ :=
        (owned_of_reach hc).holder _ _ _ _ _ hph
      rw [hrow] at hrow'
      cases hrow'
      show doneSince env.identity c.log = false
      by_contra hdone
      have hcompleted := doneRow_of_reach hc env.identity row
        (Bool.of_not_eq_false hdone) hrow
      rw [howned.2] at hcompleted
      cases hcompleted
  | _ => trivial

end Steps

end Shozee.Idempotency
