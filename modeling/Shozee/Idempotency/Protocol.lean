import Mathlib.Logic.Function.Basic
import Shozee.Run.Machine
import Shozee.Idempotency.Hook

/-!
# Attempts on `idempotency_keys`, interleaved

A call runs `reserve`, then its handler transaction with `finalize` as the
last statement, then `commit`, or `rollback` and `markFailed`. Every SQL
statement is one action, and so is every reading of a clock, so any number of
calls interleave between any two statements of any of them. A call that
crashes simply takes no more actions; if its handler transaction was open the
database rolls it back, which is the same `rollback`.

`finalize` updates the row inside the handler's transaction, so the row stays
locked until that transaction ends: `lock` says by whom. A statement that
would write a locked row waits, which here means it is not enabled; a
`SELECT` and the `INSERT ... ON CONFLICT DO NOTHING` see the committed row and
do not wait. Cleanup deletes row by row, since a row it finds locked holds it
up there and not elsewhere.

Clock readings are arbitrary. `clock` is the true time, which only the runs
with one non-decreasing clock tie the readings to (`OneClock`).
-/

namespace Shozee.Idempotency

open Shozee.Run

/-- Where one call is. `leaseEnd` is the end of the lease its reservation was
given. -/
inductive Phase (H R : Type)
  | idle
  | starting (env : ReserveEnv H) (round : Nat)
  | inserting (env : ReserveEnv H) (round : Nat) (attemptId : AttemptId)
      (nowMs : Nat)
  | selecting (env : ReserveEnv H) (round : Nat)
  | selected (env : ReserveEnv H) (existing : Row H R)
  | takingOver (env : ReserveEnv H) (options : TakeoverOptions H)
      (attemptId : AttemptId)
  | reloading (env : ReserveEnv H)
  | reloaded (env : ReserveEnv H) (existing : Row H R)
  | executing (env : ReserveEnv H) (r : IdempotencyReservation)
      (leaseEnd : Nat)
  | finalized (env : ReserveEnv H) (r : IdempotencyReservation)
      (leaseEnd : Nat) (output : R)
  | rolledBack (env : ReserveEnv H) (r : IdempotencyReservation)
      (leaseEnd : Nat)
  | ended

/-- `drawnBy` records which call drew an attempt id, so that ids stay unique. -/
structure State (H R : Type) where
  table : RowIdentity → Option (Row H R)
  phase : Nat → Phase H R
  lock : RowIdentity → Option Nat
  drawnBy : AttemptId → Option (Nat × ReserveEnv H)
  clock : Nat

/-- The steps of a reservation, one for each statement and each reading of a
clock. -/
inductive Act (H R : Type)
  | tick (t : Nat)
  | call (p : Nat) (env : ReserveEnv H)
  | stampInsert (p : Nat) (attemptId : AttemptId) (nowMs : Nat)
  | insert (p : Nat)
  | select (p : Nat)
  | decide (p : Nat) (nowMs : Nat) (attemptId : AttemptId)
  | takeOver (p : Nat)
  | reload (p : Nat)
  | resolve (p : Nat) (nowMs : Nat)
  | finalize (p : Nat) (output : R)
  | commit (p : Nat)
  | rollback (p : Nat)
  | markFailed (p : Nat)
  | cleanup (identity : RowIdentity) (nowMs : Nat)

/-- What a step reports. A row an event carries is the row the statement saw
before it wrote. -/
inductive Event (H R : Type)
  | inserted (p : Nat) (env : ReserveEnv H) (attemptId : AttemptId)
      (nowMs : Nat)
  | read (p : Nat) (identity : RowIdentity) (row : Row H R)
  | tookOver (p : Nat) (env : ReserveEnv H) (options : TakeoverOptions H)
      (attemptId : AttemptId) (row : Row H R)
  | answered (p : Nat) (env : ReserveEnv H) (outcome : ReserveOutcome R)
  | committed (p : Nat) (env : ReserveEnv H) (r : IdempotencyReservation)
      (output : R) (row : Row H R)
  | cleaned (identity : RowIdentity) (row : Row H R) (nowMs : Nat)
deriving DecidableEq

variable {H R : Type}

/-- No row and no call. -/
def State.initial : State H R where
  table := fun _ => none
  phase := fun _ => .idle
  lock := fun _ => none
  drawnBy := fun _ => none
  clock := 0

/-- One call changed. -/
def State.setPhase (s : State H R) (p : Nat) (ph : Phase H R) : State H R :=
  { s with phase := Function.update s.phase p ph }

/-- One row written or removed. -/
def State.setRow (s : State H R) (k : RowIdentity) (row : Option (Row H R)) :
    State H R :=
  { s with table := Function.update s.table k row }

/-- One lock taken or let go. -/
def State.setLock (s : State H R) (k : RowIdentity) (p : Option Nat) :
    State H R :=
  { s with lock := Function.update s.lock k p }

/-- An attempt's id drawn for a call. -/
def State.draw (s : State H R) (p : Nat) (env : ReserveEnv H)
    (attemptId : AttemptId) : State H R :=
  { s with drawnBy := Function.update s.drawnBy attemptId (some (p, env)) }

/-- `execute({ ...identity, attemptId, leaseMs })`. -/
def reservationOf (env : ReserveEnv H) (attemptId : AttemptId) :
    IdempotencyReservation :=
  { identity := env.identity, attemptId := attemptId, leaseMs := env.leaseMs }

/-- The row `finalize` commits. -/
def Row.completedWith (row : Row H R) (output : R) : Row H R :=
  { row with status := .completed, response := some output }

/-- The row `markFailed` leaves. -/
def Row.markedFailed (row : Row H R) : Row H R := { row with status := .failed }

variable [DecidableEq H]

/-- One action of one call, or of the cleanup job. -/
def step (s : State H R) :
    Act H R → Option (State H R × List (Event H R))
  | .tick t => if s.clock ≤ t then some ({ s with clock := t }, []) else none
  | .call p env =>
      match s.phase p with
      | .idle => some (s.setPhase p (.starting env 0), [])
      | _ => none
  | .stampInsert p attemptId nowMs =>
      match s.phase p, s.drawnBy attemptId with
      | .starting env round, none =>
          some ((s.draw p env attemptId).setPhase p
            (.inserting env round attemptId nowMs), [])
      | _, _ => none
  | .insert p =>
      match s.phase p with
      | .inserting env round attemptId nowMs =>
          match s.table env.identity with
          | none =>
              some ((s.setRow env.identity
                (some (insertValues env attemptId nowMs))).setPhase p
                (.executing env (reservationOf env attemptId)
                  (nowMs + env.leaseMs)),
                [.inserted p env attemptId nowMs])
          | some _ => some (s.setPhase p (.selecting env round), [])
      | _ => none
  | .select p =>
      match s.phase p with
      | .selecting env round =>
          match s.table env.identity with
          -- The row vanished between the conflict and this read: the second
          -- of the two rounds gives up.
          | none =>
              if round = 0 then some (s.setPhase p (.starting env 1), [])
              else
                some (s.setPhase p .ended,
                  [.answered p env (.concurrentRetry 1 .keptVanishing)])
          | some row =>
              some (s.setPhase p (.selected env row),
                [.read p env.identity row])
      | _ => none
  | .decide p nowMs attemptId =>
      match s.phase p with
      | .selected env existing =>
          match decideExisting env existing nowMs with
          | .answer outcome =>
              some (s.setPhase p .ended, [.answered p env outcome])
          | .takeOver options =>
              match s.drawnBy attemptId with
              | none =>
                  some ((s.draw p env attemptId).setPhase p
                    (.takingOver env options attemptId), [])
              | some _ => none
      | _ => none
  | .takeOver p =>
      match s.phase p with
      | .takingOver env options attemptId =>
          match s.lock env.identity with
          | some _ => none
          | none =>
              match s.table env.identity with
              | none => some (s.setPhase p (.reloading env), [])
              | some row =>
                  if TakeoverWins options row then
                    some ((s.setRow env.identity
                      (some (takeoverSet options attemptId row))).setPhase p
                      (.executing env (reservationOf env attemptId)
                        (options.nowMs + options.leaseMs)),
                      [.tookOver p env options attemptId row])
                  else some (s.setPhase p (.reloading env), [])
      | _ => none
  | .reload p =>
      match s.phase p with
      | .reloading env =>
          match s.table env.identity with
          | none =>
              some (s.setPhase p .ended,
                [.answered p env (.concurrentRetry 1 .vanishedDuringTakeover)])
          | some row =>
              some (s.setPhase p (.reloaded env row),
                [.read p env.identity row])
      | _ => none
  | .resolve p nowMs =>
      match s.phase p with
      | .reloaded env existing =>
          some (s.setPhase p .ended,
            [.answered p env (resolveLostTakeover env existing nowMs)])
      | _ => none
  | .finalize p output =>
      match s.phase p with
      | .executing env r leaseEnd =>
          match s.lock env.identity with
          | some _ => none
          | none =>
              match s.table env.identity with
              | some row =>
                  if OwnedInProgress r row then
                    some ((s.setLock env.identity (some p)).setPhase p
                      (.finalized env r leaseEnd output), [])
                  else
                    some (s.setPhase p (.rolledBack env r leaseEnd),
                      [.answered p env (.concurrentRetry
                        (retryAfterSec r.leaseMs) (.lostLease r.attemptId))])
              | none =>
                  some (s.setPhase p (.rolledBack env r leaseEnd),
                    [.answered p env (.concurrentRetry
                      (retryAfterSec r.leaseMs) (.lostLease r.attemptId))])
      | _ => none
  | .commit p =>
      match s.phase p with
      | .finalized env r _ output =>
          match s.table env.identity with
          | some row =>
              some (((s.setRow env.identity
                (some (row.completedWith output))).setLock env.identity
                none).setPhase p .ended,
                [.committed p env r output row])
          | none => none
      | _ => none
  | .rollback p =>
      match s.phase p with
      | .executing env r leaseEnd =>
          some (s.setPhase p (.rolledBack env r leaseEnd), [])
      | .finalized env r leaseEnd _ =>
          some ((s.setLock env.identity none).setPhase p
            (.rolledBack env r leaseEnd), [])
      | _ => none
  | .markFailed p =>
      match s.phase p with
      | .rolledBack env r _ =>
          match s.lock env.identity with
          | some _ => none
          | none =>
              match s.table env.identity with
              | some row =>
                  if OwnedInProgress r row then
                    some ((s.setRow env.identity
                      (some row.markedFailed)).setPhase p .ended, [])
                  else some (s.setPhase p .ended, [])
              | none => some (s.setPhase p .ended, [])
      | _ => none
  | .cleanup k nowMs =>
      match s.lock k, s.table k with
      | none, some row =>
          if row.expiresAt ≤ nowMs then
            some (s.setRow k none, [.cleaned k row nowMs])
          else none
      | _, _ => none

/-- All the calls on one database. -/
def protocol : Machine (State H R) (Act H R) (Event H R) where
  init := .initial
  step := step

/-- The runs with one non-decreasing clock: a call that reads the clock reads
`clock`. The cleanup job read its cutoff at some moment before it deletes. -/
def OneClock (c : Conf (State H R) (Event H R)) : Act H R → Prop
  | .stampInsert _ _ nowMs => nowMs = c.st.clock
  | .decide _ nowMs _ => nowMs = c.st.clock
  | .resolve _ nowMs => nowMs = c.st.clock
  | .cleanup _ nowMs => nowMs ≤ c.st.clock
  | _ => True

instance (c : Conf (State H R) (Event H R)) :
    ∀ a : Act H R, Decidable (OneClock c a)
  | .stampInsert _ _ nowMs =>
      inferInstanceAs (Decidable (nowMs = c.st.clock))
  | .decide _ nowMs _ => inferInstanceAs (Decidable (nowMs = c.st.clock))
  | .resolve _ nowMs => inferInstanceAs (Decidable (nowMs = c.st.clock))
  | .cleanup _ nowMs => inferInstanceAs (Decidable (nowMs ≤ c.st.clock))
  | .tick _ | .call _ _ | .insert _ | .select _ | .takeOver _ | .reload _
  | .finalize _ _ | .commit _ | .rollback _ | .markFailed _ =>
      .isTrue trivial

/-! ## What the setters leave alone

A setter writes one field of the state and reads the others back unchanged. All
are by `rfl`. -/

section Frame

omit [DecidableEq H]

variable (s : State H R) (p q : Nat) (ph : Phase H R) (k k' : RowIdentity)
  (row : Option (Row H R)) (holder : Option Nat) (env : ReserveEnv H)
  (a a' : AttemptId)

@[simp] theorem setPhase_table : (s.setPhase p ph).table = s.table := rfl
@[simp] theorem setPhase_lock : (s.setPhase p ph).lock = s.lock := rfl
@[simp] theorem setPhase_drawnBy :
    (s.setPhase p ph).drawnBy = s.drawnBy := rfl
@[simp] theorem setPhase_clock : (s.setPhase p ph).clock = s.clock := rfl
@[simp] theorem setRow_phase : (s.setRow k row).phase = s.phase := rfl
@[simp] theorem setRow_lock : (s.setRow k row).lock = s.lock := rfl
@[simp] theorem setRow_drawnBy : (s.setRow k row).drawnBy = s.drawnBy := rfl
@[simp] theorem setRow_clock : (s.setRow k row).clock = s.clock := rfl
@[simp] theorem setLock_phase : (s.setLock k holder).phase = s.phase := rfl
@[simp] theorem setLock_table : (s.setLock k holder).table = s.table := rfl
@[simp] theorem setLock_drawnBy :
    (s.setLock k holder).drawnBy = s.drawnBy := rfl
@[simp] theorem setLock_clock : (s.setLock k holder).clock = s.clock := rfl
@[simp] theorem draw_phase : (s.draw p env a).phase = s.phase := rfl
@[simp] theorem draw_table : (s.draw p env a).table = s.table := rfl
@[simp] theorem draw_lock : (s.draw p env a).lock = s.lock := rfl
@[simp] theorem draw_clock : (s.draw p env a).clock = s.clock := rfl

@[simp] theorem setPhase_phase :
    (s.setPhase p ph).phase q = if q = p then ph else s.phase q :=
  Function.update_apply _ _ _ _

@[simp] theorem setRow_table :
    (s.setRow k row).table k' = if k' = k then row else s.table k' :=
  Function.update_apply _ _ _ _

@[simp] theorem setLock_lock :
    (s.setLock k holder).lock k' = if k' = k then holder else s.lock k' :=
  Function.update_apply _ _ _ _

@[simp] theorem draw_drawnBy :
    (s.draw p env a).drawnBy a' =
      if a' = a then some (p, env) else s.drawnBy a' :=
  Function.update_apply _ _ _ _

end Frame

/-! ## What a step can be

`Moves` says once what each action does and what it found when it did it.
Every invariant below is a case analysis on it. -/

/-- What a step does, one case for each way that it can go. -/
inductive Moves (s : State H R) :
    Act H R → State H R → List (Event H R) → Prop
  | tick {t} (hle : s.clock ≤ t) : Moves s (.tick t) { s with clock := t } []
  | call {p env} (hph : s.phase p = .idle) :
      Moves s (.call p env) (s.setPhase p (.starting env 0)) []
  | stampInsert {p attemptId nowMs env round}
      (hph : s.phase p = .starting env round)
      (hfresh : s.drawnBy attemptId = none) :
      Moves s (.stampInsert p attemptId nowMs)
        ((s.draw p env attemptId).setPhase p
          (.inserting env round attemptId nowMs)) []
  | insertNew {p env round attemptId nowMs}
      (hph : s.phase p = .inserting env round attemptId nowMs)
      (hrow : s.table env.identity = none) :
      Moves s (.insert p)
        ((s.setRow env.identity
          (some (insertValues env attemptId nowMs))).setPhase p
          (.executing env (reservationOf env attemptId)
            (nowMs + env.leaseMs)))
        [.inserted p env attemptId nowMs]
  | insertConflict {p env round attemptId nowMs}
      (hph : s.phase p = .inserting env round attemptId nowMs) :
      Moves s (.insert p) (s.setPhase p (.selecting env round)) []
  | selectAgain {p env round} (hph : s.phase p = .selecting env round) :
      Moves s (.select p) (s.setPhase p (.starting env 1)) []
  | selectGone {p env round} (hph : s.phase p = .selecting env round) :
      Moves s (.select p) (s.setPhase p .ended)
        [.answered p env (.concurrentRetry 1 .keptVanishing)]
  | selectRow {p env round row} (hph : s.phase p = .selecting env round)
      (hrow : s.table env.identity = some row) :
      Moves s (.select p) (s.setPhase p (.selected env row))
        [.read p env.identity row]
  | decideAnswer {p nowMs attemptId env existing outcome}
      (hph : s.phase p = .selected env existing)
      (hdec : decideExisting env existing nowMs = .answer outcome) :
      Moves s (.decide p nowMs attemptId) (s.setPhase p .ended)
        [.answered p env outcome]
  | decideTakeOver {p nowMs attemptId env existing options}
      (hph : s.phase p = .selected env existing)
      (hdec : decideExisting env existing nowMs = .takeOver options)
      (hfresh : s.drawnBy attemptId = none) :
      Moves s (.decide p nowMs attemptId)
        ((s.draw p env attemptId).setPhase p
          (.takingOver env options attemptId)) []
  | takeOverWon {p env options attemptId row}
      (hph : s.phase p = .takingOver env options attemptId)
      (hlock : s.lock env.identity = none)
      (hrow : s.table env.identity = some row)
      (hwins : TakeoverWins options row) :
      Moves s (.takeOver p)
        ((s.setRow env.identity
          (some (takeoverSet options attemptId row))).setPhase p
          (.executing env (reservationOf env attemptId)
            (options.nowMs + options.leaseMs)))
        [.tookOver p env options attemptId row]
  | takeOverLost {p env options attemptId}
      (hph : s.phase p = .takingOver env options attemptId) :
      Moves s (.takeOver p) (s.setPhase p (.reloading env)) []
  | reloadGone {p env} (hph : s.phase p = .reloading env) :
      Moves s (.reload p) (s.setPhase p .ended)
        [.answered p env (.concurrentRetry 1 .vanishedDuringTakeover)]
  | reloadRow {p env row} (hph : s.phase p = .reloading env)
      (hrow : s.table env.identity = some row) :
      Moves s (.reload p) (s.setPhase p (.reloaded env row))
        [.read p env.identity row]
  | resolve {p nowMs env existing} (hph : s.phase p = .reloaded env existing) :
      Moves s (.resolve p nowMs) (s.setPhase p .ended)
        [.answered p env (resolveLostTakeover env existing nowMs)]
  | finalizeOwned {p output env r leaseEnd row}
      (hph : s.phase p = .executing env r leaseEnd)
      (hlock : s.lock env.identity = none)
      (hrow : s.table env.identity = some row)
      (howned : OwnedInProgress r row) :
      Moves s (.finalize p output)
        ((s.setLock env.identity (some p)).setPhase p
          (.finalized env r leaseEnd output)) []
  | finalizeLost {p output env r leaseEnd}
      (hph : s.phase p = .executing env r leaseEnd) :
      Moves s (.finalize p output) (s.setPhase p (.rolledBack env r leaseEnd))
        [.answered p env (.concurrentRetry (retryAfterSec r.leaseMs)
          (.lostLease r.attemptId))]
  | commit {p env r leaseEnd output row}
      (hph : s.phase p = .finalized env r leaseEnd output)
      (hrow : s.table env.identity = some row) :
      Moves s (.commit p)
        (((s.setRow env.identity
          (some (row.completedWith output))).setLock env.identity
          none).setPhase p .ended)
        [.committed p env r output row]
  | rollbackExecuting {p env r leaseEnd}
      (hph : s.phase p = .executing env r leaseEnd) :
      Moves s (.rollback p) (s.setPhase p (.rolledBack env r leaseEnd)) []
  | rollbackFinalized {p env r leaseEnd output}
      (hph : s.phase p = .finalized env r leaseEnd output) :
      Moves s (.rollback p)
        ((s.setLock env.identity none).setPhase p
          (.rolledBack env r leaseEnd)) []
  | markFailedOwned {p env r leaseEnd row}
      (hph : s.phase p = .rolledBack env r leaseEnd)
      (hlock : s.lock env.identity = none)
      (hrow : s.table env.identity = some row)
      (howned : OwnedInProgress r row) :
      Moves s (.markFailed p)
        ((s.setRow env.identity (some row.markedFailed)).setPhase p .ended) []
  | markFailedLost {p env r leaseEnd}
      (hph : s.phase p = .rolledBack env r leaseEnd) :
      Moves s (.markFailed p) (s.setPhase p .ended) []
  | cleanup {k nowMs row} (hlock : s.lock k = none)
      (hrow : s.table k = some row) (hexp : row.expiresAt ≤ nowMs) :
      Moves s (.cleanup k nowMs) (s.setRow k none) [.cleaned k row nowMs]

/-! ## Action by action

Every branch of `step` that is taken is one of the constructors. -/

section Actions

variable {s s' : State H R} {out : List (Event H R)}

-- The equations of `step` are made once, for all the lemmas of the section.
attribute [local simp] step

theorem moves_of_insert {p : Nat}
    (h : step s (.insert p) = some (s', out)) :
    Moves s (.insert p) s' out := by
  simp only [step] at h
  split at h
  · next hph =>
      split at h
      · next hrow => cases h; exact .insertNew hph hrow
      · cases h; exact .insertConflict hph
  · cases h

theorem moves_of_select {p : Nat}
    (h : step s (.select p) = some (s', out)) :
    Moves s (.select p) s' out := by
  simp only [step] at h
  split at h
  · next hph =>
      split at h
      · split at h
        · cases h; exact .selectAgain hph
        · cases h; exact .selectGone hph
      · next hrow => cases h; exact .selectRow hph hrow
  · cases h

theorem moves_of_decide {p nowMs : Nat} {attemptId : AttemptId}
    (h : step s (.decide p nowMs attemptId) = some (s', out)) :
    Moves s (.decide p nowMs attemptId) s' out := by
  simp only [step] at h
  split at h
  · next hph =>
      split at h
      · next hdec => cases h; exact .decideAnswer hph hdec
      · next hdec =>
          split at h
          · next hfresh => cases h; exact .decideTakeOver hph hdec hfresh
          · cases h
  · cases h

theorem moves_of_takeOver {p : Nat}
    (h : step s (.takeOver p) = some (s', out)) :
    Moves s (.takeOver p) s' out := by
  simp only [step] at h
  split at h
  · next hph =>
      split at h
      · cases h
      · next hlock =>
          split at h
          · cases h; exact .takeOverLost hph
          · next hrow =>
              split at h
              · next hwins =>
                  cases h; exact .takeOverWon hph hlock hrow hwins
              · cases h; exact .takeOverLost hph
  · cases h

theorem moves_of_reload {p : Nat}
    (h : step s (.reload p) = some (s', out)) :
    Moves s (.reload p) s' out := by
  simp only [step] at h
  split at h
  · next hph =>
      split at h
      · cases h; exact .reloadGone hph
      · next hrow => cases h; exact .reloadRow hph hrow
  · cases h

theorem moves_of_finalize {p : Nat} {output : R}
    (h : step s (.finalize p output) = some (s', out)) :
    Moves s (.finalize p output) s' out := by
  simp only [step] at h
  split at h
  · next hph =>
      split at h
      · cases h
      · next hlock =>
          split at h
          · next hrow =>
              split at h
              · next howned =>
                  cases h; exact .finalizeOwned hph hlock hrow howned
              · cases h; exact .finalizeLost hph
          · cases h; exact .finalizeLost hph
  · cases h

theorem moves_of_commit {p : Nat}
    (h : step s (.commit p) = some (s', out)) :
    Moves s (.commit p) s' out := by
  simp only [step] at h
  split at h
  · next hph =>
      split at h
      · next hrow => cases h; exact .commit hph hrow
      · cases h
  · cases h

theorem moves_of_markFailed {p : Nat}
    (h : step s (.markFailed p) = some (s', out)) :
    Moves s (.markFailed p) s' out := by
  simp only [step] at h
  split at h
  · next hph =>
      split at h
      · cases h
      · next hlock =>
          split at h
          · next hrow =>
              split at h
              · next howned =>
                  cases h; exact .markFailedOwned hph hlock hrow howned
              · cases h; exact .markFailedLost hph
          · cases h; exact .markFailedLost hph
  · cases h

theorem moves_of_cleanup {k : RowIdentity} {nowMs : Nat}
    (h : step s (.cleanup k nowMs) = some (s', out)) :
    Moves s (.cleanup k nowMs) s' out := by
  simp only [step] at h
  split at h
  · next hlock hrow =>
      split at h
      · next hexp => cases h; exact .cleanup hlock hrow hexp
      · cases h
  · cases h

end Actions

theorem moves_of_step {s s' : State H R} {a : Act H R}
    {out : List (Event H R)} (h : step s a = some (s', out)) :
    Moves s a s' out := by
  cases a with
  | tick t =>
      simp only [step] at h
      split at h
      · next hle => cases h; exact .tick hle
      · cases h
  | call p env =>
      simp only [step] at h
      split at h
      · next hph => cases h; exact .call hph
      · cases h
  | stampInsert p attemptId nowMs =>
      simp only [step] at h
      split at h
      · next hph hfresh => cases h; exact .stampInsert hph hfresh
      · cases h
  | insert => exact moves_of_insert h
  | select => exact moves_of_select h
  | decide => exact moves_of_decide h
  | takeOver => exact moves_of_takeOver h
  | reload => exact moves_of_reload h
  | resolve p nowMs =>
      simp only [step] at h
      split at h
      · next hph => cases h; exact .resolve hph
      · cases h
  | finalize => exact moves_of_finalize h
  | commit => exact moves_of_commit h
  | rollback p =>
      simp only [step] at h
      split at h
      · next hph => cases h; exact .rollbackExecuting hph
      · next hph => cases h; exact .rollbackFinalized hph
      · cases h
  | markFailed => exact moves_of_markFailed h
  | cleanup => exact moves_of_cleanup h

/-- Where a row comes from that a step leaves: an insert or a takeover wrote
it, or it was there, and at most its status and its response have changed. -/
theorem Moves.row_cases {s s' : State H R} {a : Act H R}
    {out : List (Event H R)} (h : Moves s a s' out) {k : RowIdentity}
    {row : Row H R} (hrow : s'.table k = some row) :
    (∃ row₀ status response, s.table k = some row₀ ∧
        row = { row₀ with status, response }) ∨
      (∃ p env attemptId nowMs round,
        s.phase p = .inserting env round attemptId nowMs ∧
          out = [.inserted p env attemptId nowMs] ∧ env.identity = k ∧
          row = insertValues env attemptId nowMs) ∨
      ∃ p env options attemptId row₀,
        s.phase p = .takingOver env options attemptId ∧
          out = [.tookOver p env options attemptId row₀] ∧
          env.identity = k ∧ s.table k = some row₀ ∧
          TakeoverWins options row₀ ∧
          row = takeoverSet options attemptId row₀ := by
  have hkept : s.table k = some row →
      ∃ row₀ status response, s.table k = some row₀ ∧
        row = { row₀ with status, response } :=
    fun hold => ⟨row, row.status, row.response, hold, rfl⟩
  have hupdate : ∀ {j : RowIdentity} {new : Row H R} {P : Prop},
      (if k = j then some new else s.table k) = some row →
      (j = k → row = new → P) → (s.table k = some row → P) → P := by
    intro j new P hif hnew hold
    split at hif
    · next heq => exact hnew heq.symm (Option.some.inj hif).symm
    · exact hold hif
  cases h with
  | @insertNew p env round b nowMs hph =>
      simp only [setPhase_table, setRow_table] at hrow
      refine hupdate hrow (fun hk hnew => ?_) fun hold => Or.inl (hkept hold)
      exact Or.inr (Or.inl ⟨p, env, b, nowMs, round, hph, rfl, hk, hnew⟩)
  | @takeOverWon p env options b row₀ hph hlock hprev hwins =>
      simp only [setPhase_table, setRow_table] at hrow
      refine hupdate hrow (fun hk hnew => ?_) fun hold => Or.inl (hkept hold)
      exact Or.inr (Or.inr
        ⟨p, env, options, b, row₀, hph, rfl, hk, hk ▸ hprev, hwins, hnew⟩)
  | commit hph hprev =>
      simp only [setPhase_table, setLock_table, setRow_table] at hrow
      refine hupdate hrow (fun hk hnew => ?_) fun hold => Or.inl (hkept hold)
      exact Or.inl ⟨_, _, _, hk ▸ hprev, hnew⟩
  | @markFailedOwned p env r leaseEnd row₀ hph hlock hprev =>
      simp only [setPhase_table, setRow_table] at hrow
      refine hupdate hrow (fun hk hnew => ?_) fun hold => Or.inl (hkept hold)
      exact Or.inl ⟨row₀, .failed, row₀.response, hk ▸ hprev, hnew⟩
  | cleanup =>
      simp only [setRow_table] at hrow
      split at hrow
      · cases hrow
      · exact Or.inl (hkept hrow)
  | _ => exact Or.inl (hkept hrow)

/-- A step of a configuration, as `Moves`. -/
theorem moves_of_next {c c' : Conf (State H R) (Event H R)} {a : Act H R}
    (h : protocol.next c a = some c') :
    ∃ s out, Moves c.st a s out ∧ c' = ⟨s, out ++ c.log⟩ := by
  obtain ⟨s, out, hstep, rfl⟩ := Machine.next_eq_some.mp h
  exact ⟨s, out, moves_of_step hstep, rfl⟩

end Shozee.Idempotency
