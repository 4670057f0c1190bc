import Mathlib.Data.Option.Basic

/-!
# The idempotency hook, statement by statement

`packages/core/src/runtime/idempotency/create-idempotency-hook.ts` reserves a
row of `idempotency_keys` before a mutation runs, flips it to `completed`
inside the handler's transaction and to `failed` after a rollback. This file
is that code without its interleaving: the row, the values each statement
writes, the condition each `WHERE` tests, and the decisions `reserve` and
`resolveLostTakeover` take on a row they have read.

Times are epoch milliseconds. The request hash and the stored response are
parameters: the protocol compares the one and copies the other.
-/

namespace Shozee.Idempotency

/-- Keys expire 48 h after creation; replay beyond re-executes. -/
def idempotencyRetentionMs : Nat := 48 * 60 * 60 * 1000

/-- Added to the action timeout to form the lease. -/
def idempotencyLeaseMarginMs : Nat := 15000

/-- A `randomUUID()` that names one attempt. -/
abbrev AttemptId := Nat

/-- A `randomUUID()` that names one confirmation challenge. -/
abbrev ChallengeId := Nat

/-- The primary key of `idempotency_keys`. -/
structure RowIdentity where
  principalKey : String
  scopeKey : String
  action : String
  key : String
deriving DecidableEq, Repr

/-- The life of a reservation. -/
inductive Status
  | inProgress
  | completed
  | failed
deriving DecidableEq, Repr

/-- A consumed confirmation challenge, as the reservation persists it. -/
structure ConfirmationGrant where
  challengeId : ChallengeId
  confirmedAt : Nat
  expiresAt : Nat
deriving DecidableEq, Repr

/-- A row of `idempotency_keys`, less its key. -/
structure Row (H R : Type) where
  requestHash : H
  status : Status
  attemptId : AttemptId
  leaseExpiresAt : Nat
  confirmationChallengeId : Option ChallengeId
  confirmedAt : Option Nat
  confirmationExpiresAt : Option Nat
  response : Option R
  expiresAt : Nat
deriving DecidableEq, Repr

/-- What `reserve` reads off its environment. -/
structure ReserveEnv (H : Type) where
  identity : RowIdentity
  requestHash : H
  timeout : Nat
  confirmationGrant : Option ConfirmationGrant
deriving DecidableEq, Repr

/-- The opaque reservation handed back to `finalize` and `markFailed`. -/
structure IdempotencyReservation where
  identity : RowIdentity
  attemptId : AttemptId
  leaseMs : Nat
deriving DecidableEq, Repr

/-- Which of its internal messages a `ConcurrentRetryError` carries. -/
inductive RetryReason
  | liveAttempt (attemptId : AttemptId)
  | keptVanishing
  | vanishedDuringTakeover
  | lostTakeoverRace
  | lostLease (attemptId : AttemptId)
deriving DecidableEq, Repr

/-- What `reserve` answers or throws. -/
inductive ReserveOutcome (R : Type)
  | execute (reservation : IdempotencyReservation)
  | replay (response : Option R)
  | idempotencyConflict (status : Status)
  | concurrentRetry (retryAfterSec : Nat) (reason : RetryReason)
deriving DecidableEq, Repr

variable {H R : Type}

/-- Whole seconds, rounded up, never less than one. -/
def retryAfterSec (ms : Nat) : Nat := max 1 ((ms + 999) / 1000)

/-- How long an attempt may run before another may take its row. -/
def ReserveEnv.leaseMs (env : ReserveEnv H) : Nat :=
  env.timeout + idempotencyLeaseMarginMs

/-- The three confirmation columns, written only when there is a grant. -/
def Row.withGrant (row : Row H R) : Option ConfirmationGrant → Row H R
  | none => row
  | some grant =>
      { row with
        confirmationChallengeId := some grant.challengeId
        confirmedAt := some grant.confirmedAt
        confirmationExpiresAt := some grant.expiresAt }

/-- The row the first `INSERT` writes. -/
def insertValues (env : ReserveEnv H) (attemptId : AttemptId) (nowMs : Nat) :
    Row H R :=
  Row.withGrant
    { requestHash := env.requestHash
      status := .inProgress
      attemptId := attemptId
      leaseExpiresAt := nowMs + env.leaseMs
      confirmationChallengeId := none
      confirmedAt := none
      confirmationExpiresAt := none
      response := none
      expiresAt := nowMs + idempotencyRetentionMs }
    env.confirmationGrant

/-- What a takeover of a row past its retention also overwrites. The three
confirmation columns are nulled beside it. -/
structure TakeoverReset (H : Type) where
  requestHash : H
  expiresAt : Nat
deriving DecidableEq, Repr

/-- The options of `takeover`, fixed when the row was read. -/
structure TakeoverOptions (H : Type) where
  identity : RowIdentity
  observedAttemptId : AttemptId
  requestHash : H
  leaseMs : Nat
  nowMs : Nat
  grant : Option ConfirmationGrant
  reset : Option (TakeoverReset H)
deriving DecidableEq, Repr

/-- The `SET` of the takeover statement. The grant is applied after the
reset, so a fresh confirmation survives it. -/
def takeoverSet (options : TakeoverOptions H) (attemptId : AttemptId)
    (row : Row H R) : Row H R :=
  let taken : Row H R :=
    { row with
      status := .inProgress
      attemptId := attemptId
      leaseExpiresAt := options.nowMs + options.leaseMs
      response := none }
  let reset : Row H R :=
    match options.reset with
    | none => taken
    | some reset =>
        { taken with
          requestHash := reset.requestHash
          expiresAt := reset.expiresAt
          confirmationChallengeId := none
          confirmedAt := none
          confirmationExpiresAt := none }
  reset.withGrant options.grant

/-- `reclaimableWhere`: retention has passed, the attempt failed, or an
`in_progress` lease is over. -/
def Reclaimable (row : Row H R) (nowMs : Nat) : Prop :=
  row.expiresAt ≤ nowMs ∨ row.status = .failed ∨
    (row.status = .inProgress ∧ row.leaseExpiresAt ≤ nowMs)

instance (row : Row H R) (nowMs : Nat) : Decidable (Reclaimable row nowMs) :=
  inferInstanceAs (Decidable (_ ∨ _ ∨ (_ ∧ _)))

/-- The `WHERE` of the takeover statement, on the row the key names. -/
def TakeoverWins (options : TakeoverOptions H) (row : Row H R) : Prop :=
  row.attemptId = options.observedAttemptId ∧ Reclaimable row options.nowMs

instance (options : TakeoverOptions H) (row : Row H R) :
    Decidable (TakeoverWins options row) :=
  inferInstanceAs (Decidable (_ ∧ _))

/-- The `WHERE` that `finalize` and `markFailed` share: the row is still this
attempt's, and still in progress. -/
def OwnedInProgress (r : IdempotencyReservation) (row : Row H R) : Prop :=
  row.attemptId = r.attemptId ∧ row.status = .inProgress

instance (r : IdempotencyReservation) (row : Row H R) :
    Decidable (OwnedInProgress r row) :=
  inferInstanceAs (Decidable (_ ∧ _))

/-- What `reserve` does about a row it has read. -/
inductive ReserveDecision (H R : Type)
  | takeOver (options : TakeoverOptions H)
  | answer (outcome : ReserveOutcome R)

/-- The options every takeover of `existing` shares. -/
def takeoverOf (env : ReserveEnv H) (existing : Row H R) (nowMs : Nat)
    (reset : Option (TakeoverReset H)) : TakeoverOptions H :=
  { identity := env.identity
    observedAttemptId := existing.attemptId
    requestHash := env.requestHash
    leaseMs := env.leaseMs
    nowMs := nowMs
    grant := env.confirmationGrant
    reset := reset }

/-- The body of `reserve` after its `SELECT` found a row. -/
def decideExisting [DecidableEq H] (env : ReserveEnv H) (existing : Row H R)
    (nowAfterRead : Nat) : ReserveDecision H R :=
  -- Retention passed but cleanup has not collected the row: reuse the slot
  -- as if it were fresh.
  if existing.expiresAt ≤ nowAfterRead then
    .takeOver (takeoverOf env existing nowAfterRead
      (some ⟨env.requestHash, nowAfterRead + idempotencyRetentionMs⟩))
  else if existing.requestHash ≠ env.requestHash then
    .answer (.idempotencyConflict existing.status)
  else
    match existing.status with
    | .completed => .answer (.replay existing.response)
    | .failed => .takeOver (takeoverOf env existing nowAfterRead none)
    | .inProgress =>
        if nowAfterRead < existing.leaseExpiresAt then
          .answer (.concurrentRetry
            (retryAfterSec (existing.leaseExpiresAt - nowAfterRead))
            (.liveAttempt existing.attemptId))
        else .takeOver (takeoverOf env existing nowAfterRead none)

/-- `resolveLostTakeover` on the row it reloads. -/
def resolveLostTakeover [DecidableEq H] (env : ReserveEnv H)
    (existing : Row H R) (nowMs : Nat) : ReserveOutcome R :=
  if existing.requestHash ≠ env.requestHash then
    .idempotencyConflict existing.status
  else if existing.status = .completed then
    .replay existing.response
  else if existing.status = .inProgress ∧ nowMs < existing.leaseExpiresAt then
    .concurrentRetry (retryAfterSec (existing.leaseExpiresAt - nowMs))
      (.liveAttempt existing.attemptId)
  else
    .concurrentRetry (retryAfterSec env.leaseMs) .lostTakeoverRace

/-- A persisted grant that has not expired. -/
def unexpiredGrant (row : Row H R) (nowMs : Nat) : Option ConfirmationGrant :=
  match row.confirmationChallengeId, row.confirmedAt,
      row.confirmationExpiresAt with
  | some challengeId, some confirmedAt, some expiresAt =>
      if expiresAt ≤ nowMs then none
      else some ⟨challengeId, confirmedAt, expiresAt⟩
  | _, _, _ => none

/-- What the confirmation gate's read-only lookup finds. -/
inductive ProbeResult (R : Type)
  | fresh
  | replay (response : Option R)
  | resume (grant : ConfirmationGrant)
  | idempotencyConflict (status : Status)
  | concurrentRetry (retryAfterSec : Nat) (reason : RetryReason)
deriving DecidableEq, Repr

/-- What a probe makes of the row that it has read. An expired row is as good
as none. -/
def interpretProbeRow [DecidableEq H] (existing : Row H R) (requestHash : H)
    (nowMs : Nat) : ProbeResult R :=
  if existing.expiresAt ≤ nowMs then .fresh
  else if existing.requestHash ≠ requestHash then
    .idempotencyConflict existing.status
  else if existing.status = .completed then
    .replay existing.response
  else if existing.status = .inProgress ∧ nowMs < existing.leaseExpiresAt then
    .concurrentRetry (retryAfterSec (existing.leaseExpiresAt - nowMs))
      (.liveAttempt existing.attemptId)
  else
    match unexpiredGrant existing nowMs with
    | none => .fresh
    | some grant => .resume grant

/-! ## What the statements write, column by column

The columns that an insert and a takeover write, read back. All are simp
lemmas, so that a proof about one column does not see the others. -/

section Columns

variable (row : Row H R) (grant : Option ConfirmationGrant)

@[simp] theorem withGrant_requestHash :
    (row.withGrant grant).requestHash = row.requestHash := by
  cases grant <;> rfl

@[simp] theorem withGrant_status :
    (row.withGrant grant).status = row.status := by
  cases grant <;> rfl

@[simp] theorem withGrant_attemptId :
    (row.withGrant grant).attemptId = row.attemptId := by
  cases grant <;> rfl

@[simp] theorem withGrant_leaseExpiresAt :
    (row.withGrant grant).leaseExpiresAt = row.leaseExpiresAt := by
  cases grant <;> rfl

@[simp] theorem withGrant_response :
    (row.withGrant grant).response = row.response := by
  cases grant <;> rfl

@[simp] theorem withGrant_expiresAt :
    (row.withGrant grant).expiresAt = row.expiresAt := by
  cases grant <;> rfl

end Columns

section Inserted

variable (env : ReserveEnv H) (attemptId : AttemptId) (nowMs : Nat)

@[simp] theorem insertValues_requestHash :
    (insertValues env attemptId nowMs : Row H R).requestHash =
      env.requestHash := by
  simp [insertValues]

@[simp] theorem insertValues_status :
    (insertValues env attemptId nowMs : Row H R).status = .inProgress := by
  simp [insertValues]

@[simp] theorem insertValues_attemptId :
    (insertValues env attemptId nowMs : Row H R).attemptId = attemptId := by
  simp [insertValues]

@[simp] theorem insertValues_leaseExpiresAt :
    (insertValues env attemptId nowMs : Row H R).leaseExpiresAt =
      nowMs + env.leaseMs := by
  simp [insertValues]

@[simp] theorem insertValues_expiresAt :
    (insertValues env attemptId nowMs : Row H R).expiresAt =
      nowMs + idempotencyRetentionMs := by
  simp [insertValues]

end Inserted

section Taken

variable (options : TakeoverOptions H) (attemptId : AttemptId) (row : Row H R)

@[simp] theorem takeoverSet_status :
    (takeoverSet options attemptId row).status = .inProgress := by
  cases h : options.reset <;> simp [takeoverSet, h]

@[simp] theorem takeoverSet_attemptId :
    (takeoverSet options attemptId row).attemptId = attemptId := by
  cases h : options.reset <;> simp [takeoverSet, h]

@[simp] theorem takeoverSet_leaseExpiresAt :
    (takeoverSet options attemptId row).leaseExpiresAt =
      options.nowMs + options.leaseMs := by
  cases h : options.reset <;> simp [takeoverSet, h]

theorem takeoverSet_requestHash :
    (takeoverSet options attemptId row).requestHash =
      (options.reset.map TakeoverReset.requestHash).getD row.requestHash := by
  cases h : options.reset <;> simp [takeoverSet, h]

theorem takeoverSet_expiresAt :
    (takeoverSet options attemptId row).expiresAt =
      (options.reset.map TakeoverReset.expiresAt).getD row.expiresAt := by
  cases h : options.reset <;> simp [takeoverSet, h]

end Taken

/-! ## What the decisions mean

`reserve` decides on what it has read: takeover, replay or refusal. Each lemma
reads one answer back to the row and to the reading of the clock behind it. -/

-- The equations of the decisions are made once, for all the lemmas below.
attribute [local simp] decideExisting takeoverOf

/-- `reserve` decides on a takeover in three situations, and in each of them
the row it read was reclaimable at the clock it read after it. -/
theorem decideExisting_takeOver [DecidableEq H] {env : ReserveEnv H}
    {existing : Row H R} {nowMs : Nat} {options : TakeoverOptions H}
    (h : decideExisting env existing nowMs = .takeOver options) :
    Reclaimable existing nowMs ∧
      ((existing.expiresAt ≤ nowMs ∧ options = takeoverOf env existing nowMs
          (some ⟨env.requestHash, nowMs + idempotencyRetentionMs⟩)) ∨
        (nowMs < existing.expiresAt ∧
          existing.requestHash = env.requestHash ∧
          existing.status ≠ .completed ∧
          options = takeoverOf env existing nowMs none)) := by
  simp only [decideExisting] at h
  split at h
  · next hexp =>
      cases h
      exact ⟨Or.inl hexp, Or.inl ⟨hexp, rfl⟩⟩
  · next hexp =>
      split at h
      · cases h
      · next hhash =>
          have hhash : existing.requestHash = env.requestHash :=
            not_not.mp hhash
          have hlive : nowMs < existing.expiresAt := Nat.lt_of_not_le hexp
          split at h
          · cases h
          · next hfailed =>
              cases h
              refine ⟨Or.inr (Or.inl hfailed), Or.inr ⟨hlive, hhash, ?_, rfl⟩⟩
              rw [hfailed]
              exact Status.noConfusion
          · next hrun =>
              split at h
              · cases h
              · next hlease =>
                  cases h
                  refine ⟨Or.inr (Or.inr ⟨hrun, Nat.le_of_not_lt hlease⟩),
                    Or.inr ⟨hlive, hhash, ?_, rfl⟩⟩
                  rw [hrun]
                  exact Status.noConfusion

/-- The options carry the observed id and the reading they were decided on. -/
theorem decideExisting_options [DecidableEq H] {env : ReserveEnv H}
    {existing : Row H R} {nowMs : Nat} {options : TakeoverOptions H}
    (h : decideExisting env existing nowMs = .takeOver options) :
    options.observedAttemptId = existing.attemptId ∧ options.nowMs = nowMs ∧
      options.leaseMs = env.leaseMs ∧
      ∀ reset, options.reset = some reset →
        reset.expiresAt = nowMs + idempotencyRetentionMs := by
  obtain ⟨-, ⟨-, rfl⟩ | ⟨-, -, -, rfl⟩⟩ := decideExisting_takeOver h
  · refine ⟨rfl, rfl, rfl, ?_⟩
    intro reset hreset
    obtain rfl := Option.some.inj hreset
    rfl
  · exact ⟨rfl, rfl, rfl, fun reset hreset => by cases hreset⟩

/-- `reserve` replays only a completed row with the caller's own hash. -/
theorem decideExisting_replay [DecidableEq H] {env : ReserveEnv H}
    {existing : Row H R} {nowMs : Nat} {response : Option R}
    (h : decideExisting env existing nowMs = .answer (.replay response)) :
    existing.status = .completed ∧ existing.requestHash = env.requestHash ∧
      existing.response = response := by
  simp only [decideExisting] at h
  split at h
  · cases h
  · split at h
    · cases h
    · next hhash =>
        split at h
        · next hdone => cases h; exact ⟨hdone, not_not.mp hhash, rfl⟩
        · cases h
        · split at h <;> cases h

theorem resolveLostTakeover_replay [DecidableEq H] {env : ReserveEnv H}
    {existing : Row H R} {nowMs : Nat} {response : Option R}
    (h : resolveLostTakeover env existing nowMs = .replay response) :
    existing.status = .completed ∧ existing.requestHash = env.requestHash ∧
      existing.response = response := by
  simp only [resolveLostTakeover] at h
  split at h
  · cases h
  · next hhash =>
      split at h
      · next hdone => cases h; exact ⟨hdone, not_not.mp hhash, rfl⟩
      · split at h <;> cases h

/-- A completed row inside its retention is out of every taker's reach. -/
theorem not_reclaimable_of_completed {row : Row H R} {nowMs : Nat}
    (hdone : row.status = .completed) (hlive : nowMs < row.expiresAt) :
    ¬ Reclaimable row nowMs := by
  rintro (hexp | hfailed | ⟨hrun, -⟩)
  · omega
  · rw [hdone] at hfailed; exact Status.noConfusion hfailed
  · rw [hdone] at hrun; exact Status.noConfusion hrun

/-- A row whose lease runs is out of reach of a reading that is not ahead of
the clock. -/
theorem not_reclaimable_of_live {r : IdempotencyReservation} {row : Row H R}
    {clock nowMs : Nat} (howned : OwnedInProgress r row)
    (hinside : row.leaseExpiresAt ≤ row.expiresAt)
    (hlive : clock < row.leaseExpiresAt) (hnow : nowMs ≤ clock) :
    ¬ Reclaimable row nowMs := by
  rintro (hexp | hfailed | ⟨-, hlease⟩)
  · omega
  · rw [howned.2] at hfailed
    exact Status.noConfusion hfailed
  · omega

end Shozee.Idempotency
