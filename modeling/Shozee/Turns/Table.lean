import Mathlib

/-!
# The table of turns

A turn row is the conversation's lease and the command's receipt at once. This
file has the row, the decisions that `turns.ts` takes about rows it has read,
and the rows it writes. Who reads and writes when is the next file's business.

Ids are texts and are lowercased before they are written or compared. Times
are milliseconds; `now` is what `now()` returned in the transaction at hand.
The columns that nothing here reads (`request_id`, the payloads and the binds
of the messages, the provider history) are left out.
-/

namespace Shozee.Turns

/-- Texts by their characters. -/
abbrev Text := List Char

/-- `toLowerCase` of an id, whose letters are those of ASCII. -/
def toLowerCase (s : Text) : Text := s.map Char.toLower

/-- A turn is a message of the chat or an answer to a question. -/
inductive TurnKind
  | chat
  | answer
deriving DecidableEq, Repr

/-- The life of a turn. -/
inductive TurnStatus
  | queued
  | running
  | done
  | failed
  | interrupted
deriving DecidableEq, Repr

/-- How a turn ends. -/
inductive FinalStatus
  | done
  | failed
  | interrupted
deriving DecidableEq, Repr

/-- A way to end as a status. -/
def FinalStatus.toStatus : FinalStatus → TurnStatus
  | .done => .done
  | .failed => .failed
  | .interrupted => .interrupted

/-- Why a turn ended without its runner. -/
inductive EndReason
  | notStarted
  | jobExhausted
  | timeout
deriving DecidableEq, Repr

/-- The end reasons a finaliser may give for a turn it found running. -/
inductive RunningEndReason
  | jobExhausted
  | timeout
deriving DecidableEq, Repr

/-- A reason of a running turn as a reason. -/
def RunningEndReason.toEndReason : RunningEndReason → EndReason
  | .jobExhausted => .jobExhausted
  | .timeout => .timeout

/-- A queued turn has to start within this time. -/
def ASSISTANT_TURN_START_DEADLINE_MS : Int := 15 * 60 * 1000

/-- What a job or a request names a turn by, in any casing. -/
structure TurnRef where
  conversationId : Text
  kind : TurnKind
  commandId : Text
deriving DecidableEq, Repr

/-- What makes a turn the same one: a command is one turn of its conversation
and kind. -/
structure TurnIdentity where
  companyId : Text
  conversationId : Text
  kind : TurnKind
  commandId : Text
deriving DecidableEq, Repr

/-- The identity in the one casing the module stores. -/
def TurnRef.identity (ref : TurnRef) (companyId : Text) : TurnIdentity where
  companyId := companyId
  conversationId := toLowerCase ref.conversationId
  kind := ref.kind
  commandId := toLowerCase ref.commandId

/-- The conversation of a turn. Ids of conversations are only unique in a
company. -/
def TurnIdentity.conversation (identity : TurnIdentity) : Text × Text :=
  (identity.companyId, identity.conversationId)

/-- What accepting a turn has set aside, and on which day. -/
structure BudgetHold where
  companyReservedMicroUsd : Nat
  globalReservedMicroUsd : Nat
  kyivDate : Text
deriving DecidableEq, Repr

/-- The hold that is left when a finaliser has taken it off the row. -/
def BudgetHold.taken (hold : BudgetHold) : BudgetHold :=
  { hold with companyReservedMicroUsd := 0, globalReservedMicroUsd := 0 }

/-- A row of the table. -/
structure TurnRow where
  identity : TurnIdentity
  status : TurnStatus
  userId : Text
  sessionId : Option Text
  userMessageId : Option Text
  placeholderMessageId : Text
  continuesCommandId : Option Text
  hold : BudgetHold
  createdAt : Int
  startedAt : Option Int
  deadlineAt : Option Int
  finishedAt : Option Int
  endReason : Option EndReason
deriving DecidableEq, Repr

/-- `turnViewColumns`: what an accept answers about a turn. -/
structure TurnView where
  conversationId : Text
  kind : TurnKind
  commandId : Text
  status : TurnStatus
  placeholderMessageId : Text
  userMessageId : Option Text
  continuesCommandId : Option Text
deriving DecidableEq, Repr

/-- A row as the client sees it. -/
def TurnRow.view (row : TurnRow) : TurnView where
  conversationId := row.identity.conversationId
  kind := row.identity.kind
  commandId := row.identity.commandId
  status := row.status
  placeholderMessageId := row.placeholderMessageId
  userMessageId := row.userMessageId
  continuesCommandId := row.continuesCommandId

/-! ## The predicates of the queries

The conditions that stand in the `WHERE` clauses and in the partial index.
Overdue rows are active ones. -/

/-- A conversation has one turn of these statuses at most. -/
def isActiveStatus : TurnStatus → Bool
  | .queued | .running => true
  | .done | .failed | .interrupted => false

/-- The partial unique index and every query of the active turn read this. -/
def TurnRow.isActive (row : TurnRow) : Bool := isActiveStatus row.status

/-- A turn that runs longer than it was given. -/
def runningPastDeadline (now : Int) (row : TurnRow) : Bool :=
  row.status = .running ∧ ∃ deadline ∈ row.deadlineAt, deadline < now

/-- A turn that has waited too long. -/
def queuedPastStartDeadline (now : Int) (row : TurnRow) : Bool :=
  row.status = .queued ∧
    row.createdAt < now - ASSISTANT_TURN_START_DEADLINE_MS

/-- The turns that a sweep takes. -/
def overdue (now : Int) (row : TurnRow) : Bool :=
  runningPastDeadline now row || queuedPastStartDeadline now row

theorem FinalStatus.not_active (status : FinalStatus) :
    isActiveStatus status.toStatus = false := by
  cases status <;> rfl

theorem isActive_of_queued {row : TurnRow} (h : row.status = .queued) :
    row.isActive = true := by
  unfold TurnRow.isActive
  rw [h]
  rfl

theorem isActive_of_overdue {now : Int} {row : TurnRow}
    (h : overdue now row = true) : row.isActive = true := by
  unfold TurnRow.isActive
  simp only [overdue, runningPastDeadline, queuedPastStartDeadline,
    Bool.or_eq_true, decide_eq_true_eq] at h
  rcases h with ⟨hstatus, -⟩ | ⟨hstatus, -⟩ <;> rw [hstatus] <;> rfl

/-! ## Accept

What an accept answers without writing, in the order in which `acceptStaffTurn`
asks, and the row that it inserts otherwise. The constraints of the table are
here too, as they can refuse the insert. -/

/-- Who calls a staff action. -/
structure StaffCtx where
  companyId : Text
  userId : Text
deriving DecidableEq, Repr

/-- The input of `assistant.acceptTurn`, as its schema lets it through. -/
structure AcceptTurnInput where
  ref : TurnRef
  sessionId : Text
  userMessageId : Option Text
  placeholderMessageId : Text
  budgetHold : BudgetHold
  continuesCommandId : Option Text
  settled : Bool
  userMessage_iff : ref.kind = .chat ↔ userMessageId.isSome = true
  placeholder_own : ∀ m ∈ userMessageId,
    toLowerCase m ≠ toLowerCase placeholderMessageId
  continues_other : ∀ command ∈ continuesCommandId,
    toLowerCase command ≠ toLowerCase ref.commandId
  settled_chat : settled = true →
    ref.kind = .chat ∧ continuesCommandId = none
deriving DecidableEq

/-- What an accept may answer about what was there before it. -/
inductive AcceptOutcome
  | replayed (turn : TurnView)
  | busy
deriving DecidableEq, Repr

/-- What an accept answers without writing. The receipt and the lease are read
in one statement. -/
def settledAccept (rows : List TurnRow) (identity : TurnIdentity) :
    Option AcceptOutcome :=
  let found := rows.filter fun row =>
    row.identity.conversation = identity.conversation ∧
      (row.identity = identity ∨ row.isActive)
  match found.find? fun row => row.identity = identity with
  | some receipt => some (.replayed receipt.view)
  | none => if found.isEmpty then none else some .busy

/-- An accept that nothing settles finds neither its receipt nor the lease. -/
theorem settledAccept_eq_none {rows : List TurnRow} {identity : TurnIdentity}
    (h : settledAccept rows identity = none) :
    ∀ row ∈ rows, row.identity ≠ identity ∧ (row.isActive = true →
      row.identity.conversation ≠ identity.conversation) := by
  intro row hrow
  unfold settledAccept at h
  dsimp only at h
  split at h
  · cases h
  · split at h
    · rename_i hempty
      rw [List.isEmpty_iff, List.filter_eq_nil_iff] at hempty
      have hrow := hempty row hrow
      simp only [decide_eq_true_eq, not_and, not_or] at hrow
      refine ⟨fun heq => ?_, fun hactive hconv => ?_⟩
      · exact (hrow (congrArg TurnIdentity.conversation heq)).1 heq
      · exact (hrow hconv).2 hactive
    · cases h

/-- The newest of the rows, the first of them on a tie. -/
def latest : List TurnRow → Option TurnRow
  | [] => none
  | row :: rows =>
      match latest rows with
      | none => some row
      | some other =>
          if row.createdAt < other.createdAt then some other else some row

/-- The command a continuation's tools derive their keys from: the first turn
of the chain. -/
def continuationRoot (rows : List TurnRow) (identity : TurnIdentity)
    (interruptedCommandId : Text) : Option Text :=
  (latest (rows.filter fun row =>
      row.identity.conversation = identity.conversation ∧
        row.identity.commandId = interruptedCommandId ∧
        row.status = .interrupted)).map fun interrupted =>
    interrupted.continuesCommandId.getD interrupted.identity.commandId

/-- The row that an accept inserts. -/
def acceptedRow (ctx : StaffCtx) (input : AcceptTurnInput) (now : Int)
    (continuesCommandId : Option Text) : TurnRow where
  identity := input.ref.identity ctx.companyId
  status := if input.settled then .done else .queued
  userId := ctx.userId
  sessionId := if input.settled then none else some input.sessionId
  userMessageId := input.userMessageId.map toLowerCase
  placeholderMessageId := toLowerCase input.placeholderMessageId
  continuesCommandId := continuesCommandId
  hold := input.budgetHold
  createdAt := now
  startedAt := none
  deadlineAt := none
  finishedAt := if input.settled then some now else none
  endReason := none

/-- `assistant_turns_continues_check` -/
def continuesCheck (row : TurnRow) : Bool :=
  row.continuesCommandId ≠ some row.identity.commandId

/-- `assistant_turns_command_uq` or `assistant_turns_active_uq` refuses the
row. -/
def uniqueViolation (rows : List TurnRow) (row : TurnRow) : Bool :=
  rows.any fun other =>
    other.identity = row.identity ∨
      (row.isActive ∧ other.isActive ∧
        other.identity.conversation = row.identity.conversation)

/-! ## Start and finish

Finish, interrupt and sweep end a turn by one function, with arguments of their
own. What it leaves keeps no hold and no pointer to a pause. -/

/-- The turns that a runner may start. An overdue one is left to the sweep. -/
def startable (now : Int) (row : TurnRow) : Bool :=
  row.status = .queued && !overdue now row

/-- The row of a turn that starts. -/
def startedRow (now timeoutMs : Int) (row : TurnRow) : TurnRow :=
  { row with
    status := .running
    startedAt := some now
    deadlineAt := some (now + timeoutMs) }

/-- The arguments one of the three actions ends a turn with: the status it
stores, the rows it may end, and the reason it gives where it gives one. -/
structure Finaliser where
  status : FinalStatus
  eligible : Int → TurnRow → Bool
  runningEndReason : Option RunningEndReason

/-- `finishStaffTurn` -/
def finishFinaliser (status : FinalStatus) : Finaliser where
  status := status
  eligible := fun _ row => row.isActive
  runningEndReason := none

/-- `interruptSystemTurn` -/
def interruptFinaliser : Finaliser where
  status := .interrupted
  eligible := fun _ row => row.isActive
  runningEndReason := some .jobExhausted

/-- `sweepSystemOverdueTurns` -/
def sweepFinaliser : Finaliser where
  status := .interrupted
  eligible := overdue
  runningEndReason := some .timeout

/-- The row that `finaliseTurn` leaves: it keeps no pointer to a person's
session, and its hold has been taken. -/
def Finaliser.ended (f : Finaliser) (now : Int) (row : TurnRow) : TurnRow :=
  { row with
    status := f.status.toStatus
    finishedAt := some now
    sessionId := none
    hold := row.hold.taken
    endReason := f.runningEndReason.map fun reason =>
      if row.status = .queued then .notStarted else reason.toEndReason }

/-- What `finaliseTurn` returns: the hold it took, and the status it ended the
turn from. -/
structure Finalised where
  hold : BudgetHold
  fromStatus : TurnStatus
  endReason : Option EndReason
  placeholderMessageId : Text
deriving DecidableEq, Repr

/-- What ending a turn returns, read before and after the write. -/
def finalised (row after : TurnRow) : Finalised where
  hold := row.hold
  fromStatus := row.status
  endReason := after.endReason
  placeholderMessageId := after.placeholderMessageId

/-- The status and the reason that a recovery reports, or the invariant it
found broken. -/
def recoveredTurn (ended : Finalised) : Option (TurnStatus × EndReason) :=
  if isActiveStatus ended.fromStatus then
    ended.endReason.map fun reason => (ended.fromStatus, reason)
  else none

/-- A turn that the sweep has ended. -/
structure EndedTurn where
  identity : TurnIdentity
  placeholderMessageId : Text
  fromStatus : TurnStatus
  endReason : EndReason
  releasedHold : BudgetHold
deriving DecidableEq, Repr

/-- The kind as the table has it. -/
def TurnKind.text : TurnKind → Text
  | .chat => ['c', 'h', 'a', 't']
  | .answer => ['a', 'n', 's', 'w', 'e', 'r']

/-- The key by which the sweep sorts the turns it is given. -/
def TurnIdentity.sweepKey (identity : TurnIdentity) : Text :=
  identity.conversationId ++ ':' :: (identity.kind.text ++
    ':' :: identity.commandId)

/-- Each turn of the list once, in the order that every sweep locks them. Two
turns have one key only if they have one identity, since an id has no colon. -/
def sweepIdentities (companyId : Text) (turns : List TurnRef) :
    List TurnIdentity :=
  ((turns.map fun turn => turn.identity companyId).dedup).insertionSort
    fun left right => left.sweepKey ≤ right.sweepKey

theorem sweepIdentities_nodup (companyId : Text) (turns : List TurnRef) :
    (sweepIdentities companyId turns).Nodup :=
  (List.perm_insertionSort _ _).nodup_iff.mpr (List.nodup_dedup _)

end Shozee.Turns
