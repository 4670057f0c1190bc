import Shozee.Run.Machine
import Shozee.Turns.Table
import Mathlib.Logic.Function.Basic

/-!
# Turns, interleaved

Each action on a turn is one transaction under READ COMMITTED, and each of its
statements is one step: a statement sees what is committed when it runs, and
what it writes is kept with its transaction until that commits. Any number of
callers interleave between any two statements.

A conditional update evaluates its predicate on the committed row and then
locks it. While another transaction has the row locked the statement waits,
which here means that the step is not enabled: when the lock is gone it runs
on the row that is committed then. An insert waits in the same way for a
transaction that has a row of the same unique key in hand.

The unique keys of the messages are not modelled. Whether an accept runs into
one of them is the environment's choice, as is every rollback.
-/

namespace Shozee.Turns

open Shozee.Run

/-- One call of an action. `author` in `begin` below has checked that the
conversation of a staff call is the caller's. -/
inductive Call
  | accept (ctx : StaffCtx) (input : AcceptTurnInput)
  | start (ctx : StaffCtx) (ref : TurnRef) (timeoutMs : Int)
  | finish (ctx : StaffCtx) (ref : TurnRef) (status : FinalStatus)
  | interrupt (companyId : Text) (ref : TurnRef)
  | sweep (companyId : Text) (turns : List TurnRef)
deriving DecidableEq

/-- What a call answers with when it commits. -/
inductive Answer
  | accepted (turn : TurnView)
  | settled (outcome : AcceptOutcome)
  | started (deadlineAt : Int)
  | expired
  | notQueued (status : TurnStatus)
  | finished (status : FinalStatus) (releasedHold : BudgetHold)
  | interrupted (fromStatus : TurnStatus) (endReason : EndReason)
      (releasedHold : BudgetHold)
  | alreadyFinished (status : TurnStatus)
  | swept (ended : List EndedTurn)
deriving DecidableEq, Repr

/-- Why a call ends without its effect. -/
inductive TurnError
  | notFound
  | conflict (message : String)
  | coreInvariant (message : String)
  | continuesCheck
deriving DecidableEq, Repr

/-- A row that a transaction has written and not yet committed. -/
inductive Write
  | insert (row : TurnRow)
  | update (before after : TurnRow)
deriving DecidableEq, Repr

/-- The row as the write leaves it. -/
def Write.row : Write → TurnRow
  | .insert row => row
  | .update _ after => after

/-- The turn that a write is of. -/
def Write.identity (w : Write) : TurnIdentity := w.row.identity

/-- The next statement of a transaction, or its answer if it has none left. -/
inductive Stage
  | settling
  | rooting
  | inserting (continuesCommandId : Option Text)
  | clashed (anotherTurnTookTheLog : Bool)
  | updating
  | missed
  | counting
  | sweeping (rest : List TurnIdentity) (ended : List EndedTurn)
  | answering (answer : Answer)
deriving DecidableEq, Repr

/-- An open transaction. `now` is what `now()` returns in it. -/
structure Tx where
  call : Call
  now : Int
  stage : Stage
  writes : List Write
deriving DecidableEq

/-- What a process does: nothing, or a transaction. -/
inductive Phase
  | idle
  | «open» (tx : Tx)
deriving DecidableEq

/-- `rows` is what is committed. `lock` says which caller has a row of this
identity in hand, and `slot` which one has an uncommitted active row for this
conversation. -/
structure State where
  rows : List TurnRow
  phase : Nat → Phase
  lock : TurnIdentity → Option Nat
  slot : Text × Text → Option Nat

/-- No row and no lock. -/
def State.initial : State where
  rows := []
  phase := fun _ => .idle
  lock := fun _ => none
  slot := fun _ => none

/-- `messageClash` is the answer of the messages' unique keys to an accept:
`some true` if another turn has taken the place in the log. -/
inductive Act
  | begin (p : Nat) (call : Call) (now : Int)
  | statement (p : Nat) (messageClash : Option Bool)
  | commit (p : Nat)
  | rollback (p : Nat)
deriving DecidableEq

/-- How a call ends, and what it wrote. -/
inductive Event
  | refused (p : Nat) (call : Call) (e : TurnError)
  | committed (p : Nat) (call : Call) (now : Int) (writes : List Write)
      (answer : Answer)
deriving DecidableEq

/-! ## Statements

The statements of each action, as the functions of `turns.ts` issue them one
after the other. A statement may have to wait; then the step is not there. -/

/-- What a statement does to its transaction. -/
inductive Result
  | next (tx : Tx)
  | throws (e : TurnError)
deriving DecidableEq

/-- A statement that only leads on. -/
def Tx.next (tx : Tx) (stage : Stage) : Result := .next { tx with stage }

/-- A statement that writes a row. -/
def Tx.write (tx : Tx) (w : Write) (stage : Stage) : Result :=
  .next { tx with stage, writes := tx.writes ++ [w] }

/-- The row of this identity that meets the predicate, or none. `none` outside
means that the statement waits for the row. -/
def State.lockEligible (s : State) (identity : TurnIdentity)
    (eligible : TurnRow → Bool) : Option (Option TurnRow) :=
  match s.rows.find? fun row => row.identity = identity ∧ eligible row with
  | none => some none
  | some row =>
      match s.lock identity with
      | none => some (some row)
      | some _ => none

/-- The insert of this row waits for another transaction. -/
def State.insertWaits (s : State) (row : TurnRow) : Bool :=
  (s.lock row.identity).isSome ||
    (row.isActive && ((s.slot row.identity.conversation).isSome ||
      s.rows.any fun other =>
        other.isActive ∧
          other.identity.conversation = row.identity.conversation ∧
          (s.lock other.identity).isSome))

/-- `currentStatus` -/
def currentStatus (rows : List TurnRow) (identity : TurnIdentity) :
    Option TurnStatus :=
  (rows.find? fun row => row.identity = identity).map (·.status)

/-- `acceptStaffTurn` -/
def acceptStatement (s : State) (tx : Tx) (ctx : StaffCtx)
    (input : AcceptTurnInput) (messageClash : Option Bool) : Option Result :=
  let identity := input.ref.identity ctx.companyId
  match tx.stage with
  | .settling =>
      match settledAccept s.rows identity, input.continuesCommandId with
      | some outcome, _ => some (tx.next (.answering (.settled outcome)))
      | none, none => some (tx.next (.inserting none))
      | none, some _ => some (tx.next .rooting)
  | .rooting =>
      match continuationRoot s.rows identity
          (toLowerCase (input.continuesCommandId.getD [])) with
      | some root => some (tx.next (.inserting (some root)))
      | none => some (.throws (.conflict
          "There is no interrupted turn with this command to continue."))
  | .inserting continuesCommandId =>
      let row := acceptedRow ctx input tx.now continuesCommandId
      match messageClash with
      | some anotherTurnTookTheLog =>
          some (tx.next (.clashed anotherTurnTookTheLog))
      | none =>
          if !continuesCheck row then some (.throws .continuesCheck)
          else if s.insertWaits row then none
          else if uniqueViolation s.rows row then
            some (tx.next (.clashed false))
          else some (tx.write (.insert row) (.answering (.accepted row.view)))
  | .clashed anotherTurnTookTheLog =>
      match settledAccept s.rows identity with
      | some raced => some (tx.next (.answering (.settled raced)))
      | none =>
          if anotherTurnTookTheLog then
            some (tx.next (.answering (.settled .busy)))
          else some (.throws (.conflict ("This message is already stored, " ++
            "or another write took its place.")))
  | _ => none

/-- `startStaffTurn` -/
def startStatement (s : State) (tx : Tx) (ctx : StaffCtx) (ref : TurnRef)
    (timeoutMs : Int) : Option Result :=
  let identity := ref.identity ctx.companyId
  match tx.stage with
  | .updating =>
      (s.lockEligible identity (startable tx.now)).map fun
        | none => tx.next .missed
        | some row =>
            let started := startedRow tx.now timeoutMs row
            match started.deadlineAt with
            | none => .throws
                (.coreInvariant "assistant.startTurn set no deadline")
            | some deadlineAt => tx.write (.update row started)
                (.answering (.started deadlineAt))
  | .missed =>
      match currentStatus s.rows identity with
      | none => some (.throws .notFound)
      | some .queued => some (tx.next (.answering .expired))
      | some status => some (tx.next (.answering (.notQueued status)))
  | _ => none

/-- The statement of `finaliseTurn`: it waits, finds nothing to end, or ends a
turn. -/
def finaliseStatement (s : State) (tx : Tx) (f : Finaliser)
    (identity : TurnIdentity) : Option (Option (TurnRow × TurnRow)) :=
  (s.lockEligible identity (f.eligible tx.now)).map fun found =>
    found.map fun row => (row, f.ended tx.now row)

/-- What `finishStaffTurn` and `interruptSystemTurn` answer when there was
nothing to end. -/
def missedStatement (s : State) (tx : Tx) (identity : TurnIdentity) :
    Result :=
  match currentStatus s.rows identity with
  | none => .throws .notFound
  | some status => tx.next (.answering (.alreadyFinished status))

/-- `finishStaffTurn` -/
def finishStatement (s : State) (tx : Tx) (ctx : StaffCtx) (ref : TurnRef)
    (status : FinalStatus) : Option Result :=
  let identity := ref.identity ctx.companyId
  match tx.stage with
  | .updating =>
      (finaliseStatement s tx (finishFinaliser status) identity).map fun
        | none => tx.next .missed
        | some (row, after) => tx.write (.update row after)
            (.answering (.finished status (finalised row after).hold))
  | .missed => some (missedStatement s tx identity)
  | _ => none

/-- `interruptSystemTurn` -/
def interruptStatement (s : State) (tx : Tx) (companyId : Text)
    (ref : TurnRef) : Option Result :=
  let identity := ref.identity companyId
  match tx.stage with
  | .updating =>
      (finaliseStatement s tx interruptFinaliser identity).map fun
        | none => tx.next .missed
        | some (row, after) =>
            match recoveredTurn (finalised row after) with
            | none => .throws (.coreInvariant ("assistant.interruptTurn " ++
                "ended a turn that was not active, or stored no end reason"))
            | some (fromStatus, endReason) => tx.write (.update row after)
                (.answering (.interrupted fromStatus endReason
                  (finalised row after).hold))
  | .missed => some (missedStatement s tx identity)
  | _ => none

/-- `sweepSystemOverdueTurns` -/
def sweepStatement (s : State) (tx : Tx) (companyId : Text)
    (turns : List TurnRef) : Option Result :=
  let identities := sweepIdentities companyId turns
  match tx.stage with
  | .counting =>
      if identities.isEmpty then some (tx.next (.answering (.swept [])))
      else if (s.rows.filter fun row => row.identity ∈ identities).length ≠
          identities.length then some (.throws .notFound)
      else some (tx.next (.sweeping identities []))
  | .sweeping [] ended => some (tx.next (.answering (.swept ended)))
  | .sweeping (identity :: rest) ended =>
      (finaliseStatement s tx sweepFinaliser identity).map fun
        | none => tx.next (.sweeping rest ended)
        | some (row, after) =>
            match recoveredTurn (finalised row after) with
            | none => .throws (.coreInvariant ("assistant.sweepOverdueTurns " ++
                "ended a turn that was not active, or stored no end reason"))
            | some (fromStatus, endReason) =>
                tx.write (.update row after) (.sweeping rest (ended ++ [{
                  identity
                  placeholderMessageId :=
                    (finalised row after).placeholderMessageId
                  fromStatus
                  endReason
                  releasedHold := (finalised row after).hold }]))
  | _ => none

/-- The next statement of a transaction. -/
def statement (s : State) (tx : Tx) (messageClash : Option Bool) :
    Option Result :=
  match tx.call with
  | .accept ctx input => acceptStatement s tx ctx input messageClash
  | .start ctx ref timeoutMs => startStatement s tx ctx ref timeoutMs
  | .finish ctx ref status => finishStatement s tx ctx ref status
  | .interrupt companyId ref => interruptStatement s tx companyId ref
  | .sweep companyId turns => sweepStatement s tx companyId turns

/-! ## Transactions

Around the statements: the check of who may call, the locks that a transaction
collects, and the commit that applies its writes. -/

/-- Where a call begins. -/
def Call.firstStage : Call → Stage
  | .accept .. => .settling
  | .start .. | .finish .. | .interrupt .. => .updating
  | .sweep .. => .counting

/-- The conversation and the person that `loadOwnConversation` checks. -/
def Call.own : Call → Option ((Text × Text) × Text)
  | .accept ctx input =>
      some ((input.ref.identity ctx.companyId).conversation, ctx.userId)
  | .start ctx ref _ | .finish ctx ref _ =>
      some ((ref.identity ctx.companyId).conversation, ctx.userId)
  | .interrupt .. | .sweep .. => none

/-- Whether a write puts an active turn into a conversation. Updates leave the
index to what they keep. -/
def Write.holdsSlot (w : Write) (conversation : Text × Text) : Bool :=
  match w with
  | .insert row => row.isActive && row.identity.conversation = conversation
  | .update .. => false

/-- The transaction of `p` has run a statement, and has in hand what it has
written. -/
def State.keep (s : State) (p : Nat) (tx : Tx) : State where
  rows := s.rows
  phase := Function.update s.phase p (.«open» tx)
  lock := fun identity =>
    if tx.writes.any fun w => w.identity = identity then some p
    else s.lock identity
  slot := fun conversation =>
    if tx.writes.any fun w => w.holdsSlot conversation then some p
    else s.slot conversation

/-- The transaction of `p` is over, and these are the rows. -/
def State.close (s : State) (p : Nat) (rows : List TurnRow) : State where
  rows := rows
  phase := Function.update s.phase p .idle
  lock := fun identity =>
    if s.lock identity = some p then none else s.lock identity
  slot := fun conversation =>
    if s.slot conversation = some p then none else s.slot conversation

/-- The rows after one write. -/
def applyWrite (rows : List TurnRow) : Write → List TurnRow
  | .insert row => row :: rows
  | .update before after =>
      rows.map fun row => if row.identity = before.identity then after else row

/-- The rows after a transaction's writes. -/
def applyWrites : List TurnRow → List Write → List TurnRow
  | rows, [] => rows
  | rows, w :: writes => applyWrites (applyWrite rows w) writes

/-- Who is the author of a conversation, if there is one of this id. -/
abbrev Authors := Text × Text → Option Text

variable (author : Authors)

/-- Whether the caller owns the conversation, which the calls of users are
asked. -/
def owns (call : Call) : Bool :=
  match call.own with
  | none => true
  | some (conversation, userId) => author conversation = some userId

/-- One step of the system: a transaction begins, runs a statement, or ends. -/
def step (s : State) : Act → Option (State × List Event)
  | .begin p call now =>
      match s.phase p with
      | .idle =>
          if owns author call then
            some (s.keep p ⟨call, now, call.firstStage, []⟩, [])
          else some (s, [.refused p call .notFound])
      | .«open» _ => none
  | .statement p messageClash =>
      match s.phase p with
      | .idle => none
      | .«open» tx =>
          match statement s tx messageClash with
          | none => none
          | some (.next tx') => some (s.keep p tx', [])
          | some (.throws e) =>
              some (s.close p s.rows, [.refused p tx.call e])
  | .commit p =>
      match s.phase p with
      | .«open» ⟨call, now, .answering answer, writes⟩ =>
          some (s.close p (applyWrites s.rows writes),
            [.committed p call now writes answer])
      | _ => none
  | .rollback p =>
      match s.phase p with
      | .idle => none
      | .«open» _ => some (s.close p s.rows, [])

/-- The system. -/
def machine : Machine State Act Event := ⟨.initial, step author⟩

end Shozee.Turns
