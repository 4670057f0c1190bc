import Mathlib.Logic.Function.Basic
import Shozee.Run.Machine
import Shozee.Events.Delivery

/-!
# Dispatchers, executors and replays, interleaved

`dispatchOutboxBatch` is one transaction that locks a batch of events,
inserts their delivery rows and marks them. `executeDelivery` is three: a
claim, the delivery transaction around the handler, and the bookkeeping of a
failure. Every statement that can wait, and every one whose result depends on
what others have committed, is an action of its own, so any number of calls
interleave between them. What a transaction writes to a row it has locked
shows when it commits, and is written down there.

A row lock is held from the statement that takes it to the end of the
transaction, and so is the advisory lock of a consumer and an aggregate. A
call that fails inside its delivery transaction goes on to record the
failure; a call that crashes goes nowhere, and the database undoes its
transaction (`State.unlock`).

`ctx.emit` holds the row of the aggregate's counter until its transaction
commits, so events of one aggregate appear in the order of their sequences:
an emission is one action, at its commit. The advisory lock's key is a hash
of the two names, `hashtext`, of which nothing is assumed.
-/

namespace Shozee.Events

open Shozee.Run

/-- Where one `executeDelivery` call is. `event` is the outbox row read with
the lock; `output` stands for everything the handler wrote. -/
inductive Phase (O : Type)
  | idle
  | starting (o : ExecuteOptions)
  | claimLocked (o : ExecuteOptions) (event : OutboxEvent) (nowMs : Nat)
  | claimOrdering (o : ExecuteOptions) (event : OutboxEvent) (nowMs : Nat)
  | claiming (o : ExecuteOptions) (event : OutboxEvent) (nowMs : Nat)
  | claimed (o : ExecuteOptions)
  | execLocked (o : ExecuteOptions) (event : OutboxEvent)
  | execOrdering (o : ExecuteOptions) (event : OutboxEvent)
  | releasing (o : ExecuteOptions) (event : OutboxEvent) (nowMs : Nat)
  | handling (o : ExecuteOptions) (event : OutboxEvent)
  | handled (o : ExecuteOptions) (event : OutboxEvent) (output : O)
  | finalized (o : ExecuteOptions) (event : OutboxEvent) (output : O)
      (nowMs : Nat)
  | failing (o : ExecuteOptions) (error : CoreError)
  | recording (o : ExecuteOptions) (error : CoreError)
  | ended (outcome : Option DeliveryOutcome)

/-- The delivery row a call has locked. -/
def Phase.rowHeld {O : Type} : Phase O → Option DeliveryKey
  | .claimLocked o _ _ | .claimOrdering o _ _ | .claiming o _ _
  | .execLocked o _ | .execOrdering o _ | .releasing o _ _ | .handling o _
  | .handled o _ _ | .finalized o _ _ _ | .recording o _ => some o.key
  | _ => none

/-- The consumer and the aggregate whose advisory lock a call holds. -/
def Phase.aggregateHeld {O : Type} : Phase O → Option (String × Aggregate)
  | .claimOrdering o event _ | .claiming o event _ | .execOrdering o event
  | .releasing o event _ | .handling o event | .handled o event _
  | .finalized o event _ _ =>
      some (o.subscription.consumer, event.aggregate)
  | _ => none

/-- A dispatcher's open transaction: its registry and the batch it locked. -/
structure Batch where
  subscriptions : List EventSubscription
  claimed : List OutboxEvent

/-- The tables, the locks on their rows, and what every process does. -/
structure State (O : Type) where
  outbox : List OutboxEvent
  lastSequence : Aggregate → Nat
  deliveries : DeliveryKey → Option Delivery
  rowLock : DeliveryKey → Option Nat
  advisoryLock : Int × Int → Option Nat
  phase : Nat → Phase O
  eventLock : Nat → Option Nat
  batch : Nat → Option Batch

/-- The steps of the system: rows are emitted, dispatched and delivered, each
by its statements. -/
inductive Act (O : Type)
  | emit (id : Nat) (name : String) (aggregate : Aggregate)
  | dispatchClaim (d : Nat) (subscriptions : List EventSubscription)
      (batchSize : Nat)
  | dispatchCommit (d : Nat) (nowMs : Nat)
  | dispatchAbort (d : Nat)
  | redispatch (id : Nat)
  | start (p : Nat) (o : ExecuteOptions)
  | claimLock (p : Nat) (nowMs : Nat)
  | claimAggregate (p : Nat)
  | claimCheck (p : Nat)
  | claimCommit (p : Nat)
  | execLock (p : Nat)
  | execAggregate (p : Nat)
  | execCheck (p : Nat) (nowMs : Nat)
  | releaseCommit (p : Nat)
  | handle (p : Nat) (output : O)
  | finalize (p : Nat) (nowMs : Nat)
  | commit (p : Nat) (lost : Option CoreError)
  | fail (p : Nat) (error : CoreError)
  | recordLock (p : Nat)
  | recordCommit (p : Nat) (nowMs : Nat)
  | crash (p : Nat)
  | replayDeadDeliveries (consumer : String) (eventId : Option Nat)
      (nowMs : Nat)

/-- What a step commits. `applied` is the handler's effects. -/
inductive Event (O : Type)
  | dispatched (d : Nat) (claimed : List OutboxEvent)
  | claimed (p : Nat) (o : ExecuteOptions)
  | released (p : Nat) (o : ExecuteOptions)
  | applied (p : Nat) (o : ExecuteOptions) (event : OutboxEvent) (output : O)
  | failed (p : Nat) (o : ExecuteOptions)
  | replayed (consumer : String) (eventId : Option Nat)
deriving DecidableEq

variable {O : Type}

/-- No row and no process. -/
def State.initial : State O where
  outbox := []
  lastSequence := fun _ => 0
  deliveries := fun _ => none
  rowLock := fun _ => none
  advisoryLock := fun _ => none
  phase := fun _ => .idle
  eventLock := fun _ => none
  batch := fun _ => none

/-- One process changed. -/
def State.setPhase (s : State O) (p : Nat) (ph : Phase O) : State O :=
  { s with phase := Function.update s.phase p ph }

/-- One delivery changed. -/
def State.setDelivery (s : State O) (key : DeliveryKey) (row : Delivery) :
    State O :=
  { s with deliveries := Function.update s.deliveries key (some row) }

/-- The lock on a delivery's row taken. -/
def State.lockRow (s : State O) (p : Nat) (key : DeliveryKey) : State O :=
  { s with rowLock := Function.update s.rowLock key (some p) }

/-- The row an emission adds, under the next sequence of its aggregate. -/
def State.emitted (s : State O) (id : Nat) (name : String)
    (aggregate : Aggregate) : OutboxEvent where
  id := id
  name := name
  aggregate := aggregate
  aggregateSequence := s.lastSequence aggregate + 1
  dispatchedAt := none

/-- The rows `FOR UPDATE` finds under a delivery key: the delivery and, by the
join, its event. -/
def State.lockedDelivery (s : State O) (key : DeliveryKey) :
    Option (Delivery × OutboxEvent) :=
  match s.deliveries key, s.outbox.find? fun ev => ev.id = key.eventId with
  | some row, some event => some (row, event)
  | _, _ => none

/-- Where a call goes after its delivery transaction has committed: a `COMMIT`
whose answer is lost looks to it like any other failure. -/
def afterCommit (o : ExecuteOptions) : Option CoreError → Phase O
  | none => .ended (some .processed)
  | some error => .failing o error

section Locks

variable (hashtext : String → Int)

/-- `pg_advisory_xact_lock(hashtext(consumer), hashtext(type:id))`. -/
def advisoryKey (consumer : String) (aggregate : Aggregate) : Int × Int :=
  (hashtext consumer, hashtext (aggregate.type ++ ":" ++ aggregate.id))

/-- The lock on a consumer's aggregate taken. -/
def State.lockAggregate (s : State O) (p : Nat) (o : ExecuteOptions)
    (event : OutboxEvent) : State O :=
  { s with
    advisoryLock := Function.update s.advisoryLock
      (advisoryKey hashtext o.subscription.consumer event.aggregate)
      (some p) }

/-- The end of a call's transaction, committed or not: what it had locked is
free. -/
def State.unlock (s : State O) (p : Nat) : State O :=
  { s with
    rowLock :=
      match (s.phase p).rowHeld with
      | some key => Function.update s.rowLock key none
      | none => s.rowLock
    advisoryLock :=
      match (s.phase p).aggregateHeld with
      | some (consumer, aggregate) =>
          Function.update s.advisoryLock
            (advisoryKey hashtext consumer aggregate) none
      | none => s.advisoryLock }

/-- The end of a call's transaction, and where the call goes on. -/
def State.endTx (s : State O) (p : Nat) (ph : Phase O) : State O :=
  (s.unlock hashtext p).setPhase p ph

/-- One action of a dispatcher, an executor or an operator. -/
def step (s : State O) : Act O → Option (State O × List (Event O))
  | .emit id name aggregate =>
      if ∃ ev ∈ s.outbox, ev.id = id then none
      else
        some ({ s with
          outbox := s.outbox ++ [s.emitted id name aggregate]
          lastSequence := Function.update s.lastSequence aggregate
            (s.lastSequence aggregate + 1) }, [])
  | .dispatchClaim d subscriptions batchSize =>
      match s.batch d with
      | some _ => none
      | none =>
          let claimed := claimableEvents s.outbox
            (fun id => (s.eventLock id).isSome) batchSize
          some ({ s with
            batch := Function.update s.batch d (some ⟨subscriptions, claimed⟩)
            eventLock := fun id =>
              if ∃ ev ∈ claimed, ev.id = id then some d
              else s.eventLock id }, [])
  | .dispatchCommit d nowMs =>
      match s.batch d with
      | none => none
      | some b =>
          some ({ s with
            deliveries := fanOut b.subscriptions b.claimed nowMs s.deliveries
            outbox := s.outbox.map (markDispatched b.claimed nowMs)
            batch := Function.update s.batch d none
            eventLock := fun id =>
              if s.eventLock id = some d then none else s.eventLock id },
            [.dispatched d b.claimed])
  | .dispatchAbort d =>
      match s.batch d with
      | none => none
      | some _ =>
          some ({ s with
            batch := Function.update s.batch d none
            eventLock := fun id =>
              if s.eventLock id = some d then none else s.eventLock id }, [])
  | .redispatch id =>
      match s.eventLock id with
      | some _ => none
      | none =>
          some ({ s with
            outbox := s.outbox.map fun ev =>
              if ev.id = id then { ev with dispatchedAt := none } else ev }, [])
  | .start p o =>
      match s.phase p with
      | .idle => some (s.setPhase p (.starting o), [])
      | _ => none
  | .claimLock p nowMs =>
      match s.phase p with
      | .starting o =>
          match s.rowLock o.key with
          | some _ => none
          | none =>
              match s.lockedDelivery o.key with
              | none =>
                  some (s.endTx hashtext p
                    (.ended (some (.failed coreInvariantError none))), [])
              | some (row, event) =>
                  if event.name ≠ o.subscription.eventName then
                    some (s.endTx hashtext p
                      (.ended (some (.failed coreInvariantError none))), [])
                  else
                    match claimDecision o.subscription row nowMs with
                    | .alreadyProcessed =>
                        some (s.endTx hashtext p
                          (.ended (some .alreadyProcessed)), [])
                    | .deferred =>
                        some (s.endTx hashtext p (.ended (some .deferred)), [])
                    | .incompleteOwnership =>
                        some (s.endTx hashtext p
                          (.ended (some (.failed coreInvariantError none))),
                          [])
                    | .proceed =>
                        some ((s.lockRow p o.key).setPhase p
                          (.claimLocked o event nowMs), [])
      | _ => none
  | .claimAggregate p =>
      match s.phase p with
      | .claimLocked o event nowMs =>
          match s.advisoryLock (advisoryKey hashtext
              o.subscription.consumer event.aggregate) with
          | some _ => none
          | none =>
              some ((s.lockAggregate hashtext p o event).setPhase p
                (.claimOrdering o event nowMs), [])
      | _ => none
  | .claimCheck p =>
      match s.phase p with
      | .claimOrdering o event nowMs =>
          if HasEarlierUnprocessed s.outbox s.deliveries
              o.subscription.consumer event then
            some (s.endTx hashtext p (.ended (some .deferred)), [])
          else some (s.setPhase p (.claiming o event nowMs), [])
      | _ => none
  | .claimCommit p =>
      match s.phase p with
      | .claiming o _ nowMs =>
          match s.deliveries o.key with
          | some row =>
              some ((s.setDelivery o.key
                (row.claimedAs o.claimedBy nowMs)).endTx hashtext p
                (.claimed o), [.claimed p o])
          | none => none
      | _ => none
  | .execLock p =>
      match s.phase p with
      | .claimed o =>
          match s.rowLock o.key with
          | some _ => none
          | none =>
              match s.lockedDelivery o.key with
              | none =>
                  some (s.endTx hashtext p (.failing o coreInvariantError),
                    [])
              | some (row, event) =>
                  if event.name ≠ o.subscription.eventName then
                    some (s.endTx hashtext p (.failing o coreInvariantError),
                      [])
                  else if OwnedProcessing o.claimedBy row then
                    some ((s.lockRow p o.key).setPhase p
                      (.execLocked o event), [])
                  else some (s.endTx hashtext p (.ended (some .deferred)), [])
      | _ => none
  | .execAggregate p =>
      match s.phase p with
      | .execLocked o event =>
          match s.advisoryLock (advisoryKey hashtext
              o.subscription.consumer event.aggregate) with
          | some _ => none
          | none =>
              some ((s.lockAggregate hashtext p o event).setPhase p
                (.execOrdering o event), [])
      | _ => none
  | .execCheck p nowMs =>
      match s.phase p with
      | .execOrdering o event =>
          if HasEarlierUnprocessed s.outbox s.deliveries
              o.subscription.consumer event then
            some (s.setPhase p (.releasing o event nowMs), [])
          else some (s.setPhase p (.handling o event), [])
      | _ => none
  | .releaseCommit p =>
      match s.phase p with
      | .releasing o _ nowMs =>
          match s.deliveries o.key with
          | some row =>
              if OwnedProcessing o.claimedBy row then
                some ((s.setDelivery o.key (row.released nowMs)).endTx hashtext
                  p (.ended (some .deferred)), [.released p o])
              else
                some (s.endTx hashtext p (.ended (some .deferred)), [])
          | none => some (s.endTx hashtext p (.ended (some .deferred)), [])
      | _ => none
  | .handle p output =>
      match s.phase p with
      | .handling o event =>
          some (s.setPhase p (.handled o event output), [])
      | _ => none
  | .finalize p nowMs =>
      match s.phase p with
      | .handled o event output =>
          match s.deliveries o.key with
          | some row =>
              if OwnedProcessing o.claimedBy row then
                some (s.setPhase p (.finalized o event output nowMs), [])
              else
                some (s.endTx hashtext p (.failing o coreInvariantError), [])
          | none =>
              some (s.endTx hashtext p (.failing o coreInvariantError), [])
      | _ => none
  | .commit p lost =>
      match s.phase p with
      | .finalized o event output nowMs =>
          match s.deliveries o.key with
          | some row =>
              some ((s.setDelivery o.key (row.finalized nowMs)).endTx hashtext
                p (afterCommit o lost), [.applied p o event output])
          | none => none
      | _ => none
  | .fail p error =>
      match s.phase p with
      | .claimed o | .execLocked o _ | .execOrdering o _ | .releasing o _ _
      | .handling o _ | .handled o _ _ | .finalized o _ _ _ =>
          some (s.endTx hashtext p (.failing o error), [])
      | _ => none
  | .recordLock p =>
      match s.phase p with
      | .failing o error =>
          match s.rowLock o.key with
          | some _ => none
          | none =>
              match s.deliveries o.key with
              | some row =>
                  if OwnedProcessing o.claimedBy row then
                    some ((s.lockRow p o.key).setPhase p
                      (.recording o error), [])
                  else some (s.endTx hashtext p (.ended (some .deferred)), [])
              | none => some (s.endTx hashtext p (.ended (some .deferred)), [])
      | _ => none
  | .recordCommit p nowMs =>
      match s.phase p with
      | .recording o error =>
          match s.deliveries o.key with
          | some row =>
              some ((s.setDelivery o.key
                (row.failedWith error nowMs)).endTx hashtext p
                (.ended (some (.failed error (retryAt row.attempts nowMs)))),
                [.failed p o])
          | none => none
      | _ => none
  | .crash p => some (s.endTx hashtext p (.ended none), [])
  | .replayDeadDeliveries consumer eventId nowMs =>
      some ({ s with
        deliveries := fun key =>
          (s.deliveries key).map fun row =>
            if key.consumer = consumer ∧ row.status = .dead ∧
                (eventId = none ∨ eventId = some key.eventId) then
              row.replayed nowMs
            else row }, [.replayed consumer eventId])

/-- Event delivery on one database. -/
def protocol : Machine (State O) (Act O) (Event O) where
  init := .initial
  step := step hashtext

/-! ## What the setters leave alone

A setter writes one field of the state and reads the others back unchanged. All
are by `rfl`. -/

section Frame

variable (s : State O) (p q : Nat) (ph : Phase O) (key key' : DeliveryKey)
  (row : Delivery) (o : ExecuteOptions) (event : OutboxEvent)

@[simp] theorem setPhase_outbox : (s.setPhase p ph).outbox = s.outbox := rfl
@[simp] theorem setPhase_deliveries :
    (s.setPhase p ph).deliveries = s.deliveries := rfl
@[simp] theorem setPhase_rowLock : (s.setPhase p ph).rowLock = s.rowLock := rfl
@[simp] theorem setPhase_lastSequence :
    (s.setPhase p ph).lastSequence = s.lastSequence := rfl
@[simp] theorem setPhase_batch : (s.setPhase p ph).batch = s.batch := rfl
@[simp] theorem lockRow_outbox : (s.lockRow p key).outbox = s.outbox := rfl
@[simp] theorem lockRow_deliveries :
    (s.lockRow p key).deliveries = s.deliveries := rfl
@[simp] theorem lockRow_phase : (s.lockRow p key).phase = s.phase := rfl
@[simp] theorem lockRow_lastSequence :
    (s.lockRow p key).lastSequence = s.lastSequence := rfl
@[simp] theorem lockRow_batch : (s.lockRow p key).batch = s.batch := rfl
@[simp] theorem lockAggregate_outbox :
    (s.lockAggregate hashtext p o event).outbox = s.outbox := rfl
@[simp] theorem lockAggregate_deliveries :
    (s.lockAggregate hashtext p o event).deliveries = s.deliveries := rfl
@[simp] theorem lockAggregate_phase :
    (s.lockAggregate hashtext p o event).phase = s.phase := rfl
@[simp] theorem lockAggregate_rowLock :
    (s.lockAggregate hashtext p o event).rowLock = s.rowLock := rfl
@[simp] theorem lockAggregate_lastSequence :
    (s.lockAggregate hashtext p o event).lastSequence = s.lastSequence := rfl
@[simp] theorem lockAggregate_batch :
    (s.lockAggregate hashtext p o event).batch = s.batch := rfl
@[simp] theorem setDelivery_outbox :
    (s.setDelivery key row).outbox = s.outbox := rfl
@[simp] theorem setDelivery_phase :
    (s.setDelivery key row).phase = s.phase := rfl
@[simp] theorem setDelivery_rowLock :
    (s.setDelivery key row).rowLock = s.rowLock := rfl
@[simp] theorem setDelivery_lastSequence :
    (s.setDelivery key row).lastSequence = s.lastSequence := rfl
@[simp] theorem setDelivery_batch :
    (s.setDelivery key row).batch = s.batch := rfl
@[simp] theorem endTx_outbox :
    (s.endTx hashtext p ph).outbox = s.outbox := rfl
@[simp] theorem endTx_deliveries :
    (s.endTx hashtext p ph).deliveries = s.deliveries := rfl
@[simp] theorem endTx_lastSequence :
    (s.endTx hashtext p ph).lastSequence = s.lastSequence := rfl
@[simp] theorem endTx_batch : (s.endTx hashtext p ph).batch = s.batch := rfl

@[simp] theorem setPhase_phase :
    (s.setPhase p ph).phase q = if q = p then ph else s.phase q :=
  Function.update_apply _ _ _ _

@[simp] theorem endTx_phase :
    (s.endTx hashtext p ph).phase q = if q = p then ph else s.phase q :=
  Function.update_apply _ _ _ _

@[simp] theorem setDelivery_deliveries :
    (s.setDelivery key row).deliveries key' =
      if key' = key then some row else s.deliveries key' :=
  Function.update_apply _ _ _ _

@[simp] theorem lockRow_rowLock :
    (s.lockRow p key).rowLock key' =
      if key' = key then some p else s.rowLock key' :=
  Function.update_apply _ _ _ _

/-- The end of a transaction frees the row its call had locked, and that one
only. -/
theorem endTx_rowLock_of_ne (h : (s.phase p).rowHeld ≠ some key) :
    (s.endTx hashtext p ph).rowLock key = s.rowLock key := by
  simp only [State.endTx, State.setPhase, State.unlock]
  cases hheld : (s.phase p).rowHeld with
  | none => rfl
  | some held =>
      refine Function.update_of_ne ?_ _ _
      rintro rfl
      exact h hheld

end Frame

/-! ## What a step can be

`Moves` has one constructor for each action that goes on, and `quit` for all
the branches in which a call ends its transaction without having written. -/

/-- What a step does, one case for each way that it can go. -/
inductive Moves (s : State O) : Act O → State O → List (Event O) → Prop
  | emit {id name aggregate} (hfresh : ∀ ev ∈ s.outbox, ev.id ≠ id) :
      Moves s (.emit id name aggregate)
        { s with
          outbox := s.outbox ++ [s.emitted id name aggregate]
          lastSequence := Function.update s.lastSequence aggregate
            (s.lastSequence aggregate + 1) } []
  | dispatchClaim {d subscriptions batchSize s'} {claimed : List OutboxEvent}
      (hclaimed : ∀ ev ∈ claimed, ev ∈ s.outbox)
      (hbatch : s'.batch =
        Function.update s.batch d (some ⟨subscriptions, claimed⟩))
      (hrest : { s' with batch := s.batch, eventLock := s.eventLock } = s) :
      Moves s (.dispatchClaim d subscriptions batchSize) s' []
  | dispatchCommit {d nowMs b s'} (hb : s.batch d = some b)
      (hdeliveries : s'.deliveries =
        fanOut b.subscriptions b.claimed nowMs s.deliveries)
      (houtbox : s'.outbox = s.outbox.map (markDispatched b.claimed nowMs))
      (hbatch : s'.batch = Function.update s.batch d none)
      (hrest : { s' with
        deliveries := s.deliveries, outbox := s.outbox, batch := s.batch,
        eventLock := s.eventLock } = s) :
      Moves s (.dispatchCommit d nowMs) s' [.dispatched d b.claimed]
  | dispatchAbort {d s'} (hbatch : s'.batch = Function.update s.batch d none)
      (hrest : { s' with batch := s.batch, eventLock := s.eventLock } = s) :
      Moves s (.dispatchAbort d) s' []
  | redispatch {id} :
      Moves s (.redispatch id)
        { s with
          outbox := s.outbox.map fun ev =>
            if ev.id = id then { ev with dispatchedAt := none } else ev } []
  | start {p o} (hph : s.phase p = .idle) :
      Moves s (.start p o) (s.setPhase p (.starting o)) []
  | claimLocked {p nowMs o row event} (hph : s.phase p = .starting o)
      (hfree : s.rowLock o.key = none)
      (hrow : s.lockedDelivery o.key = some (row, event))
      (hname : event.name = o.subscription.eventName)
      (hproceed : claimDecision o.subscription row nowMs = .proceed) :
      Moves s (.claimLock p nowMs)
        ((s.lockRow p o.key).setPhase p (.claimLocked o event nowMs)) []
  | claimOrdering {p o event nowMs}
      (hph : s.phase p = .claimLocked o event nowMs) :
      Moves s (.claimAggregate p)
        ((s.lockAggregate hashtext p o event).setPhase p
          (.claimOrdering o event nowMs)) []
  | claiming {p o event nowMs} (hph : s.phase p = .claimOrdering o event nowMs)
      (hclear : ¬ HasEarlierUnprocessed s.outbox s.deliveries
        o.subscription.consumer event) :
      Moves s (.claimCheck p) (s.setPhase p (.claiming o event nowMs)) []
  | claimed {p o event nowMs row} (hph : s.phase p = .claiming o event nowMs)
      (hrow : s.deliveries o.key = some row) :
      Moves s (.claimCommit p)
        ((s.setDelivery o.key (row.claimedAs o.claimedBy nowMs)).endTx
          hashtext p (.claimed o)) [.claimed p o]
  | execLocked {p o row event} (hph : s.phase p = .claimed o)
      (hfree : s.rowLock o.key = none)
      (hrow : s.lockedDelivery o.key = some (row, event))
      (hname : event.name = o.subscription.eventName)
      (howned : OwnedProcessing o.claimedBy row) :
      Moves s (.execLock p)
        ((s.lockRow p o.key).setPhase p (.execLocked o event)) []
  | execOrdering {p o event} (hph : s.phase p = .execLocked o event) :
      Moves s (.execAggregate p)
        ((s.lockAggregate hashtext p o event).setPhase p
          (.execOrdering o event)) []
  | releasing {p nowMs o event} (hph : s.phase p = .execOrdering o event) :
      Moves s (.execCheck p nowMs)
        (s.setPhase p (.releasing o event nowMs)) []
  | handling {p nowMs o event} (hph : s.phase p = .execOrdering o event)
      (hclear : ¬ HasEarlierUnprocessed s.outbox s.deliveries
        o.subscription.consumer event) :
      Moves s (.execCheck p nowMs) (s.setPhase p (.handling o event)) []
  | released {p o event nowMs row} (hph : s.phase p = .releasing o event nowMs)
      (hrow : s.deliveries o.key = some row)
      (howned : OwnedProcessing o.claimedBy row) :
      Moves s (.releaseCommit p)
        ((s.setDelivery o.key (row.released nowMs)).endTx hashtext p
          (.ended (some .deferred))) [.released p o]
  | handled {p output o event} (hph : s.phase p = .handling o event) :
      Moves s (.handle p output) (s.setPhase p (.handled o event output)) []
  | finalized {p nowMs o event output}
      (hph : s.phase p = .handled o event output) :
      Moves s (.finalize p nowMs)
        (s.setPhase p (.finalized o event output nowMs)) []
  | applied {p lost o event output nowMs row}
      (hph : s.phase p = .finalized o event output nowMs)
      (hrow : s.deliveries o.key = some row) :
      Moves s (.commit p lost)
        ((s.setDelivery o.key (row.finalized nowMs)).endTx hashtext p
          (afterCommit o lost)) [.applied p o event output]
  | recording {p o error row} (hph : s.phase p = .failing o error)
      (hfree : s.rowLock o.key = none)
      (hrow : s.deliveries o.key = some row)
      (howned : OwnedProcessing o.claimedBy row) :
      Moves s (.recordLock p)
        ((s.lockRow p o.key).setPhase p (.recording o error)) []
  | failed {p nowMs o error row} (hph : s.phase p = .recording o error)
      (hrow : s.deliveries o.key = some row) :
      Moves s (.recordCommit p nowMs)
        ((s.setDelivery o.key (row.failedWith error nowMs)).endTx hashtext p
          (.ended (some (.failed error (retryAt row.attempts nowMs)))))
        [.failed p o]
  | quit {a p ph} (hph : (∃ outcome, ph = .ended outcome) ∨
        ∃ o error, ph = .failing o error) :
      Moves s a (s.endTx hashtext p ph) []
  | replayed {consumer eventId nowMs} :
      Moves s (.replayDeadDeliveries consumer eventId nowMs)
        { s with
          deliveries := fun key =>
            (s.deliveries key).map fun row =>
              if key.consumer = consumer ∧ row.status = .dead ∧
                  (eventId = none ∨ eventId = some key.eventId) then
                row.replayed nowMs
              else row } [.replayed consumer eventId]

variable {hashtext}

/-! ## Action by action

A branch of `step` writes as one of the constructors says, or ends the
transaction of its call without having written. -/

section Actions

variable {s s' : State O} {out : List (Event O)}

-- The equations of `step` are made once, for all the lemmas of the section.
attribute [local simp] step

theorem moves_of_claimLock {p nowMs : Nat}
    (h : step hashtext s (.claimLock p nowMs) = some (s', out)) :
    Moves hashtext s (.claimLock p nowMs) s' out := by
  simp only [step] at h
  split at h
  · next hph =>
      split at h
      · cases h
      · next hfree =>
          split at h
          · cases h; exact .quit (Or.inl ⟨_, rfl⟩)
          · next hrow =>
              split at h
              · cases h; exact .quit (Or.inl ⟨_, rfl⟩)
              · next hname =>
                  split at h
                  · cases h; exact .quit (Or.inl ⟨_, rfl⟩)
                  · cases h; exact .quit (Or.inl ⟨_, rfl⟩)
                  · cases h; exact .quit (Or.inl ⟨_, rfl⟩)
                  · next hproceed =>
                      cases h
                      exact .claimLocked hph hfree hrow
                        (not_not.mp hname) hproceed
  · cases h

theorem moves_of_claimAggregate {p : Nat}
    (h : step hashtext s (.claimAggregate p) = some (s', out)) :
    Moves hashtext s (.claimAggregate p) s' out := by
  simp only [step] at h
  split at h
  · next hph =>
      split at h
      · cases h
      · cases h; exact .claimOrdering hph
  · cases h

theorem moves_of_claimCheck {p : Nat}
    (h : step hashtext s (.claimCheck p) = some (s', out)) :
    Moves hashtext s (.claimCheck p) s' out := by
  simp only [step] at h
  split at h
  · next hph =>
      split at h
      · cases h; exact .quit (Or.inl ⟨_, rfl⟩)
      · next hclear => cases h; exact .claiming hph hclear
  · cases h

theorem moves_of_claimCommit {p : Nat}
    (h : step hashtext s (.claimCommit p) = some (s', out)) :
    Moves hashtext s (.claimCommit p) s' out := by
  simp only [step] at h
  split at h
  · next hph =>
      split at h
      · next hrow => cases h; exact .claimed hph hrow
      · cases h
  · cases h

theorem moves_of_execLock {p : Nat}
    (h : step hashtext s (.execLock p) = some (s', out)) :
    Moves hashtext s (.execLock p) s' out := by
  simp only [step] at h
  split at h
  · next hph =>
      split at h
      · cases h
      · next hfree =>
          split at h
          · cases h; exact .quit (Or.inr ⟨_, _, rfl⟩)
          · next hrow =>
              split at h
              · cases h; exact .quit (Or.inr ⟨_, _, rfl⟩)
              · next hname =>
                  split at h
                  · next howned =>
                      cases h
                      exact .execLocked hph hfree hrow
                        (not_not.mp hname) howned
                  · cases h; exact .quit (Or.inl ⟨_, rfl⟩)
  · cases h

theorem moves_of_execAggregate {p : Nat}
    (h : step hashtext s (.execAggregate p) = some (s', out)) :
    Moves hashtext s (.execAggregate p) s' out := by
  simp only [step] at h
  split at h
  · next hph =>
      split at h
      · cases h
      · cases h; exact .execOrdering hph
  · cases h

theorem moves_of_execCheck {p nowMs : Nat}
    (h : step hashtext s (.execCheck p nowMs) = some (s', out)) :
    Moves hashtext s (.execCheck p nowMs) s' out := by
  simp only [step] at h
  split at h
  · next hph =>
      split at h
      · cases h; exact .releasing hph
      · next hclear => cases h; exact .handling hph hclear
  · cases h

theorem moves_of_releaseCommit {p : Nat}
    (h : step hashtext s (.releaseCommit p) = some (s', out)) :
    Moves hashtext s (.releaseCommit p) s' out := by
  simp only [step] at h
  split at h
  · next hph =>
      split at h
      · next hrow =>
          split at h
          · next howned => cases h; exact .released hph hrow howned
          · cases h; exact .quit (Or.inl ⟨_, rfl⟩)
      · cases h; exact .quit (Or.inl ⟨_, rfl⟩)
  · cases h

theorem moves_of_finalize {p nowMs : Nat}
    (h : step hashtext s (.finalize p nowMs) = some (s', out)) :
    Moves hashtext s (.finalize p nowMs) s' out := by
  simp only [step] at h
  split at h
  · next hph =>
      split at h
      · split at h
        · cases h; exact .finalized hph
        · cases h; exact .quit (Or.inr ⟨_, _, rfl⟩)
      · cases h; exact .quit (Or.inr ⟨_, _, rfl⟩)
  · cases h

theorem moves_of_commit {p : Nat} {lost : Option CoreError}
    (h : step hashtext s (.commit p lost) = some (s', out)) :
    Moves hashtext s (.commit p lost) s' out := by
  simp only [step] at h
  split at h
  · next hph =>
      split at h
      · next hrow => cases h; exact .applied hph hrow
      · cases h
  · cases h

theorem moves_of_recordLock {p : Nat}
    (h : step hashtext s (.recordLock p) = some (s', out)) :
    Moves hashtext s (.recordLock p) s' out := by
  simp only [step] at h
  split at h
  · next hph =>
      split at h
      · cases h
      · next hfree =>
          split at h
          · next hrow =>
              split at h
              · next howned =>
                  cases h; exact .recording hph hfree hrow howned
              · cases h; exact .quit (Or.inl ⟨_, rfl⟩)
          · cases h; exact .quit (Or.inl ⟨_, rfl⟩)
  · cases h

theorem moves_of_recordCommit {p nowMs : Nat}
    (h : step hashtext s (.recordCommit p nowMs) = some (s', out)) :
    Moves hashtext s (.recordCommit p nowMs) s' out := by
  simp only [step] at h
  split at h
  · next hph =>
      split at h
      · next hrow => cases h; exact .failed hph hrow
      · cases h
  · cases h

end Actions

theorem moves_of_step {s s' : State O} {a : Act O} {out : List (Event O)}
    (h : step hashtext s a = some (s', out)) : Moves hashtext s a s' out := by
  cases a with
  | emit id name aggregate =>
      simp only [step] at h
      split at h
      · cases h
      · next hfresh =>
          cases h
          exact .emit fun ev hev heq => hfresh ⟨ev, hev, heq⟩
  | dispatchClaim d subscriptions batchSize =>
      simp only [step] at h
      split at h
      · cases h
      · cases h
        exact .dispatchClaim (fun ev => mem_of_mem_claimableEvents) rfl rfl
  | dispatchCommit d nowMs =>
      simp only [step] at h
      split at h
      · cases h
      · next hb => cases h; exact .dispatchCommit hb rfl rfl rfl rfl
  | dispatchAbort d =>
      simp only [step] at h
      split at h
      · cases h
      · cases h; exact .dispatchAbort rfl rfl
  | redispatch id =>
      simp only [step] at h
      split at h
      · cases h
      · cases h; exact .redispatch
  | start p o =>
      simp only [step] at h
      split at h
      · next hph => cases h; exact .start hph
      · cases h
  | claimLock => exact moves_of_claimLock h
  | claimAggregate => exact moves_of_claimAggregate h
  | claimCheck => exact moves_of_claimCheck h
  | claimCommit => exact moves_of_claimCommit h
  | execLock => exact moves_of_execLock h
  | execAggregate => exact moves_of_execAggregate h
  | execCheck => exact moves_of_execCheck h
  | releaseCommit => exact moves_of_releaseCommit h
  | handle p output =>
      simp only [step] at h
      split at h
      · next hph => cases h; exact .handled hph
      · cases h
  | finalize => exact moves_of_finalize h
  | commit => exact moves_of_commit h
  | fail p error =>
      simp only [step] at h
      split at h <;>
      · first
          | cases h; exact .quit (Or.inr ⟨_, _, rfl⟩)
          | cases h
  | recordLock => exact moves_of_recordLock h
  | recordCommit => exact moves_of_recordCommit h
  | crash p =>
      simp only [step] at h
      cases h
      exact .quit (Or.inl ⟨_, rfl⟩)
  | replayDeadDeliveries consumer eventId nowMs =>
      simp only [step] at h
      cases h
      exact .replayed

/-- A step of a configuration, as `Moves`. -/
theorem moves_of_next {c c' : Conf (State O) (Event O)} {a : Act O}
    (h : (protocol hashtext).next c a = some c') :
    ∃ s out, Moves hashtext c.st a s out ∧ c' = ⟨s, out ++ c.log⟩ := by
  obtain ⟨s, out, hstep, rfl⟩ := Machine.next_eq_some.mp h
  exact ⟨s, out, moves_of_step hstep, rfl⟩

end Locks

end Shozee.Events
