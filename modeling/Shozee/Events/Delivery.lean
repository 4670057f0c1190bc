import Mathlib

/-!
# Outbox events and delivery rows

The rows behind `packages/core/src/runtime/events`: an event of
`domain_events` with its aggregate and sequence, and the row of
`event_deliveries` that tracks one consumer's handling of it. This file holds
what the transactions of `dispatchOutboxBatch`, `executeDelivery`,
`recordDeliveryFailure` and `replayDeadDeliveries` compute from the rows they
have read: which branch the claim takes, what each `UPDATE` sets, whether an
earlier delivery of the aggregate is in the way. Who reads and writes when is
`Protocol`.

Times are epoch milliseconds. Event ids are UUIDv7 values, of which only the
order is used.
-/

namespace Shozee.Events

/-- Five failed handler attempts park one consumer's delivery. -/
def deliveryMaxAttempts : Nat := 5

/-- Retry delays are 1 s, 2 s, 4 s and 8 s after failures one through four. -/
def deliveryRetryBaseMs : Nat := 1000

/-- Added to the action timeout to form the life of a claim. -/
def deliveryClaimMarginMs : Nat := 30000

/-- What one sequence of events is about. -/
structure Aggregate where
  type : String
  id : String
deriving DecidableEq, Repr

/-- A row of `domain_events`, as far as delivery reads it. -/
structure OutboxEvent where
  id : Nat
  name : String
  aggregate : Aggregate
  aggregateSequence : Nat
  dispatchedAt : Option Nat
deriving DecidableEq, Repr

/-- The primary key of `event_deliveries`. -/
structure DeliveryKey where
  consumer : String
  eventId : Nat
deriving DecidableEq, Repr

/-- The life of a delivery. -/
inductive DeliveryStatus
  | pending
  | processing
  | processed
  | dead
deriving DecidableEq, Repr

/-- A row of `event_deliveries`, less its key. -/
structure Delivery where
  status : DeliveryStatus
  attempts : Nat
  nextAttemptAt : Option Nat
  claimedAt : Option Nat
  claimedBy : Option String
  lastError : Option String
  processedAt : Option Nat
deriving DecidableEq, Repr

/-- A consumer's binding of one event to an action with a timeout. -/
structure EventSubscription where
  consumer : String
  eventName : String
  timeout : Nat
deriving DecidableEq, Repr

/-- The options of one `executeDelivery` call. -/
structure ExecuteOptions where
  subscription : EventSubscription
  eventId : Nat
  claimedBy : String
deriving DecidableEq, Repr

/-- The delivery that a worker is asked to run. -/
def ExecuteOptions.key (o : ExecuteOptions) : DeliveryKey :=
  ⟨o.subscription.consumer, o.eventId⟩

/-- A typed core error, by what a delivery row keeps of it. -/
structure CoreError where
  code : String
  clientMessage : String
deriving DecidableEq, Repr

/-- The public face of every `CoreInvariantError`. -/
def coreInvariantError : CoreError := ⟨"INTERNAL", "Internal error."⟩

/-- What one `executeDelivery` call returns. -/
inductive DeliveryOutcome
  | processed
  | alreadyProcessed
  | deferred
  | failed (error : CoreError) (retryAt : Option Nat)
deriving DecidableEq, Repr

/-! ## The claim

What `claimDelivery` decides on the row it has locked, and the row that it
leaves. A claim counts its attempt at once. -/

/-- What a claim does with the row that it has read. -/
inductive ClaimDecision
  | alreadyProcessed
  | deferred
  | incompleteOwnership
  | proceed
deriving DecidableEq, Repr

/-- `claimDelivery` between its row lock and its advisory lock. -/
def claimDecision (subscription : EventSubscription) (row : Delivery)
    (nowMs : Nat) : ClaimDecision :=
  match row.status with
  | .processed => .alreadyProcessed
  | .dead => .deferred
  | .pending =>
      match row.nextAttemptAt with
      | some due => if nowMs < due then .deferred else .proceed
      | none => .proceed
  | .processing =>
      match row.claimedAt, row.claimedBy with
      | some claimedAt, some _ =>
          if nowMs < claimedAt + subscription.timeout + deliveryClaimMarginMs
          then .deferred else .proceed
      | _, _ => .incompleteOwnership

/-- The `SET` of the claim. -/
def Delivery.claimedAs (row : Delivery) (claimedBy : String) (nowMs : Nat) :
    Delivery :=
  { row with
    status := .processing
    attempts := row.attempts + 1
    nextAttemptAt := none
    claimedAt := some nowMs
    claimedBy := some claimedBy }

/-- `ownedProcessingDelivery`, on the row its key names. -/
def OwnedProcessing (claimedBy : String) (row : Delivery) : Prop :=
  row.status = .processing ∧ row.claimedBy = some claimedBy

instance (claimedBy : String) (row : Delivery) :
    Decidable (OwnedProcessing claimedBy row) :=
  inferInstanceAs (Decidable (_ ∧ _))

/-! ## What comes after the claim

The four ways for a claimed row to go on: released unhandled, finalized, failed
with a time for the next attempt, or dead. A dead row is replayed by hand. -/

/-- The release of a claim whose handler did not run. -/
def Delivery.released (row : Delivery) (nowMs : Nat) : Delivery :=
  { row with
    status := .pending
    attempts := row.attempts - 1
    nextAttemptAt := some nowMs
    claimedAt := none
    claimedBy := none }

/-- The reservation hook's `finalize`. -/
def Delivery.finalized (row : Delivery) (nowMs : Nat) : Delivery :=
  { row with
    status := .processed
    nextAttemptAt := none
    claimedAt := none
    claimedBy := none
    lastError := none
    processedAt := some nowMs }

/-- The wait after an attempt, doubled each time. -/
def deliveryRetryDelayMs (attempt : Nat) : Nat :=
  deliveryRetryBaseMs * 2 ^ (attempt - 1)

/-- When a row with this many attempts is tried again; never, once dead. -/
def retryAt (attempts nowMs : Nat) : Option Nat :=
  if deliveryMaxAttempts ≤ attempts then none
  else some (nowMs + deliveryRetryDelayMs attempts)

/-- `recordDeliveryFailure`. -/
def Delivery.failedWith (row : Delivery) (error : CoreError) (nowMs : Nat) :
    Delivery :=
  { row with
    status := if deliveryMaxAttempts ≤ row.attempts then .dead else .pending
    nextAttemptAt := retryAt row.attempts nowMs
    claimedAt := none
    claimedBy := none
    lastError := some (error.code ++ ": " ++ error.clientMessage) }

/-- `replayDeadDeliveries` on one dead row. -/
def Delivery.replayed (row : Delivery) (nowMs : Nat) : Delivery :=
  { row with
    status := .pending
    attempts := 0
    nextAttemptAt := some nowMs
    claimedAt := none
    claimedBy := none
    lastError := none
    processedAt := none }

/-! ## Dispatch

The dispatcher fans an event out to the consumers that subscribe to it, one row
for each, and then marks the event. The insert passes over rows that exist. -/

/-- The row the dispatcher creates. -/
def Delivery.fresh (dispatchedAt : Nat) : Delivery where
  status := .pending
  attempts := 0
  nextAttemptAt := some dispatchedAt
  claimedAt := none
  claimedBy := none
  lastError := none
  processedAt := none

/-- Whether the registry binds the consumer to the event. -/
def Subscribes (subscriptions : List EventSubscription) (consumer : String)
    (eventName : String) : Prop :=
  ∃ sub ∈ subscriptions, sub.consumer = consumer ∧ sub.eventName = eventName

instance (subscriptions : List EventSubscription) (consumer : String)
    (eventName : String) :
    Decidable (Subscribes subscriptions consumer eventName) :=
  inferInstanceAs (Decidable (∃ sub ∈ subscriptions, _ ∧ _))

/-- The rows of `dispatchOutboxBatch`'s claim: undispatched events that nobody
has locked, by id, up to the batch size. -/
def claimableEvents (outbox : List OutboxEvent) (locked : Nat → Bool)
    (batchSize : Nat) : List OutboxEvent :=
  ((outbox.filter fun ev => ev.dispatchedAt = none ∧ locked ev.id = false
    ).insertionSort fun a b => a.id ≤ b.id).take batchSize

/-- The dispatcher's insert with `ON CONFLICT DO NOTHING`. -/
def fanOut (subscriptions : List EventSubscription)
    (claimed : List OutboxEvent) (dispatchedAt : Nat)
    (deliveries : DeliveryKey → Option Delivery) (key : DeliveryKey) :
    Option Delivery :=
  match deliveries key with
  | some row => some row
  | none =>
      if ∃ ev ∈ claimed, ev.id = key.eventId ∧
          Subscribes subscriptions key.consumer ev.name then
        some (.fresh dispatchedAt)
      else none

/-- The dispatcher's mark on the events it claimed. -/
def markDispatched (claimed : List OutboxEvent) (dispatchedAt : Nat)
    (ev : OutboxEvent) : OutboxEvent :=
  if ∃ ev' ∈ claimed, ev'.id = ev.id then
    { ev with dispatchedAt := some dispatchedAt }
  else ev

/-! ## Order within an aggregate

A delivery waits for the earlier ones of its consumer on the same aggregate.
Whether there is one is asked of the rows, twice for each attempt. -/

/-- `hasEarlierUnprocessedDelivery`: some delivery row of the consumer, for an
event of the aggregate with a lower sequence, is not processed. -/
def HasEarlierUnprocessed (outbox : List OutboxEvent)
    (deliveries : DeliveryKey → Option Delivery) (consumer : String)
    (event : OutboxEvent) : Prop :=
  ∃ ev ∈ outbox, ev.aggregate = event.aggregate ∧
    ev.aggregateSequence < event.aggregateSequence ∧
    ∃ row ∈ deliveries ⟨consumer, ev.id⟩, row.status ≠ .processed

instance (outbox : List OutboxEvent)
    (deliveries : DeliveryKey → Option Delivery) (consumer : String)
    (event : OutboxEvent) :
    Decidable (HasEarlierUnprocessed outbox deliveries consumer event) :=
  inferInstanceAs (Decidable (∃ ev ∈ outbox, _ ∧ _ ∧ ∃ row ∈ _, _))

/-! ## What the decisions and updates mean -/

/-- A claim goes ahead on a pending or a stale row only. -/
theorem claimDecision_proceed {subscription : EventSubscription}
    {row : Delivery} {nowMs : Nat}
    (h : claimDecision subscription row nowMs = .proceed) :
    row.status = .pending ∨ row.status = .processing := by
  unfold claimDecision at h
  split at h
  · cases h
  · cases h
  · next hpending => exact Or.inl hpending
  · next hprocessing => exact Or.inr hprocessing

theorem fanOut_of_some {subscriptions : List EventSubscription}
    {claimed : List OutboxEvent} {dispatchedAt : Nat}
    {deliveries : DeliveryKey → Option Delivery} {key : DeliveryKey}
    {row : Delivery} (h : deliveries key = some row) :
    fanOut subscriptions claimed dispatchedAt deliveries key = some row := by
  simp only [fanOut, h]

/-- A row that the fan-out shows was there, or is new and pending. -/
theorem fanOut_eq_some {subscriptions : List EventSubscription}
    {claimed : List OutboxEvent} {dispatchedAt : Nat}
    {deliveries : DeliveryKey → Option Delivery} {key : DeliveryKey}
    {row : Delivery}
    (h : fanOut subscriptions claimed dispatchedAt deliveries key =
      some row) :
    deliveries key = some row ∨ (row = .fresh dispatchedAt ∧
      ∃ ev ∈ claimed, ev.id = key.eventId ∧
        Subscribes subscriptions key.consumer ev.name) := by
  unfold fanOut at h
  split at h
  · next hrow => cases h; exact Or.inl hrow
  · split at h
    · next hnew => cases h; exact Or.inr ⟨rfl, hnew⟩
    · cases h

theorem mem_of_mem_claimableEvents {outbox : List OutboxEvent}
    {locked : Nat → Bool} {batchSize : Nat} {ev : OutboxEvent}
    (h : ev ∈ claimableEvents outbox locked batchSize) : ev ∈ outbox := by
  have hsorted := List.mem_of_mem_take h
  rw [List.mem_insertionSort] at hsorted
  exact List.mem_of_mem_filter hsorted

/-- Marking an event changes nothing but the mark. -/
theorem markDispatched_eq (claimed : List OutboxEvent) (dispatchedAt : Nat)
    (ev : OutboxEvent) :
    (markDispatched claimed dispatchedAt ev).id = ev.id ∧
      (markDispatched claimed dispatchedAt ev).name = ev.name ∧
      (markDispatched claimed dispatchedAt ev).aggregate = ev.aggregate ∧
      (markDispatched claimed dispatchedAt ev).aggregateSequence =
        ev.aggregateSequence := by
  unfold markDispatched
  split <;> exact ⟨rfl, rfl, rfl, rfl⟩

end Shozee.Events
