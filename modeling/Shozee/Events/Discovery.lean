import Mathlib.Data.List.Dedup
import Shozee.Events.Order

/-!
# Discovery and claiming

A worker looks for due deliveries with one query (`findClaimableDeliveries`)
and claims each of them in a transaction of its own (`claimDelivery`). What is
due is written twice, as a condition on rows and as a decision about one row;
and whether an earlier delivery is in the way, by one subquery for both.

The two agree on every state that the calls of `Protocol` lead to: a row that
is being processed has an owner there, and no two events of an aggregate have
one sequence.
-/

namespace Shozee.Events

open Shozee.Run

/-- What discovery returns of a delivery. -/
structure ClaimableDelivery where
  consumer : String
  eventId : Nat
  eventName : String
deriving DecidableEq, Repr

/-! ## The query

The condition on a row, the subquery for earlier deliveries and the order of
the result. The registry's subscriptions are asked one after the other. -/

/-- The condition on a row for one subscription. The time is subtracted here,
and may lie before the epoch. -/
def Due (subscription : EventSubscription) (row : Delivery) (nowMs : Nat) :
    Prop :=
  (row.status = .pending ∧ ∀ due ∈ row.nextAttemptAt, due ≤ nowMs) ∨
    (row.status = .processing ∧ ∀ claimedAt ∈ row.claimedAt,
      (claimedAt : Int) ≤
        nowMs - subscription.timeout - deliveryClaimMarginMs)

instance (subscription : EventSubscription) (row : Delivery) (nowMs : Nat) :
    Decidable (Due subscription row nowMs) :=
  inferInstanceAs (Decidable
    ((_ ∧ ∀ due ∈ row.nextAttemptAt, _) ∨ (_ ∧ ∀ at' ∈ row.claimedAt, _)))

/-- The `WHERE` of the query, on a delivery row and its event. -/
def Claimable (outbox : List OutboxEvent)
    (deliveries : DeliveryKey → Option Delivery)
    (subscriptions : List EventSubscription) (nowMs : Nat)
    (consumer : String) (event : OutboxEvent) (row : Delivery) : Prop :=
  (∃ subscription ∈ subscriptions, consumer = subscription.consumer ∧
    event.name = subscription.eventName ∧ Due subscription row nowMs) ∧
    ¬ HasEarlierUnprocessed outbox deliveries consumer event

instance (outbox : List OutboxEvent)
    (deliveries : DeliveryKey → Option Delivery)
    (subscriptions : List EventSubscription) (nowMs : Nat)
    (consumer : String) (event : OutboxEvent) (row : Delivery) :
    Decidable (Claimable outbox deliveries subscriptions nowMs consumer event
      row) :=
  inferInstanceAs (Decidable ((∃ subscription ∈ subscriptions, _) ∧ ¬ _))

/-- `ORDER BY next_attempt_at, event_id`; what has no time comes last. -/
def orderedBefore (a b : Option Nat × ClaimableDelivery) : Bool :=
  match a.1, b.1 with
  | some x, some y => x < y || (x = y && a.2.eventId ≤ b.2.eventId)
  | some _, none => true
  | none, some _ => false
  | none, none => a.2.eventId ≤ b.2.eventId

/-- The rows of one consumer that the query selects. -/
def claimableRows (outbox : List OutboxEvent)
    (deliveries : DeliveryKey → Option Delivery)
    (subscriptions : List EventSubscription) (nowMs : Nat)
    (consumer : String) : List (Option Nat × ClaimableDelivery) :=
  outbox.filterMap fun event =>
    match deliveries ⟨consumer, event.id⟩ with
    | none => none
    | some row =>
        if Claimable outbox deliveries subscriptions nowMs consumer event row
        then some (row.nextAttemptAt, ⟨consumer, event.id, event.name⟩)
        else none

/-- The discovery query; every row it selects is some subscription's
consumer's. -/
def findClaimableDeliveries (outbox : List OutboxEvent)
    (deliveries : DeliveryKey → Option Delivery)
    (subscriptions : List EventSubscription) (nowMs : Nat)
    (batchSize : Option Nat) : List ClaimableDelivery :=
  let consumers := (subscriptions.map EventSubscription.consumer).dedup
  let rows := (consumers.flatMap
    (claimableRows outbox deliveries subscriptions nowMs)).insertionSort
      fun a b => orderedBefore a b
  ((batchSize.map rows.take).getD rows).map Prod.snd

/-! ## The claim

The same question put to one locked row. Where the query reads `due`, the claim
decides, and on a row that is not processed without an owner the two answer
alike. -/

/-- What claiming a delivery answers with. -/
inductive ClaimResult
  | claimed
  | alreadyProcessed
  | deferred
  | refused
deriving DecidableEq, Repr

/-- `claimDelivery`, run with nobody in its way. -/
def claimDelivery (outbox : List OutboxEvent)
    (deliveries : DeliveryKey → Option Delivery)
    (subscription : EventSubscription) (eventId nowMs : Nat) : ClaimResult :=
  match deliveries ⟨subscription.consumer, eventId⟩,
      outbox.find? fun event => event.id = eventId with
  | some row, some event =>
      if event.name ≠ subscription.eventName then .refused
      else
        match claimDecision subscription row nowMs with
        | .alreadyProcessed => .alreadyProcessed
        | .deferred => .deferred
        | .incompleteOwnership => .refused
        | .proceed =>
            if HasEarlierUnprocessed outbox deliveries subscription.consumer
                event then .deferred
            else .claimed
  | _, _ => .refused

theorem claimDelivery_eq_claimed {outbox : List OutboxEvent}
    {deliveries : DeliveryKey → Option Delivery}
    {subscription : EventSubscription} {eventId nowMs : Nat} :
    claimDelivery outbox deliveries subscription eventId nowMs = .claimed ↔
      ∃ row event, deliveries ⟨subscription.consumer, eventId⟩ = some row ∧
        outbox.find? (fun event => event.id = eventId) = some event ∧
        event.name = subscription.eventName ∧
        claimDecision subscription row nowMs = .proceed ∧
        ¬ HasEarlierUnprocessed outbox deliveries subscription.consumer
          event := by
  constructor
  · intro h
    unfold claimDelivery at h
    split at h
    · rename_i row event hrow hevent
      split at h
      · cases h
      · rename_i hname
        split at h
        · cases h
        · cases h
        · cases h
        · rename_i hproceed
          split at h
          · cases h
          · rename_i hclear
            exact ⟨row, event, hrow, hevent, not_ne_iff.mp hname, hproceed,
              hclear⟩
    · cases h
  · intro ⟨row, event, hrow, hevent, hname, hproceed, hclear⟩
    simp only [claimDelivery, hrow, hevent, hname, hproceed, hclear, ne_eq,
      not_true_eq_false, if_false]

/-- On a row that is not processed without an owner, the condition of the query
is the decision of the claim. -/
theorem due_iff_proceed {subscription : EventSubscription} {row : Delivery}
    {nowMs : Nat} (howned : row.status = .processing →
      row.claimedAt ≠ none ∧ row.claimedBy ≠ none) :
    Due subscription row nowMs ↔
      claimDecision subscription row nowMs = .proceed := by
  unfold Due claimDecision
  cases hstatus : row.status with
  | pending =>
      cases hdue : row.nextAttemptAt with
      | none => simp
      | some due =>
          by_cases hle : due ≤ nowMs
          · simp [hle, Nat.not_lt.mpr hle]
          · simp [hle, Nat.lt_of_not_le hle]
  | processing =>
      obtain ⟨hat, hby⟩ := howned hstatus
      obtain ⟨claimedAt, hat⟩ := Option.ne_none_iff_exists'.mp hat
      obtain ⟨claimedBy, hby⟩ := Option.ne_none_iff_exists'.mp hby
      rw [hat, hby]
      by_cases hlive : nowMs <
          claimedAt + subscription.timeout + deliveryClaimMarginMs
      · have hnot : ¬ (claimedAt : Int) ≤
            nowMs - subscription.timeout - deliveryClaimMarginMs := by omega
        simp [hlive, hnot]
      · have hle : (claimedAt : Int) ≤
            nowMs - subscription.timeout - deliveryClaimMarginMs := by omega
        simp [hlive, hle]
  | processed => simp
  | dead => simp

/-! ## What the query selects

The limit aside, a delivery is found just when its own row meets the condition.
-/

section Query

variable {outbox : List OutboxEvent}
  {deliveries : DeliveryKey → Option Delivery}
  {subscriptions : List EventSubscription} {nowMs : Nat}

theorem mem_claimableRows {consumer : String}
    {x : Option Nat × ClaimableDelivery} :
    x ∈ claimableRows outbox deliveries subscriptions nowMs consumer ↔
      ∃ event ∈ outbox, ∃ row, deliveries ⟨consumer, event.id⟩ = some row ∧
        Claimable outbox deliveries subscriptions nowMs consumer event row ∧
        x = (row.nextAttemptAt, ⟨consumer, event.id, event.name⟩) := by
  unfold claimableRows
  rw [List.mem_filterMap]
  refine exists_congr fun event => and_congr_right fun _ => ?_
  cases hrow : deliveries ⟨consumer, event.id⟩ with
  | none => simp
  | some row =>
      by_cases hclaim : Claimable outbox deliveries subscriptions nowMs
          consumer event row
      · simp only [if_pos hclaim, Option.some.injEq]
        exact ⟨fun hx => ⟨row, rfl, hclaim, hx.symm⟩,
          fun ⟨_, hsome, _, hx⟩ => by rw [hsome]; exact hx.symm⟩
      · simp only [if_neg hclaim]
        refine iff_of_false (by simp) fun ⟨row', hsome, hclaim', _⟩ => ?_
        cases hsome
        exact hclaim hclaim'

/-- With no limit, a delivery is found when its row meets the condition. -/
theorem mem_findClaimableDeliveries {d : ClaimableDelivery} :
    d ∈ findClaimableDeliveries outbox deliveries subscriptions nowMs none ↔
      ∃ event ∈ outbox, ∃ row,
        deliveries ⟨d.consumer, event.id⟩ = some row ∧
        Claimable outbox deliveries subscriptions nowMs d.consumer event row ∧
        d = ⟨d.consumer, event.id, event.name⟩ := by
  simp only [findClaimableDeliveries, Option.map_none, Option.getD_none,
    List.mem_map, List.mem_insertionSort, List.mem_flatMap, List.mem_dedup]
  constructor
  · intro ⟨x, ⟨consumer, _, hx⟩, hd⟩
    obtain ⟨event, hevent, row, hrow, hclaim, rfl⟩ :=
      mem_claimableRows.mp hx
    subst hd
    exact ⟨event, hevent, row, hrow, hclaim, rfl⟩
  · intro ⟨event, hevent, row, hrow, hclaim, hd⟩
    obtain ⟨subscription, hsub, hconsumer, _, _⟩ := hclaim.1
    refine ⟨(row.nextAttemptAt, d), ⟨d.consumer, ?_, ?_⟩, rfl⟩
    · exact ⟨subscription, hsub, hconsumer.symm⟩
    · exact mem_claimableRows.mpr
        ⟨event, hevent, row, hrow, hclaim, Prod.ext rfl hd⟩

end Query

/-! ## Two heads of one aggregate

Of two deliveries of a consumer on one aggregate the later one is blocked by
the earlier, as a row that can be claimed is not processed. So what one query
returns is apart. -/

/-- The deliveries are not of one consumer and one aggregate. -/
def Apart (outbox : List OutboxEvent) (d d' : ClaimableDelivery) : Prop :=
  d.consumer = d'.consumer → ∀ event ∈ outbox, ∀ event' ∈ outbox,
    event.id = d.eventId → event'.id = d'.eventId →
      event.aggregate ≠ event'.aggregate

theorem Apart.symm {outbox : List OutboxEvent} {d d' : ClaimableDelivery}
    (h : Apart outbox d d') : Apart outbox d' d :=
  fun hconsumer event hevent event' hevent' hid hid' heq =>
    h hconsumer.symm event' hevent' event hevent hid' hid heq.symm

/-- Ids are not used twice, nor are the sequences of an aggregate. -/
structure Numbered (outbox : List OutboxEvent) : Prop where
  ids : (outbox.map OutboxEvent.id).Nodup
  sequences : ∀ ev ∈ outbox, ∀ ev' ∈ outbox, ev.aggregate = ev'.aggregate →
    ev.aggregateSequence = ev'.aggregateSequence → ev.id = ev'.id

section Heads

variable {outbox : List OutboxEvent}
  {deliveries : DeliveryKey → Option Delivery}
  {subscriptions : List EventSubscription} {nowMs : Nat}

theorem Numbered.eq_of_id (h : Numbered outbox) {ev ev' : OutboxEvent}
    (hev : ev ∈ outbox) (hev' : ev' ∈ outbox) (hid : ev.id = ev'.id) :
    ev = ev' :=
  List.inj_on_of_nodup_map h.ids hev hev' hid

theorem Numbered.find?_eq (h : Numbered outbox) {ev : OutboxEvent}
    (hev : ev ∈ outbox) :
    outbox.find? (fun event => event.id = ev.id) = some ev := by
  cases hfind : outbox.find? (fun event => event.id = ev.id) with
  | none =>
      have hnot := List.find?_eq_none.mp hfind ev hev
      simp at hnot
  | some ev' =>
      have hid : ev'.id = ev.id := by simpa using List.find?_some hfind
      rw [h.eq_of_id (List.mem_of_find?_eq_some hfind) hev hid]

/-- A row to be claimed is not processed, so it is in the way of every later
one of its aggregate. -/
theorem Claimable.blocks {consumer : String} {event event' : OutboxEvent}
    {row row' : Delivery} (hevent : event ∈ outbox)
    (hrow : deliveries ⟨consumer, event.id⟩ = some row)
    (hclaim : Claimable outbox deliveries subscriptions nowMs consumer event
      row)
    (hclaim' : Claimable outbox deliveries subscriptions nowMs consumer event'
      row') (hagg : event.aggregate = event'.aggregate) :
    ¬ event.aggregateSequence < event'.aggregateSequence := by
  intro hlt
  refine hclaim'.2 ⟨event, hevent, hagg, hlt, row, hrow, ?_⟩
  obtain ⟨_, _, _, _, hdue⟩ := hclaim.1
  intro hdone
  cases hdue with
  | inl hpending => rw [hdone] at hpending; cases hpending.1
  | inr hprocessing => rw [hdone] at hprocessing; cases hprocessing.1

/-- Two rows of one consumer that are to be claimed are of two aggregates. -/
theorem Numbered.aggregate_ne (h : Numbered outbox) {consumer : String}
    {event event' : OutboxEvent} {row row' : Delivery}
    (hevent : event ∈ outbox) (hevent' : event' ∈ outbox)
    (hne : event.id ≠ event'.id)
    (hrow : deliveries ⟨consumer, event.id⟩ = some row)
    (hrow' : deliveries ⟨consumer, event'.id⟩ = some row')
    (hclaim : Claimable outbox deliveries subscriptions nowMs consumer event
      row)
    (hclaim' : Claimable outbox deliveries subscriptions nowMs consumer event'
      row') : event.aggregate ≠ event'.aggregate := by
  intro hagg
  have hle := hclaim.blocks hevent hrow hclaim' hagg
  have hge := hclaim'.blocks hevent' hrow' hclaim hagg.symm
  have heq : event.aggregateSequence = event'.aggregateSequence := by omega
  exact hne (h.sequences event hevent event' hevent' hagg heq)

theorem Numbered.apart_claimableRows (h : Numbered outbox)
    (consumer : String) :
    (claimableRows outbox deliveries subscriptions nowMs consumer).Pairwise
      fun x y => Apart outbox x.2 y.2 := by
  unfold claimableRows
  rw [List.pairwise_filterMap]
  refine (List.pairwise_map.mp h.ids).imp_of_mem ?_
  intro event event' hevent hevent' hne x hx y hy
  cases hrow : deliveries ⟨consumer, event.id⟩ with
  | none => simp [hrow] at hx
  | some row =>
      cases hrow' : deliveries ⟨consumer, event'.id⟩ with
      | none => simp [hrow'] at hy
      | some row' =>
          simp only [hrow, Option.ite_none_right_eq_some] at hx
          simp only [hrow', Option.ite_none_right_eq_some] at hy
          obtain ⟨hclaim, hx⟩ := hx
          obtain ⟨hclaim', hy⟩ := hy
          cases hx
          cases hy
          intro _ ev hev ev' hev' hid hid'
          rw [h.eq_of_id hev hevent hid, h.eq_of_id hev' hevent' hid']
          exact h.aggregate_ne hevent hevent' hne hrow hrow' hclaim hclaim'

theorem Numbered.apart_found (h : Numbered outbox) :
    (findClaimableDeliveries outbox deliveries subscriptions nowMs
      none).Pairwise (Apart outbox) := by
  simp only [findClaimableDeliveries, Option.map_none, Option.getD_none]
  rw [List.pairwise_map,
    (List.perm_insertionSort _ _).pairwise_iff (fun hxy => hxy.symm),
    List.pairwise_flatMap]
  refine ⟨fun consumer _ => h.apart_claimableRows consumer, ?_⟩
  refine (List.nodup_dedup _).imp ?_
  intro consumer consumer' hne x hx y hy hconsumer
  obtain ⟨_, _, _, _, _, rfl⟩ := mem_claimableRows.mp hx
  obtain ⟨_, _, _, _, _, rfl⟩ := mem_claimableRows.mp hy
  exact absurd hconsumer hne

end Heads

/-! ## What a run keeps

Two facts that the agreement needs of a reachable state: a row in progress has
an owner and a deadline, and the events of an aggregate are numbered without
repetition. -/

/-- A row in progress has an owner, and a time at which it was claimed. -/
def Owned (deliveries : DeliveryKey → Option Delivery) : Prop :=
  ∀ key row, deliveries key = some row → row.status = .processing →
    row.claimedAt ≠ none ∧ row.claimedBy ≠ none

section Runs

variable {O : Type} {hashtext : String → Int} {s s' : State O} {a : Act O}
  {out : List (Event O)}

theorem Writes.owned {key : DeliveryKey} (h : Writes s s' out key)
    {row : Delivery} (hold : ∀ row, s.deliveries key = some row →
      row.status = .processing → row.claimedAt ≠ none ∧ row.claimedBy ≠ none)
    (hrow' : s'.deliveries key = some row)
    (hprocessing : row.status = .processing) :
    row.claimedAt ≠ none ∧ row.claimedBy ≠ none := by
  cases h with
  | kept hrow =>
      rw [hrow] at hrow'
      exact hold row hrow' hprocessing
  | claimed _ _ _ hrow =>
      rw [hrow] at hrow'
      cases hrow'
      exact ⟨Option.some_ne_none _, Option.some_ne_none _⟩
  | failed _ _ _ hrow =>
      rw [hrow] at hrow'
      cases hrow'
      exact absurd hprocessing (failedWith_status_ne _ _ _).2
  | created _ hrow | replayed _ _ hrow | released _ _ _ hrow
  | applied _ _ _ hrow =>
      rw [hrow] at hrow'
      cases hrow'
      cases hprocessing

theorem Moves.owned (h : Moves hashtext s a s' out) (hI : Locked s)
    (ho : Owned s.deliveries) : Owned s'.deliveries :=
  fun key _ => (h.writes hI key).owned (ho key)

theorem owned_of_reach {c : Conf (State O) (Event O)}
    (h : (protocol hashtext).Reach c) : Owned c.st.deliveries := by
  refine Machine.ReachWhen.invariant
    (I := fun c => Owned c.st.deliveries) ?_ ?_ h
  · intro key row hrow
    cases hrow
  · intro c a c' hc ih _ hnext
    obtain ⟨s, out, hmoves, rfl⟩ := moves_of_next hnext
    exact hmoves.owned (locked_of_reach hc.reach) ih

/-- What was emitted is numbered, and no number is above its counter's. -/
structure Counted (s : State O) : Prop where
  ids : (s.outbox.map OutboxEvent.id).Nodup
  bounded : ∀ ev ∈ s.history,
    ev.aggregateSequence ≤ s.lastSequence ev.aggregate
  sequences : ∀ ev ∈ s.history, ∀ ev' ∈ s.history,
    ev.aggregate = ev'.aggregate →
    ev.aggregateSequence = ev'.aggregateSequence → ev = ev'

/-- The ids of the outbox are those of what was emitted. -/
theorem map_id_history (s : State O) :
    s.history.map OutboxEvent.id = s.outbox.map OutboxEvent.id := by
  unfold State.history
  rw [List.map_map]
  rfl

theorem Moves.ids_nodup (h : Moves hashtext s a s' out)
    (hids : (s.outbox.map OutboxEvent.id).Nodup) :
    (s'.outbox.map OutboxEvent.id).Nodup := by
  cases h.history with
  | inl hsame =>
      rw [← map_id_history, hsame.1, map_id_history]
      exact hids
  | inr hemit =>
      obtain ⟨id, name, aggregate, hfresh, rfl⟩ := hemit
      simp only [List.map_append, List.map_cons, List.map_nil]
      refine List.nodup_append.mpr ⟨hids, List.nodup_singleton _, ?_⟩
      intro x hx y hy heq
      obtain ⟨ev, hev, rfl⟩ := List.mem_map.mp hx
      rw [List.mem_singleton] at hy
      exact hfresh ev hev (heq.trans hy)

theorem counted_of_reach {c : Conf (State O) (Event O)}
    (h : (protocol hashtext).Reach c) : Counted c.st := by
  refine Machine.ReachWhen.invariant (I := fun c => Counted c.st) ?_ ?_ h
  · exact
      { ids := List.nodup_nil
        bounded := fun _ hev => by cases hev
        sequences := fun _ hev => by cases hev }
  · intro c a c' _ ih _ hnext
    obtain ⟨s, out, hmoves, rfl⟩ := moves_of_next hnext
    exact
      { ids := hmoves.ids_nodup ih.ids
        bounded := hmoves.sent_bounded ih.bounded
        sequences := hmoves.sent_sequences ih.bounded ih.sequences }

theorem Counted.numbered (h : Counted s) : Numbered s.outbox where
  ids := h.ids
  sequences ev hev ev' hev' hagg hseq :=
    show ev.sent.id = ev'.sent.id from
      congrArg OutboxEvent.id (h.sequences ev.sent (mem_history hev)
        ev'.sent (mem_history hev') hagg hseq)

/-! ## Discovery and the claim agree

The statement, and its core: a delivery is found just when a claim of it, run
now, would take it. -/

/-- What discovery finds is what a claim takes, and two deliveries that it
finds are never of one consumer and one aggregate. -/
structure DiscoveryAgrees (outbox : List OutboxEvent)
    (deliveries : DeliveryKey → Option Delivery)
    (subscriptions : List EventSubscription) (nowMs : Nat) : Prop where
  same : ∀ d : ClaimableDelivery,
    d ∈ findClaimableDeliveries outbox deliveries subscriptions nowMs none ↔
      ∃ subscription ∈ subscriptions, d.consumer = subscription.consumer ∧
        d.eventName = subscription.eventName ∧
        claimDelivery outbox deliveries subscription d.eventId nowMs = .claimed
  heads : (findClaimableDeliveries outbox deliveries subscriptions nowMs
    none).Pairwise (Apart outbox)

theorem mem_found_iff_claimed {outbox : List OutboxEvent}
    {deliveries : DeliveryKey → Option Delivery}
    {subscriptions : List EventSubscription} {nowMs : Nat}
    (hnumbered : Numbered outbox) (howned : Owned deliveries)
    (d : ClaimableDelivery) :
    d ∈ findClaimableDeliveries outbox deliveries subscriptions nowMs none ↔
      ∃ subscription ∈ subscriptions, d.consumer = subscription.consumer ∧
        d.eventName = subscription.eventName ∧
        claimDelivery outbox deliveries subscription d.eventId nowMs =
          .claimed := by
  rw [mem_findClaimableDeliveries]
  constructor
  · intro ⟨event, hevent, row, hrow, hclaim, hd⟩
    obtain ⟨subscription, hsub, hconsumer, hname, hdue⟩ := hclaim.1
    have hid : d.eventId = event.id := congrArg ClaimableDelivery.eventId hd
    have hnamed : d.eventName = event.name :=
      congrArg ClaimableDelivery.eventName hd
    refine ⟨subscription, hsub, hconsumer, hnamed.trans hname, ?_⟩
    rw [claimDelivery_eq_claimed, hid, ← hconsumer]
    exact ⟨row, event, hrow, hnumbered.find?_eq hevent, hname,
      (due_iff_proceed (howned _ _ hrow)).mp hdue, hclaim.2⟩
  · intro ⟨subscription, hsub, hconsumer, hname, hclaimed⟩
    obtain ⟨row, event, hrow, hfind, hnamed, hproceed, hclear⟩ :=
      claimDelivery_eq_claimed.mp hclaimed
    have hid : event.id = d.eventId := by simpa using List.find?_some hfind
    rw [← hconsumer, ← hid] at hrow
    rw [← hconsumer] at hclear
    refine ⟨event, List.mem_of_find?_eq_some hfind, row, hrow, ⟨?_, hclear⟩, ?_⟩
    · exact ⟨subscription, hsub, hconsumer, hnamed,
        (due_iff_proceed (howned _ _ hrow)).mpr hproceed⟩
    · obtain ⟨consumer, eventId, eventName⟩ := d
      rw [ClaimableDelivery.mk.injEq]
      exact ⟨rfl, hid.symm, hname.trans hnamed.symm⟩

/-! ## The claim of the protocol

`claimDelivery` above runs in one go. Where nobody holds a lock, the claim
transaction of the protocol does the same, so what is proved of the one is
proved of the other. -/

/-- The claim transaction of one call, with nobody in between. -/
def claimRun (p : Nat) (o : ExecuteOptions) (nowMs : Nat) : List (Act O) :=
  [.start p o, .claimLock p nowMs, .claimAggregate p, .claimCheck p,
    .claimCommit p]

/-- Where nobody holds a lock, the claim transaction of the protocol goes
through just when `claimDelivery` takes the claim. -/
theorem exec_claimRun_isSome {p nowMs : Nat} {o : ExecuteOptions}
    {log : List (Event O)} (hidle : s.phase p = .idle)
    (hrow : s.rowLock o.key = none)
    (hadvisory : ∀ key, s.advisoryLock key = none) :
    ((protocol hashtext).exec ⟨s, log⟩ (claimRun p o nowMs)).isSome ↔
      claimDelivery s.outbox s.deliveries o.subscription o.eventId nowMs =
        .claimed := by
  have hkey : (⟨o.subscription.consumer, o.eventId⟩ : DeliveryKey) = o.key :=
    rfl
  have hlocked : (s.setPhase p (.starting o)).lockedDelivery o.key =
      match s.deliveries o.key,
          s.outbox.find? fun event => event.id = o.eventId with
      | some row, some event => some (row, event)
      | _, _ => none := rfl
  have hfree : ∀ (ph ph' : Phase O) (key : Int × Int),
      (((s.setPhase p ph).lockRow p o.key).setPhase p ph').advisoryLock key =
        none := fun _ _ => hadvisory
  simp only [claimRun, Machine.exec, Machine.next, protocol, step, hidle,
    Option.map_some, Option.bind_some, setPhase_phase, if_pos,
    setPhase_rowLock, hrow, hlocked, claimDelivery, hkey]
  cases hdelivery : s.deliveries o.key with
  | none => simp
  | some row =>
      cases hfind : s.outbox.find? fun event => event.id = o.eventId with
      | none => simp
      | some event =>
          by_cases hname : event.name = o.subscription.eventName
          · cases hdecision : claimDecision o.subscription row nowMs with
            | alreadyProcessed | deferred | incompleteOwnership =>
                simp [hname, hdecision]
            | proceed =>
                by_cases hblocked : HasEarlierUnprocessed s.outbox
                    s.deliveries o.subscription.consumer event
                · simp [hname, hdecision, hblocked, hfree]
                · simp [hname, hdecision, hblocked, hfree, hdelivery]
          · simp [hname]

/-- In every state that a run reaches, for every registry and every time. -/
theorem discovery_agrees {c : Conf (State O) (Event O)}
    (h : (protocol hashtext).Reach c)
    (subscriptions : List EventSubscription) (nowMs : Nat) :
    DiscoveryAgrees c.st.outbox c.st.deliveries subscriptions nowMs where
  same := mem_found_iff_claimed (counted_of_reach h).numbered
    (owned_of_reach h)
  heads := (counted_of_reach h).numbered.apart_found

end Runs

/-- Two events of one order and one of another, dispatched. -/
def twoOrders : List (Act Nat) :=
  [.emit 1 "orders.created" ⟨"order", "o1"⟩,
    .emit 2 "orders.created" ⟨"order", "o1"⟩,
    .emit 3 "orders.created" ⟨"order", "o2"⟩,
    .dispatchClaim 0 [orderCards] 100, .dispatchCommit 0 1000]

theorem discovery_agrees_twoOrders :
    ∃ c, (protocol textLength).exec (protocol textLength).start twoOrders =
        some c ∧
      findClaimableDeliveries c.st.outbox c.st.deliveries [orderCards] 1000
          none =
        [⟨orderCards.consumer, 1, orderCards.eventName⟩,
          ⟨orderCards.consumer, 3, orderCards.eventName⟩] ∧
      DiscoveryAgrees c.st.outbox c.st.deliveries [orderCards] 1000 := by
  obtain ⟨c, hexec, hfound⟩ : (protocol textLength).EndsIn
      (fun c => findClaimableDeliveries c.st.outbox c.st.deliveries
          [orderCards] 1000 none =
        [⟨orderCards.consumer, 1, orderCards.eventName⟩,
          ⟨orderCards.consumer, 3, orderCards.eventName⟩]) twoOrders := by
    decide
  exact ⟨c, hexec, hfound,
    discovery_agrees (Machine.reach_of_exec _ hexec) _ _⟩

end Shozee.Events
