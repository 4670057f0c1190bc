import Shozee.Events.ExactlyOnce

/-!
# Order within an aggregate

A delivery may run only when no earlier delivery of its consumer and aggregate
is unprocessed. The check looks at delivery rows, and a row exists once its
event has been dispatched. Dispatchers do not dispatch in the order of the
sequences: one that finds an event locked by another skips it, and a batch is
cut off by id. So a later event can be handled while an earlier one has no row
to be blocked by: `earlier_event_overtaken`.

Where every earlier committed event the consumer subscribes to does have its
row when the check passes (`PredecessorsDispatched`), deliveries reach
`processed` in the order of their sequences. The invariant is that what is
processed has its predecessors processed, and so has what is past the check.
-/

namespace Shozee.Events

open Shozee.Run

variable {O : Type} {hashtext : String → Int}

/-- Every dispatcher runs with the registry that says who subscribes to
what. -/
def OneRegistry (subscriptions : List EventSubscription) :
    Act O → Prop
  | .dispatchClaim _ registry _ => registry = subscriptions
  | _ => True

instance (subscriptions : List EventSubscription) :
    ∀ a : Act O, Decidable (OneRegistry subscriptions a)
  | .dispatchClaim _ registry _ =>
      inferInstanceAs (Decidable (registry = subscriptions))
  | .emit _ _ _ | .dispatchCommit _ _ | .dispatchAbort _ | .redispatch _
  | .start _ _ | .claimLock _ _ | .claimAggregate _ | .claimCheck _
  | .claimCommit _ | .execLock _ | .execAggregate _ | .execCheck _ _
  | .releaseCommit _ | .handle _ _ | .finalize _ _ | .commit _ _ | .fail _ _
  | .recordLock _ | .recordCommit _ _ | .crash _
  | .replayDeadDeliveries _ _ _ => .isTrue trivial

/-- The delivery whose order the call is about to check, in its delivery
transaction. -/
def Phase.ordering : Phase O → Option (ExecuteOptions × OutboxEvent)
  | .execOrdering o event => some (o, event)
  | _ => none

/-- When the check of the delivery transaction passes, the earlier events of
the aggregate that the consumer subscribes to have their delivery rows. -/
def PredecessorsDispatched (subscriptions : List EventSubscription)
    (s : State O) : Act O → Prop
  | .execCheck p _ => ∀ x ∈ (s.phase p).ordering,
      ¬ HasEarlierUnprocessed s.outbox s.deliveries
        x.1.subscription.consumer x.2 →
      ∀ ev ∈ s.outbox, ev.aggregate = x.2.aggregate →
        ev.aggregateSequence < x.2.aggregateSequence →
        Subscribes subscriptions x.1.subscription.consumer ev.name →
        (s.deliveries ⟨x.1.subscription.consumer, ev.id⟩).isSome
  | _ => True

instance (subscriptions : List EventSubscription) (s : State O) :
    ∀ a : Act O, Decidable (PredecessorsDispatched subscriptions s a)
  | .execCheck p _ => inferInstanceAs (Decidable
      (∀ x ∈ (s.phase p).ordering,
        ¬ HasEarlierUnprocessed s.outbox s.deliveries
          x.1.subscription.consumer x.2 →
        ∀ ev ∈ s.outbox, ev.aggregate = x.2.aggregate →
          ev.aggregateSequence < x.2.aggregateSequence →
          Subscribes subscriptions x.1.subscription.consumer ev.name →
          (s.deliveries ⟨x.1.subscription.consumer, ev.id⟩).isSome))
  | .emit _ _ _ | .dispatchClaim _ _ _ | .dispatchCommit _ _
  | .dispatchAbort _ | .redispatch _ | .start _ _ | .claimLock _ _
  | .claimAggregate _ | .claimCheck _ | .claimCommit _ | .execLock _
  | .execAggregate _ | .releaseCommit _ | .handle _ _ | .finalize _ _
  | .commit _ _ | .fail _ _ | .recordLock _ | .recordCommit _ _ | .crash _
  | .replayDeadDeliveries _ _ _ => .isTrue trivial

/-- No event is processed by a consumer while an earlier one of its aggregate
that the consumer subscribes to is not. -/
def PredecessorsProcessed (subscriptions : List EventSubscription)
    (s : State O) : Prop :=
  ∀ consumer, ∀ ev ∈ s.outbox, ∀ ev' ∈ s.outbox,
    ev.aggregate = ev'.aggregate →
    ev.aggregateSequence < ev'.aggregateSequence →
    Subscribes subscriptions consumer ev.name →
    Processed s ⟨consumer, ev'.id⟩ → Processed s ⟨consumer, ev.id⟩

/-- A consumer's effects for one aggregate come in the order of the
sequences. -/
def InSequence (older : List (Event O)) : Event O → Prop
  | .applied _ o event _ => ∀ p o' event' output',
      .applied p o' event' output' ∈ older →
      o'.subscription.consumer = o.subscription.consumer →
      event'.aggregate = event.aggregate →
      event'.aggregateSequence < event.aggregateSequence
  | _ => True

/-! ## The events sent so far

A dispatch mark says nothing about what was sent. Without it the outbox is a
history that only grows, and sequences are positions in it. -/

/-- An event as it was emitted. -/
def OutboxEvent.sent (ev : OutboxEvent) : OutboxEvent :=
  { ev with dispatchedAt := none }

/-- Everything emitted so far, in order. -/
def State.history (s : State O) : List OutboxEvent :=
  s.outbox.map OutboxEvent.sent

/-- The delivery a call is working on in its delivery transaction. -/
def Phase.executing : Phase O → Option (ExecuteOptions × OutboxEvent)
  | .execLocked o event | .execOrdering o event | .releasing o event _
  | .handling o event | .handled o event _ | .finalized o event _ _ =>
      some (o, event)
  | _ => none

/-- The delivery whose check has passed. -/
def Phase.cleared : Phase O → Option (ExecuteOptions × OutboxEvent)
  | .handling o event | .handled o event _ | .finalized o event _ _ =>
      some (o, event)
  | _ => none

/-- Rows, batches, calls and the log speak of events that were sent. -/
structure Sent (subscriptions : List EventSubscription)
    (c : Conf (State O) (Event O)) : Prop where
  ids : ∀ ev ∈ c.st.history, ∀ ev' ∈ c.st.history, ev.id = ev'.id → ev = ev'
  sequences : ∀ ev ∈ c.st.history, ∀ ev' ∈ c.st.history,
    ev.aggregate = ev'.aggregate →
    ev.aggregateSequence = ev'.aggregateSequence → ev = ev'
  bounded : ∀ ev ∈ c.st.history,
    ev.aggregateSequence ≤ c.st.lastSequence ev.aggregate
  batches : ∀ d b, c.st.batch d = some b →
    b.subscriptions = subscriptions ∧ ∀ ev ∈ b.claimed, ev.sent ∈ c.st.history
  rows : ∀ key row, c.st.deliveries key = some row →
    ∃ ev ∈ c.st.history, ev.id = key.eventId ∧
      Subscribes subscriptions key.consumer ev.name
  executing : ∀ p o event, (c.st.phase p).executing = some (o, event) →
    event.sent ∈ c.st.history ∧ event.id = o.eventId
  applied : ∀ p o event output, .applied p o event output ∈ c.log →
    event.sent ∈ c.st.history ∧ event.id = o.eventId

section Steps

variable {s s' : State O} {a : Act O} {out : List (Event O)}
  {subscriptions : List EventSubscription}

theorem mem_history {ev : OutboxEvent} (h : ev ∈ s.outbox) :
    ev.sent ∈ s.history :=
  List.mem_map_of_mem h

/-- Dispatch marks come and go; what was sent stays, and an emission adds to
it. -/
theorem Moves.history (h : Moves hashtext s a s' out) :
    (s'.history = s.history ∧ s'.lastSequence = s.lastSequence) ∨
      ∃ id name aggregate, (∀ ev ∈ s.outbox, ev.id ≠ id) ∧
        s' = { s with
          outbox := s.outbox ++ [s.emitted id name aggregate]
          lastSequence := Function.update s.lastSequence aggregate
            (s.lastSequence aggregate + 1) } := by
  cases h with
  | emit hfresh => exact Or.inr ⟨_, _, _, hfresh, rfl⟩
  | dispatchClaim hclaimed hbatch hrest =>
      have houtbox := congrArg State.outbox hrest
      have hlast := congrArg State.lastSequence hrest
      exact Or.inl ⟨congrArg (List.map OutboxEvent.sent) houtbox, hlast⟩
  | dispatchAbort hbatch hrest =>
      have houtbox := congrArg State.outbox hrest
      have hlast := congrArg State.lastSequence hrest
      exact Or.inl ⟨congrArg (List.map OutboxEvent.sent) houtbox, hlast⟩
  | dispatchCommit hb hdeliveries houtbox hbatch hrest =>
      have hlast := congrArg State.lastSequence hrest
      refine Or.inl ⟨?_, hlast⟩
      unfold State.history
      rw [houtbox, List.map_map]
      refine List.map_congr_left fun ev _ => ?_
      simp only [Function.comp_apply, markDispatched]
      split <;> rfl
  | redispatch =>
      refine Or.inl ⟨?_, rfl⟩
      unfold State.history
      rw [List.map_map]
      refine List.map_congr_left fun ev _ => ?_
      simp only [Function.comp_apply]
      split <;> rfl
  | _ => exact Or.inl ⟨rfl, rfl⟩

theorem Moves.history_mono (h : Moves hashtext s a s' out) {ev : OutboxEvent}
    (hev : ev ∈ s.history) : ev ∈ s'.history := by
  rcases h.history with ⟨hsame, -⟩ | ⟨id, name, aggregate, -, rfl⟩
  · rw [hsame]
    exact hev
  · simp only [State.history, List.map_append, List.mem_append]
    exact Or.inl hev

/-- What is sent after an emission was sent before, or is the new event, with
the next sequence of its aggregate. -/
theorem mem_history_emit {id : Nat} {name : String} {aggregate : Aggregate}
    {ev : OutboxEvent} {lastSequence : Aggregate → Nat}
    (h : ev ∈ ({ s with
      outbox := s.outbox ++ [s.emitted id name aggregate]
      lastSequence := lastSequence } : State O).history) :
    ev ∈ s.history ∨ ev = s.emitted id name aggregate := by
  simp only [State.history, List.map_append, List.mem_append,
    List.map_cons, List.map_nil, List.mem_singleton] at h
  exact h

theorem Moves.sent_ids (h : Moves hashtext s a s' out)
    (hids : ∀ ev ∈ s.history, ∀ ev' ∈ s.history, ev.id = ev'.id → ev = ev') :
    ∀ ev ∈ s'.history, ∀ ev' ∈ s'.history, ev.id = ev'.id → ev = ev' := by
  rcases h.history with ⟨hsame, -⟩ | ⟨id, name, aggregate, hfresh, rfl⟩
  · rw [hsame]
    exact hids
  · have hnew : ∀ {ev : OutboxEvent}, ev ∈ s.history → ev.id ≠ id := by
      intro ev hev
      obtain ⟨ev₀, hev₀, rfl⟩ := List.mem_map.mp hev
      exact hfresh ev₀ hev₀
    intro ev hev ev' hev' heq
    rcases mem_history_emit hev with hev | rfl <;>
      rcases mem_history_emit hev' with hev' | rfl
    · exact hids ev hev ev' hev' heq
    · exact absurd heq (hnew hev)
    · exact absurd heq.symm (hnew hev')
    · rfl

theorem Moves.sent_bounded (h : Moves hashtext s a s' out)
    (hbounded : ∀ ev ∈ s.history,
      ev.aggregateSequence ≤ s.lastSequence ev.aggregate) :
    ∀ ev ∈ s'.history,
      ev.aggregateSequence ≤ s'.lastSequence ev.aggregate := by
  rcases h.history with ⟨hsame, hlast⟩ | ⟨id, name, aggregate, hfresh, rfl⟩
  · rw [hsame, hlast]
    exact hbounded
  · intro ev hev
    show ev.aggregateSequence ≤ Function.update s.lastSequence aggregate
      (s.lastSequence aggregate + 1) ev.aggregate
    rw [Function.update_apply]
    rcases mem_history_emit hev with hev | rfl
    · have hle := hbounded ev hev
      split
      · next heq => rw [heq] at hle; omega
      · exact hle
    · rw [if_pos (show (s.emitted id name aggregate).aggregate = aggregate
        from rfl)]
      exact Nat.le_refl _

theorem Moves.sent_sequences (h : Moves hashtext s a s' out)
    (hbounded : ∀ ev ∈ s.history,
      ev.aggregateSequence ≤ s.lastSequence ev.aggregate)
    (hseq : ∀ ev ∈ s.history, ∀ ev' ∈ s.history,
      ev.aggregate = ev'.aggregate →
      ev.aggregateSequence = ev'.aggregateSequence → ev = ev') :
    ∀ ev ∈ s'.history, ∀ ev' ∈ s'.history, ev.aggregate = ev'.aggregate →
      ev.aggregateSequence = ev'.aggregateSequence → ev = ev' := by
  rcases h.history with ⟨hsame, -⟩ | ⟨id, name, aggregate, hfresh, rfl⟩
  · rw [hsame]
    exact hseq
  · have hlater : ∀ {ev : OutboxEvent}, ev ∈ s.history →
        ev.aggregate = aggregate →
        ev.aggregateSequence ≠ s.lastSequence aggregate + 1 := by
      intro ev hev hagg
      have hle := hbounded ev hev
      rw [hagg] at hle
      omega
    intro ev hev ev' hev' hagg heq
    rcases mem_history_emit hev with hev | rfl <;>
      rcases mem_history_emit hev' with hev' | rfl
    · exact hseq ev hev ev' hev' hagg heq
    · exact absurd heq (hlater hev hagg)
    · exact absurd heq.symm (hlater hev' hagg.symm)
    · rfl

theorem Moves.sent_batches (h : Moves hashtext s a s' out)
    (hok : OneRegistry subscriptions a)
    (hbatches : ∀ d b, s.batch d = some b → b.subscriptions = subscriptions ∧
      ∀ ev ∈ b.claimed, ev.sent ∈ s.history) :
    ∀ d b, s'.batch d = some b → b.subscriptions = subscriptions ∧
      ∀ ev ∈ b.claimed, ev.sent ∈ s'.history := by
  intro d b hb
  have hold : s.batch d = some b → b.subscriptions = subscriptions ∧
      ∀ ev ∈ b.claimed, ev.sent ∈ s'.history := by
    intro hb
    obtain ⟨hsub, hsent⟩ := hbatches d b hb
    exact ⟨hsub, fun ev hev => h.history_mono (hsent ev hev)⟩
  cases h with
  | @dispatchClaim d' registry batchSize _ claimed hclaimed hbatch hrest =>
      rw [hbatch, Function.update_apply] at hb
      split at hb
      · cases hb
        refine ⟨hok, fun ev hev => ?_⟩
        have houtbox := congrArg State.outbox hrest
        have hmem : ev ∈ s'.outbox := by
          rw [show s'.outbox = s.outbox from houtbox]
          exact hclaimed ev hev
        exact mem_history hmem
      · exact hold hb
  | dispatchCommit hb' hdeliveries houtbox hbatch =>
      rw [hbatch, Function.update_apply] at hb
      split at hb
      · cases hb
      · exact hold hb
  | dispatchAbort hbatch =>
      rw [hbatch, Function.update_apply] at hb
      split at hb
      · cases hb
      · exact hold hb
  | _ => exact hold hb

/-- A row is there because it was, or because the dispatcher has just fanned
its event out. -/
theorem Moves.sent_rows (h : Moves hashtext s a s' out) (hI : Locked s)
    (hbatches : ∀ d b, s.batch d = some b → b.subscriptions = subscriptions ∧
      ∀ ev ∈ b.claimed, ev.sent ∈ s.history)
    (hrows : ∀ key row, s.deliveries key = some row →
      ∃ ev ∈ s.history, ev.id = key.eventId ∧
        Subscribes subscriptions key.consumer ev.name) :
    ∀ key row, s'.deliveries key = some row →
      ∃ ev ∈ s'.history, ev.id = key.eventId ∧
        Subscribes subscriptions key.consumer ev.name := by
  intro key row hrow
  have hold : ∀ {row₀ : Delivery}, s.deliveries key = some row₀ →
      ∃ ev ∈ s'.history, ev.id = key.eventId ∧
        Subscribes subscriptions key.consumer ev.name := by
    intro row₀ hwas
    obtain ⟨ev, hev, hrest⟩ := hrows key row₀ hwas
    exact ⟨ev, h.history_mono hev, hrest⟩
  cases h.writes hI key with
  | kept hsame => exact hold (hsame ▸ hrow)
  | replayed hwas | claimed _ hwas | released _ hwas | applied _ hwas
  | failed _ hwas => exact hold hwas
  | created hnone hnew hout hbatch hsource =>
      obtain ⟨hsub, hsent⟩ := hbatches _ _ hbatch
      obtain ⟨ev, hev, hid, hsubs⟩ := hsource
      rw [hsub] at hsubs
      exact ⟨ev.sent, h.history_mono (hsent ev hev), hid, hsubs⟩

/-- A call works on the delivery it worked on, or on the one it has just
locked. -/
theorem Moves.executing_cases (h : Moves hashtext s a s' out) {q : Nat}
    {o : ExecuteOptions} {event : OutboxEvent}
    (hq : (s'.phase q).executing = some (o, event)) :
    (s.phase q).executing = some (o, event) ∨
      ∃ row, s.lockedDelivery o.key = some (row, event) := by
  have hmoved : ∀ {p : Nat} {ph : Phase O},
      (ph.executing = some (o, event) →
        (s.phase p).executing = some (o, event)) →
      (if q = p then ph else s.phase q).executing = some (o, event) →
      (s.phase q).executing = some (o, event) := by
    intro p ph hph hif
    split at hif
    · next heq => rw [heq]; exact hph hif
    · exact hif
  cases h with
  | emit | redispatch | replayed => exact Or.inl hq
  | dispatchClaim hclaimed hbatch hrest =>
      rw [congrArg State.phase hrest] at hq
      exact Or.inl hq
  | dispatchCommit hb hdeliveries houtbox hbatch hrest =>
      rw [congrArg State.phase hrest] at hq
      exact Or.inl hq
  | dispatchAbort hbatch hrest =>
      rw [congrArg State.phase hrest] at hq
      exact Or.inl hq
  | execLocked hph hfree hrow =>
      simp only [setPhase_phase, lockRow_phase] at hq
      split at hq
      · cases hq; exact Or.inr ⟨_, hrow⟩
      · exact Or.inl hq
  | start hph | claimLocked hph | claimOrdering hph | claiming hph
  | execOrdering hph | releasing hph | handling hph | handled hph
  | finalized hph | recording hph =>
      simp only [setPhase_phase, lockRow_phase, lockAggregate_phase] at hq
      refine Or.inl (hmoved ?_ hq)
      rw [hph]
      exact id
  | claimed | released | failed =>
      simp only [endTx_phase, setDelivery_phase] at hq
      exact Or.inl (hmoved (by rintro ⟨⟩) hq)
  | @applied p lost =>
      simp only [endTx_phase, setDelivery_phase] at hq
      refine Or.inl (hmoved ?_ hq)
      cases lost <;> rintro ⟨⟩
  | quit hph =>
      simp only [endTx_phase] at hq
      refine Or.inl (hmoved ?_ hq)
      rcases hph with ⟨outcome, rfl⟩ | ⟨o, error, rfl⟩ <;> rintro ⟨⟩

/-- A call is past the check because it was, or because its check has just
passed. -/
theorem Moves.cleared_cases (h : Moves hashtext s a s' out) {q : Nat}
    {o : ExecuteOptions} {event : OutboxEvent}
    (hq : (s'.phase q).cleared = some (o, event)) :
    (s.phase q).cleared = some (o, event) ∨
      (∃ nowMs, a = .execCheck q nowMs) ∧
        s.phase q = .execOrdering o event ∧
        ¬ HasEarlierUnprocessed s.outbox s.deliveries
          o.subscription.consumer event ∧
        s' = s.setPhase q (.handling o event) := by
  have hmoved : ∀ {p : Nat} {ph : Phase O},
      (ph.cleared = some (o, event) →
        (s.phase p).cleared = some (o, event)) →
      (if q = p then ph else s.phase q).cleared = some (o, event) →
      (s.phase q).cleared = some (o, event) := by
    intro p ph hph hif
    split at hif
    · next heq => rw [heq]; exact hph hif
    · exact hif
  cases h with
  | emit | redispatch | replayed => exact Or.inl hq
  | dispatchClaim hclaimed hbatch hrest =>
      rw [congrArg State.phase hrest] at hq
      exact Or.inl hq
  | dispatchCommit hb hdeliveries houtbox hbatch hrest =>
      rw [congrArg State.phase hrest] at hq
      exact Or.inl hq
  | dispatchAbort hbatch hrest =>
      rw [congrArg State.phase hrest] at hq
      exact Or.inl hq
  | @handling p nowMs o' event' hph hclear =>
      simp only [setPhase_phase] at hq
      split at hq
      · next heq =>
          cases hq
          subst heq
          exact Or.inr ⟨⟨nowMs, rfl⟩, hph, hclear, rfl⟩
      · exact Or.inl hq
  | start hph | claimLocked hph | claimOrdering hph | claiming hph
  | execLocked hph | execOrdering hph | releasing hph | handled hph
  | finalized hph | recording hph =>
      simp only [setPhase_phase, lockRow_phase, lockAggregate_phase] at hq
      refine Or.inl (hmoved ?_ hq)
      rw [hph]
      exact id
  | claimed | released | failed =>
      simp only [endTx_phase, setDelivery_phase] at hq
      exact Or.inl (hmoved (by rintro ⟨⟩) hq)
  | @applied p lost =>
      simp only [endTx_phase, setDelivery_phase] at hq
      refine Or.inl (hmoved ?_ hq)
      cases lost <;> rintro ⟨⟩
  | quit hph =>
      simp only [endTx_phase] at hq
      refine Or.inl (hmoved ?_ hq)
      rcases hph with ⟨outcome, rfl⟩ | ⟨o, error, rfl⟩ <;> rintro ⟨⟩

/-- Effects are committed by a call that is past its check. -/
theorem Moves.applied_of_mem (h : Moves hashtext s a s' out) {p : Nat}
    {o : ExecuteOptions} {event : OutboxEvent} {output : O}
    (hmem : .applied p o event output ∈ out) :
    (s.phase p).cleared = some (o, event) ∧
      (s.phase p).executing = some (o, event) := by
  cases h with
  | applied hph =>
      cases List.mem_singleton.mp hmem
      rw [hph]
      exact ⟨rfl, rfl⟩
  | dispatchCommit | claimed | released | failed | replayed =>
      cases List.mem_singleton.mp hmem
  | _ => cases hmem

theorem Sent.step {c : Conf (State O) (Event O)}
    (hS : Sent subscriptions c) (hI : Locked c.st)
    (hok : OneRegistry subscriptions a) (h : Moves hashtext c.st a s' out) :
    Sent subscriptions ⟨s', out ++ c.log⟩ where
  ids := h.sent_ids hS.ids
  sequences := h.sent_sequences hS.bounded hS.sequences
  bounded := h.sent_bounded hS.bounded
  batches := h.sent_batches hok hS.batches
  rows := h.sent_rows hI hS.batches hS.rows
  executing := by
    intro q o event hq
    rcases h.executing_cases hq with hwas | ⟨row, hrow⟩
    · obtain ⟨hmem, hid⟩ := hS.executing q o event hwas
      exact ⟨h.history_mono hmem, hid⟩
    · obtain ⟨-, hmem, hid⟩ := lockedDelivery_eq_some hrow
      exact ⟨h.history_mono (mem_history hmem), hid⟩
  applied := by
    intro p o event output hmem
    rcases List.mem_append.mp hmem with hnew | hold
    · obtain ⟨hmem, hid⟩ :=
        hS.executing p o event (h.applied_of_mem hnew).2
      exact ⟨h.history_mono hmem, hid⟩
    · obtain ⟨hmem, hid⟩ := hS.applied p o event output hold
      exact ⟨h.history_mono hmem, hid⟩

theorem sent_of_reachWhen {c : Conf (State O) (Event O)}
    (h : (protocol hashtext).ReachWhen
      (fun _ a => OneRegistry subscriptions a) c) : Sent subscriptions c := by
  refine h.invariant (I := Sent subscriptions) ?_ ?_
  · exact
      { ids := fun _ hev => by cases hev
        sequences := fun _ hev => by cases hev
        bounded := fun _ hev => by cases hev
        batches := fun _ _ hb => by cases hb
        rows := fun _ _ hrow => by cases hrow
        executing := fun _ _ _ hq => by cases hq
        applied := fun _ _ _ _ hmem => by cases hmem }
  · intro c a c' hc ih hok hnext
    obtain ⟨s, out, hmoves, rfl⟩ := moves_of_next hnext
    exact ih.step (locked_of_reach hc.reach) hok hmoves

/-! ## Predecessors first

A check that passes finds no earlier row unprocessed. If the earlier events all
have their rows by then, they have all been processed, and stay so. -/

/-- The subscribed events of the aggregate before `event` are processed. -/
def Preceded (subscriptions : List EventSubscription) (s : State O)
    (consumer : String) (event : OutboxEvent) : Prop :=
  ∀ ev ∈ s.history, ev.aggregate = event.aggregate →
    ev.aggregateSequence < event.aggregateSequence →
    Subscribes subscriptions consumer ev.name →
    Processed s ⟨consumer, ev.id⟩

/-- What is processed is preceded, and so is what is past its check. -/
structure Ordered (subscriptions : List EventSubscription) (s : State O) :
    Prop where
  processed : ∀ consumer, ∀ ev ∈ s.history, Processed s ⟨consumer, ev.id⟩ →
    Preceded subscriptions s consumer ev
  cleared : ∀ p o event, (s.phase p).cleared = some (o, event) →
    Preceded subscriptions s o.subscription.consumer event

/-- What was preceded stays so: an event that is emitted later has a later
sequence. -/
theorem Preceded.step {consumer : String} {event : OutboxEvent}
    (h : Moves hashtext s a s' out) (hI : Locked s)
    (hpre : Preceded subscriptions s consumer event)
    (hbound : event.aggregateSequence ≤ s.lastSequence event.aggregate) :
    Preceded subscriptions s' consumer event := by
  intro ev hev hagg hlt hsubs
  have hkept : Processed s ⟨consumer, ev.id⟩ →
      Processed s' ⟨consumer, ev.id⟩ := by
    rintro ⟨row, hrow, hdone⟩
    exact ⟨row, (h.writes hI _).processed_kept hrow hdone, hdone⟩
  rcases h.history with ⟨hsame, -⟩ | ⟨id, name, aggregate, hfresh, rfl⟩
  · rw [hsame] at hev
    exact hkept (hpre ev hev hagg hlt hsubs)
  · rcases mem_history_emit hev with hev | rfl
    · exact hkept (hpre ev hev hagg hlt hsubs)
    · have hagg : aggregate = event.aggregate := hagg
      have hlt : s.lastSequence aggregate + 1 < event.aggregateSequence := hlt
      rw [hagg] at hlt
      omega

/-- A check that passes where the predecessors have their rows finds them
processed. -/
theorem preceded_of_check {p : Nat} {nowMs : Nat} {o : ExecuteOptions}
    {event : OutboxEvent} (hph : s.phase p = .execOrdering o event)
    (hclear : ¬ HasEarlierUnprocessed s.outbox s.deliveries
      o.subscription.consumer event)
    (hok : PredecessorsDispatched subscriptions s (.execCheck p nowMs)) :
    Preceded subscriptions s o.subscription.consumer event := by
  intro ev hev hagg hlt hsubs
  obtain ⟨ev₀, hev₀, rfl⟩ := List.mem_map.mp hev
  have hsome := hok (o, event) (by rw [hph]; rfl) hclear ev₀ hev₀ hagg hlt
    hsubs
  obtain ⟨row, hrow⟩ := Option.isSome_iff_exists.mp hsome
  refine ⟨row, hrow, ?_⟩
  by_contra hstatus
  exact hclear ⟨ev₀, hev₀, hagg, hlt, row, hrow, hstatus⟩

/-- A delivery that becomes processed was past its check. -/
theorem Moves.cleared_of_processed (h : Moves hashtext s a s' out)
    (hI : Locked s) {key : DeliveryKey} (hwas : ¬ Processed s key)
    (hnow : Processed s' key) :
    ∃ p o event, (s.phase p).cleared = some (o, event) ∧
      (s.phase p).executing = some (o, event) ∧ o.key = key := by
  obtain ⟨p, o, event, output, hmem, hkey⟩ :=
    (h.writes hI key).processed_iff.mpr ⟨hwas, hnow⟩
  obtain ⟨hcleared, hexec⟩ := h.applied_of_mem hmem
  exact ⟨p, o, event, hcleared, hexec, hkey⟩

theorem Ordered.step {c : Conf (State O) (Event O)}
    (hO : Ordered subscriptions c.st) (hS : Sent subscriptions c)
    (hI : Locked c.st) (hok : PredecessorsDispatched subscriptions c.st a)
    (h : Moves hashtext c.st a s' out) : Ordered subscriptions s' where
  processed := by
    intro consumer ev hev hdone
    by_cases hwas : Processed c.st ⟨consumer, ev.id⟩
    · have hpre := hO.processed consumer
      obtain ⟨row, hrow, -⟩ := id hwas
      obtain ⟨ev', hev', hid, -⟩ := hS.rows _ row hrow
      obtain rfl : ev' = ev :=
        h.sent_ids hS.ids ev' (h.history_mono hev') ev hev hid
      exact (hpre ev' hev' hwas).step h hI (hS.bounded ev' hev')
    · obtain ⟨p, o, event, hcleared, hexec, hkey⟩ :=
        h.cleared_of_processed hI hwas hdone
      obtain ⟨hsent, hid⟩ := hS.executing p o event hexec
      have hkey' : o.subscription.consumer = consumer ∧ o.eventId = ev.id :=
        DeliveryKey.mk.inj hkey
      obtain rfl : event.sent = ev :=
        h.sent_ids hS.ids _ (h.history_mono hsent) ev hev
          (hid.trans hkey'.2)
      have hpre := hO.cleared p o event hcleared
      rw [hkey'.1] at hpre
      exact hpre.step h hI (hS.bounded _ hsent)
  cleared := by
    intro p o event hcleared
    rcases h.cleared_cases hcleared with
      hwas | ⟨⟨nowMs, rfl⟩, hph, hclear, rfl⟩
    · have hexec : (c.st.phase p).executing = some (o, event) := by
        cases hph : c.st.phase p <;> rw [hph] at hwas <;> first
          | exact hwas
          | cases hwas
      have hle : event.aggregateSequence ≤
          c.st.lastSequence event.aggregate :=
        hS.bounded event.sent (hS.executing p o event hexec).1
      exact (hO.cleared p o event hwas).step h hI hle
    · have hpre := preceded_of_check hph hclear hok
      exact hpre

/-- The runs in which a passing check has all the rows before it that it
needs. -/
def Dispatched (subscriptions : List EventSubscription)
    (c : Conf (State O) (Event O)) (a : Act O) : Prop :=
  OneRegistry subscriptions a ∧ PredecessorsDispatched subscriptions c.st a

instance (subscriptions : List EventSubscription)
    (c : Conf (State O) (Event O)) (a : Act O) :
    Decidable (Dispatched subscriptions c a) :=
  inferInstanceAs (Decidable (_ ∧ _))

theorem sent_of_dispatched {c : Conf (State O) (Event O)}
    (h : (protocol hashtext).ReachWhen (Dispatched subscriptions) c) :
    Sent subscriptions c :=
  sent_of_reachWhen (h.mono fun _ _ hok => hok.1)

theorem ordered_of_reachWhen {c : Conf (State O) (Event O)}
    (h : (protocol hashtext).ReachWhen (Dispatched subscriptions) c) :
    Ordered subscriptions c.st := by
  refine h.invariant (I := fun c => Ordered subscriptions c.st) ?_ ?_
  · exact
      { processed := fun _ _ hev => by cases hev
        cleared := fun _ _ _ hq => by cases hq }
  · intro c a c' hc ih hok hnext
    obtain ⟨s, out, hmoves, rfl⟩ := moves_of_next hnext
    exact ih.step (sent_of_dispatched hc) (locked_of_reach hc.reach) hok.2
      hmoves

/-- Effects that are committed now come after the ones committed before. -/
theorem Moves.inSequence {c : Conf (State O) (Event O)}
    (h : Moves hashtext c.st a s' out) (hI : Locked c.st) (hR : Recorded c)
    (hS : Sent subscriptions c) (hO : Ordered subscriptions c.st) :
    ∀ e ∈ out, InSequence c.log e := by
  intro e he
  cases e with
  | applied p' o' ev' output' =>
      intro p o ev output hmem hconsumer hagg
      obtain ⟨hev, hid⟩ := hS.applied p o ev output hmem
      obtain ⟨-, hexec⟩ := h.applied_of_mem he
      obtain ⟨hev', hid'⟩ := hS.executing p' o' ev' hexec
      have hdone : Processed c.st o.key :=
        (hR.processed_iff o.key).mpr ⟨p, o, ev, output, hmem, rfl⟩
      -- The row being finished is there, so its event is subscribed to.
      obtain ⟨row, hrow, howned⟩ :=
        (h.writes hI o'.key).owned_of_report he rfl
      have hrun : ¬ Processed c.st o'.key := by
        refine not_processed_of_some hrow ?_
        rw [howned.1]
        rintro ⟨⟩
      by_contra hle
      rcases Nat.lt_or_eq_of_le (Nat.le_of_not_lt hle) with hlt | heq
      · obtain ⟨ev₀, hev₀, hid₀, hsubs⟩ := hS.rows o'.key row hrow
        obtain rfl : ev₀ = ev'.sent :=
          hS.ids ev₀ hev₀ ev'.sent hev' (hid₀.trans hid'.symm)
        have hkey : o.key = ⟨o'.subscription.consumer, ev.sent.id⟩ := by
          rw [← hconsumer, show ev.sent.id = o.eventId from hid]
          rfl
        rw [hkey] at hdone
        have hearlier := hO.processed o'.subscription.consumer ev.sent hev
          hdone ev'.sent hev' hagg.symm hlt hsubs
        rw [show ev'.sent.id = o'.eventId from hid'] at hearlier
        exact hrun hearlier
      · have hsame : ev'.sent = ev.sent :=
          hS.sequences ev'.sent hev' ev.sent hev hagg.symm heq
        have hkey : o'.key = o.key := by
          have hids := congrArg OutboxEvent.id hsame
          rw [show ev'.sent.id = o'.eventId from hid',
            show ev.sent.id = o.eventId from hid] at hids
          unfold ExecuteOptions.key
          rw [hconsumer, hids]
        rw [hkey] at hrun
        exact hrun hdone
  | _ => trivial

end Steps

/-- Where the rows a check depends on are there when it passes, a consumer
processes the events of an aggregate it subscribes to in the order of their
sequences, leaving none behind. -/
theorem aggregate_inOrder_of_dispatched
    {subscriptions : List EventSubscription} {c : Conf (State O) (Event O)}
    (h : (protocol hashtext).ReachWhen (Dispatched subscriptions) c) :
    PredecessorsProcessed subscriptions c.st ∧ Told InSequence c.log := by
  constructor
  · intro consumer ev hev ev' hev' hagg hlt hsubs hdone
    exact (ordered_of_reachWhen h).processed consumer ev'.sent
      (mem_history hev') hdone ev.sent (mem_history hev) hagg hlt hsubs
  · refine h.invariant (I := fun c => Told InSequence c.log) .nil ?_
    intro c a c' hc ih _ hnext
    obtain ⟨s, out, hmoves, rfl⟩ := moves_of_next hnext
    exact ih.append hmoves.out_length_le
      (hmoves.inSequence (locked_of_reach hc.reach)
        (recorded_of_reach hc.reach) (sent_of_dispatched hc)
        (ordered_of_reachWhen hc))

/-- `executeDelivery` without incident, by one worker. -/
def deliver (p : Nat) (o : ExecuteOptions) (nowMs : Nat) : List (Act Nat) :=
  [.start p o, .claimLock p nowMs, .claimAggregate p, .claimCheck p,
    .claimCommit p, .execLock p, .execAggregate p, .execCheck p nowMs,
    .handle p 0, .finalize p nowMs, .commit p none]

/-- Two events of one order, dispatched and delivered one after the other. -/
def inTurn : List (Act Nat) :=
  [.emit 1 "orders.created" ⟨"order", "o1"⟩,
    .emit 2 "orders.created" ⟨"order", "o1"⟩,
    .dispatchClaim 0 [orderCards] 100, .dispatchCommit 0 1000] ++
  deliver 1 ⟨orderCards, 1, "w1"⟩ 1000 ++ deliver 2 ⟨orderCards, 2, "w2"⟩ 1000

theorem aggregate_inOrder_of_dispatched_inTurn :
    ∃ c, (protocol textLength).exec (protocol textLength).start inTurn =
        some c ∧
      Processed c.st ⟨"chat.order-card-updater", 2⟩ ∧
      PredecessorsProcessed [orderCards] c.st ∧ Told InSequence c.log := by
  obtain ⟨c, hc, hdone⟩ : ∃ c, (protocol textLength).exec
      (protocol textLength).start inTurn = some c ∧
        ∃ row, c.st.deliveries ⟨"chat.order-card-updater", 2⟩ = some row ∧
          row.status = .processed :=
    ⟨_, rfl, _, rfl, rfl⟩
  exact ⟨c, hc, hdone, aggregate_inOrder_of_dispatched
    (Machine.ReachWhen.start.of_exec _ (by decide) hc)⟩

/-- One dispatcher has locked the first event when the next is emitted; the
other skips it, dispatches the second, and its delivery is executed before
the first one's row is there. -/
def skipLocked : List (Act Nat) :=
  [.emit 1 "orders.created" ⟨"order", "o1"⟩, .dispatchClaim 0 [orderCards] 100,
    .emit 2 "orders.created" ⟨"order", "o1"⟩, .dispatchClaim 1 [orderCards] 100,
    .dispatchCommit 1 1000] ++ deliver 2 ⟨orderCards, 2, "w2"⟩ 1000

/-- The consumer has processed the second event of the order, and not the
first. -/
theorem earlier_event_overtaken :
    ¬ ∀ c : Conf (State Nat) (Event Nat),
      (protocol textLength).ReachWhen
        (fun _ a => OneRegistry [orderCards] a) c →
      PredecessorsProcessed [orderCards] c.st := by
  intro hall
  obtain ⟨c, hc, houtbox, hnone, hdone⟩ : ∃ c, (protocol textLength).exec
      (protocol textLength).start skipLocked = some c ∧
        c.st.outbox = [⟨1, "orders.created", ⟨"order", "o1"⟩, 1, none⟩,
          ⟨2, "orders.created", ⟨"order", "o1"⟩, 2, some 1000⟩] ∧
        c.st.deliveries ⟨"chat.order-card-updater", 1⟩ = none ∧
        ∃ row, c.st.deliveries ⟨"chat.order-card-updater", 2⟩ = some row ∧
          row.status = .processed :=
    ⟨_, rfl, rfl, rfl, _, rfl, rfl⟩
  have hpre := hall c (Machine.ReachWhen.start.of_exec _ (by decide) hc)
    "chat.order-card-updater" ⟨1, "orders.created", ⟨"order", "o1"⟩, 1, none⟩
    (by rw [houtbox]; exact List.mem_cons_self)
    ⟨2, "orders.created", ⟨"order", "o1"⟩, 2, some 1000⟩
    (by rw [houtbox]; exact List.mem_cons_of_mem _ List.mem_cons_self)
    rfl (by decide) (by decide) hdone
  obtain ⟨row, hrow, -⟩ := hpre
  rw [hnone] at hrow
  cases hrow

end Shozee.Events
