import Shozee.Events.Protocol

/-!
# Effects exactly once

What keeps the three transactions of `executeDelivery` from treading on one
another is the row lock together with the claim: a call that holds the lock of
a row knows what it found there (`Locked`), so whatever any step does to a
delivery row is one of seven things, `Writes`. All but the claim are the
owner's, and the owner is the worker that claimed last.

From that the effects of a handler are committed with the move of the row to
`processed`, by the worker that holds the last claim, and never again, since
nothing writes a processed row.
-/

namespace Shozee.Events

open Shozee.Run

variable {O : Type} {hashtext : String → Int}

/-! ## What a lock holder knows

A call that has locked a row has found it in some state, and nobody else
changes it until the lock is given up. This is what later steps of the call
rest on. -/

/-- What a call knows about the row it has locked: it can be claimed, or it is
the call's own and being processed. -/
def PhaseRow (s : State O) : Phase O → Prop
  | .claimLocked o _ _ | .claimOrdering o _ _ | .claiming o _ _ =>
      ∃ row, s.deliveries o.key = some row ∧
        (row.status = .pending ∨ row.status = .processing)
  | .execLocked o _ | .execOrdering o _ | .releasing o _ _ | .handling o _
  | .handled o _ _ | .finalized o _ _ _ | .recording o _ =>
      ∃ row, s.deliveries o.key = some row ∧ OwnedProcessing o.claimedBy row
  | _ => True

/-- A worker that is at a row has it locked, and knows what is in it. -/
structure Locked (s : State O) : Prop where
  holder : ∀ p key, (s.phase p).rowHeld = some key → s.rowLock key = some p
  rows : ∀ p, PhaseRow s (s.phase p)

/-- Nobody else has locked the row. -/
theorem Locked.holder_unique {s : State O} (hI : Locked s) {p q : Nat}
    {key : DeliveryKey} (hp : (s.phase p).rowHeld = some key)
    (hq : (s.phase q).rowHeld = some key) : q = p := by
  have hlock := hI.holder p key hp
  rw [hI.holder q key hq] at hlock
  exact Option.some.inj hlock

/-- A call's knowledge is about the row it holds. -/
theorem PhaseRow.mono {s s' : State O} {ph : Phase O} (h : PhaseRow s ph)
    (hkept : ∀ key row, ph.rowHeld = some key → s.deliveries key = some row →
      row.status ≠ .dead → s'.deliveries key = some row) :
    PhaseRow s' ph := by
  cases ph with
  | claimLocked o | claimOrdering o | claiming o =>
      obtain ⟨row, hrow, hstatus⟩ := h
      refine ⟨row, hkept o.key row rfl hrow ?_, hstatus⟩
      intro hdead
      simp only [hdead, reduceCtorEq, or_self] at hstatus
  | execLocked o | execOrdering o | releasing o | handling o | handled o
  | finalized o | recording o =>
      obtain ⟨row, hrow, howned⟩ := h
      refine ⟨row, hkept o.key row rfl hrow ?_, howned⟩
      rw [howned.1]
      rintro ⟨⟩
  | idle | starting | claimed | failing | ended => trivial

theorem lockedDelivery_eq_some {s : State O} {key : DeliveryKey}
    {row : Delivery} {event : OutboxEvent}
    (h : s.lockedDelivery key = some (row, event)) :
    s.deliveries key = some row ∧ event ∈ s.outbox ∧
      event.id = key.eventId := by
  unfold State.lockedDelivery at h
  split at h
  · next hrow hevent =>
      cases h
      refine ⟨hrow, List.mem_of_find?_eq_some hevent, ?_⟩
      simpa only [decide_eq_true_eq] using List.find?_some hevent
  · cases h

section Steps

variable {s s' : State O} {a : Act O} {out : List (Event O)}

theorem afterCommit_rowHeld (o : ExecuteOptions) (lost : Option CoreError) :
    (afterCommit o lost : Phase O).rowHeld = none := by
  cases lost <;> rfl

/-- The row a call holds stays as it is while the call does not move: writers
hold the row they write, the dispatcher skips rows that exist, and a replay
wants them dead. -/
theorem Moves.heldRow_kept (h : Moves hashtext s a s' out) (hI : Locked s)
    {q : Nat} {key : DeliveryKey} {row : Delivery}
    (hheld : (s.phase q).rowHeld = some key)
    (hq : s'.phase q = s.phase q) (hrow : s.deliveries key = some row)
    (hdead : row.status ≠ .dead) : s'.deliveries key = some row := by
  have hwrite : ∀ {p : Nat} {key' : DeliveryKey} {new : Delivery}
      {ph : Phase O}, (s.phase p).rowHeld = some key' → ph.rowHeld = none →
      (if q = p then ph else s.phase q) = s.phase q →
      (if key = key' then some new else s.deliveries key) = some row := by
    intro p key' new ph hp hph hmoved
    rw [if_neg]
    · exact hrow
    · rintro rfl
      obtain rfl := hI.holder_unique hp hheld
      rw [if_pos rfl] at hmoved
      rw [← hmoved, hph] at hheld
      cases hheld
  cases h with
  | dispatchClaim hclaimed hbatch hrest =>
      rw [congrArg State.deliveries hrest]
      exact hrow
  | dispatchCommit hb hdeliveries =>
      rw [hdeliveries]
      exact fanOut_of_some hrow
  | dispatchAbort hbatch hrest =>
      rw [congrArg State.deliveries hrest]
      exact hrow
  | claimed hph =>
      simp only [endTx_phase, setDelivery_phase] at hq
      simp only [endTx_deliveries, setDelivery_deliveries]
      exact hwrite (by rw [hph]; rfl) rfl hq
  | released hph =>
      simp only [endTx_phase, setDelivery_phase] at hq
      simp only [endTx_deliveries, setDelivery_deliveries]
      exact hwrite (by rw [hph]; rfl) rfl hq
  | applied hph =>
      simp only [endTx_phase, setDelivery_phase] at hq
      simp only [endTx_deliveries, setDelivery_deliveries]
      exact hwrite (by rw [hph]; rfl) (afterCommit_rowHeld _ _) hq
  | failed hph =>
      simp only [endTx_phase, setDelivery_phase] at hq
      simp only [endTx_deliveries, setDelivery_deliveries]
      exact hwrite (by rw [hph]; rfl) rfl hq
  | replayed =>
      show (s.deliveries key).map _ = some row
      rw [hrow, Option.map_some, if_neg fun hif => hdead hif.2.1]
  | _ => exact hrow

theorem Moves.lock_holder (h : Moves hashtext s a s' out) (hI : Locked s) :
    ∀ q key, (s'.phase q).rowHeld = some key → s'.rowLock key = some q := by
  intro q key hq
  -- A call that has just locked a row found it free.
  have hlock : ∀ {p : Nat} {key' : DeliveryKey} {ph : Phase O},
      s.rowLock key' = none → ph.rowHeld = some key' →
      (if q = p then ph else s.phase q).rowHeld = some key →
      (if key = key' then some p else s.rowLock key) = some q := by
    intro p key' ph hfree hph hheld
    split at hheld
    · next heq =>
        rw [hph] at hheld
        cases hheld
        rw [if_pos rfl, heq]
    · have hkey := hI.holder q key hheld
      rw [if_neg]
      · exact hkey
      · rintro rfl
        rw [hfree] at hkey
        cases hkey
  -- A call that goes on holds what it held.
  have hkept : ∀ {p : Nat} {ph : Phase O},
      (s.phase p).rowHeld = ph.rowHeld →
      (if q = p then ph else s.phase q).rowHeld = some key →
      s.rowLock key = some q := by
    intro p ph hph hheld
    split at hheld
    · next heq =>
        subst heq
        exact hI.holder q key (hph ▸ hheld)
    · exact hI.holder q key hheld
  -- A call that is done frees its own lock only.
  have hfree : ∀ {p : Nat} {ph : Phase O} {t : State O},
      t.phase = s.phase → t.rowLock = s.rowLock → ph.rowHeld = none →
      (if q = p then ph else s.phase q).rowHeld = some key →
      (t.endTx hashtext p ph).rowLock key = some q := by
    intro p ph t hphase hrowLock hph hheld
    split at hheld
    · rw [hph] at hheld; cases hheld
    · next hne =>
        rw [endTx_rowLock_of_ne, hrowLock]
        · exact hI.holder q key hheld
        · rw [hphase]
          exact fun hp => hne (hI.holder_unique hp hheld)
  cases h with
  | emit | redispatch | replayed => exact hI.holder q key hq
  | dispatchClaim hclaimed hbatch hrest =>
      rw [congrArg State.rowLock hrest]
      rw [congrArg State.phase hrest] at hq
      exact hI.holder q key hq
  | dispatchCommit hb hdeliveries houtbox hbatch hrest =>
      rw [congrArg State.rowLock hrest]
      rw [congrArg State.phase hrest] at hq
      exact hI.holder q key hq
  | dispatchAbort hbatch hrest =>
      rw [congrArg State.rowLock hrest]
      rw [congrArg State.phase hrest] at hq
      exact hI.holder q key hq
  | claimLocked hph hfree | execLocked hph hfree | recording hph hfree =>
      simp only [setPhase_phase, lockRow_phase, setPhase_rowLock,
        lockRow_rowLock] at hq ⊢
      exact hlock hfree rfl hq
  | start hph | claimOrdering hph | claiming hph | execOrdering hph
  | releasing hph | handling hph | handled hph | finalized hph =>
      simp only [setPhase_phase, lockAggregate_phase] at hq
      exact hkept (by rw [hph]; rfl) hq
  | claimed | released | failed =>
      simp only [endTx_phase, setDelivery_phase] at hq
      exact hfree rfl rfl rfl hq
  | applied =>
      simp only [endTx_phase, setDelivery_phase] at hq
      exact hfree rfl rfl (afterCommit_rowHeld _ _) hq
  | quit hph =>
      simp only [endTx_phase] at hq
      refine hfree rfl rfl ?_ hq
      rcases hph with ⟨outcome, rfl⟩ | ⟨o, error, rfl⟩ <;> rfl

/-- A call that moves knows its row from what it found or from what it knew. -/
theorem Moves.phaseRow (h : Moves hashtext s a s' out) (hI : Locked s) :
    ∀ q, PhaseRow s' (s'.phase q) := by
  intro q
  by_cases hq : s'.phase q = s.phase q
  · rw [hq]
    exact (hI.rows q).mono fun key row hheld hrow hdead =>
      h.heldRow_kept hI hheld hq hrow hdead
  · have hmover : ∀ {p : Nat} {ph : Phase O}, PhaseRow s' ph →
        (if q = p then ph else s.phase q) ≠ s.phase q →
        PhaseRow s' (if q = p then ph else s.phase q) := by
      intro p ph hph hne
      split
      · exact hph
      · next hqp => rw [if_neg hqp] at hne; exact absurd rfl hne
    cases h with
    | emit | redispatch | replayed => exact absurd rfl hq
    | dispatchClaim hclaimed hbatch hrest =>
        rw [congrArg State.phase hrest] at hq
        exact absurd rfl hq
    | dispatchCommit hb hdeliveries houtbox hbatch hrest =>
        rw [congrArg State.phase hrest] at hq
        exact absurd rfl hq
    | dispatchAbort hbatch hrest =>
        rw [congrArg State.phase hrest] at hq
        exact absurd rfl hq
    | start =>
        simp only [setPhase_phase] at hq ⊢
        exact hmover trivial hq
    | claimLocked hph hfree hrow hname hproceed =>
        simp only [setPhase_phase, lockRow_phase] at hq ⊢
        exact hmover ⟨_, (lockedDelivery_eq_some hrow).1,
          claimDecision_proceed hproceed⟩ hq
    | execLocked hph hfree hrow hname howned =>
        simp only [setPhase_phase, lockRow_phase] at hq ⊢
        exact hmover ⟨_, (lockedDelivery_eq_some hrow).1, howned⟩ hq
    | recording hph hfree hrow howned =>
        simp only [setPhase_phase, lockRow_phase] at hq ⊢
        exact hmover ⟨_, hrow, howned⟩ hq
    | @claimOrdering p o event nowMs hph | @claiming p o event nowMs hph =>
        simp only [setPhase_phase, lockAggregate_phase] at hq ⊢
        have hknown := hI.rows p
        rw [hph] at hknown
        exact hmover hknown hq
    | @execOrdering p o event hph | @releasing p nowMs o event hph
    | @handling p nowMs o event hph | @handled p output o event hph
    | @finalized p nowMs o event output hph =>
        simp only [setPhase_phase, lockAggregate_phase] at hq ⊢
        have hknown := hI.rows p
        rw [hph] at hknown
        exact hmover hknown hq
    | claimed | released | failed =>
        simp only [endTx_phase, setDelivery_phase] at hq ⊢
        exact hmover trivial hq
    | @applied p lost o =>
        simp only [endTx_phase, setDelivery_phase] at hq ⊢
        refine hmover ?_ hq
        cases lost <;> trivial
    | quit hph =>
        simp only [endTx_phase] at hq ⊢
        refine hmover ?_ hq
        rcases hph with ⟨outcome, rfl⟩ | ⟨o, error, rfl⟩ <;> trivial

theorem locked_of_reach {c : Conf (State O) (Event O)}
    (h : (protocol hashtext).Reach c) : Locked c.st := by
  refine h.invariant (I := fun c => Locked c.st) ?_ ?_
  · exact ⟨fun _ _ hheld => (by cases hheld), fun _ => trivial⟩
  · intro c a c' _ ih _ hnext
    obtain ⟨s, out, hmoves, rfl⟩ := moves_of_next hnext
    exact ⟨hmoves.lock_holder ih, hmoves.phaseRow ih⟩

/-! ## What a step can do to a row

The steps of all parties, seen from one row. An executor writes its own row
only; a dispatch creates rows and a replay wakes dead ones. -/

/-- The row that an executor's event is about. -/
def Event.row : Event O → Option DeliveryKey
  | .claimed _ o | .released _ o | .applied _ o _ _ | .failed _ o =>
      some o.key
  | .dispatched _ _ | .replayed _ _ => none

/-- How a step leaves one row: as it was, created, woken up, or written by a
call that holds it. -/
inductive Writes (s s' : State O) (out : List (Event O))
    (key : DeliveryKey) : Prop
  | kept (hrow : s'.deliveries key = s.deliveries key)
      (hout : ∀ e ∈ out, e.row ≠ some key)
  | created {d t : Nat} {b : Batch} (hnone : s.deliveries key = none)
      (hrow : s'.deliveries key = some (.fresh t))
      (hout : ∀ e ∈ out, e.row = none) (hbatch : s.batch d = some b)
      (hsource : ∃ ev ∈ b.claimed, ev.id = key.eventId ∧
        Subscribes b.subscriptions key.consumer ev.name)
  | replayed {row : Delivery} {t : Nat} (hwas : s.deliveries key = some row)
      (hdead : row.status = .dead)
      (hrow : s'.deliveries key = some (row.replayed t))
      (hout : ∀ e ∈ out, e.row = none)
  | claimed {p : Nat} {o : ExecuteOptions} {t : Nat} {row : Delivery}
      (hkey : o.key = key) (hwas : s.deliveries key = some row)
      (hstatus : row.status = .pending ∨ row.status = .processing)
      (hrow : s'.deliveries key = some (row.claimedAs o.claimedBy t))
      (hout : out = [.claimed p o])
  | released {p : Nat} {o : ExecuteOptions} {t : Nat} {row : Delivery}
      (hkey : o.key = key) (hwas : s.deliveries key = some row)
      (howned : OwnedProcessing o.claimedBy row)
      (hrow : s'.deliveries key = some (row.released t))
      (hout : out = [.released p o])
  | applied {p : Nat} {o : ExecuteOptions} {event : OutboxEvent}
      {output : O} {t : Nat} {row : Delivery}
      (hkey : o.key = key) (hwas : s.deliveries key = some row)
      (howned : OwnedProcessing o.claimedBy row)
      (hrow : s'.deliveries key = some (row.finalized t))
      (hout : out = [.applied p o event output])
  | failed {p : Nat} {o : ExecuteOptions} {error : CoreError} {t : Nat}
      {row : Delivery}
      (hkey : o.key = key) (hwas : s.deliveries key = some row)
      (howned : OwnedProcessing o.claimedBy row)
      (hrow : s'.deliveries key = some (row.failedWith error t))
      (hout : out = [.failed p o])

/-- A call's write leaves the other rows alone. -/
theorem writes_other {o : ExecuteOptions} {new : Delivery} {p : Nat}
    {ph : Phase O} {e : Event O} {key : DeliveryKey} (hkey : key ≠ o.key)
    (he : e.row = some o.key) :
    Writes s ((s.setDelivery o.key new).endTx hashtext p ph) [e] key := by
  refine .kept ?_ fun e' he' => ?_
  · simp only [endTx_deliveries, setDelivery_deliveries, if_neg hkey]
  · rw [List.mem_singleton.mp he', he]
    exact fun heq => hkey (Option.some.inj heq).symm

/-- A call's write, at its own row. -/
theorem write_self {o : ExecuteOptions} {new : Delivery} {p : Nat}
    {ph : Phase O} :
    ((s.setDelivery o.key new).endTx hashtext p ph).deliveries o.key =
      some new := by
  simp only [endTx_deliveries, setDelivery_deliveries, if_pos]

/-- A dispatch creates a row or leaves it. -/
theorem writes_dispatched {d nowMs : Nat} {b : Batch} (hb : s.batch d = some b)
    (hdeliveries : s'.deliveries =
      fanOut b.subscriptions b.claimed nowMs s.deliveries)
    (key : DeliveryKey) : Writes s s' [.dispatched d b.claimed] key := by
  have hout : ∀ e ∈ [(Event.dispatched d b.claimed : Event O)],
      e.row = none := by
    intro e he
    rw [List.mem_singleton.mp he]
    rfl
  have hother : ∀ e ∈ [(Event.dispatched d b.claimed : Event O)],
      e.row ≠ some key := by
    intro e he
    rw [hout e he]
    rintro ⟨⟩
  have hat := congrFun hdeliveries key
  cases hwas : s.deliveries key with
  | some row =>
      rw [fanOut_of_some hwas] at hat
      exact .kept (hat.trans hwas.symm) hother
  | none =>
      cases hnow : s'.deliveries key with
      | none => exact .kept (hnow.trans hwas.symm) hother
      | some row =>
          rw [hnow] at hat
          rcases fanOut_eq_some hat.symm with hold | ⟨rfl, hsource⟩
          · rw [hwas] at hold
            cases hold
          · exact .created hwas hnow hout hb hsource

/-- A replay wakes a dead row or leaves it. -/
theorem writes_replayed {consumer : String} {eventId : Option Nat} {nowMs : Nat}
    {key : DeliveryKey}
    (hdeliveries : s'.deliveries key = (s.deliveries key).map fun row =>
      if key.consumer = consumer ∧ row.status = .dead ∧
          (eventId = none ∨ eventId = some key.eventId) then
        row.replayed nowMs
      else row) :
    Writes s s' [.replayed consumer eventId] key := by
  have hout : ∀ e ∈ [(Event.replayed consumer eventId : Event O)],
      e.row = none := by
    intro e he
    rw [List.mem_singleton.mp he]
    rfl
  have hother : ∀ e ∈ [(Event.replayed consumer eventId : Event O)],
      e.row ≠ some key := by
    intro e he
    rw [hout e he]
    rintro ⟨⟩
  cases hwas : s.deliveries key with
  | none =>
      rw [hwas] at hdeliveries
      exact .kept (hdeliveries.trans hwas.symm) hother
  | some row =>
      rw [hwas, Option.map_some] at hdeliveries
      by_cases hdead : key.consumer = consumer ∧ row.status = .dead ∧
          (eventId = none ∨ eventId = some key.eventId)
      · rw [if_pos hdead] at hdeliveries
        exact .replayed hwas hdead.2.1 hdeliveries hout
      · rw [if_neg hdead] at hdeliveries
        exact .kept (hdeliveries.trans hwas.symm) hother

theorem Moves.writes (h : Moves hashtext s a s' out) (hI : Locked s)
    (key : DeliveryKey) : Writes s s' out key := by
  have hquiet : s'.deliveries = s.deliveries → out = [] →
      Writes s s' out key := by
    rintro hsame rfl
    exact .kept (by rw [hsame]) fun e he => by cases he
  cases h with
  | dispatchClaim hclaimed hbatch hrest =>
      have hsame := congrArg State.deliveries hrest
      exact hquiet hsame rfl
  | dispatchAbort hbatch hrest =>
      have hsame := congrArg State.deliveries hrest
      exact hquiet hsame rfl
  | dispatchCommit hb hdeliveries => exact writes_dispatched hb hdeliveries key
  | replayed => exact writes_replayed rfl
  | @claimed p o event nowMs row hph hwas =>
      have hknown := hI.rows p
      rw [hph] at hknown
      obtain ⟨row', hwas', hstatus⟩ := hknown
      rw [hwas] at hwas'
      cases hwas'
      by_cases hkey : key = o.key
      · subst hkey
        exact .claimed rfl hwas hstatus write_self rfl
      · exact writes_other hkey rfl
  | @released p o event nowMs row hph hwas howned =>
      by_cases hkey : key = o.key
      · subst hkey
        exact .released rfl hwas howned write_self rfl
      · exact writes_other hkey rfl
  | @applied p lost o event output nowMs row hph hwas =>
      have hknown := hI.rows p
      rw [hph] at hknown
      obtain ⟨row', hwas', howned⟩ := hknown
      rw [hwas] at hwas'
      cases hwas'
      by_cases hkey : key = o.key
      · subst hkey
        exact .applied rfl hwas howned write_self rfl
      · exact writes_other hkey rfl
  | @failed p nowMs o error row hph hwas =>
      have hknown := hI.rows p
      rw [hph] at hknown
      obtain ⟨row', hwas', howned⟩ := hknown
      rw [hwas] at hwas'
      cases hwas'
      by_cases hkey : key = o.key
      · subst hkey
        exact .failed rfl hwas howned write_self rfl
      · exact writes_other hkey rfl
  | _ => exact hquiet rfl rfl

/-! ## Claims, effects and processed rows

The log determines who has claimed a row last and whether its effects were
committed. The row agrees with it, and whoever reports on a row is the one that
claimed last. -/

/-- The worker that claimed the row last. -/
def lastClaim (key : DeliveryKey) : List (Event O) → Option String
  | [] => none
  | .claimed _ o :: older =>
      if o.key = key then some o.claimedBy else lastClaim key older
  | _ :: older => lastClaim key older

/-- The effects of the handler have been committed for the delivery. -/
def Applied (log : List (Event O)) (key : DeliveryKey) : Prop :=
  ∃ p o event output, .applied p o event output ∈ log ∧ o.key = key

/-- Whether a delivery is over. -/
def Processed (s : State O) (key : DeliveryKey) : Prop :=
  ∃ row, s.deliveries key = some row ∧ row.status = .processed

/-- Effects are committed for no delivery a second time. -/
def AppliedOnce (older : List (Event O)) : Event O → Prop
  | .applied _ o _ _ => ¬ Applied older o.key
  | _ => True

/-- Whoever releases, finalizes or fails a delivery is the worker that claimed
it last. -/
def Fenced (older : List (Event O)) : Event O → Prop
  | .released _ o | .applied _ o _ _ | .failed _ o =>
      lastClaim o.key older = some o.claimedBy
  | .claimed _ _ | .dispatched _ _ | .replayed _ _ => True

/-- What one step may do to delivery rows: a processed one stays, a row moves
to `processed` just when effects are committed for it, and any other change is
a creation, a replay of a dead row, a claim of a row that is not processed, or
the report of its owner. -/
structure RowContract (s s' : State O) (out : List (Event O)) : Prop where
  processed_kept : ∀ key row, s.deliveries key = some row →
    row.status = .processed → s'.deliveries key = some row
  processed_iff : ∀ key,
    Applied out key ↔ ¬ Processed s key ∧ Processed s' key
  reported : ∀ key, s'.deliveries key ≠ s.deliveries key →
    s.deliveries key = none ∨
      (∃ row, s.deliveries key = some row ∧ row.status = .dead) ∨
      ∃ e ∈ out, e.row = some key

/-- Log and rows agree on claims and effects. -/
structure Recorded (c : Conf (State O) (Event O)) : Prop where
  owner : ∀ key row claimedBy, c.st.deliveries key = some row →
    OwnedProcessing claimedBy row → lastClaim key c.log = some claimedBy
  processed_iff : ∀ key, Processed c.st key ↔ Applied c.log key
  once : Told AppliedOnce c.log
  fenced : Told Fenced c.log

theorem applied_append {log : List (Event O)} {key : DeliveryKey} :
    Applied (out ++ log) key ↔ Applied out key ∨ Applied log key := by
  simp only [Applied, List.mem_append, or_and_right, exists_or]

/-- Nothing that is not a run's report on the row is its effect. -/
theorem not_applied_of_row {key : DeliveryKey}
    (h : ∀ e ∈ out, e.row ≠ some key) : ¬ Applied out key := by
  rintro ⟨p, o, event, output, hmem, hkey⟩
  exact h _ hmem (congrArg some hkey)

theorem lastClaim_of_row {log : List (Event O)} {key : DeliveryKey}
    (h : ∀ e ∈ out, e.row ≠ some key) :
    lastClaim key (out ++ log) = lastClaim key log := by
  induction out with
  | nil => rfl
  | cons e rest ih =>
      have hrest := ih fun e' he' => h e' (List.mem_cons_of_mem _ he')
      have hthis := h e List.mem_cons_self
      cases e with
      | claimed p o =>
          simp only [List.cons_append, lastClaim]
          rw [if_neg fun hkey => hthis (congrArg some hkey)]
          exact hrest
      | _ => exact hrest

theorem not_processed_of_some {key : DeliveryKey} {row : Delivery}
    (hrow : s.deliveries key = some row) (hstatus : row.status ≠ .processed) :
    ¬ Processed s key := by
  rintro ⟨row', hrow', hdone⟩
  rw [hrow] at hrow'
  cases hrow'
  exact hstatus hdone

theorem Writes.processed_kept {key : DeliveryKey} {row : Delivery}
    (h : Writes s s' out key) (hwas : s.deliveries key = some row)
    (hdone : row.status = .processed) : s'.deliveries key = some row := by
  cases h with
  | kept hrow => rw [hrow, hwas]
  | created hnone => rw [hwas] at hnone; cases hnone
  | replayed hwas' hdead =>
      rw [hwas] at hwas'
      cases hwas'
      rw [hdone] at hdead
      cases hdead
  | claimed hkey hwas' hstatus =>
      rw [hwas] at hwas'
      cases hwas'
      simp only [hdone, reduceCtorEq, or_self] at hstatus
  | released hkey hwas' howned | applied hkey hwas' howned
  | failed hkey hwas' howned =>
      rw [hwas] at hwas'
      cases hwas'
      have hrun := howned.1
      rw [hdone] at hrun
      cases hrun

theorem failedWith_status_ne (row : Delivery) (error : CoreError) (t : Nat) :
    (row.failedWith error t).status ≠ .processed ∧
      (row.failedWith error t).status ≠ .processing := by
  unfold Delivery.failedWith
  dsimp only
  split
  · exact ⟨by rintro ⟨⟩, by rintro ⟨⟩⟩
  · exact ⟨by rintro ⟨⟩, by rintro ⟨⟩⟩

/-- Effects are committed exactly with the move of the row. -/
theorem Writes.processed_iff {key : DeliveryKey} (h : Writes s s' out key) :
    Applied out key ↔ ¬ Processed s key ∧ Processed s' key := by
  -- Where the row does not end up processed there must be no effects.
  have hneither : ∀ {row : Delivery}, s'.deliveries key = some row →
      row.status ≠ .processed → ¬ Applied out key →
      (Applied out key ↔ ¬ Processed s key ∧ Processed s' key) := by
    intro row hrow hstatus hnone
    exact iff_of_false hnone fun hboth =>
      not_processed_of_some hrow hstatus hboth.2
  cases h with
  | kept hrow hout =>
      have hsame : Processed s' key ↔ Processed s key := by
        unfold Processed
        rw [hrow]
      exact iff_of_false (not_applied_of_row hout) fun hboth =>
        hboth.1 (hsame.mp hboth.2)
  | created hnone hrow hout =>
      refine hneither hrow (by rintro ⟨⟩) (not_applied_of_row fun e he => ?_)
      rw [hout e he]
      rintro ⟨⟩
  | replayed hwas hdead hrow hout =>
      refine hneither hrow (by rintro ⟨⟩) (not_applied_of_row fun e he => ?_)
      rw [hout e he]
      rintro ⟨⟩
  | claimed hkey hwas hstatus hrow hout =>
      refine hneither hrow (by rintro ⟨⟩) ?_
      rw [hout]
      rintro ⟨p, o, event, output, hmem, -⟩
      cases List.mem_singleton.mp hmem
  | released hkey hwas howned hrow hout =>
      refine hneither hrow (by rintro ⟨⟩) ?_
      rw [hout]
      rintro ⟨p, o, event, output, hmem, -⟩
      cases List.mem_singleton.mp hmem
  | failed hkey hwas howned hrow hout =>
      refine hneither hrow (failedWith_status_ne _ _ _).1 ?_
      rw [hout]
      rintro ⟨p, o, event, output, hmem, -⟩
      cases List.mem_singleton.mp hmem
  | @applied p o event output t row hkey hwas howned hrow hout =>
      refine iff_of_true ⟨p, o, event, output, ?_, hkey⟩ ⟨?_, _, hrow, rfl⟩
      · rw [hout]
        exact List.mem_cons_self
      · refine not_processed_of_some hwas ?_
        rw [howned.1]
        rintro ⟨⟩

theorem Writes.reported {key : DeliveryKey} (h : Writes s s' out key)
    (hne : s'.deliveries key ≠ s.deliveries key) :
    s.deliveries key = none ∨
      (∃ row, s.deliveries key = some row ∧ row.status = .dead) ∨
      ∃ e ∈ out, e.row = some key := by
  cases h with
  | kept hrow => exact absurd hrow hne
  | created hnone => exact Or.inl hnone
  | replayed hwas hdead => exact Or.inr (Or.inl ⟨_, hwas, hdead⟩)
  | claimed hkey hwas hstatus hrow hout | released hkey hwas howned hrow hout
  | applied hkey hwas howned hrow hout | failed hkey hwas howned hrow hout =>
      rw [hout]
      exact Or.inr (Or.inr ⟨_, List.mem_cons_self, congrArg some hkey⟩)

theorem Moves.rowContract (h : Moves hashtext s a s' out) (hI : Locked s) :
    RowContract s s' out where
  processed_kept key _ := (h.writes hI key).processed_kept
  processed_iff key := (h.writes hI key).processed_iff
  reported key := (h.writes hI key).reported

theorem Moves.out_length_le (h : Moves hashtext s a s' out) :
    out.length ≤ 1 := by
  cases h <;> simp

/-- The owner of a row in progress is the worker that claimed it last. -/
theorem Writes.owner {key : DeliveryKey} (h : Writes s s' out key)
    {log : List (Event O)} {row : Delivery} {claimedBy : String}
    (hold : ∀ row claimedBy, s.deliveries key = some row →
      OwnedProcessing claimedBy row → lastClaim key log = some claimedBy)
    (hrow' : s'.deliveries key = some row)
    (howned' : OwnedProcessing claimedBy row) :
    lastClaim key (out ++ log) = some claimedBy := by
  cases h with
  | kept hrow hout =>
      rw [lastClaim_of_row hout]
      exact hold row claimedBy (hrow ▸ hrow') howned'
  | created hnone hrow =>
      rw [hrow] at hrow'
      cases hrow'
      cases howned'.1
  | replayed hwas hdead hrow =>
      rw [hrow] at hrow'
      cases hrow'
      cases howned'.1
  | claimed hkey hwas hstatus hrow hout =>
      rw [hrow] at hrow'
      cases hrow'
      rw [hout, List.singleton_append]
      simp only [lastClaim, if_pos hkey]
      exact howned'.2
  | released hkey hwas howned hrow =>
      rw [hrow] at hrow'
      cases hrow'
      cases howned'.1
  | applied hkey hwas howned hrow =>
      rw [hrow] at hrow'
      cases hrow'
      cases howned'.1
  | failed hkey hwas howned hrow =>
      rw [hrow] at hrow'
      cases hrow'
      exact absurd howned'.1 (failedWith_status_ne _ _ _).2

/-- A report that only the owner of the row can make. -/
def Event.ownerReport : Event O → Option ExecuteOptions
  | .released _ o | .applied _ o _ _ | .failed _ o => some o
  | .claimed _ _ | .dispatched _ _ | .replayed _ _ => none

theorem Writes.owned_of_report {e : Event O} {o : ExecuteOptions}
    (h : Writes s s' out o.key) (he : e ∈ out)
    (hreport : e.ownerReport = some o) :
    ∃ row, s.deliveries o.key = some row ∧
      OwnedProcessing o.claimedBy row := by
  have hrow : e.row = some o.key := by
    cases e with
    | released | applied | failed => cases hreport; rfl
    | claimed | dispatched | replayed => cases hreport
  cases h with
  | kept _ hout => exact absurd hrow (hout e he)
  | created hnone _ hout =>
      rw [hout e he] at hrow
      cases hrow
  | replayed hwas hdead _ hout =>
      rw [hout e he] at hrow
      cases hrow
  | claimed hkey hwas hstatus _ hout =>
      rw [hout] at he
      cases List.mem_singleton.mp he
      cases hreport
  | released hkey hwas howned _ hout | applied hkey hwas howned _ hout
  | failed hkey hwas howned _ hout =>
      rw [hout] at he
      cases List.mem_singleton.mp he
      cases hreport
      exact ⟨_, hwas, howned⟩

theorem Recorded.step {c : Conf (State O) (Event O)} (hR : Recorded c)
    (hI : Locked c.st) (h : Moves hashtext c.st a s' out) :
    Recorded ⟨s', out ++ c.log⟩ where
  owner key _ _ hrow howned :=
    (h.writes hI key).owner (hR.owner key) hrow howned
  processed_iff key := by
    have hstep := (h.writes hI key).processed_iff
    have hold := hR.processed_iff key
    have hkept : Processed c.st key → Processed s' key := by
      rintro ⟨row, hrow, hdone⟩
      exact ⟨row, (h.writes hI key).processed_kept hrow hdone, hdone⟩
    show Processed s' key ↔ Applied (out ++ c.log) key
    rw [applied_append, hstep, ← hold]
    constructor
    · intro hnow
      by_cases hwas : Processed c.st key
      · exact Or.inr hwas
      · exact Or.inl ⟨hwas, hnow⟩
    · rintro (⟨-, hnow⟩ | hwas)
      · exact hnow
      · exact hkept hwas
  once := by
    refine hR.once.append h.out_length_le fun e he => ?_
    cases e with
    | applied p o event output =>
        show ¬ Applied c.log o.key
        rw [← hR.processed_iff]
        exact ((h.writes hI o.key).processed_iff.mp
          ⟨p, o, event, output, he, rfl⟩).1
    | _ => trivial
  fenced := by
    refine hR.fenced.append h.out_length_le fun e he => ?_
    have hlast : ∀ {o : ExecuteOptions}, e.ownerReport = some o →
        lastClaim o.key c.log = some o.claimedBy := by
      intro o hreport
      obtain ⟨row, hrow, howned⟩ :=
        (h.writes hI o.key).owned_of_report he hreport
      exact hR.owner o.key row o.claimedBy hrow howned
    cases e with
    | released | applied | failed => exact hlast rfl
    | claimed | dispatched | replayed => trivial

theorem recorded_of_reach {c : Conf (State O) (Event O)}
    (h : (protocol hashtext).Reach c) : Recorded c := by
  refine h.invariant (I := Recorded) ?_ ?_
  · refine
      { owner := fun _ _ _ hrow => by cases hrow
        processed_iff := fun key => iff_of_false ?_ ?_
        once := .nil
        fenced := .nil }
    · rintro ⟨row, hrow, -⟩
      cases hrow
    · rintro ⟨p, o, event, output, hmem, -⟩
      cases hmem
  · intro c a c' hc ih _ hnext
    obtain ⟨s, out, hmoves, rfl⟩ := moves_of_next hnext
    exact ih.step (locked_of_reach hc) hmoves

end Steps

/-! ## The guarantee

The three parts of the claim, from the invariant. The run has a worker that
stalls past its lease and comes back when another has done the work. -/

/-- For each consumer and event the handler's effects are committed at most
once, with the move of its row to `processed`; a processed row is final; and
a worker that is not the last to have claimed a row reports nothing on it. -/
theorem effects_exactlyOnce {c : Conf (State O) (Event O)}
    (h : (protocol hashtext).Reach c) :
    Told AppliedOnce c.log ∧
      (∀ key, Processed c.st key ↔ Applied c.log key) ∧
      Told Fenced c.log ∧
      ∀ a s' out, step hashtext c.st a = some (s', out) →
        RowContract c.st s' out := by
  have hR := recorded_of_reach h
  refine ⟨hR.once, hR.processed_iff, hR.fenced, ?_⟩
  intro a s' out hstep
  exact (moves_of_step hstep).rowContract (locked_of_reach h)

/-- One order event, claimed by a worker that stalls and taken over by
another, which finds the row its own and finishes. -/
def orderCards : EventSubscription :=
  ⟨"chat.order-card-updater", "orders.created", 10000⟩

/-- The run in which a second worker takes a delivery over. -/
def takenOver : List (Act Nat) :=
  [.emit 1 "orders.created" ⟨"order", "o1"⟩, .dispatchClaim 0 [orderCards] 100,
    .dispatchCommit 0 1000, .start 1 ⟨orderCards, 1, "w1"⟩, .claimLock 1 1000,
    .claimAggregate 1, .claimCheck 1, .claimCommit 1,
    .start 2 ⟨orderCards, 1, "w2"⟩, .claimLock 2 41000, .claimAggregate 2,
    .claimCheck 2, .claimCommit 2, .execLock 1, .execLock 2, .execAggregate 2,
    .execCheck 2 41000, .handle 2 7, .finalize 2 41001, .commit 2 none]

/-- `hashtext`, for runs on fixed inputs. -/
def textLength (text : String) : Int := text.length

theorem effects_exactlyOnce_takenOver :
    ∃ c, (protocol textLength).exec (protocol textLength).start takenOver =
        some c ∧
      Applied c.log ⟨"chat.order-card-updater", 1⟩ ∧
      Processed c.st ⟨"chat.order-card-updater", 1⟩ ∧
      Told AppliedOnce c.log ∧ Told Fenced c.log := by
  obtain ⟨c, hc, hlog⟩ : ∃ c, (protocol textLength).exec
      (protocol textLength).start takenOver = some c ∧
        ∃ event rest, c.log =
          .applied 2 ⟨orderCards, 1, "w2"⟩ event 7 :: rest :=
    ⟨_, rfl, _, _, rfl⟩
  obtain ⟨event, rest, hlog⟩ := hlog
  obtain ⟨honce, hprocessed, hfenced, -⟩ :=
    effects_exactlyOnce (Machine.reach_of_exec _ hc)
  have happlied : Applied c.log ⟨"chat.order-card-updater", 1⟩ :=
    ⟨2, ⟨orderCards, 1, "w2"⟩, event, 7, hlog ▸ List.mem_cons_self, rfl⟩
  exact ⟨c, hc, happlied, (hprocessed _).mpr happlied, honce, hfenced⟩

end Shozee.Events
