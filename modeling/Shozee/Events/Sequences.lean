import Mathlib.Logic.Function.Basic
import Shozee.Run.Entries
import Shozee.Run.Machine
import Shozee.Events.Emit

/-!
# Sequences without gaps

Any number of invocations emit and flush, each in a transaction: a root
action in one of its own, an atomic callee in its root's. A flush moves one
counter at a time, and the upsert locks the counter's row until the
transaction ends; what it has counted shows to the others when it commits.

The rows of one aggregate are therefore committed in the order of their
sequences, which is what `Protocol` takes for granted of an emission. A flush
belongs to a handler that waits for it, so a transaction is in one flush at a
time. A row is remembered with the invocation that has emitted it.
-/

namespace Shozee.Events.Sequences

open Shozee.Run Shozee.Pipeline

variable {P ρ : Type}

/-- A transaction is open until it commits or rolls back. -/
inductive TxStatus
  | «open»
  | committed
  | rolledBack
deriving DecidableEq, Repr

/-- A flush under way: the groups left, and the rows of the others. -/
structure Flush (P : Type) where
  invocation : Nat
  left : List (AggregateGroup P)
  rows : List (DomainEvent P)

/-- A transaction. `root` is the invocation that it was begun for. -/
structure Tx (P : Type) where
  status : TxStatus
  root : Nat
  written : Aggregate → Option AggregateSequence
  rows : List (Nat × DomainEvent P)
  flush : Option (Flush P)

/-- How far an invocation is: its handler runs, its events are being flushed,
or one of the two is over. -/
inductive Phase
  | handling
  | flushing
  | flushed
  | failed
deriving DecidableEq, Repr

/-- An action that runs in a transaction, with the events that it has emitted.
-/
structure Invocation (P ρ : Type) where
  tx : Nat
  env : Envelope ρ
  buffer : EmitBuffer P
  phase : Phase

/-- The tables, and who is at work on them. `holder` is the transaction that
has a counter's row locked. -/
structure State (P ρ : Type) where
  counters : Aggregate → Option AggregateSequence
  holder : Aggregate → Option Nat
  outbox : List (Nat × DomainEvent P)
  ids : List Nat
  txs : List (Tx P)
  invocations : List (Invocation P ρ)

/-- No counter, no row and no transaction. -/
def State.initial : State P ρ where
  counters := fun _ => none
  holder := fun _ => none
  outbox := []
  ids := []
  txs := []
  invocations := []

/-- The steps of the system: handlers emit, their ends flush row by row,
transactions end. -/
inductive Act (P ρ : Type)
  | begin (contract : Emitter) (env : Envelope ρ)
  | callAtomic (root : Nat) (contract : Emitter) (env : Envelope ρ)
  | emit (i : Nat) (definition : EventDefinition P)
      (emission : EventEmission P) (eventId nowMs : Nat)
  | flush (i : Nat)
  | advance (t : Nat)
  | insert (t : Nat)
  | commit (t : Nat)
  | rollback (t : Nat)

/-- What is told of a step. -/
inductive Event
  | refused (i : Nat) (message : String)
  | committed (t : Nat)
  | rolledBack (t : Nat)
deriving DecidableEq, Repr

/-- One transaction changed. -/
def State.setTx (s : State P ρ) (t : Nat) (tx : Tx P) : State P ρ :=
  { s with txs := s.txs.set t tx }

/-- One invocation changed. -/
def State.setInvocation (s : State P ρ) (i : Nat) (inv : Invocation P ρ) :
    State P ρ :=
  { s with invocations := s.invocations.set i inv }

/-- The counter as the transaction sees it. -/
def State.counter (s : State P ρ) (tx : Tx P) (a : Aggregate) :
    Option AggregateSequence :=
  (tx.written a).or (s.counters a)

/-- A transaction ends, and its locks with it. -/
def State.release (s : State P ρ) (t : Nat) (tx : Tx P) (status : TxStatus) :
    State P ρ :=
  { s.setTx t { tx with status } with
    holder := fun a => if s.holder a = some t then none else s.holder a }

/-- An invocation that runs in a transaction from now on. -/
def State.join (s : State P ρ) (t : Nat) (contract : Emitter)
    (env : Envelope ρ) : State P ρ :=
  { s with
    invocations := s.invocations ++
      [⟨t, env, createEmitBuffer contract, .handling⟩] }

/-- One call of `emit`. Ids are drawn fresh; a refused event changes nothing.
-/
def stepEmit (s : State P ρ) (i : Nat) (inv : Invocation P ρ)
    (definition : EventDefinition P) (emission : EventEmission P)
    (eventId nowMs : Nat) : Option (State P ρ × List Event) :=
  if eventId ∈ s.ids then none
  else
    match inv.buffer.emit definition emission eventId nowMs with
    | .error message => some (s, [.refused i message])
    | .ok buffer =>
        some ({ s.setInvocation i { inv with buffer } with
          ids := eventId :: s.ids }, [])

/-- The start of a flush: the buffer is sealed, and what is wrong with it is
thrown. -/
def stepFlush (s : State P ρ) (i : Nat) (inv : Invocation P ρ) (tx : Tx P) :
    Option (State P ρ × List Event) :=
  if inv.phase ≠ .handling ∨ tx.status ≠ .«open» ∨ tx.flush.isSome then none
  else
    let buffer := { inv.buffer with «sealed» := true }
    match buffer.groups inv.env with
    | .error message =>
        some (s.setInvocation i { inv with buffer, phase := .failed },
          [.refused i message])
    | .ok [] =>
        some (s.setInvocation i { inv with buffer, phase := .flushed }, [])
    | .ok groups =>
        some ((s.setInvocation i { inv with buffer, phase := .flushing }).setTx
          inv.tx { tx with flush := some ⟨i, groups, []⟩ }, [])

/-- One upsert, which waits for the counter's row. -/
def stepAdvance (s : State P ρ) (t : Nat) (tx : Tx P) :
    Option (State P ρ × List Event) :=
  match tx.status, tx.flush with
  | .«open», some ⟨i, g :: left, rows⟩ =>
      if s.holder (counterOf g) = none ∨ s.holder (counterOf g) = some t then
        (s.invocations[i]?).map fun inv =>
          let count := g.items.length
          let row := advanceAggregateSequence (s.counter tx (counterOf g))
            g.first.companyId count
          ({ s.setTx t { tx with
              written := Function.update tx.written (counterOf g) (some row)
              flush := some ⟨i, left,
                rows ++ inv.env.rows (row.lastSequence - count) g.items⟩ } with
            holder := Function.update s.holder (counterOf g) (some t) }, [])
      else none
  | _, _ => none

/-- The insert of all rows of a flush. -/
def stepInsert (s : State P ρ) (t : Nat) (tx : Tx P) :
    Option (State P ρ × List Event) :=
  match tx.status, tx.flush with
  | .«open», some ⟨i, [], rows⟩ =>
      (s.invocations[i]?).map fun inv =>
        ((s.setInvocation i { inv with phase := .flushed }).setTx t { tx with
          rows := tx.rows ++ rows.map fun row => (i, row)
          flush := none }, [])
  | _, _ => none

/-- The commit, once the root's flush is through. -/
def stepCommit (s : State P ρ) (t : Nat) (tx : Tx P) :
    Option (State P ρ × List Event) :=
  if tx.status = .«open» ∧ tx.flush.isNone ∧
      ((s.invocations[tx.root]?).map Invocation.phase = some .flushed) then
    some ({ s.release t tx .committed with
      counters := s.counter tx
      outbox := s.outbox ++ tx.rows }, [.committed t])
  else none

/-- One step of the system, where it is possible. -/
def step (s : State P ρ) : Act P ρ → Option (State P ρ × List Event)
  | .begin contract env =>
      some ({ s.join s.txs.length contract env with
        txs := s.txs ++
          [⟨.«open», s.invocations.length, fun _ => none, [], none⟩] }, [])
  | .callAtomic root contract env =>
      (s.invocations[root]?).map fun inv => (s.join inv.tx contract env, [])
  | .emit i definition emission eventId nowMs =>
      (s.invocations[i]?).bind fun inv =>
        stepEmit s i inv definition emission eventId nowMs
  | .flush i =>
      (s.invocations[i]?).bind fun inv =>
        (s.txs[inv.tx]?).bind (stepFlush s i inv)
  | .advance t => (s.txs[t]?).bind (stepAdvance s t)
  | .insert t => (s.txs[t]?).bind (stepInsert s t)
  | .commit t => (s.txs[t]?).bind (stepCommit s t)
  | .rollback t =>
      (s.txs[t]?).bind fun tx =>
        if tx.status = .«open» then
          some (s.release t tx .rolledBack, [.rolledBack t])
        else none

/-- The system. -/
def machine : Machine (State P ρ) (Act P ρ) Event := ⟨.initial, step⟩

/-! ## What a step does

One lemma for each kind of step, and the inversion put together from them. A
step belongs to one invocation and touches the transaction of that one alone.
-/

/-- Everything a step may do. -/
inductive Moves (s : State P ρ) :
    Act P ρ → State P ρ → List Event → Prop
  | begin {contract env} : Moves s (.begin contract env)
      { s.join s.txs.length contract env with
        txs := s.txs ++
          [⟨.«open», s.invocations.length, fun _ => none, [], none⟩] } []
  | callAtomic {root : Nat} {contract env} {inv : Invocation P ρ}
      (hroot : s.invocations[root]? = some inv) :
      Moves s (.callAtomic root contract env) (s.join inv.tx contract env) []
  | refused {i definition emission eventId nowMs message} :
      Moves s (.emit i definition emission eventId nowMs) s
        [.refused i message]
  | emitted {i : Nat} {inv : Invocation P ρ}
      {definition emission eventId nowMs buffer}
      (hi : s.invocations[i]? = some inv) (hid : eventId ∉ s.ids)
      (hemit : inv.buffer.emit definition emission eventId nowMs =
        .ok buffer) :
      Moves s (.emit i definition emission eventId nowMs)
        { s.setInvocation i { inv with buffer } with
          ids := eventId :: s.ids } []
  | failed {i : Nat} {inv : Invocation P ρ} {message}
      (hi : s.invocations[i]? = some inv)
      (hphase : inv.phase = .handling) :
      Moves s (.flush i) (s.setInvocation i { inv with
        buffer := { inv.buffer with «sealed» := true }
        phase := .failed }) [.refused i message]
  | nothing {i : Nat} {inv : Invocation P ρ}
      (hi : s.invocations[i]? = some inv)
      (hphase : inv.phase = .handling)
      (hgroups : EmitBuffer.groups { inv.buffer with «sealed» := true }
        inv.env = .ok []) :
      Moves s (.flush i) (s.setInvocation i { inv with
        buffer := { inv.buffer with «sealed» := true }
        phase := .flushed }) []
  | flush {i : Nat} {inv : Invocation P ρ} {tx : Tx P} {groups}
      (hi : s.invocations[i]? = some inv)
      (htx : s.txs[inv.tx]? = some tx) (hphase : inv.phase = .handling)
      (hopen : tx.status = .«open») (hflush : tx.flush = none)
      (hgroups : EmitBuffer.groups { inv.buffer with «sealed» := true }
        inv.env = .ok groups) :
      Moves s (.flush i) ((s.setInvocation i { inv with
        buffer := { inv.buffer with «sealed» := true }
        phase := .flushing }).setTx inv.tx
          { tx with flush := some ⟨i, groups, []⟩ }) []
  | advance {t i : Nat} {tx : Tx P} {g left rows}
      {inv : Invocation P ρ} {row} (ht : s.txs[t]? = some tx)
      (hi : s.invocations[i]? = some inv) (hopen : tx.status = .«open»)
      (hflush : tx.flush = some ⟨i, g :: left, rows⟩)
      (hfree : s.holder (counterOf g) = none ∨
        s.holder (counterOf g) = some t)
      (hrow : row = advanceAggregateSequence (s.counter tx (counterOf g))
        g.first.companyId g.items.length) :
      Moves s (.advance t) { s.setTx t { tx with
          written := Function.update tx.written (counterOf g) (some row)
          flush := some ⟨i, left, rows ++ inv.env.rows
            (row.lastSequence - g.items.length) g.items⟩ } with
        holder := Function.update s.holder (counterOf g) (some t) } []
  | insert {t i : Nat} {tx : Tx P} {rows} {inv : Invocation P ρ}
      (ht : s.txs[t]? = some tx)
      (hi : s.invocations[i]? = some inv) (hopen : tx.status = .«open»)
      (hflush : tx.flush = some ⟨i, [], rows⟩) :
      Moves s (.insert t)
        ((s.setInvocation i { inv with phase := .flushed }).setTx t
        { tx with
          rows := tx.rows ++ rows.map fun row => (i, row)
          flush := none }) []
  | commit {t : Nat} {tx : Tx P} {inv : Invocation P ρ}
      (ht : s.txs[t]? = some tx)
      (hopen : tx.status = .«open») (hflush : tx.flush = none)
      (hroot : s.invocations[tx.root]? = some inv)
      (hphase : inv.phase = .flushed) :
      Moves s (.commit t) { s.release t tx .committed with
        counters := s.counter tx
        outbox := s.outbox ++ tx.rows } [.committed t]
  | rollback {t : Nat} {tx : Tx P} (ht : s.txs[t]? = some tx)
      (hopen : tx.status = .«open») :
      Moves s (.rollback t) (s.release t tx .rolledBack) [.rolledBack t]

theorem moves_of_stepEmit {s s' : State P ρ} {i : Nat} {inv : Invocation P ρ}
    {definition : EventDefinition P} {emission : EventEmission P}
    {eventId nowMs : Nat} {out : List Event}
    (hi : s.invocations[i]? = some inv)
    (h : stepEmit s i inv definition emission eventId nowMs =
      some (s', out)) :
    Moves s (.emit i definition emission eventId nowMs) s' out := by
  unfold stepEmit at h
  split at h
  · cases h
  · rename_i hid
    split at h
    · cases h
      exact .refused
    · rename_i buffer hemit
      cases h
      exact .emitted hi hid hemit

theorem moves_of_stepFlush {s s' : State P ρ} {i : Nat} {inv : Invocation P ρ}
    {tx : Tx P} {out : List Event} (hi : s.invocations[i]? = some inv)
    (htx : s.txs[inv.tx]? = some tx)
    (h : stepFlush s i inv tx = some (s', out)) : Moves s (.flush i) s' out := by
  unfold stepFlush at h
  split at h
  · cases h
  · rename_i hready
    rw [not_or, not_or, not_ne_iff, not_ne_iff, Option.not_isSome_iff_eq_none]
      at hready
    obtain ⟨hphase, hopen, hflush⟩ := hready
    dsimp only at h
    split at h
    · cases h
      exact .failed hi hphase
    · rename_i hgroups
      cases h
      exact .nothing hi hphase hgroups
    · rename_i groups _ hgroups
      cases h
      exact .flush hi htx hphase hopen hflush hgroups

theorem moves_of_stepAdvance {s s' : State P ρ} {t : Nat} {tx : Tx P}
    {out : List Event} (ht : s.txs[t]? = some tx)
    (h : stepAdvance s t tx = some (s', out)) :
    Moves s (.advance t) s' out := by
  unfold stepAdvance at h
  split at h
  · rename_i i g left rows hopen hflush
    split at h
    · rename_i hfree
      obtain ⟨inv, hi, hstep⟩ := Option.map_eq_some_iff.mp h
      cases hstep
      exact .advance ht hi hopen hflush hfree rfl
    · cases h
  · cases h

theorem moves_of_stepInsert {s s' : State P ρ} {t : Nat} {tx : Tx P}
    {out : List Event} (ht : s.txs[t]? = some tx)
    (h : stepInsert s t tx = some (s', out)) :
    Moves s (.insert t) s' out := by
  unfold stepInsert at h
  split at h
  · rename_i i rows hopen hflush
    obtain ⟨inv, hi, hstep⟩ := Option.map_eq_some_iff.mp h
    cases hstep
    exact .insert ht hi hopen hflush
  · cases h

theorem moves_of_stepCommit {s s' : State P ρ} {t : Nat} {tx : Tx P}
    {out : List Event} (ht : s.txs[t]? = some tx)
    (h : stepCommit s t tx = some (s', out)) :
    Moves s (.commit t) s' out := by
  unfold stepCommit at h
  split at h
  · rename_i hready
    obtain ⟨hopen, hflush, hroot⟩ := hready
    obtain ⟨inv, hi, hphase⟩ := Option.map_eq_some_iff.mp hroot
    cases h
    exact .commit ht hopen (Option.isNone_iff_eq_none.mp hflush) hi hphase
  · cases h

theorem moves_of_step {s s' : State P ρ} {a : Act P ρ} {out : List Event}
    (h : step s a = some (s', out)) : Moves s a s' out := by
  cases a with
  | begin contract env =>
      cases h
      exact .begin
  | callAtomic root contract env =>
      obtain ⟨inv, hroot, hstep⟩ := Option.map_eq_some_iff.mp h
      cases hstep
      exact .callAtomic hroot
  | emit i definition emission eventId nowMs =>
      obtain ⟨inv, hi, hstep⟩ := Option.bind_eq_some_iff.mp h
      exact moves_of_stepEmit hi hstep
  | flush i =>
      obtain ⟨inv, hi, hrest⟩ := Option.bind_eq_some_iff.mp h
      obtain ⟨tx, htx, hstep⟩ := Option.bind_eq_some_iff.mp hrest
      exact moves_of_stepFlush hi htx hstep
  | advance t =>
      obtain ⟨tx, ht, hstep⟩ := Option.bind_eq_some_iff.mp h
      exact moves_of_stepAdvance ht hstep
  | insert t =>
      obtain ⟨tx, ht, hstep⟩ := Option.bind_eq_some_iff.mp h
      exact moves_of_stepInsert ht hstep
  | commit t =>
      obtain ⟨tx, ht, hstep⟩ := Option.bind_eq_some_iff.mp h
      exact moves_of_stepCommit ht hstep
  | rollback t =>
      obtain ⟨tx, ht, hstep⟩ := Option.bind_eq_some_iff.mp h
      split at hstep
      · rename_i hopen
        cases hstep
        exact .rollback ht hopen
      · cases hstep

/-! ## Counters and rows

A counter is as far on as the committed rows of its aggregate. While a
transaction holds the counter, it is ahead by what the transaction has numbered
and not yet committed. -/

/-- The count of a counter's row; one that is not there has counted nothing. -/
def last (row : Option AggregateSequence) : Nat :=
  (row.map AggregateSequence.lastSequence).getD 0

/-- The sequences of an aggregate's rows, in the rows' order. -/
def sequencesOf (a : Aggregate) (rows : List (Nat × DomainEvent P)) :
    List Nat :=
  (rows.filter fun r => r.2.aggregate = a).map fun r => r.2.aggregateSequence

/-- The rows of a flush, each with the invocation that it is of. -/
def Flush.tagged (f : Flush P) : List (Nat × DomainEvent P) :=
  f.rows.map fun row => (f.invocation, row)

/-- What a transaction would commit if its flush ended here. -/
def Tx.pending (tx : Tx P) : List (Nat × DomainEvent P) :=
  tx.rows ++ (tx.flush.map Flush.tagged).getD []

theorem sequencesOf_append (a : Aggregate)
    (rows rows' : List (Nat × DomainEvent P)) :
    sequencesOf a (rows ++ rows') =
      sequencesOf a rows ++ sequencesOf a rows' := by
  unfold sequencesOf
  rw [List.filter_append, List.map_append]

/-- The numbers of a group's own aggregate. -/
theorem sequencesOf_rows {env : Envelope ρ} {g : AggregateGroup P}
    (i sequence : Nat)
    (hsame : ∀ e ∈ g.items, e.aggregate.stored = counterOf g)
    (a : Aggregate) :
    sequencesOf a ((env.rows sequence g.items).map fun row => (i, row)) =
      if a = counterOf g then List.range' (sequence + 1) g.items.length
      else [] := by
  obtain ⟨-, hsequences, haggregates⟩ := rows_spec env sequence g.items
  have hall : ∀ row ∈ env.rows sequence g.items,
      row.aggregate = counterOf g := by
    intro row hrow
    have hmem := List.mem_map_of_mem (f := DomainEvent.aggregate) hrow
    rw [haggregates] at hmem
    obtain ⟨e, he, heq⟩ := List.mem_map.mp hmem
    exact heq ▸ hsame e he
  unfold sequencesOf
  rw [List.filter_map, List.map_map]
  by_cases ha : a = counterOf g
  · rw [if_pos ha]
    have hself : (env.rows sequence g.items).filter
        ((fun r : Nat × DomainEvent P => decide (r.2.aggregate = a)) ∘
          fun row => (i, row)) = env.rows sequence g.items := by
      rw [List.filter_eq_self]
      intro row hrow
      exact decide_eq_true ((hall row hrow).trans ha.symm)
    rw [hself]
    exact hsequences
  · rw [if_neg ha]
    have hnone : (env.rows sequence g.items).filter
        ((fun r : Nat × DomainEvent P => decide (r.2.aggregate = a)) ∘
          fun row => (i, row)) = [] := by
      rw [List.filter_eq_nil_iff]
      intro row hrow hsame
      exact ha ((of_decide_eq_true hsame).symm.trans (hall row hrow))
    rw [hnone]
    rfl

/-- An open transaction has the counters locked that it has moved on, and its
rows have the numbers that it has moved them on by. -/
structure Counts (s : State P ρ) (t : Nat) (tx : Tx P) : Prop where
  held : ∀ a row, tx.written a = some row → s.holder a = some t
  numbered : ∀ a, ∃ n, last (s.counter tx a) = last (s.counters a) + n ∧
    sequencesOf a tx.pending = List.range' (last (s.counters a) + 1) n

/-- The counters fit the rows: what is committed is numbered without a gap, and
each open transaction goes on from there. -/
structure Counted (s : State P ρ) : Prop where
  shown : ∀ a, sequencesOf a s.outbox = List.range' 1 (last (s.counters a))
  working : ∀ (t : Nat) (tx : Tx P), s.txs[t]? = some tx →
    tx.status = .«open» → Counts s t tx

/-- A step that leaves the counters and their locks as they are. -/
theorem Counted.quiet {s s' : State P ρ} (h : Counted s)
    (hcounters : s'.counters = s.counters) (hholder : s'.holder = s.holder)
    (houtbox : s'.outbox = s.outbox)
    (htxs : ∀ (t : Nat) (tx' : Tx P), s'.txs[t]? = some tx' →
      tx'.status = .«open» →
        (∃ tx : Tx P, s.txs[t]? = some tx ∧ tx.status = .«open» ∧
          tx'.written = tx.written ∧ tx'.pending = tx.pending) ∨
        (∀ a, tx'.written a = none) ∧ tx'.pending = []) : Counted s' := by
  refine ⟨?_, ?_⟩
  · rw [hcounters, houtbox]
    exact h.shown
  · intro t tx' ht hopen
    rcases htxs t tx' ht hopen with ⟨tx, hold, hold', hwritten, hpending⟩ |
        ⟨hwritten, hpending⟩
    · obtain ⟨hheld, hnumbered⟩ := h.working t tx hold hold'
      refine ⟨?_, ?_⟩
      · rw [hwritten, hholder]
        exact hheld
      · intro a
        obtain ⟨n, hlast, hsequences⟩ := hnumbered a
        refine ⟨n, ?_, ?_⟩
        · simpa only [State.counter, hwritten, hcounters] using hlast
        · rw [hpending, hcounters]
          exact hsequences
    · refine ⟨fun a row hrow => ?_, fun a => ⟨0, ?_, ?_⟩⟩
      · rw [hwritten a] at hrow
        cases hrow
      · simp [State.counter, hwritten a]
      · rw [hpending]
        rfl

theorem Counted.advance {s : State P ρ} {t i : Nat} {tx : Tx P}
    {g : AggregateGroup P} {left : List (AggregateGroup P)}
    {rows : List (DomainEvent P)} {env : Envelope ρ} {row : AggregateSequence}
    (h : Counted s) (ht : s.txs[t]? = some tx) (hopen : tx.status = .«open»)
    (hflush : tx.flush = some ⟨i, g :: left, rows⟩)
    (hfree : s.holder (counterOf g) = none ∨ s.holder (counterOf g) = some t)
    (hrow : row = advanceAggregateSequence (s.counter tx (counterOf g))
      g.first.companyId g.items.length)
    (hsame : ∀ e ∈ g.items, e.aggregate.stored = counterOf g) :
    Counted { s.setTx t { tx with
        written := Function.update tx.written (counterOf g) (some row)
        flush := some ⟨i, left, rows ++ env.rows
          (row.lastSequence - g.items.length) g.items⟩ } with
      holder := Function.update s.holder (counterOf g) (some t) } := by
  obtain ⟨hheld, hnumbered⟩ := h.working t tx ht hopen
  have hcount : row.lastSequence =
      last (s.counter tx (counterOf g)) + g.items.length := by
    rw [hrow, advance_lastSequence]
    rfl
  refine ⟨h.shown, ?_⟩
  intro u tx'' hu hopen'
  rcases getElem?_set_cases ht hu with ⟨rfl, rfl⟩ | ⟨hne, hu⟩
  · refine ⟨?_, ?_⟩
    · intro a row' hwritten
      show Function.update s.holder (counterOf g) (some u) a = some u
      change Function.update tx.written (counterOf g) (some row) a = _
        at hwritten
      by_cases ha : a = counterOf g
      · rw [ha, Function.update_self]
      · rw [Function.update_of_ne ha] at hwritten ⊢
        exact hheld a row' hwritten
    · intro a
      obtain ⟨n, hlast, hsequences⟩ := hnumbered a
      have hpending : sequencesOf a (tx.rows ++ (rows ++ env.rows
          (row.lastSequence - g.items.length) g.items).map
            fun row => (i, row)) =
          sequencesOf a tx.pending ++ (if a = counterOf g then
            List.range' (row.lastSequence - g.items.length + 1) g.items.length
          else []) := by
        rw [List.map_append, ← List.append_assoc, sequencesOf_append,
          sequencesOf_rows i _ hsame]
        unfold Tx.pending
        rw [hflush]
        rfl
      by_cases ha : a = counterOf g
      · refine ⟨n + g.items.length, ?_, ?_⟩
        · show last ((Function.update tx.written (counterOf g) (some row) a).or
            _) = _
          rw [ha, Function.update_self]
          show row.lastSequence = last (s.counters (counterOf g)) + _
          rw [ha] at hlast
          omega
        · show sequencesOf a (tx.rows ++ _) = _
          have hstart : row.lastSequence - g.items.length + 1 =
              last (s.counters a) + 1 + n := by
            rw [ha] at hlast ⊢
            omega
          refine hpending.trans ?_
          rw [if_pos ha, hsequences, hstart, List.range'_append_1]
          rfl
      · refine ⟨n, ?_, ?_⟩
        · show last ((Function.update tx.written (counterOf g) (some row) a).or
            _) = _
          rw [Function.update_of_ne ha]
          exact hlast
        · show sequencesOf a (tx.rows ++ _) = _
          refine hpending.trans ?_
          rw [if_neg ha, List.append_nil]
          exact hsequences
  · obtain ⟨hheld', hnumbered'⟩ := h.working u tx'' hu hopen'
    refine ⟨?_, hnumbered'⟩
    intro a row' hwritten
    have hown := hheld' a row' hwritten
    show Function.update s.holder (counterOf g) (some t) a = some u
    -- the others have not moved this counter
    have hother : a ≠ counterOf g := by
      rintro rfl
      rcases hfree with hnone | hmine
      · rw [hnone] at hown
        cases hown
      · rw [hmine] at hown
        exact hne (Option.some.inj hown).symm
    rw [Function.update_of_ne hother]
    exact hown

/-- A transaction that has ended holds no counter, and the others hold theirs
as before. -/
theorem holder_release {s : State P ρ} {t u : Nat} (hne : u ≠ t)
    {a : Aggregate} (h : s.holder a = some u) :
    (if s.holder a = some t then none else s.holder a) = some u := by
  rw [h, if_neg fun hsame => hne (Option.some.inj hsame)]

theorem Counted.rollback {s : State P ρ} {t : Nat} {tx : Tx P}
    (h : Counted s) (ht : s.txs[t]? = some tx) :
    Counted (s.release t tx .rolledBack) := by
  refine ⟨h.shown, ?_⟩
  intro u tx'' hu hopen
  rcases getElem?_set_cases ht hu with ⟨rfl, rfl⟩ | ⟨hne, hu⟩
  · cases hopen
  · obtain ⟨hheld, hnumbered⟩ := h.working u tx'' hu hopen
    exact ⟨fun a row hrow => holder_release hne (hheld a row hrow), hnumbered⟩

theorem Counted.commit {s : State P ρ} {t : Nat} {tx : Tx P}
    (h : Counted s) (ht : s.txs[t]? = some tx) (hopen : tx.status = .«open»)
    (hflush : tx.flush = none) :
    Counted { s.release t tx .committed with
      counters := s.counter tx
      outbox := s.outbox ++ tx.rows } := by
  obtain ⟨hheld, hnumbered⟩ := h.working t tx ht hopen
  have hpending : tx.pending = tx.rows := by
    unfold Tx.pending
    rw [hflush]
    exact List.append_nil _
  refine ⟨?_, ?_⟩
  · intro a
    obtain ⟨n, hlast, hsequences⟩ := hnumbered a
    show sequencesOf a (s.outbox ++ tx.rows) =
      List.range' 1 (last (s.counter tx a))
    rw [sequencesOf_append, h.shown a, ← hpending, hsequences, hlast,
      Nat.add_comm (last (s.counters a)) 1, List.range'_append_1]
  · intro u tx'' hu hopen'
    rcases getElem?_set_cases ht hu with ⟨rfl, rfl⟩ | ⟨hne, hu⟩
    · cases hopen'
    · obtain ⟨hheld', hnumbered'⟩ := h.working u tx'' hu hopen'
      refine ⟨fun a row hrow => holder_release hne (hheld' a row hrow), ?_⟩
      intro a
      obtain ⟨n, hlast, hsequences⟩ := hnumbered' a
      show ∃ n, last ((tx''.written a).or (s.counter tx a)) =
        last (s.counter tx a) + n ∧ sequencesOf a tx''.pending =
          List.range' (last (s.counter tx a) + 1) n
      cases hwritten : tx.written a with
      | none =>
          have hkept : s.counter tx a = s.counters a := by
            unfold State.counter
            rw [hwritten]
            rfl
          rw [hkept]
          exact ⟨n, hlast, hsequences⟩
      | some row =>
          -- two transactions never hold one counter
          have hnone : tx''.written a = none := by
            by_contra hsome
            obtain ⟨row', hrow'⟩ := Option.ne_none_iff_exists'.mp hsome
            have hown := (hheld a row hwritten).symm.trans (hheld' a row' hrow')
            exact hne (Option.some.inj hown).symm
          have hzero : n = 0 := by
            rw [State.counter, hnone] at hlast
            change last (s.counters a) = _ at hlast
            omega
          subst hzero
          refine ⟨0, ?_, hsequences⟩
          rw [hnone]
          rfl

/-! ## Whose rows they are

The rows of one flush are the events of its buffer, each numbered once. The
groups that a flush is through with have their rows, and those that are left
have none. -/

/-- The rows of one aggregate. -/
def rowsFor (a : Aggregate) (rows : List (DomainEvent P)) :
    List (DomainEvent P) :=
  rows.filter fun row => row.aggregate = a

/-- The rows of one invocation. -/
def rowsBy (i : Nat) (rows : List (Nat × DomainEvent P)) :
    List (DomainEvent P) :=
  (rows.filter fun r => r.1 = i).map Prod.snd

/-- The rows are those of the events `ids`, numbered one after the other. -/
structure Block (ids : List Nat) (rows : List (DomainEvent P)) : Prop where
  ids : rows.map DomainEvent.id = ids
  consecutive : ∃ k, rows.map DomainEvent.aggregateSequence =
    List.range' (k + 1) rows.length

/-- A flush has the rows of the groups it is through with. -/
structure Flushes (buffered : List (BufferedEmission P)) (f : Flush P) :
    Prop where
  nodup : (f.left.map counterOf).Nodup
  same : ∀ g ∈ f.left, ∀ e ∈ g.items, e.aggregate.stored = counterOf g
  ids : ∀ g ∈ f.left, g.items.map (fun e => e.eventId) =
    emittedIds (counterOf g) buffered
  left : ∀ g ∈ f.left, rowsFor (counterOf g) f.rows = []
  done : ∀ a, a ∉ f.left.map counterOf →
    Block (emittedIds a buffered) (rowsFor a f.rows)

theorem block_nil : Block [] ([] : List (DomainEvent P)) := ⟨rfl, 0, rfl⟩

theorem flushes_of_splits {buffered : List (BufferedEmission P)}
    {groups : List (AggregateGroup P)} (h : Splits buffered groups)
    (i : Nat) : Flushes buffered ⟨i, groups, []⟩ := by
  refine ⟨h.nodup, h.same, h.ids, fun _ _ => rfl, ?_⟩
  intro a ha
  have hnone : emittedIds a buffered = [] := by
    unfold emittedIds
    rw [List.map_eq_nil_iff, List.filter_eq_nil_iff]
    intro e he hsame
    obtain ⟨g, hg, heq⟩ := h.found e he
    exact ha (List.mem_map.mpr ⟨g, hg, heq.trans (of_decide_eq_true hsame)⟩)
  rw [hnone]
  exact block_nil

theorem Flushes.advance {buffered : List (BufferedEmission P)} {i : Nat}
    {g : AggregateGroup P} {left : List (AggregateGroup P)}
    {rows : List (DomainEvent P)} (h : Flushes buffered ⟨i, g :: left, rows⟩)
    (env : Envelope ρ) (sequence : Nat) :
    Flushes buffered ⟨i, left, rows ++ env.rows sequence g.items⟩ := by
  obtain ⟨hhead, hnodup⟩ := List.nodup_cons.mp h.nodup
  obtain ⟨hids, hsequences, haggregates⟩ := rows_spec env sequence g.items
  have hall : ∀ row ∈ env.rows sequence g.items,
      row.aggregate = counterOf g := by
    intro row hrow
    have hmem := List.mem_map_of_mem (f := DomainEvent.aggregate) hrow
    rw [haggregates] at hmem
    obtain ⟨e, he, heq⟩ := List.mem_map.mp hmem
    exact heq ▸ h.same g List.mem_cons_self e he
  have hother : ∀ a, a ≠ counterOf g →
      rowsFor a (rows ++ env.rows sequence g.items) = rowsFor a rows := by
    intro a ha
    unfold rowsFor
    rw [List.filter_append]
    have hnone : (env.rows sequence g.items).filter
        (fun row => row.aggregate = a) = [] := by
      rw [List.filter_eq_nil_iff]
      intro row hrow hsame
      exact ha ((of_decide_eq_true hsame).symm.trans (hall row hrow))
    rw [hnone, List.append_nil]
  refine ⟨hnodup, fun g' hg' => h.same g' (List.mem_cons_of_mem _ hg'),
    fun g' hg' => h.ids g' (List.mem_cons_of_mem _ hg'), ?_, ?_⟩
  · intro g' hg'
    have hne : counterOf g' ≠ counterOf g := fun heq =>
      hhead (heq ▸ List.mem_map_of_mem hg')
    show rowsFor (counterOf g') (rows ++ env.rows sequence g.items) = []
    rw [hother _ hne]
    exact h.left g' (List.mem_cons_of_mem _ hg')
  · intro a ha
    show Block (emittedIds a buffered)
      (rowsFor a (rows ++ env.rows sequence g.items))
    by_cases hg : a = counterOf g
    · have hown : rowsFor a (rows ++ env.rows sequence g.items) =
          env.rows sequence g.items := by
        have hbefore : rowsFor (counterOf g) rows = [] :=
          h.left g List.mem_cons_self
        have hself : rowsFor (counterOf g) (env.rows sequence g.items) =
            env.rows sequence g.items :=
          List.filter_eq_self.mpr fun row hrow => decide_eq_true (hall row hrow)
        rw [hg]
        unfold rowsFor at hbefore hself ⊢
        rw [List.filter_append, hbefore, hself, List.nil_append]
      rw [hown, hg, ← h.ids g List.mem_cons_self, ← hids]
      refine ⟨rfl, sequence, ?_⟩
      have hlength : (env.rows sequence g.items).length = g.items.length := by
        have hmap := congrArg List.length hids
        rwa [List.length_map, List.length_map] at hmap
      rw [hlength]
      exact hsequences
    · rw [hother a hg]
      refine h.done a ?_
      rw [List.map_cons, List.mem_cons, not_or]
      exact ⟨hg, ha⟩

/-- Each row belongs to an invocation that has flushed it in its transaction,
and shows when that has committed. -/
structure Tagged (s : State P ρ) : Prop where
  spelled : ∀ (i : Nat) (inv : Invocation P ρ), s.invocations[i]? = some inv →
    Spelled inv.buffer.buffered
  joined : ∀ (i : Nat) (inv : Invocation P ρ), s.invocations[i]? = some inv →
    inv.tx < s.txs.length
  closed : ∀ (i : Nat) (inv : Invocation P ρ), s.invocations[i]? = some inv →
    inv.phase ≠ .handling → inv.buffer.sealed = true
  flushing : ∀ (t : Nat) (tx : Tx P) (f : Flush P), s.txs[t]? = some tx →
    tx.flush = some f → ∃ inv, s.invocations[f.invocation]? = some inv ∧
      inv.tx = t ∧ inv.phase = .flushing ∧ Flushes inv.buffer.buffered f
  own : ∀ (t : Nat) (tx : Tx P), s.txs[t]? = some tx → ∀ r ∈ tx.rows,
    ∃ inv, s.invocations[r.1]? = some inv ∧ inv.tx = t ∧ inv.phase = .flushed
  blocks : ∀ (i : Nat) (inv : Invocation P ρ) (tx : Tx P),
    s.invocations[i]? = some inv → inv.phase = .flushed →
      s.txs[inv.tx]? = some tx → ∀ a, Block
        (emittedIds a inv.buffer.buffered) (rowsFor a (rowsBy i tx.rows))
  known : ∀ r ∈ s.outbox, r.1 < s.invocations.length
  shown : ∀ (i : Nat) (inv : Invocation P ρ) (tx : Tx P),
    s.invocations[i]? = some inv → s.txs[inv.tx]? = some tx →
      rowsBy i s.outbox =
        if tx.status = .committed then rowsBy i tx.rows else []
  through : ∀ (t : Nat) (tx : Tx P), s.txs[t]? = some tx →
    tx.status = .committed → ∃ inv, s.invocations[tx.root]? = some inv ∧
      inv.phase = .flushed

theorem lt_of_some {α : Type} {l : List α} {n : Nat} {a : α}
    (h : l[n]? = some a) : n < l.length :=
  (List.getElem?_eq_some_iff.mp h).1

theorem rowsBy_append (i : Nat) (rows rows' : List (Nat × DomainEvent P)) :
    rowsBy i (rows ++ rows') = rowsBy i rows ++ rowsBy i rows' := by
  unfold rowsBy
  rw [List.filter_append, List.map_append]

theorem rowsBy_eq_nil {i : Nat} {rows : List (Nat × DomainEvent P)}
    (h : ∀ r ∈ rows, r.1 ≠ i) : rowsBy i rows = [] := by
  unfold rowsBy
  rw [List.map_eq_nil_iff, List.filter_eq_nil_iff]
  exact fun r hr hsame => h r hr (of_decide_eq_true hsame)

/-- An invocation that has not flushed has no rows anywhere. -/
theorem Tagged.rowsBy_nil {s : State P ρ} (h : Tagged s) {t i : Nat}
    {tx : Tx P} (ht : s.txs[t]? = some tx)
    (hi : ∀ inv, s.invocations[i]? = some inv → inv.tx = t →
      inv.phase ≠ .flushed) : rowsBy i tx.rows = [] := by
  refine rowsBy_eq_nil fun r hr heq => ?_
  obtain ⟨inv, hinv, htx, hphase⟩ := h.own t tx ht r hr
  exact hi inv (heq ▸ hinv) htx hphase

/-- Only the rows and who is at work on them matter. -/
theorem Tagged.congr {s s' : State P ρ} (h : Tagged s)
    (htxs : s'.txs = s.txs) (hinvocations : s'.invocations = s.invocations)
    (houtbox : s'.outbox = s.outbox) : Tagged s' := by
  obtain ⟨counters, holder, outbox, ids, txs, invocations⟩ := s'
  subst htxs hinvocations houtbox
  exact ⟨h.spelled, h.joined, h.closed, h.flushing, h.own, h.blocks, h.known,
    h.shown, h.through⟩

/-- An invocation goes on before it has flushed anything. -/
theorem Tagged.change {s : State P ρ} {i : Nat} {inv inv' : Invocation P ρ}
    (h : Tagged s) (hi : s.invocations[i]? = some inv)
    (hphase : inv.phase = .handling) (htx : inv'.tx = inv.tx)
    (hspelled : Spelled inv'.buffer.buffered)
    (hclosed : inv'.phase ≠ .handling → inv'.buffer.sealed = true)
    (hnothing : inv'.phase = .flushed → inv'.buffer.buffered = []) :
    Tagged (s.setInvocation i inv') := by
  -- whoever has flushed, or is about to, is another one
  have hother : ∀ {j : Nat} {x : Invocation P ρ},
      s.invocations[j]? = some x → x.phase ≠ .handling →
        (s.setInvocation i inv').invocations[j]? = some x := by
    intro j x hx hne
    show (s.invocations.set i inv')[j]? = some x
    rw [getElem?_set_of_some hi, if_neg]
    · exact hx
    · rintro rfl
      rw [hi] at hx
      exact hne (Option.some.inj hx ▸ hphase)
  refine ⟨?_, ?_, ?_, ?_, ?_, ?_, ?_, ?_, ?_⟩
  · intro j x hx
    rcases getElem?_set_cases hi hx with ⟨rfl, rfl⟩ | ⟨-, hx⟩
    · exact hspelled
    · exact h.spelled j x hx
  · intro j x hx
    rcases getElem?_set_cases hi hx with ⟨rfl, rfl⟩ | ⟨-, hx⟩
    · rw [htx]
      exact h.joined j inv hi
    · exact h.joined j x hx
  · intro j x hx
    rcases getElem?_set_cases hi hx with ⟨rfl, rfl⟩ | ⟨-, hx⟩
    · exact hclosed
    · exact h.closed j x hx
  · intro t tx f ht hflush
    obtain ⟨x, hx, hxt, hflushing, hrest⟩ := h.flushing t tx f ht hflush
    exact ⟨x, hother hx (by rw [hflushing]; nofun), hxt, hflushing, hrest⟩
  · intro t tx ht r hr
    obtain ⟨x, hx, hxt, hflushed⟩ := h.own t tx ht r hr
    exact ⟨x, hother hx (by rw [hflushed]; nofun), hxt, hflushed⟩
  · intro j x tx hx hflushed ht a
    rcases getElem?_set_cases hi hx with ⟨rfl, rfl⟩ | ⟨-, hx⟩
    · have hnone : rowsBy j tx.rows = [] := by
        refine h.rowsBy_nil ht fun x' hx' _ hflushed' => ?_
        rw [hi] at hx'
        obtain rfl := Option.some.inj hx'
        rw [hphase] at hflushed'
        cases hflushed'
      rw [hnone, hnothing hflushed]
      exact block_nil
    · exact h.blocks j x tx hx hflushed ht a
  · intro r hr
    show r.1 < (s.invocations.set i inv').length
    rw [List.length_set]
    exact h.known r hr
  · intro j x tx hx ht
    rcases getElem?_set_cases hi hx with ⟨rfl, rfl⟩ | ⟨-, hx⟩
    · rw [htx] at ht
      exact h.shown j inv tx hi ht
    · exact h.shown j x tx hx ht
  · intro t tx ht hcommitted
    obtain ⟨x, hx, hflushed⟩ := h.through t tx ht hcommitted
    exact ⟨x, hother hx (by rw [hflushed]; nofun), hflushed⟩

/-- An invocation joins a transaction, new or not. -/
theorem Tagged.join {s : State P ρ} {t : Nat} {txs : List (Tx P)}
    (h : Tagged s) (contract : Emitter) (env : Envelope ρ)
    (hsub : ∀ (u : Nat) (tx : Tx P), txs[u]? = some tx →
      s.txs[u]? = some tx ∨ s.txs.length ≤ u ∧ tx.status = .«open» ∧
        tx.rows = [] ∧ tx.flush = none)
    (hlen : s.txs.length ≤ txs.length) (ht : t < txs.length) :
    Tagged { s.join t contract env with txs } := by
  have hold : ∀ {j : Nat} {x : Invocation P ρ}, s.invocations[j]? = some x →
      (s.join t contract env).invocations[j]? = some x := by
    intro j x hx
    show (s.invocations ++ _)[j]? = some x
    rw [List.getElem?_append_left (lt_of_some hx)]
    exact hx
  -- a transaction of an invocation that is not new is not new
  have hknown : ∀ {j : Nat} {x : Invocation P ρ} {tx : Tx P},
      s.invocations[j]? = some x → txs[x.tx]? = some tx →
        s.txs[x.tx]? = some tx := by
    intro j x tx hx hu
    rcases hsub _ tx hu with hu | ⟨hle, -⟩
    · exact hu
    · exact absurd (h.joined j x hx) (Nat.not_lt.mpr hle)
  refine ⟨?_, ?_, ?_, ?_, ?_, ?_, ?_, ?_, ?_⟩
  · intro j x hx
    rcases getElem?_concat_cases hx with hx | ⟨-, rfl⟩
    · exact h.spelled j x hx
    · exact ⟨nofun, nofun⟩
  · intro j x hx
    rcases getElem?_concat_cases hx with hx | ⟨-, rfl⟩
    · exact (h.joined j x hx).trans_le hlen
    · exact ht
  · intro j x hx
    rcases getElem?_concat_cases hx with hx | ⟨-, rfl⟩
    · exact h.closed j x hx
    · exact fun hne => absurd rfl hne
  · intro u tx f hu hflush
    rcases hsub u tx hu with hu | ⟨-, -, -, hnone⟩
    · obtain ⟨x, hx, hrest⟩ := h.flushing u tx f hu hflush
      exact ⟨x, hold hx, hrest⟩
    · rw [hnone] at hflush
      cases hflush
  · intro u tx hu r hr
    rcases hsub u tx hu with hu | ⟨-, -, hnone, -⟩
    · obtain ⟨x, hx, hrest⟩ := h.own u tx hu r hr
      exact ⟨x, hold hx, hrest⟩
    · rw [hnone] at hr
      cases hr
  · intro j x tx hx hflushed hu a
    rcases getElem?_concat_cases hx with hx | ⟨-, rfl⟩
    · exact h.blocks j x tx hx hflushed (hknown hx hu) a
    · cases hflushed
  · intro r hr
    show r.1 < (s.invocations ++ _).length
    rw [List.length_append]
    exact Nat.lt_add_right _ (h.known r hr)
  · intro j x tx hx hu
    rcases getElem?_concat_cases hx with hx | ⟨rfl, rfl⟩
    · exact h.shown j x tx hx (hknown hx hu)
    · -- the new invocation has no rows
      have hnone : rowsBy s.invocations.length tx.rows = [] := by
        rcases hsub t tx hu with hu | ⟨-, -, hnone, -⟩
        · refine h.rowsBy_nil hu fun x hx => ?_
          exact absurd (lt_of_some hx) (Nat.lt_irrefl _)
        · rw [hnone]
          rfl
      rw [hnone, ite_self]
      refine rowsBy_eq_nil fun r hr heq => ?_
      exact absurd (heq ▸ h.known r hr) (Nat.lt_irrefl _)
  · intro u tx hu hcommitted
    rcases hsub u tx hu with hu | ⟨-, hopen, -, -⟩
    · obtain ⟨x, hx, hflushed⟩ := h.through u tx hu hcommitted
      exact ⟨x, hold hx, hflushed⟩
    · rw [hopen] at hcommitted
      cases hcommitted

/-- An open transaction whose rows stay as they are. -/
theorem Tagged.setTx {s : State P ρ} {t : Nat} {tx tx' : Tx P}
    (h : Tagged s) (ht : s.txs[t]? = some tx) (hopen : tx.status = .«open»)
    (hopen' : tx'.status ≠ .committed) (hrows : tx'.rows = tx.rows)
    (hflush : ∀ f, tx'.flush = some f → ∃ inv,
      s.invocations[f.invocation]? = some inv ∧ inv.tx = t ∧
        inv.phase = .flushing ∧ Flushes inv.buffer.buffered f) :
    Tagged (s.setTx t tx') := by
  refine ⟨h.spelled, ?_, h.closed, ?_, ?_, ?_, h.known, ?_, ?_⟩
  · intro j x hx
    show x.tx < (s.txs.set t tx').length
    rw [List.length_set]
    exact h.joined j x hx
  · intro u tx'' f hu hf
    rcases getElem?_set_cases ht hu with ⟨rfl, rfl⟩ | ⟨-, hu⟩
    · exact hflush f hf
    · exact h.flushing u tx'' f hu hf
  · intro u tx'' hu r hr
    rcases getElem?_set_cases ht hu with ⟨rfl, rfl⟩ | ⟨-, hu⟩
    · rw [hrows] at hr
      exact h.own u tx ht r hr
    · exact h.own u tx'' hu r hr
  · intro j x tx'' hx hflushed hu a
    rcases getElem?_set_cases ht hu with ⟨heq, rfl⟩ | ⟨-, hu⟩
    · rw [hrows]
      exact h.blocks j x tx hx hflushed (heq ▸ ht) a
    · exact h.blocks j x tx'' hx hflushed hu a
  · intro j x tx'' hx hu
    rcases getElem?_set_cases ht hu with ⟨heq, rfl⟩ | ⟨-, hu⟩
    · have hshown := h.shown j x tx hx (heq ▸ ht)
      rw [hopen, if_neg (by decide)] at hshown
      rw [if_neg hopen']
      exact hshown
    · exact h.shown j x tx'' hx hu
  · intro u tx'' hu hcommitted
    rcases getElem?_set_cases ht hu with ⟨rfl, rfl⟩ | ⟨-, hu⟩
    · exact absurd hcommitted hopen'
    · exact h.through u tx'' hu hcommitted

theorem rowsBy_map (i j : Nat) (rows : List (DomainEvent P)) :
    rowsBy j (rows.map fun row => (i, row)) = if j = i then rows else [] := by
  unfold rowsBy
  rw [List.filter_map, List.map_map]
  split
  · rename_i heq
    have hall : rows.filter ((fun r : Nat × DomainEvent P =>
        decide (r.1 = j)) ∘ fun row => (i, row)) = rows :=
      List.filter_eq_self.mpr fun _ _ => decide_eq_true heq.symm
    rw [hall]
    exact List.map_id _
  · rename_i hne
    have hnone : rows.filter ((fun r : Nat × DomainEvent P =>
        decide (r.1 = j)) ∘ fun row => (i, row)) = [] :=
      List.filter_eq_nil_iff.mpr fun _ _ hsame =>
        hne (of_decide_eq_true hsame).symm
    rw [hnone]
    rfl

/-- The rows of a flush go into the table. -/
theorem Tagged.insert {s : State P ρ} {t i : Nat} {tx : Tx P}
    {inv : Invocation P ρ} {rows : List (DomainEvent P)} (h : Tagged s)
    (ht : s.txs[t]? = some tx) (hi : s.invocations[i]? = some inv)
    (hopen : tx.status = .«open») (hflush : tx.flush = some ⟨i, [], rows⟩) :
    Tagged ((s.setInvocation i { inv with phase := .flushed }).setTx t
      { tx with
        rows := tx.rows ++ rows.map fun row => (i, row)
        flush := none }) := by
  obtain ⟨inv', hi', rfl, hflushing, hflushes⟩ := h.flushing t tx _ ht hflush
  obtain rfl : inv' = inv := Option.some.inj (hi'.symm.trans hi)
  have hother : ∀ {j : Nat} {x : Invocation P ρ}, j ≠ i →
      s.invocations[j]? = some x →
        (s.invocations.set i { inv' with phase := .flushed })[j]? = some x := by
    intro j x hne hx
    rw [getElem?_set_of_some hi, if_neg hne]
    exact hx
  have hself : (s.invocations.set i { inv' with phase := .flushed })[i]? =
      some { inv' with phase := .flushed } := by
    rw [getElem?_set_of_some hi, if_pos rfl]
  -- who has flushed before is another one
  have hflushed : ∀ {j : Nat} {x : Invocation P ρ},
      s.invocations[j]? = some x → x.phase = .flushed → j ≠ i := by
    rintro j x hx hphase rfl
    rw [hi] at hx
    rw [← Option.some.inj hx, hflushing] at hphase
    cases hphase
  refine ⟨?_, ?_, ?_, ?_, ?_, ?_, ?_, ?_, ?_⟩
  · intro j x hx
    rcases getElem?_set_cases hi hx with ⟨rfl, rfl⟩ | ⟨-, hx⟩
    · exact h.spelled j inv' hi
    · exact h.spelled j x hx
  · intro j x hx
    show x.tx < (s.txs.set _ _).length
    rw [List.length_set]
    rcases getElem?_set_cases hi hx with ⟨rfl, rfl⟩ | ⟨-, hx⟩
    · exact h.joined j inv' hi
    · exact h.joined j x hx
  · intro j x hx hphase
    rcases getElem?_set_cases hi hx with ⟨rfl, rfl⟩ | ⟨-, hx⟩
    · exact h.closed j inv' hi (by rw [hflushing]; nofun)
    · exact h.closed j x hx hphase
  · intro u tx'' f hu hf
    rcases getElem?_set_cases ht hu with ⟨rfl, rfl⟩ | ⟨hne, hu⟩
    · cases hf
    · obtain ⟨x, hx, rfl, hrest⟩ := h.flushing u tx'' f hu hf
      refine ⟨x, hother ?_ hx, rfl, hrest⟩
      intro heq
      rw [heq, hi] at hx
      exact hne (congrArg Invocation.tx (Option.some.inj hx)).symm
  · intro u tx'' hu r hr
    rcases getElem?_set_cases ht hu with ⟨rfl, rfl⟩ | ⟨-, hu⟩
    · rcases List.mem_append.mp hr with hr | hr
      · obtain ⟨x, hx, hxt, hphase⟩ := h.own _ tx ht r hr
        exact ⟨x, hother (hflushed hx hphase) hx, hxt, hphase⟩
      · obtain ⟨row, -, rfl⟩ := List.mem_map.mp hr
        exact ⟨_, hself, rfl, rfl⟩
    · obtain ⟨x, hx, hxt, hphase⟩ := h.own u tx'' hu r hr
      exact ⟨x, hother (hflushed hx hphase) hx, hxt, hphase⟩
  · intro j x tx'' hx hphase hu a
    rcases getElem?_set_cases hi hx with ⟨rfl, rfl⟩ | ⟨hne, hx⟩
    · rcases getElem?_set_cases ht hu with ⟨-, rfl⟩ | ⟨hne, -⟩
      · have hnone : rowsBy j tx.rows = [] := by
          refine h.rowsBy_nil ht fun x hx _ hphase' => ?_
          exact hflushed hx hphase' rfl
        show Block _ (rowsFor a (rowsBy j (tx.rows ++ _)))
        rw [rowsBy_append, hnone, rowsBy_map, if_pos rfl]
        exact hflushes.done a List.not_mem_nil
      · exact absurd rfl hne
    · rcases getElem?_set_cases ht hu with ⟨heq, rfl⟩ | ⟨-, hu⟩
      · show Block _ (rowsFor a (rowsBy j (tx.rows ++ _)))
        rw [rowsBy_append, rowsBy_map, if_neg hne, List.append_nil]
        exact h.blocks j x tx hx hphase (heq ▸ ht) a
      · exact h.blocks j x tx'' hx hphase hu a
  · intro r hr
    show r.1 < (s.invocations.set _ _).length
    rw [List.length_set]
    exact h.known r hr
  · intro j x tx'' hx hu
    have hx' : ∃ x', s.invocations[j]? = some x' ∧ x'.tx = x.tx := by
      rcases getElem?_set_cases hi hx with ⟨rfl, rfl⟩ | ⟨-, hx⟩
      · exact ⟨inv', hi, rfl⟩
      · exact ⟨x, hx, rfl⟩
    obtain ⟨x', hx', hxt⟩ := hx'
    rcases getElem?_set_cases ht hu with ⟨heq, rfl⟩ | ⟨-, hu⟩
    · have hshown := h.shown j x' tx hx' (by rw [hxt, heq]; exact ht)
      have hnot : ¬ tx.status = .committed := by
        rw [hopen]
        nofun
      rw [if_neg hnot] at hshown ⊢
      exact hshown
    · exact h.shown j x' tx'' hx' (hxt ▸ hu)
  · intro u tx'' hu hcommitted
    rcases getElem?_set_cases ht hu with ⟨rfl, rfl⟩ | ⟨-, hu⟩
    · rw [show tx.status = .committed from hcommitted] at hopen
      cases hopen
    · obtain ⟨x, hx, hphase⟩ := h.through u tx'' hu hcommitted
      exact ⟨x, hother (hflushed hx hphase) hx, hphase⟩

/-- The rows of a transaction show. -/
theorem Tagged.commit {s : State P ρ} {t : Nat} {tx : Tx P}
    {inv : Invocation P ρ} {s' : State P ρ} (h : Tagged s)
    (ht : s.txs[t]? = some tx) (hopen : tx.status = .«open»)
    (hflush : tx.flush = none) (hroot : s.invocations[tx.root]? = some inv)
    (hphase : inv.phase = .flushed)
    (htxs : s'.txs = s.txs.set t { tx with status := .committed })
    (hinvocations : s'.invocations = s.invocations)
    (houtbox : s'.outbox = s.outbox ++ tx.rows) : Tagged s' := by
  refine ⟨?_, ?_, ?_, ?_, ?_, ?_, ?_, ?_, ?_⟩
  · rw [hinvocations]
    exact h.spelled
  · rw [hinvocations, htxs, List.length_set]
    exact h.joined
  · rw [hinvocations]
    exact h.closed
  · rw [hinvocations, htxs]
    intro u tx'' f hu hf
    rcases getElem?_set_cases ht hu with ⟨rfl, rfl⟩ | ⟨-, hu⟩
    · rw [show tx.flush = some f from hf] at hflush
      cases hflush
    · exact h.flushing u tx'' f hu hf
  · rw [hinvocations, htxs]
    intro u tx'' hu
    rcases getElem?_set_cases ht hu with ⟨rfl, rfl⟩ | ⟨-, hu⟩
    · exact h.own u tx ht
    · exact h.own u tx'' hu
  · rw [hinvocations, htxs]
    intro j x tx'' hx hflushed hu
    rcases getElem?_set_cases ht hu with ⟨heq, rfl⟩ | ⟨-, hu⟩
    · exact h.blocks j x tx hx hflushed (heq ▸ ht)
    · exact h.blocks j x tx'' hx hflushed hu
  · rw [hinvocations, houtbox]
    intro r hr
    rcases List.mem_append.mp hr with hr | hr
    · exact h.known r hr
    · obtain ⟨x, hx, -⟩ := h.own t tx ht r hr
      exact lt_of_some hx
  · rw [hinvocations, htxs, houtbox]
    intro j x tx'' hx hu
    rw [rowsBy_append]
    rcases getElem?_set_cases ht hu with ⟨heq, rfl⟩ | ⟨hne, hu⟩
    · have hshown := h.shown j x tx hx (heq ▸ ht)
      rw [hopen, if_neg (by decide)] at hshown
      rw [hshown]
      rfl
    · have hnone : rowsBy j tx.rows = [] := by
        refine h.rowsBy_nil ht fun x' hx' hxt _ => ?_
        rw [hx] at hx'
        exact hne (Option.some.inj hx' ▸ hxt)
      rw [hnone, List.append_nil]
      exact h.shown j x tx'' hx hu
  · rw [hinvocations, htxs]
    intro u tx'' hu hcommitted
    rcases getElem?_set_cases ht hu with ⟨rfl, rfl⟩ | ⟨-, hu⟩
    · exact ⟨inv, hroot, hphase⟩
    · exact h.through u tx'' hu hcommitted

/-! ## The contract

Counters and blocks together give rows without gaps, and in each invocation the
order of its emissions. -/

/-- An aggregate is spelled as it was in the buffer before. -/
def OneForm (c : Conf (State P ρ) Event) : Act P ρ → Prop
  | .emit i _ emission _ _ => ∀ inv ∈ c.st.invocations[i]?,
      ∀ e ∈ inv.buffer.buffered,
        e.aggregate.stored = emission.aggregate.stored →
          e.aggregate = emission.aggregate
  | _ => True

instance (c : Conf (State P ρ) Event) :
    ∀ a : Act P ρ, Decidable (OneForm c a)
  | .emit i _ _ _ _ =>
      inferInstanceAs (Decidable (∀ inv ∈ c.st.invocations[i]?, _))
  | .begin .. | .callAtomic .. | .flush _ | .advance _ | .insert _ |
    .commit _ | .rollback _ => .isTrue trivial

/-- The committed rows of an aggregate are numbered from one on, in the order
of their commits, up to its counter. Those of one invocation are the events
that it has emitted for the aggregate, numbered one after the other in that
order; and an invocation whose transaction has not committed has none. -/
structure GapFree (s : State P ρ) : Prop where
  sequences : ∀ a, sequencesOf a s.outbox =
    List.range' 1 (last (s.counters a))
  consecutive : ∀ (i : Nat) (inv : Invocation P ρ) (tx : Tx P),
    s.invocations[i]? = some inv → s.txs[inv.tx]? = some tx →
      tx.status = .committed → inv.phase = .flushed → ∀ a,
        Block (emittedIds a inv.buffer.buffered)
          (rowsFor a (rowsBy i s.outbox))
  flushed : ∀ (t : Nat) (tx : Tx P), s.txs[t]? = some tx →
    tx.status = .committed → ∃ inv, s.invocations[tx.root]? = some inv ∧
      inv.phase = .flushed
  uncommitted : ∀ (i : Nat) (inv : Invocation P ρ) (tx : Tx P),
    s.invocations[i]? = some inv → s.txs[inv.tx]? = some tx →
      tx.status ≠ .committed → rowsBy i s.outbox = []

theorem spelled_append {buffered : List (BufferedEmission P)}
    {e : BufferedEmission P} (h : Spelled buffered)
    (huuid : UUID_PATTERN e.aggregate.id = true)
    (hform : ∀ e' ∈ buffered, e'.aggregate.stored = e.aggregate.stored →
      e'.aggregate = e.aggregate) : Spelled (buffered ++ [e]) := by
  refine ⟨?_, ?_⟩
  · intro e' he'
    rcases List.mem_append.mp he' with he' | he'
    · exact h.uuid e' he'
    · rw [List.mem_singleton.mp he']
      exact huuid
  · intro e₁ h₁ e₂ h₂ hsame
    rcases List.mem_append.mp h₁ with h₁ | h₁ <;>
      rcases List.mem_append.mp h₂ with h₂ | h₂
    · exact h.oneForm e₁ h₁ e₂ h₂ hsame
    · rw [List.mem_singleton.mp h₂] at hsame ⊢
      exact hform e₁ h₁ hsame
    · rw [List.mem_singleton.mp h₁] at hsame ⊢
      exact (hform e₂ h₂ hsame.symm).symm
    · rw [List.mem_singleton.mp h₁, List.mem_singleton.mp h₂]

theorem spelled_emit {b b' : EmitBuffer P} {definition : EventDefinition P}
    {emission : EventEmission P} {eventId nowMs : Nat}
    (h : Spelled b.buffered)
    (hemit : b.emit definition emission eventId nowMs = .ok b')
    (hform : ∀ e ∈ b.buffered,
      e.aggregate.stored = emission.aggregate.stored →
        e.aggregate = emission.aggregate) : Spelled b'.buffered := by
  obtain ⟨-, huuid, payload, rfl⟩ := emit_eq_ok hemit
  exact spelled_append h huuid hform

/-- A flush of nothing has nothing to go over. -/
theorem buffered_eq_nil {buffered : List (BufferedEmission P)}
    (h : Splits buffered []) : buffered = [] := by
  rw [List.eq_nil_iff_forall_not_mem]
  intro e he
  obtain ⟨g, hg, -⟩ := h.found e he
  exact List.not_mem_nil hg

theorem tagged_of_reach {c : Conf (State P ρ) Event}
    (h : machine.ReachWhen OneForm c) : Tagged c.st := by
  refine Machine.ReachWhen.invariant (I := fun c => Tagged c.st) ?_ ?_ h
  · refine ⟨?_, ?_, ?_, ?_, ?_, ?_, nofun, ?_, ?_⟩ <;> intro x y <;>
      simp [Machine.start, machine, State.initial]
  intro c a c' _ ih hform hnext
  obtain ⟨s, out, hs, rfl⟩ := Machine.next_eq_some.mp hnext
  show Tagged s
  cases moves_of_step hs with
  | begin =>
      refine ih.join _ _ ?_ ?_ ?_
      · intro u tx hu
        rcases getElem?_concat_cases hu with hu | ⟨rfl, rfl⟩
        · exact Or.inl hu
        · exact Or.inr ⟨le_rfl, rfl, rfl, rfl⟩
      · rw [List.length_append]
        exact Nat.le_add_right _ _
      · rw [List.length_append]
        exact Nat.lt_add_one _
  | callAtomic hroot =>
      exact ih.join _ _ (fun u tx hu => Or.inl hu) le_rfl (ih.joined _ _ hroot)
  | refused => exact ih
  | @emitted i inv definition emission eventId nowMs buffer hi hid hemit =>
      obtain ⟨hopen, -, payload, hbuffer⟩ := emit_eq_ok hemit
      have hhandling : inv.phase = .handling := by
        by_contra hphase
        rw [ih.closed i inv hi hphase] at hopen
        cases hopen
      have hspelled := spelled_emit (ih.spelled i inv hi) hemit
        (hform inv hi)
      have hchange : Tagged (c.st.setInvocation i { inv with buffer }) :=
        ih.change hi hhandling rfl hspelled
          (fun hphase => absurd hhandling hphase)
          (fun hphase => nomatch hhandling.symm.trans hphase)
      exact hchange.congr rfl rfl rfl
  | @failed i inv message hi hphase =>
      have hspelled : Spelled inv.buffer.buffered := ih.spelled i inv hi
      exact ih.change hi hphase rfl hspelled (fun _ => rfl) nofun
  | @nothing i inv hi hphase hgroups =>
      have hspelled : Spelled inv.buffer.buffered := ih.spelled i inv hi
      refine ih.change hi hphase rfl hspelled (fun _ => rfl) fun _ => ?_
      exact buffered_eq_nil (splits_of_groups hspelled hgroups)
  | @flush i inv tx groups hi htx hphase hopen hflush hgroups =>
      have hspelled : Spelled inv.buffer.buffered := ih.spelled i inv hi
      have hsplits := splits_of_groups hspelled hgroups
      refine Tagged.setTx (ih.change hi hphase rfl hspelled
        (fun _ => rfl) nofun) htx hopen (by rw [hopen]; nofun) rfl ?_
      intro f hf
      obtain rfl := Option.some.inj hf
      refine ⟨{ inv with
        buffer := { inv.buffer with «sealed» := true }
        phase := .flushing }, ?_, rfl, rfl, flushes_of_splits hsplits i⟩
      show (c.st.invocations.set i _)[i]? = _
      rw [getElem?_set_of_some hi, if_pos rfl]
  | @advance t i tx g left rows inv row ht hi hopen hflush hfree hrow =>
      obtain ⟨inv', hi', rfl, hflushing, hflushes⟩ := ih.flushing t tx _ ht
        hflush
      have hset : Tagged (c.st.setTx inv'.tx { tx with
          written := Function.update tx.written (counterOf g) (some row)
          flush := some ⟨i, left, rows ++ inv.env.rows
            (row.lastSequence - g.items.length) g.items⟩ }) := by
        refine ih.setTx ht hopen (by rw [hopen]; nofun) rfl fun f hf => ?_
        obtain rfl := Option.some.inj hf
        exact ⟨inv', hi', rfl, hflushing, hflushes.advance _ _⟩
      exact hset.congr rfl rfl rfl
  | insert ht hi hopen hflush => exact ih.insert ht hi hopen hflush
  | commit ht hopen hflush hroot hphase =>
      exact ih.commit ht hopen hflush hroot hphase rfl rfl rfl
  | @rollback t tx ht hopen =>
      have hset : Tagged (c.st.setTx t { tx with status := .rolledBack }) :=
        ih.setTx ht hopen nofun rfl fun f hf => ih.flushing t tx f ht hf
      exact hset.congr rfl rfl rfl

theorem counted_of_reach {c : Conf (State P ρ) Event}
    (h : machine.ReachWhen OneForm c) : Counted c.st := by
  refine Machine.ReachWhen.invariant (I := fun c => Counted c.st) ?_ ?_ h
  · exact ⟨fun _ => rfl, fun t tx ht => by
      simp [Machine.start, machine, State.initial] at ht⟩
  intro c a c' hc ih _ hnext
  obtain ⟨s, out, hs, rfl⟩ := Machine.next_eq_some.mp hnext
  show Counted s
  -- a step after which each transaction is as it was
  have hsame : ∀ {s' : State P ρ}, s'.counters = c.st.counters →
      s'.holder = c.st.holder → s'.outbox = c.st.outbox →
        s'.txs = c.st.txs → Counted s' := by
    intro s' hcounters hholder houtbox htxs
    refine ih.quiet hcounters hholder houtbox fun t tx ht hopen => Or.inl ?_
    exact ⟨tx, htxs ▸ ht, hopen, rfl, rfl⟩
  cases moves_of_step hs with
  | begin =>
      refine ih.quiet rfl rfl rfl fun t tx ht hopen => ?_
      rcases getElem?_concat_cases ht with ht | ⟨-, rfl⟩
      · exact Or.inl ⟨tx, ht, hopen, rfl, rfl⟩
      · exact Or.inr ⟨fun _ => rfl, rfl⟩
  | callAtomic => exact hsame rfl rfl rfl rfl
  | refused => exact ih
  | emitted => exact hsame rfl rfl rfl rfl
  | failed => exact hsame rfl rfl rfl rfl
  | nothing => exact hsame rfl rfl rfl rfl
  | @flush i inv tx groups hi htx hphase hopen hflush hgroups =>
      refine ih.quiet rfl rfl rfl fun t tx' ht hopen' => Or.inl ?_
      rcases getElem?_set_cases htx ht with ⟨rfl, rfl⟩ | ⟨-, ht⟩
      · refine ⟨tx, htx, hopen, rfl, ?_⟩
        unfold Tx.pending
        rw [hflush]
        rfl
      · exact ⟨tx', ht, hopen', rfl, rfl⟩
  | advance ht hi hopen hflush hfree hrow =>
      obtain ⟨inv, -, -, -, hflushes⟩ :=
        (tagged_of_reach hc).flushing _ _ _ ht hflush
      exact ih.advance ht hopen hflush hfree hrow
        (hflushes.same _ List.mem_cons_self)
  | @insert t i tx rows inv ht hi hopen hflush =>
      refine ih.quiet rfl rfl rfl fun u tx' hu hopen' => Or.inl ?_
      rcases getElem?_set_cases ht hu with ⟨rfl, rfl⟩ | ⟨-, hu⟩
      · refine ⟨tx, ht, hopen, rfl, ?_⟩
        unfold Tx.pending
        rw [hflush]
        exact List.append_nil _
      · exact ⟨tx', hu, hopen', rfl, rfl⟩
  | commit ht hopen hflush => exact ih.commit ht hopen hflush
  | rollback ht => exact ih.rollback ht

theorem gapFree_of_reach {c : Conf (State P ρ) Event}
    (h : machine.ReachWhen OneForm c) : GapFree c.st := by
  have htagged := tagged_of_reach h
  refine ⟨(counted_of_reach h).shown, ?_, htagged.through, ?_⟩
  · intro i inv tx hi ht hcommitted hflushed a
    rw [htagged.shown i inv tx hi ht, if_pos hcommitted]
    exact htagged.blocks i inv tx hi hflushed ht a
  · intro i inv tx hi ht hcommitted
    rw [htagged.shown i inv tx hi ht, if_neg hcommitted]

/-! ## Two emitters of one order

A run in which a second transaction waits for the counter, and a third gives
its number back by a rollback. -/

/-- An event of an order. -/
def order (status : String) : EventDefinition Unit :=
  ⟨"orders." ++ status, 1, .global, .ok⟩

/-- An emission about one order. -/
def anOrder : EventEmission Unit :=
  ⟨⟨"order", "00000000-0000-0000-0000-00000000000a"⟩, ()⟩

/-- An emission about a product. -/
def aProduct : EventEmission Unit :=
  ⟨⟨"product", "00000000-0000-0000-0000-00000000000b"⟩, ()⟩

/-- An action that emits two events of orders. -/
def emitter : Emitter :=
  ⟨"orders.confirm", .write, ["orders.confirmed", "orders.paid"]⟩

/-- The envelope of a system's call. -/
def worker : Envelope Unit :=
  ⟨⟨.tx, "r", "c", "system", .system "worker", .systemGlobal "worker"⟩, "r"⟩

/-- A root and its atomic callee emit; another emitter of the same order waits
for the counter, and goes on when they have committed. A third is rolled back
with a number it had taken. -/
def twoEmitters : List (Act Unit Unit) :=
  [.begin emitter worker, .callAtomic 0 emitter worker,
    .emit 1 (order "paid") aProduct 0 0, .flush 1, .advance 0, .insert 0,
    .emit 0 (order "confirmed") anOrder 1 0,
    .emit 0 (order "paid") aProduct 2 0, .emit 0 (order "paid") anOrder 3 0,
    .begin emitter worker, .emit 2 (order "paid") anOrder 4 0, .flush 2,
    .begin emitter worker, .emit 3 (order "paid") anOrder 5 0, .flush 3,
    .advance 2, .rollback 2,
    .flush 0, .advance 0, .advance 0, .insert 0, .commit 0,
    .advance 1, .insert 1, .commit 1]

theorem gapFree_of_reach_twoEmitters :
    ∃ c, machine.exec machine.start twoEmitters = some c ∧
      c.st.outbox.map (fun r => (r.2.id, r.2.aggregateSequence)) =
        [(0, 1), (1, 1), (3, 2), (2, 2), (4, 3)] ∧ GapFree c.st := by
  obtain ⟨c, hexec, hc⟩ : machine.EndsIn
      (fun c => c.st.outbox.map (fun r => (r.2.id, r.2.aggregateSequence)) =
        [(0, 1), (1, 1), (3, 2), (2, 2), (4, 3)]) twoEmitters := by
    decide
  exact ⟨c, hexec, hc, gapFree_of_reach
    (Machine.ReachWhen.of_exec .start twoEmitters (by decide) hexec)⟩

end Shozee.Events.Sequences
