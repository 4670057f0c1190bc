import Shozee.Run.Grouping
import Shozee.Run.Text
import Shozee.Pipeline.Context
import Shozee.Events.Delivery

/-!
# Emitting

`ctx.emit` checks an event and buffers it; the flush gives the buffered events
their sequences and makes outbox rows of them. The flush goes aggregate by
aggregate: one statement moves the counter of the aggregate on by the number
of its events, and these take the numbers up to the new count. This file is
what a flush computes; the transaction that it is part of is in `Sequences`.

The database keeps an aggregate's id as a `uuid`, in lower case
(`Aggregate.stored`), where the buffer goes by its text.
-/

namespace Shozee.Events

open Shozee.Run Shozee.Pipeline
open Shozee.Confirmation (ActionRisk)

/-- Whether an event belongs to a company. -/
inductive EventScope
  | tenant
  | global
deriving DecidableEq, Repr

/-- A defined event. Its schema answers with the parsed payload or with its
issues. -/
structure EventDefinition (P : Type) where
  name : String
  version : Nat
  scope : EventScope
  payload : P → Except String P

/-- What a handler says of an event. -/
structure EventEmission (P : Type) where
  aggregate : Aggregate
  payload : P

/-- What the buffer reads of its action's contract. -/
structure Emitter where
  name : String
  risk : ActionRisk
  emits : List String
deriving DecidableEq, Repr

/-- An event that waits for the end of its handler. -/
structure BufferedEmission (P : Type) where
  definition : EventDefinition P
  aggregate : Aggregate
  eventId : Nat
  occurredAt : Nat
  payload : P

/-- What a handler has emitted. A sealed buffer takes nothing more. -/
structure EmitBuffer (P : Type) where
  contract : Emitter
  buffered : List (BufferedEmission P)
  «sealed» : Bool

variable {P ρ : Type}

/-- The buffer of a handler that begins. -/
def createEmitBuffer (contract : Emitter) : EmitBuffer P :=
  ⟨contract, [], false⟩

/-- `ctx.emit`, or the message of its `CoreInvariantError`. -/
def EmitBuffer.emit (b : EmitBuffer P) (definition : EventDefinition P)
    (emission : EventEmission P) (eventId nowMs : Nat) :
    Except String (EmitBuffer P) :=
  let action := b.contract.name
  if b.sealed then
    .error ("\"" ++ action ++ "\" called ctx.emit after its outbox flush — " ++
      "events are emitted only while the handler runs")
  else if b.contract.risk = .read then
    .error ("read action \"" ++ action ++ "\" cannot emit events — a " ++
      "read-only transaction cannot write the outbox (core.md §4)")
  else if definition.name ∉ b.contract.emits then
    .error ("action \"" ++ action ++ "\" emitted undeclared event \"" ++
      definition.name ++ "\" — every emitted event must be listed in the " ++
      "contract's emits (core.md §6)")
  else if emission.aggregate.type.toList.all isWhiteSpace then
    .error ("\"" ++ action ++ "\" emitted \"" ++ definition.name ++
      "\" with an empty aggregate type")
  else if UUID_PATTERN emission.aggregate.id = false then
    .error ("\"" ++ action ++ "\" emitted \"" ++ definition.name ++
      "\" with a malformed aggregate id — aggregate ids are row UUIDs " ++
      "(db.md §4)")
  else
    match definition.payload emission.payload with
    | .error issues =>
        .error ("payload of \"" ++ definition.name ++ "\" emitted by \"" ++
          action ++ "\" failed the event's schema: " ++ issues)
    | .ok payload =>
        .ok { b with
          buffered := b.buffered ++
            [⟨definition, emission.aggregate, eventId, nowMs, payload⟩] }

/-! ## Groups

Emissions are grouped by a text that is made of the company, the type and the
id of the aggregate. The groups keep the order in which the first of each was
emitted. -/

/-- `resolveEventCompanyId`. -/
def resolveEventCompanyId (actionName : String)
    (definition : EventDefinition P) (ctx : ActionCtx ρ) :
    Except String (Option String) :=
  match definition.scope with
  | .global => .ok none
  | .tenant =>
      match effectiveCompanyId ctx with
      | none =>
          .error ("\"" ++ actionName ++ "\" emitted tenant-scope event \"" ++
            definition.name ++ "\" without a company scope — tenant events " ++
            "require a verified companyId (core.md §6)")
      | some companyId => .ok (some companyId)

/-- An emission with the company of its envelope. -/
structure ScopedEmission (P : Type) extends BufferedEmission P where
  companyId : Option String

/-- An `AggregateGroup`; its aggregate and company are its first emission's. -/
abbrev AggregateGroup (P : Type) := Run.Group (ScopedEmission P)

/-- The text that the emissions are grouped by. -/
def groupKey (emission : ScopedEmission P) : String :=
  emission.aggregate.type ++ "\x00" ++ emission.aggregate.id

/-- An event with its company. -/
def scopeEmission (actionName : String) (ctx : ActionCtx ρ)
    (emission : BufferedEmission P) : Except String (ScopedEmission P) :=
  (resolveEventCompanyId actionName emission.definition ctx).map
    fun companyId => ⟨emission, companyId⟩

/-- The events by their aggregates, both in the order they were met. -/
def groupByAggregate (actionName : String)
    (buffered : List (BufferedEmission P)) (ctx : ActionCtx ρ) :
    Except String (List (AggregateGroup P)) :=
  (buffered.mapM (scopeEmission actionName ctx)).map (Run.Group.groupBy groupKey)

/-! ## Rows

The upsert on the counter, and the rows that a group becomes. They take the
numbers up to the new count. -/

/-- A row of `event_aggregate_sequences`, less its key. -/
structure AggregateSequence where
  companyId : Option String
  lastSequence : Nat
deriving DecidableEq, Repr

/-- The upsert of `advanceAggregateSequence`. -/
def advanceAggregateSequence (row : Option AggregateSequence)
    (companyId : Option String) (count : Nat) : AggregateSequence :=
  match row with
  | none => ⟨companyId, count⟩
  | some row => { row with lastSequence := row.lastSequence + count }

/-- The aggregate as the database keeps it. -/
def Aggregate.stored (aggregate : Aggregate) : Aggregate :=
  { aggregate with id := .ofList (aggregate.id.toList.map Char.toLower) }

/-- A new row of `domain_events`. -/
structure DomainEvent (P : Type) where
  id : Nat
  name : String
  version : Nat
  occurredAt : Nat
  companyId : Option String
  aggregate : Aggregate
  aggregateSequence : Nat
  actor : ActionActor
  channel : String
  requestId : String
  correlationId : String
  causationId : String
  payload : P
deriving DecidableEq

/-- What a flush is given, with its own durable actor. -/
structure Envelope (ρ : Type) where
  ctx : ActionCtx ρ
  causationId : String

/-- The actor in a row. A link's caller has none of their own. -/
def Envelope.actor (env : Envelope ρ) : ActionActor :=
  match env.ctx.principal with
  | .share _ _ => SHARE_DURABLE_ACTOR
  | _ => env.ctx.actor

/-- The row of an event, under the sequence that it has got. -/
def Envelope.row (env : Envelope ρ) (emission : ScopedEmission P)
    (sequence : Nat) : DomainEvent P where
  id := emission.eventId
  name := emission.definition.name
  version := emission.definition.version
  occurredAt := emission.occurredAt
  companyId := emission.companyId
  aggregate := emission.aggregate.stored
  aggregateSequence := sequence
  actor := env.actor
  channel := env.ctx.channel
  requestId := env.ctx.requestId
  correlationId := env.ctx.correlationId
  causationId := env.causationId
  payload := emission.payload

/-- The rows of a group, numbered on from `sequence`. -/
def Envelope.rows (env : Envelope ρ) (sequence : Nat) :
    List (ScopedEmission P) → List (DomainEvent P)
  | [] => []
  | emission :: emissions =>
      env.row emission (sequence + 1) :: env.rows (sequence + 1) emissions

/-- What the flush goes over, or the message of its `CoreInvariantError`. -/
def EmitBuffer.groups (b : EmitBuffer P) (env : Envelope ρ) :
    Except String (List (AggregateGroup P)) :=
  if b.buffered.isEmpty then .ok []
  else
    match env.actor with
    | .anonymous =>
        .error ("\"" ++ b.contract.name ++ "\" flushed events with an " ++
          "anonymous actor — event envelopes accept user/system actors " ++
          "only (core.md §2)")
    | _ => groupByAggregate b.contract.name b.buffered env.ctx

/-! ## What the buffer holds

Where ids are UUIDs and each aggregate is spelled in one way, the text of a
group determines its aggregate, so that no two groups move one counter. -/

/-- An emission that is let through is appended. -/
theorem emit_eq_ok {b b' : EmitBuffer P} {definition : EventDefinition P}
    {emission : EventEmission P} {eventId nowMs : Nat}
    (h : b.emit definition emission eventId nowMs = .ok b') :
    b.sealed = false ∧ UUID_PATTERN emission.aggregate.id = true ∧
      ∃ payload, b' = { b with
        buffered := b.buffered ++
          [⟨definition, emission.aggregate, eventId, nowMs, payload⟩] } := by
  unfold EmitBuffer.emit at h
  split at h
  · cases h
  · rename_i hsealed
    split at h
    · cases h
    · split at h
      · cases h
      · split at h
        · cases h
        · split at h
          · cases h
          · rename_i huuid
            split at h
            · cases h
            · rename_i payload hpayload
              cases h
              exact ⟨by simpa using hsealed, by simpa using huuid, payload, rfl⟩

/-- Each id is a UUID, and each aggregate is spelled in one way. -/
structure Spelled (buffered : List (BufferedEmission P)) : Prop where
  uuid : ∀ e ∈ buffered, UUID_PATTERN e.aggregate.id = true
  oneForm : ∀ e ∈ buffered, ∀ e' ∈ buffered,
    e.aggregate.stored = e'.aggregate.stored → e.aggregate = e'.aggregate

/-- The text of a group determines its aggregate. -/
theorem groupKey_inj {e e' : ScopedEmission P}
    (huuid : UUID_PATTERN e.aggregate.id = true)
    (huuid' : UUID_PATTERN e'.aggregate.id = true)
    (h : groupKey e = groupKey e') : e.aggregate = e'.aggregate := by
  have htext := congrArg String.toList h
  simp only [groupKey, String.toList_append] at htext
  have hlength : e.aggregate.id.toList.length = e'.aggregate.id.toList.length :=
    (length_of_uuid huuid).trans (length_of_uuid huuid').symm
  obtain ⟨htype, hid⟩ := List.append_inj' htext hlength
  have htype := List.append_cancel_right htype
  calc e.aggregate = ⟨e.aggregate.type, e.aggregate.id⟩ := rfl
    _ = ⟨e'.aggregate.type, e'.aggregate.id⟩ := by
      rw [String.ext htype, String.ext hid]
    _ = e'.aggregate := rfl

theorem mapM_scopeEmission {actionName : String} {ctx : ActionCtx ρ} :
    ∀ {buffered : List (BufferedEmission P)}
      {envelopes : List (ScopedEmission P)},
      buffered.mapM (scopeEmission actionName ctx) = .ok envelopes →
        envelopes.map ScopedEmission.toBufferedEmission = buffered := by
  intro buffered
  induction buffered with
  | nil =>
      intro envelopes h
      cases h
      rfl
  | cons e buffered ih =>
      intro envelopes h
      rw [List.mapM_cons] at h
      cases hscope : scopeEmission actionName ctx e with
      | error message =>
          rw [hscope] at h
          cases h
      | ok e' =>
          rw [hscope] at h
          cases hrest : buffered.mapM (scopeEmission actionName ctx) with
          | error message =>
              rw [hrest] at h
              cases h
          | ok rest =>
              rw [hrest] at h
              cases h
              rw [List.map_cons, ih hrest]
              unfold scopeEmission at hscope
              cases hcompany : resolveEventCompanyId actionName e.definition
                  ctx with
              | error message =>
                  rw [hcompany] at hscope
                  cases hscope
              | ok companyId =>
                  rw [hcompany] at hscope
                  cases hscope
                  rfl

/-! ## What a flush goes over

Every emission is in the one group of its aggregate, in the order of the
emissions. -/

/-- The aggregate whose counter a group moves on. -/
def counterOf (g : AggregateGroup P) : Aggregate :=
  g.first.aggregate.stored

/-- The ids of the events of an aggregate, in the order of their emission. -/
def emittedIds (a : Aggregate) (buffered : List (BufferedEmission P)) :
    List Nat :=
  (buffered.filter fun e => e.aggregate.stored = a).map
    BufferedEmission.eventId

/-- One group for each aggregate, with all its events in their order. -/
structure Splits (buffered : List (BufferedEmission P))
    (groups : List (AggregateGroup P)) : Prop where
  nodup : (groups.map counterOf).Nodup
  same : ∀ g ∈ groups, ∀ e ∈ g.items, e.aggregate.stored = counterOf g
  ids : ∀ g ∈ groups, g.items.map (fun e => e.eventId) =
    emittedIds (counterOf g) buffered
  found : ∀ e ∈ buffered, ∃ g ∈ groups, counterOf g = e.aggregate.stored

theorem splits_of_grouped {envelopes : List (ScopedEmission P)}
    {groups : List (AggregateGroup P)}
    (hspelled : Spelled (envelopes.map ScopedEmission.toBufferedEmission))
    (h : Run.Group.Grouped groupKey envelopes groups) :
    Splits (envelopes.map ScopedEmission.toBufferedEmission) groups := by
  have huuid : ∀ e ∈ envelopes, UUID_PATTERN e.aggregate.id = true :=
    fun e he => hspelled.uuid _ (List.mem_map_of_mem he)
  -- two emissions have one key if and only if they are stored as one aggregate
  have hkey : ∀ e ∈ envelopes, ∀ e' ∈ envelopes,
      groupKey e = groupKey e' ↔ e.aggregate.stored = e'.aggregate.stored := by
    intro e he e' he'
    constructor
    · intro hsame
      rw [groupKey_inj (huuid e he) (huuid e' he') hsame]
    · intro hsame
      have haggregate := hspelled.oneForm _ (List.mem_map_of_mem he) _
        (List.mem_map_of_mem he') hsame
      unfold groupKey
      rw [haggregate]
  have hmem : ∀ g ∈ groups, ∀ e ∈ g.items, e ∈ envelopes := by
    intro g hg e he
    rw [h.items g hg] at he
    exact List.mem_of_mem_filter he
  have hfirst : ∀ g ∈ groups, g.first ∈ envelopes :=
    fun g hg => hmem g hg _ List.mem_cons_self
  refine ⟨?_, ?_, ?_, ?_⟩
  · have hpair := List.pairwise_map.mp h.nodup
    refine List.pairwise_map.mpr (hpair.imp_of_mem ?_)
    intro g g' hg hg' hne hsame
    exact hne ((hkey _ (hfirst g hg) _ (hfirst g' hg')).mpr hsame)
  · intro g hg e he
    have hin := hmem g hg e he
    rw [h.items g hg, List.mem_filter] at he
    exact (hkey e hin _ (hfirst g hg)).mp (of_decide_eq_true he.2)
  · intro g hg
    unfold emittedIds
    rw [h.items g hg, List.filter_map, List.map_map]
    congr 1
    refine List.filter_congr fun e he => ?_
    exact decide_eq_decide.mpr (hkey e he _ (hfirst g hg))
  · intro e he
    obtain ⟨e', hin, rfl⟩ := List.mem_map.mp he
    obtain ⟨g, hg, hsame⟩ := h.found e' hin
    exact ⟨g, hg, (hkey _ (hfirst g hg) _ hin).mp hsame⟩

/-- What the flush goes over splits the buffer. -/
theorem splits_of_groups {b : EmitBuffer P} {env : Envelope ρ}
    {groups : List (AggregateGroup P)} (hspelled : Spelled b.buffered)
    (h : b.groups env = .ok groups) : Splits b.buffered groups := by
  unfold EmitBuffer.groups at h
  split at h
  · rename_i hempty
    cases h
    rw [List.isEmpty_iff.mp hempty]
    exact ⟨List.nodup_nil, nofun, nofun, nofun⟩
  · split at h
    · cases h
    · unfold groupByAggregate at h
      cases henvelopes : b.buffered.mapM (scopeEmission b.contract.name
          env.ctx) with
      | error message =>
          rw [henvelopes] at h
          cases h
      | ok envelopes =>
          rw [henvelopes] at h
          cases h
          have hbuffered := mapM_scopeEmission henvelopes
          rw [← hbuffered] at hspelled ⊢
          exact splits_of_grouped hspelled (Run.Group.grouped_groupBy _ _)

/-! ## How rows are numbered

The rows of a group are numbered one after the other, from the old count on. -/

theorem rows_spec (env : Envelope ρ) (sequence : Nat)
    (emissions : List (ScopedEmission P)) :
    (env.rows sequence emissions).map DomainEvent.id =
        emissions.map (fun e => e.eventId) ∧
      (env.rows sequence emissions).map DomainEvent.aggregateSequence =
        List.range' (sequence + 1) emissions.length ∧
      (env.rows sequence emissions).map DomainEvent.aggregate =
        emissions.map (fun e => e.aggregate.stored) := by
  induction emissions generalizing sequence with
  | nil => exact ⟨rfl, rfl, rfl⟩
  | cons e emissions ih =>
      obtain ⟨hids, hsequences, haggregates⟩ := ih (sequence + 1)
      simp only [Envelope.rows, List.map_cons, hids, hsequences, haggregates,
        List.length_cons, List.range'_succ]
      exact ⟨rfl, rfl, rfl⟩

/-- The new count is the old one and the group. -/
theorem advance_lastSequence (row : Option AggregateSequence)
    (companyId : Option String) (count : Nat) :
    (advanceAggregateSequence row companyId count).lastSequence =
      (row.map AggregateSequence.lastSequence).getD 0 + count := by
  cases row with
  | none =>
      show count = 0 + count
      omega
  | some row => rfl

end Shozee.Events
