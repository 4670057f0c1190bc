import Shozee.Run.Machine
import Shozee.Run.Entries
import Shozee.Turns.Statements
import Shozee.Budget.Guard

/-!
# Reservations, turns and whoever ends them

A request reserves, is accepted or not, and gives back what it took if it
stored no turn; whoever ends a turn gives the turn's hold back unless the turn
reached the model. Requests and finishers are the parties of this machine.
Each call of the budget store is one step of one party, and any number of
parties interleave between any two of them.

An accept, a start and a finish are each one transaction on the turns, and one
step here: what they do to the rows is what such a transaction does when it
commits. What the transaction tells its caller, and whether it can tell it at
all, is the environment's choice (`AcceptFate`).

A party that is still at work when a run ends may have crashed. The store
itself does not fail.
-/

namespace Shozee.Budget

open Shozee.Run Shozee.Turns

/-- One request on `/kit/chat` or an answer's route. The company id is in its
canonical casing; a request of these routes never settles in the request. -/
structure Request where
  ctx : StaffCtx
  input : AcceptTurnInput
  unsettled : input.settled = false
  kyivDate : Text
  limits : Limits
deriving DecidableEq

/-- The turn that a request is for. -/
def Request.identity (r : Request) : TurnIdentity :=
  r.input.ref.identity r.ctx.companyId

/-- The key that its hold is stored under. -/
def Request.key (r : Request) : HoldKey := ⟨r.identity, r.kyivDate⟩

/-- The next call of one party. `dropping` is the release of a hold, by a
request or by whoever ended the turn. -/
inductive Phase
  | addingCompany (r : Request)
  | addingGlobal (r : Request) (hold : Hold)
  | claiming (r : Request) (hold : Hold)
  | undoingCompany (r : Request) (hold : Hold) (after : Option Reservation)
  | undoingGlobal (r : Request) (hold : Hold) (after : Option Reservation)
  | reserved (r : Request) (reservation : Reservation)
  | dropping (key : HoldKey) (hold : Hold) (byRequest : Bool)
  | givingCompany (key : HoldKey) (hold : Hold)
  | givingGlobal (key : HoldKey) (hold : Hold)
  | ended
deriving DecidableEq

/-- The counters, the holds, the turns and the calls in progress. -/
structure State where
  counter : CounterKey → ℚ
  holds : Entries HoldKey StoredHold
  turns : List TurnRow
  parties : List Phase

/-- Nothing spent and nothing held. -/
def State.initial : State where
  counter := fun _ => 0
  holds := .empty
  turns := []
  parties := []

/-- How an accept goes. `wrongOwner` and `refused` came before its commit; an
`unknown` failure may have come after it. -/
inductive AcceptFate
  | runs
  | wrongOwner
  | refused
  | unknown (committed : Bool)
deriving DecidableEq, Repr

/-- Who ends a turn that its worker will not finish. -/
inductive Recovery
  | interrupt
  | sweep
deriving DecidableEq, Repr

/-- What a way of recovering does with a turn. -/
def Recovery.finaliser : Recovery → Finaliser
  | .interrupt => interruptFinaliser
  | .sweep => sweepFinaliser

/-- The steps of the system: store calls of the guard, transactions of the
turns, and the time between. -/
inductive Act
  | begin (r : Request)
  | call (p : Nat)
  | decline (p : Nat)
  | accept (p : Nat) (now : Int) (continuesCommandId : Option Text)
      (fate : AcceptFate)
  | start (identity : TurnIdentity) (now timeoutMs : Int)
  | finish (identity : TurnIdentity) (status : FinalStatus) (now : Int)
      (reachedModel : Bool)
  | recover (recovery : Recovery) (identity : TurnIdentity) (now : Int)
deriving DecidableEq

/-- `charged` is a turn that ends and keeps its reservation. -/
inductive Event
  | granted (counter : CounterKey) (capUsd : ℚ)
  | recorded (key : HoldKey)
  | dropped (key : HoldKey)
  | gaveBack (key : HoldKey) (counter : CounterKey)
  | charged (key : HoldKey) (hold : BudgetHold)
deriving DecidableEq

/-- One call changed. -/
def State.setPhase (s : State) (p : Nat) (ph : Phase) : State :=
  { s with parties := s.parties.set p ph }

/-- One counter changed. -/
def State.setCounter (s : State) (counter : CounterKey) (value : ℚ) :
    State :=
  { s with counter := Function.update s.counter counter value }

/-- The holds changed. -/
def State.setHolds (s : State) (holds : Entries HoldKey StoredHold) : State :=
  { s with holds }

/-- The turns changed. -/
def State.setTurns (s : State) (turns : List TurnRow) : State :=
  { s with turns }

/-- A call more. -/
def State.join (s : State) (ph : Phase) : State :=
  { s with parties := s.parties ++ [ph] }

section Step

variable (A : Sums)

/-! ## The store calls

What the next call of a party does to the counters and to the records.
Reservation, giving back and the undoing of a half-made reservation go call by
call, and other parties may come in between any two. -/

/-- `reserveBudgetKey`, which is skipped when the counter has no cap. -/
def reserveBudgetKey (s : State) (counter : CounterKey) (capUsd : ℚ)
    (reserveUsd : ℚ) : Option (ℚ × State × List Event) :=
  if 0 < capUsd then
    (tryAdd A (s.counter counter) reserveUsd capUsd).map fun spent =>
      (reserveUsd, s.setCounter counter spent, [.granted counter capUsd])
  else some (0, s, [])

/-- Takes an amount back off a counter. -/
def State.subtract (s : State) (counter : CounterKey) (amount : ℚ) : State :=
  s.setCounter counter (addBudgetDelta A (s.counter counter) (-amount))

/-- Where a request goes when it stores no turn: it gives back what it took
itself (`releaseUnusedReservation`). -/
def releasing (r : Request) (reservation : Reservation) : Phase :=
  if reservation.created then .dropping r.key reservation.hold true
  else .ended

/-- Where a request goes when its own increments are undone. -/
def undone (r : Request) : Option Reservation → Phase
  | none => .ended
  | some reservation => .reserved r reservation

/-- The next store call of a party. -/
def callStore (s : State) (p : Nat) : Phase → Option (State × List Event)
  | .addingCompany r =>
      match reserveBudgetKey A s r.key.companyKey
          r.limits.dailyBudgetUsdPerCompany r.limits.unknownModelTurnUsd with
      | none => some (s.setPhase p .ended, [])
      | some (usd, s', out) =>
          some (s'.setPhase p (.addingGlobal r ⟨usd, 0, r.kyivDate⟩), out)
  | .addingGlobal r hold =>
      match reserveBudgetKey A s r.key.globalKey r.limits.dailyBudgetUsdGlobal
          r.limits.unknownModelTurnUsd with
      | none => some (s.setPhase p (.undoingCompany r hold none), [])
      | some (usd, s', out) =>
          some (s'.setPhase p
            (.claiming r { hold with globalReservedUsd := usd }), out)
  | .claiming r hold =>
      match s.holds.get r.key with
      | none =>
          some ((s.setHolds (s.holds.putNew r.key (encodeHold hold))).setPhase p
            (.reserved r ⟨hold, true⟩), [.recorded r.key])
      | some value =>
          match decodeHold value r.kyivDate with
          | none => some (s.setPhase p (.reserved r ⟨hold, false⟩), [])
          | some recorded => some (s.setPhase p
              (.undoingCompany r hold (some ⟨recorded, false⟩)), [])
  | .undoingCompany r hold after =>
      some ((s.subtract A r.key.companyKey hold.companyReservedUsd).setPhase p
        (.undoingGlobal r hold after), [])
  | .undoingGlobal r hold after =>
      some ((s.subtract A r.key.globalKey hold.globalReservedUsd).setPhase p
        (undone r after), [])
  | .dropping key hold _ =>
      match s.holds.get key with
      | none => some (s.setPhase p .ended, [])
      | some _ => some ((s.setHolds (s.holds.drop key)).setPhase p
          (.givingCompany key hold), [.dropped key])
  | .givingCompany key hold =>
      some ((s.subtract A key.companyKey hold.companyReservedUsd).setPhase p
        (.givingGlobal key hold), [.gaveBack key key.companyKey])
  | .givingGlobal key hold =>
      some ((s.subtract A key.globalKey hold.globalReservedUsd).setPhase p
        .ended, [.gaveBack key key.globalKey])
  | .reserved .. | .ended => none

/-! ## The transactions

Accept, start and finish are one step each, as nothing of the budget happens
within them. Here turns are stored and ended; the store calls around them are
the guard's. -/

/-- The row that the request's accept inserts. -/
def Request.row (r : Request) (hold : Hold) (now : Int)
    (continuesCommandId : Option Text) : TurnRow :=
  acceptedRow r.ctx
    { r.input with budgetHold := assistantBudgetHoldToStored hold } now
    continuesCommandId

/-- The request's accept stores its turn: nothing settles it before. -/
def stores (s : State) (r : Request) : Bool :=
  (settledAccept s.turns r.identity).isNone

/-- The key of the hold that a turn was accepted with. -/
def TurnRow.key (row : TurnRow) : HoldKey := ⟨row.identity, row.hold.kyivDate⟩

/-- The turn that this finaliser ends, if it may end it. -/
def endable (s : State) (f : Finaliser) (identity : TurnIdentity)
    (now : Int) : Option TurnRow :=
  s.turns.find? fun row => row.identity = identity ∧ f.eligible now row

/-- `releaseStaffAssistantBudgetHold`, about to be called for an ended turn. -/
def handingBack (row : TurnRow) : Phase :=
  .dropping (TurnRow.key row) (assistantBudgetHoldFromStored row.hold) false

/-- A finaliser ends the turn and either keeps its charge or goes on to give
the hold back. -/
def endTurn (s : State) (f : Finaliser) (row : TurnRow) (now : Int)
    (charged : Bool) : State × List Event :=
  let s' := s.setTurns (applyWrite s.turns (.update row (f.ended now row)))
  if charged then
    (s'.join .ended, [.charged (TurnRow.key row) row.hold])
  else (s'.join (handingBack row), [])

/-- One step of the system, where it is possible. -/
def step (s : State) : Act → Option (State × List Event)
  | .begin r => some (s.join (.addingCompany r), [])
  | .call p => (s.parties[p]?).bind (callStore A s p)
  | .decline p =>
      match s.parties[p]? with
      | some (.reserved r reservation) =>
          some (s.setPhase p (releasing r reservation), [])
      | _ => none
  | .accept p now continuesCommandId fate =>
      match s.parties[p]? with
      | some (.reserved r reservation) =>
          let stored := (s.setTurns (r.row reservation.hold now
            continuesCommandId :: s.turns)).setPhase p .ended
          match fate, stores s r with
          | .runs, true | .unknown true, true => some (stored, [])
          | .unknown _, _ => some (s.setPhase p .ended, [])
          | _, _ => some (s.setPhase p (releasing r reservation), [])
      | _ => none
  | .start identity now timeoutMs =>
      (s.turns.find? fun row =>
        row.identity = identity ∧ startable now row).map fun row =>
          (s.setTurns (applyWrite s.turns
            (.update row (startedRow now timeoutMs row))), [])
  | .finish identity status now reachedModel =>
      (endable s (finishFinaliser status) identity now).map fun row =>
        endTurn s (finishFinaliser status) row now reachedModel
  | .recover recovery identity now =>
      (endable s recovery.finaliser identity now).map fun row =>
        endTurn s recovery.finaliser row now (row.status ≠ .queued)

/-- The system. -/
def machine : Machine State Act Event := ⟨.initial, step A⟩

/-- What a party in this phase is about to leave on a counter is the exact
sum. -/
def Phase.Exact (s : State) : Phase → Prop
  | .addingCompany r =>
      A.ExactGrant (s.counter r.key.companyKey) r.limits.unknownModelTurnUsd
        r.limits.dailyBudgetUsdPerCompany
  | .addingGlobal r _ =>
      A.ExactGrant (s.counter r.key.globalKey) r.limits.unknownModelTurnUsd
        r.limits.dailyBudgetUsdGlobal
  | .undoingCompany r hold _ =>
      A.ExactReturn (s.counter r.key.companyKey) hold.companyReservedUsd
  | .undoingGlobal r hold _ =>
      A.ExactReturn (s.counter r.key.globalKey) hold.globalReservedUsd
  | .givingCompany key hold =>
      A.ExactReturn (s.counter key.companyKey) hold.companyReservedUsd
  | .givingGlobal key hold =>
      A.ExactReturn (s.counter key.globalKey) hold.globalReservedUsd
  | .claiming .. | .reserved .. | .dropping .. | .ended => True

instance (s : State) : ∀ ph : Phase, Decidable (ph.Exact A s)
  | .addingCompany _ | .addingGlobal _ _ =>
      inferInstanceAs (Decidable (A.ExactGrant _ _ _))
  | .undoingCompany .. | .undoingGlobal .. | .givingCompany _ _
  | .givingGlobal _ _ => inferInstanceAs (Decidable (A.ExactReturn _ _))
  | .claiming .. | .reserved .. | .dropping .. | .ended => .isTrue trivial

/-- The store call that comes next of a party rounds nothing. -/
def ExactCall (s : State) (p : Nat) : Prop :=
  ∀ ph ∈ s.parties[p]?, ph.Exact A s

instance (s : State) (p : Nat) : Decidable (ExactCall A s p) :=
  inferInstanceAs (Decidable (∀ ph ∈ s.parties[p]?, ph.Exact A s))

end Step

/-- A record that is about to be deleted, and what its party has in hand. -/
structure Deletion where
  key : HoldKey
  inHand : Hold
  recorded : StoredHold
deriving DecidableEq

/-- What the next store call of a party deletes. -/
def deletes (s : State) (p : Nat) : Option Deletion :=
  match s.parties[p]? with
  | some (.dropping key hold _) => (s.holds.get key).map (⟨key, hold, ·⟩)
  | _ => none

theorem deletes_eq {s : State} {p : Nat} {key : HoldKey} {hold : Hold}
    {byRequest : Bool} {value : StoredHold}
    (hp : s.parties[p]? = some (.dropping key hold byRequest))
    (hget : s.holds.get key = some value) :
    deletes s p = some ⟨key, hold, value⟩ := by
  unfold deletes
  rw [hp]
  show (s.holds.get key).map _ = _
  rw [hget]
  rfl

/-- The turn that an action ends and charges. -/
def charges (s : State) : Act → Option TurnRow
  | .finish identity status now true =>
      endable s (finishFinaliser status) identity now
  | .recover recovery identity now =>
      (endable s recovery.finaliser identity now).filter fun row =>
        row.status ≠ .queued
  | _ => none

/-! ## What a step does

The setters, and one constructor for each store call and each transaction. The
ledger, the charges and the claims are all proved by cases on these. -/

section Setters

variable {A : Sums} (s : State) (p : Nat) (ph : Phase) (ck : CounterKey) (v : ℚ)
  (holds : Entries HoldKey StoredHold) (turns : List TurnRow)

@[simp] theorem setPhase_counter : (s.setPhase p ph).counter = s.counter := rfl
@[simp] theorem setPhase_holds : (s.setPhase p ph).holds = s.holds := rfl
@[simp] theorem setPhase_turns : (s.setPhase p ph).turns = s.turns := rfl
@[simp] theorem setPhase_parties :
    (s.setPhase p ph).parties = s.parties.set p ph := rfl
@[simp] theorem setCounter_holds : (s.setCounter ck v).holds = s.holds := rfl
@[simp] theorem setCounter_turns : (s.setCounter ck v).turns = s.turns := rfl
@[simp] theorem setCounter_parties :
    (s.setCounter ck v).parties = s.parties := rfl
@[simp] theorem setHolds_counter :
    (s.setHolds holds).counter = s.counter := rfl
@[simp] theorem setHolds_holds : (s.setHolds holds).holds = holds := rfl
@[simp] theorem setHolds_turns : (s.setHolds holds).turns = s.turns := rfl
@[simp] theorem setHolds_parties :
    (s.setHolds holds).parties = s.parties := rfl
@[simp] theorem setTurns_counter :
    (s.setTurns turns).counter = s.counter := rfl
@[simp] theorem setTurns_holds : (s.setTurns turns).holds = s.holds := rfl
@[simp] theorem setTurns_turns : (s.setTurns turns).turns = turns := rfl
@[simp] theorem setTurns_parties :
    (s.setTurns turns).parties = s.parties := rfl
@[simp] theorem join_counter : (s.join ph).counter = s.counter := rfl
@[simp] theorem join_holds : (s.join ph).holds = s.holds := rfl
@[simp] theorem join_turns : (s.join ph).turns = s.turns := rfl
@[simp] theorem join_parties :
    (s.join ph).parties = s.parties ++ [ph] := rfl
@[simp] theorem subtract_holds : (s.subtract A ck v).holds = s.holds := rfl
@[simp] theorem subtract_turns : (s.subtract A ck v).turns = s.turns := rfl
@[simp] theorem subtract_parties :
    (s.subtract A ck v).parties = s.parties := rfl

theorem setCounter_counter (ck' : CounterKey) :
    (s.setCounter ck v).counter ck' =
      if ck' = ck then v else s.counter ck' := by
  simp only [State.setCounter, Function.update_apply]

theorem subtract_counter (ck' : CounterKey) :
    (s.subtract A ck v).counter ck' =
      if ck' = ck then addBudgetDelta A (s.counter ck) (-v)
      else s.counter ck' :=
  setCounter_counter s ck _ ck'

end Setters

/-- What a reservation on one counter does: the counter moves by the amount
it reports, and nothing else moves. -/
theorem reserveBudgetKey_spec {A : Sums} {s s' : State} {ck : CounterKey}
    {capUsd reserveUsd usd : ℚ} {out : List Event}
    (h : reserveBudgetKey A s ck capUsd reserveUsd = some (usd, s', out)) :
    (0 < capUsd ∧ usd = reserveUsd ∧ out = [.granted ck capUsd] ∧
      ∃ spent, tryAdd A (s.counter ck) reserveUsd capUsd = some spent ∧
        s' = s.setCounter ck spent) ∨
    (usd = 0 ∧ out = [] ∧ s' = s) := by
  unfold reserveBudgetKey at h
  split at h
  · rename_i hcap
    obtain ⟨spent, htry, heq⟩ := Option.map_eq_some_iff.mp h
    simp only [Prod.mk.injEq] at heq
    obtain ⟨rfl, rfl, rfl⟩ := heq
    exact Or.inl ⟨hcap, rfl, rfl, spent, htry, rfl⟩
  · simp only [Option.some.injEq, Prod.mk.injEq] at h
    obtain ⟨rfl, rfl, rfl⟩ := h
    exact Or.inr ⟨rfl, rfl, rfl⟩

/-- What one store call of the party at `ph` does. -/
inductive Calls (A : Sums) (s : State) (p : Nat) :
    Phase → State → List Event → Prop
  | refusedCompany {r} : Calls A s p (.addingCompany r) (s.setPhase p .ended) []
  | addedCompany {r usd s' out}
      (hadd : reserveBudgetKey A s r.key.companyKey
        r.limits.dailyBudgetUsdPerCompany r.limits.unknownModelTurnUsd =
          some (usd, s', out)) :
      Calls A s p (.addingCompany r)
        (s'.setPhase p (.addingGlobal r ⟨usd, 0, r.kyivDate⟩)) out
  | refusedGlobal {r hold} :
      Calls A s p (.addingGlobal r hold)
        (s.setPhase p (.undoingCompany r hold none)) []
  | addedGlobal {r hold usd s' out}
      (hadd : reserveBudgetKey A s r.key.globalKey r.limits.dailyBudgetUsdGlobal
        r.limits.unknownModelTurnUsd = some (usd, s', out)) :
      Calls A s p (.addingGlobal r hold) (s'.setPhase p
        (.claiming r { hold with globalReservedUsd := usd })) out
  | recorded {r hold} (hget : s.holds.get r.key = none) :
      Calls A s p (.claiming r hold)
        ((s.setHolds (s.holds.putNew r.key (encodeHold hold))).setPhase p
          (.reserved r ⟨hold, true⟩)) [.recorded r.key]
  | unreadable {r hold value} (hget : s.holds.get r.key = some value)
      (hdecode : decodeHold value r.kyivDate = none) :
      Calls A s p (.claiming r hold)
        (s.setPhase p (.reserved r ⟨hold, false⟩)) []
  | found {r hold value recorded} (hget : s.holds.get r.key = some value)
      (hdecode : decodeHold value r.kyivDate = some recorded) :
      Calls A s p (.claiming r hold) (s.setPhase p
        (.undoingCompany r hold (some ⟨recorded, false⟩))) []
  | undidCompany {r hold after} :
      Calls A s p (.undoingCompany r hold after)
        ((s.subtract A r.key.companyKey hold.companyReservedUsd).setPhase p
          (.undoingGlobal r hold after)) []
  | undidGlobal {r hold after} :
      Calls A s p (.undoingGlobal r hold after)
        ((s.subtract A r.key.globalKey hold.globalReservedUsd).setPhase p
          (undone r after)) []
  | gone {key hold byRequest} (hget : s.holds.get key = none) :
      Calls A s p (.dropping key hold byRequest) (s.setPhase p .ended) []
  | dropped {key hold byRequest value}
      (hget : s.holds.get key = some value) :
      Calls A s p (.dropping key hold byRequest)
        ((s.setHolds (s.holds.drop key)).setPhase p
          (.givingCompany key hold)) [.dropped key]
  | gaveCompany {key hold} :
      Calls A s p (.givingCompany key hold)
        ((s.subtract A key.companyKey hold.companyReservedUsd).setPhase p
          (.givingGlobal key hold)) [.gaveBack key key.companyKey]
  | gaveGlobal {key hold} :
      Calls A s p (.givingGlobal key hold)
        ((s.subtract A key.globalKey hold.globalReservedUsd).setPhase p .ended)
        [.gaveBack key key.globalKey]

theorem calls_of_callStore {A : Sums} {s s' : State} {p : Nat} {ph : Phase}
    {out : List Event} (h : callStore A s p ph = some (s', out)) :
    Calls A s p ph s' out := by
  cases ph with
  | addingCompany r =>
      simp only [callStore] at h
      split at h
      · obtain ⟨rfl, rfl⟩ := Prod.mk.inj (Option.some.inj h)
        exact .refusedCompany
      · rename_i hadd
        obtain ⟨rfl, rfl⟩ := Prod.mk.inj (Option.some.inj h)
        exact .addedCompany hadd
  | addingGlobal r hold =>
      simp only [callStore] at h
      split at h
      · obtain ⟨rfl, rfl⟩ := Prod.mk.inj (Option.some.inj h)
        exact .refusedGlobal
      · rename_i hadd
        obtain ⟨rfl, rfl⟩ := Prod.mk.inj (Option.some.inj h)
        exact .addedGlobal hadd
  | claiming r hold =>
      simp only [callStore] at h
      split at h
      · rename_i hget
        obtain ⟨rfl, rfl⟩ := Prod.mk.inj (Option.some.inj h)
        exact .recorded hget
      · rename_i value hget
        split at h
        · rename_i hdecode
          obtain ⟨rfl, rfl⟩ := Prod.mk.inj (Option.some.inj h)
          exact .unreadable hget hdecode
        · rename_i hdecode
          obtain ⟨rfl, rfl⟩ := Prod.mk.inj (Option.some.inj h)
          exact .found hget hdecode
  | undoingCompany r hold after =>
      obtain ⟨rfl, rfl⟩ := Prod.mk.inj (Option.some.inj h)
      exact .undidCompany
  | undoingGlobal r hold after =>
      obtain ⟨rfl, rfl⟩ := Prod.mk.inj (Option.some.inj h)
      exact .undidGlobal
  | dropping key hold byRequest =>
      simp only [callStore] at h
      split at h
      · rename_i hget
        obtain ⟨rfl, rfl⟩ := Prod.mk.inj (Option.some.inj h)
        exact .gone hget
      · rename_i value hget
        obtain ⟨rfl, rfl⟩ := Prod.mk.inj (Option.some.inj h)
        exact .dropped hget
  | givingCompany key hold =>
      obtain ⟨rfl, rfl⟩ := Prod.mk.inj (Option.some.inj h)
      exact .gaveCompany
  | givingGlobal key hold =>
      obtain ⟨rfl, rfl⟩ := Prod.mk.inj (Option.some.inj h)
      exact .gaveGlobal
  | reserved r reservation => cases h
  | ended => cases h

/-- Everything a step may do. -/
inductive Moves (A : Sums) (s : State) : Act → State → List Event → Prop
  | begin {r} : Moves A s (.begin r) (s.join (.addingCompany r)) []
  | call {p ph s' out} (hp : s.parties[p]? = some ph)
      (hcall : Calls A s p ph s' out) : Moves A s (.call p) s' out
  | release {a p r reservation}
      (ha : a = .decline p ∨ ∃ now root fate, a = .accept p now root fate)
      (hp : s.parties[p]? = some (.reserved r reservation)) :
      Moves A s a (s.setPhase p (releasing r reservation)) []
  | lose {p now root fate r reservation}
      (hp : s.parties[p]? = some (.reserved r reservation)) :
      Moves A s (.accept p now root fate) (s.setPhase p .ended) []
  | store {p now root fate r reservation}
      (hp : s.parties[p]? = some (.reserved r reservation))
      (hfate : fate = .runs ∨ fate = .unknown true)
      (hstores : stores s r = true) :
      Moves A s (.accept p now root fate)
        ((s.setTurns (r.row reservation.hold now root :: s.turns)).setPhase p
          .ended) []
  | start {identity now timeoutMs row} (hmem : row ∈ s.turns)
      (hstartable : startable now row = true) :
      Moves A s (.start identity now timeoutMs) (s.setTurns (applyWrite s.turns
        (.update row (startedRow now timeoutMs row)))) []
  | charge {a row now} {f : Finaliser} (hmem : row ∈ s.turns)
      (hactive : row.isActive = true) (hcharges : charges s a = some row) :
      Moves A s a
        ((s.setTurns (applyWrite s.turns
          (.update row (f.ended now row)))).join .ended)
        [.charged (TurnRow.key row) row.hold]
  | handBack {a row now} {f : Finaliser} (hmem : row ∈ s.turns)
      (hactive : row.isActive = true) :
      Moves A s a
        ((s.setTurns (applyWrite s.turns
          (.update row (f.ended now row)))).join (handingBack row)) []

theorem endable_spec {s : State} {f : Finaliser} {identity : TurnIdentity}
    {now : Int} {row : TurnRow} (h : endable s f identity now = some row) :
    row ∈ s.turns ∧ row.identity = identity ∧ f.eligible now row = true := by
  have hprop := List.find?_some h
  rw [decide_eq_true_eq] at hprop
  exact ⟨List.mem_of_find?_eq_some h, hprop⟩

theorem isActive_of_recovery {recovery : Recovery} {now : Int}
    {row : TurnRow} (h : recovery.finaliser.eligible now row = true) :
    row.isActive = true := by
  cases recovery with
  | interrupt => exact h
  | sweep => exact isActive_of_overdue h

theorem moves_of_step {A : Sums} {s s' : State} {a : Act} {out : List Event}
    (h : step A s a = some (s', out)) : Moves A s a s' out := by
  cases a with
  | begin r =>
      obtain ⟨rfl, rfl⟩ := Prod.mk.inj (Option.some.inj h)
      exact .begin
  | call p =>
      obtain ⟨ph, hp, hcall⟩ := Option.bind_eq_some_iff.mp h
      exact .call hp (calls_of_callStore hcall)
  | decline p =>
      simp only [step] at h
      split at h
      · rename_i hp
        obtain ⟨rfl, rfl⟩ := Prod.mk.inj (Option.some.inj h)
        exact .release (Or.inl rfl) hp
      · cases h
  | accept p now root fate =>
      simp only [step] at h
      split at h
      · rename_i hp
        split at h
        · rename_i hstores
          obtain ⟨rfl, rfl⟩ := Prod.mk.inj (Option.some.inj h)
          exact .store hp (Or.inl rfl) hstores
        · rename_i hstores
          obtain ⟨rfl, rfl⟩ := Prod.mk.inj (Option.some.inj h)
          exact .store hp (Or.inr rfl) hstores
        · obtain ⟨rfl, rfl⟩ := Prod.mk.inj (Option.some.inj h)
          exact .lose hp
        · obtain ⟨rfl, rfl⟩ := Prod.mk.inj (Option.some.inj h)
          exact .release (Or.inr ⟨_, _, _, rfl⟩) hp
      · cases h
  | start identity now timeoutMs =>
      obtain ⟨row, hfind, hrow⟩ := Option.map_eq_some_iff.mp h
      obtain ⟨rfl, rfl⟩ := Prod.mk.inj hrow
      have hprop := List.find?_some hfind
      rw [decide_eq_true_eq] at hprop
      exact .start (List.mem_of_find?_eq_some hfind) hprop.2
  | finish identity status now reachedModel =>
      obtain ⟨row, hend, hrow⟩ := Option.map_eq_some_iff.mp h
      obtain ⟨hmem, rfl, heligible⟩ := endable_spec hend
      cases reachedModel with
      | true =>
          obtain ⟨rfl, rfl⟩ := Prod.mk.inj hrow
          exact .charge hmem heligible hend
      | false =>
          obtain ⟨rfl, rfl⟩ := Prod.mk.inj hrow
          exact .handBack hmem heligible
  | recover recovery identity now =>
      obtain ⟨row, hend, hrow⟩ := Option.map_eq_some_iff.mp h
      obtain ⟨hmem, rfl, heligible⟩ := endable_spec hend
      have hactive := isActive_of_recovery heligible
      unfold endTurn at hrow
      dsimp only at hrow
      split at hrow
      · rename_i hstatus
        obtain ⟨rfl, rfl⟩ := Prod.mk.inj hrow
        refine .charge hmem hactive ?_
        show (endable s _ _ now).filter _ = some row
        rw [hend, Option.filter_some, if_pos hstatus]
      · obtain ⟨rfl, rfl⟩ := Prod.mk.inj hrow
        exact .handBack hmem hactive

end Shozee.Budget
