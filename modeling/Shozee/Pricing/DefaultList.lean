import Mathlib.Data.List.Basic
import Shozee.Run.Transactions

/-!
# The default price list

Price lists are created, renamed, activated, deactivated and deleted, and one
of them may be made the company's default. Each of these is a transaction of
`Shozee.Run.Server` on the price lists of one company.

All but the insert of a list begin with the row they are about, `FOR UPDATE`. A
list that becomes the default takes the place of the one that is: that row is
looked for as committed, then waited for, and what is written depends on what
it is like by then. A row that was waited for in vain stays locked.

The partial unique index on the default is a lock as well. Who has given a list
the flag, or has taken it away, has it until the end of the transaction; a
second default waits for it, and fails if there is a default once it has it.
-/

namespace Shozee.Pricing.Defaults

open Shozee.Run

/-! ## Rows

The price lists of one company. -/

/-- A row of `price_lists`. -/
structure ListRow where
  id : String
  name : String
  isActive : Bool
  isDefault : Bool
deriving DecidableEq, Repr

/-- The price lists of a company. -/
abbrev Lists := List ListRow

namespace Lists

/-- The row of a list, by its key. -/
def row? (d : Lists) (id : String) : Option ListRow :=
  d.find? fun row => row.id = id

/-- The default list of the company. -/
def default? (d : Lists) : Option ListRow :=
  d.find? fun row => row.isDefault

/-- An `update` of the row with its id. -/
def put (d : Lists) (row : ListRow) : Lists :=
  d.map fun old => if old.id = row.id then row else old

/-- The table without a row. -/
def remove (d : Lists) (id : String) : Lists :=
  d.filter fun row => row.id ≠ id

end Lists

/-! ## Requests

What may be asked for, and the ways in which it is refused. -/

/-- The requests that change price lists. -/
inductive Request
  | createPriceList (name : String) (isDefault isActive : Bool)
  | setDefaultPriceList (priceListId : Option String)
  | setPriceListActive (id : String) (isActive : Bool)
  | updatePriceList (id : String) (name : Option String)
  | deletePriceList (id : String)
deriving DecidableEq, Repr

/-- The loser of two requests that set a default. -/
def DEFAULT_PRICE_LIST_CONFLICT_MESSAGE : String :=
  "Another default price list was set at the same time. Retry."

/-- The default list stays active. -/
def DEFAULT_PRICE_LIST_DEACTIVATE_MESSAGE : String :=
  "The default price list cannot be deactivated."

/-- `database` is an error that is not mapped, a crash or a deadlock. -/
inductive Refusal
  | notFound
  | conflict (message : String)
  | validation (message : String)
  | database
deriving DecidableEq, Repr

/-! ## Places

Where a transaction is, with what it has read and locked. -/

/-- Which list is to be the default: a new one, or one whose row is locked. -/
inductive Swap
  | insert (name : String)
  | existing (row : ListRow)
deriving DecidableEq, Repr

/-- The row that had the flag when it was looked for, as it was once it could
be locked, and whether it has lost the flag. -/
structure Touched where
  row : ListRow
  unset : Bool
deriving DecidableEq, Repr

/-- How far a request has come, with the rows that it has read. -/
inductive Place
  | idle
  | clearing (id : String)
  | clearMissed (lockedId : Option String)
  | clearLocked (row : ListRow)
  | cleared (row : ListRow)
  | locked (request : Request) (row : ListRow)
  | changed (request : Request) (row row' : ListRow)
  | deleted (row : ListRow)
  | creating (name : String) (isActive : Bool)
  | inserted (row : ListRow)
  | unsetting (swap : Swap) (id : String)
  | unset (swap : Swap) (touched : Option Touched)
  | swapped (swap : Swap) (id : String) (touched : Option Touched)
deriving DecidableEq, Repr

/-- A row, or the entry of the index on the default. -/
inductive Lock
  | row (id : String)
  | companyDefault
deriving DecidableEq, Repr

/-- What a request that sets the default has locked before it swaps. -/
def Swap.held : Swap → List Lock
  | .insert _ => []
  | .existing row => [.row row.id]

/-- What it has locked once it has taken the default from another list. -/
def Touched.held (touched : Touched) : List Lock :=
  .row touched.row.id :: if touched.unset then [.companyDefault] else []

/-- The locks that a request holds where it has come to. -/
def Place.held : Place → List Lock
  | .idle => []
  | .clearing _ => []
  | .clearMissed lockedId => lockedId.toList.map .row
  | .clearLocked row => [.row row.id]
  | .cleared row => [.companyDefault, .row row.id]
  | .locked _ row => [.row row.id]
  | .changed _ row _ => [.row row.id]
  | .deleted row =>
      .row row.id :: if row.isDefault then [.companyDefault] else []
  | .creating _ _ => []
  | .inserted row => [.row row.id]
  | .unsetting swap _ => swap.held
  | .unset swap touched => swap.held ++ touched.toList.flatMap Touched.held
  | .swapped _ id touched =>
      .companyDefault :: .row id :: touched.toList.flatMap Touched.held

/-! ## Statements

The statements of each request. A row that changed while it was waited for is
read again. -/

/-- `next` is the statement that the transaction has come to, `insert` the one
that draws an id; `fail` is a crash or an error from elsewhere, at any
point. -/
inductive Statement
  | begin (request : Request)
  | next
  | insert (id : String)
  | commit
  | fail
deriving DecidableEq, Repr

/-- How a request ends. -/
inductive Event
  | committed (request : Request)
  | failed (why : Refusal)
deriving DecidableEq, Repr

/-- What a statement does: the table after it, the request's next place and
what it says. -/
abbrev Result := Outcome Lists Place Event

/-- A statement that only leads on. -/
def goOn (d : Lists) (place : Place) : Result := ⟨d, place, []⟩

/-- A statement that ends its request without its effect. -/
def refuse (d : Lists) (why : Refusal) : Result := ⟨d, .idle, [.failed why]⟩

/-- The locked read of the list that a request names. -/
def requireLockedPriceList (d : Lists) (request : Request) (id : String) :
    Result :=
  match d.row? id with
  | none => refuse d .notFound
  | some row => goOn d (.locked request row)

/-- What the `update` of `unsetCompanyDefaultLists` finds to be committed. -/
def unsetCompanyDefaultLists (d : Lists) (swap : Swap) : Result :=
  match d.default? with
  | none => goOn d (.unset swap none)
  | some row => goOn d (.unsetting swap row.id)

/-- The row that it found, when nobody else has it any more. -/
def unsetLocked (d : Lists) (swap : Swap) (id : String) : Result :=
  match d.row? id with
  | none => goOn d (.unset swap none)
  | some row => goOn d (.unset swap (some ⟨row, row.isDefault⟩))

/-- What the `select` of `loadCompanyDefault` finds to be committed. -/
def loadCompanyDefault (d : Lists) : Result :=
  match d.default? with
  | none => goOn d (.clearMissed none)
  | some row => goOn d (.clearing row.id)

/-- The second read of the default, by its key and locked: another request may
have changed it since. -/
def loadLocked (d : Lists) (id : String) : Result :=
  match d.row? id with
  | none => goOn d (.clearMissed none)
  | some row =>
      if row.isDefault then goOn d (.clearLocked row)
      else goOn d (.clearMissed (some id))

/-- The first statement of a transaction. -/
def begin (d : Lists) : Request → Result
  | .createPriceList name isDefault isActive =>
      if isDefault then unsetCompanyDefaultLists d (.insert name)
      else goOn d (.creating name isActive)
  | .setDefaultPriceList none => loadCompanyDefault d
  | .setDefaultPriceList (some id) =>
      requireLockedPriceList d (.setDefaultPriceList (some id)) id
  | .setPriceListActive id isActive =>
      requireLockedPriceList d (.setPriceListActive id isActive) id
  | .updatePriceList id name =>
      requireLockedPriceList d (.updatePriceList id name) id
  | .deletePriceList id => requireLockedPriceList d (.deletePriceList id) id

/-- What is done with a row that is locked. -/
def onLocked (d : Lists) (row : ListRow) : Request → Option Result
  | .createPriceList .. => none
  | .setDefaultPriceList none => none
  | .setDefaultPriceList (some id) => some
      (if row.isDefault ∧ row.isActive then
        goOn d (.changed (.setDefaultPriceList (some id)) row row)
      else if ¬ row.isDefault then unsetCompanyDefaultLists d (.existing row)
      else goOn d (.unset (.existing row) none))
  | .setPriceListActive id isActive => some
      (if ¬ isActive ∧ row.isDefault then
        refuse d (.validation DEFAULT_PRICE_LIST_DEACTIVATE_MESSAGE)
      else goOn d (.changed (.setPriceListActive id isActive) row
        { row with isActive := isActive }))
  | .updatePriceList id name => some
      (goOn d (.changed (.updatePriceList id name) row
        { row with name := name.getD row.name }))
  | .deletePriceList _ => some (goOn d (.deleted row))

/-- A default that the write of another one meets in the index. -/
def Meets (d : Lists) (id : String) (touched : Option Touched) : Prop :=
  ∃ row ∈ d, row.isDefault ∧ row.id ≠ id ∧
    ∀ t ∈ touched, t.unset → row.id ≠ t.row.id

instance (d : Lists) (id : String) (touched : Option Touched) :
    Decidable (Meets d id touched) := by
  unfold Meets
  infer_instance

/-- The write of the new default. -/
def writeDefault (d : Lists) (swap : Swap) (id : String)
    (touched : Option Touched) : Result :=
  if Meets d id touched then
    refuse d (.conflict DEFAULT_PRICE_LIST_CONFLICT_MESSAGE)
  else goOn d (.swapped swap id touched)

/-- The insert of a list, with the id that is drawn for it. -/
def insertPriceList (d : Lists) (id : String) : Place → Option Result
  | .creating name isActive => some
      (if ∃ row ∈ d, row.id = id then refuse d .database
      else goOn d (.inserted ⟨id, name, isActive, false⟩))
  | .unset (.insert name) touched => some
      (if ∃ row ∈ d, row.id = id then refuse d .database
      else writeDefault d (.insert name) id touched)
  | _ => none

/-- The statement after the first. -/
def next (d : Lists) : Place → Option Result
  | .clearing id => some (loadLocked d id)
  | .clearLocked row => some (goOn d (.cleared row))
  | .locked request row => onLocked d row request
  | .unsetting swap id => some (unsetLocked d swap id)
  | .unset (.existing row) touched =>
      some (writeDefault d (.existing row) row.id touched)
  | _ => none

/-- The flag is taken from the row that had it. -/
def Touched.apply (d : Lists) : Option Touched → Lists
  | none => d
  | some touched =>
      if touched.unset then d.put { touched.row with isDefault := false }
      else d

/-- The write of the new default. -/
def Swap.apply (d : Lists) (id : String) : Swap → Lists
  | .insert name => d ++ [⟨id, name, true, true⟩]
  | .existing row => d.put { row with isActive := true, isDefault := true }

/-- The request that a swap is part of. -/
def Swap.request (id : String) : Swap → Request
  | .insert name => .createPriceList name true true
  | .existing _ => .setDefaultPriceList (some id)

/-- The writes of a transaction at its end. A place inside one has nothing to
commit. -/
def commit (d : Lists) : Place → Option Result
  | .clearMissed _ => some
      ⟨d, .idle, [.committed (.setDefaultPriceList none)]⟩
  | .cleared row => some
      ⟨d.put { row with isDefault := false }, .idle,
        [.committed (.setDefaultPriceList none)]⟩
  | .changed request _ row' => some
      ⟨d.put row', .idle, [.committed request]⟩
  | .deleted row => some
      ⟨d.remove row.id, .idle, [.committed (.deletePriceList row.id)]⟩
  | .inserted row => some
      ⟨d ++ [row], .idle,
        [.committed (.createPriceList row.name false row.isActive)]⟩
  | .swapped swap id touched => some
      ⟨swap.apply (Touched.apply d touched) id, .idle,
        [.committed (swap.request id)]⟩
  | _ => none

/-- One statement of a request. -/
def statement (d : Lists) : Place → Statement → Option Result
  | .idle, .begin request => some (begin d request)
  | .idle, _ => none
  | _, .begin _ => none
  | place, .next => next d place
  | place, .insert id => insertPriceList d id place
  | place, .commit => commit d place
  | _, .fail => some (refuse d .database)

/-! ## The company

What the lists are like to begin with, and the server of the transactions. -/

/-- What the lists of a company are like: ids are unique, at most one list is
the default, and it is active. -/
structure Sound (d : Lists) : Prop where
  ids : (d.map ListRow.id).Nodup
  oneDefault : ∀ a ∈ d, ∀ b ∈ d, a.isDefault = true → b.isDefault = true →
    a = b
  active : ∀ row ∈ d, row.isDefault = true → row.isActive = true

/-- Lists to begin with. -/
abbrev Initial := {d : Lists // Sound d}

/-- The company's table with its requests. -/
def server (initial : Initial) :
    Server Lists Lock Place Statement Event where
  init := initial.1
  start := .idle
  held := Place.held
  statement := statement

/-- The system: each step runs one statement of one request. -/
def machine (initial : Initial) :
    Machine (Server.State Lists Lock Place) (ℕ × Statement) Event :=
  (server initial).machine

end Shozee.Pricing.Defaults
