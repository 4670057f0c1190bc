import Mathlib
import Shozee.Run.Transactions

/-!
# Documents made from orders

`documents.createFromOrder` reads the order, checks what it has read, takes the
next number of the document's type and inserts the document with copies of the
order's lines. `orders.cancel` and its three siblings move the order's status,
and `documents.cancel` cancels the document. Each is a transaction of
`Shozee.Run.Server` on the rows of one company.

The read of the order locks nothing. The counter of a type is locked by the
upsert that takes a number, until the end of the transaction. The insert of the
document refers to the order, which takes a share of the order's row: a share
excludes the `FOR UPDATE` of the order's moves, but not another document's.
Documents of one type are kept apart by their counter, so one share for each
type is enough, and a move of the order has them both.

The statement carries what other modules answer (the buyer, whether the seller
has a legal face, whether the document has been signed). Of the seller there is
the numbering prefix of the company, which never changes.
-/

namespace Shozee.Documents

open Shozee.Run

/-! ## Rows -/

/-- The two kinds of paper that an order can have. -/
inductive DocumentType
  | payment_invoice
  | delivery_note
deriving DecidableEq, Repr

/-- A paper is issued when it is created, and may be cancelled. -/
inductive DocumentStatus
  | issued
  | cancelled
deriving DecidableEq, Repr

/-- The life of an order. -/
inductive OrderStatus
  | new
  | confirmed
  | in_progress
  | done
  | canceled
deriving DecidableEq, Repr

/-- How the tax of a line relates to its amount. -/
inductive TaxTreatment
  | exempt
  | inclusive
  | exclusive
deriving DecidableEq, Repr

/-- What a line of an order and a line of a document have in common. Its
discount kind is always `none`. -/
structure Line where
  productId : String
  variantId : Option String
  titleSnapshot : String
  quantityMilli : Int
  unitPriceMinor : Int
  discountValue : Int
  discountAmountMinor : Int
  taxTreatment : TaxTreatment
  taxRateBp : Nat
  taxAmountMinor : Int
  netAmountMinor : Int
  grossAmountMinor : Int
  currency : String
deriving DecidableEq, Repr

/-- The sums of a document's lines. -/
structure Totals where
  totalNetMinor : Int
  totalTaxMinor : Int
  totalGrossMinor : Int
deriving DecidableEq, Repr

/-- The sums with one more line. -/
def Totals.add (t : Totals) (line : Line) : Totals where
  totalNetMinor := t.totalNetMinor + line.netAmountMinor
  totalTaxMinor := t.totalTaxMinor + line.taxAmountMinor
  totalGrossMinor := t.totalGrossMinor + line.grossAmountMinor

/-- The loop that both `createStaffOrder` and `createStaffDocument` run. -/
def Totals.of (lines : List Line) : Totals :=
  lines.foldl Totals.add ⟨0, 0, 0⟩

/-- A row of `orders` with its lines, which are written once. The totals were
summed up from the lines when it was. -/
structure Order where
  id : String
  status : OrderStatus
  linkedCustomerId : Option String
  items : List Line
  totals : Totals
  summed : totals = Totals.of items

/-- A row of `documents` with its lines. -/
structure Document where
  id : String
  orderId : String
  counterpartyId : Option String
  type : DocumentType
  status : DocumentStatus
  documentNumber : String
  items : List Line
  totals : Totals
  currency : String
deriving DecidableEq, Repr

/-- The rows of one company. A counter that has no row yet stands at `0`. -/
structure Data where
  orders : List Order
  documents : List Document
  lastNumber : DocumentType → ℕ

/-- The row of an order, by its key. -/
def Data.order (d : Data) (orderId : String) : Option Order :=
  d.orders.find? fun o => o.id = orderId

/-- The row of a document, by its key. -/
def Data.document (d : Data) (documentId : String) : Option Document :=
  d.documents.find? fun doc => doc.id = documentId

/-- The document is in the partial index of the live ones. -/
def Document.LiveFor (doc : Document) (orderId : String)
    (type : DocumentType) : Prop :=
  doc.orderId = orderId ∧ doc.type = type ∧ doc.status ≠ .cancelled

instance (doc : Document) (orderId : String) (type : DocumentType) :
    Decidable (doc.LiveFor orderId type) :=
  inferInstanceAs (Decidable (_ ∧ _ ∧ _))

/-! ## Numbers

How a document number is written. -/

/-- The letters in the number of an invoice. -/
def PAYMENT_INVOICE_TYPE_CODE : String := "РХ"

/-- The letters in the number of a delivery note. -/
def DELIVERY_NOTE_TYPE_CODE : String := "ВН"

/-- The letters by which numbers of the two types differ. -/
def documentTypeCode : DocumentType → String
  | .payment_invoice => PAYMENT_INVOICE_TYPE_CODE
  | .delivery_note => DELIVERY_NOTE_TYPE_CODE

/-- `padStart` of the language, on digits. -/
def padStart (s : String) (targetLength : ℕ) (pad : Char) : String :=
  String.ofList (List.replicate (targetLength - s.length) pad) ++ s

/-- Prefix, code of the type, and the number in at least six digits. -/
def formatDocumentNumber (numberingPrefix : String) (type : DocumentType)
    (sequence : ℕ) : String :=
  numberingPrefix ++ "-" ++ documentTypeCode type ++ "-" ++
    padStart (toString sequence) 6 '0'

/-- `last_number` is a `bigint`. -/
def LAST_NUMBER_LIMIT : ℕ := 2 ^ 63

/-! ## Refusals -/

/-- Why a call ends without its effect. -/
inductive Refusal
  | notFound
  | conflict (message : String)
  | validation (message : String)
  | invariant (message : String)
  | database
deriving DecidableEq, Repr

/-- A document of a canceled order. -/
def CANCELED_ORDER_MESSAGE : String :=
  "A document cannot be created from a canceled order."

/-- A second live document of one type and order. -/
def DUPLICATE_LIVE_DOCUMENT_MESSAGE : String :=
  "A live document of this type already exists for the order."

/-- A company without the data that a document states of its seller. -/
def MISSING_SELLER_LEGAL_MESSAGE : String :=
  "Company legal requisites are required to issue a document."

/-- An order with neither a customer nor a counterparty. -/
def MISSING_BUYER_MESSAGE : String :=
  "A customer or counterparty is required to issue a document."

/-- A counterparty of another customer. -/
def COUNTERPARTY_CUSTOMER_MISMATCH_MESSAGE : String :=
  "The counterparty must be linked to the order customer."

/-- The second cancellation of a document. -/
def ALREADY_CANCELLED_MESSAGE : String := "Document is already cancelled."

/-- The cancellation of a document that is signed. -/
def SIGNED_CANNOT_CANCEL_MESSAGE : String :=
  "A signed document cannot be cancelled."

/-! ## What is checked of an order that has been read

The checks, in the order of the source, on the values that were read before. -/

/-- What `getCounterparty` returns of it. -/
structure CounterpartyFact where
  id : String
  customerId : Option String
deriving DecidableEq, Repr

/-- A counterparty that is linked to a customer has to be linked to the
order's. -/
def requireCounterpartyCustomerMatch
    (linkedCustomerId orderCustomerId : Option String) :
    Except Refusal Unit :=
  match linkedCustomerId with
  | none => .ok ()
  | some _ =>
      if linkedCustomerId = orderCustomerId then .ok ()
      else .error (.validation COUNTERPARTY_CUSTOMER_MISMATCH_MESSAGE)

/-- Without a counterparty the order needs a customer. -/
def requireOrderCustomerId (customerId : Option String) :
    Except Refusal Unit :=
  match customerId with
  | some _ => .ok ()
  | none => .error (.validation MISSING_BUYER_MESSAGE)

/-- The buyer is the counterparty if one is given, else the order's customer.
-/
def requireBuyer (order : Order) (counterparty : Option CounterpartyFact) :
    Except Refusal Unit :=
  match counterparty with
  | some fact =>
      requireCounterpartyCustomerMatch fact.customerId order.linkedCustomerId
  | none => requireOrderCustomerId order.linkedCustomerId

/-- The only status of an order that no document can be created in. -/
def assertOrderNotCanceled (status : OrderStatus) : Except Refusal Unit :=
  if status = .canceled then .error (.conflict CANCELED_ORDER_MESSAGE)
  else .ok ()

/-- The currency of all lines of an order; an order without lines has none to
copy. -/
def requireUniformCurrency (order : Order) : Except Refusal String :=
  match order.items with
  | [] => .error (.invariant
      s!"order {order.id} has no line snapshots to copy")
  | first :: rest =>
      if ∀ item ∈ rest, item.currency = first.currency then
        .ok first.currency
      else .error (.invariant
        s!"order {order.id} line currencies are not uniform")

/-- The supplier's part of the snapshot, of which only its presence matters
here. -/
def snapshotSupplier (sellerLegal : Bool) : Except Refusal Unit :=
  if sellerLegal then .ok ()
  else .error (.validation MISSING_SELLER_LEGAL_MESSAGE)

/-- The document as far as it does not depend on the number. -/
structure Draft where
  order : Order
  type : DocumentType
  counterpartyId : Option String
  currency : String

/-- The checks of `createFromOrder` on the order that was read. -/
def prepare (order : Order) (type : DocumentType)
    (counterparty : Option CounterpartyFact) (sellerLegal : Bool) :
    Except Refusal Draft := do
  requireBuyer order counterparty
  assertOrderNotCanceled order.status
  let currency ← requireUniformCurrency order
  snapshotSupplier sellerLegal
  return ⟨order, type, counterparty.map CounterpartyFact.id, currency⟩

/-- The row that is inserted under a number. -/
def Draft.document (draft : Draft) (numberingPrefix documentId : String)
    (sequence : ℕ) : Document where
  id := documentId
  orderId := draft.order.id
  counterpartyId := draft.counterpartyId
  type := draft.type
  status := .issued
  documentNumber :=
    formatDocumentNumber numberingPrefix draft.type sequence
  items := draft.order.items
  totals := Totals.of draft.order.items
  currency := draft.currency

/-! ## Moves of an order

Four actions move the status of an order, each from some statuses to one. -/

/-- The four actions that change the status of an order. -/
inductive OrderMove
  | confirm
  | start
  | complete
  | cancel
deriving DecidableEq, Repr

/-- The status that a move leads to. -/
def OrderMove.target : OrderMove → OrderStatus
  | .confirm => .confirmed
  | .start => .in_progress
  | .complete => .done
  | .cancel => .canceled

/-- The statuses that a move starts from. -/
def OrderMove.sources : OrderMove → List OrderStatus
  | .confirm => [.new]
  | .start => [.confirmed]
  | .complete => [.in_progress]
  | .cancel => [.new, .confirmed, .in_progress]

/-- The refusal of a move whose target the order has. -/
def OrderMove.alreadyMessage : OrderMove → String
  | .confirm => "Order is already confirmed."
  | .start => "Order is already started."
  | .complete => "Order is already completed."
  | .cancel => "Order is already canceled."

/-- The refusal of a move from a status that it does not start in. -/
def OrderMove.cannotMessage : OrderMove → String
  | .confirm => "Order cannot be confirmed."
  | .start => "Order cannot be started."
  | .complete => "Order cannot be completed."
  | .cancel => "Order cannot be canceled."

/-- A move is refused first as done already, then as not possible. -/
def OrderMove.check (move : OrderMove) (status : OrderStatus) :
    Except Refusal Unit :=
  if status = move.target then .error (.conflict move.alreadyMessage)
  else if status ∉ move.sources then .error (.conflict move.cannotMessage)
  else .ok ()

/-! ## Statements

One statement at a time for each action, with what it locks. -/

/-- How far a call has come, with what it has read. -/
inductive Place
  | idle
  | ordered (order : Order) (type : DocumentType)
  | prepared (draft : Draft)
  | unduplicated (draft : Draft)
  | numbered (draft : Draft) (sequence : ℕ)
  | inserted (draft : Draft) (sequence : ℕ) (documentId : String)
  | moving (orderId : String) (move : OrderMove)
  | documentLocked (documentId : String)
  | unsigned (documentId : String)

/-- What can be locked. `share` is what a document of a type takes of its
order. -/
inductive Lock
  | counter (type : DocumentType)
  | share (orderId : String) (type : DocumentType)
  | live (orderId : String) (type : DocumentType)
  | documentKey (documentId : String)
  | document (documentId : String)
deriving DecidableEq, Repr

/-- The row locks that a call holds where it has come to. -/
def Place.held : Place → List Lock
  | .idle => []
  | .ordered .. => []
  | .prepared _ => []
  | .unduplicated _ => []
  | .numbered draft _ => [.counter draft.type]
  | .inserted draft _ documentId =>
      [.counter draft.type, .share draft.order.id draft.type,
        .live draft.order.id draft.type, .documentKey documentId]
  | .moving orderId _ =>
      [.share orderId .payment_invoice, .share orderId .delivery_note]
  | .documentLocked documentId => [.document documentId]
  | .unsigned documentId => [.document documentId]

/-- The statements; `fail` is a crash or an error from elsewhere, at any
point. -/
inductive Statement
  | placeOrder (orderId : String) (linkedCustomerId : Option String)
      (items : List Line)
  | createFromOrder (orderId : String) (type : DocumentType)
  | prepare (counterparty : Option CounterpartyFact) (sellerLegal : Bool)
  | assertNoLiveDocument
  | allocateNextDocumentNumber
  | insertDocument (documentId : String)
  | moveOrder (orderId : String) (move : OrderMove)
  | cancelDocument (documentId : String)
  | getSigning (supplierSigned : Bool)
  | commit
  | fail
deriving DecidableEq, Repr

/-- What is to be seen from outside: the rows committed, and the refusals. -/
inductive Event
  | created (document : Document)
  | cancelled (documentId : String)
  | moved (orderId : String) (move : OrderMove)
  | refused (why : Refusal)
deriving DecidableEq, Repr

/-- What a statement does: the data after it, the caller's next place and what
it says. -/
abbrev Result := Outcome Data Place Event

/-- A statement that only leads on. -/
def goOn (d : Data) (place : Place) : Result := ⟨d, place, []⟩

/-- A statement that ends its call without its effect. -/
def refuse (d : Data) (why : Refusal) : Result := ⟨d, .idle, [.refused why]⟩

/-- The header and the lines of a new order, in one. -/
def placeOrder (d : Data) (orderId : String)
    (linkedCustomerId : Option String) (items : List Line) : Result :=
  if ∃ o ∈ d.orders, o.id = orderId then refuse d .database
  else
    { data :=
        { d with
          orders :=
            ⟨orderId, .new, linkedCustomerId, items, Totals.of items, rfl⟩ ::
              d.orders }
      place := .idle
      out := [] }

/-- `getOrder`, which locks nothing. -/
def createFromOrder (d : Data) (orderId : String) (type : DocumentType) :
    Result :=
  match d.order orderId with
  | none => refuse d .notFound
  | some order =>
      if order.items = [] then
        refuse d (.invariant s!"order {orderId} has no line snapshots")
      else goOn d (.ordered order type)

/-- The checks on an order that was read, before anything is written. -/
def prepareOrdered (d : Data) (order : Order) (type : DocumentType)
    (counterparty : Option CounterpartyFact) (sellerLegal : Bool) : Result :=
  match prepare order type counterparty sellerLegal with
  | .ok draft => goOn d (.prepared draft)
  | .error why => refuse d why

/-- The check that no live document of the type exists. It is a plain read, so
two calls may pass it. -/
def assertNoLiveDocument (d : Data) (draft : Draft) : Result :=
  if ∃ doc ∈ d.documents, doc.LiveFor draft.order.id draft.type then
    refuse d (.conflict DUPLICATE_LIVE_DOCUMENT_MESSAGE)
  else goOn d (.unduplicated draft)

/-- One upsert that takes the next number of a type. The column refuses what it
cannot hold. -/
def allocateNextDocumentNumber (d : Data) (draft : Draft) : Result :=
  if d.lastNumber draft.type + 1 < LAST_NUMBER_LIMIT then
    goOn d (.numbered draft (d.lastNumber draft.type + 1))
  else refuse d .database

/-- The insert, and the unique indexes it may meet. -/
def insertDocument (numberingPrefix : String) (d : Data) (draft : Draft)
    (sequence : ℕ) (documentId : String) : Result :=
  if ∃ doc ∈ d.documents, doc.LiveFor draft.order.id draft.type then
    refuse d (.conflict DUPLICATE_LIVE_DOCUMENT_MESSAGE)
  else if ∃ doc ∈ d.documents, doc.id = documentId ∨
      doc.type = draft.type ∧ doc.documentNumber =
        formatDocumentNumber numberingPrefix draft.type sequence then
    refuse d .database
  else goOn d (.inserted draft sequence documentId)

/-- The locked read of the order that a move starts with, and its checks. -/
def moveOrder (d : Data) (orderId : String) (move : OrderMove) : Result :=
  match d.order orderId with
  | none => refuse d .notFound
  | some order =>
      match move.check order.status with
      | .ok () => goOn d (.moving orderId move)
      | .error why => refuse d why

/-- The locked read of a document to cancel. -/
def cancelDocument (d : Data) (documentId : String) : Result :=
  match d.document documentId with
  | none => refuse d .notFound
  | some document =>
      match document.status with
      | .cancelled => refuse d (.conflict ALREADY_CANCELLED_MESSAGE)
      | .issued => goOn d (.documentLocked documentId)

/-- The update of one order's status. -/
def Order.setStatus (orderId : String) (status : OrderStatus)
    (order : Order) : Order :=
  if order.id = orderId then { order with status := status } else order

/-- The update of one document's status. -/
def Document.cancel (documentId : String) (document : Document) : Document :=
  if document.id = documentId then { document with status := .cancelled }
  else document

/-- The last statement of a transaction that changes rows. -/
def commit (numberingPrefix : String) (d : Data) : Place → Option Result
  | .inserted draft sequence documentId => some
      { data :=
          { d with
            documents :=
              draft.document numberingPrefix documentId sequence ::
                d.documents
            lastNumber := Function.update d.lastNumber draft.type sequence }
        place := .idle
        out := [.created
          (draft.document numberingPrefix documentId sequence)] }
  | .moving orderId move => some
      { data :=
          { d with orders := d.orders.map (Order.setStatus orderId move.target) }
        place := .idle
        out := [.moved orderId move] }
  | .unsigned documentId => some
      { data :=
          { d with documents := d.documents.map (Document.cancel documentId) }
        place := .idle
        out := [.cancelled documentId] }
  | _ => none

/-- What `p` runs from where it is. -/
def statement (numberingPrefix : String) (d : Data) :
    Place → Statement → Option Result
  | .idle, .placeOrder orderId linkedCustomerId items =>
      some (placeOrder d orderId linkedCustomerId items)
  | .idle, .createFromOrder orderId type =>
      some (createFromOrder d orderId type)
  | .idle, .moveOrder orderId move => some (moveOrder d orderId move)
  | .idle, .cancelDocument documentId => some (cancelDocument d documentId)
  | .ordered order type, .prepare counterparty sellerLegal =>
      some (prepareOrdered d order type counterparty sellerLegal)
  | .prepared draft, .assertNoLiveDocument =>
      some (assertNoLiveDocument d draft)
  | .unduplicated draft, .allocateNextDocumentNumber =>
      some (allocateNextDocumentNumber d draft)
  | .numbered draft sequence, .insertDocument documentId =>
      some (insertDocument numberingPrefix d draft sequence documentId)
  | .documentLocked documentId, .getSigning supplierSigned =>
      some (if supplierSigned then
          refuse d (.conflict SIGNED_CANNOT_CANCEL_MESSAGE)
        else goOn d (.unsigned documentId))
  | place, .commit => commit numberingPrefix d place
  | .idle, .fail => none
  | _, .fail => some (goOn d .idle)
  | _, _ => none

/-- The callers of one company, which starts with no rows. -/
def server (numberingPrefix : String) :
    Server Data Lock Place Statement Event where
  init := ⟨[], [], fun _ => 0⟩
  start := .idle
  held := Place.held
  statement := statement numberingPrefix

/-- The database, its locks and the calls in progress. -/
abbrev State := Server.State Data Lock Place

/-- The system: each step runs one statement of one call. -/
abbrev machine (numberingPrefix : String) :
    Machine State (ℕ × Statement) Event :=
  (server numberingPrefix).machine

end Shozee.Documents
