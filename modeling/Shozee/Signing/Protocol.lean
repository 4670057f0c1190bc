import Mathlib.Data.List.Basic
import Shozee.Run.Transactions

/-!
# Signing one document

Five actions work on a document, its signing requests and its supplier
signature: `documents.requestSign` grants a signature for a quarter of an hour,
`docSigning.start` freezes the hash of the PDF in a request,
`docSigning.complete` verifies the signed container and records the signature,
`documents.cancel` cancels the document and `docSigning.abandonRequest` deletes
what is pending afterwards.

Each is a transaction, here a sequence of statements of `Shozee.Run.Server`.
The first two and `cancel` lock the document's row with their first statement;
`complete` reads and verifies before it does, and looks at everything again
under the lock. The two unique indexes make an insert wait for another one that
is open, and fail beside one that is committed: so an insert that has been made
is a lock as well. A refusal leaves no lock behind and does not wait, which
allows more runs than there are.

Of the verification of a container the model has what is hashed; what the
cryptographic engine finds is a parameter. What other modules answer (whether
the PDF is there, the bytes of a staged file) is part of the statement. Rows are
those of one document of one company; `recordSigningObject` is one of the points
where `complete` may fail.
-/

namespace Shozee.Signing

open Shozee.Run

/-- HITL grant TTL: 15 minutes. -/
def SIGN_REQUEST_GRANT_TTL_MS : Int := 15 * 60 * 1000

/-! ## Rows and messages

The rows of one document, and what is answered. -/

/-- A document is issued when it is created, and may be cancelled. -/
inductive DocumentStatus
  | issued
  | cancelled
deriving DecidableEq, Repr

/-- The row of `documents`. -/
structure DocumentRow where
  status : DocumentStatus
  signRequestedAt : Option Int
deriving DecidableEq, Repr

/-- A request waits for its signature or has it. -/
inductive RequestStatus
  | pending
  | completed
deriving DecidableEq, Repr

/-- A row of `signing_requests`. -/
structure SigningRequest where
  id : String
  payloadFileId : String
  payloadSha256 : String
  status : RequestStatus
deriving DecidableEq, Repr

/-- A row of `signing_signatures`, whose role is always `supplier`. -/
structure SupplierSignature where
  fileId : String
  signerCn : String
  signerOrg : String
  signerTaxId : String
  signatureAlg : String
  signedAt : Int
deriving DecidableEq, Repr

/-- What the engine finds out about the signature of a container. `signedAt` is
the time it states, if that is a time. -/
structure SignatureInfo where
  signerCn : String
  signerOrg : String
  signerTaxId : String
  signatureAlg : String
  signedAt : Option Int
deriving DecidableEq, Repr

/-- What `verifyAsicE` returns. -/
structure AsicVerifyResult where
  payloadSha256 : String
  info : SignatureInfo
deriving DecidableEq, Repr

/-- What `complete` returns. -/
structure CompleteSigningView where
  requestId : String
  signature : SupplierSignature
deriving DecidableEq, Repr

/-- Why an action failed, in its words. -/
inductive Refusal
  | notFound
  | conflict (message : String)
  | validation (message : String)
  | invariant (message : String)
deriving DecidableEq, Repr

/-- A signature for a cancelled document. -/
def CANCELLED_DOCUMENT_SIGN_MESSAGE : String :=
  "Cancelled documents cannot be signed."

/-- The same, when a signature is asked for. -/
def CANCELLED_REQUEST_SIGN_MESSAGE : String := CANCELLED_DOCUMENT_SIGN_MESSAGE

/-- A second signature. -/
def ALREADY_SIGNED_MESSAGE : String := "Document is already signed."

/-- A second completion with another file. -/
def DIFFERENT_FILE_MESSAGE : String := ALREADY_SIGNED_MESSAGE

/-- A document whose paper is not there yet. -/
def PDF_NOT_READY_MESSAGE : String :=
  "The document PDF must be ready before requesting a signature."

/-- A start that no one asked for. -/
def GRANT_MISSING_MESSAGE : String :=
  "A signature request grant is required. Call documents.requestSign again."

/-- A start that was asked for too long ago. -/
def GRANT_EXPIRED_MESSAGE : String :=
  "The signature request grant has expired. Call documents.requestSign again."

/-- A second cancellation. -/
def ALREADY_CANCELLED_MESSAGE : String := "Document is already cancelled."

/-- The cancellation of a signed document. -/
def SIGNED_CANNOT_CANCEL_MESSAGE : String :=
  "A signed document cannot be cancelled."

/-- An upload that does not verify. -/
def INVALID_ASIC_MESSAGE : String :=
  "The uploaded file is not a valid signed ASiC-E container."

/-- An upload that verifies, of another paper. -/
def PAYLOAD_MISMATCH_MESSAGE : String :=
  "The signed payload does not match the document frozen at start."

/-! ## Verification

What the engine is asked and what is kept of its answer. -/

/-- What `verifyAsicE` is made of: the payload inside a container, its hash, and
the engine's word on the signature, if that is valid. -/
structure Verifier (B : Type*) where
  unpackAsicE : B → Option B
  sha256Hex : B → String
  signatureInfo : B → Option SignatureInfo

/-- A container unpacked and its signature read; without either there is no
result. -/
def Verifier.verifyAsicE {B : Type*} (v : Verifier B) (bytes : B) :
    Option AsicVerifyResult :=
  match v.unpackAsicE bytes with
  | none => none
  | some payload =>
      match v.signatureInfo bytes with
      | none => none
      | some info => some ⟨v.sha256Hex payload, info⟩

/-- The row that `complete` makes of a verified container. -/
def signatureOf (fileId : String) (verified : AsicVerifyResult) (now : Int) :
    SupplierSignature where
  fileId := fileId
  signerCn :=
    if verified.info.signerCn = "" then "unknown" else verified.info.signerCn
  signerOrg := verified.info.signerOrg
  signerTaxId := verified.info.signerTaxId
  signatureAlg := verified.info.signatureAlg
  signedAt := verified.info.signedAt.getD now

/-! ## The gates

The checks that are made under the lock of the document. -/

/-- The grant has to be there and young enough. Its last moment is refused. -/
def requireUnexpiredGrant (signRequestedAt : Option Int) (now : Int) :
    Except Refusal Unit :=
  match signRequestedAt with
  | none => .error (.validation GRANT_MISSING_MESSAGE)
  | some requestedAt =>
      if now - requestedAt < SIGN_REQUEST_GRANT_TTL_MS then .ok ()
      else .error (.validation GRANT_EXPIRED_MESSAGE)

/-- The paper that is to be signed has to be stored. -/
def requireReadyPdf (ready : Bool) : Except Refusal Unit :=
  if ready then .ok () else .error (.validation PDF_NOT_READY_MESSAGE)

/-- What `documents.lockIssuedForSigning` asks of the row it has locked. -/
def lockIssuedForSigning (row : DocumentRow) (now : Int) (ready : Bool) :
    Except Refusal Unit := do
  if row.status ≠ .issued then
    throw (.conflict CANCELLED_REQUEST_SIGN_MESSAGE)
  requireUnexpiredGrant row.signRequestedAt now
  requireReadyPdf ready

/-- What `documents.requestSign` asks of it. -/
def requestSignGate (row : DocumentRow) (ready : Bool) :
    Except Refusal Unit := do
  if row.status ≠ .issued then
    throw (.conflict CANCELLED_REQUEST_SIGN_MESSAGE)
  requireReadyPdf ready

/-- Same-file replay or different-file conflict for a signature that has been
recorded. -/
def resolveExistingSignature (signature : SupplierSignature)
    (fileId requestId : String) : Except Refusal CompleteSigningView :=
  if signature.fileId ≠ fileId then .error (.conflict DIFFERENT_FILE_MESSAGE)
  else .ok ⟨requestId, signature⟩

/-! ## Statements

The statements of each action, with what they lock. -/

/-- The committed rows of one document. `drawn` are the ids of requests drawn so
far, whether their insert was committed or not. -/
structure Data where
  document : DocumentRow
  requests : List SigningRequest
  signatures : List SupplierSignature
  drawn : List String
deriving DecidableEq, Repr

/-- The request that waits, if one does. -/
def Data.pendingRequest (d : Data) : Option SigningRequest :=
  d.requests.find? fun r => r.status = .pending

/-- The row of a request, by its key. -/
def Data.request (d : Data) (requestId : String) : Option SigningRequest :=
  d.requests.find? fun r => r.id = requestId

/-- What an attempt to complete a request has found before it locks. -/
structure Attempt where
  request : SigningRequest
  fileId : String
  verified : AsicVerifyResult
  signature : SupplierSignature
deriving DecidableEq, Repr

/-- Where a caller is. -/
inductive Place
  | idle
  | requestIssued
  | requestUnsigned
  | cancelIssued
  | cancelUnsigned
  | startIssued
  | startUnsigned
  | startUnrequested
  | startRaced
  | startInserted (row : SigningRequest)
  | completedSeen (requestId fileId : String)
  | pendingSeen (request : SigningRequest) (fileId : String)
  | unsignedSeen (request : SigningRequest) (fileId : String)
  | verified (attempt : Attempt)
  | documentLocked (attempt : Attempt) (heldAt : Int)
  | completedLocked (requestId fileId : String)
  | requestLocked (attempt : Attempt) (heldAt : Int)
  | unclaimed (attempt : Attempt) (heldAt : Int)
  | raced (requestId fileId : String)
  | inserted (attempt : Attempt) (heldAt : Int)
  | abandoning (requestIds : List String)
deriving DecidableEq, Repr

/-- What can be locked: rows, and the entries of the two unique indexes. -/
inductive Lock
  | document
  | request (requestId : String)
  | pendingIndex
  | signatureIndex
deriving DecidableEq, Repr

/-- The row locks that a call holds where it has come to. -/
def Place.held : Place → List Lock
  | .idle => []
  | .requestIssued => [.document]
  | .requestUnsigned => [.document]
  | .cancelIssued => [.document]
  | .cancelUnsigned => [.document]
  | .startIssued => [.document]
  | .startUnsigned => [.document]
  | .startUnrequested => [.document]
  | .startRaced => [.document]
  | .startInserted _ => [.document, .pendingIndex]
  | .completedSeen .. => []
  | .pendingSeen .. => []
  | .unsignedSeen .. => []
  | .verified _ => []
  | .documentLocked .. => [.document]
  | .completedLocked requestId _ => [.document, .request requestId]
  | .requestLocked attempt _ => [.document, .request attempt.request.id]
  | .unclaimed attempt _ => [.document, .request attempt.request.id]
  | .raced requestId _ => [.document, .request requestId]
  | .inserted attempt _ =>
      [.document, .request attempt.request.id, .signatureIndex]
  | .abandoning requestIds => requestIds.map Lock.request

/-- The statements; `fail` is a crash or an error from elsewhere, at any
point. -/
inductive Statement (B : Type*)
  | requestSign (ready : Bool)
  | cancel
  | start (now : Int) (ready : Bool)
  | complete (requestId fileId : String)
  | abandon (requestIds : List String)
  | loadSupplierSignature
  | loadPendingRequest
  | insertRequest (requestId : String) (fileId : Option String)
      (checksumSha256 : String)
  | verify (bytes : B) (now : Int)
  | lockIssued (now : Int) (ready : Bool)
  | lockRequest
  | insertSignature
  | commit (now : Int)
  | fail
deriving DecidableEq, Repr

/-- What is to be seen from outside: the rows committed, and the answers. -/
inductive Event
  | requested (now : Int)
  | cancelled
  | started (row : SigningRequest)
  | resumed (row : SigningRequest)
  | signed (attempt : Attempt) (heldAt : Int)
  | abandoned (requestIds : List String)
  | answered (requestId fileId : String)
      (reply : Except Refusal CompleteSigningView)
  | refused (why : Refusal)
deriving DecidableEq, Repr

/-- What a statement does: the data after it, the caller's next place and what
it says. -/
abbrev Result := Outcome Data Place Event

/-- A statement that only leads on. -/
def goOn (d : Data) (place : Place) : Result := ⟨d, place, []⟩

/-- A statement that ends its call without its effect. -/
def refuse (d : Data) (why : Refusal) : Result := ⟨d, .idle, [.refused why]⟩

/-- The answer of a start that finds a request waiting. -/
def resume (d : Data) (row : SigningRequest) : Result :=
  ⟨d, .idle, [.resumed row]⟩

/-- The answer of a completion. -/
def answer (d : Data) (requestId fileId : String)
    (reply : Except Refusal CompleteSigningView) : Result :=
  ⟨d, .idle, [.answered requestId fileId reply]⟩

/-- A check that leads on, or to a refusal. -/
def gate (d : Data) (check : Except Refusal Unit) (place : Place) : Result :=
  match check with
  | .ok () => goOn d place
  | .error why => refuse d why

/-- The locked read of the document to cancel. -/
def cancelIssued (d : Data) : Result :=
  match d.document.status with
  | .cancelled => refuse d (.conflict ALREADY_CANCELLED_MESSAGE)
  | .issued => goOn d .cancelIssued

/-- A supplier signature is in the way of what comes next. -/
def unlessSigned (d : Data) (message : String) (place : Place) : Result :=
  match d.signatures.head? with
  | some _ => refuse d (.conflict message)
  | none => goOn d place

/-- A supplier signature answers the call, and without one it goes on. -/
def resolveOr (d : Data) (requestId fileId : String) (place : Place) :
    Result :=
  match d.signatures.head? with
  | some signature => answer d requestId fileId
      (resolveExistingSignature signature fileId requestId)
  | none => goOn d place

/-- A supplier signature answers the call, and there must be one. -/
def resolveRecorded (d : Data) (requestId fileId message : String) : Result :=
  match d.signatures.head? with
  | some signature => answer d requestId fileId
      (resolveExistingSignature signature fileId requestId)
  | none => answer d requestId fileId (.error (.invariant message))

/-- The read of a waiting request, and what to do without one. -/
def loadPendingOr (d : Data) (otherwise : Result) : Result :=
  match d.pendingRequest with
  | some row => resume d row
  | none => otherwise

/-- The insert of `docSigning.start`, and its race on the partial index. -/
def insertRequest (d : Data) (requestId : String) (fileId : Option String)
    (checksumSha256 : String) : Option Result :=
  match fileId with
  | none => some (refuse d (.validation PDF_NOT_READY_MESSAGE))
  | some fileId =>
      match d.pendingRequest with
      | some _ => some (goOn d .startRaced)
      | none =>
          if requestId ∈ d.drawn then none
          else some (goOn { d with drawn := requestId :: d.drawn }
            (.startInserted ⟨requestId, fileId, checksumSha256, .pending⟩))

/-- The first statement of `docSigning.complete`, which locks nothing. -/
def complete (d : Data) (requestId fileId : String) : Result :=
  match d.request requestId with
  | none => answer d requestId fileId (.error .notFound)
  | some request =>
      match request.status with
      | .completed => goOn d (.completedSeen requestId fileId)
      | .pending => goOn d (.pendingSeen request fileId)

/-- The verification, which works on what has been read. -/
def verify {B : Type*} (v : Verifier B) (d : Data) (request : SigningRequest)
    (fileId : String) (bytes : B) (now : Int) : Result :=
  match v.verifyAsicE bytes with
  | none => answer d request.id fileId
      (.error (.validation INVALID_ASIC_MESSAGE))
  | some verified =>
      if verified.payloadSha256 = request.payloadSha256 then
        goOn d (.verified
          ⟨request, fileId, verified, signatureOf fileId verified now⟩)
      else answer d request.id fileId
        (.error (.validation PAYLOAD_MISMATCH_MESSAGE))

/-- The document again, now locked. -/
def lockDocument (d : Data) (attempt : Attempt) (now : Int) (ready : Bool) :
    Result :=
  match lockIssuedForSigning d.document now ready with
  | .ok () => goOn d (.documentLocked attempt now)
  | .error why => answer d attempt.request.id attempt.fileId (.error why)

/-- The request again, now locked. -/
def lockRequest (d : Data) (attempt : Attempt) (heldAt : Int) : Result :=
  match d.request attempt.request.id with
  | none => answer d attempt.request.id attempt.fileId (.error .notFound)
  | some request =>
      match request.status with
      | .completed => goOn d (.completedLocked request.id attempt.fileId)
      | .pending => goOn d (.requestLocked attempt heldAt)

/-- The insert of `docSigning.complete`, and its race on the unique index. -/
def insertSignature (d : Data) (attempt : Attempt) (heldAt : Int) : Result :=
  match d.signatures.head? with
  | some _ => goOn d (.raced attempt.request.id attempt.fileId)
  | none => goOn d (.inserted attempt heldAt)

/-- The request is completed if it is still there and pending. -/
def SigningRequest.close (requestId : String) (request : SigningRequest) :
    SigningRequest :=
  if request.id = requestId ∧ request.status = .pending then
    { request with status := .completed }
  else request

/-- The last statement of `docSigning.complete`. -/
def commitSignature (d : Data) (attempt : Attempt) (heldAt : Int) : Result :=
  if ∃ r ∈ d.requests, r.id = attempt.request.id ∧ r.status = .pending then
    { data :=
        { d with
          signatures := attempt.signature :: d.signatures
          requests :=
            d.requests.map (SigningRequest.close attempt.request.id) }
      place := .idle
      out :=
        [.answered attempt.request.id attempt.fileId
          (.ok ⟨attempt.request.id, attempt.signature⟩),
        .signed attempt heldAt] }
  else answer d attempt.request.id attempt.fileId
    (.error (.invariant "docSigning.complete lost the pending request"))

/-- The rows that a delete has found pending. -/
def abandon (d : Data) (requestIds : List String) : Option Result :=
  if ∀ id ∈ requestIds, ∃ r ∈ d.requests, r.id = id ∧ r.status = .pending then
    some (goOn d (.abandoning requestIds))
  else none

/-- The last statement of a transaction that changes rows. -/
def commit (d : Data) (now : Int) : Place → Option Result
  | .requestUnsigned => some
      { data :=
          { d with document := { d.document with signRequestedAt := some now } }
        place := .idle
        out := [.requested now] }
  | .cancelUnsigned => some
      { data := { d with document := ⟨.cancelled, none⟩ }
        place := .idle
        out := [.cancelled] }
  | .startInserted row => some
      { data := { d with requests := row :: d.requests }
        place := .idle
        out := [.started row] }
  | .inserted attempt heldAt => some (commitSignature d attempt heldAt)
  | .abandoning requestIds => some
      { data :=
          { d with requests := d.requests.filter fun r => r.id ∉ requestIds }
        place := .idle
        out := [.abandoned requestIds] }
  | _ => none

/-- The reads of the supplier signature, each with what depends on it. -/
def loadSupplierSignature (d : Data) : Place → Option Result
  | .requestIssued => some
      (unlessSigned d ALREADY_SIGNED_MESSAGE .requestUnsigned)
  | .cancelIssued => some
      (unlessSigned d SIGNED_CANNOT_CANCEL_MESSAGE .cancelUnsigned)
  | .startIssued => some
      (unlessSigned d ALREADY_SIGNED_MESSAGE .startUnsigned)
  | .completedSeen requestId fileId => some (resolveRecorded d requestId fileId
      "docSigning.complete completed request is missing a signature")
  | .pendingSeen request fileId => some
      (resolveOr d request.id fileId (.unsignedSeen request fileId))
  | .completedLocked requestId fileId => some
      (resolveRecorded d requestId fileId
        "docSigning.complete completed request is missing a signature")
  | .requestLocked attempt heldAt => some
      (resolveOr d attempt.request.id attempt.fileId
        (.unclaimed attempt heldAt))
  | .raced requestId fileId => some (resolveRecorded d requestId fileId
      "docSigning.complete unique race lost a signature")
  | _ => none

/-- The reads of the pending request in `docSigning.start`. -/
def loadPendingRequest (d : Data) : Place → Option Result
  | .startUnsigned => some (loadPendingOr d (goOn d .startUnrequested))
  | .startRaced => some (loadPendingOr d (refuse d
      (.invariant "docSigning.start unique race lost a pending request")))
  | _ => none

/-- One statement of a call, at the places that its action reaches. -/
def statement {B : Type*} (v : Verifier B) (d : Data) (place : Place) :
    Statement B → Option Result
  | .requestSign ready =>
      if place = .idle then
        some (gate d (requestSignGate d.document ready) .requestIssued)
      else none
  | .cancel => if place = .idle then some (cancelIssued d) else none
  | .start now ready =>
      if place = .idle then
        some (gate d (lockIssuedForSigning d.document now ready) .startIssued)
      else none
  | .complete requestId fileId =>
      if place = .idle then some (complete d requestId fileId) else none
  | .abandon requestIds =>
      if place = .idle then abandon d requestIds else none
  | .loadSupplierSignature => loadSupplierSignature d place
  | .loadPendingRequest => loadPendingRequest d place
  | .insertRequest requestId fileId checksumSha256 =>
      if place = .startUnrequested then
        insertRequest d requestId fileId checksumSha256
      else none
  | .verify bytes now =>
      match place with
      | .unsignedSeen request fileId =>
          some (verify v d request fileId bytes now)
      | _ => none
  | .lockIssued now ready =>
      match place with
      | .verified attempt => some (lockDocument d attempt now ready)
      | _ => none
  | .lockRequest =>
      match place with
      | .documentLocked attempt heldAt => some (lockRequest d attempt heldAt)
      | _ => none
  | .insertSignature =>
      match place with
      | .unclaimed attempt heldAt => some (insertSignature d attempt heldAt)
      | _ => none
  | .commit now => commit d now place
  | .fail => if place = .idle then none else some (goOn d .idle)

/-- The callers of one document, which starts as it was issued. -/
def server {B : Type*} (v : Verifier B) :
    Server Data Lock Place (Statement B) Event where
  init := ⟨⟨.issued, none⟩, [], [], []⟩
  start := .idle
  held := Place.held
  statement := statement v

/-- The database, its locks and the calls in progress. -/
abbrev State := Server.State Data Lock Place

/-- The system: each step runs one statement of one call. -/
abbrev machine {B : Type*} (v : Verifier B) :
    Machine State (ℕ × Statement B) Event :=
  (server v).machine

end Shozee.Signing
