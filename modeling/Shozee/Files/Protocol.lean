import Mathlib.Data.List.Basic
import Shozee.Run.Transactions

/-!
# Uploaded files

A file is a row, and objects in a store. The client puts bytes under a staging
key through a signed URL; `files.finalizeUpload` writes a catalog file's bytes
and its four renditions under their durable keys, and
`files.recordSigningObject` copies a signing file's. Each then makes the row
ready. `files.sweepAbandonedUploads` deletes what pending rows have left behind
an hour after they were made, and the staging objects of ready ones.

Each of them is a transaction of `Shozee.Run.Server` on the rows, under row
locks. The store is no part of a transaction: every request to it is a
statement of its own, which takes effect at once and stays when the transaction
is rolled back. A handler that has run out of time is not stopped either. Its
transaction is rolled back, and it goes on with its requests until it asks the
database for something (`Place.inTx`).

Clocks are those of the processes, of the database and of the store, each read
when a statement says so; `time` is what the slowest of them reads.

The bytes themselves are a parameter, with what the services compute of them
(`Content`): size, checksum, ETag and the two tests on magic bytes.
-/

namespace Shozee.Files

open Shozee.Run

/-! ## Rows and objects

A row, and the keys under which its bytes may be. -/

/-- What a file is for. -/
inductive Purpose
  | catalog
  | signing
deriving DecidableEq, Repr

/-- A file is pending until its upload is completed. -/
inductive Status
  | pending
  | ready
deriving DecidableEq, Repr

/-- The types that an upload may have. -/
inductive MimeType
  | jpeg
  | png
  | webp
  | asic
deriving DecidableEq, Repr

/-- The sizes that a catalog picture is kept in. -/
inductive Rendition
  | thumb
  | card
  | hero
  | full
deriving DecidableEq, Repr

/-- All of them, in the order they are written. -/
def CATALOG_RENDITIONS : List Rendition := [.thumb, .card, .hero, .full]

/-- What stands between the company and the file in an object's key. -/
inductive Folder
  | uploads
  | catalog
  | rendition (rendition : Rendition)
  | signing
deriving DecidableEq, Repr

/-- Company and file ids are UUIDs, so keys with different parts differ. -/
structure ObjectKey where
  companyId : String
  folder : Folder
  fileId : String
deriving DecidableEq, Repr

/-- Where the client puts the bytes. -/
def stagingObjectKey (companyId fileId : String) : ObjectKey :=
  ⟨companyId, .uploads, fileId⟩

/-- Where a catalog picture is kept. -/
def catalogObjectKey (companyId fileId : String) : ObjectKey :=
  ⟨companyId, .catalog, fileId⟩

/-- Where one size of it is kept. -/
def catalogRenditionObjectKey (companyId fileId : String)
    (rendition : Rendition) : ObjectKey :=
  ⟨companyId, .rendition rendition, fileId⟩

/-- Where a signed container is kept. -/
def signingObjectKey (companyId fileId : String) : ObjectKey :=
  ⟨companyId, .signing, fileId⟩

/-- A row of `files`. -/
structure FileRow where
  id : String
  companyId : String
  uploadedByUserId : String
  purpose : Purpose
  objectKey : ObjectKey
  mimeType : MimeType
  byteSize : ℕ
  checksumSha256 : Option String
  status : Status
  createdAt : ℕ
  stagingPurgedAt : Option ℕ
deriving DecidableEq, Repr

/-- The key that the row's upload goes to. -/
def FileRow.stagingKey (row : FileRow) : ObjectKey :=
  stagingObjectKey row.companyId row.id

/-- The key of the row's picture. -/
def FileRow.catalogKey (row : FileRow) : ObjectKey :=
  catalogObjectKey row.companyId row.id

/-- The key of one size of the row's picture. -/
def FileRow.renditionKey (row : FileRow) (rendition : Rendition) : ObjectKey :=
  catalogRenditionObjectKey row.companyId row.id rendition

/-- The key of the row's container. -/
def FileRow.signingKey (row : FileRow) : ObjectKey :=
  signingObjectKey row.companyId row.id

/-- The key that a row names, fixed by its purpose. -/
def durableObjectKey (purpose : Purpose) (companyId fileId : String) :
    ObjectKey :=
  match purpose with
  | .catalog => catalogObjectKey companyId fileId
  | .signing => signingObjectKey companyId fileId

/-- The key of the file's own bytes. -/
def FileRow.durableKey (row : FileRow) : ObjectKey :=
  durableObjectKey row.purpose row.companyId row.id

/-- The keys a ready row's objects are under. -/
def FileRow.durableKeys (row : FileRow) : List ObjectKey :=
  row.durableKey ::
    match row.purpose with
    | .catalog => CATALOG_RENDITIONS.map row.renditionKey
    | .signing => []

/-- What the services compute of an object's bytes. -/
structure Content (B : Type) where
  byteSize : B → ℕ
  sha256Hex : B → String
  etag : B → String
  uploadBytesMatchDeclaredMime : B → MimeType → Bool
  bytesAreAsicContainer : B → Bool

/-- A link for one upload. The storage takes bytes by it until it expires. -/
structure SignedUrl where
  companyId : String
  fileId : String
  expiresAt : ℕ
deriving DecidableEq, Repr

/-- The rows, the store, and the URLs that have been handed out. `requested`
has each row as it was first inserted, `swept` how often a sweep has deleted
what is under a key. -/
structure Data (B : Type) where
  rows : String → Option FileRow
  objects : ObjectKey → Option B
  urls : List SignedUrl
  time : ℕ
  requested : String → Option FileRow
  swept : ObjectKey → ℕ

variable {B : Type}

/-- No row, no object and no link. -/
def Data.initial : Data B where
  rows := fun _ => none
  objects := fun _ => none
  urls := []
  time := 0
  requested := fun _ => none
  swept := fun _ => 0

/-- One row written or removed. -/
def Data.setRow (d : Data B) (id : String) (row : Option FileRow) : Data B :=
  { d with rows := Function.update d.rows id row }

/-- One object written. -/
def Data.putObject (d : Data B) (key : ObjectKey) (bytes : B) : Data B :=
  { d with objects := Function.update d.objects key (some bytes) }

/-- One object removed; a missing one is no error. -/
def Data.deleteObject (d : Data B) (key : ObjectKey) : Data B :=
  { d with objects := Function.update d.objects key none }

/-- A sweep's `deleteObjectIdempotent`. -/
def Data.sweepObject (d : Data B) (key : ObjectKey) : Data B :=
  { d.deleteObject key with
    swept := Function.update d.swept key (d.swept key + 1) }

/-! ## Limits

The times of life of rows and URLs, and the greatest sizes. -/

/-- 1 hour, four times the life of a signed PUT. -/
def abandonedPendingTtlMs : ℕ := 4 * 15 * 60 * 1000

/-- A link lives a quarter of an hour. -/
def signedUrlTtlSec : ℕ := 15 * 60

/-- So that a PUT that has been signed cannot survive the pending row. -/
def signedPutSkewMarginMs : ℕ := 30000

/-- A sweep takes this many rows. -/
def sweepBatchLimit : ℕ := 20

/-- The size of a picture. -/
def maxUploadBytes : ℕ := 10 * 1024 * 1024

/-- The size of a container. -/
def maxDocumentBytes : ℕ := 25 * 1024 * 1024

/-- `Number.MAX_SAFE_INTEGER`. -/
def maxSafeInteger : ℕ := 9007199254740991

/-- When a sweep may take a row that is still pending. -/
def pendingAbandonAt (createdAt : ℕ) : ℕ := createdAt + abandonedPendingTtlMs

/-- Whether a link given now could still be used once the row may be swept. -/
def signedPutWouldOutlivePending (createdAt now : ℕ) : Prop :=
  pendingAbandonAt createdAt ≤
    now + signedUrlTtlSec * 1000 + signedPutSkewMarginMs

instance (createdAt now : ℕ) :
    Decidable (signedPutWouldOutlivePending createdAt now) :=
  inferInstanceAs (Decidable (_ ≤ _))

/-! ## Calls

What each call checks before it touches a row. -/

/-- Why a call ends without its effect. -/
inductive FileError
  | notFound
  | uploadedObjectInvalid
  | conflict (clientMessage : String)
  | coreInvariant (internalMessage : String)
deriving DecidableEq, Repr

/-- A file that is not the signing object that the caller describes. -/
def NOT_RECORDABLE_MESSAGE : String :=
  "This file cannot be recorded as a signing object."

/-- The input of `requestUpload` and `requestSigningUpload`, with the caller's
identity. -/
structure UploadRequest where
  companyId : String
  userId : String
  purpose : Purpose
  mimeType : MimeType
  byteSize : ℕ
  checksumSha256 : String
deriving DecidableEq, Repr

/-- The input of `recordSigningObject`, with the caller's identity. -/
structure RecordRequest where
  companyId : String
  userId : String
  fileId : String
  mimeType : MimeType
  byteSize : ℕ
  checksumSha256 : String
deriving DecidableEq, Repr

/-- The row that a request for an upload inserts, pending, with the size and
the checksum that the client stated. -/
def UploadRequest.row (upload : UploadRequest) (fileId : String)
    (createdAt : ℕ) : FileRow :=
  { id := fileId
    companyId := upload.companyId
    uploadedByUserId := upload.userId
    purpose := upload.purpose
    objectKey := durableObjectKey upload.purpose upload.companyId fileId
    mimeType := upload.mimeType
    byteSize := upload.byteSize
    checksumSha256 := some upload.checksumSha256
    status := .pending
    createdAt
    stagingPurgedAt := none }

/-- `requirePendingUploadMeta`. -/
def requirePendingUploadMeta (row : FileRow) : Except FileError Unit :=
  if row.objectKey ≠ row.catalogKey then .error .uploadedObjectInvalid
  else if row.checksumSha256 = none then .error .uploadedObjectInvalid
  else if row.byteSize < 1 ∨ maxSafeInteger < row.byteSize then
    .error .uploadedObjectInvalid
  else if row.mimeType = .asic then
    .error (.coreInvariant "files row has an undeclared MIME type")
  else .ok ()

/-- `matchingSigningRow`. -/
def matchingSigningRow (row : FileRow) (input : RecordRequest) : Prop :=
  row.companyId = input.companyId ∧ row.id = input.fileId ∧
    row.status = .ready ∧ row.purpose = .signing ∧ row.mimeType = .asic ∧
    row.uploadedByUserId = input.userId ∧
    row.objectKey = signingObjectKey input.companyId input.fileId ∧
    row.checksumSha256 = some input.checksumSha256 ∧
    row.byteSize = input.byteSize

instance (row : FileRow) (input : RecordRequest) :
    Decidable (matchingSigningRow row input) :=
  inferInstanceAs (Decidable (_ ∧ _ ∧ _ ∧ _ ∧ _ ∧ _ ∧ _ ∧ _ ∧ _))

/-- The pending row is the one that the input names. -/
def recordable (row : FileRow) (input : RecordRequest) : Prop :=
  row.objectKey = signingObjectKey input.companyId input.fileId ∧
    row.uploadedByUserId = input.userId ∧ row.mimeType = input.mimeType ∧
    row.checksumSha256 = some input.checksumSha256 ∧
    row.byteSize = input.byteSize

instance (row : FileRow) (input : RecordRequest) :
    Decidable (recordable row input) :=
  inferInstanceAs (Decidable (_ ∧ _ ∧ _ ∧ _ ∧ _))

/-- The keys a sweep deletes for a row it has found, in its order. -/
def FileRow.sweptKeys (row : FileRow) : List ObjectKey :=
  match row.status with
  | .pending => row.stagingKey :: row.durableKeys
  | .ready => [row.stagingKey]

/-! ## Places

What a call does next, and which row it has locked meanwhile. -/

/-- What a call does next. `held` says that the row is locked. -/
inductive Stage (B : Type)
  | idle
  | ended
  -- `finalizeStaffUpload`: the staged object is looked at, read, and compared
  -- again under the lock; the durable objects are put.
  | validating (row : FileRow)
  | reading (row : FileRow)
  | staged (row : FileRow) (bytes : B)
  | locked (row : FileRow) (bytes : B)
  | encoding (row : FileRow) (bytes : B)
  | putting (row : FileRow) (bytes : B) (todo : List (ObjectKey × B))
  -- `fillMissingCatalogRenditions`, for a row that is ready.
  | filling (row : FileRow) (held : Bool) (todo missing : List Rendition)
  | refetching (row : FileRow) (held : Bool) (missing : List Rendition)
  | reencoding (row : FileRow) (held : Bool) (missing : List Rendition)
      (bytes : B)
  | refilling (row : FileRow) (held : Bool) (todo : List (ObjectKey × B))
  | answering (row : FileRow) (held : Bool)
  -- `recordStaffSigningObject`: the object is verified in staging or under
  -- its durable key, copied, recorded, and deleted from staging.
  | verifying (row : FileRow) (input : RecordRequest) (durable : Bool)
  | fetching (row : FileRow) (input : RecordRequest) (durable : Bool)
  | copying (row : FileRow) (input : RecordRequest) (bytes : B)
  | recording (row : FileRow) (input : RecordRequest) (swept : ℕ)
  | recorded (row : FileRow)
  | purged (row : FileRow)
  -- `runAbandonedUploadSweep`, with the rows it has locked.
  | sweeping (selected : List FileRow) (row : FileRow) (keys : List ObjectKey)
      (rest : List FileRow)
  | swept (selected : List FileRow)

/-- A call whose transaction is over has no locks. -/
structure Place (B : Type) where
  stage : Stage B
  inTx : Bool

/-- The rows that a stage has locked. A stage that is reached on two ways holds
its row only on one of them. -/
def Stage.locks : Stage B → List String
  | .locked row _ | .encoding row _ | .putting row _ _ => [row.id]
  | .filling row held _ _ | .refetching row held _ | .reencoding row held _ _
  | .refilling row held _ | .answering row held =>
      if held then [row.id] else []
  | .recorded row | .purged row => [row.id]
  | .sweeping selected _ _ _ | .swept selected => selected.map (·.id)
  | _ => []

/-- Locks last to the end of the transaction. -/
def Place.held (place : Place B) : List String :=
  if place.inTx then place.stage.locks else []

/-- What is reported. `deleted` says whether it was a sweep. -/
inductive Event
  | requested (row : FileRow)
  | wrote (key : ObjectKey)
  | deleted (key : ObjectKey) (bySweep : Bool)
  | readied (row : FileRow)
  | answered (row : FileRow)
  | refused (e : FileError)
deriving DecidableEq, Repr

/-- What the next statement is. `request` is the next request to the store and
`query` the next one to the database, whichever they are at the call's stage;
`encode` is the answer of the encoder. -/
inductive Statement (B : Type)
  | tick (time : ℕ)
  | requestUpload (upload : UploadRequest) (fileId : String) (now : ℕ)
  | getUploadUrl (purpose : Purpose) (companyId fileId : String) (now : ℕ)
  | put (url : SignedUrl) (bytes : B) (now : ℕ)
  | finalize (companyId fileId : String)
  | record (input : RecordRequest)
  | sweep (abandoned ready : List String) (now : ℕ)
  | request
  | encode (encoded : Option (Rendition → B))
  | query (now : ℕ)
  | rollback
  | timeout

/-! ## Statements

The statements of each call and of the store. The store has no part in the
transactions. -/

/-- What a statement does: the data after it, the caller's next stage and what
it says. -/
abbrev Result (B : Type) := Outcome (Data B) (Stage B) Event

/-- A statement that only leads on. -/
def goOn (d : Data B) (stage : Stage B) : Result B := ⟨d, stage, []⟩

/-- A statement that ends its call. -/
def refuse (d : Data B) (e : FileError) : Result B := ⟨d, .ended, [.refused e]⟩

/-- `requestStaffUpload` and `requestStaffSigningUpload`, with an id that
`randomUUID()` has not returned before. -/
def requestUpload (d : Data B) (upload : UploadRequest) (fileId : String)
    (now : ℕ) : Option (Result B) :=
  if d.requested fileId = none then
    let row := upload.row fileId now
    some
      ⟨{ d.setRow fileId (some row) with
          requested := Function.update d.requested fileId (some row) },
        .ended, [.requested row]⟩
  else none

/-- `getStaffHandshakeUploadUrl`. -/
def getUploadUrl (d : Data B) (purpose : Purpose) (companyId fileId : String)
    (now : ℕ) : Result B :=
  match d.rows fileId with
  | none => refuse d .notFound
  | some row =>
      if row.companyId ≠ companyId ∨ row.status ≠ .pending ∨
          row.purpose ≠ purpose then refuse d .notFound
      else if row.objectKey ≠ durableObjectKey purpose companyId fileId then
        refuse d .notFound
      else if row.byteSize < 1 ∨ maxSafeInteger < row.byteSize then
        refuse d (.coreInvariant
          "files pending row has a non-positive declared size")
      else if signedPutWouldOutlivePending row.createdAt now then
        refuse d .notFound
      else
        ⟨{ d with
            urls := ⟨companyId, fileId, now + signedUrlTtlSec * 1000⟩ ::
              d.urls }, .ended, []⟩

/-- A PUT through a signed URL. -/
def put (d : Data B) (url : SignedUrl) (bytes : B) (now : ℕ) :
    Option (Result B) :=
  if url ∈ d.urls ∧ now ≤ url.expiresAt then
    let key := stagingObjectKey url.companyId url.fileId
    some ⟨d.putObject key bytes, .ended, [.wrote key]⟩
  else none

/-- `loadFileRow`. -/
def Data.catalogRow (d : Data B) (companyId fileId : String) :
    Option FileRow :=
  (d.rows fileId).filter fun row =>
    row.companyId = companyId ∧ row.purpose = .catalog

/-- The calls' first statements. -/
def finalize (d : Data B) (companyId fileId : String) : Result B :=
  match d.catalogRow companyId fileId with
  | none => refuse d .notFound
  | some row =>
      match row.status with
      | .ready => goOn d (.filling row false CATALOG_RENDITIONS [])
      | .pending =>
          match requirePendingUploadMeta row with
          | .error e => refuse d e
          | .ok () => goOn d (.validating row)

/-- The read of a row that is to be recorded as a signing object, with its
checks. -/
def record (d : Data B) (input : RecordRequest) : Result B :=
  match d.rows input.fileId with
  | none => refuse d .notFound
  | some row =>
      if row.companyId ≠ input.companyId ∨ row.purpose ≠ .signing then
        refuse d .notFound
      else
        match row.status with
        | .ready =>
            if matchingSigningRow row input then
              ⟨d, .ended, [.answered row]⟩
            else refuse d (.conflict NOT_RECORDABLE_MESSAGE)
        | .pending =>
            if recordable row input then goOn d (.verifying row input false)
            else refuse d (.conflict NOT_RECORDABLE_MESSAGE)

/-- The next row of a sweep, or its commit. -/
def sweepNext (selected : List FileRow) : List FileRow → Stage B
  | [] => .swept selected
  | row :: rest => .sweeping selected row row.sweptKeys rest

/-- The row is abandoned pending, by the sweep's clock. -/
def FileRow.Abandoned (row : FileRow) (now : ℕ) : Prop :=
  row.status = .pending ∧ pendingAbandonAt row.createdAt ≤ now

/-- The row is ready leftover. -/
def FileRow.Leftover (row : FileRow) : Prop :=
  row.status = .ready ∧ row.purpose = .catalog ∧ row.stagingPurgedAt = none

instance (row : FileRow) (now : ℕ) : Decidable (row.Abandoned now) :=
  inferInstanceAs (Decidable (_ ∧ _))

instance (row : FileRow) : Decidable row.Leftover :=
  inferInstanceAs (Decidable (_ ∧ _ ∧ _))

/-- A sweep locks some of the rows it looks for: those that are first and that
nobody has locked. -/
def sweep (d : Data B) (abandoned ready : List String) (now : ℕ) :
    Option (Result B) :=
  let pendingRows := abandoned.filterMap d.rows
  let readyRows := ready.filterMap d.rows
  if (∀ row ∈ pendingRows, row.Abandoned now) ∧
      (∀ row ∈ readyRows, row.Leftover) ∧
      pendingRows.length + readyRows.length ≤ sweepBatchLimit then
    let selected := pendingRows ++ readyRows
    some (goOn d (sweepNext selected selected))
  else none

/-- `putCatalogRenditionObjects`, after the original. -/
def finalizePuts (row : FileRow) (bytes : B) (encoded : Rendition → B) :
    List (ObjectKey × B) :=
  (row.catalogKey, bytes) ::
    CATALOG_RENDITIONS.map fun r => (row.renditionKey r, encoded r)

/-- Where a call goes when it has looked for all the renditions. -/
def afterHeads (row : FileRow) (held : Bool) (todo missing : List Rendition) :
    Stage B :=
  match todo, missing with
  | [], [] => .answering row held
  | [], missing => .refetching row held missing
  | todo, missing => .filling row held todo missing

/-- The key `verifiedSigningObject` is called with. -/
def FileRow.verifiedKey (row : FileRow) (durable : Bool) : ObjectKey :=
  if durable then row.signingKey else row.stagingKey

variable (C : Content B)

/-- A request to the store. -/
def request (d : Data B) : Stage B → Option (Result B)
  | .validating row =>
      match d.objects row.stagingKey with
      | none => some (refuse d .uploadedObjectInvalid)
      | some head =>
          if C.byteSize head ≠ row.byteSize ∨
              maxUploadBytes < C.byteSize head then
            some (refuse d .uploadedObjectInvalid)
          else some (goOn d (.reading row))
  | .reading row =>
      match d.objects row.stagingKey with
      | none => some (refuse d .uploadedObjectInvalid)
      | some bytes =>
          if C.byteSize bytes = row.byteSize ∧
              C.uploadBytesMatchDeclaredMime bytes row.mimeType ∧
              some (C.sha256Hex bytes) = row.checksumSha256 then
            some (goOn d (.staged row bytes))
          else some (refuse d .uploadedObjectInvalid)
  | .locked row bytes =>
      match d.objects row.stagingKey with
      | none => some (refuse d .uploadedObjectInvalid)
      | some head =>
          if C.byteSize head = C.byteSize bytes ∧
              C.etag head = C.etag bytes then
            some (goOn d (.encoding row bytes))
          else some (refuse d .uploadedObjectInvalid)
  | .putting row bytes ((key, object) :: todo) =>
      some ⟨d.putObject key object, .putting row bytes todo, [.wrote key]⟩
  | .filling row held (r :: todo) missing =>
      match d.objects (row.renditionKey r) with
      | none => some (goOn d (afterHeads row held todo (missing ++ [r])))
      | some _ => some (goOn d (afterHeads row held todo missing))
  | .refetching row held missing =>
      match d.objects row.catalogKey with
      | none =>
          some (refuse d (.coreInvariant
            "files.finalizeUpload missing catalog object on a ready row"))
      | some bytes => some (goOn d (.reencoding row held missing bytes))
  | .refilling row held ((key, object) :: todo) =>
      some ⟨d.putObject key object,
        if todo = [] then .answering row held else .refilling row held todo,
        [.wrote key]⟩
  | .verifying row input durable =>
      match d.objects (row.verifiedKey durable) with
      | none =>
          if durable then some (refuse d .notFound)
          else some (goOn d (.verifying row input true))
      | some head =>
          if C.byteSize head ≠ input.byteSize ∨
              maxDocumentBytes < C.byteSize head then
            some (refuse d .uploadedObjectInvalid)
          else some (goOn d (.fetching row input durable))
  | .fetching row input durable =>
      match d.objects (row.verifiedKey durable) with
      | none => some (refuse d .uploadedObjectInvalid)
      | some bytes =>
          if C.byteSize bytes = input.byteSize ∧
              C.bytesAreAsicContainer bytes ∧
              C.sha256Hex bytes = input.checksumSha256 then
            if durable then
              some (goOn d (.recording row input (d.swept row.signingKey)))
            else some (goOn d (.copying row input bytes))
          else some (refuse d .uploadedObjectInvalid)
  | .copying row input bytes =>
      match d.objects row.stagingKey with
      | none =>
          some (refuse d (.coreInvariant
            "files object store CopyObject failed (NoSuchKey)"))
      | some source =>
          if C.etag source = C.etag bytes then
            some ⟨d.putObject row.signingKey source,
              .recording row input (d.swept row.signingKey),
              [.wrote row.signingKey]⟩
          else some (refuse d .uploadedObjectInvalid)
  | .recorded row =>
      some ⟨d.deleteObject row.stagingKey, .purged row,
        [.deleted row.stagingKey false]⟩
  | .sweeping selected row (key :: keys) rest =>
      some ⟨d.sweepObject key, .sweeping selected row keys rest,
        [.deleted key true]⟩
  | _ => none

/-- The answer of `encodeCatalogRenditions`. -/
def encode (d : Data B) (encoded : Option (Rendition → B)) :
    Stage B → Option (Result B)
  | .encoding row bytes =>
      match encoded with
      | none => some (refuse d .uploadedObjectInvalid)
      | some encoded =>
          some (goOn d (.putting row bytes (finalizePuts row bytes encoded)))
  | .reencoding row held missing _ =>
      match encoded with
      | none => some (refuse d .uploadedObjectInvalid)
      | some encoded =>
          some (goOn d (.refilling row held
            (missing.map fun r => (row.renditionKey r, encoded r))))
  | _ => none

/-- What the commit of a sweep leaves of a row it has locked. -/
def sweptRow (now : ℕ) (row : FileRow) : Option FileRow :=
  match row.status with
  | .pending => none
  | .ready => some { row with stagingPurgedAt := some now }

/-- A query of an open transaction. The update that makes a row ready is
committed with it; the one of `recordSigningObject` locks the row first, and
its transaction goes on. -/
def query (d : Data B) (now : ℕ) : Stage B → Option (Result B)
  | .staged row bytes =>
      match d.catalogRow row.companyId row.id with
      | none => some (refuse d .notFound)
      | some found =>
          match found.status with
          | .ready => some (goOn d (.filling found true CATALOG_RENDITIONS []))
          | .pending =>
              match requirePendingUploadMeta found with
              | .error e => some (refuse d e)
              | .ok () =>
                  if found.checksumSha256 = row.checksumSha256 ∧
                      found.byteSize = row.byteSize ∧
                      found.mimeType = row.mimeType then
                    some (goOn d (.locked found bytes))
                  else some (refuse d .uploadedObjectInvalid)
  | .putting row bytes [] =>
      match d.catalogRow row.companyId row.id with
      | none => some (refuse d .notFound)
      | some found =>
          match found.status with
          | .pending =>
              let saved :=
                { found with
                  status := .ready
                  byteSize := C.byteSize bytes
                  checksumSha256 := row.checksumSha256 }
              some ⟨d.setRow row.id (some saved), .ended, [.readied saved]⟩
          | .ready => some ⟨d, .ended, [.answered found]⟩
  | .answering row _ => some ⟨d, .ended, [.answered row]⟩
  | .recording row input _ =>
      match d.rows row.id with
      | none => some (refuse d (.conflict NOT_RECORDABLE_MESSAGE))
      | some found =>
          if found.companyId = row.companyId ∧ found.status = .pending ∧
              found.purpose = .signing then
            some (goOn d (.recorded
              { found with
                status := .ready
                byteSize := input.byteSize
                checksumSha256 := some input.checksumSha256
                uploadedByUserId := input.userId
                stagingPurgedAt := some now }))
          else if matchingSigningRow found input then
            some ⟨d, .ended, [.answered found]⟩
          else some (refuse d (.conflict NOT_RECORDABLE_MESSAGE))
  | .purged row => some ⟨d.setRow row.id (some row), .ended, [.readied row]⟩
  | .sweeping selected _ [] rest => some (goOn d (sweepNext selected rest))
  | .swept selected =>
      some (goOn
        { d with
          rows := fun id =>
            if id ∈ selected.map (·.id) then (d.rows id).bind (sweptRow now)
            else d.rows id }
        .ended)
  | _ => none

/-- The call is in its transaction, or goes on without one. -/
def Outcome.at (inTx : Bool) (o : Result B) :
    Run.Outcome (Data B) (Place B) Event :=
  ⟨o.data, ⟨o.place, inTx⟩, o.out⟩

/-- One statement of one caller. A rollback ends the call, as a crash does,
which the database answers with a rollback. -/
def statement (d : Data B) (place : Place B) (a : Statement B) :
    Option (Run.Outcome (Data B) (Place B) Event) :=
  match a, place.stage with
  | .tick time, .idle =>
      if d.time ≤ time then some ⟨{ d with time }, place, []⟩ else none
  | .requestUpload upload fileId now, .idle =>
      (requestUpload d upload fileId now).map (Outcome.at place.inTx)
  | .getUploadUrl purpose companyId fileId now, .idle =>
      some (Outcome.at place.inTx (getUploadUrl d purpose companyId fileId now))
  | .put url bytes now, .idle =>
      (put d url bytes now).map (Outcome.at place.inTx)
  | .finalize companyId fileId, .idle =>
      some (Outcome.at place.inTx (finalize d companyId fileId))
  | .record input, .idle => some (Outcome.at place.inTx (record d input))
  | .sweep abandoned ready now, .idle =>
      (sweep d abandoned ready now).map (Outcome.at place.inTx)
  | .request, stage => (request C d stage).map (Outcome.at place.inTx)
  | .encode encoded, stage =>
      (encode d encoded stage).map (Outcome.at place.inTx)
  | .query now, stage =>
      if place.inTx then (query C d now stage).map (Outcome.at true)
      else some ⟨d, ⟨.ended, false⟩, []⟩
  | .rollback, .idle | .timeout, .idle => none
  | .rollback, _ => some ⟨d, ⟨.ended, false⟩, []⟩
  | .timeout, stage => some ⟨d, ⟨stage, false⟩, []⟩
  | _, _ => none

/-- The rows and the store, and any number of callers. -/
def server : Server (Data B) String (Place B) (Statement B) Event where
  init := .initial
  start := ⟨.idle, true⟩
  held := Place.held
  statement := statement C

/-- The system: each step runs one statement of one call. -/
abbrev machine : Machine (Server.State (Data B) String (Place B))
    (ℕ × Statement B) Event :=
  (server C).machine

end Shozee.Files
