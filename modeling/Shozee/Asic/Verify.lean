import Shozee.Asic.Container

/-!
# Verification of a container

What the engine is asked about a container, and what is made of its answers
(`document-signing/src/verify-asic.ts`): whether the signature is one of the
manifest, and whether the payload has the digest that the manifest states for
it. The engine keeps a state of its own. What it answers are values of JSON,
which are read as their schemas say (`pki/uapki-json.ts`).
-/

namespace Shozee.Asic

open Shozee.Run

/-! ## The engine

The requests that are made of it, and how its answers are read. -/

/-- What the engine answers with, read as JSON. -/
inductive Value
  | text (text : String)
  | list (items : List Value)
  | record (fields : List (String × Value))
  | other
deriving Repr

/-- A field of a record; of anything else there is none. -/
def Value.get (value : Value) (key : String) : Option Value :=
  match value with
  | .record fields => (fields.find? fun field => field.1 = key).map Prod.snd
  | _ => none

/-- The questions that the verification asks the engine. -/
inductive Request
  | verify (signature content : String)
  | digest (hashAlgo bytes : String)
  | certInfoOf (certId : String)
  | getCert (certId : String)
  | certInfo (bytes : String)
deriving DecidableEq, Repr

/-- An answer of the engine: a result, or an error with its code. -/
structure UapkiResponse where
  errorCode : ℤ
  error : Option String
  result : Option Value

/-- What the verification reads of the first signature. -/
structure SignatureInfo where
  statusSignature : Option String
  statusMessageDigest : Option String
  signerCertId : Option String
  signAlgo : Option String
  signingTime : Option Value
  bestSignatureTime : Option Value

/-- A field that is a text if it is there. -/
def optionalText (value : Value) (key : String) : Option (Option String) :=
  match value.get key with
  | none => some none
  | some (.text text) => some (some text)
  | some _ => none

/-- `signatureInfoSchema` -/
def signatureInfoOf (value : Value) : Option SignatureInfo :=
  match value with
  | .record _ => do
      let statusSignature ← optionalText value "statusSignature"
      let statusMessageDigest ← optionalText value "statusMessageDigest"
      let signerCertId ← optionalText value "signerCertId"
      let signAlgo ← optionalText value "signAlgo"
      return ⟨statusSignature, statusMessageDigest, signerCertId, signAlgo,
        value.get "signingTime", value.get "bestSignatureTime"⟩
  | _ => none

/-- An answer without the documented shape. -/
def malformed (method : String) : Thrown :=
  .uapkiProtocol
    (method ++ ": UAPKI result does not match the documented shape")

/-- `verifyResultSchema`, and of what it reads the first. -/
def firstSignatureInfo (result : Option Value) :
    Except Thrown (Option SignatureInfo) :=
  match result.bind (·.get "signatureInfos") with
  | none => .ok none
  | some (.list items) =>
      match items.mapM signatureInfoOf with
      | some infos => .ok infos.head?
      | none => .error (malformed "VERIFY")
  | some _ => .error (malformed "VERIFY")

/-- `digestResultSchema` -/
def digestBytes (result : Option Value) : Except Thrown (Option String) :=
  match optionalText (result.getD (.record [])) "bytes" with
  | some bytes => .ok bytes
  | none => .error (malformed "DIGEST")

/-- What the runtime does to bytes and texts. -/
structure Platform where
  zlib : Zlib
  uint8ToBase64 : Bytes → String
  base64ToUint8 : String → Option Bytes
  sha256Hex : Bytes → String
  /-- The time that a text says, in the form of `toISOString`. -/
  parsedTime : String → Option String

/-- The two statuses that a signature needs. -/
def isValid (first : SignatureInfo) : Prop :=
  first.statusSignature = some "VALID" ∧
    first.statusMessageDigest = some "VALID"

/-- The engine. A signature that it calls valid is one of the content, and
the digest that it answers is the digest of the bytes. -/
structure Engine (p : Platform) (σ : Type) where
  process : σ → Request → σ × UapkiResponse
  Signs : Bytes → Bytes → Prop
  digestOf : String → Bytes → Bytes
  verify_signs : ∀ s signature content first,
    (process s (.verify (p.uint8ToBase64 signature)
      (p.uint8ToBase64 content))).2.errorCode = 0 →
    firstSignatureInfo (process s (.verify (p.uint8ToBase64 signature)
      (p.uint8ToBase64 content))).2.result = .ok (some first) →
    isValid first → Signs signature content
  digest_digests : ∀ s hashAlgo bytes text,
    (process s (.digest hashAlgo (p.uint8ToBase64 bytes))).2.errorCode = 0 →
    digestBytes (process s (.digest hashAlgo (p.uint8ToBase64 bytes))).2.result
      = .ok (some text) →
    p.base64ToUint8 text = some (digestOf hashAlgo bytes)

/-! ## The manifest

The patterns of `verify-asic.ts`, and what is taken from the block that names
the payload. -/

/-- `/<asic:DataObjectReference\b([^>]*)>([\s\S]*?)<\/asic:DataObjectReference>/` -/
def dataObjectReference : Pattern (List Char × List Char) := do
  Pattern.literal "<asic:DataObjectReference"
  Pattern.boundary
  let attrs ← Pattern.many (· ≠ '>')
  Pattern.literal ">"
  let body ← Pattern.manyLazy fun _ => true
  Pattern.literal "</asic:DataObjectReference>"
  return (attrs, body)

/-- `/\bURI="([^"]+)"/` -/
def uriAttribute : Pattern (List Char) := do
  Pattern.boundary
  Pattern.literal "URI=\""
  let uri ← Pattern.some (· ≠ '"')
  Pattern.literal "\""
  return uri

/-- `/<(?:ds:)?DigestMethod\b[^>]*\bAlgorithm="([^"]+)"/` -/
def digestMethod : Pattern (List Char) := do
  Pattern.literal "<"
  Pattern.optional (Pattern.literal "ds:")
  Pattern.literal "DigestMethod"
  Pattern.boundary
  let _ ← Pattern.many (· ≠ '>')
  Pattern.boundary
  Pattern.literal "Algorithm=\""
  let method ← Pattern.some (· ≠ '"')
  Pattern.literal "\""
  return method

/-- `/<(?:ds:)?DigestValue>([\s\S]*?)<\/(?:ds:)?DigestValue>/` -/
def digestValue : Pattern (List Char) := do
  Pattern.literal "<"
  Pattern.optional (Pattern.literal "ds:")
  Pattern.literal "DigestValue>"
  let value ← Pattern.manyLazy fun _ => true
  Pattern.literal "</"
  Pattern.optional (Pattern.literal "ds:")
  Pattern.literal "DigestValue>"
  return value

/-- `.replace(/\s+/g, "")` -/
def withoutSpace (text : List Char) : List Char :=
  text.filter fun c => !Pattern.isSpace c

/-- The digest that the manifest states of a file, and the method. -/
structure ManifestDigest where
  methodUri : String
  digestB64 : String
deriving DecidableEq, Repr

/-- Whether the attributes name the payload. -/
def namesPayload (payloadName : String) (block : List Char × List Char) :
    Bool :=
  (uriAttribute.exec block.1).map withoutSlash =
    some (withoutSlash payloadName.toList)

/-- The digest stated by the first reference that names the payload. -/
def payloadManifestDigest (xml payloadName : String) :
    Except Thrown ManifestDigest :=
  let blocks := dataObjectReference.matchAll xml.toList
  match blocks.find? (namesPayload payloadName) with
  | none => .error (.verifyFailed
      "ASiCManifest has no DataObjectReference for the payload" none)
  | some block =>
      match digestMethod.exec block.2, digestValue.exec block.2 with
      | some method, some value =>
          if withoutSpace value = [] then
            .error (.verifyFailed ("ASiCManifest is missing DigestMethod or " ++
              "DigestValue for the payload") none)
          else
            .ok ⟨String.ofList method, String.ofList (withoutSpace value)⟩
      | _, _ => .error (.verifyFailed ("ASiCManifest is missing DigestMethod " ++
          "or DigestValue for the payload") none)

/-- The older hash, by its object identifier. -/
def OID_GOST34311 : String := "1.2.804.2.1.1.1.1.2.1"

/-- The newer hash, by its object identifier. -/
def OID_DSTU7564_256 : String := "1.2.804.2.1.1.1.1.2.2.1"

/-- The older hash, by the address that manifests use. -/
def XML_DIGEST_URI_GOST34311 : String :=
  "http://www.w3.org/2001/04/xmlenc#gost34311"

/-- The newer hash, by the address that manifests use. -/
def XML_DIGEST_URI_KUPYNA256 : String :=
  "http://www.w3.org/2001/04/xmlenc#dstu7564-256"

/-- `text.trim()` -/
def trim (text : List Char) : List Char :=
  ((text.dropWhile Pattern.isSpace).reverse.dropWhile Pattern.isSpace).reverse

/-- The hash that a manifest's method means; any other is refused. -/
def hashOidFromDigestUri (uri : String) : Except Thrown String :=
  let trimmed := String.ofList (trim uri.toList)
  if trimmed = XML_DIGEST_URI_GOST34311 ∨
      trimmed = "urn:oid:" ++ OID_GOST34311 then .ok OID_GOST34311
  else if trimmed = XML_DIGEST_URI_KUPYNA256 ∨
      trimmed = "urn:oid:" ++ OID_DSTU7564_256 then .ok OID_DSTU7564_256
  else .error (.verifyFailed
    ("Unsupported ASiC DigestMethod Algorithm URI: " ++ uri) none)

/-- Two digests are equal if both can be read and have the same bytes. -/
def digestB64Equal (p : Platform) (declared actual : String) : Bool :=
  match p.base64ToUint8 declared, p.base64ToUint8 actual with
  | some left, some right => left = right
  | _, _ => false

/-! ## The certificate

The fields that are read off a certificate. -/

/-- A text field that is not empty. -/
def stringField (record : Value) (key : String) : Option String :=
  match record.get key with
  | some (.text text) => if text = "" then none else some text
  | _ => none

/-- The value, if it is a record. -/
def asRecord (value : Option Value) : Value :=
  match value with
  | some (.record fields) => .record fields
  | _ => .record []

/-- The fields in which a certificate may have a tax number, in the order they
are tried. -/
def taxIdKeys : List String :=
  ["SERIALNUMBER", "serialNumber", "OI", "10.20.0.1", "10.0.1.4.1",
    "192.168.0.2.1.1"]

/-- The tax number of a subject, empty if no field has one. -/
def taxIdFromSubject (subject : Value) : String :=
  (taxIdKeys.findSome? (stringField subject)).getD ""

/-- What is told of the signer's certificate. -/
structure CertFields where
  signerCn : String
  signerOrg : String
  signerTaxId : String
  signatureAlg : String
deriving DecidableEq, Repr

/-- Those fields, each with its fallback. -/
def parseCertFields (certResult : Value) : CertFields :=
  let subject := asRecord (certResult.get "subject")
  let spki := asRecord (certResult.get "subjectPublicKeyInfo")
  { signerCn := (stringField subject "CN").getD ""
    signerOrg := (stringField subject "O").getD ""
    signerTaxId := taxIdFromSubject subject
    signatureAlg := match stringField spki "algorithm" with
      | some algorithm => algorithm
      | none =>
          match certResult.get "keyAlgo" with
          | some (.text keyAlgo) => keyAlgo
          | _ => "" }

/-- A time of the engine, if it can be read. -/
def isoFromUapkiTime (p : Platform) (value : Option Value) : Option String :=
  match value with
  | some (.text text) => if text = "" then none else p.parsedTime text
  | _ => none

/-- What a verification answers with. -/
structure AsicVerifyResult where
  payloadSha256 : String
  signerCn : String
  signerOrg : String
  signerTaxId : String
  signatureAlg : String
  signedAt : String
deriving DecidableEq, Repr

/-- The answer once all checks have passed. -/
def resultOf (p : Platform) (isoNow : String) (unpacked : UnpackedAsic)
    (first : SignatureInfo) (certResult : Value) : AsicVerifyResult :=
  let fields := parseCertFields certResult
  { payloadSha256 := p.sha256Hex unpacked.payload.bytes
    signerCn := fields.signerCn
    signerOrg := fields.signerOrg
    signerTaxId := fields.signerTaxId
    signatureAlg := first.signAlgo.getD fields.signatureAlg
    signedAt := ((isoFromUapkiTime p first.signingTime).or
      (isoFromUapkiTime p first.bestSignatureTime)).getD isoNow }

/-! ## The verification

The requests one after the other. A request may fail, and some failures end the
verification and others do not. -/

/-- The first signature, if it is valid. -/
def requireValid (first : Option SignatureInfo) :
    Except Thrown SignatureInfo :=
  match first with
  | none => .error (.verifyFailed
      "ASiC signature is not VALID (statusSignature=missing)" none)
  | some first =>
      if first.statusSignature ≠ some "VALID" then
        .error (.verifyFailed ("ASiC signature is not VALID (statusSignature=" ++
          first.statusSignature.getD "missing" ++ ")") none)
      else if first.statusMessageDigest ≠ some "VALID" then
        .error (.verifyFailed
          ("ASiC manifest digest is not VALID (statusMessageDigest=" ++
            first.statusMessageDigest.getD "missing" ++ ")") none)
      else .ok first

/-- The digest of the payload against the one that the manifest states. -/
def requireEqualDigest (p : Platform) (declared : ManifestDigest)
    (actualB64 : Option String) : Except Thrown Unit :=
  match actualB64 with
  | none => .error (.verifyFailed "DIGEST returned no bytes" none)
  | some actualB64 =>
      if digestB64Equal p declared.digestB64 actualB64 then .ok ()
      else .error (.verifyFailed
        "ASiC payload digest does not match ASiCManifest DigestValue" none)

/-- What is done with the engine, which goes on from the state it is left
in. -/
def Asking (σ α : Type) : Type := σ → Except Thrown α × σ

instance (σ : Type) : Monad (Asking σ) where
  pure a := fun s => (.ok a, s)
  bind x f := fun s =>
    match x s with
    | (.ok a, s') => f a s'
    | (.error e, s') => (.error e, s')

/-- What is done without it. -/
def without {σ α : Type} (x : Except Thrown α) : Asking σ α := fun s => (x, s)

section Verification

variable {p : Platform} {σ : Type} (engine : Engine p σ)

/-- One question to the engine, whose state goes on. -/
def call (request : Request) : Asking σ UapkiResponse := fun s =>
  (.ok (engine.process s request).2, (engine.process s request).1)

/-- What an answer says, if it is not an error. -/
def resultIn (name : String) (response : UapkiResponse) :
    Except Thrown (Option Value) :=
  if response.errorCode ≠ 0 then
    .error (.verifyFailed (response.error.getD
      (name ++ " failed: " ++ toString response.errorCode))
      (some response.errorCode))
  else .ok response.result

/-- The check that the manifest states the payload's digest. -/
def requireManifestPayloadDigest (unpacked : UnpackedAsic) :
    Asking σ Unit := do
  let xml := decodeText unpacked.manifest.bytes
  let declared ← without (payloadManifestDigest xml unpacked.payload.name)
  let hashAlgo ← without (hashOidFromDigestUri declared.methodUri)
  let digest ← call engine
    (.digest hashAlgo (p.uint8ToBase64 unpacked.payload.bytes))
  let result ← without (resultIn "DIGEST" digest)
  let actualB64 ← without (digestBytes result)
  without (requireEqualDigest p declared actualB64)

/-- What the engine knows of the signer's certificate. -/
def certResultOf (signerCertId : Option String) : Asking σ Value :=
  match signerCertId with
  | none => pure (.record [])
  | some certId => do
      let info ← call engine (.certInfoOf certId)
      if info.errorCode = 0 then return info.result.getD (.record [])
      let got ← call engine (.getCert certId)
      match got.errorCode, stringField (asRecord got.result) "bytes" with
      | 0, some der =>
          let parsed ← call engine (.certInfo der)
          return if parsed.errorCode = 0 then parsed.result.getD (.record [])
            else .record []
      | _, _ => return .record []

/-- The verification: unpack, check the signature of the manifest, then the
manifest's digest of the payload, then read the certificate. -/
def verifyAsicE (isoNow : String) (bytes : Bytes) :
    Asking σ AsicVerifyResult := do
  let unpacked ← without (unpackAsicE p.zlib bytes)
  let verify ← call engine
    (.verify (p.uint8ToBase64 unpacked.signature.bytes)
      (p.uint8ToBase64 unpacked.manifest.bytes))
  let result ← without (resultIn "VERIFY" verify)
  let info ← without (firstSignatureInfo result)
  let first ← without (requireValid info)
  requireManifestPayloadDigest engine unpacked
  let certResult ← certResultOf engine first.signerCertId
  return resultOf p isoNow unpacked first certResult

end Verification

end Shozee.Asic
