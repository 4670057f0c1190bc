import Shozee.Run.Bytes

/-!
# Reading DER

The reader of tags, lengths and contents, what is built and taken apart with
it, and the search for the certificates of signed data
(`document-signing/src/pki/asn1.ts`). A length is read with shifts of 32-bit
signed numbers. The loops of the search run on fuel.
-/

namespace Shozee.Pki

open Shozee.Run

/-- The content of an element, and the bytes after it. -/
structure TlvResult where
  content : Bytes
  rest : Bytes
deriving DecidableEq, Repr

/-- `len` after the bytes of a long length: `len = (len << 8) | byte`. -/
def longLength (bytes : Bytes) : BitVec 32 :=
  bytes.foldl (fun len byte => (len <<< 8) ||| byte.toBitVec.setWidth 32) 0

/-- `headerSize` and `len`. -/
def headerOf (input : Bytes) : Option (ℕ × ℤ) :=
  match input with
  | _ :: first :: rest =>
      if first < 0x80 then some (2, first.toNat)
      else
        let numBytes := (first &&& 0x7f).toNat
        if numBytes = 0 ∨ 4 < numBytes ∨ input.length < 2 + numBytes then none
        else some (2 + numBytes, (longLength (rest.take numBytes)).toInt)
  | _ => none

/-- The first element of bytes, if its length fits. -/
def parseTlv (input : Bytes) : Option TlvResult :=
  match headerOf input with
  | none => none
  | some (headerSize, len) =>
      if (input.length : ℤ) < headerSize + len then none
      else some ⟨subarray input headerSize (headerSize + len),
        subarrayFrom input (headerSize + len)⟩

/-! ## Building

What is wrapped around bytes, and taken off again. -/

/-- A length in its shortest form, up to three bytes. -/
def encodeAsn1Length (len : ℕ) : Bytes :=
  if len < 0x80 then [len.toUInt8]
  else if len < 0x100 then [0x81, len.toUInt8]
  else if len < 0x10000 then [0x82, (len >>> 8).toUInt8, len.toUInt8]
  else [0x83, (len >>> 16).toUInt8, (len >>> 8).toUInt8, len.toUInt8]

/-- An element with a tag. -/
def asn1Wrap (tag : UInt8) (content : Bytes) : Bytes :=
  tag :: encodeAsn1Length content.length ++ content

/-- The identifier of plain data. -/
def dataOid : Bytes :=
  [0x06, 0x09, 0x2a, 0x86, 0x48, 0x86, 0xf7, 0x0d, 0x01, 0x07, 0x01]

/-- Bytes as plain data in an envelope. -/
def wrapInContentInfo (payload : Bytes) : Bytes :=
  asn1Wrap 0x30 (dataOid ++ asn1Wrap 0xa0 (asn1Wrap 0x04 payload))

/-- The bytes inside an envelope. No tag is looked at. -/
def unwrapContentInfo (data : Bytes) : Option Bytes := do
  let seq ← parseTlv data
  let afterOid ← parseTlv seq.content
  let ctx0 ← parseTlv afterOid.rest
  let octet ← parseTlv ctx0.content
  return octet.content

/-! ## Certificates

The two loops, a round at a time. -/

/-- A round of the loop over the certificates: where the next one is read, or
nothing where the loop is left. -/
def certNext (certPos : Bytes) : Option Bytes :=
  match certPos with
  | [] => none
  | tag :: _ =>
      if tag ≠ 0x30 then none else (parseTlv certPos).map TlvResult.rest

/-- What a round of the loop takes: all that is before what is read next, if it
is long enough to be a certificate. -/
def certOf (certPos next : Bytes) : Option Bytes :=
  let certLen := certPos.length - next.length
  if 100 < certLen then some (certPos.take certLen) else none

/-- The certificates of a set, one step a certificate. -/
def certLoop : ℕ → Bytes → List Bytes → Option (List Bytes)
  | 0, _, _ => none
  | fuel + 1, certPos, certs =>
      match certNext certPos with
      | none => some certs
      | some next => certLoop fuel next (certs ++ (certOf certPos next).toList)

/-- A round of the loop over the fields that skips one. -/
def fieldNext (remaining : Bytes) : Option Bytes :=
  match remaining with
  | [] => none
  | tag :: _ =>
      if tag = 0xa0 then none else (parseTlv remaining).map TlvResult.rest

/-- The fields of signed data up to the set of certificates. -/
def fieldLoop : ℕ → Bytes → Option (List Bytes)
  | 0, _ => none
  | fuel + 1, remaining =>
      match fieldNext remaining with
      | some next => fieldLoop fuel next
      | none =>
          match remaining with
          | [] => some []
          | tag :: _ =>
              if tag = 0xa0 then
                match parseTlv remaining with
                | none => some []
                | some certsContainer => certLoop fuel certsContainer.content []
              else some []

/-- The fields after the first three of the signed data. -/
def signedDataFields (data : Bytes) : Option Bytes := do
  let ciContent ← parseTlv data
  let afterOid ← parseTlv ciContent.content
  if afterOid.rest.head? ≠ some 0xa0 then none
  let sdWrapper ← parseTlv afterOid.rest
  let sdInner := match parseTlv sdWrapper.content with
    | some sdSeq => sdSeq.content
    | none => sdWrapper.content
  let version ← parseTlv sdInner
  let digestAlgorithms ← parseTlv version.rest
  let contentInfo ← parseTlv digestAlgorithms.rest
  return contentInfo.rest

/-- The certificates of a signature. -/
def extractCertsFromPkcs7 (fuel : ℕ) (data : Bytes) : Option (List Bytes) :=
  match signedDataFields data with
  | none => some []
  | some remaining => fieldLoop fuel remaining

end Shozee.Pki
