import Shozee.Run.Utf8
import Shozee.Run.Patterns

/-!
# The container

A container of a signed document: an archive with a file that says what it is,
a manifest, a signature and the document
(`document-signing/src/asic-container.ts`). It is written without compression;
it is read from its end: the end record says where the central records are, and
each of these where its file is. What the runtime does to compressed bytes and
its checksum are taken as they are (`Zlib`).
-/

namespace Shozee.Asic

open Shozee.Run

/-- The errors that reading and verifying throw. -/
inductive Thrown
  | asicContainer (message : String)
  | verifyFailed (message : String) (uapkiErrorCode : Option ℤ)
  | uapkiProtocol (message : String)
  /-- What a `DataView` throws for a place outside. -/
  | rangeError
deriving DecidableEq, Repr

/-- What `inflateRawSync` throws. -/
structure InflateError where
  isRangeError : Bool
  message : String
deriving DecidableEq, Repr

/-- The functions of `node:zlib`. -/
structure Zlib where
  crc32 : Bytes → UInt32
  inflateRawSync : Bytes → ℕ → Except InflateError Bytes

/-- What the first file of a container has to say. -/
def ASIC_E_MIMETYPE : String := "application/vnd.etsi.asic-e+zip"

/-- The size that an entry may have once it is read. -/
def MAX_ASIC_ENTRY_UNCOMPRESSED_BYTES : ℕ := 25 * 1024 * 1024

/-- The size of all entries together. -/
def MAX_ASIC_TOTAL_UNCOMPRESSED_BYTES : ℕ :=
  MAX_ASIC_ENTRY_UNCOMPRESSED_BYTES * 4

/-- The number of entries that a directory may have. -/
def MAX_ASIC_ENTRIES : ℕ := 16

/-- The four bytes that start a local header. -/
def LOCAL_SIG : ℕ := 0x04034b50

/-- The four bytes that start a record of the directory. -/
def CENTRAL_SIG : ℕ := 0x02014b50

/-- The four bytes that start the end record. -/
def EOCD_SIG : ℕ := 0x06054b50

/-- The method of bytes that are not compressed. -/
def STORED : ℕ := 0

/-- The other method that is read. -/
def DEFLATE : ℕ := 8

/-- The version that is written as needed to read an entry. -/
def ZIP_VERSION : ℕ := 20

/-- A file of the container. -/
structure AsicEntry where
  name : String
  bytes : Bytes
deriving DecidableEq, Repr

/-- A container taken apart: all its files, and the three that a signature
needs. -/
structure UnpackedAsic where
  entries : List AsicEntry
  payload : AsicEntry
  manifest : AsicEntry
  signature : AsicEntry
deriving DecidableEq, Repr

/-- A check that throws. -/
def reject (bad : Prop) [Decidable bad] (message : String) :
    Except Thrown Unit :=
  if bad then .error (.asicContainer message) else .ok ()

/-- Two bytes, the low one first. -/
def u16 (value : ℕ) : Bytes := littleEndian 2 value

/-- Four bytes, the low one first. -/
def u32 (value : ℕ) : Bytes := littleEndian 4 value

/-- A number read by a `DataView`, which throws outside its bytes. -/
def getUint (width : ℕ) (bytes : Bytes) (offset : ℕ) : Except Thrown ℕ :=
  match numberAt width bytes offset with
  | some n => .ok n
  | none => .error .rangeError

/-- The checked read of two bytes. -/
def readU16 (bytes : Bytes) (offset : ℕ) : Except Thrown ℕ := do
  reject (bytes.length < offset + 2) "ASiC ZIP truncated at u16"
  getUint 2 bytes offset

/-- The checked read of four bytes. -/
def readU32 (bytes : Bytes) (offset : ℕ) : Except Thrown ℕ := do
  reject (bytes.length < offset + 4) "ASiC ZIP truncated at u32"
  getUint 4 bytes offset

/-- The bytes of a name. -/
def encodeName (name : String) : Bytes := encodeText name

/-- The name of bytes. Bytes that are no UTF-8 are replaced, so two names may
become one. -/
def decodeName (bytes : Bytes) : String := decodeText bytes

/-- The checksum of a file. -/
def crcOf (z : Zlib) (bytes : Bytes) : ℕ := (z.crc32 bytes).toNat

/-- Decompression with a limit. An error that says that the limit was reached
gets a message of its own. -/
def inflateRaw (z : Zlib) (compressed : Bytes) (maxOutputLength : ℕ) :
    Except Thrown Bytes :=
  match z.inflateRawSync compressed maxOutputLength with
  | .ok inflated => .ok inflated
  | .error error =>
      let tells := fun text : String =>
        (Pattern.literal text).test error.message.toList
      if error.isRangeError || tells "too large" || tells "too small" ||
          tells "maxOutputLength" then
        .error (.asicContainer "ASiC ZIP uncompressed size exceeds the budget")
      else .error (.asicContainer "ASiC ZIP deflate stream is corrupt")

/-! ## The file that says what it is

Its name and its content, and the check of the first local header on disk. -/

/-- The look at the first local header: the bytes have to start with the stored
file that says what they are. -/
def requireOnDiskMimetypeFirst (bytes : Bytes) : Except Thrown Unit := do
  reject (bytes.length < 30) "Bytes are not a ZIP/ASiC container"
  let sig ← readU32 bytes 0
  reject (sig ≠ LOCAL_SIG) "Bytes are not a ZIP/ASiC container"
  let flags ← readU16 bytes 6
  let method ← readU16 bytes 8
  let nameLen ← readU16 bytes 26
  let extraLen ← readU16 bytes 28
  reject (bytes.length < 30 + nameLen) "ASiC ZIP local header is truncated"
  let name := decodeName (subarray bytes 30 (30 + nameLen))
  reject (name ≠ "mimetype") "ASiC-E mimetype must be the first ZIP entry"
  reject (method ≠ STORED) "ASiC-E mimetype must be stored uncompressed"
  reject (extraLen ≠ 0) "ASiC-E mimetype extra field must be empty"
  reject (flags &&& 0x08 ≠ 0) "ASiC ZIP data descriptors are not supported"

/-- The same of the entries, the mimetype put in front. The place that it was
found in does not matter here. -/
def requireMimetypeFirst (entries : List AsicEntry) :
    Except Thrown (List AsicEntry) :=
  match entries.find? (fun entry => entry.name = "mimetype") with
  | none => .error (.asicContainer "ASiC-E requires a mimetype file")
  | some mimetype =>
      if decodeText mimetype.bytes ≠ ASIC_E_MIMETYPE then
        .error (.asicContainer
          "ASiC-E mimetype file is not application/vnd.etsi.asic-e+zip")
      else
        .ok (mimetype :: entries.eraseP (fun entry => entry.name = "mimetype"))

/-! ## Writing

Local headers with their files, the central records behind them, and the end
record. -/

/-- An entry as it is written: its header, its name and its bytes. -/
def localFile (z : Zlib) (entry : AsicEntry) : Bytes :=
  u32 LOCAL_SIG ++ u16 ZIP_VERSION ++ u16 0 ++ u16 STORED ++ u16 0 ++ u16 0 ++
    u32 (crcOf z entry.bytes) ++ u32 entry.bytes.length ++
    u32 entry.bytes.length ++ u16 (encodeName entry.name).length ++ u16 0 ++
    encodeName entry.name ++ entry.bytes

/-- The record of an entry in the directory. -/
def centralRecord (z : Zlib) (entry : AsicEntry) (offset : ℕ) : Bytes :=
  u32 CENTRAL_SIG ++ u16 ZIP_VERSION ++ u16 ZIP_VERSION ++ u16 0 ++
    u16 STORED ++ u16 0 ++ u16 0 ++ u32 (crcOf z entry.bytes) ++
    u32 entry.bytes.length ++ u32 entry.bytes.length ++
    u16 (encodeName entry.name).length ++ u16 0 ++ u16 0 ++ u16 0 ++ u16 0 ++
    u32 0 ++ u32 offset ++ encodeName entry.name

/-- What the loop has written. -/
structure Packed where
  locals : List Bytes
  centrals : List Bytes
  offset : ℕ

/-- One more entry, at the offset that has been reached. -/
def packEntry (z : Zlib) (packed : Packed) (entry : AsicEntry) : Packed where
  locals := packed.locals ++ [localFile z entry]
  centrals := packed.centrals ++ [centralRecord z entry packed.offset]
  offset := packed.offset + (localFile z entry).length

/-- The end record, without a comment. -/
def endRecord (count size offset : ℕ) : Bytes :=
  u32 EOCD_SIG ++ u16 0 ++ u16 0 ++ u16 count ++ u16 count ++ u32 size ++
    u32 offset ++ u16 0

/-- A container of entries: the files, the directory, the end record. -/
def packAsicE (z : Zlib) (entries : List AsicEntry) : Except Thrown Bytes := do
  let ordered ← requireMimetypeFirst entries
  let packed := ordered.foldl (packEntry z) ⟨[], [], 0⟩
  let centralDir := packed.centrals.flatten
  return packed.locals.flatten ++ centralDir ++
    endRecord ordered.length centralDir.length packed.offset

/-! ## Reading

From the end record to the central records, and from each of these to its file.
Every number is checked before anything is read by it. -/

/-- The loop of `findEocd`, down from a place. -/
def findEocdFrom (bytes : Bytes) (min : ℕ) (place : ℕ) : Except Thrown ℕ := do
  reject (place < min) "ASiC ZIP is missing the end-of-central-directory"
  let sig ← readU32 bytes place
  if sig = EOCD_SIG then return place
  match place with
  | 0 =>
      .error (.asicContainer "ASiC ZIP is missing the end-of-central-directory")
  | below + 1 => findEocdFrom bytes min below

/-- The place of the last end record, looked for in the bytes that a comment
can take. -/
def findEocd (bytes : Bytes) : Except Thrown ℕ := do
  reject (bytes.length < 22) "ASiC ZIP is missing the end-of-central-directory"
  findEocdFrom bytes (bytes.length - 22 - 65535) (bytes.length - 22)

/-- What is read of a record of the central directory. -/
structure CentralRecord where
  flags : ℕ
  method : ℕ
  compressed : ℕ
  uncompressed : ℕ
  nameLen : ℕ
  extraLen : ℕ
  commentLen : ℕ
  localOffset : ℕ
  name : String
deriving DecidableEq, Repr

/-- One record of the directory with its checks. -/
def readRecord (bytes : Bytes) (cursor : ℕ) : Except Thrown CentralRecord := do
  let sig ← readU32 bytes cursor
  reject (sig ≠ CENTRAL_SIG) "ASiC ZIP central directory is corrupt"
  let flags ← readU16 bytes (cursor + 8)
  let method ← readU16 bytes (cursor + 10)
  let compressed ← readU32 bytes (cursor + 20)
  let uncompressed ← readU32 bytes (cursor + 24)
  let nameLen ← readU16 bytes (cursor + 28)
  let extraLen ← readU16 bytes (cursor + 30)
  let commentLen ← readU16 bytes (cursor + 32)
  let localOffset ← readU32 bytes (cursor + 42)
  return {
    flags, method, compressed, uncompressed, nameLen, extraLen, commentLen,
    localOffset
    name := decodeName
      (subarray bytes (cursor + 46) (cursor + 46 + nameLen)) }

/-- The checks of a record, the last of which is of the sum with it. -/
def checkRecord (record : CentralRecord) (totalUncompressed : ℕ) :
    Except Thrown Unit := do
  reject (record.flags &&& 0x08 ≠ 0)
    "ASiC ZIP data descriptors are not supported"
  reject (record.method ≠ STORED ∧ record.method ≠ DEFLATE)
    ("ASiC ZIP compression method " ++ toString record.method ++
      " is not supported")
  reject (record.name = "mimetype" ∧ record.method ≠ STORED)
    "ASiC-E mimetype must be stored uncompressed"
  reject (record.method = STORED ∧ record.compressed ≠ record.uncompressed)
    "ASiC ZIP stored size mismatch"
  reject (MAX_ASIC_ENTRY_UNCOMPRESSED_BYTES < record.uncompressed)
    "ASiC ZIP entry exceeds the uncompressed size budget"
  reject (MAX_ASIC_TOTAL_UNCOMPRESSED_BYTES < totalUncompressed)
    "ASiC ZIP uncompressed size exceeds the budget"

/-- Where the data of the file begin that a record points to. -/
def dataStartOf (bytes : Bytes) (localOffset : ℕ) : Except Thrown ℕ := do
  let sig ← readU32 bytes localOffset
  reject (sig ≠ LOCAL_SIG) "ASiC ZIP local header is corrupt"
  let localNameLen ← readU16 bytes (localOffset + 26)
  let localExtraLen ← readU16 bytes (localOffset + 28)
  return localOffset + 30 + localNameLen + localExtraLen

/-- The file out of what is stored of it. -/
def contentOf (z : Zlib) (record : CentralRecord) (stored : Bytes) :
    Except Thrown Bytes :=
  let inflateBudget := if 0 < record.uncompressed then record.uncompressed else 1
  if record.method = DEFLATE then inflateRaw z stored inflateBudget
  else .ok stored

/-- The bytes of a record's file, as the record describes it; the local header
only says where they start. -/
def fileBytesOf (z : Zlib) (bytes : Bytes) (record : CentralRecord) :
    Except Thrown Bytes := do
  let dataStart ← dataStartOf bytes record.localOffset
  let dataEnd := dataStart + record.compressed
  reject (bytes.length < dataEnd) "ASiC ZIP file data is truncated"
  let stored := subarray bytes dataStart dataEnd
  let fileBytes ← contentOf z record stored
  reject (fileBytes.length ≠ record.uncompressed)
    "ASiC ZIP uncompressed size mismatch"
  return fileBytes

/-- The loop over the central records, of which so many are left. -/
def parseEntries (z : Zlib) (bytes : Bytes) :
    ℕ → ℕ → ℕ → Except Thrown (List AsicEntry)
  | 0, _, _ => .ok []
  | left + 1, cursor, totalUncompressed => do
      let record ← readRecord bytes cursor
      let total := totalUncompressed + record.uncompressed
      checkRecord record total
      let fileBytes ← fileBytesOf z bytes record
      let crc ← readU32 bytes (cursor + 16)
      reject (crcOf z fileBytes ≠ crc) "ASiC ZIP CRC mismatch"
      let rest ← parseEntries z bytes left
        (cursor + 46 + record.nameLen + record.extraLen + record.commentLen)
        total
      return ⟨record.name, fileBytes⟩ :: rest

/-- The entries of the directory that the end record names. -/
def parseCentralEntries (z : Zlib) (bytes : Bytes) :
    Except Thrown (List AsicEntry) := do
  let eocd ← findEocd bytes
  let entryCount ← readU16 bytes (eocd + 10)
  let cdSize ← readU32 bytes (eocd + 12)
  let cdOffset ← readU32 bytes (eocd + 16)
  reject (MAX_ASIC_ENTRIES < entryCount) "ASiC ZIP has too many entries"
  reject (bytes.length < cdOffset + cdSize)
    "ASiC ZIP central directory is truncated"
  parseEntries z bytes entryCount cdOffset 0

/-! ## The parts of a container

Which of the files are the manifest, the signature and the payload. -/

/-- `/^META-INF\/ASiCManifest\d+\.xml$/i` -/
def manifestName : Pattern Unit := do
  Pattern.start
  Pattern.literal "META-INF/ASiCManifest"
  let _ ← Pattern.some Pattern.isDigit
  Pattern.literal ".xml"
  Pattern.finish

/-- `/^META-INF\/signatures?\d+\.p7s$/i` -/
def signatureName : Pattern Unit := do
  Pattern.start
  Pattern.literal "META-INF/signature"
  Pattern.optional (Pattern.literal "s")
  let _ ← Pattern.some Pattern.isDigit
  Pattern.literal ".p7s"
  Pattern.finish

/-- Whether an entry is a manifest by its name. -/
def isManifestName (name : String) : Bool := manifestName.test name.toList

/-- Whether an entry is a signature by its name. -/
def isSignatureName (name : String) : Bool := signatureName.test name.toList

/-- `/<asic:DataObjectReference\b[^>]*\bURI="([^"]+)"/i` -/
def payloadUri : Pattern (List Char) := do
  Pattern.literal "<asic:DataObjectReference"
  Pattern.boundary
  let _ ← Pattern.many (· ≠ '>')
  Pattern.boundary
  Pattern.literal "URI=\""
  let uri ← Pattern.some (· ≠ '"')
  Pattern.literal "\""
  return uri

/-- `.replace(/^\//, "")` -/
def withoutSlash (name : List Char) : List Char :=
  match name with
  | '/' :: rest => rest
  | name => name

/-- The name that the manifest gives for the payload, without a leading slash.
-/
def payloadUriFromManifest (manifestXml : String) : Option String :=
  (payloadUri.exec manifestXml.toList).map fun uri =>
    String.ofList (withoutSlash uri)

/-- Whether an entry may be a payload: neither the mimetype nor in `META-INF/`.
-/
def isOutside (entry : AsicEntry) : Bool :=
  entry.name ≠ "mimetype" && !"META-INF/".toList.isPrefixOf entry.name.toList

/-- The entry that the manifest names, or the first one outside if it names
none. -/
def payloadOf (entries : List AsicEntry) (uri : Option String) :
    Option AsicEntry :=
  match uri with
  | some uri => entries.find? fun entry => entry.name = uri
  | none => entries.find? isOutside

/-- The first manifest, the first signature and the payload; without one of
them there is nothing to verify. -/
def partsOf (entries : List AsicEntry) : Except Thrown UnpackedAsic :=
  match entries.find? (fun entry => isManifestName entry.name),
      entries.find? (fun entry => isSignatureName entry.name) with
  | some manifest, some signature =>
      let xml := decodeText manifest.bytes
      match payloadOf entries (payloadUriFromManifest xml) with
      | none => .error (.asicContainer
          "ASiC-E is missing the signed payload file")
      | some payload => .ok ⟨entries, payload, manifest, signature⟩
  | _, _ => .error (.asicContainer
      ("ASiC-E requires META-INF/ASiCManifest*.xml and " ++
        "META-INF/signature*.p7s"))

/-- Bytes to a container. The mimetype is asked for in the bytes, among the
entries, and in front of them. -/
def unpackAsicE (z : Zlib) (bytes : Bytes) : Except Thrown UnpackedAsic := do
  requireOnDiskMimetypeFirst bytes
  let parsed ← parseCentralEntries z bytes
  let entries ← requireMimetypeFirst parsed
  reject (entries.head?.map AsicEntry.name ≠ some "mimetype")
    "ASiC-E mimetype must be the first ZIP entry"
  partsOf entries

end Shozee.Asic
