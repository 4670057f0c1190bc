import Shozee.Asic.RoundTrip

/-!
# The first file and the central directory

A container is read twice: its first local header has to be that of a file
that says what the container is, and the files are those of the central
directory. Nothing ties the two readings together: of the local header that a
record points to, only the signature and the lengths are read, so its name is
not the record's, and the file that is returned in front need not be the first
one (`disguised_accepted`). What is known of the files is what their records
say, and that their data stand behind the local headers that the records point
to (`unpacked_from_directory`).
-/

namespace Shozee.Asic

open Shozee.Run

variable {z : Zlib}

/-- The first local header: of a file of that name, stored as it is, with an
empty extra field and no data descriptor. -/
structure FirstLocal (bytes : Bytes) : Prop where
  signature : numberAt 4 bytes 0 = some LOCAL_SIG
  method : numberAt 2 bytes 8 = some STORED
  extra : numberAt 2 bytes 28 = some 0
  flags : ∃ flags, numberAt 2 bytes 6 = some flags ∧ flags &&& 0x08 = 0
  name : ∃ nameLen : ℕ, numberAt 2 bytes 26 = some nameLen ∧
    30 + nameLen ≤ bytes.length ∧
    decodeName (subarray bytes 30 (30 + nameLen)) = "mimetype"

/-- The data of a file stand behind the local header that its record points
to. -/
def ReadBehind (z : Zlib) (bytes : Bytes) (record : CentralRecord)
    (content : Bytes) : Prop :=
  ∃ nameLen extraLen stored,
    numberAt 4 bytes record.localOffset = some LOCAL_SIG ∧
      numberAt 2 bytes (record.localOffset + 26) = some nameLen ∧
      numberAt 2 bytes (record.localOffset + 28) = some extraLen ∧
      StandsAt bytes (record.localOffset + 30 + nameLen + extraLen) stored ∧
      stored.length = record.compressed ∧
      contentOf z record stored = .ok content

theorem firstLocal_of_require {bytes : Bytes}
    (h : requireOnDiskMimetypeFirst bytes = .ok ()) : FirstLocal bytes := by
  obtain ⟨_, -, h⟩ := bind_eq_ok.mp h
  obtain ⟨sig, hsig, h⟩ := bind_eq_ok.mp h
  obtain ⟨_, hlocal, h⟩ := bind_eq_ok.mp h
  obtain ⟨flags, hflags, h⟩ := bind_eq_ok.mp h
  obtain ⟨method, hmethod, h⟩ := bind_eq_ok.mp h
  obtain ⟨nameLen, hnameLen, h⟩ := bind_eq_ok.mp h
  obtain ⟨extraLen, hextraLen, h⟩ := bind_eq_ok.mp h
  obtain ⟨_, hinside, h⟩ := bind_eq_ok.mp h
  obtain ⟨_, hname, h⟩ := bind_eq_ok.mp h
  obtain ⟨_, hstored, h⟩ := bind_eq_ok.mp h
  obtain ⟨_, hextra, hdescriptor⟩ := bind_eq_ok.mp h
  rw [reject_eq_ok] at hlocal hinside hname hstored hextra hdescriptor
  rw [not_not] at hlocal hname hstored hextra hdescriptor
  rw [readU32_eq_ok, hlocal] at hsig
  rw [readU16_eq_ok] at hflags hnameLen
  rw [readU16_eq_ok, hstored] at hmethod
  rw [readU16_eq_ok, hextra] at hextraLen
  exact ⟨hsig, hmethod, hextraLen, ⟨flags, hflags, hdescriptor⟩,
    nameLen, hnameLen, Nat.not_lt.mp hinside, hname⟩

theorem standsAt_subarray {bytes : Bytes} {start length : ℕ}
    (h : start + length ≤ bytes.length) :
    StandsAt bytes start (subarray bytes start (start + length : ℕ)) ∧
      (subarray bytes start (start + length : ℕ)).length = length := by
  rw [subarray_natCast]
  have htake : (bytes.take (start + length)).take start = bytes.take start := by
    rw [List.take_take, Nat.min_eq_left (Nat.le_add_right start length)]
  refine ⟨⟨bytes.take start, bytes.drop (start + length), ?_, ?_⟩, ?_⟩
  · rw [List.length_take]
    omega
  · rw [← List.append_assoc, ← htake, List.take_append_drop,
      List.take_append_drop]
  · rw [List.length_drop, List.length_take]
    omega

theorem readBehind_of_fileBytesOf {bytes content : Bytes}
    {record : CentralRecord} (h : fileBytesOf z bytes record = .ok content) :
    ReadBehind z bytes record content := by
  obtain ⟨dataStart, hstart, h⟩ := bind_eq_ok.mp h
  obtain ⟨_, hinside, h⟩ := bind_eq_ok.mp h
  obtain ⟨out, hcontent, h⟩ := bind_eq_ok.mp h
  obtain ⟨_, -, h⟩ := bind_eq_ok.mp h
  obtain ⟨sig, hsig, hstart⟩ := bind_eq_ok.mp hstart
  obtain ⟨_, hlocal, hstart⟩ := bind_eq_ok.mp hstart
  obtain ⟨nameLen, hname, hstart⟩ := bind_eq_ok.mp hstart
  obtain ⟨extraLen, hextra, hstart⟩ := bind_eq_ok.mp hstart
  rw [readU32_eq_ok, not_not.mp (reject_eq_ok.mp hlocal)] at hsig
  rw [readU16_eq_ok] at hname hextra
  rw [Except.ok.inj h] at hcontent
  have hbound := Nat.not_lt.mp (reject_eq_ok.mp hinside)
  rw [← Except.ok.inj hstart] at hcontent hbound
  obtain ⟨hstands, hlength⟩ := standsAt_subarray hbound
  exact ⟨nameLen, extraLen, _, hsig, hname, hextra, hstands, hlength, hcontent⟩

/-- What is returned, whatever the bytes are: the first local header is that of
a file that says what the container is, and the files are those of the central
directory, with the first one of that name in front. -/
theorem unpacked_from_directory {bytes : Bytes} {unpacked : UnpackedAsic}
    (h : unpackAsicE z bytes = .ok unpacked) :
    FirstLocal bytes ∧ ∃ records front mimetype rest,
      CentralDirectory bytes records ∧
      List.Forall₂ (fun record entry => FileOf z bytes record entry ∧
        ReadBehind z bytes record.2 entry.bytes) records
        (front ++ mimetype :: rest) ∧
      unpacked.entries = mimetype :: (front ++ rest) ∧
      (∀ entry ∈ front, entry.name ≠ "mimetype") ∧
      mimetype.name = "mimetype" ∧
      decodeText mimetype.bytes = ASIC_E_MIMETYPE := by
  obtain ⟨parsed, hdisk, hparsed, hentries, -⟩ := unpackAsicE_eq_ok h
  obtain ⟨-, -, records, hdirectory, hfiles⟩ :=
    parseCentralEntries_eq_ok hparsed
  obtain ⟨front, mimetype, rest, rfl, hordered, hfront, hname, hdeclared⟩ :=
    requireMimetypeFirst_eq_ok hentries
  refine ⟨firstLocal_of_require hdisk, records, front, mimetype, rest,
    hdirectory, ?_, hordered, hfront, hname, hdeclared⟩
  exact hfiles.imp fun _ _ hfile =>
    ⟨hfile, readBehind_of_fileBytesOf hfile.content⟩

/-! ## A container in disguise

The first local header has the name that is asked for, and its central record
another one. So the file that says what the container is stands second. -/

/-- The records of files as they are laid out. -/
def recordsOf (z : Zlib) : ℕ → ℕ → List (String × AsicEntry) →
    List (ℕ × CentralRecord)
  | _, _, [] => []
  | cursor, offset, file :: files =>
      (cursor, recordOf file.2 offset) ::
        recordsOf z (cursor + 46 + (encodeName file.2.name).length)
          (offset + (localOf z file).length) files

theorem records_of_standsAt {bytes : Bytes}
    {files : List (String × AsicEntry)} {cursor offset : ℕ}
    (hwritable : ∀ file ∈ files, Writable file.2)
    (hoffset : offset + (files.flatMap (localOf z)).length < 0x100 ^ 4)
    (h : StandsAt bytes cursor (centralsFrom z offset files)) :
    Records bytes cursor (recordsOf z cursor offset files) := by
  induction files generalizing cursor offset with
  | nil => exact .nil cursor
  | cons file files ih =>
      rw [List.flatMap_cons, List.length_append] at hoffset
      rw [centralsFrom] at h
      have hrecord : readRecord bytes cursor = .ok (recordOf file.2 offset) :=
        readRecord_of_standsAt (hwritable file List.mem_cons_self) (by omega)
          h.left
      have hnext := h.right
      rw [length_centralRecord, ← Nat.add_assoc] at hnext
      exact .cons hrecord (ih (fun other hother =>
        hwritable other (List.mem_cons_of_mem file hother)) (by omega) hnext)

theorem length_recordsOf (cursor offset : ℕ)
    (files : List (String × AsicEntry)) :
    (recordsOf z cursor offset files).length = files.length := by
  induction files generalizing cursor offset with
  | nil => rfl
  | cons file files ih => exact congrArg (· + 1) (ih _ _)

theorem centralDirectory_layOut {files : List (String × AsicEntry)}
    (hfits : Fits files) :
    CentralDirectory (layOut z files)
      (recordsOf z (files.flatMap (localOf z)).length 0 files) := by
  obtain ⟨eocd, hlaid⟩ := laidOut_of_fits (z := z) hfits
  refine ⟨eocd, _, hlaid.found, ?_, hlaid.offset, ?_⟩
  · rw [length_recordsOf]
    exact hlaid.count
  · exact records_of_standsAt hfits.writable
      (by rw [Nat.zero_add]; exact hlaid.below) hlaid.centrals

/-- The local header that a record points to says the same of the file. -/
def LocalAgrees (bytes : Bytes) (record : CentralRecord) : Prop :=
  numberAt 2 bytes (record.localOffset + 8) = some record.method ∧
    numberAt 4 bytes (record.localOffset + 18) = some record.compressed ∧
    numberAt 4 bytes (record.localOffset + 22) = some record.uncompressed ∧
    ∃ nameLen : ℕ, numberAt 2 bytes (record.localOffset + 26) = some nameLen ∧
      decodeName (subarray bytes (record.localOffset + 30 : ℕ)
        (record.localOffset + 30 + nameLen : ℕ)) = record.name

/-- The payload stands first, under the name of the file that says what the
container is, which comes after it. -/
def disguised : List (String × AsicEntry) :=
  [("mimetype", ⟨"a", [0x68, 0x69]⟩),
    own ⟨"mimetype", encodeText ASIC_E_MIMETYPE⟩, own (manifestOf "a"),
    own ⟨"META-INF/signature1.p7s", [0x30, 0x00]⟩]

theorem fits_disguised : Fits disguised where
  count := by decide
  writable := by
    intro file hfile
    simp only [disguised, own, manifestOf, List.mem_cons, List.not_mem_nil,
      or_false] at hfile
    rcases hfile with rfl | rfl | rfl | rfl <;>
      exact ⟨by decide +kernel, by decide +kernel, by decide +kernel⟩
  names := by decide +kernel
  total := by decide +kernel

/-- The files in the order in which they are returned. -/
def disguisedEntries : List AsicEntry :=
  [⟨"mimetype", encodeText ASIC_E_MIMETYPE⟩, ⟨"a", [0x68, 0x69]⟩,
    manifestOf "a", ⟨"META-INF/signature1.p7s", [0x30, 0x00]⟩]

theorem partsOf_disguisedEntries :
    partsOf disguisedEntries = .ok ⟨disguisedEntries, ⟨"a", [0x68, 0x69]⟩,
      manifestOf "a", ⟨"META-INF/signature1.p7s", [0x30, 0x00]⟩⟩ := by
  have hmanifest : disguisedEntries.find?
      (fun entry => isManifestName entry.name) = some (manifestOf "a") := by
    have hother : isManifestName "a" = false := by decide +kernel
    unfold disguisedEntries
    rw [List.find?_cons_of_neg (by simp [isManifestName_mimetype]),
      List.find?_cons_of_neg (by simp [hother])]
    exact List.find?_cons_of_pos (isManifestName_manifestOf "a")
  have hsignature : disguisedEntries.find?
      (fun entry => isSignatureName entry.name) =
        some ⟨"META-INF/signature1.p7s", [0x30, 0x00]⟩ := by
    decide +kernel
  have huri : payloadUriFromManifest (decodeText (manifestOf "a").bytes) =
      some "a" := by
    have hexec : payloadUri.exec (decodeText (manifestOf "a").bytes).toList =
        some ['a'] := exec_manifestOf List.mem_cons_self
    unfold payloadUriFromManifest
    rw [hexec]
    decide
  have hpayload : payloadOf disguisedEntries (some "a") =
      some ⟨"a", [0x68, 0x69]⟩ := by
    decide +kernel
  rw [← huri] at hpayload
  exact partsOf_of_found hmanifest hsignature hpayload

theorem unpackAsicE_disguised :
    unpackAsicE storing (layOut storing disguised) =
      .ok ⟨disguisedEntries, ⟨"a", [0x68, 0x69]⟩, manifestOf "a",
        ⟨"META-INF/signature1.p7s", [0x30, 0x00]⟩⟩ := by
  have hordered : requireMimetypeFirst
      ((⟨"a", [0x68, 0x69]⟩ : AsicEntry) :: (disguised.tail).map Prod.snd) =
        .ok disguisedEntries := by
    have hfront : ∀ entry ∈ [(⟨"a", [0x68, 0x69]⟩ : AsicEntry)],
        entry.name ≠ "mimetype" := by decide
    exact requireMimetypeFirst_of_split hfront rfl
      (decodeText_encodeText (by decide))
  exact (unpackAsicE_layOut hordered fits_disguised).trans
    partsOf_disguisedEntries

theorem unpacked_from_directory_disguised :
    FirstLocal (layOut storing disguised) ∧
      ∃ records, CentralDirectory (layOut storing disguised) records := by
  obtain ⟨hfirst, records, -, -, -, hdirectory, -⟩ :=
    unpacked_from_directory unpackAsicE_disguised
  exact ⟨hfirst, records, hdirectory⟩

/-- The container is accepted, though the file that is returned in front is not
the first one, and the first one has another name in its local header than in
its record. -/
theorem disguised_accepted :
    ∃ unpacked records,
      unpackAsicE storing (layOut storing disguised) = .ok unpacked ∧
      CentralDirectory (layOut storing disguised) records ∧
      (∃ record ∈ records, record.2.name = "mimetype" ∧
        record.2.localOffset ≠ 0) ∧
      ∃ record ∈ records,
        ¬ LocalAgrees (layOut storing disguised) record.2 := by
  obtain ⟨parsed, hdisk, -⟩ := unpackAsicE_eq_ok unpackAsicE_disguised
  refine ⟨_, _, unpackAsicE_disguised, centralDirectory_layOut fits_disguised,
    ?_, ?_⟩
  · refine ⟨_, List.mem_cons_of_mem _ List.mem_cons_self, rfl, ?_⟩
    change 0 + (localFile storing ⟨"mimetype", [0x68, 0x69]⟩).length ≠ 0
    rw [length_localFile]
    omega
  · refine ⟨_, List.mem_cons_self, ?_⟩
    rintro ⟨-, -, -, nameLen, hlength, hname⟩
    obtain ⟨nameLen', hlength', -, hname'⟩ :=
      (firstLocal_of_require hdisk).name
    have hsame : nameLen' = nameLen :=
      Option.some.inj (hlength'.symm.trans hlength)
    rw [hsame] at hname'
    have hstop : ((0 + 30 + nameLen : ℕ) : ℤ) = 30 + nameLen := by omega
    have hboth : decodeName (subarray (layOut storing disguised) 30
        (0 + 30 + nameLen : ℕ)) = "a" := hname
    rw [hstop] at hboth
    exact absurd (hname'.symm.trans hboth) (by decide)

end Shozee.Asic
