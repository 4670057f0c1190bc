import Shozee.Asic.Reading

/-!
# Reading what is laid out

Files laid out as the writer does, but for the names in their local headers,
are read again as they are (`parseCentralEntries_layOut`): the central
directory is read from the end, and of a local header only where the data
behind it begin.
-/

namespace Shozee.Asic

open Shozee.Run

variable (z : Zlib)

/-- The fields of a local header. -/
def localFields (entry : AsicEntry) : List (ℕ × ℕ) :=
  [(4, LOCAL_SIG), (2, ZIP_VERSION), (2, 0), (2, STORED), (2, 0), (2, 0),
    (4, crcOf z entry.bytes), (4, entry.bytes.length), (4, entry.bytes.length),
    (2, (encodeName entry.name).length), (2, 0)]

/-- The fields of a central record. -/
def centralFields (entry : AsicEntry) (offset : ℕ) : List (ℕ × ℕ) :=
  [(4, CENTRAL_SIG), (2, ZIP_VERSION), (2, ZIP_VERSION), (2, 0), (2, STORED),
    (2, 0), (2, 0), (4, crcOf z entry.bytes), (4, entry.bytes.length),
    (4, entry.bytes.length), (2, (encodeName entry.name).length), (2, 0), (2, 0),
    (2, 0), (2, 0), (4, 0), (4, offset)]

/-- The fields of the end record, with their widths. -/
def endFields (count size offset : ℕ) : List (ℕ × ℕ) :=
  [(4, EOCD_SIG), (2, 0), (2, 0), (2, count), (2, count), (4, size),
    (4, offset), (2, 0)]

theorem localFile_eq (entry : AsicEntry) :
    localFile z entry =
      fieldBytes (localFields z entry) ++
        (encodeName entry.name ++ entry.bytes) := by
  simp [localFile, localFields, fieldBytes, u16, u32]

theorem centralRecord_eq (entry : AsicEntry) (offset : ℕ) :
    centralRecord z entry offset =
      fieldBytes (centralFields z entry offset) ++ encodeName entry.name := by
  simp [centralRecord, centralFields, fieldBytes, u16, u32]

theorem endRecord_eq (count size offset : ℕ) :
    endRecord count size offset = fieldBytes (endFields count size offset) := by
  simp [endRecord, endFields, fieldBytes, u16, u32]

theorem length_localFile (entry : AsicEntry) :
    (localFile z entry).length =
      30 + (encodeName entry.name).length + entry.bytes.length := by
  rw [localFile_eq, List.length_append, List.length_append, length_fieldBytes,
    ← Nat.add_assoc]
  rfl

theorem length_centralRecord (entry : AsicEntry) (offset : ℕ) :
    (centralRecord z entry offset).length =
      46 + (encodeName entry.name).length := by
  rw [centralRecord_eq, List.length_append, length_fieldBytes]
  rfl

/-! ## One file

The record of a file, read at the place where it was written, says where the
file is, and the file is there. -/

/-- An entry that can be written: its name is not too long and is read again as
it is, and its size is within the budget. -/
structure Writable (entry : AsicEntry) : Prop where
  name : (encodeName entry.name).length ≤ 65535
  mark : ¬ MarkFirst entry.name
  size : entry.bytes.length ≤ MAX_ASIC_ENTRY_UNCOMPRESSED_BYTES

variable {z}

theorem crcOf_lt (bytes : Bytes) : crcOf z bytes < 0x100 ^ 4 :=
  (z.crc32 bytes).toNat_lt

/-- What is read of a record that is written so. -/
def recordOf (entry : AsicEntry) (offset : ℕ) : CentralRecord where
  flags := 0
  method := STORED
  compressed := entry.bytes.length
  uncompressed := entry.bytes.length
  nameLen := (encodeName entry.name).length
  extraLen := 0
  commentLen := 0
  localOffset := offset
  name := entry.name

theorem readRecord_of_standsAt {bytes : Bytes} {cursor offset : ℕ}
    {entry : AsicEntry} (hwritable : Writable entry)
    (hoffset : offset < 0x100 ^ 4)
    (h : StandsAt bytes cursor (centralRecord z entry offset)) :
    readRecord bytes cursor = .ok (recordOf entry offset) := by
  have hsize : entry.bytes.length < 0x100 ^ 4 :=
    Nat.lt_of_le_of_lt hwritable.size (by decide)
  have hname : (encodeName entry.name).length < 0x100 ^ 2 :=
    Nat.lt_of_le_of_lt hwritable.name (by decide)
  rw [centralRecord_eq] at h
  refine bind_eq_ok.mpr ⟨_, readU32_eq_ok.mpr (h.field 0 rfl (by decide)), ?_⟩
  refine bind_eq_ok.mpr ⟨(), reject_of_not (by simp), ?_⟩
  refine bind_eq_ok.mpr ⟨_, readU16_eq_ok.mpr (h.field 3 rfl (by decide)), ?_⟩
  refine bind_eq_ok.mpr ⟨_, readU16_eq_ok.mpr (h.field 4 rfl (by decide)), ?_⟩
  refine bind_eq_ok.mpr ⟨_, readU32_eq_ok.mpr (h.field 8 rfl hsize), ?_⟩
  refine bind_eq_ok.mpr ⟨_, readU32_eq_ok.mpr (h.field 9 rfl hsize), ?_⟩
  refine bind_eq_ok.mpr ⟨_, readU16_eq_ok.mpr (h.field 10 rfl hname), ?_⟩
  refine bind_eq_ok.mpr ⟨_, readU16_eq_ok.mpr (h.field 11 rfl (by decide)), ?_⟩
  refine bind_eq_ok.mpr ⟨_, readU16_eq_ok.mpr (h.field 12 rfl (by decide)), ?_⟩
  refine bind_eq_ok.mpr ⟨_, readU32_eq_ok.mpr (h.field 16 rfl hoffset), ?_⟩
  have hat : StandsAt bytes (cursor + 46) (encodeName entry.name) := by
    have hright := h.right
    rw [length_fieldBytes] at hright
    exact hright
  have hdecoded : decodeName (encodeName entry.name) = entry.name :=
    decodeText_encodeText hwritable.mark
  have hread : subarray bytes (cursor + 46)
      (cursor + 46 + (encodeName entry.name).length) = encodeName entry.name :=
    hat.subarray_eq
  rw [hread, hdecoded]
  rfl

theorem checkRecord_recordOf {entry : AsicEntry} (hwritable : Writable entry)
    (offset : ℕ) {total : ℕ}
    (htotal : total ≤ MAX_ASIC_TOTAL_UNCOMPRESSED_BYTES) :
    checkRecord (recordOf entry offset) total = .ok () := by
  refine bind_eq_ok.mpr ⟨(), reject_of_not (not_not.mpr (Nat.zero_and 8)), ?_⟩
  refine bind_eq_ok.mpr ⟨(), reject_of_not fun h => h.1 rfl, ?_⟩
  refine bind_eq_ok.mpr ⟨(), reject_of_not fun h => h.2 rfl, ?_⟩
  refine bind_eq_ok.mpr ⟨(), reject_of_not fun h => h.2 rfl, ?_⟩
  refine bind_eq_ok.mpr ⟨(), reject_of_not (Nat.not_lt.mpr hwritable.size), ?_⟩
  exact reject_of_not (Nat.not_lt.mpr htotal)

/-- The data of a file, whatever its name is in the local header. -/
theorem fileBytesOf_of_standsAt {bytes : Bytes} {offset : ℕ}
    {entry written : AsicEntry}
    (h : StandsAt bytes offset (localFile z written))
    (hsame : written.bytes = entry.bytes)
    (hname : (encodeName written.name).length ≤ 65535) :
    fileBytesOf z bytes (recordOf entry offset) = .ok entry.bytes := by
  have hname' : (encodeName written.name).length < 0x100 ^ 2 :=
    Nat.lt_of_le_of_lt hname (by decide)
  rw [localFile_eq] at h
  have hstart : dataStartOf bytes offset =
      .ok (offset + 30 + (encodeName written.name).length + 0) := by
    refine bind_eq_ok.mpr
      ⟨_, readU32_eq_ok.mpr (h.field 0 rfl (by decide)), ?_⟩
    refine bind_eq_ok.mpr ⟨(), reject_of_not (not_not.mpr rfl), ?_⟩
    refine bind_eq_ok.mpr ⟨_, readU16_eq_ok.mpr (h.field 9 rfl hname'), ?_⟩
    exact bind_eq_ok.mpr
      ⟨_, readU16_eq_ok.mpr (h.field 10 rfl (by decide)), rfl⟩
  have hat : StandsAt bytes (offset + 30 + (encodeName written.name).length)
      entry.bytes := by
    have hright := h.right.right
    rw [length_fieldBytes, hsame] at hright
    exact hright
  have hread : subarray bytes
      (offset + 30 + (encodeName written.name).length : ℕ)
      (offset + 30 + (encodeName written.name).length + entry.bytes.length : ℕ) =
        entry.bytes := hat.subarray_eq
  refine bind_eq_ok.mpr ⟨_, hstart, ?_⟩
  refine bind_eq_ok.mpr ⟨(), reject_of_not (Nat.not_lt.mpr hat.length_le), ?_⟩
  refine bind_eq_ok.mpr ⟨entry.bytes, ?_, ?_⟩
  · exact congrArg Except.ok hread
  · exact bind_eq_ok.mpr ⟨(), reject_of_not (not_not.mpr rfl), rfl⟩

/-! ## The archive

The records stand one behind the other, and the end record is found because no
signature occurs behind it. -/

variable (z)

/-- A file, written under a name of its own in its local header. -/
def localOf (file : String × AsicEntry) : Bytes :=
  localFile z ⟨file.1, file.2.bytes⟩

/-- The central records of files whose local headers begin at a place. -/
def centralsFrom : ℕ → List (String × AsicEntry) → Bytes
  | _, [] => []
  | offset, file :: files =>
      centralRecord z file.2 offset ++
        centralsFrom (offset + (localOf z file).length) files

/-- An archive of files, each under the name that its local header is to have.
-/
def layOut (files : List (String × AsicEntry)) : Bytes :=
  files.flatMap (localOf z) ++ centralsFrom z 0 files ++
    endRecord files.length (centralsFrom z 0 files).length
      (files.flatMap (localOf z)).length

variable {z}

/-- Files that are within the limits. -/
structure Fits (files : List (String × AsicEntry)) : Prop where
  count : files.length ≤ MAX_ASIC_ENTRIES
  writable : ∀ file ∈ files, Writable file.2
  names : ∀ file ∈ files, (encodeName file.1).length ≤ 65535
  total : totalOf (files.map Prod.snd) ≤ MAX_ASIC_TOTAL_UNCOMPRESSED_BYTES

theorem length_locals_le {files : List (String × AsicEntry)}
    (hnames : ∀ file ∈ files, (encodeName file.1).length ≤ 65535) :
    (files.flatMap (localOf z)).length ≤
      files.length * 65565 + totalOf (files.map Prod.snd) := by
  induction files with
  | nil => exact Nat.zero_le _
  | cons file files ih =>
      have hrest := ih fun other hother =>
        hnames other (List.mem_cons_of_mem file hother)
      have hname := hnames file List.mem_cons_self
      unfold totalOf at hrest ⊢
      rw [List.flatMap_cons, List.length_append, List.length_cons,
        List.map_cons, List.map_cons, List.sum_cons, localOf, length_localFile]
      dsimp only
      omega

theorem length_centrals_le {files : List (String × AsicEntry)} (offset : ℕ)
    (hwritable : ∀ file ∈ files, Writable file.2) :
    (centralsFrom z offset files).length ≤ files.length * 65581 := by
  induction files generalizing offset with
  | nil => exact Nat.zero_le _
  | cons file files ih =>
      have hrest := ih (offset + (localOf z file).length) fun other hother =>
        hwritable other (List.mem_cons_of_mem file hother)
      have hname := (hwritable file List.mem_cons_self).name
      rw [centralsFrom, List.length_append, length_centralRecord,
        List.length_cons]
      omega

theorem parseEntries_of_standsAt {bytes : Bytes}
    {files : List (String × AsicEntry)} {cursor offset total : ℕ}
    (hwritable : ∀ file ∈ files, Writable file.2)
    (hnames : ∀ file ∈ files, (encodeName file.1).length ≤ 65535)
    (htotal : total + totalOf (files.map Prod.snd) ≤
      MAX_ASIC_TOTAL_UNCOMPRESSED_BYTES)
    (hoffset : offset + (files.flatMap (localOf z)).length < 0x100 ^ 4)
    (hcentral : StandsAt bytes cursor (centralsFrom z offset files))
    (hlocal : StandsAt bytes offset (files.flatMap (localOf z))) :
    parseEntries z bytes files.length cursor total =
      .ok (files.map Prod.snd) := by
  induction files generalizing cursor offset total with
  | nil => rfl
  | cons file files ih =>
      have hfile := hwritable file List.mem_cons_self
      have hname := hnames file List.mem_cons_self
      unfold totalOf at htotal
      rw [List.map_cons, List.map_cons, List.sum_cons] at htotal
      rw [List.flatMap_cons, List.length_append] at hoffset
      rw [List.flatMap_cons] at hlocal
      rw [centralsFrom] at hcentral
      have hat : offset < 0x100 ^ 4 := by omega
      have hcrc : numberAt 4 bytes (cursor + 16) =
          some (crcOf z file.2.bytes) := by
        have hrecord := hcentral.left
        rw [centralRecord_eq] at hrecord
        exact hrecord.field 7 rfl (crcOf_lt _)
      have hcheck : checkRecord (recordOf file.2 offset)
          (total + file.2.bytes.length) = .ok () :=
        checkRecord_recordOf hfile offset (by omega)
      have hstands : StandsAt bytes offset
          (localFile z ⟨file.1, file.2.bytes⟩) := hlocal.left
      have hnext : StandsAt bytes
          (cursor + 46 + (encodeName file.2.name).length + 0 + 0)
          (centralsFrom z (offset + (localOf z file).length) files) := by
        have hright := hcentral.right
        rw [length_centralRecord, ← Nat.add_assoc] at hright
        exact hright
      have hrest : parseEntries z bytes files.length
          (cursor + 46 + (encodeName file.2.name).length + 0 + 0)
          (total + file.2.bytes.length) = .ok (files.map Prod.snd) :=
        ih (fun other hother =>
            hwritable other (List.mem_cons_of_mem file hother))
          (fun other hother => hnames other (List.mem_cons_of_mem file hother))
          (by unfold totalOf; omega) (by omega) hnext hlocal.right
      refine bind_eq_ok.mpr
        ⟨_, readRecord_of_standsAt hfile hat hcentral.left, ?_⟩
      refine bind_eq_ok.mpr ⟨(), hcheck, ?_⟩
      refine bind_eq_ok.mpr
        ⟨_, fileBytesOf_of_standsAt hstands rfl hname, ?_⟩
      refine bind_eq_ok.mpr ⟨_, readU32_eq_ok.mpr hcrc, ?_⟩
      refine bind_eq_ok.mpr ⟨(), reject_of_not (not_not.mpr rfl), ?_⟩
      exact bind_eq_ok.mpr ⟨files.map Prod.snd, hrest, rfl⟩

theorem findEocdFrom_of_signature {bytes : Bytes} {min place : ℕ}
    (hmin : min ≤ place) (h : numberAt 4 bytes place = some EOCD_SIG) :
    findEocdFrom bytes min place = .ok place := by
  cases place with
  | zero =>
      refine bind_eq_ok.mpr ⟨(), reject_of_not (Nat.not_lt.mpr hmin), ?_⟩
      exact bind_eq_ok.mpr ⟨_, readU32_eq_ok.mpr h, if_pos rfl⟩
  | succ below =>
      refine bind_eq_ok.mpr ⟨(), reject_of_not (Nat.not_lt.mpr hmin), ?_⟩
      exact bind_eq_ok.mpr ⟨_, readU32_eq_ok.mpr h, if_pos rfl⟩

/-- The end record is the last thing in the bytes, so it is found at once,
whatever the files contain. -/
theorem findEocd_of_standsAt {eocd count size offset : ℕ} {bytes : Bytes}
    (h : StandsAt bytes eocd (endRecord count size offset))
    (hlast : bytes.length = eocd + 22) :
    findEocd bytes = .ok eocd := by
  rw [endRecord_eq, ← List.append_nil (fieldBytes _)] at h
  refine bind_eq_ok.mpr ⟨(), reject_of_not (by omega), ?_⟩
  rw [hlast, Nat.add_sub_cancel]
  exact findEocdFrom_of_signature (Nat.sub_le _ _) (h.field 0 rfl (by decide))

/-- Where the parts of an archive are found. -/
structure LaidOut (z : Zlib) (files : List (String × AsicEntry)) (eocd : ℕ) :
    Prop where
  found : findEocd (layOut z files) = .ok eocd
  count : numberAt 2 (layOut z files) (eocd + 10) = some files.length
  size : numberAt 4 (layOut z files) (eocd + 12) =
    some (centralsFrom z 0 files).length
  offset : numberAt 4 (layOut z files) (eocd + 16) =
    some (files.flatMap (localOf z)).length
  locals : StandsAt (layOut z files) 0 (files.flatMap (localOf z))
  centrals : StandsAt (layOut z files) (files.flatMap (localOf z)).length
    (centralsFrom z 0 files)
  below : (files.flatMap (localOf z)).length < 0x100 ^ 4

theorem laidOut_of_fits {files : List (String × AsicEntry)}
    (hfits : Fits files) : ∃ eocd, LaidOut z files eocd := by
  have hentries : MAX_ASIC_ENTRIES = 16 := rfl
  have hbudget : MAX_ASIC_TOTAL_UNCOMPRESSED_BYTES = 104857600 := rfl
  have hcount := hfits.count
  have htotal := hfits.total
  have hlocals : (files.flatMap (localOf z)).length ≤ _ :=
    length_locals_le hfits.names
  have hcentrals : (centralsFrom z 0 files).length ≤ _ :=
    length_centrals_le 0 hfits.writable
  have hbytes : layOut z files = files.flatMap (localOf z) ++
      centralsFrom z 0 files ++ endRecord files.length
        (centralsFrom z 0 files).length (files.flatMap (localOf z)).length := rfl
  have hend : StandsAt (layOut z files)
      (files.flatMap (localOf z) ++ centralsFrom z 0 files).length
      (endRecord files.length (centralsFrom z 0 files).length
        (files.flatMap (localOf z)).length) :=
    ⟨_, [], rfl, by rw [hbytes, List.append_nil]⟩
  have hlast : (layOut z files).length =
      (files.flatMap (localOf z) ++ centralsFrom z 0 files).length + 22 := by
    rw [hbytes, List.length_append, endRecord_eq, length_fieldBytes]
    rfl
  have heocd := findEocd_of_standsAt hend hlast
  rw [endRecord_eq, ← List.append_nil (fieldBytes _)] at hend
  exact ⟨_, {
    found := heocd
    count := hend.field 4 rfl (by omega)
    size := hend.field 5 rfl (by omega)
    offset := hend.field 6 rfl (by omega)
    locals := ⟨[], _, rfl, by rw [hbytes, List.append_assoc, List.nil_append]⟩
    centrals := ⟨_, _, rfl, by rw [hbytes, List.append_assoc]⟩
    below := by omega }⟩

theorem parseCentralEntries_layOut {files : List (String × AsicEntry)}
    (hfits : Fits files) :
    parseCentralEntries z (layOut z files) = .ok (files.map Prod.snd) := by
  obtain ⟨eocd, hlaid⟩ := laidOut_of_fits (z := z) hfits
  have hinside := hlaid.centrals.length_le
  refine bind_eq_ok.mpr ⟨_, hlaid.found, ?_⟩
  refine bind_eq_ok.mpr ⟨_, readU16_eq_ok.mpr hlaid.count, ?_⟩
  refine bind_eq_ok.mpr ⟨_, readU32_eq_ok.mpr hlaid.size, ?_⟩
  refine bind_eq_ok.mpr ⟨_, readU32_eq_ok.mpr hlaid.offset, ?_⟩
  refine bind_eq_ok.mpr ⟨(), reject_of_not (Nat.not_lt.mpr hfits.count), ?_⟩
  refine bind_eq_ok.mpr ⟨(), reject_of_not (Nat.not_lt.mpr hinside), ?_⟩
  exact parseEntries_of_standsAt hfits.writable hfits.names
    (by rw [Nat.zero_add]; exact hfits.total)
    (by rw [Nat.zero_add]; exact hlaid.below) hlaid.centrals hlaid.locals

end Shozee.Asic
