import Shozee.Run.Traverse
import Shozee.Asic.Container

/-!
# What reading a container comes to

Every read is of a place that has been checked to be inside, so that nothing
else is thrown than the container's own error (`onlyContainer_unpackAsicE`).
What is returned are the files of the central directory, in its order but for
the first (`unpackAsicE_eq_ok`).
-/

namespace Shozee.Asic

open Shozee.Run

/-! ## Checks and reads

A read that succeeds was of a place inside the bytes. -/

theorem reject_eq_ok {bad : Prop} [Decidable bad] {message : String}
    {u : Unit} : reject bad message = .ok u ↔ ¬ bad := by
  unfold reject
  split
  next h => exact iff_of_false (by simp) (not_not.mpr h)
  next h => exact iff_of_true rfl h

theorem reject_of_not {bad : Prop} [Decidable bad] {message : String}
    (h : ¬ bad) : reject bad message = .ok () :=
  reject_eq_ok.mpr h

/-- A number is read where there are so many bytes, behind the check that there
are. -/
theorem guarded_eq_ok {width : ℕ} {bytes : Bytes} {offset n : ℕ}
    {message : String} :
    (do reject (bytes.length < offset + width) message
        getUint width bytes offset) = .ok n ↔
      numberAt width bytes offset = some n := by
  rw [bind_eq_ok]
  unfold getUint
  constructor
  · rintro ⟨-, -, h⟩
    split at h
    next m hm =>
      cases h
      exact hm
    next => cases h
  · intro h
    refine ⟨(), reject_of_not ?_, by rw [h]⟩
    intro hshort
    unfold numberAt at h
    rw [if_pos hshort] at h
    cases h

theorem readU16_eq_ok {bytes : Bytes} {offset n : ℕ} :
    readU16 bytes offset = .ok n ↔ numberAt 2 bytes offset = some n :=
  guarded_eq_ok

theorem readU32_eq_ok {bytes : Bytes} {offset n : ℕ} :
    readU32 bytes offset = .ok n ↔ numberAt 4 bytes offset = some n :=
  guarded_eq_ok

/-! ## Nothing else is thrown

Each part of the reader throws the container's own error or none, and so does
the whole. -/

/-- Nothing but the container's own error. -/
def OnlyContainer {α : Type} (x : Except Thrown α) : Prop :=
  ∀ e, x = .error e → ∃ message, e = .asicContainer message

section OnlyContainer

variable {α β : Type}

theorem onlyContainer_ok (a : α) : OnlyContainer (.ok a) :=
  fun _ h => nomatch h

theorem onlyContainer_error (message : String) :
    OnlyContainer (.error (.asicContainer message) : Except Thrown α) :=
  fun _ h => ⟨message, (Except.error.inj h).symm⟩

theorem OnlyContainer.bind {x : Except Thrown α} {f : α → Except Thrown β}
    (hx : OnlyContainer x) (hf : ∀ a, OnlyContainer (f a)) :
    OnlyContainer (x >>= f) := by
  intro e h
  rcases bind_eq_error.mp h with h | ⟨a, -, h⟩
  · exact hx e h
  · exact hf a e h

theorem onlyContainer_reject (bad : Prop) [Decidable bad] (message : String) :
    OnlyContainer (reject bad message) := by
  unfold reject
  split
  · exact onlyContainer_error message
  · exact onlyContainer_ok ()

theorem onlyContainer_guarded (width : ℕ) (bytes : Bytes) (offset : ℕ)
    (message : String) :
    OnlyContainer (do
      reject (bytes.length < offset + width) message
      getUint width bytes offset) := by
  intro e h
  rcases bind_eq_error.mp h with h | ⟨u, hinside, h⟩
  · exact onlyContainer_reject _ _ e h
  · -- behind the check the place is inside
    unfold getUint numberAt at h
    rw [if_neg (reject_eq_ok.mp hinside)] at h
    cases h

theorem onlyContainer_readU16 (bytes : Bytes) (offset : ℕ) :
    OnlyContainer (readU16 bytes offset) :=
  onlyContainer_guarded 2 bytes offset _

theorem onlyContainer_readU32 (bytes : Bytes) (offset : ℕ) :
    OnlyContainer (readU32 bytes offset) :=
  onlyContainer_guarded 4 bytes offset _

end OnlyContainer

theorem onlyContainer_inflateRaw (z : Zlib) (compressed : Bytes)
    (maxOutputLength : ℕ) :
    OnlyContainer (inflateRaw z compressed maxOutputLength) := by
  unfold inflateRaw
  split
  · exact onlyContainer_ok _
  · dsimp only
    split
    · exact onlyContainer_error _
    · exact onlyContainer_error _

theorem onlyContainer_requireOnDiskMimetypeFirst (bytes : Bytes) :
    OnlyContainer (requireOnDiskMimetypeFirst bytes) :=
  (onlyContainer_reject _ _).bind fun _ =>
    (onlyContainer_readU32 bytes _).bind fun _ =>
    (onlyContainer_reject _ _).bind fun _ =>
    (onlyContainer_readU16 bytes _).bind fun _ =>
    (onlyContainer_readU16 bytes _).bind fun _ =>
    (onlyContainer_readU16 bytes _).bind fun _ =>
    (onlyContainer_readU16 bytes _).bind fun _ =>
    (onlyContainer_reject _ _).bind fun _ =>
    (onlyContainer_reject _ _).bind fun _ =>
    (onlyContainer_reject _ _).bind fun _ =>
    (onlyContainer_reject _ _).bind fun _ => onlyContainer_reject _ _

theorem onlyContainer_requireMimetypeFirst (entries : List AsicEntry) :
    OnlyContainer (requireMimetypeFirst entries) := by
  unfold requireMimetypeFirst
  split
  · exact onlyContainer_error _
  · split
    · exact onlyContainer_error _
    · exact onlyContainer_ok _

theorem onlyContainer_findEocdFrom (bytes : Bytes) (min place : ℕ) :
    OnlyContainer (findEocdFrom bytes min place) := by
  induction place with
  | zero =>
      refine (onlyContainer_reject _ _).bind fun _ =>
        (onlyContainer_readU32 bytes _).bind fun sig => ?_
      split
      · exact onlyContainer_ok _
      · exact onlyContainer_error _
  | succ below ih =>
      refine (onlyContainer_reject _ _).bind fun _ =>
        (onlyContainer_readU32 bytes _).bind fun sig => ?_
      split
      · exact onlyContainer_ok _
      · exact ih

theorem onlyContainer_findEocd (bytes : Bytes) :
    OnlyContainer (findEocd bytes) :=
  (onlyContainer_reject _ _).bind fun _ => onlyContainer_findEocdFrom bytes _ _

theorem onlyContainer_readRecord (bytes : Bytes) (cursor : ℕ) :
    OnlyContainer (readRecord bytes cursor) :=
  (onlyContainer_readU32 bytes _).bind fun _ =>
    (onlyContainer_reject _ _).bind fun _ =>
    (onlyContainer_readU16 bytes _).bind fun _ =>
    (onlyContainer_readU16 bytes _).bind fun _ =>
    (onlyContainer_readU32 bytes _).bind fun _ =>
    (onlyContainer_readU32 bytes _).bind fun _ =>
    (onlyContainer_readU16 bytes _).bind fun _ =>
    (onlyContainer_readU16 bytes _).bind fun _ =>
    (onlyContainer_readU16 bytes _).bind fun _ =>
    (onlyContainer_readU32 bytes _).bind fun _ => onlyContainer_ok _

theorem onlyContainer_checkRecord (record : CentralRecord) (total : ℕ) :
    OnlyContainer (checkRecord record total) :=
  (onlyContainer_reject _ _).bind fun _ =>
    (onlyContainer_reject _ _).bind fun _ =>
    (onlyContainer_reject _ _).bind fun _ =>
    (onlyContainer_reject _ _).bind fun _ =>
    (onlyContainer_reject _ _).bind fun _ => onlyContainer_reject _ _

theorem onlyContainer_fileBytesOf (z : Zlib) (bytes : Bytes)
    (record : CentralRecord) : OnlyContainer (fileBytesOf z bytes record) := by
  have hstart : OnlyContainer (dataStartOf bytes record.localOffset) :=
    (onlyContainer_readU32 bytes _).bind fun _ =>
      (onlyContainer_reject _ _).bind fun _ =>
      (onlyContainer_readU16 bytes _).bind fun _ =>
      (onlyContainer_readU16 bytes _).bind fun _ => onlyContainer_ok _
  have hcontent : ∀ stored, OnlyContainer (contentOf z record stored) := by
    intro stored
    unfold contentOf
    dsimp only
    split
    · exact onlyContainer_inflateRaw z _ _
    · exact onlyContainer_ok _
  exact hstart.bind fun _ => (onlyContainer_reject _ _).bind fun _ =>
    (hcontent _).bind fun _ =>
    (onlyContainer_reject _ _).bind fun _ => onlyContainer_ok _

theorem onlyContainer_parseEntries (z : Zlib) (bytes : Bytes)
    (left cursor total : ℕ) :
    OnlyContainer (parseEntries z bytes left cursor total) := by
  induction left generalizing cursor total with
  | zero => exact onlyContainer_ok []
  | succ left ih =>
      exact (onlyContainer_readRecord bytes _).bind fun record =>
        (onlyContainer_checkRecord record _).bind fun _ =>
        (onlyContainer_fileBytesOf z bytes record).bind fun _ =>
        (onlyContainer_readU32 bytes _).bind fun _ =>
        (onlyContainer_reject _ _).bind fun _ =>
        (ih _ _).bind fun _ => onlyContainer_ok _

theorem onlyContainer_parseCentralEntries (z : Zlib) (bytes : Bytes) :
    OnlyContainer (parseCentralEntries z bytes) :=
  (onlyContainer_findEocd bytes).bind fun _ =>
    (onlyContainer_readU16 bytes _).bind fun _ =>
    (onlyContainer_readU32 bytes _).bind fun _ =>
    (onlyContainer_readU32 bytes _).bind fun _ =>
    (onlyContainer_reject _ _).bind fun _ =>
    (onlyContainer_reject _ _).bind fun _ =>
    onlyContainer_parseEntries z bytes _ _ _

theorem onlyContainer_partsOf (entries : List AsicEntry) :
    OnlyContainer (partsOf entries) := by
  unfold partsOf
  split
  · dsimp only
    split
    · exact onlyContainer_error _
    · exact onlyContainer_ok _
  · exact onlyContainer_error _

theorem onlyContainer_unpackAsicE (z : Zlib) (bytes : Bytes) :
    OnlyContainer (unpackAsicE z bytes) :=
  (onlyContainer_requireOnDiskMimetypeFirst bytes).bind fun _ =>
    (onlyContainer_parseCentralEntries z bytes).bind fun parsed =>
    (onlyContainer_requireMimetypeFirst parsed).bind fun entries =>
    (onlyContainer_reject _ _).bind fun _ => onlyContainer_partsOf entries

/-! ## The files of the central directory

What is returned, record by record. -/

/-- Records that stand one after the other from a place on. -/
inductive Records (bytes : Bytes) : ℕ → List (ℕ × CentralRecord) → Prop
  | nil (cursor : ℕ) : Records bytes cursor []
  | cons {cursor : ℕ} {record : CentralRecord}
      {rest : List (ℕ × CentralRecord)}
      (h : readRecord bytes cursor = .ok record)
      (hrest : Records bytes
        (cursor + 46 + record.nameLen + record.extraLen + record.commentLen)
        rest) :
      Records bytes cursor ((cursor, record) :: rest)

/-- As many records as the end record says, from where it says. -/
def CentralDirectory (bytes : Bytes) (records : List (ℕ × CentralRecord)) :
    Prop :=
  ∃ eocd cdOffset, findEocd bytes = .ok eocd ∧
    numberAt 2 bytes (eocd + 10) = some records.length ∧
    numberAt 4 bytes (eocd + 16) = some cdOffset ∧
    Records bytes cdOffset records

/-- The file that a record of the central directory, read at a place, says. -/
structure FileOf (z : Zlib) (bytes : Bytes) (record : ℕ × CentralRecord)
    (entry : AsicEntry) : Prop where
  name : entry.name = record.2.name
  content : fileBytesOf z bytes record.2 = .ok entry.bytes
  method : record.2.method = STORED ∨ record.2.method = DEFLATE
  mimetype : record.2.name = "mimetype" → record.2.method = STORED
  size : entry.bytes.length = record.2.uncompressed
  budget : record.2.uncompressed ≤ MAX_ASIC_ENTRY_UNCOMPRESSED_BYTES
  crc : numberAt 4 bytes (record.1 + 16) = some (crcOf z entry.bytes)

/-- The bytes of all entries. -/
def totalOf (entries : List AsicEntry) : ℕ :=
  (entries.map fun entry => entry.bytes.length).sum

theorem checkRecord_eq_ok {record : CentralRecord} {total : ℕ} {u : Unit}
    (h : checkRecord record total = .ok u) :
    (record.method = STORED ∨ record.method = DEFLATE) ∧
      (record.name = "mimetype" → record.method = STORED) ∧
      record.uncompressed ≤ MAX_ASIC_ENTRY_UNCOMPRESSED_BYTES ∧
      total ≤ MAX_ASIC_TOTAL_UNCOMPRESSED_BYTES := by
  obtain ⟨_, -, h⟩ := bind_eq_ok.mp h
  obtain ⟨_, hmethod, h⟩ := bind_eq_ok.mp h
  obtain ⟨_, hmimetype, h⟩ := bind_eq_ok.mp h
  obtain ⟨_, -, h⟩ := bind_eq_ok.mp h
  obtain ⟨_, hbudget, htotal⟩ := bind_eq_ok.mp h
  rw [reject_eq_ok] at hmethod hmimetype hbudget htotal
  refine ⟨?_, ?_, Nat.not_lt.mp hbudget, Nat.not_lt.mp htotal⟩
  · by_contra hneither
    exact hmethod (not_or.mp hneither)
  · intro hname
    by_contra hnot
    exact hmimetype ⟨hname, hnot⟩

theorem length_of_fileBytesOf {z : Zlib} {bytes out : Bytes}
    {record : CentralRecord} (h : fileBytesOf z bytes record = .ok out) :
    out.length = record.uncompressed := by
  obtain ⟨_, -, h⟩ := bind_eq_ok.mp h
  obtain ⟨_, -, h⟩ := bind_eq_ok.mp h
  obtain ⟨_, -, h⟩ := bind_eq_ok.mp h
  obtain ⟨_, hlength, h⟩ := bind_eq_ok.mp h
  rw [← Except.ok.inj h]
  exact not_not.mp (reject_eq_ok.mp hlength)

theorem parseEntries_eq_ok {z : Zlib} {bytes : Bytes} {left cursor total : ℕ}
    {entries : List AsicEntry}
    (h : parseEntries z bytes left cursor total = .ok entries)
    (htotal : total ≤ MAX_ASIC_TOTAL_UNCOMPRESSED_BYTES) :
    total + totalOf entries ≤ MAX_ASIC_TOTAL_UNCOMPRESSED_BYTES ∧
      ∃ records, records.length = left ∧ Records bytes cursor records ∧
        List.Forall₂ (FileOf z bytes) records entries := by
  induction left generalizing cursor total entries with
  | zero =>
      rw [← Except.ok.inj h]
      exact ⟨htotal, [], rfl, .nil cursor, .nil⟩
  | succ left ih =>
      obtain ⟨record, hrecord, h⟩ := bind_eq_ok.mp h
      obtain ⟨_, hcheck, h⟩ := bind_eq_ok.mp h
      obtain ⟨fileBytes, hbytes, h⟩ := bind_eq_ok.mp h
      obtain ⟨crc, hcrc, h⟩ := bind_eq_ok.mp h
      obtain ⟨_, hsame, h⟩ := bind_eq_ok.mp h
      obtain ⟨rest, hrest, h⟩ := bind_eq_ok.mp h
      obtain ⟨hmethod, hmimetype, hbudget, hsum⟩ := checkRecord_eq_ok hcheck
      obtain ⟨hsum', records, hlength, hrecords, hfiles⟩ := ih hrest hsum
      rw [← Except.ok.inj h]
      have hsize := length_of_fileBytesOf hbytes
      refine ⟨?_, (cursor, record) :: records, congrArg (· + 1) hlength,
        .cons hrecord hrecords, .cons ?_ hfiles⟩
      · unfold totalOf at hsum' ⊢
        rw [List.map_cons, List.sum_cons, hsize, ← Nat.add_assoc]
        exact hsum'
      · rw [readU32_eq_ok, ← not_not.mp (reject_eq_ok.mp hsame)] at hcrc
        exact ⟨rfl, hbytes, hmethod, hmimetype, hsize, hbudget, hcrc⟩

theorem parseCentralEntries_eq_ok {z : Zlib} {bytes : Bytes}
    {entries : List AsicEntry} (h : parseCentralEntries z bytes = .ok entries) :
    entries.length ≤ MAX_ASIC_ENTRIES ∧
      totalOf entries ≤ MAX_ASIC_TOTAL_UNCOMPRESSED_BYTES ∧
      ∃ records, CentralDirectory bytes records ∧
        List.Forall₂ (FileOf z bytes) records entries := by
  obtain ⟨eocd, heocd, h⟩ := bind_eq_ok.mp h
  obtain ⟨entryCount, hcount, h⟩ := bind_eq_ok.mp h
  obtain ⟨_, -, h⟩ := bind_eq_ok.mp h
  obtain ⟨cdOffset, hoffset, h⟩ := bind_eq_ok.mp h
  obtain ⟨_, hmany, h⟩ := bind_eq_ok.mp h
  obtain ⟨_, -, h⟩ := bind_eq_ok.mp h
  obtain ⟨htotal, records, rfl, hrecords, hfiles⟩ :=
    parseEntries_eq_ok h (Nat.zero_le _)
  rw [Nat.zero_add] at htotal
  refine ⟨?_, htotal, records, ⟨eocd, cdOffset, heocd, ?_, ?_, hrecords⟩,
    hfiles⟩
  · rw [← hfiles.length_eq]
    exact Nat.not_lt.mp (reject_eq_ok.mp hmany)
  · exact readU16_eq_ok.mp hcount
  · exact readU32_eq_ok.mp hoffset

theorem requireMimetypeFirst_eq_ok {entries ordered : List AsicEntry}
    (h : requireMimetypeFirst entries = .ok ordered) :
    ∃ front mimetype rest, entries = front ++ mimetype :: rest ∧
      ordered = mimetype :: (front ++ rest) ∧
      (∀ entry ∈ front, entry.name ≠ "mimetype") ∧
      mimetype.name = "mimetype" ∧
      decodeText mimetype.bytes = ASIC_E_MIMETYPE := by
  unfold requireMimetypeFirst at h
  split at h
  next => cases h
  next mimetype hfind =>
    split at h
    next => cases h
    next hdeclared =>
      obtain ⟨hname, front, rest, rfl, hfront⟩ :=
        List.find?_eq_some_iff_append.mp hfind
      refine ⟨front, mimetype, rest, rfl, ?_, fun entry hentry => ?_,
        of_decide_eq_true hname, not_not.mp hdeclared⟩
      swap
      · simpa using hfront entry hentry
      have hrest : (front ++ mimetype :: rest).eraseP
          (fun entry => entry.name = "mimetype") = front ++ rest := by
        rw [List.eraseP_append_right _ (fun entry hentry => by
          simpa using hfront entry hentry)]
        exact congrArg (front ++ ·) (List.eraseP_cons_of_pos hname)
      rw [← Except.ok.inj h, hrest]

theorem perm_of_requireMimetypeFirst {entries ordered : List AsicEntry}
    (h : requireMimetypeFirst entries = .ok ordered) :
    ordered.Perm entries := by
  obtain ⟨front, mimetype, rest, rfl, rfl, -⟩ := requireMimetypeFirst_eq_ok h
  exact List.perm_middle.symm

theorem partsOf_of_found {entries : List AsicEntry}
    {manifest signature payload : AsicEntry}
    (hmanifest : entries.find? (fun entry => isManifestName entry.name) =
      some manifest)
    (hsignature : entries.find? (fun entry => isSignatureName entry.name) =
      some signature)
    (hpayload : payloadOf entries
      (payloadUriFromManifest (decodeText manifest.bytes)) = some payload) :
    partsOf entries = .ok ⟨entries, payload, manifest, signature⟩ := by
  unfold partsOf
  rw [hmanifest, hsignature]
  dsimp only
  rw [hpayload]

theorem partsOf_eq_ok {entries : List AsicEntry} {unpacked : UnpackedAsic}
    (h : partsOf entries = .ok unpacked) :
    unpacked.entries = entries ∧
      entries.find? (fun entry => isManifestName entry.name) =
        some unpacked.manifest ∧
      entries.find? (fun entry => isSignatureName entry.name) =
        some unpacked.signature ∧
      payloadOf entries
        (payloadUriFromManifest (decodeText unpacked.manifest.bytes)) =
          some unpacked.payload := by
  unfold partsOf at h
  split at h
  next manifest signature hmanifest hsignature =>
    dsimp only at h
    split at h
    next => cases h
    next payload hpayload =>
      cases h
      exact ⟨rfl, hmanifest, hsignature, hpayload⟩
  next => cases h

/-- What is returned are the files that the central directory says, with the
one first that says what the container is. -/
theorem unpackAsicE_eq_ok {z : Zlib} {bytes : Bytes} {unpacked : UnpackedAsic}
    (h : unpackAsicE z bytes = .ok unpacked) :
    ∃ parsed, requireOnDiskMimetypeFirst bytes = .ok () ∧
      parseCentralEntries z bytes = .ok parsed ∧
      requireMimetypeFirst parsed = .ok unpacked.entries ∧
      partsOf unpacked.entries = .ok unpacked := by
  obtain ⟨⟨⟩, hdisk, h⟩ := bind_eq_ok.mp h
  obtain ⟨parsed, hparsed, h⟩ := bind_eq_ok.mp h
  obtain ⟨entries, hentries, h⟩ := bind_eq_ok.mp h
  obtain ⟨_, -, h⟩ := bind_eq_ok.mp h
  have hsame := (partsOf_eq_ok h).1
  subst hsame
  exact ⟨parsed, hdisk, hparsed, hentries, h⟩

end Shozee.Asic
