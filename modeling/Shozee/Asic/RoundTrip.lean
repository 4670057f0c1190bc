import Mathlib.Data.List.Nodup
import Shozee.Asic.Layout

/-!
# Unpacking what was packed

What is packed is unpacked with the file in front that says what the container
is, and the others in their order. Which of them the payload is, is read off
the first manifest, and a slash is taken off the address that it gives but not
off the names of the files. So the payload is the file that the address names
just when the address does not begin with a slash (`roundTrips_iff`).
-/

namespace Shozee.Asic

open Shozee.Run

variable {z : Zlib}

theorem ok_bind {α β : Type} (a : α) (f : α → Except Thrown β) :
    (Except.ok a >>= f) = f a := rfl

/-! ## The file in front

The bytes of a container begin with the local header that is asked for, and
this file is taken to the front. -/

theorem requireOnDiskMimetypeFirst_of_standsAt {bytes content : Bytes}
    (h : StandsAt bytes 0 (localFile z ⟨"mimetype", content⟩)) :
    requireOnDiskMimetypeFirst bytes = .ok () := by
  have hlength := h.length_le
  have hname : (encodeName "mimetype").length = 8 := by decide
  rw [length_localFile] at hlength
  dsimp only at hlength
  rw [localFile_eq] at h
  have hat : StandsAt bytes 30 (encodeName "mimetype") := by
    have hright := h.right.left
    rw [length_fieldBytes] at hright
    exact hright
  have hread : decodeName (subarray bytes 30 (30 + 8)) = "mimetype" := by
    have hpart : subarray bytes 30 (30 + 8) = encodeName "mimetype" := by
      have heq := hat.subarray_eq
      rw [hname] at heq
      exact heq
    rw [hpart]
    exact decodeText_encodeText (by decide)
  refine bind_eq_ok.mpr ⟨(), reject_of_not (by omega), ?_⟩
  refine bind_eq_ok.mpr ⟨_, readU32_eq_ok.mpr (h.field 0 rfl (by decide)), ?_⟩
  refine bind_eq_ok.mpr ⟨(), reject_of_not (not_not.mpr rfl), ?_⟩
  refine bind_eq_ok.mpr ⟨_, readU16_eq_ok.mpr (h.field 2 rfl (by decide)), ?_⟩
  refine bind_eq_ok.mpr ⟨_, readU16_eq_ok.mpr (h.field 3 rfl (by decide)), ?_⟩
  refine bind_eq_ok.mpr ⟨8, readU16_eq_ok.mpr (h.field 9 ?_ (by decide)), ?_⟩
  · exact congrArg (fun n => some (2, n)) hname
  refine bind_eq_ok.mpr ⟨_, readU16_eq_ok.mpr (h.field 10 rfl (by decide)), ?_⟩
  refine bind_eq_ok.mpr ⟨(), reject_of_not (by omega), ?_⟩
  refine bind_eq_ok.mpr ⟨(), reject_of_not (not_not.mpr hread), ?_⟩
  refine bind_eq_ok.mpr ⟨(), reject_of_not (not_not.mpr rfl), ?_⟩
  refine bind_eq_ok.mpr ⟨(), reject_of_not (not_not.mpr rfl), ?_⟩
  exact reject_of_not (not_not.mpr (Nat.zero_and 8))

theorem requireMimetypeFirst_of_split {front rest : List AsicEntry}
    {mimetype : AsicEntry} (hfront : ∀ entry ∈ front, entry.name ≠ "mimetype")
    (hname : mimetype.name = "mimetype")
    (hdeclared : decodeText mimetype.bytes = ASIC_E_MIMETYPE) :
    requireMimetypeFirst (front ++ mimetype :: rest) =
      .ok (mimetype :: (front ++ rest)) := by
  have hfind : (front ++ mimetype :: rest).find?
      (fun entry => entry.name = "mimetype") = some mimetype := by
    rw [List.find?_append, List.find?_eq_none.mpr fun entry hentry => by
      simpa using hfront entry hentry, Option.none_or,
      List.find?_cons_of_pos (by simpa using hname)]
  unfold requireMimetypeFirst
  rw [hfind]
  dsimp only
  rw [if_neg (not_not.mpr hdeclared), List.eraseP_append_right _
    fun entry hentry => by simpa using hfront entry hentry,
    List.eraseP_cons_of_pos (by simpa using hname)]

/-- Files laid out behind a local header of that name are unpacked to their
parts. -/
theorem unpackAsicE_layOut {first : AsicEntry}
    {files : List (String × AsicEntry)} {ordered : List AsicEntry}
    (hordered : requireMimetypeFirst (first :: files.map Prod.snd) = .ok ordered)
    (hfits : Fits (("mimetype", first) :: files)) :
    unpackAsicE z (layOut z (("mimetype", first) :: files)) =
      partsOf ordered := by
  have hstands : StandsAt (layOut z (("mimetype", first) :: files)) 0
      (localFile z ⟨"mimetype", first.bytes⟩) := by
    have hwhole : StandsAt (layOut z (("mimetype", first) :: files)) 0
        (localOf z ("mimetype", first) ++ files.flatMap (localOf z)) :=
      ⟨[], _, rfl, List.append_assoc _ _ _⟩
    exact hwhole.left
  have hdisk := requireOnDiskMimetypeFirst_of_standsAt hstands
  have hparsed : parseCentralEntries z _ = .ok (first :: files.map Prod.snd) :=
    parseCentralEntries_layOut hfits
  obtain ⟨front, mimetype, rest, -, hsplit, -, hname, -⟩ :=
    requireMimetypeFirst_eq_ok hordered
  have hhead : ¬ (ordered.head?.map AsicEntry.name ≠ some "mimetype") := by
    rw [hsplit, List.head?_cons, Option.map_some, hname]
    exact not_not.mpr rfl
  unfold unpackAsicE
  rw [hdisk, ok_bind, hparsed, ok_bind, hordered, ok_bind, reject_of_not hhead,
    ok_bind]

/-! ## What is packed

The writer's loop lays the files out under their own names. -/

/-- A file under its own name. -/
def own (entry : AsicEntry) : String × AsicEntry := (entry.name, entry)

theorem map_snd_own (entries : List AsicEntry) :
    (entries.map own).map Prod.snd = entries := by
  rw [List.map_map]
  exact List.map_id entries

theorem foldl_packEntry (entries : List AsicEntry) (packed : Packed) :
    (entries.foldl (packEntry z) packed).locals.flatten =
        packed.locals.flatten ++ (entries.map own).flatMap (localOf z) ∧
      (entries.foldl (packEntry z) packed).centrals.flatten =
        packed.centrals.flatten ++
          centralsFrom z packed.offset (entries.map own) ∧
      (entries.foldl (packEntry z) packed).offset =
        packed.offset + ((entries.map own).flatMap (localOf z)).length := by
  induction entries generalizing packed with
  | nil =>
      exact ⟨(List.append_nil _).symm, (List.append_nil _).symm, rfl⟩
  | cons entry entries ih =>
      obtain ⟨hlocals, hcentrals, hoffset⟩ := ih (packEntry z packed entry)
      have hlocal : localOf z (own entry) = localFile z entry := rfl
      rw [List.foldl_cons, List.map_cons, List.flatMap_cons, hlocal,
        centralsFrom, hlocal]
      refine ⟨?_, ?_, ?_⟩
      · rw [hlocals, packEntry, List.flatten_concat, List.append_assoc]
      · rw [hcentrals, packEntry, List.flatten_concat, List.append_assoc]
        rfl
      · rw [hoffset, packEntry, List.length_append, Nat.add_assoc]

theorem packAsicE_eq {entries ordered : List AsicEntry}
    (h : requireMimetypeFirst entries = .ok ordered) :
    packAsicE z entries = .ok (layOut z (ordered.map own)) := by
  obtain ⟨hlocals, hcentrals, hoffset⟩ :=
    @foldl_packEntry z ordered ⟨[], [], 0⟩
  rw [List.flatten_nil, List.nil_append] at hlocals hcentrals
  rw [Nat.zero_add] at hoffset
  refine bind_eq_ok.mpr ⟨ordered, h, ?_⟩
  refine congrArg Except.ok ?_
  rw [hlocals, hcentrals, hoffset, layOut, List.length_map]

/-! ## The order

One file comes to the front and the others stay in their order. -/

/-- The file in front that says what the container is, and the others as they
are. -/
def mimetypeFirst (entries : List AsicEntry) : List AsicEntry :=
  entries.filter (fun entry => entry.name = "mimetype") ++
    entries.filter (fun entry => entry.name ≠ "mimetype")

/-- Files that make a container. -/
structure Container (entries : List AsicEntry) : Prop where
  count : entries.length ≤ MAX_ASIC_ENTRIES
  distinct : (entries.map AsicEntry.name).Nodup
  writable : ∀ entry ∈ entries, Writable entry
  total : totalOf entries ≤ MAX_ASIC_TOTAL_UNCOMPRESSED_BYTES
  mimetype : ∃ entry ∈ entries, entry.name = "mimetype" ∧
    decodeText entry.bytes = ASIC_E_MIMETYPE
  signature : ∃ entry ∈ entries, isSignatureName entry.name

section Order

variable {entries : List AsicEntry}

theorem eq_of_name (h : (entries.map AsicEntry.name).Nodup)
    {a b : AsicEntry} (ha : a ∈ entries) (hb : b ∈ entries)
    (hname : a.name = b.name) : a = b :=
  List.inj_on_of_nodup_map h ha hb hname

/-- The list with its one file of that name taken to the front. -/
theorem split_of_container (h : Container entries) :
    ∃ front mimetype rest, entries = front ++ mimetype :: rest ∧
      mimetypeFirst entries = mimetype :: (front ++ rest) ∧
      requireMimetypeFirst entries = .ok (mimetype :: (front ++ rest)) ∧
      mimetype.name = "mimetype" ∧
      decodeText mimetype.bytes = ASIC_E_MIMETYPE := by
  obtain ⟨mimetype, hmem, hname, hdeclared⟩ := h.mimetype
  obtain ⟨front, rest, rfl⟩ := List.append_of_mem hmem
  have hdistinct := h.distinct
  rw [List.map_append, List.map_cons, List.nodup_append,
    List.nodup_cons] at hdistinct
  obtain ⟨-, ⟨hafter, -⟩, hbefore⟩ := hdistinct
  have hfront : ∀ entry ∈ front, entry.name ≠ "mimetype" := by
    intro entry hentry hsame
    exact hbefore _ (List.mem_map_of_mem hentry) _ List.mem_cons_self
      (hsame.trans hname.symm)
  have hrest : ∀ entry ∈ rest, entry.name ≠ "mimetype" := by
    intro entry hentry hsame
    refine hafter ?_
    rw [hname, ← hsame]
    exact List.mem_map_of_mem hentry
  have hothers : (front ++ mimetype :: rest).filter
      (fun entry => entry.name ≠ "mimetype") = front ++ rest := by
    rw [List.filter_append, List.filter_cons_of_neg (by simpa using hname),
      List.filter_eq_self.mpr fun entry hentry => by
        simpa using hfront entry hentry,
      List.filter_eq_self.mpr fun entry hentry => by
        simpa using hrest entry hentry]
  have hone : (front ++ mimetype :: rest).filter
      (fun entry => entry.name = "mimetype") = [mimetype] := by
    rw [List.filter_append, List.filter_cons_of_pos (by simpa using hname),
      List.filter_eq_nil_iff.mpr fun entry hentry => by
        simpa using hfront entry hentry,
      List.filter_eq_nil_iff.mpr fun entry hentry => by
        simpa using hrest entry hentry, List.nil_append]
  refine ⟨front, mimetype, rest, rfl, ?_, ?_, hname, hdeclared⟩
  · unfold mimetypeFirst
    rw [hone, hothers]
    rfl
  · exact requireMimetypeFirst_of_split hfront hname hdeclared

theorem perm_mimetypeFirst (h : Container entries) :
    (mimetypeFirst entries).Perm entries := by
  obtain ⟨front, mimetype, rest, rfl, hfirst, -⟩ := split_of_container h
  rw [hfirst]
  exact List.perm_middle.symm

/-- Taking the one file to the front changes no search that passes it over. -/
theorem find?_mimetypeFirst (h : Container entries) {p : AsicEntry → Bool}
    (hp : ∀ entry, entry.name = "mimetype" → p entry = false) :
    (mimetypeFirst entries).find? p = entries.find? p := by
  obtain ⟨front, mimetype, rest, rfl, hfirst, -, hname, -⟩ :=
    split_of_container h
  have hnot : ¬ p mimetype = true := by
    rw [hp mimetype hname]
    exact Bool.false_ne_true
  rw [hfirst, List.find?_cons_of_neg hnot, List.find?_append,
    List.find?_append, List.find?_cons_of_neg hnot]

theorem unpack_pack (h : Container entries) :
    (packAsicE z entries >>= unpackAsicE z) =
      partsOf (mimetypeFirst entries) := by
  obtain ⟨front, mimetype, rest, hentries, hfirst, hordered, hname, hdeclared⟩ :=
    split_of_container h
  have hperm := perm_mimetypeFirst h
  rw [hfirst] at hperm ⊢
  have hown : (mimetype :: (front ++ rest)).map own =
      ("mimetype", mimetype) :: (front ++ rest).map own := by
    rw [List.map_cons, own, hname]
  have hfits : Fits (("mimetype", mimetype) :: (front ++ rest).map own) := by
    rw [← hown]
    refine ⟨?_, ?_, ?_, ?_⟩
    · rw [List.length_map, hperm.length_eq]
      exact h.count
    · intro file hfile
      obtain ⟨entry, hentry, rfl⟩ := List.mem_map.mp hfile
      exact h.writable entry (hperm.mem_iff.mp hentry)
    · intro file hfile
      obtain ⟨entry, hentry, rfl⟩ := List.mem_map.mp hfile
      exact (h.writable entry (hperm.mem_iff.mp hentry)).name
    · rw [map_snd_own]
      have htotal := h.total
      unfold totalOf at htotal ⊢
      rw [(hperm.map _).sum_nat]
      exact htotal
  have hunpacked : unpackAsicE z
      (layOut z ((mimetype :: (front ++ rest)).map own)) = partsOf (mimetype :: (front ++ rest)) := by
    have hcons : requireMimetypeFirst
        (mimetype :: ((front ++ rest).map own).map Prod.snd) =
          .ok (mimetype :: (front ++ rest)) := by
      rw [map_snd_own]
      exact requireMimetypeFirst_of_split (fun _ hentry =>
        absurd hentry List.not_mem_nil) hname hdeclared
    rw [hown, unpackAsicE_layOut hcons hfits]
  rw [packAsicE_eq hordered, ← hunpacked]
  exact ok_bind _ _

end Order

/-! ## The round trip

Everything is unpacked as it was packed. Only the choice of the payload depends
on the address in the manifest. -/

/-- What is packed is unpacked in that order, with that payload. -/
def RoundTrips (z : Zlib) (entries : List AsicEntry) (named : AsicEntry) :
    Prop :=
  ∃ unpacked, (packAsicE z entries >>= unpackAsicE z) = .ok unpacked ∧
    unpacked.entries = mimetypeFirst entries ∧ unpacked.payload = named

/-- The first manifest leads to the file of that name: by the address that it
gives, one slash taken off, or, where it gives none, because the file is the
first outside. -/
def LeadsTo (entries : List AsicEntry) (name : String) : Prop :=
  ∃ manifest,
    entries.find? (fun entry => isManifestName entry.name) = some manifest ∧
      match payloadUri.exec (decodeText manifest.bytes).toList with
      | some uri => withoutSlash uri = name.toList
      | none => (entries.find? isOutside).map AsicEntry.name = some name

theorem isManifestName_fixed : isManifestName "mimetype" = false ∧
    isManifestName "META-INF/ASiCManifest1.xml" = true := by
  decide +kernel

theorem isManifestName_mimetype : isManifestName "mimetype" = false :=
  isManifestName_fixed.1

theorem payloadOf_eq_some_iff {entries : List AsicEntry} (h : Container entries)
    {named : AsicEntry} (hnamed : named ∈ entries) {xml : String} :
    payloadOf (mimetypeFirst entries) (payloadUriFromManifest xml) = some named ↔
      match payloadUri.exec xml.toList with
      | some uri => withoutSlash uri = named.name.toList
      | none => (entries.find? isOutside).map AsicEntry.name =
          some named.name := by
  unfold payloadUriFromManifest
  cases payloadUri.exec xml.toList with
  | some uri =>
      rw [Option.map_some]
      unfold payloadOf
      dsimp only
      constructor
      · intro hfind
        have hname : named.name = String.ofList (withoutSlash uri) := by
          simpa using List.find?_some hfind
        rw [hname, String.toList_ofList]
      · intro huri
        rw [huri, String.ofList_toList]
        have hmem := (perm_mimetypeFirst h).mem_iff.mpr hnamed
        cases hfind : (mimetypeFirst entries).find?
            (fun entry => entry.name = named.name) with
        | none =>
            have hnone := List.find?_eq_none.mp hfind named hmem
            exact absurd (decide_eq_true rfl) hnone
        | some entry =>
            have hname : entry.name = named.name := by
              simpa using List.find?_some hfind
            have hentry := (perm_mimetypeFirst h).mem_iff.mp
              (List.mem_of_find?_eq_some hfind)
            rw [eq_of_name h.distinct hentry hnamed hname]
  | none =>
      rw [Option.map_none]
      unfold payloadOf
      dsimp only
      rw [find?_mimetypeFirst h fun entry hentry => by simp [isOutside, hentry]]
      constructor
      · intro hfind
        rw [hfind]
        rfl
      · intro hfind
        obtain ⟨entry, hentry, hname⟩ := Option.map_eq_some_iff.mp hfind
        rw [hentry, eq_of_name h.distinct (List.mem_of_find?_eq_some hentry)
          hnamed hname]

theorem find?_isSome_of_mem {p : AsicEntry → Bool} {entries : List AsicEntry}
    {entry : AsicEntry} (hmem : entry ∈ entries) (hp : p entry) :
    ∃ found, entries.find? p = some found :=
  Option.isSome_iff_exists.mp (List.find?_isSome.mpr ⟨entry, hmem, hp⟩)

theorem roundTrips_iff_payload {entries : List AsicEntry}
    (h : Container entries) {manifest named : AsicEntry}
    (hmanifest : entries.find? (fun entry => isManifestName entry.name) =
      some manifest) :
    RoundTrips z entries named ↔
      payloadOf (mimetypeFirst entries)
        (payloadUriFromManifest (decodeText manifest.bytes)) = some named := by
  obtain ⟨entry, hentry, hsignature⟩ := h.signature
  obtain ⟨signature, hfound⟩ := find?_isSome_of_mem
    (p := fun entry => isSignatureName entry.name)
    ((perm_mimetypeFirst h).mem_iff.mpr hentry) hsignature
  have hmanifest' : (mimetypeFirst entries).find?
      (fun entry => isManifestName entry.name) = some manifest := by
    rw [find?_mimetypeFirst h fun entry hname => by
      rw [hname, isManifestName_mimetype]]
    exact hmanifest
  unfold RoundTrips
  rw [unpack_pack h, partsOf, hmanifest', hfound]
  dsimp only
  cases payloadOf (mimetypeFirst entries)
      (payloadUriFromManifest (decodeText manifest.bytes)) with
  | none => simp
  | some payload => simp

/-- What is packed is unpacked in its order, and its payload is the file that
the address in a manifest names, exactly if the first manifest leads to it. In
a container whose first manifest that is, it does exactly if the address does
not begin with a slash. -/
theorem roundTrips_iff (z : Zlib) {entries : List AsicEntry}
    (h : Container entries) {manifest named : AsicEntry} {uri : List Char}
    (hmem : manifest ∈ entries) (hmanifest : isManifestName manifest.name)
    (huri : payloadUri.exec (decodeText manifest.bytes).toList = some uri)
    (hnamed : named ∈ entries) (hname : named.name.toList = uri) :
    (RoundTrips z entries named ↔ LeadsTo entries named.name) ∧
      (entries.find? (fun entry => isManifestName entry.name) = some manifest →
        (RoundTrips z entries named ↔ uri.head? ≠ some '/')) := by
  have hleads : ∀ {first}, entries.find?
      (fun entry => isManifestName entry.name) = some first →
      (RoundTrips z entries named ↔
        match payloadUri.exec (decodeText first.bytes).toList with
        | some uri => withoutSlash uri = named.name.toList
        | none => (entries.find? isOutside).map AsicEntry.name =
            some named.name) :=
    fun hfirst => (roundTrips_iff_payload h hfirst).trans
      (payloadOf_eq_some_iff h hnamed)
  refine ⟨?_, fun hfirst => ?_⟩
  · obtain ⟨first, hfirst⟩ := find?_isSome_of_mem
      (p := fun entry => isManifestName entry.name) hmem hmanifest
    rw [hleads hfirst]
    constructor
    · exact fun hpayload => ⟨first, hfirst, hpayload⟩
    · rintro ⟨other, hother, hpayload⟩
      rw [hfirst, Option.some.injEq] at hother
      rw [hother]
      exact hpayload
  · rw [hleads hfirst, huri]
    dsimp only
    rw [hname]
    unfold withoutSlash
    split
    next rest => simp
    next hnot =>
      refine iff_of_true rfl fun hhead => ?_
      cases uri with
      | nil => cases hhead
      | cons c rest => exact hnot rest (by rw [Option.some.inj hhead])

/-- The checksum of the archive format. -/
def crc32 (bytes : Bytes) : UInt32 :=
  let bit := fun crc : UInt32 =>
    if crc &&& 1 = 1 then (crc >>> 1) ^^^ 0xedb88320 else crc >>> 1
  bytes.foldl (fun crc byte =>
    (List.range 8).foldl (fun crc _ => bit crc) (crc ^^^ byte.toUInt32))
    0xffffffff ^^^ 0xffffffff

/-- The runtime, where nothing is compressed. -/
def storing : Zlib where
  crc32 := crc32
  inflateRawSync _ _ := .error ⟨false, "invalid stored block lengths"⟩

/-- A manifest with one reference. -/
def manifestOf (uri : String) : AsicEntry :=
  ⟨"META-INF/ASiCManifest1.xml",
    encodeText ("<asic:DataObjectReference URI=\"" ++ uri ++ "\"/>")⟩

/-- A container whose payload has a name. -/
def containerOf (name : String) : List AsicEntry :=
  [⟨"mimetype", encodeText ASIC_E_MIMETYPE⟩, manifestOf name,
    ⟨"META-INF/signature1.p7s", [0x30, 0x00]⟩, ⟨name, [0x68, 0x69]⟩]

theorem containers_fit : ∀ name ∈ ["a", "/a"],
    ((containerOf name).map AsicEntry.name).Nodup ∧
      (∀ entry ∈ containerOf name, (encodeName entry.name).length ≤ 65535 ∧
        ¬ MarkFirst entry.name ∧
        entry.bytes.length ≤ MAX_ASIC_ENTRY_UNCOMPRESSED_BYTES) ∧
      totalOf (containerOf name) ≤ MAX_ASIC_TOTAL_UNCOMPRESSED_BYTES ∧
      isSignatureName "META-INF/signature1.p7s" = true ∧
      ¬ MarkFirst ("<asic:DataObjectReference URI=\"" ++ name ++ "\"/>") ∧
      payloadUri.exec
        ("<asic:DataObjectReference URI=\"" ++ name ++ "\"/>").toList =
          some name.toList := by
  decide +kernel

theorem container_containerOf {name : String} (hname : name ∈ ["a", "/a"]) :
    Container (containerOf name) where
  count := Nat.le_of_ble_eq_true rfl
  distinct := (containers_fit name hname).1
  writable entry hentry := by
    obtain ⟨hlength, hmark, hsize⟩ := (containers_fit name hname).2.1 entry hentry
    exact ⟨hlength, hmark, hsize⟩
  total := (containers_fit name hname).2.2.1
  mimetype := ⟨_, List.mem_cons_self, rfl, decodeText_encodeText (by decide)⟩
  signature := ⟨⟨"META-INF/signature1.p7s", [0x30, 0x00]⟩,
    List.mem_cons_of_mem _ (List.mem_cons_of_mem _ List.mem_cons_self),
    (containers_fit name hname).2.2.2.1⟩

theorem container_plain : Container (containerOf "a") :=
  container_containerOf List.mem_cons_self

theorem container_slashed : Container (containerOf "/a") :=
  container_containerOf (List.mem_cons_of_mem _ (List.mem_singleton_self _))

theorem isManifestName_manifestOf (name : String) :
    isManifestName (manifestOf name).name = true :=
  isManifestName_fixed.2

theorem find?_manifest (name : String) :
    (containerOf name).find? (fun entry => isManifestName entry.name) =
      some (manifestOf name) := by
  unfold containerOf
  rw [List.find?_cons_of_neg (by simp [isManifestName_mimetype])]
  exact List.find?_cons_of_pos (isManifestName_manifestOf name)

theorem exec_manifestOf {name : String} (hname : name ∈ ["a", "/a"]) :
    payloadUri.exec (decodeText (manifestOf name).bytes).toList =
      some name.toList := by
  obtain ⟨-, -, -, -, hmark, huri⟩ := containers_fit name hname
  unfold manifestOf
  rw [decodeText_encodeText hmark]
  exact huri

theorem roundTrips_iff_plain :
    RoundTrips storing (containerOf "a") ⟨"a", [0x68, 0x69]⟩ := by
  have huri : payloadUri.exec (decodeText (manifestOf "a").bytes).toList =
      some ['a'] := exec_manifestOf List.mem_cons_self
  have hiff := roundTrips_iff storing container_plain
    (List.mem_cons_of_mem _ List.mem_cons_self)
    (isManifestName_manifestOf "a") huri
    (List.mem_cons_of_mem _ (List.mem_cons_of_mem _ (List.mem_cons_of_mem _
      List.mem_cons_self))) (by decide)
  exact (hiff.2 (find?_manifest "a")).mpr (by decide)

/-- A file whose name begins with a slash is not found again. -/
theorem not_roundTrips_slashed :
    Container (containerOf "/a") ∧ isManifestName (manifestOf "/a").name ∧
      payloadUri.exec (decodeText (manifestOf "/a").bytes).toList =
        some ['/', 'a'] ∧
      ¬ RoundTrips storing (containerOf "/a") ⟨"/a", [0x68, 0x69]⟩ := by
  have huri : payloadUri.exec (decodeText (manifestOf "/a").bytes).toList =
      some ['/', 'a'] :=
    exec_manifestOf (List.mem_cons_of_mem _ (List.mem_singleton_self _))
  refine ⟨container_slashed, isManifestName_manifestOf "/a", huri, ?_⟩
  rw [roundTrips_iff_payload container_slashed (find?_manifest "/a"),
    payloadOf_eq_some_iff container_slashed (List.mem_cons_of_mem _
      (List.mem_cons_of_mem _ (List.mem_cons_of_mem _ List.mem_cons_self))),
    huri]
  decide

end Shozee.Asic
