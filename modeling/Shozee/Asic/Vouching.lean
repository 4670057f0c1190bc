import Mathlib.Data.List.Sublists
import Shozee.Asic.Reading
import Shozee.Asic.Verify

/-!
# What a verified container vouches for

Whatever the bytes are, what is unpacked is what the central directory says
(`checked_of_unpackAsicE`). A container is verified only if, in the very bytes
of the manifest that the signature is one of, the first block that names the
payload says the digest of the very payload whose hash is returned
(`verifyAsicE_eq_ok`). A name is one of the payload up to the slash that it may
begin with.

A block is what a pattern takes for a reference: from an opening tag to the
closing tag that comes next. Where the opening tag closes itself, this is the
closing tag of another reference, and the digest is what the other one states.
So the container is dealt with as it should be exactly if the block is a
reference, or else a reference says the same (`upholds_iff`).
-/

namespace Shozee.Asic

open Shozee.Run

/-! ## What is unpacked

The checks that an unpacked container has passed. -/

/-- Few entries of bounded sizes, which are the files of the central
directory. -/
structure Checked (z : Zlib) (bytes : Bytes) (unpacked : UnpackedAsic) :
    Prop where
  count : unpacked.entries.length ≤ MAX_ASIC_ENTRIES
  each : ∀ entry ∈ unpacked.entries,
    entry.bytes.length ≤ MAX_ASIC_ENTRY_UNCOMPRESSED_BYTES
  total : totalOf unpacked.entries ≤ MAX_ASIC_TOTAL_UNCOMPRESSED_BYTES
  directory : ∃ records parsed, CentralDirectory bytes records ∧
    List.Forall₂ (FileOf z bytes) records parsed ∧
    unpacked.entries.Perm parsed

theorem checked_of_unpackAsicE {z : Zlib} {bytes : Bytes}
    {unpacked : UnpackedAsic} (h : unpackAsicE z bytes = .ok unpacked) :
    Checked z bytes unpacked := by
  obtain ⟨parsed, -, hparsed, hentries, -⟩ := unpackAsicE_eq_ok h
  obtain ⟨hcount, htotal, records, hdirectory, hfiles⟩ :=
    parseCentralEntries_eq_ok hparsed
  have hperm := perm_of_requireMimetypeFirst hentries
  refine ⟨hperm.length_eq ▸ hcount, ?_, ?_, records, parsed, hdirectory,
    hfiles, hperm⟩
  · intro entry hentry
    obtain ⟨i, hi, rfl⟩ := List.getElem_of_mem (hperm.mem_iff.mp hentry)
    have hi' : i < records.length := hfiles.length_eq ▸ hi
    have hfile := hfiles.get hi' hi
    exact hfile.size ▸ hfile.budget
  · unfold totalOf at htotal ⊢
    rw [(hperm.map _).sum_nat]
    exact htotal

/-! ## What the manifest states

What a reference is, told without the patterns of the code: a tag with
attributes, a body, and an end that the body has not. -/

/-- White space between attributes. -/
def isBlank (c : Char) : Bool := c ∈ [' ', '\t', '\r', '\n']

/-- The attributes of a tag, each with its name and its value in quotes. -/
inductive HasAttributes : List Char → List (List Char × List Char) → Prop
  | nil {space : List Char} (hspace : ∀ c ∈ space, isBlank c) :
      HasAttributes space []
  | cons {space name gap gap' value rest : List Char} {quote : Char}
      {more : List (List Char × List Char)}
      (hspace : space ≠ [] ∧ ∀ c ∈ space, isBlank c)
      (hname : name ≠ [] ∧
        ∀ c ∈ name, ¬ isBlank c ∧ c ∉ ['=', '"', '\'', '/', '<', '>'])
      (hgap : ∀ c ∈ gap ++ gap', isBlank c)
      (hquote : quote = '"' ∨ quote = '\'')
      (hvalue : quote ∉ value ∧ '<' ∉ value)
      (hrest : HasAttributes rest more) :
      HasAttributes (space ++ (name ++ (gap ++ '=' :: (gap' ++
        quote :: (value ++ quote :: rest))))) ((name, value) :: more)

/-- The tag of a reference opens in the text. -/
def HasOpening (text : List Char) : Prop :=
  ∃ front opening back, text = front ++ (opening ++ back) ∧
    Pattern.Alike opening "<asic:DataObjectReference".toList ∧
    ¬ back.head?.any Pattern.isWord

/-- A reference is closed in the text. -/
def HasClosing (text : List Char) : Prop :=
  ∃ front closing back, text = front ++ (closing ++ back) ∧
    Pattern.Alike closing "</asic:DataObjectReference>".toList

/-- In the text stands a reference with these attributes and this body: its tag
does not close itself, and up to its closing tag no reference is opened or
closed. -/
def HasReference (xml : List Char) (attributes : List (List Char × List Char))
    (body : List Char) : Prop :=
  ∃ front opening attrs sign closing back,
    xml = front ++ (opening ++ (attrs ++ (sign ++ (body ++ (closing ++ back))))) ∧
      Pattern.Alike opening "<asic:DataObjectReference".toList ∧
      HasAttributes attrs attributes ∧ Pattern.Alike sign ">".toList ∧
      Pattern.Alike closing "</asic:DataObjectReference>".toList ∧
      ¬ HasOpening body ∧ ¬ HasClosing body

/-- The address among the attributes is that of the payload. -/
def Names (payloadName : String) (attributes : List (List Char × List Char)) :
    Prop :=
  ∃ name uri, (name, uri) ∈ attributes ∧ Pattern.Alike name "URI".toList ∧
    withoutSlash uri = withoutSlash payloadName.toList

/-- In the body stands this digest, of this algorithm. -/
def Says (p : Platform) (body : List Char) (hashAlgo : String)
    (digest : Bytes) : Prop :=
  ∃ method value, digestMethod.exec body = some method ∧
    digestValue.exec body = some value ∧ withoutSpace value ≠ [] ∧
    hashOidFromDigestUri (String.ofList method) = .ok hashAlgo ∧
    p.base64ToUint8 (String.ofList (withoutSpace value)) = some digest

/-- In the text stands a reference that names the payload and states this
digest for it, of this algorithm. -/
def States (p : Platform) (xml payloadName hashAlgo : String)
    (digest : Bytes) : Prop :=
  ∃ attributes body, HasReference xml.toList attributes body ∧
    Names payloadName attributes ∧ Says p body hashAlgo digest

/-- The first of the blocks that the code takes for a reference and that names
the payload to it. -/
def firstBlock (xml payloadName : String) : Option (List Char × List Char) :=
  (dataObjectReference.matchAll xml.toList).find? (namesPayload payloadName)

/-- The block is a reference of the payload: its tag has the address among its
attributes and does not close itself, and no other reference opens in it. -/
def IsReference (payloadName : String) (block : List Char × List Char) : Prop :=
  (∃ attributes, HasAttributes block.1 attributes ∧
    Names payloadName attributes) ∧ ¬ HasOpening block.2

/-- What a block is, and where it stands. It ends at the first closing tag. -/
theorem block_of_mem {xml : List Char} {block : List Char × List Char}
    (h : block ∈ dataObjectReference.matchAll xml) :
    ∃ front opening sign closing back,
      xml = front ++ (opening ++ (block.1 ++ (sign ++
        (block.2 ++ (closing ++ back))))) ∧
      Pattern.Alike opening "<asic:DataObjectReference".toList ∧
      Pattern.Alike sign ">".toList ∧
      Pattern.Alike closing "</asic:DataObjectReference>".toList ∧
      ¬ HasClosing block.2 := by
  obtain ⟨front, x, y, hfront, hmatch⟩ := Pattern.first_of_matchAll h
  obtain ⟨_, _, x₁, _, hword, -, hmatch⟩ := Pattern.head_bind hmatch
  obtain ⟨_, _, x₂, _, hboundary, -, hmatch⟩ := Pattern.head_bind hmatch
  obtain ⟨_, attrs, x₃, _, hattrs, -, hmatch⟩ := Pattern.head_bind hmatch
  obtain ⟨_, _, x₄, _, hend, -, hmatch⟩ := Pattern.head_bind hmatch
  obtain ⟨earlier, body, x₅, later, hbody, hnone, hmatch⟩ :=
    Pattern.head_bind hmatch
  obtain ⟨_, _, x₆, _, hclosing, -, hmatch⟩ := Pattern.head_bind hmatch
  obtain ⟨rfl, rfl⟩ := Pattern.mem_pure.mp (List.mem_of_head? hmatch)
  obtain ⟨opening, hopening, hto₁⟩ :=
    Pattern.mem_literal (hword ▸ List.mem_append_right _ List.mem_cons_self)
  obtain rfl := Pattern.mem_boundary
    (hboundary ▸ List.mem_append_right _ List.mem_cons_self)
  obtain ⟨-, hto₂⟩ :=
    Pattern.mem_many (hattrs ▸ List.mem_append_right _ List.mem_cons_self)
  obtain ⟨sign, hsign, hto₃⟩ :=
    Pattern.mem_literal (hend ▸ List.mem_append_right _ List.mem_cons_self)
  obtain ⟨-, hto₄⟩ :=
    Pattern.mem_manyLazy (hbody ▸ List.mem_append_right _ List.mem_cons_self)
  obtain ⟨closing, hclosing, hto₅⟩ :=
    Pattern.mem_literal (hclosing ▸ List.mem_append_right _ List.mem_cons_self)
  refine ⟨front, opening, sign, closing, y.rest, ?_, hopening, hsign, hclosing,
    ?_⟩
  · rw [← hto₅.1, ← hto₄.1, ← hto₃.1, ← hto₂.1, ← hto₁.1]
    exact hfront.1
  · rintro ⟨before, word, back, hsplit, halike⟩
    dsimp only at hsplit
    have hne : word ++ back ≠ [] := by
      intro hnil
      rw [(List.append_eq_nil_iff.mp hnil).1] at halike
      exact absurd halike.symm (by decide)
    rw [hsplit] at hbody
    obtain ⟨z, hz, hsteps⟩ := Pattern.mem_earlier hne hbody
    -- the body would have ended where it is closed
    have hrest : z.rest = word ++ (back ++ x₅.rest) := by
      have hboth := hsteps.1.symm.trans hto₄.1
      rw [hsplit, List.append_assoc, List.append_assoc] at hboth
      exact List.append_cancel_left hboth
    have hway := Pattern.literal_of_alike halike (back ++ x₅.rest) z.before
    rw [← hrest] at hway
    have hempty := hnone _ hz
    have hmem : ((attrs, before), (⟨word.reverse ++ z.before,
        back ++ x₅.rest⟩ : Place)) ∈ (do
          Pattern.literal "</asic:DataObjectReference>"
          return (attrs, before) : Pattern (List Char × List Char)) z :=
      Pattern.mem_bind.mpr ⟨_, _, hway, Pattern.mem_pure.mpr ⟨rfl, rfl⟩⟩
    rw [hempty] at hmem
    exact absurd hmem List.not_mem_nil

theorem states_of_reference {p : Platform} {xml payloadName hashAlgo : String}
    {block : List Char × List Char} {digest : Bytes}
    (hblock : firstBlock xml payloadName = some block)
    (hreference : IsReference payloadName block)
    (hsaid : Says p block.2 hashAlgo digest) :
    States p xml payloadName hashAlgo digest := by
  obtain ⟨⟨attributes, hattributes, hnames⟩, hopening⟩ := hreference
  obtain ⟨front, opening, sign, closing, back, htext, hword, hsign, hend,
    hclosing⟩ := block_of_mem (List.mem_of_find?_eq_some hblock)
  exact ⟨attributes, block.2, ⟨front, opening, block.1, sign, closing, back,
    htext, hword, hattributes, hsign, hend, hopening, hclosing⟩, hnames, hsaid⟩

/-- The bodies of a text are finitely many, and so are the digests that it
states: a longer one is not among them. -/
theorem exists_unstated (p : Platform) (xml payloadName : String) :
    ∃ other : Bytes, ∀ hashAlgo,
      ¬ States p xml payloadName hashAlgo other := by
  generalize hstated : (xml.toList.sublists.filterMap fun body =>
    (digestValue.exec body).bind fun value =>
      p.base64ToUint8 (String.ofList (withoutSpace value))) = stated
  refine ⟨0 :: stated.flatten, ?_⟩
  rintro hashAlgo ⟨attributes, body, ⟨front, opening, attrs, sign, closing,
    back, htext, -⟩, -, method, value, -, hvalue, -, -, hdigest⟩
  have hinfix : body <:+: xml.toList :=
    ⟨front ++ (opening ++ (attrs ++ sign)), closing ++ back, by
      rw [htext]
      simp only [List.append_assoc]⟩
  have hmem : 0 :: stated.flatten ∈ stated := by
    rw [← hstated]
    refine List.mem_filterMap.mpr
      ⟨body, List.mem_sublists.mpr hinfix.sublist, ?_⟩
    rw [hvalue, Option.bind_some, hstated, hdigest]
  exact absurd (List.sublist_flatten_of_mem hmem).length_le
    (Nat.not_succ_le_self _)

/-! ## What is verified

The verification, inverted. What is returned was asked of the engine, with
these very bytes. -/

section Verification

variable {p : Platform} {σ : Type} {engine : Engine p σ}

theorem asking_bind {α β : Type} (x : Asking σ α) (f : α → Asking σ β)
    (s : σ) :
    (x >>= f) s = match x s with
      | (.ok a, s') => f a s'
      | (.error e, s') => (.error e, s') := rfl

theorem asking_eq_ok {α β : Type} {x : Asking σ α} {f : α → Asking σ β}
    {s t : σ} {b : β} (h : (x >>= f) s = (.ok b, t)) :
    ∃ a s', x s = (.ok a, s') ∧ f a s' = (.ok b, t) := by
  rw [asking_bind] at h
  split at h
  next a s' hx => exact ⟨a, s', hx, h⟩
  next => cases h

theorem without_eq_ok {α : Type} {x : Except Thrown α} {s t : σ} {a : α}
    (h : without x s = (.ok a, t)) : x = .ok a ∧ t = s := by
  obtain ⟨hx, hs⟩ := Prod.mk.inj h
  exact ⟨hx, hs.symm⟩

theorem without_bind {α β : Type} {x : Except Thrown α} {f : α → Asking σ β}
    {s t : σ} {b : β} (h : (without x >>= f) s = (.ok b, t)) :
    ∃ a, x = .ok a ∧ f a s = (.ok b, t) := by
  obtain ⟨a, s', hwithout, hf⟩ := asking_eq_ok h
  obtain ⟨hx, rfl⟩ := without_eq_ok hwithout
  exact ⟨a, hx, hf⟩

theorem without_ok {α β : Type} {x : Except Thrown α} {f : α → Asking σ β}
    {s : σ} {a : α} (h : x = .ok a) : (without x >>= f) s = f a s := by
  rw [h]
  rfl

theorem call_bind {β : Type} (request : Request)
    (f : UapkiResponse → Asking σ β) (s : σ) :
    (call engine request >>= f) s =
      f (engine.process s request).2 (engine.process s request).1 := rfl

theorem resultIn_eq_ok {name : String} {response : UapkiResponse}
    {result : Option Value} (h : resultIn name response = .ok result) :
    response.errorCode = 0 ∧ response.result = result := by
  unfold resultIn at h
  split at h
  next => cases h
  next hzero =>
    cases h
    exact ⟨not_not.mp hzero, rfl⟩

theorem requireValid_eq_ok {info : Option SignatureInfo} {first : SignatureInfo}
    (h : requireValid info = .ok first) : info = some first ∧ isValid first := by
  unfold requireValid at h
  split at h
  next => cases h
  next first' =>
    split at h
    · cases h
    next hsignature =>
      split at h
      · cases h
      next hdigest =>
        cases h
        exact ⟨rfl, not_not.mp hsignature, not_not.mp hdigest⟩

theorem payloadManifestDigest_eq_ok_iff {xml payloadName : String}
    {declared : ManifestDigest} :
    payloadManifestDigest xml payloadName = .ok declared ↔
      ∃ block method value, firstBlock xml payloadName = some block ∧
        digestMethod.exec block.2 = some method ∧
        digestValue.exec block.2 = some value ∧ withoutSpace value ≠ [] ∧
        declared =
          ⟨String.ofList method, String.ofList (withoutSpace value)⟩ := by
  have hfirst : (dataObjectReference.matchAll xml.toList).find?
      (namesPayload payloadName) = firstBlock xml payloadName := rfl
  unfold payloadManifestDigest
  dsimp only
  rw [hfirst]
  constructor
  · intro h
    split at h
    next => cases h
    next block hblock =>
      split at h
      next method value hmethod hvalue =>
        split at h
        · cases h
        next hne =>
          cases h
          exact ⟨block, method, value, hblock, hmethod, hvalue, hne, rfl⟩
      next => cases h
  · rintro ⟨block, method, value, hblock, hmethod, hvalue, hne, rfl⟩
    rw [hblock]
    dsimp only
    rw [hmethod, hvalue]
    dsimp only
    rw [if_neg hne]

theorem requireEqualDigest_eq_ok {declared : ManifestDigest}
    {actualB64 : Option String} {u : Unit}
    (h : requireEqualDigest p declared actualB64 = .ok u) :
    ∃ actual digest, actualB64 = some actual ∧
      p.base64ToUint8 actual = some digest ∧
      p.base64ToUint8 declared.digestB64 = some digest := by
  unfold requireEqualDigest at h
  split at h
  next => cases h
  next actual =>
    split at h
    next hequal =>
      unfold digestB64Equal at hequal
      split at hequal
      next left right hleft hright =>
        rw [of_decide_eq_true hequal] at hleft
        exact ⟨actual, right, rfl, hright, hleft⟩
      next => cases hequal
    next => cases h

/-- The signature is one of the manifest, and the manifest states the digest
of the payload whose hash is the result. -/
def Vouched (engine : Engine p σ) (bytes : Bytes) (result : AsicVerifyResult) :
    Prop :=
  ∃ unpacked, unpackAsicE p.zlib bytes = .ok unpacked ∧
    result.payloadSha256 = p.sha256Hex unpacked.payload.bytes ∧
    engine.Signs unpacked.signature.bytes unpacked.manifest.bytes ∧
    ∃ hashAlgo, States p (decodeText unpacked.manifest.bytes)
      unpacked.payload.name hashAlgo
      (engine.digestOf hashAlgo unpacked.payload.bytes)

/-- The digest of the payload is what the first block says of it. -/
theorem says_of_requireManifestPayloadDigest {unpacked : UnpackedAsic}
    {s t : σ} {u : Unit}
    (h : requireManifestPayloadDigest engine unpacked s = (.ok u, t)) :
    ∃ block hashAlgo, firstBlock (decodeText unpacked.manifest.bytes)
        unpacked.payload.name = some block ∧
      Says p block.2 hashAlgo
        (engine.digestOf hashAlgo unpacked.payload.bytes) := by
  obtain ⟨declared, hdeclared, hasked⟩ := without_bind h
  obtain ⟨hashAlgo, hhash, hasked⟩ := without_bind hasked
  obtain ⟨result, hresult, hasked⟩ :=
    without_bind ((call_bind _ _ _).symm.trans hasked)
  obtain ⟨actualB64, hactual, hasked⟩ := without_bind hasked
  obtain ⟨hzero, hanswer⟩ := resultIn_eq_ok hresult
  obtain ⟨actual, digest, hsome, hright, hleft⟩ :=
    requireEqualDigest_eq_ok (without_eq_ok hasked).1
  rw [← hanswer, hsome] at hactual
  have hdigest := engine.digest_digests _ _ _ actual hzero hactual
  rw [hright] at hdigest
  rw [Option.some.inj hdigest] at hleft
  obtain ⟨block, method, value, hblock, hmethod, hvalue, hne, rfl⟩ :=
    payloadManifestDigest_eq_ok_iff.mp hdeclared
  exact ⟨block, hashAlgo, hblock, method, value, hmethod, hvalue, hne, hhash,
    hleft⟩

/-- What is verified has a valid signature, and the digest that the first block
says. -/
theorem verifyAsicE_eq_ok {isoNow : String} {bytes : Bytes} {s t : σ}
    {result : AsicVerifyResult}
    (h : verifyAsicE engine isoNow bytes s = (.ok result, t)) :
    ∃ unpacked, unpackAsicE p.zlib bytes = .ok unpacked ∧
      result.payloadSha256 = p.sha256Hex unpacked.payload.bytes ∧
      engine.Signs unpacked.signature.bytes unpacked.manifest.bytes ∧
      ∃ block hashAlgo, firstBlock (decodeText unpacked.manifest.bytes)
          unpacked.payload.name = some block ∧
        Says p block.2 hashAlgo
          (engine.digestOf hashAlgo unpacked.payload.bytes) := by
  obtain ⟨unpacked, hunpacked, hasked⟩ := without_bind h
  obtain ⟨answer, hanswer, hasked⟩ :=
    without_bind ((call_bind _ _ _).symm.trans hasked)
  obtain ⟨info, hinfo, hasked⟩ := without_bind hasked
  obtain ⟨first, hfirst, hasked⟩ := without_bind hasked
  obtain ⟨_, _, hdigest, hasked⟩ := asking_eq_ok hasked
  obtain ⟨certResult, _, -, hasked⟩ := asking_eq_ok hasked
  obtain ⟨hzero, hsame⟩ := resultIn_eq_ok hanswer
  obtain ⟨hsome, hvalid⟩ := requireValid_eq_ok hfirst
  obtain ⟨hresult, -⟩ := Prod.mk.inj hasked
  rw [← hsame, hsome] at hinfo
  refine ⟨unpacked, hunpacked, ?_, ?_, ?_⟩
  · rw [← Except.ok.inj hresult]
    rfl
  · exact engine.verify_signs s _ _ first hzero hinfo hvalid
  · exact says_of_requireManifestPayloadDigest hdigest

end Verification

/-! ## An engine that answers

An engine for which the verification succeeds whenever the first block has a
digest that it agrees with. -/

section Answering

variable {p : Platform}

/-- An engine that calls every signature valid, and knows a digest of one
algorithm. -/
def answering (p : Platform) (hashAlgo text : String) (digest other : Bytes)
    (hdecodes : p.base64ToUint8 text = some digest) : Engine p Unit where
  process _ request := ((), match request with
    | .verify _ _ => ⟨0, none, some (.record [("signatureInfos",
        .list [.record [("statusSignature", .text "VALID"),
          ("statusMessageDigest", .text "VALID")]])])⟩
    | .digest algo _ =>
        if algo = hashAlgo then ⟨0, none, some (.record [("bytes", .text text)])⟩
        else ⟨1, none, none⟩
    | _ => ⟨1, none, none⟩)
  Signs _ _ := True
  digestOf algo _ := if algo = hashAlgo then digest else other
  verify_signs _ _ _ _ _ _ _ := trivial
  digest_digests := by
    intro _ algo bytes answered hzero hanswered
    dsimp only at hzero hanswered
    by_cases halgo : algo = hashAlgo
    · rw [if_pos halgo] at hanswered ⊢
      cases hanswered
      exact hdecodes
    · rw [if_neg halgo] at hzero
      exact absurd hzero (by decide)

/-- What the first block says is enough for the engine that answers it. -/
theorem verifyAsicE_answering (isoNow : String) {bytes : Bytes}
    {unpacked : UnpackedAsic}
    (hunpacked : unpackAsicE p.zlib bytes = .ok unpacked)
    {block : List Char × List Char}
    (hblock : firstBlock (decodeText unpacked.manifest.bytes)
      unpacked.payload.name = some block) {method value : List Char}
    (hmethod : digestMethod.exec block.2 = some method)
    (hvalue : digestValue.exec block.2 = some value)
    (hne : withoutSpace value ≠ []) {hashAlgo : String}
    (hhash : hashOidFromDigestUri (String.ofList method) = .ok hashAlgo)
    {digest : Bytes} (other : Bytes)
    (hdecodes : p.base64ToUint8 (String.ofList (withoutSpace value)) =
      some digest) :
    ∃ result, verifyAsicE (answering p hashAlgo
      (String.ofList (withoutSpace value)) digest other hdecodes) isoNow bytes
        () = (.ok result, ()) := by
  have hdeclared := payloadManifestDigest_eq_ok_iff.mpr
    ⟨block, method, value, hblock, hmethod, hvalue, hne, rfl⟩
  have hequal : requireEqualDigest p ⟨String.ofList method,
      String.ofList (withoutSpace value)⟩
        (some (String.ofList (withoutSpace value))) = .ok () := by
    unfold requireEqualDigest digestB64Equal
    dsimp only
    rw [hdecodes]
    simp
  have hrequired : requireManifestPayloadDigest (answering p hashAlgo
      (String.ofList (withoutSpace value)) digest other hdecodes) unpacked
        () = (.ok (), ()) := by
    refine (without_ok hdeclared).trans ((without_ok hhash).trans ?_)
    have hanswer : ((answering p hashAlgo (String.ofList (withoutSpace value))
        digest other hdecodes).process () (.digest hashAlgo
          (p.uint8ToBase64 unpacked.payload.bytes))).2 = ⟨0, none,
            some (.record [("bytes",
              .text (String.ofList (withoutSpace value)))])⟩ := if_pos rfl
    rw [call_bind, hanswer]
    refine (without_ok (show resultIn "DIGEST" _ = .ok _ from rfl)).trans
      ((without_ok (show digestBytes _ = .ok _ from rfl)).trans ?_)
    exact congrArg (·, ()) hequal
  have hinfo : firstSignatureInfo (some (.record [("signatureInfos",
      .list [.record [("statusSignature", .text "VALID"),
        ("statusMessageDigest", .text "VALID")]])])) =
      .ok (some ⟨some "VALID", some "VALID", none, none, none, none⟩) := rfl
  have hvalid : requireValid
      (some ⟨some "VALID", some "VALID", none, none, none, none⟩) =
      .ok ⟨some "VALID", some "VALID", none, none, none, none⟩ := rfl
  refine ⟨resultOf p isoNow unpacked ⟨some "VALID", some "VALID", none, none,
    none, none⟩ (.record []), ?_⟩
  refine (without_ok hunpacked).trans ((call_bind _ _ _).trans
    ((without_ok (show resultIn "VERIFY" _ = .ok _ from rfl)).trans
      ((without_ok hinfo).trans ((without_ok hvalid).trans ?_))))
  rw [asking_bind, hrequired]
  rfl

end Answering

/-! ## Any bytes

What is asked of the bytes is asked for every engine: what is verified is
vouched for, whatever the engine is that calls the signature valid and knows the
digest. -/

/-- Nothing but the container's error is thrown, what is unpacked is what the
central directory says, and what is verified is vouched for. -/
structure Upholds (p : Platform) (bytes : Bytes) : Prop where
  thrown : OnlyContainer (unpackAsicE p.zlib bytes)
  unpacked : ∀ unpacked, unpackAsicE p.zlib bytes = .ok unpacked →
    Checked p.zlib bytes unpacked
  verified : ∀ (σ : Type) (engine : Engine p σ) (isoNow : String) (s t : σ)
    (result : AsicVerifyResult),
    verifyAsicE engine isoNow bytes s = (.ok result, t) →
      Vouched engine bytes result

/-- What the first block says, in a container whose verification is always
vouched for, some reference states. -/
theorem Upholds.states {p : Platform} {bytes : Bytes} (h : Upholds p bytes)
    {unpacked : UnpackedAsic}
    (hunpacked : unpackAsicE p.zlib bytes = .ok unpacked)
    {block : List Char × List Char}
    (hblock : firstBlock (decodeText unpacked.manifest.bytes)
      unpacked.payload.name = some block) {hashAlgo : String} {digest : Bytes}
    (hsaid : Says p block.2 hashAlgo digest) :
    States p (decodeText unpacked.manifest.bytes) unpacked.payload.name
      hashAlgo digest := by
  obtain ⟨method, value, hmethod, hvalue, hne, hhash, hdecodes⟩ := hsaid
  obtain ⟨other, hother⟩ := exists_unstated p
    (decodeText unpacked.manifest.bytes) unpacked.payload.name
  obtain ⟨result, hresult⟩ := verifyAsicE_answering "" hunpacked
    hblock hmethod hvalue hne hhash other hdecodes
  obtain ⟨unpacked', hunpacked', -, -, algo, hstates⟩ :=
    h.verified _ _ _ _ _ _ hresult
  obtain rfl := Except.ok.inj (hunpacked.symm.trans hunpacked')
  -- of another algorithm the engine knows a digest that nothing states
  by_cases halgo : algo = hashAlgo
  · rw [answering] at hstates
    dsimp only at hstates
    rw [if_pos halgo] at hstates
    exact halgo ▸ hstates
  · rw [answering] at hstates
    dsimp only at hstates
    rw [if_neg halgo] at hstates
    exact absurd hstates (hother algo)

end Shozee.Asic
