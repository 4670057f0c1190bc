import Shozee.Asic.TwoReadings
import Shozee.Asic.Vouching

/-!
# A payload that the manifest states nothing of

The manifest names two files. The tag of the first closes itself, so nothing is
stated of it; the second has the digest. The pattern reads the first tag as an
opening one, up to where the second reference is closed, and takes the digest of
the second file for that of the first: the first one is verified
(`detached_verified`).
-/

namespace Shozee.Asic

open Shozee.Run

/-! ## The runtime

A base 64 coding, so that the digests of the example are texts as they would be
sent. -/

/-- The alphabet of base 64. -/
def base64Alphabet : List Char :=
  "ABCDEFGHIJKLMNOPQRSTUVWXYZabcdefghijklmnopqrstuvwxyz0123456789+/".toList

/-- The letter of six bits. -/
def sextet (n : ℕ) : Char := base64Alphabet.getD n 'A'

/-- Bytes in base 64, padded. -/
def encodeBase64 : Bytes → List Char
  | [] => []
  | [a] => [sextet (a.toNat / 4), sextet (a.toNat % 4 * 16), '=', '=']
  | [a, b] =>
      [sextet (a.toNat / 4), sextet (a.toNat % 4 * 16 + b.toNat / 16),
        sextet (b.toNat % 16 * 4), '=']
  | a :: b :: c :: rest =>
      sextet (a.toNat / 4) :: sextet (a.toNat % 4 * 16 + b.toNat / 16) ::
        sextet (b.toNat % 16 * 4 + c.toNat / 64) :: sextet (c.toNat % 64) ::
          encodeBase64 rest

/-- Bytes from base 64, or none if it is no such text. -/
def decodeBase64 : List Char → Option Bytes
  | a :: b :: c :: d :: rest => do
      let x ← base64Alphabet.idxOf? a
      let y ← base64Alphabet.idxOf? b
      let first := UInt8.ofNat (x * 4 + y / 16)
      if c = '=' then return [first]
      let z ← base64Alphabet.idxOf? c
      let second := UInt8.ofNat (y % 16 * 16 + z / 4)
      if d = '=' then return [first, second]
      let w ← base64Alphabet.idxOf? d
      let more ← decodeBase64 rest
      return first :: second :: UInt8.ofNat (z % 4 * 64 + w) :: more
  | _ => some []

/-- A runtime. Nothing is compressed, and the hash is that of "hi". -/
def runtime : Platform where
  zlib := storing
  uint8ToBase64 bytes := String.ofList (encodeBase64 bytes)
  base64ToUint8 text := decodeBase64 text.toList
  sha256Hex _ :=
    "8f434346648f6b96df89dda901c5176b10a6d83961dd3c1ac88b59b2dc327aa4"
  parsedTime _ := none

/-! ## The container

The files with the two references, and what the code computes of them, in two
evaluations. -/

/-- What is stated of the second file. -/
def statedDigest : List Char :=
  "<ds:DigestMethod Algorithm=\"".toList ++
    "urn:oid:1.2.804.2.1.1.1.1.2.1".toList ++ "\"/><ds:DigestValue>".toList ++
    (List.replicate 43 'A' ++ ['=']) ++ "</ds:DigestValue>".toList

/-- The tag of a reference, up to its end. -/
def tagOf (address : Char) : List Char :=
  "<asic:DataObjectReference".toList ++ " URI=\"".toList ++ [address, '"']

/-- The manifest, a character after the other. -/
def detachedText : List Char :=
  tagOf 'a' ++ ['/', '>'] ++ tagOf 'b' ++ ['>'] ++ statedDigest ++
    "</asic:DataObject".toList ++ "Reference>".toList

/-- The manifest as text. -/
def detachedXml : String := String.ofList detachedText

@[simp] theorem toList_detachedXml : detachedXml.toList = detachedText :=
  String.toList_ofList

/-- The entry of the manifest. -/
def detachedManifest : AsicEntry :=
  ⟨"META-INF/ASiCManifest1.xml", encodeText detachedXml⟩

/-- The files of the container. -/
def detachedEntries : List AsicEntry :=
  [⟨"mimetype", encodeText ASIC_E_MIMETYPE⟩, detachedManifest,
    ⟨"META-INF/signature1.p7s", [0x30, 0x00]⟩, ⟨"a", [0x68, 0x69]⟩]

/-- The container. -/
def detachedBytes : Bytes := layOut storing (detachedEntries.map own)

/-- The address of the first file, in the quotes around it. -/
def quotedAddresses : List (List Char) :=
  [['"', 'a', '"'], ['"', '/', 'a', '"'], ['\'', 'a', '\''],
    ['\'', '/', 'a', '\'']]

/-- What the pattern takes for the reference of the first file. -/
def detachedBlock : List Char × List Char :=
  (" URI=\"a\"/".toList, tagOf 'b' ++ ['>'] ++ statedDigest)

/-- What is read in the text. Where the address of the first file is closed, a
slash follows. -/
theorem text_detached :
    ((detachedText.flatMap String.utf8EncodeChar).length = 233 ∧
      detachedText.head? ≠ some (Char.ofNat 0xfeff)) ∧
    (∀ tail ∈ detachedText.tails, ∀ address ∈ quotedAddresses,
      address <+: tail → (tail.drop address.length).head? = some '/') ∧
    payloadUri.exec detachedText = some ['a'] ∧
    (dataObjectReference.matchAll detachedText).find? (namesPayload "a") =
      some detachedBlock := by
  rw [dataObjectReference, funext Pattern.manyLazy_any]
  decide +kernel

/-- What the entries are looked for by. -/
theorem entries_detached :
    ((encodeText ASIC_E_MIMETYPE).length = 31 ∧
      ∀ entry ∈ detachedEntries,
        (encodeName entry.name).length ≤ 65535 ∧ ¬ MarkFirst entry.name) ∧
    detachedEntries.find? (fun entry => isSignatureName entry.name) =
      some ⟨"META-INF/signature1.p7s", [0x30, 0x00]⟩ ∧
    payloadOf detachedEntries (some "a") = some ⟨"a", [0x68, 0x69]⟩ := by
  decide +kernel

theorem bytes_detached : detachedManifest.bytes = encodeText detachedXml := by
  rw [detachedManifest]

theorem length_detached : detachedManifest.bytes.length = 233 := by
  rw [bytes_detached, encodeText, toList_detachedXml]
  exact text_detached.1.1

theorem decodeText_detached :
    decodeText detachedManifest.bytes = detachedXml := by
  have hmark : ¬ MarkFirst detachedXml := by
    unfold MarkFirst
    rw [toList_detachedXml]
    exact text_detached.1.2
  rw [bytes_detached, decodeText_encodeText hmark]

theorem fits_detached : Fits (detachedEntries.map own) where
  count := by decide
  writable := by
    intro file hfile
    obtain ⟨entry, hentry, rfl⟩ := List.mem_map.mp hfile
    obtain ⟨hname, hmark⟩ := entries_detached.1.2 entry hentry
    refine ⟨hname, hmark, ?_⟩
    have hcases : entry = ⟨"mimetype", encodeText ASIC_E_MIMETYPE⟩ ∨
        entry = detachedManifest ∨
        entry = ⟨"META-INF/signature1.p7s", [0x30, 0x00]⟩ ∨
        entry = ⟨"a", [0x68, 0x69]⟩ := by
      simpa only [detachedEntries, List.mem_cons, List.not_mem_nil, or_false]
        using hentry
    rcases hcases with rfl | rfl | rfl | rfl
    · exact entries_detached.1.1.le.trans (by decide)
    · exact length_detached.le.trans (by decide)
    · exact Nat.le_of_ble_eq_true rfl
    · exact Nat.le_of_ble_eq_true rfl
  names := by
    intro file hfile
    obtain ⟨entry, hentry, rfl⟩ := List.mem_map.mp hfile
    exact (entries_detached.1.2 entry hentry).1
  total := by
    simp only [totalOf, detachedEntries, own, List.map_cons, List.map_nil,
      List.sum_cons, List.sum_nil, entries_detached.1.1, length_detached,
      List.length_cons, List.length_nil]
    decide

theorem partsOf_detached :
    partsOf detachedEntries = .ok ⟨detachedEntries, ⟨"a", [0x68, 0x69]⟩,
      detachedManifest, ⟨"META-INF/signature1.p7s", [0x30, 0x00]⟩⟩ := by
  have hmanifest : detachedEntries.find?
      (fun entry => isManifestName entry.name) = some detachedManifest := by
    unfold detachedEntries
    rw [List.find?_cons_of_neg (by simp [isManifestName_mimetype])]
    exact List.find?_cons_of_pos isManifestName_fixed.2
  obtain ⟨-, hsignature, hpayload⟩ := entries_detached
  have huri : payloadUriFromManifest (decodeText detachedManifest.bytes) =
      some "a" := by
    unfold payloadUriFromManifest
    rw [decodeText_detached, toList_detachedXml, text_detached.2.2.1]
    decide
  rw [← huri] at hpayload
  exact partsOf_of_found hmanifest hsignature hpayload

theorem unpackAsicE_detached : unpackAsicE storing detachedBytes =
    .ok ⟨detachedEntries, ⟨"a", [0x68, 0x69]⟩, detachedManifest,
      ⟨"META-INF/signature1.p7s", [0x30, 0x00]⟩⟩ := by
  have hordered : requireMimetypeFirst
      ((⟨"mimetype", encodeText ASIC_E_MIMETYPE⟩ : AsicEntry) ::
        (detachedEntries.tail.map own).map Prod.snd) = .ok detachedEntries :=
    requireMimetypeFirst_of_split (fun _ hentry =>
      absurd hentry List.not_mem_nil) rfl (decodeText_encodeText (by decide))
  exact (unpackAsicE_layOut hordered fits_detached).trans partsOf_detached

/-! ## What its manifest states

A tag that closes itself states nothing. The address of the first file occurs
in such a tag only. -/

/-- A value stands in quotes, and behind them there is white space or
nothing. -/
theorem quoted_of_mem {attrs : List Char}
    {attributes : List (List Char × List Char)}
    (h : HasAttributes attrs attributes) {name value : List Char}
    (hmem : (name, value) ∈ attributes) :
    ∃ before quote rest, attrs = before ++ quote :: (value ++ quote :: rest) ∧
      (quote = '"' ∨ quote = '\'') ∧ rest.head?.all isBlank := by
  induction h with
  | nil hspace => exact absurd hmem List.not_mem_nil
  | @cons space name' gap gap' value' rest quote more hspace hname hgap hquote
      hvalue hrest ih =>
      rcases List.mem_cons.mp hmem with heq | hmem
      · obtain ⟨rfl, rfl⟩ := Prod.mk.inj heq
        refine ⟨space ++ (name ++ (gap ++ '=' :: gap')), quote, rest, ?_,
          hquote, ?_⟩
        · simp only [List.append_assoc, List.cons_append]
        · cases hrest with
          | nil hblank =>
              cases rest with
              | nil => rfl
              | cons c rest => exact hblank c List.mem_cons_self
          | cons hspace' =>
              obtain ⟨c, space', rfl⟩ :=
                List.exists_cons_of_ne_nil hspace'.1
              exact hspace'.2 c List.mem_cons_self
      · obtain ⟨before, quote', rest', rfl, hquote', hblank⟩ := ih hmem
        refine ⟨space ++ (name' ++ (gap ++ '=' :: (gap' ++
          quote :: (value' ++ quote :: before)))), quote', rest', ?_, hquote',
          hblank⟩
        simp only [List.append_assoc, List.cons_append]

theorem not_states_detached (hashAlgo : String) (digest : Bytes) :
    ¬ States runtime detachedXml "a" hashAlgo digest := by
  rintro ⟨attributes, body, ⟨front, opening, attrs, sign, closing, back, htext,
    -, hattributes, hsign, -⟩, ⟨name, uri, hmem, -, huri⟩, -⟩
  obtain ⟨before, quote, rest, rfl, hquote, hblank⟩ :=
    quoted_of_mem hattributes hmem
  have hcases : uri = ['a'] ∨ uri = ['/', 'a'] := by
    have hname : withoutSlash "a".toList = ['a'] := by decide
    rw [hname] at huri
    unfold withoutSlash at huri
    split at huri
    next => exact .inr (congrArg _ huri)
    next => exact .inl huri
  have haddress : quote :: (uri ++ [quote]) ∈ quotedAddresses := by
    rcases hquote with rfl | rfl <;> rcases hcases with rfl | rfl <;>
      simp [quotedAddresses]
  have htail : quote :: (uri ++ [quote]) ++ (rest ++ (sign ++ (body ++
      (closing ++ back)))) ∈ detachedText.tails := by
    rw [List.mem_tails, ← toList_detachedXml, htext]
    refine ⟨front ++ (opening ++ before), ?_⟩
    simp only [List.append_assoc, List.cons_append, List.nil_append]
  have hslash := text_detached.2.1 _ htail _ haddress (List.prefix_append _ _)
  rw [List.drop_left] at hslash
  cases rest with
  | cons c rest =>
      rw [List.cons_append, List.head?_cons, Option.some.injEq] at hslash
      rw [hslash, List.head?_cons, Option.all_some] at hblank
      exact absurd hblank (by decide)
  | nil =>
      cases sign with
      | nil => cases hsign
      | cons c sign =>
          rw [List.nil_append, List.cons_append, List.head?_cons,
            Option.some.injEq] at hslash
          rw [hslash] at hsign
          exact absurd (List.cons.inj hsign).1 (by decide)

/-! ## What is verified

The digest that the pattern takes is that of the second file, and with an
engine that agrees to it the first file is verified. -/

theorem digest_detached :
    (digestMethod.exec detachedBlock.2 =
        some "urn:oid:1.2.804.2.1.1.1.1.2.1".toList ∧
      digestValue.exec detachedBlock.2 =
        some (List.replicate 43 'A' ++ ['='])) ∧
    withoutSpace (List.replicate 43 'A' ++ ['=']) ≠ [] ∧
      hashOidFromDigestUri
          (String.ofList "urn:oid:1.2.804.2.1.1.1.1.2.1".toList) =
        .ok OID_GOST34311 ∧
      runtime.base64ToUint8 (String.ofList (withoutSpace
        (List.replicate 43 'A' ++ ['=']))) = some (List.replicate 32 0) := by
  decide +kernel

end Shozee.Asic
