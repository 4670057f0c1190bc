import Shozee.Run.Walks
import Shozee.Pki.Asn1

/-!
# When reading ends and tiles

A length of four bytes can be negative, and `subarray` counts a negative index
from the end. So what is after a value is an end of the input that can begin
inside the value's own header, or be the whole input again. It begins inside
the header unless the length is as `Forward` says (`tiles_iff`); it is the
whole input just where the length `LeadsBack`, and then a loop that goes on
with it is never left (`extract_ends_iff`). Whatever is returned is in order
(`extract_certificates`): a round takes what is before the next one's place.
-/

namespace Shozee.Pki

open Shozee.Run

/-! ## One value

Where a value ends according to its header, and when the header, the content
and the rest make up the input. -/

/-- Where the header says that the value ends. -/
def stopOf (input : Bytes) (headerSize : ℕ) (len : ℤ) : ℕ :=
  placeOf input.length (headerSize + len)

theorem headerOf_bounds {input : Bytes} {headerSize : ℕ} {len : ℤ}
    (h : headerOf input = some (headerSize, len)) :
    2 ≤ headerSize ∧ headerSize ≤ input.length := by
  unfold headerOf at h
  split at h
  next tag first rest =>
    split at h
    · cases h
      exact ⟨Nat.le_refl 2, by simp⟩
    · dsimp only at h
      split at h
      · cases h
      next hbytes =>
        cases h
        simp only [not_or, Nat.not_lt] at hbytes
        exact ⟨Nat.le_add_right 2 _, hbytes.2.2⟩
  next => cases h

theorem parseTlv_eq_some {input : Bytes} {tlv : TlvResult}
    (h : parseTlv input = some tlv) :
    ∃ headerSize len, headerOf input = some (headerSize, len) ∧
      headerSize + len ≤ input.length ∧
      tlv.content =
        (input.take (stopOf input headerSize len)).drop headerSize ∧
      tlv.rest = input.drop (stopOf input headerSize len) := by
  unfold parseTlv at h
  split at h
  next => cases h
  next headerSize len hheader =>
    split at h
    next => cases h
    next hlength =>
      cases h
      refine ⟨headerSize, len, hheader, by omega, ?_, rfl⟩
      have hplace := placeOf_natCast (headerOf_bounds hheader).2
      unfold subarray
      rw [hplace]
      rfl

/-- The value is a part of the input, and what is after it an end of it. -/
theorem parseTlv_isInfix {input : Bytes} {tlv : TlvResult}
    (h : parseTlv input = some tlv) : tlv.content <:+: input := by
  obtain ⟨headerSize, len, -, -, hcontent, -⟩ := parseTlv_eq_some h
  rw [hcontent]
  exact (List.drop_suffix _ _).isInfix.trans (List.take_prefix _ _).isInfix

theorem parseTlv_suffix {input : Bytes} {tlv : TlvResult}
    (h : parseTlv input = some tlv) : tlv.rest <:+ input := by
  obtain ⟨headerSize, len, -, -, -, hrest⟩ := parseTlv_eq_some h
  rw [hrest]
  exact List.drop_suffix _ _

/-- The input is the header, the content and the rest, one after the other. -/
def Tiles (input : Bytes) (tlv : TlvResult) : Prop :=
  ∃ headerSize len, headerOf input = some (headerSize, len) ∧
    2 ≤ headerSize ∧
    input.take headerSize ++ tlv.content ++ tlv.rest = input

/-- The length does not lead back into the header. -/
def Forward (input : Bytes) : Prop :=
  ∀ headerSize len, headerOf input = some (headerSize, len) →
    0 ≤ len ∨ headerSize + len < 0 ∧ 0 ≤ input.length + len

theorem tiles_iff {input : Bytes} {tlv : TlvResult}
    (h : parseTlv input = some tlv) : Tiles input tlv ↔ Forward input := by
  obtain ⟨headerSize, len, hheader, hle, hcontent, hrest⟩ := parseTlv_eq_some h
  obtain ⟨hmin, hmax⟩ := headerOf_bounds hheader
  have hplace : headerSize ≤ stopOf input headerSize len ↔
      0 ≤ len ∨ headerSize + len < 0 ∧ 0 ≤ input.length + len := by
    unfold stopOf placeOf
    split <;> omega
  have hforward : Forward input ↔
      0 ≤ len ∨ headerSize + len < 0 ∧ 0 ≤ input.length + len := by
    constructor
    · exact fun hall => hall headerSize len hheader
    · intro hone size other hother
      rw [hheader, Option.some.injEq, Prod.mk.injEq] at hother
      obtain ⟨rfl, rfl⟩ := hother
      exact hone
  rw [hforward, ← hplace]
  constructor
  · rintro ⟨size, other, hother, -, htiles⟩
    rw [hheader, Option.some.injEq, Prod.mk.injEq] at hother
    obtain ⟨rfl, rfl⟩ := hother
    have hlength := congrArg List.length htiles
    rw [hcontent, hrest] at hlength
    simp only [List.length_append, List.length_take, List.length_drop]
      at hlength
    omega
  · intro hstop
    refine ⟨headerSize, len, hheader, hmin, ?_⟩
    have hhead : input.take headerSize =
        (input.take (stopOf input headerSize len)).take headerSize := by
      rw [List.take_take, Nat.min_eq_left hstop]
    rw [hcontent, hrest, hhead, List.take_append_drop, List.take_append_drop]

/-! ## Building and taking apart

What is built is taken apart again, whatever its length. -/

theorem longLength_append (bytes : Bytes) (byte : UInt8)
    (h : (longLength bytes).toNat < 2 ^ 24) :
    (longLength (bytes ++ [byte])).toNat =
      (longLength bytes).toNat * 256 + byte.toNat := by
  have hbyte : byte.toNat < 2 ^ 8 := byte.toNat_lt
  unfold longLength at h ⊢
  rw [List.foldl_append, List.foldl_cons, List.foldl_nil, BitVec.toNat_or,
    BitVec.toNat_shiftLeft, BitVec.toNat_setWidth, UInt8.toNat_toBitVec,
    Nat.shiftLeft_eq, Nat.mod_eq_of_lt (by omega),
    Nat.mod_eq_of_lt (by omega), ← Nat.shiftLeft_eq,
    ← Nat.shiftLeft_add_eq_or_of_lt hbyte, Nat.shiftLeft_eq]

theorem longLength_nil : (longLength []).toNat = 0 := rfl

/-- Up to three bytes are read as the number that they are, the highest
first. -/
theorem longLength_one (b : UInt8) : (longLength [b]).toNat = b.toNat := by
  have h := longLength_append [] b (by rw [longLength_nil]; decide)
  rw [longLength_nil, Nat.zero_mul, Nat.zero_add] at h
  exact h

theorem longLength_two (b c : UInt8) :
    (longLength [b, c]).toNat = b.toNat * 256 + c.toNat := by
  have hb := b.toNat_lt
  have h := longLength_append [b] c (by rw [longLength_one]; omega)
  rw [longLength_one] at h
  exact h

theorem longLength_three (b c d : UInt8) :
    (longLength [b, c, d]).toNat =
      (b.toNat * 256 + c.toNat) * 256 + d.toNat := by
  have hb := b.toNat_lt
  have hc := c.toNat_lt
  have h := longLength_append [b, c] d (by rw [longLength_two]; omega)
  rw [longLength_two] at h
  exact h

theorem headerOf_long {tag first : UInt8} (numBytes : ℕ) (bytes : Bytes)
    {tail : Bytes} {len : ℕ} (hfirst : ¬ first < 0x80)
    (hnum : (first &&& 0x7f).toNat = numBytes) (hlength : bytes.length = numBytes)
    (hpos : numBytes ≠ 0) (hmax : numBytes ≤ 4)
    (hlen : (longLength bytes).toNat = len) (hsmall : len < 2 ^ 24) :
    headerOf (tag :: first :: (bytes ++ tail)) =
      some (2 + numBytes, (len : ℤ)) := by
  have hguard : ¬ (numBytes = 0 ∨ 4 < numBytes ∨
      (tag :: first :: (bytes ++ tail)).length < 2 + numBytes) := by
    simp only [List.length_cons, List.length_append]
    omega
  unfold headerOf
  dsimp only
  rw [if_neg hfirst, hnum, if_neg hguard, List.take_left' hlength,
    BitVec.toInt_eq_toNat_of_lt (by omega), hlen]

theorem headerOf_wrap (tag : UInt8) {n : ℕ} (tail : Bytes) (h : n < 2 ^ 24) :
    headerOf (tag :: (encodeAsn1Length n ++ tail)) =
      some (1 + (encodeAsn1Length n).length, (n : ℤ)) := by
  unfold encodeAsn1Length
  split
  next hn =>
    have hbyte : n.toUInt8.toNat = n := by simp; omega
    have hlt : n.toUInt8 < 0x80 := by
      rw [UInt8.lt_iff_toNat_lt, hbyte]
      exact hn
    unfold headerOf
    dsimp only [List.cons_append, List.nil_append]
    rw [if_pos hlt, hbyte]
    rfl
  next hn =>
    split
    next hn' =>
      refine headerOf_long 1 [n.toUInt8] (by decide) (by decide) rfl
        (by decide) (by decide) ?_ h
      rw [longLength_one]
      simp
      omega
    next hn' =>
      split
      next hn'' =>
        refine headerOf_long 2 [(n >>> 8).toUInt8, n.toUInt8] (by decide)
          (by decide) rfl (by decide) (by decide) ?_ h
        rw [longLength_two, Nat.shiftRight_eq_div_pow]
        simp
        omega
      next hn'' =>
        refine headerOf_long 3
          [(n >>> 16).toUInt8, (n >>> 8).toUInt8, n.toUInt8] (by decide)
          (by decide) rfl (by decide) (by decide) ?_ h
        rw [longLength_three, Nat.shiftRight_eq_div_pow,
          Nat.shiftRight_eq_div_pow]
        simp
        omega

theorem parseTlv_asn1Wrap (tag : UInt8) {content : Bytes} (rest : Bytes)
    (h : content.length < 2 ^ 24) :
    parseTlv (asn1Wrap tag content ++ rest) = some ⟨content, rest⟩ := by
  have hheader := headerOf_wrap tag (content ++ rest) h
  have hinput : asn1Wrap tag content ++ rest =
      tag :: (encodeAsn1Length content.length ++ (content ++ rest)) := by
    unfold asn1Wrap
    simp
  have hlength : (asn1Wrap tag content ++ rest).length =
      1 + (encodeAsn1Length content.length).length + content.length +
        rest.length := by
    rw [hinput]
    simp only [List.length_cons, List.length_append]
    omega
  rw [← hinput] at hheader
  unfold parseTlv
  rw [hheader]
  dsimp only
  rw [if_neg (by omega)]
  unfold subarray subarrayFrom
  rw [← Int.natCast_add, placeOf_natCast (by omega), placeOf_natCast (by omega)]
  have hhead : (tag :: encodeAsn1Length content.length).length =
      1 + (encodeAsn1Length content.length).length := by
    rw [List.length_cons, Nat.add_comm]
  have hsplit : asn1Wrap tag content ++ rest =
      (tag :: encodeAsn1Length content.length) ++ (content ++ rest) := hinput
  rw [hsplit, ← hhead, List.take_length_add_append, List.drop_left,
    ← List.drop_drop, List.drop_left, List.take_left, List.drop_left]

theorem unwrapContentInfo_wrapInContentInfo {payload : Bytes}
    (h : (wrapInContentInfo payload).length < 2 ^ 24) :
    unwrapContentInfo (wrapInContentInfo payload) = some payload := by
  have hwrap : ∀ (tag : UInt8) (content : Bytes),
      content.length ≤ (asn1Wrap tag content).length := by
    intro tag content
    unfold asn1Wrap
    rw [List.length_append]
    exact Nat.le_add_left _ _
  have hplain : ∀ (tag : UInt8) (content : Bytes),
      content.length < 2 ^ 24 →
      parseTlv (asn1Wrap tag content) = some ⟨content, []⟩ := by
    intro tag content hlength
    have hparse := parseTlv_asn1Wrap tag [] hlength
    rw [List.append_nil] at hparse
    exact hparse
  have hseq := Nat.lt_of_le_of_lt (hwrap 0x30 _) h
  have hctx : (asn1Wrap 0xa0 (asn1Wrap 0x04 payload)).length < 2 ^ 24 := by
    rw [List.length_append] at hseq
    omega
  have hoctet := Nat.lt_of_le_of_lt (hwrap 0xa0 _) hctx
  have hpayload := Nat.lt_of_le_of_lt (hwrap 0x04 _) hoctet
  have hoid : parseTlv (dataOid ++ asn1Wrap 0xa0 (asn1Wrap 0x04 payload)) =
      some ⟨dataOid.drop 2, asn1Wrap 0xa0 (asn1Wrap 0x04 payload)⟩ := by
    have hlength : (dataOid.drop 2).length < 2 ^ 24 := by decide
    exact parseTlv_asn1Wrap 0x06 _ hlength
  unfold unwrapContentInfo wrapInContentInfo
  simp only [Option.bind_eq_bind]
  rw [hplain _ _ hseq, Option.bind_some, hoid, Option.bind_some,
    hplain _ _ hoctet, Option.bind_some, hplain _ _ hpayload]
  rfl

/-! ## The loops

A loop goes on with an end of the input, so it comes to an end unless this is
the whole input again. -/

/-- The length leads back to the header's own first byte. -/
def LeadsBack (input : Bytes) : Prop :=
  ∃ headerSize len, headerOf input = some (headerSize, len) ∧
    ((headerSize : ℤ) + len = 0 ∨ headerSize + len ≤ -(input.length : ℤ))

theorem rest_eq_iff {input : Bytes} :
    (parseTlv input).map TlvResult.rest = some input ↔ LeadsBack input := by
  constructor
  · intro h
    obtain ⟨tlv, htlv, hsame⟩ := Option.map_eq_some_iff.mp h
    obtain ⟨headerSize, len, hheader, hle, -, hrest⟩ := parseTlv_eq_some htlv
    have hbounds := headerOf_bounds hheader
    refine ⟨headerSize, len, hheader, ?_⟩
    have hlength := congrArg List.length (hrest.symm.trans hsame)
    rw [List.length_drop] at hlength
    unfold stopOf placeOf at hlength
    split at hlength <;> omega
  · rintro ⟨headerSize, len, hheader, hback⟩
    have hbounds := headerOf_bounds hheader
    have hplace : placeOf input.length (headerSize + len) = 0 := by
      unfold placeOf
      split <;> omega
    unfold parseTlv subarrayFrom
    rw [hheader]
    dsimp only
    rw [if_neg (by omega), hplace]
    rfl

theorem certNext_eq_some {certPos next : Bytes} :
    certNext certPos = some next ↔ certPos.head? = some 0x30 ∧
      (parseTlv certPos).map TlvResult.rest = some next := by
  unfold certNext
  cases certPos with
  | nil => simp
  | cons tag certPos =>
      dsimp only
      by_cases htag : tag = 0x30
      · rw [if_neg (not_not.mpr htag), htag]
        simp
      · rw [if_pos htag]
        simp [htag]

theorem fieldNext_eq_some {remaining next : Bytes} :
    fieldNext remaining = some next ↔ remaining ≠ [] ∧
      remaining.head? ≠ some 0xa0 ∧
      (parseTlv remaining).map TlvResult.rest = some next := by
  unfold fieldNext
  cases remaining with
  | nil => simp
  | cons tag remaining =>
      dsimp only
      by_cases htag : tag = 0xa0
      · rw [if_pos htag, htag]
        simp
      · rw [if_neg htag]
        simp [htag]

theorem rest_suffix {input next : Bytes}
    (h : (parseTlv input).map TlvResult.rest = some next) : next <:+ input := by
  obtain ⟨tlv, htlv, rfl⟩ := Option.map_eq_some_iff.mp h
  exact parseTlv_suffix htlv

theorem down_of_suffix {next input : Bytes} (h : next <:+ input) :
    next.length < input.length ∨ next = input := by
  rcases Nat.lt_or_ge next.length input.length with hlt | hge
  · exact .inl hlt
  · exact .inr (h.eq_of_length_le hge)

theorem certLoop_ends {certPos : Bytes} (certs : List Bytes) :
    (∃ fuel out, certLoop fuel certPos certs = some out) ↔
      Leaves certNext certPos := by
  constructor
  · rintro ⟨fuel, out, h⟩
    induction fuel generalizing certPos certs with
    | zero => cases h
    | succ fuel ih =>
        unfold certLoop at h
        split at h
        next hstop => exact .stop hstop
        next next hnext => exact .on hnext (ih _ h)
  · intro h
    induction h generalizing certs with
    | stop hstop => exact ⟨1, certs, by unfold certLoop; rw [hstop]⟩
    | @on certPos next hnext _ ih =>
        obtain ⟨fuel, out, hout⟩ := ih (certs ++ (certOf certPos next).toList)
        exact ⟨fuel + 1, out, by unfold certLoop; rw [hnext]; exact hout⟩

/-- The loop over the fields comes to the certificates. -/
def ComesToCerts (remaining content : Bytes) : Prop :=
  ∃ last container, ComesTo fieldNext remaining last ∧
    last.head? = some 0xa0 ∧ parseTlv last = some container ∧
    container.content = content

theorem fieldLoop_ends {remaining : Bytes} :
    (∃ fuel out, fieldLoop fuel remaining = some out) ↔
      Leaves fieldNext remaining ∧
        ∀ content, ComesToCerts remaining content →
          Leaves certNext content := by
  constructor
  · rintro ⟨fuel, out, h⟩
    induction fuel generalizing remaining with
    | zero => cases h
    | succ fuel ih =>
        unfold fieldLoop at h
        split at h
        next next hnext =>
          obtain ⟨hleaves, hcerts⟩ := ih h
          refine ⟨.on hnext hleaves, ?_⟩
          rintro content ⟨last, container, hcomes, htag, hparse, hcontent⟩
          rcases hcomes.cases_head with rfl | ⟨other, hother, hrest⟩
          · exact absurd htag (fieldNext_eq_some.mp hnext).2.1
          · rw [GoesTo, hnext, Option.some.injEq] at hother
            subst hother
            exact hcerts content ⟨last, container, hrest, htag, hparse, hcontent⟩
        next hstop =>
          refine ⟨.stop hstop, ?_⟩
          rintro content ⟨last, container, hcomes, htag, hparse, rfl⟩
          rcases hcomes.cases_head with rfl | ⟨other, hother, -⟩
          · cases remaining with
            | nil => cases htag
            | cons tag remaining =>
                cases htag
                dsimp only at h
                rw [if_pos rfl, hparse] at h
                exact (certLoop_ends []).mp ⟨fuel, out, h⟩
          · rw [GoesTo, hstop] at hother
            exact absurd hother (Option.some_ne_none other).symm
  · rintro ⟨hleaves, hcerts⟩
    induction hleaves with
    | @stop remaining hstop =>
        by_cases hcontainer : ∃ container, remaining.head? = some 0xa0 ∧
            parseTlv remaining = some container
        · obtain ⟨container, htag, hparse⟩ := hcontainer
          obtain ⟨fuel, out, hout⟩ := (certLoop_ends []).mpr
            (hcerts _ ⟨remaining, container, .refl, htag, hparse, rfl⟩)
          refine ⟨fuel + 1, out, ?_⟩
          unfold fieldLoop
          rw [hstop]
          cases remaining with
          | nil => cases htag
          | cons tag remaining =>
              cases htag
              dsimp only
              rw [if_pos rfl, hparse]
              exact hout
        · refine ⟨1, [], ?_⟩
          unfold fieldLoop
          rw [hstop]
          cases remaining with
          | nil => rfl
          | cons tag remaining =>
              dsimp only
              by_cases htag : tag = 0xa0
              · rw [if_pos htag]
                cases hparse : parseTlv (tag :: remaining) with
                | none => rfl
                | some container =>
                    exact absurd ⟨container, by rw [htag]; rfl, hparse⟩
                      hcontainer
              · rw [if_neg htag]
    | @on remaining next hnext _ ih =>
        obtain ⟨fuel, out, hout⟩ := ih (by
          rintro content ⟨last, container, hcomes, hlast⟩
          exact hcerts content ⟨last, container, .head hnext hcomes, hlast⟩)
        refine ⟨fuel + 1, out, ?_⟩
        unfold fieldLoop
        rw [hnext]
        exact hout

/-- The headers that the loops read to go on: of a field that is skipped, or
of a certificate. -/
inductive ReadToGoOn (data : Bytes) : Bytes → Prop
  | field {start pos : Bytes} {tag : UInt8}
      (hstart : signedDataFields data = some start)
      (hcomes : ComesTo fieldNext start pos) (htag : pos.head? = some tag)
      (hskip : tag ≠ 0xa0) : ReadToGoOn data pos
  | cert {start content pos : Bytes}
      (hstart : signedDataFields data = some start)
      (hcerts : ComesToCerts start content)
      (hcomes : ComesTo certNext content pos)
      (htag : pos.head? = some 0x30) : ReadToGoOn data pos

/-- The search ends unless a length leads back to where it was read. -/
theorem extract_ends_iff (data : Bytes) :
    (∃ fuel certs, extractCertsFromPkcs7 fuel data = some certs) ↔
      ∀ pos, ReadToGoOn data pos → ¬ LeadsBack pos := by
  have hfield : ∀ start, Leaves fieldNext start ↔
      ∀ pos, ComesTo fieldNext start pos → fieldNext pos ≠ some pos :=
    leaves_iff fun pos next h =>
      down_of_suffix (rest_suffix (fieldNext_eq_some.mp h).2.2)
  have hcert : ∀ start, Leaves certNext start ↔
      ∀ pos, ComesTo certNext start pos → certNext pos ≠ some pos :=
    leaves_iff fun pos next h =>
      down_of_suffix (rest_suffix (certNext_eq_some.mp h).2)
  cases hstart : signedDataFields data with
  | none =>
      refine iff_of_true ⟨0, [], by unfold extractCertsFromPkcs7; rw [hstart]⟩ ?_
      rintro pos (⟨h, -, -, -⟩ | ⟨h, -, -, -⟩) <;>
        exact absurd (hstart.symm.trans h) (Option.some_ne_none _).symm
  | some start =>
      have hextract : ∀ fuel, extractCertsFromPkcs7 fuel data =
          fieldLoop fuel start := by
        intro fuel
        unfold extractCertsFromPkcs7
        rw [hstart]
      simp only [hextract]
      rw [fieldLoop_ends, hfield]
      constructor
      · rintro ⟨hfields, hcerts⟩ pos hread hback
        cases hread with
        | @field start' _ tag hstart' hcomes htag hskip =>
            rw [hstart, Option.some.injEq] at hstart'
            subst hstart'
            refine hfields pos hcomes (fieldNext_eq_some.mpr
              ⟨?_, ?_, rest_eq_iff.mpr hback⟩)
            · rintro rfl
              cases htag
            · rw [htag]
              exact fun h => hskip (Option.some.inj h)
        | @cert start' content _ hstart' hcontent hcomes htag =>
            rw [hstart, Option.some.injEq] at hstart'
            subst hstart'
            exact (hcert content).mp (hcerts content hcontent) pos hcomes
              (certNext_eq_some.mpr ⟨htag, rest_eq_iff.mpr hback⟩)
      · intro h
        refine ⟨fun pos hcomes hsame => ?_, fun content hcontent =>
          (hcert content).mpr fun pos hcomes hsame => ?_⟩
        · obtain ⟨hne, htag, hrest⟩ := fieldNext_eq_some.mp hsame
          obtain ⟨tag, rest, rfl⟩ := List.exists_cons_of_ne_nil hne
          exact h _ (.field hstart hcomes rfl fun heq => htag (heq ▸ rfl))
            (rest_eq_iff.mp hrest)
        · obtain ⟨htag, hrest⟩ := certNext_eq_some.mp hsame
          exact h _ (.cert hstart hcontent hcomes htag) (rest_eq_iff.mp hrest)

/-! ## The certificates

What is returned are parts of the input, in their order. -/

/-- The parts stand in the bytes one after the other. -/
inductive InOrder : List Bytes → Bytes → Prop
  | nil (bytes : Bytes) : InOrder [] bytes
  | cons {part : Bytes} {parts : List Bytes} {rest : Bytes} (gap : Bytes)
      (h : InOrder parts rest) : InOrder (part :: parts) (gap ++ part ++ rest)

theorem InOrder.of_suffix {parts : List Bytes} {bytes whole : Bytes}
    (h : InOrder parts bytes) (hsuffix : bytes <:+ whole) :
    InOrder parts whole := by
  obtain ⟨before, rfl⟩ := hsuffix
  cases h with
  | nil => exact .nil _
  | cons gap h =>
      rw [← List.append_assoc, ← List.append_assoc]
      exact .cons _ h

theorem InOrder.of_isPrefix {parts : List Bytes} {bytes whole : Bytes}
    (h : InOrder parts bytes) (hfront : bytes <+: whole) :
    InOrder parts whole := by
  obtain ⟨after, rfl⟩ := hfront
  induction h with
  | nil => exact .nil _
  | cons gap h ih =>
      rw [List.append_assoc]
      exact .cons gap ih

theorem InOrder.of_isInfix {parts : List Bytes} {bytes whole : Bytes}
    (h : InOrder parts bytes) (hpart : bytes <:+: whole) :
    InOrder parts whole := by
  obtain ⟨before, after, rfl⟩ := hpart
  exact (h.of_suffix (List.suffix_append before bytes)).of_isPrefix
    (List.prefix_append _ after)

/-- What the search returns: parts of the input in its order, each of which
begins as a sequence does. -/
def Certificates (certs : List Bytes) (data : Bytes) : Prop :=
  InOrder certs data ∧ ∀ cert ∈ certs, cert.head? = some 0x30

theorem certLoop_certificates {fuel : ℕ} {certPos : Bytes}
    {certs out : List Bytes} (h : certLoop fuel certPos certs = some out) :
    ∃ found, out = certs ++ found ∧ Certificates found certPos := by
  induction fuel generalizing certPos certs with
  | zero => cases h
  | succ fuel ih =>
      unfold certLoop at h
      split at h
      next =>
        refine ⟨[], ?_, .nil _, fun _ h => absurd h List.not_mem_nil⟩
        rw [List.append_nil]
        exact (Option.some.inj h).symm
      next next hnext =>
        obtain ⟨found, rfl, horder, htags⟩ := ih h
        obtain ⟨htag, hrest⟩ := certNext_eq_some.mp hnext
        obtain ⟨part, rfl⟩ := rest_suffix hrest
        refine ⟨_, List.append_assoc .., ?_⟩
        unfold certOf
        dsimp only
        split
        next hlong =>
          rw [List.length_append, Nat.add_sub_cancel] at hlong
          have htake : (part ++ next).take ((part ++ next).length -
              next.length) = part := by
            rw [List.length_append, Nat.add_sub_cancel, List.take_left]
          rw [htake]
          refine ⟨.cons [] horder, fun cert hcert => ?_⟩
          rcases List.mem_cons.mp hcert with rfl | hcert
          · rw [List.head?_append_of_ne_nil _
              (List.ne_nil_of_length_pos (by omega))] at htag
            exact htag
          · exact htags cert hcert
        next =>
          exact ⟨horder.of_suffix (List.suffix_append part next), htags⟩

theorem fieldLoop_certificates {fuel : ℕ} {remaining : Bytes}
    {out : List Bytes} (h : fieldLoop fuel remaining = some out) :
    Certificates out remaining := by
  have hnone : ∀ {bytes : Bytes}, Certificates [] bytes := fun {bytes} =>
    ⟨.nil bytes, fun _ h => absurd h List.not_mem_nil⟩
  induction fuel generalizing remaining with
  | zero => cases h
  | succ fuel ih =>
      unfold fieldLoop at h
      split at h
      next next hnext =>
        obtain ⟨horder, htags⟩ := ih h
        exact ⟨horder.of_suffix
          (rest_suffix (fieldNext_eq_some.mp hnext).2.2), htags⟩
      next =>
        split at h
        · cases h
          exact hnone
        · split at h
          · split at h
            · cases h
              exact hnone
            next container hparse =>
              obtain ⟨found, rfl, horder, htags⟩ := certLoop_certificates h
              exact ⟨horder.of_isInfix (parseTlv_isInfix hparse), htags⟩
          · cases h
            exact hnone

theorem signedDataFields_isInfix {data remaining : Bytes}
    (h : signedDataFields data = some remaining) : remaining <:+: data := by
  unfold signedDataFields at h
  simp only [Option.bind_eq_bind, Option.bind_eq_some_iff] at h
  obtain ⟨ciContent, hci, afterOid, hoid, h⟩ := h
  split at h
  next => cases h
  next =>
    simp only [Option.bind_eq_some_iff] at h
    obtain ⟨sdWrapper, hwrapper, version, hversion, digestAlgorithms, hdigest,
      contentInfo, hcontent, h⟩ := h
    rw [← Option.some.inj h]
    have hsd : sdWrapper.content <:+: data :=
      (parseTlv_isInfix hwrapper).trans ((parseTlv_suffix hoid).isInfix.trans
        (parseTlv_isInfix hci))
    have hfields : contentInfo.rest <:+ version.rest :=
      (parseTlv_suffix hcontent).trans (parseTlv_suffix hdigest)
    split at hversion
    next sdSeq hsdSeq =>
      exact (hfields.trans (parseTlv_suffix hversion)).isInfix.trans
        ((parseTlv_isInfix hsdSeq).trans hsd)
    next =>
      exact (hfields.trans (parseTlv_suffix hversion)).isInfix.trans hsd

theorem extract_certificates {fuel : ℕ} {data : Bytes} {certs : List Bytes}
    (h : extractCertsFromPkcs7 fuel data = some certs) :
    Certificates certs data := by
  unfold extractCertsFromPkcs7 at h
  split at h
  · cases h
    exact ⟨.nil data, fun _ h => absurd h List.not_mem_nil⟩
  next remaining hstart =>
    obtain ⟨horder, htags⟩ := fieldLoop_certificates h
    exact ⟨horder.of_isInfix (signedDataFields_isInfix hstart), htags⟩

/-! ## Reading as it should be

The condition on the lengths that a reading meets, and an input that does not
meet it. -/

/-- What reading the bytes is to do: a value takes them apart, the search for
certificates ends, and what it returns are parts of them in their order. -/
structure ReadsWell (data : Bytes) : Prop where
  tiles : ∀ tlv, parseTlv data = some tlv → Tiles data tlv
  ends : ∃ fuel certs, extractCertsFromPkcs7 fuel data = some certs
  certificates : ∀ fuel certs, extractCertsFromPkcs7 fuel data = some certs →
    Certificates certs data

theorem parseTlv_of_not_forward {data : Bytes} (h : ¬ Forward data) :
    ∃ tlv, parseTlv data = some tlv := by
  simp only [Forward, not_forall, exists_prop] at h
  obtain ⟨headerSize, len, hheader, hback⟩ := h
  have hbounds := headerOf_bounds hheader
  unfold parseTlv
  rw [hheader]
  dsimp only
  rw [if_neg (by omega)]
  exact ⟨_, rfl⟩

/-- Bytes are read well exactly when the length of their first value does not
lead back into its header, and no length that the search goes on by leads back
to where it was read. What was wrapped is found again whatever it is. -/
theorem readsWell_iff (data payload : Bytes) :
    (ReadsWell data ↔
      Forward data ∧ ∀ pos, ReadToGoOn data pos → ¬ LeadsBack pos) ∧
    ((wrapInContentInfo payload).length < 2 ^ 24 →
      unwrapContentInfo (wrapInContentInfo payload) = some payload) := by
  refine ⟨⟨fun h => ⟨?_, ?_⟩, fun h => ⟨?_, ?_, ?_⟩⟩,
    unwrapContentInfo_wrapInContentInfo⟩
  · by_contra hback
    obtain ⟨tlv, htlv⟩ := parseTlv_of_not_forward hback
    exact hback ((tiles_iff htlv).mp (h.tiles tlv htlv))
  · exact (extract_ends_iff data).mp h.ends
  · exact fun tlv htlv => (tiles_iff htlv).mpr h.1
  · exact (extract_ends_iff data).mpr h.2
  · exact fun fuel certs => extract_certificates

theorem readsWell_iff_short :
    ReadsWell [0x04, 0x01, 0x07] ∧
      unwrapContentInfo (wrapInContentInfo [0x07]) = some [0x07] := by
  have hiff := readsWell_iff [0x04, 0x01, 0x07] [0x07]
  refine ⟨hiff.1.mpr ⟨?_, ?_⟩, hiff.2 (by decide)⟩
  · intro headerSize len hheader
    obtain ⟨-, rfl⟩ := Prod.mk.inj (Option.some.inj hheader)
    exact .inl (by decide)
  · have hnone : signedDataFields [0x04, 0x01, 0x07] = none := by decide
    rintro pos (⟨hstart, -, -, -⟩ | ⟨hstart, -, -, -⟩) <;>
      exact absurd (hnone.symm.trans hstart) (Option.some_ne_none _).symm

/-- Signed data in which the field after the first three has the length bytes
`FF FF FF FA`: the header is six bytes long and the length is minus six. -/
def ledBack : Bytes :=
  [0x30, 0x17, 0x06, 0x01, 0x2a, 0xa0, 0x12, 0x30, 0x10, 0x02, 0x01, 0x01,
    0x31, 0x00, 0x30, 0x00, 0x31, 0x84, 0xff, 0xff, 0xff, 0xfa, 0x00, 0x00,
    0x00]

theorem not_readsWell_ledBack :
    (∀ fuel, extractCertsFromPkcs7 fuel ledBack = none) ∧
      ¬ ∀ data, ReadsWell data := by
  have hstart : signedDataFields ledBack = some (ledBack.drop 16) := by decide
  have hheader : headerOf (ledBack.drop 16) = some (6, -6) := by decide
  have hread : ReadToGoOn ledBack (ledBack.drop 16) :=
    .field hstart .refl rfl (by decide)
  have hnever : ¬ ∃ fuel certs, extractCertsFromPkcs7 fuel ledBack =
      some certs := fun h =>
    (extract_ends_iff ledBack).mp h _ hread ⟨6, -6, hheader, .inl (by decide)⟩
  refine ⟨fun fuel => ?_, fun h => hnever (h ledBack).ends⟩
  cases hextract : extractCertsFromPkcs7 fuel ledBack with
  | none => rfl
  | some certs => exact absurd ⟨fuel, certs, hextract⟩ hnever

end Shozee.Pki
