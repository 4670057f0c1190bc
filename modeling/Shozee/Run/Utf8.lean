import Shozee.Run.Bytes

/-!
# UTF-8

`TextEncoder`, and the decoder of `TextDecoder`, which keeps what a character
still owes: a byte that it does not owe is answered with a replacement
character and read again as a first byte. A byte order mark in front is not a
part of the text. A text without one is decoded from what it is encoded to
(`decodeText_encodeText`).
-/

namespace Shozee.Run

/-- `new TextEncoder().encode(text)`. -/
def encodeText (text : String) : Bytes :=
  text.toList.flatMap String.utf8EncodeChar

/-- What is read of a character, how many bytes it still owes, and between
what bounds the next one is. -/
structure Decoder where
  codePoint : ℕ
  needed : ℕ
  lower : ℕ
  upper : ℕ
deriving DecidableEq, Repr

/-- The state between two characters. -/
def Decoder.start : Decoder := ⟨0, 0, 0x80, 0xbf⟩

/-- The character for bytes that are none. -/
def replacement : Char := Char.ofNat 0xfffd

/-- The first byte of a character. -/
def firstByte (byte : ℕ) : List Char × Decoder :=
  if byte ≤ 0x7f then ([Char.ofNat byte], .start)
  else if 0xc2 ≤ byte ∧ byte ≤ 0xdf then
    ([], ⟨byte % 0x20, 1, 0x80, 0xbf⟩)
  else if 0xe0 ≤ byte ∧ byte ≤ 0xef then
    ([], ⟨byte % 0x10, 2, if byte = 0xe0 then 0xa0 else 0x80,
      if byte = 0xed then 0x9f else 0xbf⟩)
  else if 0xf0 ≤ byte ∧ byte ≤ 0xf4 then
    ([], ⟨byte % 0x08, 3, if byte = 0xf0 then 0x90 else 0x80,
      if byte = 0xf4 then 0x8f else 0xbf⟩)
  else ([replacement], .start)

/-- One byte. A byte that does not go on a character ends it with a replacement
and is read anew. -/
def nextByte (d : Decoder) (byte : ℕ) : List Char × Decoder :=
  if d.needed = 0 then firstByte byte
  else if d.lower ≤ byte ∧ byte ≤ d.upper then
    let codePoint := d.codePoint * 0x40 + byte % 0x40
    if d.needed = 1 then ([Char.ofNat codePoint], .start)
    else ([], ⟨codePoint, d.needed - 1, 0x80, 0xbf⟩)
  else (replacement :: (firstByte byte).1, (firstByte byte).2)

/-- The characters of bytes; an unfinished one at the end is replaced. -/
def decodeFrom : Decoder → Bytes → List Char
  | d, [] => if d.needed = 0 then [] else [replacement]
  | d, byte :: rest =>
      (nextByte d byte.toNat).1 ++ decodeFrom (nextByte d byte.toNat).2 rest

/-- Bytes without the mark at their beginning. -/
def withoutMark (bytes : Bytes) : Bytes :=
  match bytes with
  | 0xef :: 0xbb :: 0xbf :: rest => rest
  | bytes => bytes

/-- `new TextDecoder().decode(bytes)`. -/
def decodeText (bytes : Bytes) : String :=
  String.ofList (decodeFrom .start (withoutMark bytes))

/-! ## A character

A first byte says how many bytes follow, and each of them brings six bits. -/

theorem decodeFrom_byte (d : Decoder) {n : ℕ} (rest : Bytes) (h : n < 0x100) :
    decodeFrom d (UInt8.ofNat n :: rest) =
      (nextByte d n).1 ++ decodeFrom (nextByte d n).2 rest := by
  have hbyte : (UInt8.ofNat n).toNat = n := by
    rw [UInt8.toNat_ofNat']
    exact Nat.mod_eq_of_lt h
  rw [decodeFrom, hbyte]

/-- A byte that goes on with a character. -/
theorem nextByte_more {codePoint needed lower upper n : ℕ}
    (hlower : lower ≤ n % 0x40 + 0x80) (hupper : n % 0x40 + 0x80 ≤ upper) :
    nextByte ⟨codePoint, needed + 2, lower, upper⟩ (n % 0x40 + 0x80) =
      ([], ⟨codePoint * 0x40 + n % 0x40, needed + 1, 0x80, 0xbf⟩) := by
  unfold nextByte
  dsimp only
  rw [if_neg (by omega), if_pos ⟨hlower, hupper⟩, if_neg (by omega)]
  have hmod : (n % 0x40 + 0x80) % 0x40 = n % 0x40 := by omega
  rw [hmod, Nat.add_sub_cancel (needed + 1) 1]

/-- A byte that ends one. -/
theorem nextByte_last {codePoint lower upper n : ℕ}
    (hlower : lower ≤ n % 0x40 + 0x80) (hupper : n % 0x40 + 0x80 ≤ upper) :
    nextByte ⟨codePoint, 1, lower, upper⟩ (n % 0x40 + 0x80) =
      ([Char.ofNat (codePoint * 0x40 + n % 0x40)], .start) := by
  unfold nextByte
  dsimp only
  rw [if_neg Nat.one_ne_zero, if_pos ⟨hlower, hupper⟩, if_pos rfl]
  have hmod : (n % 0x40 + 0x80) % 0x40 = n % 0x40 := by omega
  rw [hmod]

theorem decodeFrom_encodeChar (c : Char) (rest : Bytes) :
    decodeFrom .start (String.utf8EncodeChar c ++ rest) =
      c :: decodeFrom .start rest := by
  have hself : ∀ n, n = c.toNat → Char.ofNat n = c := by
    rintro n rfl
    exact Char.ofNat_toNat c
  have hvalid : c.toNat < 0xd800 ∨ 0xdfff < c.toNat ∧ c.toNat < 0x110000 :=
    c.valid
  have hfirst : ∀ byte, nextByte .start byte = firstByte byte := fun _ => rfl
  unfold String.utf8EncodeChar
  dsimp only
  have hval : c.val.toNat = c.toNat := rfl
  rw [hval]
  generalize c.toNat = v at hself hvalid ⊢
  split
  next h =>
    rw [List.cons_append, List.nil_append, decodeFrom_byte _ _ (by omega),
      hfirst, firstByte, if_pos (by omega), hself v rfl]
    rfl
  next h =>
    split
    next h' =>
      -- two bytes
      rw [List.cons_append, List.cons_append, List.nil_append,
        decodeFrom_byte _ _ (by omega), hfirst, firstByte, if_neg (by omega),
        if_pos (by omega), List.nil_append, decodeFrom_byte _ _ (by omega),
        nextByte_last (by omega) (by omega), hself _ (by omega)]
      rfl
    next h' =>
      split
      next h'' =>
        -- three
        rw [List.cons_append, List.cons_append, List.cons_append,
          List.nil_append, decodeFrom_byte _ _ (by omega), hfirst, firstByte,
          if_neg (by omega), if_neg (by omega), if_pos (by omega),
          List.nil_append, decodeFrom_byte _ _ (by omega),
          nextByte_more (by split <;> omega) (by split <;> omega),
          List.nil_append, decodeFrom_byte _ _ (by omega),
          nextByte_last (by omega) (by omega), hself _ (by omega)]
        rfl
      next h'' =>
        -- four
        rw [List.cons_append, List.cons_append, List.cons_append,
          List.cons_append, List.nil_append, decodeFrom_byte _ _ (by omega),
          hfirst, firstByte, if_neg (by omega), if_neg (by omega),
          if_neg (by omega), if_pos (by omega), List.nil_append,
          decodeFrom_byte _ _ (by omega),
          nextByte_more (by split <;> omega) (by split <;> omega),
          List.nil_append, decodeFrom_byte _ _ (by omega),
          nextByte_more (by omega) (by omega), List.nil_append,
          decodeFrom_byte _ _ (by omega),
          nextByte_last (by omega) (by omega), hself _ (by omega)]
        rfl

/-! ## A text

Character by character. Only the mark at the front is lost. -/

theorem decodeFrom_encodeChars (chars : List Char) :
    decodeFrom .start (chars.flatMap String.utf8EncodeChar) = chars := by
  induction chars with
  | nil => rfl
  | cons c chars ih =>
      rw [List.flatMap_cons, decodeFrom_encodeChar, ih]

/-- A text that begins with a byte order mark. -/
def MarkFirst (text : String) : Prop :=
  text.toList.head? = some (Char.ofNat 0xfeff)

instance (text : String) : Decidable (MarkFirst text) :=
  inferInstanceAs (Decidable (_ = _))

theorem withoutMark_encodeText {text : String} (h : ¬ MarkFirst text) :
    withoutMark (encodeText text) = encodeText text := by
  unfold withoutMark
  split
  next rest hmark =>
    -- the bytes of the mark are those of one character
    refine absurd ?_ h
    have hchar : String.utf8EncodeChar (Char.ofNat 0xfeff) =
        [0xef, 0xbb, 0xbf] := by decide
    have hdecoded := decodeFrom_encodeChars text.toList
    rw [show text.toList.flatMap String.utf8EncodeChar =
      String.utf8EncodeChar (Char.ofNat 0xfeff) ++ rest by
        rw [hchar]; exact hmark, decodeFrom_encodeChar] at hdecoded
    unfold MarkFirst
    rw [← hdecoded]
    rfl
  next => rfl

theorem decodeText_encodeText {text : String} (h : ¬ MarkFirst text) :
    decodeText (encodeText text) = text := by
  unfold decodeText
  rw [withoutMark_encodeText h, encodeText, decodeFrom_encodeChars,
    String.ofList_toList]

end Shozee.Run
