import Mathlib.Algebra.GroupWithZero.Nat
import Mathlib.Data.List.Infix

/-!
# Bytes

A `Uint8Array` is a list of bytes. What `subarray` gives for any two indexes, a
negative one counted from the end, is a part of it, and from an index on it is
an end of it. A number is written with its lowest byte first
(`littleEndian`), and read at a place of the bytes.
-/

namespace Shozee.Run

/-- Bytes as a list. -/
abbrev Bytes := List UInt8

/-- The place that an index says: from the end where it is negative, and never
outside. -/
def placeOf (length : ℕ) (index : ℤ) : ℕ :=
  if index < 0 then (length + index).toNat else min index.toNat length

/-- `bytes.subarray(start)`. -/
def subarrayFrom (bytes : Bytes) (start : ℤ) : Bytes :=
  bytes.drop (placeOf bytes.length start)

/-- `bytes.subarray(start, stop)`. -/
def subarray (bytes : Bytes) (start stop : ℤ) : Bytes :=
  (bytes.take (placeOf bytes.length stop)).drop (placeOf bytes.length start)

theorem placeOf_natCast {length index : ℕ} (h : index ≤ length) :
    placeOf length index = index := by
  unfold placeOf
  rw [if_neg (by omega), Int.toNat_natCast, Nat.min_eq_left h]

theorem subarray_natCast (bytes : Bytes) {start stop : ℕ} :
    subarray bytes start stop = (bytes.take stop).drop start := by
  have hplace : ∀ index : ℕ, placeOf bytes.length index =
      min index bytes.length := by
    intro index
    unfold placeOf
    rw [if_neg (by omega), Int.toNat_natCast]
  unfold subarray
  rw [hplace, hplace]
  rcases Nat.le_total start bytes.length with hle | hle
  · rw [Nat.min_eq_left hle, ← List.take_take, List.take_length]
  · rw [Nat.min_eq_right hle, ← List.take_take, List.take_length,
      List.drop_eq_nil_of_le (by simp only [List.length_take]; omega),
      List.drop_eq_nil_of_le (by simp only [List.length_take]; omega)]

/-! ## Numbers

Writing a number in so many bytes and reading it back is the identity for
numbers that fit. -/

/-- A number in so many bytes, the lowest first; what is above them is lost. -/
def littleEndian : ℕ → ℕ → Bytes
  | 0, _ => []
  | width + 1, n => UInt8.ofNat n :: littleEndian width (n / 0x100)

/-- The number that bytes are, the low one first. -/
def ofLittleEndian : Bytes → ℕ
  | [] => 0
  | byte :: rest => byte.toNat + 0x100 * ofLittleEndian rest

theorem length_littleEndian (width n : ℕ) :
    (littleEndian width n).length = width := by
  induction width generalizing n with
  | zero => rfl
  | succ width ih => rw [littleEndian, List.length_cons, ih]

theorem ofLittleEndian_littleEndian {width n : ℕ} (h : n < 0x100 ^ width) :
    ofLittleEndian (littleEndian width n) = n := by
  induction width generalizing n with
  | zero => exact (Nat.lt_one_iff.mp h).symm
  | succ width ih =>
      rw [Nat.pow_succ] at h
      rw [littleEndian, ofLittleEndian, UInt8.toNat_ofNat',
        ih (Nat.div_lt_of_lt_mul (by rwa [Nat.mul_comm] at h))]
      exact Nat.mod_add_div n 0x100

/-- The number at a place, if there are so many bytes from there on. -/
def numberAt (width : ℕ) (bytes : Bytes) (offset : ℕ) : Option ℕ :=
  if bytes.length < offset + width then none
  else some (ofLittleEndian ((bytes.drop offset).take width))

/-! ## Parts at a place

What stands at a place can be cut out there, and the parts of what stands there
stand behind one another. -/

/-- Bytes have a part at an offset. -/
def StandsAt (bytes : Bytes) (offset : ℕ) (part : Bytes) : Prop :=
  ∃ front rest, front.length = offset ∧ bytes = front ++ (part ++ rest)

theorem StandsAt.left {bytes : Bytes} {offset : ℕ} {part more : Bytes}
    (h : StandsAt bytes offset (part ++ more)) : StandsAt bytes offset part := by
  obtain ⟨front, rest, hfront, rfl⟩ := h
  exact ⟨front, more ++ rest, hfront, by rw [List.append_assoc]⟩

theorem StandsAt.right {bytes : Bytes} {offset : ℕ} {part more : Bytes}
    (h : StandsAt bytes offset (part ++ more)) :
    StandsAt bytes (offset + part.length) more := by
  obtain ⟨front, rest, rfl, rfl⟩ := h
  exact ⟨front ++ part, rest, List.length_append, by simp⟩

theorem StandsAt.length_le {bytes : Bytes} {offset : ℕ} {part : Bytes}
    (h : StandsAt bytes offset part) : offset + part.length ≤ bytes.length := by
  obtain ⟨front, rest, rfl, rfl⟩ := h
  simp only [List.length_append]
  omega

theorem StandsAt.subarray_eq {bytes : Bytes} {offset : ℕ} {part : Bytes}
    (h : StandsAt bytes offset part) :
    subarray bytes offset (offset + part.length : ℕ) = part := by
  obtain ⟨front, rest, rfl, rfl⟩ := h
  rw [subarray_natCast, List.take_length_add_append, List.drop_left,
    List.take_left]

theorem StandsAt.numberAt_eq {bytes : Bytes} {offset width n : ℕ}
    (h : StandsAt bytes offset (littleEndian width n)) (hn : n < 0x100 ^ width) :
    numberAt width bytes offset = some n := by
  have hlength := length_littleEndian width n
  have hle := h.length_le
  obtain ⟨front, rest, rfl, rfl⟩ := h
  unfold numberAt
  rw [if_neg (by omega), List.drop_left, List.take_left' hlength,
    ofLittleEndian_littleEndian hn]

/-- Numbers one after the other, each in its width. -/
def fieldBytes (fields : List (ℕ × ℕ)) : Bytes :=
  fields.flatMap fun field => littleEndian field.1 field.2

/-- The width of fields in a row. -/
def widthOf : List (ℕ × ℕ) → ℕ
  | [] => 0
  | field :: fields => widthOf fields + field.1

theorem length_fieldBytes (fields : List (ℕ × ℕ)) :
    (fieldBytes fields).length = widthOf fields := by
  induction fields with
  | nil => rfl
  | cons field fields ih =>
      unfold fieldBytes at ih ⊢
      rw [List.flatMap_cons, List.length_append, length_littleEndian, ih,
        Nat.add_comm]
      rfl

/-- A field is read behind those before it. -/
theorem StandsAt.field {bytes : Bytes} {offset : ℕ} {fields : List (ℕ × ℕ)}
    {tail : Bytes} (h : StandsAt bytes offset (fieldBytes fields ++ tail))
    (k : ℕ) {width n : ℕ} (hfield : fields[k]? = some (width, n))
    (hn : n < 0x100 ^ width) :
    numberAt width bytes (offset + widthOf (fields.take k)) = some n := by
  obtain ⟨hlt, hget⟩ := List.getElem?_eq_some_iff.mp hfield
  have hfields : fieldBytes fields =
      fieldBytes (fields.take k) ++
        (littleEndian width n ++ fieldBytes (fields.drop (k + 1))) := by
    conv_lhs =>
      rw [← List.take_append_drop k fields, List.drop_eq_getElem_cons hlt, hget]
    unfold fieldBytes
    rw [List.flatMap_append, List.flatMap_cons]
  rw [hfields] at h
  rw [← length_fieldBytes]
  exact h.left.right.left.numberAt_eq hn

end Shozee.Run
