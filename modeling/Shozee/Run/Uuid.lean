import Mathlib.Data.List.Lex
import Mathlib.Data.String.Basic

/-!
# Uuids as a database writes them

The text form is canonical: lower case and dashed. So ids are equal as their
texts are, and a database that compares the bytes orders them as their texts
are ordered.
-/

namespace Shozee.Run

/-- A hexadecimal digit, letters small. -/
def isHexDigit (c : Char) : Bool :=
  c.isDigit || c ∈ ['a', 'b', 'c', 'd', 'e', 'f']

/-- The form in which a database writes an id. -/
def isCanonicalUuid (text : List Char) : Bool :=
  text.length = 36 && text.zipIdx.all fun (c, index) =>
    if index ∈ [8, 13, 18, 23] then c = '-' else isHexDigit c

/-- A uuid in its canonical form. -/
structure Uuid where
  text : String
  canonical : isCanonicalUuid text.toList = true
deriving DecidableEq

theorem canonical_ofList {text : List Char}
    (h : isCanonicalUuid text = true) :
    isCanonicalUuid (String.ofList text).toList = true := by
  rw [String.toList_ofList]
  exact h

namespace Uuid

theorem ext_text {a b : Uuid} (h : a.text.toList = b.text.toList) :
    a = b := by
  cases a
  cases b
  simpa [String.toList_inj] using h

instance : LinearOrder Uuid :=
  LinearOrder.lift' (fun id => id.text.toList) fun _ _ h => ext_text h

theorem length_text (id : Uuid) : id.text.toList.length = 36 := by
  have hcanonical := id.canonical
  unfold isCanonicalUuid at hcanonical
  rw [Bool.and_eq_true, decide_eq_true_eq] at hcanonical
  exact hcanonical.1

theorem mem_text (id : Uuid) {c : Char} (h : c ∈ id.text.toList) :
    c = '-' ∨ isHexDigit c = true := by
  have hcanonical := id.canonical
  unfold isCanonicalUuid at hcanonical
  rw [Bool.and_eq_true, List.all_eq_true] at hcanonical
  obtain ⟨index, hindex, hget⟩ := List.mem_iff_getElem.mp h
  have hchar := hcanonical.2 (c, index) (by
    rw [List.mem_zipIdx_iff_getElem?]
    simp [hindex, hget])
  dsimp only at hchar
  by_cases hplace : index ∈ [8, 13, 18, 23]
  · rw [if_pos hplace, decide_eq_true_eq] at hchar
    exact .inl hchar
  · rw [if_neg hplace] at hchar
    exact .inr hchar

/-- A separator is not in the text of an id. -/
theorem notMem_text (id : Uuid) {c : Char} (hdash : c ≠ '-')
    (hhex : isHexDigit c = false) : c ∉ id.text.toList := by
  intro hmem
  rcases id.mem_text hmem with h | h
  · exact hdash h
  · rw [hhex] at h
    cases h

theorem toLower_of_hexDigit {c : Char} (h : isHexDigit c = true) :
    c.toLower = c := by
  unfold isHexDigit at h
  rw [Bool.or_eq_true] at h
  rcases h with h | h
  · unfold Char.isDigit at h
    unfold Char.toLower
    rw [dif_neg]
    rw [Bool.and_eq_true, decide_eq_true_eq, decide_eq_true_eq] at h
    intro hupper
    exact absurd (UInt32.le_trans hupper.1 h.2) (by decide)
  · rw [decide_eq_true_eq] at h
    simp only [List.mem_cons, List.not_mem_nil, or_false] at h
    rcases h with rfl | rfl | rfl | rfl | rfl | rfl <;> rfl

theorem map_toLower_text (id : Uuid) :
    id.text.toList.map Char.toLower = id.text.toList := by
  conv_rhs => rw [← List.map_id id.text.toList]
  refine List.map_congr_left fun c hc => ?_
  rcases id.mem_text hc with h | h
  · rw [h]
    rfl
  · exact toLower_of_hexDigit h

end Uuid

end Shozee.Run
