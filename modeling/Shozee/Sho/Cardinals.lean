import Mathlib.Tactic.Linarith
import Mathlib.Tactic.Positivity
import Mathlib.Tactic.Ring
import Shozee.Sho.Numbers

/-!
# Cardinals said in words

A cardinal is groups of up to three words, each but the last with a scale word
after it, the scales going down. The loop of `readCardinal` takes a group in
word by word (`readLoop_group`) and a scale word after it (`readLoop_scale`),
so by induction all of them, with one exception: a scale word right after
another is not read. The cardinal is read for what it says just when there is
none (`cardinal_read_iff`).
-/

namespace Shozee.Sho.Numbers

/-! ## Well-formed cardinals

The cardinals as data, with their words and their value. A scale may stand
without a group in front. -/

/-- A listed form of a kind, with what it is worth. -/
structure NumberForm (kind : NumberWordKind) where
  word : String
  value : ℚ
  listed : ∃ entry ∈ numberForms kind,
    entry.1 = value ∧ word ∈ entry.2

/-- What follows the hundreds. -/
inductive GroupTail
  | teen (form : NumberForm .teen)
  | tens (ten : Option (NumberForm .ten)) (unit : Option (NumberForm .unit))

/-- A number below a thousand as it is said. -/
structure Group where
  hundred : Option (NumberForm .hundred)
  tail : GroupTail

/-- The word of a form, if it is said. -/
def formWords {kind : NumberWordKind} (form : Option (NumberForm kind)) :
    List String :=
  form.toList.map NumberForm.word

/-- The value of a form, nothing if it is not said. -/
def formValue {kind : NumberWordKind} (form : Option (NumberForm kind)) : ℚ :=
  form.elim 0 NumberForm.value

/-- The words after the hundreds. -/
def GroupTail.words : GroupTail → List String
  | .teen form => [form.word]
  | .tens ten unit => formWords ten ++ formWords unit

/-- Their value. -/
def GroupTail.value : GroupTail → ℚ
  | .teen form => form.value
  | .tens ten unit => formValue ten + formValue unit

/-- The words of a group. -/
def Group.words (group : Group) : List String :=
  formWords group.hundred ++ group.tail.words

/-- The value of a group. -/
def Group.value (group : Group) : ℚ :=
  formValue group.hundred + group.tail.value

/-- A group in front of a multiplier. -/
structure ScaledGroup where
  group : Group
  scale : NumberForm .mult

/-- The words of both. -/
def ScaledGroup.words (scaled : ScaledGroup) : List String :=
  scaled.group.words ++ [scaled.scale.word]

/-- A scale with no group counts one. -/
def ScaledGroup.value (scaled : ScaledGroup) : ℚ :=
  (if scaled.group.words = [] then 1 else scaled.group.value) *
    scaled.scale.value

/-- A number as it is said: groups with multipliers that get smaller, and a
last one without. -/
structure Cardinal where
  scaled : List ScaledGroup
  last : Group
  decreasing : scaled.Pairwise fun s t => t.scale.value < s.scale.value
  nonempty : scaled ≠ [] ∨ last.words ≠ []

/-- The words of a cardinal. -/
def Cardinal.words (cardinal : Cardinal) : List String :=
  (cardinal.scaled.map ScaledGroup.words).flatten ++ cardinal.last.words

/-- The value of a cardinal. -/
def Cardinal.value (cardinal : Cardinal) : ℚ :=
  (cardinal.scaled.map ScaledGroup.value).sum + cardinal.last.value

/-- No scale word stands right after another. -/
def Cardinal.ScalesApart (cardinal : Cardinal) : Prop :=
  ∀ scaled ∈ cardinal.scaled.tail, scaled.group.words ≠ []

section Reader

variable (number : List Char → Option ℚ)

/-- What stands after a cardinal is no word that goes on with it: no number
word, no digits that belong to the thousands before them, and no «and a half».
-/
structure Cardinal.Stops (cardinal : Cardinal) (after : List String) : Prop where
  noHalf : halfFollows after = false
  noWord : ∀ word ∈ after.head?, ∀ kind,
    (classifyNumber number word).kind = some (.word kind) →
      kind = .half ∨ kind = .oneHalf
  noDigits : cardinal.last.words = [] → ∀ word ∈ after.head?,
    (classifyNumber number word).kind = some .digits →
      belowThousand (classifyNumber number word).value = false

/-! ## Forms

Every listed form is found under its own word, as no word is listed twice. To
compare the words of all forms with one another they are told apart by numbers.
-/

/-- The bytes of a word as one number. -/
def byteCode (word : String) : ℕ :=
  word.toByteArray.data.toList.foldl (fun code byte =>
    code * 256 + byte.toNat) 0

/-- The codes differ from each other and from those in the set `seen`. -/
def differ (seen : ℕ) : List ℕ → Bool
  | [] => true
  | code :: codes => !seen.testBit code && differ (seen ||| 1 <<< code) codes

theorem differ_sound {codes : List ℕ} {seen : ℕ}
    (h : differ seen codes = true) :
    codes.Nodup ∧ ∀ code ∈ codes, seen.testBit code = false := by
  induction codes generalizing seen with
  | nil => exact ⟨List.nodup_nil, fun code hcode => nomatch hcode⟩
  | cons code codes ih =>
      rw [differ, Bool.and_eq_true, Bool.not_eq_true'] at h
      obtain ⟨hnodup, hfresh⟩ := ih h.2
      have happart : ∀ other ∈ codes,
          seen.testBit other = false ∧ other ≠ code := by
        intro other hother
        have hbit := hfresh other hother
        rw [Nat.testBit_or, Bool.or_eq_false_iff] at hbit
        refine ⟨hbit.1, ?_⟩
        rintro rfl
        rw [Nat.one_shiftLeft, Nat.testBit_two_pow_self] at hbit
        cases hbit.2
      refine ⟨List.nodup_cons.mpr ⟨fun hmem => (happart code hmem).2 rfl,
        hnodup⟩, ?_⟩
      exact List.forall_mem_cons.mpr
        ⟨h.1, fun other hother => (happart other hother).1⟩

/-- The remainders by 3067 happen to tell the forms apart, and none of the forms
begins with a byte below 128. -/
theorem forms_checked :
    differ 0 ((andWords ++ numberWordTable.map Prod.fst).map
      fun word => byteCode word % 3067) = true ∧
    ∀ entry ∈ numberWordTable,
      entry.1.toByteArray.data.toList.head?.all (128 ≤ ·) = true := by
  decide +kernel

/-- No form is listed twice, and none is a word for «and». -/
theorem nodup_forms : (andWords ++ numberWordTable.map Prod.fst).Nodup :=
  List.Nodup.of_map _ (differ_sound forms_checked.1).1

/-- A word whose first byte is not below 128 starts with no ASCII character. -/
theorem head_of_firstByte {word : String}
    (h : word.toByteArray.data.toList.head?.all (128 ≤ ·) = true) :
    ∀ head ∈ word.toList.head?, 128 ≤ head.toNat := by
  obtain ⟨chars, rfl⟩ : ∃ chars, word = String.ofList chars :=
    ⟨word.toList, String.ofList_toList.symm⟩
  rw [String.toList_ofList]
  rw [String.toByteArray_ofList] at h
  cases chars with
  | nil => exact fun head hhead => nomatch hhead
  | cons first rest =>
      rintro head ⟨⟩
      by_contra hlt
      have hlow : first.val.toNat ≤ 127 := Nat.not_lt.mp hlt
      rw [List.utf8Encode_cons, List.utf8Encode_singleton,
        String.utf8EncodeChar_eq_singleton (Char.utf8Size_eq_one_iff.mpr hlow)]
        at h
      have hbyte : (128 : UInt8) ≤ first.val.toUInt8 := by simpa using h
      rw [UInt8.le_iff_toNat_le, UInt32.toNat_toUInt8] at hbyte
      have h128 : (128 : UInt8).toNat = 128 := rfl
      omega

theorem head_listed : ∀ entry ∈ numberWordTable,
    (entry.1.toList.head?.any fun head =>
      isAsciiDigit head || head = '+') = false := by
  intro entry hentry
  have hhead := head_of_firstByte (forms_checked.2 entry hentry)
  cases hfirst : entry.1.toList.head? with
  | none => rfl
  | some head =>
      have hlarge := hhead head hfirst
      have hdigit : isAsciiDigit head = false := by
        rw [isAsciiDigit, Bool.and_eq_false_iff]
        refine Or.inr (decide_eq_false fun hnine => ?_)
        have hle : head.toNat ≤ 57 := hnine
        omega
      have hplus : head ≠ '+' := by
        rintro rfl
        exact absurd hlarge (by decide)
      rw [Option.any_some, hdigit, decide_eq_false hplus]
      rfl

theorem lookup_of_nodup {β : Type} {entries : List (String × β)}
    (hnodup : (entries.map Prod.fst).Nodup) {word : String} {value : β}
    (hmem : (word, value) ∈ entries) : entries.lookup word = some value := by
  induction entries with
  | nil => cases hmem
  | cons entry entries ih =>
      obtain ⟨hnot, hnodup⟩ := List.nodup_cons.mp hnodup
      rw [List.lookup_cons]
      rcases List.mem_cons.mp hmem with rfl | hmem
      · rw [beq_self_eq_true word]
      · have hne : word ≠ entry.1 := by
          rintro rfl
          exact hnot (List.mem_map.mpr ⟨_, hmem, rfl⟩)
        rw [beq_false_of_ne hne]
        exact ih hnodup hmem

theorem lookup_listed : ∀ kind ∈ numberWordKinds, ∀ entry ∈ numberForms kind,
    ∀ form ∈ entry.2,
      numberWordTable.lookup form = some (kind, entry.1) ∧
        (form.toList.head?.any fun head =>
          isAsciiDigit head || head = '+') = false ∧
        andWords.contains form = false := by
  intro kind hkind entry hentry form hform
  have hmem : (form, kind, entry.1) ∈ numberWordTable := by
    refine List.mem_flatMap.mpr ⟨kind, hkind, ?_⟩
    refine List.mem_flatMap.mpr ⟨entry, hentry, ?_⟩
    exact List.mem_map.mpr ⟨form, hform, rfl⟩
  obtain ⟨-, hnodup, hapart⟩ := List.nodup_append.mp nodup_forms
  refine ⟨lookup_of_nodup hnodup hmem, head_listed _ hmem, ?_⟩
  have hnot : form ∉ andWords := fun hand =>
    hapart form hand form (List.mem_map_of_mem hmem) rfl
  simpa using hnot

theorem mem_numberWordKinds (kind : NumberWordKind) :
    kind ∈ numberWordKinds := by
  cases kind <;> decide

variable {kind : NumberWordKind}

theorem NumberForm.classify (form : NumberForm kind) :
    classifyNumber number form.word =
      ⟨some (.word kind), some form.value⟩ := by
  obtain ⟨entry, hentry, hvalue, hform⟩ := form.listed
  obtain ⟨hlookup, hhead, -⟩ :=
    lookup_listed kind (mem_numberWordKinds kind) entry hentry form.word hform
  unfold classifyNumber
  rw [hhead, if_neg Bool.false_ne_true, hlookup, hvalue]

theorem NumberForm.not_and (form : NumberForm kind) (rest : List String) :
    halfFollows (form.word :: rest) = false := by
  obtain ⟨entry, hentry, -, hform⟩ := form.listed
  obtain ⟨-, -, hand⟩ :=
    lookup_listed kind (mem_numberWordKinds kind) entry hentry form.word hform
  cases rest with
  | nil => rfl
  | cons next rest => rw [halfFollows, hand, Bool.false_and]

theorem NumberForm.value_isInt (form : NumberForm kind)
    (hkind : kind ≠ .half ∧ kind ≠ .oneHalf) : ∃ n : ℤ, form.value = n := by
  obtain ⟨entry, hentry, hvalue, -⟩ := form.listed
  have hden : ∀ kind ∈ numberWordKinds, kind ≠ .half ∧ kind ≠ .oneHalf →
      ∀ entry ∈ numberForms kind, entry.1.den = 1 := by
    decide
  have hone := hden kind (mem_numberWordKinds kind) hkind entry hentry
  exact ⟨entry.1.num, by rw [← hvalue, Rat.coe_int_num_of_den_eq_one hone]⟩

/-! ## Steps of the loop -/

-- The equations of the loop are made once, for all the lemmas below.
attribute [local simp] readLoop readWord

theorem readLoop_form (form : NumberForm kind) {previous : String}
    {total group : ℚ} {last : Option Last} (h : last ∈ follows kind)
    (index : ℕ) (rest : List String) :
    readLoop number previous ⟨some total, some group, last⟩ index
        (form.word :: rest) =
      readLoop number form.word
        ⟨some total, some (group + form.value), some kind.toLast⟩ (index + 1)
        rest := by
  rw [readLoop, readWord, form.classify number]
  dsimp only
  rw [if_pos h]
  rfl

theorem not_mem_follows_mult (last : Option Last) :
    last ∉ follows .mult :=
  List.not_mem_nil

/-- A scale word after a group, or at the start. -/
theorem readLoop_scale (form : NumberForm .mult) {previous : String}
    {total group : ℚ} {last : Option Last} (h : last ≠ some .mult)
    (index : ℕ) (rest : List String) :
    readLoop number previous ⟨some total, some group, last⟩ index
        (form.word :: rest) =
      readLoop number form.word
        ⟨some (total + (if last = none then 1 else group) * form.value),
          some 0, some .mult⟩ (index + 1) rest := by
  rw [readLoop, readWord, form.classify number]
  dsimp only
  rw [if_neg (not_mem_follows_mult last), if_pos ⟨rfl, h⟩]
  by_cases hlast : last = none
  · rw [if_neg (not_not.mpr hlast), if_pos hlast]
    rfl
  · rw [if_pos hlast, if_neg hlast]
    rfl

/-- A scale word after another is not read. -/
theorem readLoop_scale_again (form : NumberForm .mult) (previous : String)
    (total group : ℚ) (index : ℕ) (rest : List String) :
    readLoop number previous ⟨some total, some group, some .mult⟩ index
        (form.word :: rest) =
      (some (total + group), index) := by
  rw [readLoop, readWord, form.classify number]
  dsimp only
  rw [if_neg (not_mem_follows_mult _), if_neg (fun h => h.2 rfl),
    if_neg (by simp), if_neg (by simp [form.not_and rest])]
  rfl

/-! ## Groups

The words of a group go from larger kinds to smaller ones, so each may follow
the one before. What matters for what comes next is the kind of the last word.
-/

/-- The kind of the last word, once a form that may be there is read. -/
def lastAfter {kind : NumberWordKind} (last : Option Last)
    (form : Option (NumberForm kind)) : Option Last :=
  form.elim last fun _ => some kind.toLast

/-- What the reader remembers after the end of a group. -/
def GroupTail.lastAfter (last : Option Last) : GroupTail → Option Last
  | .teen _ => some .teen
  | .tens ten unit => Numbers.lastAfter (Numbers.lastAfter last ten) unit

/-- What the reader remembers after a group. -/
def Group.lastAfter (last : Option Last) (group : Group) : Option Last :=
  group.tail.lastAfter (Numbers.lastAfter last group.hundred)

theorem readLoop_formWords (form : Option (NumberForm kind))
    (previous : String) (total group : ℚ) {last : Option Last}
    (h : last ∈ follows kind) (index : ℕ) (rest : List String) :
    ∃ previous', readLoop number previous ⟨some total, some group, last⟩ index
        (formWords form ++ rest) =
      readLoop number previous'
        ⟨some total, some (group + formValue form), lastAfter last form⟩
        (index + (formWords form).length) rest := by
  cases form with
  | none =>
      refine ⟨previous, ?_⟩
      rw [show formValue (none : Option (NumberForm kind)) = 0 from rfl,
        add_zero]
      rfl
  | some form => exact ⟨form.word, readLoop_form number form h index rest⟩

theorem lastAfter_mem {last : Option Last} {lasts : List (Option Last)}
    (form : Option (NumberForm kind)) (h : last ∈ lasts)
    (hkind : some kind.toLast ∈ lasts) : lastAfter last form ∈ lasts := by
  cases form with
  | none => exact h
  | some form => exact hkind

theorem readLoop_tail (tail : GroupTail) (previous : String) (total group : ℚ)
    {last : Option Last} (h : last ∈ follows .ten) (index : ℕ)
    (rest : List String) :
    ∃ previous', readLoop number previous ⟨some total, some group, last⟩ index
        (tail.words ++ rest) =
      readLoop number previous'
        ⟨some total, some (group + tail.value), tail.lastAfter last⟩
        (index + tail.words.length) rest := by
  cases tail with
  | teen form => exact ⟨form.word, readLoop_form number form h index rest⟩
  | tens ten unit =>
      have hunit : lastAfter last ten ∈ follows .unit :=
        lastAfter_mem ten (List.mem_of_mem_dropLast (l := follows .unit) h)
          (by decide)
      obtain ⟨previous₁, hten⟩ := readLoop_formWords number ten previous total
        group h index (formWords unit ++ rest)
      obtain ⟨previous₂, hunit⟩ := readLoop_formWords number unit previous₁
        total (group + formValue ten) hunit (index + (formWords ten).length)
        rest
      refine ⟨previous₂, ?_⟩
      rw [GroupTail.words, List.append_assoc, hten, hunit, GroupTail.value,
        List.length_append, add_assoc, add_assoc]
      rfl

theorem readLoop_group (group : Group) (previous : String) (total : ℚ)
    {last : Option Last} (h : last ∈ follows .hundred) (index : ℕ)
    (rest : List String) :
    ∃ previous', readLoop number previous ⟨some total, some 0, last⟩ index
        (group.words ++ rest) =
      readLoop number previous'
        ⟨some total, some group.value, group.lastAfter last⟩
        (index + group.words.length) rest := by
  have hten : lastAfter last group.hundred ∈ follows .ten :=
    lastAfter_mem group.hundred
      (List.mem_of_mem_dropLast (l := follows .ten) h) (by decide)
  obtain ⟨previous₁, hhundred⟩ := readLoop_formWords number group.hundred
    previous total 0 h index (group.tail.words ++ rest)
  obtain ⟨previous₂, htail⟩ := readLoop_tail number group.tail previous₁ total
    (0 + formValue group.hundred) hten
    (index + (formWords group.hundred).length) rest
  refine ⟨previous₂, ?_⟩
  rw [Group.words, List.append_assoc, hhundred, htail, zero_add,
    List.length_append, add_assoc]
  rfl

theorem Group.lastAfter_of_nil {group : Group} (h : group.words = [])
    (last : Option Last) : group.lastAfter last = last ∧ group.value = 0 := by
  obtain ⟨hundred, tail⟩ := group
  cases hundred with
  | some form => cases h
  | none =>
      cases tail with
      | teen form => cases h
      | tens ten unit =>
          cases ten with
          | some form => cases h
          | none =>
              cases unit with
              | some form => cases h
              | none =>
                  exact ⟨rfl, by norm_num [value, GroupTail.value, formValue]⟩

/-- What a group can end with. -/
def groupLasts : List (Option Last) :=
  [some .hundred, some .teen, some .ten, some .unit]

theorem Group.lastAfter_of_ne {group : Group} (h : group.words ≠ [])
    (last : Option Last) : group.lastAfter last ∈ groupLasts := by
  obtain ⟨hundred, tail⟩ := group
  cases tail with
  | teen form => exact (by decide : some Last.teen ∈ groupLasts)
  | tens ten unit =>
      cases unit with
      | some form => exact (by decide : some Last.unit ∈ groupLasts)
      | none =>
          cases ten with
          | some form => exact (by decide : some Last.ten ∈ groupLasts)
          | none =>
              cases hundred with
              | some form => exact (by decide : some Last.hundred ∈ groupLasts)
              | none => exact absurd rfl h

/-! ## Scales

A scale word multiplies the group before it. One right after another is not
read, and ends the cardinal there. -/

/-- A group with its scale word; the group may be missing at the start. -/
theorem readLoop_scaledGroup (scaled : ScaledGroup) (previous : String)
    (total : ℚ) {last : Option Last} (hlast : last ∈ follows .hundred)
    (h : scaled.group.words = [] → last = none) (index : ℕ)
    (rest : List String) :
    ∃ previous', readLoop number previous ⟨some total, some 0, last⟩ index
        (scaled.words ++ rest) =
      readLoop number previous'
        ⟨some (total + scaled.value), some 0, some .mult⟩
        (index + scaled.words.length) rest := by
  obtain ⟨previous', hgroup⟩ := readLoop_group number scaled.group previous
    total hlast index (scaled.scale.word :: rest)
  refine ⟨scaled.scale.word, ?_⟩
  rw [ScaledGroup.words, List.append_assoc, List.singleton_append, hgroup,
    List.length_append, List.length_singleton, ← add_assoc]
  by_cases hnil : scaled.group.words = []
  · obtain ⟨hsame, -⟩ := Group.lastAfter_of_nil hnil last
    rw [hsame, h hnil, readLoop_scale number _ (by simp), if_pos rfl,
      ScaledGroup.value, if_pos hnil]
  · have hmem := Group.lastAfter_of_ne hnil last
    have hmult : scaled.group.lastAfter last ≠ some .mult := by
      intro heq
      rw [heq] at hmem
      exact absurd hmem (by decide)
    have hnone : scaled.group.lastAfter last ≠ none := by
      intro heq
      rw [heq] at hmem
      exact absurd hmem (by decide)
    rw [readLoop_scale number _ hmult, if_neg hnone, ScaledGroup.value,
      if_neg hnil]

/-- The last word, once the scaled groups are read. -/
def lastScaled (last : Option Last) : List ScaledGroup → Option Last
  | [] => last
  | _ :: _ => some .mult

theorem readLoop_scaled (scaled : List ScaledGroup) (previous : String)
    (total : ℚ) {last : Option Last} (hlast : last ∈ follows .hundred)
    (hhead : ∀ s ∈ scaled.head?, s.group.words = [] → last = none)
    (htail : ∀ s ∈ scaled.tail, s.group.words ≠ []) (index : ℕ)
    (rest : List String) :
    ∃ previous', readLoop number previous ⟨some total, some 0, last⟩ index
        ((scaled.map ScaledGroup.words).flatten ++ rest) =
      readLoop number previous'
        ⟨some (total + (scaled.map ScaledGroup.value).sum), some 0,
          lastScaled last scaled⟩
        (index + ((scaled.map ScaledGroup.words).flatten).length) rest := by
  induction scaled generalizing previous total last index with
  | nil =>
      refine ⟨previous, ?_⟩
      rw [List.map_nil, List.map_nil, List.sum_nil, add_zero]
      rfl
  | cons s scaled ih =>
      obtain ⟨previous₁, hfirst⟩ := readLoop_scaledGroup number s previous
        total hlast (hhead s rfl) index
        ((scaled.map ScaledGroup.words).flatten ++ rest)
      have hhead' : ∀ t ∈ scaled.head?, t.group.words = [] →
          some Last.mult = none := fun t ht hnil =>
        absurd hnil (htail t (List.mem_of_mem_head? ht))
      obtain ⟨previous₂, hrest⟩ := ih previous₁ (total + s.value)
        (by decide : some Last.mult ∈ follows .hundred) hhead'
        (fun t ht => htail t (List.mem_of_mem_tail ht))
        (index + s.words.length)
      refine ⟨previous₂, ?_⟩
      rw [List.map_cons, List.flatten_cons, List.append_assoc, hfirst, hrest,
        List.map_cons, List.sum_cons, List.length_append, ← add_assoc,
        ← add_assoc]
      cases scaled with
      | nil => rfl
      | cons t scaled => rfl

/-- A bare scale word after a scale word ends the reading. -/
theorem readLoop_bare {scaled : List ScaledGroup}
    (h : ¬ ∀ s ∈ scaled.tail, s.group.words ≠ []) (previous : String)
    (index : ℕ) (rest : List String) :
    ∃ value stop, readLoop number previous ⟨some 0, some 0, none⟩ index
        ((scaled.map ScaledGroup.words).flatten ++ rest) = (value, stop) ∧
      stop < index + ((scaled.map ScaledGroup.words).flatten).length := by
  cases scaled with
  | nil => exact absurd (fun s hs => absurd hs List.not_mem_nil) h
  | cons first scaled =>
      -- The first of the bare ones.
      obtain ⟨bare, hbare⟩ : ∃ bare, scaled.find? (fun s =>
          s.group.words.isEmpty) = some bare := by
        refine Option.isSome_iff_exists.mp (List.find?_isSome.mpr ?_)
        simp only [not_forall, not_not] at h
        obtain ⟨s, hs, hnil⟩ := h
        exact ⟨s, hs, List.isEmpty_iff.mpr hnil⟩
      obtain ⟨hnil, before, after, rfl, hbefore⟩ :=
        List.find?_eq_some_iff_append.mp hbare
      have hwords : bare.words = [bare.scale.word] := by
        rw [ScaledGroup.words, List.isEmpty_iff.mp hnil, List.nil_append]
      have hsplit : ((first :: (before ++ bare :: after)).map
          ScaledGroup.words).flatten =
            ((first :: before).map ScaledGroup.words).flatten ++
              bare.scale.word ::
                (after.map ScaledGroup.words).flatten := by
        simp only [List.map_cons, List.map_append, List.flatten_cons,
          List.flatten_append, hwords, List.append_assoc,
          List.singleton_append]
      obtain ⟨previous', hread⟩ := readLoop_scaled number (first :: before)
        previous 0 (by decide : none ∈ follows .hundred) (fun _ _ _ => rfl)
        (fun s hs => by simpa using hbefore s hs) index
        (bare.scale.word :: (after.map ScaledGroup.words).flatten ++ rest)
      rw [hsplit, List.append_assoc, hread, List.cons_append]
      refine ⟨_, _, readLoop_scale_again number _ _ _ _ _ _, ?_⟩
      rw [List.length_append, List.length_cons]
      omega

/-! ## The whole cardinal

From the groups to the whole, and what may stand after a cardinal without being
taken for a part of it. -/

/-- What stands after the cardinal ends the reading. -/
theorem Cardinal.Stops.readLoop_eq {cardinal : Cardinal}
    {after : List String} (h : cardinal.Stops number after)
    (previous : String) (total group : ℚ) {last : Option Last}
    (hword : last ≠ none)
    (hlast : last = some .mult ∧ cardinal.last.words = [] ∨
      last ∈ groupLasts) (index : ℕ) :
    readLoop number previous ⟨some total, some group, last⟩ index after =
      (some (total + group), index) := by
  cases after with
  | nil => rfl
  | cons word rest =>
      have hahead : readWord number previous word rest
          ⟨some total, some group, last⟩ =
            .done (some (total + group)) 0 := by
        have hhalf : ¬ (last ≠ none ∧ halfFollows (word :: rest)) := by
          rw [h.noHalf]
          exact fun h => Bool.false_ne_true h.2
        unfold readWord
        dsimp only
        rw [if_neg hhalf]
        cases hkind : (classifyNumber number word).kind with
        | none => rfl
        | some kind =>
            cases kind with
            | gluedHalf => exact if_neg hword
            | word kind =>
                have hno : last ∉ follows kind ∧ kind ≠ .mult := by
                  rcases h.noWord word rfl kind hkind with rfl | rfl <;>
                    exact ⟨List.not_mem_nil, by decide⟩
                dsimp only
                rw [if_neg hno.1, if_neg (fun h => hno.2 h.1),
                  if_neg (fun h => hword h.2)]
                rfl
            | digits =>
                have hdigits : last ≠ some .digits := by
                  rintro rfl
                  rcases hlast with h | h
                  · exact absurd h.1 (by decide)
                  · exact absurd h (by decide)
                have hthousands : ¬ (last = some .mult ∧ belowThousand
                    (classifyNumber number word).value = true) := by
                  rintro ⟨rfl, hbelow⟩
                  rcases hlast with hnil | hmem
                  · rw [h.noDigits hnil.2 word rfl hkind] at hbelow
                    cases hbelow
                  · exact absurd hmem (by decide)
                dsimp only
                rw [if_neg hword, if_neg (fun h => hdigits h.1),
                  if_neg hthousands]
                rfl
      rw [readLoop, hahead]
      rfl

theorem Cardinal.readLoop_eq {cardinal : Cardinal} {after : List String}
    (hapart : cardinal.ScalesApart) (hstops : cardinal.Stops number after)
    (previous : String) (index : ℕ) :
    readLoop number previous ⟨some 0, some 0, none⟩ index
        (cardinal.words ++ after) =
      (some cardinal.value, index + cardinal.words.length) := by
  obtain ⟨previous₁, hscaled⟩ := readLoop_scaled number cardinal.scaled
    previous 0 (by decide : none ∈ follows .hundred) (fun _ _ _ => rfl) hapart
    index (cardinal.last.words ++ after)
  have hhundred : lastScaled none cardinal.scaled ∈ follows .hundred := by
    cases cardinal.scaled with
    | nil => decide
    | cons s scaled => exact (by decide : some Last.mult ∈ follows .hundred)
  obtain ⟨previous₂, hlast⟩ := readLoop_group number cardinal.last previous₁
    (0 + (cardinal.scaled.map ScaledGroup.value).sum) hhundred
    (index + ((cardinal.scaled.map ScaledGroup.words).flatten).length) after
  rw [Cardinal.words, List.append_assoc, hscaled, hlast, Cardinal.value,
    List.length_append, ← add_assoc, zero_add]
  by_cases hnil : cardinal.last.words = []
  · obtain ⟨hsame, -⟩ := Group.lastAfter_of_nil hnil
      (lastScaled none cardinal.scaled)
    have hmult : lastScaled none cardinal.scaled = some .mult := by
      cases hscaled : cardinal.scaled with
      | nil =>
          rcases cardinal.nonempty with h | h
          · exact absurd hscaled h
          · exact absurd hnil h
      | cons s scaled => rfl
    rw [hsame, hmult]
    exact hstops.readLoop_eq number _ _ _ (by decide) (Or.inl ⟨rfl, hnil⟩) _
  · have hmem := Group.lastAfter_of_ne hnil (lastScaled none cardinal.scaled)
    refine hstops.readLoop_eq number _ _ _ ?_ (Or.inr hmem) _
    intro hnone
    rw [hnone] at hmem
    exact absurd hmem (by decide)

/-- A word that a group or a scale is said with. -/
def Says (word : String) : Prop :=
  ∃ kind, ∃ form : NumberForm kind, word = form.word ∧ kind ≠ .half ∧
    kind ≠ .oneHalf

theorem says_formWords (hkind : kind ≠ .half ∧ kind ≠ .oneHalf)
    {form : Option (NumberForm kind)} {word : String}
    (h : word ∈ formWords form) : Says word := by
  obtain ⟨said, -, rfl⟩ := List.mem_map.mp h
  exact ⟨kind, said, rfl, hkind⟩

theorem Group.says {group : Group} {word : String} (h : word ∈ group.words) :
    Says word := by
  obtain ⟨hundred, tail⟩ := group
  rcases List.mem_append.mp h with h | h
  · exact says_formWords (by decide) h
  · cases tail with
    | teen form => exact ⟨.teen, form, List.mem_singleton.mp h, by decide⟩
    | tens ten unit =>
        rcases List.mem_append.mp h with h | h
        · exact says_formWords (by decide) h
        · exact says_formWords (by decide) h

theorem Cardinal.says {cardinal : Cardinal} {word : String}
    (h : word ∈ cardinal.words) : Says word := by
  rcases List.mem_append.mp h with h | h
  · obtain ⟨words, hwords, hword⟩ := List.mem_flatten.mp h
    obtain ⟨scaled, -, rfl⟩ := List.mem_map.mp hwords
    rcases List.mem_append.mp hword with hword | hword
    · exact Group.says hword
    · exact ⟨.mult, scaled.scale, List.mem_singleton.mp hword, by decide⟩
  · exact Group.says h

theorem Cardinal.words_ne_nil (cardinal : Cardinal) : cardinal.words ≠ [] := by
  unfold words
  rcases cardinal.nonempty with h | h
  · obtain ⟨s, scaled, hscaled⟩ := List.exists_cons_of_ne_nil h
    rw [hscaled, List.map_cons, List.flatten_cons, ScaledGroup.words]
    simp
  · exact fun hnil => h (List.append_eq_nil_iff.mp hnil).2

theorem Cardinal.words_eq_cons (cardinal : Cardinal) :
    ∃ word rest, cardinal.words = word :: rest ∧ Says word := by
  obtain ⟨word, rest, hwords⟩ :=
    List.exists_cons_of_ne_nil cardinal.words_ne_nil
  exact ⟨word, rest, hwords, Cardinal.says (hwords ▸ List.mem_cons_self)⟩

/-- The sum of whole forms is whole, and rounding leaves it. -/
theorem formValue_isInt (hkind : kind ≠ .half ∧ kind ≠ .oneHalf)
    (form : Option (NumberForm kind)) : ∃ n : ℤ, formValue form = n := by
  cases form with
  | none => exact ⟨0, rfl⟩
  | some form => exact form.value_isInt hkind

theorem Group.value_isInt (group : Group) : ∃ n : ℤ, group.value = n := by
  obtain ⟨m, hm⟩ := formValue_isInt (by decide) group.hundred
  have htail : ∃ n : ℤ, group.tail.value = n := by
    cases group.tail with
    | teen form => exact form.value_isInt (by decide)
    | tens ten unit =>
        obtain ⟨k, hk⟩ := formValue_isInt (by decide) ten
        obtain ⟨l, hl⟩ := formValue_isInt (by decide) unit
        exact ⟨k + l, by rw [GroupTail.value, hk, hl, Int.cast_add]⟩
  obtain ⟨n, hn⟩ := htail
  exact ⟨m + n, by rw [Group.value, hm, hn, Int.cast_add]⟩

theorem Cardinal.value_isInt (cardinal : Cardinal) :
    ∃ n : ℤ, cardinal.value = n := by
  have hscaled : ∀ scaled : List ScaledGroup,
      ∃ n : ℤ, (scaled.map ScaledGroup.value).sum = n := by
    intro scaled
    induction scaled with
    | nil => exact ⟨0, rfl⟩
    | cons s scaled ih =>
        obtain ⟨n, hn⟩ := ih
        obtain ⟨k, hk⟩ := s.scale.value_isInt (by decide)
        obtain ⟨g, hg⟩ := s.group.value_isInt
        rw [List.map_cons, List.sum_cons, ScaledGroup.value, hn, hk, hg]
        by_cases hnil : s.group.words = []
        · exact ⟨k + n, by rw [if_pos hnil, one_mul, Int.cast_add]⟩
        · exact ⟨g * k + n, by
            rw [if_neg hnil, Int.cast_add, Int.cast_mul]⟩
  obtain ⟨m, hm⟩ := hscaled cardinal.scaled
  obtain ⟨n, hn⟩ := cardinal.last.value_isInt
  exact ⟨m + n, by rw [Cardinal.value, hm, hn, Int.cast_add]⟩

theorem cleanNumber_intCast (n : ℤ) : cleanNumber n = n := by
  have hfloor : ⌊(n : ℚ) * 1000000 + 1 / 2⌋ = n * 1000000 := by
    rw [Int.floor_eq_iff]
    push_cast
    exact ⟨by linarith, by linarith⟩
  rw [cleanNumber, hfloor]
  push_cast
  ring

/-! ## What is read

The cardinal inside a longer text. The example is a million and a thousand,
each said with the bare scale word. -/

theorem Cardinal.stops_nil (cardinal : Cardinal) :
    cardinal.Stops number [] where
  noHalf := rfl
  noWord word h := absurd h (Option.not_mem_none word)
  noDigits _ word h := absurd h (Option.not_mem_none word)

theorem readCardinal_append (before words : List String) :
    readCardinal number (before ++ words) before.length =
      readLoop number (before.getLast?.getD "") ⟨some 0, some 0, none⟩
        before.length words := by
  rw [readCardinal, List.take_left, List.drop_left]

theorem wordNumberAt_append {word : String} (h : Says word)
    (before rest : List String) :
    wordNumberAt number (before ++ word :: rest) before.length =
      let read := readCardinal number (before ++ word :: rest) before.length
      if before.length < read.2 then some read else none := by
  obtain ⟨kind, form, rfl, hhalf, honeHalf⟩ := h
  unfold wordNumberAt
  rw [List.getElem?_append_right le_rfl, Nat.sub_self, List.getElem?_cons_zero,
    Option.getD_some, form.classify number]
  cases kind with
  | half => exact absurd rfl hhalf
  | oneHalf => exact absurd rfl honeHalf
  | unit | teen | ten | hundred | mult => rfl

theorem findIdx_append {word : String} (h : Says word)
    {before : List String} (hbefore : ∀ w ∈ before, isNumeric number w = false)
    (rest : List String) :
    (before ++ word :: rest).findIdx? (isNumeric number) =
      some before.length := by
  obtain ⟨kind, form, rfl, -⟩ := h
  have hnumeric : isNumeric number form.word = true := by
    rw [isNumeric, form.classify number]
    rfl
  rw [List.findIdx?_append, List.findIdx?_eq_none_iff.mpr hbefore,
    List.findIdx?_cons, if_pos hnumeric]
  simp

variable (toLowerCase : String → String)

/-- Wherever a cardinal is said, it is read as its value, up to the word after
it, and a text that says it first is worth that, for just those cardinals in
which no scale word stands right after another. -/
theorem cardinal_read_iff (cardinal : Cardinal) :
    ((∀ before after, cardinal.Stops number after →
        wordNumberAt number (before ++ cardinal.words ++ after)
            before.length =
          some (some cardinal.value,
            before.length + cardinal.words.length)) ∧
      ∀ text before after, (∀ word ∈ before, isNumeric number word = false) →
        cardinal.Stops number after →
        numberTokens toLowerCase text = before ++ cardinal.words ++ after →
          numberValue number toLowerCase text =
            some (some cardinal.value)) ↔
      cardinal.ScalesApart := by
  obtain ⟨word, rest, hwords, hsays⟩ := cardinal.words_eq_cons
  constructor
  · intro h
    by_contra hapart
    have hread := h.1 [] [] (cardinal.stops_nil number)
    obtain ⟨value, stop, hbare, hstop⟩ := readLoop_bare number hapart "" 0
      cardinal.last.words
    have hcardinal : readCardinal number (word :: rest) 0 = (value, stop) := by
      rw [← hwords]
      exact hbare
    rw [List.nil_append, List.append_nil, hwords,
      show word :: rest = [] ++ word :: rest from rfl,
      wordNumberAt_append number hsays] at hread
    simp only [List.nil_append, List.length_nil, hcardinal, Nat.zero_add]
      at hread
    split at hread
    · rw [Option.some.injEq, Prod.mk.injEq] at hread
      have hlength : stop = cardinal.words.length := by
        rw [hwords]
        exact hread.2
      rw [Cardinal.words, List.length_append] at hlength
      omega
    · cases hread
  · intro hapart
    have hread : ∀ before after, cardinal.Stops number after →
        readCardinal number (before ++ (cardinal.words ++ after))
          before.length =
        (some cardinal.value, before.length + cardinal.words.length) := by
      intro before after hstops
      rw [readCardinal_append]
      exact Cardinal.readLoop_eq number hapart hstops _ _
    constructor
    · intro before after hstops
      have hcardinal := hread before after hstops
      rw [List.append_assoc]
      rw [hwords, List.cons_append] at hcardinal ⊢
      rw [wordNumberAt_append number hsays]
      dsimp only
      rw [hcardinal, if_pos (by simp)]
    · intro text before after hbefore hstops htokens
      have hcardinal := hread before after hstops
      obtain ⟨n, hn⟩ := cardinal.value_isInt
      unfold numberValue
      rw [htokens, List.append_assoc]
      rw [hwords, List.cons_append] at hcardinal ⊢
      dsimp only
      rw [findIdx_append number hsays hbefore]
      dsimp only
      rw [hcardinal, Option.map_some, hn, cleanNumber_intCast]

end Reader

theorem million_listed : ∃ entry ∈ numberForms .mult,
    entry.1 = 1000000 ∧ "мільйон" ∈ entry.2 :=
  ⟨_, List.mem_cons_of_mem _ (List.mem_singleton_self _), rfl,
    List.mem_cons_self⟩

theorem thousand_listed : ∃ entry ∈ numberForms .mult,
    entry.1 = 1000 ∧ "тисяча" ∈ entry.2 :=
  ⟨_, List.mem_cons_self, rfl, List.mem_cons_self⟩

theorem thousand_lt_million : (1000 : ℚ) < 1000000 := by norm_num

/-- A million and a thousand, each said with its scale word alone. -/
def millionThousand : Cardinal where
  scaled :=
    [⟨⟨none, .tens none none⟩, ⟨"мільйон", 1000000, million_listed⟩⟩,
      ⟨⟨none, .tens none none⟩, ⟨"тисяча", 1000, thousand_listed⟩⟩]
  last := ⟨none, .tens none none⟩
  decreasing := List.pairwise_pair.mpr thousand_lt_million
  nonempty := Or.inl (List.cons_ne_nil _ _)

theorem millionThousand_cut_short :
    millionThousand.words = ["мільйон", "тисяча"] ∧
      millionThousand.value = 1001000 ∧
      millionThousand.Stops (fun _ => none) [] ∧
      wordNumberAt (fun _ => none) ["мільйон", "тисяча"] 0 =
        some (some 1000000, 1) := by
  exact ⟨by decide +kernel, by decide +kernel, millionThousand.stops_nil _,
    by decide +kernel⟩

end Shozee.Sho.Numbers
