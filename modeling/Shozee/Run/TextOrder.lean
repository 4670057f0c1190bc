import Mathlib.Data.Rat.Floor
import Mathlib.Algebra.Order.Field.Rat
import Mathlib.Tactic.FieldSimp
import Mathlib.Tactic.Linarith
import Shozee.Run.IsoDate

/-!
# Digits in the order of texts

Digits that write a number of a fixed length are ordered as texts just as the
numbers are (`number_order`). A text that goes on with a fraction has no fixed
length, and what comes after it, a `Z`, is larger than any digit or sign that
goes on: so of a text and one that it begins, the longer is the smaller.
`OrderTold` is the agreement of the texts with what they stand for, up to just
this (`GoesOn`). It is shown of the parts of a text one after the other: parts of
one length that differ decide (`told_of_ne`), and parts that are the same are
left out (`OrderTold.append`).
-/

namespace Shozee.Run

/-! ## Numbers of one length

Digits are in the order of their values, so numbers of one length are too. -/

theorem digitValue_eq {c : Char} {x : ℕ} (h : digitValue c = some x) :
    48 ≤ c.toNat ∧ c.toNat = 48 + x ∧ x < 10 := by
  unfold digitValue at h
  by_cases hdigit : c.isDigit = true
  · rw [if_pos hdigit] at h
    obtain ⟨hle, hge⟩ := Char.isDigit_iff_toNat.mp hdigit
    rw [show '0'.toNat = 48 from rfl] at hle
    rw [show '9'.toNat = 57 from rfl] at hge
    cases h
    omega
  · rw [if_neg hdigit] at h
    cases h

theorem digit_order {c d : Char} {x y : ℕ} (hx : digitValue c = some x)
    (hy : digitValue d = some y) : (c < d ↔ x < y) ∧ (c = d ↔ x = y) := by
  obtain ⟨-, hc, -⟩ := digitValue_eq hx
  obtain ⟨-, hd, -⟩ := digitValue_eq hy
  rw [← Char.toNat_inj, Char.lt_def, UInt32.lt_iff_toNat_lt]
  show (c.toNat < d.toNat ↔ x < y) ∧ (c.toNat = d.toNat ↔ x = y)
  omega

/-- Reading on from two numbers, the smaller stays so. -/
theorem number_less {a b : List Char} (hlength : a.length = b.length)
    {p q m n : ℕ}
    (hm : a.foldlM (fun n c => (digitValue c).map (10 * n + ·)) p = some m)
    (hn : b.foldlM (fun n c => (digitValue c).map (10 * n + ·)) q = some n)
    (h : p < q) : m < n := by
  induction a generalizing b p q with
  | nil =>
      rw [List.length_nil, eq_comm, List.length_eq_zero_iff] at hlength
      subst hlength
      rw [List.foldlM_nil] at hm hn
      cases hm
      cases hn
      exact h
  | cons c a ih =>
      cases b with
      | nil => cases hlength
      | cons d b =>
          rw [number_cons, Option.bind_eq_some_iff] at hm hn
          obtain ⟨x, hx, hm⟩ := hm
          obtain ⟨y, hy, hn⟩ := hn
          have hxLt := (digitValue_eq hx).2.2
          exact ih (Nat.succ.inj hlength) hm hn (by omega)

theorem number_order {a b : List Char} (hlength : a.length = b.length)
    {m n : ℕ} (hm : number a = some m) (hn : number b = some n) :
    (a < b ↔ m < n) ∧ (a = b ↔ m = n) := by
  unfold number at hm hn
  generalize 0 = p at hm hn
  induction a generalizing b p with
  | nil =>
      rw [List.length_nil, eq_comm, List.length_eq_zero_iff] at hlength
      subst hlength
      rw [hm, Option.some.injEq] at hn
      subst hn
      exact ⟨iff_of_false (List.not_lt_nil []) (lt_irrefl m),
        iff_of_true rfl rfl⟩
  | cons c a ih =>
      cases b with
      | nil => cases hlength
      | cons d b =>
          have hrest := Nat.succ.inj hlength
          rw [number_cons, Option.bind_eq_some_iff] at hm hn
          obtain ⟨x, hx, hm⟩ := hm
          obtain ⟨y, hy, hn⟩ := hn
          obtain ⟨hlt, heq⟩ := digit_order hx hy
          rw [List.cons_lt_cons_iff, List.cons.injEq, hlt, heq]
          rcases Nat.lt_trichotomy x y with h | h | h
          · have hmn := number_less hrest hm hn (by omega)
            omega
          · subst h
            obtain ⟨hlt', heq'⟩ := ih hrest _ hm hn
            rw [hlt', heq']
            omega
          · have hmn := number_less hrest.symm hn hm (by omega)
            omega

/-- Parts of one length come before a sign that both have. -/
theorem append_cons_lt_iff {a b x y : List Char} {c : Char}
    (hlength : a.length = b.length) :
    a ++ c :: x < b ++ c :: y ↔ a < b ∨ a = b ∧ x < y := by
  induction a generalizing b with
  | nil =>
      rw [List.length_nil, eq_comm, List.length_eq_zero_iff] at hlength
      subst hlength
      rw [List.nil_append, List.nil_append, List.cons_lt_cons_iff]
      simp
  | cons d a ih =>
      cases b with
      | nil => cases hlength
      | cons e b =>
          rw [List.cons_append, List.cons_append, List.cons_lt_cons_iff,
            List.cons_lt_cons_iff, ih (Nat.succ.inj hlength), List.cons.injEq]
          by_cases hde : d = e
          · subst hde
            simp
          · simp [hde]

theorem append_cons_eq_iff {a b x y : List Char} {c : Char}
    (hlength : a.length = b.length) :
    a ++ c :: x = b ++ c :: y ↔ a = b ∧ x = y := by
  constructor
  · intro h
    obtain ⟨hparts, hrest⟩ := List.append_inj h hlength
    exact ⟨hparts, List.tail_eq_of_cons_eq hrest⟩
  · rintro ⟨rfl, rfl⟩
    rfl

/-! ## Texts of any length

Where one text ends its `Z` decides, and it is larger than any digit or sign.
So the longer text is the smaller one, and the order is right unless it should
not be. -/

/-- `f <= t`: the second is not before the first. -/
def textLe (f t : List Char) : Prop := ¬ t < f

instance (f t : List Char) : Decidable (textLe f t) :=
  inferInstanceAs (Decidable (¬ _))

theorem cons_textLe_cons_iff {c d : Char} {f t : List Char} :
    textLe (c :: f) (d :: t) ↔ c < d ∨ c = d ∧ textLe f t := by
  unfold textLe
  rw [List.cons_lt_cons_iff]
  rcases Nat.lt_trichotomy c.toNat d.toNat with h | h | h
  · have hlt : c < d := Char.lt_def.mpr (UInt32.lt_iff_toNat_lt.mpr h)
    have hne : d ≠ c := fun heq => Nat.ne_of_lt h (by rw [heq])
    have hback : ¬ d < c := Char.lt_asymm hlt
    exact iff_of_true (by simp [hne, hback]) (Or.inl hlt)
  · have heq : c = d := Char.toNat_inj.mp h
    subst heq
    simp
  · have hlt : d < c := Char.lt_def.mpr (UInt32.lt_iff_toNat_lt.mpr h)
    have hne : c ≠ d := fun heq => Nat.ne_of_gt h (by rw [heq])
    have hback : ¬ c < d := Char.lt_asymm hlt
    exact iff_of_false (by simp [hlt]) (by simp [hne, hback])

/-- What adds nothing to a text that it goes on with. -/
def addsNothing (c : Char) : Bool := c = '0' || c = ':' || c = '.'

/-- Neither text goes on with what the other is, but the first may with what
adds nothing. -/
def GoesOn (f t : List Char) : Prop :=
  (f <+: t → f = t) ∧ ∀ rest, f = t ++ rest → rest.all addsNothing = true

/-- The texts, each ended by a `Z`, are in the order of what they stand for
just when neither goes on with the other. -/
def OrderTold (f t : List Char) (u v : ℚ) : Prop :=
  (textLe (f ++ ['Z']) (t ++ ['Z']) ↔ u ≤ v) ↔ GoesOn f t

/-- The first unit that goes on is smaller than the ending. -/
def Continues (rest : List Char) : Prop :=
  ∃ c tail, rest = c :: tail ∧ c < 'Z'

theorem told_nil : OrderTold [] [] 0 0 := by
  refine iff_of_true (iff_of_true (List.lt_irrefl _) (le_refl _))
    ⟨fun _ => rfl, fun rest hrest => ?_⟩
  rw [List.nil_append] at hrest
  rw [← hrest]
  rfl

/-- The second text goes on, and is the smaller for it. -/
theorem told_longer {t : List Char} {v : ℚ} (ht : Continues t) (hv : 0 ≤ v) :
    OrderTold [] t 0 v := by
  obtain ⟨c, tail, rfl, hc⟩ := ht
  have htext : ¬ textLe ([] ++ ['Z']) (c :: tail ++ ['Z']) := by
    rw [textLe, not_not, List.cons_append, List.nil_append,
      List.cons_lt_cons_iff]
    exact Or.inl hc
  have hgoes : ¬ GoesOn [] (c :: tail) := by
    intro h
    cases h.1 (List.nil_prefix)
  exact iff_of_false (fun h => htext (h.mpr hv)) hgoes

/-- The first text goes on, and is the smaller for it. -/
theorem told_shorter {f : List Char} {u : ℚ} (hf : Continues f)
    (hu : 0 ≤ u) (hzero : u = 0 ↔ f.all addsNothing = true) :
    OrderTold f [] u 0 := by
  obtain ⟨c, tail, rfl, hc⟩ := hf
  have htext : textLe (c :: tail ++ ['Z']) ([] ++ ['Z']) := by
    rw [List.cons_append, List.nil_append, cons_textLe_cons_iff]
    exact Or.inl hc
  have hle : u ≤ 0 ↔ u = 0 := ⟨fun h => le_antisymm h hu, le_of_eq⟩
  unfold OrderTold
  rw [iff_true_left htext, hle, hzero]
  constructor
  · intro hall
    refine ⟨fun h => List.prefix_nil.mp h, fun rest hrest => ?_⟩
    rw [List.nil_append] at hrest
    rw [← hrest]
    exact hall
  · exact fun h => h.2 _ (List.nil_append _).symm

/-- What the texts have in common is left out. -/
theorem OrderTold.append {f t : List Char} {u v : ℚ} (h : OrderTold f t u v)
    (common : List Char) (w : ℚ) :
    OrderTold (common ++ f) (common ++ t) (w + u) (w + v) := by
  have htext : textLe (common ++ f ++ ['Z']) (common ++ t ++ ['Z']) ↔
      textLe (f ++ ['Z']) (t ++ ['Z']) := by
    rw [List.append_assoc, List.append_assoc]
    induction common with
    | nil => rfl
    | cons c common ih =>
        rw [List.cons_append, List.cons_append, cons_textLe_cons_iff, ih]
        simp
  have hgoes : GoesOn (common ++ f) (common ++ t) ↔ GoesOn f t := by
    unfold GoesOn
    rw [List.prefix_append_right_inj, List.append_cancel_left_eq]
    simp only [List.append_assoc, List.append_cancel_left_eq]
  unfold OrderTold
  rw [htext, hgoes, add_le_add_iff_left]
  exact h

theorem OrderTold.scale {f t : List Char} {u v : ℚ} (h : OrderTold f t u v)
    {k : ℚ} (hk : 0 < k) : OrderTold f t (k * u) (k * v) := by
  unfold OrderTold
  rw [mul_le_mul_iff_of_pos_left hk]
  exact h

theorem append_textLe_iff {a b x y : List Char}
    (hlength : a.length = b.length) (hne : a ≠ b) :
    textLe (a ++ x) (b ++ y) ↔ a < b := by
  induction a generalizing b with
  | nil =>
      rw [List.length_nil, eq_comm, List.length_eq_zero_iff] at hlength
      exact absurd hlength.symm hne
  | cons c a ih =>
      cases b with
      | nil => cases hlength
      | cons d b =>
          rw [List.cons_append, List.cons_append, cons_textLe_cons_iff,
            List.cons_lt_cons_iff]
          by_cases hcd : c = d
          · subst hcd
            rw [ih (Nat.succ.inj hlength) fun h => hne (by rw [h])]
          · simp [hcd]

/-- Parts of one length that differ decide. -/
theorem told_of_ne {a b x y : List Char} {u v : ℚ}
    (hlength : a.length = b.length) (hne : a ≠ b) (horder : a < b ↔ u ≤ v) :
    OrderTold (a ++ x) (b ++ y) u v := by
  refine iff_of_true ?_ ?_
  · rw [List.append_assoc, List.append_assoc,
      append_textLe_iff hlength hne]
    exact horder
  · have hcut : ∀ {a b x y : List Char}, a.length = b.length → a ≠ b →
        ∀ rest, a ++ x ++ rest ≠ b ++ y := by
      intro a b x y hlength hne rest h
      rw [List.append_assoc] at h
      exact hne (List.append_inj h hlength).1
    refine ⟨?_, fun rest hrest => ?_⟩
    · rintro ⟨rest, hrest⟩
      exact absurd hrest (hcut hlength hne rest)
    · exact absurd hrest.symm (hcut hlength.symm hne.symm rest)

theorem addsNothing_digit {c : Char} {x : ℕ} (h : digitValue c = some x) :
    addsNothing c = true ↔ x = 0 := by
  obtain ⟨hle, hvalue, -⟩ := digitValue_eq h
  have hcolon : c ≠ ':' := by
    rintro rfl
    cases h
  have hpoint : c ≠ '.' := by
    rintro rfl
    cases h
  have hchar : c = '0' ↔ c.toNat = 48 := Char.toNat_inj.symm
  simp only [addsNothing, hcolon, hpoint, decide_false, Bool.or_false,
    decide_eq_true_eq, hchar]
  omega

theorem number_eq_zero_iff {text : List Char} {n : ℕ}
    (h : number text = some n) : n = 0 ↔ text.all addsNothing = true := by
  have hfrom : ∀ (text : List Char) (p n : ℕ),
      text.foldlM (fun n c => (digitValue c).map (10 * n + ·)) p = some n →
        (n = 0 ↔ p = 0 ∧ text.all addsNothing = true) := by
    intro text
    induction text with
    | nil =>
        intro p n h
        rw [List.foldlM_nil] at h
        cases h
        exact (and_iff_left rfl).symm
    | cons c text ih =>
        intro p n h
        rw [number_cons, Option.bind_eq_some_iff] at h
        obtain ⟨x, hx, h⟩ := h
        rw [ih _ n h, List.all_cons, Bool.and_eq_true, addsNothing_digit hx,
          ← and_assoc]
        refine and_congr_left fun _ => ?_
        omega
  rw [hfrom text 0 n h]
  exact and_iff_right rfl

/-! ## Fractions

A fraction is less than one, so different whole parts decide. -/

/-- Different whole parts decide, whatever the fractions. -/
theorem nat_add_le_iff {x y : ℕ} {w v : ℚ} (hne : x ≠ y) (hw : 0 ≤ w)
    (hw' : w < 1) (hv : 0 ≤ v) (hv' : v < 1) :
    x < y ↔ (x : ℚ) + w ≤ y + v := by
  constructor
  · intro h
    have hcast : (x : ℚ) + 1 ≤ y := by exact_mod_cast h
    linarith
  · intro h
    by_contra hge
    have hcast : (y : ℚ) + 1 ≤ x := by
      exact_mod_cast lt_of_le_of_ne (not_lt.mp hge) hne.symm
    linarith

/-- What digits after the point stand for. -/
def fractionOf : List Char → ℚ
  | [] => 0
  | c :: digits => 1 / 10 * ((c.toNat - 48 : ℕ) + fractionOf digits)

theorem fractionOf_cons (c : Char) (digits : List Char) :
    fractionOf (c :: digits) =
      1 / 10 * ((c.toNat - 48 : ℕ) + fractionOf digits) :=
  rfl

theorem fractionOf_bounds {digits : List Char}
    (h : digits.all (·.isDigit) = true) :
    0 ≤ fractionOf digits ∧ fractionOf digits < 1 := by
  induction digits with
  | nil => exact ⟨le_refl 0, by norm_num [fractionOf]⟩
  | cons c digits ih =>
      rw [List.all_cons, Bool.and_eq_true] at h
      obtain ⟨hnonneg, hlt⟩ := ih h.2
      have hvalue : digitValue c = some (c.toNat - 48) := if_pos h.1
      have hdigit : (c.toNat - 48 : ℕ) ≤ 9 := by
        have hten := (digitValue_eq hvalue).2.2
        omega
      have hcast : ((c.toNat - 48 : ℕ) : ℚ) ≤ 9 := by exact_mod_cast hdigit
      have hzero : (0 : ℚ) ≤ ((c.toNat - 48 : ℕ) : ℚ) := Nat.cast_nonneg _
      rw [fractionOf_cons]
      constructor
      · linarith
      · linarith

theorem fractionOf_eq_zero_iff {digits : List Char}
    (h : digits.all (·.isDigit) = true) :
    fractionOf digits = 0 ↔ digits.all addsNothing = true := by
  induction digits with
  | nil => exact iff_of_true rfl rfl
  | cons c digits ih =>
      rw [List.all_cons, Bool.and_eq_true] at h
      have hvalue : digitValue c = some (c.toNat - 48) := if_pos h.1
      have hnonneg := (fractionOf_bounds h.2).1
      have hzero : (0 : ℚ) ≤ ((c.toNat - 48 : ℕ) : ℚ) := Nat.cast_nonneg _
      have hsum : fractionOf (c :: digits) = 0 ↔
          ((c.toNat - 48 : ℕ) : ℚ) = 0 ∧ fractionOf digits = 0 := by
        rw [fractionOf_cons, mul_eq_zero, or_iff_right (by norm_num)]
        exact add_eq_zero_iff_of_nonneg hzero hnonneg
      have hdigit : ((c.toNat - 48 : ℕ) : ℚ) = 0 ↔ addsNothing c = true := by
        rw [Nat.cast_eq_zero, addsNothing_digit hvalue]
      rw [hsum, hdigit, ih h.2, List.all_cons, Bool.and_eq_true]

/-- The digits that count as milliseconds. -/
theorem milliseconds_eq_floor {digits : List Char} {ms : ℕ}
    (h : milliseconds digits = some ms) :
    (ms : ℤ) = ⌊fractionOf digits * 1000⌋ := by
  unfold milliseconds at h
  by_cases hdigits : digits ≠ [] ∧ digits.all (·.isDigit) = true
  swap
  · rw [if_neg hdigits] at h
    cases h
  rw [if_pos hdigits] at h
  obtain ⟨hne, hall⟩ := hdigits
  -- The digits that are missing are zeros, and the others are less than one.
  have hfloor : ∀ (a b c : Char) (r : ℚ), number [a, b, c] = some ms →
      0 ≤ r → r < 1 →
      fractionOf digits * 1000 = 100 * ((a.toNat - 48 : ℕ) : ℚ) +
        10 * ((b.toNat - 48 : ℕ) : ℚ) + ((c.toNat - 48 : ℕ) : ℚ) + r →
      (ms : ℤ) = ⌊fractionOf digits * 1000⌋ := by
    intro a b c r hnumber hr hr' hvalue
    have hms : ms = 100 * (a.toNat - 48) + 10 * (b.toNat - 48) +
        (c.toNat - 48) := by
      unfold number at hnumber
      simp only [number_cons, Option.bind_eq_some_iff, List.foldlM_nil]
        at hnumber
      obtain ⟨x, hx, y, hy, z, hz, hsum⟩ := hnumber
      have hxValue := (digitValue_eq hx).2.1
      have hyValue := (digitValue_eq hy).2.1
      have hzValue := (digitValue_eq hz).2.1
      cases hsum
      omega
    rw [eq_comm, Int.floor_eq_iff, hvalue, hms]
    push_cast
    exact ⟨by linarith, by linarith⟩
  have hzero : (('0'.toNat - 48 : ℕ) : ℚ) = 0 := by
    rw [show '0'.toNat - 48 = 0 from rfl, Nat.cast_zero]
  cases digits with
  | nil => exact absurd rfl hne
  | cons a digits =>
      cases digits with
      | nil =>
          refine hfloor a '0' '0' 0 h (le_refl 0) one_pos ?_
          rw [hzero, fractionOf_cons, fractionOf]
          ring
      | cons b digits =>
          cases digits with
          | nil =>
              refine hfloor a b '0' 0 h (le_refl 0) one_pos ?_
              rw [hzero, fractionOf_cons, fractionOf_cons, fractionOf]
              ring
          | cons c digits =>
              simp only [List.all_cons, Bool.and_eq_true] at hall
              obtain ⟨hr, hr'⟩ := fractionOf_bounds hall.2.2.2
              refine hfloor a b c (fractionOf digits) h hr hr' ?_
              simp only [fractionOf_cons]
              ring

/-- A digit goes on. -/
theorem continues_digit {c : Char} (h : c.isDigit = true)
    (tail : List Char) : Continues (c :: tail) := by
  refine ⟨c, tail, rfl, ?_⟩
  have hle := (Char.isDigit_iff_toNat.mp h).2
  rw [Char.lt_def, UInt32.lt_iff_toNat_lt]
  show c.toNat < 90
  exact lt_of_le_of_lt hle (by decide)

theorem told_fraction {ds es : List Char} (hds : ds.all (·.isDigit) = true)
    (hes : es.all (·.isDigit) = true) :
    OrderTold ds es (fractionOf ds) (fractionOf es) := by
  induction ds generalizing es with
  | nil =>
      cases es with
      | nil => exact told_nil
      | cons d es =>
          refine told_longer (continues_digit ?_ es) (fractionOf_bounds hes).1
          exact List.all_eq_true.mp hes d List.mem_cons_self
  | cons c ds ih =>
      cases es with
      | nil =>
          refine told_shorter (continues_digit ?_ ds) (fractionOf_bounds hds).1
            (fractionOf_eq_zero_iff hds)
          exact List.all_eq_true.mp hds c List.mem_cons_self
      | cons d es =>
          rw [List.all_cons, Bool.and_eq_true] at hds hes
          by_cases hcd : c = d
          · subst hcd
            exact ((ih hds.2 hes.2).append [c]
              ((c.toNat - 48 : ℕ) : ℚ)).scale (by norm_num)
          · have hx : digitValue c = some (c.toNat - 48) := if_pos hds.1
            have hy : digitValue d = some (d.toNat - 48) := if_pos hes.1
            obtain ⟨hlt, heq⟩ := digit_order hx hy
            obtain ⟨hf, hf'⟩ := fractionOf_bounds hds.2
            obtain ⟨hg, hg'⟩ := fractionOf_bounds hes.2
            refine told_of_ne (a := [c]) (b := [d]) rfl
              (fun h => hcd (List.head_eq_of_cons_eq h)) ?_
            rw [List.cons_lt_cons_iff, hlt]
            simp only [fractionOf_cons, hcd, false_and, or_false]
            rw [mul_le_mul_iff_of_pos_left (by norm_num)]
            exact nat_add_le_iff (fun h => hcd (heq.mpr h)) hf hf' hg hg'

end Shozee.Run
