import Mathlib.Data.List.Forall2
import Mathlib.Algebra.GroupWithZero.Nat
import Shozee.Run.Text

/-!
# Internet addresses and how they are written

A version 4 address is written as four decimal octets. A version 6 address is
written as eight groups of hexadecimal digits, of which one run of zeros may be
left out, and the last two of which may be written as a version 4 address.
The grammar has the octets as a parameter: they may be canonical decimals or
may have zeros before them (`Decimal`, `Padded`).

Some version 6 addresses stand for a version 4 address (`Embeds`).
-/

namespace Shozee.Run

/-- An address and its value. -/
inductive Address
  | v4 (value : ℕ)
  | v6 (value : ℕ)
deriving DecidableEq, Repr

/-! ## Groups of hexadecimal digits

One to four digits make a group, and groups with colons between them tell their
values. -/

/-- The value of a hexadecimal digit in either case. -/
def hexDigitValue (c : Char) : Option ℕ :=
  if '0' ≤ c ∧ c ≤ '9' then some (c.toNat - 48)
  else if 'a' ≤ c ∧ c ≤ 'f' then some (c.toNat - 87)
  else if 'A' ≤ c ∧ c ≤ 'F' then some (c.toNat - 55)
  else none

/-- One to four hexadecimal digits in either case. -/
structure HexGroup (n : ℕ) (text : List Char) : Prop where
  nonempty : text ≠ []
  short : text.length ≤ 4
  digits : ∀ c ∈ text, hexDigitValue c ≠ none
  value : text.foldl (fun n c => 16 * n + (hexDigitValue c).getD 0) 0 = n

theorem hexDigitValue_colon : hexDigitValue ':' = none := by decide

theorem hexDigitValue_eq (c : Char) :
    hexDigitValue c =
      if 48 ≤ c.toNat ∧ c.toNat ≤ 57 then some (c.toNat - 48)
      else if 97 ≤ c.toNat ∧ c.toNat ≤ 102 then some (c.toNat - 87)
      else if 65 ≤ c.toNat ∧ c.toNat ≤ 70 then some (c.toNat - 55)
      else none := by
  have hle : ∀ a b : Char, a ≤ b ↔ a.toNat ≤ b.toNat :=
    fun a b => UInt32.le_iff_toNat_le
  simp only [hexDigitValue, hle]
  rfl

theorem hexDigitValue_lt {c : Char} {d : ℕ} (h : hexDigitValue c = some d) :
    d < 16 := by
  rw [hexDigitValue_eq] at h
  split_ifs at h <;> cases h <;> omega

theorem hexDigitValue_bounds {c : Char} (h : hexDigitValue c ≠ none) :
    48 ≤ c.toNat ∧ c.toNat ≤ 102 := by
  rw [hexDigitValue_eq] at h
  split_ifs at h
  · omega
  · omega
  · omega
  · exact absurd rfl h

theorem foldl_hex_lt (text : List Char) (n k : ℕ) (h : n < 16 ^ k) :
    text.foldl (fun n c => 16 * n + (hexDigitValue c).getD 0) n <
      16 ^ (k + text.length) := by
  induction text generalizing n k with
  | nil => exact h
  | cons c text ih =>
      have hdigit : (hexDigitValue c).getD 0 < 16 := by
        cases hc : hexDigitValue c with
        | none => decide
        | some d => exact hexDigitValue_lt hc
      rw [List.foldl_cons, List.length_cons, ← Nat.add_assoc, Nat.add_right_comm]
      apply ih
      rw [Nat.pow_succ]
      omega

theorem HexGroup.lt {n : ℕ} {text : List Char} (h : HexGroup n text) :
    n < 65536 := by
  have hlt := foldl_hex_lt text 0 0 (by decide)
  rw [h.value, Nat.zero_add] at hlt
  have hpow : 16 ^ text.length ≤ 16 ^ 4 :=
    Nat.pow_le_pow_right (by omega) h.short
  omega

theorem HexGroup.colon_notMem {n : ℕ} {text : List Char}
    (h : HexGroup n text) : ':' ∉ text :=
  fun hmem => h.digits ':' hmem hexDigitValue_colon

theorem hexGroup_of_mem {groups : List ℕ} {parts : List (List Char)}
    (h : List.Forall₂ HexGroup groups parts) :
    ∀ part ∈ parts, ∃ n, HexGroup n part := by
  intro part hmem
  obtain ⟨i, hi, rfl⟩ := List.mem_iff_getElem.mp hmem
  have hlt : i < groups.length := h.length_eq ▸ hi
  exact ⟨groups[i], h.get hlt hi⟩

/-- Groups with a colon between any two. -/
def HexGroups (groups : List ℕ) (text : List Char) : Prop :=
  ∃ parts, List.Forall₂ HexGroup groups parts ∧
    text = [':'].intercalate parts

/-- Eight groups; two colons stand for at least one group of zero. -/
inductive HexText : List ℕ → List Char → Prop
  | full {groups : List ℕ} {text : List Char} (h : HexGroups groups text)
      (hlen : groups.length = 8) : HexText groups text
  | compressed {left right : List ℕ} {l r : List Char}
      (hl : HexGroups left l) (hr : HexGroups right r)
      (hlen : left.length + right.length ≤ 7) :
      HexText (left ++ List.replicate (8 - left.length - right.length) 0 ++
        right) (l ++ ':' :: ':' :: r)

theorem HexGroups.mem {groups : List ℕ} {text : List Char}
    (h : HexGroups groups text) {c : Char} (hc : c ∈ text) :
    c = ':' ∨ hexDigitValue c ≠ none := by
  obtain ⟨parts, hparts, rfl⟩ := h
  rcases mem_intercalate hc with hc | ⟨part, hpart, hc⟩
  · exact Or.inl (List.mem_singleton.mp hc)
  · obtain ⟨n, hn⟩ := hexGroup_of_mem hparts part hpart
    exact Or.inr (hn.digits c hc)

theorem HexText.mem {groups : List ℕ} {text : List Char}
    (h : HexText groups text) {c : Char} (hc : c ∈ text) :
    c = ':' ∨ hexDigitValue c ≠ none := by
  cases h with
  | full hgroups _ => exact hgroups.mem hc
  | compressed hl hr _ =>
      rcases List.mem_append.mp hc with hc | hc
      · exact hl.mem hc
      · rcases List.mem_cons.mp hc with hc | hc
        · exact Or.inl hc
        · rcases List.mem_cons.mp hc with hc | hc
          · exact Or.inl hc
          · exact hr.mem hc

theorem HexGroups.lt {groups : List ℕ} {text : List Char}
    (h : HexGroups groups text) : ∀ group ∈ groups, group < 65536 := by
  obtain ⟨parts, hparts, -⟩ := h
  intro group hmem
  obtain ⟨i, hi, rfl⟩ := List.mem_iff_getElem.mp hmem
  exact (hparts.get hi (hparts.length_eq ▸ hi)).lt

theorem HexText.length_eq {groups : List ℕ} {text : List Char}
    (h : HexText groups text) : groups.length = 8 := by
  cases h with
  | full _ hlen => exact hlen
  | compressed _ _ hlen =>
      rw [List.length_append, List.length_append, List.length_replicate]
      omega

theorem HexText.lt {groups : List ℕ} {text : List Char}
    (h : HexText groups text) : ∀ group ∈ groups, group < 65536 := by
  cases h with
  | full hgroups _ => exact hgroups.lt
  | compressed hl hr _ =>
      intro group hmem
      rcases List.mem_append.mp hmem with hmem | hmem
      · rcases List.mem_append.mp hmem with hmem | hmem
        · exact hl.lt group hmem
        · rw [List.eq_of_mem_replicate hmem]
          omega
      · exact hr.lt group hmem

theorem HexGroups.head_ne_colon {groups : List ℕ} {text : List Char}
    (h : HexGroups groups (':' :: text)) : False := by
  obtain ⟨parts, hparts, htext⟩ := h
  cases parts with
  | nil => cases htext
  | cons part parts =>
      obtain ⟨n, hn⟩ := hexGroup_of_mem hparts part List.mem_cons_self
      obtain ⟨c, part, rfl⟩ := List.exists_cons_of_ne_nil hn.nonempty
      rw [List.intercalate_cons_cons_left] at htext
      cases htext
      exact hn.colon_notMem List.mem_cons_self

theorem colon_notMem_toDigits (n : ℕ) : ':' ∉ Nat.toDigits 16 n := by
  have hdigit : ∀ d < 16, ':' ≠ Nat.digitChar d := by decide
  induction n using Nat.strongRecOn with
  | ind n ih =>
      rw [Nat.toDigits_eq_if (by omega)]
      split
      next hlt =>
        intro h
        exact hdigit n hlt (List.mem_singleton.mp h)
      next hle =>
        intro h
        rcases List.mem_append.mp h with h | h
        · exact ih (n / 16) (by omega) h
        · exact hdigit (n % 16) (by omega) (List.mem_singleton.mp h)

/-- A text that begins with a colon begins with two. -/
theorem HexText.second_eq_colon {groups : List ℕ} {c : Char}
    {text : List Char} (h : HexText groups (':' :: c :: text)) : c = ':' := by
  generalize hwhole : ':' :: c :: text = whole at h
  cases h with
  | full hgroups _ =>
      subst hwhole
      exact hgroups.head_ne_colon.elim
  | @compressed left right l r hl _ _ =>
      cases l with
      | nil =>
          cases hwhole
          rfl
      | cons d l =>
          have hd : ':' = d := (List.cons.inj hwhole).1
          subst hd
          exact hl.head_ne_colon.elim

/-! ## Octets

An octet is a canonical decimal, or one with zeros before it. Four of them with
dots make a version 4 address. -/

/-- A byte in decimal. -/
structure Decimal (n : ℕ) (text : List Char) : Prop where
  byte : n < 256
  digits : text = Nat.toDigits 10 n

/-- A byte in up to three decimal digits, which may begin with zeros. -/
structure Padded (n : ℕ) (text : List Char) : Prop where
  byte : n < 256
  nonempty : text ≠ []
  short : text.length ≤ 3
  digits : ∀ c ∈ text, c.isDigit = true
  value : Nat.ofDigitChars 10 text 0 = n

theorem Decimal.padded {n : ℕ} {text : List Char} (h : Decimal n text) :
    Padded n text where
  byte := h.byte
  nonempty := by
    rw [h.digits]
    exact Nat.toDigits_ne_nil
  short := by
    rw [h.digits]
    have hbyte := h.byte
    exact (Nat.length_toDigits_le_iff (by omega) (by omega)).mpr (by omega)
  digits c hc := by
    rw [h.digits] at hc
    exact Nat.isDigit_of_mem_toDigits (by omega) (by omega) hc
  value := by rw [h.digits, Nat.ofDigitChars_ten_toDigits]

section Texts

variable {octet octet' : ℕ → List Char → Prop}

/-- Four octets with a dot between any two. -/
inductive Dotted (octet : ℕ → List Char → Prop) : ℕ → List Char → Prop
  | octets {a b c d : ℕ} {ta tb tc td : List Char} (ha : octet a ta)
      (hb : octet b tb) (hc : octet c tc) (hd : octet d td) :
      Dotted octet ((a * 256 + b) * 65536 + (c * 256 + d))
        (ta ++ '.' :: tb ++ '.' :: tc ++ '.' :: td)

theorem Dotted.mono (h : ∀ n text, octet n text → octet' n text) {value : ℕ}
    {text : List Char} (hdotted : Dotted octet value text) :
    Dotted octet' value text := by
  cases hdotted with
  | octets ha hb hc hd =>
      exact .octets (h _ _ ha) (h _ _ hb) (h _ _ hc) (h _ _ hd)

theorem Padded.notMem {n : ℕ} {text : List Char} (h : Padded n text) {c : Char}
    (hc : c.isDigit = false) : c ∉ text := by
  intro hmem
  have hdigit := h.digits c hmem
  rw [hc] at hdigit
  cases hdigit

/-- A text of four octets has one value. -/
theorem Dotted.unique {value value' : ℕ} {text : List Char}
    (h : Dotted Padded value text) (h' : Dotted Padded value' text) :
    value' = value := by
  have hsplit : ∀ {v t}, Dotted Padded v t → ∃ a b c d ta tb tc td,
      v = (a * 256 + b) * 65536 + (c * 256 + d) ∧
        t.splitOn '.' = [ta, tb, tc, td] ∧ Padded a ta ∧ Padded b tb ∧
          Padded c tc ∧ Padded d td := by
    rintro v t ⟨ha, hb, hc, hd⟩
    next a b c d ta tb tc td =>
    refine ⟨a, b, c, d, ta, tb, tc, td, rfl, ?_, ha, hb, hc, hd⟩
    have hdots : ∀ text ∈ [ta, tb, tc, td], '.' ∉ text := by
      simp only [List.forall_mem_cons]
      exact ⟨ha.notMem rfl, hb.notMem rfl, hc.notMem rfl, hd.notMem rfl,
        fun _ h => absurd h List.not_mem_nil⟩
    rw [← List.splitOn_intercalate '.' hdots (List.cons_ne_nil _ _)]
    simp only [List.intercalate_cons_cons, List.intercalate_singleton,
      List.append_assoc, List.cons_append, List.nil_append]
  obtain ⟨a, b, c, d, ta, tb, tc, td, rfl, htext, ha, hb, hc, hd⟩ := hsplit h
  obtain ⟨a', b', c', d', ta', tb', tc', td', rfl, htext', ha', hb', hc', hd'⟩ :=
    hsplit h'
  rw [htext] at htext'
  cases htext'
  rw [← ha.value, ← hb.value, ← hc.value, ← hd.value, ← ha'.value,
    ← hb'.value, ← hc'.value, ← hd'.value]

theorem Dotted.notMem {value : ℕ} {text : List Char}
    (h : Dotted Padded value text) {c : Char} (hdigit : c.isDigit = false)
    (hdot : c ≠ '.') : c ∉ text := by
  obtain ⟨ha, hb, hc, hd⟩ := h
  simp only [List.append_assoc, List.cons_append, List.mem_append,
    List.mem_cons, not_or]
  exact ⟨ha.notMem hdigit, hdot, hb.notMem hdigit, hdot, hc.notMem hdigit,
    hdot, hd.notMem hdigit⟩

theorem Dotted.lt {value : ℕ} {text : List Char}
    (h : Dotted Padded value text) : value < 2 ^ 32 := by
  obtain ⟨ha, hb, hc, hd⟩ := h
  have := ha.byte
  have := hb.byte
  have := hc.byte
  have := hd.byte
  omega

/-- The last two groups may be written as four octets. -/
inductive V6Text (octet : ℕ → List Char → Prop) : List ℕ → List Char → Prop
  | hex {groups : List ℕ} {text : List Char} (h : HexText groups text) :
      V6Text octet groups text
  | dotted {groups : List ℕ} {value : ℕ} {start dotted : List Char}
      (h : Dotted octet value dotted)
      (hhex : HexText groups (start ++ ':' :: Nat.toDigits 16 (value / 65536) ++
        ':' :: Nat.toDigits 16 (value % 65536))) :
      V6Text octet groups (start ++ ':' :: dotted)

theorem V6Text.colon_mem {groups : List ℕ} {text : List Char}
    (h : V6Text octet groups text) : ':' ∈ text := by
  cases h with
  | hex hhex =>
      cases hhex with
      | full hgroups hlen =>
          obtain ⟨parts, hparts, rfl⟩ := hgroups
          rw [hparts.length_eq] at hlen
          cases parts with
          | nil => cases hlen
          | cons part parts =>
              cases parts with
              | nil => cases hlen
              | cons next parts =>
                  rw [List.intercalate_cons_cons]
                  simp
      | compressed _ _ _ => simp
  | dotted _ _ => simp

theorem V6Text.length_eq {groups : List ℕ} {text : List Char}
    (h : V6Text octet groups text) : groups.length = 8 := by
  cases h with
  | hex hhex => exact hhex.length_eq
  | dotted _ hhex => exact hhex.length_eq

theorem V6Text.lt {groups : List ℕ} {text : List Char}
    (h : V6Text octet groups text) : ∀ group ∈ groups, group < 65536 := by
  cases h with
  | hex hhex => exact hhex.lt
  | dotted _ hhex => exact hhex.lt

theorem V6Text.mono (h : ∀ n text, octet n text → octet' n text)
    {groups : List ℕ} {text : List Char} (htext : V6Text octet groups text) :
    V6Text octet' groups text := by
  cases htext with
  | hex hhex => exact .hex hhex
  | dotted hdotted hhex => exact .dotted (hdotted.mono h) hhex

end Texts

/-- The value of groups of sixteen bits. -/
def ofGroups (groups : List ℕ) : ℕ :=
  groups.foldl (fun n group => 65536 * n + group) 0

/-- A text of an address; octets of version 6 may be written otherwise. -/
inductive AddressText (octet : ℕ → List Char → Prop) :
    Address → List Char → Prop
  | v4 {value : ℕ} {text : List Char} (h : Dotted Decimal value text) :
      AddressText octet (.v4 value) text
  | v6 {groups : List ℕ} {text : List Char} (h : V6Text octet groups text) :
      AddressText octet (.v6 (ofGroups groups)) text

theorem AddressText.padded {a : Address} {text : List Char}
    (h : AddressText Decimal a text) : AddressText Padded a text := by
  cases h with
  | v4 h => exact .v4 h
  | v6 h => exact .v6 (h.mono fun _ _ => Decimal.padded)

theorem hexDigitValue_of_isDigit {c : Char} (h : c.isDigit = true) :
    hexDigitValue c ≠ none := by
  have hc : '0' ≤ c ∧ c ≤ '9' := by
    simp only [Char.isDigit, Bool.and_eq_true, decide_eq_true_eq] at h
    exact h
  rw [hexDigitValue, if_pos hc]
  exact Option.some_ne_none _

/-- Addresses are written with hexadecimal digits, colons and dots. -/
theorem AddressText.mem {a : Address} {text : List Char}
    (h : AddressText Padded a text) {c : Char} (hc : c ∈ text) :
    c = ':' ∨ c = '.' ∨ hexDigitValue c ≠ none := by
  have hdotted : ∀ {value : ℕ} {text : List Char}, Dotted Padded value text →
      c ∈ text → c = '.' ∨ hexDigitValue c ≠ none := by
    rintro value text h hc
    by_contra hother
    obtain ⟨hdot, hnone⟩ := not_or.mp hother
    refine h.notMem (Bool.eq_false_iff.mpr fun hdigit => ?_) hdot hc
    exact hnone (hexDigitValue_of_isDigit hdigit)
  cases h with
  | v4 h => exact Or.inr (hdotted (h.mono fun _ _ => Decimal.padded) hc)
  | v6 h =>
      cases h with
      | hex hhex => exact (hhex.mem hc).imp_right Or.inr
      | dotted h hhex =>
          rcases List.mem_append.mp hc with hc | hc
          · exact (hhex.mem (List.mem_append_left _
              (List.mem_append_left _ hc))).imp_right Or.inr
          · rcases List.mem_cons.mp hc with hc | hc
            · exact Or.inl hc
            · exact Or.inr (hdotted h hc)

theorem AddressText.ne_nil {a : Address} {text : List Char}
    (h : AddressText Padded a text) : text ≠ [] := by
  cases h with
  | v4 h =>
      obtain ⟨ha, _, _, _⟩ := h
      simp
  | v6 h => exact List.ne_nil_of_mem h.colon_mem

/-- The rest of what a text may have around an address is not in one. -/
theorem AddressText.plain {a : Address} {text : List Char}
    (h : AddressText Padded a text) :
    ∀ c ∈ text, isWhiteSpace c = false ∧ c ≠ '[' ∧ c ≠ ']' ∧ c ≠ '%' := by
  intro c hc
  rcases h.mem hc with rfl | rfl | hhex
  · decide
  · decide
  · refine ⟨?_, ?_, ?_, ?_⟩
    · have hbounds := hexDigitValue_bounds hhex
      simp only [isWhiteSpace, List.mem_cons, List.not_mem_nil, or_false,
        Bool.or_eq_false_iff, Bool.and_eq_false_iff, decide_eq_false_iff_not]
      omega
    all_goals
      rintro rfl
      exact hhex (by decide)

/-! ## Addresses in addresses

The forms in which a version 6 address has a version 4 address inside. An
address has one at most. -/

/-- The version 4 address that a version 6 address stands for. -/
inductive Embeds : ℕ → ℕ → Prop
  | mapped {b : ℕ} (hb : b < 2 ^ 32) : Embeds (0xffff * 2 ^ 32 + b) b
  | translated {b : ℕ} (hb : b < 2 ^ 32) : Embeds (0xffff * 2 ^ 48 + b) b
  | compatible {b : ℕ} (hb : b < 2 ^ 32) (hreal : 1 < b) : Embeds b b
  | nat64 {b : ℕ} (hb : b < 2 ^ 32) : Embeds (0x64ff9b * 2 ^ 96 + b) b
  | sixToFour {b rest : ℕ} (hb : b < 2 ^ 32) (hrest : rest < 2 ^ 80) :
      Embeds (0x2002 * 2 ^ 112 + b * 2 ^ 80 + rest) b

/-- An address stands for one address at most. -/
theorem Embeds.unique {n b c : ℕ} (h : Embeds n b) (h' : Embeds n c) :
    c = b := by
  generalize hn : n = m at h'
  cases h <;> cases h' <;> omega

theorem Embeds.bounds {n b : ℕ} (h : Embeds n b) :
    1 < n ∧ n < 0x2003 * 2 ^ 112 := by
  cases h <;> omega

/-! ## Ranges

A range is an address and the number of bits that count. -/

/-- The addresses that have the first bits of another. -/
def Address.SamePrefix (bits : ℕ) : Address → Address → Prop
  | .v4 a, .v4 b => a / 2 ^ (32 - bits) = b / 2 ^ (32 - bits)
  | .v6 a, .v6 b => a / 2 ^ (128 - bits) = b / 2 ^ (128 - bits)
  | _, _ => False

end Shozee.Run
