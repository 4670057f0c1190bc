import Shozee.Http.Embedded

/-!
# Blocked destinations

The proxy for key infrastructure refuses destinations in internal ranges
(`apps/api/src/http/pki-proxy.ts`). A spelling of an address is refused exactly
when the address, or the version 4 address it stands for, is in a listed range.

A text that is no spelling should be refused, but brackets and a zone are taken
off one by one, and the octets of a dotted suffix may begin with zeros. A text
that stands for an address of version 4 is then refused as what it reads as.
Another text with such octets is handed to the block list, which cannot read
it and answers that it is in no range (`isBlocked_iff`).
-/

namespace Shozee.Http

open Shozee.Run

/-! ## The check

`isBlockedPkiDestinationAddress` on the listed ranges. -/

/-- The addresses that the proxy does not go to. -/
def blockedDestinations : List BlockRule :=
  [.subnet "0.0.0.0".toList 8 .ipv4,
    .subnet "10.0.0.0".toList 8 .ipv4,
    .subnet "100.64.0.0".toList 10 .ipv4,
    .subnet "127.0.0.0".toList 8 .ipv4,
    .subnet "169.254.0.0".toList 16 .ipv4,
    .subnet "172.16.0.0".toList 12 .ipv4,
    .subnet "192.168.0.0".toList 16 .ipv4,
    .subnet "198.18.0.0".toList 15 .ipv4,
    .subnet "224.0.0.0".toList 4 .ipv4,
    .subnet "240.0.0.0".toList 4 .ipv4,
    .address "::".toList .ipv6,
    .address "::1".toList .ipv6,
    .subnet "fc00::".toList 7 .ipv6,
    .subnet "fe80::".toList 10 .ipv6,
    .subnet "ff00::".toList 8 .ipv6]

/-- Whether the proxy refuses an address. A text without a canonical form is
refused; of one with such a form the list is asked. -/
def isBlockedPkiDestinationAddress (net : NodeNet) (address : Text) : Bool :=
  match tryCanonicalDestinationIp net address with
  | none => true
  | some canonical =>
      let ipType := if ':' ∈ canonical then IpFamily.ipv6 else IpFamily.ipv4
      (net.check blockedDestinations canonical ipType).getD true

/-! ## Ranges

What a rule contains, and what is relied on of the platform's list. -/

/-- The kind of an address. -/
def familyOf : Address → IpFamily
  | .v4 _ => .ipv4
  | .v6 _ => .ipv6

/-- The addresses that a rule is about. -/
def BlockRule.Contains : BlockRule → Address → Prop
  | .address text family, a =>
      AddressText Decimal a text ∧ familyOf a = family
  | .subnet text bits family, a =>
      ∃ network, AddressText Decimal network text ∧
        familyOf network = family ∧ network.SamePrefix bits a

/-- The addresses that a list is about. -/
def Listed (rules : List BlockRule) (a : Address) : Prop :=
  ∃ rule ∈ rules, rule.Contains a

/-- The address or the one it stands for is in a listed range. -/
def Forbidden (a : Address) : Prop :=
  Listed blockedDestinations a ∨
    ∃ n b, a = .v6 n ∧ Embeds n b ∧ Listed blockedDestinations (.v4 b)

/-- The platform on the listed ranges. A rule of version 4 may also be matched
by mapped addresses, so of these nothing is asked. A text that is no address is
in no range. -/
structure NodeNet.Correct (net : NodeNet) : Prop where
  isIP_eq_four : ∀ text, net.isIP text = 4 ↔ ∃ n, Dotted Decimal n text
  check_v4 : ∀ n text, Dotted Decimal n text →
    ∃ answer, net.check blockedDestinations text .ipv4 = some answer ∧
      (answer = true ↔ Listed blockedDestinations (.v4 n))
  check_v6 : ∀ groups text, V6Text Decimal groups text →
    ofGroups groups / 2 ^ 32 ≠ 0xffff →
    ∃ answer, net.check blockedDestinations text .ipv6 = some answer ∧
      (answer = true ↔ Listed blockedDestinations (.v6 (ofGroups groups)))
  check_unreadable : ∀ text, (∀ groups, ¬ V6Text Decimal groups text) →
    net.check blockedDestinations text .ipv6 = some false

/-! ## Spellings

The ways to write an address that the check is to see through. -/

/-- A zone that stripping an address takes off. -/
structure ZoneText (zone : Text) : Prop where
  nonempty : zone ≠ []
  plain : ∀ c ∈ zone, isWhiteSpace c = false ∧ c ≠ '[' ∧ c ≠ ']'

/-- A text of an address and, in version 6, its zone. -/
inductive Inside : Address → Text → Prop
  | bare {a : Address} {text : Text} (h : AddressText Decimal a text) :
      Inside a text
  | zoned {n : ℕ} {text zone : Text} (h : AddressText Decimal (.v6 n) text)
      (hzone : ZoneText zone) : Inside (.v6 n) (text ++ '%' :: zone)

/-- What an address may be written as: bare or in brackets, blanks around. -/
inductive Spelling : Address → Text → Prop
  | bare {a : Address} {text left right : Text} (h : Inside a text)
      (hleft : ∀ c ∈ left, isWhiteSpace c = true)
      (hright : ∀ c ∈ right, isWhiteSpace c = true) :
      Spelling a (left ++ text ++ right)
  | bracketed {a : Address} {text left right : Text} (h : Inside a text)
      (hleft : ∀ c ∈ left, isWhiteSpace c = true)
      (hright : ∀ c ∈ right, isWhiteSpace c = true) :
      Spelling a (left ++ ('[' :: (text ++ [']'])) ++ right)

/-- What is left of a text reads as an address; octets may have zeros before
them in an address that stands for one of version 4. -/
def ReadsAs (a : Address) (text : Text) : Prop :=
  AddressText Decimal a text ∨
    (AddressText Padded a text ∧ ∃ n b, a = .v6 n ∧ Embeds n b)

/-- The text reads as an address of version 6 that stands for none of version 4,
but only with zeros before its octets. -/
def Unreadable (text : Text) : Prop :=
  ∃ groups, V6Text Padded groups text ∧ ¬ V6Text Decimal groups text ∧
    ∀ b, ¬ Embeds (ofGroups groups) b

/-! ## Reading

Texts are read in one way, so what is left of a spelling tells the address. -/

/-- A text reads as one address. -/
theorem addressText_unique {a b : Address} {text : Text}
    (h : AddressText Padded a text) (h' : AddressText Padded b text) :
    b = a := by
  cases h with
  | v4 h =>
      have hdotted := h.mono fun _ _ => Decimal.padded
      cases h' with
      | v4 h' => rw [hdotted.unique (h'.mono fun _ _ => Decimal.padded)]
      | v6 h' => exact absurd h'.colon_mem (hdotted.notMem rfl (by decide))
  | v6 h =>
      cases h' with
      | v4 h' =>
          have hdotted := h'.mono fun _ _ => Decimal.padded
          exact absurd h.colon_mem (hdotted.notMem rfl (by decide))
      | v6 h' => rw [V6Text.unique h h']

theorem ReadsAs.padded {a : Address} {text : Text} (h : ReadsAs a text) :
    AddressText Padded a text :=
  h.elim AddressText.padded And.left

/-! ## The listed ranges

Each range in terms of the value of an address. The ranges of version 6 have no
text of version 4. -/

theorem v6_of_text {network : Address} {text : Text} {groups : List ℕ}
    (h : AddressText Decimal network text)
    (hparse : parseIpv6Hextets text = some groups) :
    network = .v6 (ofGroups groups) :=
  addressText_unique (.v6 (parseIpv6Hextets_eq.mp hparse)) h.padded

theorem not_contains_v6 {text : Text} {bits n : ℕ} :
    ¬ (BlockRule.subnet text bits .ipv4).Contains (.v6 n) := by
  rintro ⟨network, -, hfamily, hsame⟩
  cases network with
  | v4 value => exact hsame
  | v6 value => cases hfamily

theorem div_of_contains {text : Text} {bits n : ℕ} (groups : List ℕ)
    (h : (BlockRule.subnet text bits .ipv6).Contains (.v6 n))
    (hparse : parseIpv6Hextets text = some groups) :
    ofGroups groups / 2 ^ (128 - bits) = n / 2 ^ (128 - bits) := by
  obtain ⟨network, hnetwork, -, hsame⟩ := h
  rw [v6_of_text hnetwork hparse] at hsame
  exact hsame

theorem eq_of_contains {text : Text} {n : ℕ} (groups : List ℕ)
    (h : (BlockRule.address text .ipv6).Contains (.v6 n))
    (hparse : parseIpv6Hextets text = some groups) : n = ofGroups groups :=
  Address.v6.inj (v6_of_text h.1 hparse)

theorem v4_div_of_contains {text : Text} {bits n : ℕ} (high low : ℕ)
    (h : (BlockRule.subnet text bits .ipv4).Contains (.v4 n))
    (hhigh : high < 65536) (hlow : low < 65536)
    (htext : hextetsToIpv4 high low = text) :
    (high * 65536 + low) / 2 ^ (32 - bits) = n / 2 ^ (32 - bits) := by
  obtain ⟨network, hnetwork, -, hsame⟩ := h
  have hdotted := dotted_hextetsToIpv4 hhigh hlow
  rw [htext] at hdotted
  rw [addressText_unique (.v4 hdotted) hnetwork.padded] at hsame
  exact hsame

theorem not_subnet_contains_v4 {text : Text} {bits n : ℕ} :
    ¬ (BlockRule.subnet text bits .ipv6).Contains (.v4 n) := by
  rintro ⟨network, -, hfamily, hsame⟩
  cases network with
  | v4 value => cases hfamily
  | v6 value => exact hsame

theorem not_address_contains_v4 {text : Text} {n : ℕ} :
    ¬ (BlockRule.address text .ipv6).Contains (.v4 n) := by
  rintro ⟨-, hfamily⟩
  cases hfamily

/-- The listed ranges of version 4. -/
theorem listed_v4 {n : ℕ} (h : Listed blockedDestinations (.v4 n)) :
    n / 2 ^ 24 = 0 ∨ n / 2 ^ 24 = 10 ∨ n / 2 ^ 22 = 100 * 4 + 1 ∨
      n / 2 ^ 24 = 127 ∨ n / 2 ^ 16 = 169 * 256 + 254 ∨
      n / 2 ^ 20 = 172 * 16 + 1 ∨ n / 2 ^ 16 = 192 * 256 + 168 ∨
      n / 2 ^ 17 = 198 * 128 + 9 ∨ 14 ≤ n / 2 ^ 28 := by
  obtain ⟨rule, hmem, hcontains⟩ := h
  simp only [blockedDestinations, List.mem_cons, List.not_mem_nil,
    or_false] at hmem
  rcases hmem with rfl | rfl | rfl | rfl | rfl | rfl | rfl | rfl | rfl | rfl |
    rfl | rfl | rfl | rfl | rfl
  · have hn := v4_div_of_contains 0 0 hcontains (by omega) (by omega)
      (by decide)
    omega
  · have hn := v4_div_of_contains 0x0a00 0 hcontains (by omega) (by omega)
      (by decide)
    omega
  · have hn := v4_div_of_contains 0x6440 0 hcontains (by omega) (by omega)
      (by decide)
    omega
  · have hn := v4_div_of_contains 0x7f00 0 hcontains (by omega) (by omega)
      (by decide)
    omega
  · have hn := v4_div_of_contains 0xa9fe 0 hcontains (by omega) (by omega)
      (by decide)
    omega
  · have hn := v4_div_of_contains 0xac10 0 hcontains (by omega) (by omega)
      (by decide)
    omega
  · have hn := v4_div_of_contains 0xc0a8 0 hcontains (by omega) (by omega)
      (by decide)
    omega
  · have hn := v4_div_of_contains 0xc612 0 hcontains (by omega) (by omega)
      (by decide)
    omega
  · have hn := v4_div_of_contains 0xe000 0 hcontains (by omega) (by omega)
      (by decide)
    omega
  · have hn := v4_div_of_contains 0xf000 0 hcontains (by omega) (by omega)
      (by decide)
    omega
  · exact absurd hcontains not_address_contains_v4
  · exact absurd hcontains not_address_contains_v4
  iterate 3 exact absurd hcontains not_subnet_contains_v4

/-- The listed ranges of version 6 are at both ends. -/
theorem listed_v6 {n : ℕ} (h : Listed blockedDestinations (.v6 n)) :
    n ≤ 1 ∨ 0xfc00 * 2 ^ 112 ≤ n := by
  obtain ⟨rule, hmem, hcontains⟩ := h
  simp only [blockedDestinations, List.mem_cons, List.not_mem_nil,
    or_false] at hmem
  rcases hmem with rfl | rfl | rfl | rfl | rfl | rfl | rfl | rfl | rfl | rfl |
    rfl | rfl | rfl | rfl | rfl
  iterate 10 exact absurd hcontains not_contains_v6
  · have hn := eq_of_contains [0, 0, 0, 0, 0, 0, 0, 0] hcontains
      (by decide)
    exact Or.inl (le_of_eq_of_le hn (by decide))
  · have hn := eq_of_contains [0, 0, 0, 0, 0, 0, 0, 1] hcontains
      (by decide)
    exact Or.inl (le_of_eq_of_le hn (by decide))
  · have hn := div_of_contains [0xfc00, 0, 0, 0, 0, 0, 0, 0] hcontains
      (by decide)
    rw [show ofGroups [0xfc00, 0, 0, 0, 0, 0, 0, 0] = 0xfc00 * 2 ^ 112 by
      decide] at hn
    omega
  · have hn := div_of_contains [0xfe80, 0, 0, 0, 0, 0, 0, 0] hcontains
      (by decide)
    rw [show ofGroups [0xfe80, 0, 0, 0, 0, 0, 0, 0] = 0xfe80 * 2 ^ 112 by
      decide] at hn
    omega
  · have hn := div_of_contains [0xff00, 0, 0, 0, 0, 0, 0, 0] hcontains
      (by decide)
    rw [show ofGroups [0xff00, 0, 0, 0, 0, 0, 0, 0] = 0xff00 * 2 ^ 112 by
      decide] at hn
    omega

/-- No listed range has an address that stands for one of version 4. -/
theorem not_listed_of_embeds {n b : ℕ} (h : Embeds n b) :
    ¬ Listed blockedDestinations (.v6 n) := by
  intro hlisted
  have hbounds := h.bounds
  rcases listed_v6 hlisted with hlow | hhigh
  · omega
  · omega

theorem forbidden_v4 {n : ℕ} :
    Forbidden (.v4 n) ↔ Listed blockedDestinations (.v4 n) := by
  refine ⟨fun h => ?_, Or.inl⟩
  rcases h with h | ⟨_, _, heq, _⟩
  · exact h
  · cases heq

theorem forbidden_embeds {n b : ℕ} (h : Embeds n b) :
    Forbidden (.v6 n) ↔ Listed blockedDestinations (.v4 b) := by
  constructor
  · rintro (hlisted | ⟨n', c, heq, hembeds, hlisted⟩)
    · exact absurd hlisted (not_listed_of_embeds h)
    · cases heq
      rwa [h.unique hembeds] at hlisted
  · exact fun hlisted => Or.inr ⟨n, b, rfl, h, hlisted⟩

theorem forbidden_native {n : ℕ} (h : ∀ b, ¬ Embeds n b) :
    Forbidden (.v6 n) ↔ Listed blockedDestinations (.v6 n) := by
  refine ⟨?_, Or.inl⟩
  rintro (hlisted | ⟨n', c, heq, hembeds, _⟩)
  · exact hlisted
  · cases heq
    exact absurd hembeds (h c)

theorem not_mapped {n : ℕ} (h : ∀ b, ¬ Embeds n b) : n / 2 ^ 32 ≠ 0xffff := by
  intro hmapped
  apply h (n % 2 ^ 32)
  convert Embeds.mapped (b := n % 2 ^ 32) (by omega) using 1
  omega

/-! ## What is blocked

The code, case by case of what the text parses as. -/

theorem not_unreadable_of_v4 {n : ℕ} {text : Text} (h : Dotted Decimal n text) :
    ¬ Unreadable text := by
  rintro ⟨groups, hv6, -⟩
  exact (h.mono fun _ _ => Decimal.padded).notMem rfl (by decide) hv6.colon_mem

/-- What reads as an address of version 6 reads as one only. -/
theorem not_unreadable_of_v6 {groups : List ℕ} {text : Text}
    (hv6 : V6Text Padded groups text)
    (h : V6Text Decimal groups text ∨ ∃ b, Embeds (ofGroups groups) b) :
    ¬ Unreadable text := by
  rintro ⟨groups', hv6', hstrict, hnone⟩
  obtain rfl := V6Text.unique hv6 hv6'
  rcases h with h | ⟨b, h⟩
  · exact hstrict h
  · exact hnone b h

/-- A text is blocked unless what is left of it reads as an address that is not
forbidden, or cannot be read by the block list. -/
theorem isBlocked_iff {net : NodeNet} (hnet : net.Correct) (address : Text) :
    isBlockedPkiDestinationAddress net address = true ↔
      (∀ a, ReadsAs a (stripIp address) → Forbidden a) ∧
        ¬ Unreadable (stripIp address) := by
  unfold isBlockedPkiDestinationAddress tryCanonicalDestinationIp
  generalize stripIp address = text
  cases hparse : parseIpv6Hextets text with
  | some groups =>
      have hv6 := parseIpv6Hextets_eq.mp hparse
      rcases embeddedIpv4_cases hv6 with
        ⟨b, octets, hembeds, hdotted, hsome⟩ | ⟨hnone, hsome⟩
      · obtain ⟨answer, hcheck, hanswer⟩ := hnet.check_v4 b octets hdotted
        have hcolon : ':' ∉ octets :=
          (hdotted.mono fun _ _ => Decimal.padded).notMem rfl (by decide)
        simp only [hsome, if_neg hcolon, hcheck, Option.getD_some]
        rw [hanswer, ← forbidden_embeds hembeds]
        constructor
        · refine fun h => ⟨fun a ha => ?_,
            not_unreadable_of_v6 hv6 (.inr ⟨b, hembeds⟩)⟩
          rwa [addressText_unique (.v6 hv6) ha.padded]
        · exact fun h => h.1 _ (Or.inr ⟨.v6 hv6, _, b, rfl, hembeds⟩)
      · have hcolon : ':' ∈ text := hv6.colon_mem
        have hfour : net.isIP text ≠ 4 := by
          intro hfour
          obtain ⟨n, hdotted⟩ := (hnet.isIP_eq_four text).mp hfour
          exact (hdotted.mono fun _ _ => Decimal.padded).notMem rfl (by decide)
            hcolon
        simp only [hsome, hparse, if_neg hfour, ne_eq, reduceCtorEq,
          not_false_eq_true, if_true, if_pos hcolon]
        by_cases hstrict : V6Text Decimal groups text
        · obtain ⟨answer, hcheck, hanswer⟩ := hnet.check_v6 groups text hstrict
            (not_mapped hnone)
          rw [hcheck, Option.getD_some, hanswer, ← forbidden_native hnone]
          constructor
          · refine fun h => ⟨fun a ha => ?_,
              not_unreadable_of_v6 hv6 (.inl hstrict)⟩
            rwa [addressText_unique (.v6 hv6) ha.padded]
          · exact fun h => h.1 _ (Or.inl (.v6 hstrict))
        · have hfalse := hnet.check_unreadable text fun groups' h => hstrict
            (V6Text.unique hv6 (h.mono fun _ _ => Decimal.padded) ▸ h)
          rw [hfalse]
          exact iff_of_false Bool.false_ne_true
            fun h => h.2 ⟨groups, hv6, hstrict, hnone⟩
  | none =>
      have hno : ∀ groups, ¬ V6Text Padded groups text := by
        intro groups h
        rw [parseIpv6Hextets_eq.mpr h] at hparse
        cases hparse
      have hembedded : embeddedIpv4 text = none := by
        rw [embeddedIpv4, hparse]
        rfl
      by_cases hfour : net.isIP text = 4
      · obtain ⟨n, hdotted⟩ := (hnet.isIP_eq_four text).mp hfour
        obtain ⟨answer, hcheck, hanswer⟩ := hnet.check_v4 n text hdotted
        have hcolon : ':' ∉ text :=
          (hdotted.mono fun _ _ => Decimal.padded).notMem rfl (by decide)
        simp only [hembedded, if_pos hfour, if_neg hcolon, hcheck,
          Option.getD_some]
        rw [hanswer, ← forbidden_v4]
        constructor
        · refine fun h => ⟨fun a ha => ?_, not_unreadable_of_v4 hdotted⟩
          rwa [addressText_unique (.v4 hdotted) ha.padded]
        · exact fun h => h.1 _ (Or.inl (.v4 hdotted))
      · simp only [hembedded, hparse, if_neg hfour, ne_eq, not_true_eq_false,
          if_false]
        refine iff_of_true trivial ⟨fun a ha => ?_, ?_⟩
        · cases ha.padded with
          | v4 h => exact absurd ((hnet.isIP_eq_four text).mpr ⟨_, h⟩) hfour
          | v6 h => exact absurd h (hno _)
        · rintro ⟨groups, hv6, -⟩
          exact hno groups hv6

/-! ## What is left of a spelling

Taking blanks, brackets and the zone off leaves the text of the address. -/

theorem trim_framed {left text right : Text} (hne : text ≠ [])
    (htext : ∀ c ∈ text, isWhiteSpace c = false)
    (hleft : ∀ c ∈ left, isWhiteSpace c = true)
    (hright : ∀ c ∈ right, isWhiteSpace c = true) :
    trim (left ++ text ++ right) = text :=
  dropWhile_framed hne htext hleft hright

theorem dropOpening_of_ne {text : Text} (h : ∀ c ∈ text, c ≠ '[') :
    dropOpening text = text := by
  unfold dropOpening
  split
  · exact absurd rfl (h '[' List.mem_cons_self)
  · rfl

theorem dropClosing_of_ne {text : Text} (h : ∀ c ∈ text, c ≠ ']') :
    dropClosing text = text := by
  rw [dropClosing, if_neg]
  exact fun hlast => h ']' (List.mem_of_getLast? hlast) rfl

theorem dropClosing_concat (text : Text) :
    dropClosing (text ++ [']']) = text := by
  rw [dropClosing, if_pos List.getLast?_concat, List.dropLast_concat]

theorem dropZone_append {text : Text} (rest : Text)
    (h : ∀ c ∈ text, c ≠ '%') :
    dropZone (text ++ rest) = text ++ dropZone rest := by
  induction text with
  | nil => rfl
  | cons c text ih =>
      have hc := h c List.mem_cons_self
      rw [List.cons_append, dropZone, if_neg fun hzone => hc hzone.1,
        ih fun d hd => h d (List.mem_cons_of_mem c hd), List.cons_append]

theorem dropZone_zone {zone : Text} (h : ZoneText zone) :
    dropZone ('%' :: zone) = [] := by
  rw [dropZone, if_pos]
  refine ⟨rfl, h.nonempty, List.any_eq_false.mpr fun c hc hline => ?_⟩
  have hplain := (h.plain c hc).1
  simp only [isLineTerminator, Bool.or_eq_true, decide_eq_true_eq] at hline
  rcases hline with ((rfl | rfl) | rfl) | rfl
  all_goals exact absurd hplain (by decide)

/-- No blank or bracket is inside. -/
theorem Inside.plain {a : Address} {text : Text} (h : Inside a text) :
    ∀ c ∈ text, isWhiteSpace c = false ∧ c ≠ '[' ∧ c ≠ ']' := by
  cases h with
  | bare h =>
      intro c hc
      obtain ⟨hwhite, hopen, hclose, -⟩ := h.padded.plain c hc
      exact ⟨hwhite, hopen, hclose⟩
  | zoned h hzone =>
      intro c hc
      rcases List.mem_append.mp hc with hc | hc
      · obtain ⟨hwhite, hopen, hclose, -⟩ := h.padded.plain c hc
        exact ⟨hwhite, hopen, hclose⟩
      · rcases List.mem_cons.mp hc with rfl | hc
        · decide
        · exact hzone.plain c hc

theorem Inside.ne_nil {a : Address} {text : Text} (h : Inside a text) :
    text ≠ [] := by
  cases h with
  | bare h => exact h.padded.ne_nil
  | zoned h _ => exact List.append_ne_nil_of_left_ne_nil h.padded.ne_nil _

theorem Inside.dropZone {a : Address} {text : Text} (h : Inside a text) :
    AddressText Decimal a (dropZone text) := by
  have hkept : ∀ {b : Address} {core : Text}, AddressText Decimal b core →
      ∀ c ∈ core, c ≠ '%' := fun h c hc => (h.padded.plain c hc).2.2.2
  cases h with
  | bare h =>
      have hdrop := dropZone_append [] (hkept h)
      rw [List.append_nil] at hdrop
      rw [hdrop, Http.dropZone, List.append_nil]
      exact h
  | zoned h hzone =>
      rw [dropZone_append _ (hkept h), dropZone_zone hzone, List.append_nil]
      exact h

/-- What is left of a spelling is a text of the address. -/
theorem Spelling.stripIp {a : Address} {text : Text} (h : Spelling a text) :
    AddressText Decimal a (stripIp text) := by
  unfold Http.stripIp
  cases h with
  | bare h hleft hright =>
      have hplain := h.plain
      rw [trim_framed h.ne_nil (fun c hc => (hplain c hc).1) hleft hright,
        dropOpening_of_ne fun c hc => (hplain c hc).2.1,
        dropClosing_of_ne fun c hc => (hplain c hc).2.2]
      exact h.dropZone
  | @bracketed text _ _ h hleft hright =>
      have hplain : ∀ c ∈ '[' :: (text ++ [']']), isWhiteSpace c = false := by
        intro c hc
        rcases List.mem_cons.mp hc with rfl | hc
        · decide
        · rcases List.mem_append.mp hc with hc | hc
          · exact (h.plain c hc).1
          · rw [List.mem_singleton.mp hc]
            decide
      rw [trim_framed (List.cons_ne_nil _ _) hplain hleft hright, dropOpening,
        dropClosing_concat]
      exact h.dropZone

/-! ## Only the address

The answer for a spelling is that for its address; for other texts it depends
on what is left of them. -/

/-- The answer for a text depends on the address it spells, and a text that
spells none is blocked. -/
structure AddressOnly (net : NodeNet) (text : Text) : Prop where
  exact : ∀ a, Spelling a text →
    (isBlockedPkiDestinationAddress net text = true ↔ Forbidden a)
  same : ∀ a other, Spelling a text → Spelling a other →
    isBlockedPkiDestinationAddress net other =
      isBlockedPkiDestinationAddress net text
  unspelled : (∀ a, ¬ Spelling a text) →
    isBlockedPkiDestinationAddress net text = true

theorem isBlocked_of_spelling {net : NodeNet} (hnet : net.Correct)
    {a : Address} {text : Text} (h : Spelling a text) :
    isBlockedPkiDestinationAddress net text = true ↔ Forbidden a := by
  rw [isBlocked_iff hnet]
  have htext := h.stripIp
  have hreads : ReadsAs a (stripIp text) := Or.inl htext
  constructor
  · exact fun hall => hall.1 a hreads
  · refine fun hforbidden => ⟨fun b hb => ?_, ?_⟩
    · rwa [addressText_unique hreads.padded hb.padded]
    · cases htext with
      | v4 hdotted => exact not_unreadable_of_v4 hdotted
      | v6 hv6 =>
        have hpadded := hv6.mono fun _ _ => Decimal.padded
        exact not_unreadable_of_v6 hpadded (.inl hv6)

open Classical in
/-- The platform that answers what the texts say. -/
noncomputable def exactNet : NodeNet where
  isIP text :=
    if ∃ n, Dotted Decimal n text then 4
    else if ∃ groups, V6Text Decimal groups text then 6
    else 0
  check rules text family :=
    match family with
    | .ipv4 =>
        if h : ∃ n, Dotted Decimal n text then
          some (decide (Listed rules (.v4 h.choose)))
        else some false
    | .ipv6 =>
        if h : ∃ groups, V6Text Decimal groups text then
          some (decide (Listed rules (.v6 (ofGroups h.choose))))
        else some false

open Classical in
theorem exactNet_correct : exactNet.Correct where
  isIP_eq_four text := by
    change (if _ then 4 else if _ then 6 else 0) = 4 ↔ _
    split
    next h => exact iff_of_true rfl h
    next h =>
      refine iff_of_false (fun heq => ?_) h
      split at heq
      · cases heq
      · cases heq
  check_v4 n text h := by
    have hex : ∃ n, Dotted Decimal n text := ⟨n, h⟩
    have hn : hex.choose = n := (h.mono fun _ _ => Decimal.padded).unique
      (hex.choose_spec.mono fun _ _ => Decimal.padded)
    refine ⟨_, dif_pos hex, ?_⟩
    rw [hn]
    exact decide_eq_true_iff
  check_v6 groups text h _ := by
    have hex : ∃ groups, V6Text Decimal groups text := ⟨groups, h⟩
    have hgroups : hex.choose = groups :=
      V6Text.unique (h.mono fun _ _ => Decimal.padded)
        (hex.choose_spec.mono fun _ _ => Decimal.padded)
    refine ⟨_, dif_pos hex, ?_⟩
    rw [hgroups]
    exact decide_eq_true_iff
  check_unreadable text h := dif_neg (not_exists.mpr h)

theorem splitOn_dotted {octet : ℕ → Text → Prop}
    (hoctet : ∀ n text, octet n text → Padded n text) {value : ℕ}
    {text : Text} (h : Dotted octet value text) :
    ∀ part ∈ text.splitOn '.', ∃ n, octet n part := by
  obtain ⟨ha, hb, hc, hd⟩ := h
  next a b c d ta tb tc td =>
  rw [← intercalate_four, List.splitOn_intercalate '.' _ (List.cons_ne_nil _ _)]
  · simp only [List.forall_mem_cons]
    exact ⟨⟨a, ha⟩, ⟨b, hb⟩, ⟨c, hc⟩, ⟨d, hd⟩,
      fun _ h => absurd h List.not_mem_nil⟩
  · simp only [List.forall_mem_cons]
    exact ⟨(hoctet _ _ ha).notMem rfl, (hoctet _ _ hb).notMem rfl,
      (hoctet _ _ hc).notMem rfl, (hoctet _ _ hd).notMem rfl,
      fun _ h => absurd h List.not_mem_nil⟩

/-- The octets of a canonical text have no zeros before them. -/
theorem decimal_of_suffix {groups : List ℕ} {text start : Text}
    {texts : List Text} (h : V6Text Decimal groups text)
    (hsuffix : DOTTED_IPV4_SUFFIX text = some (start, texts)) :
    ∀ part ∈ texts, ∃ n, Decimal n part := by
  obtain ⟨-, -, hfour, hoctets, htext⟩ := dottedSuffix_eq.mp hsuffix
  have hdots : ∀ part ∈ texts, '.' ∉ part :=
    fun part hpart => notMem_of_octetText (hoctets part hpart) rfl
  have hne : texts ≠ [] := by
    rintro rfl
    cases hfour
  cases h with
  | hex hhex =>
      obtain ⟨ta, tb, tc, td, rfl⟩ := List.length_eq_four.mp hfour
      rw [intercalate_four] at htext
      rw [htext] at hhex
      have hdot := hhex.mem (c := '.') (by simp)
      exact absurd hdot (by decide)
  | dotted hdotted hhex =>
      have hcolon := (hdotted.mono fun _ _ => Decimal.padded).notMem
        (c := ':') rfl (by decide)
      have hcolon' : ':' ∉ ['.'].intercalate texts := by
        intro hmem
        rcases mem_intercalate hmem with hdot | ⟨part, hpart, hmem⟩
        · cases List.mem_singleton.mp hdot
        · exact notMem_of_octetText (hoctets part hpart) rfl hmem
      have htail := takeWhile_lastColon hcolon'  start
      rw [← htext, takeWhile_lastColon hcolon] at htail
      have hsplit := splitOn_dotted (fun _ _ => Decimal.padded) hdotted
      rwa [List.reverse_injective htail,
        List.splitOn_intercalate '.' hdots hne] at hsplit

/-- Octets with zeros before them are no spelling, but are read. -/
def paddedDns : Text := "::ffff:08.8.8.8".toList

theorem not_spelling_paddedDns (a : Address) : ¬ Spelling a paddedDns := by
  intro h
  have hsuffix : DOTTED_IPV4_SUFFIX (stripIp paddedDns) =
      some ("::ffff".toList, ["08", "8", "8", "8"].map String.toList) := by
    decide
  have hparse : parseIpv6Hextets (stripIp paddedDns) =
      some [0, 0, 0, 0, 0, 0xffff, 0x0808, 0x0808] := by decide
  have htext := h.stripIp
  have heq := addressText_unique (.v6 (parseIpv6Hextets_eq.mp hparse))
    htext.padded
  subst heq
  generalize hwhole : Address.v6 _ = a at htext
  cases htext with
  | v4 _ => cases hwhole
  | v6 h =>
      obtain ⟨n, hn⟩ := decimal_of_suffix h hsuffix "08".toList (by simp)
      have hvalue := hn.padded.value
      rw [show Nat.ofDigitChars 10 "08".toList 0 = 8 by decide]
        at hvalue
      have hdigits := hn.digits
      rw [← hvalue] at hdigits
      exact absurd hdigits (by decide)

theorem not_forbidden_dns : ¬ Forbidden (.v6 0xffff08080808) := by
  have hembeds : Embeds 0xffff08080808 0x08080808 :=
    .mapped (b := 0x08080808) (by decide)
  rw [forbidden_embeds hembeds]
  intro hlisted
  have hranges := listed_v4 hlisted
  omega

/-- A link-local address with a zero before an octet. -/
def paddedLink : Text := "fe80::010.0.0.1".toList

theorem unreadable_paddedLink : Unreadable (stripIp paddedLink) := by
  have hsuffix : DOTTED_IPV4_SUFFIX (stripIp paddedLink) =
      some ("fe80:".toList, ["010", "0", "0", "1"].map String.toList) := by
    decide
  have hparse : parseIpv6Hextets (stripIp paddedLink) =
      some [0xfe80, 0, 0, 0, 0, 0, 0x0a00, 0x0001] := by decide
  refine ⟨_, parseIpv6Hextets_eq.mp hparse, fun h => ?_, fun b h => ?_⟩
  · obtain ⟨n, hn⟩ := decimal_of_suffix h hsuffix "010".toList (by simp)
    have hvalue := hn.padded.value
    rw [show Nat.ofDigitChars 10 "010".toList 0 = 10 by decide] at hvalue
    have hdigits := hn.digits
    rw [← hvalue] at hdigits
    exact absurd hdigits (by decide)
  · have hbounds := h.bounds
    rw [show ofGroups [0xfe80, 0, 0, 0, 0, 0, 0x0a00, 0x0001] =
      0xfe80 * 2 ^ 112 + 0x0a000001 by decide] at hbounds
    omega

end Shozee.Http
