import Shozee.Http.ClientIp
import Shozee.Run.Traverse

/-!
# What is parsed is written so

`parseIpv6Hextets` finds the groups of a text exactly when the text is one of
version 6 with these groups, where octets may have zeros before them
(`parseIpv6Hextets_eq`). So a text has one reading at most.
-/

namespace Shozee.Http

open Shozee.Run

/-! ## Groups

The code's test on a group and the grammar of a group are one. -/

theorem hexGroup_iff {n : ℕ} {group : Text} :
    (if HEX_GROUP group = true then some (parseInt16 group) else none) =
      some n ↔ HexGroup n group := by
  have hgroup : HEX_GROUP group = true ↔ group ≠ [] ∧ group.length ≤ 4 ∧
      ∀ c ∈ group, hexDigitValue c ≠ none := by
    simp only [HEX_GROUP, Bool.and_eq_true, decide_eq_true_eq,
      List.all_eq_true, Option.isSome_iff_ne_none, and_assoc]
  constructor
  · intro h
    split at h
    next hhex =>
      obtain ⟨hne, hshort, hdigits⟩ := hgroup.mp hhex
      exact ⟨hne, hshort, hdigits, Option.some.inj h⟩
    next => cases h
  · intro h
    rw [if_pos (hgroup.mpr ⟨h.nonempty, h.short, h.digits⟩)]
    exact congrArg some h.value

theorem parseHexGroups_eq {part : Text} {groups : List ℕ} :
    parseHexGroups part = some groups ↔ HexGroups groups part := by
  unfold parseHexGroups
  constructor
  · intro h
    split at h
    next hnil =>
      cases h
      exact ⟨[], .nil, hnil⟩
    next hne =>
      refine ⟨part.splitOn ':', ?_, (List.intercalate_splitOn ':').symm⟩
      exact (List.forall₂_iff_get.mpr
        ⟨(mapM_eq_some.mp h).length_eq.symm, fun i hi hi' =>
          hexGroup_iff.mp ((mapM_eq_some.mp h).get hi' hi)⟩)
  · rintro ⟨parts, hparts, rfl⟩
    have hwords := hexGroup_of_mem hparts
    by_cases hnil : parts = []
    · subst hnil
      cases hparts
      rfl
    · rw [if_neg, List.splitOn_intercalate ':' _ hnil, mapM_eq_some]
      · exact (List.Forall₂.imp (fun n part h => hexGroup_iff.mpr h)
          hparts).flip
      · intro part hmem
        obtain ⟨n, hn⟩ := hwords part hmem
        exact hn.colon_notMem
      · refine mt (intercalate_eq_nil fun part hmem => ?_).mp hnil
        obtain ⟨n, hn⟩ := hwords part hmem
        exact hn.nonempty

/-! ## Compression

Splitting at the double colon, and what the parts of a text are. -/

-- Its equations are made once, for all the lemmas below.
attribute [local simp] splitCompression

theorem before_before (a b : Text) (texts : List Text) :
    before a (before b texts) = before (a ++ b) texts := by
  cases texts with
  | nil => rfl
  | cons first rest => rw [before, before, before, List.append_assoc]

theorem before_ne_nil (text : Text) (texts : List Text) :
    before text texts ≠ [] := by
  cases texts <;> exact List.cons_ne_nil _ _

theorem splitCompression_ne_nil (text : Text) : splitCompression text ≠ [] := by
  fun_cases splitCompression text
  · exact List.cons_ne_nil _ _
  · exact before_ne_nil _ _
  · exact List.cons_ne_nil _ _

theorem before_nil {texts : List Text} (h : texts ≠ []) :
    before [] texts = texts := by
  cases texts with
  | nil => exact absurd rfl h
  | cons first rest => rfl

theorem intercalate_before (text : Text) {texts : List Text}
    (h : texts ≠ []) :
    [':', ':'].intercalate (before text texts) =
      text ++ [':', ':'].intercalate texts := by
  cases texts with
  | nil => exact absurd rfl h
  | cons first rest =>
      cases rest with
      | nil => rw [before, List.intercalate_singleton, List.intercalate_singleton]
      | cons next rest =>
          rw [before, List.intercalate_cons_cons, List.intercalate_cons_cons]
          simp only [List.append_assoc]

/-- The text is the parts with the colons between them. -/
theorem intercalate_splitCompression (text : Text) :
    [':', ':'].intercalate (splitCompression text) = text := by
  fun_induction splitCompression text with
  | case1 rest ih =>
      rw [List.intercalate_cons_of_ne_nil (splitCompression_ne_nil rest), ih]
      rfl
  | case2 c rest _ ih =>
      rw [intercalate_before _ (splitCompression_ne_nil rest), ih]
      rfl
  | case3 => rfl

theorem splitCompression_cons {c : Char} {rest : Text}
    (h : c = ':' → rest.head? ≠ some ':') :
    splitCompression (c :: rest) = before [c] (splitCompression rest) := by
  rw [splitCompression]
  rintro _ rfl rfl
  exact h rfl rfl

theorem splitCompression_append {part : Text} (h : ':' ∉ part) (rest : Text) :
    splitCompression (part ++ rest) = before part (splitCompression rest) := by
  induction part with
  | nil => exact (before_nil (splitCompression_ne_nil rest)).symm
  | cons c part ih =>
      have hc : c ≠ ':' := fun hc => h (hc ▸ List.mem_cons_self)
      rw [List.cons_append, splitCompression_cons fun heq => absurd heq hc,
        ih fun hmem => h (List.mem_cons_of_mem c hmem), before_before]
      rfl

/-- There are no two colons in a row in groups. -/
theorem splitCompression_groups {groups : List ℕ} {text : Text}
    (h : HexGroups groups text) (rest : Text) :
    splitCompression (text ++ rest) = before text (splitCompression rest) := by
  obtain ⟨parts, hparts, rfl⟩ := h
  have hmem := hexGroup_of_mem hparts
  clear hparts
  induction parts with
  | nil => exact (before_nil (splitCompression_ne_nil rest)).symm
  | cons part parts ih =>
      obtain ⟨n, hn⟩ := hmem part List.mem_cons_self
      have htail : ∀ p ∈ parts, ∃ n, HexGroup n p :=
        fun p hp => hmem p (List.mem_cons_of_mem part hp)
      cases parts with
      | nil =>
          rw [List.intercalate_singleton,
            splitCompression_append hn.colon_notMem]
      | cons next parts =>
          obtain ⟨m, hm⟩ := htail next List.mem_cons_self
          have hhead : ([':'].intercalate (next :: parts) ++ rest).head? ≠
              some ':' := by
            obtain ⟨c, next, rfl⟩ := List.exists_cons_of_ne_nil hm.nonempty
            rw [List.intercalate_cons_cons_left]
            intro hc
            cases hc
            exact hm.colon_notMem List.mem_cons_self
          rw [List.intercalate_cons_cons, List.append_assoc, List.append_assoc,
            splitCompression_append hn.colon_notMem, List.singleton_append,
            splitCompression_cons fun _ => hhead, ih htail, before_before,
            before_before, List.append_assoc]

theorem splitCompression_full {groups : List ℕ} {text : Text}
    (h : HexGroups groups text) : splitCompression text = [text] := by
  have hsplit := splitCompression_groups h []
  rw [List.append_nil] at hsplit
  rw [hsplit, splitCompression, before, List.append_nil]

theorem splitCompression_compressed {left right : List ℕ} {l r : Text}
    (hl : HexGroups left l) (hr : HexGroups right r) :
    splitCompression (l ++ ':' :: ':' :: r) = [l, r] := by
  rw [splitCompression_groups hl, splitCompression, splitCompression_full hr,
    before, List.append_nil]

/-! ## Hexadecimal texts

A text without octets is parsed into its groups, left of the double colon and
right of it. -/

/-- The groups of a text without octets. -/
theorem hextets_eq {address rewritten : Text} {groups : List ℕ}
    (h : rewriteDottedIpv4Suffix address = some rewritten) :
    parseIpv6Hextets address = some groups ↔ HexText groups rewritten := by
  have htext := intercalate_splitCompression rewritten
  unfold parseIpv6Hextets
  simp only [h, Option.bind_eq_bind, Option.bind_some]
  constructor
  · intro hparse
    split at hparse
    next => cases hparse
    next hmany =>
      split at hparse
      next hone =>
        obtain ⟨l, r, hparts⟩ := List.length_eq_two.mp
          (show (splitCompression rewritten).length = 2 by omega)
        rw [hparts] at hparse htext
        obtain ⟨left, hleft, hparse⟩ := Option.bind_eq_some_iff.mp hparse
        obtain ⟨right, hright, hparse⟩ := Option.bind_eq_some_iff.mp hparse
        split at hparse
        next => cases hparse
        next hmissing =>
          have hlen : left.length + right.length ≤ 7 := by omega
          have hzeros : (8 - (left.length : ℤ) - right.length).toNat =
              8 - left.length - right.length := by omega
          rw [hzeros] at hparse
          have htext' : l ++ ':' :: ':' :: r = rewritten := by
            rw [← htext, List.intercalate_cons_cons,
              List.intercalate_singleton, List.append_assoc]
            rfl
          rw [← Option.some.inj hparse, ← htext']
          exact .compressed (parseHexGroups_eq.mp hleft)
            (parseHexGroups_eq.mp hright) hlen
      next hnone =>
        obtain ⟨found, hfound, hparse⟩ := Option.bind_eq_some_iff.mp hparse
        split at hparse
        next => cases hparse
        next hlen =>
          cases hparse
          exact .full (parseHexGroups_eq.mp hfound) (not_not.mp hlen)
  · intro hhex
    cases hhex with
    | full hgroups hlen =>
        rw [splitCompression_full hgroups, parseHexGroups_eq.mpr hgroups]
        simp only [List.length_singleton, Option.bind_some]
        rw [if_neg (by omega), if_neg (by omega), if_neg (not_not.mpr hlen)]
    | @compressed left right l r hl hr hlen =>
        have hzeros : (8 - (left.length : ℤ) - right.length).toNat =
            8 - left.length - right.length := by omega
        rw [splitCompression_compressed hl hr]
        change ((parseHexGroups l).bind fun left => (parseHexGroups r).bind _) = _
        rw [parseHexGroups_eq.mpr hl, parseHexGroups_eq.mpr hr]
        simp only [Option.bind_some]
        rw [if_neg (by omega), hzeros]

/-! ## Octets

A dotted suffix is rewritten as two groups, and the text is then one without
octets. -/

/-- What `\d{1,3}` matches. -/
def OctetText (text : Text) : Prop :=
  text ≠ [] ∧ text.length ≤ 3 ∧ text.all Char.isDigit = true

theorem padded_of_octetText {text : Text} (h : OctetText text)
    (hbyte : octetValue text < 256) : Padded (octetValue text) text where
  byte := hbyte
  nonempty := h.1
  short := h.2.1
  digits := List.all_eq_true.mp h.2.2
  value := rfl

theorem octetText_of_padded {n : ℕ} {text : Text} (h : Padded n text) :
    OctetText text :=
  ⟨h.nonempty, h.short, List.all_eq_true.mpr h.digits⟩

theorem notMem_of_octetText {text : Text} (h : OctetText text) {c : Char}
    (hc : c.isDigit = false) : c ∉ text := by
  intro hmem
  have hdigit := List.all_eq_true.mp h.2.2 c hmem
  rw [hc] at hdigit
  cases hdigit

theorem takeWhile_lastColon {tail : Text} (h : ':' ∉ tail) (start : Text) :
    (start ++ ':' :: tail).reverse.takeWhile (· ≠ ':') = tail.reverse := by
  have htail : ∀ c ∈ tail.reverse, decide (c ≠ ':') = true :=
    fun c hc => decide_eq_true fun heq => h (heq ▸ List.mem_reverse.mp hc)
  rw [List.reverse_append, List.reverse_cons, List.append_assoc,
    List.takeWhile_append_of_pos htail]
  exact List.append_nil _

theorem dropWhile_lastColon {tail : Text} (h : ':' ∉ tail) (start : Text) :
    (start ++ ':' :: tail).reverse.dropWhile (· ≠ ':') =
      ':' :: start.reverse := by
  have htail : ∀ c ∈ tail.reverse, decide (c ≠ ':') = true :=
    fun c hc => decide_eq_true fun heq => h (heq ▸ List.mem_reverse.mp hc)
  rw [List.reverse_append, List.reverse_cons, List.append_assoc,
    List.dropWhile_append_of_pos htail]
  rfl

/-- The match has four octets after the last colon and something before it. -/
theorem dottedSuffix_eq {address start : Text} {texts : List Text} :
    DOTTED_IPV4_SUFFIX address = some (start, texts) ↔
      start ≠ [] ∧ start.any isLineTerminator = false ∧ texts.length = 4 ∧
        (∀ text ∈ texts, OctetText text) ∧
        address = start ++ ':' :: ['.'].intercalate texts := by
  constructor
  · intro h
    unfold DOTTED_IPV4_SUFFIX at h
    dsimp only at h
    split at h
    next => cases h
    next c rest hrest =>
      split at h
      next hmatch =>
        obtain ⟨hne, hline, hfour, hoctets⟩ := hmatch
        cases h
        have hcolon : c = ':' := by
          have hhead := List.head?_dropWhile_not (· ≠ ':') address.reverse
          rw [hrest] at hhead
          simpa using hhead
        subst hcolon
        refine ⟨mt List.reverse_eq_nil_iff.mp hne, by rwa [List.any_reverse],
          hfour, hoctets, ?_⟩
        rw [List.intercalate_splitOn]
        have hsplit := List.takeWhile_append_dropWhile (p := (· ≠ ':'))
          (l := address.reverse)
        rw [hrest] at hsplit
        have hreverse := congrArg List.reverse hsplit
        rw [List.reverse_append, List.reverse_cons, List.append_assoc,
          List.reverse_reverse] at hreverse
        exact hreverse.symm
      next => cases h
  · rintro ⟨hne, hline, hfour, hoctets, rfl⟩
    have hcolon : ':' ∉ ['.'].intercalate texts := by
      intro hmem
      rcases mem_intercalate hmem with hdot | ⟨text, htext, hmem⟩
      · cases List.mem_singleton.mp hdot
      · exact notMem_of_octetText (hoctets text htext) rfl hmem
    have hdots : (['.'].intercalate texts).splitOn '.' = texts := by
      apply List.splitOn_intercalate '.'
      · exact fun text hmem => notMem_of_octetText (hoctets text hmem) rfl
      · rintro rfl
        cases hfour
    unfold DOTTED_IPV4_SUFFIX
    rw [takeWhile_lastColon hcolon, dropWhile_lastColon hcolon,
      List.reverse_reverse, hdots]
    dsimp only
    rw [if_pos, List.reverse_reverse]
    exact ⟨mt List.reverse_eq_nil_iff.mp hne, by rwa [List.any_reverse],
      hfour, hoctets⟩

theorem pair_eq {a b : ℕ} (hb : b < 256) : a <<< 8 ||| b = a * 256 + b := by
  rw [← Nat.shiftLeft_add_eq_or_of_lt (by omega : b < 2 ^ 8),
    Nat.shiftLeft_eq]

theorem intercalate_four (ta tb tc td : Text) :
    ['.'].intercalate [ta, tb, tc, td] =
      ta ++ '.' :: tb ++ '.' :: tc ++ '.' :: td := by
  simp only [List.intercalate_cons_cons, List.intercalate_singleton,
    List.append_assoc, List.cons_append, List.nil_append]

theorem rewrite_of_dotted {start dotted : Text} {value : ℕ}
    (hne : start ≠ []) (hline : start.any isLineTerminator = false)
    (h : Dotted Padded value dotted) :
    rewriteDottedIpv4Suffix (start ++ ':' :: dotted) =
      some (start ++ ':' :: Nat.toDigits 16 (value / 65536) ++
        ':' :: Nat.toDigits 16 (value % 65536)) := by
  obtain ⟨ha, hb, hc, hd⟩ := h
  next a b c d ta tb tc td =>
  have hsuffix : DOTTED_IPV4_SUFFIX (start ++ ':' :: (ta ++ '.' :: tb ++
      '.' :: tc ++ '.' :: td)) = some (start, [ta, tb, tc, td]) := by
    refine dottedSuffix_eq.mpr ⟨hne, hline, rfl, ?_, ?_⟩
    · simp only [List.forall_mem_cons]
      exact ⟨octetText_of_padded ha, octetText_of_padded hb,
        octetText_of_padded hc, octetText_of_padded hd,
        fun _ h => absurd h List.not_mem_nil⟩
    · rw [intercalate_four]
  have hvalues : [ta, tb, tc, td].map octetValue = [a, b, c, d] := by
    simp only [List.map_cons, List.map_nil, octetValue, ha.value, hb.value,
      hc.value, hd.value]
  have hbytes : [a, b, c, d].any (255 < ·) = false := by
    have := ha.byte
    have := hb.byte
    have := hc.byte
    have := hd.byte
    simp only [List.any_cons, List.any_nil, Bool.or_false, Bool.or_eq_false_iff,
      decide_eq_false_iff_not]
    omega
  rw [rewriteDottedIpv4Suffix, hsuffix]
  dsimp only
  rw [hvalues, hbytes, if_neg Bool.false_ne_true]
  simp only [List.getD_cons_zero, List.getD_cons_succ, toString16]
  rw [pair_eq hb.byte, pair_eq hd.byte]
  have := hc.byte
  have := hd.byte
  rw [show ((a * 256 + b) * 65536 + (c * 256 + d)) / 65536 = a * 256 + b by
    omega, show ((a * 256 + b) * 65536 + (c * 256 + d)) % 65536 =
      c * 256 + d by omega]

/-- The hextets that are found are those of the text. -/
theorem parseIpv6Hextets_eq {text : Text} {groups : List ℕ} :
    parseIpv6Hextets text = some groups ↔ V6Text Padded groups text := by
  constructor
  · intro h
    cases hsuffix : DOTTED_IPV4_SUFFIX text with
    | none =>
        have hsame : rewriteDottedIpv4Suffix text = some text := by
          rw [rewriteDottedIpv4Suffix, hsuffix]
        exact .hex ((hextets_eq hsame).mp h)
    | some found =>
        obtain ⟨start, texts⟩ := found
        obtain ⟨hne, hline, hfour, hoctets, rfl⟩ := dottedSuffix_eq.mp hsuffix
        have hbytes : ∀ octet ∈ texts, octetValue octet < 256 := by
          intro octet hmem
          by_contra hbig
          have hany : (texts.map octetValue).any (255 < ·) = true :=
            List.any_eq_true.mpr ⟨_, List.mem_map_of_mem hmem,
              decide_eq_true (by omega)⟩
          have hnone : rewriteDottedIpv4Suffix
              (start ++ ':' :: ['.'].intercalate texts) = none := by
            rw [rewriteDottedIpv4Suffix, hsuffix]
            dsimp only
            rw [if_pos hany]
          rw [parseIpv6Hextets, hnone] at h
          cases h
        have hpadded : ∀ octet ∈ texts, Padded (octetValue octet) octet :=
          fun octet hmem =>
            padded_of_octetText (hoctets octet hmem) (hbytes octet hmem)
        obtain ⟨ta, tb, tc, td, rfl⟩ := List.length_eq_four.mp hfour
        simp only [List.forall_mem_cons] at hpadded
        obtain ⟨ha, hb, hc, hd, -⟩ := hpadded
        have hdotted := Dotted.octets ha hb hc hd
        rw [intercalate_four] at h ⊢
        exact .dotted hdotted
          ((hextets_eq (rewrite_of_dotted hne hline hdotted)).mp h)
  · intro h
    cases h with
    | hex hhex =>
        suffices hsame : rewriteDottedIpv4Suffix text = some text from
          (hextets_eq hsame).mpr hhex
        cases hsuffix : DOTTED_IPV4_SUFFIX text with
        | none => rw [rewriteDottedIpv4Suffix, hsuffix]
        | some found =>
            obtain ⟨start, texts⟩ := found
            obtain ⟨-, -, hfour, -, rfl⟩ := dottedSuffix_eq.mp hsuffix
            obtain ⟨ta, tb, tc, td, rfl⟩ := List.length_eq_four.mp hfour
            rw [intercalate_four] at hhex
            have hdot := hhex.mem (c := '.') (by simp)
            exact absurd hdot (by decide)
    | dotted hdotted hhex =>
        refine (hextets_eq (rewrite_of_dotted ?_ ?_ hdotted)).mpr hhex
        · rintro rfl
          next value dotted =>
          obtain ⟨c, digits, hdigits⟩ := List.exists_cons_of_ne_nil
            (Nat.toDigits_ne_nil (n := value / 65536) (b := 16))
          have hcolon := colon_notMem_toDigits (value / 65536)
          rw [hdigits] at hhex hcolon
          exact hcolon (hhex.second_eq_colon ▸ List.mem_cons_self)
        · refine List.any_eq_false.mpr fun c hc => ?_
          have hhexes := hhex.mem
            (List.mem_append_left _ (List.mem_append_left _ hc))
          simp only [isLineTerminator, Bool.or_eq_true, decide_eq_true_eq]
          rintro (((rfl | rfl) | rfl) | rfl)
          all_goals exact absurd hhexes (by decide)

end Shozee.Http
