import Shozee.Http.Hextets

/-!
# Version 4 addresses inside

`embeddedIpv4` gives the four octets of the address that a text of version 6
stands for, and nothing when it stands for none (`embeddedIpv4_cases`). The
forms do not overlap, so which of them is tried first does not matter.
-/

namespace Shozee.Http

open Shozee.Run

theorem V6Text.unique {groups groups' : List ℕ} {text : Text}
    (h : V6Text Padded groups text) (h' : V6Text Padded groups' text) :
    groups' = groups := by
  rw [← parseIpv6Hextets_eq] at h h'
  rw [h] at h'
  exact (Option.some.inj h').symm

/-! ## Four octets

Two groups of sixteen bits are four octets, and a canonical text has them. -/

theorem decimal_of_lt {n : ℕ} (h : n < 256) : Decimal n (Nat.toDigits 10 n) :=
  ⟨h, rfl⟩

/-- Two hextets are the four octets of an address. -/
theorem dotted_hextetsToIpv4 {high low : ℕ} (hhigh : high < 65536)
    (hlow : low < 65536) :
    Dotted Decimal (high * 65536 + low) (hextetsToIpv4 high low) := by
  have hand : ∀ n, n &&& 255 = n % 256 :=
    fun n => Nat.and_two_pow_sub_one_eq_mod n 8
  have hshift : ∀ n, n >>> 8 = n / 256 := fun n => Nat.shiftRight_eq_div_pow n 8
  have hdotted := Dotted.octets
    (decimal_of_lt (by omega : high / 256 % 256 < 256))
    (decimal_of_lt (by omega : high % 256 < 256))
    (decimal_of_lt (by omega : low / 256 % 256 < 256))
    (decimal_of_lt (by omega : low % 256 < 256))
  rw [hextetsToIpv4, hand, hand, hand, hand, hshift, hshift, List.map_cons,
    List.map_cons, List.map_cons, List.map_cons, List.map_nil, intercalate_four]
  rw [show (high / 256 % 256 * 256 + high % 256) * 65536 +
    (low / 256 % 256 * 256 + low % 256) = high * 65536 + low by omega] at hdotted
  exact hdotted

theorem hextetsToIpv4_eq_iff {high low high' low' : ℕ} (hhigh : high < 65536)
    (hlow : low < 65536) (hhigh' : high' < 65536) (hlow' : low' < 65536) :
    hextetsToIpv4 high low = hextetsToIpv4 high' low' ↔
      high = high' ∧ low = low' := by
  constructor
  · intro h
    have hdotted := (dotted_hextetsToIpv4 hhigh hlow).mono
      fun _ _ => Decimal.padded
    have hdotted' := (dotted_hextetsToIpv4 hhigh' hlow').mono
      fun _ _ => Decimal.padded
    rw [← h] at hdotted'
    have := hdotted.unique hdotted'
    omega
  · rintro ⟨rfl, rfl⟩
    rfl

theorem hextetsToIpv4_eq_native {high low : ℕ} (hhigh : high < 65536)
    (hlow : low < 65536) :
    (hextetsToIpv4 high low = "0.0.0.0".toList ∨
      hextetsToIpv4 high low = "0.0.0.1".toList) ↔
        high * 65536 + low ≤ 1 := by
  rw [show "0.0.0.0".toList = hextetsToIpv4 0 0 by decide,
    show "0.0.0.1".toList = hextetsToIpv4 0 1 by decide,
    hextetsToIpv4_eq_iff hhigh hlow (by omega) (by omega),
    hextetsToIpv4_eq_iff hhigh hlow (by omega) (by omega)]
  omega

/-! ## Embedded addresses

The code's tests on the groups, compared with the forms in which an address
embeds another. -/

theorem length_eq_eight {groups : List ℕ} (h : groups.length = 8) :
    ∃ g0 g1 g2 g3 g4 g5 g6 g7, groups = [g0, g1, g2, g3, g4, g5, g6, g7] := by
  obtain ⟨g0, g1, g2, g3, hleft⟩ := List.length_eq_four.mp
    (show (groups.take 4).length = 4 by rw [List.length_take]; omega)
  obtain ⟨g4, g5, g6, g7, hright⟩ := List.length_eq_four.mp
    (show (groups.drop 4).length = 4 by rw [List.length_drop]; omega)
  refine ⟨g0, g1, g2, g3, g4, g5, g6, g7, ?_⟩
  rw [← List.take_append_drop 4 groups, hleft, hright]
  rfl

/-- Which groups stand for a version 4 address. -/
theorem embeds_iff {g0 g1 g2 g3 g4 g5 g6 g7 b : ℕ} (h0 : g0 < 65536)
    (h1 : g1 < 65536) (h2 : g2 < 65536) (h3 : g3 < 65536) (h4 : g4 < 65536)
    (h5 : g5 < 65536) (h6 : g6 < 65536) (h7 : g7 < 65536) :
    Embeds (ofGroups [g0, g1, g2, g3, g4, g5, g6, g7]) b ↔
      ((g0 = 0 ∧ g1 = 0 ∧ g2 = 0 ∧ g3 = 0 ∧ g4 = 0 ∧ g5 = 0xffff) ∧
        b = g6 * 65536 + g7) ∨
      ((g0 = 0 ∧ g1 = 0 ∧ g2 = 0 ∧ g3 = 0 ∧ g4 = 0xffff ∧ g5 = 0) ∧
        b = g6 * 65536 + g7) ∨
      ((g0 = 0 ∧ g1 = 0 ∧ g2 = 0 ∧ g3 = 0 ∧ g4 = 0 ∧ g5 = 0) ∧
        b = g6 * 65536 + g7 ∧ 1 < b) ∨
      ((g0 = 0x64 ∧ g1 = 0xff9b ∧ g2 = 0 ∧ g3 = 0 ∧ g4 = 0 ∧ g5 = 0) ∧
        b = g6 * 65536 + g7) ∨
      (g0 = 0x2002 ∧ b = g1 * 65536 + g2) := by
  simp only [ofGroups, List.foldl_cons, List.foldl_nil]
  constructor
  · intro h
    generalize hn : 65536 * (65536 * (65536 * (65536 * (65536 * (65536 *
      (65536 * (65536 * 0 + g0) + g1) + g2) + g3) + g4) + g5) + g6) + g7 =
        n at h
    cases h with
    | mapped hb => exact Or.inl (by omega)
    | translated hb => exact Or.inr (Or.inl (by omega))
    | compatible hb hreal => exact Or.inr (Or.inr (Or.inl (by omega)))
    | nat64 hb => exact Or.inr (Or.inr (Or.inr (Or.inl (by omega))))
    | sixToFour hb hrest => exact Or.inr (Or.inr (Or.inr (Or.inr (by omega))))
  · rintro (⟨⟨rfl, rfl, rfl, rfl, rfl, rfl⟩, rfl⟩ |
      ⟨⟨rfl, rfl, rfl, rfl, rfl, rfl⟩, rfl⟩ |
      ⟨⟨rfl, rfl, rfl, rfl, rfl, rfl⟩, rfl, hreal⟩ |
      ⟨⟨rfl, rfl, rfl, rfl, rfl, rfl⟩, rfl⟩ | ⟨rfl, rfl⟩)
    · convert Embeds.mapped (b := g6 * 65536 + g7) (by omega) using 1
      omega
    · convert Embeds.translated (b := g6 * 65536 + g7) (by omega) using 1
      omega
    · convert Embeds.compatible (by omega : g6 * 65536 + g7 < 2 ^ 32) hreal
        using 1
      omega
    · convert Embeds.nat64 (b := g6 * 65536 + g7) (by omega) using 1
      omega
    · have hrest : 65536 * (65536 * (65536 * (65536 * g3 + g4) + g5) + g6) +
          g7 < 2 ^ 80 := by omega
      convert Embeds.sixToFour (b := g1 * 65536 + g2) (by omega) hrest using 1
      omega

/-- The octets of the address inside, or none. -/
theorem embeddedIpv4_cases {groups : List ℕ} {text : Text}
    (h : V6Text Padded groups text) :
    (∃ b octets, Embeds (ofGroups groups) b ∧ Dotted Decimal b octets ∧
      embeddedIpv4 text = some octets) ∨
    ((∀ b, ¬ Embeds (ofGroups groups) b) ∧ embeddedIpv4 text = none) := by
  have hparse := parseIpv6Hextets_eq.mpr h
  have hlen := h.length_eq
  have hlt := h.lt
  obtain ⟨g0, g1, g2, g3, g4, g5, g6, g7, rfl⟩ := length_eq_eight hlen
  simp only [List.forall_mem_cons] at hlt
  obtain ⟨h0, h1, h2, h3, h4, h5, h6, h7, -⟩ := hlt
  have hembeds := fun b => embeds_iff (b := b) h0 h1 h2 h3 h4 h5 h6 h7
  simp only [hembeds]
  rw [embeddedIpv4, hparse]
  simp only [hextetAt, List.getD_cons_zero, List.getD_cons_succ,
    Option.bind_eq_bind, Option.bind_some]
  rw [if_neg (not_not.mpr hlen)]
  split
  next hg =>
    exact Or.inl ⟨_, _, Or.inl ⟨hg, rfl⟩, dotted_hextetsToIpv4 h6 h7, rfl⟩
  next hmapped =>
    split
    next hg =>
      exact Or.inl ⟨_, _, Or.inr (Or.inl ⟨hg, rfl⟩),
        dotted_hextetsToIpv4 h6 h7, rfl⟩
    next htranslated =>
      split
      next hg =>
        have hnative := hextetsToIpv4_eq_native h6 h7
        split
        next hsmall =>
          refine Or.inr ⟨fun b hb => ?_, rfl⟩
          have hle := hnative.mp hsmall
          omega
        next hlarge =>
          have hreal := mt hnative.mpr hlarge
          exact Or.inl ⟨_, _, Or.inr (Or.inr (Or.inl ⟨hg, rfl, by omega⟩)),
            dotted_hextetsToIpv4 h6 h7, rfl⟩
      next hcompatible =>
        split
        next hg =>
          exact Or.inl ⟨_, _, Or.inr (Or.inr (Or.inr (Or.inl ⟨hg, rfl⟩))),
            dotted_hextetsToIpv4 h6 h7, rfl⟩
        next hnat64 =>
          split
          next hg =>
            exact Or.inl ⟨_, _, Or.inr (Or.inr (Or.inr (Or.inr ⟨hg, rfl⟩))),
              dotted_hextetsToIpv4 h1 h2, rfl⟩
          next hsixToFour =>
            refine Or.inr ⟨fun b hb => ?_, rfl⟩
            rcases hb with ⟨hg, _⟩ | ⟨hg, _⟩ | ⟨hg, _⟩ | ⟨hg, _⟩ | ⟨hg, _⟩
            · exact hmapped hg
            · exact htranslated hg
            · exact hcompatible hg
            · exact hnat64 hg
            · exact hsixToFour hg

end Shozee.Http
