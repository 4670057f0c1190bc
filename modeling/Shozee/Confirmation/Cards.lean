import Shozee.Confirmation.Provenance

/-!
# The card behind a challenge

A challenge is shown with a card and stored with that card's hash. Its id is
drawn once, so no other card is ever shown under it: whoever holds the
challenge, in the store or out of it, holds the hash of the one card that the
person was asked to confirm (`ShownAs`).
-/

namespace Shozee.Confirmation

open Shozee.Run Shozee.Idempotency

variable {I H R : Type} (D : Digest I H)

/-- A card has been shown under the challenge, and every card that was has
the challenge's hash. -/
structure ShownAs (log : List (Event I H R)) (stored : StoredChallenge H) :
    Prop where
  shown : ∃ p card expiresAt,
    .confirmationRequired p stored.challengeId card expiresAt ∈ log
  same : ∀ p card expiresAt,
    .confirmationRequired p stored.challengeId card expiresAt ∈ log →
      previewHashOf D card = stored.previewHash

/-- Every stored or taken challenge is for a card that was shown. -/
structure Carded (c : Conf (State I H R) (Event I H R)) : Prop where
  held : ∀ id stored, c.st.challenges id = some stored →
    ShownAs D c.log stored
  taken : ∀ p stored, .consumed p stored ∈ c.log → ShownAs D c.log stored
  drawn : ∀ p id card expiresAt,
    .confirmationRequired p id card expiresAt ∈ c.log →
      c.st.drawn id = true
  bound : ∀ p call stored nowMs card,
    .confirmed p call stored nowMs card ∈ c.log →
      stored.bindings = call.bindings D

variable {D} [DecidableEq H] {s s' : State I H R} {a : Act I H R}
  {out : List (Event I H R)} {c : Conf (State I H R) (Event I H R)}

/-- A card is shown under an id that had not been drawn, and the challenge
that is stored then has its hash. -/
theorem Moves.required_of_mem (h : Moves D s a s' out) {p : Nat}
    {id : ChallengeId} {card : Card} {expiresAt : Nat}
    (hmem : .confirmationRequired p id card expiresAt ∈ out) :
    s.drawn id = false ∧ s'.drawn id = true ∧
      ∀ stored, s'.challenges id = some stored →
        stored.previewHash = previewHashOf D card := by
  cases h with
  | issue hph hfresh =>
      cases List.mem_singleton.mp hmem
      refine ⟨hfresh, ?_, ?_⟩
      · rw [setPhase_drawn, setChallenge_drawn, draw_drawn, if_pos rfl]
      · intro stored hstored
        rw [setPhase_challenges, setChallenge_challenges, if_pos rfl]
          at hstored
        cases hstored
        rfl
  | consume =>
      obtain ⟨stored, -, heq⟩ := List.mem_map.mp hmem
      cases heq
  | idem =>
      obtain ⟨e, -, heq⟩ := List.mem_map.mp hmem
      cases heq
  | _ => simp at hmem

/-- A challenge that has just come into the store has just been shown. -/
theorem Moves.required_of_new (h : Moves D s a s' out) {id : ChallengeId}
    {stored : StoredChallenge H} (hin : s'.challenges id = some stored)
    (hnew : s.drawn id = false) (hdrawn : s'.drawn id = true) :
    ∃ p card expiresAt, .confirmationRequired p id card expiresAt ∈ out := by
  cases h with
  | @issue p ch nowMs call card hph hfresh =>
      simp only [setPhase_drawn, setChallenge_drawn, draw_drawn] at hdrawn
      split at hdrawn
      · next heq =>
          obtain rfl := heq
          exact ⟨p, card, _, List.mem_singleton.mpr rfl⟩
      · rw [hnew] at hdrawn
        cases hdrawn
  | _ =>
      have hsame : s.drawn id = true := hdrawn
      rw [hnew] at hsame
      cases hsame

/-- Nothing is shown any more under an id that was drawn. -/
theorem ShownAs.step {stored : StoredChallenge H}
    (hI : ShownAs D c.log stored) (h : Moves D c.st a s' out)
    (hdrawn : c.st.drawn stored.challengeId = true) :
    ShownAs D (out ++ c.log) stored := by
  obtain ⟨p, card, expiresAt, hmem⟩ := hI.shown
  refine ⟨⟨p, card, expiresAt, List.mem_append_right out hmem⟩, ?_⟩
  intro q card' expiresAt' hshown
  rcases List.mem_append.mp hshown with hnew | hold
  · have hfresh := (h.required_of_mem hnew).1
    rw [hdrawn] at hfresh
    cases hfresh
  · exact hI.same q card' expiresAt' hold

/-- What a step reports as confirmed is bound to the call that confirmed. -/
theorem Moves.confirmed_bound (hI : Traced D c) (h : Moves D c.st a s' out)
    {p : Nat} {call : KeyedCall I} {stored : StoredChallenge H} {nowMs : Nat}
    {card : Option Card} (hmem : .confirmed p call stored nowMs card ∈ out) :
    stored.bindings = call.bindings D := by
  cases h with
  | checkPlain hph haccepted =>
      cases List.mem_singleton.mp hmem
      exact (challengeAccepted_eq_some D haccepted).2.2
  | recheckSame hph =>
      cases List.mem_singleton.mp hmem
      have hphase := hI.phases p
      rw [hph] at hphase
      exact hphase.2.2.2
  | consume =>
      obtain ⟨stored', -, heq⟩ := List.mem_map.mp hmem
      cases heq
  | idem =>
      obtain ⟨e, -, heq⟩ := List.mem_map.mp hmem
      cases heq
  | _ => simp at hmem

/-- A card that is about to be shown was so before, or has just been made. -/
theorem Moves.issuing_cases (h : Moves D s a s' out) {p : Nat}
    {call : KeyedCall I} {card : Card}
    (hph : s'.phase p = .issuing call card) :
    s.phase p = .issuing call card ∨ a = .present p card ∨
      a = .recheck p card := by
  have hupdate : ∀ {q : Nat} {ph : Phase I H R},
      (if p = q then ph else s.phase p) = .issuing call card →
      ph ≠ .issuing call card → s.phase p = .issuing call card := by
    intro q ph hif hne
    split at hif
    · exact absurd hif hne
    · exact hif
  cases h with
  | expire | idem => exact Or.inl hph
  | @present q card' call' =>
      simp only [setPhase_phase] at hph
      split at hph
      · next heq =>
          cases hph
          exact Or.inr (Or.inl (heq ▸ rfl))
      · exact Or.inl hph
  | @recheckOther q card' call' =>
      simp only [setPhase_phase] at hph
      split at hph
      · next heq =>
          cases hph
          exact Or.inr (Or.inr (heq ▸ rfl))
      · exact Or.inl hph
  | _ =>
      simp only [setPhase_phase, setChallenge_phase, setIdem_phase, draw_phase]
        at hph
      exact Or.inl (hupdate hph (by rintro ⟨⟩))

/-- The card that is shown is the one that was about to be. -/
theorem Moves.required_issuing (h : Moves D s a s' out) {p : Nat}
    {id : ChallengeId} {card : Card} {expiresAt : Nat}
    (hmem : .confirmationRequired p id card expiresAt ∈ out) :
    ∃ call, s.phase p = .issuing call card := by
  cases h with
  | issue hph =>
      cases List.mem_singleton.mp hmem
      exact ⟨_, hph⟩
  | consume =>
      obtain ⟨stored, -, heq⟩ := List.mem_map.mp hmem
      cases heq
  | idem =>
      obtain ⟨e, -, heq⟩ := List.mem_map.mp hmem
      cases heq
  | _ => simp at hmem

/-- A card is confirmed by showing it again. -/
theorem Moves.confirmed_recheck (h : Moves D s a s' out) {p : Nat}
    {call : KeyedCall I} {stored : StoredChallenge H} {nowMs : Nat}
    {card : Card} (hmem : .confirmed p call stored nowMs (some card) ∈ out) :
    a = .recheck p card ∧ s.phase p = .rechecking call stored nowMs := by
  cases h with
  | recheckSame hph =>
      cases List.mem_singleton.mp hmem
      exact ⟨rfl, hph⟩
  | consume =>
      obtain ⟨stored', -, heq⟩ := List.mem_map.mp hmem
      cases heq
  | idem =>
      obtain ⟨e, -, heq⟩ := List.mem_map.mp hmem
      cases heq
  | _ => simp at hmem

theorem Carded.step (hI : Carded D c) (hstock : Stocked c)
    (htraced : Traced D c) (h : Moves D c.st a s' out) :
    Carded D ⟨s', out ++ c.log⟩ := by
  refine { held := ?_, taken := ?_, drawn := ?_, bound := ?_ }
  · intro id stored hin
    rcases h.challenges_cases hin with hold | ⟨hfresh, hdrawn, rfl, -⟩
    · obtain ⟨rfl, hdrawn⟩ := hstock.held id stored hold
      exact (hI.held _ stored hold).step h hdrawn
    · obtain ⟨p, card, expiresAt, hmem⟩ :=
        h.required_of_new hin hfresh hdrawn
      refine ⟨⟨p, card, expiresAt, List.mem_append_left _ hmem⟩, ?_⟩
      intro q card' expiresAt' hshown
      rcases List.mem_append.mp hshown with hnew | hold
      · exact ((h.required_of_mem hnew).2.2 stored hin).symm
      · have hold := hI.drawn q _ card' expiresAt' hold
        rw [hfresh] at hold
        cases hold
  · intro p stored hmem
    rcases List.mem_append.mp hmem with hnew | hold
    · obtain ⟨id, hstore, -⟩ := h.consumed_of_mem hnew
      obtain ⟨rfl, hdrawn⟩ := hstock.held id stored hstore
      exact (hI.held _ stored hstore).step h hdrawn
    · exact (hI.taken p stored hold).step h (hstock.taken p stored hold)
  · intro p id card expiresAt hmem
    rcases List.mem_append.mp hmem with hnew | hold
    · exact (h.required_of_mem hnew).2.1
    · exact h.drawn_mono (hI.drawn p id card expiresAt hold)
  · intro p call stored nowMs card hmem
    rcases List.mem_append.mp hmem with hnew | hold
    · exact h.confirmed_bound htraced hnew
    · exact hI.bound p call stored nowMs card hold

theorem carded_of_reach (h : (protocol D).Reach c) : Carded D c := by
  refine h.invariant (I := Carded D) ?_ ?_
  · exact
      { held := fun _ _ hin => by cases hin
        taken := fun _ _ hmem => by cases hmem
        drawn := fun _ _ _ _ hmem => by cases hmem
        bound := fun _ _ _ _ _ hmem => by cases hmem }
  · intro c a c' hc ih _ hnext
    obtain ⟨s, out, hmoves, rfl⟩ := moves_of_next D hnext
    exact ih.step (stocked_of_reach hc) (traced_of_reach hc) hmoves

end Shozee.Confirmation
