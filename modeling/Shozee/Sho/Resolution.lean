import Shozee.Sho.Focus

/-!
# What a resolution binds

`HeldAt` says which entries of the host's list are records, and `Competes`
which of these may stand for a reference at all: those that are live, in this
conversation. An entry that `resolve` binds is `Chosen` from a pool of entries:
it competes, and every other competing entry that the conversation said has
been superseded or stands behind the preference.
-/

namespace Shozee.Sho

open Shozee.Run

/-! ## The records of a list

The first entry of a type and an id is the record, and the loop that collects
them sees each once. -/

/-- A record of a list: no marker, and the first of its type and id. -/
structure HeldIn (l : List FocusEntry) (i : ℕ) (entry : FocusEntry) :
    Prop where
  at_ : l[i]? = some entry
  record : entry.id ≠ ""
  first : ∀ j < i, ∀ other, l[j]? = some other → other.type = entry.type →
    other.id ≠ entry.id

/-- A record that the host has in focus. -/
abbrev HeldAt (focus : List FocusEntry) (i : ℕ) (entry : FocusEntry) : Prop :=
  HeldIn (focus.take MOST_FOCUS) i entry

/-- No marker of the type stands before the index. -/
def Unmarked (focus : List FocusEntry) (i : ℕ) (type : FocusType) : Prop :=
  ∀ j < i, ∀ marker, (focus.take MOST_FOCUS)[j]? = some marker →
    marker.id = "" → marker.type ≠ type

/-- What has been held of a list. -/
structure Holds (l : List FocusEntry) (held : Held) : Prop where
  records : ∀ i entry, HeldIn l i entry ↔
    ∃ candidate ∈ held.records, candidate.index = i ∧ candidate.entry = entry
  sorted : held.records.Pairwise (·.index < ·.index)
  markers : ∀ i marker, l[i]? = some marker → marker.id = "" →
    ∃ candidate ∈ held.markers, candidate.index = i ∧ candidate.entry = marker

theorem HeldIn.lt {l : List FocusEntry} {i : ℕ} {entry : FocusEntry}
    (h : HeldIn l i entry) : i < l.length :=
  (List.getElem?_eq_some_iff.mp h.at_).1

theorem heldIn_append {l : List FocusEntry} {x entry : FocusEntry} {i : ℕ} :
    HeldIn (l ++ [x]) i entry ↔ HeldIn l i entry ∨
      (i = l.length ∧ entry = x ∧ x.id ≠ "" ∧
        ∀ other ∈ l, other.type = x.type → other.id ≠ x.id) := by
  constructor
  · intro h
    have hlt := h.lt
    rw [List.length_append, List.length_singleton] at hlt
    have hfirst : ∀ j < l.length, j < i → ∀ other, l[j]? = some other →
        other.type = entry.type → other.id ≠ entry.id := by
      intro j hj hji other hother
      exact h.first j hji other (by rwa [List.getElem?_append_left hj])
    by_cases hi : i = l.length
    · refine .inr ⟨hi, ?_⟩
      have hat := h.at_
      rw [hi, List.getElem?_concat_length, Option.some.injEq] at hat
      rw [hat]
      refine ⟨rfl, h.record, fun other hother => ?_⟩
      obtain ⟨j, hj, hget⟩ := List.mem_iff_getElem.mp hother
      exact hfirst j hj (by omega) other
        (List.getElem?_eq_some_iff.mpr ⟨hj, hget⟩)
    · have hil : i < l.length := by omega
      refine .inl ⟨?_, h.record, fun j hj => hfirst j (by omega) hj⟩
      have hat := h.at_
      rwa [List.getElem?_append_left hil] at hat
  · intro h
    rcases h with h | ⟨rfl, rfl, hid, hfirst⟩
    · have hlt := h.lt
      refine ⟨?_, h.record, fun j hj other hother => ?_⟩
      · rw [List.getElem?_append_left hlt]
        exact h.at_
      · rw [List.getElem?_append_left (by omega)] at hother
        exact h.first j hj other hother
    · refine ⟨List.getElem?_concat_length, hid, fun j hj other hother => ?_⟩
      rw [List.getElem?_append_left hj] at hother
      exact hfirst other (List.mem_of_getElem? hother)

/-- The first entry of a type and an id is held. -/
theorem exists_heldIn {l : List FocusEntry} (j : ℕ) {other : FocusEntry}
    (hother : l[j]? = some other) (hid : other.id ≠ "") :
    ∃ i entry, HeldIn l i entry ∧ entry.type = other.type ∧
      entry.id = other.id := by
  induction j using Nat.strong_induction_on generalizing other with
  | _ j ih =>
      by_cases hfirst : ∀ k < j, ∀ e, l[k]? = some e → e.type = other.type →
          e.id ≠ other.id
      · exact ⟨j, other, ⟨hother, hid, hfirst⟩, rfl, rfl⟩
      · simp only [not_forall, not_not] at hfirst
        obtain ⟨k, hk, e, he, htype, hsame⟩ := hfirst
        obtain ⟨i, entry, hheld, htype', hid'⟩ :=
          ih k hk he (by rw [hsame]; exact hid)
        exact ⟨i, entry, hheld, htype'.trans htype, hid'.trans hsame⟩

theorem Holds.lt {l : List FocusEntry} {held : Held} (h : Holds l held)
    {candidate : Candidate} (hmem : candidate ∈ held.records) :
    candidate.index < l.length :=
  ((h.records _ _).mpr ⟨candidate, hmem, rfl, rfl⟩).lt

/-- What the loop has seen is what stands in the list before. -/
theorem Holds.seen_iff {l : List FocusEntry} {held : Held} (h : Holds l held)
    {x : FocusEntry} (hid : x.id ≠ "") :
    (held.records.any fun seen =>
      seen.entry.type = x.type && seen.entry.id = x.id) = true ↔
      ∃ other ∈ l, other.type = x.type ∧ other.id = x.id := by
  rw [List.any_eq_true]
  constructor
  · intro ⟨seen, hseen, hsame⟩
    rw [Bool.and_eq_true, decide_eq_true_eq, decide_eq_true_eq] at hsame
    have hheld := (h.records _ _).mpr ⟨seen, hseen, rfl, rfl⟩
    exact ⟨seen.entry, List.mem_of_getElem? hheld.at_, hsame⟩
  · intro ⟨other, hother, htype, hsame⟩
    obtain ⟨j, hj, hget⟩ := List.mem_iff_getElem.mp hother
    obtain ⟨i, entry, hheld, htype', hid'⟩ := exists_heldIn j
      (List.getElem?_eq_some_iff.mpr ⟨hj, hget⟩) (by rw [hsame]; exact hid)
    obtain ⟨seen, hseen, -, rfl⟩ := (h.records i entry).mp hheld
    refine ⟨seen, hseen, ?_⟩
    rw [Bool.and_eq_true, decide_eq_true_eq, decide_eq_true_eq]
    exact ⟨htype'.trans htype, hid'.trans hsame⟩

/-- Nothing is held of an entry that is a marker or a repeat. -/
theorem records_skip {l : List FocusEntry} {x : FocusEntry}
    (hskip : x.id = "" ∨ ∃ other ∈ l, other.type = x.type ∧ other.id = x.id)
    (i : ℕ) (entry : FocusEntry) :
    HeldIn (l ++ [x]) i entry ↔ HeldIn l i entry := by
  rw [heldIn_append]
  refine or_iff_left fun h => ?_
  obtain ⟨-, -, hid, hfirst⟩ := h
  rcases hskip with hmarker | ⟨other, hother, htype, hsame⟩
  · exact hid hmarker
  · exact hfirst other hother htype hsame

/-- A marker of a longer list is one of the shorter, or the last entry. -/
theorem markers_append {l : List FocusEntry} {held : Held} (h : Holds l held)
    {x marker : FocusEntry} {i : ℕ} (hget : (l ++ [x])[i]? = some marker)
    (hid : marker.id = "") :
    (∃ candidate ∈ held.markers,
      candidate.index = i ∧ candidate.entry = marker) ∨
        (i = l.length ∧ marker = x) := by
  have hlt := (List.getElem?_eq_some_iff.mp hget).1
  rw [List.length_append, List.length_singleton] at hlt
  by_cases hi : i < l.length
  · rw [List.getElem?_append_left hi] at hget
    exact .inl (h.markers i marker hget hid)
  · have heq : i = l.length := by omega
    rw [heq, List.getElem?_concat_length, Option.some.injEq] at hget
    exact .inr ⟨heq, hget.symm⟩

/-- A round of the loop holds the next entry too. -/
theorem Holds.add {l : List FocusEntry} {held : Held} (h : Holds l held)
    (x : FocusEntry) : Holds (l ++ [x]) (held.add x l.length) := by
  unfold Held.add
  by_cases hmarker : x.id = ""
  · rw [if_pos (show isMarker x = true from decide_eq_true hmarker)]
    refine ⟨fun i entry => ?_, h.sorted, fun i marker hget hid => ?_⟩
    · rw [records_skip (.inl hmarker)]
      exact h.records i entry
    · rcases markers_append h hget hid with ⟨c, hc, hsame⟩ | ⟨rfl, rfl⟩
      · exact ⟨c, List.mem_append_left _ hc, hsame⟩
      · exact ⟨_, List.mem_append_right _ (List.mem_singleton.mpr rfl), rfl,
          rfl⟩
  · rw [if_neg (by simpa [isMarker] using hmarker)]
    have hmarkers : ∀ i marker, (l ++ [x])[i]? = some marker →
        marker.id = "" → ∃ candidate ∈ held.markers,
          candidate.index = i ∧ candidate.entry = marker := by
      intro i marker hget hid
      rcases markers_append h hget hid with hold | ⟨-, rfl⟩
      · exact hold
      · exact absurd hid hmarker
    by_cases hseen : (held.records.any fun seen =>
        seen.entry.type = x.type && seen.entry.id = x.id) = true
    · rw [if_pos hseen]
      refine ⟨fun i entry => ?_, h.sorted, hmarkers⟩
      rw [records_skip (.inr ((h.seen_iff hmarker).mp hseen))]
      exact h.records i entry
    · rw [if_neg hseen]
      have hnew : ∀ other ∈ l, other.type = x.type → other.id ≠ x.id := by
        intro other hother htype hsame
        exact hseen ((h.seen_iff hmarker).mpr ⟨other, hother, htype, hsame⟩)
      refine ⟨fun i entry => ?_, ?_, hmarkers⟩
      · rw [heldIn_append, h.records i entry]
        simp only [List.mem_append, List.mem_singleton, or_and_right,
          exists_or, exists_eq_left]
        refine or_congr_right ⟨?_, ?_⟩
        · intro ⟨hi, hentry, _⟩
          exact ⟨hi.symm, hentry.symm⟩
        · intro ⟨hi, hentry⟩
          exact ⟨hi.symm, hentry.symm, hmarker, hnew⟩
      · refine List.pairwise_append.mpr
          ⟨h.sorted, List.pairwise_singleton _ _, fun c hc c' hc' => ?_⟩
        rw [List.mem_singleton.mp hc']
        exact h.lt hc

/-- `heldOf` finds the records and the markers of the first entries. -/
theorem heldOf_holds (focus : List FocusEntry) :
    Holds (focus.take MOST_FOCUS) (heldOf focus) := by
  unfold heldOf
  generalize focus.take MOST_FOCUS = l
  induction l using List.reverseRecOn with
  | nil =>
      refine ⟨fun i entry => ?_, .nil, fun i marker h => ?_⟩
      · constructor
        · intro h
          exact absurd h.lt (Nat.not_lt_zero i)
        · intro ⟨c, hc, _⟩
          exact absurd hc List.not_mem_nil
      · exact absurd h (by simp)
  | append_singleton l x ih =>
      rw [List.zipIdx_append, List.foldl_append, Nat.zero_add]
      exact ih.add x

/-! ## Live entries

An offer has a tier of its own, and does not compete. -/

/-- The entry is of this conversation, and on screen, or said and touched by one
of the last three commands, or from a host without turns. -/
def FocusEntry.Competes (entry : FocusEntry) : Prop :=
  entry.earlier ≠ some true ∧
    (entry.screen = some true ∨ entry.turns = none ∨
      (saidOf entry = true ∧
        ∃ turns, entry.turns = some turns ∧ turns ≤ FOCUS_LIVE))

theorem tierOf_ne_offer_iff (candidate : Candidate) :
    tierOf candidate ≠ .offer ↔ candidate.entry.Competes := by
  unfold tierOf FocusEntry.Competes
  dsimp only
  by_cases hearlier : candidate.entry.earlier = some true
  · simp [hearlier]
  · by_cases hscreen : candidate.entry.screen = some true
    · simp [hearlier, hscreen]
    · rw [if_neg hearlier, if_neg hscreen]
      cases hturns : candidate.entry.turns with
      | none => cases candidate.newest <;> simp [hearlier]
      | some turns =>
          cases hsaid : saidOf candidate.entry with
          | false => simp [hscreen]
          | true =>
              by_cases hlive : turns ≤ FOCUS_LIVE
              · simp [hearlier, hlive]
              · simp [hscreen, hlive]

/-! ## Choosing

Each filter of `resolve` keeps what the next one chooses from. What is left at
the end is chosen from the pool. -/

/-- What a description prefers: «нового» the created one, «цей» and «сюди» the
one on screen. -/
def Prefers (reference : Reference) (entry other : FocusEntry) : Prop :=
  if reference.kind = .new then entry.how = .created ∧ other.how ≠ .created
  else
    (reference.kind = .this ∨ reference.here = true) ∧
      entry.screen = some true ∧ other.screen ≠ some true

/-- The talk has moved on from the entry to another one of its type: it has
missed two commands or more, and the other was touched since. -/
def Superseded (pool : ℕ → FocusEntry → Prop) (reference : Reference)
    (entry : FocusEntry) : Prop :=
  reference.pronoun = true ∧ ∃ turns, entry.turns = some turns ∧
    SUPERSEDED ≤ turns ∧ ∃ k other, pool k other ∧ other.Competes ∧
      saidOf other = true ∧ other.type = entry.type ∧
        ∃ otherTurns, other.turns = some otherTurns ∧ otherTurns < turns

/-- The entry is the one of the pool that a reference stands for. -/
structure Chosen (pool : ℕ → FocusEntry → Prop) (reference : Reference)
    (i : ℕ) (entry : FocusEntry) : Prop where
  mem : pool i entry
  competes : entry.Competes
  alone : ∀ j other, pool j other → j ≠ i → other.Competes →
    saidOf other = true → ¬ Superseded pool reference other →
      Prefers reference entry other

theorem mem_saidAmong_iff {reference : Reference} {competing : List Candidate}
    {candidate : Candidate} : candidate ∈ saidAmong reference competing ↔
      candidate ∈ competing ∧ saidOf candidate.entry = true ∧
        superseded reference
          (competing.filter fun candidate => saidOf candidate.entry)
          candidate = false := by
  unfold saidAmong
  rw [List.mem_filter, List.mem_filter, Bool.not_eq_true', and_assoc]

theorem mem_of_mem_standing {reference : Reference}
    {competing : List Candidate} {candidate : Candidate}
    (h : candidate ∈ standingOf reference competing) :
    candidate ∈ competing := by
  unfold standingOf at h
  split at h
  · exact List.mem_of_mem_filter h
  · next first rest hsaid =>
      dsimp only at h
      rcases List.mem_append.mp h with hleft | hright
      · rw [← hsaid] at hleft
        exact (mem_saidAmong_iff.mp hleft).1
      · exact List.mem_of_mem_filter hright

theorem mem_standing_of_said {reference : Reference}
    {competing : List Candidate} {candidate : Candidate}
    (h : candidate ∈ saidAmong reference competing) :
    candidate ∈ standingOf reference competing := by
  unfold standingOf
  split
  · next hnil =>
      rw [hnil] at h
      exact absurd h List.not_mem_nil
  · next first rest hsaid =>
      rw [hsaid] at h
      exact List.mem_append_left _ h

theorem mem_preferred {reference : Reference} {standing : List Candidate}
    {candidate : Candidate} (h : candidate ∈ preferredOf reference standing) :
    candidate ∈ standing := by
  unfold preferredOf at h
  split at h
  · exact List.mem_of_mem_filter h
  · split at h
    · exact List.mem_of_mem_filter h
    · exact absurd h List.not_mem_nil

/-- What is preferred is preferred to what stands and is not. -/
theorem prefers_of_preferred {reference : Reference}
    {standing : List Candidate} {candidate other : Candidate}
    (h : candidate ∈ preferredOf reference standing) (hother : other ∈ standing)
    (hnot : other ∉ preferredOf reference standing) :
    Prefers reference candidate.entry other.entry := by
  unfold preferredOf at h hnot
  unfold Prefers
  by_cases hnew : reference.kind = .new
  · rw [if_pos hnew] at h hnot ⊢
    have hcreated := (List.mem_filter.mp h).2
    refine ⟨of_decide_eq_true hcreated, fun heq => hnot ?_⟩
    exact List.mem_filter.mpr ⟨hother, decide_eq_true heq⟩
  · rw [if_neg hnew] at h hnot ⊢
    by_cases hthis : reference.kind = .this ∨ reference.here = true
    · rw [if_pos hthis] at h hnot
      have hscreen := (List.mem_filter.mp h).2
      refine ⟨hthis, of_decide_eq_true hscreen, fun heq => hnot ?_⟩
      exact List.mem_filter.mpr ⟨hother, decide_eq_true heq⟩
    · rw [if_neg hthis] at h
      exact absurd h List.not_mem_nil

/-- What a silent bind says of the candidates. -/
structure Binds (fits markers : List Candidate) (reference : Reference)
    (only : Candidate) : Prop where
  mem : only ∈ fits
  competes : only.entry.Competes
  alone : ∀ other ∈ fits, other ≠ only → other.entry.Competes →
    saidOf other.entry = true →
      superseded reference ((fits.filter fun candidate =>
        tierOf candidate ≠ .offer).filter fun candidate =>
          saidOf candidate.entry) other = false →
        Prefers reference only.entry other.entry
  unmarked : ∀ marker ∈ markers, marker.entry.type = only.entry.type →
    only.index ≤ marker.index

theorem resolve_bind {fits markers : List Candidate} {reference : Reference}
    {only : Candidate} (h : resolve fits markers reference = .bind only) :
    Binds fits markers reference only := by
  unfold resolve at h
  dsimp only at h
  generalize hcompeting : fits.filter (fun candidate =>
    tierOf candidate ≠ .offer) = competing at h
  generalize hstanding : standingOf reference competing = standing at h
  generalize hpreferred : preferredOf reference standing = preferred at h
  have hchosen : (if preferred = [] then standing else preferred) = [only] ∧
      ∀ marker ∈ markers, marker.entry.type = only.entry.type →
        only.index ≤ marker.index := by
    split at h
    · next only' hsingle =>
        by_cases hunsure : ((tierOf only' = .shadow && standing.length = 1) ||
            markers.any fun marker => marker.entry.type = only'.entry.type &&
              marker.index < only'.index) = true
        · rw [if_pos hunsure] at h
          cases h
        · rw [if_neg hunsure] at h
          cases h
          refine ⟨hsingle, fun marker hmarker htype => ?_⟩
          by_contra hlt
          refine hunsure ?_
          rw [Bool.or_eq_true]
          refine .inr (List.any_eq_true.mpr ⟨marker, hmarker, ?_⟩)
          rw [Bool.and_eq_true, decide_eq_true_eq, decide_eq_true_eq]
          exact ⟨htype, by omega⟩
    · unfold resolveOffered at h
      split at h
      · cases h
      · dsimp only at h
        split at h <;> cases h
    · cases h
  obtain ⟨hsingle, hmarkers⟩ := hchosen
  have honly : only ∈ standing ∧ (∀ other ∈ standing, other ≠ only →
      Prefers reference only.entry other.entry) := by
    by_cases hnone : preferred = []
    · rw [if_pos hnone] at hsingle
      rw [hsingle]
      refine ⟨List.mem_singleton.mpr rfl, fun other hother hne => ?_⟩
      exact absurd (List.mem_singleton.mp hother) hne
    · rw [if_neg hnone] at hsingle
      have hmem : only ∈ preferredOf reference standing := by
        rw [hpreferred, hsingle]
        exact List.mem_singleton.mpr rfl
      refine ⟨mem_preferred hmem, fun other hother hne => ?_⟩
      refine prefers_of_preferred hmem hother fun hin => hne ?_
      rw [hpreferred, hsingle] at hin
      exact List.mem_singleton.mp hin
  have hin : only ∈ competing := by
    rw [← hstanding] at honly
    exact mem_of_mem_standing honly.1
  rw [← hcompeting, List.mem_filter, decide_eq_true_eq] at hin
  refine ⟨hin.1, (tierOf_ne_offer_iff only).mp hin.2, ?_, hmarkers⟩
  intro other hother hne hcompetes hsaid hkept
  refine honly.2 other ?_ hne
  rw [← hstanding]
  refine mem_standing_of_said (mem_saidAmong_iff.mpr ⟨?_, hsaid, ?_⟩)
  · rw [← hcompeting, List.mem_filter, decide_eq_true_eq]
    exact ⟨hother, (tierOf_ne_offer_iff other).mpr hcompetes⟩
  · rw [← hcompeting]
    exact hkept

/-- A candidate that is bound is the chosen one of any pool that has the
candidates of its type. -/
theorem Binds.chosen {fits markers : List Candidate} {reference : Reference}
    {only : Candidate} (h : Binds fits markers reference only)
    {pool : ℕ → FocusEntry → Prop}
    (hfits : ∀ candidate ∈ fits, candidate.entry.type = only.entry.type →
      pool candidate.index candidate.entry)
    (hpool : ∀ j entry, pool j entry → entry.type = only.entry.type ∧
      ∃ candidate ∈ fits, candidate.index = j ∧ candidate.entry = entry) :
    Chosen pool reference only.index only.entry := by
  refine ⟨hfits only h.mem rfl, h.competes, ?_⟩
  intro j other hother hj hcompetes hsaid hkept
  obtain ⟨htype, candidate, hmem, rfl, rfl⟩ := hpool j other hother
  refine h.alone candidate hmem (fun heq => hj (by rw [heq])) hcompetes hsaid ?_
  by_contra hsuper
  rw [Bool.not_eq_false] at hsuper
  refine hkept ?_
  unfold superseded at hsuper
  split at hsuper
  · cases hsuper
  · next turns hturns =>
      split at hsuper
      · cases hsuper
      · next hmissed =>
          rw [Bool.or_eq_true, not_or, Bool.not_eq_true', Bool.not_eq_false,
            decide_eq_true_eq, not_lt] at hmissed
          obtain ⟨third, hthird, hsame⟩ := List.any_eq_true.mp hsuper
          obtain ⟨hthird, hthirdSaid⟩ := List.mem_filter.mp hthird
          obtain ⟨hthird, htier⟩ := List.mem_filter.mp hthird
          rw [decide_eq_true_eq, tierOf_ne_offer_iff] at htier
          rw [Bool.and_eq_true, decide_eq_true_eq] at hsame
          obtain ⟨otherTurns, hotherTurns, hlt⟩ :=
            (Option.any_eq_true _ _).mp hsame.2
          exact ⟨hmissed.1, turns, hturns, hmissed.2, third.index, third.entry,
            hfits third hthird (hsame.1.trans htype), htier, hthirdSaid,
            hsame.1, otherTurns, hotherTurns, of_decide_eq_true hlt⟩

end Shozee.Sho
