import Shozee.Pause.Slot

/-!
# One claim for each revision

In every run the keys hold what the history of the writes says they hold, and
that history takes each revision through its automaton. The first is kept by
every write because a write is logged with what it wrote; the second, because
a compare-and-set finds the record that its call has checked, and because a
new record has a new id.
-/

namespace Shozee.Pause

open Shozee.Run

variable {υ : Type} {interactions : Interactions υ}

/-! ## Histories

The history of the writes is kept by each of the four commands: a new record
has a pause of its own, and a swap finds the record it expects, so it goes one
step on from there. -/

/-- The log says what the store holds, and in which states the revisions have
been. -/
structure Recorded (c : Conf (State υ) (Event υ)) : Prop where
  told : Told Follows c.log
  slot : ∀ k, (c.st.store k).map Entry.record = slotOf k c.log
  stored : ∀ k entry, c.st.store k = some entry →
    stateOf entry.record.key c.log = some entry.record.status
  issued : ∀ k, stateOf k c.log ≠ none → k.1 ∈ c.st.ids
  newest : ∀ k entry, c.st.store k = some entry → ∀ revision,
    stateOf (entry.record.interactionId, revision) c.log ≠ none →
      revision ≤ entry.record.revision
  apart : ∀ k k' entry entry', c.st.store k = some entry →
    c.st.store k' = some entry' →
    entry.record.interactionId = entry'.record.interactionId → k = k'
  pending : ∀ (p : Nat) (call : Call υ) (record : PauseRecord υ),
    c.st.calls[p]? = some call → call.task = .install record →
      record.interactionId ∈ c.st.ids ∧ record.status = .«open» ∧
      (call.phase ≠ .ended → ∀ revision,
        stateOf (record.interactionId, revision) c.log = none)
  distinct : ∀ (p q : Nat) (call call' : Call υ) (record record' : PauseRecord υ),
    c.st.calls[p]? = some call → c.st.calls[q]? = some call' →
      call.task = .install record → call'.task = .install record' →
        record.interactionId = record'.interactionId → p = q

/-- A step that writes nothing and keeps each call's task. -/
theorem Recorded.quiet {s s' : State υ} {out log : List (Event υ)}
    (h : Recorded ⟨s, log⟩) (hquiet : ∀ e ∈ out, e.isWrite = false)
    (hstore : s'.store = s.store) (hids : s.ids ⊆ s'.ids)
    (hcalls : ∀ (p : Nat) (call : Call υ), s'.calls[p]? = some call →
      ∃ call', s.calls[p]? = some call' ∧ call'.task = call.task ∧
        (call'.phase = .ended → call.phase = .ended)) :
    Recorded ⟨s', out ++ log⟩ := by
  obtain ⟨hstate, hslot, htold⟩ := quiet_append hquiet log
  refine ⟨htold h.told, ?_, ?_, ?_, ?_, ?_, ?_, ?_⟩
  · simp only [hstore, hslot]
    exact h.slot
  · simp only [hstore, hstate]
    exact h.stored
  · simp only [hstate]
    exact fun k hk => hids (h.issued k hk)
  · simp only [hstore, hstate]
    exact h.newest
  · simp only [hstore]
    exact h.apart
  · simp only [hstate]
    intro p call record hp htask
    obtain ⟨call', hp', htask', hended⟩ := hcalls p call hp
    obtain ⟨hid, hopen, hnone⟩ := h.pending p call' record hp'
      (htask'.trans htask)
    exact ⟨hids hid, hopen, fun hph => hnone fun hph' => hph (hended hph')⟩
  · intro p q call₁ call₂ record₁ record₂ hp hq htask₁ htask₂ hid
    obtain ⟨call₁', hp', htask₁', -⟩ := hcalls p call₁ hp
    obtain ⟨call₂', hq', htask₂', -⟩ := hcalls q call₂ hq
    exact h.distinct p q call₁' call₂' record₁ record₂ hp' hq'
      (htask₁'.trans htask₁) (htask₂'.trans htask₂) hid

/-- A new call, with a new id if it is an install. -/
theorem Recorded.join {s : State υ} {log : List (Event υ)} {ids : List Text}
    {task : Task υ} (h : Recorded ⟨s, log⟩) (hids : s.ids ⊆ ids)
    (htask : ∀ record, task = .install record →
      record.interactionId ∉ s.ids ∧ record.interactionId ∈ ids ∧
        record.status = .«open») :
    Recorded ⟨{ s with
      ids
      calls := s.calls ++ [⟨task, .reading 0⟩] }, log⟩ := by
  refine ⟨h.told, h.slot, h.stored, fun k hk => hids (h.issued k hk),
    h.newest, h.apart, ?_, ?_⟩
  · intro p call record hp hcall
    rcases getElem?_concat_cases hp with hp | ⟨-, rfl⟩
    · obtain ⟨hid, hrest⟩ := h.pending p call record hp hcall
      exact ⟨hids hid, hrest⟩
    · obtain ⟨hnew, hid, hopen⟩ := htask record hcall
      refine ⟨hid, hopen, fun _ revision => ?_⟩
      by_contra hsome
      exact hnew (h.issued (record.interactionId, revision) hsome)
  · intro p q call call' record record' hp hq hcall hcall' hid
    rcases getElem?_concat_cases hp with hp | ⟨rfl, rfl⟩ <;>
      rcases getElem?_concat_cases hq with hq | ⟨rfl, rfl⟩
    · exact h.distinct p q call call' record record' hp hq hcall hcall' hid
    · have hold := (h.pending p call record hp hcall).1
      exact absurd (hid ▸ hold) (htask record' hcall').1
    · have hold := (h.pending q call' record' hq hcall').1
      exact absurd (hid ▸ hold) (htask record hcall).1
    · rfl

/-- A write of a record that is newer than anything of its pause. -/
theorem Recorded.write {s s' : State υ} {notes log : List (Event υ)}
    {p : Nat} {move : Move} {before : Option (PauseRecord υ)}
    {next : PauseRecord υ} {deadline : Int} (h : Recorded ⟨s, log⟩)
    (hnotes : ∀ e ∈ notes, e.isWrite = false)
    (hfollows : Follows log (.wrote p move before (some next)))
    (hstore : s'.store = Function.update s.store next.conversationId
      (some ⟨next, deadline⟩))
    (hids : s'.ids = s.ids) (hid : next.interactionId ∈ s.ids)
    (hnewest : ∀ revision, stateOf (next.interactionId, revision) log ≠ none →
      revision ≤ next.revision)
    (hapart : ∀ k entry, s.store k = some entry →
      entry.record.interactionId = next.interactionId →
        k = next.conversationId)
    (hcalls : ∀ (q : Nat) (call : Call υ), s'.calls[q]? = some call →
      ∃ call', s.calls[q]? = some call' ∧ call'.task = call.task ∧
        (call'.phase = .ended → call.phase = .ended) ∧
        ∀ record, call.task = .install record → call.phase ≠ .ended →
          record.interactionId ≠ next.interactionId) :
    Recorded ⟨s', notes ++ .wrote p move before (some next) :: log⟩ := by
  obtain ⟨hstate, hslot, htold⟩ :=
    quiet_append hnotes (.wrote p move before (some next) :: log)
  have hstate' : ∀ k, stateOf k (.wrote p move before (some next) :: log) =
      if next.key = k then some next.status else stateOf k log := fun _ => rfl
  have hget : ∀ k, s'.store k = if k = next.conversationId then
      some ⟨next, deadline⟩ else s.store k := by
    intro k
    rw [hstore, Function.update_apply]
  refine ⟨htold ⟨hfollows, h.told⟩, ?_, ?_, ?_, ?_, ?_, ?_, ?_⟩
  · intro k
    show (s'.store k).map Entry.record = slotOf k (notes ++ _)
    rw [hslot, hget]
    show _ = if next.conversationId = k then some next else slotOf k log
    by_cases hk : k = next.conversationId
    · rw [if_pos hk, if_pos hk.symm]
      rfl
    · rw [if_neg hk, if_neg (Ne.symm hk)]
      exact h.slot k
  · intro k entry hentry
    change s'.store k = some entry at hentry
    show stateOf _ (notes ++ _) = _
    rw [hstate, hstate']
    rw [hget] at hentry
    split at hentry
    · cases hentry
      exact if_pos rfl
    · rename_i hk
      rw [if_neg fun hkey => hk (hapart k entry hentry
        (congrArg Prod.fst hkey).symm)]
      exact h.stored k entry hentry
  · intro k hk
    change stateOf k (notes ++ _) ≠ none at hk
    show k.1 ∈ s'.ids
    rw [hstate, hstate'] at hk
    rw [hids]
    split at hk
    · rename_i hkey
      exact hkey ▸ hid
    · exact h.issued k hk
  · intro k entry hentry revision hrevision
    change s'.store k = some entry at hentry
    change stateOf _ (notes ++ _) ≠ none at hrevision
    rw [hstate, hstate'] at hrevision
    rw [hget] at hentry
    split at hentry
    · cases hentry
      split at hrevision
      · rename_i hkey
        exact (congrArg Prod.snd hkey).ge
      · exact hnewest revision hrevision
    · rename_i hk
      rw [if_neg fun hkey => hk (hapart k entry hentry
        (congrArg Prod.fst hkey).symm)] at hrevision
      exact h.newest k entry hentry revision hrevision
  · intro k k' entry entry' hentry hentry' heq
    change s'.store k = some entry at hentry
    change s'.store k' = some entry' at hentry'
    rw [hget] at hentry hentry'
    split at hentry <;> split at hentry'
    · rename_i hk hk'
      exact hk.trans hk'.symm
    · rename_i hk _
      cases hentry
      exact hk.trans (hapart k' entry' hentry' heq.symm).symm
    · rename_i _ hk'
      cases hentry'
      exact (hapart k entry hentry heq).trans hk'.symm
    · exact h.apart k k' entry entry' hentry hentry' heq
  · intro q call record hq htask
    obtain ⟨call', hq', htask', hended, hother⟩ := hcalls q call hq
    obtain ⟨hin, hopen, hnone⟩ := h.pending q call' record hq'
      (htask'.trans htask)
    refine ⟨hids ▸ hin, hopen, fun hph revision => ?_⟩
    show stateOf _ (notes ++ _) = none
    rw [hstate, hstate', if_neg fun hkey => hother record htask hph
      (congrArg Prod.fst hkey).symm]
    exact hnone (fun hph' => hph (hended hph')) revision
  · intro q q' call₁ call₂ record₁ record₂ hq hq' htask₁ htask₂ heq
    obtain ⟨call₁', hp₁, htask₁', -⟩ := hcalls q call₁ hq
    obtain ⟨call₂', hp₂, htask₂', -⟩ := hcalls q' call₂ hq'
    exact h.distinct q q' call₁' call₂' record₁ record₂ hp₁ hp₂
      (htask₁'.trans htask₁) (htask₂'.trans htask₂) heq

/-- A drop of a cancelled record. -/
theorem Recorded.drop {s s' : State υ} {notes log : List (Event υ)}
    {p : Nat} {record : PauseRecord υ} {deadline : Int}
    (h : Recorded ⟨s, log⟩) (hnotes : ∀ e ∈ notes, e.isWrite = false)
    (hcancelled : record.status = .cancelled)
    (hheld : s.store record.conversationId = some ⟨record, deadline⟩)
    (hstore : s'.store =
      Function.update s.store record.conversationId none)
    (hids : s'.ids = s.ids)
    (hcalls : ∀ (q : Nat) (call : Call υ), s'.calls[q]? = some call →
      ∃ call', s.calls[q]? = some call' ∧ call'.task = call.task ∧
        (call'.phase = .ended → call.phase = .ended)) :
    Recorded ⟨s', notes ++ .wrote p .drop (some record) none :: log⟩ := by
  obtain ⟨hstate, hslot, htold⟩ :=
    quiet_append hnotes (.wrote p .drop (some record) none :: log)
  have hstate' : ∀ k, stateOf k (.wrote p .drop (some record) none :: log) =
      stateOf k log := fun _ => rfl
  have hsub : ∀ k entry, s'.store k = some entry → s.store k = some entry := by
    intro k entry hentry
    rw [hstore, Function.update_apply] at hentry
    split at hentry
    · cases hentry
    · exact hentry
  have hstored := h.stored _ _ hheld
  rw [hcancelled] at hstored
  refine ⟨htold ⟨⟨record, rfl, rfl, hstored⟩, h.told⟩, ?_, ?_, ?_, ?_, ?_, ?_,
    ?_⟩
  · intro k
    show (s'.store k).map Entry.record = slotOf k (notes ++ _)
    rw [hslot, hstore, Function.update_apply]
    show _ = if record.conversationId = k then none else slotOf k log
    by_cases hk : k = record.conversationId
    · rw [if_pos hk, if_pos hk.symm]
      rfl
    · rw [if_neg hk, if_neg (Ne.symm hk)]
      exact h.slot k
  · intro k entry hentry
    show stateOf _ (notes ++ _) = _
    rw [hstate, hstate']
    exact h.stored k entry (hsub k entry hentry)
  · intro k hk
    change stateOf k (notes ++ _) ≠ none at hk
    rw [hstate, hstate'] at hk
    exact hids ▸ h.issued k hk
  · intro k entry hentry revision hrevision
    change stateOf _ (notes ++ _) ≠ none at hrevision
    rw [hstate, hstate'] at hrevision
    exact h.newest k entry (hsub k entry hentry) revision hrevision
  · exact fun k k' entry entry' hentry hentry' =>
      h.apart k k' entry entry' (hsub k entry hentry) (hsub k' entry' hentry')
  · intro q call r hq htask
    obtain ⟨call', hq', htask', hended⟩ := hcalls q call hq
    obtain ⟨hin, hopen, hnone⟩ := h.pending q call' r hq'
      (htask'.trans htask)
    refine ⟨hids ▸ hin, hopen, fun hph revision => ?_⟩
    show stateOf _ (notes ++ _) = none
    rw [hstate, hstate']
    exact hnone (fun hph' => hph (hended hph')) revision
  · intro q q' call₁ call₂ record₁ record₂ hq hq' htask₁ htask₂ heq
    obtain ⟨call₁', hp₁, htask₁', -⟩ := hcalls q call₁ hq
    obtain ⟨call₂', hp₂, htask₂', -⟩ := hcalls q' call₂ hq'
    exact h.distinct q q' call₁' call₂' record₁ record₂ hp₁ hp₂
      (htask₁'.trans htask₁) (htask₂'.trans htask₂) heq

/-- What a record may be written over: nothing of its pause is newer, it is
under no other key, and no install is about to write its id. -/
structure Writable (c : Conf (State υ) (Event υ)) (p : Nat)
    (next : PauseRecord υ) : Prop where
  issued : next.interactionId ∈ c.st.ids
  newest : ∀ revision, stateOf (next.interactionId, revision) c.log ≠ none →
    revision ≤ next.revision
  apart : ∀ k entry, c.st.store k = some entry →
    entry.record.interactionId = next.interactionId → k = next.conversationId
  others : ∀ (q : Nat) (call : Call υ) (record : PauseRecord υ), q ≠ p →
    c.st.calls[q]? = some call → call.task = .install record →
      call.phase ≠ .ended → record.interactionId ≠ next.interactionId

/-- The record of an install is new. -/
theorem Recorded.writable_new {c : Conf (State υ) (Event υ)} {p : Nat}
    {call : Call υ} {record : PauseRecord υ} (h : Recorded c)
    (hp : c.st.calls[p]? = some call) (htask : call.task = .install record)
    (hph : call.phase ≠ .ended) : Writable c p record ∧
      record.status = .«open» ∧ stateOf record.key c.log = none := by
  obtain ⟨hin, hopen, hnone⟩ := h.pending p call record hp htask
  refine ⟨⟨hin, ?_, ?_, ?_⟩, hopen, hnone hph _⟩
  · exact fun revision hsome => absurd (hnone hph revision) hsome
  · intro k entry hentry hid
    have hstored := h.stored k entry hentry
    rw [PauseRecord.key, hid, hnone hph] at hstored
    cases hstored
  · intro q call' record' hq hcall' htask' _ hid
    exact hq (h.distinct q p call' call record' record hcall' hp htask' htask
      hid)

/-- So is one that follows what its key holds. -/
theorem Recorded.writable_next {c : Conf (State υ) (Event υ)}
    {expected next : PauseRecord υ} {deadline : Int} (h : Recorded c) (p : Nat)
    (hstore : c.st.store next.conversationId = some ⟨expected, deadline⟩)
    (hid : next.interactionId = expected.interactionId)
    (hrevision : expected.revision ≤ next.revision) : Writable c p next := by
  have hstored := h.stored _ _ hstore
  refine ⟨?_, ?_, ?_, ?_⟩
  · rw [hid]
    exact h.issued expected.key fun hnone => by
      rw [hnone] at hstored
      cases hstored
  · intro revision hsome
    rw [hid] at hsome
    exact (h.newest _ _ hstore revision hsome).trans hrevision
  · intro k entry hentry heq
    exact h.apart k _ entry _ hentry hstore (heq.trans hid)
  · intro q call record _ hq htask hph heq
    have hnone := (h.pending q call record hq htask).2.2 hph
      expected.revision
    rw [heq, hid] at hnone
    exact nomatch hnone.symm.trans hstored

/-- A swap that finds its record goes one step along the automaton. -/
theorem Recorded.swap {c : Conf (State υ) (Event υ)} {p : Nat}
    {call : Call υ} {expected next : PauseRecord υ} {won : Answer υ}
    {now deadline : Int} (h : Recorded c) (hp : c.st.calls[p]? = some call)
    (hph : call.phase ≠ .ended)
    (hswaps : Swaps interactions call.task expected next won now)
    (hstore : c.st.store next.conversationId = some ⟨expected, deadline⟩) :
    Writable c p next ∧
      Follows c.log (.wrote p call.task.move (some expected) (some next)) := by
  obtain ⟨task, phase⟩ := call
  have hstored := h.stored _ _ hstore
  cases hswaps with
  | install =>
      obtain ⟨hwritable, hopen, hnone⟩ := h.writable_new hp rfl hph
      exact ⟨hwritable, next, rfl, hopen, hnone⟩
  | claim hopen =>
      rw [hopen] at hstored
      exact ⟨h.writable_next p hstore rfl (le_refl _), expected, rfl, rfl,
        hstored⟩
  | revise hopen _ hbuild =>
      obtain ⟨hid, hrevision, -, -, hnext, -⟩ := build_eq_ok hbuild
      rw [hopen] at hstored
      refine ⟨h.writable_next p hstore hid (by omega), expected, next, rfl, rfl,
        hnext, hid, hrevision, hstored, ?_⟩
      by_contra hsome
      have hle := h.newest _ _ hstore next.revision (hid ▸ hsome)
      dsimp only at hle
      omega
  | abandon hopen =>
      rw [hopen] at hstored
      exact ⟨h.writable_next p hstore rfl (le_refl _), expected, _, rfl, rfl,
        rfl, rfl, hstored⟩
  | release hclaimed =>
      rw [hclaimed] at hstored
      exact ⟨h.writable_next p hstore rfl (le_refl _), expected, rfl, rfl,
        hstored⟩

/-- Everyone's task after a step of the call `p`. -/
theorem calls_after {s s' : State υ} {p : Nat} {call : Call υ}
    (ph' : Phase υ) (hcalls : s'.calls = s.calls) (hp : s.calls[p]? = some call)
    (hph : call.phase ≠ .ended) (q : Nat) (call' : Call υ)
    (hq : (s'.setCall p { call with phase := ph' }).calls[q]? = some call') :
    ∃ call'', s.calls[q]? = some call'' ∧ call''.task = call'.task ∧
      (call''.phase = .ended → call'.phase = .ended) := by
  rcases call_cases hcalls hp hq with ⟨rfl, rfl⟩ | ⟨-, hq⟩
  · exact ⟨call, hp, rfl, fun h => absurd h hph⟩
  · exact ⟨call', hq, rfl, id⟩

/-- An install that has written is done. -/
theorem others_after {s s' : State υ} {log : List (Event υ)} {p : Nat}
    {call : Call υ} {next : PauseRecord υ} {ph' : Phase υ}
    (hwritable : Writable ⟨s, log⟩ p next) (hcalls : s'.calls = s.calls)
    (hp : s.calls[p]? = some call) (hph : call.phase ≠ .ended)
    (hdone : ∀ record, call.task = .install record → ph' = .ended)
    (q : Nat) (call' : Call υ)
    (hq : (s'.setCall p { call with phase := ph' }).calls[q]? = some call') :
    ∃ call'', s.calls[q]? = some call'' ∧ call''.task = call'.task ∧
      (call''.phase = .ended → call'.phase = .ended) ∧
      ∀ record, call'.task = .install record → call'.phase ≠ .ended →
        record.interactionId ≠ next.interactionId := by
  rcases call_cases hcalls hp hq with ⟨rfl, rfl⟩ | ⟨hne, hq⟩
  · exact ⟨call, hp, rfl, fun h => absurd h hph,
      fun record htask hph' => absurd (hdone record htask) hph'⟩
  · exact ⟨call', hq, rfl, id,
      fun record htask => hwritable.others q call' record hne hq htask⟩

theorem Recorded.advance {s s' : State υ} {log out : List (Event υ)}
    {p : Nat} {call : Call υ} {ph' : Phase υ} (h : Recorded ⟨s, log⟩)
    (hp : s.calls[p]? = some call)
    (hready : Ready interactions log p call.task call.phase)
    (hadv : Advances interactions s p call.task call.phase s' ph' out) :
    Recorded ⟨s'.setCall p { call with phase := ph' }, out ++ log⟩ := by
  obtain ⟨-, hids, hcalls⟩ := hadv.frame
  obtain ⟨task, phase⟩ := call
  dsimp only at hready hadv
  have hph : phase ≠ .ended := by
    intro hended
    rw [hended] at hadv
    cases hadv
  have hafter := calls_after ph' hcalls hp hph
  have hsub : s.ids ⊆ s'.ids := hids ▸ List.Subset.refl _
  have hanswer : ∀ {answer : Answer υ},
      ∀ e ∈ [Event.answered p answer], e.isWrite = false := by
    intro answer e he
    rw [List.mem_singleton.mp he]
    rfl
  cases hadv with
  | @swapped attempt expected next won hget =>
      obtain ⟨hread, now, -, hswaps⟩ := hready
      obtain ⟨deadline, hstore, -⟩ := get_eq_some hget
      obtain ⟨hwritable, hfollows⟩ := h.swap hp hph hswaps hstore
      have hset : (s.swap next).store = Function.update s.store
          next.conversationId (some ⟨next, deadline⟩) := by
        show Function.update s.store _ _ = _
        rw [hstore]
        rfl
      rw [List.append_assoc]
      refine h.write ?_ hfollows hset hids hwritable.issued hwritable.newest
        hwritable.apart (others_after hwritable hcalls hp hph ?_)
      · split
        · exact hanswer
        · exact fun e he => (List.not_mem_nil he).elim
      · rintro record rfl
        rfl
  | @set attempt next ttlMs hget =>
      obtain ⟨rfl, -⟩ := hready
      obtain ⟨hwritable, hopen, hnone⟩ := h.writable_new hp rfl hph
      have hwrote : Recorded ⟨(s.setKey next.conversationId
          (some ⟨next, s.now + max 1 ttlMs⟩)).setCall p
            ⟨.install next, .ended⟩,
          [.answered p (.opened (publicPauseOf next))] ++
            .wrote p .«open» none (some next) :: log⟩ :=
        h.write hanswer ⟨next, rfl, hopen, hnone⟩ rfl hids hwritable.issued
          hwritable.newest hwritable.apart
          (others_after hwritable hcalls hp hph fun _ _ => rfl)
      exact hwrote
  | @drop cancelled hget =>
      obtain ⟨hst, hconv, -, -, -⟩ := hready
      obtain ⟨deadline, hstore, -⟩ := get_eq_some hget
      rw [← hconv] at hstore
      have hset : (s.setKey task.conversationId none).store =
          Function.update s.store cancelled.conversationId none := by
        rw [hconv]
        rfl
      have hwrote : Recorded ⟨(s.setKey task.conversationId none).setCall p
            ⟨task, .ended⟩,
          [.answered p .cancelled] ++
            .wrote p .drop (some cancelled) none :: log⟩ :=
        h.drop hanswer hst hstore hset hids hafter
      exact hwrote
  | lost => exact h.quiet hanswer rfl hsub hafter
  | dropGone => exact h.quiet hanswer rfl hsub hafter
  | retry =>
      exact h.quiet (fun e he => (List.not_mem_nil he).elim) rfl hsub hafter
  | taken =>
      exact h.quiet (fun e he => (List.not_mem_nil he).elim) rfl hsub hafter
  | read => exact h.quiet (by simp [Event.isWrite]) rfl hsub hafter
  | lastRead => exact h.quiet (by simp [Event.isWrite]) rfl hsub hafter
  | answer => exact h.quiet (by simp [Event.isWrite]) rfl hsub hafter
  | swap => exact h.quiet (by simp [Event.isWrite]) rfl hsub hafter
  | setNew => exact h.quiet (by simp [Event.isWrite]) rfl hsub hafter

theorem recorded_of_reach [DecidableEq υ] {c : Conf (State υ) (Event υ)}
    (h : (machine interactions).Reach c) : Recorded c := by
  refine Machine.ReachWhen.invariant (I := Recorded) ?_ ?_ h
  · refine ⟨trivial, fun _ => rfl, ?_, ?_, ?_, ?_, ?_, ?_⟩
    · exact fun k entry h => nomatch h
    · exact fun k h => absurd rfl h
    · exact fun k entry h => nomatch h
    · exact fun k k' entry entry' h => nomatch h
    · exact fun p call record h => by
        simp [Machine.start, machine, State.initial] at h
    · exact fun p q call call' record record' h => by
        simp [Machine.start, machine, State.initial] at h
  intro c a c' hc ih _ hnext
  obtain ⟨s, out, hs, rfl⟩ := Machine.next_eq_some.mp hnext
  cases moves_of_step hs with
  | tick =>
      exact ih.quiet (fun e he => (List.not_mem_nil he).elim) rfl
        (List.Subset.refl _) fun p call hp => ⟨call, hp, rfl, id⟩
  | reject hid =>
      exact ih.quiet (by simp [Event.isWrite]) rfl (List.subset_cons_self _ _)
        fun p call hp => ⟨call, hp, rfl, id⟩
  | @install scope input id now record hid hbuild =>
      refine ih.join (List.subset_cons_self id _) ?_
      intro record' htask
      cases htask
      obtain ⟨hrecord, -, -, -, hopen, -⟩ := build_eq_ok hbuild
      rw [hrecord]
      exact ⟨hid, List.mem_cons_self, hopen⟩
  | @call task htask =>
      refine ih.join (List.Subset.refl _) ?_
      rintro record rfl
      cases htask
  | advance hp hadv =>
      exact ih.advance hp ((tracked_of_reach hc.reach).ready _ _ hp) hadv

/-! ## What a call reports

A call answers with a success only after its own write, and with what it wrote.
So what is reported is in the history. -/

/-- The call that an event is of. -/
def Event.call? : Event υ → Option Nat
  | .rejected _ => none
  | .read p _ | .looked p _ | .wrote p _ _ _ | .answered p _ => some p

/-- What a call tells about a record that is not its own is what it tells
about none. -/
def Owned (log : List (Event υ)) (p : Nat) (task : Task υ)
    (answer : Answer υ) : Prop :=
  ∀ scope ∈ task.scope?, answer = task.absent ∨
    ∃ record, .read p (some record) ∈ log ∧ record.bind = scope.bind ∧
      record.conversationId = scope.conversationId

theorem Seen.owned {log : List (Event υ)} {p : Nat} {task : Task υ}
    {record : PauseRecord υ} (h : Seen log p task record)
    (out : List (Event υ)) (answer : Answer υ) :
    Owned (out ++ log) p task answer := by
  intro scope hscope
  exact Or.inr ⟨record, List.mem_append_right out h.1, h.2.2 scope hscope,
    h.2.1.trans (conversationId_of_scope hscope)⟩

section Reports

variable {s s' : State υ} {p q : Nat} {task : Task υ} {ph ph' : Phase υ}
  {out log : List (Event υ)}

theorem Advances.call_eq (h : Advances interactions s p task ph s' ph' out) :
    ∀ e ∈ out, e.call? = some p := by
  intro e he
  cases h with
  | swapped hget =>
      rcases List.mem_append.mp he with he | he
      · split at he
        · rw [List.mem_singleton.mp he]
          rfl
        · exact (List.not_mem_nil he).elim
      · rw [List.mem_singleton.mp he]
        rfl
  | retry => exact (List.not_mem_nil he).elim
  | taken => exact (List.not_mem_nil he).elim
  | _ =>
      simp only [List.mem_cons, List.not_mem_nil, or_false] at he
      rcases he with rfl | rfl <;> rfl

/-- An answer ends its call, and a refusal comes with no write. -/
theorem Advances.answered (h : Advances interactions s p task ph s' ph' out)
    (hready : Ready interactions log p task ph)
    (hkeyed : ∀ k entry, s.store k = some entry →
      entry.record.conversationId = k)
    {answer : Answer υ} (hmem : .answered q answer ∈ out) :
    ph' = .ended ∧ Owned (out ++ log) p task answer ∧
      (answer.succeeded = false → (∀ r, ph ≠ .holding r) ∧
        ∀ e ∈ out, e.isWrite = false) := by
  cases h with
  | lastRead =>
      obtain ⟨-, rfl⟩ : q = p ∧ answer = task.lastAnswer
          (task.sees (s.get task.conversationId)) := by simpa using hmem
      refine ⟨rfl, ?_, fun _ => ⟨nofun, by simp [Event.isWrite]⟩⟩
      cases hsees : task.sees (s.get task.conversationId) with
      | none => exact fun scope hscope => Or.inl (lastAnswer_none hscope)
      | some record =>
          obtain ⟨hheld, hbind⟩ := sees_eq_some hsees
          obtain ⟨deadline, hstore, -⟩ := get_eq_some hheld
          intro scope hscope
          exact Or.inr ⟨record, by simp [hheld], hbind scope hscope,
            (hkeyed _ _ hstore).trans (conversationId_of_scope hscope)⟩
  | @answer attempt existing now answer' hdecide =>
      obtain ⟨-, rfl⟩ : q = p ∧ answer = answer' := by simpa using hmem
      obtain ⟨-, habsent⟩ := decide_eq_answer hdecide
      refine ⟨rfl, ?_, fun _ => ⟨nofun, by simp [Event.isWrite]⟩⟩
      cases existing with
      | none => exact fun scope _ => Or.inl (habsent rfl)
      | some record => exact (hready record rfl).owned _ _
  | @swapped attempt expected next won hget =>
      obtain ⟨hread, now, -, hswaps⟩ := hready
      rcases List.mem_append.mp hmem with hmem | hmem
      · split at hmem
        · rename_i hatOnce
          obtain ⟨-, rfl⟩ : q = p ∧ answer = won := by simpa using hmem
          refine ⟨?_, hread.owned _ _, fun hfail => ?_⟩
          · cases task with
            | abandon scope interactionId => cases hatOnce
            | _ => rfl
          · rw [hswaps.won_succeeded] at hfail
            cases hfail
        · exact (List.not_mem_nil hmem).elim
      · simp at hmem
  | @lost attempt expected next won answer' hget hlost =>
      exact ⟨rfl, hready.1.owned _ _,
        fun _ => ⟨nofun, by simp [Event.isWrite]⟩⟩
  | @set attempt next ttlMs hget =>
      obtain ⟨rfl, -⟩ := hready
      obtain ⟨-, rfl⟩ : q = p ∧ answer = .opened (publicPauseOf next) := by
        simpa using hmem
      exact ⟨rfl, nofun, nofun⟩
  | @drop cancelled hget =>
      obtain ⟨-, -, -, -, record, hread⟩ := hready
      obtain ⟨-, rfl⟩ : q = p ∧ answer = .cancelled := by simpa using hmem
      exact ⟨rfl, hread.owned _ _, fun h => nomatch h⟩
  | @dropGone cancelled hget =>
      obtain ⟨-, -, -, -, record, hread⟩ := hready
      obtain ⟨-, rfl⟩ : q = p ∧ answer = .cancelled := by simpa using hmem
      exact ⟨rfl, hread.owned _ _, fun h => nomatch h⟩
  | read => simp at hmem
  | swap => simp at hmem
  | setNew => simp at hmem
  | retry => simp at hmem
  | taken => simp at hmem

/-- A write is on a record of the call's own, and an install writes only over
what did not hold the slot when it looked. -/
theorem Advances.wrote (h : Advances interactions s p task ph s' ph' out)
    (hready : Ready interactions log p task ph) {move : Move}
    {before after : Option (PauseRecord υ)}
    (hmem : .wrote q move before after ∈ out) :
    (ph' = .ended ∨ ∃ r, ph' = .holding r) ∧
      (∀ scope ∈ task.scope?, ∃ record, before = some record ∧
        record.bind = scope.bind ∧
        record.conversationId = scope.conversationId) ∧
      (move = .«open» → ∀ prior ∈ before,
        ∃ now, .looked p now ∈ log ∧ holdsTheSlot prior now = false) := by
  cases h with
  | @swapped attempt expected next won hget =>
      obtain ⟨hread, now, hlooked, hswaps⟩ := hready
      rcases List.mem_append.mp hmem with hmem | hmem
      · split at hmem <;> simp at hmem
      · simp only [List.mem_singleton, Event.wrote.injEq] at hmem
        obtain ⟨-, rfl, rfl, rfl⟩ := hmem
        refine ⟨?_, ?_, ?_⟩
        · cases task with
          | abandon scope interactionId => exact Or.inr ⟨next, rfl⟩
          | _ => exact Or.inl rfl
        · intro scope hscope
          exact ⟨expected, rfl, hread.2.2 scope hscope,
            hread.2.1.trans (conversationId_of_scope hscope)⟩
        · intro hmove prior hover
          cases hswaps with
          | install hfree =>
              obtain rfl := Option.some.inj hover
              exact ⟨now, hlooked, hfree⟩
          | _ => cases hmove
  | @set attempt next ttlMs hget =>
      obtain ⟨rfl, -⟩ := hready
      simp only [List.mem_cons, List.not_mem_nil, or_false, Event.wrote.injEq,
        reduceCtorEq, false_or] at hmem
      obtain ⟨-, rfl, rfl, rfl⟩ := hmem
      exact ⟨Or.inl rfl, nofun, fun _ => nofun⟩
  | @drop cancelled hget =>
      obtain ⟨-, hconv, hbind, -, -⟩ := hready
      simp only [List.mem_cons, List.not_mem_nil, or_false, Event.wrote.injEq,
        reduceCtorEq, false_or] at hmem
      obtain ⟨-, rfl, rfl, rfl⟩ := hmem
      refine ⟨Or.inl rfl, fun scope hscope => ?_, fun h => nomatch h⟩
      exact ⟨cancelled, rfl, hbind scope hscope,
        hconv.trans (conversationId_of_scope hscope)⟩
  | read => simp at hmem
  | lastRead => simp at hmem
  | answer => simp at hmem
  | swap => simp at hmem
  | setNew => simp at hmem
  | lost => simp at hmem
  | retry => simp at hmem
  | taken => simp at hmem
  | dropGone => simp at hmem

end Reports

/-! ## The contract

What is reported and what is stored, put together over runs: each revision is
claimed by one call, which nobody has cancelled, unless it was released in
between. -/

/-- What the calls have reported is in order. -/
structure Reported (c : Conf (State υ) (Event υ)) : Prop where
  joined : ∀ e ∈ c.log, ∀ p ∈ e.call?, p < c.st.calls.length
  working : ∀ (p : Nat) (call : Call υ), c.st.calls[p]? = some call →
    call.phase ≠ .ended → (∀ answer, .answered p answer ∉ c.log) ∧
      ((∀ r, call.phase ≠ .holding r) →
        ∀ e ∈ c.log, e.call? = some p → e.isWrite = false)
  refused : ∀ (p : Nat) (answer : Answer υ), .answered p answer ∈ c.log →
    answer.succeeded = false →
      ∀ e ∈ c.log, e.call? = some p → e.isWrite = false
  answered : ∀ (p : Nat) (answer : Answer υ) (call : Call υ),
    .answered p answer ∈ c.log → c.st.calls[p]? = some call →
      Owned c.log p call.task answer
  wrote : ∀ (p : Nat) (move : Move) (before after : Option (PauseRecord υ))
    (call : Call υ), .wrote p move before after ∈ c.log →
      c.st.calls[p]? = some call → ∀ scope ∈ call.task.scope?,
        ∃ record, before = some record ∧ record.bind = scope.bind ∧
          record.conversationId = scope.conversationId
  free : ∀ (p : Nat) (prior : PauseRecord υ) (after : Option (PauseRecord υ)),
    .wrote p .«open» (some prior) after ∈ c.log →
      ∃ now, .looked p now ∈ c.log ∧ holdsTheSlot prior now = false

theorem Owned.mono {log : List (Event υ)} {p : Nat} {task : Task υ}
    {answer : Answer υ} (h : Owned log p task answer)
    (out : List (Event υ)) : Owned (out ++ log) p task answer := by
  intro scope hscope
  rcases h scope hscope with habsent | ⟨record, hread, hrest⟩
  · exact Or.inl habsent
  · exact Or.inr ⟨record, List.mem_append_right out hread, hrest⟩

theorem lt_of_getElem? {α : Type} {l : List α} {n : Nat} {a : α}
    (h : l[n]? = some a) : n < l.length :=
  (List.getElem?_eq_some_iff.mp h).1

/-- A call that has just joined has reported nothing. -/
theorem Reported.join {s : State υ} {log : List (Event υ)} {ids : List Text}
    {task : Task υ} (h : Reported ⟨s, log⟩) :
    Reported ⟨{ s with
      ids
      calls := s.calls ++ [⟨task, .reading 0⟩] }, log⟩ := by
  have hnone : ∀ e ∈ log, e.call? ≠ some s.calls.length := by
    intro e he heq
    exact absurd (h.joined e he _ heq) (Nat.lt_irrefl _)
  refine ⟨?_, ?_, h.refused, ?_, ?_, h.free⟩
  · intro e he p hp
    have hlt := h.joined e he p hp
    show p < (s.calls ++ _).length
    rw [List.length_append]
    exact Nat.lt_add_right _ hlt
  · intro p call hp hph
    rcases getElem?_concat_cases hp with hp | ⟨rfl, rfl⟩
    · exact h.working p call hp hph
    · exact ⟨fun answer hmem => hnone _ hmem rfl,
        fun _ e he heq => absurd heq (hnone e he)⟩
  · intro p answer call hmem hp
    rcases getElem?_concat_cases hp with hp | ⟨rfl, rfl⟩
    · exact h.answered p answer call hmem hp
    · exact absurd rfl (hnone _ hmem)
  · intro p move before after call hmem hp
    rcases getElem?_concat_cases hp with hp | ⟨rfl, rfl⟩
    · exact h.wrote p move before after call hmem hp
    · exact absurd rfl (hnone _ hmem)

/-- A question that was not built is reported by no call. -/
theorem Reported.reject {s : State υ} {log : List (Event υ)}
    {ids : List Text} {answer : Answer υ} (h : Reported ⟨s, log⟩) :
    Reported ⟨{ s with ids }, .rejected answer :: log⟩ := by
  have hold : ∀ {e : Event υ} {p : Nat}, e.call? = some p →
      e ∈ Event.rejected answer :: log → e ∈ log := by
    intro e p hcall he
    rcases List.mem_cons.mp he with rfl | he
    · cases hcall
    · exact he
  refine ⟨fun e he p hp => h.joined e (hold hp he) p hp, ?_, ?_, ?_, ?_, ?_⟩
  · intro p call hp hph
    obtain ⟨hans, hwr⟩ := h.working p call hp hph
    exact ⟨fun a hmem => hans a (hold rfl hmem),
      fun hnot e he heq => hwr hnot e (hold heq he) heq⟩
  · exact fun p a hmem hfail e he heq =>
      h.refused p a (hold rfl hmem) hfail e (hold heq he) heq
  · exact fun p a call hmem hp =>
      (h.answered p a call (hold rfl hmem) hp).mono [_]
  · exact fun p move before after call hmem hp =>
      h.wrote p move before after call (hold rfl hmem) hp
  · intro p prior after hmem
    obtain ⟨now, hlooked, hfree⟩ := h.free p prior after (hold rfl hmem)
    exact ⟨now, List.mem_cons_of_mem _ hlooked, hfree⟩

theorem Reported.advance {s s' : State υ} {log out : List (Event υ)}
    {p : Nat} {call : Call υ} {ph' : Phase υ} (h : Reported ⟨s, log⟩)
    (htracked : Tracked interactions ⟨s, log⟩) (hp : s.calls[p]? = some call)
    (hadv : Advances interactions s p call.task call.phase s' ph' out) :
    Reported ⟨s'.setCall p { call with phase := ph' }, out ++ log⟩ := by
  have hready := htracked.ready p call hp
  have hcalls := hadv.frame.2.2
  have hown := hadv.call_eq
  have hph : call.phase ≠ .ended := by
    intro hended
    rw [hended] at hadv
    cases hadv
  obtain ⟨hunanswered, hunwritten⟩ := h.working p call hp hph
  -- an event of another call was there before the step
  have hother : ∀ {q : Nat} {e : Event υ}, q ≠ p → e.call? = some q →
      e ∈ out ++ log → e ∈ log := by
    intro q e hne hq he
    rcases List.mem_append.mp he with he | he
    · rw [hown e he] at hq
      exact absurd (Option.some.inj hq).symm hne
    · exact he
  refine ⟨?_, ?_, ?_, ?_, ?_, ?_⟩
  · intro e he q hq
    show q < (s'.calls.set p _).length
    rw [List.length_set, hcalls]
    rcases List.mem_append.mp he with he | he
    · rw [hown e he] at hq
      obtain rfl := Option.some.inj hq
      exact lt_of_getElem? hp
    · exact h.joined e he q hq
  · intro q call' hq hph'
    rcases call_cases hcalls hp hq with ⟨rfl, rfl⟩ | ⟨hne, hq⟩
    · refine ⟨fun answer hmem => ?_, fun hnot e he heq => ?_⟩
      · rcases List.mem_append.mp hmem with hmem | hmem
        · exact hph' (hadv.answered hready htracked.keyed hmem).1
        · exact hunanswered answer hmem
      · rcases List.mem_append.mp he with he | he
        · match e with
          | .wrote q' move before after =>
              rcases (hadv.wrote hready he).1 with hended | ⟨r, hholding⟩
              · exact absurd hended hph'
              · exact absurd hholding (hnot r)
          | .rejected _ | .read _ _ | .looked _ _ | .answered _ _ => rfl
        · refine hunwritten (fun r hholding => hph' ?_) e he heq
          rw [hholding] at hadv
          cases hadv <;> rfl
    · obtain ⟨hans, hwr⟩ := h.working q call' hq hph'
      exact ⟨fun answer hmem => hans answer (hother hne rfl hmem),
        fun hnot e he heq => hwr hnot e (hother hne heq he) heq⟩
  · intro q answer hmem hfail e he heq
    by_cases hq : q = p
    · subst hq
      rcases List.mem_append.mp hmem with hmem | hmem
      · obtain ⟨-, -, hrefusal⟩ := hadv.answered hready htracked.keyed hmem
        obtain ⟨hnot, hquiet⟩ := hrefusal hfail
        rcases List.mem_append.mp he with he | he
        · exact hquiet e he
        · exact hunwritten hnot e he heq
      · exact absurd hmem (hunanswered answer)
    · exact h.refused q answer (hother hq rfl hmem) hfail e (hother hq heq he)
        heq
  · intro q answer call' hmem hq
    rcases call_cases hcalls hp hq with ⟨rfl, rfl⟩ | ⟨hne, hq⟩
    · rcases List.mem_append.mp hmem with hmem | hmem
      · exact (hadv.answered hready htracked.keyed hmem).2.1
      · exact absurd hmem (hunanswered answer)
    · exact (h.answered q answer call' (hother hne rfl hmem) hq).mono out
  · intro q move before after call' hmem hq
    rcases call_cases hcalls hp hq with ⟨rfl, rfl⟩ | ⟨hne, hq⟩
    · rcases List.mem_append.mp hmem with hmem | hmem
      · exact (hadv.wrote hready hmem).2.1
      · exact h.wrote q move before after call hmem hp
    · exact h.wrote q move before after call' (hother hne rfl hmem) hq
  · intro q prior after hmem
    rcases List.mem_append.mp hmem with hmem | hmem
    · obtain ⟨now, hlooked, hfree⟩ :=
        (hadv.wrote hready hmem).2.2 rfl prior rfl
      obtain rfl : q = p := by
        exact (Option.some.inj (hown _ hmem))
      exact ⟨now, List.mem_append_right out hlooked, hfree⟩
    · obtain ⟨now, hlooked, hfree⟩ := h.free q prior after hmem
      exact ⟨now, List.mem_append_right out hlooked, hfree⟩

theorem reported_of_reach [DecidableEq υ] {c : Conf (State υ) (Event υ)}
    (h : (machine interactions).Reach c) : Reported c := by
  refine Machine.ReachWhen.invariant (I := Reported) ?_ ?_ h
  · refine ⟨?_, ?_, ?_, ?_, ?_, ?_⟩
    · exact fun e he => (List.not_mem_nil he).elim
    · exact fun p call hp => by
        simp [Machine.start, machine, State.initial] at hp
    · exact fun p answer he => (List.not_mem_nil he).elim
    · exact fun p answer call he => (List.not_mem_nil he).elim
    · exact fun p move before after call he => (List.not_mem_nil he).elim
    · exact fun p prior after he => (List.not_mem_nil he).elim
  intro c a c' hc ih _ hnext
  obtain ⟨s, out, hs, rfl⟩ := Machine.next_eq_some.mp hnext
  cases moves_of_step hs with
  | tick => exact ⟨ih.joined, ih.working, ih.refused, ih.answered, ih.wrote,
      ih.free⟩
  | reject => exact ih.reject
  | install => exact ih.join
  | call => exact ih.join
  | advance hp hadv => exact ih.advance (tracked_of_reach hc.reach) hp hadv

/-- What the calls on the store are held to. The keys hold what the history of
the writes leaves there, and a pause takes the slot only from one that does not
hold it. Between two claims of a revision, and between its claim and a
cancellation after it, it is released; and a cancelled revision is not claimed.
A call that is refused has written nothing. A call of one owner writes only on
that owner's records, and if it has read none of them it is answered as if
there was no pause. -/
structure SingleClaim (c : Conf (State υ) (Event υ)) : Prop where
  slot : ∀ k, (c.st.store k).map Entry.record = slotOf k c.log
  free : ∀ (p : Nat) (prior : PauseRecord υ) (after : Option (PauseRecord υ)),
    .wrote p .«open» (some prior) after ∈ c.log →
      ∃ now, .looked p now ∈ c.log ∧ holdsTheSlot prior now = false
  claims : ∀ (k : RevisionKey) (newer mid older : List (Event υ))
    (e e' : Event υ), c.log = newer ++ e' :: (mid ++ e :: older) →
      e.moves k .claim → e'.moves k .claim ∨ e'.moves k .cancel →
        ∃ x ∈ mid, x.moves k .release
  cancels : ∀ (k : RevisionKey) (newer mid older : List (Event υ))
    (e e' : Event υ), c.log = newer ++ e' :: (mid ++ e :: older) →
      e.moves k .cancel → ¬ e'.moves k .claim
  refused : ∀ (p : Nat) (answer : Answer υ), .answered p answer ∈ c.log →
    answer.succeeded = false →
      ∀ e ∈ c.log, e.call? = some p → e.isWrite = false
  answered : ∀ (p : Nat) (answer : Answer υ) (call : Call υ),
    .answered p answer ∈ c.log → c.st.calls[p]? = some call →
      Owned c.log p call.task answer
  wrote : ∀ (p : Nat) (move : Move) (before after : Option (PauseRecord υ))
    (call : Call υ), .wrote p move before after ∈ c.log →
      c.st.calls[p]? = some call → ∀ scope ∈ call.task.scope?,
        ∃ record, before = some record ∧ record.bind = scope.bind ∧
          record.conversationId = scope.conversationId

theorem singleClaim_of_reach [DecidableEq υ] {c : Conf (State υ) (Event υ)}
    (h : (machine interactions).Reach c) : SingleClaim c := by
  have hrecorded := recorded_of_reach h
  have hreported := reported_of_reach h
  refine ⟨hrecorded.slot, hreported.free, ?_, ?_, hreported.refused,
    hreported.answered, hreported.wrote⟩
  · intro k newer mid older e e' hlog hfirst hlater
    have htold := hlog ▸ hrecorded.told
    rcases hlater with hlater | hlater
    · exact released_between htold hfirst hlater (Or.inl rfl)
    · exact released_between htold hfirst hlater (Or.inr rfl)
  · intro k newer mid older e e' hlog hfirst
    exact not_claimed_after_cancel (hlog ▸ hrecorded.told) hfirst

/-! ## A pause that is given back

By design a release opens a revision again, so a claim and a cancellation of
one revision can both succeed. This is such a run. -/

/-- One kind of question, which any answer answers. -/
def picks : Interactions Nat := fun kind =>
  if kind = ['k'] then some
    { ttlMs := 60000
      prompt := .ok
      answer := .ok
      resolve := fun answer _ => .resolved answer }
  else none

/-- The one who was asked. -/
def owner : PauseScope := ⟨['t'], ['o']⟩

/-- Someone else in the conversation. -/
def stranger : PauseScope := ⟨['t'], ['x']⟩

/-- A question. -/
def question : Question Nat := ⟨['k'], 0, 0, 0⟩

/-- The steps that ask it. -/
def openedPause : List (Act Nat) :=
  [.«open» owner question ['1'] 0, .read 0, .decide 0 0, .write 0]

/-- The answer is claimed and given back, and then the question is dropped. -/
def releasedAndDropped : List (Act Nat) :=
  openedPause ++
    [.call (.claim owner ['1'] 1 7), .read 1, .decide 1 0, .write 1,
      .call (.release owner ['1']), .read 2, .decide 2 0, .write 2,
      .call (.abandon owner ['1']), .read 3, .decide 3 0, .write 3, .write 3]

/-- The pause that they leave. -/
def pickedPause : PauseRecord Nat where
  kind := ['k']
  bind := ['o']
  interactionId := ['1']
  revision := 1
  conversationId := ['t']
  status := .«open»
  continuation := 0
  prompt := 0
  secret := 0
  expiresAt := 60000

theorem singleClaim_of_reach_dropped :
    ∃ c, (machine picks).exec (machine picks).start releasedAndDropped =
        some c ∧ .answered 3 .cancelled ∈ c.log ∧ SingleClaim c := by
  obtain ⟨c, hexec, hc⟩ : (machine picks).EndsIn
      (fun c => .answered 3 .cancelled ∈ c.log) releasedAndDropped := by
    decide
  exact ⟨c, hexec, hc, singleClaim_of_reach
    (Machine.reach_of_exec releasedAndDropped hexec)⟩

/-- A claim and a cancellation of one revision both succeed, and another
owner's question is told of the open pause. -/
theorem claimed_and_cancelled :
    (∃ c, (machine picks).Reach c ∧
      (∃ e ∈ c.log, e.moves (['1'], 1) .claim) ∧
        ∃ e ∈ c.log, e.moves (['1'], 1) .cancel) ∧
    ∃ c, (machine picks).Reach c ∧ ∃ p pause, .answered p
        (.alreadyOpen (publicPauseOf pause)) ∈ c.log ∧
      c.st.get stranger.conversationId = some pause ∧
        pause.bind ≠ stranger.bind := by
  constructor
  · obtain ⟨c, hexec, hclaim, hcancel⟩ : (machine picks).EndsIn (fun c =>
        .wrote 1 .claim (some pickedPause)
          (some { pickedPause with status := .claimed }) ∈ c.log ∧
        .wrote 3 .cancel (some pickedPause) (some { pickedPause with
          status := .cancelled
          expiresAt := 10000 }) ∈ c.log) releasedAndDropped := by
      decide
    exact ⟨c, Machine.reach_of_exec _ hexec, ⟨_, hclaim, rfl, rfl⟩, _, hcancel,
      rfl, rfl⟩
  · obtain ⟨c, hexec, hanswer, hget⟩ : (machine picks).EndsIn (fun c =>
        .answered 1 (.alreadyOpen (publicPauseOf pickedPause)) ∈ c.log ∧
        c.st.get stranger.conversationId = some pickedPause)
        (openedPause ++ [.«open» stranger question ['2'] 0, .read 1,
          .decide 1 0]) := by
      decide
    exact ⟨c, Machine.reach_of_exec _ hexec, 1, _, hanswer, hget, by decide⟩

end Shozee.Pause
