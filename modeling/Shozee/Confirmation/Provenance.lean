import Shozee.Idempotency.Grants
import Shozee.Confirmation.Protocol

/-!
# Where a grant comes from

Every grant a call reserves under was once a challenge that somebody took out
of the store: the call itself, in the gate, or an earlier attempt that left
the grant on the row. `Backed` says that the challenge was unexpired then,
bound as the call is bound, and that its card was shown again unchanged.

For the second way the row has to vouch for the challenge. It was put there by
a reservation of the same row with the same hash (`rowGranted_of_reach`), that
reservation was some call's, and the two calls are bound alike
(`bindings_eq_of_row`).

A challenge is taken out of the store once, because ids are drawn once and
taking one out removes it (`Stocked`).
-/

namespace Shozee.Confirmation

open Shozee.Run Shozee.Idempotency

variable {I H R : Type} (D : Digest I H)

/-- The grant is that of a challenge which was consumed unexpired, with the
bindings of the call, and whose card was shown again with the same hash. -/
def Backed (log : List (Event I H R)) (call : KeyedCall I)
    (grant : ConfirmationGrant) : Prop :=
  ∃ p stored nowMs, .consumed p stored ∈ log ∧ stored.grant nowMs = grant ∧
    nowMs < stored.expiresAt ∧ stored.bindings = call.bindings D ∧
    ∀ hash, stored.previewHash = some hash → ∃ call₀ card,
      .confirmed p call₀ stored nowMs (some card) ∈ log ∧
        previewHashOf D card = some hash

/-- Every handler run of a gated call is under a backed grant, and no run is
of a call that was only to be confirmed. -/
def RunsBacked (older : List (Event I H R)) : Event I H R → Prop
  | .idem e => ∀ p env, e.reservation = some (p, env) → ∃ call,
      .admitted p call env.confirmationGrant ∈ older ∧
        env = call.reserveEnv D env.confirmationGrant ∧
        call.env.request.confirmationOnly = false ∧
        (confirmationIsRequired call.env = true →
          env.confirmationGrant.isSome = true) ∧
        ∀ grant ∈ env.confirmationGrant, Backed D older call grant
  | .ran _ env => confirmationIsRequired env = false
  | _ => True

/-- A challenge is taken out of the store for the first time. -/
def ConsumedOnce (older : List (Event I H R)) : Event I H R → Prop
  | .consumed _ stored => ∀ q stored', .consumed q stored' ∈ older →
      stored'.challengeId ≠ stored.challengeId
  | _ => True

/-- The call is behind the gate. -/
def Gated (call : KeyedCall I) : Prop :=
  confirmationIsRequired call.env = true ∧ reserves call.env = true

/-- A row's challenge backs the calls that ask for the row with its hash. -/
def RowBacked (log : List (Event I H R)) (k : RowIdentity) (row : Row H R) :
    Prop :=
  ∀ ch, row.confirmationChallengeId = some ch → ∃ call grant,
    row.Carries grant ∧ Backed D log call grant ∧ call.identity = k ∧
      call.requestHash D = row.requestHash

/-- What the origin of a grant says of it. -/
def HasGrant (log : List (Event I H R)) (p : Nat) (call : KeyedCall I)
    (grant : Option ConfirmationGrant) : Origin → Prop
  | .ungated => grant = none ∧ confirmationIsRequired call.env = false
  | .consumed => Gated call ∧ ∃ stored nowMs,
      grant = some (stored.grant nowMs) ∧ .consumed p stored ∈ log ∧
        Backed D log call (stored.grant nowMs)
  | .resumed => Gated call ∧ ∃ g, grant = some g ∧ Backed D log call g

/-- What a call's own variables say of the challenge it deals with. -/
def PhaseBacked (log : List (Event I H R)) (p : Nat) : Phase I H R → Prop
  | .probing call | .gating call | .presenting call | .issuing call _ =>
      Gated call
  | .probed call existing =>
      Gated call ∧ RowBacked D log call.identity existing
  | .consumed call _ raw =>
      Gated call ∧ ∀ stored ∈ raw, .consumed p stored ∈ log
  | .rechecking call stored nowMs =>
      Gated call ∧ .consumed p stored ∈ log ∧ nowMs < stored.expiresAt ∧
        stored.bindings = call.bindings D
  | .granted call grant origin => HasGrant D log p call grant origin
  | .reserving call grant origin =>
      HasGrant D log p call grant origin ∧
        call.env.request.confirmationOnly = false
  | .idle | .ended => True

/-- What a call is about to do is in the log with what allowed it. -/
structure Traced (c : Conf (State I H R) (Event I H R)) : Prop where
  asking : ∀ p env, (c.st.idem.phase p).asking = some env →
    ∃ call grant origin, c.st.phase p = .reserving call grant origin ∧
      env = call.reserveEnv D grant ∧ .admitted p call grant ∈ c.log
  phases : ∀ p, PhaseBacked D c.log p (c.st.phase p)
  told : Told (RunsBacked D) c.log

/-- The stored challenges are drawn ones that nothing has taken. -/
structure Stocked (c : Conf (State I H R) (Event I H R)) : Prop where
  held : ∀ id stored, c.st.challenges id = some stored →
    stored.challengeId = id ∧ c.st.drawn id = true
  untaken : ∀ id stored, c.st.challenges id = some stored →
    ∀ p stored', .consumed p stored' ∈ c.log → stored'.challengeId ≠ id
  taken : ∀ p stored, .consumed p stored ∈ c.log →
    c.st.drawn stored.challengeId = true
  once : Told ConsumedOnce c.log

/-! ## More history, no less backing

A backing is something that the history contains. It stays when the history
grows, and it is the same for calls that are bound alike. -/

section Mono

variable {D} {log log' : List (Event I H R)} {p : Nat} {call : KeyedCall I}

theorem Backed.mono {grant : ConfirmationGrant} (hsub : log ⊆ log')
    (h : Backed D log call grant) : Backed D log' call grant := by
  obtain ⟨q, stored, nowMs, htaken, hgrant, hlive, hbound, hcard⟩ := h
  refine ⟨q, stored, nowMs, hsub htaken, hgrant, hlive, hbound, ?_⟩
  intro hash hhash
  obtain ⟨call₀, card, hmem, hshown⟩ := hcard hash hhash
  exact ⟨call₀, card, hsub hmem, hshown⟩

theorem RowBacked.mono {k : RowIdentity} {row : Row H R} (hsub : log ⊆ log')
    (h : RowBacked D log k row) : RowBacked D log' k row := by
  intro ch hch
  obtain ⟨call, grant, hcar, hbacked, hrest⟩ := h ch hch
  exact ⟨call, grant, hcar, hbacked.mono hsub, hrest⟩

theorem HasGrant.mono {grant : Option ConfirmationGrant} {origin : Origin}
    (hsub : log ⊆ log') (h : HasGrant D log p call grant origin) :
    HasGrant D log' p call grant origin := by
  cases origin with
  | ungated => exact h
  | consumed =>
      obtain ⟨hgated, stored, nowMs, hgrant, htaken, hbacked⟩ := h
      exact ⟨hgated, stored, nowMs, hgrant, hsub htaken, hbacked.mono hsub⟩
  | resumed =>
      obtain ⟨hgated, g, hgrant, hbacked⟩ := h
      exact ⟨hgated, g, hgrant, hbacked.mono hsub⟩

theorem PhaseBacked.mono {ph : Phase I H R} (hsub : log ⊆ log')
    (h : PhaseBacked D log p ph) : PhaseBacked D log' p ph := by
  cases ph with
  | probed call existing => exact ⟨h.1, h.2.mono hsub⟩
  | consumed call challengeId raw =>
      exact ⟨h.1, fun stored hraw => hsub (h.2 stored hraw)⟩
  | rechecking call stored nowMs => exact ⟨h.1, hsub h.2.1, h.2.2⟩
  | granted call grant origin => exact HasGrant.mono hsub h
  | reserving call grant origin => exact ⟨h.1.mono hsub, h.2⟩
  | idle | probing | gating | presenting | issuing | ended => exact h

end Mono

/-- A gated call has a grant. -/
theorem HasGrant.isSome {log : List (Event I H R)} {p : Nat}
    {call : KeyedCall I} {grant : Option ConfirmationGrant} {origin : Origin}
    (h : HasGrant D log p call grant origin)
    (hrequired : confirmationIsRequired call.env = true) :
    grant.isSome = true := by
  cases origin with
  | ungated =>
      rw [h.2] at hrequired
      cases hrequired
  | consumed =>
      obtain ⟨-, stored, nowMs, rfl, -⟩ := h
      rfl
  | resumed =>
      obtain ⟨-, g, rfl, -⟩ := h
      rfl

/-- A grant that a call has is backed. -/
theorem HasGrant.backed {log : List (Event I H R)} {p : Nat}
    {call : KeyedCall I} {grant : Option ConfirmationGrant} {origin : Origin}
    (h : HasGrant D log p call grant origin) :
    ∀ g ∈ grant, Backed D log call g := by
  intro g hg
  cases origin with
  | ungated =>
      rw [h.1] at hg
      cases hg
  | consumed =>
      obtain ⟨-, stored, nowMs, rfl, -, hbacked⟩ := h
      cases hg
      exact hbacked
  | resumed =>
      obtain ⟨-, g', rfl, hbacked⟩ := h
      cases hg
      exact hbacked

/-- Only calls outside the gate run without a reservation. -/
theorem HasGrant.ungated_of_direct {log : List (Event I H R)} {p : Nat}
    {call : KeyedCall I} {grant : Option ConfirmationGrant} {origin : Origin}
    (h : HasGrant D log p call grant origin)
    (hdirect : reserves call.env = false) :
    confirmationIsRequired call.env = false := by
  cases origin with
  | ungated => exact h.2
  | consumed | resumed =>
      have hreserves := h.1.2
      rw [hdirect] at hreserves
      cases hreserves

/-- A grant is backed for every call that is bound alike. -/
theorem Backed.congr {log : List (Event I H R)} {call call' : KeyedCall I}
    {grant : ConfirmationGrant} (h : Backed D log call grant)
    (hbindings : call.bindings D = call'.bindings D) :
    Backed D log call' grant := by
  obtain ⟨p, stored, nowMs, htaken, hgrant, hlive, hbound, hcard⟩ := h
  exact ⟨p, stored, nowMs, htaken, hgrant, hlive, hbound.trans hbindings,
    hcard⟩

/-! ## A challenge is consumed once

`takeChallenge` deletes what it returns, and an id that was drawn is not issued
again. So a challenge that has been consumed is in the store no more
(`Stocked`), and two reports of its consumption are one. -/

/-- Two reports of one challenge are one report. -/
theorem consumed_unique {log : List (Event I H R)}
    (h : Told ConsumedOnce log) {p q : Nat} {stored stored' : StoredChallenge H}
    (hp : .consumed p stored ∈ log) (hq : .consumed q stored' ∈ log)
    (hid : stored.challengeId = stored'.challengeId) :
    p = q ∧ stored = stored' := by
  induction log with
  | nil => cases hp
  | cons e older ih =>
      rcases List.mem_cons.mp hp with hnew | hold
      · rcases List.mem_cons.mp hq with hnew' | hold'
        · rw [← hnew'] at hnew
          cases hnew
          exact ⟨rfl, rfl⟩
        · have hfirst := h.1
          rw [← hnew] at hfirst
          exact absurd hid.symm (hfirst q stored' hold')
      · rcases List.mem_cons.mp hq with hnew' | hold'
        · have hfirst := h.1
          rw [← hnew'] at hfirst
          exact absurd hid (hfirst p stored hold)
        · exact ih h.2 hold hold'

/-- A challenge backs calls of one row. -/
theorem Backed.identity_eq {log : List (Event I H R)}
    (honce : Told ConsumedOnce log) {call call' : KeyedCall I}
    {grant grant' : ConfirmationGrant} (h : Backed D log call grant)
    (h' : Backed D log call' grant')
    (hid : grant.challengeId = grant'.challengeId) :
    call.identity = call'.identity := by
  obtain ⟨p, stored, nowMs, htaken, rfl, -, hbound, -⟩ := h
  obtain ⟨q, stored', nowMs', htaken', rfl, -, hbound', -⟩ := h'
  obtain ⟨-, rfl⟩ := consumed_unique honce htaken htaken' hid
  exact identity_eq_of_bindings D (hbound.symm.trans hbound')

section Steps

variable {D} [DecidableEq H] {s s' : State I H R} {a : Act I H R}
  {out : List (Event I H R)} {c : Conf (State I H R) (Event I H R)}

theorem Moves.out_length_le (h : Moves D s a s' out) : out.length ≤ 1 := by
  cases h with
  | consume hph =>
      rw [List.length_map]
      exact Option.length_toList_le
  | idem hstep =>
      rw [List.length_map]
      exact (Idempotency.moves_of_step hstep).out_length_le
  | _ => first | exact Nat.le_refl 1 | exact Nat.zero_le 1

/-- A challenge a step reports as consumed was in the store, and is not any
more. -/
theorem Moves.consumed_of_mem (h : Moves D s a s' out) {p : Nat}
    {stored : StoredChallenge H} (hmem : .consumed p stored ∈ out) :
    ∃ id, s.challenges id = some stored ∧ s'.challenges id = none := by
  cases h with
  | @consume p call challengeId hph =>
      obtain ⟨stored', hstored, heq⟩ := List.mem_map.mp hmem
      cases heq
      refine ⟨challengeId, Option.mem_toList.mp hstored, ?_⟩
      rw [setPhase_challenges, setChallenge_challenges, if_pos rfl]
  | idem hstep =>
      obtain ⟨e, -, heq⟩ := List.mem_map.mp hmem
      cases heq
  | _ => simp at hmem

theorem Moves.drawn_mono (h : Moves D s a s' out) {id : ChallengeId}
    (hid : s.drawn id = true) : s'.drawn id = true := by
  cases h with
  | issue hph hfresh =>
      simp only [setPhase_drawn, setChallenge_drawn, draw_drawn]
      split
      · rfl
      · exact hid
  | _ => exact hid

/-- What is in the store after a step was there, or has just been issued. -/
theorem Moves.challenges_cases (h : Moves D s a s' out) {id : ChallengeId}
    {stored : StoredChallenge H} (hin : s'.challenges id = some stored) :
    s.challenges id = some stored ∨
      (s.drawn id = false ∧ s'.drawn id = true ∧ stored.challengeId = id ∧
        ∀ p stored', .consumed p stored' ∉ out) := by
  have hremoved : ∀ {ch : ChallengeId},
      (if id = ch then none else s.challenges id) = some stored →
      s.challenges id = some stored := by
    intro ch hif
    split at hif
    · cases hif
    · exact hif
  cases h with
  | @issue p ch nowMs call card hph hfresh =>
      simp only [setPhase_challenges, setChallenge_challenges] at hin
      split at hin
      · next heq =>
          cases hin
          refine Or.inr ⟨heq ▸ hfresh, ?_, heq.symm, ?_⟩
          · simp only [setPhase_drawn, setChallenge_drawn, draw_drawn]
            exact if_pos heq
          · intro q stored' hmem
            cases List.mem_singleton.mp hmem
      · exact Or.inl hin
  | consume =>
      simp only [setPhase_challenges, setChallenge_challenges] at hin
      exact Or.inl (hremoved hin)
  | expire =>
      simp only [setChallenge_challenges] at hin
      exact Or.inl (hremoved hin)
  | _ => exact Or.inl hin

theorem Stocked.step (hI : Stocked c) (h : Moves D c.st a s' out) :
    Stocked ⟨s', out ++ c.log⟩ := by
  refine { held := ?_, untaken := ?_, taken := ?_, once := ?_ }
  · intro id stored hin
    rcases h.challenges_cases hin with hold | ⟨-, hdrawn, hid, -⟩
    · obtain ⟨hid, hdrawn⟩ := hI.held id stored hold
      exact ⟨hid, h.drawn_mono hdrawn⟩
    · exact ⟨hid, hdrawn⟩
  · intro id stored hin p stored' hmem heq
    rcases h.challenges_cases hin with hold | ⟨hfresh, -, -, hnone⟩
    · rcases List.mem_append.mp hmem with hnew | hlog
      · obtain ⟨id', hstore, hgone⟩ := h.consumed_of_mem hnew
        obtain rfl := (hI.held id' stored' hstore).1
        rw [← heq, hgone] at hin
        cases hin
      · exact hI.untaken id stored hold p stored' hlog heq
    · rcases List.mem_append.mp hmem with hnew | hlog
      · exact hnone p stored' hnew
      · have hdrawn := hI.taken p stored' hlog
        rw [heq, hfresh] at hdrawn
        cases hdrawn
  · intro p stored hmem
    rcases List.mem_append.mp hmem with hnew | hlog
    · obtain ⟨id, hstore, -⟩ := h.consumed_of_mem hnew
      obtain ⟨rfl, hdrawn⟩ := hI.held id stored hstore
      exact h.drawn_mono hdrawn
    · exact h.drawn_mono (hI.taken p stored hlog)
  · refine hI.once.append h.out_length_le fun e he => ?_
    cases e with
    | consumed p stored =>
        intro q stored' hlog
        obtain ⟨id, hstore, -⟩ := h.consumed_of_mem he
        obtain ⟨rfl, -⟩ := hI.held id stored hstore
        exact hI.untaken _ stored hstore q stored' hlog
    | _ => trivial

theorem stocked_of_reach (h : (protocol D).Reach c) : Stocked c := by
  refine h.invariant (I := Stocked) ?_ ?_
  · exact
      { held := fun _ _ hin => by cases hin
        untaken := fun _ _ hin => by cases hin
        taken := fun _ _ hmem => by cases hmem
        once := .nil }
  · intro c a c' _ ih _ hnext
    obtain ⟨s, out, hmoves, rfl⟩ := moves_of_next D hnext
    exact ih.step hmoves

/-! ## Every grant is backed

The step lemma of `Traced`. A row vouches for its challenge as the reservation
that wrote it there was backed; a call's own variables change only when it
moves itself. -/

omit [DecidableEq H] in
/-- What the idempotency protocol has reported, this machine has. -/
theorem mem_of_seen {log : List (Event I H R)} {e : Idempotency.Event H R}
    (h : e ∈ log.filterMap Event.seen) : .idem e ∈ log := by
  obtain ⟨e', he', hseen⟩ := List.mem_filterMap.mp h
  cases e' with
  | idem e'' =>
      cases hseen
      exact he'
  | _ => cases hseen

/-- Every row vouches for its challenge. -/
theorem Traced.rowBacked (hI : Traced D c) (hc : (protocol D).Reach c)
    {k : RowIdentity} {row : Row H R} (hrow : c.st.idem.table k = some row) :
    RowBacked D c.log k row := by
  intro ch hch
  obtain ⟨e, he, p, env, grant, hres, hk, hhash, hgrant, -, hcar⟩ :=
    rowGranted_of_reach ((rowView D).reach hc) k row hrow ch hch
  obtain ⟨older, hsub, hok⟩ := hI.told.of_mem (mem_of_seen he)
  obtain ⟨call, -, henv, -, -, hbacked⟩ := hok p env hres
  refine ⟨call, grant, hcar, (hbacked grant hgrant).mono hsub, ?_, ?_⟩
  · rw [← hk, henv]
    rfl
  · rw [← hhash, henv]
    rfl

omit [DecidableEq H] in
/-- Only the moving call's variables change, so only they are looked at. -/
theorem phaseBacked_update {p : Nat} {ph : Phase I H R}
    {phase phase' : Nat → Phase I H R} {log log' : List (Event I H R)}
    (hsub : log ⊆ log') (hold : ∀ q, PhaseBacked D log q (phase q))
    (hphase : ∀ q, phase' q = if q = p then ph else phase q)
    (hnew : PhaseBacked D log' p ph) (q : Nat) :
    PhaseBacked D log' q (phase' q) := by
  rw [hphase]
  split
  · next heq => rw [heq]; exact hnew
  · exact (hold q).mono hsub

theorem Moves.phaseBacked (hc : (protocol D).Reach c) (hI : Traced D c)
    (h : Moves D c.st a s' out) :
    ∀ q, PhaseBacked D (out ++ c.log) q (s'.phase q) := by
  have hsub : c.log ⊆ out ++ c.log := List.subset_append_right _ _
  have hold := hI.phases
  have hat : ∀ {p : Nat} {ph : Phase I H R}, c.st.phase p = ph →
      PhaseBacked D c.log p ph := fun hph => hph ▸ hold _
  cases h with
  | expire => exact fun q => (hold q).mono hsub
  | idem => exact fun q => (hold q).mono hsub
  | arriveRefused | arriveDirect | interpretAnswer | issue | reserveRefused
  | reserveDirect =>
      exact phaseBacked_update hsub hold (fun q => setPhase_phase _ _ q _)
        trivial
  | arriveUngated hph hroute =>
      refine phaseBacked_update hsub hold (fun q => setPhase_phase _ _ q _) ?_
      obtain ⟨henv, hrequired⟩ := reserve_of_route hroute
      exact ⟨rfl, henv ▸ hrequired⟩
  | arriveGated hph hroute =>
      refine phaseBacked_update hsub hold (fun q => setPhase_phase _ _ q _) ?_
      obtain ⟨henv, hrequired, hreserves⟩ := gate_of_route hroute
      exact ⟨henv ▸ hrequired, henv ▸ hreserves⟩
  | probeNone hph | consumeNone hph | present hph =>
      refine phaseBacked_update hsub hold (fun q => setPhase_phase _ _ q _) ?_
      have hgated : Gated _ := hat hph
      exact hgated
  | probeRow hph hrow =>
      refine phaseBacked_update hsub hold (fun q => setPhase_phase _ _ q _) ?_
      exact ⟨hat hph, (hI.rowBacked hc hrow).mono hsub⟩
  | interpretGate hph | checkRejected hph | recheckOther hph =>
      refine phaseBacked_update hsub hold (fun q => setPhase_phase _ _ q _) ?_
      exact (hat hph).1
  | @interpretResume p nowMs call existing grant hph hprobe =>
      refine phaseBacked_update hsub hold (fun q => setPhase_phase _ _ q _) ?_
      obtain ⟨hgated, hrow⟩ := hat hph
      obtain ⟨hcar, hhash⟩ := interpretProbeRow_resume hprobe
      obtain ⟨call₀, grant₀, hcar₀, hbacked, hk, hhash₀⟩ := hrow _ hcar.1
      obtain rfl := hcar₀.unique hcar
      exact ⟨hgated, grant₀, rfl,
        hbacked.congr D (bindings_eq_of_row D hk (hhash₀.trans hhash))⟩
  | @consume p call challengeId hph =>
      refine phaseBacked_update hsub hold (fun q => setPhase_phase _ _ q _) ?_
      refine ⟨hat hph, fun stored hraw => List.mem_append_left _ ?_⟩
      exact List.mem_map.mpr ⟨stored, Option.mem_toList.mpr hraw, rfl⟩
  | @checkPlain p nowMs call challengeId raw stored hph haccepted hcard =>
      refine phaseBacked_update hsub hold (fun q => setPhase_phase _ _ q _) ?_
      obtain ⟨hgated, htaken⟩ := hat hph
      obtain ⟨rfl, hlive, hbound⟩ := challengeAccepted_eq_some D haccepted
      have hmem := hsub (htaken stored rfl)
      refine ⟨hgated, stored, nowMs, rfl, hmem, p, stored, nowMs, hmem, rfl,
        hlive, hbound, ?_⟩
      intro hash hhash
      rw [hcard] at hhash
      cases hhash
  | checkCard hph haccepted =>
      refine phaseBacked_update hsub hold (fun q => setPhase_phase _ _ q _) ?_
      obtain ⟨hgated, htaken⟩ := hat hph
      obtain ⟨rfl, hlive, hbound⟩ := challengeAccepted_eq_some D haccepted
      exact ⟨hgated, hsub (htaken _ rfl), hlive, hbound⟩
  | @recheckSame p card call stored nowMs hph hcard =>
      refine phaseBacked_update hsub hold (fun q => setPhase_phase _ _ q _) ?_
      obtain ⟨hgated, htaken, hlive, hbound⟩ := hat hph
      refine ⟨hgated, stored, nowMs, rfl, hsub htaken, p, stored, nowMs,
        hsub htaken, rfl, hlive, hbound, ?_⟩
      intro hash hhash
      exact ⟨call, card, List.mem_cons_self, hcard.trans hhash⟩
  | reserve hph hruns =>
      refine phaseBacked_update hsub hold (fun q => setPhase_phase _ _ q _) ?_
      exact ⟨HasGrant.mono hsub (hat hph), hruns⟩

/-- A call in the idempotency protocol is a call that has reserved here. -/
theorem Moves.asking_traced (hI : Traced D c) (h : Moves D c.st a s' out) :
    ∀ p env, (s'.idem.phase p).asking = some env →
      ∃ call grant origin, s'.phase p = .reserving call grant origin ∧
        env = call.reserveEnv D grant ∧
        .admitted p call grant ∈ out ++ c.log := by
  have hsub : c.log ⊆ out ++ c.log := List.subset_append_right _ _
  intro p env hask
  -- A call that moves in the gate has not reserved yet.
  have hother : ∀ {q : Nat} {ph : Phase I H R},
      (∀ call grant origin, c.st.phase q ≠ .reserving call grant origin) →
      (c.st.idem.phase p).asking = some env →
      ∃ call grant origin, (if p = q then ph else c.st.phase p) =
          .reserving call grant origin ∧
        env = call.reserveEnv D grant ∧
        .admitted p call grant ∈ out ++ c.log := by
    intro q ph hnot hold
    obtain ⟨call, grant, origin, hp, henv, hmem⟩ := hI.asking p env hold
    refine ⟨call, grant, origin, ?_, henv, hsub hmem⟩
    rw [if_neg]
    · exact hp
    · rintro rfl
      exact hnot _ _ _ hp
  have hkept : (c.st.idem.phase p).asking = some env →
      ∃ call grant origin, c.st.phase p = .reserving call grant origin ∧
        env = call.reserveEnv D grant ∧
        .admitted p call grant ∈ out ++ c.log := by
    intro hold
    obtain ⟨call, grant, origin, hp, henv, hmem⟩ := hI.asking p env hold
    exact ⟨call, grant, origin, hp, henv, hsub hmem⟩
  cases h with
  | expire => exact hkept hask
  | idem hstep hcall =>
      rcases (Idempotency.moves_of_step hstep).asking_of hask with hold | heq
      · exact hkept hold
      · exact absurd heq (hcall _ _)
  | @reserve q call grant origin hph hruns hidle =>
      simp only [setPhase_idem, setIdem_idem, Idempotency.setPhase_phase]
        at hask
      simp only [setPhase_phase, setIdem_phase]
      split at hask
      · next heq =>
          obtain rfl := Option.some.inj hask
          rw [if_pos heq, heq]
          exact ⟨call, grant, origin, rfl, rfl, List.mem_cons_self⟩
      · exact hother (by rw [hph]; rintro _ _ _ ⟨⟩) hask
  | arriveRefused hph | arriveDirect hph | arriveUngated hph
  | arriveGated hph | probeNone hph | probeRow hph | interpretGate hph
  | interpretResume hph | interpretAnswer hph | consumeNone hph | consume hph
  | checkRejected hph | checkPlain hph | checkCard hph | recheckSame hph
  | recheckOther hph | present hph | issue hph | reserveRefused hph
  | reserveDirect hph =>
      simp only [setPhase_phase]
      exact hother (by rw [hph]; rintro _ _ _ ⟨⟩) hask

/-- What a step reports of a handler run is right. -/
theorem Moves.runsBacked (hI : Traced D c) (h : Moves D c.st a s' out) :
    ∀ e ∈ out, RunsBacked D c.log e := by
  intro e he
  cases h with
  | arriveDirect hph hroute =>
      obtain rfl := List.mem_singleton.mp he
      exact direct_of_route hroute
  | @reserveDirect p call grant origin hph hdirect =>
      obtain rfl := List.mem_singleton.mp he
      have hphase := hI.phases p
      rw [hph] at hphase
      exact HasGrant.ungated_of_direct D hphase hdirect
  | idem hstep =>
      obtain ⟨e', he', rfl⟩ := List.mem_map.mp he
      intro p env hres
      have hask := ((Idempotency.moves_of_step hstep).reservation_of_mem he'
        hres).1
      obtain ⟨call, grant, origin, hph, rfl, hmem⟩ := hI.asking p env hask
      have hphase := hI.phases p
      rw [hph] at hphase
      exact ⟨call, hmem, rfl, hphase.2, hphase.1.isSome, hphase.1.backed⟩
  | consume =>
      obtain ⟨stored, -, rfl⟩ := List.mem_map.mp he
      trivial
  | arriveRefused | probeRow | interpretAnswer | checkPlain | recheckSame
  | issue | reserveRefused | reserve =>
      obtain rfl := List.mem_singleton.mp he
      trivial
  | _ => cases he

theorem traced_of_reach (h : (protocol D).Reach c) : Traced D c := by
  refine h.invariant (I := Traced D) ?_ ?_
  · exact
      { asking := fun _ _ hask => by cases hask
        phases := fun _ => trivial
        told := .nil }
  · intro c a c' hc ih _ hnext
    obtain ⟨s, out, hmoves, rfl⟩ := moves_of_next D hnext
    exact
      { asking := hmoves.asking_traced ih
        phases := hmoves.phaseBacked hc ih
        told := ih.told.append hmoves.out_length_le (hmoves.runsBacked ih) }

end Steps

end Shozee.Confirmation
