import Shozee.Confirmation.Provenance

/-!
# One execution a challenge

A challenge comes to calls in two ways. The call that consumed it holds it
alone until it reserves (`Held`). From then on it is on the row, and every
call that finds it there may resume it, all of them on one row
(`Backed.identity_eq`).

What keeps those calls from executing twice is the row, which is completed
once in a retention period. A grant that has been resumed outlives the period,
though: it is in the call's hands, and `reserve` writes it to whatever row it
then inserts or resets. `spentAt` is the period a challenge was spent in, and
`openedSinceProbe` says that a call is holding on to a grant from an earlier
one. The runs in which nobody reserves under such a grant once it is spent are
those of `InPeriod`; the last section has a run that is not.
-/

namespace Shozee.Confirmation

open Shozee.Run Shozee.Idempotency

variable {I H R : Type}

/-- What the idempotency protocol has reported. -/
def seenLog (log : List (Event I H R)) : List (Idempotency.Event H R) :=
  log.filterMap Event.seen

/-- A reservation under the challenge has been made. -/
def Reserved (ch : ChallengeId) (log : List (Idempotency.Event H R)) : Prop :=
  ∃ e ∈ log, ∃ p env, e.reservation = some (p, env) ∧
    env.challengeId = some ch

/-- The row and the period in which an execution under the challenge was
committed. -/
def spentAt (ch : ChallengeId) :
    List (Idempotency.Event H R) → Option (RowIdentity × Nat)
  | [] => none
  | .committed _ env _ _ _ :: older =>
      if env.challengeId = some ch then
        some (env.identity, openings env.identity older)
      else spentAt ch older
  | _ :: older => spentAt ch older

/-- A commit is the first under its challenge. -/
def SpendsOnce (older : List (Idempotency.Event H R)) :
    Idempotency.Event H R → Prop
  | .committed _ env _ _ _ => ∀ ch, env.challengeId = some ch →
      ∀ q env' r output row, .committed q env' r output row ∈ older →
        env'.challengeId ≠ some ch
  | _ => True

/-- A period of the key has begun since the call looked it up. -/
def openedSinceProbe (p : Nat) (k : RowIdentity) :
    List (Event I H R) → Bool
  | [] => false
  | .probed q _ :: older =>
      if q = p then false else openedSinceProbe p k older
  | .idem e :: older =>
      if e.opens k then true else openedSinceProbe p k older
  | _ :: older => openedSinceProbe p k older

/-- The challenge that the call has consumed and not yet reserved under. -/
def Phase.holds (idem : Idempotency.Phase H R) :
    Phase I H R → Option ChallengeId
  | .consumed _ _ (some stored) => some stored.challengeId
  | .rechecking _ stored _ => some stored.challengeId
  | .granted _ (some grant) .consumed => some grant.challengeId
  | .reserving _ (some grant) .consumed =>
      if idem.asking.isSome then some grant.challengeId else none
  | _ => none

/-- The challenge that a call has confirmed and not yet spent. -/
def State.holds (s : State I H R) (p : Nat) : Option ChallengeId :=
  (s.phase p).holds (s.idem.phase p)

/-- The challenge that the call has found on its row, with the row. -/
def Phase.resumes : Phase I H R → Option (RowIdentity × ChallengeId)
  | .probed call existing =>
      existing.confirmationChallengeId.map fun ch => (call.identity, ch)
  | .granted call (some grant) .resumed =>
      some (call.identity, grant.challengeId)
  | .reserving call (some grant) .resumed =>
      some (call.identity, grant.challengeId)
  | _ => none

/-- The takeover that the call is about to make. -/
def takeoverOptions : Idempotency.Phase H R → Option (TakeoverOptions H)
  | .takingOver _ options _ => some options
  | _ => none

/-- Under a resumed grant that is already spent, the call does not reserve in
a later retention period than the one it found the grant in. -/
def InPeriod (c : Conf (State I H R) (Event I H R)) : Act I H R → Prop
  | .idem (.insert p) =>
      ∀ found ∈ (c.st.phase p).resumes,
        (spentAt found.2 (seenLog c.log)).isSome = true →
          (c.st.idem.table found.1).isSome = true
  | .idem (.takeOver p) =>
      ∀ found ∈ (c.st.phase p).resumes,
        (spentAt found.2 (seenLog c.log)).isSome = true →
          ∀ options ∈ takeoverOptions (c.st.idem.phase p),
            ∀ row ∈ c.st.idem.table found.1, TakeoverWins options row →
              options.reset.isSome = false ∧
                openedSinceProbe p found.1 c.log = false
  | _ => True

instance (c : Conf (State I H R) (Event I H R)) :
    ∀ a : Act I H R, Decidable (InPeriod c a)
  | .idem (.insert p) =>
      inferInstanceAs (Decidable (∀ found ∈ (c.st.phase p).resumes, _ → _))
  | .idem (.takeOver p) =>
      inferInstanceAs (Decidable (∀ found ∈ (c.st.phase p).resumes,
        _ → ∀ options ∈ takeoverOptions (c.st.idem.phase p),
          ∀ row ∈ c.st.idem.table found.1, _ → _ ∧ _))
  | .idem (.tick _) | .idem (.call _ _) | .idem (.stampInsert _ _ _)
  | .idem (.select _) | .idem (.decide _ _ _) | .idem (.reload _)
  | .idem (.resolve _ _) | .idem (.finalize _ _) | .idem (.commit _)
  | .idem (.rollback _) | .idem (.markFailed _) | .idem (.cleanup _ _)
  | .arrive _ _ | .probe _ | .interpret _ _ | .consume _ | .check _ _
  | .recheck _ _ | .present _ _ | .issue _ _ _ | .reserve _ | .expire _ =>
      .isTrue trivial

/-- A challenge that a call holds is reserved by no other. -/
structure Held (c : Conf (State I H R) (Event I H R)) : Prop where
  resumed : ∀ p k ch, (c.st.phase p).resumes = some (k, ch) →
    Reserved ch (seenLog c.log)
  alone : ∀ p ch, c.st.holds p = some ch → ¬ Reserved ch (seenLog c.log)

/-! ## Scanning the history

The newest event under a challenge decides what has become of it. Events that
do not concern it are passed over. -/

section Scan

variable {ch : ChallengeId} {log out : List (Idempotency.Event H R)}

theorem Reserved.append (h : Reserved ch log) : Reserved ch (out ++ log) := by
  obtain ⟨e, he, hrest⟩ := h
  exact ⟨e, List.mem_append_right out he, hrest⟩

/-- A spent challenge is spent in a period that has its commit. -/
theorem doneSince_of_spentAt {k : RowIdentity} {n : Nat}
    (h : spentAt ch log = some (k, n)) : ∃ newer older,
      log = newer ++ older ∧ openings k older = n ∧
        doneSince k older = true := by
  induction log with
  | nil => cases h
  | cons e older ih =>
      have hrest : spentAt ch older = some (k, n) → ∃ newer older',
          e :: older = newer ++ older' ∧ openings k older' = n ∧
            doneSince k older' = true := by
        intro hspent
        obtain ⟨newer, older', rfl, hn, hdone⟩ := ih hspent
        exact ⟨e :: newer, older', rfl, hn, hdone⟩
      cases e with
      | committed p env r output row =>
          rw [spentAt] at h
          split at h
          · cases h
            refine ⟨[], _, rfl, ?_, ?_⟩
            · exact openings_cons
            · exact doneSince_of_commits (decide_eq_true rfl)
          · exact hrest h
      | inserted | read | tookOver | answered | cleaned => exact hrest h

theorem not_committed_of_spentAt (h : spentAt ch log = none) :
    ∀ q env r output row, .committed q env r output row ∈ log →
      env.challengeId ≠ some ch := by
  induction log with
  | nil => exact fun _ _ _ _ _ hmem => by cases hmem
  | cons e older ih =>
      intro q env r output row hmem
      cases e with
      | committed p env' r' output' row' =>
          rw [spentAt] at h
          split at h
          · cases h
          · next hne =>
              rcases List.mem_cons.mp hmem with heq | hold
              · cases heq
                exact hne
              · exact ih h q env r output row hold
      | inserted | read | tookOver | answered | cleaned =>
          rcases List.mem_cons.mp hmem with heq | hold
          · cases heq
          · exact ih h q env r output row hold

theorem seenLog_append (out log : List (Event I H R)) :
    seenLog (out ++ log) = seenLog out ++ seenLog log :=
  List.filterMap_append

theorem seenLog_idem (out : List (Idempotency.Event H R)) :
    seenLog (out.map (Event.idem (I := I))) = out :=
  filterMap_seen out

end Scan

variable {D : Digest I H} [DecidableEq H]
  {c : Conf (State I H R) (Event I H R)} {s' : State I H R} {a : Act I H R}
  {out : List (Event I H R)}

/-! ## Who holds a challenge

From its consumption to its reservation a challenge is in the hands of one
call. The step lemma goes by the parts of `Moves`: the gate hands challenges
out, `reserve` takes them back, and nothing else touches them. -/

omit [DecidableEq H] in
/-- What a call holds, it has consumed. -/
theorem Traced.consumed_of_holds (hI : Traced D c) {p : Nat}
    {ch : ChallengeId} (h : c.st.holds p = some ch) :
    ∃ stored, .consumed p stored ∈ c.log ∧ stored.challengeId = ch := by
  have hphase := hI.phases p
  unfold State.holds Phase.holds at h
  split at h
  · next hph =>
      rw [hph] at hphase
      exact ⟨_, hphase.2 _ rfl, Option.some.inj h⟩
  · next hph =>
      rw [hph] at hphase
      exact ⟨_, hphase.2.1, Option.some.inj h⟩
  · next hph =>
      rw [hph] at hphase
      obtain ⟨-, stored, nowMs, hgrant, htaken, -⟩ := hphase
      cases hgrant
      exact ⟨stored, htaken, Option.some.inj h⟩
  · next hph =>
      rw [hph] at hphase
      obtain ⟨⟨-, stored, nowMs, hgrant, htaken, -⟩, -⟩ := hphase
      cases hgrant
      split at h
      · exact ⟨stored, htaken, Option.some.inj h⟩
      · cases h
  · cases h

omit [DecidableEq H] in
/-- A reservation was asked for under a grant that its call holds, or has
found. -/
theorem Traced.origin_of_asking (hI : Traced D c) {p : Nat}
    {env : ReserveEnv H} {ch : ChallengeId}
    (hask : (c.st.idem.phase p).asking = some env)
    (hch : env.challengeId = some ch) :
    c.st.holds p = some ch ∨ ∃ call grant,
      c.st.phase p = .reserving call (some grant) .resumed ∧
        grant.challengeId = ch ∧ call.identity = env.identity := by
  obtain ⟨call, grant, origin, hph, rfl, -⟩ := hI.asking p env hask
  obtain ⟨g, hg, hid⟩ := Option.map_eq_some_iff.mp hch
  obtain rfl : grant = some g := hg
  cases origin with
  | ungated =>
      have hphase := hI.phases p
      rw [hph] at hphase
      cases hphase.1.1
  | consumed =>
      refine Or.inl ?_
      simp only [State.holds, Phase.holds, hph, hask, Option.isSome_some,
        if_true]
      rw [hid]
  | resumed => exact Or.inr ⟨call, g, hph, hid, rfl⟩

omit [DecidableEq H] in
/-- A challenge that has been reserved under was consumed. -/
theorem Traced.consumed_of_reserved (hI : Traced D c) {ch : ChallengeId}
    (h : Reserved ch (seenLog c.log)) :
    ∃ p stored, .consumed p stored ∈ c.log ∧ stored.challengeId = ch := by
  obtain ⟨e, he, p, env, hres, hch⟩ := h
  obtain ⟨older, hsub, hok⟩ := hI.told.of_mem (mem_of_seen he)
  obtain ⟨call, -, -, -, -, hbacked⟩ := hok p env hres
  obtain ⟨grant, hgrant, hid⟩ := Option.map_eq_some_iff.mp hch
  obtain ⟨q, stored, nowMs, htaken, rfl, -⟩ := hbacked grant hgrant
  exact ⟨q, stored, hsub htaken, hid⟩

omit [DecidableEq H] in
/-- A call holds no more when it asks no more. -/
theorem Phase.holds_mono {ph : Phase I H R}
    {idem idem' : Idempotency.Phase H R} {ch : ChallengeId}
    (hask : idem'.asking.isSome = true → idem.asking.isSome = true)
    (h : ph.holds idem' = some ch) : ph.holds idem = some ch := by
  unfold Phase.holds at h ⊢
  split at h
  · exact h
  · exact h
  · exact h
  · split at h
    · next hasks => 
        simp only [hask hasks, if_true]
        exact h
    · cases h
  · cases h

omit [DecidableEq H] in
/-- `reserve` changes nothing in what a call holds or has found. -/
theorem Phase.resumes_reserving {call : KeyedCall I}
    {grant : Option ConfirmationGrant} {origin : Origin} :
    (Phase.reserving call grant origin : Phase I H R).resumes =
      (Phase.granted call grant origin : Phase I H R).resumes := by
  cases grant <;> cases origin <;> rfl

omit [DecidableEq H] in
theorem Phase.holds_of_reserving {call : KeyedCall I}
    {grant : Option ConfirmationGrant} {origin : Origin}
    {idem idem' : Idempotency.Phase H R} {ch : ChallengeId}
    (h : (Phase.reserving call grant origin : Phase I H R).holds idem' =
      some ch) :
    (Phase.granted call grant origin : Phase I H R).holds idem = some ch := by
  unfold Phase.holds at h
  split at h
  · next heq => cases heq
  · next heq => cases heq
  · next heq => cases heq
  · next heq =>
      cases heq
      split at h
      · exact h
      · cases h
  · cases h

omit [DecidableEq H] in
/-- A call that has reserved under its grant holds it no more. -/
theorem Phase.not_holds_of_reserved {call : KeyedCall I}
    {grant : Option ConfirmationGrant} {origin : Origin}
    {idem : Idempotency.Phase H R} (hasked : idem.asking = none) :
    (Phase.reserving call grant origin : Phase I H R).holds idem = none := by
  unfold Phase.holds
  split
  · next heq => cases heq
  · next heq => cases heq
  · next heq => cases heq
  · rw [hasked]
    rfl
  · rfl

omit [DecidableEq H] in
/-- The gate reports nothing of the rows. -/
theorem Held.gate (hI : Held c) {p : Nat} {ph : Phase I H R}
    (hphase : ∀ q, s'.phase q = if q = p then ph else c.st.phase q)
    (hidem : ∀ q, q ≠ p → s'.idem.phase q = c.st.idem.phase q)
    (hseen : seenLog out = [])
    (hresumes : ∀ k ch, ph.resumes = some (k, ch) →
      Reserved ch (seenLog c.log))
    (hholds : ∀ ch, ph.holds (s'.idem.phase p) = some ch →
      ¬ Reserved ch (seenLog c.log)) : Held ⟨s', out ++ c.log⟩ := by
  have hlog : seenLog (out ++ c.log) = seenLog c.log := by
    rw [seenLog_append, hseen, List.nil_append]
  constructor
  · intro q k ch hq
    show Reserved ch (seenLog (out ++ c.log))
    rw [hlog]
    have hq : (s'.phase q).resumes = some (k, ch) := hq
    rw [hphase] at hq
    split at hq
    · exact hresumes k ch hq
    · exact hI.resumed q k ch hq
  · intro q ch hq
    show ¬ Reserved ch (seenLog (out ++ c.log))
    rw [hlog]
    have hq : (s'.phase q).holds (s'.idem.phase q) = some ch := hq
    rw [hphase] at hq
    split at hq
    · next heq => exact hholds ch (heq ▸ hq)
    · next hne =>
        rw [hidem q hne] at hq
        exact hI.alone q ch hq

/-- A reservation takes its challenge out of its holder's hands. -/
theorem Held.reserve (hI : Held c) (hT : Traced D c) (hS : Stocked c)
    {b : Idempotency.Act H R} {idem : Idempotency.State H R}
    {rowsOut : List (Idempotency.Event H R)}
    (hmoves : Idempotency.Moves c.st.idem b idem rowsOut)
    (hcall : ∀ p env, b ≠ .call p env) :
    Held ⟨c.st.setIdem idem, rowsOut.map .idem ++ c.log⟩ := by
  have hlog : seenLog (rowsOut.map (Event.idem (I := I)) ++ c.log) =
      rowsOut ++ seenLog c.log := by
    rw [seenLog_append, seenLog_idem]
  constructor
  · intro p k ch hp
    show Reserved ch (seenLog (rowsOut.map Event.idem ++ c.log))
    rw [hlog]
    exact (hI.resumed p k ch hp).append
  · intro p ch hp
    show ¬ Reserved ch (seenLog (rowsOut.map Event.idem ++ c.log))
    rw [hlog]
    have hp : (c.st.phase p).holds (idem.phase p) = some ch := hp
    -- Nobody takes to asking in here, so the holder held it before.
    have hbefore : c.st.holds p = some ch := by
      refine Phase.holds_mono (fun hasks => ?_) hp
      obtain ⟨env, henv⟩ := Option.isSome_iff_exists.mp hasks
      rcases hmoves.asking_of henv with hold | heq
      · exact Option.isSome_of_mem hold
      · exact absurd heq (hcall _ _)
    rintro ⟨e, he, q, env, hres, hch⟩
    rcases List.mem_append.mp he with hnew | hold
    · obtain ⟨hask, hasked⟩ := hmoves.reservation_of_mem hnew hres
      rcases hT.origin_of_asking hask hch with hq | ⟨call, grant, hph, hid, -⟩
      · obtain ⟨stored, htaken, hs⟩ := hT.consumed_of_holds hq
        obtain ⟨stored', htaken', hs'⟩ := hT.consumed_of_holds hbefore
        obtain ⟨rfl, -⟩ := consumed_unique hS.once htaken htaken'
          (hs.trans hs'.symm)
        obtain ⟨call, grant, origin, hph, -, -⟩ := hT.asking q env hask
        rw [hph, Phase.not_holds_of_reserved hasked] at hp
        cases hp
      · refine hI.alone p ch hbefore (hI.resumed q call.identity ch ?_)
        rw [hph, ← hid]
        rfl
    · exact hI.alone p ch hbefore ⟨e, hold, q, env, hres, hch⟩

theorem Held.step (hI : Held c) (hc : (protocol D).Reach c)
    (h : Moves D c.st a s' out) : Held ⟨s', out ++ c.log⟩ := by
  have hT := traced_of_reach hc
  have hS := stocked_of_reach hc
  have hholds : ∀ {p : Nat} {ph : Phase I H R}, c.st.phase p = ph →
      ∀ ch, ph.holds (c.st.idem.phase p) = some ch →
        ¬ Reserved ch (seenLog c.log) :=
    fun hph ch hch => hI.alone _ ch (hph ▸ hch)
  have hresumes : ∀ {p : Nat} {ph : Phase I H R}, c.st.phase p = ph →
      ∀ k ch, ph.resumes = some (k, ch) → Reserved ch (seenLog c.log) :=
    fun hph k ch hch => hI.resumed _ k ch (hph ▸ hch)
  cases h with
  | expire => exact ⟨hI.resumed, hI.alone⟩
  | idem hstep hcall =>
      exact hI.reserve hT hS (Idempotency.moves_of_step hstep) hcall
  | @probeRow p call row hph hrow =>
      refine hI.gate (fun q => setPhase_phase _ _ q _) (fun _ _ => rfl) rfl ?_
        (fun ch hch => by cases hch)
      intro k ch hk
      obtain ⟨ch', hch, heq⟩ := Option.map_eq_some_iff.mp hk
      cases heq
      obtain ⟨e, he, q, env, grant, hres, -, -, hgrant, hid, -⟩ :=
        rowGranted_of_reach ((rowView D).reach hc) _ row hrow ch hch
      refine ⟨e, he, q, env, hres, ?_⟩
      rw [ReserveEnv.challengeId, hgrant, ← hid]
      rfl
  | @interpretResume p nowMs call existing grant hph hprobe =>
      refine hI.gate (fun q => setPhase_phase _ _ q _) (fun _ _ => rfl) rfl ?_
        (fun ch hch => by cases hch)
      intro k ch hk
      refine hresumes hph k ch ?_
      cases hk
      rw [Phase.resumes, (interpretProbeRow_resume hprobe).1.1]
      rfl
  | @consume p call challengeId hph =>
      refine hI.gate (fun q => setPhase_phase _ _ q _) (fun _ _ => rfl)
        (filterMap_seen_consumed _) (fun k ch hk => by cases hk) ?_
      intro ch hch hreserved
      obtain ⟨q, stored', htaken, hid⟩ := hT.consumed_of_reserved hreserved
      cases hstore : c.st.challenges challengeId with
      | none => 
          rw [hstore] at hch
          cases hch
      | some stored =>
          rw [hstore] at hch
          obtain rfl := Option.some.inj hch
          exact hS.untaken challengeId stored hstore q stored' htaken
            (hid.trans (hS.held challengeId stored hstore).1)
  | @checkPlain p nowMs call challengeId raw stored hph haccepted =>
      refine hI.gate (fun q => setPhase_phase _ _ q _) (fun _ _ => rfl) rfl
        (fun k ch hk => by cases hk) ?_
      intro ch hch
      obtain ⟨rfl, -, -⟩ := challengeAccepted_eq_some D haccepted
      exact hholds hph ch hch
  | @checkCard p nowMs call challengeId raw stored hph haccepted =>
      refine hI.gate (fun q => setPhase_phase _ _ q _) (fun _ _ => rfl) rfl
        (fun k ch hk => by cases hk) ?_
      intro ch hch
      obtain ⟨rfl, -, -⟩ := challengeAccepted_eq_some D haccepted
      exact hholds hph ch hch
  | recheckSame hph =>
      refine hI.gate (fun q => setPhase_phase _ _ q _) (fun _ _ => rfl) rfl
        (fun k ch hk => by cases hk) ?_
      intro ch hch
      exact hholds hph ch hch
  | @reserve p call grant origin hph =>
      refine hI.gate (fun q => setPhase_phase _ _ q _) ?_ rfl ?_ ?_
      · intro q hne
        simp only [setPhase_idem, setIdem_idem, Idempotency.setPhase_phase]
        exact if_neg hne
      · intro k ch hk
        exact hresumes hph k ch (Phase.resumes_reserving ▸ hk)
      · intro ch hch
        exact hholds hph ch (Phase.holds_of_reserving hch)
  | _ =>
      exact hI.gate (fun q => setPhase_phase _ _ q _) (fun _ _ => rfl) rfl
        (fun k ch hk => by cases hk) (fun ch hch => by cases hch)

theorem held_of_reach (h : (protocol D).Reach c) : Held c := by
  refine h.invariant (I := Held) ?_ ?_
  · exact
      { resumed := fun _ _ _ hp => by cases hp
        alone := fun _ _ hp => by cases hp }
  · intro c a c' hc ih _ hnext
    obtain ⟨s, out, hmoves, rfl⟩ := moves_of_next D hnext
    exact ih.step hc hmoves

/-! ## Where a spent challenge can still turn up

On the row that was completed under it, and with calls that have read that row.
`Spent` says that all of these are still in the period of the commit, so that
the completed row keeps them from executing. -/

/-- Rows and calls that carry a spent challenge are in the period it was spent
in, or the calls have missed the beginning of another. -/
structure Spent (c : Conf (State I H R) (Event I H R)) : Prop where
  reserved : ∀ ch k n, spentAt ch (seenLog c.log) = some (k, n) →
    Reserved ch (seenLog c.log)
  rows : ∀ ch k n, spentAt ch (seenLog c.log) = some (k, n) →
    ∀ k' row, c.st.idem.table k' = some row →
      row.confirmationChallengeId = some ch →
        k' = k ∧ openings k (seenLog c.log) = n
  calls : ∀ ch k n, spentAt ch (seenLog c.log) = some (k, n) →
    ∀ p k', (c.st.phase p).resumes = some (k', ch) →
      k' = k ∧ (openedSinceProbe p k c.log = false →
        openings k (seenLog c.log) = n)

omit [DecidableEq H] in
theorem Spent.gate (hI : Spent c) {p : Nat} {ph : Phase I H R}
    (hphase : ∀ q, s'.phase q = if q = p then ph else c.st.phase q)
    (htable : s'.idem.table = c.st.idem.table) (hseen : seenLog out = [])
    (hprobe : ∀ q k, q ≠ p →
      openedSinceProbe q k (out ++ c.log) = openedSinceProbe q k c.log)
    (hcall : ∀ ch k n, spentAt ch (seenLog c.log) = some (k, n) →
      ∀ k', ph.resumes = some (k', ch) →
        k' = k ∧ (openedSinceProbe p k (out ++ c.log) = false →
          openings k (seenLog c.log) = n)) : Spent ⟨s', out ++ c.log⟩ := by
  have hlog : seenLog (out ++ c.log) = seenLog c.log := by
    rw [seenLog_append, hseen, List.nil_append]
  refine { reserved := ?_, rows := ?_, calls := ?_ }
  · intro ch k n hspent
    rw [hlog] at hspent
    show Reserved ch (seenLog (out ++ c.log))
    rw [hlog]
    exact hI.reserved ch k n hspent
  · intro ch k n hspent k' row hrow hch
    rw [hlog] at hspent
    have hrow : s'.idem.table k' = some row := hrow
    rw [htable] at hrow
    show k' = k ∧ openings k (seenLog (out ++ c.log)) = n
    rw [hlog]
    exact hI.rows ch k n hspent k' row hrow hch
  · intro ch k n hspent q k' hq
    rw [hlog] at hspent
    have hq : (s'.phase q).resumes = some (k', ch) := hq
    rw [hphase] at hq
    show k' = k ∧ (openedSinceProbe q k (out ++ c.log) = false →
      openings k (seenLog (out ++ c.log)) = n)
    rw [hlog]
    split at hq
    · next heq => exact heq ▸ hcall ch k n hspent k' hq
    · next hne =>
        rw [hprobe q k hne]
        exact hI.calls ch k n hspent q k' hq

section Rows

variable {b : Idempotency.Act H R} {idem : Idempotency.State H R}
  {rowsOut : List (Idempotency.Event H R)}

omit [DecidableEq H] in
theorem seenLog_rows :
    seenLog (rowsOut.map (Event.idem (I := I)) ++ c.log) =
      rowsOut ++ seenLog c.log := by
  rw [seenLog_append, seenLog_idem]

omit [DecidableEq H] in
/-- A step that neither opens a period nor commits. -/
theorem Spent.quiet (hI : Spent c)
    (hspent : ∀ ch, spentAt ch (rowsOut ++ seenLog c.log) =
      spentAt ch (seenLog c.log))
    (hopen : ∀ k, openings k (rowsOut ++ seenLog c.log) =
      openings k (seenLog c.log))
    (hprobe : ∀ q k, openedSinceProbe q k (rowsOut.map .idem ++ c.log) =
      openedSinceProbe q k c.log)
    (hrows : ∀ ch k n, spentAt ch (seenLog c.log) = some (k, n) →
      ∀ k' row, idem.table k' = some row →
        row.confirmationChallengeId = some ch →
          k' = k ∧ openings k (seenLog c.log) = n) :
    Spent ⟨c.st.setIdem idem, rowsOut.map .idem ++ c.log⟩ := by
  refine { reserved := ?_, rows := ?_, calls := ?_ }
  · intro ch k n hs
    show Reserved ch (seenLog (rowsOut.map Event.idem ++ c.log))
    rw [seenLog_rows, hspent] at hs
    rw [seenLog_rows]
    exact (hI.reserved ch k n hs).append
  · intro ch k n hs k' row hrow hch
    show k' = k ∧ openings k (seenLog (rowsOut.map Event.idem ++ c.log)) = n
    rw [seenLog_rows, hspent] at hs
    rw [seenLog_rows, hopen]
    exact hrows ch k n hs k' row hrow hch
  · intro ch k n hs q k' hq
    show k' = k ∧ (openedSinceProbe q k (rowsOut.map Event.idem ++ c.log) =
      false → openings k (seenLog (rowsOut.map Event.idem ++ c.log)) = n)
    rw [seenLog_rows, hspent] at hs
    rw [seenLog_rows, hopen, hprobe]
    exact hI.calls ch k n hs q k' hq

omit [DecidableEq H] in
/-- A step that opens a period of `k` under a challenge that is not spent. -/
theorem Spent.opening (hI : Spent c) {e : Idempotency.Event H R}
    {k : RowIdentity} {new : Row H R}
    (hspent : ∀ ch, spentAt ch (e :: seenLog c.log) =
      spentAt ch (seenLog c.log))
    (hopens : ∀ j, e.opens j = decide (k = j))
    (htable : ∀ j, idem.table j =
      if j = k then some new else c.st.idem.table j)
    (hnew : ∀ ch, new.confirmationChallengeId = some ch →
      spentAt ch (seenLog c.log) = none) :
    Spent ⟨c.st.setIdem idem, .idem e :: c.log⟩ := by
  have hlog : seenLog (.idem e :: c.log) = e :: seenLog c.log := by
    show seenLog ([e].map Event.idem ++ c.log) = _
    exact seenLog_rows
  have hother : ∀ {j : RowIdentity}, j ≠ k →
      openings j (e :: seenLog c.log) = openings j (seenLog c.log) := by
    intro j hne
    rw [openings_cons, hopens, decide_eq_false (Ne.symm hne)]
    rfl
  refine { reserved := ?_, rows := ?_, calls := ?_ }
  · intro ch j n hs
    show Reserved ch (seenLog (.idem e :: c.log))
    rw [hlog, hspent] at hs
    rw [hlog]
    show Reserved ch ([e] ++ seenLog c.log)
    exact (hI.reserved ch j n hs).append
  · intro ch j n hs k' row hrow hch
    show k' = j ∧ openings j (seenLog (.idem e :: c.log)) = n
    rw [hlog, hspent] at hs
    rw [hlog]
    have hrow : idem.table k' = some row := hrow
    rw [htable] at hrow
    split at hrow
    · cases hrow
      rw [hnew ch hch] at hs
      cases hs
    · next hne =>
        obtain ⟨rfl, hn⟩ := hI.rows ch j n hs k' row hrow hch
        exact ⟨rfl, (hother hne).trans hn⟩
  · intro ch j n hs q k' hq
    show k' = j ∧ (openedSinceProbe q j (.idem e :: c.log) = false →
      openings j (seenLog (.idem e :: c.log)) = n)
    rw [hlog, hspent] at hs
    rw [hlog]
    obtain ⟨hk, hn⟩ := hI.calls ch j n hs q k' hq
    refine ⟨hk, fun hprobed => ?_⟩
    rw [openedSinceProbe] at hprobed
    split at hprobed
    · cases hprobed
    · next hnot =>
        rw [hopens, decide_eq_true_eq] at hnot
        exact (hother (Ne.symm hnot)).trans (hn hprobed)

end Rows

/-- A reservation under a spent challenge is one that its call resumed. -/
theorem Spent.resumed_of_asking (hI : Spent c) (hc : (protocol D).Reach c)
    {p : Nat} {env : ReserveEnv H} {ch : ChallengeId} {k : RowIdentity}
    {n : Nat} (hask : (c.st.idem.phase p).asking = some env)
    (hch : env.challengeId = some ch)
    (hspent : spentAt ch (seenLog c.log) = some (k, n)) :
    ∃ call grant, c.st.phase p = .reserving call (some grant) .resumed ∧
      grant.challengeId = ch ∧ call.identity = env.identity := by
  rcases (traced_of_reach hc).origin_of_asking hask hch with hholds | hresumed
  · exact absurd (hI.reserved ch k n hspent)
      ((held_of_reach hc).alone p ch hholds)
  · exact hresumed

/-- A row or a call that carries a challenge is backed. -/
theorem identity_of_row (hc : (protocol D).Reach c) {k : RowIdentity}
    {row : Row H R} {ch : ChallengeId}
    (hrow : c.st.idem.table k = some row)
    (hch : row.confirmationChallengeId = some ch) :
    ∃ call grant, Backed D c.log call grant ∧ call.identity = k ∧
      grant.challengeId = ch := by
  obtain ⟨call, grant, hcar, hbacked, hk, -⟩ :=
    (traced_of_reach hc).rowBacked hc hrow ch hch
  rw [hcar.1] at hch
  exact ⟨call, grant, hbacked, hk, Option.some.inj hch⟩

theorem identity_of_resumes (hc : (protocol D).Reach c) {p : Nat}
    {k : RowIdentity} {ch : ChallengeId}
    (h : (c.st.phase p).resumes = some (k, ch)) :
    ∃ call grant, Backed D c.log call grant ∧ call.identity = k ∧
      grant.challengeId = ch := by
  have hphase := (traced_of_reach hc).phases p
  unfold Phase.resumes at h
  split at h
  · next hph =>
      rw [hph] at hphase
      obtain ⟨ch', hch, heq⟩ := Option.map_eq_some_iff.mp h
      cases heq
      obtain ⟨call, grant, hcar, hbacked, hk, -⟩ := hphase.2 ch hch
      rw [hcar.1] at hch
      exact ⟨call, grant, hbacked, hk, Option.some.inj hch⟩
  · next hph =>
      rw [hph] at hphase
      cases h
      obtain ⟨-, g, hg, hbacked⟩ := hphase
      cases hg
      exact ⟨_, _, hbacked, rfl, rfl⟩
  · next hph =>
      rw [hph] at hphase
      cases h
      obtain ⟨⟨-, g, hg, hbacked⟩, -⟩ := hphase
      cases hg
      exact ⟨_, _, hbacked, rfl, rfl⟩
  · cases h

/-- The row that an attempt is about to complete carries the attempt's
challenge. -/
theorem challenge_of_finalized {s : Idempotency.State H R}
    {log : List (Idempotency.Event H R)}
    (hc : Idempotency.protocol.Reach (⟨s, log⟩ : Conf _ _)) {p : Nat}
    {env : ReserveEnv H} {r : IdempotencyReservation} {leaseEnd : Nat}
    {output : R} {row : Row H R} {ch : ChallengeId}
    (hph : s.phase p = .finalized env r leaseEnd output)
    (hrow : s.table env.identity = some row)
    (hch : env.challengeId = some ch) :
    row.confirmationChallengeId = some ch ∧ row.status = .inProgress := by
  have hI := owned_of_reach hc
  obtain ⟨-, row', hrow', howned⟩ := hI.holder _ _ _ _ _ hph
  rw [show s.table env.identity = some row' from hrow'] at hrow
  cases hrow
  have hreserved := hI.phases p
  rw [show (⟨s, log⟩ : Conf _ _).st.phase p = _ from hph] at hreserved
  obtain ⟨grant, hgrant, hid⟩ := Option.map_eq_some_iff.mp hch
  have hcar := rowsCarry_of_reach hc env.identity row p env grant hrow'
    (howned.1 ▸ hreserved.2) hgrant
  rw [hcar.1, hid]
  exact ⟨rfl, howned.2⟩

/-- An attempt that is about to commit is the first under its challenge: the
period the challenge was spent in has its commit. -/
theorem Spent.unspent_of_finalized (hI : Spent c) (hc : (protocol D).Reach c)
    {p : Nat} {env : ReserveEnv H} {r : IdempotencyReservation}
    {leaseEnd : Nat} {output : R} {row : Row H R} {ch : ChallengeId}
    (hph : c.st.idem.phase p = .finalized env r leaseEnd output)
    (hrow : c.st.idem.table env.identity = some row)
    (hch : env.challengeId = some ch) :
    spentAt ch (seenLog c.log) = none := by
  have hview := (rowView D).reach hc
  obtain ⟨hcarried, hrun⟩ := challenge_of_finalized hview hph hrow hch
  cases hspent : spentAt ch (seenLog c.log) with
  | none => rfl
  | some period =>
      obtain ⟨hk, hn⟩ := hI.rows ch period.1 period.2 hspent _ row hrow hcarried
      obtain ⟨newer, older, hlog, hn', hdone⟩ := doneSince_of_spentAt hspent
      have hnow : doneSince period.1 (seenLog c.log) = true := by
        rw [hlog] at hn ⊢
        exact doneSince_append (hn.trans hn'.symm) hdone
      have hcompleted := doneRow_of_reach hview period.1 row hnow (hk ▸ hrow)
      rw [hrun] at hcompleted
      cases hcompleted

/-- A commit spends its challenge in the period it is in. -/
theorem Spent.commit (hI : Spent c) {p : Nat} {env : ReserveEnv H}
    {r : IdempotencyReservation} {leaseEnd : Nat} {output : R}
    {row : Row H R} {idem : Idempotency.State H R}
    (hc : (protocol D).Reach c)
    (hc' : (protocol D).Reach ⟨c.st.setIdem idem,
      .idem (.committed p env r output row) :: c.log⟩)
    (hph : c.st.idem.phase p = .finalized env r leaseEnd output)
    (hrow : c.st.idem.table env.identity = some row)
    (htable : ∀ j, idem.table j = if j = env.identity then
      some (row.completedWith output) else c.st.idem.table j) :
    Spent ⟨c.st.setIdem idem,
      .idem (.committed p env r output row) :: c.log⟩ := by
  have hcarried : ∀ {ch : ChallengeId}, env.challengeId = some ch →
      row.confirmationChallengeId = some ch := fun hch =>
    (challenge_of_finalized ((rowView D).reach hc) hph hrow hch).1
  -- The challenge names one row, and this is it.
  have hkey : ∀ {ch : ChallengeId} {k : RowIdentity} {call : KeyedCall I}
      {grant : ConfirmationGrant}, env.challengeId = some ch →
      Backed D (.idem (.committed p env r output row) :: c.log) call grant →
      call.identity = k → grant.challengeId = ch → k = env.identity := by
    intro ch k call grant hch hbacked hk hid
    obtain ⟨call', grant', hbacked', hk', hid'⟩ :=
      identity_of_row hc' ((htable env.identity).trans (if_pos rfl))
        (hcarried hch)
    rw [← hk, ← hk']
    exact hbacked.identity_eq D (stocked_of_reach hc').once hbacked'
      (hid.trans hid'.symm)
  have hlog : seenLog (.idem (.committed p env r output row) :: c.log) =
      .committed p env r output row :: seenLog c.log := by
    show seenLog ([_].map Event.idem ++ c.log) = _
    exact seenLog_rows
  have hopen : ∀ k, openings k
      (.committed p env r output row :: seenLog c.log) =
        openings k (seenLog c.log) := fun _ => openings_cons
  have hcases : ∀ {ch : ChallengeId} {k : RowIdentity} {n : Nat},
      spentAt ch (.committed p env r output row :: seenLog c.log) =
        some (k, n) →
      (env.challengeId = some ch ∧ k = env.identity ∧
        openings k (seenLog c.log) = n) ∨
        spentAt ch (seenLog c.log) = some (k, n) := by
    intro ch k n hs
    rw [spentAt] at hs
    split at hs
    · next hch =>
        cases hs
        exact Or.inl ⟨hch, rfl, rfl⟩
    · exact Or.inr hs
  refine { reserved := ?_, rows := ?_, calls := ?_ }
  · intro ch k n hs
    show Reserved ch
      (seenLog (.idem (.committed p env r output row) :: c.log))
    rw [hlog] at hs ⊢
    show Reserved ch ([_] ++ seenLog c.log)
    refine Reserved.append ?_
    rcases hcases hs with ⟨hch, -, -⟩ | hold
    · obtain ⟨e, he, q, env', grant, hres, -, -, hgrant, hid, -⟩ :=
        rowGranted_of_reach ((rowView D).reach hc) _ row hrow ch
          (hcarried hch)
      refine ⟨e, he, q, env', hres, ?_⟩
      rw [ReserveEnv.challengeId, hgrant, ← hid]
      rfl
    · exact hI.reserved ch k n hold
  · intro ch k n hs k' row' hrow' hch'
    show k' = k ∧ openings k
      (seenLog (.idem (.committed p env r output row) :: c.log)) = n
    rw [hlog] at hs ⊢
    rw [hopen]
    rcases hcases hs with ⟨hch, rfl, hn⟩ | hold
    · obtain ⟨call, grant, hbacked, hk, hid⟩ := identity_of_row hc' hrow' hch'
      exact ⟨hkey hch hbacked hk hid, hn⟩
    · have hrow' : idem.table k' = some row' := hrow'
      rw [htable] at hrow'
      split at hrow'
      · next heq =>
          cases hrow'
          exact hI.rows ch k n hold k' row (heq ▸ hrow) hch'
      · exact hI.rows ch k n hold k' row' hrow' hch'
  · intro ch k n hs q k' hq
    show k' = k ∧ (openedSinceProbe q k
      (.idem (.committed p env r output row) :: c.log) = false →
        openings k (seenLog
          (.idem (.committed p env r output row) :: c.log)) = n)
    rw [hlog] at hs ⊢
    rw [hopen]
    rcases hcases hs with ⟨hch, rfl, hn⟩ | hold
    · obtain ⟨call, grant, hbacked, hk, hid⟩ := identity_of_resumes hc' hq
      exact ⟨hkey hch hbacked hk hid, fun _ => hn⟩
    · exact hI.calls ch k n hold q k' hq

/-! ## A step of the idempotency protocol

A statement of the hook by itself. Only an insert and a takeover with a reset
open a period, and neither is made under a spent challenge as long as calls
keep to their periods. -/

omit [DecidableEq H] in
/-- A statement that writes one row and leaves it its challenge. -/
theorem Spent.rows_write (hI : Spent c) {j : RowIdentity} {row : Row H R}
    (new : Row H R) (hrow : c.st.idem.table j = some row)
    (hchallenge : new.confirmationChallengeId = row.confirmationChallengeId)
    {ch : ChallengeId} {k : RowIdentity} {n : Nat}
    (hspent : spentAt ch (seenLog c.log) = some (k, n)) {k' : RowIdentity}
    {row' : Row H R}
    (hrow' : (if k' = j then some new else c.st.idem.table k') = some row')
    (hch : row'.confirmationChallengeId = some ch) :
    k' = k ∧ openings k (seenLog c.log) = n := by
  split at hrow'
  · next heq =>
      cases hrow'
      exact hI.rows ch k n hspent k' row (heq ▸ hrow) (hchallenge ▸ hch)
  · exact hI.rows ch k n hspent k' row' hrow' hch

/-- An insert is made under no spent challenge. -/
theorem Spent.unspent_of_insert (hI : Spent c) (hc : (protocol D).Reach c)
    {p : Nat} {env : ReserveEnv H} {round : Nat} {attemptId : AttemptId}
    {nowMs : Nat} (hok : InPeriod c (.idem (.insert p)))
    (hph : c.st.idem.phase p = .inserting env round attemptId nowMs)
    (hnone : c.st.idem.table env.identity = none) {ch : ChallengeId}
    (hch : env.challengeId = some ch) :
    spentAt ch (seenLog c.log) = none := by
  cases hspent : spentAt ch (seenLog c.log) with
  | none => rfl
  | some period =>
      have hask : (c.st.idem.phase p).asking = some env := by
        rw [hph]
        rfl
      obtain ⟨call, grant, hcall, rfl, hk⟩ :=
        hI.resumed_of_asking hc hask hch hspent
      have hfound := hok (call.identity, grant.challengeId)
        (by rw [hcall]; rfl) (Option.isSome_of_mem hspent)
      rw [hk, hnone] at hfound
      cases hfound

section TakeOver

variable {p : Nat} {env : ReserveEnv H} {options : TakeoverOptions H}
  {attemptId : AttemptId} {row : Row H R}

/-- A takeover under a spent challenge goes on in the period that the call
knows. -/
theorem Spent.kept_of_takeOver (hI : Spent c) (hc : (protocol D).Reach c)
    (hok : InPeriod c (.idem (.takeOver p)))
    (hph : c.st.idem.phase p = .takingOver env options attemptId)
    (hrow : c.st.idem.table env.identity = some row)
    (hwins : TakeoverWins options row) {ch : ChallengeId} {k : RowIdentity}
    {n : Nat} (hch : env.challengeId = some ch)
    (hspent : spentAt ch (seenLog c.log) = some (k, n)) :
    options.reset.isSome = false ∧ env.identity = k ∧
      openings k (seenLog c.log) = n := by
  have hask : (c.st.idem.phase p).asking = some env := by
    rw [hph]
    rfl
  obtain ⟨call, grant, hcall, rfl, hk⟩ :=
    hI.resumed_of_asking hc hask hch hspent
  obtain ⟨hplain, hprobed⟩ := hok (call.identity, grant.challengeId)
    (by rw [hcall]; rfl) (Option.isSome_of_mem hspent) options
    (by rw [hph]; rfl) row (hk ▸ hrow) hwins
  obtain ⟨hk', hn⟩ := hI.calls _ k n hspent p call.identity
    (by rw [hcall]; rfl)
  exact ⟨hplain, hk.symm.trans hk', hn (hk' ▸ hprobed)⟩

/-- A plain takeover leaves a spent challenge its period. -/
theorem Spent.rows_of_takeOver (hI : Spent c) (hc : (protocol D).Reach c)
    (hok : InPeriod c (.idem (.takeOver p)))
    (hph : c.st.idem.phase p = .takingOver env options attemptId)
    (hrow : c.st.idem.table env.identity = some row)
    (hwins : TakeoverWins options row)
    (hgrant : options.grant = env.confirmationGrant)
    (hreset : options.reset = none) {ch : ChallengeId} {k : RowIdentity}
    {n : Nat} (hspent : spentAt ch (seenLog c.log) = some (k, n))
    {k' : RowIdentity} {row' : Row H R}
    (hrow' : (if k' = env.identity then
        some (takeoverSet options attemptId row)
      else c.st.idem.table k') = some row')
    (hch : row'.confirmationChallengeId = some ch) :
    k' = k ∧ openings k (seenLog c.log) = n := by
  cases hg : env.confirmationGrant with
  | none =>
      have hplain : (takeoverSet options attemptId row).confirmationChallengeId
          = row.confirmationChallengeId :=
        (takeoverSet_plain_columns hreset (hgrant.trans hg)).1
      exact hI.rows_write _ hrow hplain hspent hrow' hch
  | some grant =>
      split at hrow'
      · next heq =>
          cases hrow'
          have hcar : (takeoverSet _ attemptId row).Carries grant :=
            takeoverSet_carries (hgrant.trans hg)
          rw [hcar.1] at hch
          have hid : env.challengeId = some ch := by
            rw [ReserveEnv.challengeId, hg]
            exact hch
          obtain ⟨-, hk, hn⟩ :=
            hI.kept_of_takeOver hc hok hph hrow hwins hid hspent
          exact ⟨heq.trans hk, hn⟩
      · exact hI.rows ch k n hspent k' row' hrow' hch

/-- A takeover that resets the row opens a period, and one that does not goes
on in the period it finds. -/
theorem Spent.takeOver (hI : Spent c) (hc : (protocol D).Reach c)
    (hok : InPeriod c (.idem (.takeOver p)))
    (hph : c.st.idem.phase p = .takingOver env options attemptId)
    (hrow : c.st.idem.table env.identity = some row)
    (hwins : TakeoverWins options row)
    (htable : ∀ j, idem.table j = if j = env.identity then
      some (takeoverSet options attemptId row) else c.st.idem.table j) :
    Spent ⟨c.st.setIdem idem,
      .idem (.tookOver p env options attemptId row) :: c.log⟩ := by
  have hsigned := (owned_of_reach ((rowView D).reach hc)).phases p
  rw [show ((rowView D).view c).st.phase p = _ from hph] at hsigned
  have hgrant := grant_of_takingOver hsigned
  cases hreset : options.reset.isSome with
  | true =>
      refine hI.opening (fun _ => rfl) ?_ htable ?_
      · intro j
        rw [Event.opens, hreset, Bool.and_true]
      · intro ch hch
        rw [takeoverSet_reset_challengeId hreset, hgrant] at hch
        cases hspent : spentAt ch (seenLog c.log) with
        | none => rfl
        | some period =>
            have hplain :=
              (hI.kept_of_takeOver hc hok hph hrow hwins hch hspent).1
            rw [hreset] at hplain
            cases hplain
  | false =>
      have hplain : ∀ j, Event.opens j
          (.tookOver p env options attemptId row) = false := by
        intro j
        rw [Event.opens, hreset, Bool.and_false]
      have hnone := Option.not_isSome_iff_eq_none.mp
        (Bool.eq_false_iff.mp hreset)
      show Spent ⟨_, [_].map Event.idem ++ c.log⟩
      refine hI.quiet (fun _ => rfl) ?_ ?_ ?_
      · intro j
        rw [List.singleton_append, openings_cons, hplain]
        rfl
      · intro q j
        show (if Event.opens j _ then true else _) = _
        rw [hplain]
        rfl
      · intro ch k n hspent k' row' hrow' hch
        rw [htable] at hrow'
        exact hI.rows_of_takeOver hc hok hph hrow hwins hgrant hnone hspent
          hrow' hch

end TakeOver

/-- A step of the idempotency protocol, in the right period. -/
theorem Spent.idem (hI : Spent c) {b : Idempotency.Act H R}
    {idem : Idempotency.State H R}
    {rowsOut : List (Idempotency.Event H R)} (hc : (protocol D).Reach c)
    (hc' : (protocol D).Reach
      ⟨c.st.setIdem idem, rowsOut.map .idem ++ c.log⟩)
    (hok : InPeriod c (.idem b))
    (hmoves : Idempotency.Moves c.st.idem b idem rowsOut) :
    Spent ⟨c.st.setIdem idem, rowsOut.map .idem ++ c.log⟩ := by
  cases hmoves with
  | @insertNew p env round attemptId nowMs hph hnone =>
      refine hI.opening (fun _ => rfl) (fun _ => rfl)
        (fun j => setRow_table _ _ _ _) ?_
      intro ch hch
      rw [insertValues_challengeId] at hch
      exact hI.unspent_of_insert hc hok hph hnone hch
  | takeOverWon hph hlock hrow hwins =>
      exact hI.takeOver hc hok hph hrow hwins fun j => setRow_table _ _ _ _
  | commit hph hrow =>
      exact hI.commit hc hc' hph hrow (fun j => setRow_table _ _ _ _)
  | @markFailedOwned p env r leaseEnd row hph hlock hrow =>
      refine hI.quiet (fun _ => rfl) (fun _ => rfl) (fun _ _ => rfl) ?_
      intro ch k n hspent k' row' hrow' hch
      simp only [Idempotency.setPhase_table, setRow_table] at hrow'
      exact hI.rows_write row.markedFailed hrow rfl hspent hrow' hch
  | cleanup hlock hrow =>
      refine hI.quiet (fun _ => rfl) (fun _ => openings_cons)
        (fun _ _ => rfl) ?_
      intro ch k n hspent k' row' hrow' hch
      simp only [setRow_table] at hrow'
      split at hrow'
      · cases hrow'
      · exact hI.rows ch k n hspent k' row' hrow' hch
  | selectGone | selectRow | decideAnswer | reloadGone | reloadRow | resolve
  | finalizeLost =>
      exact hI.quiet (fun _ => rfl) (fun _ => openings_cons)
        (fun _ _ => rfl) hI.rows
  | _ =>
      exact hI.quiet (fun _ => rfl) (fun _ => rfl) (fun _ _ => rfl) hI.rows

theorem Spent.step (hI : Spent c) (hc : (protocol D).Reach c)
    (hc' : (protocol D).Reach ⟨s', out ++ c.log⟩) (hok : InPeriod c a)
    (h : Moves D c.st a s' out) : Spent ⟨s', out ++ c.log⟩ := by
  cases h with
  | expire => exact ⟨hI.reserved, hI.rows, hI.calls⟩
  | idem hstep =>
      exact hI.idem hc hc' hok (Idempotency.moves_of_step hstep)
  | @probeRow p call row hph hrow =>
      refine hI.gate (fun q => setPhase_phase _ _ q _) rfl rfl ?_ ?_
      · intro q k hne
        exact if_neg (Ne.symm hne)
      · intro ch k n hspent k' hk'
        obtain ⟨ch', hch, heq⟩ := Option.map_eq_some_iff.mp hk'
        cases heq
        obtain ⟨hk, hn⟩ := hI.rows ch k n hspent _ row hrow hch
        exact ⟨hk, fun _ => hn⟩
  | @interpretResume p nowMs call existing grant hph hprobe =>
      refine hI.gate (fun q => setPhase_phase _ _ q _) rfl rfl
        (fun _ _ _ => rfl) ?_
      intro ch k n hspent k' hk'
      refine hI.calls ch k n hspent p k' ?_
      cases hk'
      rw [hph, Phase.resumes, (interpretProbeRow_resume hprobe).1.1]
      rfl
  | @reserve p call grant origin hph =>
      refine hI.gate (fun q => setPhase_phase _ _ q _) rfl rfl
        (fun _ _ _ => rfl) ?_
      intro ch k n hspent k' hk'
      refine hI.calls ch k n hspent p k' ?_
      rw [hph, ← Phase.resumes_reserving]
      exact hk'
  | @consume p call challengeId hph =>
      refine hI.gate (fun q => setPhase_phase _ _ q _) rfl
        (filterMap_seen_consumed _) ?_ (fun _ _ _ _ _ hk' => by cases hk')
      intro q k _
      cases c.st.challenges challengeId <;> rfl
  | _ =>
      exact hI.gate (fun q => setPhase_phase _ _ q _) rfl rfl
        (fun _ _ _ => rfl) (fun _ _ _ _ _ hk' => by cases hk')

theorem spent_of_inPeriod (h : (protocol D).ReachWhen InPeriod c) :
    Spent c := by
  refine h.invariant (I := Spent) ?_ ?_
  · exact
      { reserved := fun _ _ _ hspent => by cases hspent
        rows := fun _ _ _ hspent => by cases hspent
        calls := fun _ _ _ hspent => by cases hspent }
  · intro c a c' hc ih hok hnext
    have hc' := (Machine.ReachWhen.next hc hok hnext).reach
    obtain ⟨s, out, hmoves, rfl⟩ := moves_of_next D hnext
    exact ih.step hc.reach hc' hok hmoves

theorem spendsOnce_of_inPeriod (h : (protocol D).ReachWhen InPeriod c) :
    Told SpendsOnce (seenLog c.log) := by
  refine h.invariant (I := fun c => Told SpendsOnce (seenLog c.log)) .nil ?_
  intro c a c' hc ih _ hnext
  obtain ⟨s, out, hmoves, rfl⟩ := moves_of_next D hnext
  have hgate : seenLog out = [] →
      Told SpendsOnce (seenLog (out ++ c.log)) := by
    intro hseen
    rw [seenLog_append, hseen]
    exact ih
  cases hmoves with
  | idem hstep =>
      have hrows := Idempotency.moves_of_step hstep
      show Told SpendsOnce (seenLog (_ ++ c.log))
      rw [seenLog_rows]
      refine ih.append hrows.out_length_le fun e he => ?_
      cases e with
      | committed p env r output row =>
          obtain ⟨hrow, leaseEnd, hph⟩ := hrows.committed_of_mem he
          intro ch hch
          exact not_committed_of_spentAt
            ((spent_of_inPeriod hc).unspent_of_finalized hc.reach hph hrow
              hch)
      | inserted | read | tookOver | answered | cleaned => trivial
  | consume => exact hgate (filterMap_seen_consumed _)
  | _ => exact hgate rfl

/-! ## The contract

The parts together: a gated handler runs under a challenge that was consumed
unexpired and bound to the call, and no challenge is spent twice. -/

/-- In every run whose calls keep to their periods, a gated handler runs under
a grant that is backed by a challenge of its own, a challenge is consumed once
and spent once, and a call that was only to be confirmed does not run. -/
theorem confirmation_of_inPeriod (h : (protocol D).ReachWhen InPeriod c) :
    Told (RunsBacked D) c.log ∧ Told ConsumedOnce c.log ∧
      Told SpendsOnce (seenLog c.log) :=
  ⟨(traced_of_reach h.reach).told, (stocked_of_reach h.reach).once,
    spendsOnce_of_inPeriod h⟩

/-! ## A grant that outlives its period

The period is a hypothesis of the theorem above, and here is why. A call that
has resumed a grant may reserve after the row has expired; the row is reset,
and the same challenge pays for a second execution. -/

/-- A digest without collisions at all. -/
def plainDigest : Digest Nat (Payload Nat) where
  sha256 := id
  request_inj := by
    intro i i' p p' s s' h
    cases h
    exact ⟨rfl, rfl, rfl⟩

/-- A staff action of high risk, sent with a challenge or without one. -/
def refund (confirmationChallengeId : Option ChallengeId) : CallEnv Nat where
  contract :=
    { name := "sales.refund"
      principal := .staff
      risk := .high
      idempotent := true
      requiresConfirmation := true
      timeout := 30000
      valid := rfl }
  request :=
    { idempotencyKey := some "k"
      confirmationChallengeId
      requireConfirmation := false
      confirmationOnly := false }
  authorized := .staff "u" "c"
  input := 7

/-- The keys that such a call computes. -/
def keyedRefund : KeyedCall Nat where
  env := refund none
  identity :=
    { principalKey := "staff:u"
      scopeKey := "company:c"
      action := "sales.refund"
      key := "k" }
  keyed := rfl

/-- A card that is confirmed. -/
def refundCard : Card := { summary := "Refund 7", preview := none }

/-- The clock readings of a run, each with the call that read. -/
def Act.reading : Act Nat (Payload Nat) Nat → Option (Nat × Nat)
  | .interpret p nowMs | .check p nowMs | .issue p _ nowMs => some (p, nowMs)
  | .idem (.stampInsert p _ nowMs) | .idem (.decide p nowMs _)
  | .idem (.resolve p nowMs) => some (p, nowMs)
  | _ => none

/-- No call reads the clock later than `timeout` after another reading of
its own. A call that does has thrown `TimeoutError`. -/
def InDeadline (timeout : Nat) (acts : List (Act Nat (Payload Nat) Nat)) :
    Prop :=
  ∀ first ∈ acts.filterMap Act.reading,
    ∀ later ∈ acts.filterMap Act.reading,
      first.1 = later.1 → later.2 ≤ first.2 + timeout

instance (timeout : Nat) (acts : List (Act Nat (Payload Nat) Nat)) :
    Decidable (InDeadline timeout acts) :=
  inferInstanceAs (Decidable (∀ _ ∈ _, ∀ _ ∈ _, _))

/-- A challenge is issued and confirmed, and the attempt fails. A minute
before its row's retention ends the call is confirmed again and fails again.
Ten seconds before the end two more calls find the second grant on the row,
and one of them executes. -/
def refundedOnce : List (Act Nat (Payload Nat) Nat) :=
  [.arrive 0 (refund none), .probe 0, .consume 0, .present 0 refundCard,
    .issue 0 0 0,
    .arrive 1 (refund (some 0)), .probe 1, .consume 1, .check 1 0, .reserve 1,
    .idem (.stampInsert 1 0 0), .idem (.insert 1), .idem (.rollback 1),
    .idem (.markFailed 1),
    .idem (.tick 172740000),
    .arrive 2 (refund none), .probe 2, .interpret 2 172740000, .consume 2,
    .present 2 refundCard, .issue 2 1 172740000,
    .arrive 3 (refund (some 1)), .probe 3, .interpret 3 172740000, .consume 3,
    .check 3 172740000, .reserve 3,
    .idem (.stampInsert 3 1 172740000), .idem (.insert 3), .idem (.select 3),
    .idem (.decide 3 172740000 2), .idem (.takeOver 3), .idem (.rollback 3),
    .idem (.markFailed 3),
    .idem (.tick 172790000),
    .arrive 4 (refund none), .probe 4, .interpret 4 172790000,
    .arrive 5 (refund none), .probe 5, .interpret 5 172790000,
    .reserve 4,
    .idem (.stampInsert 4 3 172790000), .idem (.insert 4), .idem (.select 4),
    .idem (.decide 4 172790000 4), .idem (.takeOver 4),
    .idem (.finalize 4 0), .idem (.commit 4)]

/-- The other one reserves when the retention is over, with twenty of its
thirty seconds left. -/
def refundedTwice : List (Act Nat (Payload Nat) Nat) :=
  refundedOnce ++
    [.idem (.tick 172800000), .reserve 5,
      .idem (.stampInsert 5 5 172800000), .idem (.insert 5),
      .idem (.select 5), .idem (.decide 5 172800000 6), .idem (.takeOver 5),
      .idem (.finalize 5 0), .idem (.commit 5)]

theorem confirmation_of_inPeriod_resumed :
    ∃ c, (protocol plainDigest).exec (protocol plainDigest).start
        refundedOnce = some c ∧
      (spentAt 1 (seenLog c.log)).isSome = true ∧
      (Told (RunsBacked plainDigest) c.log ∧ Told ConsumedOnce c.log ∧
        Told SpendsOnce (seenLog c.log)) := by
  refine ⟨_, rfl, rfl, confirmation_of_inPeriod (D := plainDigest)
    (Machine.ReachWhen.of_exec .start refundedOnce ?_ rfl)⟩
  decide

/-- On one clock and within the deadline of every call, one challenge is
spent twice. -/
theorem challenge_spentTwice :
    ∃ c, (protocol plainDigest).exec (protocol plainDigest).start
        refundedTwice = some c ∧
      (protocol plainDigest).StepsMeet OneClock (protocol plainDigest).start
        refundedTwice ∧
      InDeadline 30000 refundedTwice ∧
      ¬ Told SpendsOnce (seenLog c.log) := by
  refine ⟨_, rfl, by decide, by decide, ?_⟩
  intro htold
  have hfirst := htold.1 1 rfl 4 (keyedRefund.reserveEnv plainDigest
    (some ⟨1, 172740000, 173040000⟩))
  exact hfirst _ _ _ (.tail _ (.tail _ (.head _))) rfl

end Shozee.Confirmation
