import Shozee.Idempotency.Receipts

/-!
# Which clock ended the retention

A completed row ends by the clock of whoever took it over or cleaned it up.
The attempt that commits next need not be that one: a taker can fail, and its
row is then taken over again, by a call with a clock of its own. When the
readings come from one clock this makes no difference, since a call reads the
row it wants to take over before it reads the clock, and so reads a later
time than the taker before it did (`Readings.later`). That step needs an
attempt id that is still unused to be one that nobody has observed, which is
`Minted`.

The file ends with the contract of a key as a whole, and with the run on two
clocks that keeps its first part from being about the second attempt alone.
-/

namespace Shozee.Idempotency

open Shozee.Run

variable {H R : Type}

/-! ## An id is on a row once its call has put it there

Ids that a call has drawn and not yet written are known to it alone. So a row
under an id was written by the call that drew it, and an id that has been read
was issued. -/

/-- The id that the event writes to a row. -/
def Event.issues : Event H R → Option AttemptId
  | .inserted _ _ attemptId _ => some attemptId
  | .tookOver _ _ _ attemptId _ => some attemptId
  | _ => none

/-- The attempt has reserved: its id has been written to a row. -/
def Issued (log : List (Event H R)) (attemptId : AttemptId) : Prop :=
  ∃ e ∈ log, e.issues = some attemptId

theorem issued_append {out log : List (Event H R)} {attemptId : AttemptId} :
    Issued (out ++ log) attemptId ↔
      Issued out attemptId ∨ Issued log attemptId := by
  simp only [Issued, List.mem_append, or_and_right, exists_or]

/-- Ids a call has read are issued, and ids it has drawn and not used are
not. -/
def PhaseMinted (log : List (Event H R)) : Phase H R → Prop
  | .inserting _ _ attemptId _ => ¬ Issued log attemptId
  | .selected _ existing => Issued log existing.attemptId
  | .takingOver _ options attemptId =>
      Issued log options.observedAttemptId ∧ ¬ Issued log attemptId
  | _ => True

/-- Every attempt's id in the state was issued, and every issued one was drawn.
-/
structure Minted (c : Conf (State H R) (Event H R)) : Prop where
  rows : ∀ k row, c.st.table k = some row → Issued c.log row.attemptId
  drawn : ∀ attemptId, Issued c.log attemptId →
    c.st.drawnBy attemptId ≠ none
  phases : ∀ p, PhaseMinted c.log (c.st.phase p)

section Steps

variable [DecidableEq H] {s s' : State H R} {a : Act H R}
  {out log : List (Event H R)}

/-- A step issues only the id of the call that moves, which now executes. -/
theorem Moves.issues (h : Moves s a s' out) (hI : Owned s)
    {attemptId : AttemptId} (hissued : Issued out attemptId) :
    ∃ p env r leaseEnd, s.drawnBy attemptId = some (p, env) ∧
      s'.phase p = .executing env r leaseEnd := by
  obtain ⟨e, he, hid⟩ := hissued
  cases h with
  | @insertNew p env round b nowMs hph =>
      obtain rfl := List.mem_singleton.mp he
      obtain rfl := Option.some.inj hid
      have hsigned := hI.phases p
      rw [hph] at hsigned
      exact ⟨p, env, _, _, hsigned, Function.update_self _ _ _⟩
  | @takeOverWon p env options b row hph =>
      obtain rfl := List.mem_singleton.mp he
      obtain rfl := Option.some.inj hid
      have hsigned := hI.phases p
      rw [hph] at hsigned
      exact ⟨p, env, _, _, hsigned.1, Function.update_self _ _ _⟩
  | selectGone | selectRow | decideAnswer | reloadGone | reloadRow | resolve
  | finalizeLost | commit | cleanup =>
      obtain rfl := List.mem_singleton.mp he
      cases hid
  | _ => cases he

/-- What a step reports does not disturb what held of a call's ids. -/
theorem Moves.phaseMinted_append (h : Moves s a s' out) (hI : Owned s)
    {q : Nat} (hq : PhaseMinted log (s'.phase q)) :
    PhaseMinted (out ++ log) (s'.phase q) := by
  have hI' := hI.step h
  have hunused : ∀ {b : AttemptId} {env : ReserveEnv H},
      s'.drawnBy b = some (q, env) →
      (∀ env' r leaseEnd, s'.phase q ≠ .executing env' r leaseEnd) →
      ¬ Issued log b → ¬ Issued (out ++ log) b := by
    intro b env hdrawn hph hnot hissued
    rcases issued_append.mp hissued with hnew | hold
    · obtain ⟨p, env', r, leaseEnd, hdrawn', hexec⟩ := h.issues hI hnew
      rw [h.drawnBy_mono _ _ hdrawn'] at hdrawn
      cases hdrawn
      exact hph _ _ _ hexec
    · exact hnot hold
  have hsigned := hI'.phases q
  cases hph : s'.phase q with
  | inserting env round b nowMs =>
      rw [hph] at hq hsigned
      exact hunused hsigned (by rw [hph]; rintro _ _ _ ⟨⟩) hq
  | selected env existing =>
      rw [hph] at hq
      exact issued_append.mpr (Or.inr hq)
  | takingOver env options b =>
      rw [hph] at hq hsigned
      exact ⟨issued_append.mpr (Or.inr hq.1),
        hunused hsigned.1 (by rw [hph]; rintro _ _ _ ⟨⟩) hq.2⟩
  | _ => trivial

theorem Moves.phaseMinted (h : Moves s a s' out)
    (hM : Minted ⟨s, log⟩) : ∀ q, PhaseMinted log (s'.phase q) := by
  intro q
  have hupdate : ∀ {p : Nat} {ph : Phase H R}, PhaseMinted log ph →
      PhaseMinted log (if q = p then ph else s.phase q) := by
    intro p ph hph
    split
    · exact hph
    · exact hM.phases q
  have hfresh : ∀ {b : AttemptId}, s.drawnBy b = none → ¬ Issued log b :=
    fun hnone hissued => hM.drawn _ hissued hnone
  cases h with
  | tick | cleanup => exact hM.phases q
  | stampInsert hph hnone =>
      simp only [setPhase_phase]
      exact hupdate (hfresh hnone)
  | selectRow hph hrow =>
      simp only [setPhase_phase]
      exact hupdate (hM.rows _ _ hrow)
  | @decideTakeOver p nowMs b env existing options hph hdec hnone =>
      simp only [setPhase_phase]
      refine hupdate ⟨?_, hfresh hnone⟩
      rw [(decideExisting_options hdec).1]
      have hread := hM.phases p
      rw [hph] at hread
      exact hread
  | _ =>
      simp only [setPhase_phase]
      exact hupdate trivial

theorem Moves.rowsMinted (h : Moves s a s' out) (hM : Minted ⟨s, log⟩) :
    ∀ k row, s'.table k = some row → Issued (out ++ log) row.attemptId := by
  intro k row hrow
  have hold : s.table k = some row → Issued (out ++ log) row.attemptId :=
    fun hk => issued_append.mpr (Or.inr (hM.rows k row hk))
  have hupdate : ∀ {j : RowIdentity} {new : Row H R},
      (if k = j then some new else s.table k) = some row →
      Issued (out ++ log) new.attemptId →
      Issued (out ++ log) row.attemptId := by
    intro j new hif hnew
    split at hif
    · cases hif; exact hnew
    · exact hold hif
  cases h with
  | insertNew hph =>
      simp only [setPhase_table, setRow_table] at hrow
      refine hupdate hrow ⟨_, List.mem_cons_self, ?_⟩
      rw [insertValues_attemptId]
      rfl
  | takeOverWon hph =>
      simp only [setPhase_table, setRow_table] at hrow
      refine hupdate hrow ⟨_, List.mem_cons_self, ?_⟩
      rw [takeoverSet_attemptId]
      rfl
  | commit hph hprev =>
      simp only [setPhase_table, setLock_table, setRow_table] at hrow
      have hissued := hM.rows _ _ hprev
      exact hupdate hrow (issued_append.mpr (Or.inr hissued))
  | markFailedOwned hph hfree hprev =>
      simp only [setPhase_table, setRow_table] at hrow
      have hissued := hM.rows _ _ hprev
      exact hupdate hrow (issued_append.mpr (Or.inr hissued))
  | cleanup =>
      simp only [setRow_table] at hrow
      split at hrow
      · cases hrow
      · exact hold hrow
  | _ => exact hold hrow

theorem minted_of_reach {c : Conf (State H R) (Event H R)}
    (h : protocol.Reach c) : Minted c := by
  refine h.invariant (I := Minted) ?_ ?_
  · exact
      { rows := fun _ _ hrow => by cases hrow
        drawn := fun _ ⟨_, he, _⟩ => by cases he
        phases := fun _ => trivial }
  · intro c a c' hc ih _ hnext
    obtain ⟨s, out, hmoves, rfl⟩ := moves_of_next hnext
    have hI := owned_of_reach hc
    refine
      { rows := hmoves.rowsMinted ih
        drawn := ?_
        phases := fun q =>
          hmoves.phaseMinted_append hI (hmoves.phaseMinted ih q) }
    intro b hissued
    have hkept : ∀ {x}, c.st.drawnBy b = some x → s.drawnBy b ≠ none := by
      intro x hx hnone
      rw [hmoves.drawnBy_mono _ _ hx] at hnone
      cases hnone
    rcases issued_append.mp hissued with hnew | hold
    · obtain ⟨p, env, r, leaseEnd, hdrawn, -⟩ := hmoves.issues hI hnew
      exact hkept hdrawn
    · obtain ⟨x, hx⟩ := Option.ne_none_iff_exists'.mp (ih.drawn b hold)
      exact hkept hx

/-! ## Readings of one clock

With one clock, whoever takes over later has read later. A taker reads the row
before it reads the clock, so its reading is not before the one that wrote the
row. -/

/-- Takers read the clock in the order in which they took over. -/
structure InOrder (c : Conf (State H R) (Event H R)) : Prop where
  pending : ∀ p env options b,
    c.st.phase p = .takingOver env options b → options.nowMs ≤ c.st.clock
  told : ∀ q env options b row,
    .tookOver q env options b row ∈ c.log → options.nowMs ≤ c.st.clock
  later : ∀ p env options b,
    c.st.phase p = .takingOver env options b →
    ∀ q env' options' row,
      .tookOver q env' options' options.observedAttemptId row ∈ c.log →
      options'.nowMs ≤ options.nowMs

theorem Moves.clock_le (h : Moves s a s' out) : s.clock ≤ s'.clock := by
  cases h with
  | tick hle => exact hle
  | _ => exact Nat.le_refl _

/-- A call is about to take a row over because it was, or because it has just
decided to, on the reading it made. -/
theorem Moves.takingOver_cases (h : Moves s a s' out) {q : Nat}
    {env : ReserveEnv H} {options : TakeoverOptions H} {b : AttemptId}
    (hq' : s'.phase q = .takingOver env options b) :
    (s.phase q = .takingOver env options b) ∨
      (out = [] ∧ a = .decide q options.nowMs b) := by
  have hmoved : ∀ {p : Nat} {ph : Phase H R},
      ph ≠ .takingOver env options b →
      (if q = p then ph else s.phase q) = .takingOver env options b →
      s.phase q = .takingOver env options b := by
    intro p ph hph hif
    split at hif
    · exact absurd hif hph
    · exact hif
  cases h with
  | decideTakeOver hph hdec =>
      simp only [setPhase_phase] at hq'
      split at hq'
      · next heq =>
          cases hq'
          refine Or.inr ⟨rfl, ?_⟩
          rw [(decideExisting_options hdec).2.1, heq]
      · exact Or.inl hq'
  | tick | cleanup => exact Or.inl hq'
  | _ =>
      simp only [setPhase_phase] at hq'
      exact Or.inl (hmoved (by rintro ⟨⟩) hq')

/-- A takeover a step reports was made by a call that was about to. -/
theorem Moves.tookOver_of_mem (h : Moves s a s' out) {q : Nat}
    {env : ReserveEnv H} {options : TakeoverOptions H} {b : AttemptId}
    {row : Row H R} (hmem : .tookOver q env options b row ∈ out) :
    s.phase q = .takingOver env options b := by
  cases h with
  | takeOverWon hph =>
      cases List.mem_singleton.mp hmem
      exact hph
  | insertNew | selectGone | selectRow | decideAnswer | reloadGone | reloadRow
  | resolve | finalizeLost | commit | cleanup =>
      cases List.mem_singleton.mp hmem
  | _ => cases hmem

theorem InOrder.step {c : Conf (State H R) (Event H R)} (hI : InOrder c)
    (hM : Minted c) (hok : OneClock c a) (h : Moves c.st a s' out) :
    InOrder ⟨s', out ++ c.log⟩ := by
  have hclock := h.clock_le
  refine { pending := ?_, told := ?_, later := ?_ }
  · intro q env options b hq'
    show options.nowMs ≤ s'.clock
    rcases h.takingOver_cases hq' with hq | ⟨-, rfl⟩
    · have := hI.pending q env options b hq
      omega
    · have hnow : options.nowMs = c.st.clock := hok
      omega
  · intro q env options b row hmem
    show options.nowMs ≤ s'.clock
    rcases List.mem_append.mp hmem with hnew | hold
    · have := hI.pending q env options b (h.tookOver_of_mem hnew)
      omega
    · have := hI.told q env options b row hold
      omega
  · intro p env options b hp' q env' options' row hmem
    rcases h.takingOver_cases hp' with hp | ⟨rfl, rfl⟩
    · rcases List.mem_append.mp hmem with hnew | hold
      · -- The id just issued was unused, so nobody had observed it.
        have hunused := hM.phases q
        rw [h.tookOver_of_mem hnew] at hunused
        have hobserved := hM.phases p
        rw [hp] at hobserved
        exact absurd hobserved.1 hunused.2
      · exact hI.later p env options b hp q env' options' row hold
    · have hnow : options.nowMs = c.st.clock := hok
      have := hI.told q env' options' _ row hmem
      omega

theorem inOrder_of_reachWhen {c : Conf (State H R) (Event H R)}
    (h : protocol.ReachWhen OneClock c) : InOrder c := by
  refine h.invariant (I := InOrder) ?_ ?_
  · exact
      { pending := fun _ _ _ _ hp => by cases hp
        told := fun _ _ _ _ _ hmem => by cases hmem
        later := fun _ _ _ _ hp => by cases hp }
  · intro c a c' hc ih hok hnext
    obtain ⟨s, out, hmoves, rfl⟩ := moves_of_next hnext
    exact ih.step (minted_of_reach hc.reach) hok hmoves

end Steps

/-! ## What becomes of a completed row

It stands; or somebody has cleaned it up by a clock past its end; or it was
taken over by such a clock, and what is there now goes back to that takeover. A
step leads from each of the three to one of the three. -/

/-- Somebody cleaned the key up by a clock past `E`. -/
def CleanedAfter (k : RowIdentity) (E : Nat) (events : List (Event H R)) :
    Prop :=
  ∃ row nowMs, .cleaned k row nowMs ∈ events ∧ E ≤ nowMs

/-- The attempt took the key's row over by a clock past `E`. -/
def TookOverAfter (k : RowIdentity) (E : Nat) (attemptId : AttemptId)
    (events : List (Event H R)) : Prop :=
  ∃ q env options row, .tookOver q env options attemptId row ∈ events ∧
    env.identity = k ∧ E ≤ options.nowMs

/-- What a key has (`found`) once the row `done` was completed on it: `done`
still, or whatever came after a cleanup, or the row of an attempt that took
the key over after the retention of `done`. -/
def Aftermath (k : RowIdentity) (done : Row H R) (events : List (Event H R))
    (found : Option (Row H R)) : Prop :=
  found = some done ∨ CleanedAfter k done.expiresAt events ∨
    ∃ row, found = some row ∧ done.expiresAt ≤ row.expiresAt ∧
      TookOverAfter k done.expiresAt row.attemptId events

theorem CleanedAfter.append {k : RowIdentity} {E : Nat}
    {out events : List (Event H R)} (h : CleanedAfter k E events) :
    CleanedAfter k E (out ++ events) := by
  obtain ⟨row, nowMs, hmem, hle⟩ := h
  exact ⟨row, nowMs, List.mem_append_right out hmem, hle⟩

theorem TookOverAfter.append {k : RowIdentity} {E : Nat}
    {attemptId : AttemptId} {out events : List (Event H R)}
    (h : TookOverAfter k E attemptId events) :
    TookOverAfter k E attemptId (out ++ events) := by
  obtain ⟨q, env, options, row, hmem, hrest⟩ := h
  exact ⟨q, env, options, row, List.mem_append_right out hmem, hrest⟩

theorem Aftermath.append {k : RowIdentity} {done : Row H R}
    {out events : List (Event H R)} {found : Option (Row H R)}
    (h : Aftermath k done events found) :
    Aftermath k done (out ++ events) found := by
  rcases h with hsame | hcleaned | ⟨row, hrow, hexp, htook⟩
  · exact Or.inl hsame
  · exact Or.inr (Or.inl hcleaned.append)
  · exact Or.inr (Or.inr ⟨row, hrow, hexp, htook.append⟩)

/-- An in-progress row that its owner writes back under its own id. -/
theorem Aftermath.rewrite {k : RowIdentity} {done row new : Row H R}
    {events : List (Event H R)} (h : Aftermath k done events (some row))
    (hdone : done.status = .completed) (hrun : row.status = .inProgress)
    (hid : new.attemptId = row.attemptId)
    (hexp : new.expiresAt = row.expiresAt) :
    Aftermath k done events (some new) := by
  rcases h with hsame | hcleaned | ⟨row', hrow, hle, htook⟩
  · cases hsame
    rw [hdone] at hrun
    cases hrun
  · exact Or.inr (Or.inl hcleaned)
  · cases hrow
    rw [← hexp] at hle
    rw [← hid] at htook
    exact Or.inr (Or.inr ⟨new, rfl, hle, htook⟩)

section Steps

variable [DecidableEq H] {s s' : State H R} {a : Act H R}
  {out events : List (Event H R)}

/-- The row a takeover leaves lives as long as the one it found, or longer
than the reading. -/
theorem le_takeoverSet_expiresAt {p : Nat} {env : ReserveEnv H}
    {options : TakeoverOptions H} {attemptId : AttemptId} {row : Row H R}
    {E : Nat}
    (hph : PhaseSigned s p (.takingOver env options attemptId : Phase H R))
    (hrow : E ≤ row.expiresAt) (hnow : E ≤ options.nowMs) :
    E ≤ (takeoverSet options attemptId row).expiresAt := by
  obtain ⟨-, existing, nowMs, -, hdec⟩ := hph
  obtain ⟨-, hread, -, hreset⟩ := decideExisting_options hdec
  rw [takeoverSet_expiresAt]
  cases hr : options.reset with
  | none => exact hrow
  | some reset =>
      show E ≤ reset.expiresAt
      rw [hreset reset hr]
      omega

/-- One step later it is still one of the three. -/
theorem Moves.aftermath (h : Moves s a s' out) (hI : Owned s)
    {k : RowIdentity} {done : Row H R} (hdone : done.status = .completed)
    (hlater : ∀ p env options b, s.phase p = .takingOver env options b →
      ∀ q env' options' row,
        .tookOver q env' options' options.observedAttemptId row ∈ events →
        options'.nowMs ≤ options.nowMs)
    (hafter : Aftermath k done events (s.table k)) :
    Aftermath k done (out ++ events) (s'.table k) := by
  cases h with
  | insertNew hph hnone =>
      simp only [setPhase_table, setRow_table]
      split
      · next heq =>
          rw [heq, hnone] at hafter
          rcases hafter with hsame | hcleaned | ⟨row, hrow, -⟩
          · cases hsame
          · rw [heq]; exact Or.inr (Or.inl hcleaned.append)
          · cases hrow
      · exact hafter.append
  | @takeOverWon p env options b row hph hfree hrow hwins =>
      simp only [setPhase_table, setRow_table]
      split
      · next heq =>
          have hsigned := hI.phases p
          rw [hph] at hsigned
          rw [heq, hrow] at hafter
          have hown : done.expiresAt ≤ options.nowMs →
              TookOverAfter env.identity done.expiresAt b
                ([.tookOver p env options b row] ++ events) :=
            fun hle => ⟨p, env, options, row, List.mem_cons_self, rfl, hle⟩
          rw [heq]
          rcases hafter with hsame | hcleaned | ⟨row', hrow', hle, htook⟩
          · cases hsame
            have hpassed : done.expiresAt ≤ options.nowMs := by
              by_contra hlive
              exact not_reclaimable_of_completed hdone
                (Nat.lt_of_not_le hlive) hwins.2
            refine Or.inr (Or.inr ⟨_, rfl, ?_, ?_⟩)
            · exact le_takeoverSet_expiresAt hsigned (Nat.le_refl _) hpassed
            · rw [takeoverSet_attemptId]
              exact hown hpassed
          · exact Or.inr (Or.inl hcleaned.append)
          · cases hrow'
            obtain ⟨q, env', options', row'', hmem, -, hE⟩ := htook
            rw [hwins.1] at hmem
            have hpassed : done.expiresAt ≤ options.nowMs :=
              Nat.le_trans hE
                (hlater p env options b hph q env' options' row'' hmem)
            refine Or.inr (Or.inr ⟨_, rfl, ?_, ?_⟩)
            · exact le_takeoverSet_expiresAt hsigned hle hpassed
            · rw [takeoverSet_attemptId]
              exact hown hpassed
      · exact hafter.append
  | commit hph hrow =>
      simp only [setPhase_table, setLock_table, setRow_table]
      split
      · next heq =>
          obtain ⟨-, row', hrow', -, hrun⟩ := hI.holder _ _ _ _ _ hph
          rw [hrow] at hrow'
          cases hrow'
          rw [heq, hrow] at hafter
          rw [heq]
          refine Aftermath.append (hafter.rewrite hdone hrun ?_ ?_)
          · rfl
          · rfl
      · exact hafter.append
  | markFailedOwned hph hfree hrow howned =>
      simp only [setPhase_table, setRow_table]
      split
      · next heq =>
          rw [heq, hrow] at hafter
          rw [heq]
          refine Aftermath.append (hafter.rewrite hdone howned.2 ?_ ?_)
          · rfl
          · rfl
      · exact hafter.append
  | @cleanup k' nowMs row hfree hrow hexp =>
      simp only [setRow_table]
      split
      · next heq =>
          rw [heq, hrow] at hafter
          rw [heq]
          refine Or.inr (Or.inl ?_)
          have hnow : done.expiresAt ≤ nowMs →
              CleanedAfter k' done.expiresAt
                ([.cleaned k' row nowMs] ++ events) :=
            fun hle => ⟨row, nowMs, List.mem_cons_self, hle⟩
          rcases hafter with hsame | hcleaned | ⟨row', hrow', hle, -⟩
          · cases hsame; exact hnow hexp
          · exact hcleaned.append
          · cases hrow'; exact hnow (Nat.le_trans hle hexp)
      · exact hafter.append
  | _ => exact hafter.append

/-- In every state a single clock leads to, each completed row has come to one
of the three. -/
theorem aftermath_of_reachWhen {c : Conf (State H R) (Event H R)}
    (h : protocol.ReachWhen OneClock c) :
    ∀ newer older p env r output row,
      c.log = newer ++ .committed p env r output row :: older →
      Aftermath env.identity (row.completedWith output) newer
        (c.st.table env.identity) := by
  refine h.invariant (I := fun c => ∀ newer older p env r output row,
      c.log = newer ++ .committed p env r output row :: older →
      Aftermath env.identity (row.completedWith output) newer
        (c.st.table env.identity)) ?_ ?_
  · intro newer older p env r output row hlog
    cases newer <;> cases hlog
  · intro c a c' hc ih hok hnext newer older p env r output row hlog
    obtain ⟨s, out, hmoves, rfl⟩ := moves_of_next hnext
    rcases split_of_append hmoves.out_length_le hlog with
      ⟨rfl, rfl, -⟩ | ⟨rest, rfl, hrest⟩
    · cases hmoves with
      | commit hph hrow =>
          refine Or.inl ?_
          simp only [setPhase_table, setLock_table, setRow_table, if_pos]
    · refine hmoves.aftermath (owned_of_reach hc.reach) rfl ?_
        (ih rest older p env r output row hrest)
      intro p' env' options b hp' q env'' options' row' hmem
      refine (inOrder_of_reachWhen hc).later p' env' options b hp' q env''
        options' row' ?_
      rw [hrest]
      exact List.mem_append_left _ hmem

/-- A commit a step reports is the commit of a call past its `finalize`. -/
theorem Moves.committed_of_mem (h : Moves s a s' out) {p : Nat}
    {env : ReserveEnv H} {r : IdempotencyReservation} {output : R}
    {row : Row H R} (hmem : .committed p env r output row ∈ out) :
    s.table env.identity = some row ∧
      ∃ leaseEnd, s.phase p = .finalized env r leaseEnd output := by
  cases h with
  | commit hph hrow =>
      cases List.mem_singleton.mp hmem
      exact ⟨hrow, _, hph⟩
  | insertNew | selectGone | selectRow | decideAnswer | takeOverWon
  | reloadGone | reloadRow | resolve | finalizeLost | cleanup =>
      cases List.mem_singleton.mp hmem
  | _ => cases hmem

end Steps

/-! ## The contract of a key

What the history of one key can be, whatever runs on it. The commits are apart
by a reading past the retention; on one clock this is the reading of the
attempt that commits second. -/

/-- `CommitsApart`, told by the clock of the attempt that commits second. -/
def OwnReadingPassed (log : List (Event H R)) : Prop :=
  ∀ newer between older p₁ p₂ env₁ env₂ r₁ r₂ output₁ output₂ row₁ row₂,
    log = newer ++ .committed p₂ env₂ r₂ output₂ row₂ ::
      (between ++ .committed p₁ env₁ r₁ output₁ row₁ :: older) →
    env₁.identity = env₂.identity →
    CleanedAfter env₁.identity row₁.expiresAt between ∨
      TookOverAfter env₁.identity row₁.expiresAt r₂.attemptId between

/-- A `finalize` or a `markFailed` of an attempt that is not the row's any
more writes nothing and locks nothing. -/
def StaleAttemptInert [DecidableEq H] (s : State H R) : Prop :=
  ∀ p env r leaseEnd,
    (∀ row, s.table env.identity = some row → row.attemptId ≠ r.attemptId) →
    (∀ output s' out, s.phase p = .executing env r leaseEnd →
      step s (.finalize p output) = some (s', out) →
      s'.table = s.table ∧ s'.lock = s.lock) ∧
    (∀ s' out, s.phase p = .rolledBack env r leaseEnd →
      step s (.markFailed p) = some (s', out) →
      s'.table = s.table ∧ s'.lock = s.lock)

/-- Whatever a taker read, it leaves a completed row alone whose retention
has not passed at `now`. -/
def CompletedRowKept [DecidableEq H] (s : State H R)
    (now : TakeoverOptions H → Nat) : Prop :=
  ∀ p env options attemptId row s' out,
    s.phase p = .takingOver env options attemptId →
    s.table env.identity = some row → row.status = .completed →
    now options < row.expiresAt → step s (.takeOver p) = some (s', out) →
    s'.table = s.table

section Contract

variable [DecidableEq H]

theorem staleAttemptInert (s : State H R) : StaleAttemptInert s := by
  intro p env r leaseEnd hstale
  have hlost : ∀ {env' : ReserveEnv H} {r' : IdempotencyReservation}
      {leaseEnd' : Nat} {row : Row H R},
      (s.phase p = .executing env r leaseEnd ∧
        s.phase p = .executing env' r' leaseEnd') ∨
      (s.phase p = .rolledBack env r leaseEnd ∧
        s.phase p = .rolledBack env' r' leaseEnd') →
      s.table env'.identity = some row → ¬ OwnedInProgress r' row := by
    rintro env' r' leaseEnd' row (⟨hph, hph'⟩ | ⟨hph, hph'⟩) hrow howned <;>
    · rw [hph] at hph'
      cases hph'
      exact hstale row hrow howned.1
  refine ⟨fun output s' out hph h => ?_, fun s' out hph h => ?_⟩
  · cases moves_of_step h with
    | finalizeOwned hph' hfree hrow howned =>
        exact absurd howned (hlost (Or.inl ⟨hph, hph'⟩) hrow)
    | finalizeLost => exact ⟨rfl, rfl⟩
  · cases moves_of_step h with
    | markFailedOwned hph' hfree hrow howned =>
        exact absurd howned (hlost (Or.inr ⟨hph, hph'⟩) hrow)
    | markFailedLost => exact ⟨rfl, rfl⟩

theorem completedRowKept (s : State H R) :
    CompletedRowKept s TakeoverOptions.nowMs := by
  intro p env options attemptId row s' out hph hrow hdone hlive h
  cases moves_of_step h with
  | takeOverWon hph' hfree hrow' hwins =>
      rw [hph] at hph'
      cases hph'
      rw [hrow] at hrow'
      cases hrow'
      exact absurd hwins.2 (not_reclaimable_of_completed hdone hlive)
  | takeOverLost => rfl

theorem ownReadingPassed_of_reachWhen {c : Conf (State H R) (Event H R)}
    (h : protocol.ReachWhen OneClock c) : OwnReadingPassed c.log := by
  refine h.invariant (I := fun c => OwnReadingPassed c.log) ?_ ?_
  · intro newer _ _ _ _ _ _ _ _ _ _ _ _ hlog
    cases newer <;> cases hlog
  · intro c a c' hc ih _ hnext newer between older p₁ p₂ env₁ env₂ r₁ r₂
      output₁ output₂ row₁ row₂ hlog hkey
    obtain ⟨s, out, hmoves, rfl⟩ := moves_of_next hnext
    rcases split_of_append hmoves.out_length_le hlog with
      ⟨hout, -, hlog'⟩ | ⟨rest, -, hrest⟩
    · obtain ⟨hrow₂, leaseEnd, hph⟩ := hmoves.committed_of_mem
        (hout ▸ List.mem_cons_self)
      obtain ⟨-, row', hrow', hid, hrun⟩ :=
        (owned_of_reach hc.reach).holder _ _ _ _ _ hph
      rw [hrow₂] at hrow'
      cases hrow'
      have hafter := aftermath_of_reachWhen hc between older p₁ env₁ r₁
        output₁ row₁ hlog'
      rw [hkey, hrow₂] at hafter
      rw [hkey]
      rcases hafter with hsame | hcleaned | ⟨row', hrow', -, htook⟩
      · cases hsame; cases hrun
      · exact Or.inl hcleaned
      · cases hrow'
        exact Or.inr (hid ▸ htook)
    · exact ih rest between older p₁ p₂ env₁ env₂ r₁ r₂ output₁ output₂ row₁
        row₂ hrest hkey

/-- One key, whatever runs on it. Two commits have the end of the first
one's row between them, and a replay copies the last commit; an attempt that
lost the row is inert, and a completed row is kept for its retention. With
readings of one clock the retention has also passed for the attempt that
commits second, and it is kept by the true time. -/
theorem key_committedAtMostOnce {c : Conf (State H R) (Event H R)}
    (h : protocol.Reach c) :
    CommitsApart c.log ∧ ReplaysLast c.log ∧ StaleAttemptInert c.st ∧
      CompletedRowKept c.st TakeoverOptions.nowMs ∧
      (protocol.ReachWhen OneClock c → OwnReadingPassed c.log ∧
        CompletedRowKept c.st fun _ => c.st.clock) := by
  have hrec := recorded_of_reach h
  refine ⟨hrec.commitsApart, hrec.replaysLast, staleAttemptInert c.st,
    completedRowKept c.st, fun hone => ⟨ownReadingPassed_of_reachWhen hone, ?_⟩⟩
  intro p env options attemptId row s' out hph hrow hdone hlive hstep
  have hread := (inOrder_of_reachWhen hone).pending p env options attemptId hph
  exact completedRowKept c.st p env options attemptId row s' out hph hrow hdone
    (Nat.lt_of_le_of_lt hread hlive) hstep

end Contract

/-- Two sales under one key, two days apart, and a retry between them. -/
def saleEnv : ReserveEnv Nat where
  identity := ⟨"u1:s1", "c1", "sales.complete", "k1"⟩
  requestHash := 7
  timeout := 30000
  confirmationGrant := none

/-- Two sales under one key, the second after the retention of the first. -/
def twoSales : List (Act Nat Nat) :=
  [.call 1 saleEnv, .stampInsert 1 10 0, .insert 1, .finalize 1 5, .commit 1,
    .call 2 saleEnv, .stampInsert 2 20 0, .insert 2, .select 2,
    .decide 2 0 21, .tick 172800000, .call 3 saleEnv,
    .stampInsert 3 30 172800000, .insert 3, .select 3,
    .decide 3 172800000 31, .takeOver 3, .finalize 3 6, .commit 3]

theorem key_committedAtMostOnce_twoSales :
    ∃ c, protocol.exec protocol.start twoSales = some c ∧
      lastFinalized saleEnv.identity c.log = some (saleEnv, 6) ∧
      CommitsApart c.log ∧ ReplaysLast c.log ∧ OwnReadingPassed c.log := by
  obtain ⟨c, hc, hlast⟩ :
      ∃ c, protocol.exec protocol.start twoSales = some c ∧
        lastFinalized saleEnv.identity c.log = some (saleEnv, 6) :=
    ⟨_, rfl, rfl⟩
  have hone : protocol.ReachWhen OneClock c :=
    Machine.ReachWhen.start.of_exec _ (by decide) hc
  obtain ⟨hapart, hreplays, -, -, hclock⟩ := key_committedAtMostOnce hone.reach
  exact ⟨c, hc, hlast, hapart, hreplays, (hclock hone).1⟩

/-! ## Two clocks

The second call takes the sale over when its retention has passed and fails.
The third runs elsewhere, with a clock a millisecond behind: it takes the
failed row over, which needs no retention to have passed, and commits. -/

/-- Two sales under one key, by calls with clocks of their own. -/
def skewedSales : List (Act Nat Nat) :=
  [.call 1 saleEnv, .stampInsert 1 10 0, .insert 1, .finalize 1 5, .commit 1,
    .call 2 saleEnv, .stampInsert 2 20 172800000, .insert 2, .select 2,
    .decide 2 172800000 21, .takeOver 2, .rollback 2, .markFailed 2,
    .call 3 saleEnv, .stampInsert 3 30 172799999, .insert 3, .select 3,
    .decide 3 172799999 31, .takeOver 3, .finalize 3 6, .commit 3]

/-- The row of the first sale before its commit. It expires at 172800000. -/
def soldRow : Row Nat Nat := insertValues saleEnv 10 0

/-- The first takeover resets the row, as its retention has passed. -/
def expiredTakeover : TakeoverOptions Nat :=
  takeoverOf saleEnv (soldRow.completedWith 5) 172800000
    (some ⟨saleEnv.requestHash, 172800000 + idempotencyRetentionMs⟩)

/-- The row of an attempt that took an expired one over and failed. -/
def abandonedRow : Row Nat Nat :=
  (takeoverSet expiredTakeover 21 (soldRow.completedWith 5)).markedFailed

/-- The second takes a failed row as it is. -/
def failedTakeover : TakeoverOptions Nat :=
  takeoverOf saleEnv abandonedRow 172799999 none

/-- What happened between the two commits, the latest first. -/
def betweenSales : List (Event Nat Nat) :=
  [.tookOver 3 saleEnv failedTakeover 31 abandonedRow,
    .read 3 saleEnv.identity abandonedRow,
    .tookOver 2 saleEnv expiredTakeover 21 (soldRow.completedWith 5),
    .read 2 saleEnv.identity (soldRow.completedWith 5)]

/-- The second commit comes from an attempt for which the first one's
retention had not passed, and no cleanup has run. -/
theorem skewedSales_ownReadingTooEarly :
    ∃ c, protocol.exec protocol.start skewedSales = some c ∧
      ¬ OwnReadingPassed c.log := by
  obtain ⟨c, hc, hlog⟩ :
      ∃ c, protocol.exec protocol.start skewedSales = some c ∧
        c.log = .committed 3 saleEnv (reservationOf saleEnv 31) 6
            (takeoverSet failedTakeover 31 abandonedRow) ::
          (betweenSales ++ .committed 1 saleEnv (reservationOf saleEnv 10) 5
            soldRow :: [.inserted 1 saleEnv 10 0]) := ⟨_, rfl, rfl⟩
  refine ⟨c, hc, fun hpassed => ?_⟩
  rcases hpassed [] betweenSales _ _ _ _ _ _ _ _ _ _ _ hlog rfl with
    ⟨row, nowMs, hmem, -⟩ | ⟨q, env, options, row, hmem, -, hle⟩
  · simp [betweenSales] at hmem
  · simp only [betweenSales, List.mem_cons, List.not_mem_nil,
      Event.tookOver.injEq, reduceCtorEq, or_false, false_or] at hmem
    rcases hmem with ⟨-, -, rfl, -⟩ | ⟨-, -, -, hid, -⟩
    · exact absurd hle (by decide)
    · cases hid

end Shozee.Idempotency
