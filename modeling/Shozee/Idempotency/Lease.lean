import Shozee.Idempotency.Readings

/-!
# Leases against retention

A row carries two deadlines. The lease protects the attempt that runs, the
retention says how long a key is remembered, and the hook reads them in
different places: `reclaimableWhere` and the cleanup job let the retention
win. A fresh row has its retention two days out, far past its lease. A
takeover of a failed or stale row renews the lease and not the retention, so
near the end of its retention the row of a running attempt is up for
reclaiming: `live_lease_stolen`.

What holds is that nobody else is granted the row while a lease runs, as long
as leases end inside the retention of the row they are written to
(`LeaseInsideRetention`). The invariant is that the row of a live attempt is
its own, in progress, with the lease it was given.
-/

namespace Shozee.Idempotency

open Shozee.Run

variable {H R : Type}

/-- The attempt of a call that has reserved and not finished, with the end of
the lease it was given. -/
def Phase.lease : Phase H R →
    Option (ReserveEnv H × IdempotencyReservation × Nat)
  | .executing env r leaseEnd => some (env, r, leaseEnd)
  | .finalized env r leaseEnd _ => some (env, r, leaseEnd)
  | .rolledBack env r leaseEnd => some (env, r, leaseEnd)
  | _ => none

/-- The call and the key that an execution reservation is granted to. -/
def Event.grants : Event H R → Option (Nat × RowIdentity)
  | .inserted p env _ _ => some (p, env.identity)
  | .tookOver p env _ _ _ => some (p, env.identity)
  | _ => none

variable [DecidableEq H]

/-- Whoever the action grants a key, no other call's unfinished attempt on it
is still inside its lease. -/
def LeaseRespected (c : Conf (State H R) (Event H R)) (a : Act H R) : Prop :=
  ∀ s' out e q k, step c.st a = some (s', out) → e ∈ out →
    e.grants = some (q, k) → ∀ p env r leaseEnd, p ≠ q →
    (c.st.phase p).lease = some (env, r, leaseEnd) → env.identity = k →
    leaseEnd ≤ c.st.clock

/-- The key whose retention a plain takeover would keep, and the end of the
lease it would write there. -/
def Phase.renewal : Phase H R → Option (RowIdentity × Nat)
  | .takingOver env options _ =>
      match options.reset with
      | none => some (env.identity, options.nowMs + options.leaseMs)
      | some _ => none
  | _ => none

/-- The lease that the action leads to ends inside the retention of the row
it is written to: an insert and a reset start a new retention, a plain
takeover keeps the one it finds. -/
def LeaseInsideRetention (c : Conf (State H R) (Event H R)) :
    Act H R → Prop
  | .call _ env => env.leaseMs ≤ idempotencyRetentionMs
  | .takeOver p => ∀ kept ∈ (c.st.phase p).renewal,
      ∀ row ∈ c.st.table kept.1, kept.2 ≤ row.expiresAt
  | _ => True

instance (c : Conf (State H R) (Event H R)) :
    ∀ a : Act H R, Decidable (LeaseInsideRetention c a)
  | .call _ env =>
      inferInstanceAs (Decidable (env.leaseMs ≤ idempotencyRetentionMs))
  | .takeOver p =>
      inferInstanceAs (Decidable (∀ kept ∈ (c.st.phase p).renewal,
        ∀ row ∈ c.st.table kept.1, kept.2 ≤ row.expiresAt))
  | .tick _ | .stampInsert _ _ _ | .insert _ | .select _ | .decide _ _ _
  | .reload _ | .resolve _ _ | .finalize _ _ | .commit _ | .rollback _
  | .markFailed _ | .cleanup _ _ => .isTrue trivial

/-- One clock, and every lease inside its row's retention. -/
def LeasesFit (c : Conf (State H R) (Event H R)) (a : Act H R) : Prop :=
  OneClock c a ∧ LeaseInsideRetention c a

instance (c : Conf (State H R) (Event H R)) (a : Act H R) :
    Decidable (LeasesFit c a) :=
  inferInstanceAs (Decidable (_ ∧ _))

/-! ## The invariant

A lease is worth something only while the row is there. `Leased` says so of
every lease that runs, and its step lemma looks at the two statements that
write leases. -/

/-- The environment of a call that has not ended. -/
def Phase.env : Phase H R → Option (ReserveEnv H)
  | .idle | .ended => none
  | .starting env _ | .inserting env _ _ _ | .selecting env _
  | .selected env _ | .takingOver env _ _ | .reloading env | .reloaded env _
  | .executing env _ _ | .finalized env _ _ _ | .rolledBack env _ _ =>
      some env

/-- Leases end inside retentions, and a live lease is the one on the row. -/
structure Leased (s : State H R) : Prop where
  bounded : ∀ p env, (s.phase p).env = some env →
    env.leaseMs ≤ idempotencyRetentionMs
  inside : ∀ k row, s.table k = some row → row.leaseExpiresAt ≤ row.expiresAt
  live : ∀ p env r leaseEnd, (s.phase p).lease = some (env, r, leaseEnd) →
    s.clock < leaseEnd → ∃ row, s.table env.identity = some row ∧
      OwnedInProgress r row ∧ row.leaseExpiresAt = leaseEnd

section Steps

variable {s s' : State H R} {a : Act H R} {out : List (Event H R)}

theorem Moves.bounded (h : Moves s a s' out)
    {c : Conf (State H R) (Event H R)} (hok : LeaseInsideRetention c a)
    (hI : Leased s) :
    ∀ p env, (s'.phase p).env = some env →
      env.leaseMs ≤ idempotencyRetentionMs := by
  intro q env hq
  have hupdate : ∀ {p : Nat} {ph : Phase H R},
      (ph.env = some env → (s.phase p).env = some env) →
      (if q = p then ph else s.phase q).env = some env →
      env.leaseMs ≤ idempotencyRetentionMs := by
    intro p ph hph hif
    split at hif
    · exact hI.bounded p env (hph hif)
    · exact hI.bounded q env hif
  cases h with
  | tick | cleanup => exact hI.bounded q env hq
  | call hph =>
      simp only [setPhase_phase] at hq
      split at hq
      · cases hq; exact hok
      · exact hI.bounded q env hq
  | stampInsert hph | insertNew hph | insertConflict hph | selectAgain hph
  | selectGone hph | selectRow hph | decideAnswer hph | decideTakeOver hph
  | takeOverWon hph | takeOverLost hph | reloadGone hph | reloadRow hph
  | resolve hph | finalizeOwned hph | finalizeLost hph | commit hph
  | rollbackExecuting hph | rollbackFinalized hph | markFailedOwned hph
  | markFailedLost hph =>
      simp only [setPhase_phase] at hq
      refine hupdate ?_ hq
      rw [hph]
      intro henv
      first
        | exact henv
        | cases henv

/-- A takeover that fits writes a lease that its row outlives. -/
theorem takeoverSet_inside {p : Nat} {env : ReserveEnv H}
    {options : TakeoverOptions H} {b : AttemptId} {row : Row H R}
    {c : Conf (State H R) (Event H R)}
    (hok : LeaseInsideRetention c (.takeOver p))
    (hph : c.st.phase p = .takingOver env options b)
    (hrow : c.st.table env.identity = some row)
    (hsigned : PhaseSigned c.st p (.takingOver env options b : Phase H R))
    (hbound : env.leaseMs ≤ idempotencyRetentionMs) :
    (takeoverSet options b row).leaseExpiresAt ≤
      (takeoverSet options b row).expiresAt := by
  obtain ⟨-, existing, nowMs, -, hdec⟩ := hsigned
  obtain ⟨-, hnow, hlease, hreset⟩ := decideExisting_options hdec
  rw [takeoverSet_leaseExpiresAt, takeoverSet_expiresAt]
  cases hr : options.reset with
  | none =>
      show options.nowMs + options.leaseMs ≤ row.expiresAt
      refine hok (env.identity, options.nowMs + options.leaseMs) ?_ row ?_
      · rw [hph]
        simp only [Phase.renewal, hr, Option.mem_def]
      · exact hrow
  | some reset =>
      show options.nowMs + options.leaseMs ≤ reset.expiresAt
      rw [hreset reset hr]
      omega

theorem Moves.inside (h : Moves s a s' out) {log : List (Event H R)}
    (hown : Owned s) (hok : LeaseInsideRetention ⟨s, log⟩ a)
    (hI : Leased s) :
    ∀ k row, s'.table k = some row → row.leaseExpiresAt ≤ row.expiresAt := by
  intro k row hrow
  have hupdate : ∀ {j : RowIdentity} {new : Row H R},
      (if k = j then some new else s.table k) = some row →
      new.leaseExpiresAt ≤ new.expiresAt →
      row.leaseExpiresAt ≤ row.expiresAt := by
    intro j new hif hnew
    split at hif
    · cases hif; exact hnew
    · exact hI.inside k row hif
  cases h with
  | @insertNew p env round b nowMs hph =>
      simp only [setPhase_table, setRow_table] at hrow
      refine hupdate hrow ?_
      rw [insertValues_leaseExpiresAt, insertValues_expiresAt]
      have hbound : env.leaseMs ≤ idempotencyRetentionMs :=
        hI.bounded p env (by rw [hph]; rfl)
      omega
  | @takeOverWon p env options b row₀ hph hfree hprev =>
      simp only [setPhase_table, setRow_table] at hrow
      refine hupdate hrow (takeoverSet_inside hok hph hprev ?_ ?_)
      · have hsigned := hown.phases p
        rw [hph] at hsigned
        exact hsigned
      · exact hI.bounded p env (by rw [hph]; rfl)
  | commit hph hprev =>
      simp only [setPhase_table, setLock_table, setRow_table] at hrow
      have hinside := hI.inside _ _ hprev
      exact hupdate hrow hinside
  | markFailedOwned hph hfree hprev =>
      simp only [setPhase_table, setRow_table] at hrow
      have hinside := hI.inside _ _ hprev
      exact hupdate hrow hinside
  | cleanup =>
      simp only [setRow_table] at hrow
      split at hrow
      · cases hrow
      · exact hI.inside k row hrow
  | _ => exact hI.inside k row hrow

/-- The id of an unfinished attempt was drawn by its call. -/
theorem Owned.drawnBy_of_lease (hown : Owned s) {p : Nat}
    {env : ReserveEnv H} {r : IdempotencyReservation} {leaseEnd : Nat}
    (hp : (s.phase p).lease = some (env, r, leaseEnd)) :
    s.drawnBy r.attemptId = some (p, env) := by
  have hsigned := hown.phases p
  cases hph : s.phase p with
  | executing env' r' leaseEnd' =>
      rw [hph] at hp hsigned
      cases hp
      exact hsigned.2
  | finalized env' r' leaseEnd' output =>
      rw [hph] at hp hsigned
      cases hp
      exact hsigned.2
  | rolledBack env' r' leaseEnd' =>
      rw [hph] at hp hsigned
      cases hp
      exact hsigned.2
  | idle | starting | inserting | selecting | selected | takingOver
  | reloading | reloaded | ended => rw [hph] at hp; cases hp

/-- Two unfinished attempts that own one row are one call's. -/
theorem Owned.call_eq_of_ownedRow (hown : Owned s) {p q : Nat}
    {env env' : ReserveEnv H} {r r' : IdempotencyReservation}
    {leaseEnd leaseEnd' : Nat} {row : Row H R}
    (hp : (s.phase p).lease = some (env, r, leaseEnd))
    (hq : (s.phase q).lease = some (env', r', leaseEnd'))
    (hr : OwnedInProgress r row) (hr' : OwnedInProgress r' row) : p = q := by
  have hdrawn := hown.drawnBy_of_lease hp
  rw [← hr.1, hr'.1, hown.drawnBy_of_lease hq] at hdrawn
  cases hdrawn
  rfl

/-- An attempt is unfinished because it was, or because this step granted it
the row. -/
theorem Moves.lease_cases (h : Moves s a s' out) {p : Nat}
    {env : ReserveEnv H} {r : IdempotencyReservation} {leaseEnd : Nat}
    (hp' : (s'.phase p).lease = some (env, r, leaseEnd)) :
    (s.phase p).lease = some (env, r, leaseEnd) ∨
      ∃ row, s'.table env.identity = some row ∧ OwnedInProgress r row ∧
        row.leaseExpiresAt = leaseEnd := by
  have hmoved : ∀ {q : Nat} {ph : Phase H R},
      (ph.lease = some (env, r, leaseEnd) →
        (s.phase q).lease = some (env, r, leaseEnd)) →
      (if p = q then ph else s.phase p).lease = some (env, r, leaseEnd) →
      (s.phase p).lease = some (env, r, leaseEnd) := by
    intro q ph hph hif
    split at hif
    · next heq => rw [heq]; exact hph hif
    · exact hif
  cases h with
  | tick | cleanup => exact Or.inl hp'
  | insertNew hph hnone =>
      simp only [setPhase_phase] at hp'
      split at hp'
      · cases hp'
        refine Or.inr ⟨_, Function.update_self _ _ _, ⟨?_, ?_⟩, ?_⟩
        · exact insertValues_attemptId _ _ _
        · exact insertValues_status _ _ _
        · exact insertValues_leaseExpiresAt _ _ _
      · exact Or.inl hp'
  | takeOverWon hph hfree hrow hwins =>
      simp only [setPhase_phase] at hp'
      split at hp'
      · cases hp'
        refine Or.inr ⟨_, Function.update_self _ _ _, ⟨?_, ?_⟩, ?_⟩
        · exact takeoverSet_attemptId _ _ _
        · exact takeoverSet_status _ _ _
        · exact takeoverSet_leaseExpiresAt _ _ _
      · exact Or.inl hp'
  | call hph | stampInsert hph | insertConflict hph | selectAgain hph
  | selectGone hph | selectRow hph | decideAnswer hph | decideTakeOver hph
  | takeOverLost hph | reloadGone hph | reloadRow hph | resolve hph
  | finalizeOwned hph | finalizeLost hph | commit hph | rollbackExecuting hph
  | rollbackFinalized hph | markFailedOwned hph | markFailedLost hph =>
      simp only [setPhase_phase] at hp'
      refine Or.inl (hmoved ?_ hp')
      rw [hph]
      intro hlease
      first
        | exact hlease
        | cases hlease

/-- No step touches the row of an attempt that stays unfinished and inside
its lease. -/
theorem Moves.liveRow_kept (h : Moves s a s' out)
    {log : List (Event H R)} (hown : Owned s)
    (hclock : OneClock ⟨s, log⟩ a)
    (hread : ∀ q env options b, s.phase q = .takingOver env options b →
      options.nowMs ≤ s.clock) (hI : Leased s)
    {p : Nat} {env : ReserveEnv H} {r : IdempotencyReservation}
    {leaseEnd : Nat} (hp : (s.phase p).lease = some (env, r, leaseEnd))
    (hp' : (s'.phase p).lease = some (env, r, leaseEnd))
    (hlive : s.clock < leaseEnd) :
    s'.table env.identity = s.table env.identity := by
  obtain ⟨row, hrow, howned, hlease⟩ := hI.live p env r leaseEnd hp hlive
  have hinside := hI.inside _ _ hrow
  have hsafe : ∀ {nowMs : Nat}, nowMs ≤ s.clock → ¬ Reclaimable row nowMs :=
    fun hnow => not_reclaimable_of_live howned hinside (by omega) hnow
  have hother : ∀ {k : RowIdentity} {new : Option (Row H R)},
      env.identity ≠ k →
      (if env.identity = k then new else s.table env.identity) =
        s.table env.identity :=
    fun hne => if_neg hne
  cases h with
  | insertNew hph hnone =>
      simp only [setPhase_table, setRow_table]
      refine hother fun heq => ?_
      rw [heq, hnone] at hrow
      cases hrow
  | takeOverWon hph hfree hprev hwins =>
      simp only [setPhase_table, setRow_table]
      refine hother fun heq => ?_
      rw [heq, hprev] at hrow
      cases hrow
      exact hsafe (hread _ _ _ _ hph) hwins.2
  | cleanup hfree hprev hexp =>
      simp only [setRow_table]
      refine hother fun heq => ?_
      rw [heq, hprev] at hrow
      cases hrow
      exact hsafe hclock (Or.inl hexp)
  | @commit q env' r' leaseEnd' output row' hph hprev =>
      simp only [setPhase_table, setLock_table, setRow_table]
      refine hother fun heq => ?_
      rw [heq, hprev] at hrow
      cases hrow
      obtain ⟨-, row'', hrow'', howned'⟩ := hown.holder _ _ _ _ _ hph
      rw [hprev] at hrow''
      cases hrow''
      have hpq := hown.call_eq_of_ownedRow hp (by rw [hph]; rfl) howned howned'
      simp only [setPhase_phase, hpq, if_pos] at hp'
      cases hp'
  | @markFailedOwned q env' r' leaseEnd' row' hph hfree hprev howned' =>
      simp only [setPhase_table, setRow_table]
      refine hother fun heq => ?_
      rw [heq, hprev] at hrow
      cases hrow
      have hpq := hown.call_eq_of_ownedRow hp (by rw [hph]; rfl) howned howned'
      simp only [setPhase_phase, hpq, if_pos] at hp'
      cases hp'
  | _ => rfl

theorem Leased.step {c : Conf (State H R) (Event H R)} (hI : Leased c.st)
    (hown : Owned c.st) (horder : InOrder c) (hok : LeasesFit c a)
    (h : Moves c.st a s' out) : Leased s' where
  bounded := h.bounded hok.2 hI
  inside := h.inside hown hok.2 hI
  live := by
    intro p env r leaseEnd hp' hlive
    have hclock := h.clock_le
    rcases h.lease_cases hp' with hp | hgranted
    · rw [h.liveRow_kept hown hok.1 horder.pending hI hp hp' (by omega)]
      exact hI.live p env r leaseEnd hp (by omega)
    · exact hgranted

theorem leased_of_reachWhen {c : Conf (State H R) (Event H R)}
    (h : protocol.ReachWhen LeasesFit c) : Leased c.st := by
  refine h.invariant (I := fun c => Leased c.st) ?_ ?_
  · exact
      { bounded := fun _ _ henv => by cases henv
        inside := fun _ _ hrow => by cases hrow
        live := fun _ _ _ _ hlease => by cases hlease }
  · intro c a c' hc ih hok hnext
    obtain ⟨s, out, hmoves, rfl⟩ := moves_of_next hnext
    exact ih.step (owned_of_reach hc.reach)
      (inOrder_of_reachWhen (hc.mono fun _ _ h => h.1)) hok hmoves

end Steps

/-! ## Who is granted a key

What the invariant is for: as long as an attempt runs inside its lease, nobody
else is granted the key. -/

/-- In runs whose leases end inside the retention of their rows, a key is
granted to nobody while another call's attempt on it is unfinished and inside
its lease. -/
theorem lease_respected_of_fit {c : Conf (State H R) (Event H R)}
    {a : Act H R} (h : protocol.ReachWhen LeasesFit c) (hnow : OneClock c a) :
    LeaseRespected c a := by
  intro s' out e q k hstep he hgrants p env r leaseEnd hpq hp hkey
  by_contra hlive
  have hI := leased_of_reachWhen h
  have horder := inOrder_of_reachWhen (h.mono fun _ _ hok => hok.1)
  obtain ⟨row, hrow, howned, hlease⟩ :=
    hI.live p env r leaseEnd hp (Nat.lt_of_not_le hlive)
  have hinside := hI.inside _ _ hrow
  cases moves_of_step hstep with
  | insertNew hph hnone =>
      cases List.mem_singleton.mp he
      cases hgrants
      rw [hkey, hnone] at hrow
      cases hrow
  | takeOverWon hph hfree hprev hwins =>
      cases List.mem_singleton.mp he
      cases hgrants
      rw [hkey, hprev] at hrow
      cases hrow
      exact not_reclaimable_of_live howned hinside (by omega)
        (horder.pending _ _ _ _ hph) hwins.2
  | selectGone | selectRow | decideAnswer | reloadGone | reloadRow | resolve
  | finalizeLost | commit | cleanup =>
      cases List.mem_singleton.mp he
      cases hgrants
  | _ => cases he

/-- A stale attempt is taken over at the end of its lease, not before. -/
def staleLease : List (Act Nat Nat) :=
  [.call 1 saleEnv, .stampInsert 1 10 0, .insert 1, .tick 45000,
    .call 2 saleEnv, .stampInsert 2 20 45000, .insert 2, .select 2,
    .decide 2 45000 21]

theorem lease_respected_of_fit_staleLease :
    ∃ c, protocol.exec protocol.start staleLease = some c ∧
      (protocol.next c (.takeOver 2)).isSome ∧
      LeaseRespected c (.takeOver 2) := by
  obtain ⟨c, hc, hnext⟩ :
      ∃ c, protocol.exec protocol.start staleLease = some c ∧
        (protocol.next c (.takeOver 2)).isSome := ⟨_, rfl, rfl⟩
  exact ⟨c, hc, hnext, lease_respected_of_fit
    (Machine.ReachWhen.start.of_exec _ (by decide) hc) trivial⟩

/-! ## A lease that outlives its row

The theorem needs leases to end inside retentions. Without it a row can be
cleaned up, or reset, under an attempt that still runs. -/

/-- The second attempt takes a stale row over ten seconds before the end of
its retention; the third finds the retention over and resets the row. -/
def lateTakeover : List (Act Nat Nat) :=
  [.call 1 saleEnv, .stampInsert 1 10 0, .insert 1, .tick 172790000,
    .call 2 saleEnv, .stampInsert 2 20 172790000, .insert 2, .select 2,
    .decide 2 172790000 21, .takeOver 2, .tick 172800000, .call 3 saleEnv,
    .stampInsert 3 30 172800000, .insert 3, .select 3,
    .decide 3 172800000 31]

/-- The second attempt's handler is running, with half a minute of its lease
left, when the third is granted the key. -/
theorem live_lease_stolen :
    ¬ ∀ (c : Conf (State Nat Nat) (Event Nat Nat)) (a : Act Nat Nat),
      protocol.ReachWhen OneClock c → OneClock c a → LeaseRespected c a := by
  intro hall
  obtain ⟨c, hc, hlease, hclock, s', out, hstep, hgrants⟩ :
      ∃ c, protocol.exec protocol.start lateTakeover = some c ∧
        (c.st.phase 2).lease =
          some (saleEnv, reservationOf saleEnv 21, 172835000) ∧
        c.st.clock = 172800000 ∧
        ∃ s' out, step c.st (.takeOver 3) = some (s', out) ∧
          ∃ e ∈ out, e.grants = some (3, saleEnv.identity) :=
    ⟨_, rfl, rfl, rfl, _, _, rfl, _, List.mem_cons_self, rfl⟩
  obtain ⟨e, he, hgrants⟩ := hgrants
  have hrespected := hall c (.takeOver 3)
    (Machine.ReachWhen.start.of_exec _ (by decide) hc) trivial
  have hover := hrespected s' out e 3 _ hstep he hgrants 2 saleEnv _ _
    (by decide) hlease rfl
  omega

end Shozee.Idempotency
