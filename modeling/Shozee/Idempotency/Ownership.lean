import Shozee.Idempotency.Protocol

/-!
# Who a row belongs to

Every `WHERE` of the hook names an attempt id, so the protocol stands on two
facts about reachable states, and this file is their proof.

The first is about what an id says. Ids are drawn once, so the call and the
environment that drew one are a function of it; every row, in the table or in
the hands of a call that read it, carries the request hash of the environment
that drew its attempt id. This is why a takeover that leaves `request_hash`
alone leaves the right one.

The second is about the lock. A call between `finalize` and the end of its
transaction holds the lock on its row, nobody else does, and the row is still
its own and in progress. This is why the commit completes the row that
`finalize` tested.
-/

namespace Shozee.Idempotency

open Shozee.Run

variable {H R : Type}

/-- The row carries the identity and the hash its attempt id was drawn for. -/
def Signed (s : State H R) (k : RowIdentity) (row : Row H R) : Prop :=
  ∃ q env, s.drawnBy row.attemptId = some (q, env) ∧ env.identity = k ∧
    env.requestHash = row.requestHash

/-- The reservation names an attempt of this call. -/
def Reserved (s : State H R) (p : Nat) (env : ReserveEnv H)
    (r : IdempotencyReservation) : Prop :=
  r = reservationOf env r.attemptId ∧ s.drawnBy r.attemptId = some (p, env)

/-- What a call's own variables say about the ids it has drawn and the rows
it has read. -/
def PhaseSigned [DecidableEq H] (s : State H R) (p : Nat) :
    Phase H R → Prop
  | .inserting env _ attemptId _ => s.drawnBy attemptId = some (p, env)
  | .selected env existing => Signed s env.identity existing
  | .takingOver env options attemptId =>
      s.drawnBy attemptId = some (p, env) ∧ ∃ existing nowMs,
        Signed s env.identity existing ∧
          decideExisting env existing nowMs = .takeOver options
  | .executing env r _ => Reserved s p env r
  | .finalized env r _ _ => Reserved s p env r
  | .rolledBack env r _ => Reserved s p env r
  | _ => True

/-- The invariant of this file. -/
structure Owned [DecidableEq H] (s : State H R) : Prop where
  rows : ∀ k row, s.table k = some row → Signed s k row
  phases : ∀ p, PhaseSigned s p (s.phase p)
  holder : ∀ p env r leaseEnd output,
    s.phase p = .finalized env r leaseEnd output →
      s.lock env.identity = some p ∧
        ∃ row, s.table env.identity = some row ∧ OwnedInProgress r row
  held : ∀ k p, s.lock k = some p → ∃ env r leaseEnd output,
    s.phase p = .finalized env r leaseEnd output ∧ env.identity = k

/-! ## Ids are drawn once

An id tells which call drew it and with what environment. So two rows under one
id carry one request hash, whoever has copied the row since. -/

theorem Signed.mono {s s' : State H R} {k : RowIdentity} {row : Row H R}
    (hgrow : ∀ a x, s.drawnBy a = some x → s'.drawnBy a = some x)
    (h : Signed s k row) : Signed s' k row := by
  obtain ⟨q, env, hdrawn, hrest⟩ := h
  exact ⟨q, env, hgrow _ _ hdrawn, hrest⟩

/-- Two rows under one attempt id carry one hash. -/
theorem Signed.requestHash_eq {s : State H R} {k k' : RowIdentity}
    {row row' : Row H R} (h : Signed s k row) (h' : Signed s k' row')
    (hid : row.attemptId = row'.attemptId) :
    row.requestHash = row'.requestHash := by
  obtain ⟨q, env, hdrawn, -, hhash⟩ := h
  obtain ⟨q', env', hdrawn', -, hhash'⟩ := h'
  rw [hid, hdrawn'] at hdrawn
  cases hdrawn
  exact hhash.symm.trans hhash'

/-- The hash on a row is the hash of the call that drew its id. -/
theorem Signed.requestHash_of_drawnBy {s : State H R} {k : RowIdentity}
    {row : Row H R} {p : Nat} {env : ReserveEnv H} (h : Signed s k row)
    (hdrawn : s.drawnBy row.attemptId = some (p, env)) :
    env.identity = k ∧ env.requestHash = row.requestHash := by
  obtain ⟨q, env', hdrawn', hk, hhash⟩ := h
  rw [hdrawn] at hdrawn'
  cases hdrawn'
  exact ⟨hk, hhash⟩

section Steps

variable [DecidableEq H] {s s' : State H R} {a : Act H R}
  {out : List (Event H R)}

theorem PhaseSigned.mono {p : Nat} {ph : Phase H R}
    (hgrow : ∀ a x, s.drawnBy a = some x → s'.drawnBy a = some x)
    (h : PhaseSigned s p ph) : PhaseSigned s' p ph := by
  cases ph with
  | inserting env round attemptId nowMs => exact hgrow _ _ h
  | selected env existing => exact Signed.mono hgrow h
  | takingOver env options attemptId =>
      obtain ⟨hdrawn, existing, nowMs, hsigned, hdec⟩ := h
      exact ⟨hgrow _ _ hdrawn, existing, nowMs, hsigned.mono hgrow, hdec⟩
  | executing env r leaseEnd => exact ⟨h.1, hgrow _ _ h.2⟩
  | finalized env r leaseEnd output => exact ⟨h.1, hgrow _ _ h.2⟩
  | rolledBack env r leaseEnd => exact ⟨h.1, hgrow _ _ h.2⟩
  | idle | starting | selecting | reloading | reloaded | ended => trivial

/-- No step forgets who drew an id. -/
theorem Moves.drawnBy_mono (h : Moves s a s' out) :
    ∀ b x, s.drawnBy b = some x → s'.drawnBy b = some x := by
  intro b x hb
  have hdraw : ∀ p env attemptId, s.drawnBy attemptId = none →
      (s.draw p env attemptId).drawnBy b = some x := by
    intro p env attemptId hfresh
    rw [draw_drawnBy, if_neg]
    · exact hb
    · rintro rfl
      rw [hfresh] at hb
      cases hb
  cases h with
  | stampInsert hph hfresh => exact hdraw _ _ _ hfresh
  | decideTakeOver hph hdec hfresh => exact hdraw _ _ _ hfresh
  | _ => exact hb

/-- A takeover that wins leaves the row with the taker's own hash: a reset
writes it, and without one the row read had it already. -/
theorem takeoverSet_signed {p : Nat} {env : ReserveEnv H}
    {options : TakeoverOptions H} {attemptId : AttemptId} {row : Row H R}
    (hph : PhaseSigned s p (.takingOver env options attemptId : Phase H R))
    (hrow : Signed s env.identity row) (hwins : TakeoverWins options row) :
    (takeoverSet options attemptId row).requestHash = env.requestHash := by
  obtain ⟨-, existing, nowMs, hread, hdec⟩ := hph
  rw [takeoverSet_requestHash]
  obtain ⟨-, ⟨-, rfl⟩ | ⟨-, hhash, -, rfl⟩⟩ := decideExisting_takeOver hdec
  · rfl
  · show row.requestHash = env.requestHash
    rw [hrow.requestHash_eq hread hwins.1, hhash]

/-! ## The invariant, field by field

One lemma for each field of `Owned`, over `Moves`, and then the step. Where a
field speaks of all calls only the moving one is looked at. -/

/-- Only the moving call's variables change, so only they are looked at. -/
theorem phaseSigned_update {p : Nat} {ph : Phase H R}
    (hgrow : ∀ b x, s.drawnBy b = some x → s'.drawnBy b = some x)
    (hold : ∀ q, PhaseSigned s q (s.phase q))
    (hphase : ∀ q, s'.phase q = if q = p then ph else s.phase q)
    (hnew : PhaseSigned s' p ph) (q : Nat) :
    PhaseSigned s' q (s'.phase q) := by
  rw [hphase]
  split
  · next heq => rw [heq]; exact hnew
  · exact (hold q).mono hgrow

theorem Moves.phaseSigned (h : Moves s a s' out) (hI : Owned s) :
    ∀ p, PhaseSigned s' p (s'.phase p) := by
  have hgrow := h.drawnBy_mono
  have hold := hI.phases
  have hat : ∀ {p : Nat} {ph : Phase H R}, s.phase p = ph →
      PhaseSigned s' p ph :=
    fun hph => hph ▸ (hold _).mono hgrow
  cases h with
  | tick => exact fun q => (hold q).mono hgrow
  | cleanup => exact fun q => (hold q).mono hgrow
  | call | insertConflict | selectAgain | selectGone | decideAnswer
  | takeOverLost | reloadGone | reloadRow | resolve | commit
  | markFailedOwned | markFailedLost =>
      exact phaseSigned_update hgrow hold (fun q => setPhase_phase _ _ q _)
        trivial
  | stampInsert hph hfresh =>
      refine phaseSigned_update hgrow hold (fun q => setPhase_phase _ _ q _) ?_
      show (if _ then _ else _) = _
      rw [if_pos rfl]
  | decideTakeOver hph hdec hfresh =>
      refine phaseSigned_update hgrow hold (fun q => setPhase_phase _ _ q _) ?_
      refine ⟨?_, _, _, hat hph, hdec⟩
      show (if _ then _ else _) = _
      rw [if_pos rfl]
  | selectRow hph hrow =>
      refine phaseSigned_update hgrow hold (fun q => setPhase_phase _ _ q _) ?_
      exact (hI.rows _ _ hrow).mono hgrow
  | insertNew hph hrow =>
      refine phaseSigned_update hgrow hold (fun q => setPhase_phase _ _ q _) ?_
      exact ⟨rfl, hat hph⟩
  | takeOverWon hph hlock hrow hwins =>
      refine phaseSigned_update hgrow hold (fun q => setPhase_phase _ _ q _) ?_
      exact ⟨rfl, (hat hph).1⟩
  | finalizeOwned hph | finalizeLost hph | rollbackExecuting hph
  | rollbackFinalized hph =>
      refine phaseSigned_update hgrow hold (fun q => setPhase_phase _ _ q _) ?_
      have hreserved : Reserved _ _ _ _ := hat hph
      exact hreserved

theorem Moves.rowsSigned (h : Moves s a s' out) (hI : Owned s) :
    ∀ k row, s'.table k = some row → Signed s' k row := by
  have hgrow := h.drawnBy_mono
  intro k row hrow
  -- Where the row is the one that was there, nothing is to be shown.
  have hold : s.table k = some row → Signed s' k row :=
    fun hk => (hI.rows k row hk).mono hgrow
  -- A row that keeps its id and hash stays signed.
  have hsame : ∀ {j : RowIdentity} {row₀ row₁ : Row H R},
      s.table j = some row₀ →
      (if k = j then some row₁ else s.table k) = some row →
      row₁.attemptId = row₀.attemptId → row₁.requestHash = row₀.requestHash →
      Signed s' k row := by
    intro j row₀ row₁ hj hk hid hhash
    split at hk
    · next heq =>
        cases hk
        obtain ⟨q, env, hdrawn, hkey, hh⟩ := (hI.rows _ _ hj).mono hgrow
        exact ⟨q, env, hid ▸ hdrawn, heq ▸ hkey, hhash ▸ hh⟩
    · exact hold hk
  cases h with
  | @insertNew p env round attemptId nowMs hph _ =>
      simp only [setPhase_table, setRow_table] at hrow
      split at hrow
      · next heq =>
          cases hrow
          have hdrawn := hI.phases p
          rw [hph] at hdrawn
          refine ⟨p, env, ?_, heq.symm, ?_⟩
          · rw [insertValues_attemptId]
            exact hgrow _ _ hdrawn
          · exact insertValues_requestHash env attemptId nowMs |>.symm
      · exact hold hrow
  | @takeOverWon p env options attemptId row₀ hph _ hprev hwins =>
      simp only [setPhase_table, setRow_table] at hrow
      split at hrow
      · next heq =>
          cases hrow
          have hsigned := hI.phases p
          rw [hph] at hsigned
          refine ⟨p, env, ?_, heq.symm, ?_⟩
          · rw [takeoverSet_attemptId]
            exact hgrow _ _ hsigned.1
          · exact (takeoverSet_signed hsigned (hI.rows _ _ hprev) hwins).symm
      · exact hold hrow
  | commit hph hprev =>
      simp only [setPhase_table, setLock_table, setRow_table] at hrow
      exact hsame hprev hrow rfl rfl
  | markFailedOwned hph _ hprev _ =>
      simp only [setPhase_table, setRow_table] at hrow
      exact hsame hprev hrow rfl rfl
  | cleanup hlock hprev hexp =>
      simp only [setRow_table] at hrow
      split at hrow
      · cases hrow
      · exact hold hrow
  | _ => exact hold hrow

/-- While a call is between `finalize` and the end of its transaction, no
step of anybody else's touches its row or its lock: the statements that write
a row want it unlocked, and the insert wants it absent. -/
theorem Moves.lockedRow_kept (h : Moves s a s' out) (hI : Owned s) {q : Nat}
    {env : ReserveEnv H} {r : IdempotencyReservation} {leaseEnd : Nat}
    {output : R} (hq : s.phase q = .finalized env r leaseEnd output)
    (hq' : s'.phase q = .finalized env r leaseEnd output) :
    s'.lock env.identity = s.lock env.identity ∧
      s'.table env.identity = s.table env.identity := by
  obtain ⟨hlocked, row, hrow, -⟩ := hI.holder q env r leaseEnd output hq
  have hne : ∀ {k : RowIdentity}, s.lock k = none → env.identity ≠ k := by
    rintro k hfree rfl
    rw [hfree] at hlocked
    cases hlocked
  -- Another holder's key is another key.
  have hother : ∀ {p : Nat} {k : RowIdentity}, s.lock k = some p →
      env.identity = k → q = p := by
    rintro p k hk rfl
    exact Option.some.inj (hlocked.symm.trans hk)
  cases h with
  | insertNew hph hnone =>
      refine ⟨rfl, ?_⟩
      simp only [setPhase_table, setRow_table]
      rw [if_neg]
      intro heq
      rw [heq, hnone] at hrow
      cases hrow
  | takeOverWon hph hfree =>
      simp only [setPhase_table, setRow_table, setPhase_lock, setRow_lock]
      exact ⟨trivial, if_neg (hne hfree)⟩
  | markFailedOwned hph hfree =>
      simp only [setPhase_table, setRow_table, setPhase_lock, setRow_lock]
      exact ⟨trivial, if_neg (hne hfree)⟩
  | cleanup hfree =>
      simp only [setRow_table, setRow_lock]
      exact ⟨trivial, if_neg (hne hfree)⟩
  | finalizeOwned hph hfree =>
      simp only [setPhase_table, setLock_table, setPhase_lock, setLock_lock]
      exact ⟨if_neg (hne hfree), trivial⟩
  | commit hph hprev =>
      simp only [setPhase_phase] at hq'
      split at hq'
      · cases hq'
      · next hqp =>
          have hp := (hI.holder _ _ _ _ _ hph).1
          simp only [setPhase_table, setLock_table, setRow_table,
            setPhase_lock, setLock_lock, setRow_lock]
          exact ⟨if_neg fun heq => hqp (hother hp heq),
            if_neg fun heq => hqp (hother hp heq)⟩
  | rollbackFinalized hph =>
      simp only [setPhase_phase] at hq'
      split at hq'
      · cases hq'
      · next hqp =>
          have hp := (hI.holder _ _ _ _ _ hph).1
          simp only [setPhase_table, setLock_table, setPhase_lock,
            setLock_lock]
          exact ⟨if_neg fun heq => hqp (hother hp heq), trivial⟩
  | _ => exact ⟨rfl, rfl⟩

/-- A call is past its `finalize` because it was, or because this is it. -/
theorem Moves.finalized_cases (h : Moves s a s' out) {q : Nat}
    {env : ReserveEnv H} {r : IdempotencyReservation} {leaseEnd : Nat}
    {output : R} (hq' : s'.phase q = .finalized env r leaseEnd output) :
    s.phase q = .finalized env r leaseEnd output ∨
      (s'.lock env.identity = some q ∧
        ∃ row, s'.table env.identity = some row ∧ OwnedInProgress r row) := by
  have hmoved : ∀ {p : Nat} {ph : Phase H R},
      ph ≠ .finalized env r leaseEnd output →
      (if q = p then ph else s.phase q) = .finalized env r leaseEnd output →
      s.phase q = .finalized env r leaseEnd output := by
    intro p ph hph hif
    split at hif
    · exact absurd hif hph
    · exact hif
  cases h with
  | finalizeOwned hph hfree hrow howned =>
      simp only [setPhase_phase] at hq'
      split at hq'
      · next heq =>
          cases hq'
          refine Or.inr ⟨?_, _, hrow, howned⟩
          rw [heq]
          exact Function.update_self _ _ _
      · exact Or.inl hq'
  | tick | cleanup => exact Or.inl hq'
  | _ =>
      simp only [setPhase_phase] at hq'
      exact Or.inl (hmoved (by rintro ⟨⟩) hq')

theorem Moves.lock_holder (h : Moves s a s' out) (hI : Owned s) :
    ∀ q env r leaseEnd output,
      s'.phase q = .finalized env r leaseEnd output →
        s'.lock env.identity = some q ∧
          ∃ row, s'.table env.identity = some row ∧
            OwnedInProgress r row := by
  intro q env r leaseEnd output hq'
  rcases h.finalized_cases hq' with hq | hnew
  · obtain ⟨hlock, htable⟩ := h.lockedRow_kept hI hq hq'
    rw [hlock, htable]
    exact hI.holder q env r leaseEnd output hq
  · exact hnew

theorem Moves.lock_held (h : Moves s a s' out) (hI : Owned s) :
    ∀ k q, s'.lock k = some q → ∃ env r leaseEnd output,
      s'.phase q = .finalized env r leaseEnd output ∧ env.identity = k := by
  intro k q hk
  -- The holder did not move: it is in the phase it was in.
  have hkept : ∀ {p : Nat} {ph : Phase H R}, s.lock k = some q →
      (∀ env r leaseEnd output,
        s.phase p ≠ .finalized env r leaseEnd output) →
      ∃ env r leaseEnd output,
        (if q = p then ph else s.phase q) =
          .finalized env r leaseEnd output ∧ env.identity = k := by
    intro p ph hlocked hnot
    obtain ⟨env, r, leaseEnd, output, hq, hkey⟩ := hI.held k q hlocked
    refine ⟨env, r, leaseEnd, output, ?_, hkey⟩
    rw [if_neg]
    · exact hq
    · rintro rfl
      exact hnot _ _ _ _ hq
  -- The holder gave its own lock up, and this lock is another one.
  have hfreed : ∀ {p : Nat} {env : ReserveEnv H}
      {r : IdempotencyReservation} {leaseEnd : Nat} {output : R}
      {ph : Phase H R}, s.phase p = .finalized env r leaseEnd output →
      (if k = env.identity then none else s.lock k) = some q →
      ∃ env r leaseEnd output,
        (if q = p then ph else s.phase q) =
          .finalized env r leaseEnd output ∧ env.identity = k := by
    intro p env r leaseEnd output ph hp hlocked
    split at hlocked
    · cases hlocked
    · next hne =>
        obtain ⟨env', r', leaseEnd', output', hq, hkey⟩ :=
          hI.held k q hlocked
        refine ⟨env', r', leaseEnd', output', ?_, hkey⟩
        rw [if_neg]
        · exact hq
        · rintro rfl
          rw [hp] at hq
          cases hq
          exact hne hkey.symm
  cases h with
  | tick | cleanup => exact hI.held k q hk
  | @finalizeOwned p output env r leaseEnd row hph =>
      simp only [setPhase_lock, setLock_lock, setPhase_phase,
        setLock_phase] at hk ⊢
      split at hk
      · next heq =>
          cases hk
          exact ⟨env, r, leaseEnd, output, if_pos rfl, heq.symm⟩
      · exact hkept hk (by rw [hph]; rintro _ _ _ _ ⟨⟩)
  | commit hph =>
      simp only [setPhase_lock, setLock_lock, setRow_lock, setPhase_phase,
        setLock_phase, setRow_phase] at hk ⊢
      exact hfreed hph hk
  | rollbackFinalized hph =>
      simp only [setPhase_lock, setLock_lock, setPhase_phase,
        setLock_phase] at hk ⊢
      exact hfreed hph hk
  | call hph | stampInsert hph | insertNew hph | insertConflict hph
  | selectAgain hph | selectGone hph | selectRow hph | decideAnswer hph
  | decideTakeOver hph | takeOverWon hph | takeOverLost hph | reloadGone hph
  | reloadRow hph | resolve hph | finalizeLost hph | rollbackExecuting hph
  | markFailedOwned hph | markFailedLost hph =>
      simp only [setPhase_phase]
      exact hkept hk (by rw [hph]; rintro _ _ _ _ ⟨⟩)

theorem Owned.step (hI : Owned s) (h : Moves s a s' out) : Owned s' where
  rows := h.rowsSigned hI
  phases := h.phaseSigned hI
  holder := h.lock_holder hI
  held := h.lock_held hI

/-- In every reachable state rows, ids and locks agree. -/
theorem owned_of_reach {c : Conf (State H R) (Event H R)}
    (h : protocol.Reach c) : Owned c.st := by
  refine h.invariant (I := fun c => Owned c.st) ?_ ?_
  · exact
      { rows := fun _ _ hrow => by cases hrow
        phases := fun _ => trivial
        holder := fun _ _ _ _ _ hph => by cases hph
        held := fun _ _ hk => by cases hk }
  · intro c a c' _ ih _ hnext
    obtain ⟨s, out, hmoves, rfl⟩ := moves_of_next hnext
    exact ih.step hmoves

end Steps

end Shozee.Idempotency
