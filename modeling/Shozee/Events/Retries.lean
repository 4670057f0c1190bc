import Shozee.Events.ExactlyOnce

/-!
# The retry budget of a delivery

A claim counts an attempt before its handler runs, a failure is recorded
against that count, and a claim that is found blocked takes the count back. So
what the back-off sees is the whole history of the row. `Tally` keeps that
history beside the state: the failures recorded and the claims lost to an
expired lease since the row was created or last replayed. A row at rest has
counted just these, and a row in hand one more (`AttemptsCounted`), from which
the schedule of the retries follows.
-/

namespace Shozee.Events

open Shozee.Run

variable {O : Type}

/-! ## What is counted

The tally of one delivery, kept by what the steps report. It starts anew when
the row is created and when it is replayed. -/

/-- What has counted as an attempt since a delivery was created or replayed:
the failures recorded, and the claims whose lease ran out. -/
structure Tally where
  failures : Nat
  lost : Nat
deriving DecidableEq, Repr

/-- The attempts that the row has to account for. -/
def Tally.spent (tally : Tally) : Nat := tally.failures + tally.lost

/-- The delivery whose failure is recorded. -/
def Event.failedRow : Event O → Option DeliveryKey
  | .failed _ o => some o.key
  | _ => none

/-- The delivery that is claimed. -/
def Event.claimedRow : Event O → Option DeliveryKey
  | .claimed _ o => some o.key
  | _ => none

/-- What a step adds to the tally of a delivery. A row that is woken up starts
again, and a claim of a row in process takes over from one that was lost. -/
def Tally.note (key : DeliveryKey) (s s' : State O) (out : List (Event O))
    (tally : Tally) : Tally :=
  match s.deliveries key, s'.deliveries key with
  | some row, some row' =>
      if row.status = .dead ∧ row'.status = .pending then ⟨0, 0⟩
      else if ∃ e ∈ out, e.failedRow = some key then
        { tally with failures := tally.failures + 1 }
      else if row.status = .processing ∧
          ∃ e ∈ out, e.claimedRow = some key then
        { tally with lost := tally.lost + 1 }
      else tally
  | none, some _ => ⟨0, 0⟩
  | _, none => tally

/-- The runs of the protocol, with the tally of one delivery. -/
def tallied (hashtext : String → Int) (key : DeliveryKey) :
    Machine (State O × Tally) (Act O) (Event O) :=
  (protocol hashtext).watched ⟨0, 0⟩ (Tally.note key)

/-- The tally leaves out no run: every run of the protocol has one. -/
theorem tallied_of_reach {hashtext : String → Int} {key : DeliveryKey}
    {c : Conf (State O) (Event O)} (h : (protocol hashtext).Reach c) :
    ∃ tally, (tallied hashtext key).Reach ⟨(c.st, tally), c.log⟩ :=
  exists_watched h

/-- The attempt that a row has counted and that is not decided, or was the one
that succeeded. -/
def Delivery.inHand (row : Delivery) : Nat :=
  match row.status with
  | .processing | .processed => 1
  | .pending | .dead => 0

theorem Event.row_of_failedRow {e : Event O} {key : DeliveryKey}
    (h : e.failedRow = some key) : e.row = some key := by
  cases e with
  | failed => exact h
  | _ => cases h

theorem Event.row_of_claimedRow {e : Event O} {key : DeliveryKey}
    (h : e.claimedRow = some key) : e.row = some key := by
  cases e with
  | claimed => exact h
  | _ => cases h

/-! ## The tally, step by step

What each of the seven writes does to the row's count and to the tally. Only a
claim and a failure move both. -/

section Note

variable {s s' : State O} {out : List (Event O)} {key : DeliveryKey}
  {row row' : Delivery} {tally : Tally}

theorem Tally.note_created (h : s.deliveries key = none)
    (h' : s'.deliveries key = some row') :
    tally.note key s s' out = ⟨0, 0⟩ := by
  unfold Tally.note
  rw [h, h']

theorem Tally.note_replayed (h : s.deliveries key = some row)
    (h' : s'.deliveries key = some row') (hdead : row.status = .dead)
    (hpending : row'.status = .pending) :
    tally.note key s s' out = ⟨0, 0⟩ := by
  unfold Tally.note
  rw [h, h']
  exact if_pos ⟨hdead, hpending⟩

theorem Tally.note_failed {p : Nat} {o : ExecuteOptions} (hkey : o.key = key)
    (h : s.deliveries key = some row) (h' : s'.deliveries key = some row')
    (hdead : row.status ≠ .dead) :
    tally.note key s s' [.failed p o] =
      { tally with failures := tally.failures + 1 } := by
  have hfailed : ∃ e ∈ [(.failed p o : Event O)], e.failedRow = some key :=
    ⟨_, List.mem_singleton_self _, congrArg some hkey⟩
  unfold Tally.note
  rw [h, h']
  exact (if_neg fun hwoken => hdead hwoken.1).trans (if_pos hfailed)

theorem Tally.note_claimed {p : Nat} {o : ExecuteOptions} (hkey : o.key = key)
    (h : s.deliveries key = some row) (h' : s'.deliveries key = some row')
    (hdead : row.status ≠ .dead) :
    tally.note key s s' [.claimed p o] =
      if row.status = .processing then { tally with lost := tally.lost + 1 }
      else tally := by
  have hfailed : ¬ ∃ e ∈ [(.claimed p o : Event O)],
      e.failedRow = some key := by
    rintro ⟨e, he, hrow⟩
    rw [List.mem_singleton.mp he] at hrow
    cases hrow
  have hclaimed : ∃ e ∈ [(.claimed p o : Event O)],
      e.claimedRow = some key :=
    ⟨_, List.mem_singleton_self _, congrArg some hkey⟩
  unfold Tally.note
  rw [h, h']
  dsimp only
  rw [if_neg fun hwoken => hdead hwoken.1, if_neg hfailed]
  by_cases hprocessing : row.status = .processing
  · rw [if_pos ⟨hprocessing, hclaimed⟩, if_pos hprocessing]
  · rw [if_neg fun hlost => hprocessing hlost.1, if_neg hprocessing]

theorem Tally.note_other (h : s.deliveries key = some row)
    (h' : s'.deliveries key = some row')
    (hdead : row.status = .dead → row'.status ≠ .pending)
    (hfailed : ¬ ∃ e ∈ out, e.failedRow = some key)
    (hclaimed : ¬ ∃ e ∈ out, e.claimedRow = some key) :
    tally.note key s s' out = tally := by
  unfold Tally.note
  rw [h, h']
  dsimp only
  rw [if_neg fun hwoken => hdead hwoken.1 hwoken.2, if_neg hfailed,
    if_neg fun hlost => hclaimed hlost.2]

/-- A step that leaves the row alone leaves its tally. -/
theorem Tally.note_kept (h' : s'.deliveries key = s.deliveries key)
    (hout : ∀ e ∈ out, e.row ≠ some key) :
    tally.note key s s' out = tally := by
  cases h : s.deliveries key with
  | none =>
      unfold Tally.note
      rw [h', h]
  | some row =>
      refine Tally.note_other h (h'.trans h) (fun hdead hpending => ?_) ?_ ?_
      · rw [hdead] at hpending
        cases hpending
      · rintro ⟨e, he, hrow⟩
        exact hout e he (Event.row_of_failedRow hrow)
      · rintro ⟨e, he, hrow⟩
        exact hout e he (Event.row_of_claimedRow hrow)

end Note

/-- What the row has counted is what the tally says: the failures, the claims
that were lost, and the attempt in hand. Five park it. -/
structure AttemptsCounted (key : DeliveryKey)
    (c : Conf (State O × Tally) (Event O)) : Prop where
  attempts : ∀ row, c.st.1.deliveries key = some row →
    row.attempts = c.st.2.spent + row.inHand
  dead : ∀ row, c.st.1.deliveries key = some row → row.status = .dead →
    deliveryMaxAttempts ≤ c.st.2.spent
  alive : ∀ row, c.st.1.deliveries key = some row → row.status ≠ .dead →
    c.st.2.failures < deliveryMaxAttempts
  bounded : c.st.2.failures ≤ deliveryMaxAttempts

section Steps

variable {hashtext : String → Int} {key : DeliveryKey}
  {c c' : Conf (State O × Tally) (Event O)} {a : Act O}

/-- A report of the owner that is neither a failure nor a claim. -/
theorem Tally.note_owned {s s' : State O} {e : Event O} {row row' : Delivery}
    {tally : Tally} (h : s.deliveries key = some row)
    (h' : s'.deliveries key = some row') (hdead : row.status ≠ .dead)
    (hfailed : e.failedRow = none) (hclaimed : e.claimedRow = none) :
    tally.note key s s' [e] = tally := by
  refine Tally.note_other h h' (fun hd => absurd hd hdead) ?_ ?_
  · rintro ⟨e', he, hrow⟩
    rw [List.mem_singleton.mp he, hfailed] at hrow
    cases hrow
  · rintro ⟨e', he, hrow⟩
    rw [List.mem_singleton.mp he, hclaimed] at hrow
    cases hrow

theorem Delivery.inHand_of_processing {row : Delivery}
    (h : row.status = .processing) : row.inHand = 1 := by
  unfold Delivery.inHand
  rw [h]

variable {s' : State O} {out : List (Event O)} {row : Delivery}

/-- What has to be shown of a row that is written, given its new tally. -/
theorem attemptsCounted_of_row {tally : Tally}
    (hnote : c.st.2.note key c.st.1 s' out = tally)
    (hnow : s'.deliveries key = some row)
    (hattempts : row.attempts = tally.spent + row.inHand)
    (hdead : row.status = .dead → deliveryMaxAttempts ≤ tally.spent)
    (halive : row.status ≠ .dead → tally.failures < deliveryMaxAttempts)
    (hbounded : tally.failures ≤ deliveryMaxAttempts) :
    AttemptsCounted key
      ⟨(s', c.st.2.note key c.st.1 s' out), out ++ c.log⟩ := by
  subst hnote
  refine ⟨fun row' h' => ?_, fun row' h' => ?_, fun row' h' => ?_,
    hbounded⟩ <;>
  · cases hnow.symm.trans h'
    assumption

/-- A claim takes an attempt in hand; the one that was in hand is lost. -/
theorem AttemptsCounted.claimed (h : AttemptsCounted key c) {p t : Nat}
    {o : ExecuteOptions} (hkey : o.key = key)
    (hwas : c.st.1.deliveries key = some row)
    (hstatus : row.status = .pending ∨ row.status = .processing)
    (hnow : s'.deliveries key = some (row.claimedAs o.claimedBy t)) :
    AttemptsCounted key ⟨(s', c.st.2.note key c.st.1 s' [.claimed p o]),
      [.claimed p o] ++ c.log⟩ := by
  have hdead : row.status ≠ .dead := by
    intro hdead
    rw [hdead] at hstatus
    rcases hstatus with h | h <;> cases h
  have hattempts := h.attempts row hwas
  have halive := h.alive row hwas hdead
  have hnote : c.st.2.note key c.st.1 s' [.claimed p o] = _ :=
    Tally.note_claimed hkey hwas hnow hdead
  rcases hstatus with hpending | hprocessing
  · rw [if_neg (by rw [hpending]; nofun)] at hnote
    refine attemptsCounted_of_row hnote hnow ?_ nofun (fun _ => halive)
      h.bounded
    have hhand : row.inHand = 0 := by
      unfold Delivery.inHand
      rw [hpending]
    rw [hhand] at hattempts
    show row.attempts + 1 = c.st.2.spent + 1
    rw [hattempts]
  · rw [if_pos hprocessing] at hnote
    refine attemptsCounted_of_row hnote hnow ?_ nofun (fun _ => halive)
      h.bounded
    rw [Delivery.inHand_of_processing hprocessing] at hattempts
    show row.attempts + 1 = c.st.2.failures + (c.st.2.lost + 1) + 1
    unfold Tally.spent at hattempts
    omega

/-- A failure spends the attempt in hand, and the fifth parks the row. -/
theorem AttemptsCounted.failed (h : AttemptsCounted key c) {p t : Nat}
    {o : ExecuteOptions} {error : CoreError} (hkey : o.key = key)
    (hwas : c.st.1.deliveries key = some row)
    (howned : OwnedProcessing o.claimedBy row)
    (hnow : s'.deliveries key = some (row.failedWith error t)) :
    AttemptsCounted key ⟨(s', c.st.2.note key c.st.1 s' [.failed p o]),
      [.failed p o] ++ c.log⟩ := by
  have hdead : row.status ≠ .dead := by rw [howned.1]; nofun
  have hattempts := h.attempts row hwas
  have halive := h.alive row hwas hdead
  rw [Delivery.inHand_of_processing howned.1] at hattempts
  have hnote : c.st.2.note key c.st.1 s' [.failed p o] = _ :=
    Tally.note_failed hkey hwas hnow hdead
  have hspent : ({ c.st.2 with failures := c.st.2.failures + 1 } :
      Tally).spent = row.attempts := by
    rw [hattempts]
    show c.st.2.failures + 1 + c.st.2.lost =
      c.st.2.failures + c.st.2.lost + 1
    omega
  have hle : c.st.2.failures + 1 ≤ row.attempts := by
    rw [hattempts]
    unfold Tally.spent
    omega
  by_cases hfifth : deliveryMaxAttempts ≤ row.attempts
  · have hstatus : (row.failedWith error t).status = .dead := if_pos hfifth
    refine attemptsCounted_of_row hnote hnow ?_ (fun _ => hspent ▸ hfifth)
      (fun hn => absurd hstatus hn) halive
    unfold Delivery.inHand
    rw [hstatus, hspent]
    rfl
  · have hstatus : (row.failedWith error t).status = .pending := if_neg hfifth
    refine attemptsCounted_of_row hnote hnow ?_ ?_
      (fun _ => by dsimp only; omega) halive
    · unfold Delivery.inHand
      rw [hstatus, hspent]
      rfl
    · rw [hstatus]
      nofun

/-- One write of the row, on both sides of the count. -/
theorem AttemptsCounted.step (h : AttemptsCounted key c)
    (hwrites : Writes c.st.1 s' out key) :
    AttemptsCounted key
      ⟨(s', c.st.2.note key c.st.1 s' out), out ++ c.log⟩ := by
  cases hwrites with
  | kept hsame hout =>
      have hnote : c.st.2.note key c.st.1 s' out = c.st.2 :=
        Tally.note_kept hsame hout
      cases hwas : c.st.1.deliveries key with
      | none =>
          have hnone := hsame.trans hwas
          refine ⟨?_, ?_, ?_, ?_⟩
          · exact fun row hnow => absurd (hnone.symm.trans hnow) nofun
          · exact fun row hnow => absurd (hnone.symm.trans hnow) nofun
          · exact fun row hnow => absurd (hnone.symm.trans hnow) nofun
          · rw [hnote]
            exact h.bounded
      | some row =>
          exact attemptsCounted_of_row hnote (hsame.trans hwas)
            (h.attempts row hwas) (h.dead row hwas) (h.alive row hwas)
            h.bounded
  | created hnone hnow =>
      exact attemptsCounted_of_row (Tally.note_created hnone hnow) hnow rfl
        nofun (fun _ => by decide) (by decide)
  | replayed hwas hdead hnow =>
      exact attemptsCounted_of_row (Tally.note_replayed hwas hnow hdead rfl)
        hnow rfl nofun (fun _ => by decide) (by decide)
  | claimed hkey hwas hstatus hnow hout =>
      subst hout
      exact h.claimed hkey hwas hstatus hnow
  | @released p o t row hkey hwas howned hnow hout =>
      have hdead : row.status ≠ .dead := by rw [howned.1]; nofun
      have hattempts := h.attempts row hwas
      rw [Delivery.inHand_of_processing howned.1] at hattempts
      refine attemptsCounted_of_row
        (by rw [hout]; exact Tally.note_owned hwas hnow hdead rfl rfl)
        hnow ?_ nofun (fun _ => h.alive row hwas hdead) h.bounded
      show row.attempts - 1 = c.st.2.spent + 0
      omega
  | @applied p o event output t row hkey hwas howned hnow hout =>
      have hdead : row.status ≠ .dead := by rw [howned.1]; nofun
      have hattempts := h.attempts row hwas
      rw [Delivery.inHand_of_processing howned.1] at hattempts
      exact attemptsCounted_of_row
        (by rw [hout]; exact Tally.note_owned hwas hnow hdead rfl rfl)
        hnow hattempts nofun (fun _ => h.alive row hwas hdead) h.bounded
  | failed hkey hwas howned hnow hout =>
      subst hout
      exact h.failed hkey hwas howned hnow

theorem attemptsCounted_of_reach (h : (tallied hashtext key).Reach c) :
    AttemptsCounted key c := by
  refine h.invariant (I := AttemptsCounted key) ?_ ?_
  · exact ⟨nofun, nofun, nofun, Nat.zero_le _⟩
  · intro c a c' hc ih _ hnext
    obtain ⟨s, out, hstep, rfl⟩ := Machine.next_eq_some.mp hnext
    obtain ⟨hstep, hnote⟩ := watched_step.mp hstep
    have hlocked := locked_of_reach (reach_of_watched hc)
    have hkept := ih.step ((moves_of_step hstep).writes hlocked key)
    rw [← hnote] at hkept
    exact hkept

end Steps

/-! ## The budget

At rest the count of a row is its tally, so the failure that is recorded now is
the one that the delay is computed for, and the fifth one to count parks the
row. -/

/-- What the failure that is the `k`-th to count leaves: a time to try again,
and a parked row from the fifth on. -/
def Scheduled (nowMs k : Nat) (row : Delivery) : Prop :=
  if k < 5 then
    row.status = .pending ∧
      row.nextAttemptAt = some (nowMs + 1000 * 2 ^ (k - 1))
  else row.status = .dead ∧ row.nextAttemptAt = none

/-- What a configuration and the steps from it keep to. `failed` and `dead`
are the schedule of a run in which no claim was lost; a lost claim counts as
one more failure would. -/
structure RetryBudget (hashtext : String → Int) (key : DeliveryKey)
    (c : Conf (State O × Tally) (Event O)) : Prop where
  atRest : ∀ row, c.st.1.deliveries key = some row →
    row.status = .pending ∨ row.status = .dead →
    row.attempts = c.st.2.failures + c.st.2.lost
  dead : ∀ row, c.st.1.deliveries key = some row → c.st.2.lost = 0 →
    (row.status = .dead ↔ c.st.2.failures = 5)
  failed : ∀ p o error nowMs c', c.st.1.phase p = .recording o error →
    o.key = key →
    (tallied hashtext key).next c (.recordCommit p nowMs) = some c' →
    c'.st.2 = ⟨c.st.2.failures + 1, c.st.2.lost⟩ ∧ c'.st.2.failures ≤ 5 ∧
      ∃ row, c'.st.1.deliveries key = some row ∧
        Scheduled nowMs (c'.st.2.failures + c'.st.2.lost) row
  deferred : ∀ p a c', (tallied hashtext key).next c a = some c' →
    c'.st.1.phase p ≠ c.st.1.phase p →
    c'.st.1.phase p = .ended (some .deferred) →
    c'.st.2 = c.st.2 ∧
      (c'.st.1.deliveries key = c.st.1.deliveries key ∨
        ∃ row row', c.st.1.deliveries key = some row ∧
          c'.st.1.deliveries key = some row' ∧ row'.status = .pending ∧
          row'.attempts + 1 = row.attempts)
  replayed : ∀ consumer eventId nowMs row c',
    (tallied hashtext key).next c
      (.replayDeadDeliveries consumer eventId nowMs) = some c' →
    c.st.1.deliveries key = some row → row.status = .dead →
    key.consumer = consumer → (eventId = none ∨ eventId = some key.eventId) →
    c'.st.2 = ⟨0, 0⟩ ∧ ∃ row', c'.st.1.deliveries key = some row' ∧
      row'.status = .pending ∧ row'.attempts = 0 ∧
      row'.nextAttemptAt = some nowMs
  takenOver : ∀ p o event nowMs row c',
    c.st.1.phase p = .claiming o event nowMs → o.key = key →
    (tallied hashtext key).next c (.claimCommit p) = some c' →
    c.st.1.deliveries key = some row → row.status = .processing →
    c'.st.2 = ⟨c.st.2.failures, c.st.2.lost + 1⟩ ∧
      ∃ row', c'.st.1.deliveries key = some row' ∧
        row'.attempts = row.attempts + 1

/-- A call that ends deferred has left the rows alone, or has given a claim of
its own back. -/
theorem Moves.deferred {hashtext : String → Int} {s s' : State O} {a : Act O}
    {out : List (Event O)} (h : Moves hashtext s a s' out) {q : Nat}
    (hne : s'.phase q ≠ s.phase q)
    (hq : s'.phase q = .ended (some .deferred)) :
    (s'.deliveries = s.deliveries ∧ out = []) ∨
      ∃ p o row t, s.deliveries o.key = some row ∧
        OwnedProcessing o.claimedBy row ∧
        s'.deliveries =
          Function.update s.deliveries o.key (some (row.released t)) ∧
        out = [.released p o] := by
  -- The call that moved is the one that ended.
  have hmoved : ∀ {p : Nat} {ph : Phase O},
      s'.phase q = (if q = p then ph else s.phase q) →
      ph ≠ .ended (some .deferred) → False := by
    intro p ph hphase hph
    rw [hphase] at hne hq
    split at hq
    · exact hph hq
    · next hother =>
        rw [if_neg hother] at hne
        exact hne rfl
  cases h with
  | emit | redispatch | replayed => exact (hne rfl).elim
  | dispatchClaim hclaimed hbatch hrest =>
      have hphase := congrArg State.phase hrest
      exact (hne (congrFun hphase q)).elim
  | dispatchCommit hb hdeliveries houtbox hbatch hrest =>
      have hphase := congrArg State.phase hrest
      exact (hne (congrFun hphase q)).elim
  | dispatchAbort hbatch hrest =>
      have hphase := congrArg State.phase hrest
      exact (hne (congrFun hphase q)).elim
  | start | claimLocked | claimOrdering | claiming | execLocked | execOrdering
  | releasing | handling | handled | finalized | recording =>
      exact (hmoved (setPhase_phase ..) nofun).elim
  | claimed | failed => exact (hmoved (endTx_phase ..) nofun).elim
  | @applied p lost =>
      refine (hmoved (endTx_phase ..) ?_).elim
      cases lost <;> nofun
  | @released p o event t row hph hrow howned =>
      exact .inr ⟨p, o, row, t, hrow, howned, rfl, rfl⟩
  | quit => exact .inl ⟨rfl, rfl⟩

theorem step_recordCommit {hashtext : String → Int} {s s' : State O}
    {out : List (Event O)} {p nowMs : Nat} {o : ExecuteOptions}
    {error : CoreError} (hph : s.phase p = .recording o error)
    (h : step hashtext s (.recordCommit p nowMs) = some (s', out)) :
    ∃ row, s.deliveries o.key = some row ∧
      s'.deliveries o.key = some (row.failedWith error nowMs) ∧
      out = [.failed p o] := by
  simp only [step, hph] at h
  split at h
  · next row hrow =>
      cases h
      exact ⟨row, hrow, write_self, rfl⟩
  · cases h

theorem step_claimCommit {hashtext : String → Int} {s s' : State O}
    {out : List (Event O)} {p nowMs : Nat} {o : ExecuteOptions}
    {event : OutboxEvent} (hph : s.phase p = .claiming o event nowMs)
    (h : step hashtext s (.claimCommit p) = some (s', out)) :
    ∃ row, s.deliveries o.key = some row ∧
      s'.deliveries o.key = some (row.claimedAs o.claimedBy nowMs) ∧
      out = [.claimed p o] := by
  simp only [step, hph] at h
  split at h
  · next row hrow =>
      cases h
      exact ⟨row, hrow, write_self, rfl⟩
  · cases h

/-- The row of a failure whose count is `k`. -/
theorem scheduled_failedWith {row : Delivery} {error : CoreError}
    {nowMs : Nat} :
    Scheduled nowMs row.attempts (row.failedWith error nowMs) := by
  unfold Scheduled Delivery.failedWith retryAt deliveryMaxAttempts
  by_cases hfifth : 5 ≤ row.attempts
  · rw [if_neg (Nat.not_lt.mpr hfifth)]
    exact ⟨if_pos hfifth, if_pos hfifth⟩
  · rw [if_pos (Nat.not_le.mp hfifth)]
    exact ⟨if_neg hfifth, if_neg hfifth⟩

theorem retryBudget_of_reach {hashtext : String → Int} {key : DeliveryKey}
    {c : Conf (State O × Tally) (Event O)}
    (h : (tallied hashtext key).Reach c) : RetryBudget hashtext key c := by
  have hcounted := attemptsCounted_of_reach h
  have hlocked := locked_of_reach (reach_of_watched h)
  refine ⟨?atRest, ?dead, ?failed, ?deferred, ?replayed, ?takenOver⟩
  case atRest =>
    intro row hrow hrest
    have hattempts := hcounted.attempts row hrow
    unfold Delivery.inHand at hattempts
    rcases hrest with hstatus | hstatus <;>
    · rw [hstatus] at hattempts
      exact hattempts
  case dead =>
    intro row hrow hlost
    have halive := hcounted.alive row hrow
    have hparked := hcounted.dead row hrow
    have hbounded := hcounted.bounded
    unfold Tally.spent deliveryMaxAttempts at *
    constructor
    · intro hdead
      have := hparked hdead
      omega
    · intro hfive
      by_contra hdead
      have := halive hdead
      omega
  case failed =>
    intro p o error nowMs c' hph hkey hnext
    subst hkey
    have hcounted' := attemptsCounted_of_reach (.next h trivial hnext)
    obtain ⟨s, out, hstep, rfl⟩ := Machine.next_eq_some.mp hnext
    obtain ⟨hstep, hnote⟩ := watched_step.mp hstep
    obtain ⟨row, hrow, hnow, rfl⟩ := step_recordCommit hph hstep
    have hprocessing : row.status = .processing := by
      have hknown := hlocked.rows p
      rw [hph] at hknown
      obtain ⟨row', hrow', howned⟩ := hknown
      cases hrow.symm.trans hrow'
      exact howned.1
    have htally := hnote.trans
      (Tally.note_failed rfl hrow hnow (by rw [hprocessing]; nofun))
    have hattempts := hcounted.attempts row hrow
    rw [Delivery.inHand_of_processing hprocessing] at hattempts
    have hk : s.2.failures + s.2.lost = row.attempts := by
      rw [htally, hattempts]
      show c.st.2.failures + 1 + c.st.2.lost =
        c.st.2.failures + c.st.2.lost + 1
      omega
    refine ⟨htally, hcounted'.bounded, _, hnow, ?_⟩
    rw [hk]
    exact scheduled_failedWith
  case deferred =>
    intro p a c' hnext hne hq
    obtain ⟨s, out, hstep, rfl⟩ := Machine.next_eq_some.mp hnext
    obtain ⟨hstep, hnote⟩ := watched_step.mp hstep
    rcases (moves_of_step hstep).deferred hne hq with ⟨hsame, rfl⟩ |
      ⟨q, o, row, t, hrow, howned, hwritten, rfl⟩
    · have hkept := congrFun hsame key
      exact ⟨hnote.trans (Tally.note_kept hkept nofun), .inl hkept⟩
    · by_cases hkey : key = o.key
      · subst hkey
        have hnow : s.1.deliveries o.key = some (row.released t) := by
          rw [hwritten, Function.update_self]
        have hattempts := hcounted.attempts row hrow
        rw [Delivery.inHand_of_processing howned.1] at hattempts
        refine ⟨hnote.trans (Tally.note_owned hrow hnow ?_ rfl rfl),
          .inr ⟨row, _, hrow, hnow, rfl, ?_⟩⟩
        · rw [howned.1]
          nofun
        · show row.attempts - 1 + 1 = row.attempts
          omega
      · have hkept : s.1.deliveries key = c.st.1.deliveries key := by
          rw [hwritten, Function.update_of_ne hkey]
        refine ⟨hnote.trans (Tally.note_kept hkept fun e he => ?_),
          .inl hkept⟩
        rw [List.mem_singleton.mp he]
        exact fun heq => hkey (Option.some.inj heq).symm
  case replayed =>
    intro consumer eventId nowMs row c' hnext hrow hdead hconsumer hid
    obtain ⟨s, out, hstep, rfl⟩ := Machine.next_eq_some.mp hnext
    obtain ⟨hstep, hnote⟩ := watched_step.mp hstep
    have hnow : s.1.deliveries key = some (row.replayed nowMs) := by
      have hs := congrArg Prod.fst (Option.some.inj hstep)
      rw [← hs]
      show (c.st.1.deliveries key).map _ = _
      rw [hrow, Option.map_some, if_pos ⟨hconsumer, hdead, hid⟩]
    exact ⟨hnote.trans (Tally.note_replayed hrow hnow hdead rfl), _, hnow,
      rfl, rfl, rfl⟩
  case takenOver =>
    intro p o event nowMs row c' hph hkey hnext hrow hprocessing
    subst hkey
    obtain ⟨s, out, hstep, rfl⟩ := Machine.next_eq_some.mp hnext
    obtain ⟨hstep, hnote⟩ := watched_step.mp hstep
    obtain ⟨row', hrow', hnow, rfl⟩ := step_claimCommit hph hstep
    cases hrow.symm.trans hrow'
    have htally := hnote.trans
      (Tally.note_claimed rfl hrow hnow (by rw [hprocessing]; nofun))
    rw [if_pos hprocessing] at htally
    exact ⟨htally, _, hnow, rfl⟩

/-- An execution whose handler fails. -/
def failedExecution (p nowMs : Nat) : List (Act Nat) :=
  [.start p ⟨orderCards, 1, "w1"⟩, .claimLock p nowMs, .claimAggregate p,
    .claimCheck p, .claimCommit p, .execLock p, .execAggregate p,
    .execCheck p nowMs, .fail p coreInvariantError, .recordLock p,
    .recordCommit p nowMs]

/-- An order event whose handler fails at once, and again a second later. -/
def failedTwice : List (Act Nat) :=
  [.emit 1 "orders.created" ⟨"order", "o1"⟩, .dispatchClaim 0 [orderCards] 100,
    .dispatchCommit 0 1000] ++ failedExecution 1 1000 ++ failedExecution 2 2000

theorem retryBudget_of_reach_failedTwice :
    ∃ c, (tallied textLength ⟨"chat.order-card-updater", 1⟩).exec
        (tallied textLength ⟨"chat.order-card-updater", 1⟩).start
        failedTwice = some c ∧
      c.st.2 = ⟨2, 0⟩ ∧
      (∃ row, c.st.1.deliveries ⟨"chat.order-card-updater", 1⟩ = some row ∧
        row.attempts = 2 ∧ row.nextAttemptAt = some 4000) ∧
      RetryBudget textLength ⟨"chat.order-card-updater", 1⟩ c := by
  obtain ⟨c, hc, htally, hrow⟩ : ∃ c,
      (tallied textLength ⟨"chat.order-card-updater", 1⟩).exec
        (tallied textLength ⟨"chat.order-card-updater", 1⟩).start
        failedTwice = some c ∧ c.st.2 = ⟨2, 0⟩ ∧
      ∃ row, c.st.1.deliveries ⟨"chat.order-card-updater", 1⟩ = some row ∧
        row.attempts = 2 ∧ row.nextAttemptAt = some 4000 :=
    ⟨_, rfl, by decide, _, rfl, rfl, rfl⟩
  exact ⟨c, hc, htally, hrow,
    retryBudget_of_reach (Machine.reach_of_exec _ hc)⟩

end Shozee.Events
