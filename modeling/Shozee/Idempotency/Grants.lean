import Shozee.Idempotency.Periods

/-!
# The grant on a row

A reservation made under a confirmation grant writes it to the row, so that
another attempt can resume it. This file says what the three columns are worth.

Read forwards: the row of an attempt that reserved under a grant carries that
grant (`RowsCarry`). Read backwards: a row that carries a challenge was given
it by a reservation of its own key, made with its own request hash
(`RowsGranted`). A takeover without a grant of its own leaves the columns, and
the hash with them; a reset replaces both.
-/

namespace Shozee.Idempotency

open Shozee.Run

variable {H R : Type}

/-- The columns of the row are this grant's. -/
def Row.Carries (row : Row H R) (grant : ConfirmationGrant) : Prop :=
  row.confirmationChallengeId = some grant.challengeId ∧
    row.confirmedAt = some grant.confirmedAt ∧
    row.confirmationExpiresAt = some grant.expiresAt

/-- The challenge that the reservation goes back to. -/
def ReserveEnv.challengeId (env : ReserveEnv H) : Option ChallengeId :=
  env.confirmationGrant.map ConfirmationGrant.challengeId

/-- The call and the environment of a reservation. -/
def Event.reservation : Event H R → Option (Nat × ReserveEnv H)
  | .inserted p env _ _ => some (p, env)
  | .tookOver p env _ _ _ => some (p, env)
  | _ => none

/-- The call may still reserve. -/
def Phase.asking : Phase H R → Option (ReserveEnv H)
  | .starting env _ | .inserting env _ _ _ | .selecting env _
  | .selected env _ | .takingOver env _ _ => some env
  | _ => none

/-- A challenge on the row was put there by a reservation with the row's
hash. -/
def RowGranted (log : List (Event H R)) (k : RowIdentity) (row : Row H R) :
    Prop :=
  ∀ ch, row.confirmationChallengeId = some ch → ∃ e ∈ log, ∃ p env grant,
    e.reservation = some (p, env) ∧ env.identity = k ∧
      env.requestHash = row.requestHash ∧
      env.confirmationGrant = some grant ∧ grant.challengeId = ch ∧
      row.Carries grant

theorem withGrant_carries {row : Row H R} {grant : ConfirmationGrant} :
    (row.withGrant (some grant)).Carries grant :=
  ⟨rfl, rfl, rfl⟩

theorem Row.Carries.unique {row : Row H R}
    {grant grant' : ConfirmationGrant} (h : row.Carries grant)
    (h' : row.Carries grant') : grant = grant' := by
  have hid := Option.some.inj (h.1.symm.trans h'.1)
  have hat := Option.some.inj (h.2.1.symm.trans h'.2.1)
  have hexp := Option.some.inj (h.2.2.symm.trans h'.2.2)
  cases grant
  cases grant'
  simp only at hid hat hexp
  rw [hid, hat, hexp]

theorem unexpiredGrant_eq_some {row : Row H R} {nowMs : Nat}
    {grant : ConfirmationGrant} (h : unexpiredGrant row nowMs = some grant) :
    row.Carries grant := by
  unfold unexpiredGrant at h
  split at h
  · next hch hat hexp =>
      split at h
      · cases h
      · cases h
        exact ⟨hch, hat, hexp⟩
  · cases h

/-- A grant is resumed from a row that carries it, and has the hash asked
for. -/
theorem interpretProbeRow_resume [DecidableEq H] {row : Row H R} {hash : H}
    {nowMs : Nat} {grant : ConfirmationGrant}
    (h : interpretProbeRow row hash nowMs = .resume grant) :
    row.Carries grant ∧ row.requestHash = hash := by
  simp only [interpretProbeRow] at h
  split at h
  · cases h
  · split at h
    · cases h
    · next hhash =>
        split at h
        · cases h
        · split at h
          · cases h
          · split at h
            · cases h
            · next hgrant =>
                cases h
                exact ⟨unexpiredGrant_eq_some hgrant, not_not.mp hhash⟩

theorem RowGranted.append {out log : List (Event H R)} {k : RowIdentity}
    {row : Row H R} (h : RowGranted log k row) :
    RowGranted (out ++ log) k row := by
  intro ch hch
  obtain ⟨e, he, hrest⟩ := h ch hch
  exact ⟨e, List.mem_append_right out he, hrest⟩

/-- A row that a reservation has just written its own grant to. -/
theorem rowGranted_of_carries {out log : List (Event H R)} {e : Event H R}
    {k : RowIdentity} {row : Row H R} {p : Nat} {env : ReserveEnv H}
    {grant : ConfirmationGrant} (he : e ∈ out)
    (hres : e.reservation = some (p, env)) (hk : env.identity = k)
    (hhash : env.requestHash = row.requestHash)
    (hgrant : env.confirmationGrant = some grant) (hcar : row.Carries grant) :
    RowGranted (out ++ log) k row := by
  intro ch hch
  rw [hcar.1] at hch
  exact ⟨e, List.mem_append_left log he, p, env, grant, hres, hk, hhash,
    hgrant, Option.some.inj hch, hcar⟩

/-! ## What an insert and a takeover do to the columns

The three columns are written together: an insert writes the grant of its call
or nothing, a takeover with a reset likewise, and a plain takeover leaves them
unless its call brings a grant. -/

theorem insertValues_challengeId {env : ReserveEnv H} {b : AttemptId}
    {nowMs : Nat} :
    (insertValues env b nowMs : Row H R).confirmationChallengeId =
      env.challengeId := by
  rw [ReserveEnv.challengeId, insertValues]
  cases env.confirmationGrant <;> rfl

section Taken

variable {row : Row H R} {options : TakeoverOptions H} {b : AttemptId}

theorem takeoverSet_carries {grant : ConfirmationGrant}
    (hgrant : options.grant = some grant) :
    (takeoverSet options b row).Carries grant := by
  rw [takeoverSet, hgrant]
  exact withGrant_carries

/-- A reset leaves the taker's own grant, or none. -/
theorem takeoverSet_reset_challengeId
    (hreset : options.reset.isSome = true) :
    (takeoverSet options b row).confirmationChallengeId =
      options.grant.map ConfirmationGrant.challengeId := by
  obtain ⟨reset, hreset⟩ := Option.isSome_iff_exists.mp hreset
  cases hgrant : options.grant <;>
    simp only [takeoverSet, hreset, hgrant, Row.withGrant, Option.map]

/-- Without a reset and without a grant the columns and the hash stay. -/
theorem takeoverSet_plain_columns (hreset : options.reset = none)
    (hgrant : options.grant = none) :
    (takeoverSet options b row).confirmationChallengeId =
        row.confirmationChallengeId ∧
      (∀ grant, row.Carries grant →
        (takeoverSet options b row).Carries grant) ∧
      (takeoverSet options b row).requestHash = row.requestHash := by
  simp only [takeoverSet, hreset, hgrant, Row.withGrant]
  exact ⟨trivial, fun grant hcar => hcar, trivial⟩

end Taken

section Steps

variable [DecidableEq H] {s s' : State H R} {a : Act H R}
  {out log : List (Event H R)}

/-- The options of a takeover carry the grant its call reserves under. -/
theorem grant_of_takingOver {p : Nat} {env : ReserveEnv H}
    {options : TakeoverOptions H} {b : AttemptId}
    (h : PhaseSigned s p (.takingOver env options b : Phase H R)) :
    options.grant = env.confirmationGrant := by
  obtain ⟨-, existing, nowMs, -, hdec⟩ := h
  obtain ⟨-, ⟨-, rfl⟩ | ⟨-, -, -, rfl⟩⟩ := decideExisting_takeOver hdec
  · rfl
  · rfl

theorem Moves.rowGranted (h : Moves s a s' out) (hI : Owned s)
    (hold : ∀ k row, s.table k = some row → RowGranted log k row) :
    ∀ k row, s'.table k = some row → RowGranted (out ++ log) k row := by
  intro k row hrow
  rcases h.row_cases hrow with hkept | hinserted | htaken
  · obtain ⟨row₀, status, response, hrow₀, rfl⟩ := hkept
    exact (hold k row₀ hrow₀).append
  · obtain ⟨p, env, b, nowMs, round, -, rfl, hk, rfl⟩ := hinserted
    cases hgrant : env.confirmationGrant with
    | none =>
        intro ch hch
        rw [insertValues, hgrant] at hch
        cases hch
    | some grant =>
        refine rowGranted_of_carries List.mem_cons_self rfl hk ?_ hgrant ?_
        · exact (insertValues_requestHash env b nowMs).symm
        · rw [insertValues, hgrant]
          exact withGrant_carries
  · obtain ⟨p, env, options, b, row₀, hph, rfl, hk, hrow₀, hwins, rfl⟩ :=
      htaken
    have hsigned := hI.phases p
    rw [hph] at hsigned
    have hoptions := grant_of_takingOver hsigned
    cases hgrant : env.confirmationGrant with
    | some grant =>
        refine rowGranted_of_carries List.mem_cons_self rfl hk ?_ hgrant ?_
        · exact (takeoverSet_signed hsigned (hI.rows _ _ (hk ▸ hrow₀))
            hwins).symm
        · exact takeoverSet_carries (hoptions.trans hgrant)
    | none =>
        rw [hgrant] at hoptions
        by_cases hreset : options.reset.isSome = true
        · intro ch hch
          rw [takeoverSet_reset_challengeId hreset, hoptions] at hch
          cases hch
        · have hplain := Option.not_isSome_iff_eq_none.mp hreset
          obtain ⟨hch₀, hcarries, hhash⟩ :=
            takeoverSet_plain_columns hplain hoptions
          intro ch hch
          rw [hch₀] at hch
          obtain ⟨e, he, q, env', grant, hres, hk', hh, hg, hid, hcar⟩ :=
            hold k row₀ hrow₀ ch hch
          exact ⟨e, List.mem_append_right _ he, q, env', grant, hres, hk',
            hh.trans hhash.symm, hg, hid, hcarries grant hcar⟩

theorem rowGranted_of_reach {c : Conf (State H R) (Event H R)}
    (h : protocol.Reach c) :
    ∀ k row, c.st.table k = some row → RowGranted c.log k row := by
  refine h.invariant
    (I := fun c => ∀ k row, c.st.table k = some row → RowGranted c.log k row)
    (fun _ _ hrow => by cases hrow) ?_
  intro c a c' hc ih _ hnext
  obtain ⟨s, out, hmoves, rfl⟩ := moves_of_next hnext
  exact hmoves.rowGranted (owned_of_reach hc) ih

/-- The row of an attempt carries the grant that the attempt reserved
under. -/
def RowsCarry (s : State H R) : Prop :=
  ∀ k row p env grant, s.table k = some row →
    s.drawnBy row.attemptId = some (p, env) →
    env.confirmationGrant = some grant → row.Carries grant

theorem Moves.rowsCarry (h : Moves s a s' out) (hI : Owned s)
    (hold : RowsCarry s) : RowsCarry s' := by
  intro k row q env grant hrow hdrawn hgrant
  have hgrow := h.drawnBy_mono
  rcases h.row_cases hrow with hkept | hinserted | htaken
  · obtain ⟨row₀, status, response, hrow₀, rfl⟩ := hkept
    obtain ⟨q', env', hdrawn', -, -⟩ := hI.rows k row₀ hrow₀
    have hsame := hgrow _ _ hdrawn'
    rw [show s'.drawnBy row₀.attemptId = some (q, env) from hdrawn] at hsame
    cases hsame
    exact hold k row₀ q env grant hrow₀ hdrawn' hgrant
  · obtain ⟨p, env', b, nowMs, round, hph, -, -, rfl⟩ := hinserted
    have hsigned := hI.phases p
    rw [hph] at hsigned
    rw [insertValues_attemptId, hgrow _ _ hsigned] at hdrawn
    cases hdrawn
    rw [insertValues, hgrant]
    exact withGrant_carries
  · obtain ⟨p, env', options, b, row₀, hph, -, -, -, -, rfl⟩ := htaken
    have hsigned := hI.phases p
    rw [hph] at hsigned
    rw [takeoverSet_attemptId, hgrow _ _ hsigned.1] at hdrawn
    cases hdrawn
    exact takeoverSet_carries ((grant_of_takingOver hsigned).trans hgrant)

theorem rowsCarry_of_reach {c : Conf (State H R) (Event H R)}
    (h : protocol.Reach c) : RowsCarry c.st := by
  refine h.invariant (I := fun c => RowsCarry c.st)
    (fun _ _ _ _ _ hrow => by cases hrow) ?_
  intro c a c' hc ih _ hnext
  obtain ⟨s, out, hmoves, rfl⟩ := moves_of_next hnext
  exact hmoves.rowsCarry (owned_of_reach hc) ih

/-! ## Who may still reserve

A call asks from `call` until its reservation is reported. In between the
environment it asks with does not change. -/

/-- A call asks on as it asked before; only `call` starts one. -/
theorem Moves.asking_of (h : Moves s a s' out) {q : Nat}
    {env : ReserveEnv H} (hq' : (s'.phase q).asking = some env) :
    (s.phase q).asking = some env ∨ a = .call q env := by
  have hmoved : ∀ {p : Nat} {ph : Phase H R},
      (if q = p then ph else s.phase q).asking = some env →
      (q = p → ph.asking = some env →
        (s.phase q).asking = some env ∨ a = .call q env) →
      (s.phase q).asking = some env ∨ a = .call q env := by
    intro p ph hif hnew
    split at hif
    · next heq => exact hnew heq hif
    · exact Or.inl hif
  cases h with
  | tick | cleanup => exact Or.inl hq'
  | call hph =>
      simp only [setPhase_phase] at hq'
      refine hmoved hq' fun heq hask => Or.inr ?_
      obtain rfl := Option.some.inj hask
      rw [heq]
  | stampInsert hph | insertConflict hph | selectAgain hph | selectRow hph
  | decideTakeOver hph =>
      simp only [setPhase_phase] at hq'
      refine hmoved hq' fun heq hask => Or.inl ?_
      rw [heq, hph]
      exact hask
  | _ =>
      simp only [setPhase_phase] at hq'
      exact hmoved hq' fun _ hask => by cases hask

/-- A reservation a step reports was asked for, and is made. -/
theorem Moves.reservation_of_mem (h : Moves s a s' out) {e : Event H R}
    (he : e ∈ out) {q : Nat} {env : ReserveEnv H}
    (hres : e.reservation = some (q, env)) :
    (s.phase q).asking = some env ∧ (s'.phase q).asking = none := by
  cases h with
  | insertNew hph | takeOverWon hph =>
      obtain rfl := List.mem_singleton.mp he
      cases hres
      refine ⟨by rw [hph]; rfl, ?_⟩
      rw [setPhase_phase, if_pos rfl]
      rfl
  | selectGone | selectRow | decideAnswer | reloadGone | reloadRow | resolve
  | finalizeLost | commit | cleanup =>
      obtain rfl := List.mem_singleton.mp he
      cases hres
  | _ => cases he

end Steps

end Shozee.Idempotency
