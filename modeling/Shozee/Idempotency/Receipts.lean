import Mathlib.Data.Option.Defs
import Shozee.Idempotency.Ownership

/-!
# At most one committed execution per key

The log of a run is read back here as the life of one row. `standing` says
which completed row, if any, a key has after a history: a committed
`finalize` puts one there, and only a takeover or a cleanup of the row takes
it away. The table agrees with it in every reachable state
(`Recorded.standing_eq`), so what an event found in the table is what the
history before it says was there.

From that the contract of the key follows: between two commits somebody ended
the first one's row after its retention, and a replay copies the last commit.
The clock that said so is the taker's, whose readings are arbitrary here.
-/

namespace Shozee.Idempotency

open Shozee.Run

variable {H R : Type}

/-! ## What the contract says

The three promises in terms of the log alone: between two commits the first
one's row was ended, only by a clock past its retention, and a replay answers
from the last commit. -/

/-- The environment and the output of the newest committed `finalize` on the
key. -/
def lastFinalized (k : RowIdentity) :
    List (Event H R) → Option (ReserveEnv H × R)
  | [] => none
  | .committed _ env _ output _ :: older =>
      if env.identity = k then some (env, output)
      else lastFinalized k older
  | _ :: older => lastFinalized k older

/-- The event takes `row` away from the key, by a clock that its retention
has passed on. -/
def EndsRow (k : RowIdentity) (row : Row H R) : Event H R → Prop
  | .tookOver _ env options _ found =>
      env.identity = k ∧ found = row ∧ row.expiresAt ≤ options.nowMs
  | .cleaned k' found nowMs => k' = k ∧ found = row ∧ row.expiresAt ≤ nowMs
  | _ => False

/-- Between two commits on one key the row the first one completed was taken
over, or cleaned up, after its retention. -/
def CommitsApart (log : List (Event H R)) : Prop :=
  ∀ newer between older p₁ p₂ env₁ env₂ r₁ r₂ output₁ output₂ row₁ row₂,
    log = newer ++ .committed p₂ env₂ r₂ output₂ row₂ ::
      (between ++ .committed p₁ env₁ r₁ output₁ row₁ :: older) →
    env₁.identity = env₂.identity →
    ∃ e ∈ between, EndsRow env₁.identity (row₁.completedWith output₁) e

/-- A replay answers from a row the call read, and that was the row of the
last committed `finalize`, under the caller's own hash. -/
def ReplaysLast (log : List (Event H R)) : Prop :=
  ∀ newer older p env response,
    log = newer ++ .answered p env (.replay response) :: older →
    ∃ between before row last output,
      older = between ++ .read p env.identity row :: before ∧
        lastFinalized env.identity before = some (last, output) ∧
        response = some output ∧ last.requestHash = env.requestHash

/-! ## The completed row a history leaves

`standing` reads the log and `completedOnly` reads the table. The invariant is
that they agree, so an event that has looked at the table has looked at the
history. -/

/-- The completed row a key has after a history. -/
def standing (k : RowIdentity) : List (Event H R) → Option (Row H R)
  | [] => none
  | .committed _ env _ output row :: older =>
      if env.identity = k then some (row.completedWith output)
      else standing k older
  | .tookOver _ env _ _ _ :: older =>
      if env.identity = k then none else standing k older
  | .cleaned k' _ _ :: older => if k' = k then none else standing k older
  | _ :: older => standing k older

/-- The row, if it is completed. -/
def completedOnly (row : Option (Row H R)) : Option (Row H R) :=
  row.filter fun row => row.status = .completed

theorem completedOnly_eq_some {found : Option (Row H R)} {row : Row H R} :
    completedOnly found = some row ↔
      found = some row ∧ row.status = .completed := by
  simp only [completedOnly, Option.filter_eq_some_iff, decide_eq_true_eq]

theorem completedOnly_eq_none {row : Row H R} (h : row.status ≠ .completed) :
    completedOnly (some row) = none := by
  simp only [completedOnly, Option.filter_some, decide_eq_true_eq, if_neg h]

/-- What an event found in the table, in view of the history before it. -/
def EventOk (older : List (Event H R)) : Event H R → Prop
  | .committed _ env r _ row =>
      standing env.identity older = none ∧ row.attemptId = r.attemptId ∧
        row.requestHash = env.requestHash
  | .tookOver _ env options _ row =>
      standing env.identity older = completedOnly (some row) ∧
        Reclaimable row options.nowMs
  | .cleaned k row nowMs =>
      standing k older = completedOnly (some row) ∧ row.expiresAt ≤ nowMs
  | .read _ k row => standing k older = completedOnly (some row)
  | .answered p env (.replay response) =>
      ∃ row, .read p env.identity row ∈ older ∧ row.status = .completed ∧
        row.requestHash = env.requestHash ∧ row.response = response
  | _ => True

/-- Log and state agree. -/
structure Recorded (c : Conf (State H R) (Event H R)) : Prop where
  standing_eq : ∀ k, standing k c.log = completedOnly (c.st.table k)
  selected : ∀ p env row, c.st.phase p = .selected env row →
    .read p env.identity row ∈ c.log
  reloaded : ∀ p env row, c.st.phase p = .reloaded env row →
    .read p env.identity row ∈ c.log
  told : Told EventOk c.log

section Steps

variable [DecidableEq H] {s s' : State H R} {a : Act H R}
  {out : List (Event H R)}

/-- A step reports at most one event. -/
theorem Moves.out_length_le (h : Moves s a s' out) : out.length ≤ 1 := by
  cases h <;> simp

omit [DecidableEq H] in
/-- A row that an update of one key writes is completed or not as the written
row is. -/
theorem completedOnly_update {k k' : RowIdentity} {row : Option (Row H R)}
    {old new : Option (Row H R)} (hold : old = completedOnly (s.table k))
    (hnew : completedOnly row = new) :
    (if k' = k then new else old) =
      completedOnly (if k = k' then row else s.table k) := by
  by_cases hk : k = k'
  · rw [if_pos hk, if_pos hk.symm, hnew]
  · rw [if_neg hk, if_neg (Ne.symm hk), hold]

theorem Moves.standing_eq (h : Moves s a s' out) {log : List (Event H R)}
    (hlog : ∀ k, standing k log = completedOnly (s.table k)) :
    ∀ k, standing k (out ++ log) = completedOnly (s'.table k) := by
  intro k
  cases h with
  | insertNew hph hnone =>
      simp only [setPhase_table, setRow_table, List.singleton_append, standing]
      split
      · next heq =>
          rw [hlog, heq, hnone, completedOnly_eq_none]
          · rfl
          · rw [insertValues_status]; exact Status.noConfusion
      · exact hlog k
  | takeOverWon =>
      simp only [setPhase_table, setRow_table, List.singleton_append, standing]
      refine completedOnly_update (hlog k) (completedOnly_eq_none ?_)
      rw [takeoverSet_status]
      exact Status.noConfusion
  | commit =>
      simp only [setPhase_table, setLock_table, setRow_table,
        List.singleton_append, standing]
      exact completedOnly_update (hlog k)
        (completedOnly_eq_some.mpr ⟨rfl, rfl⟩)
  | markFailedOwned hph hfree hrow howned =>
      simp only [setPhase_table, setRow_table, List.nil_append]
      split
      · next heq =>
          rw [hlog, heq, hrow, completedOnly_eq_none, completedOnly_eq_none]
          · exact Status.noConfusion
          · rw [howned.2]; exact Status.noConfusion
      · exact hlog k
  | cleanup =>
      simp only [setRow_table, List.singleton_append, standing]
      exact completedOnly_update (hlog k) rfl
  | _ => exact hlog k

theorem Moves.selected_read (h : Moves s a s' out) {log : List (Event H R)}
    (hlog : ∀ p env row, s.phase p = .selected env row →
      .read p env.identity row ∈ log) :
    ∀ p env row, s'.phase p = .selected env row →
      .read p env.identity row ∈ out ++ log := by
  intro q env row hq
  have hkept : ∀ {p : Nat} {ph : Phase H R}, ph ≠ .selected env row →
      (if q = p then ph else s.phase q) = .selected env row →
      .read q env.identity row ∈ out ++ log := by
    intro p ph hph hif
    split at hif
    · exact absurd hif hph
    · exact List.mem_append_right _ (hlog q env row hif)
  cases h with
  | selectRow hph hrow =>
      simp only [setPhase_phase] at hq
      split at hq
      · next heq => cases hq; rw [heq]; exact List.mem_cons_self
      · exact List.mem_append_right _ (hlog q env row hq)
  | tick | cleanup => exact List.mem_append_right _ (hlog q env row hq)
  | _ =>
      simp only [setPhase_phase] at hq
      exact hkept (by rintro ⟨⟩) hq

theorem Moves.reloaded_read (h : Moves s a s' out) {log : List (Event H R)}
    (hlog : ∀ p env row, s.phase p = .reloaded env row →
      .read p env.identity row ∈ log) :
    ∀ p env row, s'.phase p = .reloaded env row →
      .read p env.identity row ∈ out ++ log := by
  intro q env row hq
  have hkept : ∀ {p : Nat} {ph : Phase H R}, ph ≠ .reloaded env row →
      (if q = p then ph else s.phase q) = .reloaded env row →
      .read q env.identity row ∈ out ++ log := by
    intro p ph hph hif
    split at hif
    · exact absurd hif hph
    · exact List.mem_append_right _ (hlog q env row hif)
  cases h with
  | reloadRow hph hrow =>
      simp only [setPhase_phase] at hq
      split at hq
      · next heq => cases hq; rw [heq]; exact List.mem_cons_self
      · exact List.mem_append_right _ (hlog q env row hq)
  | tick | cleanup => exact List.mem_append_right _ (hlog q env row hq)
  | _ =>
      simp only [setPhase_phase] at hq
      exact hkept (by rintro ⟨⟩) hq

/-- Whatever a step reports is right about the table it found. -/
theorem Moves.events_ok (h : Moves s a s' out) (hI : Owned s)
    {log : List (Event H R)}
    (hstanding : ∀ k, standing k log = completedOnly (s.table k))
    (hselected : ∀ p env row, s.phase p = .selected env row →
      .read p env.identity row ∈ log)
    (hreloaded : ∀ p env row, s.phase p = .reloaded env row →
      .read p env.identity row ∈ log) :
    ∀ e ∈ out, EventOk log e := by
  intro e he
  cases h with
  | selectRow hph hrow | reloadRow hph hrow =>
      obtain rfl := List.mem_singleton.mp he
      show standing _ _ = _
      rw [hstanding, hrow]
  | takeOverWon hph hfree hrow hwins =>
      obtain rfl := List.mem_singleton.mp he
      refine ⟨?_, hwins.2⟩
      rw [hstanding, hrow]
  | cleanup hfree hrow hexp =>
      obtain rfl := List.mem_singleton.mp he
      refine ⟨?_, hexp⟩
      rw [hstanding, hrow]
  | @commit p env r leaseEnd output row hph hrow =>
      obtain rfl := List.mem_singleton.mp he
      obtain ⟨-, row', hrow', hid, hrun⟩ := hI.holder _ _ _ _ _ hph
      rw [hrow] at hrow'
      cases hrow'
      have hreserved : Reserved s p env r := by
        have hsigned := hI.phases p
        rw [hph] at hsigned
        exact hsigned
      refine ⟨?_, hid, ?_⟩
      · rw [hstanding, hrow, completedOnly_eq_none]
        rw [hrun]
        exact Status.noConfusion
      · have hdrawn := hreserved.2
        rw [← hid] at hdrawn
        exact ((hI.rows _ _ hrow).requestHash_of_drawnBy hdrawn).2.symm
  | decideAnswer hph hdec =>
      obtain rfl := List.mem_singleton.mp he
      rename_i outcome
      cases outcome with
      | replay response =>
          obtain ⟨hdone, hhash, hresponse⟩ := decideExisting_replay hdec
          exact ⟨_, hselected _ _ _ hph, hdone, hhash, hresponse⟩
      | _ => trivial
  | @resolve p nowMs env existing hph =>
      obtain rfl := List.mem_singleton.mp he
      cases hout : resolveLostTakeover env existing nowMs with
      | replay response =>
          obtain ⟨hdone, hhash, hresponse⟩ := resolveLostTakeover_replay hout
          exact ⟨_, hreloaded _ _ _ hph, hdone, hhash, hresponse⟩
      | _ => trivial
  | insertNew | selectGone | reloadGone | finalizeLost =>
      obtain rfl := List.mem_singleton.mp he
      trivial
  | _ => cases he

/-- In every reachable state the log tells what the table holds. -/
theorem recorded_of_reach {c : Conf (State H R) (Event H R)}
    (h : protocol.Reach c) : Recorded c := by
  refine h.invariant (I := Recorded) ?_ ?_
  · exact
      { standing_eq := fun _ => rfl
        selected := fun _ _ _ hph => by cases hph
        reloaded := fun _ _ _ hph => by cases hph
        told := .nil }
  · intro c a c' hc ih _ hnext
    obtain ⟨s, out, hmoves, rfl⟩ := moves_of_next hnext
    have hI := owned_of_reach hc
    exact
      { standing_eq := hmoves.standing_eq ih.standing_eq
        selected := hmoves.selected_read ih.selected
        reloaded := hmoves.reloaded_read ih.reloaded
        told := ih.told.append hmoves.out_length_le
          (hmoves.events_ok hI ih.standing_eq ih.selected ih.reloaded) }

end Steps

/-! ## From the log to the contract

Two scans of the log: a row that does not stand any more was ended, and the row
that stands is that of the last commit. -/

/-- A completed row that does not stand any more was ended by somebody. -/
theorem exists_endsRow {k : RowIdentity} {row : Row H R}
    {between older : List (Event H R)}
    (htold : Told EventOk (between ++ older))
    (hwas : standing k older = some row)
    (hnow : standing k (between ++ older) ≠ some row) :
    ∃ e ∈ between, EndsRow k row e := by
  induction between with
  | nil => exact absurd hwas hnow
  | cons e rest ih =>
      by_cases hrest : standing k (rest ++ older) = some row
      · refine ⟨e, List.mem_cons_self, ?_⟩
        have hok : EventOk (rest ++ older) e := htold.1
        rw [List.cons_append] at hnow
        cases e with
        | committed p env r output row' =>
            simp only [standing] at hnow
            split at hnow
            · next hk =>
                rw [← hk, hok.1] at hrest
                cases hrest
            · exact absurd hrest hnow
        | tookOver p env options attemptId found =>
            simp only [standing] at hnow
            split at hnow
            · next hk =>
                obtain ⟨hfound, hreclaim⟩ := hok
                rw [hk, hrest] at hfound
                obtain ⟨heq, hdone⟩ := completedOnly_eq_some.mp hfound.symm
                cases heq
                refine ⟨hk, rfl, ?_⟩
                by_contra hlive
                exact not_reclaimable_of_completed hdone
                  (Nat.lt_of_not_le hlive) hreclaim
            · exact absurd hrest hnow
        | cleaned k' found nowMs =>
            simp only [standing] at hnow
            split at hnow
            · next hk =>
                obtain ⟨hfound, hexp⟩ := hok
                rw [hk, hrest] at hfound
                obtain ⟨heq, -⟩ := completedOnly_eq_some.mp hfound.symm
                cases heq
                exact ⟨hk, rfl, hexp⟩
            · exact absurd hrest hnow
        | inserted | read | answered => exact absurd hrest hnow
      · obtain ⟨e', he', hends⟩ := ih htold.2 hrest
        exact ⟨e', List.mem_cons_of_mem _ he', hends⟩

/-- The row that stands is the one the last commit left. -/
theorem lastFinalized_of_standing {k : RowIdentity} {row : Row H R}
    {log : List (Event H R)} (htold : Told EventOk log)
    (h : standing k log = some row) :
    ∃ env output, lastFinalized k log = some (env, output) ∧
      row.response = some output ∧ row.requestHash = env.requestHash := by
  induction log with
  | nil => cases h
  | cons e older ih =>
      cases e with
      | committed p env r output row' =>
          simp only [standing, lastFinalized] at h ⊢
          split at h
          · next hk =>
              cases h
              rw [if_pos hk]
              exact ⟨env, output, rfl, rfl, htold.1.2.2⟩
          · next hk =>
              rw [if_neg hk]
              exact ih htold.2 h
      | tookOver p env options attemptId found =>
          simp only [standing] at h
          split at h
          · cases h
          · exact ih htold.2 h
      | cleaned k' found nowMs =>
          simp only [standing] at h
          split at h
          · cases h
          · exact ih htold.2 h
      | inserted | read | answered => exact ih htold.2 h

theorem Recorded.commitsApart {c : Conf (State H R) (Event H R)}
    (h : Recorded c) : CommitsApart c.log := by
  intro newer between older p₁ p₂ env₁ env₂ r₁ r₂ output₁ output₂ row₁ row₂
    hlog hkey
  have htold := h.told
  rw [hlog] at htold
  have hnone : standing env₁.identity
      (between ++ .committed p₁ env₁ r₁ output₁ row₁ :: older) = none :=
    hkey ▸ htold.ok.1
  have hwas : standing env₁.identity
      (.committed p₁ env₁ r₁ output₁ row₁ :: older) =
        some (row₁.completedWith output₁) := if_pos rfl
  refine exists_endsRow htold.older.2 hwas ?_
  rw [hnone]
  rintro ⟨⟩

theorem Recorded.replaysLast {c : Conf (State H R) (Event H R)}
    (h : Recorded c) : ReplaysLast c.log := by
  intro newer older p env response hlog
  have htold := h.told
  rw [hlog] at htold
  obtain ⟨row, hread, hdone, hhash, hresponse⟩ := htold.ok
  obtain ⟨between, before, hsplit⟩ := List.append_of_mem hread
  have htold' := htold.older.2
  rw [hsplit] at htold'
  have hstanding : standing env.identity before = some row := by
    have hok : EventOk before (.read p env.identity row) := htold'.ok
    rw [hok]
    exact completedOnly_eq_some.mpr ⟨rfl, hdone⟩
  obtain ⟨last, output, hlast, hout, hlasthash⟩ :=
    lastFinalized_of_standing htold'.older.2 hstanding
  exact ⟨between, before, row, last, output, hsplit, hlast,
    hresponse.symm.trans hout, hlasthash.symm.trans hhash⟩

end Shozee.Idempotency
