import Shozee.Turns.Protocol

/-!
# What a statement may do

What a statement does to its transaction is said once (`Advances`), and so is
what a step does to the state (`Moves`); every invariant is derived from
these. The rest of the file is about the writes themselves: which ones a call
can make (`Write.Legal`), and what a list of them does to the rows.
-/

namespace Shozee.Turns

open Shozee.Run

/-! ## What an answer hands back

An answer tells its caller which hold to hand back, and the write behind it has
taken just that hold off its row. -/

/-- The finaliser that a call runs. -/
def Call.finaliser : Call → Option Finaliser
  | .finish _ _ status => some (finishFinaliser status)
  | .interrupt .. => some interruptFinaliser
  | .sweep .. => some sweepFinaliser
  | .accept .. | .start .. => none

/-- The holds that an answer tells its caller to hand back, and whose they
were. -/
def Answer.told (call : Call) : Answer → List (TurnIdentity × BudgetHold)
  | .finished _ hold =>
      match call with
      | .finish ctx ref _ => [(ref.identity ctx.companyId, hold)]
      | _ => []
  | .interrupted _ _ hold =>
      match call with
      | .interrupt companyId ref => [(ref.identity companyId, hold)]
      | _ => []
  | .swept ended => ended.map fun turn => (turn.identity, turn.releasedHold)
  | _ => []

/-- The hold that a write takes off a row. -/
def Write.taken : Write → List (TurnIdentity × BudgetHold)
  | .insert _ => []
  | .update before after =>
      if after.isActive then [] else [(before.identity, before.hold)]

/-! ## What a statement does

`Advances` has one constructor for each thing that a statement may do, with
what it has read and locked. The five functions of the source are inverted
once, and never unfolded again. -/

/-- The statements that write nothing, by the stage they lead to. -/
inductive Reads (rows : List TurnRow) (tx : Tx) : Stage → Prop
  | settled {ctx input outcome} (hcall : tx.call = .accept ctx input)
      (hstage : tx.stage = .settling ∨ ∃ b, tx.stage = .clashed b)
      (hread : settledAccept rows (input.ref.identity ctx.companyId) =
        some outcome) :
      Reads rows tx (.answering (.settled outcome))
  | unsettled {ctx input stage} (hcall : tx.call = .accept ctx input)
      (hstage : tx.stage = .settling)
      (hread : settledAccept rows (input.ref.identity ctx.companyId) = none)
      (hnext : stage = .rooting ∨ stage = .inserting none) :
      Reads rows tx stage
  | rooted {root} (hstage : tx.stage = .rooting) :
      Reads rows tx (.inserting root)
  | clash {root b} (hstage : tx.stage = .inserting root) :
      Reads rows tx (.clashed b)
  | raced {b} (hstage : tx.stage = .clashed b) :
      Reads rows tx (.answering (.settled .busy))
  | missed (hstage : tx.stage = .updating) : Reads rows tx .missed
  | current {answer} (hstage : tx.stage = .missed)
      (htold : answer.told tx.call = []) : Reads rows tx (.answering answer)
  | uncounted (hstage : tx.stage = .counting) :
      Reads rows tx (.answering (.swept []))
  | counted {companyId turns} (hstage : tx.stage = .counting) :
      Reads rows tx (.sweeping (sweepIdentities companyId turns) [])
  | skipped {identity rest ended}
      (hstage : tx.stage = .sweeping (identity :: rest) ended) :
      Reads rows tx (.sweeping rest ended)
  | swept {ended} (hstage : tx.stage = .sweeping [] ended) :
      Reads rows tx (.answering (.swept ended))

/-- Where a finaliser's transaction goes on when it has ended `row`. -/
inductive Takes (tx : Tx) (row : TurnRow) : Stage → Prop
  | answers {answer} (hstage : tx.stage = .updating)
      (htold : answer.told tx.call = [(row.identity, row.hold)]) :
      Takes tx row (.answering answer)
  | goesOn {rest ended turn}
      (hstage : tx.stage = .sweeping (row.identity :: rest) ended)
      (hidentity : turn.identity = row.identity)
      (hhold : turn.releasedHold = row.hold) :
      Takes tx row (.sweeping rest (ended ++ [turn]))

/-- What a statement does to its transaction when it does not throw. -/
inductive Advances (s : State) (tx : Tx) : Tx → Prop
  | read {stage} (h : Reads s.rows tx stage) :
      Advances s tx { tx with stage }
  | insert {ctx input root} (hcall : tx.call = .accept ctx input)
      (hstage : tx.stage = .inserting root)
      (hcheck : continuesCheck (acceptedRow ctx input tx.now root) = true)
      (hwaits : s.insertWaits (acceptedRow ctx input tx.now root) = false)
      (hunique : uniqueViolation s.rows (acceptedRow ctx input tx.now root) =
        false) :
      Advances s tx { tx with
        stage :=
          .answering (.accepted (acceptedRow ctx input tx.now root).view)
        writes :=
          tx.writes ++ [.insert (acceptedRow ctx input tx.now root)] }
  | start {ctx ref timeoutMs row d}
      (hcall : tx.call = .start ctx ref timeoutMs)
      (hstage : tx.stage = .updating) (hmem : row ∈ s.rows)
      (hstartable : startable tx.now row = true)
      (hfree : s.lock row.identity = none) :
      Advances s tx { tx with
        stage := .answering (.started d)
        writes :=
          tx.writes ++ [.update row (startedRow tx.now timeoutMs row)] }
  | finalise {f row stage} (hcall : tx.call.finaliser = some f)
      (hmem : row ∈ s.rows) (heligible : f.eligible tx.now row = true)
      (hfree : s.lock row.identity = none) (htakes : Takes tx row stage) :
      Advances s tx { tx with
        stage := stage
        writes := tx.writes ++ [.update row (f.ended tx.now row)] }

/-- A statement finds a row to lock. -/
theorem lockEligible_eq_some {s : State} {identity : TurnIdentity}
    {eligible : TurnRow → Bool} {row : TurnRow}
    (h : s.lockEligible identity eligible = some (some row)) :
    row ∈ s.rows ∧ row.identity = identity ∧ eligible row = true ∧
      s.lock row.identity = none := by
  unfold State.lockEligible at h
  split at h
  · cases h
  · rename_i found hfound
    split at h
    · rename_i hfree
      obtain rfl : found = row := by simpa using h
      have hprop := List.find?_some hfound
      simp only [decide_eq_true_eq] at hprop
      exact ⟨List.mem_of_find?_eq_some hfound, hprop.1, hprop.2,
        hprop.1 ▸ hfree⟩
    · cases h

theorem finaliseStatement_eq_some {s : State} {tx : Tx} {f : Finaliser}
    {identity : TurnIdentity} {row after : TurnRow}
    (h : finaliseStatement s tx f identity = some (some (row, after))) :
    row ∈ s.rows ∧ row.identity = identity ∧
      f.eligible tx.now row = true ∧ s.lock row.identity = none ∧
      after = f.ended tx.now row := by
  unfold finaliseStatement at h
  obtain ⟨found, hfound, hmap⟩ := Option.map_eq_some_iff.mp h
  obtain ⟨row', rfl, hrow⟩ := Option.map_eq_some_iff.mp hmap
  obtain ⟨rfl, rfl⟩ := Prod.mk.inj hrow
  obtain ⟨hmem, hid, heligible, hfree⟩ := lockEligible_eq_some hfound
  exact ⟨hmem, hid, heligible, hfree, rfl⟩

theorem advances_of_accept {s : State} {tx tx' : Tx} {ctx : StaffCtx}
    {input : AcceptTurnInput} {messageClash : Option Bool}
    (hcall : tx.call = .accept ctx input)
    (h : acceptStatement s tx ctx input messageClash = some (.next tx')) :
    Advances s tx tx' := by
  unfold acceptStatement at h
  cases hstage : tx.stage with
  | settling =>
      simp only [hstage, Tx.next] at h
      split at h
      · rename_i hread
        obtain rfl := Result.next.inj (Option.some.inj h)
        exact .read (.settled hcall (Or.inl hstage) hread)
      · rename_i hread _
        obtain rfl := Result.next.inj (Option.some.inj h)
        exact .read (.unsettled hcall hstage hread (Or.inr rfl))
      · rename_i hread _
        obtain rfl := Result.next.inj (Option.some.inj h)
        exact .read (.unsettled hcall hstage hread (Or.inl rfl))
  | rooting =>
      simp only [hstage, Tx.next] at h
      split at h
      · obtain rfl := Result.next.inj (Option.some.inj h)
        exact .read (.rooted hstage)
      · cases Option.some.inj h
  | inserting root =>
      simp only [hstage, Tx.next, Tx.write] at h
      split at h
      · obtain rfl := Result.next.inj (Option.some.inj h)
        exact .read (.clash hstage)
      · split at h
        · cases Option.some.inj h
        · rename_i hcheck
          split at h
          · cases h
          · rename_i hwaits
            split at h
            · obtain rfl := Result.next.inj (Option.some.inj h)
              exact .read (.clash hstage)
            · rename_i hunique
              obtain rfl := Result.next.inj (Option.some.inj h)
              refine .insert hcall hstage ?_ ?_ ?_
              · simpa using hcheck
              · simpa using hwaits
              · simpa using hunique
  | clashed b =>
      simp only [hstage, Tx.next] at h
      split at h
      · rename_i hread
        obtain rfl := Result.next.inj (Option.some.inj h)
        exact .read (.settled hcall (Or.inr ⟨b, hstage⟩) hread)
      · split at h
        · obtain rfl := Result.next.inj (Option.some.inj h)
          exact .read (.raced hstage)
        · cases Option.some.inj h
  | updating => simp only [hstage] at h; cases h
  | missed => simp only [hstage] at h; cases h
  | counting => simp only [hstage] at h; cases h
  | sweeping rest ended => simp only [hstage] at h; cases h
  | answering answer => simp only [hstage] at h; cases h

theorem advances_of_start {s : State} {tx tx' : Tx} {ctx : StaffCtx}
    {ref : TurnRef} {timeoutMs : Int}
    (hcall : tx.call = .start ctx ref timeoutMs)
    (h : startStatement s tx ctx ref timeoutMs = some (.next tx')) :
    Advances s tx tx' := by
  unfold startStatement at h
  simp only [] at h
  split at h
  · rename_i hstage
    obtain ⟨found, hfound, hres⟩ := Option.map_eq_some_iff.mp h
    cases found with
    | none =>
        obtain rfl := Result.next.inj hres
        exact .read (.missed hstage)
    | some row =>
        obtain ⟨hmem, -, hstartable, hfree⟩ := lockEligible_eq_some hfound
        obtain rfl := Result.next.inj hres
        exact .start hcall hstage hmem hstartable hfree
  · rename_i hstage
    split at h
    · cases Option.some.inj h
    · obtain rfl := Result.next.inj (Option.some.inj h)
      exact .read (.current hstage rfl)
    · obtain rfl := Result.next.inj (Option.some.inj h)
      exact .read (.current hstage rfl)
  · cases h

theorem reads_of_missedStatement {s : State} {tx tx' : Tx}
    {identity : TurnIdentity} (hstage : tx.stage = .missed)
    (h : missedStatement s tx identity = .next tx') : Advances s tx tx' := by
  unfold missedStatement at h
  split at h
  · cases h
  · obtain rfl := Result.next.inj h
    exact .read (.current hstage rfl)

theorem advances_of_finish {s : State} {tx tx' : Tx} {ctx : StaffCtx}
    {ref : TurnRef} {status : FinalStatus}
    (hcall : tx.call = .finish ctx ref status)
    (h : finishStatement s tx ctx ref status = some (.next tx')) :
    Advances s tx tx' := by
  have hfinaliser : tx.call.finaliser = some (finishFinaliser status) := by
    rw [hcall]
    rfl
  unfold finishStatement at h
  split at h
  · rename_i hstage
    obtain ⟨found, hfound, hres⟩ := Option.map_eq_some_iff.mp h
    cases found with
    | none =>
        obtain rfl := Result.next.inj hres
        exact .read (.missed hstage)
    | some pair =>
        obtain ⟨row, after⟩ := pair
        obtain ⟨hmem, hid, heligible, hfree, rfl⟩ :=
          finaliseStatement_eq_some hfound
        obtain rfl := Result.next.inj hres
        refine .finalise hfinaliser hmem heligible hfree (.answers hstage ?_)
        rw [hcall, hid]
        rfl
  · rename_i hstage
    exact reads_of_missedStatement hstage (Option.some.inj h)
  · cases h

theorem advances_of_interrupt {s : State} {tx tx' : Tx} {companyId : Text}
    {ref : TurnRef} (hcall : tx.call = .interrupt companyId ref)
    (h : interruptStatement s tx companyId ref = some (.next tx')) :
    Advances s tx tx' := by
  have hfinaliser : tx.call.finaliser = some interruptFinaliser := by
    rw [hcall]
    rfl
  unfold interruptStatement at h
  split at h
  · rename_i hstage
    obtain ⟨found, hfound, hres⟩ := Option.map_eq_some_iff.mp h
    cases found with
    | none =>
        obtain rfl := Result.next.inj hres
        exact .read (.missed hstage)
    | some pair =>
        obtain ⟨row, after⟩ := pair
        obtain ⟨hmem, hid, heligible, hfree, rfl⟩ :=
          finaliseStatement_eq_some hfound
        simp only [] at hres
        split at hres
        · cases hres
        · obtain rfl := Result.next.inj hres
          refine .finalise hfinaliser hmem heligible hfree
            (.answers hstage ?_)
          rw [hcall, hid]
          rfl
  · rename_i hstage
    exact reads_of_missedStatement hstage (Option.some.inj h)
  · cases h

theorem advances_of_sweep {s : State} {tx tx' : Tx} {companyId : Text}
    {turns : List TurnRef} (hcall : tx.call = .sweep companyId turns)
    (h : sweepStatement s tx companyId turns = some (.next tx')) :
    Advances s tx tx' := by
  have hfinaliser : tx.call.finaliser = some sweepFinaliser := by
    rw [hcall]
    rfl
  unfold sweepStatement at h
  simp only [] at h
  split at h
  · rename_i hstage
    split at h
    · obtain rfl := Result.next.inj (Option.some.inj h)
      exact .read (.uncounted hstage)
    · split at h
      · cases Option.some.inj h
      · obtain rfl := Result.next.inj (Option.some.inj h)
        exact .read (.counted hstage)
  · rename_i hstage
    obtain rfl := Result.next.inj (Option.some.inj h)
    exact .read (.swept hstage)
  · rename_i hstage
    obtain ⟨found, hfound, hres⟩ := Option.map_eq_some_iff.mp h
    cases found with
    | none =>
        obtain rfl := Result.next.inj hres
        exact .read (.skipped hstage)
    | some pair =>
        obtain ⟨row, after⟩ := pair
        obtain ⟨hmem, rfl, heligible, hfree, rfl⟩ :=
          finaliseStatement_eq_some hfound
        simp only [] at hres
        split at hres
        · cases hres
        · obtain rfl := Result.next.inj hres
          exact .finalise hfinaliser hmem heligible hfree
            (.goesOn hstage rfl rfl)
  · cases h

/-- The inversion of `statement`: everything a statement may do. -/
theorem advances_of_statement {s : State} {tx tx' : Tx}
    {messageClash : Option Bool}
    (h : statement s tx messageClash = some (.next tx')) :
    Advances s tx tx' := by
  unfold statement at h
  split at h
  · exact advances_of_accept ‹_› h
  · exact advances_of_start ‹_› h
  · exact advances_of_finish ‹_› h
  · exact advances_of_interrupt ‹_› h
  · exact advances_of_sweep ‹_› h

/-! ## What a write may be

The writes of a call are few: an insert of its own row, a start of a queued
one, an end of an active one. None changes an identity, and none makes an ended
turn active. -/

/-- The writes that a call makes in a transaction whose clock reads `now`. -/
inductive Write.Legal (now : Int) : Call → Write → Prop
  | insert {ctx input root}
      (hcheck : continuesCheck (acceptedRow ctx input now root) = true) :
      Legal now (.accept ctx input) (.insert (acceptedRow ctx input now root))
  | start {ctx ref timeoutMs row} (hstartable : startable now row = true) :
      Legal now (.start ctx ref timeoutMs)
        (.update row (startedRow now timeoutMs row))
  | finalise {call f row} (hcall : call.finaliser = some f)
      (heligible : f.eligible now row = true) :
      Legal now call (.update row (f.ended now row))

theorem isActive_of_startable {now : Int} {row : TurnRow}
    (h : startable now row = true) : row.isActive = true := by
  simp only [startable, Bool.and_eq_true, decide_eq_true_eq] at h
  exact isActive_of_queued h.1

theorem startedRow_isActive (now timeoutMs : Int) (row : TurnRow) :
    (startedRow now timeoutMs row).isActive = true := rfl

/-- Every finaliser ends active turns only. -/
theorem isActive_of_eligible {call : Call} {f : Finaliser} {now : Int}
    {row : TurnRow} (hcall : call.finaliser = some f)
    (h : f.eligible now row = true) : row.isActive = true := by
  cases call with
  | accept ctx input => cases hcall
  | start ctx ref timeoutMs => cases hcall
  | finish ctx ref status => cases hcall; exact h
  | interrupt companyId ref => cases hcall; exact h
  | sweep companyId turns => cases hcall; exact isActive_of_overdue h

theorem Finaliser.ended_not_active (f : Finaliser) (now : Int)
    (row : TurnRow) : (f.ended now row).isActive = false :=
  f.status.not_active

theorem Write.Legal.update_identity {now : Int} {call : Call}
    {before after : TurnRow} (h : Legal now call (.update before after)) :
    after.identity = before.identity := by
  cases h <;> rfl

theorem Write.Legal.update_active {now : Int} {call : Call}
    {before after : TurnRow} (h : Legal now call (.update before after)) :
    before.isActive = true := by
  cases h with
  | start hstartable => exact isActive_of_startable hstartable
  | finalise hcall heligible => exact isActive_of_eligible hcall heligible

theorem taken_ended (f : Finaliser) (now : Int) (row : TurnRow) :
    (Write.update row (f.ended now row)).taken =
      [(row.identity, row.hold)] := by
  show (if (f.ended now row).isActive = true then []
    else [(row.identity, row.hold)]) = [(row.identity, row.hold)]
  rw [if_neg]
  rw [f.ended_not_active]
  exact Bool.false_ne_true

theorem taken_started (now timeoutMs : Int) (row : TurnRow) :
    (Write.update row (startedRow now timeoutMs row)).taken = [] := by
  show (if (startedRow now timeoutMs row).isActive = true then []
    else [(row.identity, row.hold)]) = []
  rw [if_pos (startedRow_isActive now timeoutMs row)]

/-! ## Rows under writes

A write replaces the row of its identity. What a list of writes leaves is what
it wrote, and the rest as it was. -/

theorem mem_update {rows : List TurnRow} {row before after : TurnRow}
    (h : row ∈ applyWrite rows (.update before after)) :
    row = after ∨ (row ∈ rows ∧ row.identity ≠ before.identity) := by
  obtain ⟨r, hr, hif⟩ := List.mem_map.mp h
  split at hif
  · exact Or.inl hif.symm
  · rename_i hne
    subst hif
    exact Or.inr ⟨hr, hne⟩

theorem mem_update_of_ne {rows : List TurnRow} {row before after : TurnRow}
    (h : row ∈ rows) (hne : row.identity ≠ before.identity) :
    row ∈ applyWrite rows (.update before after) :=
  List.mem_map.mpr ⟨row, h, if_neg hne⟩

theorem mem_update_self {rows : List TurnRow} {before after : TurnRow}
    (h : before ∈ rows) : after ∈ applyWrite rows (.update before after) :=
  List.mem_map.mpr ⟨before, h, if_pos rfl⟩

theorem identities_update {rows : List TurnRow} {before after : TurnRow}
    (hid : after.identity = before.identity) :
    (applyWrite rows (.update before after)).map TurnRow.identity =
      rows.map TurnRow.identity := by
  simp only [applyWrite, List.map_map]
  refine List.map_congr_left fun row _ => ?_
  by_cases h : row.identity = before.identity
  · rw [Function.comp_apply, if_pos h, hid, h]
  · rw [Function.comp_apply, if_neg h]

/-- A write changes only the row of its own identity. -/
theorem mem_applyWrites_of_ne {writes : List Write} {row : TurnRow}
    (hne : ∀ w ∈ writes, ∀ before after, w = .update before after →
      before.identity ≠ row.identity) :
    ∀ {rows : List TurnRow}, row ∈ rows → row ∈ applyWrites rows writes := by
  induction writes with
  | nil => exact fun hmem => hmem
  | cons w writes ih =>
      intro rows hmem
      refine ih (fun w' hw' => hne w' (List.mem_cons_of_mem w hw')) ?_
      cases w with
      | insert new => exact List.mem_cons_of_mem new hmem
      | update before after =>
          have hother := hne _ List.mem_cons_self before after rfl
          exact mem_update_of_ne hmem hother.symm

/-- What a list of writes leaves: the rows it wrote, and those of other
identities as they were. -/
theorem mem_applyWrites {writes : List Write} {now : Int} {call : Call}
    {row : TurnRow} (hlegal : ∀ w ∈ writes, w.Legal now call) :
    ∀ {rows : List TurnRow},
      (∀ w ∈ writes, ∀ new, w = .insert new →
        ∀ r ∈ rows, r.identity ≠ new.identity) →
      (writes.map Write.identity).Nodup → row ∈ applyWrites rows writes →
      (∃ w ∈ writes, w.row = row) ∨
        (row ∈ rows ∧ ∀ w ∈ writes, w.identity ≠ row.identity) := by
  induction writes with
  | nil => exact fun _ _ hmem => Or.inr ⟨hmem, by simp⟩
  | cons w writes ih =>
      intro rows hfresh hnodup hmem
      have hapart := List.nodup_cons.mp hnodup
      have hlegal' := fun w' hw' => hlegal w' (List.mem_cons_of_mem w hw')
      have hin : ∀ r ∈ applyWrite rows w, r = w.row ∨
          (r ∈ rows ∧ w.identity ≠ r.identity) := by
        intro r hr
        cases w with
        | insert new =>
            rcases List.mem_cons.mp hr with rfl | hr
            · exact Or.inl rfl
            · exact Or.inr ⟨hr, (hfresh _ List.mem_cons_self new rfl r hr).symm⟩
        | update before after =>
            have hid := (hlegal _ List.mem_cons_self).update_identity
            rcases mem_update hr with rfl | ⟨hold, hne⟩
            · exact Or.inl rfl
            · exact Or.inr ⟨hold, fun h => hne (hid.symm.trans h).symm⟩
      have hfresh' : ∀ w' ∈ writes, ∀ new, w' = .insert new →
          ∀ r ∈ applyWrite rows w, r.identity ≠ new.identity := by
        intro w' hw' new hnew r hr
        rcases hin r hr with rfl | ⟨hr, -⟩
        · intro h
          refine hapart.1 (List.mem_map.mpr ⟨w', hw', ?_⟩)
          rw [hnew]
          exact h.symm
        · exact hfresh w' (List.mem_cons_of_mem w hw') new hnew r hr
      rcases ih hlegal' hfresh' hapart.2 hmem with ⟨w', hw', hrow⟩ | ⟨hr, hne⟩
      · exact Or.inl ⟨w', List.mem_cons_of_mem w hw', hrow⟩
      · rcases hin row hr with rfl | ⟨hr, hne'⟩
        · exact Or.inl ⟨w, List.mem_cons_self, rfl⟩
        · refine Or.inr ⟨hr, fun w' hw' => ?_⟩
          rcases List.mem_cons.mp hw' with rfl | hw'
          · exact hne'
          · exact hne w' hw'

/-- The rows that writes insert. -/
def Write.inserted : Write → Option TurnRow
  | .insert row => some row
  | .update .. => none

/-- No write but an insert changes which identities there are. -/
theorem identities_applyWrites {writes : List Write} {now : Int}
    {call : Call} (hlegal : ∀ w ∈ writes, w.Legal now call) :
    ∀ rows : List TurnRow,
      ((applyWrites rows writes).map TurnRow.identity).Perm
        ((writes.filterMap Write.inserted ++ rows).map TurnRow.identity) := by
  induction writes with
  | nil => exact fun rows => List.Perm.refl _
  | cons w writes ih =>
      intro rows
      have hlegal' := fun w' hw' => hlegal w' (List.mem_cons_of_mem w hw')
      refine (ih hlegal' (applyWrite rows w)).trans ?_
      cases w with
      | insert row =>
          simp only [applyWrite, Write.inserted, List.filterMap_cons,
            List.map_append, List.map_cons, List.cons_append]
          exact List.perm_middle
      | update before after =>
          have hid := (hlegal _ List.mem_cons_self).update_identity
          simp only [Write.inserted, List.filterMap_cons, List.map_append,
            identities_update hid]
          exact List.Perm.refl _

/-! ## Steps

The four kinds of step, each with what it has of its statement. -/

variable {author : Authors}

/-- Everything a step may do. -/
inductive Moves (author : Authors) (s : State) :
    Act → State → List Event → Prop
  | refuse {p call now} (hphase : s.phase p = .idle)
      (howns : owns author call = false) :
      Moves author s (.begin p call now) s [.refused p call .notFound]
  | begin {p call now} (hphase : s.phase p = .idle)
      (howns : owns author call = true) :
      Moves author s (.begin p call now)
        (s.keep p ⟨call, now, call.firstStage, []⟩) []
  | advance {p messageClash tx tx'} (hphase : s.phase p = .«open» tx)
      (hstatement : statement s tx messageClash = some (.next tx')) :
      Moves author s (.statement p messageClash) (s.keep p tx') []
  | throw {p messageClash tx e} (hphase : s.phase p = .«open» tx)
      (hstatement : statement s tx messageClash = some (.throws e)) :
      Moves author s (.statement p messageClash) (s.close p s.rows)
        [.refused p tx.call e]
  | commit {p call now answer writes}
      (hphase : s.phase p = .«open» ⟨call, now, .answering answer, writes⟩) :
      Moves author s (.commit p) (s.close p (applyWrites s.rows writes))
        [.committed p call now writes answer]
  | rollback {p tx} (hphase : s.phase p = .«open» tx) :
      Moves author s (.rollback p) (s.close p s.rows) []

theorem moves_of_step {s s' : State} {a : Act} {out : List Event}
    (h : step author s a = some (s', out)) : Moves author s a s' out := by
  cases a with
  | begin p call now =>
      simp only [step] at h
      split at h
      · rename_i hphase
        split at h
        · rename_i howns
          obtain ⟨rfl, rfl⟩ := Prod.mk.inj (Option.some.inj h)
          exact .begin hphase howns
        · rename_i howns
          obtain ⟨rfl, rfl⟩ := Prod.mk.inj (Option.some.inj h)
          exact .refuse hphase (by simpa using howns)
      · cases h
  | statement p messageClash =>
      simp only [step] at h
      split at h
      · cases h
      · rename_i tx hphase
        split at h
        · cases h
        · rename_i tx' hstatement
          obtain ⟨rfl, rfl⟩ := Prod.mk.inj (Option.some.inj h)
          exact .advance hphase hstatement
        · rename_i e hstatement
          obtain ⟨rfl, rfl⟩ := Prod.mk.inj (Option.some.inj h)
          exact .throw hphase hstatement
  | commit p =>
      simp only [step] at h
      split at h
      · rename_i hphase
        obtain ⟨rfl, rfl⟩ := Prod.mk.inj (Option.some.inj h)
        exact .commit hphase
      · cases h
  | rollback p =>
      simp only [step] at h
      split at h
      · cases h
      · rename_i tx hphase
        obtain ⟨rfl, rfl⟩ := Prod.mk.inj (Option.some.inj h)
        exact .rollback hphase

end Shozee.Turns
