import Shozee.Turns.Statements

/-!
# What locks keep apart

The invariant of this file is `State.Sound`: no two committed rows have one
identity, no two active rows have one conversation, and what an open
transaction has written will still fit when it commits. The last part is what
the locks are for: a row that a transaction has locked stays as it was read,
and a place that its insert has taken stays free.
-/

namespace Shozee.Turns

open Shozee.Run

/-! ## The invariant

`State.Sound` says of each open transaction that its writes will fit, and of
the committed rows that they are apart. The two need one another: a commit
makes rows of writes. -/

/-- The turns that a sweep has still to look at. -/
def Stage.pending : Stage → List TurnIdentity
  | .sweeping rest _ => rest
  | _ => []

/-- What a transaction has told so far is what it has taken. -/
def Tx.Reported (tx : Tx) : Prop :=
  match tx.stage with
  | .answering answer => answer.told tx.call = tx.writes.flatMap Write.taken
  | .sweeping _ ended => (ended.map fun turn =>
      (turn.identity, turn.releasedHold)) = tx.writes.flatMap Write.taken
  | _ => tx.writes = []

/-- A write of `p` that has not been committed will still fit. -/
def Write.Fits (s : State) (p : Nat) : Write → Prop
  | .insert row => s.lock row.identity = some p ∧
      (∀ r ∈ s.rows, r.identity ≠ row.identity) ∧
      (row.isActive = true →
        s.slot row.identity.conversation = some p ∧
        ∀ r ∈ s.rows, r.isActive = true →
          r.identity.conversation ≠ row.identity.conversation)
  | .update before _ => s.lock before.identity = some p ∧ before ∈ s.rows

/-- What a transaction has written fits the rows and the locks that it holds.
-/
structure Tx.Sound (s : State) (p : Nat) (tx : Tx) : Prop where
  reported : tx.Reported
  legal : ∀ w ∈ tx.writes, w.Legal tx.now tx.call
  fits : ∀ w ∈ tx.writes, w.Fits s p
  apart : (tx.writes.map Write.identity ++ tx.stage.pending).Nodup

/-- At most one turn of a conversation is queued or running. -/
def OneActive (rows : List TurnRow) : Prop :=
  ∀ row ∈ rows, ∀ row' ∈ rows, row.isActive = true → row'.isActive = true →
    row.identity.conversation = row'.identity.conversation → row = row'

/-- The rows are apart, each conversation has one active turn, and every
transaction is sound. -/
structure State.Sound (s : State) : Prop where
  nodup : (s.rows.map TurnRow.identity).Nodup
  lease : OneActive s.rows
  txs : ∀ p tx, s.phase p = .«open» tx → tx.Sound s p

theorem State.Sound.eq_of_identity {s : State} (h : s.Sound)
    {row row' : TurnRow} (hrow : row ∈ s.rows) (hrow' : row' ∈ s.rows)
    (heq : row.identity = row'.identity) : row = row' :=
  List.inj_on_of_nodup_map h.nodup hrow hrow' heq

/-! ## One step keeps it

A statement takes locks and gives none back. So what other transactions have
locked is theirs still, and what they have written fits as before. -/

@[simp] theorem keep_rows (s : State) (p : Nat) (tx : Tx) :
    (s.keep p tx).rows = s.rows := rfl

theorem keep_phase (s : State) (p q : Nat) (tx : Tx) :
    (s.keep p tx).phase q = if q = p then .«open» tx else s.phase q := by
  simp only [State.keep, Function.update_apply]

@[simp] theorem close_rows (s : State) (p : Nat) (rows : List TurnRow) :
    (s.close p rows).rows = rows := rfl

theorem close_phase (s : State) (p q : Nat) (rows : List TurnRow) :
    (s.close p rows).phase q = if q = p then .idle else s.phase q := by
  simp only [State.close, Function.update_apply]

theorem Write.Fits.locked {s : State} {p : Nat} {w : Write} {now : Int}
    {call : Call} (hlegal : w.Legal now call) (h : w.Fits s p) :
    s.lock w.identity = some p := by
  cases w with
  | insert row => exact h.1
  | update before after =>
      unfold Write.identity Write.row
      rw [hlegal.update_identity]
      exact h.1

/-- Locks that others hold are theirs while a transaction only adds to its
own: it has taken only what was free. -/
theorem Write.Fits.keep {s : State} {p q : Nat} {tx : Tx} {w : Write}
    (hqp : q ≠ p) (h : w.Fits s q)
    (hlocks : ∀ w' ∈ tx.writes, ∀ q', s.lock w'.identity = some q' → q' = p)
    (hslots : ∀ w' ∈ tx.writes, ∀ conversation,
      w'.holdsSlot conversation = true →
      ∀ q', s.slot conversation = some q' → q' = p) :
    w.Fits (s.keep p tx) q := by
  have hlock : ∀ identity, s.lock identity = some q →
      (s.keep p tx).lock identity = some q := by
    intro identity hheld
    unfold State.keep
    dsimp only
    split
    · rename_i hany
      obtain ⟨w', hw', heq⟩ := List.any_eq_true.mp hany
      simp only [decide_eq_true_eq] at heq
      exact absurd (hlocks w' hw' q (heq ▸ hheld)) hqp
    · exact hheld
  have hslot : ∀ conversation, s.slot conversation = some q →
      (s.keep p tx).slot conversation = some q := by
    intro conversation hheld
    unfold State.keep
    dsimp only
    split
    · rename_i hany
      obtain ⟨w', hw', hholds⟩ := List.any_eq_true.mp hany
      exact absurd (hslots w' hw' conversation hholds q hheld) hqp
    · exact hheld
  cases w with
  | insert row =>
      exact ⟨hlock _ h.1, h.2.1, fun hactive =>
        ⟨hslot _ (h.2.2 hactive).1, (h.2.2 hactive).2⟩⟩
  | update before after => exact ⟨hlock _ h.1, h.2⟩

/-- What a transaction has written it has locked. -/
theorem keep_lock_of_mem {s : State} {p : Nat} {tx : Tx} {w : Write}
    (hw : w ∈ tx.writes) : (s.keep p tx).lock w.identity = some p := by
  unfold State.keep
  dsimp only
  rw [if_pos]
  exact List.any_eq_true.mpr ⟨w, hw, decide_eq_true rfl⟩

theorem keep_slot_of_mem {s : State} {p : Nat} {tx : Tx} {w : Write}
    {conversation : Text × Text} (hw : w ∈ tx.writes)
    (hholds : w.holdsSlot conversation = true) :
    (s.keep p tx).slot conversation = some p := by
  unfold State.keep
  dsimp only
  rw [if_pos]
  exact List.any_eq_true.mpr ⟨w, hw, hholds⟩

/-- A transaction that ends lets go of its own locks only. -/
theorem Write.Fits.close {s : State} {p q : Nat} {w : Write}
    {rows : List TurnRow} (hqp : q ≠ p) (h : w.Fits s q)
    (hfresh : ∀ row, w = .insert row →
      (∀ r ∈ rows, r.identity ≠ row.identity) ∧
      (row.isActive = true → ∀ r ∈ rows, r.isActive = true →
        r.identity.conversation ≠ row.identity.conversation))
    (hkept : ∀ before after, w = .update before after → before ∈ rows) :
    w.Fits (s.close p rows) q := by
  have hne : some q ≠ some p := fun h => hqp (Option.some.inj h)
  have hlock : ∀ identity, s.lock identity = some q →
      (s.close p rows).lock identity = some q := by
    intro identity hheld
    unfold State.close
    dsimp only
    rw [if_neg (hheld ▸ hne), hheld]
  have hslot : ∀ conversation, s.slot conversation = some q →
      (s.close p rows).slot conversation = some q := by
    intro conversation hheld
    unfold State.close
    dsimp only
    rw [if_neg (hheld ▸ hne), hheld]
  cases w with
  | insert row =>
      obtain ⟨hid, hactive⟩ := hfresh row rfl
      exact ⟨hlock _ h.1, hid, fun ha =>
        ⟨hslot _ (h.2.2 ha).1, hactive ha⟩⟩
  | update before after =>
      exact ⟨hlock _ h.1, hkept before after rfl⟩

/-! ## Statements keep their transaction sound

What a statement adds: the rows that it has locked were read under the lock,
and an insert has found its place empty. `Extends` is all that the step lemma
uses of a statement. -/

theorem Tx.Reported.writes_nil {tx : Tx} (h : tx.Reported)
    (hanswering : ∀ answer, tx.stage ≠ .answering answer)
    (hsweeping : ∀ rest ended, tx.stage ≠ .sweeping rest ended) :
    tx.writes = [] := by
  unfold Tx.Reported at h
  split at h
  · exact absurd ‹_› (hanswering _)
  · exact absurd ‹_› (hsweeping _ _)
  · exact h

/-- A transaction that has written nothing has nothing to tell. -/
theorem nothing_taken {writes : List Write} (h : writes = []) :
    [] = writes.flatMap Write.taken := by
  rw [h]
  rfl

theorem reported_of_reads {rows : List TurnRow} {tx : Tx} {stage : Stage}
    (h : Reads rows tx stage) (hreported : tx.Reported) :
    Tx.Reported { tx with stage } := by
  unfold Tx.Reported at hreported
  cases h with
  | settled _ hstage _ =>
      rcases hstage with hstage | ⟨b, hstage⟩ <;> rw [hstage] at hreported <;>
        exact nothing_taken hreported
  | unsettled _ hstage _ hnext =>
      rw [hstage] at hreported
      rcases hnext with rfl | rfl <;> exact hreported
  | rooted hstage => rw [hstage] at hreported; exact hreported
  | clash hstage => rw [hstage] at hreported; exact hreported
  | raced hstage =>
      rw [hstage] at hreported
      exact nothing_taken hreported
  | missed hstage => rw [hstage] at hreported; exact hreported
  | current hstage htold =>
      rw [hstage] at hreported
      exact htold.trans (nothing_taken hreported)
  | uncounted hstage =>
      rw [hstage] at hreported
      exact nothing_taken hreported
  | counted hstage =>
      rw [hstage] at hreported
      exact nothing_taken hreported
  | skipped hstage => rw [hstage] at hreported; exact hreported
  | swept hstage => rw [hstage] at hreported; exact hreported

theorem apart_of_reads {rows : List TurnRow} {tx : Tx} {stage : Stage}
    (h : Reads rows tx stage) (hreported : tx.Reported)
    (hapart : (tx.writes.map Write.identity ++ tx.stage.pending).Nodup) :
    (tx.writes.map Write.identity ++ stage.pending).Nodup := by
  have hdone : (tx.writes.map Write.identity ++ []).Nodup := by
    rw [List.append_nil]
    exact (List.nodup_append.mp hapart).1
  cases h with
  | settled => exact hdone
  | unsettled _ _ _ hnext => rcases hnext with rfl | rfl <;> exact hdone
  | rooted => exact hdone
  | clash => exact hdone
  | raced => exact hdone
  | missed => exact hdone
  | current => exact hdone
  | uncounted => exact hdone
  | counted hstage =>
      have hnil : tx.writes = [] := by
        refine hreported.writes_nil ?_ ?_ <;> intros <;> rw [hstage] <;>
          exact fun h => nomatch h
      rw [hnil]
      exact sweepIdentities_nodup _ _
  | skipped hstage =>
      rw [hstage] at hapart
      exact hapart.sublist
        ((List.Sublist.refl _).append (List.sublist_cons_self _ _))
  | swept => exact hdone

/-- An insert that did not wait and was not refused found its place free. -/
theorem free_of_inserts {s : State} {row : TurnRow}
    (hwaits : s.insertWaits row = false)
    (hunique : uniqueViolation s.rows row = false) :
    s.lock row.identity = none ∧
      (∀ r ∈ s.rows, r.identity ≠ row.identity) ∧
      (row.isActive = true → s.slot row.identity.conversation = none ∧
        ∀ r ∈ s.rows, r.isActive = true →
          r.identity.conversation ≠ row.identity.conversation) := by
  unfold State.insertWaits at hwaits
  unfold uniqueViolation at hunique
  rw [Bool.or_eq_false_iff, Bool.and_eq_false_iff] at hwaits
  rw [List.any_eq_false] at hunique
  obtain ⟨hlock, hslot⟩ := hwaits
  have hapart : ∀ r ∈ s.rows, r.identity ≠ row.identity ∧
      (row.isActive = true → r.isActive = true →
        r.identity.conversation ≠ row.identity.conversation) := by
    intro r hr
    have hne := hunique r hr
    simp only [decide_eq_true_eq, not_or, not_and] at hne
    exact hne
  refine ⟨by simpa using hlock, fun r hr => (hapart r hr).1, fun ha => ?_⟩
  refine ⟨?_, fun r hr => (hapart r hr).2 ha⟩
  rcases hslot with hinactive | hslot
  · rw [ha] at hinactive
    cases hinactive
  · simpa using (Bool.or_eq_false_iff.mp hslot).1

/-- What a statement adds to a sound transaction. -/
structure Extends (s : State) (p : Nat) (tx tx' : Tx) : Prop where
  now_eq : tx'.now = tx.now
  call_eq : tx'.call = tx.call
  reported : tx'.Reported
  apart : (tx'.writes.map Write.identity ++ tx'.stage.pending).Nodup
  writes : ∀ w ∈ tx'.writes, w ∈ tx.writes ∨
    (w.Legal tx.now tx.call ∧ s.lock w.identity = none ∧
      (∀ before after, w = .update before after → before ∈ s.rows) ∧
      ∀ row, w = .insert row → (∀ r ∈ s.rows, r.identity ≠ row.identity) ∧
        (row.isActive = true → s.slot row.identity.conversation = none ∧
          ∀ r ∈ s.rows, r.isActive = true →
            r.identity.conversation ≠ row.identity.conversation))

/-- A single write, in a transaction that had none. -/
theorem apart_single {tx : Tx} {w : Write} {stage : Stage}
    (hnil : tx.writes = []) (hpending : stage.pending = []) :
    ((tx.writes ++ [w]).map Write.identity ++ stage.pending).Nodup := by
  rw [hnil, hpending]
  exact List.nodup_singleton _

theorem extends_of_advances {s : State} {p : Nat} {tx tx' : Tx}
    (h : Advances s tx tx') (hsound : tx.Sound s p) : Extends s p tx tx' := by
  have hnil : ∀ stage, tx.stage = stage →
      (∀ answer, stage ≠ .answering answer) →
      (∀ rest ended, stage ≠ .sweeping rest ended) → tx.writes = [] := by
    intro stage hstage h1 h2
    refine hsound.reported.writes_nil ?_ ?_ <;> rw [hstage] <;> assumption
  cases h with
  | read hread =>
      have hapart := apart_of_reads hread hsound.reported hsound.apart
      exact ⟨rfl, rfl, reported_of_reads hread hsound.reported, hapart,
        fun w hw => Or.inl hw⟩
  | @insert ctx input root hcall hstage hcheck hwaits hunique =>
      have hwrites := hnil _ hstage (fun _ h => nomatch h)
        (fun _ _ h => nomatch h)
      obtain ⟨hlock, hid, hactive⟩ := free_of_inserts hwaits hunique
      refine ⟨rfl, rfl, ?_, apart_single hwrites rfl, ?_⟩
      · show _ = (tx.writes ++ _).flatMap Write.taken
        rw [hwrites]
        rfl
      · intro w hw
        rcases List.mem_append.mp hw with hw | hw
        · exact Or.inl hw
        · obtain rfl := List.mem_singleton.mp hw
          refine Or.inr ⟨hcall ▸ .insert hcheck, hlock, ?_, ?_⟩
          · intro before after heq
            cases heq
          · intro row heq
            obtain rfl := Write.insert.inj heq
            exact ⟨hid, hactive⟩
  | @start ctx ref timeoutMs row d hcall hstage hmem hstartable hfree =>
      have hwrites := hnil _ hstage (fun _ h => nomatch h)
        (fun _ _ h => nomatch h)
      refine ⟨rfl, rfl, ?_, apart_single hwrites rfl, ?_⟩
      · show _ = (tx.writes ++ _).flatMap Write.taken
        rw [hwrites, List.nil_append, List.flatMap_singleton, taken_started]
        rfl
      · intro w hw
        rcases List.mem_append.mp hw with hw | hw
        · exact Or.inl hw
        · obtain rfl := List.mem_singleton.mp hw
          refine Or.inr ⟨hcall ▸ .start hstartable, hfree, ?_, ?_⟩
          · intro before after heq
            exact (Write.update.inj heq).1 ▸ hmem
          · intro row heq
            cases heq
  | @finalise f row stage hcall hmem heligible hfree htakes =>
      have hreport : (tx.writes ++ [Write.update row
          (f.ended tx.now row)]).flatMap Write.taken =
          tx.writes.flatMap Write.taken ++ [(row.identity, row.hold)] := by
        rw [List.flatMap_append, List.flatMap_singleton, taken_ended]
      refine ⟨rfl, rfl, ?_, ?_, ?_⟩
      · cases htakes with
        | answers hstage htold =>
            have hwrites := hnil _ hstage (fun _ h => nomatch h)
              (fun _ _ h => nomatch h)
            show _ = (tx.writes ++ _).flatMap Write.taken
            rw [hreport, hwrites]
            exact htold
        | @goesOn rest ended turn hstage hid hhold =>
            have hsofar := hsound.reported
            unfold Tx.Reported at hsofar
            rw [hstage] at hsofar
            show (ended ++ [turn]).map _ = (tx.writes ++ _).flatMap Write.taken
            rw [hreport, List.map_append, hsofar, List.map_singleton, hid,
              hhold]
      · cases htakes with
        | answers hstage htold =>
            have hwrites := hnil _ hstage (fun _ h => nomatch h)
              (fun _ _ h => nomatch h)
            exact apart_single hwrites rfl
        | @goesOn rest ended turn hstage hid hhold =>
            have hsofar := hsound.apart
            rw [hstage] at hsofar
            show ((tx.writes ++ _).map Write.identity ++ rest).Nodup
            rw [List.map_append, List.append_assoc]
            exact hsofar
      · intro w hw
        rcases List.mem_append.mp hw with hw | hw
        · exact Or.inl hw
        · obtain rfl := List.mem_singleton.mp hw
          refine Or.inr ⟨.finalise hcall heligible, hfree, ?_, ?_⟩
          · intro before after heq
            exact (Write.update.inj heq).1 ▸ hmem
          · intro row heq
            cases heq

/-- A transaction that has run a statement is sound, and has taken only locks
that were free. -/
theorem Extends.sound {s : State} {p : Nat} {tx tx' : Tx}
    (h : Extends s p tx tx') (hsound : tx.Sound s p) :
    tx'.Sound (s.keep p tx') p := by
  refine ⟨h.reported, ?_, ?_, h.apart⟩
  · intro w hw
    rw [h.now_eq, h.call_eq]
    rcases h.writes w hw with hold | ⟨hlegal, -⟩
    · exact hsound.legal w hold
    · exact hlegal
  · intro w hw
    have hlock := keep_lock_of_mem (s := s) (p := p) hw
    cases w with
    | insert row =>
        have hslot : row.isActive = true →
            (s.keep p tx').slot row.identity.conversation = some p := by
          intro hactive
          refine keep_slot_of_mem hw ?_
          simp only [Write.holdsSlot, hactive, Bool.true_and, decide_true]
        rcases h.writes _ hw with hold | ⟨-, -, -, hfree⟩
        · obtain ⟨-, hid, hactive⟩ := hsound.fits _ hold
          exact ⟨hlock, hid, fun ha => ⟨hslot ha, (hactive ha).2⟩⟩
        · obtain ⟨hid, hactive⟩ := hfree row rfl
          exact ⟨hlock, hid, fun ha => ⟨hslot ha, (hactive ha).2⟩⟩
    | update before after =>
        rcases h.writes _ hw with hold | ⟨hlegal, -, hmem, -⟩
        · have hid := (hsound.legal _ hold).update_identity
          exact ⟨hid ▸ hlock, (hsound.fits _ hold).2⟩
        · exact ⟨hlegal.update_identity ▸ hlock, hmem before after rfl⟩

theorem Extends.locks {s : State} {p : Nat} {tx tx' : Tx}
    (h : Extends s p tx tx') (hsound : tx.Sound s p) :
    ∀ w ∈ tx'.writes, ∀ q, s.lock w.identity = some q → q = p := by
  intro w hw q hq
  rcases h.writes w hw with hold | ⟨-, hfree, -⟩
  · have hmine := (hsound.fits w hold).locked (hsound.legal w hold)
    exact Option.some.inj (hq.symm.trans hmine)
  · rw [hfree] at hq
    cases hq

theorem Extends.slots {s : State} {p : Nat} {tx tx' : Tx}
    (h : Extends s p tx tx') (hsound : tx.Sound s p) :
    ∀ w ∈ tx'.writes, ∀ conversation, w.holdsSlot conversation = true →
      ∀ q, s.slot conversation = some q → q = p := by
  intro w hw conversation hholds q hq
  cases w with
  | update before after => cases hholds
  | insert row =>
      simp only [Write.holdsSlot, Bool.and_eq_true, decide_eq_true_eq]
        at hholds
      obtain ⟨hactive, rfl⟩ := hholds
      rcases h.writes _ hw with hold | ⟨-, -, -, hfree⟩
      · have hmine := ((hsound.fits _ hold).2.2 hactive).1
        exact Option.some.inj (hq.symm.trans hmine)
      · rw [((hfree row rfl).2 hactive).1] at hq
        cases hq

/-! ## Steps

Begin, statement, rollback and commit. Only the commit changes rows, and there
the locks show that what others have in hand still fits. -/

variable {author : Authors}

/-- A transaction stays sound while the state changes under it only where its
locks are not. -/
theorem Tx.Sound.mono {s s' : State} {p : Nat} {tx : Tx} (h : tx.Sound s p)
    (hfits : ∀ w ∈ tx.writes, w.Fits s p → w.Fits s' p) : tx.Sound s' p :=
  ⟨h.reported, h.legal, fun w hw => hfits w hw (h.fits w hw), h.apart⟩

theorem State.Sound.keep {s : State} {p : Nat} {tx : Tx} (h : s.Sound)
    (htx : tx.Sound (s.keep p tx) p)
    (hlocks : ∀ w ∈ tx.writes, ∀ q, s.lock w.identity = some q → q = p)
    (hslots : ∀ w ∈ tx.writes, ∀ conversation,
      w.holdsSlot conversation = true →
      ∀ q, s.slot conversation = some q → q = p) :
    (s.keep p tx).Sound := by
  refine ⟨h.nodup, h.lease, fun q tx' hphase => ?_⟩
  rw [keep_phase] at hphase
  split at hphase
  · rename_i hqp
    obtain rfl := Phase.open.inj hphase
    exact hqp ▸ htx
  · rename_i hqp
    exact (h.txs q tx' hphase).mono fun w _ hfits =>
      hfits.keep hqp hlocks hslots

/-- When a transaction ends without a commit, nobody loses anything. -/
theorem State.Sound.close {s : State} {p : Nat} (h : s.Sound) :
    (s.close p s.rows).Sound := by
  refine ⟨h.nodup, h.lease, fun q tx hphase => ?_⟩
  rw [close_phase] at hphase
  split at hphase
  · cases hphase
  · rename_i hqp
    refine (h.txs q tx hphase).mono fun w _ hfits => hfits.close hqp ?_ ?_
    · rintro row rfl
      exact ⟨hfits.2.1, fun hactive => (hfits.2.2 hactive).2⟩
    · rintro before after rfl
      exact hfits.2

theorem Tx.Sound.fresh {s : State} {p : Nat} {tx : Tx} (h : tx.Sound s p) :
    ∀ w ∈ tx.writes, ∀ new, w = .insert new →
      ∀ r ∈ s.rows, r.identity ≠ new.identity := by
  rintro w hw new rfl
  exact (h.fits _ hw).2.1

theorem Tx.Sound.ids_nodup {s : State} {p : Nat} {tx : Tx}
    (h : tx.Sound s p) : (tx.writes.map Write.identity).Nodup :=
  (List.nodup_append.mp h.apart).1

/-- A row after a commit is one that the transaction wrote, or stands where it
stood and the transaction wrote none of its identity. -/
theorem Tx.Sound.mem_applyWrites {s : State} {p : Nat} {tx : Tx}
    (h : tx.Sound s p) {row : TurnRow}
    (hrow : row ∈ applyWrites s.rows tx.writes) :
    (∃ w ∈ tx.writes, w.row = row) ∨
      (row ∈ s.rows ∧ ∀ w ∈ tx.writes, w.identity ≠ row.identity) :=
  Turns.mem_applyWrites h.legal h.fresh h.ids_nodup hrow

/-- An active row that a transaction writes takes the place of an active row
of its conversation, or takes a free place. -/
theorem Tx.Sound.active_write {s : State} {p : Nat} {tx : Tx}
    (h : tx.Sound s p) {w : Write} (hw : w ∈ tx.writes)
    (hactive : w.row.isActive = true) :
    (∃ before ∈ s.rows, before.isActive = true ∧
      before.identity = w.row.identity) ∨
      (s.slot w.row.identity.conversation = some p ∧
        ∀ r ∈ s.rows, r.isActive = true →
          r.identity.conversation ≠ w.row.identity.conversation) := by
  cases w with
  | insert row => exact Or.inr ((h.fits _ hw).2.2 hactive)
  | update before after =>
      have hlegal := h.legal _ hw
      exact Or.inl ⟨before, (h.fits _ hw).2, hlegal.update_active,
        hlegal.update_identity.symm⟩

/-- The writes of one transaction of the same identity are one write. -/
theorem Tx.Sound.write_eq {s : State} {p : Nat} {tx : Tx} (h : tx.Sound s p)
    {w w' : Write} (hw : w ∈ tx.writes) (hw' : w' ∈ tx.writes)
    (heq : w.identity = w'.identity) : w = w' :=
  List.inj_on_of_nodup_map h.ids_nodup hw hw' heq

/-- An accept has one row to insert. -/
theorem Write.Legal.insert_identity {now : Int} {call : Call}
    {row row' : TurnRow} (h : Legal now call (.insert row))
    (h' : Legal now call (.insert row')) : row.identity = row'.identity := by
  cases h with
  | insert => cases h'; rfl

/-- The committed active rows stay one a conversation. -/
theorem Tx.Sound.oneActive {s : State} {p : Nat} {tx : Tx}
    (h : tx.Sound s p) (hlease : OneActive s.rows) :
    OneActive (applyWrites s.rows tx.writes) := by
  have hboth : ∀ w ∈ tx.writes, ∀ w' ∈ tx.writes, w.row.isActive = true →
      w'.row.isActive = true → w.row.identity.conversation =
        w'.row.identity.conversation → w = w' := by
    intro w hw w' hw' ha ha' hconv
    rcases h.active_write hw ha with ⟨b, hb, hba, hbid⟩ | ⟨-, hfree⟩
    · rcases h.active_write hw' ha' with ⟨b', hb', hba', hbid'⟩ | ⟨-, hfree'⟩
      · have hsame : b = b' := by
          refine hlease b hb b' hb' hba hba' ?_
          rw [hbid, hbid', hconv]
        refine h.write_eq hw hw' ?_
        show w.row.identity = w'.row.identity
        rw [← hbid, ← hbid', hsame]
      · exact absurd (hbid ▸ hconv) (hfree' b hb hba)
    · cases w with
      | update before after =>
          have hid := (h.legal _ hw).update_identity
          refine absurd ?_ (hfree before (h.fits _ hw).2
            (h.legal _ hw).update_active)
          exact congrArg TurnIdentity.conversation hid.symm
      | insert row =>
          cases w' with
          | update before' after' =>
              have hid := (h.legal _ hw').update_identity
              refine absurd ?_ (hfree before' (h.fits _ hw').2
                (h.legal _ hw').update_active)
              exact (congrArg TurnIdentity.conversation hid.symm).trans
                hconv.symm
          | insert row' =>
              refine h.write_eq hw hw' ?_
              exact (h.legal _ hw).insert_identity (h.legal _ hw')
  have hone : ∀ w ∈ tx.writes, ∀ r ∈ s.rows, w.identity ≠ r.identity →
      w.row.isActive = true → r.isActive = true →
      w.row.identity.conversation ≠ r.identity.conversation := by
    intro w hw r hr hne ha hra hconv
    rcases h.active_write hw ha with ⟨b, hb, hba, hbid⟩ | ⟨-, hfree⟩
    · have hsame : b = r := hlease b hb r hr hba hra (hbid ▸ hconv)
      exact hne (hsame ▸ hbid).symm
    · exact hfree r hr hra hconv.symm
  intro r hr r' hr' ha ha' hconv
  rcases h.mem_applyWrites hr with ⟨w, hw, rfl⟩ | ⟨hold, hne⟩
  · rcases h.mem_applyWrites hr' with ⟨w', hw', rfl⟩ | ⟨hold', hne'⟩
    · rw [hboth w hw w' hw' ha ha' hconv]
    · exact absurd hconv (hone w hw r' hold' (hne' w hw) ha ha')
  · rcases h.mem_applyWrites hr' with ⟨w', hw', rfl⟩ | ⟨hold', -⟩
    · exact absurd hconv.symm (hone w' hw' r hold (hne w' hw') ha' ha)
    · exact hlease r hold r' hold' ha ha' hconv

/-- What another transaction has in hand still fits after a commit. -/
theorem Tx.Sound.fits_after {s : State} {p q : Nat} {tx tx' : Tx}
    (h : tx.Sound s p) (h' : tx'.Sound s q) (hqp : q ≠ p) {w' : Write}
    (hw' : w' ∈ tx'.writes) :
    w'.Fits (s.close p (applyWrites s.rows tx.writes)) q := by
  have hlocked : ∀ w ∈ tx.writes, w.identity ≠ w'.identity := by
    intro w hw heq
    have hp := (h.fits w hw).locked (h.legal w hw)
    have hq := (h'.fits w' hw').locked (h'.legal w' hw')
    rw [heq, hq] at hp
    exact hqp (Option.some.inj hp)
  refine (h'.fits w' hw').close hqp ?_ ?_
  · rintro row rfl
    obtain ⟨-, hfree, hactive⟩ := h'.fits _ hw'
    refine ⟨fun r hr => ?_, fun ha r hr hra hconv => ?_⟩
    · rcases h.mem_applyWrites hr with ⟨w, hw, rfl⟩ | ⟨hold, -⟩
      · exact hlocked w hw
      · exact hfree r hold
    · obtain ⟨hslot, hnone⟩ := hactive ha
      rcases h.mem_applyWrites hr with ⟨w, hw, rfl⟩ | ⟨hold, -⟩
      · rcases h.active_write hw hra with ⟨b, hb, hba, hbid⟩ | ⟨hslotp, -⟩
        · exact hnone b hb hba (hbid ▸ hconv)
        · rw [hconv, hslot] at hslotp
          exact hqp (Option.some.inj hslotp)
      · exact hnone r hold hra hconv
  · rintro before after rfl
    refine mem_applyWrites_of_ne ?_ (h'.fits _ hw').2
    rintro w hw b a rfl heq
    refine hlocked _ hw ?_
    show a.identity = after.identity
    rw [(h.legal _ hw).update_identity, (h'.legal _ hw').update_identity]
    exact heq

theorem State.Sound.commit {s : State} {p : Nat} {tx : Tx} (h : s.Sound)
    (hphase : s.phase p = .«open» tx) :
    (s.close p (applyWrites s.rows tx.writes)).Sound := by
  have htx := h.txs p tx hphase
  refine ⟨?_, htx.oneActive h.lease, fun q tx' hq => ?_⟩
  · rw [close_rows, (identities_applyWrites htx.legal s.rows).nodup_iff,
      List.map_append, List.nodup_append]
    refine ⟨?_, h.nodup, ?_⟩
    · have hsub : (tx.writes.filterMap Write.inserted).map
          TurnRow.identity = (tx.writes.filter
            (fun w => w.inserted.isSome)).map Write.identity := by
        generalize tx.writes = writes
        induction writes with
        | nil => rfl
        | cons w writes ih =>
            cases w with
            | insert row => exact congrArg (row.identity :: ·) ih
            | update before after => exact ih
      rw [hsub]
      exact htx.ids_nodup.sublist (List.filter_sublist.map _)
    · intro identity hnew identity' hold heq
      obtain ⟨row, hrow, rfl⟩ := List.mem_map.mp hnew
      obtain ⟨r, hr, rfl⟩ := List.mem_map.mp hold
      obtain ⟨w, hw, hins⟩ := List.mem_filterMap.mp hrow
      cases w with
      | insert row' =>
          obtain rfl := Option.some.inj hins
          exact htx.fresh _ hw _ rfl r hr heq.symm
      | update before after => cases hins
  · rw [close_phase] at hq
    split at hq
    · cases hq
    · rename_i hqp
      have htx' := h.txs q tx' hq
      exact htx'.mono fun w' hw' _ => htx.fits_after htx' hqp hw'

theorem State.Sound.initial : State.initial.Sound :=
  ⟨List.nodup_nil, fun _ h => (List.not_mem_nil h).elim,
    fun _ _ h => nomatch h⟩

/-- A transaction that has only begun has nothing in hand. -/
theorem Tx.sound_of_begin (s : State) (p : Nat) (call : Call) (now : Int) :
    Tx.Sound s p ⟨call, now, call.firstStage, []⟩ := by
  refine ⟨?_, fun _ h => (List.not_mem_nil h).elim,
    fun _ h => (List.not_mem_nil h).elim, ?_⟩ <;>
    cases call <;> first | rfl | exact List.nodup_nil

theorem Moves.sound {s s' : State} {a : Act} {out : List Event}
    (h : Moves author s a s' out) (hs : s.Sound) : s'.Sound := by
  cases h with
  | refuse => exact hs
  | begin =>
      exact hs.keep (Tx.sound_of_begin _ _ _ _)
        (fun _ h => (List.not_mem_nil h).elim)
        (fun _ h => (List.not_mem_nil h).elim)
  | advance hphase hstatement =>
      have htx := hs.txs _ _ hphase
      have hext := extends_of_advances (advances_of_statement hstatement) htx
      exact hs.keep (hext.sound htx) (hext.locks htx) (hext.slots htx)
  | throw => exact hs.close
  | commit hphase => exact hs.commit hphase
  | rollback => exact hs.close

/-- Every state a run reaches is sound. -/
theorem sound_of_reach {c : Conf State Event}
    (h : (machine author).Reach c) : c.st.Sound := by
  refine Machine.ReachWhen.invariant (I := fun c => c.st.Sound)
    State.Sound.initial ?_ h
  intro c a c' _ ih _ hnext
  obtain ⟨s, out, hstep, rfl⟩ := Machine.next_eq_some.mp hnext
  exact (moves_of_step hstep).sound ih

end Shozee.Turns
