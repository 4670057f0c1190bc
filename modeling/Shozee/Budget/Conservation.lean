import Shozee.Budget.Ledger

/-!
# Conservation

When nobody is at work, each counter is what stands recorded and has not been
charged, plus what has been charged. A charged turn keeps its record, so this
is the ledger's equation once more, provided that the record is there when its
turn is charged and that nobody deletes it afterwards (`KeepsCharges`).
-/

namespace Shozee.Budget

open Shozee.Run Shozee.Turns

variable {A : Sums}

/-- The holds of the turns that were charged. -/
def chargedHolds (log : List Event) : List (HoldKey × StoredHold) :=
  log.filterMap fun e => match e with
    | .charged key hold => some (key, recordOf hold)
    | _ => none

/-- A record is not deleted when its turn has been charged, and a turn that is
charged has its hold recorded. -/
def KeepsCharges (c : Conf State Event) : Act → Prop
  | .call p => ∀ d ∈ deletes c.st p, (d.key, d.recorded) ∉ chargedHolds c.log
  | a => ∀ row ∈ charges c.st a,
      c.st.holds.get (TurnRow.key row) = some (recordOf row.hold)

instance (c : Conf State Event) : ∀ a : Act, Decidable (KeepsCharges c a)
  | .call p => inferInstanceAs (Decidable (∀ d ∈ deletes c.st p, _ ∉ _))
  | .begin _ | .decline _ | .accept .. | .start .. | .finish .. | .recover .. =>
      inferInstanceAs (Decidable (∀ row ∈ charges c.st _, _ = _))

/-- The steps that keep the books: each reservation is a whole number of
millionths, each sum left on a counter is exact, each record is deleted by a
party that has the recorded amounts in hand and before its turn is charged,
and each turn is charged while its hold stands recorded. -/
def Settling (A : Sums) (c : Conf State Event) (a : Act) : Prop :=
  Matching A c a ∧ KeepsCharges c a

instance (c : Conf State Event) (a : Act) : Decidable (Settling A c a) :=
  inferInstanceAs (Decidable (_ ∧ _))

/-- What stands recorded and has not been charged. -/
def outstandingOn (c : Conf State Event) (ck : CounterKey) : ℚ :=
  ((c.st.holds.list.filter fun entry => entry ∉ chargedHolds c.log).map
    fun entry => entry.2.on entry.1 ck).sum

/-- What the log has charged to a counter. -/
def chargedOn (c : Conf State Event) (ck : CounterKey) : ℚ :=
  ((chargedHolds c.log).map fun entry => entry.2.on entry.1 ck).sum

/-- Every party is done. -/
def Quiescent (s : State) : Prop := ∀ ph ∈ s.parties, ph = .ended

instance (s : State) : Decidable (Quiescent s) :=
  inferInstanceAs (Decidable (∀ ph ∈ s.parties, ph = .ended))

/-! ## The rows of the turns

Of the five transactions only an accept adds a row and only an ending changes
its status. `TurnsMove` is all that the budget has to know of the table. -/

theorem not_stored_of_stores {s : State} {r : Request}
    (h : stores s r = true) : ∀ row ∈ s.turns, row.identity ≠ r.identity := by
  intro row hrow
  unfold stores at h
  rw [Option.isNone_iff_eq_none] at h
  exact (settledAccept_eq_none h row hrow).1

theorem Calls.turns {s s' : State} {p : Nat} {ph : Phase} {out : List Event}
    (h : Calls A s p ph s' out) : s'.turns = s.turns := by
  cases h with
  | addedCompany hadd => exact (reserved_amount hadd).2.2.1
  | addedGlobal hadd => exact (reserved_amount hadd).2.2.1
  | _ => rfl

/-- What any step does to the rows. -/
inductive TurnsMove (rows : List TurnRow) : List TurnRow → Prop
  | same : TurnsMove rows rows
  | stored {row} (hfresh : ∀ r ∈ rows, r.identity ≠ row.identity) :
      TurnsMove rows (row :: rows)
  | updated {row after} (hmem : row ∈ rows) (hactive : row.isActive = true)
      (hid : after.identity = row.identity) :
      TurnsMove rows (applyWrite rows (.update row after))

theorem Moves.turns {s s' : State} {a : Act} {out : List Event}
    (h : Moves A s a s' out) : TurnsMove s.turns s'.turns := by
  cases h with
  | call hp hcall =>
      rw [hcall.turns]
      exact .same
  | store hp hfate hstores => exact .stored (not_stored_of_stores hstores)
  | start hmem hstartable =>
      exact .updated hmem (isActive_of_startable hstartable) rfl
  | charge hmem hactive => exact .updated hmem hactive rfl
  | handBack hmem hactive => exact .updated hmem hactive rfl
  | begin => exact .same
  | release => exact .same
  | lose => exact .same

theorem TurnsMove.nodup {rows rows' : List TurnRow}
    (h : TurnsMove rows rows') (hnodup : (rows.map TurnRow.identity).Nodup) :
    (rows'.map TurnRow.identity).Nodup := by
  cases h with
  | same => exact hnodup
  | stored hfresh =>
      refine List.nodup_cons.mpr ⟨fun hmem => ?_, hnodup⟩
      obtain ⟨r, hr, heq⟩ := List.mem_map.mp hmem
      exact hfresh r hr heq
  | updated hmem hactive hid =>
      rw [identities_update hid]
      exact hnodup

/-- The row of an ended turn stays. -/
theorem TurnsMove.keeps {rows rows' : List TurnRow}
    (h : TurnsMove rows rows') (hnodup : (rows.map TurnRow.identity).Nodup)
    {row : TurnRow} (hrow : row ∈ rows) (hended : row.isActive = false) :
    row ∈ rows' := by
  cases h with
  | same => exact hrow
  | stored => exact List.mem_cons_of_mem _ hrow
  | updated hmem hactive hid =>
      refine mem_update_of_ne hrow fun heq => ?_
      rw [List.inj_on_of_nodup_map hnodup hrow hmem heq, hactive] at hended
      cases hended

/-! ## The invariant

The charged holds are a part of what is recorded. A record is deleted only by a
party that still owes its amount back, and never under a turn that was charged.
-/

/-- Each hold is charged once at most, by the end of its turn. -/
structure Charged (c : Conf State Event) : Prop where
  rows : (c.st.turns.map TurnRow.identity).Nodup
  ended : ∀ entry ∈ chargedHolds c.log, ∃ row ∈ c.st.turns,
    row.identity = entry.1.identity ∧ row.isActive = false
  once : ((chargedHolds c.log).map Prod.fst).Nodup
  kept : ∀ entry ∈ chargedHolds c.log, entry ∈ c.st.holds.list

theorem chargedHolds_of_calls {s s' : State} {p : Nat} {ph : Phase}
    {out log : List Event} (h : Calls A s p ph s' out) :
    chargedHolds (out ++ log) = chargedHolds log := by
  cases h with
  | addedCompany hadd =>
      rcases reserveBudgetKey_spec hadd with ⟨-, -, rfl, -⟩ | ⟨-, rfl, -⟩ <;>
        rfl
  | addedGlobal hadd =>
      rcases reserveBudgetKey_spec hadd with ⟨-, -, rfl, -⟩ | ⟨-, rfl, -⟩ <;>
        rfl
  | _ => rfl

/-- A step that charges nothing and deletes no charged record. -/
theorem Charged.quiet {s s' : State} {out log : List Event}
    (h : Charged ⟨s, log⟩) (hturns : TurnsMove s.turns s'.turns)
    (hlog : chargedHolds (out ++ log) = chargedHolds log)
    (hkept : ∀ entry ∈ chargedHolds log, entry ∈ s.holds.list →
      entry ∈ s'.holds.list) : Charged ⟨s', out ++ log⟩ := by
  refine ⟨hturns.nodup h.rows, ?_, ?_, ?_⟩
  · show ∀ entry ∈ chargedHolds (out ++ log), _
    rw [hlog]
    intro entry hentry
    obtain ⟨row, hrow, hid, hended⟩ := h.ended entry hentry
    exact ⟨row, hturns.keeps h.rows hrow hended, hid, hended⟩
  · show ((chargedHolds (out ++ log)).map Prod.fst).Nodup
    rw [hlog]
    exact h.once
  · show ∀ entry ∈ chargedHolds (out ++ log), _
    rw [hlog]
    exact fun entry hentry => hkept entry hentry (h.kept entry hentry)

theorem Calls.keepsRecords {s s' : State} {p : Nat} {ph : Phase}
    {out log : List Event} (hcall : Calls A s p ph s' out)
    (hp : s.parties[p]? = some ph)
    (hkeeps : ∀ d ∈ deletes s p, (d.key, d.recorded) ∉ chargedHolds log) :
    ∀ entry ∈ chargedHolds log, entry ∈ s.holds.list →
      entry ∈ s'.holds.list := by
  intro entry hcharged hentry
  cases hcall with
  | addedCompany hadd =>
      have hholds := (reserved_amount hadd).2.1
      exact hholds ▸ hentry
  | addedGlobal hadd =>
      have hholds := (reserved_amount hadd).2.1
      exact hholds ▸ hentry
  | @recorded r hold hget =>
      show entry ∈ (s.holds.putNew r.key (encodeHold hold)).list
      rw [Entries.list_putNew hget]
      exact List.mem_cons_of_mem _ hentry
  | @dropped key hold byRequest value hget =>
      refine List.mem_filter.mpr ⟨hentry, ?_⟩
      refine decide_eq_true fun heq => ?_
      have hvalue := Entries.get_of_mem (show (key, entry.2) ∈ s.holds.list
        from heq ▸ hentry)
      exact hkeeps _ (deletes_eq hp hvalue) (heq ▸ hcharged)
  | _ => exact hentry

/-- A turn that is charged was active, so it had not been charged before. -/
theorem Charged.charge {s s' : State} {log : List Event} {row : TurnRow}
    {f : Finaliser} {now : Int} (h : Charged ⟨s, log⟩)
    (hmem : row ∈ s.turns) (hactive : row.isActive = true)
    (hrecord : s.holds.get (TurnRow.key row) = some (recordOf row.hold))
    (hturns : s'.turns = applyWrite s.turns (.update row (f.ended now row)))
    (hholds : s'.holds = s.holds) :
    Charged ⟨s', .charged (TurnRow.key row) row.hold :: log⟩ := by
  have hmove : TurnsMove s.turns s'.turns := by
    rw [hturns]
    exact .updated hmem hactive rfl
  refine ⟨hmove.nodup h.rows, ?_, ?_, ?_⟩
  · intro entry hentry
    rcases List.mem_cons.mp hentry with rfl | hentry
    · refine ⟨f.ended now row, ?_, rfl, f.ended_not_active now row⟩
      show _ ∈ s'.turns
      rw [hturns]
      exact mem_update_self hmem
    · obtain ⟨r, hr, hid, hended⟩ := h.ended entry hentry
      exact ⟨r, hmove.keeps h.rows hr hended, hid, hended⟩
  · refine List.nodup_cons.mpr ⟨fun hbefore => ?_, h.once⟩
    obtain ⟨entry, hentry, heq⟩ := List.mem_map.mp hbefore
    obtain ⟨r, hr, hid, hended⟩ := h.ended entry hentry
    have hsame : r = row := by
      refine List.inj_on_of_nodup_map h.rows hr hmem (hid.trans ?_)
      exact congrArg HoldKey.identity heq
    rw [hsame, hactive] at hended
    cases hended
  · intro entry hentry
    show entry ∈ s'.holds.list
    rw [hholds]
    rcases List.mem_cons.mp hentry with rfl | hentry
    · exact Entries.mem_of_get hrecord
    · exact h.kept entry hentry

theorem Moves.charged {s s' : State} {a : Act} {out log : List Event}
    (hmoves : Moves A s a s' out) (hkeeps : KeepsCharges ⟨s, log⟩ a)
    (h : Charged ⟨s, log⟩) : Charged ⟨s', out ++ log⟩ := by
  have hturns := hmoves.turns
  have hsame : ∀ entry ∈ chargedHolds log, entry ∈ s.holds.list →
      entry ∈ s.holds.list := fun _ _ hentry => hentry
  cases hmoves with
  | @call p ph s' out hp hcall =>
      refine h.quiet hturns (chargedHolds_of_calls hcall)
        (hcall.keepsRecords hp hkeeps)
  | @charge a row now f hmem hactive hcharges =>
      refine h.charge hmem hactive ?_ rfl rfl
      cases a with
      | finish identity status now reachedModel => exact hkeeps row hcharges
      | recover recovery identity now => exact hkeeps row hcharges
      | _ => cases hcharges
  | begin => exact h.quiet hturns rfl hsame
  | release => exact h.quiet hturns rfl hsame
  | lose => exact h.quiet hturns rfl hsame
  | store => exact h.quiet hturns rfl hsame
  | start => exact h.quiet hturns rfl hsame
  | handBack => exact h.quiet hturns rfl hsame

theorem charged_of_settling {c : Conf State Event}
    (h : (machine A).ReachWhen (Settling A) c) : Charged c := by
  refine Machine.ReachWhen.invariant (I := Charged) ?_ ?_ h
  · exact ⟨List.nodup_nil, fun _ h => (List.not_mem_nil h).elim,
      List.nodup_nil, fun _ h => (List.not_mem_nil h).elim⟩
  · intro c a c' _ ih hok hnext
    obtain ⟨s, out, hs, rfl⟩ := Machine.next_eq_some.mp hnext
    exact (moves_of_step hs).charged hok.2 ih

/-! ## The equation

At rest nobody owes anything, so the ledger's equation splits into the two sums
of the claim. -/

/-- What is recorded is what is outstanding and what is charged. -/
theorem Charged.recordedOn_eq {c : Conf State Event} (h : Charged c)
    (ck : CounterKey) :
    recordedOn c.st ck = outstandingOn c ck + chargedOn c ck := by
  have hlist : c.st.holds.list.Nodup := List.Nodup.of_map _ c.st.holds.nodup
  have hperm : (c.st.holds.list.filter fun entry =>
      entry ∈ chargedHolds c.log).Perm (chargedHolds c.log) := by
    refine (List.perm_ext_iff_of_nodup (hlist.filter _)
      (List.Nodup.of_map _ h.once)).mpr fun entry => ?_
    rw [List.mem_filter, decide_eq_true_eq]
    exact ⟨fun hboth => hboth.2, fun hcharged => ⟨h.kept entry hcharged,
      hcharged⟩⟩
  have hsplit := List.sum_map_filter_add_sum_map_filter_not
    (fun entry => entry ∈ chargedHolds c.log)
    (fun entry : HoldKey × StoredHold => entry.2.on entry.1 ck)
    c.st.holds.list
  have hcharged := (hperm.map fun entry : HoldKey × StoredHold =>
    entry.2.on entry.1 ck).sum_eq
  unfold recordedOn Entries.total outstandingOn chargedOn
  rw [← hsplit, hcharged, add_comm]

theorem owed_of_quiescent {s : State} (h : Quiescent s) (ck : CounterKey) :
    owed s ck = 0 := by
  refine List.sum_eq_zero fun x hx => ?_
  obtain ⟨ph, hph, rfl⟩ := List.mem_map.mp hx
  rw [h ph hph]
  rfl

/-- What the budget is held to: each counter is within the cap of its last
granted reservation, each recorded hold is given back at most once, and in a
quiescent state each counter is what is outstanding and what is charged. -/
structure Balanced (c : Conf State Event) : Prop where
  withinCap : ∀ ck, WithinCap c ck
  gaveBackOnce : GaveBackOnce c
  conserved : Quiescent c.st →
    ∀ ck, c.st.counter ck = outstandingOn c ck + chargedOn c ck

/-- A run whose steps keep the books is balanced wherever it gets to. -/
theorem balanced_of_settling {c : Conf State Event}
    (h : (machine A).ReachWhen (Settling A) c) : Balanced c where
  withinCap := withinCap_of_matching (h.mono fun _ _ hok => hok.1)
  gaveBackOnce := gaveBackOnce_of_reach h.reach
  conserved := by
    intro hquiescent ck
    have hledger := ledger_of_matching (h.mono fun _ _ hok => hok.1)
    rw [hledger.conserved ck, owed_of_quiescent hquiescent, add_zero]
    exact (charged_of_settling h).recordedOn_eq ck

/-! ## Books that are kept, and books that are not

One run whose books are balanced, and three that show why the condition is
there: a retry on a taken record, an amount below a millionth, and a sum that
is rounded. -/

/-- A chat turn, in its two messages. -/
def chatInput (command : Text) : AcceptTurnInput where
  ref := ⟨['t'], .chat, command⟩
  sessionId := ['s']
  userMessageId := some ['m']
  placeholderMessageId := ['p']
  budgetHold := ⟨0, 0, ['d']⟩
  continuesCommandId := none
  settled := false
  userMessage_iff := ⟨fun _ => rfl, fun _ => rfl⟩
  placeholder_own := by decide
  continues_other := fun _ h => nomatch h
  settled_chat := fun h => nomatch h

/-- A request for a turn of the chat. -/
def chatRequest (command : Text) (limits : Limits) : Request where
  ctx := ⟨['c'], ['u']⟩
  input := chatInput command
  unsettled := rfl
  kyivDate := ['d']
  limits := limits

/-- Limits under which a turn sets aside a tenth. -/
def dimes : Limits := ⟨5, 100, 1 / 10, by norm_num⟩

/-- Less than half a millionth of a dollar for a turn. -/
def specks : Limits := ⟨5, 100, 4 / 10000000, by norm_num⟩

/-- One request stores its turn, and the turn is charged. Another declines and
gives back what it took. -/
def chargedAndDeclined : List Act :=
  [.begin (chatRequest ['1'] dimes), .call 0, .call 0, .call 0,
    .accept 0 0 none .runs,
    .begin (chatRequest ['2'] dimes), .call 1, .call 1, .call 1,
    .start (chatRequest ['1'] dimes).identity 1 60000,
    .decline 1, .call 1, .call 1, .call 1,
    .finish (chatRequest ['1'] dimes).identity .done 2 true]

/-- A retry finds the first request's record, takes the command and stores the
turn. The first request finds the command taken, and gives its reservation
back. -/
def retryStoresTurn : List Act :=
  [.begin (chatRequest ['1'] dimes), .call 0, .call 0, .call 0,
    .begin (chatRequest ['1'] dimes), .call 1, .call 1, .call 1, .call 1,
    .call 1, .accept 1 0 none .runs, .decline 0, .call 0, .call 0, .call 0]

/-- A turn that reserves less than its record can hold. -/
def speckOfATurn : List Act :=
  [.begin (chatRequest ['1'] specks), .call 0, .call 0, .call 0,
    .accept 0 0 none .runs]

/-- Three commands reserve one after the other. The first one's turn is
charged, the second one's is queued and the third declines:
`0.1 + 0.1 + 0.1 - 0.1`. -/
def twoOfThreeDimes : List Act :=
  [.begin (chatRequest ['1'] dimes), .call 0, .call 0, .call 0,
    .accept 0 0 none .runs,
    .start (chatRequest ['1'] dimes).identity 1 60000,
    .finish (chatRequest ['1'] dimes).identity .done 2 true,
    .begin (chatRequest ['2'] dimes), .call 2, .call 2, .call 2,
    .accept 2 3 none .runs,
    .begin (chatRequest ['3'] dimes), .call 3, .call 3, .call 3,
    .decline 3, .call 3, .call 3, .call 3]

theorem balanced_of_settling_chargedAndDeclined :
    ∃ c, (machine doubles).exec (machine doubles).start chargedAndDeclined =
        some c ∧
      (Quiescent c.st ∧ chargedOn c (.company ['c'] ['d']) = 1 / 10) ∧
      Balanced c := by
  obtain ⟨c, hexec, hc⟩ : (machine doubles).EndsIn (fun c =>
      Quiescent c.st ∧ chargedOn c (.company ['c'] ['d']) = 1 / 10)
      chargedAndDeclined := by
    decide +kernel
  refine ⟨c, hexec, hc, balanced_of_settling
    (Machine.ReachWhen.of_exec .start chargedAndDeclined ?_ hexec)⟩
  decide +kernel

/-- What is left of a run: nobody is at work, and the company's counter and
the amounts that it should stand for are these. -/
def LeftWith (counted due : ℚ) (c : Conf State Event) : Prop :=
  Quiescent c.st ∧ c.st.counter (.company ['c'] ['d']) = counted ∧
    outstandingOn c (.company ['c'] ['d']) +
      chargedOn c (.company ['c'] ['d']) = due

instance (counted due : ℚ) (c : Conf State Event) :
    Decidable (LeftWith counted due c) :=
  inferInstanceAs (Decidable (_ ∧ _ ∧ _))

/-- The three ways in which the books are lost: a turn is charged whose record
its first request has taken back, a record is less than what was reserved, and
a sum of doubles is not the sum of the decimals. -/
theorem books_lost :
    (∃ c, (machine doubles).Reach c ∧ LeftWith 0 (1 / 10) c) ∧
    (∃ c, (machine doubles).Reach c ∧ LeftWith (4 / 10000000) 0 c) ∧
    ∃ c, (machine doubles).Reach c ∧
      LeftWith (20000000000000004 / 100000000000000000) (2 / 10) c := by
  have hreach : ∀ {counted due : ℚ} {acts : List Act},
      (machine doubles).EndsIn (LeftWith counted due) acts →
        ∃ c, (machine doubles).Reach c ∧ LeftWith counted due c := by
    rintro counted due acts ⟨c, hexec, hc⟩
    exact ⟨c, Machine.reach_of_exec _ hexec, hc⟩
  have hlost : (machine doubles).EndsIn (LeftWith 0 (1 / 10))
        (retryStoresTurn ++
          [.start (chatRequest ['1'] dimes).identity 1 60000,
            .finish (chatRequest ['1'] dimes).identity .done 2 true]) ∧
      (machine doubles).EndsIn (LeftWith (4 / 10000000) 0) speckOfATurn ∧
      (machine doubles).EndsIn
        (LeftWith (20000000000000004 / 100000000000000000) (2 / 10))
        twoOfThreeDimes := by
    decide +kernel
  exact ⟨hreach hlost.1, hreach hlost.2.1, hreach hlost.2.2⟩

end Shozee.Budget
