import Mathlib.Data.Multiset.OrderedMonoid
import Shozee.Budget.Conservation

/-!
# Who relies on a record

The record of a key is claimed by whoever may yet delete it: the request that
made it, until its accept has stored a turn; that turn, while it is active;
and whoever ended the turn, while the hold is on its way back. An accept hands
the claim from the request to the turn, and an ending from the turn to the
finisher, so a record has one claimant at a time and each claimant has the
recorded amounts.

A retry that found the record claims nothing. Its accept stores a turn all the
same, and that turn's claim is sound when nobody else has one: when the record
it found still stands, and no request may take it back (`Unraced`).
-/

namespace Shozee.Budget

open Shozee.Run Shozee.Turns

variable {A : Sums}

/-! ## The condition

A request takes its record back when its accept stores no turn. The condition
asks that no other request's turn was stored on that record in the meantime,
and that the amounts leave no rest. -/

/-- The request may still take back a record that it made under this key. -/
def Phase.takesBack (key : HoldKey) : Phase → Bool
  | .reserved r reservation
  | .undoingCompany r _ (some reservation)
  | .undoingGlobal r _ (some reservation) =>
      reservation.created ∧ r.key = key
  | .dropping key' _ byRequest => byRequest ∧ key' = key
  | _ => false

/-- A turn about to be stored on a reservation that another request made. -/
def borrows (s : State) : Act → Option (Request × Hold)
  | .accept p _ _ fate =>
      match s.parties[p]? with
      | some (.reserved r ⟨hold, false⟩) =>
          if (fate = .runs ∨ fate = .unknown true) ∧ stores s r then
            some (r, hold)
          else none
      | _ => none
  | _ => none

/-- Reservations are whole millionths, and the sums left on the counters are
exact; and a turn that is stored on a record which its request only found, is
stored while that record stands and no request may take it back. -/
def Unraced (A : Sums) (c : Conf State Event) : Act → Prop
  | .begin r => r.Whole
  | .call p => ExactCall A c.st p
  | a => ∀ found ∈ borrows c.st a,
      c.st.holds.get found.1.key = some (encodeHold found.2) ∧
        ∀ ph ∈ c.st.parties, ph.takesBack found.1.key = false

instance (c : Conf State Event) : ∀ a : Act, Decidable (Unraced A c a)
  | .begin _ => inferInstanceAs (Decidable (WholeMicro _))
  | .call p => inferInstanceAs (Decidable (ExactCall A c.st p))
  | .decline _ | .accept .. | .start .. | .finish .. | .recover .. =>
      inferInstanceAs (Decidable (∀ found ∈ borrows c.st _, _ ∧ _))

/-! ## Claims

What each party and each active turn may yet delete, as one list. A step
replaces the claims of the party that moves, so the list changes at one place.
-/

/-- The record that a reservation has made, which its request may still have to
give back. -/
def Request.claim (r : Request) (reservation : Reservation) :
    Multiset (HoldKey × StoredHold) :=
  if reservation.created then {(r.key, encodeHold reservation.hold)} else 0

/-- The record that a party may yet delete. -/
def Phase.claim : Phase → Multiset (HoldKey × StoredHold)
  | .reserved r reservation
  | .undoingCompany r _ (some reservation)
  | .undoingGlobal r _ (some reservation) => r.claim reservation
  | .dropping key hold _ => {(key, encodeHold hold)}
  | _ => 0

/-- The record that an active turn relies on. -/
def TurnRow.claim (row : TurnRow) : Multiset (HoldKey × StoredHold) :=
  if row.isActive then {(TurnRow.key row, recordOf row.hold)} else 0

/-- The records that requests and turns account for. -/
def claims (s : State) : Multiset (HoldKey × StoredHold) :=
  (s.parties.map Phase.claim).sum + (s.turns.map TurnRow.claim).sum

theorem mem_sum_map {α β : Type*} {f : α → Multiset β} {y : β} :
    ∀ {l : List α}, y ∈ (l.map f).sum ↔ ∃ x ∈ l, y ∈ f x := by
  intro l
  induction l with
  | nil => simp
  | cons x l ih =>
      rw [List.map_cons, List.sum_cons, Multiset.mem_add, ih,
        List.exists_mem_cons_iff]

theorem mem_claims {s : State} {entry : HoldKey × StoredHold} :
    entry ∈ claims s ↔ (∃ ph ∈ s.parties, entry ∈ ph.claim) ∨
      ∃ row ∈ s.turns, entry ∈ TurnRow.claim row := by
  unfold claims
  rw [Multiset.mem_add, mem_sum_map, mem_sum_map]

theorem mem_claim_row {row : TurnRow} {entry : HoldKey × StoredHold} :
    entry ∈ TurnRow.claim row ↔
      row.isActive = true ∧ entry = (TurnRow.key row, recordOf row.hold) := by
  unfold TurnRow.claim
  by_cases h : row.isActive = true
  · rw [if_pos h, Multiset.mem_singleton]
    simp [h]
  · rw [if_neg h]
    simp [h]

/-- A request's claim is one that it may take back. -/
theorem takesBack_of_claim {ph : Phase} {entry : HoldKey × StoredHold}
    (h : entry ∈ ph.claim) : ph.takesBack entry.1 = true ∨
      ∃ hold, ph = .dropping entry.1 hold false := by
  have hrequest : ∀ {r : Request} {reservation : Reservation},
      entry ∈ r.claim reservation →
        decide (reservation.created = true ∧ r.key = entry.1) = true := by
    intro r reservation hmem
    unfold Request.claim at hmem
    split at hmem
    · rename_i hcreated
      rw [Multiset.mem_singleton.mp hmem]
      exact decide_eq_true ⟨hcreated, rfl⟩
    · exact (Multiset.notMem_zero _ hmem).elim
  match ph with
  | .reserved r reservation => exact Or.inl (hrequest h)
  | .undoingCompany r hold (some reservation) => exact Or.inl (hrequest h)
  | .undoingGlobal r hold (some reservation) => exact Or.inl (hrequest h)
  | .dropping key hold byRequest =>
      obtain rfl := Multiset.mem_singleton.mp h
      cases byRequest with
      | true => exact Or.inl (decide_eq_true ⟨rfl, rfl⟩)
      | false => exact Or.inr ⟨hold, rfl⟩
  | .undoingCompany r hold none => exact (Multiset.notMem_zero _ h).elim
  | .undoingGlobal r hold none => exact (Multiset.notMem_zero _ h).elim
  | .addingCompany r => exact (Multiset.notMem_zero _ h).elim
  | .addingGlobal r hold => exact (Multiset.notMem_zero _ h).elim
  | .claiming r hold => exact (Multiset.notMem_zero _ h).elim
  | .givingCompany key hold => exact (Multiset.notMem_zero _ h).elim
  | .givingGlobal key hold => exact (Multiset.notMem_zero _ h).elim
  | .ended => exact (Multiset.notMem_zero _ h).elim

theorem claims_set {s : State} (s' : State) {p : Nat} {ph ph' : Phase}
    (hp : s.parties[p]? = some ph)
    (hparties : s'.parties = s.parties.set p ph')
    (hturns : s'.turns = s.turns) :
    claims s' + ph.claim = claims s + ph'.claim := by
  have hsum := sum_map_set Phase.claim (b := ph') hp
  unfold claims
  rw [hparties, hturns, add_right_comm, hsum, add_right_comm]

theorem claims_join (s : State) (ph : Phase) :
    claims (s.join ph) = claims s + ph.claim := by
  unfold claims
  rw [join_parties, join_turns, List.map_append, List.sum_append,
    List.map_singleton, List.sum_singleton, add_right_comm]

theorem claims_update {s : State} {row : TurnRow}
    (hrows : (s.turns.map TurnRow.identity).Nodup) (hmem : row ∈ s.turns)
    (after : TurnRow) :
    claims (s.setTurns (applyWrite s.turns (.update row after))) +
      TurnRow.claim row = claims s + TurnRow.claim after := by
  have hsum := sum_map_replace TurnRow.identity TurnRow.claim (b := after)
    hrows hmem
  unfold claims
  rw [setTurns_parties, setTurns_turns, add_assoc, add_assoc]
  exact congrArg _ hsum

theorem claim_releasing (r : Request) (reservation : Reservation) :
    (releasing r reservation).claim = r.claim reservation := by
  unfold releasing Request.claim
  split <;> rfl

theorem claim_undone (r : Request) (hold : Hold)
    (after : Option Reservation) :
    (undone r after).claim = (Phase.undoingGlobal r hold after).claim := by
  cases after <;> rfl

/-- A turn's claim ends with the turn; what comes after is its party's. -/
theorem claims_ended {s : State} {row : TurnRow}
    (hrows : (s.turns.map TurnRow.identity).Nodup) (hmem : row ∈ s.turns)
    (f : Finaliser) (now : Int) (ph : Phase) :
    claims ((s.setTurns (applyWrite s.turns
      (.update row (f.ended now row)))).join ph) + TurnRow.claim row =
        claims s + ph.claim := by
  have hended : TurnRow.claim (f.ended now row) = 0 := by
    unfold TurnRow.claim
    rw [f.ended_not_active now row]
    rfl
  rw [claims_join, add_right_comm, claims_update hrows hmem, hended, add_zero]

theorem claim_started {now timeoutMs : Int} {row : TurnRow}
    (h : startable now row = true) :
    TurnRow.claim (startedRow now timeoutMs row) = TurnRow.claim row := by
  have hactive : (startedRow now timeoutMs row).isActive = true := rfl
  unfold TurnRow.claim
  rw [if_pos (isActive_of_startable h), if_pos hactive]
  rfl

theorem claim_handingBack {row : TurnRow} (h : row.isActive = true) :
    (handingBack row).claim = TurnRow.claim row := by
  have hrecord : encodeHold (assistantBudgetHoldFromStored row.hold) =
      recordOf row.hold := by
    unfold encodeHold assistantBudgetHoldFromStored recordOf
    rw [microUsd_usdOfMicro, microUsd_usdOfMicro]
  unfold TurnRow.claim
  rw [if_pos h, ← hrecord]
  rfl

/-! ## Who has ended what

A finisher holds a hold that the end of a turn told it to hand back, and a
charge is of a turn that has ended. Both go back to the row of the turn. -/

/-- A finisher that gives a hold back, and a charge, are of a stored turn. -/
structure Stored (c : Conf State Event) : Prop where
  rows : (c.st.turns.map TurnRow.identity).Nodup
  finishing : ∀ key hold, Phase.dropping key hold false ∈ c.st.parties →
    ∃ row ∈ c.st.turns, row.identity = key.identity
  charged : ∀ entry ∈ chargedHolds c.log,
    ∃ row ∈ c.st.turns, row.identity = entry.1.identity

theorem TurnsMove.identity {rows rows' : List TurnRow}
    (h : TurnsMove rows rows') {identity : TurnIdentity}
    (hrow : ∃ row ∈ rows, row.identity = identity) :
    ∃ row ∈ rows', row.identity = identity := by
  obtain ⟨r, hr, rfl⟩ := hrow
  cases h with
  | same => exact ⟨r, hr, rfl⟩
  | stored => exact ⟨r, List.mem_cons_of_mem _ hr, rfl⟩
  | @updated row after hmem _ hid =>
      by_cases heq : r.identity = row.identity
      · exact ⟨after, mem_update_self hmem, hid.trans heq.symm⟩
      · exact ⟨r, mem_update_of_ne hr heq, rfl⟩

/-- A party that a step moves does not become a finisher. -/
theorem finishing_of_set {l : List Phase} {p : Nat} {ph' : Phase}
    {key : HoldKey} {hold : Hold}
    (h : Phase.dropping key hold false ∈ l.set p ph')
    (hph' : ph' ≠ .dropping key hold false) :
    Phase.dropping key hold false ∈ l := by
  rcases List.mem_or_eq_of_mem_set h with hold' | heq
  · exact hold'
  · exact absurd heq.symm hph'

theorem releasing_ne (r : Request) (reservation : Reservation)
    (key : HoldKey) (hold : Hold) :
    releasing r reservation ≠ .dropping key hold false := by
  unfold releasing
  split <;> exact fun h => nomatch h

theorem undone_ne (r : Request) (after : Option Reservation) (key : HoldKey)
    (hold : Hold) : undone r after ≠ .dropping key hold false := by
  cases after <;> exact fun h => nomatch h

theorem Calls.finishing {s s' : State} {p : Nat} {ph : Phase}
    {out : List Event} (hcall : Calls A s p ph s' out) {key : HoldKey}
    {hold : Hold} (h : Phase.dropping key hold false ∈ s'.parties) :
    Phase.dropping key hold false ∈ s.parties := by
  cases hcall with
  | addedCompany hadd =>
      rw [setPhase_parties, (reserved_amount hadd).2.2.2] at h
      exact finishing_of_set h fun h => nomatch h
  | addedGlobal hadd =>
      rw [setPhase_parties, (reserved_amount hadd).2.2.2] at h
      exact finishing_of_set h fun h => nomatch h
  | undidGlobal => exact finishing_of_set h (undone_ne _ _ key hold)
  | _ => exact finishing_of_set h fun h => nomatch h

theorem Moves.finishing {s s' : State} {a : Act} {out : List Event}
    (hmoves : Moves A s a s' out) {key : HoldKey} {hold : Hold}
    (h : Phase.dropping key hold false ∈ s'.parties) :
    Phase.dropping key hold false ∈ s.parties ∨
      ∃ row ∈ s.turns, row.identity = key.identity := by
  cases hmoves with
  | call hp hcall => exact Or.inl (hcall.finishing h)
  | release _ hp =>
      exact Or.inl (finishing_of_set h (releasing_ne _ _ key hold))
  | lose hp => exact Or.inl (finishing_of_set h fun h => nomatch h)
  | store hp => exact Or.inl (finishing_of_set h fun h => nomatch h)
  | start => exact Or.inl h
  | begin =>
      rcases List.mem_append.mp h with hbefore | hnew
      · exact Or.inl hbefore
      · exact nomatch List.mem_singleton.mp hnew
  | charge =>
      rcases List.mem_append.mp h with hbefore | hnew
      · exact Or.inl hbefore
      · exact nomatch List.mem_singleton.mp hnew
  | @handBack a row now f hmem _ =>
      rcases List.mem_append.mp h with hbefore | hnew
      · exact Or.inl hbefore
      · cases List.mem_singleton.mp hnew
        exact Or.inr ⟨row, hmem, rfl⟩

/-- What a step adds to the charges. -/
theorem Moves.charges {s s' : State} {a : Act} {out : List Event}
    (hmoves : Moves A s a s' out) :
    (∀ log, chargedHolds (out ++ log) = chargedHolds log) ∨
      ∃ row ∈ s.turns, row.isActive = true ∧ ∃ now, ∃ f : Finaliser,
        out = [.charged (TurnRow.key row) row.hold] ∧
        s' = (s.setTurns (applyWrite s.turns
          (.update row (f.ended now row)))).join .ended := by
  cases hmoves with
  | call hp hcall => exact Or.inl fun log => chargedHolds_of_calls hcall
  | @charge a row now f hmem hactive _ =>
      exact Or.inr ⟨row, hmem, hactive, now, f, rfl, rfl⟩
  | _ => exact Or.inl fun log => rfl

theorem stored_of_reach {c : Conf State Event} (h : (machine A).Reach c) :
    Stored c := by
  refine Machine.ReachWhen.invariant (I := Stored) ?_ ?_ h
  · exact ⟨List.nodup_nil, fun _ _ h => (List.not_mem_nil h).elim,
      fun _ h => (List.not_mem_nil h).elim⟩
  intro c a c' _ ih _ hnext
  obtain ⟨s, out, hs, rfl⟩ := Machine.next_eq_some.mp hnext
  have hmoves := moves_of_step hs
  have hturns := hmoves.turns
  refine ⟨hturns.nodup ih.rows, ?_, ?_⟩
  · intro key hold hmem
    rcases hmoves.finishing hmem with hbefore | hrow
    · exact hturns.identity (ih.finishing key hold hbefore)
    · exact hturns.identity hrow
  · intro entry hentry
    refine hturns.identity ?_
    rcases hmoves.charges with hsame | ⟨row, hmem, -, -, -, rfl, -⟩
    · rw [hsame] at hentry
      exact ih.charged entry hentry
    · rcases List.mem_cons.mp hentry with rfl | hentry
      · exact ⟨row, hmem, rfl⟩
      · exact ih.charged entry hentry

/-! ## One claimant

The invariant and what a store call does to it, by the kind of the call: it
leaves the claims alone, makes one, or uses one up. No claim passes between
parties here. -/

/-- Each claim is on a record that stands, no two are on one record, and none
is on a record that has been charged. -/
structure Backing (c : Conf State Event) : Prop where
  once : ((claims c.st).map Prod.fst).Nodup
  stand : ∀ entry ∈ claims c.st, entry ∈ c.st.holds.list
  charged : ∀ entry ∈ chargedHolds c.log, entry ∈ c.st.holds.list ∧
    entry.1 ∉ (claims c.st).map Prod.fst

/-- A step that leaves the records alone and claims nothing new. -/
theorem Backing.quiet {s s' : State} {out log : List Event}
    (h : Backing ⟨s, log⟩) (hclaims : claims s' ≤ claims s)
    (hholds : s'.holds = s.holds)
    (hlog : chargedHolds (out ++ log) = chargedHolds log) :
    Backing ⟨s', out ++ log⟩ := by
  have hkeys := Multiset.map_le_map (f := Prod.fst) hclaims
  refine ⟨Multiset.nodup_of_le hkeys h.once, ?_, ?_⟩
  · intro entry hentry
    show entry ∈ s'.holds.list
    rw [hholds]
    exact h.stand entry (Multiset.mem_of_le hclaims hentry)
  · show ∀ entry ∈ chargedHolds (out ++ log), _
    rw [hlog]
    intro entry hentry
    obtain ⟨hstands, hfree⟩ := h.charged entry hentry
    refine ⟨?_, fun hmem => hfree (Multiset.mem_of_le hkeys hmem)⟩
    show entry ∈ s'.holds.list
    rw [hholds]
    exact hstands

/-- A step that claims a record nobody had claimed and no turn was charged
for. -/
theorem Backing.claim {s s' : State} {out log : List Event}
    (h : Backing ⟨s, log⟩) (entry : HoldKey × StoredHold)
    (hclaims : claims s' = entry ::ₘ claims s)
    (hfree : entry.1 ∉ (claims s).map Prod.fst)
    (huncharged : ∀ e ∈ chargedHolds log, e.1 ≠ entry.1)
    (hstands : entry ∈ s'.holds.list)
    (hholds : ∀ e ∈ s.holds.list, e ∈ s'.holds.list)
    (hlog : chargedHolds (out ++ log) = chargedHolds log) :
    Backing ⟨s', out ++ log⟩ := by
  refine ⟨?_, ?_, ?_⟩
  · show ((claims s').map Prod.fst).Nodup
    rw [hclaims, Multiset.map_cons]
    exact Multiset.nodup_cons.mpr ⟨hfree, h.once⟩
  · show ∀ e ∈ claims s', _
    rw [hclaims]
    intro e he
    rcases Multiset.mem_cons.mp he with rfl | he
    · exact hstands
    · exact hholds e (h.stand e he)
  · show ∀ e ∈ chargedHolds (out ++ log), _
    rw [hlog]
    intro e he
    obtain ⟨hstood, hnone⟩ := h.charged e he
    refine ⟨hholds e hstood, ?_⟩
    show e.1 ∉ (claims s').map Prod.fst
    rw [hclaims, Multiset.map_cons]
    intro hmem
    rcases Multiset.mem_cons.mp hmem with heq | hmem
    · exact huncharged e he heq
    · exact hnone hmem

/-- The claimant of a record deletes it. -/
theorem Backing.delete {s s' : State} {out log : List Event}
    (h : Backing ⟨s, log⟩) (entry : HoldKey × StoredHold)
    (hclaims : claims s = entry ::ₘ claims s')
    (hholds : s'.holds = s.holds.drop entry.1)
    (hlog : chargedHolds (out ++ log) = chargedHolds log) :
    Backing ⟨s', out ++ log⟩ := by
  have honce := h.once
  have hcharged := h.charged
  dsimp only at honce hcharged
  rw [hclaims, Multiset.map_cons] at honce hcharged
  obtain ⟨hfree, hrest⟩ := Multiset.nodup_cons.mp honce
  have hkeep : ∀ e ∈ s.holds.list, e.1 ≠ entry.1 → e ∈ s'.holds.list := by
    intro e he hne
    rw [hholds]
    exact List.mem_filter.mpr ⟨he, decide_eq_true hne⟩
  refine ⟨hrest, ?_, ?_⟩
  · intro e he
    refine hkeep e (h.stand e ?_) fun heq => hfree ?_
    · show e ∈ claims s
      rw [hclaims]
      exact Multiset.mem_cons_of_mem he
    · exact heq ▸ Multiset.mem_map_of_mem Prod.fst he
  · show ∀ e ∈ chargedHolds (out ++ log), _
    rw [hlog]
    intro e he
    obtain ⟨hstands, hnone⟩ := hcharged e he
    refine ⟨hkeep e hstands fun heq => hnone ?_, fun hmem => hnone ?_⟩
    · rw [heq]
      exact Multiset.mem_cons_self _ _
    · exact Multiset.mem_cons_of_mem hmem

/-- A turn is charged, and its claim ends. -/
theorem Backing.charge {s s' : State} {log : List Event} {row : TurnRow}
    (h : Backing ⟨s, log⟩)
    (hclaims : claims s =
      (TurnRow.key row, recordOf row.hold) ::ₘ claims s')
    (hholds : s'.holds = s.holds) :
    Backing ⟨s', .charged (TurnRow.key row) row.hold :: log⟩ := by
  have hle : claims s' ≤ claims s := hclaims ▸ Multiset.le_cons_self _ _
  have hquiet : Backing ⟨s', [] ++ log⟩ := h.quiet hle hholds rfl
  refine ⟨hquiet.once, hquiet.stand, ?_⟩
  intro e he
  rcases List.mem_cons.mp he with rfl | he
  · refine ⟨?_, ?_⟩
    · show _ ∈ s'.holds.list
      rw [hholds]
      refine h.stand _ ?_
      show _ ∈ claims s
      rw [hclaims]
      exact Multiset.mem_cons_self _ _
    · have honce := h.once
      dsimp only at honce
      rw [hclaims, Multiset.map_cons] at honce
      exact (Multiset.nodup_cons.mp honce).1
  · exact hquiet.charged e he

/-- A record that is not there is neither claimed nor charged. -/
theorem Backing.absent {s : State} {log : List Event} {key : HoldKey}
    (h : Backing ⟨s, log⟩) (hget : s.holds.get key = none) :
    key ∉ (claims s).map Prod.fst ∧ ∀ e ∈ chargedHolds log, e.1 ≠ key := by
  have hnone : ∀ e ∈ s.holds.list, e.1 ≠ key := fun e he heq =>
    Entries.get_eq_none_iff.mp hget (List.mem_map.mpr ⟨e, he, heq⟩)
  constructor
  · intro hmem
    obtain ⟨e, he, heq⟩ := Multiset.mem_map.mp hmem
    exact hnone e (h.stand e he) heq
  · exact fun e he => hnone e (h.charged e he).1

theorem claims_le {s s' : State} {p : Nat} {ph ph' : Phase}
    (hp : s.parties[p]? = some ph)
    (hparties : s'.parties = s.parties.set p ph')
    (hturns : s'.turns = s.turns) (hle : ph'.claim ≤ ph.claim) :
    claims s' ≤ claims s := by
  have hset := claims_set s' hp hparties hturns
  have hsum : claims s' + ph.claim ≤ claims s + ph.claim := by
    rw [hset]
    exact add_le_add_right hle _
  exact le_of_add_le_add_right hsum

theorem Calls.backing {s s' : State} {p : Nat} {ph : Phase}
    {out log : List Event} (hcall : Calls A s p ph s' out)
    (hp : s.parties[p]? = some ph) (h : Backing ⟨s, log⟩) :
    Backing ⟨s', out ++ log⟩ := by
  have hlog : chargedHolds (out ++ log) = chargedHolds log :=
    chargedHolds_of_calls hcall
  cases hcall with
  | addedCompany hadd =>
      obtain ⟨-, hholds, hturns, hparties⟩ := reserved_amount hadd
      refine h.quiet (claims_le hp (congrArg (List.set · p _) hparties)
        hturns ?_) hholds hlog
      exact le_refl 0
  | addedGlobal hadd =>
      obtain ⟨-, hholds, hturns, hparties⟩ := reserved_amount hadd
      refine h.quiet (claims_le hp (congrArg (List.set · p _) hparties)
        hturns ?_) hholds hlog
      exact le_refl 0
  | @recorded r hold hget =>
      obtain ⟨hfree, huncharged⟩ := h.absent hget
      refine h.claim (r.key, encodeHold hold) ?_ hfree huncharged
        ?_ ?_ hlog
      · have hset := claims_set ((s.setHolds (s.holds.putNew r.key
          (encodeHold hold))).setPhase p (.reserved r ⟨hold, true⟩)) hp rfl rfl
        rw [← Multiset.singleton_add, add_comm]
        exact (add_zero _).symm.trans hset
      · show _ ∈ (s.holds.putNew r.key (encodeHold hold)).list
        rw [Entries.list_putNew hget]
        exact List.mem_cons_self
      · intro e he
        show e ∈ (s.holds.putNew r.key (encodeHold hold)).list
        rw [Entries.list_putNew hget]
        exact List.mem_cons_of_mem _ he
  | @dropped key hold byRequest value hget =>
      refine h.delete (key, encodeHold hold) ?_ rfl hlog
      have hset := claims_set ((s.setHolds (s.holds.drop key)).setPhase p
        (.givingCompany key hold)) hp rfl rfl
      rw [← Multiset.singleton_add, add_comm]
      exact (hset.trans (add_zero _)).symm
  | gone =>
      exact h.quiet (claims_le hp rfl rfl (Multiset.zero_le _)) rfl hlog
  | @undidCompany r hold after =>
      refine h.quiet (claims_le hp rfl rfl (le_of_eq ?_)) rfl hlog
      cases after <;> rfl
  | @undidGlobal r hold after =>
      exact h.quiet (claims_le hp rfl rfl (le_of_eq (claim_undone r hold after)))
        rfl hlog
  | refusedCompany => exact h.quiet (claims_le hp rfl rfl (le_refl 0)) rfl hlog
  | refusedGlobal => exact h.quiet (claims_le hp rfl rfl (le_refl 0)) rfl hlog
  | unreadable => exact h.quiet (claims_le hp rfl rfl (le_refl 0)) rfl hlog
  | found => exact h.quiet (claims_le hp rfl rfl (le_refl 0)) rfl hlog
  | gaveCompany => exact h.quiet (claims_le hp rfl rfl (le_refl 0)) rfl hlog
  | gaveGlobal => exact h.quiet (claims_le hp rfl rfl (le_refl 0)) rfl hlog

/-! ## Storing a turn

The accept is where a claim changes hands: the turn takes over the claim of its
request, so none is added and none lost. -/

theorem claim_row {r : Request} {hold : Hold} (now : Int)
    (root : Option Text) (hnonneg : Hold.Nonneg r.kyivDate hold)
    (hdated : Hold.Dated r.kyivDate hold) :
    TurnRow.claim (r.row hold now root) = {(r.key, encodeHold hold)} := by
  have hactive : (r.row hold now root).isActive = true := by
    refine isActive_of_queued ?_
    show (if r.input.settled then TurnStatus.done else .queued) = .queued
    rw [r.unsettled]
    rfl
  have hkey : TurnRow.key (r.row hold now root) = r.key := by
    show HoldKey.mk r.identity hold.kyivDate = _
    rw [show hold.kyivDate = r.kyivDate from hdated]
    rfl
  have hrecord : recordOf (r.row hold now root).hold = encodeHold hold := by
    show StoredHold.mk (microUsd _).toNat (microUsd _).toNat = _
    rw [Int.toNat_of_nonneg (microUsd_nonneg hnonneg.1),
      Int.toNat_of_nonneg (microUsd_nonneg hnonneg.2)]
    rfl
  unfold TurnRow.claim
  rw [if_pos hactive, hkey, hrecord]

/-- A key that no turn is stored under and no request may take back is not
claimed. -/
theorem unclaimed_of_stores {c : Conf State Event} {r : Request}
    (hstored : Stored c) (hstores : stores c.st r = true)
    (hnone : ∀ ph ∈ c.st.parties, ph.takesBack r.key = false) :
    r.key ∉ (claims c.st).map Prod.fst ∧
      ∀ e ∈ chargedHolds c.log, e.1 ≠ r.key := by
  have hfresh := not_stored_of_stores hstores
  constructor
  · intro hmem
    obtain ⟨e, he, heq⟩ := Multiset.mem_map.mp hmem
    rcases mem_claims.mp he with ⟨ph, hph, hclaim⟩ | ⟨row, hrow, hclaim⟩
    · rcases takesBack_of_claim hclaim with hback | ⟨hold, rfl⟩
      · rw [heq, hnone ph hph] at hback
        cases hback
      · obtain ⟨row, hrow, hid⟩ := hstored.finishing _ _ hph
        exact hfresh row hrow (hid.trans (congrArg HoldKey.identity heq))
    · obtain ⟨-, rfl⟩ := mem_claim_row.mp hclaim
      exact hfresh row hrow (congrArg HoldKey.identity heq)
  · intro e he heq
    obtain ⟨row, hrow, hid⟩ := hstored.charged e he
    exact hfresh row hrow (hid.trans (congrArg HoldKey.identity heq))

/-- An accept that stores a turn hands its request's claim on to the turn, or
claims a record that nobody had claimed. -/
theorem Backing.store {s : State} {log : List Event} {p : Nat} {now : Int}
    {root : Option Text} {fate : AcceptFate} {r : Request}
    {reservation : Reservation} (h : Backing ⟨s, log⟩)
    (hstored : Stored ⟨s, log⟩)
    (hp : s.parties[p]? = some (.reserved r reservation))
    (hfate : fate = .runs ∨ fate = .unknown true) (hstores : stores s r = true)
    (hnonneg : Hold.Nonneg r.kyivDate reservation.hold)
    (hdated : Hold.Dated r.kyivDate reservation.hold)
    (hok : Unraced A ⟨s, log⟩ (.accept p now root fate)) :
    Backing ⟨(s.setTurns (r.row reservation.hold now root :: s.turns)).setPhase
      p .ended, log⟩ := by
  have hset := claims_set (s.setPhase p .ended) hp rfl rfl
  have hclaims : claims ((s.setTurns (r.row reservation.hold now root ::
      s.turns)).setPhase p .ended) =
      claims (s.setPhase p .ended) +
        {(r.key, encodeHold reservation.hold)} := by
    rw [← claim_row now root hnonneg hdated]
    unfold claims
    rw [add_assoc, add_comm _ (TurnRow.claim _)]
    rfl
  have hended : claims (s.setPhase p .ended) +
      r.claim reservation = claims s := hset.trans (add_zero _)
  by_cases hcreated : reservation.created = true
  · have hclaim : r.claim reservation =
        {(r.key, encodeHold reservation.hold)} := if_pos hcreated
    rw [← hclaim, hended] at hclaims
    have hquiet : Backing ⟨_, [] ++ log⟩ := h.quiet (le_of_eq hclaims) rfl rfl
    exact hquiet
  · have hclaim : r.claim reservation = 0 := if_neg hcreated
    rw [hclaim, add_zero] at hended
    have hfound : (r, reservation.hold) ∈
        borrows s (.accept p now root fate) := by
      obtain ⟨hold, created⟩ := reservation
      obtain rfl : created = false := by simpa using hcreated
      unfold borrows
      simp only [hp, hfate, hstores, and_self, if_true]
      exact Option.mem_some_self _
    obtain ⟨hget, hnone⟩ := hok _ hfound
    obtain ⟨hfree, huncharged⟩ := unclaimed_of_stores hstored hstores hnone
    have hclaimed : Backing ⟨_, [] ++ log⟩ :=
      h.claim (r.key, encodeHold reservation.hold)
        (hclaims.trans (by rw [hended, ← Multiset.singleton_add, add_comm]))
        hfree huncharged (Entries.mem_of_get hget) (fun _ he => he) rfl
    exact hclaimed

theorem Moves.backing {s s' : State} {a : Act} {out log : List Event}
    (hmoves : Moves A s a s' out) (hstored : Stored ⟨s, log⟩)
    (hnonneg : ∀ ph ∈ s.parties, ph.All Hold.Nonneg fun _ => True)
    (hdated : ∀ ph ∈ s.parties, ph.All Hold.Dated fun _ => True)
    (hok : Unraced A ⟨s, log⟩ a) (h : Backing ⟨s, log⟩) :
    Backing ⟨s', out ++ log⟩ := by
  cases hmoves with
  | @begin r =>
      have hjoin := claims_join s (.addingCompany r)
      exact h.quiet (le_of_eq (hjoin.trans (add_zero _))) rfl rfl
  | call hp hcall => exact hcall.backing hp h
  | @release a p r reservation ha hp =>
      exact h.quiet (claims_le hp rfl rfl
        (le_of_eq (claim_releasing r reservation))) rfl rfl
  | lose hp =>
      exact h.quiet (claims_le hp rfl rfl (Multiset.zero_le _)) rfl rfl
  | @store p now root fate r reservation hp hfate hstores =>
      have hmem := List.mem_of_getElem? hp
      exact h.store hstored hp hfate hstores (hnonneg _ hmem).2
        (hdated _ hmem).2 hok
  | @start identity now timeoutMs row hmem hstartable =>
      have hupdate := claims_update hstored.rows hmem
        (startedRow now timeoutMs row)
      rw [claim_started hstartable] at hupdate
      exact h.quiet (le_of_eq (add_right_cancel hupdate)) rfl rfl
  | @charge a row now f hmem hactive _ =>
      have hupdate := claims_ended hstored.rows hmem f now .ended
      have hclaim : TurnRow.claim row =
          {(TurnRow.key row, recordOf row.hold)} := if_pos hactive
      rw [hclaim] at hupdate
      refine h.charge ?_ rfl
      rw [← Multiset.singleton_add, add_comm, hupdate]
      exact (add_zero _).symm
  | @handBack a row now f hmem hactive =>
      have hupdate := claims_ended hstored.rows hmem f now (handingBack row)
      rw [claim_handingBack hactive] at hupdate
      exact h.quiet (le_of_eq (add_right_cancel hupdate)) rfl rfl

theorem backing_of_unraced {c : Conf State Event}
    (h : (machine A).ReachWhen (Unraced A) c) : Backing c := by
  refine Machine.ReachWhen.invariant (I := Backing) ?_ ?_ h
  · exact ⟨Multiset.nodup_zero, fun _ h => (Multiset.notMem_zero _ h).elim,
      fun _ h => (List.not_mem_nil h).elim⟩
  intro c a c' hc ih hok hnext
  obtain ⟨s, out, hs, rfl⟩ := Machine.next_eq_some.mp hnext
  exact (moves_of_step hs).backing (stored_of_reach hc.reach)
    (all_of_reachWhen made_nonneg (fun _ _ _ => trivial) hc)
    (all_of_reachWhen made_dated (fun _ _ _ => trivial) hc) hok ih

/-! ## Backed turns

What the invariant gives: each active turn has a record of its own amount, and
together they are no more than the counter. The race that the condition leaves
out is run at the end. -/

/-- The record of an active turn stands, with the turn's own amounts. -/
theorem Backing.get_row {c : Conf State Event} (h : Backing c)
    {row : TurnRow} (hrow : row ∈ c.st.turns) (hactive : row.isActive = true) :
    c.st.holds.get (TurnRow.key row) = some (recordOf row.hold) := by
  refine Entries.get_of_mem (h.stand _ (mem_claims.mpr (Or.inr ?_)))
  exact ⟨row, hrow, mem_claim_row.mpr ⟨hactive, rfl⟩⟩

theorem Backing.get_charged {c : Conf State Event} (h : Backing c)
    {a : Act} {row : TurnRow} (hcharges : row ∈ charges c.st a) :
    c.st.holds.get (TurnRow.key row) = some (recordOf row.hold) := by
  cases a with
  | finish identity status now reachedModel =>
      cases reachedModel with
      | false => cases hcharges
      | true =>
          obtain ⟨hrow, -, hactive⟩ := endable_spec hcharges
          exact h.get_row hrow hactive
  | recover recovery identity now =>
      have hend := Option.filter_eq_some_iff.mp hcharges
      obtain ⟨hrow, -, heligible⟩ := endable_spec hend.1
      exact h.get_row hrow (isActive_of_recovery heligible)
  | _ => cases hcharges

/-- A record that is deleted was claimed by the party that deletes it. -/
theorem Backing.deletes {c : Conf State Event} (h : Backing c) {p : Nat}
    {d : Deletion} (hd : d ∈ deletes c.st p) :
    d.recorded = encodeHold d.inHand ∧
      (d.key, d.recorded) ∉ chargedHolds c.log := by
  unfold Budget.deletes at hd
  split at hd
  · rename_i key hold byRequest hp
    obtain ⟨value, hget, rfl⟩ := Option.map_eq_some_iff.mp hd
    have hclaim : (key, encodeHold hold) ∈ claims c.st :=
      mem_claims.mpr (Or.inl ⟨_, List.mem_of_getElem? hp,
        Multiset.mem_singleton_self _⟩)
    have hstands := Entries.get_of_mem (h.stand _ hclaim)
    refine ⟨Option.some.inj (hget.symm.trans hstands), fun hcharged => ?_⟩
    exact (h.charged _ hcharged).2 (Multiset.mem_map.mpr ⟨_, hclaim, rfl⟩)
  · cases hd

/-- A run without the race keeps the books. -/
theorem settling_of_unraced {c : Conf State Event}
    (h : (machine A).ReachWhen (Unraced A) c) :
    (machine A).ReachWhen (Settling A) c := by
  refine h.imp (fun _ => backing_of_unraced) ?_
  intro c a hbacking hok
  cases a with
  | begin r => exact ⟨hok, fun _ h => nomatch h⟩
  | call p =>
      exact ⟨⟨hok, fun d hd => (hbacking.deletes hd).1⟩,
        fun d hd => (hbacking.deletes hd).2⟩
  | decline p => exact ⟨trivial, fun _ h => nomatch h⟩
  | accept p now root fate => exact ⟨trivial, fun _ h => nomatch h⟩
  | start identity now timeoutMs => exact ⟨trivial, fun _ h => nomatch h⟩
  | finish identity status now reachedModel =>
      exact ⟨trivial, fun _ hrow => hbacking.get_charged hrow⟩
  | recover recovery identity now =>
      exact ⟨trivial, fun _ hrow => hbacking.get_charged hrow⟩

/-- What the active turns rely on, on one counter. -/
def reliedOn (s : State) (ck : CounterKey) : ℚ :=
  ((s.turns.filter TurnRow.isActive).map fun row =>
    (recordOf row.hold).on (TurnRow.key row) ck).sum

/-- Each active turn has its hold recorded, all these holds are still counted,
and no request is about to give back a record that a turn relies on or was
charged for. -/
structure Backed (c : Conf State Event) : Prop where
  recorded : ∀ row ∈ c.st.turns, row.isActive = true →
    c.st.holds.get (TurnRow.key row) = some (recordOf row.hold)
  counted : ∀ ck, reliedOn c.st ck ≤ c.st.counter ck
  kept : ∀ key hold, Phase.dropping key hold true ∈ c.st.parties →
    (∀ row ∈ c.st.turns, row.isActive = true → TurnRow.key row ≠ key) ∧
      ∀ entry ∈ chargedHolds c.log, entry.1 ≠ key

theorem Backing.counted {c : Conf State Event} (h : Backing c)
    (hstored : Stored c) (hledger : Ledger c.st) (ck : CounterKey) :
    reliedOn c.st ck ≤ c.st.counter ck := by
  let relied := (c.st.turns.filter TurnRow.isActive).map fun row =>
    (TurnRow.key row, recordOf row.hold)
  have hnodup : relied.Nodup := by
    refine List.Nodup.of_map (fun entry => entry.1.identity) ?_
    rw [List.map_map]
    exact hstored.rows.sublist (List.filter_sublist.map TurnRow.identity)
  have hsub : relied ⊆ c.st.holds.list := by
    intro entry hentry
    obtain ⟨row, hrow, rfl⟩ := List.mem_map.mp hentry
    obtain ⟨hrow, hactive⟩ := List.mem_filter.mp hrow
    exact Entries.mem_of_get (h.get_row hrow hactive)
  have hle : reliedOn c.st ck ≤ recordedOn c.st ck := by
    have hsum := Entries.sum_le_total
      (f := fun key value => StoredHold.on value key ck) hnodup hsub
      fun entry hentry => amountOn_nonneg
        (usdOfMicro_nonneg (hledger.records entry hentry).1)
        (usdOfMicro_nonneg (hledger.records entry hentry).2)
    rw [List.map_map] at hsum
    exact hsum
  have howed : 0 ≤ owed c.st ck := by
    refine List.sum_nonneg fun x hx => ?_
    obtain ⟨ph, hph, rfl⟩ := List.mem_map.mp hx
    exact owedOn_nonneg (hledger.nonneg ph hph) ck
  rw [hledger.conserved ck]
  linarith

/-- The claims of a party and of a turn are on different records. -/
theorem Backing.apart {c : Conf State Event} (h : Backing c) {ph : Phase}
    {row : TurnRow} {entry : HoldKey × StoredHold} (hph : ph ∈ c.st.parties)
    (hclaim : entry ∈ ph.claim) (hrow : row ∈ c.st.turns)
    (hactive : row.isActive = true) : TurnRow.key row ≠ entry.1 := by
  intro heq
  have honce := h.once
  unfold claims at honce
  rw [Multiset.map_add] at honce
  have hparty := Multiset.mem_map_of_mem Prod.fst
    (mem_sum_map.mpr ⟨ph, hph, hclaim⟩)
  have hturn := Multiset.mem_map_of_mem Prod.fst
    (mem_sum_map.mpr ⟨row, hrow, mem_claim_row.mpr ⟨hactive, rfl⟩⟩)
  have hdisjoint := (Multiset.nodup_add.mp honce).2.2
  exact Multiset.disjoint_left.mp hdisjoint hparty (heq ▸ hturn)

/-- A run in which no turn is stored on a record that its first request may
still take back, backs each of its turns. -/
theorem backed_of_unraced {c : Conf State Event}
    (h : (machine A).ReachWhen (Unraced A) c) : Backed c := by
  have hbacking := backing_of_unraced h
  refine ⟨fun row => hbacking.get_row, ?_, ?_⟩
  · exact hbacking.counted (stored_of_reach h.reach)
      (ledger_of_matching ((settling_of_unraced h).mono fun _ _ hok => hok.1))
  · intro key hold hmem
    have hclaim : (key, encodeHold hold) ∈
        (Phase.dropping key hold true).claim := Multiset.mem_singleton_self _
    refine ⟨fun row hrow hactive => ?_, fun entry hentry heq => ?_⟩
    · exact hbacking.apart hmem hclaim hrow hactive
    · refine (hbacking.charged entry hentry).2 (heq ▸ ?_)
      exact Multiset.mem_map_of_mem Prod.fst
        (mem_claims.mpr (Or.inl ⟨_, hmem, hclaim⟩))

/-- The first request does not learn how its accept went, and it had not
committed. A retry finds the record and stores the turn. -/
def retryAfterLoss : List Act :=
  [.begin (chatRequest ['1'] dimes), .call 0, .call 0, .call 0,
    .accept 0 0 none (.unknown false),
    .begin (chatRequest ['1'] dimes), .call 1, .call 1, .call 1, .call 1,
    .call 1, .accept 1 1 none .runs,
    .start (chatRequest ['1'] dimes).identity 2 60000]

theorem backed_of_unraced_retryAfterLoss :
    ∃ c, (machine doubles).exec (machine doubles).start retryAfterLoss = some c ∧
      reliedOn c.st (.company ['c'] ['d']) = 1 / 10 ∧ Backed c := by
  obtain ⟨c, hexec, hc⟩ : (machine doubles).EndsIn (fun c =>
      reliedOn c.st (.company ['c'] ['d']) = 1 / 10) retryAfterLoss := by
    decide +kernel
  refine ⟨c, hexec, hc, backed_of_unraced
    (Machine.ReachWhen.of_exec .start retryAfterLoss ?_ hexec)⟩
  decide +kernel

/-- The turn of a retry is active, and the first request has given back the
record that it relies on. -/
theorem hold_givenBack_under_turn :
    ∃ c, (machine doubles).Reach c ∧ Quiescent c.st ∧
      c.st.counter (.company ['c'] ['d']) = 0 ∧
      ∃ row ∈ c.st.turns, row.isActive = true ∧
        recordOf row.hold = ⟨100000, 100000⟩ ∧
        c.st.holds.get (TurnRow.key row) = none := by
  obtain ⟨c, hexec, hc⟩ : (machine doubles).EndsIn (fun c => Quiescent c.st ∧
      c.st.counter (.company ['c'] ['d']) = 0 ∧
      ∃ row ∈ c.st.turns, row.isActive = true ∧
        recordOf row.hold = ⟨100000, 100000⟩ ∧
        c.st.holds.get (TurnRow.key row) = none) retryStoresTurn := by
    decide +kernel
  exact ⟨c, Machine.reach_of_exec _ hexec, hc⟩

end Shozee.Budget
