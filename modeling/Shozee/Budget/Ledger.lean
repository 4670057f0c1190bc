import Shozee.Budget.Protocol

/-!
# The ledger

Each counter is accounted for: it is what the records say plus what parties
have in their hands (`Conserved`). A reservation goes from the counter and its
party's hands into a record, and back the other way when the record is
deleted; every store call moves one amount along that path.

The equation needs three things of a run, all about amounts. A turn's
reservation is a whole number of millionths of a dollar, so that a record is
exact; the sums that the store leaves on a counter are exact; and a party that
deletes a record has the recorded amounts in hand (`Matching`). Without any of
them a record is still deleted at most once.
-/

namespace Shozee.Budget

open Shozee.Run Shozee.Turns

variable {A : Sums}

/-! ## What a party has in hand

A predicate on every hold of a party, and the three instances that the ledger
needs: amounts are not negative, they are whole millionths, and they are of the
day of their key. -/

/-- Every hold of a party is `P` for its day, and its request is `Q`. -/
def Phase.All (P : Text → Hold → Prop) (Q : Request → Prop) : Phase → Prop
  | .addingCompany r => Q r
  | .addingGlobal r hold =>
      Q r ∧ P r.kyivDate hold ∧ hold.globalReservedUsd = 0
  | .claiming r hold => Q r ∧ P r.kyivDate hold
  | .undoingCompany r hold after | .undoingGlobal r hold after =>
      Q r ∧ P r.kyivDate hold ∧
        ∀ reservation ∈ after, P r.kyivDate reservation.hold
  | .reserved r reservation => Q r ∧ P r.kyivDate reservation.hold
  | .dropping key hold _ | .givingCompany key hold | .givingGlobal key hold =>
      P key.kyivDate hold
  | .ended => True

/-- The holds that the guard makes are `P`, for requests that are `Q`. -/
structure Made (P : Text → Hold → Prop) (Q : Request → Prop) : Prop where
  first : ∀ r usd, Q r → usd = 0 ∨ usd = r.limits.unknownModelTurnUsd →
    P r.kyivDate ⟨usd, 0, r.kyivDate⟩
  second : ∀ r hold usd, Q r → P r.kyivDate hold →
    usd = 0 ∨ usd = r.limits.unknownModelTurnUsd →
    P r.kyivDate { hold with globalReservedUsd := usd }
  decoded : ∀ value kyivDate hold, decodeHold value kyivDate = some hold →
    P kyivDate hold
  stored : ∀ stored, P stored.kyivDate (assistantBudgetHoldFromStored stored)

/-- A hold takes nothing below zero. -/
def Hold.Nonneg (_ : Text) (hold : Hold) : Prop :=
  0 ≤ hold.companyReservedUsd ∧ 0 ≤ hold.globalReservedUsd

/-- A hold takes whole millionths. -/
def Hold.Whole (_ : Text) (hold : Hold) : Prop :=
  WholeMicro hold.companyReservedUsd ∧ WholeMicro hold.globalReservedUsd

/-- The amount that a request sets aside is of whole millionths. -/
def Request.Whole (r : Request) : Prop :=
  WholeMicro r.limits.unknownModelTurnUsd

theorem decodeHold_eq_some {value : StoredHold} {kyivDate : Text}
    {hold : Hold} (h : decodeHold value kyivDate = some hold) :
    0 ≤ value.company ∧ 0 ≤ value.global ∧
      hold = ⟨usdOfMicro value.company, usdOfMicro value.global, kyivDate⟩ := by
  unfold decodeHold at h
  split at h
  · cases h
  · rename_i hnot
    rw [not_or, not_lt, not_lt] at hnot
    exact ⟨hnot.1, hnot.2, (Option.some.inj h).symm⟩

theorem made_nonneg : Made Hold.Nonneg fun _ => True where
  first := by
    intro r usd _ husd
    refine ⟨?_, le_refl _⟩
    rcases husd with rfl | rfl
    · exact le_refl _
    · exact r.limits.reserve_pos.le
  second := by
    intro r hold usd _ hhold husd
    refine ⟨hhold.1, ?_⟩
    rcases husd with rfl | rfl
    · exact le_refl _
    · exact r.limits.reserve_pos.le
  decoded := by
    intro value kyivDate hold h
    obtain ⟨hcompany, hglobal, rfl⟩ := decodeHold_eq_some h
    exact ⟨usdOfMicro_nonneg hcompany, usdOfMicro_nonneg hglobal⟩
  stored := fun stored =>
    ⟨usdOfMicro_nonneg (Int.natCast_nonneg _),
      usdOfMicro_nonneg (Int.natCast_nonneg _)⟩

/-- The holds of a key are of its day. -/
def Hold.Dated (kyivDate : Text) (hold : Hold) : Prop :=
  hold.kyivDate = kyivDate

theorem made_dated : Made Hold.Dated fun _ => True where
  first := fun _ _ _ _ => rfl
  second := fun _ _ _ _ h _ => h
  decoded := by
    intro value kyivDate hold h
    obtain ⟨-, -, rfl⟩ := decodeHold_eq_some h
    rfl
  stored := fun _ => rfl

theorem made_whole : Made Hold.Whole Request.Whole where
  first := by
    intro r usd hr husd
    refine ⟨?_, wholeMicro_zero⟩
    rcases husd with rfl | rfl
    · exact wholeMicro_zero
    · exact hr
  second := by
    intro r hold usd hr hhold husd
    refine ⟨hhold.1, ?_⟩
    rcases husd with rfl | rfl
    · exact wholeMicro_zero
    · exact hr
  decoded := by
    intro value kyivDate hold h
    obtain ⟨-, -, rfl⟩ := decodeHold_eq_some h
    exact ⟨wholeMicro_usdOfMicro _, wholeMicro_usdOfMicro _⟩
  stored := fun stored =>
    ⟨wholeMicro_usdOfMicro _, wholeMicro_usdOfMicro _⟩

theorem reserved_amount {s s' : State} {ck : CounterKey}
    {capUsd reserveUsd usd : ℚ} {out : List Event}
    (h : reserveBudgetKey A s ck capUsd reserveUsd = some (usd, s', out)) :
    (usd = 0 ∨ usd = reserveUsd) ∧ s'.holds = s.holds ∧
      s'.turns = s.turns ∧ s'.parties = s.parties := by
  rcases reserveBudgetKey_spec h with ⟨-, husd, -, spent, -, rfl⟩ |
    ⟨husd, -, rfl⟩
  · exact ⟨Or.inr husd, rfl, rfl, rfl⟩
  · exact ⟨Or.inl husd, rfl, rfl, rfl⟩

section All

variable {P : Text → Hold → Prop} {Q : Request → Prop}

theorem all_releasing (r : Request) {reservation : Reservation}
    (h : P r.kyivDate reservation.hold) : (releasing r reservation).All P Q := by
  unfold releasing
  split
  · exact h
  · trivial

theorem all_undone {r : Request} {after : Option Reservation} (hr : Q r)
    (h : ∀ reservation ∈ after, P r.kyivDate reservation.hold) :
    (undone r after).All P Q := by
  cases after with
  | none => trivial
  | some reservation => exact ⟨hr, h reservation rfl⟩

/-- Where one store call leaves its party, and what that party then has. -/
theorem Calls.all {s s' : State} {p : Nat} {ph : Phase} {out : List Event}
    (hmade : Made P Q) (h : Calls A s p ph s' out) (hall : ph.All P Q) :
    ∃ ph', s'.parties = s.parties.set p ph' ∧ s'.turns = s.turns ∧
      ph'.All P Q := by
  cases h with
  | refusedCompany => exact ⟨_, rfl, rfl, trivial⟩
  | addedCompany hadd =>
      obtain ⟨husd, -, hturns, hparties⟩ := reserved_amount hadd
      exact ⟨_, congrArg (List.set · p _) hparties, hturns, hall,
        hmade.first _ _ hall husd, rfl⟩
  | refusedGlobal =>
      exact ⟨_, rfl, rfl, hall.1, hall.2.1, fun _ h => nomatch h⟩
  | addedGlobal hadd =>
      obtain ⟨husd, -, hturns, hparties⟩ := reserved_amount hadd
      exact ⟨_, congrArg (List.set · p _) hparties, hturns, hall.1,
        hmade.second _ _ _ hall.1 hall.2.1 husd⟩
  | recorded => exact ⟨_, rfl, rfl, hall⟩
  | unreadable => exact ⟨_, rfl, rfl, hall⟩
  | found _ hdecode =>
      refine ⟨_, rfl, rfl, hall.1, hall.2, ?_⟩
      intro reservation hres
      obtain rfl := Option.mem_some_iff.mp hres
      exact hmade.decoded _ _ _ hdecode
  | undidCompany => exact ⟨_, rfl, rfl, hall⟩
  | undidGlobal => exact ⟨_, rfl, rfl, all_undone hall.1 hall.2.2⟩
  | gone => exact ⟨_, rfl, rfl, trivial⟩
  | dropped => exact ⟨_, rfl, rfl, hall⟩
  | gaveCompany => exact ⟨_, rfl, rfl, hall⟩
  | gaveGlobal => exact ⟨_, rfl, rfl, trivial⟩

theorem all_of_set {l : List Phase} {p : Nat} {ph' : Phase}
    (hl : ∀ ph ∈ l, ph.All P Q) (hph' : ph'.All P Q) :
    ∀ ph ∈ l.set p ph', ph.All P Q := by
  intro ph hmem
  rcases List.mem_or_eq_of_mem_set hmem with hold | rfl
  · exact hl ph hold
  · exact hph'

theorem all_of_join {l : List Phase} {ph' : Phase}
    (hl : ∀ ph ∈ l, ph.All P Q) (hph' : ph'.All P Q) :
    ∀ ph ∈ l ++ [ph'], ph.All P Q := by
  intro ph hmem
  rcases List.mem_append.mp hmem with hold | hnew
  · exact hl ph hold
  · rw [List.mem_singleton.mp hnew]
    exact hph'

theorem Moves.all {s s' : State} {a : Act} {out : List Event}
    (hmade : Made P Q) (h : Moves A s a s' out)
    (hbegin : ∀ r, a = .begin r → Q r)
    (hall : ∀ ph ∈ s.parties, ph.All P Q) :
    ∀ ph ∈ s'.parties, ph.All P Q := by
  cases h with
  | @begin r =>
      exact all_of_join hall (show Q r from hbegin r rfl)
  | call hp hcall =>
      obtain ⟨ph', hparties, -, hph'⟩ :=
        hcall.all hmade (hall _ (List.mem_of_getElem? hp))
      rw [hparties]
      exact all_of_set hall hph'
  | release _ hp =>
      exact all_of_set hall
        (all_releasing _ (hall _ (List.mem_of_getElem? hp)).2)
  | lose => exact all_of_set hall trivial
  | store => exact all_of_set hall trivial
  | start => exact hall
  | charge => exact all_of_join hall trivial
  | handBack => exact all_of_join hall (hmade.stored _)

/-- Parties only ever hold what the guard makes. -/
theorem all_of_reachWhen {ok : Conf State Event → Act → Prop}
    (hmade : Made P Q) (hok : ∀ c r, ok c (.begin r) → Q r)
    {c : Conf State Event} (h : (machine A).ReachWhen ok c) :
    ∀ ph ∈ c.st.parties, ph.All P Q := by
  refine Machine.ReachWhen.invariant
    (I := fun c => ∀ ph ∈ c.st.parties, ph.All P Q)
    (fun _ h => (List.not_mem_nil h).elim) ?_ h
  intro c a c' _ ih hstep hnext
  obtain ⟨s, out, hs, rfl⟩ := Machine.next_eq_some.mp hnext
  refine (moves_of_step hs).all hmade ?_ ih
  rintro r rfl
  exact hok c r hstep

end All

/-! ## The condition

What is asked of a step, beside the rounding: the reservation is a whole number
of millionths. -/

/-- What the ledger needs of a step: it reserves whole millionths, the sum
that it leaves on a counter is exact, and a record is deleted by a party that
has the recorded amounts in hand. -/
def Matching (A : Sums) (c : Conf State Event) : Act → Prop
  | .begin r => r.Whole
  | .call p => ExactCall A c.st p ∧
      ∀ d ∈ deletes c.st p, d.recorded = encodeHold d.inHand
  | _ => True

instance (A : Sums) (c : Conf State Event) :
    ∀ a : Act, Decidable (Matching A c a)
  | .begin _ => inferInstanceAs (Decidable (WholeMicro _))
  | .call p => inferInstanceAs
      (Decidable (ExactCall A c.st p ∧ ∀ d ∈ deletes c.st p, _ = _))
  | .decline _ | .accept .. | .start .. | .finish .. | .recover .. =>
      .isTrue trivial

/-! ## Caps

A counter rises by a granted reservation only, and that is when the cap is
tested. Everything else lowers it. -/

/-- The cap of the last reservation that this counter was granted. -/
def lastCap (ck : CounterKey) : List Event → Option ℚ
  | [] => none
  | .granted ck' capUsd :: log =>
      if ck' = ck then some capUsd else lastCap ck log
  | _ :: log => lastCap ck log

/-- The counter is within the cap of the last reservation it was granted. -/
def WithinCap (c : Conf State Event) (ck : CounterKey) : Prop :=
  match lastCap ck c.log with
  | none => c.st.counter ck = 0
  | some capUsd => 0 ≤ capUsd ∧ c.st.counter ck ≤ capUsd

/-- A counter that only falls stays within its cap. -/
theorem WithinCap.subtract {c : Conf State Event} {ck ck' : CounterKey}
    {amount : ℚ} (h : WithinCap c ck') (hamount : 0 ≤ amount)
    (hexact : A.ExactReturn (c.st.counter ck) amount) :
    WithinCap ⟨c.st.subtract A ck amount, c.log⟩ ck' := by
  unfold WithinCap at h ⊢
  simp only [subtract_counter]
  by_cases hck : ck' = ck
  · subst hck
    simp only [if_true]
    split at h
    · rw [h] at hexact ⊢
      refine le_antisymm
        (addBudgetDelta_le hamount hexact (le_refl 0) (le_refl 0)) ?_
      unfold addBudgetDelta
      split
      · exact le_refl 0
      · exact clampSpent_nonneg _
    · exact ⟨h.1, addBudgetDelta_le hamount hexact h.1 h.2⟩
  · simp only [if_neg hck]
    exact h

/-- A cap looks at the counters only. -/
theorem WithinCap.of_counter {s s' : State} {out log : List Event}
    {ck : CounterKey} (h : WithinCap ⟨s, log⟩ ck)
    (hcounter : s'.counter ck = s.counter ck)
    (hout : lastCap ck (out ++ log) = lastCap ck log) :
    WithinCap ⟨s', out ++ log⟩ ck := by
  unfold WithinCap at h ⊢
  simp only [hout, hcounter]
  exact h

theorem WithinCap.reserve {s s' : State} {ck ck' : CounterKey}
    {capUsd reserveUsd usd : ℚ} {out log : List Event}
    (hexact : A.ExactGrant (s.counter ck) reserveUsd capUsd)
    (hadd : reserveBudgetKey A s ck capUsd reserveUsd = some (usd, s', out))
    (h : WithinCap ⟨s, log⟩ ck') : WithinCap ⟨s', out ++ log⟩ ck' := by
  rcases reserveBudgetKey_spec hadd with
    ⟨hcap, -, rfl, spent, htry, rfl⟩ | ⟨-, rfl, rfl⟩
  · by_cases hck : ck = ck'
    · subst hck
      unfold WithinCap
      simp only [List.singleton_append, lastCap, if_true, setCounter_counter]
      exact ⟨hcap.le, tryAdd_le hcap.le hexact htry⟩
    · refine h.of_counter ?_ ?_
      · rw [setCounter_counter, if_neg (Ne.symm hck)]
      · simp only [List.singleton_append, lastCap, if_neg hck]
  · exact h

theorem Calls.withinCap {s s' : State} {p : Nat} {ph : Phase}
    {out log : List Event} {ck : CounterKey} (hcall : Calls A s p ph s' out)
    (hall : ph.All Hold.Nonneg fun _ => True) (hexact : ph.Exact A s)
    (h : WithinCap ⟨s, log⟩ ck) : WithinCap ⟨s', out ++ log⟩ ck := by
  cases hcall with
  | addedCompany hadd =>
      have hadded := h.reserve hexact hadd
      exact hadded
  | addedGlobal hadd =>
      have hadded := h.reserve hexact hadd
      exact hadded
  | undidCompany => exact h.subtract hall.2.1.1 hexact
  | undidGlobal => exact h.subtract hall.2.1.2 hexact
  | gaveCompany => exact (h.subtract hall.1 hexact).of_counter rfl rfl
  | gaveGlobal => exact (h.subtract hall.2 hexact).of_counter rfl rfl
  | refusedCompany => exact h
  | refusedGlobal => exact h
  | recorded => exact h
  | unreadable => exact h
  | found => exact h
  | gone => exact h
  | dropped => exact h

theorem withinCap_of_matching {c : Conf State Event}
    (h : (machine A).ReachWhen (Matching A) c) (ck : CounterKey) :
    WithinCap c ck := by
  refine Machine.ReachWhen.invariant (I := fun c => WithinCap c ck) ?_ ?_ h
  · exact (rfl : State.initial.counter ck = 0)
  intro c a c' hc ih hmatch hnext
  obtain ⟨s, out, hs, rfl⟩ := Machine.next_eq_some.mp hnext
  have hall := all_of_reachWhen made_nonneg (fun _ _ _ => trivial) hc
  cases moves_of_step hs with
  | call hp hcall =>
      exact hcall.withinCap (hall _ (List.mem_of_getElem? hp))
        (hmatch.1 _ hp) ih
  | begin => exact ih
  | release => exact ih
  | lose => exact ih
  | store => exact ih
  | start => exact ih
  | charge => exact ih
  | handBack => exact ih

/-! ## Records are deleted once

A record is written under a key that has none, and whoever deletes it owes its
amount from then on. So deletions and records of one key alternate, and no
amount is given back twice. -/

/-- The party has deleted this record and not yet given back on the company's
counter. -/
def Phase.owesCompany (key : HoldKey) : Phase → ℕ
  | .givingCompany key' _ => if key' = key then 1 else 0
  | _ => 0

/-- The same on the global counter. -/
def Phase.owesGlobal (key : HoldKey) : Phase → ℕ
  | .givingGlobal key' _ => if key' = key then 1 else 0
  | _ => 0

/-- Each record of a key has been deleted once, or stands; and each deletion
has been followed by one subtraction on each counter, or its party is about
to make it. -/
structure Counted (c : Conf State Event) (key : HoldKey) : Prop where
  recorded : c.log.count (.recorded key) = c.log.count (.dropped key) +
    if (c.st.holds.get key).isSome then 1 else 0
  company : c.log.count (.dropped key) =
    c.log.count (.gaveBack key key.companyKey) +
      (c.st.parties.map (Phase.owesCompany key)).sum
  global : c.log.count (.gaveBack key key.companyKey) =
    c.log.count (.gaveBack key key.globalKey) +
      (c.st.parties.map (Phase.owesGlobal key)).sum

/-- One party moves: what the log, the record and the party gain balance. -/
theorem Counted.move {s s' : State} {out log : List Event} {key : HoldKey}
    {p : Nat} {ph ph' : Phase} (h : Counted ⟨s, log⟩ key)
    (hp : s.parties[p]? = some ph)
    (hparties : s'.parties = s.parties.set p ph')
    (hrecorded : (out.count (.recorded key) +
        if (s.holds.get key).isSome then 1 else 0) =
      out.count (.dropped key) +
        if (s'.holds.get key).isSome then 1 else 0)
    (hcompany : out.count (.dropped key) + ph.owesCompany key =
      out.count (.gaveBack key key.companyKey) + ph'.owesCompany key)
    (hglobal : out.count (.gaveBack key key.companyKey) + ph.owesGlobal key =
      out.count (.gaveBack key key.globalKey) + ph'.owesGlobal key) :
    Counted ⟨s', out ++ log⟩ key := by
  have hsumc := sum_map_set (Phase.owesCompany key) (b := ph') hp
  have hsumg := sum_map_set (Phase.owesGlobal key) (b := ph') hp
  have hrec := h.recorded
  have hco := h.company
  have hgl := h.global
  dsimp only at hrec hco hgl
  refine ⟨?_, ?_, ?_⟩
  · simp only [List.count_append]
    omega
  · simp only [List.count_append, hparties]
    omega
  · simp only [List.count_append, hparties]
    omega

/-- A step that deletes, records and gives back nothing. -/
theorem Counted.quiet {s s' : State} {out log : List Event} {key : HoldKey}
    {p : Nat} {ph ph' : Phase} (h : Counted ⟨s, log⟩ key)
    (hp : s.parties[p]? = some ph)
    (hparties : s'.parties = s.parties.set p ph')
    (hholds : s'.holds = s.holds)
    (hout : ∀ e ∈ out, ∃ ck capUsd, e = .granted ck capUsd)
    (hcompany : ph.owesCompany key = ph'.owesCompany key)
    (hglobal : ph.owesGlobal key = ph'.owesGlobal key) :
    Counted ⟨s', out ++ log⟩ key := by
  have hnone : ∀ e, (∀ ck capUsd, e ≠ .granted ck capUsd) →
      out.count e = 0 := by
    intro e he
    refine List.count_eq_zero.mpr fun hmem => ?_
    obtain ⟨ck, capUsd, rfl⟩ := hout e hmem
    exact he ck capUsd rfl
  have hrec := hnone (.recorded key) (fun _ _ h => nomatch h)
  have hdrop := hnone (.dropped key) (fun _ _ h => nomatch h)
  have hco := hnone (.gaveBack key key.companyKey) (fun _ _ h => nomatch h)
  have hgl := hnone (.gaveBack key key.globalKey) (fun _ _ h => nomatch h)
  refine h.move hp hparties ?_ ?_ ?_
  · rw [hrec, hdrop, hholds]
  · rw [hdrop, hco, hcompany]
  · rw [hco, hgl, hglobal]

theorem Counted.join {s s' : State} {log : List Event} {key : HoldKey}
    {ph : Phase} (h : Counted ⟨s, log⟩ key) (hholds : s'.holds = s.holds)
    (hparties : s'.parties = s.parties ++ [ph])
    (hcompany : ph.owesCompany key = 0) (hglobal : ph.owesGlobal key = 0) :
    Counted ⟨s', log⟩ key := by
  have hrec := h.recorded
  have hco := h.company
  have hgl := h.global
  dsimp only at hrec hco hgl
  refine ⟨?_, ?_, ?_⟩
  · simp only [hholds]
    exact hrec
  · simp only [hparties, List.map_append, List.sum_append, List.map_cons,
      List.map_nil, List.sum_cons, List.sum_nil, hcompany]
    omega
  · simp only [hparties, List.map_append, List.sum_append, List.map_cons,
      List.map_nil, List.sum_cons, List.sum_nil, hglobal]
    omega

/-- A charge is not counted. -/
theorem Counted.charged {s : State} {log : List Event} {key key' : HoldKey}
    {hold : BudgetHold} (h : Counted ⟨s, log⟩ key) :
    Counted ⟨s, .charged key' hold :: log⟩ key := by
  refine ⟨?_, ?_, ?_⟩
  · simp only [List.count_cons, beq_iff_eq, reduceCtorEq, if_false]
    exact h.recorded
  · simp only [List.count_cons, beq_iff_eq, reduceCtorEq, if_false]
    exact h.company
  · simp only [List.count_cons, beq_iff_eq, reduceCtorEq, if_false]
    exact h.global

theorem granted_only {s s' : State} {ck : CounterKey}
    {capUsd reserveUsd usd : ℚ} {out : List Event}
    (hadd : reserveBudgetKey A s ck capUsd reserveUsd = some (usd, s', out)) :
    ∀ e ∈ out, ∃ ck capUsd, e = .granted ck capUsd := by
  rcases reserveBudgetKey_spec hadd with ⟨-, -, rfl, -⟩ | ⟨-, rfl, -⟩
  · intro e he
    exact ⟨ck, capUsd, List.mem_singleton.mp he⟩
  · exact fun e he => (List.not_mem_nil he).elim

theorem owes_releasing (r : Request) (reservation : Reservation)
    (key : HoldKey) : (releasing r reservation).owesCompany key = 0 ∧
      (releasing r reservation).owesGlobal key = 0 := by
  unfold releasing
  split <;> exact ⟨rfl, rfl⟩

theorem owes_undone (r : Request) (after : Option Reservation)
    (key : HoldKey) : (undone r after).owesCompany key = 0 ∧
      (undone r after).owesGlobal key = 0 := by
  cases after <;> exact ⟨rfl, rfl⟩

theorem Calls.counted {s s' : State} {p : Nat} {ph : Phase}
    {out log : List Event} {key : HoldKey} (hcall : Calls A s p ph s' out)
    (hp : s.parties[p]? = some ph) (h : Counted ⟨s, log⟩ key) :
    Counted ⟨s', out ++ log⟩ key := by
  have hnil : ∀ e ∈ ([] : List Event), ∃ ck capUsd, e = .granted ck capUsd :=
    fun e he => (List.not_mem_nil he).elim
  cases hcall with
  | refusedCompany => exact h.quiet hp rfl rfl hnil rfl rfl
  | addedCompany hadd =>
      obtain ⟨-, hholds, -, hparties⟩ := reserved_amount hadd
      exact h.quiet hp (congrArg (List.set · p _) hparties) hholds
        (granted_only hadd) rfl rfl
  | refusedGlobal => exact h.quiet hp rfl rfl hnil rfl rfl
  | addedGlobal hadd =>
      obtain ⟨-, hholds, -, hparties⟩ := reserved_amount hadd
      exact h.quiet hp (congrArg (List.set · p _) hparties) hholds
        (granted_only hadd) rfl rfl
  | @recorded r hold hget =>
      refine h.move hp rfl ?_ rfl rfl
      simp only [setPhase_holds, setHolds_holds, Entries.get_putNew hget]
      by_cases hkey : key = r.key
      · subst hkey
        simp [hget]
      · simp [hkey, Ne.symm hkey]
  | unreadable => exact h.quiet hp rfl rfl hnil rfl rfl
  | found => exact h.quiet hp rfl rfl hnil rfl rfl
  | undidCompany => exact h.quiet hp rfl rfl hnil rfl rfl
  | @undidGlobal r hold after =>
      obtain ⟨hcompany, hglobal⟩ := owes_undone r after key
      exact h.quiet hp rfl rfl hnil hcompany.symm hglobal.symm
  | gone => exact h.quiet hp rfl rfl hnil rfl rfl
  | @dropped key' hold byRequest value hget =>
      refine h.move hp rfl ?_ ?_ ?_
      · simp only [setPhase_holds, setHolds_holds, Entries.get_drop]
        by_cases hkey : key = key'
        · subst hkey
          simp [hget]
        · simp [hkey, Ne.symm hkey]
      · simp [List.count_cons, Phase.owesCompany]
      · simp [Phase.owesGlobal]
  | @gaveCompany key' hold =>
      refine h.move hp rfl ?_ ?_ ?_
      · rfl
      · by_cases hkey : key' = key
        · subst hkey
          simp [Phase.owesCompany]
        · simp [Phase.owesCompany, hkey]
      · by_cases hkey : key' = key
        · subst hkey
          simp [Phase.owesGlobal, companyKey_ne_globalKey]
        · simp [Phase.owesGlobal, hkey]
  | @gaveGlobal key' hold =>
      have hne : key'.globalKey ≠ key.companyKey :=
        (companyKey_ne_globalKey key key').symm
      refine h.move hp rfl ?_ ?_ ?_
      · rfl
      · simp [Phase.owesCompany, hne]
      · by_cases hkey : key' = key
        · subst hkey
          simp [Phase.owesGlobal, hne]
        · simp [Phase.owesGlobal, hkey]

theorem counted_of_reach {c : Conf State Event} (h : (machine A).Reach c)
    (key : HoldKey) : Counted c key := by
  refine Machine.ReachWhen.invariant (I := fun c => Counted c key)
    ⟨rfl, rfl, rfl⟩ ?_ h
  intro c a c' _ ih _ hnext
  obtain ⟨s, out, hs, rfl⟩ := Machine.next_eq_some.mp hnext
  have hnil : ∀ e ∈ ([] : List Event), ∃ ck capUsd, e = .granted ck capUsd :=
    fun e he => (List.not_mem_nil he).elim
  cases moves_of_step hs with
  | begin => exact ih.join rfl rfl rfl rfl
  | call hp hcall => exact hcall.counted hp ih
  | @release a p r reservation ha hp =>
      obtain ⟨hcompany, hglobal⟩ := owes_releasing r reservation key
      exact ih.quiet hp rfl rfl hnil hcompany.symm hglobal.symm
  | lose hp => exact ih.quiet hp rfl rfl hnil rfl rfl
  | store hp => exact ih.quiet hp rfl rfl hnil rfl rfl
  | start => exact ⟨ih.recorded, ih.company, ih.global⟩
  | charge =>
      refine Counted.charged ?_
      exact ih.join rfl rfl rfl rfl
  | handBack => exact ih.join rfl rfl rfl rfl

/-- Each record has been deleted at most once, and what its deletion gave back
was given back at most once on each counter. -/
def GaveBackOnce (c : Conf State Event) : Prop :=
  ∀ key, c.log.count (.recorded key) = c.log.count (.dropped key) +
      (if (c.st.holds.get key).isSome then 1 else 0) ∧
    c.log.count (.gaveBack key key.companyKey) ≤
      c.log.count (.dropped key) ∧
    c.log.count (.gaveBack key key.globalKey) ≤ c.log.count (.dropped key)

theorem gaveBackOnce_of_reach {c : Conf State Event}
    (h : (machine A).Reach c) : GaveBackOnce c := by
  intro key
  have hcounted := counted_of_reach h key
  have hcompany := hcounted.company
  have hglobal := hcounted.global
  exact ⟨hcounted.recorded, by omega, by omega⟩

/-! ## Conservation

The equation, and what one move does to it: an amount goes from a counter to a
party's hands or to a record, or the other way, and the sum stays. -/

/-- What a party has moved on a counter that no record accounts for. -/
def owedOn (ck : CounterKey) : Phase → ℚ
  | .addingGlobal r hold | .claiming r hold | .undoingCompany r hold _ =>
      hold.on r.key ck
  | .undoingGlobal r hold _ => r.key.amountOn ck 0 hold.globalReservedUsd
  | .givingCompany key hold => hold.on key ck
  | .givingGlobal key hold => key.amountOn ck 0 hold.globalReservedUsd
  | .addingCompany _ | .reserved .. | .dropping .. | .ended => 0

/-- What the records say about a counter. -/
def recordedOn (s : State) (ck : CounterKey) : ℚ :=
  s.holds.total fun key value => value.on key ck

/-- What all parties have in hand of a counter. -/
def owed (s : State) (ck : CounterKey) : ℚ :=
  (s.parties.map (owedOn ck)).sum

/-- Each counter is what is recorded on it and what parties have in hand. -/
def Conserved (s : State) : Prop :=
  ∀ ck, s.counter ck = recordedOn s ck + owed s ck

/-- No record is negative. -/
def RecordsNonneg (s : State) : Prop :=
  ∀ entry ∈ s.holds.list, 0 ≤ entry.2.company ∧ 0 ≤ entry.2.global

theorem on_encodeHold {hold : Hold} {kyivDate : Text}
    (h : Hold.Whole kyivDate hold) (key : HoldKey)
    (ck : CounterKey) : (encodeHold hold).on key ck = hold.on key ck := by
  unfold StoredHold.on Hold.on encodeHold
  rw [usdOfMicro_microUsd h.1, usdOfMicro_microUsd h.2]

theorem encodeHold_nonneg {hold : Hold} {kyivDate : Text}
    (h : Hold.Nonneg kyivDate hold) :
    0 ≤ (encodeHold hold).company ∧ 0 ≤ (encodeHold hold).global :=
  ⟨microUsd_nonneg h.1, microUsd_nonneg h.2⟩

theorem recordedOn_nonneg {s : State} (h : RecordsNonneg s)
    (ck : CounterKey) : 0 ≤ recordedOn s ck :=
  Entries.total_nonneg fun entry hentry =>
    amountOn_nonneg (usdOfMicro_nonneg (h entry hentry).1)
      (usdOfMicro_nonneg (h entry hentry).2)

theorem owedOn_nonneg {ph : Phase} {Q : Request → Prop}
    (h : ph.All Hold.Nonneg Q) (ck : CounterKey) : 0 ≤ owedOn ck ph := by
  cases ph with
  | addingCompany r => exact le_refl 0
  | addingGlobal r hold => exact amountOn_nonneg h.2.1.1 h.2.1.2
  | claiming r hold => exact amountOn_nonneg h.2.1 h.2.2
  | undoingCompany r hold after => exact amountOn_nonneg h.2.1.1 h.2.1.2
  | undoingGlobal r hold after => exact amountOn_nonneg (le_refl 0) h.2.1.2
  | reserved r reservation => exact le_refl 0
  | dropping key hold byRequest => exact le_refl 0
  | givingCompany key hold => exact amountOn_nonneg h.1 h.2
  | givingGlobal key hold => exact amountOn_nonneg (le_refl 0) h.2
  | ended => exact le_refl 0

/-- A counter has at least what one party owes it. -/
theorem owedOn_le_counter {s : State} {p : Nat} {ph : Phase}
    {Q : Request → Prop} (h : Conserved s) (hrecords : RecordsNonneg s)
    (hall : ∀ ph ∈ s.parties, ph.All Hold.Nonneg Q)
    (hp : s.parties[p]? = some ph) (ck : CounterKey) :
    owedOn ck ph ≤ s.counter ck := by
  have hmem : owedOn ck ph ∈ s.parties.map (owedOn ck) :=
    List.mem_map.mpr ⟨ph, List.mem_of_getElem? hp, rfl⟩
  have hle : owedOn ck ph ≤ owed s ck := by
    refine List.single_le_sum ?_ _ hmem
    intro x hx
    obtain ⟨ph', hph', rfl⟩ := List.mem_map.mp hx
    exact owedOn_nonneg (hall ph' hph') ck
  have hnonneg := recordedOn_nonneg hrecords ck
  rw [h ck]
  linarith

/-- One party moves: the counter gains what the records and the party gain. -/
theorem Conserved.move {s s' : State} {p : Nat} {ph ph' : Phase}
    (h : Conserved s) (hp : s.parties[p]? = some ph)
    (hparties : s'.parties = s.parties.set p ph')
    (hgain : ∀ ck, s'.counter ck + recordedOn s ck + owedOn ck ph =
      s.counter ck + recordedOn s' ck + owedOn ck ph') : Conserved s' := by
  intro ck
  have hsum := sum_map_set (owedOn ck) (b := ph') hp
  have hck := h ck
  have hgain := hgain ck
  unfold owed at hck ⊢
  rw [hparties]
  linarith

theorem Conserved.join {s s' : State} {ph : Phase} (h : Conserved s)
    (hcounter : s'.counter = s.counter) (hholds : s'.holds = s.holds)
    (hparties : s'.parties = s.parties ++ [ph])
    (howed : ∀ ck, owedOn ck ph = 0) : Conserved s' := by
  intro ck
  have hck := h ck
  unfold owed recordedOn at hck ⊢
  rw [hcounter, hholds, hparties, List.map_append, List.sum_append,
    List.map_singleton, List.sum_singleton, howed, add_zero]
  exact hck

/-- A subtraction that the counter can bear. -/
theorem subtract_company {s : State} {key : HoldKey} {amount : ℚ}
    (hexact : A.ExactReturn (s.counter key.companyKey) amount)
    (h : amount ≤ s.counter key.companyKey) (ck : CounterKey) :
    (s.subtract A key.companyKey amount).counter ck =
      s.counter ck - key.amountOn ck amount 0 := by
  rw [subtract_counter]
  unfold HoldKey.amountOn
  by_cases hck : ck = key.companyKey
  · rw [if_pos hck, if_pos hck, addBudgetDelta_eq hexact h, ite_self, add_zero,
      hck]
  · rw [if_neg hck, if_neg hck, ite_self, add_zero, sub_zero]

theorem subtract_global {s : State} {key : HoldKey} {amount : ℚ}
    (hexact : A.ExactReturn (s.counter key.globalKey) amount)
    (h : amount ≤ s.counter key.globalKey) (ck : CounterKey) :
    (s.subtract A key.globalKey amount).counter ck =
      s.counter ck - key.amountOn ck 0 amount := by
  rw [subtract_counter]
  unfold HoldKey.amountOn
  by_cases hck : ck = key.globalKey
  · rw [if_pos hck, if_pos hck, addBudgetDelta_eq hexact h, ite_self, zero_add,
      hck]
  · rw [if_neg hck, if_neg hck, ite_self, add_zero, sub_zero]

theorem amountOn_companyKey (key : HoldKey) (company global : ℚ) :
    key.amountOn key.companyKey company global = company := by
  unfold HoldKey.amountOn
  rw [if_pos rfl, if_neg (companyKey_ne_globalKey key key), add_zero]

theorem amountOn_globalKey (key : HoldKey) (company global : ℚ) :
    key.amountOn key.globalKey company global = global := by
  unfold HoldKey.amountOn
  rw [if_pos rfl, if_neg (companyKey_ne_globalKey key key).symm, zero_add]

/-- A reservation moves its own counter by what it reports. -/
theorem reserve_counter {s s' : State} {ck : CounterKey}
    {capUsd reserveUsd usd : ℚ} {out : List Event}
    (hreserve : 0 ≤ reserveUsd) (hnonneg : 0 ≤ s.counter ck)
    (hexact : A.ExactGrant (s.counter ck) reserveUsd capUsd)
    (hadd : reserveBudgetKey A s ck capUsd reserveUsd = some (usd, s', out))
    (ck' : CounterKey) :
    s'.counter ck' = s.counter ck' + if ck' = ck then usd else 0 := by
  rcases reserveBudgetKey_spec hadd with
    ⟨-, rfl, -, spent, htry, rfl⟩ | ⟨rfl, -, rfl⟩
  · rw [setCounter_counter]
    by_cases hck : ck' = ck
    · rw [if_pos hck, if_pos hck, hck]
      exact tryAdd_eq (by linarith) hexact htry
    · rw [if_neg hck, if_neg hck, add_zero]
  · rw [ite_self, add_zero]

/-- The ledger of a state, with what makes its subtractions exact. -/
structure Ledger (s : State) : Prop where
  conserved : Conserved s
  records : RecordsNonneg s
  nonneg : ∀ ph ∈ s.parties, ph.All Hold.Nonneg fun _ => True
  whole : ∀ ph ∈ s.parties, ph.All Hold.Whole Request.Whole

theorem Ledger.counter_nonneg {s : State} (h : Ledger s) (ck : CounterKey) :
    0 ≤ s.counter ck := by
  rw [h.conserved ck]
  refine add_nonneg (recordedOn_nonneg h.records ck) ?_
  refine List.sum_nonneg fun x hx => ?_
  obtain ⟨ph, hph, rfl⟩ := List.mem_map.mp hx
  exact owedOn_nonneg (h.nonneg ph hph) ck

theorem recordedOn_of_holds {s s' : State} (h : s'.holds = s.holds)
    (ck : CounterKey) : recordedOn s' ck = recordedOn s ck := by
  unfold recordedOn
  rw [h]

theorem owedOn_releasing (r : Request) (reservation : Reservation)
    (ck : CounterKey) : owedOn ck (releasing r reservation) = 0 := by
  unfold releasing
  split <;> rfl

theorem owedOn_undone (r : Request) (after : Option Reservation)
    (ck : CounterKey) : owedOn ck (undone r after) = 0 := by
  cases after <;> rfl

/-- Every store call keeps the books. -/
theorem Calls.conserved {s s' : State} {p : Nat} {ph : Phase}
    {out : List Event} (hcall : Calls A s p ph s' out)
    (hp : s.parties[p]? = some ph) (h : Ledger s) (hexact : ph.Exact A s)
    (hmatch : ∀ d ∈ deletes s p, d.recorded = encodeHold d.inHand) :
    Conserved s' := by
  have howed := owedOn_le_counter h.conserved h.records h.nonneg hp
  have hwhole := h.whole ph (List.mem_of_getElem? hp)
  cases hcall with
  | refusedCompany =>
      exact h.conserved.move hp rfl fun ck => rfl
  | @addedCompany r usd s' out hadd =>
      obtain ⟨-, hholds, -, hparties⟩ := reserved_amount hadd
      refine h.conserved.move hp (congrArg (List.set · p _) hparties) ?_
      intro ck
      have hcounter := reserve_counter r.limits.reserve_pos.le
        (h.counter_nonneg _) hexact hadd ck
      have hrecorded := recordedOn_of_holds hholds ck
      show s'.counter ck + _ + 0 = _ + recordedOn s' ck + r.key.amountOn ck usd 0
      rw [hcounter, hrecorded]
      unfold HoldKey.amountOn
      rw [ite_self]
      ring
  | refusedGlobal =>
      exact h.conserved.move hp rfl fun ck => rfl
  | @addedGlobal r hold usd s' out hadd =>
      obtain ⟨-, hholds, -, hparties⟩ := reserved_amount hadd
      refine h.conserved.move hp (congrArg (List.set · p _) hparties) ?_
      intro ck
      have hcounter := reserve_counter r.limits.reserve_pos.le
        (h.counter_nonneg _) hexact hadd ck
      have hrecorded := recordedOn_of_holds hholds ck
      have hzero : hold.globalReservedUsd = 0 := hwhole.2.2
      show s'.counter ck + _ + r.key.amountOn ck hold.companyReservedUsd
          hold.globalReservedUsd = _ + recordedOn s' ck +
        r.key.amountOn ck hold.companyReservedUsd usd
      rw [hcounter, hrecorded, hzero]
      unfold HoldKey.amountOn
      rw [ite_self]
      ring
  | @recorded r hold hget =>
      refine h.conserved.move hp rfl fun ck => ?_
      have htotal := Entries.total_putNew (v := encodeHold hold)
        (fun key value => StoredHold.on value key ck) hget
      show s.counter ck + recordedOn s ck + hold.on r.key ck =
        s.counter ck + (s.holds.putNew r.key (encodeHold hold)).total _ + 0
      rw [htotal, on_encodeHold hwhole.2]
      unfold recordedOn
      ring
  | @unreadable r hold value hget hdecode =>
      have hmem : 0 ≤ value.company ∧ 0 ≤ value.global :=
        h.records _ (Entries.mem_of_get hget)
      unfold decodeHold at hdecode
      rw [if_neg (by omega)] at hdecode
      cases hdecode
  | found =>
      exact h.conserved.move hp rfl fun ck => rfl
  | @undidCompany r hold after =>
      have hle := howed r.key.companyKey
      rw [owedOn, Hold.on, amountOn_companyKey] at hle
      refine h.conserved.move hp rfl fun ck => ?_
      show (s.subtract A _ _).counter ck + recordedOn s ck + hold.on r.key ck =
        s.counter ck + recordedOn s ck + r.key.amountOn ck 0 _
      have hsplit := amountOn_add r.key ck hold.companyReservedUsd
        hold.globalReservedUsd
      rw [subtract_company hexact hle, Hold.on, ← hsplit]
      ring
  | @undidGlobal r hold after =>
      have hle := howed r.key.globalKey
      rw [owedOn, amountOn_globalKey] at hle
      refine h.conserved.move hp rfl fun ck => ?_
      rw [owedOn_undone]
      show (s.subtract A _ _).counter ck + recordedOn s ck +
        r.key.amountOn ck 0 _ = s.counter ck + recordedOn s ck + 0
      rw [subtract_global hexact hle]
      ring
  | gone => exact h.conserved.move hp rfl fun ck => rfl
  | @dropped key hold byRequest value hget =>
      have hvalue : value = encodeHold hold := hmatch _ (deletes_eq hp hget)
      refine h.conserved.move hp rfl fun ck => ?_
      have htotal := Entries.total_drop
        (fun key value => StoredHold.on value key ck) hget
      have hpart : Hold.Whole key.kyivDate hold := hwhole
      rw [hvalue, on_encodeHold hpart] at htotal
      show s.counter ck + s.holds.total _ + 0 =
        s.counter ck + (s.holds.drop key).total _ + hold.on key ck
      rw [htotal]
      ring
  | @gaveCompany key hold =>
      have hle := howed key.companyKey
      rw [owedOn, Hold.on, amountOn_companyKey] at hle
      refine h.conserved.move hp rfl fun ck => ?_
      show (s.subtract A _ _).counter ck + recordedOn s ck + hold.on key ck =
        s.counter ck + recordedOn s ck + key.amountOn ck 0 _
      have hsplit := amountOn_add key ck hold.companyReservedUsd
        hold.globalReservedUsd
      rw [subtract_company hexact hle, Hold.on, ← hsplit]
      ring
  | @gaveGlobal key hold =>
      have hle := howed key.globalKey
      rw [owedOn, amountOn_globalKey] at hle
      refine h.conserved.move hp rfl fun ck => ?_
      show (s.subtract A _ _).counter ck + recordedOn s ck +
        key.amountOn ck 0 _ = s.counter ck + recordedOn s ck + 0
      rw [subtract_global hexact hle]
      ring

theorem Calls.recordsNonneg {s s' : State} {p : Nat} {ph : Phase}
    {out : List Event} (hcall : Calls A s p ph s' out)
    (hnonneg : ph.All Hold.Nonneg fun _ => True) (h : RecordsNonneg s) :
    RecordsNonneg s' := by
  cases hcall with
  | addedCompany hadd =>
      obtain ⟨-, hholds, -, -⟩ := reserved_amount hadd
      intro entry hentry
      exact h entry (hholds ▸ hentry)
  | addedGlobal hadd =>
      obtain ⟨-, hholds, -, -⟩ := reserved_amount hadd
      intro entry hentry
      exact h entry (hholds ▸ hentry)
  | @recorded r hold hget =>
      intro entry hentry
      change entry ∈ (s.holds.putNew r.key (encodeHold hold)).list at hentry
      rw [Entries.list_putNew hget] at hentry
      rcases List.mem_cons.mp hentry with rfl | hold'
      · exact encodeHold_nonneg hnonneg.2
      · exact h entry hold'
  | dropped =>
      intro entry hentry
      exact h entry (List.mem_of_mem_filter hentry)
  | refusedCompany => exact h
  | refusedGlobal => exact h
  | unreadable => exact h
  | found => exact h
  | undidCompany => exact h
  | undidGlobal => exact h
  | gone => exact h
  | gaveCompany => exact h
  | gaveGlobal => exact h

/-- One step that matches keeps the ledger. -/
theorem Moves.ledger {s s' : State} {a : Act} {out log : List Event}
    (hmoves : Moves A s a s' out) (hmatch : Matching A ⟨s, log⟩ a)
    (h : Ledger s) : Ledger s' := by
  have hnonneg := hmoves.all made_nonneg (fun _ _ => trivial) h.nonneg
  have hwhole := hmoves.all made_whole ?_ h.whole
  · refine ⟨?_, ?_, hnonneg, hwhole⟩
    · cases hmoves with
      | begin => exact h.conserved.join rfl rfl rfl fun ck => rfl
      | call hp hcall => exact hcall.conserved hp h (hmatch.1 _ hp) hmatch.2
      | @release a p r reservation ha hp =>
          refine h.conserved.move hp rfl fun ck => ?_
          rw [owedOn_releasing]
          rfl
      | lose hp => exact h.conserved.move hp rfl fun ck => rfl
      | store hp => exact h.conserved.move hp rfl fun ck => rfl
      | start => exact h.conserved
      | charge => exact h.conserved.join rfl rfl rfl fun ck => rfl
      | handBack => exact h.conserved.join rfl rfl rfl fun ck => rfl
    · cases hmoves with
      | call hp hcall =>
          exact hcall.recordsNonneg (h.nonneg _ (List.mem_of_getElem? hp))
            h.records
      | begin => exact h.records
      | release => exact h.records
      | lose => exact h.records
      | store => exact h.records
      | start => exact h.records
      | charge => exact h.records
      | handBack => exact h.records
  · rintro r rfl
    exact hmatch

theorem Ledger.initial : Ledger State.initial where
  conserved := fun _ => (add_zero (0 : ℚ)).symm
  records := fun _ h => (List.not_mem_nil h).elim
  nonneg := fun _ h => (List.not_mem_nil h).elim
  whole := fun _ h => (List.not_mem_nil h).elim

theorem ledger_of_matching {c : Conf State Event}
    (h : (machine A).ReachWhen (Matching A) c) : Ledger c.st := by
  refine Machine.ReachWhen.invariant (I := fun c => Ledger c.st) ?_ ?_ h
  · exact Ledger.initial
  intro c a c' _ ih hmatch hnext
  obtain ⟨s, out, hs, rfl⟩ := Machine.next_eq_some.mp hnext
  exact (moves_of_step hs).ledger hmatch ih

end Shozee.Budget
