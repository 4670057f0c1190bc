import Shozee.Sho.Resolution

/-!
# The entries that a reference fits

A reference said for a param has a pool of entries to choose from: the records
of the param's type that agree with it, or for a customer's param, where no
customer fits, the customers of the orders in focus (`fitting_binds`). A verb
said of a record chooses among the records of any type, so among those of the
type that it ends up with (`Binds.record`).
-/

namespace Shozee.Sho

open Shozee.Run

/-- A record of a type that a reference fits, for an action. -/
structure RecordPool (lower : String → String) (focus : List FocusEntry)
    (action : String) (reference : Reference) (type : FocusType) (i : ℕ)
    (entry : FocusEntry) : Prop where
  held : HeldAt focus i entry
  type_eq : entry.type = type
  agrees : agrees lower reference.form entry = true
  restorable : restorable entry action = true

/-- An order of a customer that is not closed. -/
def OpenOrder (order : FocusEntry) (customer : String) : Prop :=
  order.type = .order ∧ order.closed ≠ some true ∧
    order.customer = some customer

/-- The customer of an order in focus, where the first order that he has is. -/
def CustomerPool (focus : List FocusEntry) (i : ℕ) (entry : FocusEntry) :
    Prop :=
  ∃ order customer, HeldAt focus i order ∧ OpenOrder order customer ∧
    (∀ j < i, ∀ other, HeldAt focus j other → ¬ OpenOrder other customer) ∧
      entry = customerEntry order customer

/-! ## Customers of orders

The loop keeps each customer once, with the first order that has it. -/

/-- What a round of the loop adds. -/
theorem addCustomer_cases (known : List Candidate) (candidate : Candidate) :
    (addCustomer known candidate = known ∧ ∀ customer,
      OpenOrder candidate.entry customer →
        customer ∈ known.map (·.entry.id)) ∨
    (∃ customer newest, OpenOrder candidate.entry customer ∧
      customer ∉ known.map (·.entry.id) ∧
        addCustomer known candidate = known ++
          [⟨candidate.index, customerEntry candidate.entry customer,
            newest⟩]) := by
  unfold addCustomer
  cases hcustomer : candidate.entry.customer with
  | none =>
      refine .inl ⟨rfl, fun customer h => ?_⟩
      rw [h.2.2] at hcustomer
      cases hcustomer
  | some customer =>
      dsimp only
      by_cases hskip : candidate.entry.type ≠ .order ∨
          candidate.entry.closed = some true ∨
            customer ∈ known.map (·.entry.id)
      · rw [if_pos hskip]
        refine .inl ⟨rfl, fun other h => ?_⟩
        obtain ⟨htype, hclosed, hsame⟩ := h
        rw [hcustomer, Option.some.injEq] at hsame
        rcases hskip with hnot | hnot | hknown
        · exact absurd htype hnot
        · exact absurd hnot hclosed
        · rwa [hsame] at hknown
      · rw [if_neg hskip]
        rw [not_or, not_or, not_not] at hskip
        exact .inr ⟨customer, _, ⟨hskip.1, hskip.2.1, hcustomer⟩, hskip.2.2,
          rfl⟩

/-- Known are the customers of the open orders so far. -/
theorem mem_known_iff (records : List Candidate) (customer : String) :
    customer ∈ (records.foldl addCustomer []).map (·.entry.id) ↔
      ∃ candidate ∈ records, OpenOrder candidate.entry customer := by
  induction records using List.reverseRecOn with
  | nil => simp
  | append_singleton records x ih =>
      rw [List.foldl_append, List.foldl_cons, List.foldl_nil]
      rcases addCustomer_cases (records.foldl addCustomer []) x with
        ⟨heq, hknown⟩ | ⟨new, newest, hopen, -, heq⟩
      · rw [heq, ih]
        constructor
        · intro ⟨c, hc, h⟩
          exact ⟨c, List.mem_append_left _ hc, h⟩
        · intro ⟨c, hc, h⟩
          rcases List.mem_append.mp hc with hc | hc
          · exact ⟨c, hc, h⟩
          · rw [List.mem_singleton.mp hc] at h
            exact ih.mp (hknown customer h)
      · rw [heq, List.map_append, List.mem_append, ih]
        constructor
        · intro h
          rcases h with ⟨c, hc, h⟩ | h
          · exact ⟨c, List.mem_append_left _ hc, h⟩
          · have hsame : customer = new := List.mem_singleton.mp h
            rw [hsame]
            exact ⟨x, List.mem_append_right _ List.mem_cons_self, hopen⟩
        · intro ⟨c, hc, h⟩
          rcases List.mem_append.mp hc with hc | hc
          · exact .inl ⟨c, hc, h⟩
          · rw [List.mem_singleton.mp hc] at h
            have hsame : customer = new :=
              Option.some.inj (h.2.2.symm.trans hopen.2.2)
            exact .inr (List.mem_singleton.mpr hsame)

/-- The loop leaves each customer with the first order that he has. -/
theorem orderCustomers_iff {records : List Candidate}
    (hsorted : records.Pairwise (·.index < ·.index)) (i : ℕ)
    (entry : FocusEntry) :
    (∃ candidate ∈ records.foldl addCustomer [],
      candidate.index = i ∧ candidate.entry = entry) ↔
    ∃ order ∈ records, ∃ customer, order.index = i ∧
      OpenOrder order.entry customer ∧
        (∀ other ∈ records, other.index < i →
          ¬ OpenOrder other.entry customer) ∧
          entry = customerEntry order.entry customer := by
  induction records using List.reverseRecOn with
  | nil => simp
  | append_singleton records x ih =>
      obtain ⟨hsorted, -, hlast⟩ := List.pairwise_append.mp hsorted
      have hlast : ∀ c ∈ records, c.index < x.index :=
        fun c hc => hlast c hc x List.mem_cons_self
      -- An order of the longer list is one of the shorter, or the last.
      have hsplit : (∃ order ∈ records ++ [x], ∃ customer, order.index = i ∧
          OpenOrder order.entry customer ∧
            (∀ other ∈ records ++ [x], other.index < i →
              ¬ OpenOrder other.entry customer) ∧
              entry = customerEntry order.entry customer) ↔
          (∃ candidate ∈ records.foldl addCustomer [],
            candidate.index = i ∧ candidate.entry = entry) ∨
          ∃ customer, x.index = i ∧ OpenOrder x.entry customer ∧
            customer ∉ (records.foldl addCustomer []).map (·.entry.id) ∧
              entry = customerEntry x.entry customer := by
        rw [ih hsorted]
        constructor
        · intro ⟨order, horder, customer, hi, hopen, hfirst, hentry⟩
          rcases List.mem_append.mp horder with hmem | hmem
          · exact .inl ⟨order, hmem, customer, hi, hopen,
              fun other hother => hfirst other (List.mem_append_left _ hother),
              hentry⟩
          · rw [List.mem_singleton.mp hmem] at hi hopen hentry
            refine .inr ⟨customer, hi, hopen, fun hknown => ?_, hentry⟩
            obtain ⟨c, hc, hcopen⟩ := (mem_known_iff records customer).mp hknown
            exact hfirst c (List.mem_append_left _ hc)
              (hi ▸ hlast c hc) hcopen
        · intro h
          rcases h with ⟨order, hmem, customer, hi, hopen, hfirst, hentry⟩ |
            ⟨customer, hi, hopen, hnew, hentry⟩
          · refine ⟨order, List.mem_append_left _ hmem, customer, hi, hopen,
              fun other hother hlt => ?_, hentry⟩
            rcases List.mem_append.mp hother with hother | hother
            · exact hfirst other hother hlt
            · rw [List.mem_singleton.mp hother, ← hi] at hlt
              exact absurd hlt (Nat.lt_asymm (hlast order hmem))
          · refine ⟨x, List.mem_append_right _ List.mem_cons_self, customer,
              hi, hopen, fun other hother hlt hother' => ?_, hentry⟩
            rcases List.mem_append.mp hother with hother | hother
            · exact hnew ((mem_known_iff records customer).mpr
                ⟨other, hother, hother'⟩)
            · rw [List.mem_singleton.mp hother, hi] at hlt
              exact absurd hlt (Nat.lt_irrefl i)
      rw [hsplit, List.foldl_append, List.foldl_cons, List.foldl_nil]
      rcases addCustomer_cases (records.foldl addCustomer []) x with
        ⟨heq, hknown⟩ | ⟨new, newest, hopen, hnew, heq⟩
      · rw [heq]
        refine (or_iff_left fun h => ?_).symm
        obtain ⟨customer, -, hopen, hnot, -⟩ := h
        exact hnot (hknown customer hopen)
      · rw [heq]
        simp only [List.mem_append, List.mem_singleton, or_and_right,
          exists_or, exists_eq_left]
        refine or_congr_right ⟨?_, ?_⟩
        · intro ⟨hi, hentry⟩
          exact ⟨new, hi, hopen, hnew, hentry.symm⟩
        · intro ⟨customer, hi, hcustomer, _, hentry⟩
          have hsame : customer = new :=
            Option.some.inj (hcustomer.2.2.symm.trans hopen.2.2)
          rw [hentry, hsame]
          exact ⟨hi, rfl⟩

theorem customerPool_iff {focus : List FocusEntry} (i : ℕ)
    (entry : FocusEntry) : CustomerPool focus i entry ↔
      ∃ candidate ∈ orderCustomers (heldOf focus),
        candidate.index = i ∧ candidate.entry = entry := by
  have hholds := heldOf_holds focus
  unfold orderCustomers
  rw [orderCustomers_iff hholds.sorted]
  constructor
  · intro ⟨order, customer, hheld, hopen, hfirst, hentry⟩
    obtain ⟨c, hc, hi, rfl⟩ := (hholds.records i order).mp hheld
    refine ⟨c, hc, customer, hi, hopen, fun other hother hlt => ?_, hentry⟩
    exact hfirst other.index hlt other.entry
      ((hholds.records _ _).mpr ⟨other, hother, rfl, rfl⟩)
  · intro ⟨order, hmem, customer, hi, hopen, hfirst, hentry⟩
    refine ⟨order.entry, customer,
      (hholds.records _ _).mpr ⟨order, hmem, hi, rfl⟩, hopen,
      fun j hj other hother => ?_, hentry⟩
    obtain ⟨c, hc, rfl, rfl⟩ := (hholds.records j other).mp hother
    exact hfirst c hc hj

/-! ## Binding

What is bound is the chosen one of its pool, for the params of a word and for
the record of a verb. -/

/-- No marker stands before what a resolution binds. -/
theorem Binds.unmarkedAt {focus : List FocusEntry} {fits : List Candidate}
    {reference : Reference} {only : Candidate}
    (h : Binds fits (heldOf focus).markers reference only) :
    Unmarked focus only.index only.entry.type := by
  intro j hj marker hmarker hid htype
  obtain ⟨c, hc, rfl, rfl⟩ := (heldOf_holds focus).markers j marker hmarker hid
  have hle := h.unmarked c hc htype
  omega

section Fits

variable {lower : String → String} {bundle : Bundle} {intent : Intent}
  {L P : Type} {decision : Decision L P} {focus : List FocusEntry}
  {reference : Reference} {only : Candidate}

/-- A candidate among the records that meet a test is the chosen one of a pool,
when the test is that of the pool for the records of its type. -/
theorem Binds.record {fit : Candidate → Bool} {action : String}
    (h : Binds ((heldOf focus).records.filter fit) (heldOf focus).markers
      reference only)
    (hfit : ∀ candidate : Candidate, candidate.entry.type = only.entry.type →
      (fit candidate = true ↔ agrees lower reference.form candidate.entry = true
        ∧ restorable candidate.entry action = true)) :
    Chosen (RecordPool lower focus action reference only.entry.type) reference
      only.index only.entry := by
  have hholds := heldOf_holds focus
  refine h.chosen (fun candidate hmem htype => ?_) (fun j entry hpool => ?_)
  · obtain ⟨hmem, hmeets⟩ := List.mem_filter.mp hmem
    obtain ⟨hagrees, hrestorable⟩ := (hfit candidate htype).mp hmeets
    exact ⟨(hholds.records _ _).mpr ⟨candidate, hmem, rfl, rfl⟩, htype,
      hagrees, hrestorable⟩
  · obtain ⟨candidate, hmem, rfl, rfl⟩ := (hholds.records j entry).mp hpool.held
    refine ⟨hpool.type_eq, candidate, List.mem_filter.mpr ⟨hmem, ?_⟩, rfl, rfl⟩
    exact (hfit candidate hpool.type_eq).mpr ⟨hpool.agrees, hpool.restorable⟩

/-- The customer of an order that is bound is the chosen one among those of the
orders in focus. -/
theorem Binds.customer (h : Binds (orderCustomers (heldOf focus))
    (heldOf focus).markers reference only) :
    Chosen (CustomerPool focus) reference only.index only.entry := by
  have htype : ∀ j entry, CustomerPool focus j entry →
      entry.type = .customer := by
    intro j entry ⟨order, customer, _, _, _, hentry⟩
    rw [hentry]
    rfl
  have hmem := (customerPool_iff _ _).mpr ⟨only, h.mem, rfl, rfl⟩
  refine h.chosen (fun candidate hc _ => ?_) (fun j entry hpool => ?_)
  · exact (customerPool_iff _ _).mpr ⟨candidate, hc, rfl, rfl⟩
  · exact ⟨(htype j entry hpool).trans (htype _ _ hmem).symm,
      (customerPool_iff j entry).mp hpool⟩

/-- What a reference binds for a param is a record of the param's type, or the
customer of an order where no customer fits. -/
theorem fitting_binds {name : String}
    (h : Binds (fitting lower bundle intent decision (heldOf focus) name
      reference) (heldOf focus).markers reference only) :
    (recordType bundle intent name = some only.entry.type ∧
      Chosen (RecordPool lower focus decision.action reference only.entry.type)
        reference only.index only.entry) ∨
    (recordType bundle intent name = some .customer ∧
      (∀ j entry, ¬ RecordPool lower focus decision.action reference .customer
        j entry) ∧
        Chosen (CustomerPool focus) reference only.index only.entry) := by
  unfold fitting at h
  dsimp only at h
  split at h
  · have htype : recordType bundle intent name = some only.entry.type := by
      have hmeets := (List.mem_filter.mp h.mem).2
      rw [Bool.and_eq_true, Bool.and_eq_true] at hmeets
      exact (of_decide_eq_true hmeets.1.1).symm
    refine .inl ⟨htype, h.record fun candidate hsame => ?_⟩
    rw [htype, hsame, decide_eq_true rfl, Bool.true_and, Bool.and_eq_true]
  · next hnone =>
      rw [not_or, not_not, not_not] at hnone
      refine .inr ⟨hnone.2, fun j entry hpool => ?_, h.customer⟩
      obtain ⟨candidate, hmem, -, rfl⟩ :=
        ((heldOf_holds focus).records j entry).mp hpool.held
      refine List.ne_nil_of_mem (List.mem_filter.mpr ⟨hmem, ?_⟩) hnone.1
      rw [hpool.type_eq, hnone.2, hpool.agrees, hpool.restorable]
      decide

end Fits

end Shozee.Sho
