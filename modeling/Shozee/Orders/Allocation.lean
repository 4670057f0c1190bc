import Shozee.Orders.Totals
import Shozee.Run.Machine

/-!
# The allocation loop does not meet its own numbers

A call of `orders.create` holds the row of the company's counter from its
first allocation to the end of its transaction, so the calls of one company
run one after another. Each allocates the numbers after the last one that was
committed, under whatever prefix the company has then. What an earlier call
has inserted is numbered lower, and by less than the modulus, so a number that
is refused belongs to an order that was there before.
-/

namespace Shozee.Orders

open Shozee.Run

namespace Allocation

/-- The order numbers that were tried. -/
def attempted (sent : List Statement) : List String :=
  sent.filterMap fun statement =>
    match statement with
    | .insertOrder row => some row.orderNumber
    | .counter | .insertOrderItems _ => none

/-- A call of `orders.create`, and whether its transaction commits. -/
structure Act where
  call : CtxCall
  getCompany : Except OrderError String
  draws : CreateDraws
  input : CreateOrderInput
  commits : Bool

/-- A number that was tried, or an order that was inserted. -/
inductive Event
  | attempted (orderNumber : String) (taken : Bool)
  | inserted (orderNumber : String)
deriving DecidableEq, Repr

/-- The numbers of the stored orders. -/
def numbers (db : OrdersDb) : List String := db.orders.map (·.orderNumber)

/-- The numbers that a call has tried, the last one first. -/
def attempts (db : OrdersDb) (sent : List Statement) : List Event :=
  ((attempted sent).map fun orderNumber =>
    .attempted orderNumber (orderNumber ∈ numbers db)).reverse

/-- One call, from its draws to its commit. -/
def step (db : OrdersDb) (a : Act) : Option (OrdersDb × List Event) :=
  let outcome := createOrder a.call a.getCompany a.draws a.input db
  match outcome.result, a.commits with
  | .ok summary, true =>
      some (outcome.db,
        .inserted summary.orderNumber :: attempts db outcome.sent)
  | _, _ => some (db, attempts db outcome.sent)

/-- The company's orders from `initial` on. -/
def company (initial : OrdersDb) : Machine OrdersDb Act Event where
  init := initial
  step := step

/-- How many numbers have been allocated. -/
def allocations (log : List Event) : ℕ :=
  log.countP fun e => match e with
    | .attempted .. => true
    | .inserted _ => false

/-! ## What a call tries

The loop tries the numbers after the last one that was allocated, each once,
until one is free or there are no more attempts. -/

/-- The `m` numbers after the last one. -/
def nextNumbers (numberingPrefix : String) (lastNumber m : ℕ) : List String :=
  (List.range m).map fun k =>
    staffOrderNumber numberingPrefix (lastNumber + 1 + k)

theorem nextNumbers_succ (numberingPrefix : String) (lastNumber m : ℕ) :
    nextNumbers numberingPrefix lastNumber (m + 1) =
      staffOrderNumber numberingPrefix (lastNumber + 1) ::
        nextNumbers numberingPrefix (lastNumber + 1) m := by
  unfold nextNumbers
  rw [List.range_succ_eq_map, List.map_cons, List.map_map]
  refine congrArg _ (List.map_congr_left fun k _ => ?_)
  show staffOrderNumber _ (lastNumber + 1 + (k + 1)) = _
  rw [show lastNumber + 1 + (k + 1) = lastNumber + 1 + 1 + k by omega]

theorem mem_nextNumbers {numberingPrefix number : String}
    {lastNumber m : ℕ} (h : number ∈ nextNumbers numberingPrefix lastNumber m) :
    ∃ sequence, lastNumber < sequence ∧ sequence ≤ lastNumber + m ∧
      number = staffOrderNumber numberingPrefix sequence := by
  obtain ⟨k, hk, rfl⟩ := List.mem_map.mp h
  rw [List.mem_range] at hk
  exact ⟨lastNumber + 1 + k, by omega, by omega, rfl⟩

section Header

variable {values : String → OrderHeader}

/-- The loop tries the numbers after the last one, in their order, and the one
that it takes is where the counter stands. -/
theorem insertNumberedHeader_attempted (tries : ℕ)
    (lastConflict : Option CreateError) (db : OrdersDb)
    (sent : List Statement) (numberingPrefix : String)
    (hnumber : ∀ n, (values n).orderNumber = n) :
    ∃ m,
      attempted (insertNumberedHeader values numberingPrefix tries
          lastConflict db sent).sent =
        attempted sent ++
          nextNumbers numberingPrefix (db.lastNumber.getD 0) m ∧
      ∀ row, (insertNumberedHeader values numberingPrefix tries lastConflict
          db sent).result = .ok row →
        row.orderNumber =
            staffOrderNumber numberingPrefix (db.lastNumber.getD 0 + m) ∧
          0 < m ∧
          (insertNumberedHeader values numberingPrefix tries lastConflict db
            sent).db.lastNumber = some (db.lastNumber.getD 0 + m) := by
  induction tries generalizing lastConflict db sent with
  | zero =>
      refine ⟨0, by simp [insertNumberedHeader, nextNumbers], fun row h => ?_⟩
      cases h
  | succ tries ih =>
      have hround : ∀ row : OrderHeader,
          attempted (sent ++ [.counter, .insertOrder row]) =
            attempted sent ++ [row.orderNumber] := by
        intro row
        rw [attempted, List.filterMap_append]
        rfl
      rw [insertNumberedHeader_succ]
      dsimp only
      split
      · refine ⟨1, ?_, fun row h => by cases h⟩
        rw [hround, hnumber]
        rfl
      · split
        · obtain ⟨m, hattempted, hok⟩ := ih _ db.allocated _
          refine ⟨m + 1, ?_, fun row h => ?_⟩
          · rw [hattempted, hround, hnumber, nextNumbers_succ,
              List.append_assoc]
            rfl
          · obtain ⟨hrow, hpos, hlast⟩ := hok row h
            rw [hrow, hlast]
            show staffOrderNumber _ (db.lastNumber.getD 0 + 1 + m) = _ ∧ _ ∧
              some (db.lastNumber.getD 0 + 1 + m) = _
            rw [show db.lastNumber.getD 0 + 1 + m =
              db.lastNumber.getD 0 + (m + 1) by omega]
            exact ⟨rfl, by omega, rfl⟩
        · refine ⟨1, ?_, fun row h => ?_⟩
          · rw [hround, hnumber]
            rfl
          · cases h
            exact ⟨hnumber _, by omega, rfl⟩

end Header

theorem createStaffOrderIn_attempted (draws : CreateDraws)
    (comment : Option String) (numberingPrefix : String)
    (draft : CreateOrderDraft) (db : OrdersDb) :
    let outcome := createStaffOrderIn draws comment numberingPrefix draft db
    ∃ m,
      attempted outcome.sent =
        nextNumbers numberingPrefix (db.lastNumber.getD 0) m ∧
      ∀ summary, outcome.result = .ok summary →
        summary.orderNumber =
            staffOrderNumber numberingPrefix (db.lastNumber.getD 0 + m) ∧
          0 < m ∧
          outcome.db.lastNumber = some (db.lastNumber.getD 0 + m) := by
  unfold createStaffOrderIn
  cases priceOrderLinesInSingleCurrency draft.items draft.prices with
  | error error => exact ⟨0, rfl, fun _ h => by cases h⟩
  | ok pricing =>
      dsimp only
      obtain ⟨m, hattempted, hok⟩ := insertNumberedHeader_attempted
        ORDER_NUMBER_ALLOCATE_ATTEMPTS none db [] numberingPrefix
        (show ∀ n, (orderValues draws comment draft pricing.currency
          (orderLoop draws pricing.priced) n).orderNumber = n from
            fun _ => rfl)
      generalize insertNumberedHeader _ _ _ _ _ _ = header at hattempted hok ⊢
      have hsent : ∀ rows, attempted (header.sent ++ [.insertOrderItems rows]) =
          nextNumbers numberingPrefix (db.lastNumber.getD 0) m := by
        intro rows
        rw [attempted, List.filterMap_append]
        exact (List.append_nil _).trans hattempted
      refine ⟨m, ?_⟩
      cases hresult : header.result with
      | error error => exact ⟨hattempted, fun _ h => by cases h⟩
      | ok row =>
          dsimp only
          cases hinsert : header.db.insertOrderItems
              (orderLoop draws pricing.priced).lines with
          | error error => exact ⟨hsent _, fun _ h => by cases h⟩
          | ok db' =>
              refine ⟨hsent _, fun summary h => ?_⟩
              obtain ⟨-, rfl⟩ := insertOrderItems_eq_ok hinsert
              cases h
              exact hok row hresult

/-- What a whole call tries, and what one that succeeds inserts. -/
theorem createOrder_attempted (call : CtxCall)
    (getCompany : Except OrderError String) (draws : CreateDraws)
    (input : CreateOrderInput) (db : OrdersDb) :
    let outcome := createOrder call getCompany draws input db
    ∃ numberingPrefix m,
      attempted outcome.sent =
        nextNumbers numberingPrefix (db.lastNumber.getD 0) m ∧
      ∀ summary, outcome.result = .ok summary →
        summary.orderNumber =
            staffOrderNumber numberingPrefix (db.lastNumber.getD 0 + m) ∧
          0 < m ∧
          outcome.db.lastNumber = some (db.lastNumber.getD 0 + m) ∧
          numbers outcome.db = numbers db ++ [summary.orderNumber] ∧
          summary.orderNumber ∉ numbers db := by
  unfold createOrder
  cases resolveCreateOrderDraft call input with
  | error error => exact ⟨"", 0, rfl, fun _ h => by cases h⟩
  | ok draft =>
      cases getCompany with
      | error error => exact ⟨"", 0, rfl, fun _ h => by cases h⟩
      | ok numberingPrefix =>
          obtain ⟨m, hattempted, hok⟩ := createStaffOrderIn_attempted draws
            input.comment numberingPrefix draft db
          refine ⟨numberingPrefix, m, hattempted, fun summary h => ?_⟩
          obtain ⟨hnumber, hpos, hlast⟩ := hok summary h
          obtain ⟨_, row, items, _, -, -, -, hdb, hfree, -, -, rfl⟩ :=
            createStaffOrderIn_ok h
          refine ⟨hnumber, hpos, hlast, ?_, hfree⟩
          show numbers (createStaffOrderIn ..).db = _
          rw [numbers, hdb, List.map_append]
          rfl

/-! ## What a run has inserted

Calls of one company come one after the other, so each begins where the last
committed one stopped. What has been inserted since is numbered lower, by less
than the modulus. -/

theorem staffOrderNumber_eq_iff {p q : String} {s t : ℕ} (hs : 0 < s)
    (ht : 0 < t) :
    staffOrderNumber p s = staffOrderNumber q t ↔
      p = q ∧ (s : ℤ) ≡ t [ZMOD OBFUSCATE_SEQ_MODULUS] := by
  rw [← formatStaffOrderNumber_eq_iff (Int.natCast_pos.mpr hs)
    (Int.natCast_pos.mpr ht), formatStaffOrderNumber_natCast p hs,
    formatStaffOrderNumber_natCast q ht, Except.ok.injEq]

/-- What holds along a run from `initial`: the orders are those of before and
those inserted, these are numbered by the allocations made, and only a number
of before has been refused. -/
structure Kept (initial : OrdersDb) (c : Conf OrdersDb Event) : Prop where
  orders : ∀ number, number ∈ numbers c.st ↔
    number ∈ numbers initial ∨ .inserted number ∈ c.log
  inserted : ∀ number, .inserted number ∈ c.log →
    number ∉ numbers initial ∧
      ∃ numberingPrefix sequence, initial.lastNumber.getD 0 < sequence ∧
        sequence ≤ c.st.lastNumber.getD 0 ∧
        number = staffOrderNumber numberingPrefix sequence
  grown : initial.lastNumber.getD 0 ≤ c.st.lastNumber.getD 0
  counted : c.st.lastNumber.getD 0 ≤
    initial.lastNumber.getD 0 + allocations c.log
  refused : ∀ number, .attempted number true ∈ c.log →
    number ∈ numbers initial

theorem allocations_append (out log : List Event) :
    allocations (out ++ log) = allocations out + allocations log :=
  List.countP_append

theorem allocations_inserted (number : String) (log : List Event) :
    allocations (.inserted number :: log) = allocations log :=
  List.countP_cons_of_neg (by simp)

theorem mem_attempts {db : OrdersDb} {sent : List Statement} {e : Event} :
    e ∈ attempts db sent ↔ ∃ number ∈ attempted sent,
      .attempted number (number ∈ numbers db) = e := by
  rw [attempts, List.mem_reverse, List.mem_map]

theorem allocations_attempts (db : OrdersDb) (sent : List Statement) :
    allocations (attempts db sent) = (attempted sent).length := by
  unfold allocations
  rw [List.countP_eq_length.mpr, attempts, List.length_reverse,
    List.length_map]
  intro e he
  obtain ⟨_, _, rfl⟩ := mem_attempts.mp he
  rfl

theorem length_nextNumbers (numberingPrefix : String) (lastNumber m : ℕ) :
    (nextNumbers numberingPrefix lastNumber m).length = m := by
  rw [nextNumbers, List.length_map, List.length_range]

/-- A number above the last one that is taken was taken before. -/
theorem Kept.of_taken {initial : OrdersDb} {c : Conf OrdersDb Event}
    (hkept : Kept initial c) {numberingPrefix number : String} {m : ℕ}
    (hnext : number ∈
      nextNumbers numberingPrefix (c.st.lastNumber.getD 0) m)
    (htaken : number ∈ numbers c.st)
    (hbound : ((allocations c.log + m : ℕ) : ℤ) < OBFUSCATE_SEQ_MODULUS) :
    number ∈ numbers initial := by
  rcases (hkept.orders number).mp htaken with hbefore | hinserted
  · exact hbefore
  · obtain ⟨s, hlt, hle, rfl⟩ := mem_nextNumbers hnext
    obtain ⟨-, q, t, hpos, ht, hsame⟩ := hkept.inserted _ hinserted
    have hcounted := hkept.counted
    have hmod := ((staffOrderNumber_eq_iff (by omega) (by omega)).mp hsame).2
    unfold Int.ModEq at hmod
    unfold OBFUSCATE_SEQ_MODULUS at hmod hbound
    omega

theorem inserted_notMem_attempts {db : OrdersDb} {sent : List Statement}
    {number : String} : .inserted number ∉ attempts db sent := by
  intro h
  obtain ⟨_, _, hsame⟩ := mem_attempts.mp h
  cases hsame

section Step

variable {initial db' : OrdersDb} {c : Conf OrdersDb Event} {a : Act}
  {out : List Event}

/-- A call that is rolled back leaves the orders, and what it has tried. -/
theorem Kept.rolledBack (hkept : Kept initial c) {sent : List Statement}
    {numberingPrefix : String} {m : ℕ}
    (hsent : attempted sent =
      nextNumbers numberingPrefix (c.st.lastNumber.getD 0) m)
    (hbound : ((allocations (attempts c.st sent ++ c.log) : ℕ) : ℤ) <
      OBFUSCATE_SEQ_MODULUS) :
    Kept initial ⟨c.st, attempts c.st sent ++ c.log⟩ := by
  rw [allocations_append, allocations_attempts, hsent, length_nextNumbers,
    Nat.add_comm] at hbound
  refine ⟨?_, ?_, hkept.grown, ?_, ?_⟩
  · intro number
    rw [List.mem_append, or_iff_right inserted_notMem_attempts]
    exact hkept.orders number
  · intro number h
    rw [List.mem_append, or_iff_right inserted_notMem_attempts] at h
    exact hkept.inserted number h
  · have hcounted := hkept.counted
    show c.st.lastNumber.getD 0 ≤ _ + allocations (_ ++ _)
    rw [allocations_append]
    omega
  · intro number h
    rcases List.mem_append.mp h with h | h
    · obtain ⟨number', hnext, hsame⟩ := mem_attempts.mp h
      obtain ⟨rfl, htaken⟩ := Event.attempted.inj hsame
      exact hkept.of_taken (hsent ▸ hnext) (of_decide_eq_true htaken) hbound
    · exact hkept.refused number h

/-- A call that commits adds the number where the counter stands. -/
theorem Kept.committed (hkept : Kept initial c) {number : String}
    {numberingPrefix : String} {m : ℕ} (hm : 0 < m)
    (hnumber : number =
      staffOrderNumber numberingPrefix (c.st.lastNumber.getD 0 + m))
    (hlast : db'.lastNumber = some (c.st.lastNumber.getD 0 + m))
    (hnumbers : numbers db' = numbers c.st ++ [number])
    (hfree : number ∉ numbers c.st)
    (hcounted : c.st.lastNumber.getD 0 + m ≤
      initial.lastNumber.getD 0 + allocations c.log) :
    Kept initial ⟨db', .inserted number :: c.log⟩ := by
  have hgrown := hkept.grown
  refine ⟨?_, ?_, ?_, ?_, ?_⟩
  · intro other
    show other ∈ numbers db' ↔ _
    rw [hnumbers, List.mem_append, List.mem_singleton, hkept.orders other,
      List.mem_cons, Event.inserted.injEq, or_assoc,
      or_comm (b := other = number)]
  · intro other h
    show _ ∧ ∃ q t, _ ∧ t ≤ db'.lastNumber.getD 0 ∧ _
    rw [hlast, Option.getD_some]
    rcases List.mem_cons.mp h with h | h
    · cases h
      refine ⟨fun hbefore => hfree ((hkept.orders _).mpr (Or.inl hbefore)),
        numberingPrefix, _, ?_, le_rfl, hnumber⟩
      omega
    · obtain ⟨hnew, q, t, hpos, ht, hsame⟩ := hkept.inserted other h
      exact ⟨hnew, q, t, hpos, by omega, hsame⟩
  · show _ ≤ db'.lastNumber.getD 0
    rw [hlast, Option.getD_some]
    omega
  · show db'.lastNumber.getD 0 ≤ _ + allocations (_ :: _)
    rw [hlast, Option.getD_some, allocations_inserted]
    exact hcounted
  · intro other h
    rcases List.mem_cons.mp h with h | h
    · cases h
    · exact hkept.refused other h

end Step

/-- Any run, as long as fewer numbers are allocated than the modulus is. -/
theorem kept_of_reach {initial : OrdersDb} {c : Conf OrdersDb Event}
    (h : (company initial).Reach c)
    (hbound : ((allocations c.log : ℕ) : ℤ) < OBFUSCATE_SEQ_MODULUS) :
    Kept initial c := by
  refine Machine.ReachWhen.invariant (M := company initial)
    (I := fun c => ((allocations c.log : ℕ) : ℤ) < OBFUSCATE_SEQ_MODULUS →
      Kept initial c) ?_ ?_ h hbound
  · intro _
    refine ⟨?_, ?_, le_rfl, Nat.le_add_right _ _, ?_⟩
    · intro number
      exact ⟨Or.inl, fun h => h.resolve_right List.not_mem_nil⟩
    · exact fun _ h => absurd h List.not_mem_nil
    · exact fun _ h => absurd h List.not_mem_nil
  · intro c a c' _ ih _ hnext hbound
    obtain ⟨db', out, hstep, rfl⟩ := Machine.next_eq_some.mp hnext
    obtain ⟨numberingPrefix, m, hsent, hok⟩ := createOrder_attempted a.call
      a.getCompany a.draws a.input c.st
    change step c.st a = some (db', out) at hstep
    unfold step at hstep
    dsimp only at hstep
    have hlog : allocations c.log ≤ allocations (out ++ c.log) := by
      rw [allocations_append]
      omega
    have hkept := ih (by dsimp only at hbound; omega)
    split at hstep
    · rename_i summary hresult _
      cases hstep
      obtain ⟨hnumber, hm, hlast, hnumbers, hfree⟩ := hok summary hresult
      have hcounted := hkept.counted
      refine (hkept.rolledBack hsent ?_).committed hm hnumber hlast hnumbers
        hfree ?_
      · rw [← allocations_inserted summary.orderNumber]
        exact hbound
      · show c.st.lastNumber.getD 0 + m ≤
          _ + allocations (attempts c.st _ ++ c.log)
        rw [allocations_append, allocations_attempts, hsent,
          length_nextNumbers]
        omega
    · cases hstep
      exact hkept.rolledBack hsent hbound

/-- A number tells its prefix and its sequence number up to the modulus; so,
whatever the prefixes, as long as fewer numbers are allocated than the modulus
is, a number that the allocation loop is refused is one of before, and not one
that it has inserted. -/
theorem formatStaffOrderNumber_injective :
    (∀ (p q : String) (s t : ℤ), 0 < s → 0 < t →
      (formatStaffOrderNumber p s = formatStaffOrderNumber q t ↔
        p = q ∧ s ≡ t [ZMOD 1000000007])) ∧
    ∀ (initial : OrdersDb) (c : Conf OrdersDb Event),
      (company initial).Reach c →
      ((allocations c.log : ℕ) : ℤ) < 1000000007 →
      ∀ number, .attempted number true ∈ c.log →
        number ∈ numbers initial ∧ .inserted number ∉ c.log := by
  refine ⟨fun p q s t hs ht => formatStaffOrderNumber_eq_iff hs ht, ?_⟩
  intro initial c hreach hbound number hrefused
  have hkept := kept_of_reach hreach hbound
  have hbefore := hkept.refused number hrefused
  exact ⟨hbefore, fun hinserted => (hkept.inserted number hinserted).1 hbefore⟩

/-- A company whose first number was given to an order of before. -/
def imported : OrdersDb where
  lastNumber := none
  orders :=
    [{ id := "imported", companyId := "c", orderNumber := "N5-17Z992"
       customerId := "customer", customerNameSnapshot := "Анна"
       status := .new, comment := none, totalNetMinor := 0
       totalTaxMinor := 0, totalGrossMinor := 0, currency := "UAH"
       createdVia := "ai", createdAt := 0 }]
  orderItems := []

/-- A call that creates an order. -/
def flourCall : Act where
  call := flourAt 3333
  getCompany := .ok "N5"
  draws := flourDraws
  input := flourOrder (.decimal "1.5")
  commits := true

theorem formatStaffOrderNumber_injective_imported :
    formatStaffOrderNumber "N5" 1 =
        formatStaffOrderNumber "N5" 1000000008 ∧
      ∃ c, (company imported).Reach c ∧
        .attempted "N5-17Z992" true ∈ c.log ∧
        .inserted "N5-2FY8Z7" ∈ c.log ∧
        .inserted "N5-17Z992" ∉ c.log := by
  obtain ⟨hformat, hloop⟩ := formatStaffOrderNumber_injective
  refine ⟨(hformat _ _ _ _ (by decide) (by decide)).mpr ⟨rfl, by decide⟩, ?_⟩
  obtain ⟨c, hexec, hrefused, hinserted, hbound⟩ :
      (company imported).EndsIn (fun c => .attempted "N5-17Z992" true ∈ c.log ∧
        .inserted "N5-2FY8Z7" ∈ c.log ∧
        ((allocations c.log : ℕ) : ℤ) < 1000000007) [flourCall] := by
    decide
  have hreach := Machine.reach_of_exec [flourCall] hexec
  exact ⟨c, hreach, hrefused, hinserted,
    (hloop imported c hreach hbound _ hrefused).2⟩

end Allocation

end Shozee.Orders
