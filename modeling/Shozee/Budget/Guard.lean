import Shozee.Turns.Table
import Mathlib.Data.Rat.Floor
import Mathlib.Tactic.Linarith

/-!
# The budget guard's arithmetic

What the guard of `assistant-budget-guard.ts` computes about one reservation,
and what one call of its store does to one counter. An amount is the decimal
that stands on a counter or in the limits; a record under a turn's key and the
hold on a turn's row are integers of millionths of a dollar. The stores do not
add decimals exactly, so their additions are a parameter of the model
(`Sums`).

Counters and records expire two days after the last write of them; the model
has no expiry.
-/

namespace Shozee.Budget

open Shozee.Turns

/-- `unknownModelTurnUsd` is what one turn reserves on each counter. -/
structure Limits where
  dailyBudgetUsdPerCompany : ℚ
  dailyBudgetUsdGlobal : ℚ
  unknownModelTurnUsd : ℚ
  reserve_pos : 0 < unknownModelTurnUsd
deriving DecidableEq

/-- `StaffAssistantBudgetHold` -/
structure Hold where
  companyReservedUsd : ℚ
  globalReservedUsd : ℚ
  kyivDate : Text
deriving DecidableEq

/-- `created` says that this request moved the counters, and so may give the
reservation back. -/
structure Reservation where
  hold : Hold
  created : Bool
deriving DecidableEq

/-! ## Keys

A hold is counted twice, for the company and for everybody. Both counters are
those of a Kyiv day, and the record of the hold names the same day. -/

/-- The Kyiv day's counters. -/
inductive CounterKey
  | company (companyId kyivDate : Text)
  | global (kyivDate : Text)
deriving DecidableEq, Repr

/-- `aiBudgetHoldKey`: the turn's own identity, in the one casing, and the day
of the counters. -/
structure HoldKey where
  identity : TurnIdentity
  kyivDate : Text
deriving DecidableEq, Repr

/-- The counter of the company on the day of a hold. -/
def HoldKey.companyKey (key : HoldKey) : CounterKey :=
  .company key.identity.companyId key.kyivDate

/-- The counter of all companies on that day. -/
def HoldKey.globalKey (key : HoldKey) : CounterKey := .global key.kyivDate

/-- What two amounts under this key come to on one counter. -/
def HoldKey.amountOn (key : HoldKey) (counter : CounterKey)
    (company global : ℚ) : ℚ :=
  (if counter = key.companyKey then company else 0) +
    if counter = key.globalKey then global else 0

/-- What a hold takes of a counter. -/
def Hold.on (hold : Hold) (key : HoldKey) (counter : CounterKey) : ℚ :=
  key.amountOn counter hold.companyReservedUsd hold.globalReservedUsd

/-! ## Encoding

The product and the quotient are exact here. The code's are doubles: a whole
number of millionths comes out as itself all the same, up to a billion
dollars. -/

/-- `Math.round(usd * MICRO_USD_PER_USD)` -/
def microUsd (usd : ℚ) : ℤ := ⌊usd * 1000000 + 1 / 2⌋

/-- Dollars of a stored amount. -/
def usdOfMicro (micro : ℤ) : ℚ := micro / 1000000

/-- What a record holds. -/
structure StoredHold where
  company : ℤ
  global : ℤ
deriving DecidableEq, Repr

/-- A hold as it is stored, in millionths. -/
def encodeHold (hold : Hold) : StoredHold :=
  ⟨microUsd hold.companyReservedUsd, microUsd hold.globalReservedUsd⟩

/-- A stored hold read back. Negative amounts are none. -/
def decodeHold (value : StoredHold) (kyivDate : Text) : Option Hold :=
  if value.company < 0 ∨ value.global < 0 then none
  else some ⟨usdOfMicro value.company, usdOfMicro value.global, kyivDate⟩

/-- What a stored hold takes of a counter. -/
def StoredHold.on (value : StoredHold) (key : HoldKey)
    (counter : CounterKey) : ℚ :=
  key.amountOn counter (usdOfMicro value.company) (usdOfMicro value.global)

/-- A hold as the turn's row keeps it. -/
def assistantBudgetHoldToStored (hold : Hold) : BudgetHold where
  companyReservedMicroUsd := (microUsd hold.companyReservedUsd).toNat
  globalReservedMicroUsd := (microUsd hold.globalReservedUsd).toNat
  kyivDate := hold.kyivDate

/-- The hold of a turn's row. -/
def assistantBudgetHoldFromStored (stored : BudgetHold) : Hold where
  companyReservedUsd := usdOfMicro stored.companyReservedMicroUsd
  globalReservedUsd := usdOfMicro stored.globalReservedMicroUsd
  kyivDate := stored.kyivDate

/-- The record that stands for the hold of a turn's row. -/
def recordOf (stored : BudgetHold) : StoredHold :=
  ⟨stored.companyReservedMicroUsd, stored.globalReservedMicroUsd⟩

/-- An amount that the records can hold. -/
def WholeMicro (usd : ℚ) : Prop := (usd * 1000000).den = 1

instance (usd : ℚ) : Decidable (WholeMicro usd) :=
  inferInstanceAs (Decidable (_ = _))

/-! ## Counters

A reservation is two sums: the one that `tryAdd` compares with the cap, and
the one that it leaves. They are the same number in the memory store; on Redis
the second is `INCRBYFLOAT`, which adds the texts in a longer format. What
`add` leaves is a third sum, of doubles in both. -/

/-- The additions of a budget store, on the decimals that stand on its
counters. -/
structure Sums where
  compared : ℚ → ℚ → ℚ
  incremented : ℚ → ℚ → ℚ
  added : ℚ → ℚ → ℚ

/-- What was spent is not below nothing. -/
def clampSpent (value : ℚ) : ℚ := if 0 < value then value else 0

section Counters

variable (A : Sums)

/-- `tryAdd`: the increment with a cap. -/
def tryAdd (current amountUsd capUsd : ℚ) : Option ℚ :=
  if capUsd < A.compared current amountUsd then none
  else some (clampSpent (A.incremented current amountUsd))

/-- `addBudgetDelta`: what is left on the counter, never less than zero. -/
def addBudgetDelta (current deltaUsd : ℚ) : ℚ :=
  if deltaUsd = 0 then current else clampSpent (A.added current deltaUsd)

/-- If the reservation is granted, nothing is lost to rounding. -/
def Sums.ExactGrant (current amountUsd capUsd : ℚ) : Prop :=
  A.compared current amountUsd ≤ capUsd →
    A.compared current amountUsd = current + amountUsd ∧
      A.incremented current amountUsd = current + amountUsd

/-- What is given back leaves the counter without rounding. -/
def Sums.ExactReturn (current amountUsd : ℚ) : Prop :=
  amountUsd ≠ 0 → A.added current (-amountUsd) = current - amountUsd

instance (current amountUsd capUsd : ℚ) :
    Decidable (A.ExactGrant current amountUsd capUsd) :=
  inferInstanceAs (Decidable (_ → _))

instance (current amountUsd : ℚ) :
    Decidable (A.ExactReturn current amountUsd) :=
  inferInstanceAs (Decidable (_ → _))

end Counters

/-! ### Doubles

The numbers of the memory store. A double is written as the number it is the
value of. -/

/-- `n / d` as an integer, a half to the even neighbour. -/
def roundHalfEven (n d : ℕ) : ℕ :=
  if 2 * (n % d) < d ∨ 2 * (n % d) = d ∧ n / d % 2 = 0 then n / d
  else n / d + 1

/-- The double that a decimal is read as: 53 bits, none of them below
`2 ^ -1074`. -/
def toDouble (x : ℚ) : ℚ :=
  let n := x.num.natAbs * 2 ^ 1074
  let unit := 2 ^ (Nat.log2 (n / x.den) - 52)
  mkRat (x.num.sign * (roundHalfEven n (x.den * unit) * unit : ℕ)) (2 ^ 1074)

/-- The decimal that a double prints as: the nearest of the shortest that are
read as it. Amounts are below `2 ^ 53`, so that one starts at the unit. -/
def printed (x : ℚ) : ℚ :=
  ((List.range 343).findSome? fun places =>
    let digits := ⌊x * 10 ^ places + 1 / 2⌋
    [mkRat digits (10 ^ places), mkRat (digits + 1) (10 ^ places)].find?
      fun text => toDouble text = x).getD x

/-- A sum as a store makes it: of the nearest doubles, rounded to one, and
printed. -/
def addDoubles (x y : ℚ) : ℚ := printed (toDouble (toDouble x + toDouble y))

/-- The memory store's additions. -/
def doubles : Sums := ⟨addDoubles, addDoubles, addDoubles⟩

/-! ## Facts

How the encoding and the two additions behave on amounts that are not negative.
The bounds hold for any sums; the equations only where nothing is rounded. -/

theorem wholeMicro_zero : WholeMicro 0 := by
  unfold WholeMicro
  rw [zero_mul]
  rfl

theorem wholeMicro_usdOfMicro (micro : ℤ) : WholeMicro (usdOfMicro micro) := by
  unfold WholeMicro usdOfMicro
  rw [div_mul_cancel₀ _ (by norm_num)]
  exact Rat.den_intCast micro

/-- A whole number of millionths survives the encoding. -/
theorem usdOfMicro_microUsd {usd : ℚ} (h : WholeMicro usd) :
    usdOfMicro (microUsd usd) = usd := by
  have hint : ((usd * 1000000).num : ℚ) = usd * 1000000 :=
    Rat.den_eq_one_iff _ |>.mp h
  unfold microUsd usdOfMicro
  rw [← hint, Int.floor_intCast_add]
  have hhalf : ⌊(1 / 2 : ℚ)⌋ = 0 := by norm_num
  rw [hhalf, add_zero, hint]
  exact mul_div_cancel_right₀ usd (by norm_num)

theorem microUsd_usdOfMicro (micro : ℤ) :
    microUsd (usdOfMicro micro) = micro := by
  unfold microUsd usdOfMicro
  rw [div_mul_cancel₀ _ (by norm_num), Int.floor_intCast_add]
  norm_num

theorem microUsd_nonneg {usd : ℚ} (h : 0 ≤ usd) : 0 ≤ microUsd usd := by
  unfold microUsd
  refine Int.floor_nonneg.mpr ?_
  linarith

theorem usdOfMicro_nonneg {micro : ℤ} (h : 0 ≤ micro) :
    0 ≤ usdOfMicro micro := by
  unfold usdOfMicro
  have hcast : (0 : ℚ) ≤ micro := by exact_mod_cast h
  positivity

theorem amountOn_nonneg {key : HoldKey} {counter : CounterKey}
    {company global : ℚ} (hcompany : 0 ≤ company) (hglobal : 0 ≤ global) :
    0 ≤ key.amountOn counter company global := by
  unfold HoldKey.amountOn
  refine add_nonneg ?_ ?_ <;> split <;> first | assumption | exact le_refl _

theorem companyKey_ne_globalKey (key key' : HoldKey) :
    key.companyKey ≠ key'.globalKey :=
  fun h => nomatch h

theorem amountOn_add (key : HoldKey) (counter : CounterKey)
    (company global : ℚ) : key.amountOn counter company 0 +
      key.amountOn counter 0 global = key.amountOn counter company global := by
  unfold HoldKey.amountOn
  rw [ite_self, ite_self]
  ring

theorem clampSpent_of_nonneg {value : ℚ} (h : 0 ≤ value) :
    clampSpent value = value := by
  unfold clampSpent
  split
  · rfl
  · rename_i hnot
    exact (le_antisymm (not_lt.mp hnot) h).symm

theorem clampSpent_nonneg (value : ℚ) : 0 ≤ clampSpent value := by
  unfold clampSpent
  split
  · rename_i hpos
    exact hpos.le
  · exact le_refl 0

section Sums

variable {A : Sums}

/-- A counter that is granted a reservation stays within the cap. -/
theorem tryAdd_le {current amountUsd capUsd spent : ℚ} (hcap : 0 ≤ capUsd)
    (hexact : A.ExactGrant current amountUsd capUsd)
    (h : tryAdd A current amountUsd capUsd = some spent) : spent ≤ capUsd := by
  unfold tryAdd at h
  split at h
  · cases h
  · rename_i hfits
    obtain rfl := Option.some.inj h
    obtain ⟨hcompared, hleft⟩ := hexact (not_lt.mp hfits)
    unfold clampSpent
    split
    · rw [hleft, ← hcompared]
      exact not_lt.mp hfits
    · exact hcap

theorem tryAdd_eq {current amountUsd capUsd spent : ℚ}
    (hnonneg : 0 ≤ current + amountUsd)
    (hexact : A.ExactGrant current amountUsd capUsd)
    (h : tryAdd A current amountUsd capUsd = some spent) :
    spent = current + amountUsd := by
  unfold tryAdd at h
  split at h
  · cases h
  · rename_i hfits
    obtain rfl := Option.some.inj h
    rw [(hexact (not_lt.mp hfits)).2, clampSpent_of_nonneg hnonneg]

/-- A counter that has what is given back loses exactly that. -/
theorem addBudgetDelta_eq {current amount : ℚ}
    (hexact : A.ExactReturn current amount) (h : amount ≤ current) :
    addBudgetDelta A current (-amount) = current - amount := by
  unfold addBudgetDelta
  split
  · rename_i hzero
    rw [neg_eq_zero.mp hzero, sub_zero]
  · rename_i hmoved
    rw [hexact (mt neg_eq_zero.mpr hmoved)]
    exact clampSpent_of_nonneg (by linarith)

theorem addBudgetDelta_le {current amount bound : ℚ} (hamount : 0 ≤ amount)
    (hexact : A.ExactReturn current amount) (hbound : 0 ≤ bound)
    (h : current ≤ bound) : addBudgetDelta A current (-amount) ≤ bound := by
  unfold addBudgetDelta
  split
  · exact h
  · rename_i hmoved
    rw [hexact (mt neg_eq_zero.mpr hmoved)]
    unfold clampSpent
    split
    · linarith
    · exact hbound

end Sums

end Shozee.Budget
