import Mathlib.Data.List.MinMax
import Shozee.RateLimit.Agreement

/-!
# How many requests a bucket lets through

One key with one limit and one window, and requests that are served with any
readings of the clock. A bucket keeps the reading of its last request, and what
it gives back is the time that has gone by since, at the rate of the limit per
window. Let a token be worth one request and the kept reading what it would
have given back: this potential pays for every request that is let through, as
long as no reading is behind the one that is kept and no bucket is dropped
before it has had the time to fill. So a stretch lets through what its bucket
held and what the clock gave back.

A reading behind the one that is kept gives nothing back, and is kept all the
same: the clock that comes after it gives the same time back once more
(`clock_stepped_back`). What a denial hints at holds with any readings.
-/

namespace Shozee.RateLimit

open Shozee.Run

/-- A reading of the clock by the process that serves a request, and the time
of the Redis server beside it. -/
structure Reading where
  nowMs : ℚ
  serverMs : ℚ
deriving DecidableEq, Repr

/-- How many requests are let through. -/
def allowedIn (decisions : List (Option RateLimitDecision)) : ℕ :=
  decisions.count (some .allowed)

/-- The seconds between the latest and the earliest reading. -/
def spreadSec : List ℚ → ℚ
  | [] => 0
  | reading :: rest =>
      (rest.foldr max reading - rest.foldr min reading) / 1000

section OneKey

variable (key : String) (limit windowSec : ℚ)

/-- The request at a time. -/
def requestAt (nowMs : ℚ) : TimedRequest := ⟨⟨key, limit, windowSec⟩, nowMs⟩

/-! ## The two stores on one key

Each store restricted to one bucket, and the bound that it is to meet. -/

/-- One bucket of the store in the process. -/
def memoryBucket : Transducer (String → Option BucketState) Reading
    (Option RateLimitDecision) where
  init := inMemoryStore.init
  step buckets reading :=
    let (buckets', served) :=
      inMemoryStore.step buckets (requestAt key limit windowSec reading.nowMs)
    (buckets', served.decision)

/-- One bucket of the store in Redis. -/
def redisBucket :
    Transducer Keyspace Reading (Option RateLimitDecision) where
  init := sharedRedisStore.init
  step keyspace reading := sharedRedisStore.step keyspace
    ⟨requestAt key limit windowSec reading.nowMs, reading.serverMs⟩

/-- No reading is behind the one before it. -/
def NeverBehind (readings : List Reading) : Prop :=
  readings.IsChain fun before reading => before.nowMs ≤ reading.nowMs

/-- No reading is behind the one before it, and a key that Redis has let expire
is used again with a reading that is a window ahead. -/
def InStep (readings : List Reading) : Prop :=
  readings.IsChain fun (before reading : Reading) =>
    before.nowMs ≤ reading.nowMs ∧
      (before.serverMs + (⌈windowSec * 2⌉ : ℚ) * 1000 < reading.serverMs →
        before.nowMs + windowSec * 1000 ≤ reading.nowMs)

/-- What a store lets through is the limit and what the time gives back. -/
def Bounded (stretch : List Reading)
    (decisions : List (Option RateLimitDecision)) : Prop :=
  (allowedIn decisions : ℚ) ≤
    limit + spreadSec (stretch.map Reading.nowMs) * limit / windowSec

/-! ## A store that keeps a bucket

What the two have in common: a request finds what the last one left, and what
has been given back since. -/

variable {σ : Type*}

/-- A store of one bucket: `held` is what it has kept, and `found` what a
request finds of it. -/
structure KeepsBucket (T : Transducer σ Reading (Option RateLimitDecision))
    (held : σ → Option BucketState)
    (found : σ → Reading → Option BucketState) : Prop where
  held_init : held T.init = none
  found_held : ∀ s reading, ∀ state ∈ found s reading, state ∈ held s
  decision : ∀ s reading, (T.step s reading).2 =
    some (decisionOn
      (refilled (found s reading) (requestAt key limit windowSec reading.nowMs))
      (requestAt key limit windowSec reading.nowMs))
  kept : ∀ s reading, held (T.step s reading).1 = some
    ⟨tokensLeft (refilled (found s reading)
      (requestAt key limit windowSec reading.nowMs)), reading.nowMs⟩

/-- Each request finds its bucket behind it, and if it finds none, then one
that has had the time to fill. -/
def InTime (T : Transducer σ Reading (Option RateLimitDecision))
    (held : σ → Option BucketState)
    (found : σ → Reading → Option BucketState) : List Reading → σ → Prop
  | [], _ => True
  | reading :: rest, s =>
      (∀ state ∈ held s, state.updatedAtMs ≤ reading.nowMs ∧
        (found s reading = none →
          state.updatedAtMs + windowSec * 1000 ≤ reading.nowMs)) ∧
        InTime T held found rest (T.step s reading).1

/-- What a bucket holds, less what its reading would have given back. -/
def potential (state : BucketState) : ℚ :=
  state.tokens - state.updatedAtMs / 1000 * (limit / windowSec)

/-- An allowed request costs one token. -/
def cost (decision : Option RateLimitDecision) : ℚ :=
  if decision = some .allowed then 1 else 0

end OneKey

theorem sum_cost (decisions : List (Option RateLimitDecision)) :
    (decisions.map cost).sum = allowedIn decisions := by
  induction decisions with
  | nil => rfl
  | cons decision rest ih =>
      unfold allowedIn at ih ⊢
      rw [List.map_cons, List.sum_cons, ih, List.count_cons]
      by_cases hallowed : decision = some .allowed
      · rw [cost, if_pos hallowed, if_pos (by simpa using hallowed)]
        push_cast
        ring
      · rw [cost, if_neg hallowed, if_neg (by simpa using hallowed)]
        push_cast
        ring

/-- A request takes the token that it is let through for. -/
theorem cost_add_tokensLeft (tokens : ℚ) (request : TimedRequest) :
    cost (some (decisionOn tokens request)) + tokensLeft tokens = tokens := by
  unfold cost decisionOn tokensLeft
  by_cases hlow : tokens < 1
  · rw [if_pos hlow, if_pos hlow, if_neg (by simp), zero_add]
  · rw [if_neg hlow, if_neg hlow, if_pos rfl]
    ring

section Bound

variable {key : String} {limit windowSec : ℚ}

theorem refilled_le_limit {bucket : Option BucketState} {nowMs : ℚ} :
    refilled bucket (requestAt key limit windowSec nowMs) ≤ limit :=
  min_le_left _ _

/-- What a bucket gives back is the time that went by. -/
theorem refilled_le (key : String) {state : BucketState} {nowMs : ℚ}
    (hle : state.updatedAtMs ≤ nowMs) :
    refilled (some state) (requestAt key limit windowSec nowMs) ≤
      state.tokens +
        (nowMs - state.updatedAtMs) / 1000 * (limit / windowSec) := by
  refine (min_le_right _ _).trans (le_of_eq ?_)
  show state.tokens + max 0 (nowMs - state.updatedAtMs) / 1000 *
    (limit / windowSec) = _
  rw [max_eq_right (sub_nonneg.mpr hle)]

/-- A full bucket is no more than what a window gives back. -/
theorem limit_le_refill (key : String) {state : BucketState} {nowMs : ℚ}
    (hlimit : 0 < limit) (hwindow : 0 < windowSec) (htokens : 0 ≤ state.tokens)
    (hidle : state.updatedAtMs + windowSec * 1000 ≤ nowMs) :
    limit ≤ state.tokens +
      (nowMs - state.updatedAtMs) / 1000 * (limit / windowSec) := by
  have hfull : refilled (some state) (requestAt key limit windowSec nowMs) =
      limit := refilled_full hlimit hwindow htokens hidle
  have hle : state.updatedAtMs ≤ nowMs := by linarith
  calc limit
      = refilled (some state) (requestAt key limit windowSec nowMs) :=
        hfull.symm
    _ ≤ _ := refilled_le key hle

/-! ## The bound

The potential is never negative and pays for each request, so at most the limit
and what was given back is let through. -/

section Store

variable {σ : Type*} {T : Transducer σ Reading (Option RateLimitDecision)}
  {held : σ → Option BucketState} {found : σ → Reading → Option BucketState}

/-- The bucket is never in debt. -/
def Solvent (held : σ → Option BucketState) (s : σ) : Prop :=
  ∀ state ∈ held s, 0 ≤ state.tokens

theorem KeepsBucket.refilled_nonneg
    (hT : KeepsBucket key limit windowSec T held found)
    (hlimit : 0 < limit) (hwindow : 0 < windowSec) {s : σ}
    (hs : Solvent held s) (reading : Reading) :
    0 ≤ refilled (found s reading)
      (requestAt key limit windowSec reading.nowMs) :=
  RateLimit.refilled_nonneg hlimit hwindow fun state hstate =>
    hs state (hT.found_held s reading state hstate)

theorem KeepsBucket.solvent_step
    (hT : KeepsBucket key limit windowSec T held found)
    (hlimit : 0 < limit) (hwindow : 0 < windowSec) {s : σ}
    (hs : Solvent held s) (reading : Reading) :
    Solvent held (T.step s reading).1 := by
  intro state hstate
  rw [hT.kept, Option.mem_some_iff] at hstate
  rw [← hstate]
  exact tokensLeft_nonneg (hT.refilled_nonneg hlimit hwindow hs reading)

/-- The potential of the bucket that a store holds. -/
def heldPotential (limit windowSec : ℚ) (held : σ → Option BucketState)
    (s : σ) : ℚ :=
  (held s).elim 0 (potential limit windowSec)

/-- What a request takes and leaves is what it found, however it was found. -/
theorem KeepsBucket.cost_add_potential
    (hT : KeepsBucket key limit windowSec T held found) (s : σ)
    (reading : Reading) :
    cost (T.step s reading).2 +
        heldPotential limit windowSec held (T.step s reading).1 =
      refilled (found s reading)
          (requestAt key limit windowSec reading.nowMs) -
        reading.nowMs / 1000 * (limit / windowSec) := by
  rw [heldPotential, hT.kept, hT.decision, Option.elim_some, potential]
  have hspent := cost_add_tokensLeft
    (refilled (found s reading) (requestAt key limit windowSec reading.nowMs))
    (requestAt key limit windowSec reading.nowMs)
  linarith

/-- The potential pays for a request. -/
theorem KeepsBucket.paid_step
    (hT : KeepsBucket key limit windowSec T held found)
    (hlimit : 0 < limit) (hwindow : 0 < windowSec) {s : σ}
    (hs : Solvent held s) {reading : Reading} {rest : List Reading}
    (hsome : (held s).isSome)
    (htime : InTime windowSec T held found (reading :: rest) s) :
    cost (T.step s reading).2 +
        heldPotential limit windowSec held (T.step s reading).1 ≤
      heldPotential limit windowSec held s := by
  obtain ⟨state, hstate⟩ := Option.isSome_iff_exists.mp hsome
  obtain ⟨hle, hgone⟩ := htime.1 state hstate
  rw [hT.cost_add_potential, heldPotential, hstate, Option.elim_some,
    potential]
  have hrefilled : refilled (found s reading)
      (requestAt key limit windowSec reading.nowMs) ≤ state.tokens +
        (reading.nowMs - state.updatedAtMs) / 1000 * (limit / windowSec) := by
    cases hfound : found s reading with
    | none =>
        exact refilled_le_limit.trans (limit_le_refill key hlimit hwindow
          (hs state hstate) (hgone hfound))
    | some state' =>
        have hmem := hT.found_held s reading state' hfound
        rw [hstate, Option.mem_some_iff] at hmem
        rw [← hmem]
        exact refilled_le key hle
  linarith

/-- What the bucket holds at the end of a list of requests. -/
theorem KeepsBucket.held_stateFrom
    (hT : KeepsBucket key limit windowSec T held found) (s : σ)
    (reading : Reading) (rest : List Reading) :
    ∃ tokens, held (T.stateFrom s (reading :: rest)) =
      some ⟨tokens, ((reading :: rest).getLast (by simp)).nowMs⟩ := by
  induction rest generalizing s reading with
  | nil => exact ⟨_, hT.kept s reading⟩
  | cons next rest ih =>
      obtain ⟨tokens, htokens⟩ := ih (T.step s reading).1 next
      exact ⟨tokens, by rw [List.getLast_cons (by simp)]; exact htokens⟩

theorem InTime.drop {before more : List Reading} {s : σ}
    (h : InTime windowSec T held found (before ++ more) s) :
    InTime windowSec T held found more (T.stateFrom s before) :=
  T.stateFrom_kept (P := InTime windowSec T held found)
    (fun _ _ _ h => h.2) before more s h

theorem InTime.take {stretch after : List Reading} {s : σ}
    (h : InTime windowSec T held found (stretch ++ after) s) :
    InTime windowSec T held found stretch s := by
  induction stretch generalizing s with
  | nil => trivial
  | cons reading rest ih => exact ⟨h.1, ih h.2⟩

theorem last_sub_first_le_spread (reading : Reading) (rest : List Reading) :
    (((reading :: rest).getLast (by simp)).nowMs - reading.nowMs) / 1000 ≤
      spreadSec ((reading :: rest).map Reading.nowMs) := by
  have hbounds : ∀ r ∈ reading :: rest,
      r.nowMs ≤ (rest.map Reading.nowMs).foldr max reading.nowMs ∧
        (rest.map Reading.nowMs).foldr min reading.nowMs ≤ r.nowMs := by
    intro r hr
    have hself : ∀ l : List ℚ, reading.nowMs ≤ l.foldr max reading.nowMs ∧
        l.foldr min reading.nowMs ≤ reading.nowMs := by
      intro l
      induction l with
      | nil => exact ⟨le_refl _, le_refl _⟩
      | cons q l ih => exact ⟨le_max_of_le_right ih.1, min_le_of_right_le ih.2⟩
    rcases List.mem_cons.mp hr with rfl | hr
    · exact hself _
    · have hmem := List.mem_map_of_mem (f := Reading.nowMs) hr
      exact ⟨List.le_max_of_le' _ hmem (le_refl _),
        List.min_le_of_le' _ hmem (le_refl _)⟩
  have hlast := (hbounds _ (List.getLast_mem (by simp))).1
  have hfirst := (hbounds reading List.mem_cons_self).2
  show _ ≤ (_ - _) / 1000
  gcongr

/-- A stretch, from any bucket that is not in debt: its first request finds no
more than the limit, and the potential pays for the others. -/
theorem KeepsBucket.bounded_from
    (hT : KeepsBucket key limit windowSec T held found)
    (hlimit : 0 < limit) (hwindow : 0 < windowSec) {s : σ}
    (hs : Solvent held s) {stretch : List Reading}
    (htime : InTime windowSec T held found stretch s) :
    Bounded limit windowSec stretch (T.answersFrom s stretch) := by
  cases stretch with
  | nil =>
      simp only [Bounded, Transducer.answersFrom, allowedIn, List.count_nil,
        List.map_nil, spreadSec, zero_mul, zero_div, add_zero, Nat.cast_zero]
      exact hlimit.le
  | cons reading rest =>
      have hfirst := hT.cost_add_potential s reading
      have hfull : refilled (found s reading)
          (requestAt key limit windowSec reading.nowMs) ≤ limit :=
        refilled_le_limit
      have hpaid := T.sum_cost_add_potential_le cost
        (heldPotential limit windowSec held)
        (P := fun inputs s => Solvent held s ∧ (held s).isSome ∧
          InTime windowSec T held found inputs s)
        (fun reading rest s h =>
          ⟨hT.paid_step hlimit hwindow h.1 h.2.1 h.2.2,
            hT.solvent_step hlimit hwindow h.1 reading,
            by rw [hT.kept]; rfl, h.2.2.2⟩)
        rest (T.step s reading).1
        ⟨hT.solvent_step hlimit hwindow hs reading,
          by rw [hT.kept]; rfl, htime.2⟩
      have hlast : -((((reading :: rest).getLast (by simp)).nowMs / 1000) *
          (limit / windowSec)) ≤ heldPotential limit windowSec held
            (T.stateFrom (T.step s reading).1 rest) := by
        obtain ⟨tokens, hheld⟩ := hT.held_stateFrom s reading rest
        have hsolvent := T.stateFrom_kept
          (P := fun _ => Solvent held)
          (fun reading _ _ h => hT.solvent_step hlimit hwindow h reading)
          (reading :: rest) [] s hs
        have htokens : 0 ≤ tokens := hsolvent _ hheld
        show _ ≤ heldPotential limit windowSec held
          (T.stateFrom s (reading :: rest))
        rw [heldPotential, hheld, Option.elim_some, potential]
        linarith
      have hspread := mul_le_mul_of_nonneg_right
        (last_sub_first_le_spread reading rest) (div_pos hlimit hwindow).le
      rw [sum_cost] at hpaid
      have hcount : (allowedIn (T.answersFrom s (reading :: rest)) : ℚ) =
          cost (T.step s reading).2 +
            allowedIn (T.answersFrom (T.step s reading).1 rest) := by
        rw [← sum_cost, ← sum_cost]
        rfl
      rw [Bounded, hcount, mul_div_assoc]
      rw [sub_div, sub_mul] at hspread
      linarith

/-- Any stretch of a run. -/
theorem KeepsBucket.bounded
    (hT : KeepsBucket key limit windowSec T held found)
    (hlimit : 0 < limit) (hwindow : 0 < windowSec)
    {before stretch after : List Reading}
    (htime : InTime windowSec T held found (before ++ stretch ++ after)
      T.init) :
    Bounded limit windowSec stretch
      (((T.answers (before ++ stretch ++ after)).drop before.length).take
        stretch.length) := by
  rw [T.answers_stretch]
  rw [List.append_assoc] at htime
  refine hT.bounded_from hlimit hwindow ?_ htime.drop.take
  refine T.stateFrom_kept (P := fun _ => Solvent held)
    (fun reading _ _ h => hT.solvent_step hlimit hwindow h reading)
    before [] T.init ?_
  intro state hstate
  rw [hT.held_init] at hstate
  cases hstate

/-! ## What a denial hints at

After the time that a denial names there is a token, if nobody else has taken
it. -/

/-- The time that a denial names gives the missing part of a token back. -/
theorem refilled_after {tokens nowMs : ℚ} {retryAfterSec : ℤ}
    (hlimit : 1 ≤ limit) (hwindow : 0 < windowSec)
    (hretry : (1 - tokens) * (windowSec / limit) ≤ retryAfterSec)
    (hpos : 0 ≤ retryAfterSec) :
    1 ≤ refilled (some ⟨tokens, nowMs⟩)
      (requestAt key limit windowSec (nowMs + retryAfterSec * 1000)) := by
  have hlimit' : 0 < limit := lt_of_lt_of_le one_pos hlimit
  refine le_min hlimit ?_
  show 1 ≤ tokens + max 0 (nowMs + retryAfterSec * 1000 - nowMs) / 1000 *
    (limit / windowSec)
  have hretryAfter : (0 : ℚ) ≤ retryAfterSec := by exact_mod_cast hpos
  have helapsed : max 0 (nowMs + retryAfterSec * 1000 - nowMs) / 1000 =
      (retryAfterSec : ℚ) := by
    rw [add_sub_cancel_left, max_eq_right (by linarith)]
    ring
  have hmissing : 1 - tokens ≤ retryAfterSec * (limit / windowSec) :=
    calc 1 - tokens
        = (1 - tokens) * (windowSec / limit) * (limit / windowSec) := by
          field_simp
      _ ≤ _ := mul_le_mul_of_nonneg_right hretry (div_pos hlimit' hwindow).le
  rw [helapsed]
  linarith

theorem KeepsBucket.allowed_again
    (hT : KeepsBucket key limit windowSec T held found)
    (hlimit : 1 ≤ limit) (hwindow : 0 < windowSec) {s : σ} {reading : Reading}
    {retryAfterSec : ℤ} {serverMs : ℚ}
    (hdenied : (T.step s reading).2 = some (.denied retryAfterSec)) :
    (T.step (T.step s reading).1
      ⟨reading.nowMs + retryAfterSec * 1000, serverMs⟩).2 = some .allowed := by
  obtain ⟨tokens, htokens⟩ : ∃ tokens, refilled (found s reading)
      (requestAt key limit windowSec reading.nowMs) = tokens := ⟨_, rfl⟩
  obtain ⟨later, hlater⟩ : ∃ later : Reading,
      later = ⟨reading.nowMs + retryAfterSec * 1000, serverMs⟩ := ⟨_, rfl⟩
  have hkept := hT.kept s reading
  rw [hT.decision, htokens, Option.some.injEq, decisionOn] at hdenied
  rw [htokens, tokensLeft] at hkept
  by_cases hlow : tokens < 1
  · rw [if_pos hlow] at hdenied hkept
    have hretry : max 1 ⌈(1 - tokens) * (windowSec / limit)⌉ =
        retryAfterSec := RateLimitDecision.denied.inj hdenied
    have henough : 1 ≤ refilled (found (T.step s reading).1 later)
        (requestAt key limit windowSec later.nowMs) := by
      cases hfound : found (T.step s reading).1 later with
      | none =>
          rw [refilled_none]
          exact hlimit
      | some state =>
          have hmem := hT.found_held _ later state hfound
          rw [hkept, Option.mem_some_iff] at hmem
          rw [← hmem, hlater]
          refine refilled_after hlimit hwindow ?_ ?_
          · rw [← hretry]
            exact (Int.le_ceil _).trans (by exact_mod_cast le_max_right _ _)
          · rw [← hretry]
            exact le_max_of_le_left Int.one_nonneg
    rw [← hlater, hT.decision, decisionOn, if_neg (not_lt.mpr henough)]
  · rw [if_neg hlow] at hdenied
    cases hdenied

/-- A run that ends in a denial, and one more request. -/
theorem KeepsBucket.retried
    (hT : KeepsBucket key limit windowSec T held found)
    (hlimit : 1 ≤ limit) (hwindow : 0 < windowSec) {before : List Reading}
    {reading : Reading} {retryAfterSec : ℤ} {serverMs : ℚ}
    (hdenied : (T.answers (before ++ [reading])).getLast? =
      some (some (.denied retryAfterSec))) :
    (T.answers (before ++ [reading,
      ⟨reading.nowMs + retryAfterSec * 1000, serverMs⟩])).getLast? =
        some (some .allowed) := by
  unfold Transducer.answers at hdenied ⊢
  rw [T.answersFrom_append, List.getLast?_append] at hdenied ⊢
  simp only [Transducer.answersFrom, List.getLast?_singleton,
    List.getLast?_cons_cons, Option.some_or, Option.some.injEq] at hdenied ⊢
  exact hT.allowed_again hlimit hwindow hdenied

/-- What one request leaves to the next is enough for all of them. -/
theorem KeepsBucket.inTime_of_chain
    (hT : KeepsBucket key limit windowSec T held found)
    {R : Reading → Reading → Prop}
    (hR : ∀ s before reading, R before reading →
      ∀ state ∈ held (T.step s before).1, state.updatedAtMs ≤ reading.nowMs ∧
        (found (T.step s before).1 reading = none →
          state.updatedAtMs + windowSec * 1000 ≤ reading.nowMs))
    {readings : List Reading} (hchain : readings.IsChain R) :
    InTime windowSec T held found readings T.init := by
  have hfrom : ∀ before readings s, (before :: readings).IsChain R →
      InTime windowSec T held found readings (T.step s before).1 := by
    intro before readings
    induction readings generalizing before with
    | nil => exact fun _ _ => trivial
    | cons reading rest ih =>
        intro s h
        obtain ⟨hnext, hrest⟩ := List.isChain_cons_cons.mp h
        exact ⟨hR s before reading hnext, ih reading _ hrest⟩
  cases readings with
  | nil => trivial
  | cons reading rest =>
      refine ⟨fun state hstate => ?_, hfrom reading rest _ hchain⟩
      rw [hT.held_init] at hstate
      cases hstate

end Store

/-! ## The stores keep a bucket

Both are instances, as long as readings do not go back and the key does not
expire early. -/

theorem memoryBucket_keeps :
    KeepsBucket key limit windowSec (memoryBucket key limit windowSec)
      (fun buckets => buckets key) (fun buckets _ => buckets key) where
  held_init := rfl
  found_held _ _ _ hstate := hstate
  decision buckets reading := by
    simp only [memoryBucket, inMemoryStore_step]
    rfl
  kept buckets reading := by
    simp only [memoryBucket, inMemoryStore_step]
    exact Function.update_self _ _ _

theorem redisBucket_keeps (hwindow : 0 < windowSec) :
    KeepsBucket key limit windowSec (redisBucket key limit windowSec)
      (fun keyspace => (keyspace key).map RedisBucket.state)
      (fun keyspace reading =>
        (keyspace.live key reading.serverMs).map RedisBucket.state) where
  held_init := rfl
  found_held keyspace reading state hstate := by
    obtain ⟨bucket, hlive, hbucket⟩ := Option.map_eq_some_iff.mp hstate
    exact Option.map_eq_some_iff.mpr
      ⟨bucket, (Option.filter_eq_some_iff.mp hlive).1, hbucket⟩
  decision keyspace reading := by
    simp only [redisBucket, sharedRedisStore, tokenBucketLua_eq, parse_reply]
    rfl
  kept keyspace reading := by
    have httl : ¬ ⌈windowSec * 2⌉ ≤ 0 := by
      rw [not_le, Int.ceil_pos]
      linarith
    simp only [redisBucket, sharedRedisStore, tokenBucketLua_eq, requestAt,
      Keyspace.store, if_neg httl, Function.update_self, Option.map_some]
    rfl

theorem memoryBucket_inTime {readings : List Reading}
    (h : NeverBehind readings) :
    InTime windowSec (memoryBucket key limit windowSec)
      (fun buckets => buckets key) (fun buckets _ => buckets key) readings
      (memoryBucket key limit windowSec).init := by
  refine memoryBucket_keeps.inTime_of_chain ?_ h
  intro buckets before reading hnext state hstate
  have hkept := (@memoryBucket_keeps key limit windowSec).kept buckets before
  rw [hkept, Option.mem_some_iff] at hstate
  rw [← hstate]
  refine ⟨hnext, fun hgone => ?_⟩
  rw [hkept] at hgone
  cases hgone

theorem redisBucket_inTime (hwindow : 0 < windowSec) {readings : List Reading}
    (h : InStep windowSec readings) :
    InTime windowSec (redisBucket key limit windowSec)
      (fun keyspace => (keyspace key).map RedisBucket.state)
      (fun keyspace reading =>
        (keyspace.live key reading.serverMs).map RedisBucket.state) readings
      (redisBucket key limit windowSec).init := by
  have hkeeps := @redisBucket_keeps key limit windowSec hwindow
  refine hkeeps.inTime_of_chain ?_ h
  intro keyspace before reading hnext state hstate
  have hkept := hkeeps.kept keyspace before
  rw [hkept, Option.mem_some_iff] at hstate
  rw [← hstate]
  refine ⟨hnext.1, fun hgone => hnext.2 ?_⟩
  obtain ⟨bucket, hbucket, hexpires⟩ : ∃ bucket,
      ((redisBucket key limit windowSec).step keyspace before).1 key =
        some bucket ∧
      bucket.expiresAtMs = before.serverMs +
        (⌈windowSec * 2⌉ : ℚ) * 1000 := by
    have httl : ¬ ⌈windowSec * 2⌉ ≤ 0 := by
      rw [not_le, Int.ceil_pos]
      linarith
    simp only [redisBucket, sharedRedisStore, tokenBucketLua_eq, requestAt,
      Keyspace.store, if_neg httl, Function.update_self]
    exact ⟨_, rfl, rfl⟩
  rw [Option.map_eq_none_iff, Keyspace.live, hbucket, Option.filter_some]
    at hgone
  by_contra hlive
  rw [not_lt, ← hexpires] at hlive
  rw [if_pos (by simpa using hlive)] at hgone
  cases hgone

end Bound

/-! ## The bound in both stores

The bound for readings in step, and two runs whose readings are not. -/

/-- With a limit and a window of at least one, and a clock that no request
reads behind the one before it, either store lets through in any stretch of a
run no more than the limit and what the time of the stretch gives back; in
Redis a key that has expired must be used again a window later. A denied
request is let through after the time it was told, whatever the clock says. -/
theorem bounded_in_step (key : String) {limit windowSec : ℚ}
    (hlimit : 1 ≤ limit) (hwindow : 1 ≤ windowSec) :
    (∀ before stretch after : List Reading,
      NeverBehind (before ++ stretch ++ after) →
        Bounded limit windowSec stretch
          ((((memoryBucket key limit windowSec).answers
            (before ++ stretch ++ after)).drop before.length).take
              stretch.length)) ∧
      (∀ before stretch after : List Reading,
        InStep windowSec (before ++ stretch ++ after) →
          Bounded limit windowSec stretch
            ((((redisBucket key limit windowSec).answers
              (before ++ stretch ++ after)).drop before.length).take
                stretch.length)) ∧
      ∀ (before : List Reading) (reading : Reading) (retryAfterSec : ℤ)
        (serverMs : ℚ),
        (((memoryBucket key limit windowSec).answers
            (before ++ [reading])).getLast? =
              some (some (.denied retryAfterSec)) →
          ((memoryBucket key limit windowSec).answers (before ++ [reading,
            ⟨reading.nowMs + retryAfterSec * 1000, serverMs⟩])).getLast? =
              some (some .allowed)) ∧
        (((redisBucket key limit windowSec).answers
            (before ++ [reading])).getLast? =
              some (some (.denied retryAfterSec)) →
          ((redisBucket key limit windowSec).answers (before ++ [reading,
            ⟨reading.nowMs + retryAfterSec * 1000, serverMs⟩])).getLast? =
              some (some .allowed)) := by
  have hlimit' : 0 < limit := lt_of_lt_of_le one_pos hlimit
  have hwindow' : 0 < windowSec := lt_of_lt_of_le one_pos hwindow
  refine ⟨fun before stretch after h => ?_, fun before stretch after h => ?_,
    fun before reading retryAfterSec serverMs => ⟨fun h => ?_, fun h => ?_⟩⟩
  · exact memoryBucket_keeps.bounded hlimit' hwindow' (memoryBucket_inTime h)
  · exact (redisBucket_keeps hwindow').bounded hlimit' hwindow'
      (redisBucket_inTime hwindow' h)
  · exact memoryBucket_keeps.retried hlimit hwindow' h
  · exact (redisBucket_keeps hwindow').retried hlimit hwindow' h

/-- Three requests on a bucket of one, a denial among them, and the one that
comes after it. -/
def spaced : List Reading :=
  [⟨0, 0⟩, ⟨4000, 4000⟩, ⟨10000, 10000⟩]

theorem bounded_in_step_spaced :
    Bounded 1 10 spaced
        ((redisBucket "rl:orders.create:user:u1" 1 10).answers spaced) ∧
      (redisBucket "rl:orders.create:user:u1" 1 10).answers spaced =
        [some .allowed, some (.denied 6), some .allowed] ∧
      ((redisBucket "rl:orders.create:user:u1" 1 10).answers ([⟨0, 0⟩] ++
        [⟨4000, 4000⟩, ⟨4000 + (6 : ℤ) * 1000, 10000⟩])).getLast? =
          some (some .allowed) := by
  obtain ⟨-, hredis, hretry⟩ := @bounded_in_step "rl:orders.create:user:u1" 1 10
    (le_refl 1) (by norm_num)
  have hinStep : InStep 10 spaced := by
    unfold InStep spaced
    refine .cons_cons ?_ (.cons_cons ?_ (.singleton _)) <;> norm_num
  have hdenied : (redisBucket "rl:orders.create:user:u1" 1 10).answers
      [⟨0, 0⟩, ⟨4000, 4000⟩] = [some .allowed, some (.denied 6)] := by
    decide +kernel
  have hallowed := (hretry [⟨0, 0⟩] ⟨4000, 4000⟩ 6 10000).2 (by
    rw [List.cons_append, List.nil_append, hdenied]
    rfl)
  refine ⟨?_, by decide +kernel, hallowed⟩
  have hbound := hredis [] spaced [] (by simpa using hinStep)
  have hlength : ((redisBucket "rl:orders.create:user:u1" 1 10).answers
      spaced).length = spaced.length := Transducer.length_answersFrom _ _ _
  simpa [← hlength] using hbound

/-- Two processes, one ten seconds behind the other, share a bucket of one. -/
def steppedBack : List Reading :=
  [⟨10000, 0⟩, ⟨0, 0⟩, ⟨10000, 0⟩, ⟨0, 0⟩, ⟨10000, 0⟩]

/-- Two processes, one twenty-five seconds behind the other: Redis has let the
key expire in a time that their readings do not show. -/
def expiredEarly : List Reading :=
  [⟨25000, 0⟩, ⟨25000, 25000⟩]

theorem clock_stepped_back :
    (¬ Bounded 1 10 steppedBack
        ((memoryBucket "rl:orders.create:user:u1" 1 10).answers
          steppedBack)) ∧
      (¬ Bounded 1 10 steppedBack
        ((redisBucket "rl:orders.create:user:u1" 1 10).answers
          steppedBack)) ∧
      ¬ Bounded 1 10 expiredEarly
        ((redisBucket "rl:orders.create:user:u1" 1 10).answers
          expiredEarly) := by
  unfold Bounded
  decide +kernel

end Shozee.RateLimit
