import Mathlib.Algebra.Order.Field.Basic
import Mathlib.Data.List.Pairwise
import Mathlib.Tactic.FieldSimp
import Mathlib.Tactic.Linarith
import Shozee.RateLimit.TokenBucket

/-!
# The two stores serve alike

A Redis key expires no sooner than a whole window of the request that comes
next after its last one, and by then the bucket in memory is full again, as is
the one that Redis starts anew. So it does not matter when a key goes.

That takes a next request whose window is not longer than the time to live the
last one left. Every caller fixes the window of a key, and twice a window is
longer than the window.
-/

namespace Shozee.RateLimit

open Shozee.Run

/-! ## Both stores, in the same words

One decision on the tokens that a bucket has when the request comes. -/

/-- What a bucket holds when a request comes, before a token is taken. -/
def refilled (bucket : Option BucketState) (request : TimedRequest) : ℚ :=
  let state := bucket.getD ⟨request.limit, request.nowMs⟩
  min request.limit (state.tokens +
    max 0 (request.nowMs - state.updatedAtMs) / 1000 *
      (request.limit / request.windowSec))

/-- The tokens that a request leaves. -/
def tokensLeft (tokens : ℚ) : ℚ :=
  if tokens < 1 then tokens else tokens - 1

/-- The decision on a bucket that has been refilled. -/
def decisionOn (tokens : ℚ) (request : TimedRequest) : RateLimitDecision :=
  if tokens < 1 then
    .denied (max 1 ⌈(1 - tokens) * (request.windowSec / request.limit)⌉)
  else .allowed

/-- A stored bucket without its expiry. -/
def RedisBucket.state (bucket : RedisBucket) : BucketState :=
  ⟨bucket.tokens, bucket.updatedAtMs⟩

theorem consume_eq (buckets : String → Option BucketState)
    (request : TimedRequest) :
    consume buckets request =
      (Function.update buckets request.key (some
        ⟨tokensLeft (refilled (buckets request.key) request),
          request.nowMs⟩),
        decisionOn (refilled (buckets request.key) request) request) := by
  obtain ⟨tokens, htokens⟩ : ∃ tokens,
      refilled (buckets request.key) request = tokens := ⟨_, rfl⟩
  have hread := htokens
  simp only [refilled] at hread
  simp only [consume, hread, htokens, tokensLeft, decisionOn]
  by_cases hlow : tokens < 1
  · simp only [if_pos hlow]
  · simp only [if_neg hlow]

theorem inMemoryStore_step (buckets : String → Option BucketState)
    (request : TimedRequest) :
    inMemoryStore.step buckets request =
      (Function.update buckets request.key (some
        ⟨tokensLeft (refilled (buckets request.key) request),
          request.nowMs⟩),
        ⟨some (decisionOn (refilled (buckets request.key) request) request),
          some (tokensLeft (refilled (buckets request.key) request))⟩) := by
  simp only [inMemoryStore, consume_eq, Function.update_self, Option.map_some]

/-- A positive time to live is one that the key is there for at once. -/
theorem live_store_self {keyspace : Keyspace} {key : String}
    {tokens nowMs serverMs : ℚ} {ttlSec : ℤ} (httl : 0 < ttlSec) :
    (keyspace.store key tokens nowMs serverMs ttlSec).live key serverMs =
      some ⟨tokens, nowMs, serverMs + ttlSec * 1000⟩ := by
  have hpos : (0 : ℚ) < ttlSec := by exact_mod_cast httl
  have hlive : serverMs ≤ serverMs + ttlSec * 1000 := by linarith
  simp only [Keyspace.store, Keyspace.live, Function.update_self,
    if_neg (not_le.mpr httl), Option.filter_some, hlive, decide_true, if_true]

/-- The script reads and refills as the store in memory does. -/
theorem tokenBucketLua_eq (keyspace : Keyspace) (request : TimedRequest)
    (serverMs : ℚ) :
    let tokens := refilled
      ((keyspace.live request.key serverMs).map RedisBucket.state) request
    tokenBucketLua keyspace request.key request.limit request.windowSec
        request.nowMs serverMs =
      (keyspace.store request.key (tokensLeft tokens) request.nowMs serverMs
        ⌈request.windowSec * 2⌉,
        if tokens < 1 then
          [0, max 1 ⌈(1 - tokens) * (request.windowSec / request.limit)⌉]
        else [1, 0]) := by
  intro tokens
  have hread : refilled ((keyspace.live request.key serverMs).map
    RedisBucket.state) request = tokens := rfl
  simp only [refilled] at hread
  unfold tokenBucketLua tokensLeft
  cases hlive : keyspace.live request.key serverMs with
  | none =>
      rw [hlive] at hread
      simp only [Option.map_none, Option.getD_none] at hread
      simp only [hread]
      by_cases hlow : tokens < 1
      · simp only [if_pos hlow]
      · simp only [if_neg hlow]
  | some bucket =>
      rw [hlive] at hread
      simp only [Option.map_some, Option.getD_some, RedisBucket.state]
        at hread
      simp only [hread]
      by_cases hlow : tokens < 1
      · simp only [if_pos hlow]
      · simp only [if_neg hlow]

/-- The reply says the decision. -/
theorem parse_reply (tokens : ℚ) (request : TimedRequest) :
    parseTokenBucketResult
      (if tokens < 1 then
        [0, max 1 ⌈(1 - tokens) * (request.windowSec / request.limit)⌉]
      else [1, 0]) = some (decisionOn tokens request) := by
  unfold decisionOn
  by_cases hlow : tokens < 1
  · have hretry : 0 < max 1
        ⌈(1 - tokens) * (request.windowSec / request.limit)⌉ :=
      lt_max_of_lt_left Int.one_pos
    simp only [if_pos hlow, parseTokenBucketResult, zero_ne_one, if_false,
      if_pos hretry]
  · simp only [if_neg hlow, parseTokenBucketResult, if_true]

theorem redisStore_step {keyspace : Keyspace} {request : TimedRequest}
    (hwindow : 0 < request.windowSec) :
    let tokens := refilled
      ((keyspace.live request.key request.nowMs).map RedisBucket.state) request
    redisStore.step keyspace request =
      (keyspace.store request.key (tokensLeft tokens) request.nowMs
        request.nowMs ⌈request.windowSec * 2⌉,
        ⟨some (decisionOn tokens request), some (tokensLeft tokens)⟩) := by
  have httl : 0 < ⌈request.windowSec * 2⌉ := by
    rw [Int.ceil_pos]
    linarith
  simp only [redisStore, tokenBucketLua_eq, parse_reply, live_store_self httl,
    Option.map_some]

/-! ## A bucket that was left alone for a window is full

A window gives back the whole limit, so it does not matter whether the bucket
was kept. -/

theorem refilled_none {request : TimedRequest} :
    refilled none request = request.limit := by
  simp [refilled]

theorem refilled_nonneg {bucket : Option BucketState} {request : TimedRequest}
    (hlimit : 0 < request.limit) (hwindow : 0 < request.windowSec)
    (hbucket : ∀ state ∈ bucket, 0 ≤ state.tokens) :
    0 ≤ refilled bucket request := by
  have htokens : 0 ≤ (bucket.getD ⟨request.limit, request.nowMs⟩).tokens := by
    cases bucket with
    | none => exact hlimit.le
    | some state => exact hbucket state rfl
  refine le_min hlimit.le (add_nonneg htokens (mul_nonneg ?_ ?_))
  · exact div_nonneg (le_max_left _ _) (by norm_num)
  · exact (div_pos hlimit hwindow).le

theorem tokensLeft_nonneg {tokens : ℚ} (h : 0 ≤ tokens) :
    0 ≤ tokensLeft tokens := by
  unfold tokensLeft
  split
  · exact h
  · next hge => exact sub_nonneg.mpr (not_lt.mp hge)

theorem refilled_full {state : BucketState} {request : TimedRequest}
    (hlimit : 0 < request.limit) (hwindow : 0 < request.windowSec)
    (htokens : 0 ≤ state.tokens)
    (hidle : state.updatedAtMs + request.windowSec * 1000 ≤ request.nowMs) :
    refilled (some state) request = request.limit := by
  have helapsed : request.windowSec ≤
      max 0 (request.nowMs - state.updatedAtMs) / 1000 := by
    rw [le_div_iff₀ (by norm_num)]
    refine le_max_of_le_right ?_
    linarith
  have hrefill : request.limit ≤
      max 0 (request.nowMs - state.updatedAtMs) / 1000 *
        (request.limit / request.windowSec) :=
    calc request.limit
        = request.windowSec * (request.limit / request.windowSec) := by
          field_simp
      _ ≤ _ := mul_le_mul_of_nonneg_right helapsed
          (div_pos hlimit hwindow).le
  exact min_eq_left (le_add_of_nonneg_of_le htokens hrefill)

/-! ## What the two stores have in common

The relation, which looks ahead to the next request of each key, and its step.
-/

/-- The requests come in the order of a clock. -/
def Clocked (requests : List TimedRequest) : Prop :=
  requests.Pairwise fun r r' => r.nowMs ≤ r'.nowMs

instance : DecidablePred Clocked :=
  fun _ => inferInstanceAs (Decidable (List.Pairwise _ _))

/-- Requests with a limit and a window, as every policy has them. -/
def Positive (requests : List TimedRequest) : Prop :=
  ∀ r ∈ requests, 0 < r.limit ∧ 0 < r.windowSec

instance : DecidablePred Positive :=
  fun _ => inferInstanceAs (Decidable (∀ r ∈ _, _ ∧ _))

/-- The next request on a key has a window no longer than the time to live
that the last one left. -/
def Steady : List TimedRequest → Prop
  | [] => True
  | r :: rest =>
      (∀ r' ∈ rest.find? fun r' => r'.key = r.key,
        r'.windowSec ≤ ⌈r.windowSec * 2⌉) ∧ Steady rest

/-- One key in the two stores: the same bucket, and in Redis for at least a
window of the next request. -/
def KeyAgrees (next : Option TimedRequest) :
    Option BucketState → Option RedisBucket → Prop
  | none, none => True
  | some state, some bucket =>
      bucket.state = state ∧ 0 ≤ state.tokens ∧
        ∀ r ∈ next, state.updatedAtMs + r.windowSec * 1000 ≤ bucket.expiresAtMs
  | _, _ => False

/-- The stores agree on every key, as far as the requests to come can tell. -/
structure Agree (rest : List TimedRequest)
    (buckets : String → Option BucketState) (keyspace : Keyspace) : Prop where
  clocked : Clocked rest
  positive : Positive rest
  steady : Steady rest
  keys : ∀ key, KeyAgrees (rest.find? fun r => r.key = key) (buckets key)
    (keyspace key)

/-- Whether the key has expired or not, a request finds the same. -/
theorem KeyAgrees.refilled_eq {request : TimedRequest} {keyspace : Keyspace}
    {bucket : Option BucketState} (hlimit : 0 < request.limit)
    (hwindow : 0 < request.windowSec)
    (h : KeyAgrees (some request) bucket (keyspace request.key)) :
    refilled ((keyspace.live request.key request.nowMs).map RedisBucket.state)
      request = refilled bucket request := by
  unfold Keyspace.live
  cases bucket with
  | none =>
      cases hkey : keyspace request.key with
      | none => rfl
      | some held => rw [hkey] at h; exact h.elim
  | some state =>
      cases hkey : keyspace request.key with
      | none => rw [hkey] at h; exact h.elim
      | some held =>
          rw [hkey] at h
          obtain ⟨rfl, htokens, hexpires⟩ := h
          by_cases hlive : request.nowMs ≤ held.expiresAtMs
          · rw [Option.filter_some, if_pos (by simpa using hlive)]
            rfl
          · have hidle : held.state.updatedAtMs +
                request.windowSec * 1000 ≤ request.nowMs :=
              (hexpires request rfl).trans (le_of_not_ge hlive)
            rw [refilled_full hlimit hwindow htokens hidle]
            rw [Option.filter_some, if_neg (by simpa using hlive)]
            exact refilled_none

theorem KeyAgrees.nonneg {next : Option TimedRequest}
    {bucket : Option BucketState} {held : Option RedisBucket}
    (h : KeyAgrees next bucket held) : ∀ state ∈ bucket, 0 ≤ state.tokens := by
  intro state hstate
  cases hstate
  cases held with
  | none => exact h.elim
  | some _ => exact h.2.1

/-- The key of a request afterwards. -/
theorem keyAgrees_served {request : TimedRequest} {rest : List TimedRequest}
    {tokens : ℚ} (htokens : 0 ≤ tokens)
    (hsteady : Steady (request :: rest)) :
    KeyAgrees (rest.find? fun r => r.key = request.key)
      (some ⟨tokens, request.nowMs⟩)
      (some ⟨tokens, request.nowMs,
        request.nowMs + ⌈request.windowSec * 2⌉ * 1000⟩) := by
  refine ⟨rfl, htokens, fun r hr => ?_⟩
  have hle := hsteady.1 r hr
  show request.nowMs + r.windowSec * 1000 ≤ _
  linarith

theorem stores_bisimulation : Transducer.Bisimulation inMemoryStore redisStore
    Agree := by
  intro request rest buckets keyspace h
  obtain ⟨hlimit, hwindow⟩ := h.positive request List.mem_cons_self
  have hkey := h.keys request.key
  rw [List.find?_cons_of_pos (by simp)] at hkey
  have htokens := hkey.refilled_eq hlimit hwindow
  have hnonneg : 0 ≤ tokensLeft (refilled (buckets request.key) request) :=
    tokensLeft_nonneg (refilled_nonneg hlimit hwindow hkey.nonneg)
  have httl : ¬ ⌈request.windowSec * 2⌉ ≤ 0 := by
    rw [not_le, Int.ceil_pos]
    linarith
  rw [inMemoryStore_step, redisStore_step hwindow, htokens]
  refine ⟨rfl, ?_⟩
  exact
    { clocked := (List.pairwise_cons.mp h.clocked).2
      positive := fun r hr => h.positive r (List.mem_cons_of_mem _ hr)
      steady := h.steady.2
      keys := fun key => by
        simp only [Keyspace.store, if_neg httl]
        by_cases hsame : key = request.key
        · subst hsame
          rw [Function.update_self, Function.update_self]
          exact keyAgrees_served hnonneg h.steady
        · rw [Function.update_of_ne hsame, Function.update_of_ne hsame]
          have hother := h.keys key
          rw [List.find?_cons_of_neg (by simpa using Ne.symm hsame)] at hother
          exact hother }

/-- On requests that a clock orders, with positive limits and windows and with
no window longer than the time to live its key has, the two stores decide alike
and leave the same tokens. -/
theorem stores_serve_alike {requests : List TimedRequest}
    (hclock : Clocked requests) (hpositive : Positive requests)
    (hsteady : Steady requests) :
    redisStore.answers requests = inMemoryStore.answers requests := by
  refine (stores_bisimulation.answers_eq ?_).symm
  exact
    { clocked := hclock
      positive := hpositive
      steady := hsteady
      keys := fun _ => trivial }

/-- One window for each key is enough, and is what callers see to. -/
theorem steady_of_fixed {requests : List TimedRequest}
    (hpositive : Positive requests)
    (hfixed : ∀ r ∈ requests, ∀ r' ∈ requests, r.key = r'.key →
      r.windowSec = r'.windowSec) : Steady requests := by
  induction requests with
  | nil => trivial
  | cons r rest ih =>
      refine ⟨fun r' hr' => ?_, ih ?_ ?_⟩
      · have hmem : r' ∈ rest := List.mem_of_find?_eq_some hr'
        have hkey : r'.key = r.key := by simpa using List.find?_some hr'
        have hsame : r'.windowSec = r.windowSec :=
          hfixed r' (List.mem_cons_of_mem _ hmem) r List.mem_cons_self hkey
        have hpos : 0 < r.windowSec := (hpositive r List.mem_cons_self).2
        have hceil : r.windowSec * 2 ≤ ⌈r.windowSec * 2⌉ := Int.le_ceil _
        rw [hsame]
        linarith
      · exact fun r' hr' => hpositive r' (List.mem_cons_of_mem _ hr')
      · exact fun a ha b hb => hfixed a (List.mem_cons_of_mem _ ha) b
          (List.mem_cons_of_mem _ hb)

/-- A burst on one key, a denial, and a return when the key has gone. -/
def burst : List TimedRequest :=
  [⟨⟨"rl:orders.create:user:u1", 2, 60⟩, 0⟩,
    ⟨⟨"rl:orders.create:user:u1", 2, 60⟩, 0⟩,
    ⟨⟨"rl:orders.create:user:u1", 2, 60⟩, 1500⟩,
    ⟨⟨"rl:orders.create:user:u1", 2, 60⟩, 200000⟩]

theorem stores_serve_alike_burst :
    redisStore.answers burst =
      [⟨some .allowed, some 1⟩, ⟨some .allowed, some 0⟩,
        ⟨some (.denied 29), some (1 / 20)⟩, ⟨some .allowed, some 1⟩] ∧
      redisStore.answers burst = inMemoryStore.answers burst := by
  have hpositive : Positive burst := by decide +kernel
  refine ⟨by decide +kernel, stores_serve_alike (by decide +kernel) hpositive
    (steady_of_fixed hpositive (by decide +kernel))⟩

/-- A key whose window grows: Redis has forgotten it, the bucket in memory has
hardly refilled. -/
def windowGrown : List TimedRequest :=
  [⟨⟨"rl:orders.create:user:u1", 1, 1⟩, 0⟩,
    ⟨⟨"rl:orders.create:user:u1", 1, 1000⟩, 3000⟩]

theorem windowGrown_differs :
    Clocked windowGrown ∧ Positive windowGrown ∧
      redisStore.answers windowGrown =
        [⟨some .allowed, some 0⟩, ⟨some .allowed, some 0⟩] ∧
      inMemoryStore.answers windowGrown =
        [⟨some .allowed, some 0⟩,
          ⟨some (.denied 997), some (3 / 1000)⟩] := by
  decide +kernel

end Shozee.RateLimit
