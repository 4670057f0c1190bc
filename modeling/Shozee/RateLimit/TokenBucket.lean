import Mathlib.Algebra.Order.Floor.Ring
import Mathlib.Data.Rat.Floor
import Shozee.Run.Transducer

/-!
# Token buckets

The two rate-limit stores. `createInMemoryRateLimitStore` keeps a bucket for
every key it has seen. `createRedisRateLimitStore` runs a script in Redis,
which keeps a hash under the key and lets it expire after twice the window; a
key that is gone starts full again.

The arithmetic is exact, in milliseconds. A request is given with the time that
the process serving it reads. The expiry of a Redis key goes by the clock of
the Redis server: `redisStore` is the case of one clock for all, and
`sharedRedisStore` that of processes with clocks of their own.
-/

namespace Shozee.RateLimit

open Shozee.Run

/-- One consume attempt on a bucket. -/
structure RateLimitConsumeRequest where
  key : String
  limit : ℚ
  windowSec : ℚ
deriving DecidableEq, Repr

/-- A request with the time that the store reads. -/
structure TimedRequest extends RateLimitConsumeRequest where
  nowMs : ℚ
deriving DecidableEq, Repr

/-- A request with the time of the Redis server beside it. -/
structure SharedRequest extends TimedRequest where
  serverMs : ℚ
deriving DecidableEq, Repr

/-- What a store answers with. -/
inductive RateLimitDecision
  | allowed
  | denied (retryAfterSec : ℤ)
deriving DecidableEq, Repr

/-- What a store did with a request: its decision, unless it threw, and the
tokens that the bucket of the request has left. -/
structure Served where
  decision : Option RateLimitDecision
  remaining : Option ℚ
deriving DecidableEq, Repr

/-! ## In memory

The bucket is kept for ever. -/

/-- The tokens of a bucket at a time. -/
structure BucketState where
  tokens : ℚ
  updatedAtMs : ℚ
deriving DecidableEq, Repr

/-- `consume` of `createInMemoryRateLimitStore`. -/
def consume (buckets : String → Option BucketState)
    (request : TimedRequest) :
    (String → Option BucketState) × RateLimitDecision :=
  let state := (buckets request.key).getD ⟨request.limit, request.nowMs⟩
  let elapsedMs := max 0 (request.nowMs - state.updatedAtMs)
  let refill := elapsedMs / 1000 * (request.limit / request.windowSec)
  let tokens := min request.limit (state.tokens + refill)
  if tokens < 1 then
    let secondsPerToken := request.windowSec / request.limit
    let retryAfterSec := max 1 ⌈(1 - tokens) * secondsPerToken⌉
    (Function.update buckets request.key (some ⟨tokens, request.nowMs⟩),
      .denied retryAfterSec)
  else
    (Function.update buckets request.key (some ⟨tokens - 1, request.nowMs⟩),
      .allowed)

/-- The store in the process. -/
def inMemoryStore :
    Transducer (String → Option BucketState) TimedRequest Served where
  init := fun _ => none
  step buckets request :=
    let (buckets', decision) := consume buckets request
    (buckets', ⟨some decision,
      (buckets' request.key).map BucketState.tokens⟩)

/-! ## In Redis

The script, with the two fields and the time to live that it writes. -/

/-- The hash of a bucket. The script writes its two fields and its time to
live together. -/
structure RedisBucket where
  tokens : ℚ
  updatedAtMs : ℚ
  expiresAtMs : ℚ
deriving DecidableEq, Repr

/-- The keys of the other store. -/
abbrev Keyspace := String → Option RedisBucket

/-- The hash under a key, if it has not expired. -/
def Keyspace.live (keyspace : Keyspace) (key : String) (serverMs : ℚ) :
    Option RedisBucket :=
  (keyspace key).filter fun bucket => serverMs ≤ bucket.expiresAtMs

/-- `HSET` of the two fields and `EXPIRE` after them, which deletes the key
when the time to live is not positive. -/
def Keyspace.store (keyspace : Keyspace) (key : String) (tokens : ℚ)
    (nowMs serverMs : ℚ) (ttlSec : ℤ) : Keyspace :=
  Function.update keyspace key
    (if ttlSec ≤ 0 then none
    else some ⟨tokens, nowMs, serverMs + ttlSec * 1000⟩)

/-- `TOKEN_BUCKET_LUA`. -/
def tokenBucketLua (keyspace : Keyspace) (key : String)
    (limit windowSec nowMs serverMs : ℚ) : Keyspace × List ℤ :=
  let data := keyspace.live key serverMs
  let (tokens, updatedAtMs) :=
    match data with
    | none => (limit, nowMs)
    | some bucket => (bucket.tokens, bucket.updatedAtMs)
  let elapsedMs := max 0 (nowMs - updatedAtMs)
  let refill := elapsedMs / 1000 * (limit / windowSec)
  let tokens := min limit (tokens + refill)
  if tokens < 1 then
    let secondsPerToken := windowSec / limit
    let retryAfterSec := max 1 ⌈(1 - tokens) * secondsPerToken⌉
    (keyspace.store key tokens nowMs serverMs ⌈windowSec * 2⌉,
      [0, retryAfterSec])
  else
    (keyspace.store key (tokens - 1) nowMs serverMs ⌈windowSec * 2⌉, [1, 0])

/-- What the store makes of the script's reply; `none` is `RedisStoreError`.
-/
def parseTokenBucketResult : List ℤ → Option RateLimitDecision
  | [] => none
  | allowedFlag :: rest =>
      if allowedFlag = 1 then some .allowed
      else
        match rest with
        | retryAfterSec :: _ =>
            some (.denied (if 0 < retryAfterSec then retryAfterSec else 1))
        | [] => some (.denied 1)

/-- The store in Redis, called by one process whose clock is the server's. -/
def redisStore : Transducer Keyspace TimedRequest Served where
  init := fun _ => none
  step keyspace request :=
    let (keyspace', reply) := tokenBucketLua keyspace request.key
      request.limit request.windowSec request.nowMs request.nowMs
    (keyspace', ⟨parseTokenBucketResult reply,
      (keyspace'.live request.key request.nowMs).map RedisBucket.tokens⟩)

/-- The store in Redis, called by processes with clocks of their own. -/
def sharedRedisStore :
    Transducer Keyspace SharedRequest (Option RateLimitDecision) where
  init := fun _ => none
  step keyspace request :=
    let (keyspace', reply) := tokenBucketLua keyspace request.key
      request.limit request.windowSec request.nowMs request.serverMs
    (keyspace', parseTokenBucketResult reply)

end Shozee.RateLimit
