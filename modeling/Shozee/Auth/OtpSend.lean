import Mathlib.Algebra.Order.Floor.Ring
import Mathlib.Data.Rat.Floor
import Shozee.Run.Json
import Shozee.Run.Transducer

/-!
# Sends of one-time passwords

The guard in front of the sending of a password asks a store
(`apps/api/src/auth/otp-send-guard.ts`). The store keeps the times of the sends
under the identifier's key, as a JSON text. `applyOtpSendAttempt` decides in
process, under a lock of the key; `OTP_SEND_LUA` (`apps/api/src/stores/redis.ts`)
decides in Redis, and gives the key a time to live.

A stored text is kept as the value that it parses to, and a text that is no
JSON as `none`. Times are exact, in milliseconds, and one clock gives them to
the guard and to Redis.
-/

namespace Shozee.Auth

open Shozee.Run

/-- What the attempts have in common. A resend is never later than a window,
and a window is never empty. -/
structure OtpPolicy where
  resendCooldownSeconds : ℕ
  sendWindowSeconds : ℕ
  maxSendsPerHourPerIdentifier : ℕ
  cooldown_le : resendCooldownSeconds ≤ sendWindowSeconds
  window_pos : 0 < sendWindowSeconds
  maxSends_pos : 0 < maxSendsPerHourPerIdentifier

/-- The limits of the service. -/
def otpPolicy : OtpPolicy where
  resendCooldownSeconds := 60
  sendWindowSeconds := 3600
  maxSendsPerHourPerIdentifier := 5
  cooldown_le := by decide
  window_pos := by decide
  maxSends_pos := by decide

/-- What a store is asked: the key, the time and the limits. -/
structure OtpSendAttempt where
  key : String
  nowMs : ℚ
  cooldownMs : ℚ
  windowMs : ℚ
  maxSends : ℕ
  ttlSeconds : ℕ
deriving DecidableEq, Repr

/-- What a store answers with. -/
inductive OtpSendDecision
  | allowed
  | denied (retryAfterSeconds : ℤ)
deriving DecidableEq, Repr

/-- The attempt of `check`. -/
def OtpPolicy.attempt (policy : OtpPolicy) (key : String) (nowMs : ℚ) :
    OtpSendAttempt where
  key := key
  nowMs := nowMs
  cooldownMs := policy.resendCooldownSeconds * 1000
  windowMs := policy.sendWindowSeconds * 1000
  maxSends := policy.maxSendsPerHourPerIdentifier
  ttlSeconds := policy.sendWindowSeconds

/-- A stored text, as the value it parses to. -/
abbrev StoredText := Option (Json ℚ)

/-- The stored text of a history. -/
def historyText (sends : List ℚ) : StoredText :=
  some (.array (sends.map .number))

/-! ## In process

The history under a key is read, pruned, decided on and written back. -/

/-- An entry of a history, if it is a number. -/
def numberEntry : Json ℚ → Option ℚ
  | .number sentAt => some sentAt
  | _ => none

/-- The times in a stored text. What is no number is left out. -/
def readOtpSendHistory : StoredText → List ℚ
  | some (.array parsed) => parsed.filterMap numberEntry
  | _ => []

/-- What an attempt comes to, with the text to store. -/
inductive OtpSendOutcome
  | allowed (nextRaw : StoredText)
  | denied (retryAfterSeconds : ℤ)

/-- An attempt on a stored text: entries that have left the window are dropped,
then the cooldown and the count are asked. -/
def applyOtpSendAttempt (raw : Option StoredText) (attempt : OtpSendAttempt) :
    OtpSendOutcome :=
  let windowStartMs := attempt.nowMs - attempt.windowMs
  let history :=
    match raw with
    | none => []
    | some raw => readOtpSendHistory raw
  let recent := history.filter fun sentAt => windowStartMs < sentAt
  let cooldown := recent.getLast?.bind fun lastSentAt =>
    let cooldownEndsMs := lastSentAt + attempt.cooldownMs
    if attempt.nowMs < cooldownEndsMs then
      some ⌈(cooldownEndsMs - attempt.nowMs) / 1000⌉
    else none
  match cooldown with
  | some retryAfterSeconds => .denied retryAfterSeconds
  | none =>
      if attempt.maxSends ≤ recent.length then
        let oldest := recent.head?.getD attempt.nowMs
        let windowFreesMs := oldest + attempt.windowMs
        .denied (max 1 ⌈(windowFreesMs - attempt.nowMs) / 1000⌉)
      else .allowed (historyText (recent ++ [attempt.nowMs]))

/-- `createAtomicOtpSendStore` over a map. -/
def memoryStore :
    Transducer (String → Option StoredText) OtpSendAttempt OtpSendDecision
    where
  init := fun _ => none
  step entries attempt :=
    match applyOtpSendAttempt (entries attempt.key) attempt with
    | .allowed nextRaw =>
        (Function.update entries attempt.key (some nextRaw), .allowed)
    | .denied retryAfterSeconds => (entries, .denied retryAfterSeconds)

/-! ## In Redis

The script does the same on the text that it finds, in the numbers of its own
language. -/

/-- A text with the time at which its key goes. -/
structure RedisText where
  raw : StoredText
  expiresAtMs : ℚ

/-- The keys of the store. -/
abbrev TextKeyspace := String → Option RedisText

/-- `GET` of a key, if it has not expired. -/
def TextKeyspace.get (keyspace : TextKeyspace) (key : String) (serverMs : ℚ) :
    Option StoredText :=
  ((keyspace key).filter fun text => serverMs ≤ text.expiresAtMs).map
    RedisText.raw

section Script

-- How the language of the script reads a text as a number.
variable (numberOfText : CodeUnits → Option ℚ)

/-- `tonumber` of a decoded value. -/
def tonumber : Json ℚ → Option ℚ
  | .number ts => some ts
  | .string text => numberOfText text
  | _ => none

/-- What the script reads of a text: `#parsed` is zero for an object. -/
def parsedEntries : StoredText → List (Json ℚ)
  | some (.array parsed) => parsed
  | _ => []

/-- `OTP_SEND_LUA`; a script that throws has no reply, and writes nothing. -/
def otpSendLua (keyspace : TextKeyspace) (attempt : OtpSendAttempt)
    (serverMs : ℚ) : TextKeyspace × Option (List ℤ) :=
  let windowStart := attempt.nowMs - attempt.windowMs
  let raw := keyspace.get attempt.key serverMs
  let recent := ((raw.elim [] parsedEntries).filterMap
    (tonumber numberOfText)).filter fun ts => windowStart < ts
  let cooldown := recent.getLast?.bind fun last =>
    let cooldownEnds := last + attempt.cooldownMs
    if attempt.nowMs < cooldownEnds then
      some ⌈(cooldownEnds - attempt.nowMs) / 1000⌉
    else none
  match cooldown with
  | some retryAfter => (keyspace, some [0, retryAfter])
  | none =>
      if attempt.maxSends ≤ recent.length then
        match recent.head? with
        | none => (keyspace, none)
        | some oldest =>
            (keyspace, some [0,
              max 1 ⌈(oldest + attempt.windowMs - attempt.nowMs) / 1000⌉])
      else if attempt.ttlSeconds = 0 then (keyspace, none)
      else
        (Function.update keyspace attempt.key (some
          ⟨historyText (recent ++ [attempt.nowMs]),
            serverMs + attempt.ttlSeconds * 1000⟩), some [1, 0])

/-- What the store makes of a reply; `none` is `RedisStoreError`. -/
def parseOtpSendResult : List ℤ → Option OtpSendDecision
  | [] => none
  | allowedFlag :: rest =>
      if allowedFlag = 1 then some .allowed
      else
        match rest with
        | retryAfterSeconds :: _ =>
            some (.denied (if 0 < retryAfterSeconds then retryAfterSeconds
              else 1))
        | [] => some (.denied 1)

/-- `createRedisOtpSendStore`. The script writes a number with fourteen digits.
What it writes is a reading of `Date.now()`, a whole number of milliseconds that
has thirteen; of a reading with a fraction it would lose the end. -/
def redisStore :
    Transducer TextKeyspace OtpSendAttempt (Option OtpSendDecision) where
  init := fun _ => none
  step keyspace attempt :=
    let (keyspace', reply) :=
      otpSendLua numberOfText keyspace attempt attempt.nowMs
    (keyspace', reply.bind parseOtpSendResult)

end Script

end Shozee.Auth
