import Mathlib.Data.List.Lemmas
import Mathlib.Tactic.Linarith
import Mathlib.Tactic.Positivity
import Shozee.Auth.OtpSend

/-!
# What the throttle lets through

Both stores are compared with one that keeps every send there has been
(`throttle`). A stored text has only what its last send found in the window,
and a key in Redis is gone a window after its last send; neither is missed,
since the window of an attempt begins no sooner than those before it
(`recentOf_stored`). The bounds are then about the sends alone: each of them
found fewer than the most in the window that ends with it, and the one before
it no nearer than the cooldown.
-/

namespace Shozee.Auth

open Shozee.Run

namespace OtpPolicy

variable (policy : OtpPolicy)

/-- The time between two sends. -/
def cooldownMs : ℚ := policy.resendCooldownSeconds * 1000

/-- The time that sends are counted in. -/
def windowMs : ℚ := policy.sendWindowSeconds * 1000

theorem cooldownMs_nonneg : 0 ≤ policy.cooldownMs := by
  unfold cooldownMs
  positivity

theorem windowMs_pos : 0 < policy.windowMs := by
  have hpos : (0 : ℚ) < policy.sendWindowSeconds := by
    exact_mod_cast policy.window_pos
  unfold windowMs
  positivity

theorem cooldownMs_le : policy.cooldownMs ≤ policy.windowMs := by
  have hle : (policy.resendCooldownSeconds : ℚ) ≤ policy.sendWindowSeconds := by
    exact_mod_cast policy.cooldown_le
  unfold cooldownMs windowMs
  linarith

end OtpPolicy

/-! ## One decision

What a store decides from the sends that it finds. The process and the script
decide alike on the same sends. -/

/-- The seconds until the last of the recent sends has cooled down. -/
def cooldownLeft (attempt : OtpSendAttempt) (recent : List ℚ) : Option ℤ :=
  recent.getLast?.bind fun last =>
    if attempt.nowMs < last + attempt.cooldownMs then
      some ⌈(last + attempt.cooldownMs - attempt.nowMs) / 1000⌉
    else none

/-- The decision on an attempt after the recent sends. -/
def decisionOn (attempt : OtpSendAttempt) (recent : List ℚ) :
    OtpSendDecision :=
  match cooldownLeft attempt recent with
  | some retryAfterSeconds => .denied retryAfterSeconds
  | none =>
      if attempt.maxSends ≤ recent.length then
        .denied (max 1 ⌈(recent.head?.getD attempt.nowMs + attempt.windowMs -
          attempt.nowMs) / 1000⌉)
      else .allowed

/-- The sends that are in the window at a time. -/
def recentOf (windowMs : ℚ) (sends : List ℚ) (nowMs : ℚ) : List ℚ :=
  sends.filter fun sentAt => nowMs - windowMs < sentAt

theorem applyOtpSendAttempt_eq (raw : Option StoredText)
    (attempt : OtpSendAttempt) {recent : List ℚ}
    (hrecent : recentOf attempt.windowMs (raw.elim [] readOtpSendHistory)
      attempt.nowMs = recent) :
    applyOtpSendAttempt raw attempt =
      match decisionOn attempt recent with
      | .allowed => .allowed (historyText (recent ++ [attempt.nowMs]))
      | .denied retryAfterSeconds => .denied retryAfterSeconds := by
  subst hrecent
  have hdecide : ∀ recent : List ℚ,
      (match cooldownLeft attempt recent with
        | some retryAfterSeconds => .denied retryAfterSeconds
        | none =>
            if attempt.maxSends ≤ recent.length then
              .denied (max 1 ⌈(recent.head?.getD attempt.nowMs +
                attempt.windowMs - attempt.nowMs) / 1000⌉)
            else .allowed (historyText (recent ++ [attempt.nowMs]))) =
        match decisionOn attempt recent with
        | .allowed => OtpSendOutcome.allowed
            (historyText (recent ++ [attempt.nowMs]))
        | .denied retryAfterSeconds => .denied retryAfterSeconds := by
    intro recent
    unfold decisionOn
    cases cooldownLeft attempt recent with
    | some retryAfterSeconds => rfl
    | none =>
        by_cases hfull : attempt.maxSends ≤ recent.length
        · simp only [if_pos hfull]
        · simp only [if_neg hfull]
  cases raw with
  | none => exact hdecide (recentOf attempt.windowMs [] attempt.nowMs)
  | some raw =>
      exact hdecide (recentOf attempt.windowMs (readOtpSendHistory raw)
        attempt.nowMs)

/-- What the script replies, by the sends that are in the window. -/
theorem reply_eq (keyspace : TextKeyspace) (attempt : OtpSendAttempt)
    (serverMs : ℚ) (hmax : 0 < attempt.maxSends)
    (httl : attempt.ttlSeconds ≠ 0) (recent : List ℚ) :
    (match cooldownLeft attempt recent with
      | some retryAfter => (keyspace, some [0, retryAfter])
      | none =>
          if attempt.maxSends ≤ recent.length then
            match recent.head? with
            | none => (keyspace, none)
            | some oldest => (keyspace, some [0,
                max 1 ⌈(oldest + attempt.windowMs - attempt.nowMs) / 1000⌉])
          else if attempt.ttlSeconds = 0 then (keyspace, none)
          else
            (Function.update keyspace attempt.key (some
              ⟨historyText (recent ++ [attempt.nowMs]),
                serverMs + attempt.ttlSeconds * 1000⟩), some [1, 0])) =
      match decisionOn attempt recent with
      | .allowed =>
          (Function.update keyspace attempt.key (some
            ⟨historyText (recent ++ [attempt.nowMs]),
              serverMs + attempt.ttlSeconds * 1000⟩), some [1, 0])
      | .denied retryAfterSeconds =>
          (keyspace, some [0, retryAfterSeconds]) := by
  unfold decisionOn
  cases cooldownLeft attempt recent with
  | some retryAfter => rfl
  | none =>
      by_cases hfull : attempt.maxSends ≤ recent.length
      · cases recent with
        | nil => exact absurd hfull (not_le.mpr hmax)
        | cons oldest rest =>
            simp only [if_pos hfull, List.head?_cons, Option.getD_some]
      · simp only [if_neg hfull, if_neg httl]

theorem otpSendLua_eq (numberOfText : CodeUnits → Option ℚ)
    (keyspace : TextKeyspace) (attempt : OtpSendAttempt) (serverMs : ℚ)
    (hmax : 0 < attempt.maxSends) (httl : attempt.ttlSeconds ≠ 0)
    {recent : List ℚ}
    (hrecent : recentOf attempt.windowMs
      (((keyspace.get attempt.key serverMs).elim [] parsedEntries).filterMap
        (tonumber numberOfText)) attempt.nowMs = recent) :
    otpSendLua numberOfText keyspace attempt serverMs =
      match decisionOn attempt recent with
      | .allowed =>
          (Function.update keyspace attempt.key (some
            ⟨historyText (recent ++ [attempt.nowMs]),
              serverMs + attempt.ttlSeconds * 1000⟩), some [1, 0])
      | .denied retryAfterSeconds => (keyspace, some [0, retryAfterSeconds]) := by
  subst hrecent
  exact reply_eq keyspace attempt serverMs hmax httl _

/-- A denial says at least a second, and is read as it was said. -/
theorem decisionOn_denied {attempt : OtpSendAttempt} {recent : List ℚ}
    {retryAfterSeconds : ℤ}
    (h : decisionOn attempt recent = .denied retryAfterSeconds) :
    parseOtpSendResult [0, retryAfterSeconds] =
      some (.denied retryAfterSeconds) := by
  have hpos : 0 < retryAfterSeconds := by
    unfold decisionOn at h
    split at h
    · next left hleft =>
      cases h
      obtain ⟨last, -, hif⟩ := Option.bind_eq_some_iff.mp hleft
      by_cases hcold : attempt.nowMs < last + attempt.cooldownMs
      · rw [if_pos hcold, Option.some.injEq] at hif
        rw [← hif, Int.ceil_pos]
        linarith
      · rw [if_neg hcold] at hif
        cases hif
    · split at h
      · cases h
        exact lt_of_lt_of_le one_pos (le_max_left 1 _)
      · cases h
  simp [parseOtpSendResult, hpos]

/-! ## The store that keeps every send

Its decisions look at the recent sends only. What a real store has kept of them
is the same, as windows move forward. -/

section Throttle

variable (policy : OtpPolicy) (key : String)

/-- What both stores are to do: a list of the sends, and the decision on it. -/
def throttle : Transducer (List ℚ) ℚ OtpSendDecision where
  init := []
  step sends nowMs :=
    let decision := decisionOn (policy.attempt key nowMs)
      (recentOf policy.windowMs sends nowMs)
    match decision with
    | .allowed => (sends ++ [nowMs], .allowed)
    | .denied retryAfterSeconds => (sends, .denied retryAfterSeconds)

variable {policy key}

theorem throttle_step (sends : List ℚ) (nowMs : ℚ) :
    decisionOn (policy.attempt key nowMs)
        (recentOf policy.windowMs sends nowMs) = .allowed ∧
      (throttle policy key).step sends nowMs = (sends ++ [nowMs], .allowed) ∨
    ∃ retryAfterSeconds, decisionOn (policy.attempt key nowMs)
        (recentOf policy.windowMs sends nowMs) = .denied retryAfterSeconds ∧
      (throttle policy key).step sends nowMs =
        (sends, .denied retryAfterSeconds) := by
  unfold throttle
  cases hdecision : decisionOn (policy.attempt key nowMs)
    (recentOf policy.windowMs sends nowMs) with
  | allowed =>
      refine Or.inl ⟨rfl, ?_⟩
      simp only [hdecision]
  | denied retryAfterSeconds =>
      refine Or.inr ⟨retryAfterSeconds, rfl, ?_⟩
      simp only [hdecision]

theorem recentOf_recentOf {windowMs last nowMs : ℚ} (sends : List ℚ)
    (h : last ≤ nowMs) :
    recentOf windowMs (recentOf windowMs sends last) nowMs =
      recentOf windowMs sends nowMs := by
  unfold recentOf
  rw [List.filter_filter]
  refine List.filter_congr fun sentAt _ => ?_
  have hlater : nowMs - windowMs < sentAt → last - windowMs < sentAt := by
    intro hsent
    linarith
  by_cases hsent : nowMs - windowMs < sentAt
  · simp [hsent, hlater hsent]
  · simp [hsent]

theorem recentOf_append_self {windowMs : ℚ} (hwindow : 0 < windowMs)
    (sends : List ℚ) (nowMs : ℚ) :
    recentOf windowMs (sends ++ [nowMs]) nowMs =
      recentOf windowMs sends nowMs ++ [nowMs] := by
  have hself : nowMs - windowMs < nowMs := by linarith
  unfold recentOf
  rw [List.filter_append, List.filter_singleton, decide_eq_true hself,
    cond_true]

theorem readOtpSendHistory_historyText (sends : List ℚ) :
    readOtpSendHistory (historyText sends) = sends := by
  show (sends.map Json.number).filterMap numberEntry = sends
  rw [List.filterMap_map]
  exact List.filterMap_some

theorem parsedEntries_historyText (numberOfText : CodeUnits → Option ℚ)
    (sends : List ℚ) :
    (parsedEntries (historyText sends)).filterMap (tonumber numberOfText) =
      sends := by
  show (sends.map Json.number).filterMap (tonumber numberOfText) = sends
  rw [List.filterMap_map]
  exact List.filterMap_some

/-- The last of the sends in order is the latest. -/
theorem le_getLast {sends rest : List ℚ}
    (h : (sends ++ rest).Pairwise (· ≤ ·)) {last : ℚ}
    (hlast : sends.getLast? = some last) : ∀ sentAt ∈ sends, sentAt ≤ last := by
  obtain ⟨before, rfl⟩ := List.getLast?_eq_some_iff.mp hlast
  intro sentAt hmem
  rcases List.mem_append.mp hmem with hmem | hmem
  · exact (List.pairwise_append.mp (List.pairwise_append.mp h).1).2.2 sentAt
      hmem last List.mem_cons_self
  · rw [List.mem_singleton.mp hmem]

/-- What the last send stored, looked at from a later attempt. -/
theorem recentOf_stored {sends rest : List ℚ} {nowMs : ℚ}
    (h : (sends ++ nowMs :: rest).Pairwise (· ≤ ·)) (windowMs : ℚ) :
    recentOf windowMs ((sends.getLast?.map fun last =>
        recentOf windowMs sends last).getD []) nowMs =
      recentOf windowMs sends nowMs := by
  cases hlast : sends.getLast? with
  | none =>
      rw [List.getLast?_eq_none_iff.mp hlast]
      rfl
  | some last =>
      have hmem : last ∈ sends := List.mem_of_getLast? hlast
      exact recentOf_recentOf sends
        ((List.pairwise_append.mp h).2.2 last hmem nowMs List.mem_cons_self)

/-! ## Both stores are the throttle

A bisimulation with each of the two. For Redis it says in addition how long the
key lives. -/

/-- What the stores keep of the sends, under the key. -/
def storedOf (policy : OtpPolicy) (sends : List ℚ) : Option StoredText :=
  sends.getLast?.map fun last => historyText (recentOf policy.windowMs sends last)

/-- The sends are in order, with the attempts to come, and the map has them. -/
structure Remembers (policy : OtpPolicy) (key : String) (rest : List ℚ)
    (entries : String → Option StoredText) (sends : List ℚ) : Prop where
  ordered : (sends ++ rest).Pairwise (· ≤ ·)
  stored : entries key = storedOf policy sends

theorem storedOf_append {sends : List ℚ} {nowMs : ℚ} :
    storedOf policy (sends ++ [nowMs]) = some (historyText
      (recentOf policy.windowMs sends nowMs ++ [nowMs])) := by
  rw [storedOf, List.getLast?_concat, Option.map_some,
    recentOf_append_self policy.windowMs_pos]

theorem elim_storedOf {α : Type*} (read : StoredText → List α)
    (sends : List ℚ) :
    (storedOf policy sends).elim [] read =
      (sends.getLast?.map fun last => read (historyText
        (recentOf policy.windowMs sends last))).getD [] := by
  unfold storedOf
  cases sends.getLast? with
  | none => rfl
  | some last => rfl

theorem memoryStore_step (entries : String → Option StoredText) (nowMs : ℚ) :
    (memoryStore.comap (policy.attempt key)).step entries nowMs =
      match applyOtpSendAttempt (entries key) (policy.attempt key nowMs) with
      | .allowed nextRaw =>
          (Function.update entries key (some nextRaw), .allowed)
      | .denied retryAfterSeconds => (entries, .denied retryAfterSeconds) :=
  rfl

theorem memory_bisimulation :
    Transducer.Bisimulation (memoryStore.comap (policy.attempt key))
      (throttle policy key) (Remembers policy key) := by
  intro nowMs rest entries sends h
  have hrecent : recentOf policy.windowMs
      ((entries key).elim [] readOtpSendHistory) nowMs =
        recentOf policy.windowMs sends nowMs := by
    rw [h.stored, elim_storedOf]
    simp only [readOtpSendHistory_historyText]
    exact recentOf_stored h.ordered policy.windowMs
  have happly := applyOtpSendAttempt_eq (entries key)
    (policy.attempt key nowMs) hrecent
  rcases throttle_step sends nowMs with
    ⟨hdecision, hstep⟩ | ⟨retryAfterSeconds, hdecision, hstep⟩
  · rw [hdecision] at happly
    rw [memoryStore_step, happly, hstep]
    refine ⟨rfl, ?_, ?_⟩
    · rw [List.append_assoc]
      exact h.ordered
    · rw [storedOf_append]
      exact Function.update_self key _ entries
  · rw [hdecision] at happly
    rw [memoryStore_step, happly, hstep]
    exact ⟨rfl, h.ordered.sublist ((List.sublist_cons_self _ _).append_left _),
      h.stored⟩

/-- The key in Redis has the same text, for a window from the last send. -/
structure Keeps (policy : OtpPolicy) (key : String) (rest : List ℚ)
    (keyspace : TextKeyspace) (sends : List ℚ) : Prop where
  ordered : (sends ++ rest).Pairwise (· ≤ ·)
  stored : keyspace key = sends.getLast?.map fun last =>
    ⟨historyText (recentOf policy.windowMs sends last),
      last + policy.windowMs⟩

/-- A key that is gone has nothing that an attempt would find. -/
theorem Keeps.recent {rest : List ℚ} {nowMs : ℚ} {keyspace : TextKeyspace}
    {sends : List ℚ} (h : Keeps policy key (nowMs :: rest) keyspace sends)
    (numberOfText : CodeUnits → Option ℚ) :
    recentOf policy.windowMs
        (((keyspace.get key nowMs).elim [] parsedEntries).filterMap
          (tonumber numberOfText)) nowMs =
      recentOf policy.windowMs sends nowMs := by
  have hsends := recentOf_stored h.ordered policy.windowMs
  unfold TextKeyspace.get
  rw [h.stored]
  cases hlast : sends.getLast? with
  | none =>
      rw [hlast] at hsends
      exact hsends
  | some last =>
      rw [hlast, Option.map_some, Option.getD_some] at hsends
      rw [Option.map_some, Option.filter_some]
      by_cases hlive : nowMs ≤ last + policy.windowMs
      · rw [if_pos (decide_eq_true hlive), Option.map_some, Option.elim_some,
          parsedEntries_historyText]
        exact hsends
      · rw [if_neg (by simpa using hlive)]
        refine (List.filter_eq_nil_iff.mpr fun sentAt hmem => ?_).symm
        have hle := le_getLast h.ordered hlast sentAt hmem
        simp only [decide_eq_true_eq]
        linarith

theorem redis_bisimulation (numberOfText : CodeUnits → Option ℚ) :
    Transducer.Bisimulation
      ((redisStore numberOfText).comap (policy.attempt key))
      ((throttle policy key).mapAnswers some) (Keeps policy key) := by
  intro nowMs rest keyspace sends h
  have hscript := otpSendLua_eq numberOfText keyspace
    (policy.attempt key nowMs) nowMs policy.maxSends_pos
    (Nat.pos_iff_ne_zero.mp policy.window_pos) (h.recent numberOfText)
  have hredis : ((redisStore numberOfText).comap
      (policy.attempt key)).step keyspace nowMs =
        ((otpSendLua numberOfText keyspace (policy.attempt key nowMs)
            nowMs).1,
          (otpSendLua numberOfText keyspace (policy.attempt key nowMs)
            nowMs).2.bind parseOtpSendResult) := rfl
  have hthrottle : ((throttle policy key).mapAnswers some).step sends nowMs =
      (((throttle policy key).step sends nowMs).1,
        some ((throttle policy key).step sends nowMs).2) := rfl
  rcases throttle_step sends nowMs with
    ⟨hdecision, hstep⟩ | ⟨retryAfterSeconds, hdecision, hstep⟩
  · rw [hdecision] at hscript
    rw [hredis, hthrottle, hscript, hstep]
    refine ⟨rfl, ?_, ?_⟩
    · rw [List.append_assoc]
      exact h.ordered
    · rw [List.getLast?_concat, Option.map_some,
        recentOf_append_self policy.windowMs_pos]
      exact Function.update_self key _ keyspace
  · rw [hdecision] at hscript
    rw [hredis, hthrottle, hscript, hstep]
    exact ⟨decisionOn_denied hdecision,
      h.ordered.sublist ((List.sublist_cons_self _ _).append_left _),
      h.stored⟩

/-! ## The bounds

A send that is allowed finds the last one cooled and the window not full. From
this the bounds on all stretches follow, one send at a time. -/

/-- The times of the attempts that were allowed. -/
def sendTimes (clock : List ℚ) (decisions : List OtpSendDecision) : List ℚ :=
  ((clock.zip decisions).filter fun send => send.2 = .allowed).map Prod.fst

/-- No window has more than the most of the sends, whichever of its ends
belongs to it, and no two of them are nearer than the cooldown. -/
structure Throttled (policy : OtpPolicy) (sends : List ℚ) : Prop where
  from_start : ∀ startMs, (sends.filter fun sentAt =>
    startMs ≤ sentAt ∧ sentAt < startMs + policy.windowMs).length ≤
      policy.maxSendsPerHourPerIdentifier
  to_end : ∀ endMs, (sends.filter fun sentAt =>
    endMs - policy.windowMs < sentAt ∧ sentAt ≤ endMs).length ≤
      policy.maxSendsPerHourPerIdentifier
  apart : sends.Pairwise fun sentAt sentAt' =>
    sentAt + policy.cooldownMs ≤ sentAt'

theorem stateFrom_throttle (sends clock : List ℚ) :
    (throttle policy key).stateFrom sends clock =
      sends ++ sendTimes clock
        ((throttle policy key).answersFrom sends clock) := by
  induction clock generalizing sends with
  | nil => exact (List.append_nil sends).symm
  | cons nowMs rest ih =>
      rw [Transducer.stateFrom, Transducer.answersFrom, ih]
      rcases throttle_step sends nowMs with
        ⟨-, hstep⟩ | ⟨retryAfterSeconds, -, hstep⟩
      · rw [hstep, List.append_assoc]
        rfl
      · rw [hstep]
        rfl

/-- A send that was allowed found the others cooled down and few. -/
theorem decisionOn_allowed {attempt : OtpSendAttempt} {recent : List ℚ}
    (h : decisionOn attempt recent = .allowed) :
    (∀ last ∈ recent.getLast?, last + attempt.cooldownMs ≤ attempt.nowMs) ∧
      recent.length < attempt.maxSends := by
  unfold decisionOn at h
  cases hleft : cooldownLeft attempt recent with
  | some retryAfterSeconds =>
      rw [hleft] at h
      cases h
  | none =>
      rw [hleft] at h
      refine ⟨fun last hlast => ?_, ?_⟩
      · rw [cooldownLeft, hlast, Option.bind_some] at hleft
        by_contra hcold
        rw [if_pos (not_le.mp hcold)] at hleft
        cases hleft
      · by_contra hfull
        simp only [if_pos (not_lt.mp hfull)] at h
        cases h

/-- One more send, in a stretch that ends no later than it. -/
theorem length_filter_concat_le {sends : List ℚ} {nowMs : ℚ}
    {within : ℚ → Bool} {most : ℕ}
    (hbefore : (sends.filter within).length ≤ most)
    (hnow : within nowMs = true → ∃ windowMs,
      (∀ sentAt, within sentAt = true → nowMs - windowMs < sentAt) ∧
        (recentOf windowMs sends nowMs).length < most) :
    ((sends ++ [nowMs]).filter within).length ≤ most := by
  rw [List.filter_append, List.length_append, List.filter_singleton]
  cases hwithin : within nowMs with
  | false => exact hbefore
  | true =>
      obtain ⟨windowMs, hrecent, hfew⟩ := hnow hwithin
      have hle : (sends.filter within).length ≤
          (recentOf windowMs sends nowMs).length := by
        refine (List.monotone_filter_right sends ?_).length_le
        intro sentAt hsent
        exact decide_eq_true (hrecent sentAt hsent)
      exact Nat.add_one_le_iff.mpr (lt_of_le_of_lt hle hfew)

theorem throttled_step {sends rest : List ℚ} {nowMs : ℚ}
    (hordered : (sends ++ nowMs :: rest).Pairwise (· ≤ ·))
    (h : Throttled policy sends) :
    Throttled policy ((throttle policy key).step sends nowMs).1 := by
  rcases throttle_step sends nowMs with
    ⟨hdecision, hstep⟩ | ⟨retryAfterSeconds, -, hstep⟩
  swap
  · rw [hstep]
    exact h
  rw [hstep]
  obtain ⟨hcooled, hfew⟩ := decisionOn_allowed hdecision
  constructor
  · intro startMs
    refine length_filter_concat_le (h.from_start startMs) fun hnow => ?_
    rw [decide_eq_true_eq] at hnow
    refine ⟨policy.windowMs, fun sentAt hsent => ?_, hfew⟩
    rw [decide_eq_true_eq] at hsent
    linarith [hnow.2, hsent.1]
  · intro endMs
    refine length_filter_concat_le (h.to_end endMs) fun hnow => ?_
    rw [decide_eq_true_eq] at hnow
    refine ⟨policy.windowMs, fun sentAt hsent => ?_, hfew⟩
    rw [decide_eq_true_eq] at hsent
    linarith [hnow.2, hsent.1]
  · refine List.pairwise_append.mpr ⟨h.apart, List.pairwise_singleton _ _, ?_⟩
    intro sentAt hmem nowMs' hnow
    rw [List.mem_singleton.mp hnow]
    have hcool := policy.cooldownMs_nonneg
    have hle := policy.cooldownMs_le
    by_cases hrecent : nowMs - policy.windowMs < sentAt
    · -- The last of the recent sends is the latest of them.
      have hmem' : sentAt ∈ recentOf policy.windowMs sends nowMs :=
        List.mem_filter.mpr ⟨hmem, decide_eq_true hrecent⟩
      obtain ⟨last, hlast⟩ := Option.isSome_iff_exists.mp
        (List.getLast?_isSome.mpr (List.ne_nil_of_mem hmem'))
      have hsublist : (recentOf policy.windowMs sends nowMs ++ []).Pairwise
          (· ≤ ·) := by
        rw [List.append_nil]
        exact (List.pairwise_append.mp hordered).1.sublist
          List.filter_sublist
      have hlatest := le_getLast hsublist hlast sentAt hmem'
      have hcooled' : last + policy.cooldownMs ≤ nowMs := hcooled last hlast
      linarith
    · linarith

/-- The sends stay in order with the attempts to come. -/
theorem ordered_step {sends rest : List ℚ} {nowMs : ℚ}
    (h : (sends ++ nowMs :: rest).Pairwise (· ≤ ·)) :
    (((throttle policy key).step sends nowMs).1 ++ rest).Pairwise
      (· ≤ ·) := by
  rcases throttle_step sends nowMs with
    ⟨-, hstep⟩ | ⟨retryAfterSeconds, -, hstep⟩
  · rw [hstep, List.append_assoc]
    exact h
  · rw [hstep]
    exact h.sublist ((List.sublist_cons_self _ _).append_left _)

theorem throttled_sendTimes {clock : List ℚ}
    (hclock : clock.Pairwise (· ≤ ·)) :
    Throttled policy
      (sendTimes clock ((throttle policy key).answers clock)) := by
  have hinit : Throttled policy [] := by
    refine ⟨fun _ => Nat.zero_le _, fun _ => Nat.zero_le _, .nil⟩
  have hkept := Transducer.stateFrom_kept
    (P := fun rest sends => (sends ++ rest).Pairwise (· ≤ ·) ∧
      Throttled policy sends)
    (fun nowMs rest sends h =>
      ⟨@ordered_step policy key _ _ _ h.1, throttled_step h.1 h.2⟩)
    clock [] [] ⟨by rwa [List.append_nil], hinit⟩
  rw [stateFrom_throttle, List.nil_append] at hkept
  exact hkept.2

theorem memoryStore_answers {clock : List ℚ}
    (hclock : clock.Pairwise (· ≤ ·)) :
    memoryStore.answers (clock.map (policy.attempt key)) =
      (throttle policy key).answers clock := by
  rw [Transducer.answers_map]
  exact memory_bisimulation.answers_eq ⟨hclock, rfl⟩

theorem redisStore_answers (numberOfText : CodeUnits → Option ℚ)
    {clock : List ℚ} (hclock : clock.Pairwise (· ≤ ·)) :
    (redisStore numberOfText).answers (clock.map (policy.attempt key)) =
      ((throttle policy key).answers clock).map some := by
  rw [Transducer.answers_map, ← Transducer.answers_mapAnswers]
  exact (redis_bisimulation numberOfText).answers_eq ⟨hclock, rfl⟩

theorem memoryStore_denied (entries : String → Option StoredText)
    (attempt : OtpSendAttempt)
    (h : (memoryStore.step entries attempt).2 ≠ .allowed) :
    (memoryStore.step entries attempt).1 = entries := by
  unfold memoryStore at h ⊢
  dsimp only at h ⊢
  cases happly : applyOtpSendAttempt (entries attempt.key) attempt with
  | allowed nextRaw =>
      rw [happly] at h
      exact absurd rfl h
  | denied retryAfterSeconds => rfl

/-- The script writes when it lets a send through, and only then. -/
theorem otpSendLua_writes (numberOfText : CodeUnits → Option ℚ)
    (keyspace : TextKeyspace) (attempt : OtpSendAttempt) (serverMs : ℚ) :
    (otpSendLua numberOfText keyspace attempt serverMs).1 = keyspace ∨
      (otpSendLua numberOfText keyspace attempt serverMs).2 = some [1, 0] := by
  generalize hscript : otpSendLua numberOfText keyspace attempt serverMs =
    result
  unfold otpSendLua at hscript
  dsimp only at hscript
  split at hscript
  · exact Or.inl (hscript ▸ rfl)
  · split at hscript
    · split at hscript <;> exact Or.inl (hscript ▸ rfl)
    · split at hscript
      · exact Or.inl (hscript ▸ rfl)
      · exact Or.inr (hscript ▸ rfl)

theorem redisStore_denied (numberOfText : CodeUnits → Option ℚ)
    (keyspace : TextKeyspace) (attempt : OtpSendAttempt)
    (h : ((redisStore numberOfText).step keyspace attempt).2 ≠
      some .allowed) :
    ((redisStore numberOfText).step keyspace attempt).1 = keyspace := by
  rcases otpSendLua_writes numberOfText keyspace attempt attempt.nowMs with
    hkept | hreply
  · exact hkept
  · have hallowed : ((redisStore numberOfText).step keyspace attempt).2 =
        some .allowed :=
      congrArg (Option.bind · parseOtpSendResult) hreply
    exact absurd hallowed h

end Throttle

/-- With a clock that never goes back, what either store lets through is
throttled, both decide alike and say the same seconds at every attempt, and no
store writes anything when it does not let a send through. -/
theorem sends_throttled (policy : OtpPolicy) (key : String)
    (numberOfText : CodeUnits → Option ℚ) {clock : List ℚ}
    (hclock : clock.Pairwise (· ≤ ·)) :
    Throttled policy (sendTimes clock
        (memoryStore.answers (clock.map (policy.attempt key)))) ∧
      (redisStore numberOfText).answers (clock.map (policy.attempt key)) =
        (memoryStore.answers (clock.map (policy.attempt key))).map some ∧
      (∀ entries attempt, (memoryStore.step entries attempt).2 ≠ .allowed →
        (memoryStore.step entries attempt).1 = entries) ∧
      ∀ keyspace attempt,
        ((redisStore numberOfText).step keyspace attempt).2 ≠
            some .allowed →
          ((redisStore numberOfText).step keyspace attempt).1 = keyspace := by
  rw [memoryStore_answers hclock, redisStore_answers numberOfText hclock]
  exact ⟨throttled_sendTimes hclock, rfl, memoryStore_denied,
    redisStore_denied numberOfText⟩

/-- A resend too soon, five sends that fill the hour, one more, and one at the
very end of the first one's hour. -/
def hourOfSends : List ℚ :=
  [0, 30000, 60000, 120000, 180000, 240000, 300000, 3599999, 3600000]

theorem sends_throttled_hour :
    memoryStore.answers
        (hourOfSends.map (otpPolicy.attempt "otp-send:phone:380500000000")) =
      [.allowed, .denied 30, .allowed, .allowed, .allowed, .allowed,
        .denied 3300, .denied 1, .allowed] ∧
      (redisStore fun _ => none).answers
          (hourOfSends.map
            (otpPolicy.attempt "otp-send:phone:380500000000")) =
        (memoryStore.answers (hourOfSends.map
          (otpPolicy.attempt "otp-send:phone:380500000000"))).map some ∧
      Throttled otpPolicy [0, 60000, 120000, 180000, 240000, 3600000] := by
  have hclock : hourOfSends.Pairwise (· ≤ ·) := by decide
  have hanswers : memoryStore.answers
      (hourOfSends.map (otpPolicy.attempt "otp-send:phone:380500000000")) =
        [.allowed, .denied 30, .allowed, .allowed, .allowed, .allowed,
          .denied 3300, .denied 1, .allowed] := by
    decide +kernel
  obtain ⟨hthrottled, hredis, -⟩ := sends_throttled otpPolicy
    "otp-send:phone:380500000000" (fun _ => none) hclock
  have hsends : sendTimes hourOfSends
      [.allowed, .denied 30, .allowed, .allowed, .allowed, .allowed,
        .denied 3300, .denied 1, .allowed] =
      [0, 60000, 120000, 180000, 240000, 3600000] := by
    decide
  rw [hanswers, hsends] at hthrottled
  exact ⟨hanswers, hredis, hthrottled⟩

end Shozee.Auth
