import Shozee.Idempotency.Protocol
import Shozee.Confirmation.Gate

/-!
# Confirmed calls, interleaved

A call that must be confirmed looks its idempotency row up, then takes its
challenge out of the store, checks it, shows the card again where the
challenge carries one, and reserves under the grant; or it issues a challenge
and stops. Each access to the database or the store is one action, and so is
each reading of a clock and each card that `summarize` returns, so any number
of calls interleave between any two of them. A call that crashes takes no more
actions, and neither does one that its action's deadline has stopped: the
machine does not know `timeout`, so its runs are the code's and more.

From `reserve` on a call is one of the calls of the idempotency protocol,
which this machine moves by its own steps (`Act.idem`): the handler runs in
there. `origin` records where a grant came from, which the code does not need
to know.
-/

namespace Shozee.Confirmation

open Shozee.Run Shozee.Idempotency

/-- Where a call has its grant from. -/
inductive Origin
  | ungated
  | consumed
  | resumed
deriving DecidableEq, Repr

/-- Where one call is, until it has called `reserve`. -/
inductive Phase (I H R : Type)
  | idle
  | probing (call : KeyedCall I)
  | probed (call : KeyedCall I) (existing : Row H R)
  | gating (call : KeyedCall I)
  | consumed (call : KeyedCall I) (challengeId : ChallengeId)
      (raw : Option (StoredChallenge H))
  | rechecking (call : KeyedCall I) (stored : StoredChallenge H)
      (nowMs : Nat)
  | presenting (call : KeyedCall I)
  | issuing (call : KeyedCall I) (card : Card)
  | granted (call : KeyedCall I) (grant : Option ConfirmationGrant)
      (origin : Origin)
  | reserving (call : KeyedCall I) (grant : Option ConfirmationGrant)
      (origin : Origin)
  | ended

/-- `drawn` records the challenge ids that `randomUUID()` has returned. -/
structure State (I H R : Type) where
  idem : Idempotency.State H R
  phase : Nat → Phase I H R
  challenges : ChallengeId → Option (StoredChallenge H)
  drawn : ChallengeId → Bool

/-- The steps of a call through the gate, one for each read or write that
others may come between. -/
inductive Act (I H R : Type)
  | arrive (p : Nat) (env : CallEnv I)
  | probe (p : Nat)
  | interpret (p : Nat) (nowMs : Nat)
  | consume (p : Nat)
  | check (p : Nat) (nowMs : Nat)
  | recheck (p : Nat) (card : Card)
  | present (p : Nat) (card : Card)
  | issue (p : Nat) (challengeId : ChallengeId) (nowMs : Nat)
  | reserve (p : Nat)
  | expire (challengeId : ChallengeId)
  | idem (a : Idempotency.Act H R)

/-- What a step reports. `ran` is a handler run without a reservation; the
others are the idempotency protocol's. -/
inductive Event (I H R : Type)
  | refused (p : Nat) (e : CoreError)
  | probed (p : Nat) (identity : RowIdentity)
  | answered (p : Nat) (result : ProbeResult R)
  | consumed (p : Nat) (stored : StoredChallenge H)
  | confirmed (p : Nat) (call : KeyedCall I) (stored : StoredChallenge H)
      (nowMs : Nat) (card : Option Card)
  | confirmationRequired (p : Nat) (challengeId : ChallengeId) (card : Card)
      (expiresAt : Nat)
  | admitted (p : Nat) (call : KeyedCall I)
      (grant : Option ConfirmationGrant)
  | ran (p : Nat) (env : CallEnv I)
  | idem (e : Idempotency.Event H R)

variable {I H R : Type}

/-- Nothing stored and no call. -/
def State.initial : State I H R where
  idem := .initial
  phase := fun _ => .idle
  challenges := fun _ => none
  drawn := fun _ => false

/-- One call changed. -/
def State.setPhase (s : State I H R) (p : Nat) (ph : Phase I H R) :
    State I H R :=
  { s with phase := Function.update s.phase p ph }

/-- One challenge stored or dropped. -/
def State.setChallenge (s : State I H R) (challengeId : ChallengeId)
    (stored : Option (StoredChallenge H)) : State I H R :=
  { s with challenges := Function.update s.challenges challengeId stored }

/-- The rows of the reservations changed. -/
def State.setIdem (s : State I H R) (idem : Idempotency.State H R) :
    State I H R :=
  { s with idem }

/-- A challenge's id drawn. -/
def State.draw (s : State I H R) (challengeId : ChallengeId) : State I H R :=
  { s with drawn := Function.update s.drawn challengeId true }

/-- The call was made to be confirmed and not to run. -/
def confirmationOnlyProblem (env : CallEnv I) : CoreError :=
  .coreInvariant ("\"" ++ env.contract.name ++
    "\" was invoked confirmation-only but the confirmation gate returned " ++
    "a grant (core.md §7)")

variable (D : Digest I H) [DecidableEq H]

/-- One action of one call, of the challenge store, or of the idempotency
protocol. -/
def step (s : State I H R) :
    Act I H R → Option (State I H R × List (Event I H R))
  | .arrive p env =>
      match s.phase p with
      | .idle =>
          match routeOf env with
          | .error e => some (s.setPhase p .ended, [.refused p e])
          | .ok .direct => some (s.setPhase p .ended, [.ran p env])
          | .ok (.reserve call) =>
              some (s.setPhase p (.granted call none .ungated), [])
          | .ok (.gate call) => some (s.setPhase p (.probing call), [])
      | _ => none
  | .probe p =>
      match s.phase p with
      | .probing call =>
          match s.idem.table call.identity with
          | none => some (s.setPhase p (.gating call), [])
          | some row =>
              some (s.setPhase p (.probed call row),
                [.probed p call.identity])
      | _ => none
  | .interpret p nowMs =>
      match s.phase p with
      | .probed call existing =>
          match interpretProbeRow existing (call.requestHash D) nowMs with
          | .fresh => some (s.setPhase p (.gating call), [])
          | .resume grant =>
              if call.env.request.confirmationOnly then
                some (s.setPhase p (.gating call), [])
              else
                some (s.setPhase p (.granted call (some grant) .resumed), [])
          | result => some (s.setPhase p .ended, [.answered p result])
      | _ => none
  | .consume p =>
      match s.phase p with
      | .gating call =>
          if call.env.request.confirmationOnly then
            some (s.setPhase p (.presenting call), [])
          else
            match call.env.request.confirmationChallengeId with
            | none => some (s.setPhase p (.presenting call), [])
            | some challengeId =>
                some ((s.setChallenge challengeId none).setPhase p
                  (.consumed call challengeId (s.challenges challengeId)),
                  (s.challenges challengeId).toList.map (.consumed p))
      | _ => none
  | .check p nowMs =>
      match s.phase p with
      | .consumed call challengeId raw =>
          match challengeAccepted D call challengeId raw nowMs with
          | none => some (s.setPhase p (.presenting call), [])
          | some stored =>
              match stored.previewHash with
              | none =>
                  some (s.setPhase p
                    (.granted call (some (stored.grant nowMs)) .consumed),
                    [.confirmed p call stored nowMs none])
              | some _ =>
                  some (s.setPhase p (.rechecking call stored nowMs), [])
      | _ => none
  | .recheck p card =>
      match s.phase p with
      | .rechecking call stored nowMs =>
          if previewHashOf D card = stored.previewHash then
            some (s.setPhase p
              (.granted call (some (stored.grant nowMs)) .consumed),
              [.confirmed p call stored nowMs (some card)])
          else some (s.setPhase p (.issuing call card), [])
      | _ => none
  | .present p card =>
      match s.phase p with
      | .presenting call => some (s.setPhase p (.issuing call card), [])
      | _ => none
  | .issue p challengeId nowMs =>
      match s.phase p, s.drawn challengeId with
      | .issuing call card, false =>
          some (((s.draw challengeId).setChallenge challengeId
            (some (challengeRecord D call challengeId nowMs card))).setPhase p
            .ended,
            [.confirmationRequired p challengeId card
              (nowMs + confirmationTtlMs)])
      | _, _ => none
  | .reserve p =>
      match s.phase p with
      | .granted call grant origin =>
          if call.env.request.confirmationOnly then
            some (s.setPhase p .ended,
              [.refused p (confirmationOnlyProblem call.env)])
          else if reserves call.env then
            match Idempotency.step s.idem
                (.call p (call.reserveEnv D grant)) with
            | some (idem, _) =>
                some ((s.setIdem idem).setPhase p
                  (.reserving call grant origin), [.admitted p call grant])
            | none => none
          else some (s.setPhase p .ended, [.ran p call.env])
      | _ => none
  | .expire challengeId => some (s.setChallenge challengeId none, [])
  | .idem (.call _ _) => none
  | .idem a =>
      match Idempotency.step s.idem a with
      | some (idem, out) => some (s.setIdem idem, out.map .idem)
      | none => none

/-- All the calls on one database and one challenge store. -/
def protocol : Machine (State I H R) (Act I H R) (Event I H R) where
  init := .initial
  step := step D

/-- The runs with one non-decreasing clock. -/
def OneClock (c : Conf (State I H R) (Event I H R)) : Act I H R → Prop
  | .interpret _ nowMs => nowMs = c.st.idem.clock
  | .check _ nowMs => nowMs = c.st.idem.clock
  | .issue _ _ nowMs => nowMs = c.st.idem.clock
  | .idem a => Idempotency.OneClock ⟨c.st.idem, []⟩ a
  | _ => True

instance (c : Conf (State I H R) (Event I H R)) :
    ∀ a : Act I H R, Decidable (OneClock c a)
  | .interpret _ nowMs =>
      inferInstanceAs (Decidable (nowMs = c.st.idem.clock))
  | .check _ nowMs => inferInstanceAs (Decidable (nowMs = c.st.idem.clock))
  | .issue _ _ nowMs => inferInstanceAs (Decidable (nowMs = c.st.idem.clock))
  | .idem a =>
      inferInstanceAs (Decidable (Idempotency.OneClock ⟨c.st.idem, []⟩ a))
  | .arrive _ _ | .probe _ | .consume _ | .recheck _ _ | .present _ _
  | .reserve _ | .expire _ => .isTrue trivial

/-! ## What the setters leave alone

A setter writes one field of the state and reads the others back unchanged. All
are by `rfl`. -/

section Frame

omit [DecidableEq H]

variable (s : State I H R) (p q : Nat) (ph : Phase I H R)
  (ch ch' : ChallengeId) (stored : Option (StoredChallenge H))

@[simp] theorem setPhase_idem : (s.setPhase p ph).idem = s.idem := rfl
@[simp] theorem setPhase_challenges :
    (s.setPhase p ph).challenges = s.challenges := rfl
@[simp] theorem setPhase_drawn : (s.setPhase p ph).drawn = s.drawn := rfl
@[simp] theorem setChallenge_idem :
    (s.setChallenge ch stored).idem = s.idem := rfl
@[simp] theorem setChallenge_phase :
    (s.setChallenge ch stored).phase = s.phase := rfl
@[simp] theorem setChallenge_drawn :
    (s.setChallenge ch stored).drawn = s.drawn := rfl
@[simp] theorem setIdem_idem (idem : Idempotency.State H R) :
    (s.setIdem idem).idem = idem := rfl
@[simp] theorem setIdem_phase (idem : Idempotency.State H R) :
    (s.setIdem idem).phase = s.phase := rfl
@[simp] theorem setIdem_challenges (idem : Idempotency.State H R) :
    (s.setIdem idem).challenges = s.challenges := rfl
@[simp] theorem setIdem_drawn (idem : Idempotency.State H R) :
    (s.setIdem idem).drawn = s.drawn := rfl
@[simp] theorem draw_idem : (s.draw ch).idem = s.idem := rfl
@[simp] theorem draw_phase : (s.draw ch).phase = s.phase := rfl
@[simp] theorem draw_challenges : (s.draw ch).challenges = s.challenges := rfl

@[simp] theorem setPhase_phase :
    (s.setPhase p ph).phase q = if q = p then ph else s.phase q :=
  Function.update_apply _ _ _ _

@[simp] theorem setChallenge_challenges :
    (s.setChallenge ch stored).challenges ch' =
      if ch' = ch then stored else s.challenges ch' :=
  Function.update_apply _ _ _ _

@[simp] theorem draw_drawn :
    (s.draw ch).drawn ch' = if ch' = ch then true else s.drawn ch' :=
  Function.update_apply _ _ _ _

end Frame

/-! ## What a step can be

One constructor for each way a call can go on, with the guards that the code
checks there. Every invariant below is a case analysis on `Moves` and never on
`step`. -/

/-- What a step does, one case for each way that it can go. -/
inductive Moves (s : State I H R) :
    Act I H R → State I H R → List (Event I H R) → Prop
  | arriveRefused {p env e} (hph : s.phase p = .idle) :
      Moves s (.arrive p env) (s.setPhase p .ended) [.refused p e]
  | arriveDirect {p env} (hph : s.phase p = .idle)
      (hroute : routeOf env = .ok .direct) :
      Moves s (.arrive p env) (s.setPhase p .ended) [.ran p env]
  | arriveUngated {p env call} (hph : s.phase p = .idle)
      (hroute : routeOf env = .ok (.reserve call)) :
      Moves s (.arrive p env) (s.setPhase p (.granted call none .ungated)) []
  | arriveGated {p env call} (hph : s.phase p = .idle)
      (hroute : routeOf env = .ok (.gate call)) :
      Moves s (.arrive p env) (s.setPhase p (.probing call)) []
  | probeNone {p call} (hph : s.phase p = .probing call) :
      Moves s (.probe p) (s.setPhase p (.gating call)) []
  | probeRow {p call row} (hph : s.phase p = .probing call)
      (hrow : s.idem.table call.identity = some row) :
      Moves s (.probe p) (s.setPhase p (.probed call row))
        [.probed p call.identity]
  | interpretGate {p nowMs call existing}
      (hph : s.phase p = .probed call existing) :
      Moves s (.interpret p nowMs) (s.setPhase p (.gating call)) []
  | interpretResume {p nowMs call existing grant}
      (hph : s.phase p = .probed call existing)
      (hprobe : interpretProbeRow existing (call.requestHash D) nowMs =
        .resume grant)
      (hruns : call.env.request.confirmationOnly = false) :
      Moves s (.interpret p nowMs)
        (s.setPhase p (.granted call (some grant) .resumed)) []
  | interpretAnswer {p nowMs call existing result}
      (hph : s.phase p = .probed call existing) :
      Moves s (.interpret p nowMs) (s.setPhase p .ended) [.answered p result]
  | consumeNone {p call} (hph : s.phase p = .gating call) :
      Moves s (.consume p) (s.setPhase p (.presenting call)) []
  | consume {p call challengeId} (hph : s.phase p = .gating call)
      (hruns : call.env.request.confirmationOnly = false) :
      Moves s (.consume p)
        ((s.setChallenge challengeId none).setPhase p
          (.consumed call challengeId (s.challenges challengeId)))
        ((s.challenges challengeId).toList.map (.consumed p))
  | checkRejected {p nowMs call challengeId raw}
      (hph : s.phase p = .consumed call challengeId raw) :
      Moves s (.check p nowMs) (s.setPhase p (.presenting call)) []
  | checkPlain {p nowMs call challengeId raw stored}
      (hph : s.phase p = .consumed call challengeId raw)
      (haccepted : challengeAccepted D call challengeId raw nowMs =
        some stored)
      (hcard : stored.previewHash = none) :
      Moves s (.check p nowMs)
        (s.setPhase p
          (.granted call (some (stored.grant nowMs)) .consumed))
        [.confirmed p call stored nowMs none]
  | checkCard {p nowMs call challengeId raw stored}
      (hph : s.phase p = .consumed call challengeId raw)
      (haccepted : challengeAccepted D call challengeId raw nowMs =
        some stored) :
      Moves s (.check p nowMs) (s.setPhase p (.rechecking call stored nowMs))
        []
  | recheckSame {p card call stored nowMs}
      (hph : s.phase p = .rechecking call stored nowMs)
      (hcard : previewHashOf D card = stored.previewHash) :
      Moves s (.recheck p card)
        (s.setPhase p
          (.granted call (some (stored.grant nowMs)) .consumed))
        [.confirmed p call stored nowMs (some card)]
  | recheckOther {p card call stored nowMs}
      (hph : s.phase p = .rechecking call stored nowMs) :
      Moves s (.recheck p card) (s.setPhase p (.issuing call card)) []
  | present {p card call} (hph : s.phase p = .presenting call) :
      Moves s (.present p card) (s.setPhase p (.issuing call card)) []
  | issue {p challengeId nowMs call card}
      (hph : s.phase p = .issuing call card)
      (hfresh : s.drawn challengeId = false) :
      Moves s (.issue p challengeId nowMs)
        (((s.draw challengeId).setChallenge challengeId
          (some (challengeRecord D call challengeId nowMs card))).setPhase p
          .ended)
        [.confirmationRequired p challengeId card (nowMs + confirmationTtlMs)]
  | reserveRefused {p call grant origin}
      (hph : s.phase p = .granted call grant origin) :
      Moves s (.reserve p) (s.setPhase p .ended)
        [.refused p (confirmationOnlyProblem call.env)]
  | reserve {p call grant origin}
      (hph : s.phase p = .granted call grant origin)
      (hruns : call.env.request.confirmationOnly = false)
      (hidle : s.idem.phase p = .idle) :
      Moves s (.reserve p)
        ((s.setIdem (s.idem.setPhase p
          (.starting (call.reserveEnv D grant) 0))).setPhase p
          (.reserving call grant origin))
        [.admitted p call grant]
  | reserveDirect {p call grant origin}
      (hph : s.phase p = .granted call grant origin)
      (hdirect : reserves call.env = false) :
      Moves s (.reserve p) (s.setPhase p .ended) [.ran p call.env]
  | expire {challengeId} :
      Moves s (.expire challengeId) (s.setChallenge challengeId none) []
  | idem {a idem out}
      (hstep : Idempotency.step s.idem a = some (idem, out))
      (hcall : ∀ p env, a ≠ .call p env) :
      Moves s (.idem a) (s.setIdem idem) (out.map .idem)

/-! ## Action by action

Every branch of `step` that is taken is one of the constructors. -/

section Actions

variable {s s' : State I H R} {out : List (Event I H R)}

-- The equations of `step` are made once, for all the lemmas of the section.
attribute [local simp] step

theorem moves_of_arrive {p : Nat} {env : CallEnv I}
    (h : step D s (.arrive p env) = some (s', out)) :
    Moves D s (.arrive p env) s' out := by
  simp only [step] at h
  split at h
  · next hph =>
      split at h
      · cases h; exact .arriveRefused hph
      · next hroute => cases h; exact .arriveDirect hph hroute
      · next hroute => cases h; exact .arriveUngated hph hroute
      · next hroute => cases h; exact .arriveGated hph hroute
  · cases h

theorem moves_of_probe {p : Nat}
    (h : step D s (.probe p) = some (s', out)) :
    Moves D s (.probe p) s' out := by
  simp only [step] at h
  split at h
  · next hph =>
      split at h
      · cases h; exact .probeNone hph
      · next hrow => cases h; exact .probeRow hph hrow
  · cases h

theorem moves_of_interpret {p nowMs : Nat}
    (h : step D s (.interpret p nowMs) = some (s', out)) :
    Moves D s (.interpret p nowMs) s' out := by
  simp only [step] at h
  split at h
  · next hph =>
      split at h
      · cases h; exact .interpretGate hph
      · next hprobe =>
          split at h
          · cases h; exact .interpretGate hph
          · next hruns =>
              cases h
              exact .interpretResume hph hprobe
                (Bool.of_not_eq_true hruns)
      · cases h; exact .interpretAnswer hph
  · cases h

theorem moves_of_consume {p : Nat}
    (h : step D s (.consume p) = some (s', out)) :
    Moves D s (.consume p) s' out := by
  simp only [step] at h
  split at h
  · next hph =>
      split at h
      · cases h; exact .consumeNone hph
      · next hruns =>
          split at h
          · cases h; exact .consumeNone hph
          · cases h; exact .consume hph (Bool.of_not_eq_true hruns)
  · cases h

theorem moves_of_check {p nowMs : Nat}
    (h : step D s (.check p nowMs) = some (s', out)) :
    Moves D s (.check p nowMs) s' out := by
  simp only [step] at h
  split at h
  · next hph =>
      split at h
      · cases h; exact .checkRejected hph
      · next haccepted =>
          split at h
          · next hcard => cases h; exact .checkPlain hph haccepted hcard
          · cases h; exact .checkCard hph haccepted
  · cases h

theorem moves_of_recheck {p : Nat} {card : Card}
    (h : step D s (.recheck p card) = some (s', out)) :
    Moves D s (.recheck p card) s' out := by
  simp only [step] at h
  split at h
  · next hph =>
      split at h
      · next hcard => cases h; exact .recheckSame hph hcard
      · cases h; exact .recheckOther hph
  · cases h

theorem moves_of_reserve {p : Nat}
    (h : step D s (.reserve p) = some (s', out)) :
    Moves D s (.reserve p) s' out := by
  simp only [step] at h
  split at h
  · next hph =>
      split at h
      · cases h; exact .reserveRefused hph
      · next hruns =>
          split at h
          · split at h
            · next hstep =>
                cases h
                cases Idempotency.moves_of_step hstep with
                | call hidle =>
                    exact .reserve hph (Bool.of_not_eq_true hruns) hidle
            · cases h
          · next hdirect =>
              cases h
              exact .reserveDirect hph (Bool.of_not_eq_true hdirect)
  · cases h

theorem moves_of_idem {a : Idempotency.Act H R}
    (h : step D s (.idem a) = some (s', out)) :
    Moves D s (.idem a) s' out := by
  cases a with
  | call p env => cases h
  | _ =>
      simp only [step] at h
      split at h
      · next hstep =>
          cases h
          exact .idem hstep (by rintro _ _ ⟨⟩)
      · cases h

end Actions

theorem moves_of_step {s s' : State I H R} {a : Act I H R}
    {out : List (Event I H R)} (h : step D s a = some (s', out)) :
    Moves D s a s' out := by
  cases a with
  | arrive => exact moves_of_arrive D h
  | probe => exact moves_of_probe D h
  | interpret => exact moves_of_interpret D h
  | consume => exact moves_of_consume D h
  | check => exact moves_of_check D h
  | recheck => exact moves_of_recheck D h
  | present p card =>
      simp only [step] at h
      split at h
      · next hph => cases h; exact .present hph
      · cases h
  | issue p challengeId nowMs =>
      simp only [step] at h
      split at h
      · next hph hfresh => cases h; exact .issue hph hfresh
      · cases h
  | reserve => exact moves_of_reserve D h
  | expire challengeId => cases h; exact .expire
  | idem => exact moves_of_idem D h

/-- A step of a configuration, as `Moves`. -/
theorem moves_of_next {c c' : Conf (State I H R) (Event I H R)}
    {a : Act I H R} (h : (protocol D).next c a = some c') :
    ∃ s out, Moves D c.st a s out ∧ c' = ⟨s, out ++ c.log⟩ := by
  obtain ⟨s, out, hstep, rfl⟩ := Machine.next_eq_some.mp h
  exact ⟨s, out, moves_of_step D hstep, rfl⟩

/-! ## The idempotency protocol inside

The gate reads rows and reserves, and does nothing else with them. So the rows,
with the events that concern them, run as in the idempotency protocol alone,
and what holds in its every reachable state holds here. -/

/-- What an event tells of the idempotency protocol. -/
def Event.seen : Event I H R → Option (Idempotency.Event H R)
  | .idem e => some e
  | _ => none

omit [DecidableEq H] in
theorem filterMap_seen (out : List (Idempotency.Event H R)) :
    (out.map (Event.idem (I := I))).filterMap Event.seen = out := by
  rw [List.filterMap_map]
  exact List.filterMap_some

omit [DecidableEq H] in
theorem filterMap_seen_consumed {p : Nat}
    (raw : Option (StoredChallenge H)) :
    (raw.toList.map (Event.consumed (I := I) (R := R) p)).filterMap
      Event.seen = [] := by
  cases raw <;> rfl

/-- Whatever the gate does, the rows see calls of the idempotency protocol. -/
def rowView : Simulation (protocol (R := R) D)
    (Idempotency.protocol (H := H) (R := R)) where
  proj := State.idem
  seen := Event.seen
  init_eq := rfl
  step_sim := by
    intro s a s' out h
    cases moves_of_step D h with
    | @reserve p call grant origin hph hruns hidle =>
        refine Or.inr ⟨.call p (call.reserveEnv D grant), ?_⟩
        show Idempotency.step s.idem (.call p (call.reserveEnv D grant)) = _
        simp only [Idempotency.step, hidle]
        rfl
    | @idem a idem out hstep hcall =>
        refine Or.inr ⟨a, ?_⟩
        show Idempotency.step s.idem a = some (idem, _)
        rw [filterMap_seen, hstep]
    | consume hph =>
        exact Or.inl ⟨rfl, filterMap_seen_consumed _⟩
    | _ => exact Or.inl ⟨rfl, rfl⟩

end Shozee.Confirmation
