import Shozee.Confirmation.Cards
import Shozee.Orders.Create

/-!
# Orders behind the confirmation gate

A call of `orders.create` that has to be confirmed resolves its draft three
times over its life: for the card that the person is shown, for the card that
the gate builds again when the challenge comes back, and in the handler. Each
resolution makes its nested calls one after another, and between any two of
them prices, products and customers change: `now` is what the nested calls
would answer at the moment, and any action may be a change of it.

This machine moves the confirmation protocol by its own steps, with the cards
that `createOrderPreview` makes. `carded` is what holds of every order it
commits under a grant, whichever attempt commits it. The order is the one on
the card if the handler's draft has that card; the gate has made sure of the
draft that was there when the challenge came back, and the last section has a
price that changes after that.
-/

namespace Shozee.Orders

open Shozee.Run
open Shozee.Confirmation hiding State Act Event step Moves moves_of_step
  moves_of_next filterMap_seen Event.seen

/-- What the gate reads of the contract of `orders.create`. -/
def createOrderContract : ActionContract where
  name := "orders.create"
  principal := .staff
  risk := .write
  idempotent := true
  requiresConfirmation := false
  timeout := 20000
  valid := rfl

/-- `bindConfirmationSummary`: an action with a preview has its title as the
summary. -/
def confirmationCard (preview : ActionPreview) : Card :=
  { summary := preview.title, preview := some preview }

/-- The hash also tells inputs and cards apart. -/
structure CardDigest (I H : Type) extends Digest I H where
  input_inj : ∀ i i', sha256 (.input i) = sha256 (.input i') → i = i'
  preview_inj : ∀ v v', sha256 (.preview v) = sha256 (.preview v') → v = v'

/-- An order that has been written and not yet committed, with what it was
made from. -/
structure Written where
  call : KeyedCall CreateOrderInput
  grant : Option Idempotency.ConfirmationGrant
  draft : CreateOrderDraft
  order : StaffOrder

/-- `moments` has, newest first, what was there to answer when each nested
call of the draft in hand was made. -/
structure State (H : Type) where
  gate : Confirmation.State CreateOrderInput H CreateOrderSummary
  now : CtxCall
  moments : ℕ → List CtxCall
  written : ℕ → Option Written

/-- The steps of the system: those of the gate, with what the calls of other
modules answer by then. -/
inductive Act (H : Type)
  | change (now : CtxCall)
  | call (p : ℕ)
  | present (p : ℕ)
  | recheck (p : ℕ)
  | create (p : ℕ) (draws : OrderDraws)
  | commit (p : ℕ)
  | gate (a : Confirmation.Act CreateOrderInput H CreateOrderSummary)

/-- `rechecked` is the draft of the card that the gate builds again, and
`created` an order that is committed. -/
inductive Event (H : Type)
  | gate (e : Confirmation.Event CreateOrderInput H CreateOrderSummary)
  | rechecked (p : ℕ) (stored : StoredChallenge H) (draft : CreateOrderDraft)
  | created (p : ℕ) (written : Written)

variable {H : Type}

/-- Nothing is there. -/
def CtxCall.empty : CtxCall where
  resolveCustomerReference := fun _ =>
    .error (.called "customers.resolveCustomerReference")
  resolveLineReferences := fun _ =>
    .error (.called "catalog.resolveLineReferences")
  resolveProductPrices := fun _ _ =>
    .error (.called "pricing.resolveProductPrices")

/-- Nothing stored and no call. -/
def State.initial : State H where
  gate := .initial
  now := .empty
  moments := fun _ => []
  written := fun _ => none

/-- The call is where it resolves a draft: in `summarize` or in its
handler. -/
def State.resolving (s : State H) (p : ℕ) : Bool :=
  match s.gate.phase p with
  | .presenting _ | .rechecking _ _ _ => true
  | .reserving _ _ _ =>
      match s.gate.idem.phase p with
      | .executing _ _ _ => true
      | _ => false
  | _ => false

/-- The nested calls of one draft, each answered when it was made. -/
def State.calls (s : State H) (p : ℕ) : Option CtxCall :=
  match s.moments p with
  | [third, second, first] =>
      some
        { resolveCustomerReference := first.resolveCustomerReference
          resolveLineReferences := second.resolveLineReferences
          resolveProductPrices := third.resolveProductPrices }
  | _ => none

/-- The draft is resolved, and the gate has moved. -/
def State.resolved (s : State H) (p : ℕ)
    (gate : Confirmation.State CreateOrderInput H CreateOrderSummary) :
    State H :=
  { s with gate, moments := Function.update s.moments p [] }

/-- What the gate does by itself. Only `orders.create` comes to it here, and
its cards and its rows are made by the other actions. -/
def byGate : Confirmation.Act CreateOrderInput H CreateOrderSummary → Bool
  | .arrive _ env => env.contract = createOrderContract
  | .present _ _ | .recheck _ _ => false
  | .idem (.finalize _ _) | .idem (.commit _) => false
  | _ => true

variable (D : Digest CreateOrderInput H) [DecidableEq H]

/-- A call that a draft, a card or an order fails to be made for takes no more
actions before its handler, and in its handler it rolls back. -/
def step (s : State H) : Act H → Option (State H × List (Event H))
  | .change now => some ({ s with now }, [])
  | .call p =>
      if s.resolving p ∧ (s.moments p).length < 3 then
        some ({ s with
          moments := Function.update s.moments p (s.now :: s.moments p) }, [])
      else none
  | .present p =>
      match s.gate.phase p, s.calls p with
      | .presenting call, some ctxCall =>
          match createOrderPreview ctxCall call.env.input with
          | .ok preview =>
              match Confirmation.step D s.gate
                  (.present p (confirmationCard preview)) with
              | some (gate, out) => some (s.resolved p gate, out.map .gate)
              | none => none
          | .error _ => none
      | _, _ => none
  | .recheck p =>
      match s.gate.phase p, s.calls p with
      | .rechecking call stored _, some ctxCall =>
          match resolveCreateOrderDraft ctxCall call.env.input with
          | .ok draft =>
              match draftPreview call.env.input draft with
              | .ok preview =>
                  match Confirmation.step D s.gate
                      (.recheck p (confirmationCard preview)) with
                  | some (gate, out) =>
                      some (s.resolved p gate,
                        .rechecked p stored draft :: out.map .gate)
                  | none => none
              | .error _ => none
          | .error _ => none
      | _, _ => none
  | .create p draws =>
      match s.gate.phase p, s.calls p with
      | .reserving call grant _, some ctxCall =>
          match resolveCreateOrderDraft ctxCall call.env.input with
          | .ok draft =>
              match createStaffOrder draws call.env.input.comment draft with
              | .ok order =>
                  match Confirmation.step D s.gate
                      (.idem (.finalize p order.summary)) with
                  | some (gate, out) =>
                      some ({ s.resolved p gate with
                        written := Function.update s.written p
                          (some ⟨call, grant, draft, order⟩) },
                        out.map .gate)
                  | none => none
              | .error _ => none
          | .error _ => none
      | _, _ => none
  | .commit p =>
      match s.written p, Confirmation.step D s.gate (.idem (.commit p)) with
      | some written, some (gate, out) =>
          some ({ s with gate }, .created p written :: out.map .gate)
      | _, _ => none
  | .gate a =>
      if byGate a then
        match Confirmation.step D s.gate a with
        | some (gate, out) => some ({ s with gate }, out.map .gate)
        | none => none
      else none

/-- All the calls of `orders.create` on one database and one store. -/
def orders : Machine (State H) (Act H) (Event H) where
  init := .initial
  step := step D

/-! ## What a step can be

The steps of the gate, and those that resolve drafts and write orders around
it. The gate sees a run of its own protocol, whatever the others do. -/

/-- What a step does, one case for each way that it can go. -/
inductive Moves (s : State H) : Act H → State H → List (Event H) → Prop
  | change {now} : Moves s (.change now) { s with now } []
  | call {p moments} : Moves s (.call p) { s with moments } []
  | present {p ctxCall preview gate out} {call : KeyedCall CreateOrderInput}
      (hpreview : createOrderPreview ctxCall call.env.input = .ok preview)
      (hgate : Confirmation.step D s.gate
        (.present p (confirmationCard preview)) = some (gate, out)) :
      Moves s (.present p) (s.resolved p gate) (out.map .gate)
  | recheck {p call stored nowMs draft preview gate out}
      (hph : s.gate.phase p = .rechecking call stored nowMs)
      (hpreview : draftPreview call.env.input draft = .ok preview)
      (hgate : Confirmation.step D s.gate
        (.recheck p (confirmationCard preview)) = some (gate, out)) :
      Moves s (.recheck p) (s.resolved p gate)
        (.rechecked p stored draft :: out.map .gate)
  | create {p draws call grant origin draft order gate out}
      (hph : s.gate.phase p = .reserving call grant origin)
      (horder : createStaffOrder draws call.env.input.comment draft =
        .ok order)
      (hgate : Confirmation.step D s.gate (.idem (.finalize p order.summary)) =
        some (gate, out)) :
      Moves s (.create p draws)
        { s.resolved p gate with
          written := Function.update s.written p
            (some ⟨call, grant, draft, order⟩) }
        (out.map .gate)
  | commit {p written gate out} (hwritten : s.written p = some written)
      (hgate : Confirmation.step D s.gate (.idem (.commit p)) =
        some (gate, out)) :
      Moves s (.commit p) { s with gate }
        (.created p written :: out.map .gate)
  | gate {a gate out} (hby : byGate a = true)
      (hgate : Confirmation.step D s.gate a = some (gate, out)) :
      Moves s (.gate a) { s with gate } (out.map .gate)

variable {D}

theorem moves_of_step {s s' : State H} {a : Act H} {out : List (Event H)}
    (h : step D s a = some (s', out)) : Moves D s a s' out := by
  cases a with
  | change now => cases h; exact .change
  | call p =>
      simp only [step] at h
      split at h
      · cases h; exact .call
      · cases h
  | present p =>
      simp only [step] at h
      split at h
      · split at h
        · next hpreview =>
            split at h
            · next hgate => cases h; exact .present hpreview hgate
            · cases h
        · cases h
      · cases h
  | recheck p =>
      simp only [step] at h
      split at h
      · next hph _ =>
          split at h
          · split at h
            · next hpreview =>
                split at h
                · next hgate => cases h; exact .recheck hph hpreview hgate
                · cases h
            · cases h
          · cases h
      · cases h
  | create p draws =>
      simp only [step] at h
      split at h
      · next hph _ =>
          split at h
          · split at h
            · next horder =>
                split at h
                · next hgate => cases h; exact .create hph horder hgate
                · cases h
            · cases h
          · cases h
      · cases h
  | commit p =>
      simp only [step] at h
      split at h
      · next hwritten hgate => cases h; exact .commit hwritten hgate
      · cases h
  | gate a =>
      simp only [step] at h
      split at h
      · next hby =>
          split at h
          · next hgate => cases h; exact .gate hby hgate
          · cases h
      · cases h

/-- Whatever the calls do, the gate sees calls of the confirmation
protocol. -/
def Event.seen : Event H →
    Option (Confirmation.Event CreateOrderInput H CreateOrderSummary)
  | .gate e => some e
  | _ => none

omit [DecidableEq H] in
theorem filterMap_seen
    (out : List (Confirmation.Event CreateOrderInput H CreateOrderSummary)) :
    (out.map Event.gate).filterMap Event.seen = out := by
  rw [List.filterMap_map]
  exact List.filterMap_some

/-- The part of a step that the gate makes. -/
theorem Moves.gate_step {s s' : State H} {a : Act H} {out : List (Event H)}
    (h : Moves D s a s' out) :
    (s'.gate = s.gate ∧ out.filterMap Event.seen = []) ∨
      ∃ b, Confirmation.step D s.gate b =
        some (s'.gate, out.filterMap Event.seen) := by
  cases h with
  | change | call => exact Or.inl ⟨rfl, rfl⟩
  | present hpreview hgate =>
      rw [filterMap_seen]
      exact Or.inr ⟨_, hgate⟩
  | create hph horder hgate =>
      rw [filterMap_seen]
      exact Or.inr ⟨_, hgate⟩
  | gate hby hgate =>
      rw [filterMap_seen]
      exact Or.inr ⟨_, hgate⟩
  | @recheck p call stored nowMs draft preview gate out hph hpreview hgate =>
      have hseen : (Event.rechecked p stored draft ::
          out.map .gate).filterMap Event.seen = out := filterMap_seen out
      rw [hseen]
      exact Or.inr ⟨_, hgate⟩
  | @commit p written gate out hwritten hgate =>
      have hseen : (Event.created p written ::
          out.map .gate).filterMap Event.seen = out := filterMap_seen out
      rw [hseen]
      exact Or.inr ⟨_, hgate⟩

variable (D) in

/-- The gate is followed step by step, so that what holds of its runs holds
here. -/
def gateView : Simulation (orders D)
    (Confirmation.protocol (R := CreateOrderSummary) D) where
  proj := State.gate
  seen := Event.seen
  init_eq := rfl
  step_sim := fun _ _ _ _ h => (moves_of_step h).gate_step

end Shozee.Orders
