import Shozee.Orders.Confirmed

/-!
# The order and the card the person confirmed

What ties a committed order to a card is a chain through three places. The
grant it was created under was a challenge's, taken out of the store with the
call's own bindings (`Backed`); the challenge has the hash of the one card it
was shown with (`ShownAs`); and the card built when it was taken out has that
hash too, and comes of a draft of the same input (`Priced`). Hashes tell cards
and inputs apart, so the card shown is the card of that draft.

From there to the rows it is not a chain any more. The handler resolves a draft
of its own, later, or much later in an attempt that resumes under the grant of
one that crashed; if its draft has the same card, the rows are what the card
says, by `preview_shows`.
-/

namespace Shozee.Orders

open Shozee.Run
open Shozee.Confirmation hiding State Act Event step Moves moves_of_step
  moves_of_next filterMap_seen Event.seen

variable {H : Type} (D : CardDigest CreateOrderInput H)

/-- The part of the history that is the gate's. -/
def seenLog (log : List (Event H)) :
    List (Confirmation.Event CreateOrderInput H CreateOrderSummary) :=
  log.filterMap Event.seen

/-- How the order committed under the grant relates to the card: it is the
one that was shown under the grant's challenge; the gate built it again, from
a draft of the same input, when the challenge came back; and it says what the
rows say if it is also the card of the handler's draft. -/
structure AsShown (log : List (Event H)) (written : Written)
    (grant : Idempotency.ConfirmationGrant) (card : ActionPreview) : Prop where
  shown : ∃ p expiresAt, .gate (.confirmationRequired p grant.challengeId
    (confirmationCard card) expiresAt) ∈ log
  only : ∀ p card' expiresAt,
    .gate (.confirmationRequired p grant.challengeId card' expiresAt) ∈ log →
      card' = confirmationCard card
  rechecked : ∃ p stored draft, .gate (.consumed p stored) ∈ log ∧
    stored.challengeId = grant.challengeId ∧
    .rechecked p stored draft ∈ log ∧
    draftPreview written.call.env.input draft = .ok card
  rows : draftPreview written.call.env.input written.draft = .ok card →
    Shows card written.order

/-- The card is one that `createOrderPreview` has made. -/
def OfPreview (card : Card) : Prop :=
  ∃ preview, card = confirmationCard preview ∧ preview.notes.isSome = true

/-- The order was made of its draft by the handler, under a grant that is
backed. -/
def Made (log : List (Event H)) (written : Written) : Prop :=
  (∃ draws, createStaffOrder draws written.call.env.input.comment
    written.draft = .ok written.order) ∧
  ∀ grant ∈ written.grant,
    Backed D.toDigest (seenLog log) written.call grant

/-- Every card in the state is one that the preview has made. -/
structure Priced (c : Conf (State H) (Event H)) : Prop where
  issuing : ∀ p call card, c.st.gate.phase p = .issuing call card →
    OfPreview card
  shown : ∀ p id card expiresAt,
    .gate (.confirmationRequired p id card expiresAt) ∈ c.log →
      OfPreview card
  confirmed : ∀ p call stored nowMs card,
    .gate (.confirmed p call stored nowMs (some card)) ∈ c.log →
      ∃ draft preview, .rechecked p stored draft ∈ c.log ∧
        draftPreview call.env.input draft = .ok preview ∧
        card = confirmationCard preview
  written : ∀ p w, c.st.written p = some w → Made D c.log w
  created : ∀ p w, .created p w ∈ c.log → Made D c.log w

/-! ## The invariant

The chain from a committed order back to a card, one link for each place: what
the handler made, what the gate had built, and what the challenge was shown
with. -/

section Steps

variable {D} {log out : List (Event H)}

theorem mem_seenLog
    {e : Confirmation.Event CreateOrderInput H CreateOrderSummary} :
    e ∈ seenLog log ↔ .gate e ∈ log := by
  constructor
  · intro h
    obtain ⟨e', he', hseen⟩ := List.mem_filterMap.mp h
    cases e' with
    | gate e'' => cases hseen; exact he'
    | rechecked | created => cases hseen
  · exact fun h => List.mem_filterMap.mpr ⟨_, h, rfl⟩

theorem Made.mono {w : Written} (h : Made D log w) :
    Made D (out ++ log) w := by
  refine ⟨h.1, fun grant hgrant => (h.2 grant hgrant).mono ?_⟩
  unfold seenLog
  rw [List.filterMap_append]
  exact List.subset_append_right _ _

theorem ofPreview_of_draft {input : CreateOrderInput}
    {draft : CreateOrderDraft} {preview : ActionPreview}
    (h : draftPreview input draft = .ok preview) :
    OfPreview (confirmationCard preview) :=
  ⟨preview, rfl, draftPreview_notes h⟩

variable [DecidableEq H] {s s' : State H} {a : Act H}
  {c : Conf (State H) (Event H)}

/-- Whichever action it is, a card that the gate is given is a preview's. -/
theorem Moves.ofPreview (h : Moves D.toDigest s a s' out) {p : ℕ}
    {call : KeyedCall CreateOrderInput} {card : Card}
    (hold : ∀ p call card, s.gate.phase p = .issuing call card →
      OfPreview card)
    (hph : s'.gate.phase p = .issuing call card) : OfPreview card := by
  cases h with
  | change | call => exact hold p call card hph
  | @present q ctxCall preview gate out call' hpreview hgate =>
      obtain ⟨draft, -, hdraft⟩ := bind_eq_ok.mp hpreview
      rcases (Confirmation.moves_of_step _ hgate).issuing_cases hph
        with hsame | heq | heq
      · exact hold p call card hsame
      · cases heq
        exact ofPreview_of_draft hdraft
      · cases heq
  | recheck _ hdraft hgate =>
      rcases (Confirmation.moves_of_step _ hgate).issuing_cases hph
        with hsame | heq | heq
      · exact hold p call card hsame
      · cases heq
      · cases heq
        exact ofPreview_of_draft hdraft
  | create _ _ hgate | commit _ hgate =>
      rcases (Confirmation.moves_of_step _ hgate).issuing_cases hph
        with hsame | heq | heq
      · exact hold p call card hsame
      · cases heq
      · cases heq
  | gate hby hgate =>
      rcases (Confirmation.moves_of_step _ hgate).issuing_cases hph
        with hsame | rfl | rfl
      · exact hold p call card hsame
      · cases hby
      · cases hby

/-- What the gate reports in a step, it reports of a step of its own. -/
theorem Moves.gate_of_mem (h : Moves D.toDigest s a s' out)
    {e : Confirmation.Event CreateOrderInput H CreateOrderSummary}
    (he : .gate e ∈ out) :
    ∃ b, Confirmation.Moves D.toDigest s.gate b s'.gate (seenLog out) ∧
      e ∈ seenLog out := by
  rcases h.gate_step with ⟨-, hnone⟩ | ⟨b, hb⟩
  · have hmem := mem_seenLog.mpr he
    unfold seenLog at hmem
    rw [hnone] at hmem
    cases hmem
  · exact ⟨b, Confirmation.moves_of_step _ hb, mem_seenLog.mpr he⟩

theorem Moves.confirmed_of_mem (h : Moves D.toDigest s a s' out) {p : ℕ}
    {call : KeyedCall CreateOrderInput} {stored : StoredChallenge H}
    {nowMs : ℕ} {card : Card}
    (he : .gate (.confirmed p call stored nowMs (some card)) ∈ out) :
    ∃ draft preview, .rechecked p stored draft ∈ out ∧
      draftPreview call.env.input draft = .ok preview ∧
      card = confirmationCard preview := by
  -- Only a recheck of the gate confirms with a card.
  have hrecheck : ∀ {b gate' out'},
      Confirmation.step D.toDigest s.gate b = some (gate', out') →
      .gate (.confirmed p call stored nowMs (some card)) ∈
        out'.map (Event.gate (H := H)) →
      b = .recheck p card ∧
        s.gate.phase p = .rechecking call stored nowMs := by
    intro b gate' out' hstep hmem
    obtain ⟨e, hmem, heq⟩ := List.mem_map.mp hmem
    cases heq
    exact (Confirmation.moves_of_step _ hstep).confirmed_recheck hmem
  cases h with
  | change | call => cases he
  | present _ hgate => cases (hrecheck hgate he).1
  | create _ _ hgate => cases (hrecheck hgate he).1
  | commit _ hgate =>
      rcases List.mem_cons.mp he with heq | hmem
      · cases heq
      · cases (hrecheck hgate hmem).1
  | gate hby hgate =>
      obtain ⟨rfl, -⟩ := hrecheck hgate he
      cases hby
  | recheck hph hdraft hgate =>
      rcases List.mem_cons.mp he with heq | hmem
      · cases heq
      · obtain ⟨hact, hph'⟩ := hrecheck hgate hmem
        cases hact
        rw [hph] at hph'
        cases hph'
        exact ⟨_, _, List.mem_cons_self, hdraft, rfl⟩

/-- What is written was made just now or before. -/
theorem Moves.written_made (h : Moves D.toDigest c.st a s' out)
    (hI : Priced D c) (htraced : Traced D.toDigest ((gateView D.toDigest).view c))
    {p : ℕ} {w : Written} (hw : s'.written p = some w) :
    Made D (out ++ c.log) w := by
  cases h with
  | change | call | present | recheck | commit | gate =>
      exact (hI.written p w hw).mono
  | @create q draws call grant origin draft order gate out hph horder hgate =>
      have hcases : (if p = q then some ⟨call, grant, draft, order⟩ else
          c.st.written p) = some w := by
        rw [← Function.update_apply]
        exact hw
      split at hcases
      · cases hcases
        refine ⟨⟨draws, horder⟩, ?_⟩
        have hphase := htraced.phases q
        have hview : ((gateView D.toDigest).view c).st.phase q =
          .reserving call grant origin := hph
        rw [hview] at hphase
        have hmono : Made D c.log ⟨call, grant, draft, order⟩ :=
          ⟨⟨draws, horder⟩, hphase.1.backed⟩
        exact hmono.mono.2
      · exact (hI.written p w hcases).mono

theorem Moves.created_of_mem (h : Moves D.toDigest s a s' out) {p : ℕ}
    {w : Written} (he : .created p w ∈ out) : s.written p = some w := by
  have hnone : ∀ {out' : List
      (Confirmation.Event CreateOrderInput H CreateOrderSummary)},
      Event.created p w ∉ out'.map (Event.gate (H := H)) := by
    intro out' hmem
    obtain ⟨e, -, heq⟩ := List.mem_map.mp hmem
    cases heq
  cases h with
  | change | call => cases he
  | present | create | gate => exact absurd he hnone
  | recheck =>
      rcases List.mem_cons.mp he with heq | hmem
      · cases heq
      · exact absurd hmem hnone
  | commit hwritten =>
      rcases List.mem_cons.mp he with heq | hmem
      · cases heq; exact hwritten
      · exact absurd hmem hnone

theorem Priced.step (hI : Priced D c)
    (htraced : Traced D.toDigest ((gateView D.toDigest).view c))
    (h : Moves D.toDigest c.st a s' out) : Priced D ⟨s', out ++ c.log⟩ := by
  refine { issuing := ?_, shown := ?_, confirmed := ?_, written := ?_,
           created := ?_ }
  · exact fun p call card hph => h.ofPreview hI.issuing hph
  · intro p id card expiresAt hmem
    rcases List.mem_append.mp hmem with hnew | hold
    · obtain ⟨b, hmoves, hseen⟩ := h.gate_of_mem hnew
      obtain ⟨call, hph⟩ := hmoves.required_issuing hseen
      exact hI.issuing p call card hph
    · exact hI.shown p id card expiresAt hold
  · intro p call stored nowMs card hmem
    rcases List.mem_append.mp hmem with hnew | hold
    · obtain ⟨draft, preview, hre, hdraft, hcard⟩ := h.confirmed_of_mem hnew
      exact ⟨draft, preview, List.mem_append_left _ hre, hdraft, hcard⟩
    · obtain ⟨draft, preview, hre, hdraft, hcard⟩ :=
        hI.confirmed p call stored nowMs card hold
      exact ⟨draft, preview, List.mem_append_right _ hre, hdraft, hcard⟩
  · exact fun p w hw => h.written_made hI htraced hw
  · intro p w hmem
    rcases List.mem_append.mp hmem with hnew | hold
    · exact (hI.written p w (h.created_of_mem hnew)).mono
    · exact (hI.created p w hold).mono

theorem priced_of_reach (h : (orders D.toDigest).Reach c) : Priced D c := by
  refine h.invariant (I := Priced D) ?_ ?_
  · exact
      { issuing := fun _ _ _ hph => by cases hph
        shown := fun _ _ _ _ hmem => by cases hmem
        confirmed := fun _ _ _ _ _ hmem => by cases hmem
        written := fun _ _ hw => by cases hw
        created := fun _ _ hmem => by cases hmem }
  · intro c a c' hc ih _ hnext
    obtain ⟨s, out, hstep, rfl⟩ := Machine.next_eq_some.mp hnext
    have hview := (gateView D.toDigest).reach hc
    exact ih.step (traced_of_reach hview) (moves_of_step hstep)

end Steps

/-! ## The card of a committed order

Equal hashes make equal cards, and bindings make the inputs equal. So the order
and the card are of drafts of one input. -/

section

variable {D}

/-- Cards with one hash are one card. -/
theorem eq_of_previewHash {preview preview' : ActionPreview}
    (hnotes : preview.notes.isSome = true)
    (hnotes' : preview'.notes.isSome = true)
    (h : previewHashOf D.toDigest (confirmationCard preview) =
      previewHashOf D.toDigest (confirmationCard preview')) :
    preview = preview' := by
  have hcanonical := D.preview_inj _ _ (Option.some.inj h)
  obtain ⟨title, lines, notes⟩ := preview
  obtain ⟨title', lines', notes'⟩ := preview'
  obtain ⟨note, rfl⟩ := Option.isSome_iff_exists.mp hnotes
  obtain ⟨note', rfl⟩ := Option.isSome_iff_exists.mp hnotes'
  simp only [canonicalPreview, CanonicalPreview.mk.injEq, Option.getD_some]
    at hcanonical
  obtain ⟨rfl, rfl, rfl⟩ := hcanonical
  rfl

theorem input_eq_of_bindings {call call' : KeyedCall CreateOrderInput}
    (h : call.bindings D.toDigest = call'.bindings D.toDigest) :
    call.env.input = call'.env.input :=
  D.input_inj _ _ (congrArg Bindings.inputHash h)

end

variable [DecidableEq H]

/-- After any run, under any interleaving with what changes prices, products
and customers. -/
theorem asShown_of_reach (c : Conf (State H) (Event H))
    (hreach : (orders D.toDigest).Reach c) (p : ℕ) (w : Written)
    (grant : Idempotency.ConfirmationGrant) (hcreated : .created p w ∈ c.log)
    (hgrant : w.grant = some grant) :
    ∃ card, AsShown c.log w grant card := by
  have hpriced := priced_of_reach hreach
  have hcarded := carded_of_reach ((gateView D.toDigest).reach hreach)
  obtain ⟨⟨draws, horder⟩, hbacked⟩ := hpriced.created p w hcreated
  obtain ⟨q, stored, nowMs, htaken, rfl, -, hbound, hcard⟩ :=
    hbacked grant hgrant
  have hshown : ShownAs D.toDigest (seenLog c.log) stored :=
    hcarded.taken q stored htaken
  obtain ⟨p₁, shownCard, expiresAt, hmem⟩ := hshown.shown
  obtain ⟨preview, rfl, hnotes⟩ :=
    hpriced.shown _ _ _ _ (mem_seenLog.mp hmem)
  obtain ⟨call₀, card, hconfirmed, hhash⟩ :=
    hcard _ (hshown.same _ _ _ hmem).symm
  obtain ⟨draft, preview', hrechecked, hdraft, rfl⟩ :=
    hpriced.confirmed _ _ _ _ _ (mem_seenLog.mp hconfirmed)
  obtain rfl : preview' = preview :=
    eq_of_previewHash (draftPreview_notes hdraft) hnotes hhash
  have hinput : call₀.env.input = w.call.env.input :=
    input_eq_of_bindings
      ((hcarded.bound _ _ _ _ _ hconfirmed).symm.trans hbound)
  rw [hinput] at hdraft
  refine ⟨preview', ?_⟩
  exact
    { shown := ⟨p₁, expiresAt, mem_seenLog.mp hmem⟩
      only := by
        intro p₂ card' expiresAt' hmem'
        obtain ⟨other, rfl, hnotes'⟩ := hpriced.shown _ _ _ _ hmem'
        have hsame := hshown.same _ _ _ (mem_seenLog.mpr hmem')
        rw [eq_of_previewHash hnotes' hnotes
          (hsame.trans (hshown.same _ _ _ hmem).symm)]
      rechecked := ⟨q, stored, draft, mem_seenLog.mp htaken, rfl, hrechecked,
        hdraft⟩
      rows := fun hsame => preview_shows hsame horder }

/-! ## A price that changes after the gate

The gate checks the card before the transaction in which the handler prices
again. First two runs without a change in between, one of them under a grant
that is resumed; then one in which the handler finds another price. -/

/-- The orders that a log has created. -/
def createdOrders (log : List (Event H)) : List Written :=
  log.filterMap fun
    | .created _ w => some w
    | _ => none

/-- The cards shown, with the challenges they were shown under. -/
def shownCards (log : List (Event H)) :
    List (Idempotency.ChallengeId × ActionPreview) :=
  log.filterMap fun
    | .gate (.confirmationRequired _ id card _) =>
        card.preview.map fun preview => (id, preview)
    | _ => none

/-- Every order committed under a challenge is the one on its card. -/
def OrdersAsConfirmed (log : List (Event H)) : Prop :=
  ∀ w ∈ createdOrders log, ∀ shown ∈ shownCards log,
    w.grant.map (·.challengeId) = some shown.1 → Shows shown.2 w.order

instance (log : List (Event H)) : Decidable (OrdersAsConfirmed log) :=
  inferInstanceAs (Decidable (∀ w ∈ createdOrders log,
    ∀ shown ∈ shownCards log, _ → Shows _ _))

/-- The payloads themselves, for hashes. -/
def plainDigest : CardDigest CreateOrderInput (Payload CreateOrderInput) where
  sha256 := id
  request_inj := by
    intro i i' p p' s s' h
    cases h
    exact ⟨rfl, rfl, rfl⟩
  input_inj := by
    intro i i' h
    cases h
    rfl
  preview_inj := by
    intro v v' h
    cases h
    rfl

/-- One customer, one cake, at a price. -/
def cakeAt (unitPriceMinor : ℤ) : CtxCall where
  resolveCustomerReference := fun _ => .ok ⟨"customer", "Анна"⟩
  resolveLineReferences := fun lines =>
    .ok (lines.map fun _ => ⟨"cake", "Торт", none, none⟩)
  resolveProductPrices := fun items _ =>
    .ok (items.map fun item =>
      { productId := item.productId
        variantId := item.variantId
        unitPriceMinor
        currency := "UAH"
        source := .base
        sourceIds := ⟨none, none, none⟩
        resolverVersion := 1 })

/-- A call that creates an order, confirmed or not. -/
def cakeOrder (confirmationChallengeId : Option Idempotency.ChallengeId) :
    CallEnv CreateOrderInput where
  contract := createOrderContract
  request :=
    { idempotencyKey := some "k"
      confirmationChallengeId
      requireConfirmation := true
      confirmationOnly := false }
  authorized := .staff "u" "c"
  input :=
    { customer := .query "Анна"
      items := [⟨.query "торт", none, none, .milli 2000⟩]
      comment := none }

/-- What is drawn for it. -/
def draws : OrderDraws where
  companyId := "c"
  channel := "ai"
  orderId := "order"
  itemId := fun index => toString index
  orderNumber := "A-1"
  createdAt := 0

/-- A cake is shown at a price and confirmed at that price. -/
def confirmedRun : List (Act (Payload CreateOrderInput)) :=
  [.change (cakeAt 10000),
    .gate (.arrive 1 (cakeOrder none)), .gate (.probe 1), .gate (.consume 1),
    .call 1, .call 1, .call 1, .present 1, .gate (.issue 1 0 0),
    .gate (.arrive 2 (cakeOrder (some 0))), .gate (.probe 2),
    .gate (.consume 2), .gate (.check 2 0),
    .call 2, .call 2, .call 2, .recheck 2, .gate (.reserve 2),
    .gate (.idem (.stampInsert 2 0 0)), .gate (.idem (.insert 2))]

/-- The attempt stops there, and another one resumes under its grant. -/
def resumedRun : List (Act (Payload CreateOrderInput)) :=
  confirmedRun ++
    [.gate (.arrive 3 (cakeOrder none)), .gate (.probe 3),
      .gate (.interpret 3 100000), .gate (.reserve 3),
      .gate (.idem (.stampInsert 3 1 100000)), .gate (.idem (.insert 3)),
      .gate (.idem (.select 3)), .gate (.idem (.decide 3 100000 2)),
      .gate (.idem (.takeOver 3)),
      .call 3, .call 3, .call 3, .create 3 draws, .commit 3]

/-- The handler finds another price. -/
def repricedRun : List (Act (Payload CreateOrderInput)) :=
  confirmedRun ++
    [.change (cakeAt 20000), .call 2, .call 2, .call 2, .create 2 draws,
      .commit 2]

omit [DecidableEq H] in
theorem created_of_mem {log : List (Event H)} {w : Written}
    (h : w ∈ createdOrders log) : ∃ p, .created p w ∈ log := by
  obtain ⟨e, he, hw⟩ := List.mem_filterMap.mp h
  cases e with
  | created p w' => cases hw; exact ⟨p, he⟩
  | gate | rechecked => cases hw

theorem asShown_of_reach_resumed :
    ∃ c w grant, (orders plainDigest.toDigest).Reach c ∧
      w ∈ createdOrders c.log ∧ w.grant = some grant ∧
      OrdersAsConfirmed c.log ∧ ∃ card, AsShown c.log w grant card := by
  obtain ⟨c, hexec, ⟨w, hw, hgrant⟩, hsame⟩ :
      (orders plainDigest.toDigest).EndsIn
        (fun c => (∃ w ∈ createdOrders c.log, w.grant.isSome = true) ∧
          OrdersAsConfirmed c.log) resumedRun := by decide
  have hreach := Machine.reach_of_exec resumedRun hexec
  obtain ⟨grant, hgrant⟩ := Option.isSome_iff_exists.mp hgrant
  obtain ⟨p, hcreated⟩ := created_of_mem hw
  exact ⟨c, w, grant, hreach, hw, hgrant, hsame,
    asShown_of_reach plainDigest c hreach p w grant hcreated hgrant⟩

theorem order_repriced : ∃ c, (orders plainDigest.toDigest).Reach c ∧
    ¬ OrdersAsConfirmed c.log := by
  obtain ⟨c, hexec, hc⟩ : (orders plainDigest.toDigest).EndsIn
      (fun c => ¬ OrdersAsConfirmed c.log) repricedRun := by decide
  exact ⟨c, Machine.reach_of_exec repricedRun hexec, hc⟩

end Shozee.Orders
