import Shozee.Documents.Numbers

/-!
# The documents of a company

`Papers` is what holds of the documents after any run: at most one that is live
for an order and a type, each with the lines and totals of its order, and
numbers of a type from `1` on without a gap. A caller that has taken a number
holds the counter of the type, so nobody else makes a document of that type
until it is through.
-/

namespace Shozee.Documents

open Shozee.Run

variable {P : String} {d : Data}

/-! ## What a statement changes

Most statements only read. The others are listed in `Effect`, each with its
place. -/

/-- A statement that changes nothing and says at most why it refuses. -/
def Result.Quiet (d : Data) (o : Result) : Prop :=
  o.data = d ∧ ∀ e ∈ o.out, ∃ why, e = .refused why

/-- What a statement does, by the place it starts from. -/
inductive Effect (P : String) (d : Data) : Place → Result → Prop
  | quiet {place : Place} {o : Result} :
      Result.Quiet d o → Effect P d place o
  | placed (order : Order) : (∀ o ∈ d.orders, o.id ≠ order.id) →
      order.status = .new →
      Effect P d .idle ⟨{ d with orders := order :: d.orders }, .idle, []⟩
  | create (draft : Draft) (sequence : ℕ) (documentId : String) :
      Effect P d (.inserted draft sequence documentId)
        ⟨{ d with
            documents := draft.document P documentId sequence :: d.documents
            lastNumber := Function.update d.lastNumber draft.type sequence },
          .idle, [.created (draft.document P documentId sequence)]⟩
  | move (orderId : String) (move : OrderMove) :
      Effect P d (.moving orderId move)
        ⟨{ d with
            orders := d.orders.map (Order.setStatus orderId move.target) },
          .idle, [.moved orderId move]⟩
  | cancel (documentId : String) :
      Effect P d (.unsigned documentId)
        ⟨{ d with documents := d.documents.map (Document.cancel documentId) },
          .idle, [.cancelled documentId]⟩

theorem goOn_quiet {place : Place} : Result.Quiet d (goOn d place) :=
  ⟨rfl, fun _ he => nomatch he⟩

theorem refuse_quiet {why : Refusal} : Result.Quiet d (refuse d why) :=
  ⟨rfl, fun _ he => ⟨why, List.mem_singleton.mp he⟩⟩

theorem placeOrder_effect {orderId : String}
    {linkedCustomerId : Option String} {items : List Line} :
    Effect P d .idle (placeOrder d orderId linkedCustomerId items) := by
  unfold placeOrder
  split
  · exact .quiet refuse_quiet
  · next hnew =>
      refine .placed ⟨orderId, .new, linkedCustomerId, items,
        Totals.of items, rfl⟩ (fun o ho hid => hnew ⟨o, ho, hid⟩) rfl

theorem createFromOrder_quiet {orderId : String} {type : DocumentType} :
    Result.Quiet d (createFromOrder d orderId type) := by
  unfold createFromOrder
  split
  · exact refuse_quiet
  · split
    · exact refuse_quiet
    · exact goOn_quiet

theorem prepareOrdered_quiet {order : Order} {type : DocumentType}
    {counterparty : Option CounterpartyFact} {sellerLegal : Bool} :
    Result.Quiet d (prepareOrdered d order type counterparty sellerLegal) := by
  unfold prepareOrdered
  split
  · exact goOn_quiet
  · exact refuse_quiet

theorem assertNoLiveDocument_quiet {draft : Draft} :
    Result.Quiet d (assertNoLiveDocument d draft) := by
  unfold assertNoLiveDocument
  split
  · exact refuse_quiet
  · exact goOn_quiet

theorem allocateNextDocumentNumber_quiet {draft : Draft} :
    Result.Quiet d (allocateNextDocumentNumber d draft) := by
  unfold allocateNextDocumentNumber
  split
  · exact goOn_quiet
  · exact refuse_quiet

theorem insertDocument_quiet {draft : Draft} {sequence : ℕ}
    {documentId : String} :
    Result.Quiet d (insertDocument P d draft sequence documentId) := by
  unfold insertDocument
  split
  · exact refuse_quiet
  · split
    · exact refuse_quiet
    · exact goOn_quiet

theorem moveOrder_quiet {orderId : String} {move : OrderMove} :
    Result.Quiet d (moveOrder d orderId move) := by
  unfold moveOrder
  split
  · exact refuse_quiet
  · split
    · exact goOn_quiet
    · exact refuse_quiet

theorem cancelDocument_quiet {documentId : String} :
    Result.Quiet d (cancelDocument d documentId) := by
  unfold cancelDocument
  split
  · exact refuse_quiet
  · split
    · exact refuse_quiet
    · exact goOn_quiet

theorem commit_effect {place : Place} {o : Result}
    (h : commit P d place = some o) : Effect P d place o := by
  unfold commit at h
  split at h
  · cases h; exact .create _ _ _
  · cases h; exact .move _ _
  · cases h; exact .cancel _
  · cases h

theorem statement_effect {place : Place} {a : Statement} {o : Result}
    (h : statement P d place a = some o) : Effect P d place o := by
  unfold statement at h
  split at h
  · cases h; exact placeOrder_effect
  · cases h; exact .quiet createFromOrder_quiet
  · cases h; exact .quiet moveOrder_quiet
  · cases h; exact .quiet cancelDocument_quiet
  · cases h; exact .quiet prepareOrdered_quiet
  · cases h; exact .quiet assertNoLiveDocument_quiet
  · cases h; exact .quiet allocateNextDocumentNumber_quiet
  · cases h; exact .quiet insertDocument_quiet
  · cases h
    split
    · exact .quiet refuse_quiet
    · exact .quiet goOn_quiet
  · exact commit_effect h
  · cases h
  · cases h; exact .quiet goOn_quiet
  · cases h

/-! ## What holds of the rows

The invariant, and what a caller relies on in each place. -/

/-- The order is there with the lines that were read. -/
def Data.HasOrder (d : Data) (order : Order) : Prop :=
  ∃ o ∈ d.orders, o.id = order.id ∧ o.items = order.items

/-- The document is a copy of its order. -/
def Data.Copied (d : Data) (doc : Document) : Prop :=
  ∃ order ∈ d.orders, order.id = doc.orderId ∧
    doc.items = order.items ∧ doc.totals = order.totals

/-- What holds of the orders and documents in every state. -/
structure Papers (P : String) (d : Data) : Prop where
  orderIds : (d.orders.map Order.id).Nodup
  documentIds : (d.documents.map Document.id).Nodup
  live : ∀ orderId type, ∀ doc ∈ d.documents, ∀ doc' ∈ d.documents,
    doc.LiveFor orderId type → doc'.LiveFor orderId type → doc = doc'
  copied : ∀ doc ∈ d.documents, d.Copied doc
  numbers : ∀ type, (d.documents.filter fun doc => doc.type = type).map
    Document.documentNumber = numbersUpTo P type (d.lastNumber type)

theorem papers_init : Papers P ⟨[], [], fun _ => 0⟩ where
  orderIds := List.nodup_nil
  documentIds := List.nodup_nil
  live := fun _ _ _ h => nomatch h
  copied := fun _ h => nomatch h
  numbers := fun _ => rfl

/-- What a caller relies on in a place. -/
def Knows (d : Data) : Place → Prop
  | .idle => True
  | .ordered order _ => d.HasOrder order
  | .prepared draft => d.HasOrder draft.order
  | .unduplicated draft => d.HasOrder draft.order
  | .numbered draft sequence =>
      d.HasOrder draft.order ∧ sequence = d.lastNumber draft.type + 1
  | .inserted draft sequence documentId =>
      d.HasOrder draft.order ∧ sequence = d.lastNumber draft.type + 1 ∧
        (∀ doc ∈ d.documents, ¬ doc.LiveFor draft.order.id draft.type) ∧
        ∀ doc ∈ d.documents, doc.id ≠ documentId
  | .moving .. => True
  | .documentLocked _ => True
  | .unsigned _ => True

@[simp] theorem Order.setStatus_id {orderId : String} {status : OrderStatus}
    {order : Order} : (order.setStatus orderId status).id = order.id := by
  unfold Order.setStatus
  split
  · rfl
  · rfl

@[simp] theorem Order.setStatus_items {orderId : String}
    {status : OrderStatus} {order : Order} :
    (order.setStatus orderId status).items = order.items := by
  unfold Order.setStatus
  split
  · rfl
  · rfl

@[simp] theorem Order.setStatus_totals {orderId : String}
    {status : OrderStatus} {order : Order} :
    (order.setStatus orderId status).totals = order.totals := by
  unfold Order.setStatus
  split
  · rfl
  · rfl

/-- Cancelling leaves all of a document but its status. -/
theorem Document.cancel_eq (documentId : String) (doc : Document) :
    ∃ status, doc.cancel documentId = { doc with status := status } ∧
      (status ≠ .cancelled → doc.cancel documentId = doc) := by
  unfold Document.cancel
  split
  · exact ⟨.cancelled, rfl, fun hne => absurd rfl hne⟩
  · exact ⟨doc.status, rfl, fun _ => rfl⟩

@[simp] theorem Document.cancel_id {documentId : String} {doc : Document} :
    (doc.cancel documentId).id = doc.id := by
  obtain ⟨status, heq, -⟩ := Document.cancel_eq documentId doc
  rw [heq]

theorem Document.LiveFor.of_cancel {documentId orderId : String}
    {type : DocumentType} {doc : Document}
    (h : (doc.cancel documentId).LiveFor orderId type) :
    doc.cancel documentId = doc ∧ doc.LiveFor orderId type := by
  obtain ⟨status, heq, hsame⟩ := Document.cancel_eq documentId doc
  have hstatus : status ≠ .cancelled := by
    have hlive := h.2.2
    rw [heq] at hlive
    exact hlive
  rw [hsame hstatus] at h ⊢
  exact ⟨rfl, h⟩

theorem Data.HasOrder.totals {order : Order} (h : d.HasOrder order) :
    ∃ o ∈ d.orders, o.id = order.id ∧ order.items = o.items ∧
      Totals.of order.items = o.totals := by
  obtain ⟨o, ho, hid, hitems⟩ := h
  exact ⟨o, ho, hid, hitems.symm, by rw [o.summed, hitems]⟩

/-- An order that was found is there. -/
theorem order_mem {orderId : String} {order : Order}
    (h : d.order orderId = some order) :
    order ∈ d.orders ∧ order.id = orderId := by
  have hfind : d.orders.find? (fun o => o.id = orderId) = some order := h
  have hid := List.find?_some hfind
  rw [decide_eq_true_eq] at hid
  exact ⟨List.mem_of_find?_eq_some hfind, hid⟩

theorem prepare_eq_ok {order : Order} {type : DocumentType}
    {counterparty : Option CounterpartyFact} {sellerLegal : Bool}
    {draft : Draft}
    (h : prepare order type counterparty sellerLegal = .ok draft) :
    draft.order = order ∧ draft.type = type ∧ order.status ≠ .canceled := by
  unfold prepare at h
  cases hbuyer : requireBuyer order counterparty with
  | error why => rw [hbuyer] at h; cases h
  | ok =>
      rw [hbuyer] at h
      by_cases hstatus : order.status = .canceled
      · rw [assertOrderNotCanceled, if_pos hstatus] at h
        cases h
      · rw [assertOrderNotCanceled, if_neg hstatus] at h
        cases hcurrency : requireUniformCurrency order with
        | error why => rw [hcurrency] at h; cases h
        | ok currency =>
            rw [hcurrency] at h
            cases sellerLegal with
            | false => cases h
            | true =>
                cases h
                exact ⟨rfl, rfl, hstatus⟩

/-! ## Orders and documents are kept

What others change is not what a caller relies on, as it has the lock for that.
-/

theorem Effect.hasOrder {place : Place} {o : Result} {order : Order}
    (heffect : Effect P d place o) (h : d.HasOrder order) :
    o.data.HasOrder order := by
  obtain ⟨o', ho, hid, hitems⟩ := h
  cases heffect with
  | quiet hquiet =>
      rw [hquiet.1]
      exact ⟨o', ho, hid, hitems⟩
  | placed new _ _ => exact ⟨o', List.mem_cons_of_mem new ho, hid, hitems⟩
  | create draft sequence documentId => exact ⟨o', ho, hid, hitems⟩
  | move orderId move =>
      refine ⟨_, List.mem_map_of_mem ho, ?_, ?_⟩
      · rw [Order.setStatus_id]
        exact hid
      · rw [Order.setStatus_items]
        exact hitems
  | cancel documentId => exact ⟨o', ho, hid, hitems⟩

/-- Who holds the counter of a type finds the number it has seen. -/
theorem Effect.lastNumber {place : Place} {o : Result} {type : DocumentType}
    (heffect : Effect P d place o)
    (hlock : Lock.counter type ∉ place.held) :
    o.data.lastNumber type = d.lastNumber type := by
  cases heffect with
  | quiet hquiet => rw [hquiet.1]
  | placed order _ _ => rfl
  | create draft sequence documentId =>
      have hne : type ≠ draft.type := by
        intro heq
        refine hlock ?_
        show Lock.counter type ∈ [Lock.counter draft.type, _, _, _]
        rw [heq]
        exact List.mem_cons_self
      exact Function.update_of_ne hne _ _
  | move orderId move => rfl
  | cancel documentId => rfl

/-- Who holds the counter of a type finds no document of it that was not there
before, but for one cancelled since. -/
theorem Effect.documents {place : Place} {o : Result}
    (heffect : Effect P d place o) {doc : Document}
    (hdoc : doc ∈ o.data.documents) :
    (∃ draft sequence documentId,
        place = .inserted draft sequence documentId ∧
          doc = draft.document P documentId sequence) ∨
      ∃ old ∈ d.documents, old.id = doc.id ∧ ∀ orderId type,
        doc.LiveFor orderId type → old.LiveFor orderId type := by
  cases heffect with
  | quiet hquiet =>
      rw [hquiet.1] at hdoc
      exact Or.inr ⟨doc, hdoc, rfl, fun _ _ h => h⟩
  | placed order _ _ => exact Or.inr ⟨doc, hdoc, rfl, fun _ _ h => h⟩
  | create draft sequence documentId =>
      rcases List.mem_cons.mp hdoc with rfl | hdoc
      · exact Or.inl ⟨draft, sequence, documentId, rfl, rfl⟩
      · exact Or.inr ⟨doc, hdoc, rfl, fun _ _ h => h⟩
  | move orderId move => exact Or.inr ⟨doc, hdoc, rfl, fun _ _ h => h⟩
  | cancel documentId =>
      obtain ⟨old, hold, rfl⟩ := List.mem_map.mp hdoc
      refine Or.inr ⟨old, hold, Document.cancel_id.symm, fun _ _ h => ?_⟩
      exact h.of_cancel.2

theorem Knows.frame {place other : Place} {o : Result}
    (heffect : Effect P d place o) (h : Knows d other)
    (hlocks : ∀ k ∈ place.held, k ∉ other.held) : Knows o.data other := by
  have hcounter : ∀ type, Lock.counter type ∈ other.held →
      o.data.lastNumber type = d.lastNumber type := by
    intro type hheld
    exact heffect.lastNumber fun hmine => hlocks _ hmine hheld
  cases other with
  | idle => trivial
  | ordered order type => exact heffect.hasOrder h
  | prepared draft => exact heffect.hasOrder h
  | unduplicated draft => exact heffect.hasOrder h
  | numbered draft sequence =>
      refine ⟨heffect.hasOrder h.1, ?_⟩
      rw [hcounter draft.type List.mem_cons_self]
      exact h.2
  | inserted draft sequence documentId =>
      obtain ⟨horder, hsequence, hlive, hid⟩ := h
      refine ⟨heffect.hasOrder horder, ?_, ?_, ?_⟩
      · rw [hcounter draft.type List.mem_cons_self]
        exact hsequence
      · intro doc hdoc hdoclive
        rcases heffect.documents hdoc with
          ⟨draft', sequence', documentId', rfl, rfl⟩ | ⟨old, hold, -, hback⟩
        · refine hlocks (.counter draft'.type) List.mem_cons_self ?_
          have htype : draft'.type = draft.type := hdoclive.2.1
          rw [htype]
          exact List.mem_cons_self
        · exact hlive old hold (hback _ _ hdoclive)
      · intro doc hdoc hsame
        rcases heffect.documents hdoc with
          ⟨draft', sequence', documentId', rfl, rfl⟩ | ⟨old, hold, hoid, -⟩
        · refine hlocks (.documentKey documentId') (by simp [Place.held]) ?_
          have hkey : documentId' = documentId := hsame
          rw [hkey]
          simp [Place.held]
        · exact hid old hold (hoid.trans hsame)
  | moving orderId move => trivial
  | documentLocked documentId => trivial
  | unsigned documentId => trivial

/-! ## One statement

The step lemma, by the effect of the statement. -/

theorem Papers.create (h : Papers P d) {draft : Draft} {sequence : ℕ}
    {documentId : String}
    (hknows : Knows d (.inserted draft sequence documentId)) :
    Papers P
      { d with
        documents := draft.document P documentId sequence :: d.documents
        lastNumber := Function.update d.lastNumber draft.type sequence } := by
  obtain ⟨horder, rfl, hlive, hid⟩ := hknows
  refine
    { orderIds := h.orderIds
      documentIds := ?_
      live := ?_
      copied := ?_
      numbers := ?_ }
  · show ((draft.document P documentId _ :: d.documents).map _).Nodup
    rw [List.map_cons, List.nodup_cons]
    refine ⟨fun hmem => ?_, h.documentIds⟩
    obtain ⟨doc, hdoc, heq⟩ := List.mem_map.mp hmem
    exact hid doc hdoc heq
  · intro orderId type doc hdoc doc' hdoc' hl hl'
    have hnew : ∀ doc ∈ d.documents, doc.LiveFor orderId type →
        ¬ (draft.document P documentId
          (d.lastNumber draft.type + 1)).LiveFor orderId type := by
      intro doc hdoc hl hmine
      have horderId : draft.order.id = orderId := hmine.1
      have htype : draft.type = type := hmine.2.1
      exact hlive doc hdoc (horderId ▸ htype ▸ hl)
    rcases List.mem_cons.mp hdoc with rfl | hdoc
    · rcases List.mem_cons.mp hdoc' with rfl | hdoc'
      · rfl
      · exact absurd hl (hnew doc' hdoc' hl')
    · rcases List.mem_cons.mp hdoc' with rfl | hdoc'
      · exact absurd hl' (hnew doc hdoc hl)
      · exact h.live orderId type doc hdoc doc' hdoc' hl hl'
  · intro doc hdoc
    rcases List.mem_cons.mp hdoc with rfl | hdoc
    · exact horder.totals
    · exact h.copied doc hdoc
  · intro type
    show ((draft.document P documentId _ :: d.documents).filter _).map _ =
      numbersUpTo P type (Function.update d.lastNumber draft.type _ type)
    by_cases htype : draft.type = type
    · subst htype
      rw [List.filter_cons_of_pos (by simp [Draft.document]), List.map_cons,
        h.numbers, Function.update_self]
      rfl
    · have hother : ¬ decide ((draft.document P documentId
          (d.lastNumber draft.type + 1)).type = type) = true := by
        rw [decide_eq_true_eq]
        exact htype
      rw [List.filter_cons, if_neg hother, h.numbers,
        Function.update_of_ne (Ne.symm htype)]

theorem Papers.move (h : Papers P d) (orderId : String)
    (status : OrderStatus) :
    Papers P { d with
      orders := d.orders.map (Order.setStatus orderId status) } := by
  refine { h with orderIds := ?_, copied := ?_ }
  · show ((d.orders.map _).map _).Nodup
    rw [List.map_map]
    have hfun : Order.id ∘ Order.setStatus orderId status = Order.id := by
      funext order
      exact Order.setStatus_id
    rw [hfun]
    exact h.orderIds
  · intro doc hdoc
    obtain ⟨order, ho, hid, hitems, htotals⟩ := h.copied doc hdoc
    refine ⟨_, List.mem_map_of_mem ho, ?_, ?_, ?_⟩
    · rw [Order.setStatus_id]
      exact hid
    · rw [Order.setStatus_items]
      exact hitems
    · rw [Order.setStatus_totals]
      exact htotals

theorem Papers.cancel (h : Papers P d) (documentId : String) :
    Papers P
      { d with documents := d.documents.map (Document.cancel documentId) } := by
  refine
    { orderIds := h.orderIds
      documentIds := ?_
      live := ?_
      copied := ?_
      numbers := ?_ }
  · show ((d.documents.map _).map _).Nodup
    rw [List.map_map]
    have hfun : Document.id ∘ Document.cancel documentId = Document.id := by
      funext doc
      exact Document.cancel_id
    rw [hfun]
    exact h.documentIds
  · intro orderId type doc hdoc doc' hdoc' hl hl'
    obtain ⟨old, hold, rfl⟩ := List.mem_map.mp hdoc
    obtain ⟨old', hold', rfl⟩ := List.mem_map.mp hdoc'
    rw [hl.of_cancel.1, hl'.of_cancel.1]
    exact h.live orderId type old hold old' hold' hl.of_cancel.2
      hl'.of_cancel.2
  · intro doc hdoc
    obtain ⟨old, hold, rfl⟩ := List.mem_map.mp hdoc
    obtain ⟨status, heq, -⟩ := Document.cancel_eq documentId old
    rw [heq]
    exact h.copied old hold
  · intro type
    rw [← h.numbers type]
    show ((d.documents.map _).filter _).map _ = _
    rw [List.filter_map, List.map_map]
    have hsame : ∀ doc : Document,
        (doc.cancel documentId).type = doc.type ∧
          (doc.cancel documentId).documentNumber = doc.documentNumber := by
      intro doc
      obtain ⟨status, heq, -⟩ := Document.cancel_eq documentId doc
      rw [heq]
      exact ⟨rfl, rfl⟩
    have hnumber : Document.documentNumber ∘ Document.cancel documentId =
        Document.documentNumber := by
      funext doc
      exact (hsame doc).2
    have htype : (fun doc => decide (Document.type doc = type)) ∘
        Document.cancel documentId = fun doc => decide (doc.type = type) := by
      funext doc
      show decide ((doc.cancel documentId).type = type) = _
      rw [(hsame doc).1]
    rw [hnumber, htype]

theorem Papers.step {place : Place} {o : Result} (h : Papers P d)
    (hknows : Knows d place) (heffect : Effect P d place o) :
    Papers P o.data := by
  cases heffect with
  | quiet hquiet =>
      rw [hquiet.1]
      exact h
  | placed order hnew _ =>
      refine { h with orderIds := ?_, copied := ?_ }
      · show ((order :: d.orders).map Order.id).Nodup
        rw [List.map_cons, List.nodup_cons]
        refine ⟨fun hmem => ?_, h.orderIds⟩
        obtain ⟨o, ho, heq⟩ := List.mem_map.mp hmem
        exact hnew o ho heq
      · intro doc hdoc
        obtain ⟨o, ho, hcopied⟩ := h.copied doc hdoc
        exact ⟨o, List.mem_cons_of_mem order ho, hcopied⟩
  | create draft sequence documentId => exact h.create hknows
  | move orderId move => exact h.move orderId move.target
  | cancel documentId => exact h.cancel documentId

/-- Where a statement leads, its caller knows what it may rely on there. -/
theorem knows_of_statement {place : Place} {a : Statement} {o : Result}
    (hknows : Knows d place) (h : statement P d place a = some o) :
    Knows o.data o.place := by
  unfold statement at h
  split at h
  · cases h
    unfold placeOrder
    split
    · trivial
    · trivial
  · next orderId type =>
      cases h
      unfold createFromOrder
      split
      · trivial
      · next order horder =>
          split
          · trivial
          · exact ⟨order, (order_mem horder).1, rfl, rfl⟩
  · cases h
    unfold moveOrder
    split
    · trivial
    · split
      · trivial
      · trivial
  · cases h
    unfold cancelDocument
    split
    · trivial
    · split
      · trivial
      · trivial
  · cases h
    unfold prepareOrdered
    split
    · next draft hdraft =>
        show d.HasOrder draft.order
        rw [(prepare_eq_ok hdraft).1]
        exact hknows
    · trivial
  · cases h
    unfold assertNoLiveDocument
    split
    · trivial
    · exact hknows
  · cases h
    unfold allocateNextDocumentNumber
    split
    · exact ⟨hknows, rfl⟩
    · trivial
  · next draft sequence documentId =>
      cases h
      unfold insertDocument
      split
      · trivial
      · next hlive =>
          split
          · trivial
          · next hkey =>
              refine ⟨hknows.1, hknows.2, fun doc hdoc hl => ?_,
                fun doc hdoc hid => ?_⟩
              · exact hlive ⟨doc, hdoc, hl⟩
              · exact hkey ⟨doc, hdoc, Or.inl hid⟩
  · cases h
    split
    · trivial
    · trivial
  · unfold commit at h
    split at h
    · cases h; trivial
    · cases h; trivial
    · cases h; trivial
    · cases h
  · cases h
  · cases h; trivial
  · cases h

end Shozee.Documents
