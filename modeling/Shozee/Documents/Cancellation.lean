import Shozee.Documents.Papers

/-!
# Documents and canceled orders

The status of the order is checked as it was read, and the read locks nothing:
an order may be canceled after it and before the insert of the document, which
then still goes through (`afterCancel_of_reach`). From the insert on the
document holds a share of the order, and a cancellation waits. So what has to
be ruled out is that a cancellation commits while somebody who has read the
order as live is still to insert; then everything holds (`lawful_of_reachWhen`).
-/

namespace Shozee.Documents

open Shozee.Run

variable {P : String} {d : Data}

/-! ## Any run

What holds of the rows in every reachable state. -/

theorem papersRules (P : String) :
    Server.Rules (server P) (fun _ _ => True) (fun d _ => Papers P d)
      (fun d _ place => Knows d place) where
  init := papers_init
  start := trivial
  unlocked := rfl
  step := fun _ _ _ _ _ hinv hknows h =>
    ⟨hinv.step hknows (statement_effect h), knows_of_statement hknows h⟩
  frame := fun _ _ _ _ _ _ _ _ _ hother h hlocks _ =>
    Knows.frame (statement_effect h) hother hlocks

/-- Copies, numbers and the one live document hold whatever is canceled. -/
theorem papers_of_reach (P : String) (c : Conf State Event)
    (hreach : (machine P).Reach c) : Papers P c.st.data :=
  ((papersRules P).kept hreach).inv

/-! ## The order behind a document

A caller that has read the order relies on its not being canceled. `NoneAwaits`
is what the others owe it. -/

/-- Whether an order is canceled. -/
def Data.Canceled (d : Data) (orderId : String) : Prop :=
  ∃ o ∈ d.orders, o.id = orderId ∧ o.status = .canceled

/-- Who is here has read the order as not canceled, and is still to insert. -/
def Place.AwaitsInsert (orderId : String) : Place → Prop
  | .idle => False
  | .ordered order _ => order.id = orderId ∧ order.status ≠ .canceled
  | .prepared draft => draft.order.id = orderId
  | .unduplicated draft => draft.order.id = orderId
  | .numbered draft _ => draft.order.id = orderId
  | .inserted .. => False
  | .moving .. => False
  | .documentLocked _ => False
  | .unsigned _ => False

instance awaitsInsertDecidable (orderId : String) :
    ∀ place : Place, Decidable (place.AwaitsInsert orderId)
  | .idle => isFalse id
  | .ordered _ _ => inferInstanceAs (Decidable (_ ∧ _))
  | .prepared _ => inferInstanceAs (Decidable (_ = _))
  | .unduplicated _ => inferInstanceAs (Decidable (_ = _))
  | .numbered _ _ => inferInstanceAs (Decidable (_ = _))
  | .inserted _ _ _ => isFalse id
  | .moving _ _ => isFalse id
  | .documentLocked _ => isFalse id
  | .unsigned _ => isFalse id

/-- A cancellation of an order does not commit beside somebody who is about to
insert a document for it. -/
def NoneAwaits (_ : Data) (place : Place) (a : ℕ × Statement)
    (other : Place) : Prop :=
  match place, a.2 with
  | .moving orderId .cancel, .commit => ¬ other.AwaitsInsert orderId
  | _, _ => True

instance (d : Data) (place : Place) (a : ℕ × Statement) (other : Place) :
    Decidable (NoneAwaits d place a other) := by
  unfold NoneAwaits
  split
  · exact inferInstance
  · exact inferInstance

/-- What a caller relies on about the order, if `NoneAwaits` is met. -/
def KnowsLive (d : Data) : Place → Prop
  | .idle => True
  | .ordered order _ => order.status ≠ .canceled → ¬ d.Canceled order.id
  | .prepared draft => ¬ d.Canceled draft.order.id
  | .unduplicated draft => ¬ d.Canceled draft.order.id
  | .numbered draft _ => ¬ d.Canceled draft.order.id
  | .inserted draft _ _ => ¬ d.Canceled draft.order.id
  | .moving orderId move =>
      ∃ o ∈ d.orders, o.id = orderId ∧ o.status ∈ move.sources
  | .documentLocked _ => True
  | .unsigned _ => True

/-- What may be committed after a history. -/
def InTime (older : List Event) : Event → Prop
  | .created document => .moved document.orderId .cancel ∉ older
  | .cancelled _ => True
  | .moved .. => True
  | .refused _ => True

/-- The log knows the canceled orders and the documents, and nothing in it is
out of time. -/
structure Chronicle (d : Data) (log : List Event) : Prop where
  canceled : ∀ orderId, .moved orderId .cancel ∈ log → d.Canceled orderId
  recorded : ∀ doc ∈ d.documents,
    .created { doc with status := .issued } ∈ log
  told : Told InTime log

theorem canceled_not_source {move : OrderMove} :
    OrderStatus.canceled ∉ move.sources := by
  cases move <;> decide

/-- What becomes canceled is what a cancellation was committed for. -/
theorem Effect.canceled {place : Place} {o : Result} {orderId : String}
    (heffect : Effect P d place o) (h : o.data.Canceled orderId) :
    d.Canceled orderId ∨
      place = .moving orderId .cancel ∧ o.out = [.moved orderId .cancel] := by
  obtain ⟨order, ho, hid, hstatus⟩ := h
  cases heffect with
  | quiet hquiet =>
      rw [hquiet.1] at ho
      exact Or.inl ⟨order, ho, hid, hstatus⟩
  | placed new _ hnew =>
      rcases List.mem_cons.mp ho with rfl | ho
      · rw [hnew] at hstatus
        cases hstatus
      · exact Or.inl ⟨order, ho, hid, hstatus⟩
  | create draft sequence documentId =>
      exact Or.inl ⟨order, ho, hid, hstatus⟩
  | move movedId move =>
      obtain ⟨old, hold, rfl⟩ := List.mem_map.mp ho
      rw [Order.setStatus_id] at hid
      by_cases hmoved : old.id = movedId
      · rw [Order.setStatus, if_pos hmoved] at hstatus
        have hcancel : move = .cancel := by
          cases move with
          | cancel => rfl
          | confirm => cases hstatus
          | start => cases hstatus
          | complete => cases hstatus
        rw [hcancel, ← hmoved, hid]
        exact Or.inr ⟨rfl, rfl⟩
      · rw [Order.setStatus, if_neg hmoved] at hstatus
        exact Or.inl ⟨old, hold, hid, hstatus⟩
  | cancel documentId => exact Or.inl ⟨order, ho, hid, hstatus⟩

/-- A canceled order stays canceled: no move starts from there. -/
theorem Effect.canceled_kept {place : Place} {o : Result} {orderId : String}
    (hpapers : Papers P d) (hlive : KnowsLive d place)
    (heffect : Effect P d place o) (h : d.Canceled orderId) :
    o.data.Canceled orderId := by
  obtain ⟨order, ho, hid, hstatus⟩ := h
  cases heffect with
  | quiet hquiet =>
      rw [hquiet.1]
      exact ⟨order, ho, hid, hstatus⟩
  | placed new _ _ => exact ⟨order, List.mem_cons_of_mem new ho, hid, hstatus⟩
  | create draft sequence documentId => exact ⟨order, ho, hid, hstatus⟩
  | move movedId move =>
      obtain ⟨source, hs, hsid, hsource⟩ := hlive
      have hne : order.id ≠ movedId := by
        intro heq
        have hsame := List.inj_on_of_nodup_map hpapers.orderIds ho hs
          (heq.trans hsid.symm)
        rw [← hsame, hstatus] at hsource
        exact canceled_not_source hsource
      refine ⟨order, List.mem_map.mpr ⟨order, ho, ?_⟩, hid, hstatus⟩
      rw [Order.setStatus, if_neg hne]
  | cancel documentId => exact ⟨order, ho, hid, hstatus⟩

theorem commit_of_out {orderId : String} {move : OrderMove} {a : Statement}
    {o : Result} (h : statement P d (.moving orderId move) a = some o)
    (hout : o.out ≠ []) : a = .commit := by
  cases a with
  | commit => rfl
  | fail => cases h; exact absurd rfl hout
  | placeOrder orderId linkedCustomerId items => cases h
  | createFromOrder orderId type => cases h
  | prepare counterparty sellerLegal => cases h
  | assertNoLiveDocument => cases h
  | allocateNextDocumentNumber => cases h
  | insertDocument documentId => cases h
  | moveOrder orderId move => cases h
  | cancelDocument documentId => cases h
  | getSigning supplierSigned => cases h

/-- What somebody relies on about the order survives what the others do. -/
theorem KnowsLive.frame {place other : Place} {p : ℕ} {a : Statement}
    {o : Result} (h : statement P d place a = some o)
    (hcond : NoneAwaits d place (p, a) other) (hother : KnowsLive d other)
    (hlocks : ∀ k ∈ place.held, k ∉ other.held) :
    KnowsLive o.data other := by
  have heffect := statement_effect h
  have hawaits : ∀ orderId, other.AwaitsInsert orderId →
      ¬ d.Canceled orderId → ¬ o.data.Canceled orderId := by
    intro orderId hwaits hnot hcanceled
    rcases heffect.canceled hcanceled with hold | ⟨rfl, hout⟩
    · exact hnot hold
    · rw [commit_of_out h (by rw [hout]; exact List.cons_ne_nil _ _)] at hcond
      exact hcond hwaits
  cases other with
  | idle => trivial
  | ordered order type =>
      exact fun hstatus => hawaits order.id ⟨rfl, hstatus⟩ (hother hstatus)
  | prepared draft => exact hawaits _ rfl hother
  | unduplicated draft => exact hawaits _ rfl hother
  | numbered draft sequence => exact hawaits _ rfl hother
  | inserted draft sequence documentId =>
      intro hcanceled
      rcases heffect.canceled hcanceled with hold | ⟨rfl, -⟩
      · exact hother hold
      · refine hlocks (.share draft.order.id draft.type) ?_
          (by simp [Place.held])
        cases draft.type <;> simp [Place.held]
  | moving orderId move =>
      obtain ⟨order, ho, hid, hsource⟩ := hother
      cases heffect with
      | quiet hquiet =>
          rw [hquiet.1]
          exact ⟨order, ho, hid, hsource⟩
      | placed new _ _ =>
          exact ⟨order, List.mem_cons_of_mem new ho, hid, hsource⟩
      | create draft sequence documentId => exact ⟨order, ho, hid, hsource⟩
      | move movedId move' =>
          have hne : order.id ≠ movedId := by
            intro heq
            refine hlocks (.share movedId .payment_invoice)
              List.mem_cons_self ?_
            rw [← heq, hid]
            exact List.mem_cons_self
          refine ⟨order, List.mem_map.mpr ⟨order, ho, ?_⟩, hid, hsource⟩
          rw [Order.setStatus, if_neg hne]
      | cancel documentId => exact ⟨order, ho, hid, hsource⟩
  | documentLocked documentId => trivial
  | unsigned documentId => trivial

/-- What a read or a check finds out about the order. -/
theorem knowsLive_of_statement {place : Place} {a : Statement} {o : Result}
    (hpapers : Papers P d) (hlive : KnowsLive d place)
    (h : statement P d place a = some o) : KnowsLive o.data o.place := by
  unfold statement at h
  split at h
  · cases h
    unfold placeOrder
    split
    · trivial
    · trivial
  · next orderId type =>
      cases h
      unfold createFromOrder
      split
      · trivial
      · next order horder =>
          split
          · trivial
          · rintro hstatus ⟨o, ho, hid, hcanceled⟩
            have hsame := List.inj_on_of_nodup_map hpapers.orderIds
              (order_mem horder).1 ho hid.symm
            exact hstatus (hsame ▸ hcanceled)
  · next orderId move =>
      cases h
      unfold moveOrder
      split
      · trivial
      · next order horder =>
          split
          · next hcheck =>
              refine ⟨order, (order_mem horder).1, (order_mem horder).2, ?_⟩
              by_cases hsource : order.status ∈ move.sources
              · exact hsource
              · unfold OrderMove.check at hcheck
                rw [if_pos hsource] at hcheck
                split at hcheck
                · cases hcheck
                · cases hcheck
          · trivial
  · cases h
    unfold cancelDocument
    split
    · trivial
    · split
      · trivial
      · trivial
  · cases h
    unfold prepareOrdered
    split
    · next draft hdraft =>
        obtain ⟨horder, -, hstatus⟩ := prepare_eq_ok hdraft
        show ¬ d.Canceled draft.order.id
        rw [horder]
        exact hlive hstatus
    · trivial
  · cases h
    unfold assertNoLiveDocument
    split
    · trivial
    · exact hlive
  · cases h
    unfold allocateNextDocumentNumber
    split
    · exact hlive
    · trivial
  · cases h
    unfold insertDocument
    split
    · trivial
    · split
      · trivial
      · exact hlive
  · cases h
    split
    · trivial
    · trivial
  · unfold commit at h
    split at h
    · cases h; trivial
    · cases h; trivial
    · cases h; trivial
    · cases h
  · cases h
  · cases h; trivial
  · cases h

theorem Chronicle.step {place : Place} {o : Result} {log : List Event}
    (h : Chronicle d log) (hpapers : Papers P d) (hlive : KnowsLive d place)
    (heffect : Effect P d place o) : Chronicle o.data (o.out ++ log) := by
  have hkept : ∀ orderId, .moved orderId .cancel ∈ log →
      o.data.Canceled orderId := by
    intro orderId hmem
    exact heffect.canceled_kept hpapers hlive (h.canceled orderId hmem)
  cases heffect with
  | quiet hquiet =>
      obtain ⟨hdata, hout⟩ := hquiet
      refine ⟨fun orderId hmem => ?_, fun doc hdoc => ?_, ?_⟩
      · rcases List.mem_append.mp hmem with hmem | hmem
        · obtain ⟨why, heq⟩ := hout _ hmem
          cases heq
        · exact hkept orderId hmem
      · rw [hdata] at hdoc
        exact List.mem_append_right o.out (h.recorded doc hdoc)
      · have key : ∀ out : List Event, (∀ e ∈ out, ∃ why, e = .refused why) →
            Told InTime (out ++ log) := by
          intro out
          induction out with
          | nil => exact fun _ => h.told
          | cons e out ih =>
              intro hout
              obtain ⟨why, rfl⟩ := hout e List.mem_cons_self
              exact ⟨trivial, ih fun e' he' =>
                hout e' (List.mem_cons_of_mem _ he')⟩
        exact key o.out hout
  | placed order _ _ => exact ⟨hkept, h.recorded, h.told⟩
  | create draft sequence documentId =>
      refine ⟨fun orderId hmem => ?_, fun doc hdoc => ?_, ?_, h.told⟩
      · rcases List.mem_cons.mp hmem with heq | hmem
        · cases heq
        · exact hkept orderId hmem
      · rcases List.mem_cons.mp hdoc with rfl | hdoc
        · exact List.mem_cons_self
        · exact List.mem_cons_of_mem _ (h.recorded doc hdoc)
      · exact fun hmem => hlive (h.canceled _ hmem)
  | move orderId move =>
      refine ⟨fun id hmem => ?_, fun doc hdoc => ?_, trivial, h.told⟩
      · rcases List.mem_cons.mp hmem with heq | hmem
        · cases heq
          obtain ⟨order, ho, hid, -⟩ := hlive
          refine ⟨_, List.mem_map_of_mem ho, ?_, ?_⟩
          · rw [Order.setStatus_id]
            exact hid
          · rw [Order.setStatus, if_pos hid]
            rfl
        · exact hkept id hmem
      · exact List.mem_cons_of_mem _ (h.recorded doc hdoc)
  | cancel documentId =>
      refine ⟨fun id hmem => ?_, fun doc hdoc => ?_, trivial, h.told⟩
      · rcases List.mem_cons.mp hmem with heq | hmem
        · cases heq
        · exact hkept id hmem
      · obtain ⟨old, hold, rfl⟩ := List.mem_map.mp hdoc
        obtain ⟨status, heq, -⟩ := Document.cancel_eq documentId old
        rw [heq]
        exact List.mem_cons_of_mem _ (h.recorded old hold)

theorem chronicleRules (P : String) :
    Server.Rules (server P) (Server.OthersMeet NoneAwaits)
      (fun d log => Papers P d ∧ Chronicle d log)
      (fun d _ place => Knows d place ∧ KnowsLive d place) where
  init := by
    refine ⟨papers_init, ?_, ?_, .nil⟩
    · intro _ h; cases h
    · intro _ h; cases h
  start := ⟨trivial, trivial⟩
  unlocked := rfl
  step := by
    intro c p a o _ hinv hknows h
    have heffect := statement_effect h
    exact ⟨⟨hinv.1.step hknows.1 heffect,
        hinv.2.step hinv.1 hknows.2 heffect⟩,
      knows_of_statement hknows.1 h,
      knowsLive_of_statement hinv.1 hknows.2 h⟩
  frame := by
    intro c p a o q hq hok _ _ hother h hlocks _
    exact ⟨Knows.frame (statement_effect h) hother.1 hlocks,
      KnowsLive.frame h (hok q hq) hother.2 hlocks⟩

/-! ## What the claim is about

The condition put along a run, and the claim's parts read off the invariant. -/

theorem nodup_numbersUpTo {type : DocumentType} (n : ℕ) :
    (numbersUpTo P type n).Nodup := by
  induction n with
  | zero => exact List.nodup_nil
  | succ n ih =>
      rw [numbersUpTo, List.nodup_cons]
      refine ⟨fun hmem => ?_, ih⟩
      obtain ⟨k, -, hle, heq⟩ := mem_numbersUpTo.mp hmem
      have hk := (formatDocumentNumber_injective heq).2
      omega

/-- A list is free of repeats when each of its classes is, and no value is
shared between classes. -/
theorem nodup_map_of_classes {α β γ : Type*} [DecidableEq γ] {f : α → β}
    {g : α → γ} {l : List α}
    (hclass : ∀ t, ((l.filter fun x => g x = t).map f).Nodup)
    (hapart : ∀ x ∈ l, ∀ y ∈ l, f x = f y → g x = g y) :
    (l.map f).Nodup := by
  induction l with
  | nil => exact List.nodup_nil
  | cons x l ih =>
      rw [List.map_cons, List.nodup_cons]
      constructor
      · intro hmem
        obtain ⟨y, hy, heq⟩ := List.mem_map.mp hmem
        have hg := hapart y (List.mem_cons_of_mem x hy) x List.mem_cons_self heq
        have hnodup := hclass (g x)
        rw [List.filter_cons_of_pos (by simp), List.map_cons,
          List.nodup_cons] at hnodup
        refine hnodup.1 (List.mem_map.mpr ⟨y, ?_, heq⟩)
        exact List.mem_filter.mpr ⟨hy, by simpa using hg⟩
      · refine ih (fun t => ?_) fun x' hx' y hy => ?_
        · have hsub : (l.filter fun y => g y = t).Sublist
              ((x :: l).filter fun y => g y = t) :=
            (List.sublist_cons_self x l).filter _
          exact (hclass t).sublist (hsub.map f)
        · exact hapart x' (List.mem_cons_of_mem x hx') y
            (List.mem_cons_of_mem x hy)

theorem Papers.distinct (h : Papers P d) :
    (d.documents.map Document.documentNumber).Nodup := by
  have hformat : ∀ doc ∈ d.documents, ∃ k,
      doc.documentNumber = formatDocumentNumber P doc.type k := by
    intro doc hdoc
    have hmem : doc.documentNumber ∈
        numbersUpTo P doc.type (d.lastNumber doc.type) := by
      rw [← h.numbers doc.type]
      exact List.mem_map_of_mem (List.mem_filter.mpr ⟨hdoc, by simp⟩)
    obtain ⟨k, -, -, hk⟩ := mem_numbersUpTo.mp hmem
    exact ⟨k, hk⟩
  refine nodup_map_of_classes (g := Document.type) (fun type => ?_) ?_
  · rw [h.numbers type]
    exact nodup_numbersUpTo _
  · intro doc hdoc doc' hdoc' heq
    obtain ⟨k, hk⟩ := hformat doc hdoc
    obtain ⟨k', hk'⟩ := hformat doc' hdoc'
    rw [hk, hk'] at heq
    exact (formatDocumentNumber_injective heq).1

theorem Papers.liveOnce (h : Papers P d) (orderId : String)
    (type : DocumentType) :
    (d.documents.filter fun doc => doc.LiveFor orderId type).length ≤ 1 := by
  have hnodup : (d.documents.filter
      fun doc => doc.LiveFor orderId type).Nodup :=
    (List.Nodup.of_map _ h.documentIds).filter _
  match hlist : d.documents.filter fun doc => doc.LiveFor orderId type with
  | [] => rw [hlist]; exact Nat.zero_le 1
  | [_] => rw [hlist]; exact Nat.le_refl 1
  | doc :: doc' :: rest =>
      rw [hlist] at hnodup
      have hmem : ∀ x ∈ doc :: doc' :: rest,
          x ∈ d.documents ∧ x.LiveFor orderId type := by
        intro x hx
        rw [← hlist] at hx
        obtain ⟨hin, hl⟩ := List.mem_filter.mp hx
        exact ⟨hin, of_decide_eq_true hl⟩
      obtain ⟨hin, hl⟩ := hmem doc List.mem_cons_self
      obtain ⟨hin', hl'⟩ := hmem doc'
        (List.mem_cons_of_mem doc List.mem_cons_self)
      have hsame := h.live orderId type doc hin doc' hin' hl hl'
      rw [hsame] at hnodup
      exact absurd List.mem_cons_self (List.nodup_cons.mp hnodup).1

/-- What the documents of a company are to be like after a run. -/
structure Lawful (P : String) (c : Conf State Event) : Prop where
  liveOnce : ∀ orderId type, (c.st.data.documents.filter
    fun doc => doc.LiveFor orderId type).length ≤ 1
  notAfterCancel : ∀ newer older document,
    c.log = newer ++ .created document :: older →
      .moved document.orderId .cancel ∉ older
  recorded : ∀ doc ∈ c.st.data.documents,
    .created { doc with status := .issued } ∈ c.log
  copied : ∀ doc ∈ c.st.data.documents, c.st.data.Copied doc
  numbers : ∀ type,
    (c.st.data.documents.filter fun doc => doc.type = type).map
      Document.documentNumber =
        numbersUpTo P type (c.st.data.lastNumber type)
  distinct : (c.st.data.documents.map Document.documentNumber).Nodup

/-- As long as no cancellation commits beside somebody who is about to insert a
document for the order. -/
theorem lawful_of_reachWhen (P : String) (c : Conf State Event)
    (hreach : (machine P).ReachWhen (Server.OthersMeet NoneAwaits) c) :
    Lawful P c := by
  obtain ⟨hpapers, hchronicle⟩ := ((chronicleRules P).kept hreach).inv
  refine
    { liveOnce := hpapers.liveOnce
      notAfterCancel := ?_
      recorded := hchronicle.recorded
      copied := hpapers.copied
      numbers := hpapers.numbers
      distinct := hpapers.distinct }
  intro newer older document hlog
  have htold := hchronicle.told
  rw [hlog] at htold
  exact htold.ok

/-! ## Two runs

One in good order, and one in which the order is canceled in between. -/

/-- A line of a document. -/
def sampleLine : Line where
  productId := "p"
  variantId := none
  titleSnapshot := "Tea"
  quantityMilli := 2000
  unitPriceMinor := 150
  discountValue := 0
  discountAmountMinor := 0
  taxTreatment := .exempt
  taxRateBp := 0
  taxAmountMinor := 0
  netAmountMinor := 300
  grossAmountMinor := 300
  currency := "UAH"

/-- Two documents of one order, one made again, and the order canceled. -/
def orderlyRun : List (ℕ × Statement) :=
  [(1, .placeOrder "o" (some "c") [sampleLine]),
    (1, .createFromOrder "o" .payment_invoice),
    (2, .createFromOrder "o" .payment_invoice),
    (1, .prepare none true), (2, .prepare none true),
    (1, .assertNoLiveDocument), (2, .assertNoLiveDocument),
    (1, .allocateNextDocumentNumber), (1, .insertDocument "d"),
    (1, .commit), (2, .allocateNextDocumentNumber),
    (2, .insertDocument "e"), (1, .cancelDocument "d"),
    (1, .getSigning false), (1, .commit),
    (2, .createFromOrder "o" .payment_invoice), (2, .prepare none true),
    (2, .assertNoLiveDocument), (2, .allocateNextDocumentNumber),
    (2, .insertDocument "f"), (2, .commit),
    (3, .moveOrder "o" .cancel), (3, .commit)]

theorem lawful_of_reachWhen_orderly : ∃ c : Conf State Event,
    c.st.data.documents.map (fun doc => (doc.id, doc.documentNumber)) =
        [("f", "AB-РХ-000002"), ("d", "AB-РХ-000001")] ∧
      .moved "o" .cancel ∈ c.log ∧ Lawful "AB" c := by
  obtain ⟨c, hexec, hdocuments, hmoved⟩ : (machine "AB").EndsIn (fun c =>
      c.st.data.documents.map (fun doc => (doc.id, doc.documentNumber)) =
        [("f", "AB-РХ-000002"), ("d", "AB-РХ-000001")] ∧
      .moved "o" .cancel ∈ c.log) orderlyRun := by decide
  have hmeets : (machine "AB").StepsMeet (Server.OthersMeet NoneAwaits)
      (machine "AB").start orderlyRun := by
    refine Server.stepsMeet_of_callers ?_ [1, 2, 3] orderlyRun
      (by decide) (fun _ _ => rfl) (by decide)
    intro d place a
    unfold NoneAwaits
    split
    · exact id
    · trivial
  exact ⟨c, hdocuments, hmoved, lawful_of_reachWhen "AB" c
    (Machine.ReachWhen.of_exec .start orderlyRun hmeets hexec)⟩

/-- The order is canceled between the read and the insert. -/
def overtakenRun : List (ℕ × Statement) :=
  [(1, .placeOrder "o" (some "c") [sampleLine]),
    (1, .createFromOrder "o" .payment_invoice), (1, .prepare none true),
    (2, .moveOrder "o" .cancel), (2, .commit),
    (1, .assertNoLiveDocument), (1, .allocateNextDocumentNumber),
    (1, .insertDocument "d"), (1, .commit)]

theorem afterCancel_of_reach :
    ∃ c : Conf State Event, (machine "AB").Reach c ∧ ¬ Lawful "AB" c := by
  obtain ⟨c, hexec, doc, hdoc⟩ : (machine "AB").EndsIn (fun c =>
      ∃ doc ∈ c.st.data.documents.head?,
        c.log = [.created doc, .moved "o" .cancel] ∧ doc.orderId = "o")
      overtakenRun := by decide
  refine ⟨c, Machine.reach_of_exec overtakenRun hexec, fun hlawful => ?_⟩
  obtain ⟨-, hlog, horder⟩ := hdoc
  refine hlawful.notAfterCancel [] [.moved "o" .cancel] doc hlog ?_
  rw [horder]
  exact List.mem_cons_self

end Shozee.Documents
