import Shozee.Signing.Soundness

/-!
# What a caller may rely on

Before it locks the document, an attempt to complete a request knows only what
stays true: the request was started as it read it, and the container it has
verified belongs to it. Under the lock it learns the rest, and keeps it because
the others who write need the same lock. Deleting an abandoned request needs
the lock of that request instead.
-/

namespace Shozee.Signing

open Shozee.Run

variable {B : Type*} {v : Verifier B} {d : Data} {p : Past}

/-- The attempt was verified against a request that had been started. -/
structure Attempt.Verified (v : Verifier B) (p : Past) (attempt : Attempt) :
    Prop where
  started : attempt.request ∈ p.starts
  container : ∃ bytes payload, v.unpackAsicE bytes = some payload ∧
    v.verifyAsicE bytes = some attempt.verified ∧
    v.sha256Hex payload = attempt.request.payloadSha256
  signature : ∃ now,
    attempt.signature = signatureOf attempt.fileId attempt.verified now

/-- The document was issued and its grant fresh at a time. -/
def Data.GrantedAt (d : Data) (heldAt : Int) : Prop :=
  d.document.status = .issued ∧
    ∃ requestedAt, d.document.signRequestedAt = some requestedAt ∧
      heldAt - requestedAt < SIGN_REQUEST_GRANT_TTL_MS

/-- The insert of `docSigning.start` is the only sign of its request. -/
structure Inserted (d : Data) (p : Past) (row : SigningRequest) : Prop where
  unsigned : d.signatures = []
  unrequested : ∀ r ∈ d.requests, r.status ≠ .pending
  status : row.status = .pending
  drawn : row.id ∈ d.drawn
  fresh : ∀ r ∈ p.starts, r.id ≠ row.id

/-- What a caller relies on in a place. -/
def Knows (v : Verifier B) (d : Data) (p : Past) : Place → Prop
  | .idle => True
  | .requestIssued => True
  | .requestUnsigned => True
  | .cancelIssued => True
  | .cancelUnsigned => d.signatures = []
  | .startIssued => True
  | .startUnsigned => d.signatures = []
  | .startUnrequested =>
      d.signatures = [] ∧ ∀ r ∈ d.requests, r.status ≠ .pending
  | .startRaced => True
  | .startInserted row => Inserted d p row
  | .completedSeen .. => True
  | .pendingSeen request _ => request ∈ p.starts
  | .unsignedSeen request _ => request ∈ p.starts
  | .verified attempt => attempt.Verified v p
  | .documentLocked attempt heldAt =>
      attempt.Verified v p ∧ d.GrantedAt heldAt
  | .completedLocked .. => True
  | .requestLocked attempt heldAt =>
      attempt.Verified v p ∧ d.GrantedAt heldAt ∧
        d.Pending attempt.request.id
  | .unclaimed attempt heldAt =>
      attempt.Verified v p ∧ d.GrantedAt heldAt ∧
        d.Pending attempt.request.id ∧ d.signatures = []
  | .raced .. => True
  | .inserted attempt heldAt =>
      attempt.Verified v p ∧ d.GrantedAt heldAt ∧
        d.Pending attempt.request.id ∧ d.signatures = []
  | .abandoning requestIds => ∀ id ∈ requestIds, d.Pending id

/-! ## What others leave alone

What is known under the lock of the document is not changed by others, and a
pending request is kept by its own lock. -/

/-- What a caller that holds the document is sure to find again. -/
structure Undisturbed (d d' : Data) (p p' : Past) : Prop where
  document : d'.document = d.document
  signatures : d'.signatures = d.signatures
  drawn : d'.drawn = d.drawn
  requests : d'.requests ⊆ d.requests
  starts : p'.starts = p.starts

theorem Effect.undisturbed {place : Place} {o : Result} {log : List Event}
    (h : Effect d place o) (hlock : Lock.document ∉ place.held) :
    Undisturbed d o.data (past log) (past (o.out ++ log)) := by
  cases h with
  | quiet hquiet =>
      obtain ⟨hdata, hout⟩ := hquiet
      rw [hdata, past_quiet hout]
      exact ⟨rfl, rfl, rfl, List.Subset.refl _, rfl⟩
  | abandon requestIds =>
      exact ⟨rfl, rfl, rfl, List.filter_subset_self _, rfl⟩
  | draw row hid hstatus => exact absurd List.mem_cons_self hlock
  | request now => exact absurd List.mem_cons_self hlock
  | cancel => exact absurd List.mem_cons_self hlock
  | start row => exact absurd List.mem_cons_self hlock
  | sign attempt heldAt hpending => exact absurd List.mem_cons_self hlock

/-- A pending request stays as long as it is locked. -/
theorem Effect.pending {place : Place} {o : Result} {id : String}
    (h : Effect d place o) (hlock : Lock.request id ∉ place.held)
    (hpending : d.Pending id) : o.data.Pending id := by
  obtain ⟨r, hr, hid, hs⟩ := hpending
  cases h with
  | quiet hquiet =>
      rw [hquiet.1]
      exact ⟨r, hr, hid, hs⟩
  | draw row _ _ => exact ⟨r, hr, hid, hs⟩
  | request now => exact ⟨r, hr, hid, hs⟩
  | cancel => exact ⟨r, hr, hid, hs⟩
  | start row => exact ⟨r, List.mem_cons_of_mem row hr, hid, hs⟩
  | sign attempt heldAt _ =>
      have hne : r.id ≠ attempt.request.id := by
        intro heq
        refine hlock ?_
        show Lock.request id ∈ [_, Lock.request attempt.request.id, _]
        rw [← hid, heq]
        simp
      have hsame : r.close attempt.request.id = r :=
        if_neg fun hboth => hne hboth.1
      exact ⟨r, List.mem_map.mpr ⟨r, hr, hsame⟩, hid, hs⟩
  | abandon requestIds =>
      refine ⟨r, List.mem_filter.mpr ⟨hr, ?_⟩, hid, hs⟩
      rw [decide_eq_true_eq]
      intro hmem
      refine hlock ?_
      show Lock.request id ∈ requestIds.map Lock.request
      exact List.mem_map_of_mem (hid ▸ hmem)

theorem Past.starts_add {e : Event} : p.starts ⊆ (p.add e).starts := by
  cases e with
  | started row => exact List.subset_cons_self row p.starts
  | _ => exact List.Subset.refl _

theorem starts_subset {out log : List Event} :
    (past log).starts ⊆ (past (out ++ log)).starts := by
  induction out with
  | nil => exact List.Subset.refl _
  | cons e out ih => exact List.Subset.trans ih Past.starts_add

theorem Attempt.Verified.mono {p' : Past} {attempt : Attempt}
    (h : attempt.Verified v p) (hsub : p.starts ⊆ p'.starts) :
    attempt.Verified v p' :=
  ⟨hsub h.started, h.container, h.signature⟩

theorem Data.GrantedAt.undisturbed {d' : Data} {p' : Past} {heldAt : Int}
    (h : d.GrantedAt heldAt) (hsame : Undisturbed d d' p p') :
    d'.GrantedAt heldAt := by
  unfold GrantedAt
  rw [hsame.document]
  exact h

/-- What somebody relies on survives what anybody else does, by the locks. -/
theorem Knows.frame {place other : Place} {o : Result} {log : List Event}
    (heffect : Effect d place o) (h : Knows v d (past log) other)
    (hlocks : ∀ k ∈ place.held, k ∉ other.held) :
    Knows v o.data (past (o.out ++ log)) other := by
  have hstarts : (past log).starts ⊆ (past (o.out ++ log)).starts :=
    starts_subset
  have hdocument : Lock.document ∈ other.held →
      Undisturbed d o.data (past log) (past (o.out ++ log)) := by
    intro hheld
    exact heffect.undisturbed fun hmine => hlocks _ hmine hheld
  have hrequest : ∀ id, Lock.request id ∈ other.held → d.Pending id →
      o.data.Pending id := by
    intro id hheld
    exact heffect.pending fun hmine => hlocks _ hmine hheld
  cases other with
  | idle => trivial
  | requestIssued => trivial
  | requestUnsigned => trivial
  | cancelIssued => trivial
  | startIssued => trivial
  | startRaced => trivial
  | completedSeen requestId fileId => trivial
  | completedLocked requestId fileId => trivial
  | raced requestId fileId => trivial
  | cancelUnsigned =>
      exact (hdocument List.mem_cons_self).signatures.trans h
  | startUnsigned =>
      exact (hdocument List.mem_cons_self).signatures.trans h
  | startUnrequested =>
      have hsame := hdocument List.mem_cons_self
      exact ⟨hsame.signatures.trans h.1, fun r hr => h.2 r (hsame.requests hr)⟩
  | startInserted row =>
      have hsame := hdocument List.mem_cons_self
      refine ⟨hsame.signatures.trans h.unsigned,
        fun r hr => h.unrequested r (hsame.requests hr), h.status, ?_, ?_⟩
      · rw [hsame.drawn]
        exact h.drawn
      · rw [hsame.starts]
        exact h.fresh
  | pendingSeen request fileId => exact hstarts h
  | unsignedSeen request fileId => exact hstarts h
  | verified attempt => exact Attempt.Verified.mono h hstarts
  | documentLocked attempt heldAt =>
      exact ⟨h.1.mono hstarts,
        h.2.undisturbed (hdocument List.mem_cons_self)⟩
  | requestLocked attempt heldAt =>
      have hsame := hdocument List.mem_cons_self
      refine ⟨h.1.mono hstarts, h.2.1.undisturbed hsame, ?_⟩
      exact hrequest _ (by simp [Place.held]) h.2.2
  | unclaimed attempt heldAt =>
      have hsame := hdocument List.mem_cons_self
      refine ⟨h.1.mono hstarts, h.2.1.undisturbed hsame, ?_,
        hsame.signatures.trans h.2.2.2⟩
      exact hrequest _ (by simp [Place.held]) h.2.2.1
  | inserted attempt heldAt =>
      have hsame := hdocument List.mem_cons_self
      refine ⟨h.1.mono hstarts, h.2.1.undisturbed hsame, ?_,
        hsame.signatures.trans h.2.2.2⟩
      exact hrequest _ (by simp [Place.held]) h.2.2.1
  | abandoning requestIds =>
      intro id hid
      exact hrequest id (List.mem_map_of_mem hid) (h id hid)

/-! ## What a statement finds out

One lemma for each statement: what its caller knows afterwards. -/

theorem lockIssuedForSigning_ok {row : DocumentRow} {now : Int}
    {ready : Bool} (h : lockIssuedForSigning row now ready = .ok ()) :
    row.status = .issued ∧ ∃ requestedAt,
      row.signRequestedAt = some requestedAt ∧
        now - requestedAt < SIGN_REQUEST_GRANT_TTL_MS := by
  obtain ⟨status, grant⟩ := row
  cases status with
  | cancelled => cases h
  | issued =>
      refine ⟨rfl, ?_⟩
      cases grant with
      | none => cases h
      | some requestedAt =>
          by_cases hfresh : now - requestedAt < SIGN_REQUEST_GRANT_TTL_MS
          · exact ⟨requestedAt, rfl, hfresh⟩
          · simp [lockIssuedForSigning, requireUnexpiredGrant, hfresh,
              Bind.bind, Except.bind] at h

theorem mem_of_request {requestId : String} {r : SigningRequest}
    (h : d.request requestId = some r) : r ∈ d.requests ∧ r.id = requestId := by
  have hfind : d.requests.find? (fun r => r.id = requestId) = some r := h
  have hid := List.find?_some hfind
  rw [decide_eq_true_eq] at hid
  exact ⟨List.mem_of_find?_eq_some hfind, hid⟩

theorem no_pending_of_none (h : d.pendingRequest = none) :
    ∀ r ∈ d.requests, r.status ≠ .pending := by
  intro r hr hs
  have hnot := List.find?_eq_none.mp h r hr
  exact hnot (decide_eq_true hs)

theorem gate_knows {check : Except Refusal Unit} {place : Place}
    (h : Knows v d p place) : Knows v d p (gate d check place).place := by
  cases check with
  | ok => exact h
  | error why => trivial

theorem unlessSigned_knows {message : String} {place : Place}
    (h : d.signatures = [] → Knows v d p place) :
    Knows v d p (unlessSigned d message place).place := by
  unfold unlessSigned
  split
  · trivial
  · next hnone => exact h (List.head?_eq_none_iff.mp hnone)

theorem resolveOr_knows {requestId fileId : String} {place : Place}
    (h : d.signatures = [] → Knows v d p place) :
    Knows v d p (resolveOr d requestId fileId place).place := by
  unfold resolveOr
  split
  · trivial
  · next hnone => exact h (List.head?_eq_none_iff.mp hnone)

theorem resolveRecorded_knows {requestId fileId message : String} :
    Knows v d p (resolveRecorded d requestId fileId message).place := by
  unfold resolveRecorded
  split
  · trivial
  · trivial

theorem complete_knows (hs : Sound d p) {requestId fileId : String} :
    Knows v d p (complete d requestId fileId).place := by
  unfold complete
  split
  · trivial
  · next request hrequest =>
      split
      · trivial
      · next hstatus =>
          obtain ⟨hr, -⟩ := mem_of_request hrequest
          exact (hs.pending request hr hstatus).started

theorem verifyAsicE_eq_some {bytes : B} {verified : AsicVerifyResult}
    (h : v.verifyAsicE bytes = some verified) :
    ∃ payload, v.unpackAsicE bytes = some payload ∧
      v.sha256Hex payload = verified.payloadSha256 := by
  unfold Verifier.verifyAsicE at h
  split at h
  · cases h
  · next payload hpayload =>
      split at h
      · cases h
      · cases h
        exact ⟨payload, hpayload, rfl⟩

theorem verify_knows {request : SigningRequest} {fileId : String} {bytes : B}
    {now : Int} (h : request ∈ p.starts) :
    Knows v d p (verify v d request fileId bytes now).place := by
  unfold verify
  split
  · trivial
  · next verified hverified =>
      split
      · next hsame =>
          obtain ⟨payload, hpayload, hsha⟩ := verifyAsicE_eq_some hverified
          exact ⟨h, ⟨bytes, payload, hpayload, hverified, hsha.trans hsame⟩,
            ⟨now, rfl⟩⟩
      · trivial

theorem lockDocument_knows {attempt : Attempt} {now : Int} {ready : Bool}
    (h : attempt.Verified v p) :
    Knows v d p (lockDocument d attempt now ready).place := by
  unfold lockDocument
  split
  · next hok => exact ⟨h, lockIssuedForSigning_ok hok⟩
  · trivial

theorem lockRequest_knows {attempt : Attempt} {heldAt : Int}
    (h : attempt.Verified v p ∧ d.GrantedAt heldAt) :
    Knows v d p (lockRequest d attempt heldAt).place := by
  unfold lockRequest
  split
  · trivial
  · next request hrequest =>
      split
      · trivial
      · next hstatus =>
          obtain ⟨hr, hid⟩ := mem_of_request hrequest
          exact ⟨h.1, h.2, ⟨request, hr, hid, hstatus⟩⟩

theorem insertSignature_knows {attempt : Attempt} {heldAt : Int}
    (h : Knows v d p (.unclaimed attempt heldAt)) :
    Knows v d p (insertSignature d attempt heldAt).place := by
  unfold insertSignature
  split
  · trivial
  · exact h

theorem loadSupplierSignature_knows {place : Place} {o : Result}
    (hknows : Knows v d p place)
    (h : loadSupplierSignature d place = some o) : Knows v d p o.place := by
  unfold loadSupplierSignature at h
  split at h
  · cases h; exact unlessSigned_knows fun _ => trivial
  · cases h; exact unlessSigned_knows fun hunsigned => hunsigned
  · cases h; exact unlessSigned_knows fun hunsigned => hunsigned
  · cases h; exact resolveRecorded_knows
  · cases h; exact resolveOr_knows fun _ => hknows
  · cases h; exact resolveRecorded_knows
  · cases h
    exact resolveOr_knows fun hunsigned =>
      ⟨hknows.1, hknows.2.1, hknows.2.2, hunsigned⟩
  · cases h; exact resolveRecorded_knows
  · cases h

theorem loadPendingRequest_knows {place : Place} {o : Result}
    (hknows : Knows v d p place) (h : loadPendingRequest d place = some o) :
    Knows v d p o.place := by
  unfold loadPendingRequest at h
  split at h
  · cases h
    unfold loadPendingOr
    split
    · trivial
    · next hnone => exact ⟨hknows, no_pending_of_none hnone⟩
  · cases h
    unfold loadPendingOr
    split
    · trivial
    · trivial
  · cases h

theorem insertRequest_knows (hs : Sound d p)
    {requestId checksumSha256 : String} {fileId : Option String} {o : Result}
    (hknows : Knows v d p .startUnrequested)
    (h : insertRequest d requestId fileId checksumSha256 = some o) :
    Knows v o.data p o.place := by
  unfold insertRequest at h
  split at h
  · cases h
    trivial
  · split at h
    · cases h
      trivial
    · split at h
      · cases h
      · next hid =>
          cases h
          refine ⟨hknows.1, hknows.2, rfl, List.mem_cons_self, ?_⟩
          intro r hr heq
          have heq : r.id = requestId := heq
          exact hid (heq ▸ hs.drawn r hr)

theorem commit_idle {place : Place} {now : Int} {o : Result}
    (h : commit d now place = some o) : o.place = .idle := by
  unfold commit at h
  split at h
  · cases h; rfl
  · cases h; rfl
  · cases h; rfl
  · cases h
    unfold commitSignature
    split
    · rfl
    · rfl
  · cases h; rfl
  · cases h

end Shozee.Signing
