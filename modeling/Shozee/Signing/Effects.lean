import Shozee.Signing.Protocol

/-!
# What a statement does to the rows

Most statements only read. `Effect` lists what the others change, each with the
place it starts from: a transaction changes rows with its last statement, and
`docSigning.start` draws an id when it inserts. What a caller relies on while it
holds the document is kept by the effects of the others (`Effect.frame`).
-/

namespace Shozee.Signing

open Shozee.Run

/-- The request is there and pending. -/
def Data.Pending (d : Data) (requestId : String) : Prop :=
  ∃ r ∈ d.requests, r.id = requestId ∧ r.status = .pending

/-- Reports of a call that changed nothing: a view that is returned is of the
signature that is there. -/
def Event.Quiet (d : Data) : Event → Prop
  | .resumed _ => True
  | .refused _ => True
  | .answered requestId fileId reply => ∀ view, reply = .ok view →
      ∃ signature ∈ d.signatures,
        view = ⟨requestId, signature⟩ ∧ signature.fileId = fileId
  | .requested _ => False
  | .cancelled => False
  | .started _ => False
  | .signed .. => False
  | .abandoned _ => False

/-- A statement that changes nothing and says nothing of note. -/
def Result.Quiet (d : Data) (o : Result) : Prop :=
  o.data = d ∧ ∀ e ∈ o.out, e.Quiet d

/-- What a statement does, by the place it starts from. -/
inductive Effect (d : Data) : Place → Result → Prop
  | quiet {place : Place} {o : Result} : Result.Quiet d o → Effect d place o
  | draw (row : SigningRequest) : row.id ∉ d.drawn → row.status = .pending →
      Effect d .startUnrequested
        ⟨{ d with drawn := row.id :: d.drawn }, .startInserted row, []⟩
  | request (now : Int) :
      Effect d .requestUnsigned
        ⟨{ d with document := { d.document with signRequestedAt := some now } },
          .idle, [.requested now]⟩
  | cancel :
      Effect d .cancelUnsigned
        ⟨{ d with document := ⟨.cancelled, none⟩ }, .idle, [.cancelled]⟩
  | start (row : SigningRequest) :
      Effect d (.startInserted row)
        ⟨{ d with requests := row :: d.requests }, .idle, [.started row]⟩
  | sign (attempt : Attempt) (heldAt : Int) : d.Pending attempt.request.id →
      Effect d (.inserted attempt heldAt)
        ⟨{ d with
            signatures := attempt.signature :: d.signatures
            requests :=
              d.requests.map (SigningRequest.close attempt.request.id) },
          .idle,
          [.answered attempt.request.id attempt.fileId
            (.ok ⟨attempt.request.id, attempt.signature⟩),
          .signed attempt heldAt]⟩
  | abandon (requestIds : List String) :
      Effect d (.abandoning requestIds)
        ⟨{ d with requests := d.requests.filter fun r => r.id ∉ requestIds },
          .idle, [.abandoned requestIds]⟩

/-! ## Statements that only read

They lock, look and go on, or refuse. -/

variable {d : Data}

theorem goOn_quiet {place : Place} : Result.Quiet d (goOn d place) :=
  ⟨rfl, fun _ he => nomatch he⟩

theorem refuse_quiet {why : Refusal} : Result.Quiet d (refuse d why) := by
  refine ⟨rfl, fun e he => ?_⟩
  rw [List.mem_singleton.mp he]
  trivial

theorem resume_quiet {row : SigningRequest} :
    Result.Quiet d (resume d row) := by
  refine ⟨rfl, fun e he => ?_⟩
  rw [List.mem_singleton.mp he]
  trivial

theorem answer_error_quiet {requestId fileId : String} {why : Refusal} :
    Result.Quiet d (answer d requestId fileId (.error why)) := by
  refine ⟨rfl, fun e he => ?_⟩
  rw [List.mem_singleton.mp he]
  intro view hview
  cases hview

/-- A replay returns the recorded signature. -/
theorem resolve_quiet {requestId fileId : String}
    {signature : SupplierSignature} (h : d.signatures.head? = some signature) :
    Result.Quiet d (answer d requestId fileId
      (resolveExistingSignature signature fileId requestId)) := by
  refine ⟨rfl, fun e he => ?_⟩
  rw [List.mem_singleton.mp he]
  intro view hview
  unfold resolveExistingSignature at hview
  split at hview
  · cases hview
  · next hfile =>
      cases hview
      exact ⟨signature, List.mem_of_mem_head? h, rfl, not_not.mp hfile⟩

theorem gate_quiet {check : Except Refusal Unit} {place : Place} :
    Result.Quiet d (gate d check place) := by
  cases check with
  | ok => exact goOn_quiet
  | error why => exact refuse_quiet

theorem cancelIssued_quiet : Result.Quiet d (cancelIssued d) := by
  unfold cancelIssued
  split
  · exact refuse_quiet
  · exact goOn_quiet

theorem unlessSigned_quiet {message : String} {place : Place} :
    Result.Quiet d (unlessSigned d message place) := by
  unfold unlessSigned
  split
  · exact refuse_quiet
  · exact goOn_quiet

theorem resolveOr_quiet {requestId fileId : String} {place : Place} :
    Result.Quiet d (resolveOr d requestId fileId place) := by
  unfold resolveOr
  split
  · next h => exact resolve_quiet h
  · exact goOn_quiet

theorem resolveRecorded_quiet {requestId fileId message : String} :
    Result.Quiet d (resolveRecorded d requestId fileId message) := by
  unfold resolveRecorded
  split
  · next h => exact resolve_quiet h
  · exact answer_error_quiet

theorem loadPendingOr_quiet {otherwise : Result}
    (h : Result.Quiet d otherwise) :
    Result.Quiet d (loadPendingOr d otherwise) := by
  unfold loadPendingOr
  split
  · exact resume_quiet
  · exact h

theorem complete_quiet {requestId fileId : String} :
    Result.Quiet d (complete d requestId fileId) := by
  unfold complete
  split
  · exact answer_error_quiet
  · split
    · exact goOn_quiet
    · exact goOn_quiet

theorem verify_quiet {B : Type*} {v : Verifier B} {request : SigningRequest}
    {fileId : String} {bytes : B} {now : Int} :
    Result.Quiet d (verify v d request fileId bytes now) := by
  unfold verify
  split
  · exact answer_error_quiet
  · split
    · exact goOn_quiet
    · exact answer_error_quiet

theorem lockDocument_quiet {attempt : Attempt} {now : Int} {ready : Bool} :
    Result.Quiet d (lockDocument d attempt now ready) := by
  unfold lockDocument
  split
  · exact goOn_quiet
  · exact answer_error_quiet

theorem lockRequest_quiet {attempt : Attempt} {heldAt : Int} :
    Result.Quiet d (lockRequest d attempt heldAt) := by
  unfold lockRequest
  split
  · exact answer_error_quiet
  · split
    · exact goOn_quiet
    · exact goOn_quiet

theorem insertSignature_quiet {attempt : Attempt} {heldAt : Int} :
    Result.Quiet d (insertSignature d attempt heldAt) := by
  unfold insertSignature
  split
  · exact goOn_quiet
  · exact goOn_quiet

theorem loadSupplierSignature_quiet {place : Place} {o : Result}
    (h : loadSupplierSignature d place = some o) : Result.Quiet d o := by
  unfold loadSupplierSignature at h
  split at h
  · cases h; exact unlessSigned_quiet
  · cases h; exact unlessSigned_quiet
  · cases h; exact unlessSigned_quiet
  · cases h; exact resolveRecorded_quiet
  · cases h; exact resolveOr_quiet
  · cases h; exact resolveRecorded_quiet
  · cases h; exact resolveOr_quiet
  · cases h; exact resolveRecorded_quiet
  · cases h

theorem loadPendingRequest_quiet {place : Place} {o : Result}
    (h : loadPendingRequest d place = some o) : Result.Quiet d o := by
  unfold loadPendingRequest at h
  split at h
  · cases h; exact loadPendingOr_quiet goOn_quiet
  · cases h; exact loadPendingOr_quiet refuse_quiet
  · cases h

/-! ## Statements that write

The last statement of each transaction, inverted. -/

theorem some_of_guard {p : Prop} [Decidable p] {o o' : Result}
    (h : (if p then some o else none) = some o') : p ∧ o = o' := by
  obtain ⟨hp, ho⟩ := Option.ite_none_right_eq_some.mp h
  exact ⟨hp, Option.some.inj ho⟩

theorem insertRequest_effect {requestId checksumSha256 : String}
    {fileId : Option String} {o : Result}
    (h : insertRequest d requestId fileId checksumSha256 = some o) :
    Effect d .startUnrequested o := by
  unfold insertRequest at h
  split at h
  · cases h
    exact .quiet refuse_quiet
  · split at h
    · cases h
      exact .quiet goOn_quiet
    · split at h
      · cases h
      · next hid =>
          cases h
          exact .draw ⟨requestId, _, checksumSha256, .pending⟩ hid rfl

theorem commitSignature_effect {attempt : Attempt} {heldAt : Int} :
    Effect d (.inserted attempt heldAt) (commitSignature d attempt heldAt) := by
  unfold commitSignature
  split
  · next hpending => exact .sign attempt heldAt hpending
  · exact .quiet answer_error_quiet

theorem commit_effect {place : Place} {now : Int} {o : Result}
    (h : commit d now place = some o) : Effect d place o := by
  unfold commit at h
  split at h
  · cases h; exact .request now
  · cases h; exact .cancel
  · cases h; exact .start _
  · cases h; exact commitSignature_effect
  · cases h; exact .abandon _
  · cases h

theorem statement_effect {B : Type*} {v : Verifier B} {place : Place}
    {a : Statement B} {o : Result} (h : statement v d place a = some o) :
    Effect d place o := by
  cases a with
  | requestSign ready =>
      obtain ⟨-, rfl⟩ := some_of_guard h
      exact .quiet gate_quiet
  | cancel =>
      obtain ⟨-, rfl⟩ := some_of_guard h
      exact .quiet cancelIssued_quiet
  | start now ready =>
      obtain ⟨-, rfl⟩ := some_of_guard h
      exact .quiet gate_quiet
  | complete requestId fileId =>
      obtain ⟨-, rfl⟩ := some_of_guard h
      exact .quiet complete_quiet
  | abandon requestIds =>
      obtain ⟨-, h⟩ := Option.ite_none_right_eq_some.mp h
      obtain ⟨-, rfl⟩ := some_of_guard h
      exact .quiet goOn_quiet
  | loadSupplierSignature => exact .quiet (loadSupplierSignature_quiet h)
  | loadPendingRequest => exact .quiet (loadPendingRequest_quiet h)
  | insertRequest requestId fileId checksumSha256 =>
      obtain ⟨rfl, h⟩ := Option.ite_none_right_eq_some.mp h
      exact insertRequest_effect h
  | verify bytes now =>
      simp only [statement] at h
      split at h
      · cases h; exact .quiet verify_quiet
      · cases h
  | lockIssued now ready =>
      simp only [statement] at h
      split at h
      · cases h; exact .quiet lockDocument_quiet
      · cases h
  | lockRequest =>
      simp only [statement] at h
      split at h
      · cases h; exact .quiet lockRequest_quiet
      · cases h
  | insertSignature =>
      simp only [statement] at h
      split at h
      · cases h; exact .quiet insertSignature_quiet
      · cases h
  | commit now => exact commit_effect h
  | fail =>
      simp only [statement] at h
      split at h
      · cases h
      · cases h; exact .quiet goOn_quiet

end Shozee.Signing
