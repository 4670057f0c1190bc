import Mathlib.Data.List.Nodup
import Shozee.Signing.Effects

/-!
# The rows and their past

`past` sums up a history: the grant in force, whether the document was
cancelled, and which requests were started, signed and abandoned. `Sound` ties
the rows to it. A pending request is one that was started and neither signed
nor abandoned; there is at most one, and none beside a signature.

`Knows` is what a caller may rely on in each place, and the two together are
kept by every statement of anybody (`rules`).
-/

namespace Shozee.Signing

open Shozee.Run

/-! ## What the history says

The past of a document, as a fold over what was reported. -/

/-- What a log tells of a document's signing. -/
structure Past where
  grant : Option Int
  cancelled : Bool
  starts : List SigningRequest
  signings : List Attempt
  abandoned : List String

/-- What one event adds. -/
def Past.add (p : Past) : Event → Past
  | .requested now => { p with grant := some now }
  | .cancelled => { p with grant := none, cancelled := true }
  | .started row => { p with starts := row :: p.starts }
  | .signed attempt _ => { p with signings := attempt :: p.signings }
  | .abandoned requestIds =>
      { p with abandoned := requestIds ++ p.abandoned }
  | .resumed _ => p
  | .answered .. => p
  | .refused _ => p

/-- What a log tells. -/
def past : List Event → Past
  | [] => ⟨none, false, [], [], []⟩
  | e :: log => (past log).add e

/-- The request was started, and neither signed nor abandoned since. -/
structure Past.Pending (p : Past) (row : SigningRequest) : Prop where
  started : row ∈ p.starts
  unsigned : ∀ attempt ∈ p.signings, attempt.request.id ≠ row.id
  kept : row.id ∉ p.abandoned

theorem past_quiet {d : Data} {out log : List Event}
    (h : ∀ e ∈ out, e.Quiet d) : past (out ++ log) = past log := by
  induction out with
  | nil => rfl
  | cons e out ih =>
      have hrest := ih fun e' he' => h e' (List.mem_cons_of_mem e he')
      have hquiet := h e List.mem_cons_self
      show (past (out ++ log)).add e = past log
      rw [hrest]
      cases e with
      | resumed row => rfl
      | answered requestId fileId reply => rfl
      | refused why => rfl
      | requested now => exact hquiet.elim
      | cancelled => exact hquiet.elim
      | started row => exact hquiet.elim
      | signed attempt heldAt => exact hquiet.elim
      | abandoned requestIds => exact hquiet.elim

/-- The container of a recorded signature holds a payload with the hash that
was frozen, of a request that is still pending; the grant covers the time at
which the document was locked, and nothing stands against it. -/
structure SignedRightly {B : Type*} (v : Verifier B) (older : List Event)
    (attempt : Attempt) (heldAt : Int) : Prop where
  pending : (past older).Pending attempt.request
  container : ∃ bytes payload, v.unpackAsicE bytes = some payload ∧
    v.verifyAsicE bytes = some attempt.verified ∧
    v.sha256Hex payload = attempt.request.payloadSha256
  signature : ∃ now,
    attempt.signature = signatureOf attempt.fileId attempt.verified now
  grant : ∃ requestedAt, (past older).grant = some requestedAt ∧
    heldAt - requestedAt < SIGN_REQUEST_GRANT_TTL_MS
  first : (past older).signings = []
  live : (past older).cancelled = false

/-- What is right to happen after a history. -/
def Rightly {B : Type*} (v : Verifier B) (older : List Event) : Event → Prop
  | .signed attempt heldAt => SignedRightly v older attempt heldAt
  | .cancelled => (past older).signings = []
  | .requested _ => True
  | .started _ => True
  | .resumed _ => True
  | .abandoned _ => True
  | .answered .. => True
  | .refused _ => True

/-! ## What holds of the rows

The rows and the past agree, and each kind of commit keeps them so. -/

/-- The rows in view of the past. -/
structure Sound (d : Data) (p : Past) : Prop where
  grant : d.document.signRequestedAt = p.grant
  cancelled : d.document.status = .cancelled ↔ p.cancelled = true
  signatures : d.signatures = p.signings.map Attempt.signature
  oneSignature : d.signatures.length ≤ 1
  exclusive : d.document.status = .cancelled → d.signatures = []
  ids : (d.requests.map SigningRequest.id).Nodup
  startedOnce : (p.starts.map SigningRequest.id).Nodup
  drawn : ∀ row ∈ p.starts, row.id ∈ d.drawn
  signedStarted : ∀ attempt ∈ p.signings, attempt.request ∈ p.starts
  abandonedStarted : ∀ id ∈ p.abandoned, ∃ row ∈ p.starts, row.id = id
  pending : ∀ r ∈ d.requests, r.status = .pending → p.Pending r
  completed : ∀ r ∈ d.requests, r.status = .completed →
    ∃ attempt ∈ p.signings, attempt.request.id = r.id
  kept : ∀ attempt ∈ p.signings, ∃ r ∈ d.requests,
    r.id = attempt.request.id ∧ r.status = .completed
  onePending : ∀ r ∈ d.requests, ∀ r' ∈ d.requests,
    r.status = .pending → r'.status = .pending → r = r'
  closed : d.signatures ≠ [] → ∀ r ∈ d.requests, r.status = .completed

theorem sound_init : Sound ⟨⟨.issued, none⟩, [], [], []⟩ (past []) where
  grant := rfl
  cancelled := by constructor <;> intro h <;> cases h
  signatures := rfl
  oneSignature := Nat.zero_le 1
  exclusive := fun _ => rfl
  ids := List.nodup_nil
  startedOnce := List.nodup_nil
  drawn := fun _ h => nomatch h
  signedStarted := fun _ h => nomatch h
  abandonedStarted := fun _ h => nomatch h
  pending := fun _ h => nomatch h
  completed := fun _ h => nomatch h
  kept := fun _ h => nomatch h
  onePending := fun _ h => nomatch h
  closed := fun _ _ h => nomatch h

variable {d : Data} {p : Past}

/-- Every row was started. -/
theorem Sound.row_started (h : Sound d p) {r : SigningRequest}
    (hr : r ∈ d.requests) : ∃ row ∈ p.starts, row.id = r.id := by
  cases hstatus : r.status with
  | pending => exact ⟨r, (h.pending r hr hstatus).started, rfl⟩
  | completed =>
      obtain ⟨attempt, ha, hid⟩ := h.completed r hr hstatus
      exact ⟨attempt.request, h.signedStarted attempt ha, hid⟩

/-- A pending row is as it was started. -/
theorem Sound.pending_eq (h : Sound d p) {row : SigningRequest}
    (hrow : row ∈ p.starts) (hpending : d.Pending row.id) :
    row ∈ d.requests ∧ p.Pending row := by
  obtain ⟨r, hr, hid, hstatus⟩ := hpending
  have hin := h.pending r hr hstatus
  have hsame := List.inj_on_of_nodup_map h.startedOnce hin.started hrow hid
  rw [← hsame]
  exact ⟨hr, hin⟩

theorem Sound.draw (h : Sound d p) (id : String) :
    Sound { d with drawn := id :: d.drawn } p :=
  { h with drawn := fun row hrow => List.mem_cons_of_mem id (h.drawn row hrow) }

theorem Sound.request (h : Sound d p) (now : Int) :
    Sound { d with document := { d.document with signRequestedAt := some now } }
      (p.add (.requested now)) :=
  { h with
    grant := rfl
    pending := fun r hr hs =>
      have hin := h.pending r hr hs
      ⟨hin.started, hin.unsigned, hin.kept⟩ }

theorem Sound.cancel (h : Sound d p) (hunsigned : d.signatures = []) :
    Sound { d with document := ⟨.cancelled, none⟩ } (p.add .cancelled) :=
  { h with
    grant := rfl
    cancelled := ⟨fun _ => rfl, fun _ => rfl⟩
    exclusive := fun _ => hunsigned
    pending := fun r hr hs =>
      have hin := h.pending r hr hs
      ⟨hin.started, hin.unsigned, hin.kept⟩ }

/-- A request can be started beside no pending one and no signature, under an
id that is on no record. -/
theorem Sound.start (h : Sound d p) {row : SigningRequest}
    (hdrawn : row.id ∈ d.drawn) (hnew : ∀ r ∈ p.starts, r.id ≠ row.id)
    (hstatus : row.status = .pending) (hunsigned : d.signatures = [])
    (hnone : ∀ r ∈ d.requests, r.status ≠ .pending) :
    Sound { d with requests := row :: d.requests } (p.add (.started row)) := by
  have hsignings : p.signings = [] := by
    have hmap := h.signatures
    rw [hunsigned] at hmap
    exact List.map_eq_nil_iff.mp hmap.symm
  refine
    { h with
      ids := ?_
      startedOnce := ?_
      drawn := ?_
      signedStarted := ?_
      abandonedStarted := ?_
      pending := ?_
      completed := ?_
      kept := ?_
      onePending := ?_
      closed := fun hsigned => absurd hunsigned hsigned }
  · rw [List.map_cons, List.nodup_cons]
    refine ⟨fun hmem => ?_, h.ids⟩
    obtain ⟨r, hr, hid⟩ := List.mem_map.mp hmem
    obtain ⟨r', hr', hid'⟩ := h.row_started hr
    exact hnew r' hr' (hid'.trans hid)
  · show ((row :: p.starts).map SigningRequest.id).Nodup
    rw [List.map_cons, List.nodup_cons]
    refine ⟨fun hmem => ?_, h.startedOnce⟩
    obtain ⟨r, hr, hid⟩ := List.mem_map.mp hmem
    exact hnew r hr hid
  · intro r hr
    rcases List.mem_cons.mp hr with rfl | hr
    · exact hdrawn
    · exact h.drawn r hr
  · intro attempt ha
    exact List.mem_cons_of_mem row (h.signedStarted attempt ha)
  · intro id hid
    obtain ⟨r, hr, heq⟩ := h.abandonedStarted id hid
    exact ⟨r, List.mem_cons_of_mem row hr, heq⟩
  · intro r hr hs
    rcases List.mem_cons.mp hr with rfl | hr
    · refine ⟨List.mem_cons_self, fun attempt ha => ?_, fun hid => ?_⟩
      · exact hnew _ (h.signedStarted attempt ha)
      · obtain ⟨r', hr', heq⟩ := h.abandonedStarted _ hid
        exact hnew r' hr' heq
    · exact absurd hs (hnone r hr)
  · intro r hr hs
    rcases List.mem_cons.mp hr with rfl | hr
    · rw [hstatus] at hs
      cases hs
    · exact h.completed r hr hs
  · intro attempt ha
    have ha : attempt ∈ p.signings := ha
    rw [hsignings] at ha
    cases ha
  · intro r hr r' hr' hs hs'
    rcases List.mem_cons.mp hr with rfl | hr
    · rcases List.mem_cons.mp hr' with rfl | hr'
      · rfl
      · exact absurd hs' (hnone r' hr')
    · exact absurd hs (hnone r hr)

@[simp] theorem SigningRequest.close_id {requestId : String}
    {r : SigningRequest} : (r.close requestId).id = r.id := by
  unfold SigningRequest.close
  split
  · rfl
  · rfl

/-- Recording a signature closes the one pending request. -/
theorem Sound.sign (h : Sound d p) {attempt : Attempt} (heldAt : Int)
    (hissued : d.document.status = .issued) (hunsigned : d.signatures = [])
    (hstarted : attempt.request ∈ p.starts)
    (hpending : d.Pending attempt.request.id) :
    Sound
      { d with
        signatures := attempt.signature :: d.signatures
        requests := d.requests.map (SigningRequest.close attempt.request.id) }
      (p.add (.signed attempt heldAt)) := by
  obtain ⟨hrow, hin⟩ := h.pending_eq hstarted hpending
  obtain ⟨r₀, hr₀, hid₀, hs₀⟩ := hpending
  have hclosed : ∀ r ∈ d.requests,
      (r.close attempt.request.id).status = .completed := by
    intro r hr
    unfold SigningRequest.close
    by_cases hs : r.status = .pending
    · have heq := h.onePending r hr r₀ hr₀ hs hs₀
      rw [if_pos ⟨heq ▸ hid₀, hs⟩]
    · rw [if_neg fun hboth => hs hboth.2]
      cases hstatus : r.status with
      | pending => exact absurd hstatus hs
      | completed => rfl
  have hall : ∀ r ∈ d.requests.map
      (SigningRequest.close attempt.request.id), r.status = .completed := by
    intro r hr
    obtain ⟨r', hr', rfl⟩ := List.mem_map.mp hr
    exact hclosed r' hr'
  refine
    { h with
      signatures := ?_
      oneSignature := ?_
      exclusive := ?_
      ids := ?_
      signedStarted := ?_
      pending := ?_
      completed := ?_
      kept := ?_
      onePending := ?_
      closed := fun _ => hall }
  · show attempt.signature :: d.signatures = _
    rw [h.signatures]
    rfl
  · show (attempt.signature :: d.signatures).length ≤ 1
    rw [hunsigned]
    exact Nat.le_refl 1
  · intro hcancelled
    have hcancelled : d.document.status = .cancelled := hcancelled
    rw [hissued] at hcancelled
    cases hcancelled
  · show ((d.requests.map _).map _).Nodup
    rw [List.map_map]
    have hfun : SigningRequest.id ∘ SigningRequest.close attempt.request.id =
        SigningRequest.id := by
      funext r
      exact SigningRequest.close_id
    rw [hfun]
    exact h.ids
  · intro attempt' ha
    rcases List.mem_cons.mp ha with rfl | ha
    · exact hstarted
    · exact h.signedStarted attempt' ha
  · intro r hr hs
    rw [hall r hr] at hs
    cases hs
  · intro r hr _
    obtain ⟨r', hr', rfl⟩ := List.mem_map.mp hr
    rw [SigningRequest.close_id]
    cases hs : r'.status with
    | pending =>
        have heq := h.onePending r' hr' r₀ hr₀ hs hs₀
        exact ⟨attempt, List.mem_cons_self, by rw [heq, hid₀]⟩
    | completed =>
        obtain ⟨attempt', ha, hid⟩ := h.completed r' hr' hs
        exact ⟨attempt', List.mem_cons_of_mem attempt ha, hid⟩
  · intro attempt' ha
    have hrow : ∃ r ∈ d.requests, r.id = attempt'.request.id := by
      rcases List.mem_cons.mp ha with rfl | ha
      · exact ⟨r₀, hr₀, hid₀⟩
      · obtain ⟨r, hr, hid, -⟩ := h.kept attempt' ha
        exact ⟨r, hr, hid⟩
    obtain ⟨r, hr, hid⟩ := hrow
    refine ⟨r.close attempt.request.id, List.mem_map_of_mem hr, ?_,
      hclosed r hr⟩
    rw [SigningRequest.close_id]
    exact hid
  · intro r hr r' _ hs _
    rw [hall r hr] at hs
    cases hs

/-- What is deleted was pending. -/
theorem Sound.abandon (h : Sound d p) {requestIds : List String}
    (hpending : ∀ id ∈ requestIds, d.Pending id) :
    Sound
      { d with requests := d.requests.filter fun r => r.id ∉ requestIds }
      (p.add (.abandoned requestIds)) := by
  have hold : ∀ {r : SigningRequest},
      r ∈ d.requests.filter (fun r => r.id ∉ requestIds) →
      r ∈ d.requests ∧ r.id ∉ requestIds := by
    intro r hr
    obtain ⟨hr, hid⟩ := List.mem_filter.mp hr
    exact ⟨hr, of_decide_eq_true hid⟩
  refine
    { h with
      ids := h.ids.sublist (List.filter_sublist.map _)
      abandonedStarted := ?_
      pending := ?_
      completed := fun r hr => h.completed r (hold hr).1
      kept := ?_
      onePending := fun r hr r' hr' =>
        h.onePending r (hold hr).1 r' (hold hr').1
      closed := fun hsigned r hr => h.closed hsigned r (hold hr).1 }
  · intro id hid
    rcases List.mem_append.mp hid with hid | hid
    · obtain ⟨r, hr, rfl, -⟩ := hpending id hid
      exact h.row_started hr
    · exact h.abandonedStarted id hid
  · intro r hr hs
    obtain ⟨hr, hid⟩ := hold hr
    have hin := h.pending r hr hs
    refine ⟨hin.started, hin.unsigned, fun hmem => ?_⟩
    rcases List.mem_append.mp hmem with hmem | hmem
    · exact hid hmem
    · exact hin.kept hmem
  · intro attempt ha
    obtain ⟨r, hr, hid, hs⟩ := h.kept attempt ha
    refine ⟨r, List.mem_filter.mpr ⟨hr, ?_⟩, hid, hs⟩
    rw [decide_eq_true_eq]
    intro hmem
    obtain ⟨r', hr', hid', hs'⟩ := hpending _ hmem
    rw [List.inj_on_of_nodup_map h.ids hr' hr hid', hs] at hs'
    cases hs'

end Shozee.Signing
