import Shozee.Signing.Knowledge

/-!
# The life of a signature

`LifeCycle` is what holds of a document after any run: at most one signature,
never beside a cancellation or a pending request, each recorded in the way of
`SignedRightly`, and every later attempt to complete its request answered out
of the table.
-/

namespace Shozee.Signing

open Shozee.Run

variable {B : Type*} {v : Verifier B}

/-- What the answers in a history are worth. -/
structure Answers (d : Data) (log : List Event) : Prop where
  views : ∀ requestId fileId view,
    .answered requestId fileId (.ok view) ∈ log →
      ∃ signature ∈ d.signatures,
        view = ⟨requestId, signature⟩ ∧ signature.fileId = fileId
  signed : ∀ attempt heldAt, .signed attempt heldAt ∈ log →
    .answered attempt.request.id attempt.fileId
      (.ok ⟨attempt.request.id, attempt.signature⟩) ∈ log

/-- The state and the log of a document's signing go together. -/
structure Inv (v : Verifier B) (d : Data) (log : List Event) : Prop where
  sound : Sound d (past log)
  told : Told (Rightly v) log
  answers : Answers d log

theorem answers_nil {d : Data} : Answers d [] where
  views := by intro _ _ _ h; cases h
  signed := by intro _ _ h; cases h

/-! ## One statement

A statement that records a signature does so rightly, and an answer is worth
what the table says. -/

theorem signings_nil {d : Data} {p : Past} (h : Sound d p)
    (hunsigned : d.signatures = []) : p.signings = [] := by
  have hmap := h.signatures
  rw [hunsigned] at hmap
  exact List.map_eq_nil_iff.mp hmap.symm

/-- An event that is no answer and no signature leaves the answers as they
are. -/
theorem Answers.cons {d d' : Data} {log : List Event} {e : Event}
    (h : Answers d log) (hsame : d'.signatures = d.signatures)
    (hanswer : ∀ requestId fileId reply, e ≠ .answered requestId fileId reply)
    (hsigned : ∀ attempt heldAt, e ≠ .signed attempt heldAt) :
    Answers d' (e :: log) := by
  refine ⟨fun requestId fileId view hmem => ?_, fun attempt heldAt hmem => ?_⟩
  · rcases List.mem_cons.mp hmem with heq | hmem
    · exact absurd heq.symm (hanswer _ _ _)
    · rw [hsame]
      exact h.views requestId fileId view hmem
  · rcases List.mem_cons.mp hmem with heq | hmem
    · exact absurd heq.symm (hsigned _ _)
    · exact List.mem_cons_of_mem e (h.signed attempt heldAt hmem)

theorem Inv.quiet {d : Data} {log : List Event} {o : Result}
    (h : Inv v d log) (hquiet : Result.Quiet d o) :
    Inv v o.data (o.out ++ log) := by
  obtain ⟨hdata, hout⟩ := hquiet
  rw [hdata]
  refine ⟨?_, ?_, ?_, ?_⟩
  · rw [past_quiet hout]
    exact h.sound
  · have key : ∀ out : List Event, (∀ e ∈ out, e.Quiet d) →
        Told (Rightly v) (out ++ log) := by
      intro out
      induction out with
      | nil => exact fun _ => h.told
      | cons e out ih =>
          intro hout
          refine ⟨?_, ih fun e' he' => hout e' (List.mem_cons_of_mem e he')⟩
          have he := hout e List.mem_cons_self
          cases e with
          | signed attempt heldAt => exact he.elim
          | cancelled => exact he.elim
          | _ => trivial
    exact key o.out hout
  · intro requestId fileId view hmem
    rcases List.mem_append.mp hmem with hmem | hmem
    · exact hout _ hmem view rfl
    · exact h.answers.views requestId fileId view hmem
  · intro attempt heldAt hmem
    rcases List.mem_append.mp hmem with hmem | hmem
    · exact (hout _ hmem).elim
    · exact List.mem_append_right o.out
        (h.answers.signed attempt heldAt hmem)

/-- A signature that is recorded is recorded rightly. -/
theorem Inv.sign {d : Data} {log : List Event} {attempt : Attempt}
    {heldAt : Int} (h : Inv v d log)
    (hknows : Knows v d (past log) (.inserted attempt heldAt)) :
    Inv v
      { d with
        signatures := attempt.signature :: d.signatures
        requests := d.requests.map (SigningRequest.close attempt.request.id) }
      (.answered attempt.request.id attempt.fileId
          (.ok ⟨attempt.request.id, attempt.signature⟩) ::
        .signed attempt heldAt :: log) := by
  obtain ⟨hverified, ⟨hissued, hgrant⟩, hpending, hunsigned⟩ := hknows
  obtain ⟨requestedAt, hrequested, hfresh⟩ := hgrant
  refine ⟨?_, ⟨trivial, ?_, h.told⟩, ?_, ?_⟩
  · exact h.sound.sign heldAt hissued hunsigned hverified.started hpending
  · refine
      { pending := (h.sound.pending_eq hverified.started hpending).2
        container := hverified.container
        signature := hverified.signature
        grant := ⟨requestedAt, h.sound.grant.symm.trans hrequested, hfresh⟩
        first := signings_nil h.sound hunsigned
        live := ?_ }
    rw [Bool.eq_false_iff]
    intro hcancelled
    rw [h.sound.cancelled.mpr hcancelled] at hissued
    cases hissued
  · intro requestId fileId view hmem
    rcases List.mem_cons.mp hmem with heq | hmem
    · cases heq
      refine ⟨attempt.signature, List.mem_cons_self, rfl, ?_⟩
      obtain ⟨now, hsignature⟩ := hverified.signature
      rw [hsignature]
      rfl
    · rcases List.mem_cons.mp hmem with heq | hmem
      · cases heq
      · obtain ⟨signature, hs, hview⟩ :=
          h.answers.views requestId fileId view hmem
        exact ⟨signature, List.mem_cons_of_mem _ hs, hview⟩
  · intro attempt' heldAt' hmem
    rcases List.mem_cons.mp hmem with heq | hmem
    · cases heq
    · rcases List.mem_cons.mp hmem with heq | hmem
      · cases heq
        exact List.mem_cons_self
      · exact List.mem_cons_of_mem _
          (List.mem_cons_of_mem _ (h.answers.signed attempt' heldAt' hmem))

theorem Inv.step {d : Data} {log : List Event} {place : Place} {o : Result}
    (h : Inv v d log) (hknows : Knows v d (past log) place)
    (heffect : Effect d place o) : Inv v o.data (o.out ++ log) := by
  cases heffect with
  | quiet hquiet => exact h.quiet hquiet
  | draw row hid hstatus =>
      exact ⟨h.sound.draw row.id, h.told, ⟨h.answers.views, h.answers.signed⟩⟩
  | request now =>
      refine ⟨h.sound.request now, ⟨trivial, h.told⟩, h.answers.cons rfl ?_ ?_⟩
      · exact fun _ _ _ => Event.noConfusion
      · exact fun _ _ => Event.noConfusion
  | cancel =>
      refine ⟨h.sound.cancel hknows, ⟨?_, h.told⟩, h.answers.cons rfl ?_ ?_⟩
      · exact signings_nil h.sound hknows
      · exact fun _ _ _ => Event.noConfusion
      · exact fun _ _ => Event.noConfusion
  | start row =>
      refine ⟨?_, ⟨trivial, h.told⟩, h.answers.cons rfl ?_ ?_⟩
      · exact h.sound.start hknows.drawn hknows.fresh hknows.status
          hknows.unsigned hknows.unrequested
      · exact fun _ _ _ => Event.noConfusion
      · exact fun _ _ => Event.noConfusion
  | sign attempt heldAt hpending => exact h.sign hknows
  | abandon requestIds =>
      refine ⟨h.sound.abandon hknows, ⟨trivial, h.told⟩,
        h.answers.cons rfl ?_ ?_⟩
      · exact fun _ _ _ => Event.noConfusion
      · exact fun _ _ => Event.noConfusion

/-- Where a statement leads, its caller knows what it may rely on there. -/
theorem knows_of_statement {d : Data} {log : List Event} {place : Place}
    {a : Statement B} {o : Result} (hs : Sound d (past log))
    (hknows : Knows v d (past log) place)
    (h : statement v d place a = some o) :
    Knows v o.data (past (o.out ++ log)) o.place := by
  -- a statement that only reads leaves the past as it was
  have hquiet : ∀ {o : Result}, Result.Quiet d o →
      Knows v d (past log) o.place →
      Knows v o.data (past (o.out ++ log)) o.place := by
    intro o hquiet hplace
    rw [hquiet.1, past_quiet hquiet.2]
    exact hplace
  cases a with
  | requestSign ready =>
      obtain ⟨-, rfl⟩ := some_of_guard h
      exact hquiet gate_quiet (gate_knows trivial)
  | cancel =>
      obtain ⟨-, rfl⟩ := some_of_guard h
      refine hquiet cancelIssued_quiet ?_
      unfold cancelIssued
      split
      · trivial
      · trivial
  | start now ready =>
      obtain ⟨-, rfl⟩ := some_of_guard h
      exact hquiet gate_quiet (gate_knows trivial)
  | complete requestId fileId =>
      obtain ⟨-, rfl⟩ := some_of_guard h
      exact hquiet complete_quiet (complete_knows hs)
  | abandon requestIds =>
      obtain ⟨-, h⟩ := Option.ite_none_right_eq_some.mp h
      obtain ⟨hpending, rfl⟩ := some_of_guard h
      exact hpending
  | loadSupplierSignature =>
      exact hquiet (loadSupplierSignature_quiet h)
        (loadSupplierSignature_knows hknows h)
  | loadPendingRequest =>
      exact hquiet (loadPendingRequest_quiet h)
        (loadPendingRequest_knows hknows h)
  | insertRequest requestId fileId checksumSha256 =>
      obtain ⟨rfl, h⟩ := Option.ite_none_right_eq_some.mp h
      have hplace := insertRequest_knows hs hknows h
      cases insertRequest_effect h with
      | quiet hq => exact hquiet hq (hq.1 ▸ hplace)
      | draw row hid hstatus => exact hplace
  | verify bytes now =>
      simp only [statement] at h
      split at h
      · cases h
        exact hquiet verify_quiet (verify_knows hknows)
      · cases h
  | lockIssued now ready =>
      simp only [statement] at h
      split at h
      · cases h
        exact hquiet lockDocument_quiet (lockDocument_knows hknows)
      · cases h
  | lockRequest =>
      simp only [statement] at h
      split at h
      · cases h
        exact hquiet lockRequest_quiet (lockRequest_knows hknows)
      · cases h
  | insertSignature =>
      simp only [statement] at h
      split at h
      · cases h
        exact hquiet insertSignature_quiet (insertSignature_knows hknows)
      · cases h
  | commit now =>
      rw [commit_idle h]
      trivial
  | fail =>
      simp only [statement] at h
      split at h
      · cases h
      · cases h
        trivial

theorem rules (v : Verifier B) :
    Server.Rules (server v) (fun _ _ => True) (Inv v)
      (fun d log place => Knows v d (past log) place) where
  init := ⟨sound_init, .nil, answers_nil⟩
  start := trivial
  unlocked := rfl
  step := fun _ _ _ _ _ hinv hknows h =>
    ⟨hinv.step hknows (statement_effect h),
      knows_of_statement hinv.sound hknows h⟩
  frame := fun _ _ _ _ _ _ _ _ _ hother h hlocks _ =>
    Knows.frame (statement_effect h) hother hlocks

/-! ## Runs

The invariant along a run, and the parts of the life cycle read off it. -/

/-- What `complete` answers once the request of a recorded signature is
completed. -/
def replay (attempt : Attempt) (fileId : String) :
    Except Refusal CompleteSigningView :=
  if fileId = attempt.fileId then
    .ok ⟨attempt.request.id, attempt.signature⟩
  else .error (.conflict DIFFERENT_FILE_MESSAGE)

/-- The life of a document after a run. -/
structure LifeCycle (v : Verifier B) (c : Conf State Event) : Prop where
  oneSignature : c.st.data.signatures.length ≤ 1
  recorded : c.st.data.signatures =
    (past c.log).signings.map Attempt.signature
  exclusive : c.st.data.document.status = .cancelled →
    c.st.data.signatures = []
  neverBoth : (past c.log).cancelled = true → (past c.log).signings = []
  signedRightly : ∀ newer older attempt heldAt,
    c.log = newer ++ .signed attempt heldAt :: older →
      SignedRightly v older attempt heldAt
  closed : c.st.data.signatures ≠ [] →
    ∀ r ∈ c.st.data.requests, r.status ≠ .pending
  views : ∀ requestId fileId view,
    .answered requestId fileId (.ok view) ∈ c.log →
      ∃ signature ∈ c.st.data.signatures,
        view = ⟨requestId, signature⟩ ∧ signature.fileId = fileId
  answered : ∀ attempt heldAt, .signed attempt heldAt ∈ c.log →
    .answered attempt.request.id attempt.fileId
      (.ok ⟨attempt.request.id, attempt.signature⟩) ∈ c.log
  repeats : ∀ attempt heldAt, .signed attempt heldAt ∈ c.log → ∀ fileId,
    statement v c.st.data .idle (.complete attempt.request.id fileId) =
        some (goOn c.st.data
          (.completedSeen attempt.request.id fileId)) ∧
      statement v c.st.data (.completedSeen attempt.request.id fileId)
          .loadSupplierSignature =
        some (answer c.st.data attempt.request.id fileId
          (replay attempt fileId))

theorem signings_of_mem {log : List Event} {attempt : Attempt} {heldAt : Int}
    (h : .signed attempt heldAt ∈ log) : attempt ∈ (past log).signings := by
  induction log with
  | nil => cases h
  | cons e log ih =>
      show attempt ∈ ((past log).add e).signings
      rcases List.mem_cons.mp h with rfl | h
      · exact List.mem_cons_self
      · have hold := ih h
        cases e with
        | signed attempt' heldAt' => exact List.mem_cons_of_mem _ hold
        | _ => exact hold

/-- A completed request is found, and found completed. -/
theorem Sound.complete_eq {d : Data} {p : Past} (h : Sound d p)
    {attempt : Attempt} (ha : attempt ∈ p.signings) (fileId : String) :
    complete d attempt.request.id fileId =
      goOn d (.completedSeen attempt.request.id fileId) := by
  obtain ⟨r, hr, hid, hstatus⟩ := h.kept attempt ha
  unfold complete
  cases hfind : d.request attempt.request.id with
  | none =>
      have hnot := List.find?_eq_none.mp hfind r hr
      exact absurd (decide_eq_true hid) hnot
  | some r' =>
      obtain ⟨hr', hid'⟩ := mem_of_request hfind
      have hsame := List.inj_on_of_nodup_map h.ids hr' hr (hid'.trans hid.symm)
      rw [hsame]
      simp only [hstatus]

theorem Sound.replay_eq {d : Data} {p : Past} (h : Sound d p)
    {attempt : Attempt} (ha : attempt ∈ p.signings)
    (hfile : attempt.signature.fileId = attempt.fileId)
    (fileId message : String) :
    resolveRecorded d attempt.request.id fileId message =
      answer d attempt.request.id fileId (replay attempt fileId) := by
  have hone : p.signings = [attempt] := by
    have hlen := h.oneSignature
    rw [h.signatures, List.length_map] at hlen
    match hp : p.signings, hlen with
    | [], _ => rw [hp] at ha; cases ha
    | [attempt'], _ => rw [hp] at ha; rw [List.mem_singleton.mp ha]
  have hhead : d.signatures.head? = some attempt.signature := by
    rw [h.signatures, hone]
    rfl
  unfold resolveRecorded
  simp only [hhead]
  unfold resolveExistingSignature replay
  rw [hfile]
  by_cases hsame : fileId = attempt.fileId
  · rw [if_neg (not_not.mpr hsame.symm), if_pos hsame]
  · rw [if_pos (Ne.symm hsame), if_neg hsame]

theorem lifeCycle_of_inv {c : Conf State Event}
    (h : Inv v c.st.data c.log) : LifeCycle v c where
  oneSignature := h.sound.oneSignature
  recorded := h.sound.signatures
  exclusive := h.sound.exclusive
  neverBoth := fun hcancelled => signings_nil h.sound
    (h.sound.exclusive (h.sound.cancelled.mpr hcancelled))
  signedRightly := by
    intro newer older attempt heldAt hlog
    have htold := h.told
    rw [hlog] at htold
    exact htold.ok
  closed := by
    intro hsigned r hr hpending
    rw [h.sound.closed hsigned r hr] at hpending
    cases hpending
  views := h.answers.views
  answered := h.answers.signed
  repeats := by
    intro attempt heldAt hmem fileId
    have ha := signings_of_mem hmem
    obtain ⟨older, -, hright⟩ := h.told.of_mem hmem
    obtain ⟨now, hsignature⟩ := hright.signature
    have hfile : attempt.signature.fileId = attempt.fileId := by
      rw [hsignature]
      rfl
    constructor
    · show some (complete c.st.data attempt.request.id fileId) = _
      rw [h.sound.complete_eq ha]
    · show some (resolveRecorded c.st.data attempt.request.id fileId _) = _
      rw [h.sound.replay_eq ha hfile]

/-- After any run of any number of callers, with crashes anywhere. -/
theorem signing_of_reach (v : Verifier B) (c : Conf State Event)
    (hreach : (machine v).Reach c) : LifeCycle v c :=
  lifeCycle_of_inv ((rules v).kept hreach).inv

/-- A container that is a pair of payload and signer. -/
def pairVerifier : Verifier (String × String) where
  unpackAsicE := fun bytes => some (bytes.1, "")
  sha256Hex := fun bytes => bytes.1
  signatureInfo := fun bytes =>
    if bytes.2 = "" then none else some ⟨bytes.2, "Org", "1", "DSTU", none⟩

/-- Two attempts verify beside each other, and one is first to lock; a cancel
comes too late, and the first is asked for again. -/
def racedRun : List (ℕ × Statement (String × String)) :=
  [(1, .requestSign true), (1, .loadSupplierSignature), (1, .commit 0),
    (1, .start 5 true), (1, .loadSupplierSignature), (1, .loadPendingRequest),
    (1, .insertRequest "r" (some "pdf") "hash"), (1, .commit 6),
    (2, .complete "r" "a"), (3, .complete "r" "b"),
    (2, .loadSupplierSignature), (3, .loadSupplierSignature),
    (2, .verify ("hash", "Olha") 7), (3, .verify ("hash", "Petro") 8),
    (2, .lockIssued 9 true), (2, .lockRequest), (2, .loadSupplierSignature),
    (2, .insertSignature), (2, .commit 10),
    (3, .lockIssued 11 true), (3, .lockRequest), (3, .loadSupplierSignature),
    (4, .cancel), (4, .loadSupplierSignature),
    (2, .complete "r" "a"), (2, .loadSupplierSignature)]

theorem signing_of_reach_raced : ∃ c : Conf State Event,
    c.log.take 3 =
      [.answered "r" "a" (.ok ⟨"r", ⟨"a", "Olha", "Org", "1", "DSTU", 7⟩⟩),
        .refused (.conflict SIGNED_CANNOT_CANCEL_MESSAGE),
        .answered "r" "b" (.error (.conflict DIFFERENT_FILE_MESSAGE))] ∧
      LifeCycle pairVerifier c := by
  obtain ⟨c, hexec, hc⟩ : (machine pairVerifier).EndsIn (fun c => c.log.take 3 =
      [.answered "r" "a" (.ok ⟨"r", ⟨"a", "Olha", "Org", "1", "DSTU", 7⟩⟩),
        .refused (.conflict SIGNED_CANNOT_CANCEL_MESSAGE),
        .answered "r" "b" (.error (.conflict DIFFERENT_FILE_MESSAGE))])
      racedRun := by decide
  exact ⟨c, hc, signing_of_reach pairVerifier c
    (Machine.reach_of_exec racedRun hexec)⟩

end Shozee.Signing
