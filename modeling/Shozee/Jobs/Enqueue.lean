import Shozee.Jobs.Identity

/-!
# Jobs that a handler enqueues

`ctx.enqueue` takes a job and a payload while the handler runs and keeps them
in a buffer (`packages/core/src/runtime/jobs/enqueue.ts`); the flush turns the
buffer into envelopes in the transaction of the handler's effects. A send that
is refused throws in the handler, which may go on without it.

The buffer knows its sends by the job's name and a hash of the discriminator,
so it holds no two with the same of both (`Accepted`), whatever the hash makes
of different texts. What the flush takes the ids of has both in it, and the
rest of it is the call's: the texts of one buffer are all different, and those
of an attempt are those of the attempt before, which is `jobs_identified`.
-/

namespace Shozee.Jobs

open Shozee.Run Shozee.Audit

/-! ## The buffer

What an accepted send adds, and under which key. A refused send adds nothing.
-/

/-- What enqueueing reads of an action's contract. -/
structure EnqueueContract where
  name : CodeUnits
  reads : Bool
  enqueues : Option (List CodeUnits)

/-- A job that waits for the end of its action. -/
structure BufferedJob where
  job : Job
  payload : Payload

/-- What an action has sent so far. A closed buffer takes nothing more. -/
structure EnqueueBuffer where
  buffered : List BufferedJob
  sendKeys : List CodeUnits
  closed : Bool

/-- The buffer of an action that begins. -/
def EnqueueBuffer.empty : EnqueueBuffer := ⟨[], [], false⟩

/-- A call of `enqueue`, its payload not yet parsed. -/
structure Send where
  job : Job
  payload : JsValue SafeInteger

/-- The messages put names between straight quotes. -/
def quoted (name : CodeUnits) : CodeUnits :=
  codeUnits "\"" ++ name ++ codeUnits "\""

variable (sha256 : CodeUnits → List UInt8)

/-- The name and the hash of the discriminator, with a NUL between them. -/
def sendKey (job : Job) (payload : Payload) : Except JobsError CodeUnits :=
  (canonicalText (jobDiscriminatorValues job payload)).map fun text =>
    job.name ++ 0 :: hexText (sha256 text)

/-- An invariant error with a message in parts. -/
def invariantError (parts : List CodeUnits) : JobsError :=
  .coreInvariant parts.flatten

/-- `ctx.enqueue`. -/
def enqueue (contract : EnqueueContract) (buffer : EnqueueBuffer)
    (send : Send) : Except JobsError EnqueueBuffer :=
  if buffer.closed then
    .error (invariantError [quoted contract.name, codeUnits
      (" called ctx.enqueue after its job flush — jobs are enqueued only " ++
        "while the handler runs")])
  else if contract.reads then
    .error (invariantError [codeUnits "read action ", quoted contract.name,
      codeUnits (" cannot enqueue jobs — a read-only transaction cannot " ++
        "write a job (ADR-0041 J4)")])
  else if send.job.name ∉ contract.enqueues.getD [] then
    .error (invariantError [codeUnits "action ", quoted contract.name,
      codeUnits " enqueued undeclared job ", quoted send.job.name,
      codeUnits (" — every enqueued job must be listed in the contract's " ++
        "enqueues (ADR-0041 J4)")])
  else
    match send.job.payload.safeParse send.payload with
    | .error issues =>
        .error (invariantError [codeUnits "payload of job ",
          quoted send.job.name, codeUnits " enqueued by ",
          quoted contract.name, codeUnits " failed the job's schema: ",
          issues])
    | .ok payload => do
        let key ← sendKey sha256 send.job payload
        if key ∈ buffer.sendKeys then
          .error (invariantError (if send.job.discriminator = [] then
            [quoted contract.name, codeUnits " enqueued job ",
              quoted send.job.name, codeUnits (" twice — fanning a job out " ++
                "requires a discriminator (ADR-0041 J2)")]
          else
            [quoted contract.name, codeUnits " enqueued job ",
              quoted send.job.name, codeUnits (" twice with the same " ++
                "discriminator — two sends with one job id (ADR-0041 J2)")]))
        else
          .ok { buffer with
            buffered := buffer.buffered ++ [⟨send.job, payload⟩]
            sendKeys := key :: buffer.sendKeys }

/-- A send of a handler, which goes on when it is refused. -/
def afterSend (contract : EnqueueContract) (buffer : EnqueueBuffer)
    (send : Send) : EnqueueBuffer :=
  match enqueue sha256 contract buffer send with
  | .ok buffer' => buffer'
  | .error _ => buffer

/-- What the sends of a handler leave in its buffer. -/
def bufferOf (contract : EnqueueContract) (sends : List Send) :
    EnqueueBuffer :=
  sends.foldl (afterSend sha256 contract) .empty

/-! ## The flush

The envelopes, with the company and the origin of the call. -/

/-- What the envelope takes from the action's context. -/
structure ActionCtx where
  principal : ActionPrincipal
  actor : ActionActor
  channel : CodeUnits
  requestId : CodeUnits
  correlationId : CodeUnits

/-- A job as it is handed to the queue. -/
structure JobEnvelope where
  id : CodeUnits
  name : CodeUnits
  companyId : Option CodeUnits
  actor : ActionActor
  channel : CodeUnits
  requestId : CodeUnits
  correlationId : CodeUnits
  executionId : CodeUnits
  payload : Payload

/-- `SHARE_DURABLE_ACTOR`. -/
def shareDurableActor : ActionActor := .system (codeUnits "share")

/-- The company of a job: the principal's, or none for a global job. -/
def jobCompanyId (actionName : CodeUnits) (job : Job)
    (principal : ActionPrincipal) : Except JobsError (Option CodeUnits) :=
  match job.scope with
  | .global => .ok none
  | .tenant =>
      match effectiveCompanyId principal with
      | some companyId => .ok (some companyId)
      | none =>
          .error (invariantError [quoted actionName,
            codeUnits " enqueued tenant-scope job ", quoted job.name,
            codeUnits (" without a company scope — tenant jobs require a " ++
              "verified companyId (ADR-0041 J5)")])

/-- A call of an action that may enqueue: the context that its handler is given
and the identity that its idempotency row was reserved under, if it has one.
Both are of one principal, and in its company. -/
structure Invocation where
  contract : EnqueueContract
  ctx : ActionCtx
  reservedIdentity : Option ProtocolIdentity
  executionId : CodeUnits
  portComposed : Bool
  mode_eq : ∀ identity ∈ reservedIdentity,
    identity.mode = ctx.principal.mode
  company_eq : ∀ identity ∈ reservedIdentity,
    identity.authorization.companyId = effectiveCompanyId ctx.principal

/-- The envelope of a buffered job, its id derived. -/
def envelopeOf (call : Invocation) (origin : JobOrigin) (actor : ActionActor)
    (buffered : BufferedJob) : Except JobsError JobEnvelope := do
  let companyId ← jobCompanyId call.contract.name buffered.job
    call.ctx.principal
  let id ← deriveJobId sha256 buffered.job companyId origin buffered.payload
  .ok
    { id
      name := buffered.job.name
      companyId
      actor
      channel := call.ctx.channel
      requestId := call.ctx.requestId
      correlationId := call.ctx.correlationId
      executionId := call.executionId
      payload := buffered.payload }

/-- `flush`, up to the call of the port. -/
def flush (call : Invocation) (origin : JobOrigin) (buffer : EnqueueBuffer) :
    EnqueueBuffer × Except JobsError (List JobEnvelope) :=
  ({ buffer with closed := true },
    if buffer.buffered.isEmpty then .ok []
    else if !call.portComposed then
      .error (invariantError [quoted call.contract.name,
        codeUnits " enqueued jobs but no job port is composed"])
    else
      let actor := if call.ctx.principal.mode = .share then shareDurableActor
        else call.ctx.actor
      if actor = .anonymous then
        .error (invariantError [quoted call.contract.name,
          codeUnits (" flushed jobs with an anonymous actor — job envelopes " ++
            "accept user/system actors only")])
      else buffer.buffered.mapM (envelopeOf sha256 call origin actor))

/-- The jobs of a call: its handler's sends, and the flush after it. -/
def jobsOf (call : Invocation) (sends : List Send) :
    Except JobsError (List JobEnvelope) := do
  let origin ← jobOriginFor call.executionId call.reservedIdentity
  (flush sha256 call origin (bufferOf sha256 call.contract sends)).2

/-- The text that the id of a buffered job is taken of. -/
def preimageOf (call : Invocation) (origin : JobOrigin)
    (buffered : BufferedJob) : Except JobsError CodeUnits := do
  let companyId ← jobCompanyId call.contract.name buffered.job
    call.ctx.principal
  jobPreimage buffered.job companyId origin buffered.payload

/-! ## What the buffer keeps

Two jobs of a buffer differ in their key, and a key is a name with a
discriminator. -/

section Buffer

variable {sha256 : CodeUnits → List UInt8}

/-- What an accepted send does. -/
theorem enqueue_ok {contract : EnqueueContract} {buffer buffer' : EnqueueBuffer}
    {send : Send} (h : enqueue sha256 contract buffer send = .ok buffer') :
    ∃ payload key, send.job.payload.safeParse send.payload = .ok payload ∧
      sendKey sha256 send.job payload = .ok key ∧ key ∉ buffer.sendKeys ∧
      buffer' = { buffer with
        buffered := buffer.buffered ++ [⟨send.job, payload⟩]
        sendKeys := key :: buffer.sendKeys } := by
  unfold enqueue at h
  by_cases hclosed : buffer.closed
  · rw [if_pos hclosed] at h
    cases h
  by_cases hreads : contract.reads
  · rw [if_neg hclosed, if_pos hreads] at h
    cases h
  by_cases hundeclared : send.job.name ∉ contract.enqueues.getD []
  · rw [if_neg hclosed, if_neg hreads, if_pos hundeclared] at h
    cases h
  rw [if_neg hclosed, if_neg hreads, if_neg hundeclared] at h
  cases hparse : send.job.payload.safeParse send.payload with
  | error issues =>
      rw [hparse] at h
      cases h
  | ok payload =>
      rw [hparse] at h
      obtain ⟨key, hkey, hrest⟩ := bind_eq_ok.mp h
      by_cases htwice : key ∈ buffer.sendKeys
      · rw [if_pos htwice] at hrest
        cases hrest
      · rw [if_neg htwice] at hrest
        exact ⟨payload, key, rfl, hkey, htwice, (Except.ok.inj hrest).symm⟩

/-- The jobs of a buffer have all of their discriminators, and no two of them
have one key. -/
structure Accepted (sha256 : CodeUnits → List UInt8)
    (buffer : EnqueueBuffer) : Prop where
  complete : ∀ b ∈ buffer.buffered, Complete b.job b.payload
  keyed : ∀ b ∈ buffer.buffered, ∃ key ∈ buffer.sendKeys,
    sendKey sha256 b.job b.payload = .ok key
  apart : buffer.buffered.Pairwise fun b b' =>
    sendKey sha256 b.job b.payload ≠ sendKey sha256 b'.job b'.payload

theorem Accepted.enqueue {contract : EnqueueContract}
    {buffer buffer' : EnqueueBuffer} {send : Send}
    (h : Accepted sha256 buffer)
    (hsend : Jobs.enqueue sha256 contract buffer send = .ok buffer') :
    Accepted sha256 buffer' := by
  obtain ⟨payload, key, hparse, hkey, hnew, rfl⟩ := enqueue_ok hsend
  refine ⟨fun b hb => ?_, fun b hb => ?_, ?_⟩
  · rcases List.mem_append.mp hb with hold | hlast
    · exact h.complete b hold
    · rw [List.mem_singleton.mp hlast]
      exact complete_of_parsed hparse
  · rcases List.mem_append.mp hb with hold | hlast
    · obtain ⟨key', hmem, hkey'⟩ := h.keyed b hold
      exact ⟨key', List.mem_cons_of_mem _ hmem, hkey'⟩
    · rw [List.mem_singleton.mp hlast]
      exact ⟨key, List.mem_cons_self, hkey⟩
  · refine List.pairwise_append.mpr ⟨h.apart, List.pairwise_singleton _ _,
      fun b hb b' hb' hsame => ?_⟩
    rw [List.mem_singleton.mp hb', hkey] at hsame
    obtain ⟨key', hmem, hkey'⟩ := h.keyed b hb
    rw [hkey', Except.ok.injEq] at hsame
    exact hnew (hsame ▸ hmem)

theorem accepted_bufferOf (contract : EnqueueContract) (sends : List Send) :
    Accepted sha256 (bufferOf sha256 contract sends) := by
  have hstep : ∀ buffer send, Accepted sha256 buffer →
      Accepted sha256 (afterSend sha256 contract buffer send) := by
    intro buffer send h
    unfold afterSend
    split
    · next buffer' hsend => exact h.enqueue hsend
    · exact h
  have hempty : Accepted sha256 .empty :=
    ⟨fun b hb => absurd hb List.not_mem_nil,
      fun b hb => absurd hb List.not_mem_nil, .nil⟩
  have hfold : ∀ buffer, Accepted sha256 buffer →
      Accepted sha256 (sends.foldl (afterSend sha256 contract) buffer) := by
    induction sends with
    | nil => exact fun buffer h => h
    | cons send rest ih => exact fun buffer h => ih _ (hstep buffer send h)
  exact hfold _ hempty

/-- One name and one discriminator have one key. -/
theorem sendKey_eq {b b' : BufferedJob} (h : Complete b.job b.payload)
    (h' : Complete b'.job b'.payload) (hname : b.job.name = b'.job.name)
    (hdiscriminator : (discriminatorOf b.job b.payload).Perm
      (discriminatorOf b'.job b'.payload)) :
    sendKey sha256 b.job b.payload = sendKey sha256 b'.job b'.payload := by
  rw [sendKey, sendKey, canonicalText_discriminator_eq h h' hdiscriminator,
    hname]

/-! ## What the flush makes of it

So the texts that ids are taken of differ within one call, and are the same in
another attempt. -/

/-- The ids of the envelopes are those of the texts, job by job. -/
theorem ids_of_flush {call : Invocation} {origin : JobOrigin}
    {buffer : EnqueueBuffer} {envelopes : List JobEnvelope}
    (h : (flush sha256 call origin buffer).2 = .ok envelopes) :
    ∃ texts, List.Forall₂
        (fun b text => preimageOf call origin b = .ok text)
        buffer.buffered texts ∧
      envelopes.map JobEnvelope.id =
        texts.map fun text => jobIdOf (sha256 text) := by
  have henvelope : ∀ actor b envelope,
      envelopeOf sha256 call origin actor b = .ok envelope →
        ∃ text, preimageOf call origin b = .ok text ∧
          envelope.id = jobIdOf (sha256 text) := by
    intro actor b envelope h
    obtain ⟨companyId, hcompany, h⟩ := bind_eq_ok.mp h
    obtain ⟨id, hid, h⟩ := bind_eq_ok.mp h
    cases h
    unfold deriveJobId at hid
    cases htext : jobPreimage b.job companyId origin b.payload with
    | error e =>
        rw [htext] at hid
        cases hid
    | ok text =>
        rw [htext] at hid
        cases hid
        exact ⟨text, bind_eq_ok.mpr ⟨companyId, hcompany, htext⟩, rfl⟩
  have hall : ∀ actor (jobs : List BufferedJob) envelopes,
      jobs.mapM (envelopeOf sha256 call origin actor) = .ok envelopes →
        ∃ texts, List.Forall₂
            (fun b text => preimageOf call origin b = .ok text) jobs texts ∧
          envelopes.map JobEnvelope.id =
            texts.map fun text => jobIdOf (sha256 text) := by
    intro actor jobs envelopes h
    have hpairs := mapM_eq_ok.mp h
    clear h
    induction hpairs with
    | nil => exact ⟨[], .nil, rfl⟩
    | cons hfirst _ ih =>
        obtain ⟨text, htext, hid⟩ := henvelope _ _ _ hfirst
        obtain ⟨texts, htexts, hids⟩ := ih
        exact ⟨text :: texts, .cons htext htexts, by
          rw [List.map_cons, List.map_cons, hid, hids]⟩
  unfold flush at h
  dsimp only at h
  by_cases hempty : buffer.buffered.isEmpty
  · rw [if_pos hempty] at h
    cases h
    rw [List.isEmpty_iff.mp hempty]
    exact ⟨[], .nil, rfl⟩
  rw [if_neg hempty] at h
  by_cases hport : (!call.portComposed) = true
  · rw [if_pos hport] at h
    cases h
  rw [if_neg hport] at h
  generalize (if call.ctx.principal.mode = .share then shareDurableActor
    else call.ctx.actor) = actor at h
  by_cases hactor : actor = .anonymous
  · rw [if_pos hactor] at h
    cases h
  · rw [if_neg hactor] at h
    exact hall actor _ _ h

/-- Jobs that the buffer tells apart have different texts. -/
theorem preimageOf_ne {call : Invocation} {origin : JobOrigin}
    {b b' : BufferedJob} {text text' : CodeUnits}
    (hb : Complete b.job b.payload) (hb' : Complete b'.job b'.payload)
    (hkeys : sendKey sha256 b.job b.payload ≠
      sendKey sha256 b'.job b'.payload)
    (h : preimageOf call origin b = .ok text)
    (h' : preimageOf call origin b' = .ok text') : text ≠ text' := by
  rintro rfl
  obtain ⟨companyId, -, htext⟩ := bind_eq_ok.mp h
  obtain ⟨companyId', -, htext'⟩ := bind_eq_ok.mp h'
  obtain ⟨hname, -, -, hdiscriminator⟩ :=
    (jobPreimage_eq_iff hb hb').mp (htext.trans htext'.symm)
  exact hkeys (sendKey_eq hb hb' hname hdiscriminator)

/-- The company of a call is the one that its scope key names. -/
theorem effectiveCompanyId_of_origin {call : Invocation}
    {principalKey scopeKey action idempotencyKey : CodeUnits}
    (h : jobOriginFor call.executionId call.reservedIdentity =
      .ok (.idempotency principalKey scopeKey action idempotencyKey)) :
    effectiveCompanyId call.ctx.principal = companyOfScope scopeKey := by
  cases hidentity : call.reservedIdentity with
  | none =>
      rw [hidentity] at h
      cases h
  | some identity =>
      rw [hidentity] at h
      obtain ⟨principalKey', -, h⟩ := bind_eq_ok.mp h
      obtain ⟨scopeKey', hscope, h⟩ := bind_eq_ok.mp h
      obtain ⟨key', -, h⟩ := bind_eq_ok.mp h
      cases h
      rw [← call.company_eq identity hidentity]
      refine companyId_of_scopeKey (fun haccount => ?_) hscope
      rw [call.company_eq identity hidentity]
      rw [call.mode_eq identity hidentity] at haccount
      cases hprincipal : call.ctx.principal <;>
        rw [hprincipal] at haccount <;> cases haccount
      rfl

end Buffer

/-- The jobs that a call accepts have texts that are all different; another
attempt under the same idempotency tuple derives the same ids; and the texts of
two sends are the same just when the sends are of one job name, in one company,
from one origin and with one discriminator. -/
theorem jobs_identified (sha256 : CodeUnits → List UInt8) :
    (∀ (call : Invocation) (sends : List Send) (envelopes : List JobEnvelope),
      jobsOf sha256 call sends = .ok envelopes →
        ∃ origin texts,
          jobOriginFor call.executionId call.reservedIdentity = .ok origin ∧
          List.Forall₂ (fun b text => preimageOf call origin b = .ok text)
            (bufferOf sha256 call.contract sends).buffered texts ∧
          texts.Nodup ∧
          envelopes.map JobEnvelope.id =
            texts.map fun text => jobIdOf (sha256 text)) ∧
      (∀ (call call' : Invocation) (sends : List Send)
        (envelopes envelopes' : List JobEnvelope)
        (principalKey scopeKey action idempotencyKey : CodeUnits),
        call.contract = call'.contract →
        jobOriginFor call.executionId call.reservedIdentity =
          .ok (.idempotency principalKey scopeKey action idempotencyKey) →
        jobOriginFor call'.executionId call'.reservedIdentity =
          .ok (.idempotency principalKey scopeKey action idempotencyKey) →
        jobsOf sha256 call sends = .ok envelopes →
        jobsOf sha256 call' sends = .ok envelopes' →
          envelopes.map JobEnvelope.id = envelopes'.map JobEnvelope.id) ∧
      ∀ (send send' : Send) (payload payload' : Payload)
        (companyId companyId' : Option CodeUnits)
        (origin origin' : JobOrigin),
        send.job.payload.safeParse send.payload = .ok payload →
        send'.job.payload.safeParse send'.payload = .ok payload' →
          ((∃ text, jobPreimage send.job companyId origin payload =
            .ok text) ∧
          (jobPreimage send.job companyId origin payload =
              jobPreimage send'.job companyId' origin' payload' ↔
            send.job.name = send'.job.name ∧ companyId = companyId' ∧
              origin = origin' ∧
              (discriminatorOf send.job payload).Perm
                (discriminatorOf send'.job payload'))) := by
  refine ⟨fun call sends envelopes h => ?_, ?_, ?_⟩
  · obtain ⟨origin, horigin, hflush⟩ := bind_eq_ok.mp h
    obtain ⟨texts, htexts, hids⟩ := ids_of_flush hflush
    refine ⟨origin, texts, horigin, htexts, ?_, hids⟩
    have haccepted := @accepted_bufferOf sha256 call.contract sends
    have hcomplete := (List.forall₂_and_left _ _).mpr
      ⟨haccepted.complete, htexts⟩
    exact pairwise_of_forall₂ hcomplete haccepted.apart
      fun b b' text text' hkeys hb hb' =>
        preimageOf_ne hb.1 hb'.1 hkeys hb.2 hb'.2
  · intro call call' sends envelopes envelopes' principalKey scopeKey action
      idempotencyKey hcontract horigin horigin' h h'
    obtain ⟨origin, horigin₁, hflush⟩ := bind_eq_ok.mp h
    obtain ⟨origin', horigin₁', hflush'⟩ := bind_eq_ok.mp h'
    rw [horigin, Except.ok.injEq] at horigin₁
    rw [horigin', Except.ok.injEq] at horigin₁'
    subst horigin₁ horigin₁'
    obtain ⟨texts, htexts, hids⟩ := ids_of_flush hflush
    obtain ⟨texts', htexts', hids'⟩ := ids_of_flush hflush'
    have hcompany : effectiveCompanyId call.ctx.principal =
        effectiveCompanyId call'.ctx.principal :=
      (effectiveCompanyId_of_origin horigin).trans
        (effectiveCompanyId_of_origin horigin').symm
    have hsame : ∀ b : BufferedJob,
        preimageOf call (.idempotency principalKey scopeKey action
            idempotencyKey) b =
          preimageOf call' (.idempotency principalKey scopeKey action
            idempotencyKey) b := by
      intro b
      simp only [preimageOf, jobCompanyId, hcompany, hcontract]
    rw [hcontract] at htexts
    have hequal : texts = texts' := by
      refine List.right_unique_forall₂' (fun b text text' hb hb' => ?_)
        (htexts.imp fun b text hb => (hsame b).symm.trans hb) htexts'
      rw [hb, Except.ok.injEq] at hb'
      exact hb'
    rw [hids, hids', hequal]
  · intro send send' payload payload' companyId companyId' origin origin'
      hparse hparse'
    exact ⟨exists_jobPreimage (complete_of_parsed hparse),
      jobPreimage_eq_iff (complete_of_parsed hparse)
        (complete_of_parsed hparse')⟩

/-! ## Two reminders

Two sends that differ in one field of the discriminator. -/

/-- The field that says which reminder. -/
def reminderField : CodeUnits := codeUnits "reminderId"

/-- A field that is no part of the identity. -/
def attemptField : CodeUnits := codeUnits "attempt"

/-- A reminder's id and the attempt, in this order. -/
def parseReminder : JsValue SafeInteger → Except CodeUnits Payload
  | .object [(key, .string id), (key', .number (.finite attempt))] =>
      if key = reminderField ∧ key' = attemptField then
        .ok [(reminderField, .text id), (attemptField, .integer attempt)]
      else .error (codeUnits "[]")
  | _ => .error (codeUnits "[]")

theorem parseReminder_parsed (input : JsValue SafeInteger) (payload : Payload)
    (h : parseReminder input = .ok payload) :
    ∀ key ∈ [reminderField, attemptField], (payload.lookup key).isSome := by
  unfold parseReminder at h
  split at h
  · split at h
    · cases h
      intro key hkey
      rcases List.mem_cons.mp hkey with rfl | hkey
      · rfl
      · rw [List.mem_singleton.mp hkey]
        rfl
    · cases h
  · cases h

/-- A job with one field that tells its sends apart. -/
def sendReminder : Job where
  name := codeUnits "jobKit.sendReminder"
  scope := .tenant
  payload := ⟨[reminderField, attemptField], parseReminder,
    parseReminder_parsed⟩
  discriminator := [reminderField]
  discriminator_fields := by decide
  discriminator_nodup := by decide

/-- A send of it. -/
def reminder (id : String) : Send where
  job := sendReminder
  payload := .object [(reminderField, .string (codeUnits id)),
    (attemptField, .number (.finite ⟨0, Nat.zero_le _⟩))]

/-- The bytes of hexadecimal digits. -/
def bytesOfHex : CodeUnits → List UInt8
  | high :: low :: rest =>
      (hexValue high * 16 + hexValue low).toUInt8 :: bytesOfHex rest
  | _ => []

/-- The digests of the texts that the two reminders come to. -/
def reminderDigests : List (CodeUnits × CodeUnits) :=
  [(codeUnits "\x7b\"reminderId\":\"r1\"\x7d", codeUnits
      ("571cfb7137345c536606e9a9c0008a69" ++
        "feb1a7e0e8e503c04567d631965e525d")),
    (codeUnits "\x7b\"reminderId\":\"r2\"\x7d", codeUnits
      ("ac456dd76c987e63421b6c9eb7ed1145" ++
        "fc679f0c280ce3ffa2dac26b90bfd10d")),
    (codeUnits ("\x7b\"companyId\":\"c1\",\"discriminator\":" ++
      "\x7b\"reminderId\":\"r1\"\x7d,\"job\":\"jobKit.sendReminder\"," ++
      "\"module\":\"jobKit\",\"origin\":\x7b\"action\":\"jobKit.note\"," ++
      "\"idempotencyKey\":\"key-1\",\"kind\":\"idempotency\"," ++
      "\"principalKey\":\"staff:u1\",\"scopeKey\":\"company:c1\"\x7d\x7d"),
      codeUnits
      ("b1f6a2c24f31d778e076bb8621a5cc66" ++
        "6412541eb2bf0fd89b2a19542bc75fec")),
    (codeUnits ("\x7b\"companyId\":\"c1\",\"discriminator\":" ++
      "\x7b\"reminderId\":\"r2\"\x7d,\"job\":\"jobKit.sendReminder\"," ++
      "\"module\":\"jobKit\",\"origin\":\x7b\"action\":\"jobKit.note\"," ++
      "\"idempotencyKey\":\"key-1\",\"kind\":\"idempotency\"," ++
      "\"principalKey\":\"staff:u1\",\"scopeKey\":\"company:c1\"\x7d\x7d"),
      codeUnits
      ("e68b3ef14584401ef1f783943a2725c2" ++
        "cd4566f44c6e11dfb176e5790d6d336c"))]

/-- The digests of the texts that are met here, as the real function has them.
-/
def reminderSha256 (text : CodeUnits) : List UInt8 :=
  bytesOfHex ((reminderDigests.lookup text).getD [])

/-- A member of staff whose call was keyed, in one of its attempts. -/
def remindedCall (requestId executionId : String) : Invocation where
  contract := ⟨codeUnits "jobKit.note", false,
    some [codeUnits "jobKit.sendReminder"]⟩
  ctx := ⟨.staff (codeUnits "c1"), .user (codeUnits "u1"), codeUnits "http",
    codeUnits requestId, codeUnits "correlation-1"⟩
  reservedIdentity := some ⟨codeUnits "jobKit.note", some (codeUnits "key-1"),
    .staff, [], ⟨.user (codeUnits "u1"), some (codeUnits "c1"), none⟩⟩
  executionId := codeUnits executionId
  portComposed := true
  mode_eq := by
    rintro identity ⟨⟩
    rfl
  company_eq := by
    rintro identity ⟨⟩
    rfl

/-- The second of the reminders is sent twice and refused once, and the second
attempt derives the ids of the first. -/
theorem jobs_identified_reminders :
    let sends := [reminder "r1", reminder "r2", reminder "r2"]
    ∃ envelopes envelopes',
      jobsOf reminderSha256 (remindedCall "request-1" "execution-1") sends =
        .ok envelopes ∧
      jobsOf reminderSha256 (remindedCall "request-2" "execution-2") sends =
        .ok envelopes' ∧
      envelopes.map JobEnvelope.id = envelopes'.map JobEnvelope.id ∧
      envelopes.map JobEnvelope.id =
        [codeUnits "b1f6a2c2-4f31-8778-a076-bb8621a5cc66",
          codeUnits "e68b3ef1-4584-801e-b1f7-83943a2725c2"] := by
  intro sends
  have hids : ((jobsOf reminderSha256 (remindedCall "request-1" "execution-1")
      sends).toOption.map fun envelopes => envelopes.map JobEnvelope.id) =
        some [codeUnits "b1f6a2c2-4f31-8778-a076-bb8621a5cc66",
          codeUnits "e68b3ef1-4584-801e-b1f7-83943a2725c2"] := by
    unfold reminderSha256 reminderDigests
    rw [codeUnits_eq_unitsOfBytes]
    decide +kernel
  have hids' : ((jobsOf reminderSha256 (remindedCall "request-2" "execution-2")
      sends).toOption.isSome) = true := by
    decide
  cases hjobs : jobsOf reminderSha256 (remindedCall "request-1" "execution-1")
      sends with
  | error e =>
      rw [hjobs] at hids
      cases hids
  | ok envelopes =>
      cases hjobs' : jobsOf reminderSha256
          (remindedCall "request-2" "execution-2") sends with
      | error e =>
          rw [hjobs'] at hids'
          cases hids'
      | ok envelopes' =>
          rw [hjobs] at hids
          have hrerun := (jobs_identified reminderSha256).2.1
            (remindedCall "request-1" "execution-1")
            (remindedCall "request-2" "execution-2") sends envelopes envelopes'
            (codeUnits "staff:u1") (codeUnits "company:c1")
            (codeUnits "jobKit.note") (codeUnits "key-1") rfl rfl rfl hjobs
            hjobs'
          exact ⟨envelopes, envelopes', rfl, rfl, hrerun,
            Option.some.inj hids⟩

end Shozee.Jobs
