import Mathlib.Data.List.Perm.Basic
import Shozee.Audit.CanonicalJson

/-!
# What a job's id is taken of

A job id is the hash of a canonical JSON text, `jobPreimage`, with some of its
bits set. The text names the job, its company, what the send comes from and
the payload fields that tell the job's sends apart. What the send comes from is
the idempotency tuple of the call where there is one, and is then the same in
every attempt; else it is the execution.

`jobPreimage_eq_iff` says that nothing else goes into the text and that nothing
of this is lost in it, whatever the texts of the fields are. The keys of the
tuple also fix the company: `companyId_of_scopeKey`.
-/

namespace Shozee.Jobs

open Shozee.Run Shozee.Audit

/-! ## Jobs

What a schema makes of a payload, and which of its fields tell the sends apart.
-/

/-- What a payload field holds once it is parsed: the text of a uuid, an enum
or a literal, or an integer. -/
inductive JobValue
  | text (text : CodeUnits)
  | integer (n : SafeInteger)
deriving DecidableEq

/-- A value of a payload as the language has it. -/
def JobValue.toJs : JobValue → JsValue SafeInteger
  | .text t => .string t
  | .integer n => .number (.finite n)

/-- A value of a payload as JSON text has it. -/
def JobValue.toJson : JobValue → Json SafeInteger
  | .text t => .string t
  | .integer n => .number n

/-- A payload by its fields. The schema lets nothing nested through. -/
abbrev Payload := List (CodeUnits × JobValue)

/-- A schema that `jobPayload` built: what it makes of an input, or the text of
its issues. Every field of it is required. -/
structure PayloadSchema where
  fields : List CodeUnits
  safeParse : JsValue SafeInteger → Except CodeUnits Payload
  parsed : ∀ input payload, safeParse input = .ok payload →
    ∀ key ∈ fields, (payload.lookup key).isSome

/-- Whether a job belongs to a company. -/
inductive JobScope
  | tenant
  | global
deriving DecidableEq, Repr

/-- A job as a module declares it. -/
structure JobDefinition where
  name : CodeUnits
  scope : JobScope
  payload : PayloadSchema
  discriminator : List CodeUnits

/-- A definition that `defineJob` let through. -/
structure Job extends JobDefinition where
  discriminator_fields : ∀ key ∈ discriminator, key ∈ payload.fields
  discriminator_nodup : discriminator.Nodup

/-- `split(".", 1)[0]`. -/
def moduleOf (qualifiedName : CodeUnits) : CodeUnits :=
  qualifiedName.takeWhile (· ≠ 0x2e)

/-! ## Where a send comes from

The tuple of the idempotency key where there is one, and the execution
otherwise. -/

/-- What a send is counted by: the call's idempotency tuple, or the execution.
-/
inductive JobOrigin
  | idempotency (principalKey scopeKey action idempotencyKey : CodeUnits)
  | execution (executionId : CodeUnits)
deriving DecidableEq

/-- Who runs the action. -/
inductive ActionActor
  | user (id : CodeUnits)
  | system (id : CodeUnits)
  | anonymous
deriving DecidableEq

/-- The text that stands for an actor. -/
def ActionActor.id : ActionActor → CodeUnits
  | .user id => id
  | .system id => id
  | .anonymous => codeUnits "anonymous"

/-- The kind of actor in the keys of a system's call. -/
def ActionActor.type : ActionActor → CodeUnits
  | .user _ => codeUnits "user"
  | .system _ => codeUnits "system"
  | .anonymous => codeUnits "anonymous"

/-- The kinds of principals. -/
inductive PrincipalMode
  | staff | customer | account | system | share | consumer | «public»
deriving DecidableEq, Repr

/-- Their texts. -/
def PrincipalMode.name : PrincipalMode → CodeUnits
  | .staff => codeUnits "staff"
  | .customer => codeUnits "customer"
  | .account => codeUnits "account"
  | .system => codeUnits "system"
  | .share => codeUnits "share"
  | .consumer => codeUnits "consumer"
  | .public => codeUnits "public"

/-- A principal with the company that its context is in, where it has one. -/
inductive ActionPrincipal
  | staff (companyId : CodeUnits)
  | customer (targetCompanyId : CodeUnits)
  | «public» (targetCompanyId : Option CodeUnits)
  | system (companyId : Option CodeUnits)
  | share (targetCompanyId : CodeUnits)
  | consumer
  | account
deriving DecidableEq

/-- The kind of a principal. -/
def ActionPrincipal.mode : ActionPrincipal → PrincipalMode
  | .staff _ => .staff
  | .customer _ => .customer
  | .public _ => .public
  | .system _ => .system
  | .share _ => .share
  | .consumer => .consumer
  | .account => .account

/-- The company that a principal acts for. -/
def effectiveCompanyId : ActionPrincipal → Option CodeUnits
  | .staff companyId => some companyId
  | .customer companyId => some companyId
  | .public companyId => companyId
  | .system companyId => companyId
  | .share companyId => some companyId
  | .consumer | .account => none

/-- What the pipeline found out about the caller. -/
structure PreflightAuthorization where
  actor : ActionActor
  companyId : Option CodeUnits
  tokenHash : Option CodeUnits
deriving DecidableEq

/-- What the keys of an idempotent call are made of. -/
structure ProtocolIdentity where
  contractName : CodeUnits
  idempotencyKey : Option CodeUnits
  mode : PrincipalMode
  serviceName : CodeUnits
  authorization : PreflightAuthorization
deriving DecidableEq

/-- What sending throws. -/
inductive JobsError
  | coreInvariant (message : CodeUnits)
  | validation (path : List CodeUnits) (message internalMessage : CodeUnits)
deriving DecidableEq, Repr

/-- The key of the call; an empty one is as good as none. -/
def requireIdempotencyKey (env : ProtocolIdentity) :
    Except JobsError CodeUnits :=
  match env.idempotencyKey with
  | some (unit :: key) => .ok (unit :: key)
  | _ =>
      .error (.validation [codeUnits "idempotencyKey"]
        (codeUnits "An idempotency key is required for this action.")
        (codeUnits "idempotent mutation \"" ++ env.contractName ++
          codeUnits "\" invoked without an idempotency key"))

/-- The part of the tuple that says who calls. -/
def principalKeyFor (env : ProtocolIdentity) : Except JobsError CodeUnits :=
  match env.mode with
  | .staff | .customer | .account =>
      match env.authorization.actor with
      | .user id => .ok (env.mode.name ++ codeUnits ":" ++ id)
      | actor =>
          .error (.coreInvariant (env.mode.name ++
            codeUnits " authorization for \"" ++ env.contractName ++
            codeUnits "\" carries a non-user actor \"" ++ actor.type ++
            codeUnits "\""))
  | .system => .ok (codeUnits "system:" ++ env.serviceName)
  | .share =>
      match env.authorization.tokenHash with
      | some (unit :: tokenHash) =>
          .ok (codeUnits "share:" ++ unit :: tokenHash)
      | _ =>
          .error (.coreInvariant (codeUnits "share authorization for \"" ++
            env.contractName ++ codeUnits ("\" has no tokenHash — preflight " ++
            "must run resolveTarget before the idempotency reservation " ++
            "(core.md §5)")))
  | .consumer | .public =>
      .error (.coreInvariant (codeUnits "\"" ++ env.contractName ++
        codeUnits "\" reached a confirmation/idempotency hook as \"" ++
        env.mode.name ++ codeUnits ("\" — the contract check must reject " ++
        "these protocols for this mode")))

/-- The part of the tuple that says in which company. -/
def scopeKeyFor (env : ProtocolIdentity) (principalKey : CodeUnits) :
    Except JobsError CodeUnits :=
  if env.mode = .account then
    .ok (codeUnits "user:" ++ env.authorization.actor.id)
  else
    match env.authorization.companyId with
    | some companyId => .ok (codeUnits "company:" ++ companyId)
    | none =>
        if env.mode = .system then .ok (codeUnits "global")
        else
          .error (.coreInvariant (codeUnits "\"" ++ env.contractName ++
            codeUnits "\" (" ++ principalKey ++ codeUnits (") has no " ++
            "company scope and is not an account or global system action")))

/-- The origin of a send: the reserved tuple of a call that has one, else the
execution. -/
def jobOriginFor (executionId : CodeUnits)
    (reservedIdentity : Option ProtocolIdentity) :
    Except JobsError JobOrigin :=
  match reservedIdentity with
  | none => .ok (.execution executionId)
  | some identity => do
      let principalKey ← principalKeyFor identity
      let scopeKey ← scopeKeyFor identity principalKey
      let idempotencyKey ← requireIdempotencyKey identity
      .ok (.idempotency principalKey scopeKey identity.contractName
        idempotencyKey)

/-! ## The text

The canonical text, and the id that is cut out of its hash. -/

/-- The origin as a field of the hashed text. -/
def JobOrigin.toJs : JobOrigin → JsValue SafeInteger
  | .idempotency principalKey scopeKey action idempotencyKey => .object
      [(codeUnits "kind", .string (codeUnits "idempotency")),
        (codeUnits "principalKey", .string principalKey),
        (codeUnits "scopeKey", .string scopeKey),
        (codeUnits "action", .string action),
        (codeUnits "idempotencyKey", .string idempotencyKey)]
  | .execution executionId => .object
      [(codeUnits "kind", .string (codeUnits "execution")),
        (codeUnits "executionId", .string executionId)]

/-- The payload fields that tell the sends of a job apart. -/
def jobDiscriminatorValues (job : Job) (payload : Payload) :
    JsValue SafeInteger :=
  .object (job.discriminator.map fun key =>
    (key, (payload.lookup key).elim .undefined JobValue.toJs))

/-- The object whose canonical text is hashed. -/
def jobIdentity (job : Job) (companyId : Option CodeUnits)
    (origin : JobOrigin) (payload : Payload) : JsValue SafeInteger :=
  .object
    [(codeUnits "module", .string (moduleOf job.name)),
      (codeUnits "job", .string job.name),
      (codeUnits "companyId", companyId.elim .null .string),
      (codeUnits "origin", origin.toJs),
      (codeUnits "discriminator", jobDiscriminatorValues job payload)]

/-- That text. A value that is no JSON is an invariant error of the job. -/
def canonicalText (v : JsValue SafeInteger) : Except JobsError CodeUnits :=
  (canonicalJson integerTexts v).mapError fun e => .coreInvariant e.message

/-- What `deriveJobId` hashes. -/
def jobPreimage (job : Job) (companyId : Option CodeUnits)
    (origin : JobOrigin) (payload : Payload) : Except JobsError CodeUnits :=
  canonicalText (jobIdentity job companyId origin payload)

/-- Two hexadecimal digits a byte. -/
def hexText (bytes : List UInt8) : CodeUnits :=
  bytes.flatMap fun byte =>
    [hexUnit (byte.toNat / 16), hexUnit (byte.toNat % 16)]

/-- The first sixteen bytes of a hash as a version 8 uuid. -/
def jobIdOf (digest : List UInt8) : CodeUnits :=
  let bytes := digest.take 16
  let bytes := bytes.set 6 ((bytes.getD 6 0 &&& 0x0f) ||| 0x80)
  let bytes := bytes.set 8 ((bytes.getD 8 0 &&& 0x3f) ||| 0x80)
  let hex := hexText bytes
  hex.take 8 ++ codeUnits "-" ++ (hex.drop 8).take 4 ++ codeUnits "-" ++
    (hex.drop 12).take 4 ++ codeUnits "-" ++ (hex.drop 16).take 4 ++
    codeUnits "-" ++ hex.drop 20

/-- The id of a send: a digest of the text, in the form of a UUID. -/
def deriveJobId (sha256 : CodeUnits → List UInt8) (job : Job)
    (companyId : Option CodeUnits) (origin : JobOrigin) (payload : Payload) :
    Except JobsError CodeUnits :=
  (jobPreimage job companyId origin payload).map fun text =>
    jobIdOf (sha256 text)

/-! ## The text says all of it, and nothing else

The text can be read back, part by part. So two texts are equal just when the
parts are. -/

/-- The fields of a payload under some keys. -/
def pick (payload : Payload) (keys : List CodeUnits) : Payload :=
  keys.filterMap fun key =>
    (payload.lookup key).map fun value => (key, value)

/-- What tells the sends of a job apart. -/
def discriminatorOf (job : Job) (payload : Payload) : Payload :=
  pick payload job.discriminator

/-- Every field of the discriminator is there. -/
def Complete (job : Job) (payload : Payload) : Prop :=
  ∀ key ∈ job.discriminator, (payload.lookup key).isSome

theorem complete_of_parsed {job : Job} {input : JsValue SafeInteger}
    {payload : Payload} (h : job.payload.safeParse input = .ok payload) :
    Complete job payload :=
  fun key hkey => job.payload.parsed input payload h key
    (job.discriminator_fields key hkey)

/-- The origin as JSON text has it. -/
def JobOrigin.toJson : JobOrigin → Json SafeInteger
  | .idempotency principalKey scopeKey action idempotencyKey => .object
      [(codeUnits "kind", .string (codeUnits "idempotency")),
        (codeUnits "principalKey", .string principalKey),
        (codeUnits "scopeKey", .string scopeKey),
        (codeUnits "action", .string action),
        (codeUnits "idempotencyKey", .string idempotencyKey)]
  | .execution executionId => .object
      [(codeUnits "kind", .string (codeUnits "execution")),
        (codeUnits "executionId", .string executionId)]

/-- The hashed object as JSON text has it, from the discriminator's own fields.
-/
def jobIdentityJson (name : CodeUnits) (companyId : Option CodeUnits)
    (origin : JobOrigin) (discriminator : Payload) : Json SafeInteger :=
  .object
    [(codeUnits "module", .string (moduleOf name)),
      (codeUnits "job", .string name),
      (codeUnits "companyId", companyId.elim .null .string),
      (codeUnits "origin", origin.toJson),
      (codeUnits "discriminator",
        .object (discriminator.map (Prod.map id JobValue.toJson)))]

theorem asJson_picked {payload : Payload} {keys : List CodeUnits}
    (h : ∀ key ∈ keys, (payload.lookup key).isSome) :
    membersAsJson integerTexts (keys.map fun key =>
        (key, (payload.lookup key).elim .undefined JobValue.toJs)) =
      some ((pick payload keys).map (Prod.map id JobValue.toJson)) := by
  rw [membersAsJson_iff]
  unfold pick
  induction keys with
  | nil => exact .nil
  | cons key rest ih =>
      rw [List.forall_mem_cons] at h
      obtain ⟨value, hvalue⟩ := Option.isSome_iff_exists.mp h.1
      rw [List.map_cons, List.filterMap_cons_some (by rw [hvalue]; rfl),
        List.map_cons]
      refine .cons ⟨rfl, ?_⟩ (ih h.2)
      rw [hvalue]
      cases value <;> rfl

theorem asJson_discriminator {job : Job} {payload : Payload}
    (h : Complete job payload) :
    asJson integerTexts (jobDiscriminatorValues job payload) =
      some (.object ((discriminatorOf job payload).map
        (Prod.map id JobValue.toJson))) := by
  rw [jobDiscriminatorValues, asJson, asJson_picked h]
  rfl

theorem asJson_origin (origin : JobOrigin) :
    asJson integerTexts origin.toJs = some origin.toJson := by
  cases origin <;> rfl

theorem asJson_jobIdentity {job : Job} {companyId : Option CodeUnits}
    {origin : JobOrigin} {payload : Payload} (h : Complete job payload) :
    asJson integerTexts (jobIdentity job companyId origin payload) =
      some (jobIdentityJson job.name companyId origin
        (discriminatorOf job payload)) := by
  rw [jobIdentity, asJson, Option.map_eq_some_iff]
  refine ⟨_, ?_, rfl⟩
  rw [membersAsJson_iff]
  refine .cons ⟨rfl, rfl⟩ (.cons ⟨rfl, rfl⟩ (.cons ⟨rfl, ?_⟩
    (.cons ⟨rfl, asJson_origin origin⟩
      (.cons ⟨rfl, asJson_discriminator h⟩ .nil))))
  cases companyId <;> rfl

theorem identityKeys_nodup :
    [codeUnits "module", codeUnits "job", codeUnits "companyId",
      codeUnits "origin", codeUnits "discriminator"].Nodup := by
  decide

theorem idempotencyKeys_nodup :
    [codeUnits "kind", codeUnits "principalKey", codeUnits "scopeKey",
      codeUnits "action", codeUnits "idempotencyKey"].Nodup := by
  decide

theorem executionKeys_nodup :
    [codeUnits "kind", codeUnits "executionId"].Nodup := by
  decide

theorem distinct_jobDiscriminatorValues (job : Job) (payload : Payload) :
    distinct (jobDiscriminatorValues job payload) := by
  refine ⟨?_, distinctMembers_iff.mpr fun m hm => ?_⟩
  · rw [List.map_map]
    exact (List.map_id' job.discriminator).symm ▸ job.discriminator_nodup
  · obtain ⟨key, -, rfl⟩ := List.mem_map.mp hm
    cases payload.lookup key with
    | none => trivial
    | some value => cases value <;> trivial

theorem distinct_jobIdentity (job : Job) (companyId : Option CodeUnits)
    (origin : JobOrigin) (payload : Payload) :
    distinct (jobIdentity job companyId origin payload) := by
  have horigin : distinct origin.toJs := by
    cases origin with
    | idempotency principalKey scopeKey action idempotencyKey =>
        exact ⟨idempotencyKeys_nodup, trivial, trivial, trivial, trivial,
          trivial, trivial⟩
    | execution executionId =>
        exact ⟨executionKeys_nodup, trivial, trivial, trivial⟩
  have hcompany : distinct
      (companyId.elim .null .string : JsValue SafeInteger) := by
    cases companyId <;> trivial
  exact ⟨identityKeys_nodup, trivial, trivial, hcompany, horigin,
    distinct_jobDiscriminatorValues job payload, trivial⟩

theorem toJson_injective : Function.Injective JobValue.toJson := by
  intro v w h
  cases v <;> cases w <;> cases h <;> rfl

theorem same_toJson_iff {v w : JobValue} :
    Json.Same v.toJson w.toJson ↔ v = w := by
  constructor
  · intro h
    cases v <;> cases w <;> cases h <;> rfl
  · rintro rfl
    cases v with
    | text t => exact .string t
    | integer n => exact .number n

/-- Two discriminators are the same when they have the same values under the
same keys. -/
theorem same_discriminator_iff {ds es : Payload} :
    Json.Same (.object (ds.map (Prod.map id JobValue.toJson)))
        (.object (es.map (Prod.map id JobValue.toJson))) ↔ ds.Perm es := by
  have hinjective : Function.Injective
      (Prod.map (id : CodeUnits → CodeUnits) JobValue.toJson) :=
    Function.injective_id.prodMap toJson_injective
  constructor
  · intro h
    cases h with
    | @object _ ms' _ ns' hms hns hmembers =>
      have hequal : ms' = ns' := by
        have hvalues : ∀ (ds : Payload) (ms' : List (CodeUnits × _)),
            (ds.map (Prod.map id JobValue.toJson)).Perm ms' →
              ∀ m ∈ ms', ∃ v : JobValue, m.2 = v.toJson := by
          intro ds ms' hperm m hm
          obtain ⟨member, -, rfl⟩ := List.mem_map.mp (hperm.mem_iff.mpr hm)
          exact ⟨member.2, rfl⟩
        rw [← List.forall₂_eq_eq_eq]
        have hleft := (List.forall₂_and_left _ _).mpr
          ⟨hvalues ds ms' hms, Json.sameMembers_iff.mp hmembers⟩
        have hboth := (List.forall₂_and_left _ _).mpr
          ⟨hvalues es ns' hns, hleft.flip⟩
        refine hboth.flip.imp fun m n hmn => ?_
        obtain ⟨⟨w, hw⟩, ⟨v, hv⟩, hkey, hsame⟩ := hmn
        rw [hv, hw, same_toJson_iff] at hsame
        exact Prod.ext hkey (by rw [hv, hw, hsame])
      subst hequal
      exact (List.map_perm_map_iff hinjective).mp (hms.trans hns.symm)
  · intro h
    refine .object (h.map _) (List.Perm.refl _) ?_
    rw [Json.sameMembers_iff, List.forall₂_same]
    intro m hm
    obtain ⟨member, -, rfl⟩ := List.mem_map.mp hm
    exact ⟨rfl, same_toJson_iff.mpr rfl⟩

theorem same_string_iff {t u : CodeUnits} :
    Json.Same (.string t : Json SafeInteger) (.string u) ↔ t = u := by
  constructor
  · intro h
    cases h
    rfl
  · rintro rfl
    exact .string t

/-- A text under a key that two objects have. -/
theorem same_string_of_member {ms ns : List (CodeUnits × Json SafeInteger)}
    (h : Json.Same (.object ms) (.object ns)) (hns : (ns.map Prod.fst).Nodup)
    (key t u : CodeUnits) (ht : (key, .string t) ∈ ms)
    (hu : (key, .string u) ∈ ns) : t = u :=
  same_string_iff.mp (h.member hns key ht hu)

theorem same_origin_iff {origin origin' : JobOrigin} :
    Json.Same origin.toJson origin'.toJson ↔ origin = origin' := by
  constructor
  · intro h
    cases origin with
    | idempotency principalKey scopeKey action idempotencyKey =>
        cases origin' with
        | idempotency principalKey' scopeKey' action' idempotencyKey' =>
            have hprincipal := same_string_of_member h idempotencyKeys_nodup
              (codeUnits "principalKey") principalKey principalKey'
              (by simp) (by simp)
            have hscope := same_string_of_member h idempotencyKeys_nodup
              (codeUnits "scopeKey") scopeKey scopeKey' (by simp) (by simp)
            have haction := same_string_of_member h idempotencyKeys_nodup
              (codeUnits "action") action action' (by simp) (by simp)
            have hkey := same_string_of_member h idempotencyKeys_nodup
              (codeUnits "idempotencyKey") idempotencyKey idempotencyKey'
              (by simp) (by simp)
            rw [hprincipal, hscope, haction, hkey]
        | execution executionId =>
            have hkind := same_string_of_member h executionKeys_nodup
              (codeUnits "kind") (codeUnits "idempotency")
              (codeUnits "execution") (by simp) (by simp)
            exact absurd hkind (by decide)
    | execution executionId =>
        cases origin' with
        | idempotency principalKey scopeKey action idempotencyKey =>
            have hkind := same_string_of_member h idempotencyKeys_nodup
              (codeUnits "kind") (codeUnits "execution")
              (codeUnits "idempotency") (by simp) (by simp)
            exact absurd hkind (by decide)
        | execution executionId' =>
            have hid := same_string_of_member h executionKeys_nodup
              (codeUnits "executionId") executionId executionId' (by simp)
              (by simp)
            rw [hid]
  · rintro rfl
    cases origin with
    | idempotency principalKey scopeKey action idempotencyKey =>
        exact .of_members (.cons (.string _) (.cons (.string _)
          (.cons (.string _) (.cons (.string _) (.cons (.string _) .nil)))))
    | execution executionId =>
        exact .of_members (.cons (.string _) (.cons (.string _) .nil))

theorem same_jobIdentity_iff {name name' : CodeUnits}
    {companyId companyId' : Option CodeUnits} {origin origin' : JobOrigin}
    {ds es : Payload} :
    Json.Same (jobIdentityJson name companyId origin ds)
        (jobIdentityJson name' companyId' origin' es) ↔
      name = name' ∧ companyId = companyId' ∧ origin = origin' ∧
        ds.Perm es := by
  constructor
  · intro h
    have hname := same_string_of_member h identityKeys_nodup (codeUnits "job")
      name name' (by simp) (by simp)
    have hcompany : Json.Same
        (companyId.elim .null .string : Json SafeInteger)
        (companyId'.elim .null .string) :=
      h.member identityKeys_nodup (codeUnits "companyId") (by simp) (by simp)
    have horigin : Json.Same origin.toJson origin'.toJson :=
      h.member identityKeys_nodup (codeUnits "origin") (by simp) (by simp)
    have hdiscriminator : Json.Same
        (.object (ds.map (Prod.map id JobValue.toJson)) : Json SafeInteger)
        (.object (es.map (Prod.map id JobValue.toJson))) :=
      h.member identityKeys_nodup (codeUnits "discriminator") (by simp)
        (by simp)
    refine ⟨hname, ?_, same_origin_iff.mp horigin,
      same_discriminator_iff.mp hdiscriminator⟩
    cases companyId <;> cases companyId' <;> cases hcompany <;> rfl
  · rintro ⟨rfl, rfl, rfl, hdiscriminator⟩
    have hcompany : Json.Same
        (companyId.elim .null .string : Json SafeInteger)
        (companyId.elim .null .string) := by
      cases companyId with
      | none => exact .null
      | some id => exact .string id
    exact .of_members (.cons (.string _) (.cons (.string _) (.cons hcompany
      (.cons (same_origin_iff.mpr rfl)
        (.cons (same_discriminator_iff.mpr hdiscriminator) .nil)))))

/-- There is a text for a payload that has every field of the discriminator.
-/
theorem exists_jobPreimage {job : Job} {companyId : Option CodeUnits}
    {origin : JobOrigin} {payload : Payload} (h : Complete job payload) :
    ∃ text, jobPreimage job companyId origin payload = .ok text := by
  obtain ⟨htext, -⟩ := serialize_json _
    (distinct_jobIdentity job companyId origin payload) _
    (asJson_jobIdentity h)
  exact ⟨_, congrArg (Except.mapError _) htext⟩

/-- Two sends have one text just when they are of one job name, in one company,
from one origin and with one discriminator. -/
theorem jobPreimage_eq_iff {job job' : Job}
    {companyId companyId' : Option CodeUnits} {origin origin' : JobOrigin}
    {payload payload' : Payload} (h : Complete job payload)
    (h' : Complete job' payload') :
    jobPreimage job companyId origin payload =
        jobPreimage job' companyId' origin' payload' ↔
      job.name = job'.name ∧ companyId = companyId' ∧ origin = origin' ∧
        (discriminatorOf job payload).Perm
          (discriminatorOf job' payload') := by
  have hiff := canonicalJson_eq_iff (N := integerTexts)
    (a := ⟨_, distinct_jobIdentity job companyId origin payload⟩)
    (b := ⟨_, distinct_jobIdentity job' companyId' origin' payload'⟩)
    (asJson_jobIdentity h) (asJson_jobIdentity h')
  rw [← same_jobIdentity_iff, ← hiff]
  obtain ⟨htext, -⟩ := serialize_json _
    (distinct_jobIdentity job companyId origin payload) _
    (asJson_jobIdentity h)
  obtain ⟨htext', -⟩ := serialize_json _
    (distinct_jobIdentity job' companyId' origin' payload') _
    (asJson_jobIdentity h')
  simp only [jobPreimage, canonicalText, canonicalJson, htext, htext']
  simp only [Except.mapError, Except.ok.injEq]

/-- The text of the discriminator alone. -/
theorem canonicalText_discriminator_eq {job job' : Job}
    {payload payload' : Payload} (h : Complete job payload)
    (h' : Complete job' payload')
    (hsame : (discriminatorOf job payload).Perm
      (discriminatorOf job' payload')) :
    canonicalText (jobDiscriminatorValues job payload) =
      canonicalText (jobDiscriminatorValues job' payload') := by
  have hiff := canonicalJson_eq_iff (N := integerTexts)
    (a := ⟨_, distinct_jobDiscriminatorValues job payload⟩)
    (b := ⟨_, distinct_jobDiscriminatorValues job' payload'⟩)
    (asJson_discriminator h) (asJson_discriminator h')
  exact congrArg (Except.mapError _)
    (hiff.mpr (same_discriminator_iff.mpr hsame))

/-! ## The keys fix the company

The company of a call can be read off its scope key, so calls with one tuple
are of one company. -/

/-- The company that a scope key names. -/
def companyOfScope (scopeKey : CodeUnits) : Option CodeUnits :=
  if (codeUnits "company:").isPrefixOf scopeKey then some (scopeKey.drop 8)
  else none

/-- The company of a call can be read off its scope key. -/
theorem companyId_of_scopeKey {identity : ProtocolIdentity}
    {principalKey scopeKey : CodeUnits}
    (haccount : identity.mode = .account →
      identity.authorization.companyId = none)
    (h : scopeKeyFor identity principalKey = .ok scopeKey) :
    identity.authorization.companyId = companyOfScope scopeKey := by
  unfold scopeKeyFor at h
  by_cases hmode : identity.mode = .account
  · rw [if_pos hmode] at h
    cases h
    rw [haccount hmode]
    rfl
  · rw [if_neg hmode] at h
    cases hcompany : identity.authorization.companyId with
    | some companyId =>
        rw [hcompany] at h
        cases h
        rfl
    | none =>
        rw [hcompany] at h
        dsimp only at h
        split at h
        · cases h
          rfl
        · cases h

end Shozee.Jobs
