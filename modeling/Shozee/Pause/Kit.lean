import Mathlib.Data.Option.Basic
import Mathlib.Order.Basic

/-!
# Pauses and the decisions about them

The record of a pause, and what each call of the kit decides about the record
that it has read. A call reads, decides, and then writes by a compare-and-set
of exactly the record that it read; this file is the middle part, and has no
store.

What the kit only hands on (prompts, answers, secrets, continuations) is of
any type `υ`. The id of a paused tool call is of a parsed type, so what the
kit has stored it can decode. A deadline is a number of milliseconds, which is
what its text parses to.
-/

namespace Shozee.Pause

/-- Texts by their characters. -/
abbrev Text := List Char

/-- The life of a pause. -/
inductive PauseStatus
  | «open»
  | claimed
  | answered
  | cancelled
  | expired
deriving DecidableEq, Repr

/-- What the slot of a conversation holds. -/
structure PauseRecord (υ : Type) where
  kind : Text
  bind : Text
  interactionId : Text
  revision : Nat
  conversationId : Text
  status : PauseStatus
  continuation : υ
  prompt : υ
  secret : υ
  expiresAt : Int
deriving DecidableEq

/-- Everything a client may see. -/
structure PublicPause (υ : Type) where
  kind : Text
  interactionId : Text
  revision : Nat
  status : PauseStatus
  prompt : υ
  expiresAt : Int
deriving DecidableEq

/-- The slot that a call is about, and who may use it. -/
structure PauseScope where
  conversationId : Text
  bind : Text
deriving DecidableEq, Repr

/-- What an answer comes to. -/
inductive Resolution (υ : Type)
  | resolved (value : υ)
  | unresolvable (reason : Text)
deriving DecidableEq

/-- A registered kind. Its schemas answer with the parsed value or a reason. -/
structure InteractionType (υ : Type) where
  ttlMs : Int
  prompt : υ → Except Text υ
  answer : υ → Except Text υ
  resolve : υ → υ → Resolution υ

/-- The kinds of questions that are registered. -/
abbrev Interactions (υ : Type) := Text → Option (InteractionType υ)

/-- `OpenPauseInput` without its scope. -/
structure Question (υ : Type) where
  kind : Text
  prompt : υ
  secret : υ
  continuation : υ
deriving DecidableEq

/-- How long an abandoned pause still holds its slot. -/
def ABANDON_HOLD_MS : Int := 10000

/-- What any call of the kit may answer. -/
inductive Answer (υ : Type)
  | opened (pause : PublicPause υ)
  | alreadyOpen (current : PublicPause υ)
  | unknownKind (kindName : Text)
  | invalidPrompt (reason : Text)
  | peeked (pause : Option (PublicPause υ))
  | claimed (record : PauseRecord υ) (value : υ)
  | stale (current : PublicPause υ)
  | gone
  | expired
  | invalidAnswer (reason : Text)
  | unresolvable (reason : Text)
  | released
  | cancelled
  | alreadyClaimed
deriving DecidableEq

variable {υ : Type}

/-- What a client is told of a pause. -/
def publicPauseOf (record : PauseRecord υ) : PublicPause υ where
  kind := record.kind
  interactionId := record.interactionId
  revision := record.revision
  status := record.status
  prompt := record.prompt
  expiresAt := record.expiresAt

/-- A pause is over from its time on. -/
def isExpired (record : PauseRecord υ) (now : Int) : Bool :=
  record.expiresAt ≤ now

/-- Pauses that keep another one out of the slot. -/
def holdsTheSlot (record : PauseRecord υ) (now : Int) : Bool :=
  (record.status = .«open» || record.status = .cancelled) &&
    !isExpired record now

/-- Pauses that an answer may still claim. -/
def isAnswerable (record : PauseRecord υ) (now : Int) : Bool :=
  record.status = .«open» && !isExpired record now

/-- Builds a record, or says why the kind or the payload is unacceptable. -/
def build (interactions : Interactions υ) (scope : PauseScope)
    (input : Question υ) (interactionId : Text) (revision : Nat)
    (now : Int) : Except (Answer υ) (PauseRecord υ) :=
  match interactions input.kind with
  | none => .error (.unknownKind input.kind)
  | some type =>
      match type.prompt input.prompt with
      | .error reason => .error (.invalidPrompt reason)
      | .ok prompt => .ok
          { kind := input.kind
            bind := scope.bind
            interactionId
            revision
            conversationId := scope.conversationId
            status := .«open»
            continuation := input.continuation
            prompt
            secret := input.secret
            expiresAt := now + type.ttlMs }

/-! ## Calls

What each call reads, and what it decides on that record. A decision either
answers or names the record to write and the one to expect. -/

/-- A call of the kit that reads the conversation's key; an `open` comes here
with the record it has built. -/
inductive Task (υ : Type)
  | install (record : PauseRecord υ)
  | peek (scope : PauseScope)
  | claim (scope : PauseScope) (interactionId : Text) (revision : Nat)
      (answer : υ)
  | revise (scope : PauseScope) (interactionId : Text) (next : Question υ)
  | abandon (scope : PauseScope) (interactionId : Text)
  | release (scope : PauseScope) (interactionId : Text)
deriving DecidableEq

/-- Whom a task acts for. An install acts for everyone: slot occupancy ignores
`bind`. -/
def Task.scope? : Task υ → Option PauseScope
  | .install _ => none
  | .peek scope | .claim scope .. | .revise scope .. | .abandon scope _
  | .release scope _ => some scope

/-- The conversation of a call. -/
def Task.conversationId : Task υ → Text
  | .install record => record.conversationId
  | .peek scope | .claim scope .. | .revise scope .. | .abandon scope _
  | .release scope _ => scope.conversationId

/-- `readRecord`, and `readSlot` for an install: what a task makes of what the
key holds. A record of another owner reads as absent. -/
def Task.sees (task : Task υ) (held : Option (PauseRecord υ)) :
    Option (PauseRecord υ) :=
  match task.scope? with
  | none => held
  | some scope => held.filter fun record => record.bind = scope.bind

/-- What a call goes on to do: it is done, or it writes. `won` is its answer
if it gets to write. -/
inductive Decision (υ : Type)
  | answer (answer : Answer υ)
  | swap (expected next : PauseRecord υ) (won : Answer υ)
  | setNew (next : PauseRecord υ) (ttlMs : Int)
deriving DecidableEq

/-- What a new pause does with the slot as it was read. -/
def decideInstall (record : PauseRecord υ) (existing : Option (PauseRecord υ))
    (now : Int) : Decision υ :=
  match existing with
  | none => .setNew record (max 1 (record.expiresAt - now))
  | some held =>
      if holdsTheSlot held now then .answer (.alreadyOpen (publicPauseOf held))
      else .swap held record (.opened (publicPauseOf record))

/-- What a look at the slot tells: an answerable pause, or nothing. -/
def decidePeek (existing : Option (PauseRecord υ)) (now : Int) : Decision υ :=
  .answer (.peeked ((existing.filter (isAnswerable · now)).map publicPauseOf))

/-- An answer that cannot mean anything is refused before the claim is
spent. -/
def decideClaim (interactions : Interactions υ) (interactionId : Text)
    (revision : Nat) (answer : υ) (existing : Option (PauseRecord υ))
    (now : Int) : Decision υ :=
  match existing with
  | none => .answer .gone
  | some record =>
      if record.interactionId ≠ interactionId ∨ record.status ≠ .«open» then
        .answer .gone
      else if isExpired record now then .answer .expired
      else if record.revision ≠ revision then
        .answer (.stale (publicPauseOf record))
      else
        match interactions record.kind with
        | none => .answer (.unknownKind record.kind)
        | some type =>
            match type.answer answer with
            | .error reason => .answer (.invalidAnswer reason)
            | .ok data =>
                match type.resolve data record.secret with
                | .unresolvable reason => .answer (.unresolvable reason)
                | .resolved value =>
                    .swap record { record with status := .claimed }
                      (.claimed { record with status := .claimed } value)

/-- A revision does not look at the deadline of what it revises. -/
def decideRevise (interactions : Interactions υ) (scope : PauseScope)
    (interactionId : Text) (next : Question υ)
    (existing : Option (PauseRecord υ)) (now : Int) : Decision υ :=
  match existing with
  | none => .answer .gone
  | some record =>
      if record.interactionId ≠ interactionId ∨ record.status ≠ .«open» then
        .answer .gone
      else
        match build interactions scope next record.interactionId
            (record.revision + 1) now with
        | .error answer => .answer answer
        | .ok built => .swap record built (.opened (publicPauseOf built))

/-- `dropOpenPause`, up to its compare-and-set. -/
def decideAbandon (interactionId : Text) (existing : Option (PauseRecord υ))
    (now : Int) : Decision υ :=
  match existing with
  | none => .answer .gone
  | some record =>
      if record.interactionId ≠ interactionId then .answer .gone
      else if record.status = .claimed then .answer .alreadyClaimed
      else if record.status ≠ .«open» then .answer .gone
      else .swap record
        { record with
          status := .cancelled
          expiresAt := min record.expiresAt (now + ABANDON_HOLD_MS) }
        .cancelled

/-- What giving a claim back does. The pause is open again under its revision.
-/
def decideRelease (interactionId : Text)
    (existing : Option (PauseRecord υ)) : Decision υ :=
  match existing with
  | none => .answer .gone
  | some record =>
      if record.interactionId ≠ interactionId ∨ record.status ≠ .claimed then
        .answer .gone
      else .swap record { record with status := .«open» } .released

/-- What a call does with the slot as it was read. -/
def Task.decide (interactions : Interactions υ) (task : Task υ)
    (existing : Option (PauseRecord υ)) (now : Int) : Decision υ :=
  match task with
  | .install record => decideInstall record existing now
  | .peek _ => decidePeek existing now
  | .claim _ interactionId revision answer =>
      decideClaim interactions interactionId revision answer existing now
  | .revise scope interactionId next =>
      decideRevise interactions scope interactionId next existing now
  | .abandon _ interactionId => decideAbandon interactionId existing now
  | .release _ interactionId => decideRelease interactionId existing

/-- What a task answers when its compare-and-set has lost; `install` and
`dropOpenPause` read again instead. -/
def Task.lost (task : Task υ) (expected : PauseRecord υ) :
    Option (Answer υ) :=
  match task with
  | .install _ | .abandon .. => none
  | .revise .. => some (.alreadyOpen (publicPauseOf expected))
  | .peek _ | .claim .. | .release .. => some .gone

/-- What a task answers when there is no pause. -/
def Task.absent : Task υ → Answer υ
  | .peek _ => .peeked none
  | _ => .gone

/-- What `install` and `dropOpenPause` answer after their last attempt, from
one more read. -/
def Task.lastAnswer (task : Task υ) (existing : Option (PauseRecord υ)) :
    Answer υ :=
  match task with
  | .install record => .alreadyOpen (publicPauseOf (existing.getD record))
  | .abandon _ interactionId =>
      match existing with
      | none => .gone
      | some last =>
          if last.interactionId ≠ interactionId then .gone else .alreadyClaimed
  | .peek _ | .claim .. | .revise .. | .release .. => task.absent

/-! ## What a decision tells

A call swaps the record that it was given, under its own key, and only after
the checks of its kind have passed. A decision that does not write has nothing
to report. -/

theorem build_eq_ok {interactions : Interactions υ} {scope : PauseScope}
    {input : Question υ} {interactionId : Text} {revision : Nat} {now : Int}
    {record : PauseRecord υ}
    (h : build interactions scope input interactionId revision now =
      .ok record) :
    record.interactionId = interactionId ∧ record.revision = revision ∧
      record.conversationId = scope.conversationId ∧
      record.bind = scope.bind ∧ record.status = .«open» ∧
      ∃ type, interactions input.kind = some type ∧
        record.expiresAt = now + type.ttlMs := by
  unfold build at h
  split at h
  · cases h
  · rename_i type htype
    split at h
    · cases h
    · cases h
      exact ⟨rfl, rfl, rfl, rfl, rfl, type, htype, rfl⟩

/-- The answers that come with a write. -/
def Answer.succeeded : Answer υ → Bool
  | .opened _ | .claimed .. | .released | .cancelled => true
  | _ => false

theorem build_error_not_succeeded {interactions : Interactions υ}
    {scope : PauseScope} {input : Question υ} {interactionId : Text}
    {revision : Nat} {now : Int} {answer : Answer υ}
    (h : build interactions scope input interactionId revision now =
      .error answer) : answer.succeeded = false := by
  unfold build at h
  split at h
  · cases h
    rfl
  · split at h
    · cases h
      rfl
    · cases h

/-- What a swap is for: the record it expects has passed the task's checks. -/
inductive Swaps (interactions : Interactions υ) :
    Task υ → PauseRecord υ → PauseRecord υ → Answer υ → Int → Prop
  | install {record held now} (hfree : holdsTheSlot held now = false) :
      Swaps interactions (.install record) held record
        (.opened (publicPauseOf record)) now
  | claim {scope interactionId revision answer record value now}
      (hopen : record.status = .«open»)
      (hid : record.interactionId = interactionId)
      (hrevision : record.revision = revision)
      (hunexpired : isExpired record now = false) :
      Swaps interactions (.claim scope interactionId revision answer) record
        { record with status := .claimed }
        (.claimed { record with status := .claimed } value) now
  | revise {scope interactionId next record built now}
      (hopen : record.status = .«open»)
      (hid : record.interactionId = interactionId)
      (hbuild : build interactions scope next record.interactionId
        (record.revision + 1) now = .ok built) :
      Swaps interactions (.revise scope interactionId next) record built
        (.opened (publicPauseOf built)) now
  | abandon {scope interactionId record now}
      (hopen : record.status = .«open»)
      (hid : record.interactionId = interactionId) :
      Swaps interactions (.abandon scope interactionId) record
        { record with
          status := .cancelled
          expiresAt := min record.expiresAt (now + ABANDON_HOLD_MS) }
        .cancelled now
  | release {scope interactionId record now}
      (hclaimed : record.status = .claimed)
      (hid : record.interactionId = interactionId) :
      Swaps interactions (.release scope interactionId) record
        { record with status := .«open» } .released now

theorem decideClaim_eq_swap {interactions : Interactions υ}
    {scope : PauseScope} {interactionId : Text} {revision : Nat} {answer : υ}
    {existing : Option (PauseRecord υ)} {now : Int}
    {expected next : PauseRecord υ} {won : Answer υ}
    (h : decideClaim interactions interactionId revision answer existing now =
      .swap expected next won) :
    existing = some expected ∧ Swaps interactions
      (.claim scope interactionId revision answer) expected next won now := by
  unfold decideClaim at h
  split at h
  · cases h
  · rename_i record
    split at h
    · cases h
    · rename_i hid
      rw [not_or, not_ne_iff, not_ne_iff] at hid
      split at h
      · cases h
      · rename_i hexpired
        split at h
        · cases h
        · rename_i hrevision
          split at h
          · cases h
          · split at h
            · cases h
            · split at h
              · cases h
              · cases h
                exact ⟨rfl, .claim hid.2 hid.1 (not_ne_iff.mp hrevision)
                  (by simpa using hexpired)⟩

/-- A task swaps the very record it was given, which has passed its checks. -/
theorem decide_eq_swap {interactions : Interactions υ} {task : Task υ}
    {existing : Option (PauseRecord υ)} {now : Int}
    {expected next : PauseRecord υ} {won : Answer υ}
    (h : task.decide interactions existing now = .swap expected next won) :
    existing = some expected ∧
      Swaps interactions task expected next won now := by
  cases task with
  | install record =>
      simp only [Task.decide, decideInstall] at h
      split at h
      · cases h
      · split at h
        · cases h
        · rename_i hfree
          cases h
          exact ⟨rfl, .install (by simpa using hfree)⟩
  | peek scope => cases h
  | claim scope interactionId revision answer =>
      exact decideClaim_eq_swap h
  | revise scope interactionId question =>
      simp only [Task.decide, decideRevise] at h
      split at h
      · cases h
      · split at h
        · cases h
        · rename_i hid
          rw [not_or, not_ne_iff, not_ne_iff] at hid
          split at h
          · cases h
          · rename_i hbuild
            cases h
            exact ⟨rfl, .revise hid.2 hid.1 hbuild⟩
  | abandon scope interactionId =>
      simp only [Task.decide, decideAbandon] at h
      split at h
      · cases h
      · split at h
        · cases h
        · rename_i hid
          split at h
          · cases h
          · split at h
            · cases h
            · rename_i hopen
              cases h
              exact ⟨rfl, .abandon (not_ne_iff.mp hopen) (not_ne_iff.mp hid)⟩
  | release scope interactionId =>
      simp only [Task.decide, decideRelease] at h
      split at h
      · cases h
      · split at h
        · cases h
        · rename_i hid
          rw [not_or, not_ne_iff, not_ne_iff] at hid
          cases h
          exact ⟨rfl, .release hid.2 hid.1⟩

/-- Only an install sets a key, and it sets it to its own record. -/
theorem decide_eq_setNew {interactions : Interactions υ} {task : Task υ}
    {existing : Option (PauseRecord υ)} {now : Int} {next : PauseRecord υ}
    {ttlMs : Int}
    (h : task.decide interactions existing now = .setNew next ttlMs) :
    task = .install next ∧ ttlMs = max 1 (next.expiresAt - now) := by
  cases task with
  | install record =>
      simp only [Task.decide, decideInstall] at h
      split at h
      · cases h
        exact ⟨rfl, rfl⟩
      · split at h <;> cases h
  | peek scope => cases h
  | claim scope interactionId revision answer =>
      simp only [Task.decide, decideClaim] at h
      repeat' split at h
      all_goals cases h
  | revise scope interactionId question =>
      simp only [Task.decide, decideRevise] at h
      repeat' split at h
      all_goals cases h
  | abandon scope interactionId =>
      simp only [Task.decide, decideAbandon] at h
      repeat' split at h
      all_goals cases h
  | release scope interactionId =>
      simp only [Task.decide, decideRelease] at h
      repeat' split at h
      all_goals cases h

/-- A decision that answers writes nothing; without a pause it is the answer
for an absent one. -/
theorem decide_eq_answer {interactions : Interactions υ} {task : Task υ}
    {existing : Option (PauseRecord υ)} {now : Int} {answer : Answer υ}
    (h : task.decide interactions existing now = .answer answer) :
    answer.succeeded = false ∧ (existing = none → answer = task.absent) := by
  cases task with
  | install record =>
      simp only [Task.decide, decideInstall] at h
      split at h
      · cases h
      · split at h
        · cases h
          exact ⟨rfl, fun h => nomatch h⟩
        · cases h
  | peek scope =>
      cases h
      exact ⟨rfl, fun hnone => hnone ▸ rfl⟩
  | claim scope interactionId revision answer =>
      simp only [Task.decide, decideClaim] at h
      split at h
      · cases h
        exact ⟨rfl, fun _ => rfl⟩
      · repeat' split at h
        all_goals cases h
        all_goals exact ⟨rfl, fun h => nomatch h⟩
  | revise scope interactionId question =>
      simp only [Task.decide, decideRevise] at h
      split at h
      · cases h
        exact ⟨rfl, fun _ => rfl⟩
      · split at h
        · cases h
          exact ⟨rfl, fun h => nomatch h⟩
        · split at h
          · rename_i hbuild
            cases h
            exact ⟨build_error_not_succeeded hbuild, fun h => nomatch h⟩
          · cases h
  | abandon scope interactionId =>
      simp only [Task.decide, decideAbandon] at h
      split at h
      · cases h
        exact ⟨rfl, fun _ => rfl⟩
      · repeat' split at h
        all_goals cases h
        all_goals exact ⟨rfl, fun h => nomatch h⟩
  | release scope interactionId =>
      simp only [Task.decide, decideRelease] at h
      split at h
      · cases h
        exact ⟨rfl, fun _ => rfl⟩
      · split at h
        · cases h
          exact ⟨rfl, fun h => nomatch h⟩
        · cases h

theorem lastAnswer_none {task : Task υ} {scope : PauseScope}
    (h : scope ∈ task.scope?) : task.lastAnswer none = task.absent := by
  cases task with
  | install record => cases h
  | _ => rfl

theorem conversationId_of_scope {task : Task υ} {scope : PauseScope}
    (h : scope ∈ task.scope?) :
    task.conversationId = scope.conversationId := by
  cases task with
  | install record => cases h
  | _ => cases h; rfl

theorem Swaps.won_succeeded {interactions : Interactions υ} {task : Task υ}
    {expected next : PauseRecord υ} {won : Answer υ} {now : Int}
    (h : Swaps interactions task expected next won now) :
    won.succeeded = true := by
  cases h <;> rfl

theorem sees_eq_some {task : Task υ} {held : Option (PauseRecord υ)}
    {record : PauseRecord υ} (h : task.sees held = some record) :
    held = some record ∧ ∀ scope ∈ task.scope?, record.bind = scope.bind := by
  unfold Task.sees at h
  split at h
  · rename_i hscope
    exact ⟨h, fun scope hmem => by rw [hscope] at hmem; cases hmem⟩
  · rename_i scope hscope
    obtain ⟨hheld, hbind⟩ := Option.filter_eq_some_iff.mp h
    refine ⟨hheld, fun scope' hmem => ?_⟩
    rw [hscope] at hmem
    cases hmem
    exact of_decide_eq_true hbind

end Shozee.Pause
