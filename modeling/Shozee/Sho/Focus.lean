import Mathlib.Data.List.Sort
import Mathlib.Data.List.Infix
import Shozee.Run.Lookup
import Shozee.Sho.References

/-!
# References to the records in focus

The host passes the records that the conversation has touched, newest first,
and `withFocus` gives the params of a command those that its reference words
point at. The card asks where the words do not say one record.

Three ways lead to a record: a reference word said for a param, an order said
on after the order that was just created (`continued`), and a bare verb, which
becomes the verb's action for the record's type (`byFocusType`).

Of a bundle there is what these read; a marker is an entry without an id, for
records that the host has no id for.
-/

namespace Shozee.Sho

open Shozee.Run

/-! ## Bundles and commands

The catalogue of intents with their params, and a command with the refs and
needs that it has already. -/

/-- What the catalogue says that an action does; only some kinds act on a
record. -/
inductive IntentKind
  | nav
  | read
  | write
  | high
  | ui
  | none
  | readModifier
deriving DecidableEq, Repr

/-- An intent, with its params in their order. -/
structure Intent where
  kind : IntentKind
  params : List (String × String)
deriving DecidableEq, Repr

/-- The catalogue of intents that a release of the model was trained with. -/
structure Bundle where
  catalogue : Option String
  intents : String → Option Intent
  listTypes : String → Option String

/-- A decision names an action that the catalogue does not have. -/
inductive BundleError
  | labelsIntents (message : String)
deriving DecidableEq, Repr

/-- The first catalogue whose reads take a focus. -/
def CATALOGUE_V3 : String := "v3"

/-- Whether a bundle is of that catalogue; another one leaves a decision as it
is. -/
def isV3 (bundle : Bundle) : Prop := bundle.catalogue = some CATALOGUE_V3

instance (bundle : Bundle) : Decidable (isV3 bundle) :=
  inferInstanceAs (Decidable (_ = _))

/-- The intent of an action. A missing one is an error of the bundle and not of
the text. -/
def intentOfAction (bundle : Bundle) (action : String) :
    Except BundleError Intent :=
  match bundle.intents action with
  | none => .error (.labelsIntents ("action " ++ action ++ " has no intent"))
  | some intent => .ok intent

/-- The params that an intent declares, in its order. -/
def Intent.paramNames (intent : Intent) : List String := intent.params.map (·.1)

/-- `intent.params[name] ?? ""`. -/
def Intent.declared (intent : Intent) (name : String) : String :=
  (intent.params.lookup name).getD ""

/-- How sure a reference to a record is, and what it was read from. -/
inductive RefStatus
  | resolved
  | ambiguous
  | unknown
  | unchecked
  | previous
  | context
deriving DecidableEq, Repr

/-- A record that a reference may mean. -/
structure RefCandidate where
  id : String
  name : String
deriving DecidableEq, Repr

/-- The index of the entry, or that the candidates are entries. -/
inductive RefFocus
  | index (at_ : ℕ)
  | several
deriving DecidableEq, Repr

/-- A reference in a decision: the text that was said, and the record it stands
for. -/
structure Ref where
  text : String
  status : RefStatus
  id : Option String
  name : Option String
  candidates : List RefCandidate
  focus : Option RefFocus
deriving DecidableEq, Repr

/-- What a param is: refs, or something else that is not read here. -/
inductive Param (P : Type)
  | one (ref : Ref)
  | several (refs : List Ref)
  | other (value : P)
deriving DecidableEq, Repr

/-- Why a decision asks before it acts. -/
inductive NeedReason
  | ambiguous
  | readAsUpdate
  | reference
  | readAsFocusType
  | checkReference
  | other (reason : String)
deriving DecidableEq, Repr

/-- A need, with the text of its span. -/
structure Need where
  path : String
  reason : NeedReason
  blocking : Bool
  span : Option String
deriving DecidableEq, Repr

/-- A text, or a list of texts and of order lines. -/
inductive ParamValue (L : Type)
  | text (text : String)
  | list (items : List (String ⊕ L))
deriving DecidableEq, Repr

/-- Whether a value is a list of order lines. -/
def isLines {L : Type} : ParamValue L → Bool
  | .text _ => false
  | .list items => items.all Sum.isRight

/-- What is read and changed of a command, with the texts of its spans. -/
structure Decision (L P : Type) where
  text : String
  action : String
  params : List (String × ParamValue L)
  refPrevious : List (String × ℕ)
  spans : List String
  fromPrevious : Option (Dict String (Param P))
  focusNeeds : Option (List Need)
  focusPaths : Option (List String)

variable {L P : Type}

/-- The refs, and none if there is no record of them. -/
def Decision.refs (decision : Decision L P) : Dict String (Param P) :=
  decision.fromPrevious.getD Dict.empty

/-- The questions of a decision that the focus raised. -/
def Decision.needs (decision : Decision L P) : List Need :=
  decision.focusNeeds.getD []

/-- The params that the focus filled. -/
def Decision.paths (decision : Decision L P) : List String :=
  decision.focusPaths.getD []

/-! ## Entries

What the host passes: records, and markers that say how far the talk has moved
on. -/

/-- How a record came into focus. A record that was only opened was not said.
-/
inductive FocusHow
  | created
  | opened
  | shown
  | named
  | listed
deriving DecidableEq, Repr

/-- A record in focus, as the client sends it: what it is, how it came there
and how long ago. -/
structure FocusEntry where
  type : FocusType
  id : String
  name : String
  how : FocusHow
  turns : Option ℕ
  said : Option Bool
  earlier : Option Bool
  closed : Option Bool
  screen : Option Bool
  gender : Option Gender
  customer : Option String
  customerName : Option String
deriving DecidableEq, Repr

/-- An entry is live for this many turns. -/
def FOCUS_LIVE : ℕ := 2

/-- From this many turns on, a newer entry takes a pronoun from an older one.
-/
def SUPERSEDED : ℕ := 2

/-- Entries after the first eight are not looked at. -/
def MOST_FOCUS : ℕ := 8

/-- The gender of the noun that a record's type is called by. People have their
own. -/
def TYPE_GENDER : FocusType → Option Gender
  | .group => some .feminine
  | .order | .priceList => some .masculine
  | .customer | .product | .counterparty => none

/-- Intents of these kinds act on no record, so nothing is claimed for them. -/
def NO_RECORD_KINDS : List IntentKind := [.nav, .ui, .none]

/-- The action that makes an order. -/
def ORDER_CREATE : String := "orders.create"

/-- The action that changes an order, which a list of lines may turn out to be.
-/
def ORDER_UPDATE : String := "orders.update"

/-- The param that names the order to change. -/
def ORDER_NUMBER : String := "order_number"

/-- The param that takes order lines. -/
def ITEMS : String := "items"

/-- The path of a need that is about the action as a whole. -/
def ACTION : String := "action"

/-- The word for "there", which may also be said of no record at all. -/
def LOOSE_PLACE : String := "там"

/-- The action that narrows what is on the screen. -/
def REFINE : String := "ui.refine"

/-- An entry, where it is in the list, and whether it is the first of its
type. -/
structure Candidate where
  index : ℕ
  entry : FocusEntry
  newest : Bool
deriving DecidableEq, Repr

/-- What the focus holds: the records, and the markers that stand between them.
-/
structure Held where
  records : List Candidate
  markers : List Candidate

/-- A marker is an entry without an id. -/
def isMarker (entry : FocusEntry) : Bool := entry.id = ""

/-- The round of `heldOf` for an entry and its index. The keys are those of the
records so far. -/
def Held.add (held : Held) (entry : FocusEntry) (index : ℕ) : Held :=
  if isMarker entry then
    { held with markers := held.markers ++ [⟨index, entry, false⟩] }
  else if held.records.any fun seen =>
      seen.entry.type = entry.type && seen.entry.id = entry.id then held
  else
    let newest := !held.records.any fun seen => seen.entry.type = entry.type
    { held with records := held.records ++ [⟨index, entry, newest⟩] }

/-- The entries sorted into records and markers, each with its place in the
focus. -/
def heldOf (focus : List FocusEntry) : Held :=
  (focus.take MOST_FOCUS).zipIdx.foldl
    (fun held (entry, index) => held.add entry index) ⟨[], []⟩

/-- Whether an entry was said; the client may say so itself, else all but the
opened ones were. -/
def saidOf (entry : FocusEntry) : Bool :=
  entry.said.getD (entry.how ≠ .opened)

/-- How far an entry may be taken without a question. -/
inductive Tier
  | live
  | shadow
  | offer
deriving DecidableEq, Repr

/-- The tier of a candidate. An entry of an earlier conversation is only
offered; what is on the screen is live whatever its age. -/
def tierOf (candidate : Candidate) : Tier :=
  let entry := candidate.entry
  if entry.earlier = some true then .offer
  else if entry.screen = some true then .live
  else
    match entry.turns with
    | none => if candidate.newest then .live else .shadow
    | some turns =>
        if !saidOf entry then .offer
        else if turns ≤ FOCUS_LIVE then .live
        else .offer

/-- The gender that pronouns of an entry have: its own, a person's by the name,
or the type's. -/
def genderOf (lower : String → String) (entry : FocusEntry) : Option Gender :=
  match entry.gender with
  | some gender => some gender
  | none =>
      if entry.type = .customer ∨ entry.type = .counterparty then
        nameGender lower entry.name
      else TYPE_GENDER entry.type

/-- A pronoun form agrees with an entry unless both have a gender and these
differ. -/
def agrees (lower : String → String) (form : Option PronounForm)
    (entry : FocusEntry) : Bool :=
  match form.bind (·.gender) with
  | none => true
  | some gender =>
      genderOf lower entry = none || genderOf lower entry = some gender

/-- A closed record is only bound for an action that restores one. -/
def restorable (entry : FocusEntry) (action : String) : Bool :=
  entry.closed ≠ some true || action ∈ RESTORES

/-! ## Reference words

A word may be a description of a record or stand alone. Descriptions are found
first, and their words are not used again. -/

/-- The kinds of reference words, told apart by the case they stand in. -/
inductive Kind
  | this
  | new
  | container
  | dative
  | object
  | prepositional
deriving DecidableEq, Repr

/-- A reference word as it was read, with the type and form that it fixes. -/
structure Reference where
  kind : Kind
  text : String
  type : Option FocusType
  form : Option PronounForm
  here : Bool
deriving DecidableEq, Repr

/-- The type that a noun stands for, by its stem. -/
def nounType (word : Option String) : Option FocusType :=
  word.bind fun word =>
    (FOCUS_NOUNS.find? fun (stem, _) => startsWith word stem).map (·.2)

/-- Whether a phrase lies in a text that the decision has taken for something
else. -/
def spanned (lower : String → String) (decision : Decision L P)
    (phrase : String) : Bool :=
  decision.spans.any fun text =>
    includes (" " ++ lower text ++ " ") (" " ++ phrase ++ " ")

/-- The type of record that the word describes with the noun after it. -/
def describes (words : List String) (at_ : ℕ) : Option FocusType :=
  if words[at_]?.any fun word => word ∈ FOCUS_THIS || word ∈ FOCUS_NEW then
    nounType words[at_ + 1]?
  else none

/-- The word is part of a description. -/
def used (words : List String) (at_ : ℕ) : Bool :=
  (describes words at_).isSome ||
    (at_ ≠ 0 && (describes words (at_ - 1)).isSome)

/-- A description such as "this order", read at a word unless that text is
taken already. -/
def description (lower : String → String) (decision : Decision L P)
    (words : List String) (at_ : ℕ) : Option Reference := do
  let type ← describes words at_
  let word ← words[at_]?
  let noun ← words[at_ + 1]?
  let text := word ++ " " ++ noun
  if spanned lower decision text then none
  else
    some ⟨if word ∈ FOCUS_NEW then .new else .this, text, some type, none,
      false⟩

/-- The reference that a word is which no description holds. -/
def wordReference (lower : String → String) (decision : Decision L P)
    (words : List String) (at_ : ℕ) : Option Reference := do
  let word ← words[at_]?
  if used words at_ then none
  else if word ∈ BARE_NOUN_DEICTICS then
    if spanned lower decision word then none
    else some ⟨.this, word, some .customer, none, false⟩
  else if word ∈ FOCUS_CONTAINERS then
    if spanned lower decision word then none
    else some ⟨.container, word, none, none, word ∈ FOCUS_HERE⟩
  else
    let form ← PRONOUN_FORMS word
    if form.plural ∨ spanned lower decision word then none
    else if form.dative then some ⟨.dative, word, none, some form, false⟩
    else
      match if at_ = 0 then none else words[at_ - 1]? with
      | none => some ⟨.object, word, none, some form, false⟩
      | some before =>
          if before ∈ FOCUS_PREPOSITIONS ∧ used words (at_ - 1) = false then
            some ⟨.prepositional, before ++ " " ++ word, none, some form, false⟩
          else some ⟨.object, word, none, some form, false⟩

/-- The descriptions first, then the places, then the pronouns, each as said. -/
def referencesOf (lower : String → String) (decision : Decision L P) :
    List Reference :=
  let words := splitWords (lower decision.text)
  let ats := List.range words.length
  let others := ats.filterMap (wordReference lower decision words)
  ats.filterMap (description lower decision words) ++
    (others.filter (·.kind = .this) ++
      (others.filter (·.kind = .container) ++
        others.filter fun reference =>
          reference.kind ≠ .this && reference.kind ≠ .container))

/-! ## Which entry a reference binds

What competes is taken in turn by what was said, by what has been superseded
and by what is preferred. A single one is bound and several are asked about. -/

/-- What comes of a reference: an entry is bound, offered, or asked for, or
there is none. -/
inductive Resolution
  | bind (candidate : Candidate)
  | offer (candidate : Candidate)
  | ask (candidates : List Candidate)
  | none
deriving DecidableEq, Repr

/-- A pronoun or a place word, no description. -/
def Reference.pronoun (reference : Reference) : Bool :=
  reference.kind ≠ .this && reference.kind ≠ .new

/-- Whether a newer entry of its type, also said, takes a pronoun from this
candidate. -/
def superseded (reference : Reference) (said : List Candidate)
    (candidate : Candidate) : Bool :=
  match candidate.entry.turns with
  | none => false
  | some turns =>
      if !reference.pronoun || turns < SUPERSEDED then false
      else
        said.any fun other =>
          other.entry.type = candidate.entry.type &&
            other.entry.turns.any fun otherTurns => otherTurns < turns

/-- The candidates that were said and that nothing newer takes the word from.
-/
def saidAmong (reference : Reference) (competing : List Candidate) :
    List Candidate :=
  let saidAll := competing.filter fun candidate => saidOf candidate.entry
  saidAll.filter fun candidate => !superseded reference saidAll candidate

/-- The candidates that stand for a word: the ones that were said with what the
screen shows of later ones, or all others where none was said. -/
def standingOf (reference : Reference) (competing : List Candidate) :
    List Candidate :=
  match saidAmong reference competing with
  | [] => competing.filter fun candidate => !saidOf candidate.entry
  | first :: rest =>
      let newestSaid := (rest.map (·.index)).foldl min first.index
      first :: rest ++ competing.filter fun candidate =>
        !saidOf candidate.entry && candidate.entry.screen = some true &&
          candidate.index < newestSaid

/-- Among the standing ones, those that the word itself asks for: newly created
ones, or what is here. -/
def preferredOf (reference : Reference) (standing : List Candidate) :
    List Candidate :=
  if reference.kind = .new then
    standing.filter fun candidate => candidate.entry.how = .created
  else if reference.kind = .this ∨ reference.here = true then
    standing.filter fun candidate => candidate.entry.screen = some true
  else []

/-- When nothing competes. The others are those after the best. -/
def resolveOffered : List Candidate → Resolution
  | [] => .none
  | best :: others =>
      let alike := others.filter fun candidate =>
        candidate.entry.earlier = best.entry.earlier &&
          candidate.entry.turns.isSome &&
            candidate.entry.turns = best.entry.turns
      if alike = [] then .offer best else .ask (best :: alike)

/-- The resolution of a reference among the entries that fit it. Entries that
may only be offered do not compete. -/
def resolve (fits markers : List Candidate) (reference : Reference) :
    Resolution :=
  let competing := fits.filter fun candidate => tierOf candidate ≠ .offer
  let standing := standingOf reference competing
  let preferred := preferredOf reference standing
  let chosen := if preferred = [] then standing else preferred
  match chosen with
  | [only] =>
      let markedSince := markers.any fun marker =>
        marker.entry.type = only.entry.type && marker.index < only.index
      let unsure := tierOf only = .shadow && standing.length = 1
      if unsure || markedSince then .offer only else .bind only
  | [] =>
      resolveOffered (fits.filter fun candidate => tierOf candidate = .offer)
  | several =>
      .ask (several.mergeSort fun left right => left.index ≤ right.index)

/-- The ref that a resolution gives, and the blocking need that it raises, at
the need's path. -/
def bound (resolution : Resolution) (text path : String) :
    Option (Ref × Option Need) :=
  let refTo (candidate : Candidate) : Ref :=
    { text
      status := .context
      id := some candidate.entry.id
      name := if candidate.entry.name = "" then none
        else some candidate.entry.name
      candidates := []
      focus := some (.index candidate.index) }
  match resolution with
  | .none => none
  | .ask candidates =>
      some
        ({ text
           status := .ambiguous
           id := none
           name := none
           candidates := candidates.map fun candidate =>
             ⟨candidate.entry.id, candidate.entry.name⟩
           focus := some .several },
          some ⟨path, .ambiguous, true, none⟩)
  | .offer candidate =>
      some (refTo candidate, some ⟨path, .checkReference, true, some text⟩)
  | .bind candidate => some (refTo candidate, none)

/-! ## An order said on

«Ще» before nothing but order lines goes on with the order that was just
created. -/

/-- How many words lead up to «ще», two at most. -/
def leads (words : List String) : ℕ :=
  ((words.take 2).takeWhile (· ∈ CONTINUATION_LEADS)).length

/-- The command has order lines and nothing else. -/
def onlyItems (decision : Decision L P) : Bool :=
  match decision.params with
  | [(name, value)] =>
      name = ITEMS && isLines value && decision.refPrevious = []
  | _ => false

/-- The previous command of this conversation touched the order, or it is the
first entry of a host without turns. -/
def isTouched (order : Candidate) : Bool :=
  order.entry.earlier ≠ some true &&
    match order.entry.turns with
    | none => order.index = 0
    | some turns => turns = 0

/-- A list of lines said on after an order is in focus is a change of that
order. -/
def continued (bundle : Bundle) (decision : Decision L P) (held : Held) :
    Option (Decision L P) := do
  let update ← bundle.intents ORDER_UPDATE
  if decision.action ≠ ORDER_CREATE ∧ decision.action ≠ ORDER_UPDATE then none
  else if ORDER_NUMBER ∉ update.paramNames ∨ ITEMS ∉ update.paramNames then none
  else if !onlyItems decision then none
  else
    let words := splitWords decision.text
    let at_ := leads words
    if !(words[at_]?.any fun word => word ∈ CONTINUATION_MORE) then none
    else
      let order ← held.records.find? (·.entry.type = .order)
      if order.entry.how ≠ .created ∨ order.entry.closed = some true then none
      else
        let now := isTouched order
        let cue := String.intercalate " " (words.take (at_ + 1))
        let ref : Ref :=
          { text := cue
            status := .context
            id := some order.entry.id
            name := some order.entry.name
            candidates := []
            focus := some (.index order.index) }
        let checks : List Need :=
          if now then []
          else [⟨ORDER_NUMBER, .checkReference, true, some cue⟩]
        let needs : List Need :=
          if decision.action = ORDER_UPDATE then checks
          else ⟨ACTION, .readAsUpdate, false, some cue⟩ :: checks
        some { decision with
          action := ORDER_UPDATE
          fromPrevious := some (Dict.empty.set ORDER_NUMBER (.one ref))
          focusNeeds := some needs
          focusPaths := some [ORDER_NUMBER] }

/-! ## A verb said of a record

A verb that several types share is read for the type of the record that is
chosen. -/

/-- The type that a declared type or the item of a list is. -/
def paramType (bundle : Bundle) (declared : String) : Option FocusType :=
  FOCUS_PARAM_TYPES ((bundle.listTypes declared).getD declared)

/-- The type of record that a param of an intent takes. -/
def recordType (bundle : Bundle) (intent : Intent) (name : String) :
    Option FocusType :=
  paramType bundle (intent.declared name)

/-- Whether a param takes several records. -/
def isListed (bundle : Bundle) (intent : Intent) (name : String) : Bool :=
  (bundle.listTypes (intent.declared name)).isSome

/-- The params that take a record. -/
def recordParams (bundle : Bundle) (intent : Intent) : List String :=
  intent.paramNames.filter fun name => (recordType bundle intent name).isSome

/-- The path of a param's need. -/
def pathOf (bundle : Bundle) (intent : Intent) (name : String) : String :=
  if isListed bundle intent name then name ++ "[0]" else name

/-- The value of a param that one reference fills. -/
def paramOf (bundle : Bundle) (intent : Intent) (name : String) (ref : Ref) :
    Param P :=
  if isListed bundle intent name then .several [ref] else .one ref

/-- The family of verbs that a text has: a phrase first, then the first verb
among its words. -/
def verbOf (words : List String) : Option Family :=
  let text := " " ++ String.intercalate " " words ++ " "
  match FOCUS_ARCHIVE_PHRASES.find? fun (phrase, _) =>
      includes text (" " ++ phrase ++ " ") with
  | some place => some place.2
  | none =>
      words.findSome? fun word =>
        (FOCUS_VERBS word).or (if word ∈ RENAME_VERBS then some .rename else none)

/-- The command has the param, or takes it from an earlier one. -/
def Decision.has (decision : Decision L P) (name : String) : Bool :=
  name ∈ decision.params.map (·.1) || name ∈ decision.refPrevious.map (·.1)

/-- What `byFocusType` makes of the resolution. -/
def typedAs (bundle : Bundle) (decision : Decision L P) (intent : Intent)
    (family : Family) (reference : Reference) (resolution : Resolution) :
    Except BundleError (Option (Decision L P)) :=
  let asks (reason : NeedReason) : Option (Decision L P) :=
    some { decision with
      focusNeeds := some [⟨ACTION, reason, true, some reference.text⟩]
      focusPaths := some (ACTION :: recordParams bundle intent) }
  let referents :=
    match resolution with
    | .none => []
    | .ask candidates => candidates
    | .offer candidate | .bind candidate => [candidate]
  match (referents.map (·.entry.type)).eraseDups with
  | [] => .ok none
  | _ :: _ :: _ => .ok (asks .ambiguous)
  | [type] =>
      match FAMILIES family type with
      | none => .ok (asks .reference)
      | some member =>
          if (bundle.intents member).isNone then .ok (asks .reference)
          else do
            let target ← intentOfAction bundle member
            if member = decision.action ∨
                ¬ decision.params.all (·.1 ∈ target.paramNames) then
              return none
            match target.paramNames.find? fun name =>
                recordType bundle target name = some type with
            | none => return none
            | some slot =>
                match bound resolution reference.text
                    (pathOf bundle target slot) with
                | none => return none
                | some (ref, need) =>
                    return some { decision with
                      action := member
                      fromPrevious := some (decision.refs.set slot
                        (paramOf bundle target slot ref))
                      focusNeeds := some
                        (⟨ACTION, .readAsFocusType, false,
                          some reference.text⟩ :: need.toList)
                      focusPaths := some (recordParams bundle target) }

/-- The command as the verb's action for the type of the record, or as a
question, with the reference that was read. -/
def byFocusType (lower : String → String) (bundle : Bundle)
    (decision : Decision L P) (held : Held) (references : List Reference) :
    Except BundleError (Option (Decision L P × Reference)) :=
  match references with
  | [reference] => do
      let words := splitWords (lower decision.text)
      if words.any fun word => (nounType (some word)).isSome then return none
      let verb := verbOf words
      let edited := decision.params.map (·.1)
      let edit := verb = none ∧ edited ≠ [] ∧ edited.all (· ∈ EDITED)
      if verb = none ∧ ¬ edit then return none
      if ¬ (reference.kind = .object ∨ (edit ∧ reference.kind = .dative)) then
        return none
      let family := verb.getD .edit
      if !family.has decision.action then return none
      let intent ← intentOfAction bundle decision.action
      if (recordParams bundle intent).any decision.has then return none
      let restoring := verb = some .restore
      let fits := held.records.filter fun candidate =>
        agrees lower reference.form candidate.entry &&
          (verb.isSome || (FAMILIES family candidate.entry.type).isSome) &&
          (candidate.entry.closed ≠ some true || restoring)
      let typed ← typedAs bundle decision intent family reference
        (resolve fits held.markers reference)
      return typed.map (·, reference)
  | _ => .ok none

/-! ## References said for a param

The loop over the reference words, each of which is offered to the open params
in their order. -/

/-- The refs, the needs, and the params that are spoken for. -/
structure Claims (P : Type) where
  refs : Dict String (Param P)
  needs : List Need
  claimed : List String

/-- A param is claimed once. -/
def Claims.claim (claims : Claims P) (name : String) : Claims P :=
  if name ∈ claims.claimed then claims
  else { claims with claimed := claims.claimed ++ [name] }

/-- A question is added after the ones raised before. -/
def Claims.need (claims : Claims P) (need : Need) : Claims P :=
  { claims with needs := claims.needs ++ [need] }

/-- An order's customer as an entry. -/
def customerEntry (order : FocusEntry) (customer : String) : FocusEntry where
  type := .customer
  id := customer
  name := order.customerName.getD ""
  how := order.how
  turns := order.turns
  said := order.said
  earlier := if order.earlier = some true then some true else none
  closed := none
  screen := if order.screen = some true then some true else none
  gender := none
  customer := none
  customerName := none

/-- The round of the loop for a record: a customer that is not yet known. -/
def addCustomer (known : List Candidate) (candidate : Candidate) :
    List Candidate :=
  match candidate.entry.customer with
  | none => known
  | some customer =>
      if candidate.entry.type ≠ .order ∨ candidate.entry.closed = some true ∨
          customer ∈ known.map (·.entry.id) then known
      else
        known ++ [⟨candidate.index, customerEntry candidate.entry customer,
          known = []⟩]

/-- The customers of the orders in focus, each with its first order. -/
def orderCustomers (held : Held) : List Candidate :=
  held.records.foldl addCustomer []

section Claiming

variable (lower : String → String) (bundle : Bundle) (intent : Intent)
  (decision : Decision L P) (held : Held)

/-- The entries that fit a param: its type, the pronoun's gender, and not
closed unless the action restores. A customer param may take the customer of an
order in focus. -/
def fitting (name : String) (reference : Reference) : List Candidate :=
  let type := recordType bundle intent name
  let fits := held.records.filter fun candidate =>
    some candidate.entry.type = type &&
      agrees lower reference.form candidate.entry &&
      restorable candidate.entry decision.action
  if fits ≠ [] ∨ type ≠ some .customer then fits else orderCustomers held

/-- The params that a reference may be said for, taken or not. -/
def wanted (reference : Reference) : List String :=
  let slots := recordParams bundle intent
  match reference.kind with
  | .this | .new =>
      slots.filter fun name => recordType bundle intent name = reference.type
  | .container => FOCUS_CONTAINER_PARAMS.filter (· ∈ intent.paramNames)
  | .dative =>
      let people := slots.filter fun name =>
        recordType bundle intent name = some .customer
      if people = [] then slots else people
  | .object | .prepositional => slots

/-- A param is open while nothing gives it. -/
def isOpen (claimed : List String) (name : String) : Bool :=
  !decision.has name && !claimed.contains name

/-- The open ones, in the order they are filled: a pronoun said as the object is
the record the action is on, if that is open. -/
def targets (claimed : List String) (reference : Reference) : List String :=
  let free := (wanted bundle intent reference).filter
    (isOpen decision claimed)
  if reference.kind = .object then
    match recordParams bundle intent with
    | primary :: _ => if isOpen decision claimed primary then [primary] else free
    | [] => free
  else free

/-- A dative pronoun or a place word said to a command that takes no record it
could be. -/
def unplaced (reference : Reference) : Bool :=
  if reference.kind = .dative then
    !(recordParams bundle intent).any fun name =>
      recordType bundle intent name = some .customer
  else
    reference.kind = .container && reference.text ≠ LOOSE_PLACE &&
      !FOCUS_CONTAINER_PARAMS.any (· ∈ intent.paramNames)

/-- The round of the loop for a reference. -/
def claimFor (claims : Claims P) (reference : Reference) : Claims P :=
  match targets bundle intent decision claims.claimed reference with
  | [] =>
      if unplaced bundle intent reference ∧ ACTION ∉ claims.claimed then
        (claims.claim ACTION).need
          ⟨ACTION, .reference, true, some reference.text⟩
      else claims
  | first :: rest =>
      match (first :: rest).find? fun name =>
          fitting lower bundle intent decision held name reference ≠ [] with
      | none =>
          if reference.text = LOOSE_PLACE then claims
          else
            (claims.claim first).need
              ⟨first, .reference, true, some reference.text⟩
      | some target =>
          let fits := fitting lower bundle intent decision held target reference
          match bound (resolve fits held.markers reference) reference.text
              (pathOf bundle intent target) with
          | none =>
              (claims.claim target).need
                ⟨target, .reference, true, some reference.text⟩
          | some (ref, need) =>
              let claims := claims.claim target
              { claims with
                refs := claims.refs.set target
                  (paramOf bundle intent target ref)
                needs := claims.needs ++ need.toList }

end Claiming

/-- The params that are spoken for at first, once each. -/
def Decision.claims (decision : Decision L P) : Claims P :=
  decision.paths.foldl Claims.claim ⟨decision.refs, decision.needs, []⟩

/-- `byFocusType`, for an action that takes records. -/
def typedOf (lower : String → String) (bundle : Bundle)
    (going : Decision L P) (held : Held) :
    Except BundleError (Option (Decision L P × Reference)) := do
  let intent ← intentOfAction bundle going.action
  if intent.kind ∈ NO_RECORD_KINDS then return none
  else byFocusType lower bundle going held (referencesOf lower going)

/-- The references of the words, but for the one that the verb was read with. -/
def unreadOf (lower : String → String) (decision : Decision L P)
    (read : Option Reference) : List Reference :=
  (referencesOf lower decision).filter fun reference =>
    !read.any fun read => reference.text = read.text

/-- The decision with what was claimed for it, unchanged if that is nothing. -/
def Decision.withClaims (decision : Decision L P) (claims : Claims P) :
    Decision L P :=
  if claims.claimed = [] then decision
  else
    { decision with
      fromPrevious := some claims.refs
      focusNeeds := some claims.needs
      focusPaths := some claims.claimed }

/-- The claims for every reference of a decision that is not read yet. -/
def claimAll (lower : String → String) (bundle : Bundle) (held : Held)
    (decision : Decision L P) (read : Option Reference) :
    Except BundleError (Decision L P) := do
  let intent ← intentOfAction bundle decision.action
  if intent.kind ∈ NO_RECORD_KINDS then return decision
  else
    return decision.withClaims ((unreadOf lower decision read).foldl
      (claimFor lower bundle intent decision held) decision.claims)

/-- The refs that the focus gives the reference words of a command, by param,
the needs that they raise, and the params that they claim. -/
def withFocus (lower : String → String) (bundle : Bundle)
    (given : Decision L P) (focus : List FocusEntry) :
    Except BundleError (Decision L P) :=
  if ¬ isV3 bundle ∨ given.action = REFINE ∨
      (bundle.intents given.action).isNone then .ok given
  else do
    let held := heldOf focus
    let going := (continued bundle given held).getD given
    let typed ← typedOf lower bundle going held
    claimAll lower bundle held ((typed.map (·.1)).getD going) (typed.map (·.2))

end Shozee.Sho
