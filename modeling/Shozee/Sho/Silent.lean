import Shozee.Run.Traverse
import Shozee.Sho.Binding

/-!
# No reference is bound in silence but rightly

The two rules that rewrite a command bind what they say, or ask: an order said
on (`continued_rewrites`) and a verb said of a record (`byFocusType_rewrites`).
What they leave is what the loop over the reference words starts with, and the
file ends with the three together.
-/

namespace Shozee.Sho

open Shozee.Run

variable {L P : Type}

/-- The commands have the same words, and take the same params. -/
structure SameWords (given d : Decision L P) : Prop where
  text : d.text = given.text
  params : d.params = given.params
  refPrevious : d.refPrevious = given.refPrevious
  spans : d.spans = given.spans

theorem SameWords.references {given d : Decision L P} (h : SameWords given d)
    (lower : String → String) :
    referencesOf lower d = referencesOf lower given := by
  unfold referencesOf description wordReference spanned
  rw [h.text, h.spans]

theorem SameWords.has {given d : Decision L P} (h : SameWords given d)
    (name : String) : d.has name = given.has name := by
  unfold Decision.has
  rw [h.params, h.refPrevious]

/-- A param has the ref, which is rightly bound or asked about. -/
def Bases (lower : String → String) (bundle : Bundle)
    (focus : List FocusEntry) (given d : Decision L P) (intent : Intent)
    (slot : String) (param : Param P) : Prop :=
  ∃ ref, param.Is ref ∧ ((∃ need ∈ d.needs, need.Blocks slot) ∨
    RightlyBound lower bundle focus (referencesOf lower given) d.action intent
      slot ref)

/-- What the rules leave of a command: the same words, and refs that are right
or asked about. -/
structure Rewritten (lower : String → String) (bundle : Bundle)
    (focus : List FocusEntry) (given d : Decision L P) : Prop where
  words : SameWords given d
  intent : (bundle.intents d.action).isSome
  refs : ∀ slot param, d.refs slot = some param →
    given.refs slot = some param ∨ (slot ∈ d.paths ∧
      ∃ intent, bundle.intents d.action = some intent ∧
        Bases lower bundle focus given d intent slot param)

theorem rewritten_refl {lower : String → String} {bundle : Bundle}
    {focus : List FocusEntry} {given : Decision L P}
    (h : (bundle.intents given.action).isSome) :
    Rewritten lower bundle focus given given :=
  ⟨⟨rfl, rfl, rfl, rfl⟩, h, fun _ _ hparam => .inl hparam⟩

theorem intentOfAction_eq_ok {bundle : Bundle} {action : String}
    {intent : Intent} : intentOfAction bundle action = .ok intent ↔
      bundle.intents action = some intent := by
  unfold intentOfAction
  cases bundle.intents action with
  | none => simp
  | some found => simp

/-! ## An order said on

The ref that the rule binds is of the newest order in focus, and it was created
and touched by the command before. -/

/-- The first order of the records is the newest in focus. -/
theorem newest_of_find? {focus : List FocusEntry} {order : Candidate}
    (h : (heldOf focus).records.find? (·.entry.type = .order) = some order) :
    HeldAt focus order.index order.entry ∧ order.entry.type = .order ∧
      ∀ j < order.index, ∀ other, HeldAt focus j other →
        other.type ≠ .order := by
  have hholds := heldOf_holds focus
  have hmem := List.mem_of_find?_eq_some h
  have horder := List.find?_some h
  refine ⟨(hholds.records _ _).mpr ⟨order, hmem, rfl, rfl⟩,
    of_decide_eq_true horder, fun j hj other hother htype => ?_⟩
  obtain ⟨c, hc, rfl, rfl⟩ := (hholds.records j other).mp hother
  obtain ⟨-, before, after, hsplit, hbefore⟩ :=
    List.find?_eq_some_iff_append.mp h
  have hsorted := hholds.sorted
  rw [hsplit] at hsorted hc
  rcases List.mem_append.mp hc with hc | hc
  · have hnot := hbefore c hc
    rw [Bool.not_eq_true', decide_eq_false_iff_not] at hnot
    exact hnot htype
  · rcases List.mem_cons.mp hc with rfl | hc
    · exact Nat.lt_irrefl _ hj
    · have hlt := (List.pairwise_cons.mp
        (List.pairwise_append.mp hsorted).2.1).1 c hc
      omega

theorem touched_of_isTouched {order : Candidate}
    (h : isTouched order = true) : order.entry.earlier ≠ some true ∧
      (order.entry.turns = some 0 ∨
        (order.entry.turns = none ∧ order.index = 0)) := by
  unfold isTouched at h
  rw [Bool.and_eq_true, decide_eq_true_eq] at h
  refine ⟨h.1, ?_⟩
  have htouched := h.2
  split at htouched
  · next hturns => exact .inr ⟨hturns, of_decide_eq_true htouched⟩
  · next turns hturns =>
      rw [of_decide_eq_true htouched] at hturns
      exact .inl hturns

/-- An order said on is the one that was just created, or it is asked about. -/
theorem continued_rewrites {lower : String → String} {bundle : Bundle}
    {focus : List FocusEntry} {given d : Decision L P}
    (h : continued bundle given (heldOf focus) = some d) :
    Rewritten lower bundle focus given d ∧ d.action = ORDER_UPDATE := by
  unfold continued at h
  obtain ⟨update, hupdate, h⟩ := Option.bind_eq_some_iff.mp h
  obtain ⟨-, h⟩ := Option.ite_none_left_eq_some.mp h
  obtain ⟨-, h⟩ := Option.ite_none_left_eq_some.mp h
  obtain ⟨-, h⟩ := Option.ite_none_left_eq_some.mp h
  obtain ⟨-, h⟩ := Option.ite_none_left_eq_some.mp h
  obtain ⟨order, horder, h⟩ := Option.bind_eq_some_iff.mp h
  obtain ⟨hcreated, h⟩ := Option.ite_none_left_eq_some.mp h
  rw [not_or, not_not] at hcreated
  obtain ⟨hheld, htype, hnewest⟩ := newest_of_find? horder
  cases h
  refine ⟨⟨⟨rfl, rfl, rfl, rfl⟩, ?_, fun slot param hparam => .inr ?_⟩, rfl⟩
  · rw [hupdate]
    rfl
  · have hset := (Dict.set_apply _ _ _ _).symm.trans hparam
    split at hset
    · next hslot =>
        cases hset
        refine ⟨List.mem_singleton.mpr hslot, update, hupdate, _, .inl rfl, ?_⟩
        cases htouched : isTouched order with
        | true =>
            obtain ⟨hcurrent, hturns⟩ := touched_of_isTouched htouched
            exact .inr (.order order.index order.entry hslot rfl
              ⟨rfl, rfl, rfl⟩ ⟨hheld, htype, hnewest, hcreated.1, hcreated.2,
                hcurrent, hturns⟩)
        | false =>
            let words := splitWords given.text
            let cue := String.intercalate " " (words.take (leads words + 1))
            refine .inl ⟨⟨ORDER_NUMBER, .checkReference, true, some cue⟩, ?_,
              rfl, .inl hslot.symm⟩
            unfold Decision.needs
            dsimp only [Option.getD_some]
            rw [if_neg Bool.false_ne_true]
            split
            · exact List.mem_singleton.mpr rfl
            · exact List.mem_cons_of_mem _ (List.mem_singleton.mpr rfl)
    · cases hset

/-! ## A verb said of a record

The verb's type is read off the record. So the param is bound to the record
that the reference chooses. -/

theorem families_restores {family : Family} {type : FocusType}
    {member : String} (h : FAMILIES family type = some member) :
    member ∈ RESTORES ↔ family = .restore := by
  cases family <;> cases type <;> cases h <;> decide

theorem family_has_update (family : Family) :
    family.has ORDER_UPDATE = false := by
  cases family <;> decide

/-- What `typedAs` may leave of a command. -/
inductive Typed (bundle : Bundle) (given : Decision L P) (family : Family)
    (reference : Reference) (resolution : Resolution) : Decision L P → Prop
  | asks (reason : NeedReason) (paths : List String) :
      Typed bundle given family reference resolution
        { given with
          focusNeeds := some [⟨ACTION, reason, true, some reference.text⟩]
          focusPaths := some paths }
  | binds (type : FocusType) (member slot : String) (target : Intent)
      (ref : Ref) (need : Option Need) :
      FAMILIES family type = some member →
      bundle.intents member = some target →
      slot ∈ recordParams bundle target →
      recordType bundle target slot = some type →
      (∀ only, resolution = .bind only → only.entry.type = type) →
      bound resolution reference.text (pathOf bundle target slot) =
        some (ref, need) →
      Typed bundle given family reference resolution
        { given with
          action := member
          fromPrevious := some (given.refs.set slot
            (paramOf bundle target slot ref))
          focusNeeds := some
            (⟨ACTION, .readAsFocusType, false, some reference.text⟩ ::
              need.toList)
          focusPaths := some (recordParams bundle target) }

theorem typedAs_typed {bundle : Bundle} {given d : Decision L P}
    {intent : Intent} {family : Family} {reference : Reference}
    {resolution : Resolution}
    (h : typedAs bundle given intent family reference resolution =
      .ok (some d)) :
    Typed bundle given family reference resolution d := by
  unfold typedAs at h
  dsimp only at h
  split at h
  · cases h
  · cases h
    exact .asks _ _
  · next type htypes =>
      have honly : ∀ only, resolution = .bind only →
          only.entry.type = type := by
        intro only hbind
        rw [hbind] at htypes
        exact (List.cons.inj htypes).1
      split at h
      · cases h
        exact .asks _ _
      · next member hmember =>
          split at h
          · cases h
            exact .asks _ _
          · obtain ⟨target, htarget, h⟩ := bind_eq_ok.mp h
            have htarget := intentOfAction_eq_ok.mp htarget
            split at h
            · cases h
            · split at h
              · cases h
              · next slot hslot =>
                  have htype := List.find?_some hslot
                  have htype := of_decide_eq_true htype
                  split at h
                  · cases h
                  · next ref need hbound =>
                      cases h
                      refine .binds type member slot target ref need hmember
                        htarget ?_ htype honly hbound
                      refine List.mem_filter.mpr
                        ⟨List.mem_of_find?_eq_some hslot, ?_⟩
                      rw [htype]
                      rfl

/-- What the verb was read with: the one reference, and the records of any type
that the family may take. -/
theorem byFocusType_typed {lower : String → String} {bundle : Bundle}
    {given d : Decision L P} {held : Held} {references : List Reference}
    {reference : Reference}
    (h : byFocusType lower bundle given held references =
      .ok (some (d, reference))) :
    references = [reference] ∧ given.action ≠ ORDER_UPDATE ∧
      ∃ (verb : Option Family) (family : Family), family = verb.getD .edit ∧
        Typed bundle given family reference
          (resolve (held.records.filter fun candidate =>
            agrees lower reference.form candidate.entry &&
              (verb.isSome || (FAMILIES family candidate.entry.type).isSome) &&
              (candidate.entry.closed ≠ some true ||
                decide (verb = some .restore)))
            held.markers reference) d := by
  unfold byFocusType at h
  split at h
  · next only =>
      dsimp only at h
      split at h
      · cases h
      · split at h
        · cases h
        · split at h
          · cases h
          · split at h
            · cases h
            · next hhas =>
                obtain ⟨intent, -, h⟩ := bind_eq_ok.mp h
                split at h
                · cases h
                · obtain ⟨typed, htyped, h⟩ := bind_eq_ok.mp h
                  cases htyped' : typed with
                  | none =>
                      rw [htyped'] at h
                      cases h
                  | some found =>
                      rw [htyped'] at h htyped
                      cases h
                      refine ⟨rfl, fun hupdate => ?_, _, _, rfl,
                        typedAs_typed htyped⟩
                      rw [hupdate, family_has_update] at hhas
                      exact hhas rfl
  · cases h

/-- The words of the reference are those of a ref or of a question. -/
def Spoken (d : Decision L P) (text : String) : Prop :=
  (∃ slot ∈ d.paths, ∃ param ref, d.refs slot = some param ∧ param.Is ref ∧
    ref.text = text) ∨
  ∃ need ∈ d.needs, need.blocking = true ∧ need.span = some text

/-- A verb said of a record binds the chosen one of its type, or it asks. -/
theorem byFocusType_rewrites {lower : String → String} {bundle : Bundle}
    {focus : List FocusEntry} {given d : Decision L P} {reference : Reference}
    (hintent : (bundle.intents given.action).isSome)
    (h : byFocusType lower bundle given (heldOf focus)
      (referencesOf lower given) = .ok (some (d, reference))) :
    Rewritten lower bundle focus given d ∧ Spoken d reference.text := by
  obtain ⟨hreferences, -, verb, family, rfl, htyped⟩ := byFocusType_typed h
  cases htyped with
  | asks reason paths =>
      refine ⟨⟨⟨rfl, rfl, rfl, rfl⟩, hintent, fun slot param h => .inl h⟩, ?_⟩
      exact .inr ⟨_, List.mem_singleton.mpr rfl, rfl, rfl⟩
  | binds type member slot target ref need hmember htarget hslot htype honly
      hbound =>
      obtain ⟨htext, hwhy⟩ := bound_cases hbound
      have hset : (given.refs.set slot (paramOf bundle target slot ref)) slot =
          some (paramOf bundle target slot ref) :=
        (Dict.set_apply _ _ _ _).trans (if_pos rfl)
      refine ⟨⟨⟨rfl, rfl, rfl, rfl⟩, ?_, fun name param hparam => ?_⟩,
        .inl ⟨slot, hslot, _, ref, hset, paramOf_is bundle target slot ref,
          htext⟩⟩
      · rw [htarget]
        rfl
      · have hparam := (Dict.set_apply _ _ _ _).symm.trans hparam
        split at hparam
        · next hname =>
            subst hname
            cases hparam
            refine .inr ⟨hslot, target, htarget, ref,
              paramOf_is bundle target name ref, ?_⟩
            rcases hwhy with ⟨only, hbind, hrefers⟩ |
              ⟨asked, rfl, hblocking, hpath⟩
            · have hbinds := resolve_bind hbind
              have honly := honly only hbind
              refine .inr (.record reference only.index only.entry ?_ htext
                hrefers (by rw [htype, honly]) (hbinds.record ?_)
                hbinds.unmarkedAt)
              · rw [hreferences]
                exact List.mem_singleton.mpr rfl
              · intro candidate hsame
                rw [hsame, honly, hmember, Option.isSome_some, Bool.or_true,
                  Bool.and_true, Bool.and_eq_true]
                refine and_congr_right fun _ => ?_
                unfold restorable
                rw [Bool.or_eq_true, Bool.or_eq_true, decide_eq_true_eq,
                  decide_eq_true_eq, decide_eq_true_eq]
                refine or_congr_right ?_
                rw [families_restores hmember]
                cases verb with
                | none => decide
                | some verb => simp
            · exact .inl ⟨asked, List.mem_cons_of_mem _ List.mem_cons_self,
                blocks_of_path hblocking hpath⟩
        · exact .inl hparam

/-! ## All together

The rules first, then the loop over what is left. Claims only grow, so what the
rules have bound stays. -/

theorem claims_of_paths (paths : List String) (claims : Claims P) :
    (paths.foldl Claims.claim claims).refs = claims.refs ∧
    (paths.foldl Claims.claim claims).needs = claims.needs ∧
    ∀ name, name ∈ claims.claimed ∨ name ∈ paths →
      name ∈ (paths.foldl Claims.claim claims).claimed := by
  induction paths generalizing claims with
  | nil => exact ⟨rfl, rfl, fun name h => h.resolve_right List.not_mem_nil⟩
  | cons path paths ih =>
      obtain ⟨hrefs, hneeds, hclaimed⟩ := ih (claims.claim path)
      refine ⟨hrefs.trans (claim_refs path), hneeds.trans (claim_needs path),
        fun name h => hclaimed name ?_⟩
      rcases h with h | h
      · exact .inl (mem_claim_of_mem h)
      · rcases List.mem_cons.mp h with rfl | h
        · exact .inl (mem_claim name)
        · exact .inr h

/-- What a command has when the loop is over. -/
theorem withClaims_grows {decision : Decision L P} {claims : Claims P}
    (huntouched : claims.claimed = [] → claims = decision.claims) :
    let d := decision.withClaims claims
    d.refs = claims.refs ∧ d.needs = claims.needs ∧
      ∀ name ∈ claims.claimed, name ∈ d.paths := by
  obtain ⟨hrefs, hneeds, -⟩ := claims_of_paths decision.paths
    ⟨decision.refs, decision.needs, []⟩
  unfold Decision.withClaims
  by_cases hnil : claims.claimed = []
  · rw [if_pos hnil, huntouched hnil]
    refine ⟨hrefs.symm, hneeds.symm, fun name hname => ?_⟩
    rw [← huntouched hnil, hnil] at hname
    cases hname
  · rw [if_neg hnil]
    exact ⟨rfl, rfl, fun _ h => h⟩

theorem withClaims_words (decision : Decision L P) (claims : Claims P) :
    SameWords decision (decision.withClaims claims) ∧
      (decision.withClaims claims).action = decision.action := by
  unfold Decision.withClaims
  split
  · exact ⟨⟨rfl, rfl, rfl, rfl⟩, rfl⟩
  · exact ⟨⟨rfl, rfl, rfl, rfl⟩, rfl⟩

theorem Answered.words {bundle : Bundle} {intent : Intent}
    {given base : Decision L P} (hwords : SameWords given base)
    {refs : Dict String (Param P)} {needs : List Need} {claimed : List String}
    {reference : Reference}
    (h : Answered bundle intent base refs needs claimed reference) :
    Answered bundle intent given refs needs claimed reference := by
  refine h.imp_right fun h => h.imp_right fun h => h.imp_right fun h => ?_
  refine ⟨fun name hname => ?_, h.2⟩
  rw [← hwords.has name]
  exact h.1 name hname

/-- What `withFocus` leaves of a command. -/
structure Settled (lower : String → String) (bundle : Bundle)
    (focus : List FocusEntry) (given d : Decision L P) : Prop where
  refs : ∀ slot param, d.refs slot = some param →
    given.refs slot = some param ∨
      ∃ intent, bundle.intents d.action = some intent ∧
        Bases lower bundle focus given d intent slot param
  answered : ∀ intent, bundle.intents d.action = some intent →
    intent.kind ∉ NO_RECORD_KINDS → ∀ reference ∈ referencesOf lower given,
      Answered bundle intent given d.refs d.needs d.paths reference

/-- What the rules have made of a command is kept by whatever the loop adds. -/
theorem Bases.mono {lower : String → String} {bundle : Bundle}
    {focus : List FocusEntry} {given base d : Decision L P} {intent : Intent}
    {slot : String} {param : Param P}
    (h : Bases lower bundle focus given base intent slot param)
    (hneeds : ∀ need ∈ base.needs, need ∈ d.needs)
    (haction : d.action = base.action) :
    Bases lower bundle focus given d intent slot param := by
  obtain ⟨ref, his, ⟨need, hneed, hblocks⟩ | hright⟩ := h
  · exact ⟨ref, his, .inl ⟨need, hneeds need hneed, hblocks⟩⟩
  · exact ⟨ref, his, .inr (haction ▸ hright)⟩

/-- The loop leaves a command settled that the rules have rewritten. -/
theorem claimAll_settles {lower : String → String} {bundle : Bundle}
    {focus : List FocusEntry} {given base : Decision L P}
    {read : Option Reference}
    (hbase : Rewritten lower bundle focus given base)
    (hread : ∀ reference, read = some reference → Spoken base reference.text) :
    ∃ d, claimAll lower bundle (heldOf focus) base read = .ok d ∧
      Settled lower bundle focus given d := by
  obtain ⟨intent, hintent⟩ := Option.isSome_iff_exists.mp hbase.intent
  have hok := intentOfAction_eq_ok.mpr hintent
  unfold claimAll
  rw [hok]
  by_cases hkind : intent.kind ∈ NO_RECORD_KINDS
  · refine ⟨base, if_pos hkind, fun slot param hparam => ?_, ?_⟩
    · exact (hbase.refs slot param hparam).imp_right And.right
    · intro other hother hnot
      rw [hintent, Option.some.injEq] at hother
      rw [← hother] at hnot
      exact absurd hkind hnot
  · refine ⟨_, if_neg hkind, ?_⟩
    obtain ⟨hrefs, hneeds, hpaths⟩ :=
      claims_of_paths base.paths (⟨base.refs, base.needs, []⟩ : Claims P)
    have hkept : Kept lower bundle intent base focus
        (referencesOf lower given) (unreadOf lower base read) base.claims
        ((unreadOf lower base read).foldl
          (claimFor lower bundle intent base (heldOf focus)) base.claims) :=
      kept_of_loop _ _ fun reference hreference => by
        rw [← hbase.words.references lower]
        exact (List.mem_filter.mp hreference).1
    generalize (unreadOf lower base read).foldl
      (claimFor lower bundle intent base (heldOf focus)) base.claims =
        claims at hkept ⊢
    obtain ⟨hdrefs, hdneeds, hdpaths⟩ := withClaims_grows hkept.untouched
    have haction := (withClaims_words base claims).2
    generalize base.withClaims claims = d at hdrefs hdneeds hdpaths haction ⊢
    have hallNeeds : ∀ need ∈ base.needs, need ∈ d.needs := by
      intro need hneed
      rw [hdneeds]
      exact hkept.grows.needs need (hneeds ▸ hneed)
    refine ⟨fun slot param hparam => ?_,
      fun other hother hnot reference hreference => ?_⟩
    · rw [hdrefs] at hparam
      rcases hkept.given slot with hstart | ⟨-, param', ref, href, his, hwhy⟩
      · have hsame : claims.refs slot = base.refs slot :=
          hstart.trans (congrFun hrefs slot)
        rcases hbase.refs slot param (hsame.symm.trans hparam) with
          hgiven | ⟨-, rule, hrule, hbases⟩
        · exact .inl hgiven
        · exact .inr ⟨rule, haction ▸ hrule, hbases.mono hallNeeds haction⟩
      · rw [href, Option.some.injEq] at hparam
        subst hparam
        refine .inr ⟨intent, haction ▸ hintent, ref, his, ?_⟩
        rw [hdneeds, haction]
        exact hwhy
    · rw [haction, hintent, Option.some.injEq] at hother
      subst hother
      have hgrows : Grows claims ⟨d.refs, d.needs, d.paths⟩ :=
        ⟨fun need hneed => by rw [hdneeds]; exact hneed, hdpaths,
          fun name _ => congrFun hdrefs name⟩
      by_cases hunread : reference ∈ unreadOf lower base read
      · exact ((hkept.answered reference hunread).words hbase.words).mono hgrows
      · -- The verb was read with the word, so the rule has answered it.
        obtain ⟨other, hother, htext⟩ : ∃ other, read = some other ∧
            reference.text = other.text := by
          rw [← hbase.words.references lower] at hreference
          by_contra hnone
          refine hunread (List.mem_filter.mpr ⟨hreference, ?_⟩)
          cases read with
          | none => rfl
          | some other =>
              have hne : reference.text ≠ other.text :=
                fun heq => hnone ⟨other, rfl, heq⟩
              rw [Option.any_some, decide_eq_false hne]
              rfl
        rcases hread other hother with ⟨slot, hslot, param, ref, href, his,
            hsaid⟩ | ⟨need, hneed, hblocking, hspan⟩
        · have hclaimed := hpaths slot (.inr hslot)
          refine .inl ⟨slot, hdpaths slot (hkept.grows.claimed slot hclaimed),
            param, ref, ?_, his, hsaid.trans htext.symm⟩
          rw [hdrefs, hkept.grows.refs slot hclaimed]
          exact (congrFun hrefs slot).trans href
        · exact .inr (.inl ⟨need, hallNeeds need hneed, hblocking,
            hspan.trans (congrArg some htext.symm)⟩)

theorem isOk_bind {ε α β : Type} {x : Except ε α} {f : α → Except ε β}
    (hx : ∃ a, x = .ok a) (hf : ∀ a, x = .ok a → ∃ b, f a = .ok b) :
    ∃ b, (x >>= f) = .ok b := by
  obtain ⟨a, ha⟩ := hx
  obtain ⟨b, hb⟩ := hf a ha
  exact ⟨b, bind_eq_ok.mpr ⟨a, ha, hb⟩⟩

/-- No intent is looked up that there is not. -/
theorem typedAs_isOk (bundle : Bundle) (decision : Decision L P)
    (intent : Intent) (family : Family) (reference : Reference)
    (resolution : Resolution) :
    ∃ typed, typedAs bundle decision intent family reference resolution =
      .ok typed := by
  unfold typedAs
  dsimp only
  split
  · exact ⟨_, rfl⟩
  · exact ⟨_, rfl⟩
  · split
    · exact ⟨_, rfl⟩
    · next member hmember =>
        split
        · exact ⟨_, rfl⟩
        · next hknown =>
            rw [Bool.not_eq_true, Option.isNone_eq_false_iff] at hknown
            obtain ⟨target, htarget⟩ := Option.isSome_iff_exists.mp hknown
            refine isOk_bind ⟨target, intentOfAction_eq_ok.mpr htarget⟩ ?_
            intro target _
            split
            · exact ⟨_, rfl⟩
            · split
              · exact ⟨_, rfl⟩
              · split
                · exact ⟨_, rfl⟩
                · exact ⟨_, rfl⟩

theorem byFocusType_isOk (lower : String → String) {bundle : Bundle}
    {going : Decision L P} (held : Held) (references : List Reference)
    (hknown : (bundle.intents going.action).isSome) :
    ∃ typed, byFocusType lower bundle going held references = .ok typed := by
  obtain ⟨intent, hintent⟩ := Option.isSome_iff_exists.mp hknown
  unfold byFocusType
  split
  · dsimp only
    split
    · exact ⟨_, rfl⟩
    · split
      · exact ⟨_, rfl⟩
      · split
        · exact ⟨_, rfl⟩
        · split
          · exact ⟨_, rfl⟩
          · refine isOk_bind ⟨intent, intentOfAction_eq_ok.mpr hintent⟩ ?_
            intro intent _
            split
            · exact ⟨_, rfl⟩
            · exact isOk_bind (typedAs_isOk _ _ _ _ _ _) fun typed _ =>
                ⟨_, rfl⟩
  · exact ⟨_, rfl⟩

theorem typedOf_isOk (lower : String → String) {bundle : Bundle}
    {going : Decision L P} (held : Held)
    (hknown : (bundle.intents going.action).isSome) :
    ∃ typed, typedOf lower bundle going held = .ok typed := by
  obtain ⟨intent, hintent⟩ := Option.isSome_iff_exists.mp hknown
  unfold typedOf
  refine isOk_bind ⟨intent, intentOfAction_eq_ok.mpr hintent⟩ ?_
  intro intent _
  split
  · exact ⟨_, rfl⟩
  · exact byFocusType_isOk lower held _ hknown

/-- What a verb is said of is read only where the action takes records. -/
theorem typedOf_eq_some {lower : String → String} {bundle : Bundle}
    {going d : Decision L P} {held : Held} {reference : Reference}
    (h : typedOf lower bundle going held = .ok (some (d, reference))) :
    byFocusType lower bundle going held (referencesOf lower going) =
      .ok (some (d, reference)) := by
  unfold typedOf at h
  obtain ⟨intent, -, h⟩ := bind_eq_ok.mp h
  split at h
  · cases h
  · exact h

end Shozee.Sho
