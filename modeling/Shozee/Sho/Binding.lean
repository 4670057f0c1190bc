import Shozee.Sho.Fitting

/-!
# References bind silently only what they say

`RightlyBound` lists the ways a param may get a context reference without a
question: a record that a reference word is said for, the customer of an order
where no customer fits, and the order that was just created. The loop over the
reference words keeps that every ref it gives is rightly bound or asked about,
and that every word it has read is answered (`Kept`).
-/

namespace Shozee.Sho

open Shozee.Run

variable {L P : Type}

/-! ## What a binding says

A ref is rightly bound in one of three ways, and otherwise it has to be asked
about. -/

/-- The need blocks the param. -/
def Need.Blocks (need : Need) (slot : String) : Prop :=
  need.blocking = true ∧ (need.path = slot ∨ need.path = slot ++ "[0]")

/-- The ref is what the param has, alone or as a list. -/
def Param.Is (param : Param P) (ref : Ref) : Prop :=
  param = .one ref ∨ param = .several [ref]

/-- A reference that the focus has bound to its entry at a place. -/
structure RefersTo (ref : Ref) (i : ℕ) (entry : FocusEntry) : Prop where
  status : ref.status = .context
  id : ref.id = some entry.id
  focus : ref.focus = some (.index i)

/-- The newest order in focus, created and touched by the previous command, or
from a host without turns the first entry of the list. -/
structure JustCreated (focus : List FocusEntry) (i : ℕ) (order : FocusEntry) :
    Prop where
  held : HeldAt focus i order
  type_eq : order.type = .order
  newest : ∀ j < i, ∀ other, HeldAt focus j other → other.type ≠ .order
  created : order.how = .created
  unclosed : order.closed ≠ some true
  current : order.earlier ≠ some true
  touched : order.turns = some 0 ∨ (order.turns = none ∧ i = 0)

/-- The ways a param may get a context reference without a question. -/
inductive RightlyBound (lower : String → String) (bundle : Bundle)
    (focus : List FocusEntry) (references : List Reference) (action : String)
    (intent : Intent) (slot : String) (ref : Ref) : Prop
  | record (reference : Reference) (i : ℕ) (entry : FocusEntry) :
      reference ∈ references → ref.text = reference.text →
        RefersTo ref i entry →
        recordType bundle intent slot = some entry.type →
        Chosen (RecordPool lower focus action reference entry.type) reference
          i entry → Unmarked focus i entry.type →
        RightlyBound lower bundle focus references action intent slot ref
  | customer (reference : Reference) (i : ℕ) (entry : FocusEntry) :
      reference ∈ references → ref.text = reference.text →
        RefersTo ref i entry → recordType bundle intent slot = some .customer →
        (∀ j other,
          ¬ RecordPool lower focus action reference .customer j other) →
        Chosen (CustomerPool focus) reference i entry →
        Unmarked focus i .customer →
        RightlyBound lower bundle focus references action intent slot ref
  | order (i : ℕ) (order : FocusEntry) :
      slot = ORDER_NUMBER → action = ORDER_UPDATE → RefersTo ref i order →
        JustCreated focus i order →
        RightlyBound lower bundle focus references action intent slot ref

/-- The reference has a ref or a question of its own; or it is «там»; or all
the params it may be for are taken, and the action is asked about if there are
none. -/
def Answered (bundle : Bundle) (intent : Intent) (decision : Decision L P)
    (refs : Dict String (Param P)) (needs : List Need) (claimed : List String)
    (reference : Reference) : Prop :=
  (∃ slot ∈ claimed, ∃ param ref, refs slot = some param ∧ param.Is ref ∧
    ref.text = reference.text) ∨
  (∃ need ∈ needs, need.blocking = true ∧ need.span = some reference.text) ∨
  reference.text = LOOSE_PLACE ∨
  ((∀ name ∈ wanted bundle intent reference,
    decision.has name = true ∨ name ∈ claimed) ∧
      (unplaced bundle intent reference = true → ACTION ∈ claimed))

/-! ## Refs of a resolution

What a resolution gives, read back: a ref without a need is that of a single
chosen entry. -/

/-- A ref that is given without a need is that of a silent bind. -/
theorem bound_cases {resolution : Resolution} {text path : String} {ref : Ref}
    {need : Option Need} (h : bound resolution text path = some (ref, need)) :
    ref.text = text ∧
      ((∃ only, resolution = .bind only ∧
          RefersTo ref only.index only.entry) ∨
        ∃ asked, need = some asked ∧ asked.blocking = true ∧
          asked.path = path) := by
  unfold bound at h
  cases resolution with
  | none => cases h
  | ask candidates =>
      cases h
      exact ⟨rfl, .inr ⟨_, rfl, rfl, rfl⟩⟩
  | offer candidate =>
      cases h
      exact ⟨rfl, .inr ⟨_, rfl, rfl, rfl⟩⟩
  | bind candidate =>
      cases h
      exact ⟨rfl, .inl ⟨candidate, rfl, rfl, rfl, rfl⟩⟩

theorem paramOf_is (bundle : Bundle) (intent : Intent) (name : String)
    (ref : Ref) : (paramOf bundle intent name ref : Param P).Is ref := by
  unfold paramOf
  split
  · exact .inr rfl
  · exact .inl rfl

theorem blocks_of_path {bundle : Bundle} {intent : Intent} {name : String}
    {need : Need} (hblocking : need.blocking = true)
    (hpath : need.path = pathOf bundle intent name) : need.Blocks name := by
  refine ⟨hblocking, ?_⟩
  rw [hpath]
  unfold pathOf
  split
  · exact .inr rfl
  · exact .inl rfl

/-! ## A round of the loop

A round answers one reference word. It may claim params, and never changes a
claim that is there. -/

section Rounds

variable {lower : String → String} {bundle : Bundle} {intent : Intent}
  {decision : Decision L P} {held : Held} {claims claims' : Claims P}
  {reference : Reference}

theorem mem_claim (name : String) : name ∈ (claims.claim name).claimed := by
  unfold Claims.claim
  split
  · assumption
  · exact List.mem_append_right _ List.mem_cons_self

theorem mem_claim_of_mem {name other : String} (h : other ∈ claims.claimed) :
    other ∈ (claims.claim name).claimed := by
  unfold Claims.claim
  split
  · exact h
  · exact List.mem_append_left _ h

@[simp] theorem claim_refs (name : String) :
    (claims.claim name).refs = claims.refs := by
  unfold Claims.claim
  split <;> rfl

@[simp] theorem claim_needs (name : String) :
    (claims.claim name).needs = claims.needs := by
  unfold Claims.claim
  split <;> rfl

theorem open_of_mem_targets {claimed : List String} {name : String}
    (h : name ∈ targets bundle intent decision claimed reference) :
    name ∉ claimed := by
  have hopen : isOpen decision claimed name = true := by
    unfold targets at h
    dsimp only at h
    split at h
    · split at h
      · split at h
        · next hprimary =>
            rw [List.mem_singleton.mp h]
            exact hprimary
        · exact (List.mem_filter.mp h).2
      · exact (List.mem_filter.mp h).2
    · exact (List.mem_filter.mp h).2
  unfold isOpen at hopen
  rw [Bool.and_eq_true, Bool.not_eq_true', Bool.not_eq_true'] at hopen
  intro hmem
  have hnot := hopen.2
  rw [List.contains_iff_mem.mpr hmem] at hnot
  cases hnot

/-- With no target, whatever the reference may be for is taken. -/
theorem taken_of_targets_nil {claimed : List String}
    (h : targets bundle intent decision claimed reference = []) :
    ∀ name ∈ wanted bundle intent reference,
      decision.has name = true ∨ name ∈ claimed := by
  have hfree : (wanted bundle intent reference).filter
      (isOpen decision claimed) = [] := by
    unfold targets at h
    dsimp only at h
    split at h
    · split at h
      · split at h
        · cases h
        · exact h
      · exact h
    · exact h
  intro name hname
  have hclosed := List.filter_eq_nil_iff.mp hfree name hname
  unfold isOpen at hclosed
  rw [Bool.and_eq_true, not_and_or, Bool.not_eq_true', Bool.not_eq_false,
    Bool.not_eq_true', Bool.not_eq_false] at hclosed
  exact hclosed.imp_right List.contains_iff_mem.mp

/-- What a round may do. -/
inductive Round (lower : String → String) (bundle : Bundle) (intent : Intent)
    (decision : Decision L P) (held : Held) (claims : Claims P)
    (reference : Reference) : Claims P → Prop
  | taken : targets bundle intent decision claims.claimed reference = [] →
      (unplaced bundle intent reference = true → ACTION ∈ claims.claimed) →
      Round lower bundle intent decision held claims reference claims
  | loose : reference.text = LOOSE_PLACE →
      Round lower bundle intent decision held claims reference claims
  | asks (name : String) :
      Round lower bundle intent decision held claims reference
        ((claims.claim name).need
          ⟨name, .reference, true, some reference.text⟩)
  | binds (target : String) (ref : Ref) (need : Option Need) :
      target ∉ claims.claimed →
      bound (resolve
        (fitting lower bundle intent decision held target reference)
        held.markers reference) reference.text (pathOf bundle intent target) =
          some (ref, need) →
      Round lower bundle intent decision held claims reference
        ⟨claims.refs.set target (paramOf bundle intent target ref),
          claims.needs ++ need.toList, (claims.claim target).claimed⟩

theorem claimFor_round (claims : Claims P) (reference : Reference) :
    Round lower bundle intent decision held claims reference
      (claimFor lower bundle intent decision held claims reference) := by
  unfold claimFor
  split
  · next hnone =>
      split
      · exact .asks ACTION
      · next hplaced =>
          rw [not_and, not_not] at hplaced
          exact .taken hnone hplaced
  · next first rest htargets =>
      split
      · split
        · next hloose => exact .loose hloose
        · exact .asks first
      · next target hfind =>
          have hmem := List.mem_of_find?_eq_some hfind
          rw [← htargets] at hmem
          dsimp only
          split
          · exact .asks target
          · next ref need hbound =>
              rw [claim_refs, claim_needs]
              exact .binds target ref need (open_of_mem_targets hmem) hbound

/-- The claims only grow: a param that is spoken for keeps its ref. -/
structure Grows (claims claims' : Claims P) : Prop where
  needs : ∀ need ∈ claims.needs, need ∈ claims'.needs
  claimed : ∀ name ∈ claims.claimed, name ∈ claims'.claimed
  refs : ∀ name ∈ claims.claimed, claims'.refs name = claims.refs name

theorem Round.grows (h : Round lower bundle intent decision held claims
    reference claims') : Grows claims claims' := by
  cases h with
  | taken => exact ⟨fun _ h => h, fun _ h => h, fun _ _ => rfl⟩
  | loose => exact ⟨fun _ h => h, fun _ h => h, fun _ _ => rfl⟩
  | asks name =>
      refine ⟨fun need hneed => ?_, fun _ h => mem_claim_of_mem h,
        fun slot _ => ?_⟩
      · refine List.mem_append_left _ ?_
        rw [claim_needs]
        exact hneed
      · exact congrFun (claim_refs name) slot
  | binds target ref need hopen hbound =>
      refine ⟨fun need hneed => List.mem_append_left _ hneed,
        fun _ h => mem_claim_of_mem h, fun slot hslot => ?_⟩
      refine (Dict.set_apply _ _ _ _).trans (if_neg fun heq => hopen ?_)
      rwa [← heq]

theorem Answered.mono (h : Answered bundle intent decision claims.refs
    claims.needs claims.claimed reference) (hgrows : Grows claims claims') :
    Answered bundle intent decision claims'.refs claims'.needs claims'.claimed
      reference := by
  rcases h with ⟨slot, hslot, param, ref, href, hrest⟩ |
    ⟨need, hneed, hrest⟩ | hloose | ⟨htaken, hplaced⟩
  · exact .inl ⟨slot, hgrows.claimed slot hslot, param, ref,
      (hgrows.refs slot hslot).trans href, hrest⟩
  · exact .inr (.inl ⟨need, hgrows.needs need hneed, hrest⟩)
  · exact .inr (.inr (.inl hloose))
  · refine .inr (.inr (.inr ⟨fun name hname => ?_, fun h => ?_⟩))
    · exact (htaken name hname).imp_right (hgrows.claimed name)
    · exact hgrows.claimed ACTION (hplaced h)

theorem Round.answered (h : Round lower bundle intent decision held claims
    reference claims') : Answered bundle intent decision claims'.refs
      claims'.needs claims'.claimed reference := by
  cases h with
  | taken hnone hplaced =>
      exact .inr (.inr (.inr ⟨taken_of_targets_nil hnone, hplaced⟩))
  | loose h => exact .inr (.inr (.inl h))
  | asks name =>
      exact .inr (.inl ⟨_, List.mem_append_right _ List.mem_cons_self, rfl,
        rfl⟩)
  | binds target ref need hopen hbound =>
      refine .inl ⟨target, mem_claim target, _, ref, ?_,
        paramOf_is bundle intent target ref, (bound_cases hbound).1⟩
      exact (Dict.set_apply _ _ _ _).trans (if_pos rfl)

/-- What a round gives is rightly bound, or asked about. -/
theorem Round.given {focus : List FocusEntry} {references : List Reference}
    (h : Round lower bundle intent decision (heldOf focus) claims reference
      claims') (hmem : reference ∈ references) (slot : String) :
    claims'.refs slot = claims.refs slot ∨
      (slot ∈ claims'.claimed ∧ ∃ param ref,
        claims'.refs slot = some param ∧ param.Is ref ∧
          ((∃ need ∈ claims'.needs, need.Blocks slot) ∨
            RightlyBound lower bundle focus references decision.action intent
              slot ref)) := by
  cases h with
  | taken => exact .inl rfl
  | loose => exact .inl rfl
  | asks name => exact .inl (congrFun (claim_refs name) slot)
  | binds target ref need hopen hbound =>
      by_cases hslot : slot = target
      · subst hslot
        refine .inr ⟨mem_claim slot, _, ref,
          (Dict.set_apply _ _ _ _).trans (if_pos rfl),
          paramOf_is bundle intent slot ref, ?_⟩
        obtain ⟨htext, ⟨only, hbind, hrefers⟩ |
          ⟨asked, rfl, hblocking, hpath⟩⟩ := bound_cases hbound
        · have hbinds := resolve_bind hbind
          refine .inr ?_
          rcases fitting_binds hbinds with ⟨htype, hchosen⟩ |
            ⟨htype, hnone, hchosen⟩
          · exact .record reference only.index only.entry hmem htext hrefers
              htype hchosen hbinds.unmarkedAt
          · have hcustomer : only.entry.type = .customer := by
              obtain ⟨order, customer, -, -, -, hentry⟩ := hchosen.mem
              rw [hentry]
              rfl
            exact .customer reference only.index only.entry hmem htext hrefers
              htype hnone hchosen (hcustomer ▸ hbinds.unmarkedAt)
        · exact .inl ⟨asked, List.mem_append_right _ List.mem_cons_self,
            blocks_of_path hblocking hpath⟩
      · exact .inl ((Dict.set_apply _ _ _ _).trans (if_neg hslot))

/-! ## The loop

Rounds put together. Every word that the loop has read is answered, by a ref or
by a question. -/

/-- What the loop keeps from the claims it starts with. -/
structure Kept (lower : String → String) (bundle : Bundle) (intent : Intent)
    (decision : Decision L P) (focus : List FocusEntry)
    (references done : List Reference) (start claims : Claims P) : Prop where
  given : ∀ slot, claims.refs slot = start.refs slot ∨
    (slot ∈ claims.claimed ∧ ∃ param ref,
      claims.refs slot = some param ∧ param.Is ref ∧
        ((∃ need ∈ claims.needs, need.Blocks slot) ∨
          RightlyBound lower bundle focus references decision.action intent
            slot ref))
  answered : ∀ reference ∈ done, Answered bundle intent decision claims.refs
    claims.needs claims.claimed reference
  grows : Grows start claims
  untouched : claims.claimed = [] → claims = start

theorem Grows.trans {claims'' : Claims P} (h : Grows claims claims')
    (h' : Grows claims' claims'') : Grows claims claims'' where
  needs := fun need hneed => h'.needs need (h.needs need hneed)
  claimed := fun name hname => h'.claimed name (h.claimed name hname)
  refs := fun name hname =>
    (h'.refs name (h.claimed name hname)).trans (h.refs name hname)

theorem Round.untouched (h : Round lower bundle intent decision held claims
    reference claims') (hnil : claims'.claimed = []) : claims' = claims := by
  cases h with
  | taken => rfl
  | loose => rfl
  | asks name =>
      have hmem : name ∈ (claims.claim name).claimed := mem_claim name
      have hnil : (claims.claim name).claimed = [] := hnil
      rw [hnil] at hmem
      cases hmem
  | binds target ref need hopen hbound =>
      have hmem : target ∈ (claims.claim target).claimed := mem_claim target
      have hnil : (claims.claim target).claimed = [] := hnil
      rw [hnil] at hmem
      cases hmem

theorem Kept.round {focus : List FocusEntry}
    {references done : List Reference} {start : Claims P}
    (h : Kept lower bundle intent decision focus references done start claims)
    (hmem : reference ∈ references) :
    Kept lower bundle intent decision focus references (reference :: done)
      start (claimFor lower bundle intent decision (heldOf focus) claims
        reference) := by
  have hround : Round lower bundle intent decision (heldOf focus) claims
      reference _ := claimFor_round claims reference
  generalize claimFor lower bundle intent decision (heldOf focus) claims
    reference = claims' at hround
  have hgrows := hround.grows
  refine ⟨fun slot => ?_, ?_, h.grows.trans hgrows, fun hnil => ?_⟩
  · rcases hround.given hmem slot with hsame | hgiven
    · rcases h.given slot with hstart | ⟨hclaimed, param, ref, href, his, hwhy⟩
      · exact .inl (hsame.trans hstart)
      · refine .inr ⟨hgrows.claimed slot hclaimed, param, ref,
          hsame.trans href, his, hwhy.imp_left fun hneed => ?_⟩
        obtain ⟨need, hneed, hblocks⟩ := hneed
        exact ⟨need, hgrows.needs need hneed, hblocks⟩
    · exact .inr hgiven
  · intro read hread
    rcases List.mem_cons.mp hread with rfl | hread
    · exact hround.answered
    · exact (h.answered read hread).mono hgrows
  · have hsame := hround.untouched hnil
    rw [hsame]
    exact h.untouched (by rw [← hsame]; exact hnil)

/-- The loop over references reads them all. -/
theorem kept_of_loop {focus : List FocusEntry} {references : List Reference}
    (start : Claims P) (said : List Reference)
    (hsaid : ∀ reference ∈ said, reference ∈ references) :
    Kept lower bundle intent decision focus references said start
      (said.foldl (claimFor lower bundle intent decision (heldOf focus))
        start) := by
  have hrun : ∀ (said done : List Reference) (claims : Claims P),
      (∀ reference ∈ said, reference ∈ references) →
      Kept lower bundle intent decision focus references done start claims →
      Kept lower bundle intent decision focus references
        (said.reverse ++ done) start
        (said.foldl (claimFor lower bundle intent decision (heldOf focus))
          claims) := by
    intro said
    induction said with
    | nil => exact fun done claims _ h => h
    | cons reference said ih =>
        intro done claims hsaid h
        rw [List.foldl_cons, List.reverse_cons, List.append_assoc]
        exact ih (reference :: done) _
          (fun r hr => hsaid r (List.mem_cons_of_mem _ hr))
          (h.round (hsaid reference List.mem_cons_self))
  have hkept := hrun said [] start hsaid
    ⟨fun _ => .inl rfl, nofun, ⟨fun _ h => h, fun _ h => h, fun _ _ => rfl⟩,
      fun _ => rfl⟩
  rw [List.append_nil] at hkept
  exact { hkept with
    answered := fun r hr => hkept.answered r (List.mem_reverse.mpr hr) }

end Rounds

end Shozee.Sho
