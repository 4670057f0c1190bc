import Mathlib.Data.List.Infix

/-!
# Patterns

A regular expression, as the runtime matches it at a place of a text: all the
ways in which it can, the preferred one first. A search takes the first way at
the first place that has one. What is read off a match is a stretch of the
text, whichever way it is (`Steps`).
-/

namespace Shozee.Run

/-- A place in a text: what is before it, backwards, and the rest. -/
structure Place where
  before : List Char
  rest : List Char
deriving DecidableEq, Repr

/-- The ways to match at a place, with what each of them reads. -/
def Pattern (α : Type) := Place → List (α × Place)

namespace Pattern

variable {α β : Type}

instance : Monad Pattern where
  pure a := fun x => [(a, x)]
  bind q f := fun x => (q x).flatMap fun m => f m.1 m.2

/-- One character of a class. -/
def char (p : Char → Bool) : Pattern Char := fun x =>
  match x.rest with
  | [] => []
  | c :: rest => if p c then [(c, ⟨c :: x.before, rest⟩)] else []

/-- As many of a class as there are, then ever fewer. -/
def manyFrom (p : Char → Bool) :
    List Char → List Char → List (List Char × Place)
  | before, [] => [([], ⟨before, []⟩)]
  | before, c :: rest =>
      if p c then
        (manyFrom p (c :: before) rest).map (fun m => (c :: m.1, m.2)) ++
          [([], ⟨before, c :: rest⟩)]
      else [([], ⟨before, c :: rest⟩)]

/-- `[class]*` -/
def many (p : Char → Bool) : Pattern (List Char) := fun x =>
  manyFrom p x.before x.rest

/-- `[class]*?` -/
def manyLazy (p : Char → Bool) : Pattern (List Char) := fun x =>
  (many p x).reverse

/-- `[class]+` -/
def some (p : Char → Bool) : Pattern (List Char) := do
  let c ← char p
  let cs ← many p
  return c :: cs

/-- `(?:q)?` -/
def optional (q : Pattern Unit) : Pattern Unit := fun x =>
  q x ++ [((), x)]

/-- Characters without regard to the case of the Latin letters. -/
def chars : List Char → Pattern Unit
  | [] => pure ()
  | l :: text => do
      let _ ← char fun c => c.toLower = l.toLower
      chars text

/-- A text as it stands. -/
def literal (text : String) : Pattern Unit := chars text.toList

/-- `\d`. -/
def isDigit (c : Char) : Bool := c.isDigit

/-- `\w` -/
def isWord (c : Char) : Bool := c.isAlphanum || c = '_'

/-- `\s` -/
def isSpace (c : Char) : Bool :=
  (0x09 ≤ c.toNat && c.toNat ≤ 0x0d) || c.toNat = 0x20 || c.toNat = 0xa0 ||
    c.toNat = 0x1680 || (0x2000 ≤ c.toNat && c.toNat ≤ 0x200a) ||
    c.toNat = 0x2028 || c.toNat = 0x2029 || c.toNat = 0x202f ||
    c.toNat = 0x205f || c.toNat = 0x3000 || c.toNat = 0xfeff

/-- `\b` -/
def boundary : Pattern Unit := fun x =>
  if x.before.head?.any isWord = x.rest.head?.any isWord then []
  else [((), x)]

/-- `^` -/
def start : Pattern Unit := fun x => if x.before = [] then [((), x)] else []

/-- `$` -/
def finish : Pattern Unit := fun x => if x.rest = [] then [((), x)] else []

/-! ## Searches

`exec`, `test` and `matchAll` go by the first way at the first place. After a
match they go on behind it. -/

/-- The first match at any place from one on. -/
def searchFrom (q : Pattern α) : List Char → List Char → Option (α × Place)
  | before, [] => (q ⟨before, []⟩).head?
  | before, c :: rest =>
      match (q ⟨before, c :: rest⟩).head? with
      | .some m => .some m
      | none => searchFrom q (c :: before) rest

/-- `q.exec(text)` -/
def exec (q : Pattern α) (text : List Char) : Option α :=
  (searchFrom q [] text).map Prod.fst

/-- `q.test(text)` -/
def test (q : Pattern α) (text : List Char) : Bool :=
  (searchFrom q [] text).isSome

/-- The matches one after the other: behind a match, what it took is skipped. -/
def matchFrom (q : Pattern α) : ℕ → List Char → List Char → List α
  | 0, before, [] => (q ⟨before, []⟩).head?.toList.map Prod.fst
  | _ + 1, _, [] => []
  | skip + 1, before, c :: rest => matchFrom q skip (c :: before) rest
  | 0, before, c :: rest =>
      match (q ⟨before, c :: rest⟩).head? with
      | .some m =>
          m.1 :: matchFrom q (rest.length - m.2.rest.length) (c :: before) rest
      | none => matchFrom q 0 (c :: before) rest

/-- `text.matchAll(q)` -/
def matchAll (q : Pattern α) (text : List Char) : List α :=
  matchFrom q 0 [] text

/-! ## What is matched

Whatever the way, a match is a stretch of the text, and its parts are stretches
one after the other. -/

/-- The word stands from the one place to the other. -/
def StepsTo (x : Place) (word : List Char) (y : Place) : Prop :=
  x.rest = word ++ y.rest ∧ y.before = word.reverse ++ x.before

theorem StepsTo.refl (x : Place) : StepsTo x [] x := ⟨rfl, rfl⟩

theorem StepsTo.trans {x y z : Place} {word more : List Char}
    (h : StepsTo x word y) (hmore : StepsTo y more z) :
    StepsTo x (word ++ more) z := by
  refine ⟨?_, ?_⟩
  · rw [h.1, hmore.1, List.append_assoc]
  · rw [hmore.2, h.2, List.reverse_append, List.append_assoc]

theorem mem_pure {a b : α} {x y : Place} :
    (b, y) ∈ (pure a : Pattern α) x ↔ b = a ∧ y = x := by
  refine List.mem_singleton.trans ?_
  rw [Prod.mk.injEq]

theorem mem_bind {q : Pattern α} {f : α → Pattern β} {b : β} {x z : Place} :
    (b, z) ∈ (q >>= f) x ↔ ∃ a y, (a, y) ∈ q x ∧ (b, z) ∈ f a y := by
  refine List.mem_flatMap.trans ⟨?_, ?_⟩
  · rintro ⟨⟨a, y⟩, hq, hf⟩
    exact ⟨a, y, hq, hf⟩
  · rintro ⟨a, y, hq, hf⟩
    exact ⟨(a, y), hq, hf⟩

theorem mem_char {p : Char → Bool} {c : Char} {x y : Place}
    (h : (c, y) ∈ char p x) : p c ∧ StepsTo x [c] y := by
  unfold char at h
  split at h
  next => exact absurd h List.not_mem_nil
  next c' rest hrest =>
    split at h
    next hp =>
      obtain ⟨rfl, rfl⟩ := Prod.mk.inj (List.mem_singleton.mp h)
      exact ⟨hp, hrest, rfl⟩
    next => exact absurd h List.not_mem_nil

theorem mem_none {p : Char → Bool} {x y : Place} {cs : List Char}
    (h : (cs, y) ∈ [(([] : List Char), x)]) :
    (∀ c ∈ cs, p c) ∧ StepsTo x cs y := by
  obtain ⟨rfl, rfl⟩ := Prod.mk.inj (List.mem_singleton.mp h)
  exact ⟨fun _ hc => absurd hc List.not_mem_nil, .refl _⟩

theorem mem_manyFrom {p : Char → Bool} {before rest cs : List Char}
    {y : Place} (h : (cs, y) ∈ manyFrom p before rest) :
    (∀ c ∈ cs, p c) ∧ StepsTo ⟨before, rest⟩ cs y := by
  induction rest generalizing before cs with
  | nil => exact mem_none h
  | cons c rest ih =>
      unfold manyFrom at h
      split at h
      next hp =>
        rcases List.mem_append.mp h with h | h
        · obtain ⟨⟨cs', y'⟩, hmem, heq⟩ := List.mem_map.mp h
          obtain ⟨rfl, rfl⟩ := Prod.mk.inj heq
          obtain ⟨hall, hsteps⟩ := ih hmem
          have hone : StepsTo ⟨before, c :: rest⟩ [c] ⟨c :: before, rest⟩ :=
            ⟨rfl, rfl⟩
          refine ⟨?_, hone.trans hsteps⟩
          intro d hd
          rcases List.mem_cons.mp hd with rfl | hd
          · exact hp
          · exact hall d hd
        · exact mem_none h
      next => exact mem_none h

theorem mem_many {p : Char → Bool} {cs : List Char} {x y : Place}
    (h : (cs, y) ∈ many p x) : (∀ c ∈ cs, p c) ∧ StepsTo x cs y :=
  mem_manyFrom h

theorem mem_manyLazy {p : Char → Bool} {cs : List Char} {x y : Place}
    (h : (cs, y) ∈ manyLazy p x) : (∀ c ∈ cs, p c) ∧ StepsTo x cs y :=
  mem_manyFrom (List.mem_reverse.mp h)

/-- The same up to the case of the Latin letters. -/
def Alike (word text : List Char) : Prop :=
  word.map Char.toLower = text.map Char.toLower

theorem mem_chars {text : List Char} {x y : Place} {u : Unit}
    (h : (u, y) ∈ chars text x) : ∃ word, Alike word text ∧ StepsTo x word y := by
  induction text generalizing x with
  | nil =>
      obtain ⟨-, rfl⟩ := mem_pure.mp h
      exact ⟨[], rfl, .refl _⟩
  | cons l text ih =>
      obtain ⟨c, z, hc, h⟩ := mem_bind.mp h
      obtain ⟨word, halike, hsteps⟩ := ih h
      obtain ⟨hp, hone⟩ := mem_char hc
      refine ⟨c :: word, ?_, hone.trans hsteps⟩
      unfold Alike at halike ⊢
      rw [List.map_cons, List.map_cons, of_decide_eq_true hp, halike]

theorem mem_literal {text : String} {x y : Place} {u : Unit}
    (h : (u, y) ∈ literal text x) :
    ∃ word, Alike word text.toList ∧ StepsTo x word y :=
  mem_chars h

theorem mem_boundary {x y : Place} {u : Unit} (h : (u, y) ∈ boundary x) :
    y = x := by
  unfold boundary at h
  split at h
  · exact absurd h List.not_mem_nil
  · exact (Prod.mk.inj (List.mem_singleton.mp h)).2

theorem chars_of_alike {text word more before : List Char}
    (h : Alike word text) :
    ((), ⟨word.reverse ++ before, more⟩) ∈
      chars text ⟨before, word ++ more⟩ := by
  induction text generalizing word before with
  | nil =>
      obtain rfl : word = [] := List.map_eq_nil_iff.mp h
      exact mem_pure.mpr ⟨rfl, rfl⟩
  | cons l text ih =>
      cases word with
      | nil => cases h
      | cons c word =>
          obtain ⟨hc, hword⟩ := List.cons.inj h
          refine mem_bind.mpr ⟨c, ⟨c :: before, word ++ more⟩, ?_, ?_⟩
          · unfold char
            rw [List.cons_append]
            dsimp only
            rw [if_pos (decide_eq_true hc)]
            exact List.mem_singleton_self _
          · rw [List.reverse_cons, List.append_assoc]
            exact ih hword

theorem literal_of_alike {text : String} {word : List Char}
    (h : Alike word text.toList) (more before : List Char) :
    ((), ⟨word.reverse ++ before, more⟩) ∈
      literal text ⟨before, word ++ more⟩ :=
  chars_of_alike h

/-! ## The first way

Which way comes first matters where a pattern is lazy: no shorter one has led
to a match. -/

/-- The first way of a sequence: the ways before its beginning lead
nowhere. -/
theorem head_bind {q : Pattern α} {f : α → Pattern β} {x : Place}
    {m : β × Place} (h : ((q >>= f) x).head? = .some m) :
    ∃ earlier a y later, q x = earlier ++ (a, y) :: later ∧
      (∀ way ∈ earlier, f way.1 way.2 = []) ∧ (f a y).head? = .some m := by
  have hways : ((q x).flatMap fun way => f way.1 way.2).head? = .some m := h
  generalize q x = ways at hways ⊢
  induction ways with
  | nil => cases hways
  | cons way ways ih =>
      rw [List.flatMap_cons] at hways
      cases hway : f way.1 way.2 with
      | nil =>
          rw [hway, List.nil_append] at hways
          obtain ⟨earlier, a, y, later, rfl, hnone, hhead⟩ := ih hways
          refine ⟨way :: earlier, a, y, later, rfl, ?_, hhead⟩
          intro other hother
          rcases List.mem_cons.mp hother with rfl | hother
          · exact hway
          · exact hnone other hother
      | cons first more =>
          rw [hway, List.cons_append, List.head?_cons] at hways
          refine ⟨[], way.1, way.2, ways, rfl,
            fun _ hmem => absurd hmem List.not_mem_nil, ?_⟩
          rw [hway, List.head?_cons]
          exact hways

/-- Of any characters: none, and then ever more. -/
theorem manyLazy_any (x : Place) :
    manyLazy (fun _ => true) x = (List.range (x.rest.length + 1)).map fun k =>
      (x.rest.take k, ⟨(x.rest.take k).reverse ++ x.before, x.rest.drop k⟩) := by
  obtain ⟨before, rest⟩ := x
  unfold manyLazy many
  dsimp only
  induction rest generalizing before with
  | nil => rfl
  | cons c rest ih =>
      have hrange : List.range ((c :: rest).length + 1) =
          0 :: (List.range (rest.length + 1)).map Nat.succ :=
        List.range_succ_eq_map
      rw [manyFrom, if_pos rfl, List.reverse_append, List.reverse_singleton,
        ← List.map_reverse, ih, hrange, List.map_cons, List.map_map,
        List.map_map]
      refine congrArg₂ List.cons rfl (List.map_congr_left fun k _ => ?_)
      simp

/-- Every beginning of what is taken was tried before it. -/
theorem mem_earlier {x y : Place} {earlier later : List (List Char × Place)}
    {front back : List Char} (hback : back ≠ [])
    (h : manyLazy (fun _ => true) x =
      earlier ++ (front ++ back, y) :: later) :
    ∃ z, (front, z) ∈ earlier ∧ StepsTo x front z := by
  rw [manyLazy_any] at h
  have hplace := congrArg (fun ways => ways[earlier.length]?) h
  have hall : ∀ k, k < earlier.length → earlier[k]? = .some
      (x.rest.take k,
        ⟨(x.rest.take k).reverse ++ x.before, x.rest.drop k⟩) := by
    intro k hk
    have hlength := congrArg List.length h
    rw [List.length_map, List.length_range, List.length_append,
      List.length_cons] at hlength
    rw [← List.getElem?_append_left hk, ← h, List.getElem?_map,
      List.getElem?_range (by omega)]
    rfl
  beta_reduce at hplace
  rw [List.getElem?_append_right le_rfl, Nat.sub_self, List.getElem?_cons_zero,
    List.getElem?_map, Option.map_eq_some_iff] at hplace
  obtain ⟨k, hk, heq⟩ := hplace
  have hindex : k = earlier.length := by
    rw [List.getElem?_eq_some_iff] at hk
    obtain ⟨hlt, hk⟩ := hk
    rw [List.getElem_range] at hk
    exact hk.symm
  obtain ⟨hbody, -⟩ := Prod.mk.inj heq
  have hprefix : front = x.rest.take front.length := by
    have hfront := congrArg (List.take front.length) hbody
    rw [List.take_left, List.take_take] at hfront
    have hlength := congrArg List.length hbody
    rw [List.length_take, List.length_append] at hlength
    rw [Nat.min_eq_left (by omega)] at hfront
    exact hfront.symm
  have hshort : front.length < earlier.length := by
    have hlength := congrArg List.length hbody
    rw [List.length_take, List.length_append] at hlength
    have hpos := List.length_pos_iff.mpr hback
    omega
  have hmem := List.mem_of_getElem? (hall front.length hshort)
  rw [← hprefix] at hmem
  refine ⟨_, hmem, ?_, rfl⟩
  conv_lhs => rw [← List.take_append_drop front.length x.rest]
  rw [← hprefix]

/-! ## Matches of a text

Each match is the first way at its own place. -/

theorem first_of_matchFrom {q : Pattern α} {skip : ℕ}
    {before rest : List Char} {a : α} (h : a ∈ matchFrom q skip before rest) :
    ∃ word x y, StepsTo ⟨before, rest⟩ word x ∧
      (q x).head? = .some (a, y) := by
  induction rest generalizing before skip with
  | nil =>
      cases skip with
      | zero =>
          obtain ⟨m, hm, rfl⟩ := List.mem_map.mp h
          exact ⟨[], _, m.2, .refl _, Option.mem_toList.mp hm⟩
      | succ skip => exact absurd h List.not_mem_nil
  | cons c rest ih =>
      have hone : StepsTo ⟨before, c :: rest⟩ [c] ⟨c :: before, rest⟩ :=
        ⟨rfl, rfl⟩
      have hlater : ∀ {skip}, a ∈ matchFrom q skip (c :: before) rest →
          ∃ word x y, StepsTo ⟨before, c :: rest⟩ word x ∧
            (q x).head? = .some (a, y) := by
        intro skip hmem
        obtain ⟨word, x, y, hsteps, hmatch⟩ := ih hmem
        exact ⟨_, x, y, hone.trans hsteps, hmatch⟩
      cases skip with
      | zero =>
          unfold matchFrom at h
          split at h
          next m hm =>
            rcases List.mem_cons.mp h with rfl | h
            · exact ⟨[], _, m.2, .refl _, hm⟩
            · exact hlater h
          next => exact hlater h
      | succ skip => exact hlater h

/-- A match is the first way at some place of the text. -/
theorem first_of_matchAll {q : Pattern α} {text : List Char} {a : α}
    (h : a ∈ matchAll q text) : ∃ word x y, StepsTo ⟨[], text⟩ word x ∧
      (q x).head? = .some (a, y) :=
  first_of_matchFrom h

end Pattern

end Shozee.Run
