import Provision.Proofs.Scope.Agreement

/-!
# The pieces of a template

A text is literal up to its first pair of opening braces. If a pair of closing braces follows,
what stands between the two is a placeholder, and the rest is divided in the same way; if none
follows, the rest is literal. In a scope of constants a template resolves to what its pieces
leave in the text one after the other, and what they leave is never looked at as a template.
-/

namespace Provision

namespace Template

/-- A piece of a template. -/
inductive Piece where
  | literal (text : List Char)
  /-- The path of a placeholder, without blanks around it. -/
  | placeholder (key : String)
  deriving DecidableEq, Inhabited

/-- How a text falls into pieces. -/
inductive Splits : List Char → List Piece → Prop
  /-- No pair of opening braces is followed by a pair of closing ones. -/
  | rest {cs : List Char}
      (hopen : ∀ before inside, cs = before ++ '\x7b' :: '\x7b' :: inside →
        ¬['\x7d', '\x7d'] <:+: inside) : Splits cs [.literal cs]
  /-- The first pair of opening braces is closed by the first pair of closing ones behind it. -/
  | placeholder {before key after : List Char} {pieces : List Piece}
      (hopen : ¬['\x7b', '\x7b'] <:+: before ++ ['\x7b'])
      (hclose : ¬['\x7d', '\x7d'] <:+: key ++ ['\x7d']) (hafter : Splits after pieces) :
      Splits (before ++ '\x7b' :: '\x7b' :: (key ++ '\x7d' :: '\x7d' :: after))
        (.literal before :: .placeholder (String.ofList (Text.trim key)) :: pieces)

end Template

/-! ### Every text falls into pieces in one way -/

section

variable {c : Char} {cs before after : List Char}

/-- A pair at the front of a text is not in the rest of it. -/
theorem pair_infix_cons {a b : Char} (h : ¬(a = c ∧ b = c)) :
    [c, c] <:+: a :: b :: cs ↔ [c, c] <:+: b :: cs := by
  rw [List.infix_cons_iff, or_iff_right]
  rintro ⟨rest, hrest⟩
  cases hrest
  exact h ⟨rfl, rfl⟩

/-- A text is not broken exactly if it has no pair. -/
theorem breakAtDouble_eq_none_iff : breakAtDouble c cs = none ↔ ¬[c, c] <:+: cs := by
  fun_induction breakAtDouble c cs with
  | case1 a b cs h =>
    have hhere : [c, c] <:+: a :: b :: cs := ⟨[], cs, by rw [h.1, h.2]; rfl⟩
    simp [hhere]
  | case2 a b cs h ih => rw [Option.map_eq_none_iff, ih, pair_infix_cons h]
  | case3 cs h =>
    refine iff_of_true rfl fun hpair => ?_
    have hlength := hpair.length_le
    match cs with
    | [] => simp at hlength
    | [a] => simp at hlength
    | a :: b :: cs => exact h a b cs rfl

/-- A text is broken at a pair with none before it. -/
theorem breakAtDouble_append (h : ¬[c, c] <:+: before ++ [c]) :
    breakAtDouble c (before ++ c :: c :: after) = some (before, after) := by
  induction before with
  | nil => exact if_pos ⟨rfl, rfl⟩
  | cons a before ih =>
    have hrest : ¬[c, c] <:+: before ++ [c] :=
      fun hpair => h (hpair.trans (List.suffix_cons a _).isInfix)
    cases before with
    | nil =>
      have hne : a ≠ c := by
        rintro rfl
        exact h List.infix_rfl
      rw [List.cons_append, breakAtDouble_cons_of_ne hne, ih hrest, Option.map_some]
    | cons b before =>
      have hne : ¬(a = c ∧ b = c) := by
        rintro ⟨rfl, rfl⟩
        exact h ⟨[], before ++ [_], rfl⟩
      rw [List.cons_append, List.cons_append, breakAtDouble, if_neg hne, ← List.cons_append,
        ih hrest, Option.map_some]

/-- A break is at the first pair. -/
theorem breakAtDouble_eq_some_iff :
    breakAtDouble c cs = some (before, after) ↔
      cs = before ++ c :: c :: after ∧ ¬[c, c] <:+: before ++ [c] := by
  refine ⟨fun h => ⟨breakAtDouble_eq_some h, ?_⟩, fun ⟨hcs, h⟩ => hcs ▸ breakAtDouble_append h⟩
  fun_induction breakAtDouble c cs generalizing before with
  | case1 a b cs _ =>
    cases h
    intro hpair
    simpa using hpair.length_le
  | case2 a b cs hne ih =>
    obtain ⟨⟨first, second⟩, hrest, hp⟩ := Option.map_eq_some_iff.mp h
    cases hp
    have hfirst := ih hrest
    cases first with
    | nil =>
      cases breakAtDouble_eq_some hrest
      rwa [List.cons_append, List.nil_append, pair_infix_cons hne]
    | cons d first =>
      cases breakAtDouble_eq_some hrest
      rwa [List.cons_append, List.cons_append, pair_infix_cons hne]
  | case3 => cases h

/-- There is only one first pair. -/
theorem first_pair_unique {front behind : List Char} (h : ¬[c, c] <:+: before ++ [c])
    (h' : ¬[c, c] <:+: front ++ [c])
    (heq : before ++ c :: c :: after = front ++ c :: c :: behind) :
    before = front ∧ after = behind := by
  have hbreak : breakAtDouble c (before ++ c :: c :: after) = some (before, after) :=
    breakAtDouble_append h
  rw [heq, breakAtDouble_append h', Option.some.injEq, Prod.mk.injEq] at hbreak
  exact ⟨hbreak.1.symm, hbreak.2.symm⟩

/-- What follows any other pair is part of what follows the first one. -/
theorem suffix_of_pair {front behind : List Char} (h : ¬[c, c] <:+: before ++ [c])
    (heq : before ++ c :: c :: after = front ++ c :: c :: behind) : behind <:+ after := by
  by_cases hle : behind.length ≤ after.length
  · have hbehind : behind <:+ before ++ c :: c :: after := by
      rw [heq]
      exact ⟨front ++ [c, c], by simp⟩
    exact List.suffix_of_suffix_length_le hbehind ⟨before ++ [c, c], by simp⟩ hle
  · have hlength := congrArg List.length heq
    simp only [List.length_append, List.length_cons] at hlength
    have hfront : front ++ [c, c] <+: before ++ c :: c :: after := by
      rw [heq]
      exact ⟨behind, by simp⟩
    have hwithin : front ++ [c, c] <+: before ++ [c] :=
      List.prefix_of_prefix_length_le hfront ⟨c :: after, by simp⟩
        (by simp only [List.length_append, List.length_cons, List.length_nil]; omega)
    exact absurd ((List.suffix_append front [c, c]).isInfix.trans hwithin.isInfix) h

end

namespace Template

/-- The pieces of a text. -/
def pieces (cs : List Char) : List Piece :=
  match ho : breakAtDouble '\x7b' cs with
  | none => [.literal cs]
  | some (before, inside) =>
    match hc : breakAtDouble '\x7d' inside with
    | none => [.literal cs]
    | some (key, after) =>
      .literal before :: .placeholder (String.ofList (Text.trim key)) :: pieces after
termination_by cs.length
decreasing_by
  have := length_of_breakAtDouble ho
  have := length_of_breakAtDouble hc
  omega

/-- The pieces of a text are a way to split it. -/
theorem splits_pieces (cs : List Char) : Splits cs (pieces cs) := by
  fun_induction pieces cs with
  | case1 cs ho =>
    refine .rest fun before inside hcs => ?_
    exact absurd ⟨before, inside, by rw [hcs]; simp⟩ (breakAtDouble_eq_none_iff.mp ho)
  | case2 cs before inside ho hc =>
    obtain ⟨rfl, hopen⟩ := breakAtDouble_eq_some_iff.mp ho
    refine .rest fun front behind hcs hpair => ?_
    have hbehind := (suffix_of_pair hopen hcs).isInfix
    exact breakAtDouble_eq_none_iff.mp hc (hpair.trans hbehind)
  | case3 cs before inside ho key after hc ih =>
    obtain ⟨rfl, hopen⟩ := breakAtDouble_eq_some_iff.mp ho
    obtain ⟨rfl, hclose⟩ := breakAtDouble_eq_some_iff.mp hc
    exact .placeholder hopen hclose ih

/-- Every text can be split. -/
theorem exists_splits (cs : List Char) : ∃ pieces, Splits cs pieces := ⟨_, splits_pieces cs⟩

/-- There is only one way to split a text. -/
theorem Splits.unique {cs : List Char} {pieces others : List Piece} (h : Splits cs pieces)
    (h' : Splits cs others) : others = pieces := by
  have hrefuse {before key after : List Char}
      (hopen : ∀ front inside, before ++ '\x7b' :: '\x7b' :: (key ++ '\x7d' :: '\x7d' :: after) =
        front ++ '\x7b' :: '\x7b' :: inside → ¬['\x7d', '\x7d'] <:+: inside) : False :=
    hopen before _ rfl ⟨key, after, by simp⟩
  induction h generalizing others with
  | rest hopen =>
    cases h' with
    | rest => rfl
    | placeholder => exact (hrefuse hopen).elim
  | @placeholder before key after pieces hopen hclose hafter ih =>
    generalize hcs : before ++ '\x7b' :: '\x7b' :: (key ++ '\x7d' :: '\x7d' :: after) = cs at h'
    cases h' with
    | rest hopen' =>
      subst hcs
      exact (hrefuse hopen').elim
    | placeholder hopen' hclose' hafter' =>
      obtain ⟨rfl, hinside⟩ := first_pair_unique hopen hopen' hcs
      obtain ⟨rfl, rfl⟩ := first_pair_unique hclose hclose' hinside
      rw [ih hafter']

end Template

/-! ### Computations without reads -/

namespace Reads

variable {ε α β : Type} {x : ExceptT ε (StateM Reads) α} {f : α → ExceptT ε (StateM Reads) β}

/-- A computation has a result, whatever was read before, and reads nothing itself. -/
def Gives (x : ExceptT ε (StateM Reads) α) (result : Except ε α) : Prop :=
  ∀ r, x.run.run r = (result, r)

/-- A computation gives one result. -/
theorem Gives.unique {result other : Except ε α} (h : Gives x result) (h' : Gives x other) :
    other = result := congrArg Prod.fst ((h' []).symm.trans (h []))

/-- A value is given without reading anything. -/
theorem gives_pure (a : α) : Gives (pure a : ExceptT ε (StateM Reads) α) (.ok a) := fun _ => rfl

/-- What follows on a value gives what it gives for this value. -/
theorem Gives.bind {a : α} {result : Except ε β} (hx : Gives x (.ok a))
    (hf : Gives (f a) result) : Gives (x >>= f) result := by
  intro r
  rw [run_bind, hx r]
  exact hf r

/-- What would follow on a failure does not matter. -/
theorem Gives.bind_error {e : ε} (hx : Gives x (.error e)) : Gives (x >>= f) (.error e) := by
  intro r
  rw [run_bind, hx r]

/-- One computation after the other gives the one result after the other. -/
theorem Gives.and_then {result : Except ε α} {g : α → Except ε β} (hx : Gives x result)
    (hf : ∀ a, Gives (f a) (g a)) : Gives (x >>= f) (result >>= g) := by
  cases result with
  | ok a => exact hx.bind (hf a)
  | error e => exact hx.bind_error

/-- A function of the value is given in the same way. -/
theorem Gives.map {result : Except ε α} (hx : Gives x result) (g : α → β) :
    Gives (g <$> x) (result.map g) := by
  intro r
  rw [run_map, hx r]

end Reads

/-! ### What the pieces leave in the text -/

namespace Scope

variable {s : Scope}

/-- What a path leads to before anything is read. In a scope of constants it always does. -/
def find? (s : Scope) (path : String) : Option Value := ((s.lookup? path).run []).1

/-- A constant is read without a trace. -/
theorem Constant.read? (hs : s.Constant) (name : String) :
    ∃ v, s.read? name = pure v := by
  unfold Scope.read?
  cases hb : s.get? name with
  | none => exact ⟨none, rfl⟩
  | some b =>
    obtain ⟨v, rfl⟩ := hs name b hb
    exact ⟨some v, rfl⟩

/-- To look a path up in a scope of constants is to find what it leads to. -/
theorem Constant.lookup? (hs : s.Constant) (path : String) :
    s.lookup? path = pure (s.find? path) := by
  unfold find? Scope.lookup?
  cases segments path with
  | nil => rfl
  | cons name keys =>
    obtain ⟨v, hv⟩ := hs.read? name
    dsimp only
    rw [hv]
    rfl

end Scope

namespace Template

/-- What a piece leaves in the text. A path that leads nowhere is a failure that names it and
the template it stands in. -/
def Piece.written (s : Scope) (template : String) : Piece → Except Undefined (List Char)
  | .literal text => .ok text
  | .placeholder key =>
    match s.find? key with
    | some v => .ok v.chars
    | none => .error { name := key, template }

/-- What pieces leave in the text one after the other. The first failure is that of all. -/
def written (s : Scope) (template : String) (pieces : List Piece) :
    Except Undefined (List Char) :=
  (pieces.mapM (Piece.written s template)).map List.flatten

/-- Pieces are written one after another, up to the first that fails. -/
theorem written_cons (s : Scope) (template : String) (p : Piece) (pieces : List Piece) :
    written s template (p :: pieces) =
      (p.written s template).bind fun text => (written s template pieces).map (text ++ ·) := by
  rw [written, written, List.mapM_cons]
  cases p.written s template with
  | error e => rfl
  | ok text => cases pieces.mapM (Piece.written s template) <;> rfl

/-- A literal is written as it is. -/
theorem written_literal (s : Scope) (template : String) (text : List Char) :
    written s template [.literal text] = .ok text := by
  rw [written_cons]
  exact congrArg Except.ok (List.append_nil text)

end Template

namespace Scope

open Provision.Template

variable {s : Scope} (hs : s.Constant) (template : String)

include hs

/-- A placeholder gives what is found under its key. -/
theorem Constant.placeholder_some {key : String} {v : Value} (hv : s.find? key = some v) :
    Reads.Gives (s.placeholder template key) (.ok v) := by
  unfold Scope.placeholder
  rw [hs.lookup?, hv]
  exact fun _ => rfl

/-- It fails if nothing is found, with the key and the template. -/
theorem Constant.placeholder_none {key : String} (hv : s.find? key = none) :
    Reads.Gives (s.placeholder template key) (.error { name := key, template }) := by
  unfold Scope.placeholder
  rw [hs.lookup?, hv]
  exact fun _ => rfl

/-- In one pass over a text, the values of its placeholders are put in piece by piece. -/
theorem Constant.interpolate {cs : List Char} {pieces : List Piece} (h : Splits cs pieces) :
    Reads.Gives (s.interpolate template cs) (written s template pieces) := by
  induction h with
  | @rest cs hopen =>
    rw [written_literal]
    cases ho : breakAtDouble '\x7b' cs with
    | none =>
      rw [s.interpolate_of_none template ho]
      exact Reads.gives_pure cs
    | some opened =>
      obtain ⟨before, inside⟩ := opened
      have hclose := breakAtDouble_eq_none_iff.mpr (hopen _ _ (breakAtDouble_eq_some ho))
      rw [s.interpolate_of_some template ho, hclose]
      exact Reads.gives_pure cs
  | @placeholder before key after pieces hopen hclose hafter ih =>
    rw [s.interpolate_of_some template (breakAtDouble_append hopen), breakAtDouble_append hclose]
    dsimp only
    rw [written_cons, written_cons, Piece.written, Piece.written]
    cases hv : s.find? (String.ofList (Text.trim key)) with
    | none => exact (hs.placeholder_none template hv).bind_error
    | some v =>
      refine (hs.placeholder_some template hv).bind ?_
      have hrest := ih.map fun rest => before ++ v.chars ++ rest
      cases hwritten : written s template pieces with
      | error e =>
        rw [hwritten] at hrest
        exact hrest
      | ok rest =>
        rw [hwritten, Except.map, List.append_assoc] at hrest
        exact hrest

end Scope

/-! ### Rewriting does what the pieces say -/

namespace Scope

open Provision.Template

/-- In a scope of constants, a template is rewritten in place to what its pieces leave in the
text one after the other: it falls into pieces in one way only, and what is put in for one of
them is not looked at again, whatever braces it holds and whatever follows. The first path that
leads nowhere is the failure. The text is only ever cut between two characters. -/
theorem Constant.resolveText_splits {s : Scope} (hs : s.Constant) (template : String) :
    ∃ pieces, (∀ others, Splits template.toList others ↔ others = pieces) ∧
      Reads.Gives (s.rewrite template 0 template.toList)
        ((written s template pieces).map some) ∧
      Reads.Gives (s.resolveText template)
        ((written s template pieces).map String.ofList) := by
  obtain ⟨pieces, hpieces⟩ := exists_splits template.toList
  have hpass := hs.interpolate template hpieces
  refine ⟨pieces, fun others => ⟨hpieces.unique, fun h => h ▸ hpieces⟩, ?_, ?_⟩
  · have hrewrite : s.rewrite template 0 template.toList = _ :=
      s.rewrite_eq_interpolate template [] template.toList
    rw [hrewrite]
    exact hpass.map _
  · rw [s.resolveText_eq_interpolate]
    exact hpass.map _

/-- A scope in which `a` is `}} {{b` and `b` is `{{ a`. -/
def braced : Scope :=
  OrderedMap.ofList [("a", .constant (.string "\x7d\x7d \x7b\x7bb")),
    ("b", .constant (.string "\x7b\x7b a"))]

/-- That scope is one of constants. -/
theorem constant_braced : braced.Constant :=
  OrderedMap.forall_insert (OrderedMap.forall_insert nofun ⟨_, rfl⟩) ⟨_, rfl⟩

/-- The template `é{{ a }}}}{{b}}`. -/
def bracing : String := "é\x7b\x7b a \x7d\x7d\x7d\x7d\x7b\x7bb\x7d\x7d"

/-- The braces of a value make no placeholder, not even with those that follow. -/
theorem Constant.resolveText_splits_braced :
    braced.Constant ∧
      Splits bracing.toList [.literal ['é'], .placeholder "a", .literal ['\x7d', '\x7d'],
        .placeholder "b", .literal []] ∧
      Reads.Gives (braced.resolveText bracing) (.ok "é\x7d\x7d \x7b\x7bb\x7d\x7d\x7b\x7b a") := by
  have hsplits : Splits bracing.toList [.literal ['é'], .placeholder "a",
      .literal ['\x7d', '\x7d'], .placeholder "b", .literal []] :=
    @Splits.placeholder ['é'] [' ', 'a', ' '] _ _ (by decide) (by decide)
      (@Splits.placeholder ['\x7d', '\x7d'] ['b'] _ _ (by decide) (by decide)
        (.rest (by simp)))
  obtain ⟨pieces, hunique, -, hgives⟩ := constant_braced.resolveText_splits bracing
  cases (hunique _).mp hsplits
  exact ⟨constant_braced, hsplits, hgives⟩

end Scope

end Provision
