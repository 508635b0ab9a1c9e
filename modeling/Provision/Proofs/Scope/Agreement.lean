import Provision.Proofs.Evaluation.Outcome
import Provision.Proofs.Graph.Grafting
import Provision.Proofs.Scope.Rewriting

/-!
# Computations that agree

Two runs may resolve the same template in different scopes, after different reads. What they
build is the same if every name that the template mentions reads the same in both, and then
their reads are still related as they were. This is shown for the strings that templates are
written as, and from strings for values, for the attributes of an invocation and for resources.

Which templates are to be resolved may be limited: `AllTexts P` says of a value, a block or
a statement that `P` holds of every template in it.
-/

namespace Provision

/-- Two results are alike: they are values that are related, or the same failure. -/
inductive Alike {ε α β : Type} (V : α → β → Prop) : Except ε α → Except ε β → Prop
  | ok {a : α} {b : β} (h : V a b) : Alike V (.ok a) (.ok b)
  | error (e : ε) : Alike V (.error e) (.error e)

/-- Results that are alike up to equality are equal. -/
theorem Alike.eq {ε α : Type} {x y : Except ε α} (h : Alike Eq x y) : x = y := by
  cases h with
  | ok h => rw [h]
  | error e => rfl

/-- If the values correspond by a function, the results do. -/
theorem Alike.eq_map {ε α β : Type} {f : α → β} {x : Except ε α} {y : Except ε β}
    (h : Alike (fun a b => b = f a) x y) : y = x.map f := by
  cases h with
  | ok h => rw [h]; rfl
  | error e => rfl

/-- Functions that keep values related keep results alike. -/
theorem Alike.map {ε α β γ δ : Type} {V : α → β → Prop} {W : γ → δ → Prop} {x : Except ε α}
    {y : Except ε β} (h : Alike V x y) {f : α → γ} {g : β → δ}
    (hf : ∀ a b, V a b → W (f a) (g b)) : Alike W (x.map f) (y.map g) := by
  cases h with
  | ok h => exact .ok (hf _ _ h)
  | error e => exact .error e

/-- Less may be said of the results. -/
theorem Alike.imp {ε α β : Type} {V W : α → β → Prop} {x : Except ε α} {y : Except ε β}
    (h : Alike V x y) (hV : ∀ a b, V a b → W a b) : Alike W x y := by
  cases h with
  | ok h => exact .ok (hV _ _ h)
  | error e => exact .error e

/-- Failures may be put in another way. -/
theorem Alike.mapError {ε ε' α β : Type} {V : α → β → Prop} {x : Except ε α} {y : Except ε β}
    (h : Alike V x y) (f : ε → ε') : Alike V (x.mapError f) (y.mapError f) := by
  cases h with
  | ok h => exact .ok h
  | error e => exact .error (f e)

namespace Reads

/-- After related reads, two computations give the same and leave related reads. -/
def Same {α : Type} (ρ : Reads → Reads → Prop) (x y : StateM Reads α) : Prop :=
  ∀ r r', ρ r r' → (x.run r).1 = (y.run r').1 ∧ ρ (x.run r).2 (y.run r').2

/-- After related reads, two computations that may fail give alike results and leave related
reads. -/
def Agree {ε α β : Type} (ρ : Reads → Reads → Prop) (V : α → β → Prop)
    (x : ExceptT ε (StateM Reads) α) (y : ExceptT ε (StateM Reads) β) : Prop :=
  ∀ r r', ρ r r' → Alike V (x.run.run r).1 (y.run.run r').1 ∧ ρ (x.run.run r).2 (y.run.run r').2

variable {ε α β γ δ : Type} {ρ : Reads → Reads → Prop} {V : α → β → Prop} {W : γ → δ → Prop}

/-- The same value is given whatever was read. -/
theorem same_pure (a : α) : Same ρ (pure a) (pure a) := fun _ _ h => ⟨rfl, h⟩

/-- After the same reads, every computation gives the same as itself. -/
theorem same_self (x : StateM Reads α) : Same Eq x x := by
  rintro r _ rfl
  exact ⟨rfl, rfl⟩

/-- What gives the same can be put in sequence. -/
theorem Same.bind {x y : StateM Reads α} {f g : α → StateM Reads β} (hx : Same ρ x y)
    (hf : ∀ a, Same ρ (f a) (g a)) : Same ρ (x >>= f) (y >>= g) := by
  intro r r' h
  obtain ⟨ha, h'⟩ := hx r r' h
  have hrun (x : StateM Reads α) (f : α → StateM Reads β) (r : Reads) :
      (x >>= f).run r = (f (x.run r).1).run (x.run r).2 := rfl
  rw [hrun, hrun, ← ha]
  exact hf _ _ _ h'

/-- Related values are alike results. -/
theorem agree_pure {a : α} {b : β} (h : V a b) :
    Agree ρ V (pure a : ExceptT ε (StateM Reads) α) (pure b) := fun _ _ hr => ⟨.ok h, hr⟩

/-- The same failure is an alike result. -/
theorem agree_throw (e : ε) :
    Agree ρ V (throw e : ExceptT ε (StateM Reads) α) (throw e) := fun _ _ hr => ⟨.error e, hr⟩

/-- What agrees can be put in sequence. -/
theorem Agree.bind {x : ExceptT ε (StateM Reads) α} {y : ExceptT ε (StateM Reads) β}
    {f : α → ExceptT ε (StateM Reads) γ} {g : β → ExceptT ε (StateM Reads) δ}
    (hx : Agree ρ V x y) (hf : ∀ a b, V a b → Agree ρ W (f a) (g b)) :
    Agree ρ W (x >>= f) (y >>= g) := by
  intro r r' h
  obtain ⟨halike, h'⟩ := hx r r' h
  rw [run_bind, run_bind]
  revert halike h'
  rcases x.run.run r with ⟨a, s⟩
  rcases y.run.run r' with ⟨b, s'⟩
  intro halike h'
  cases halike with
  | ok hv => exact hf _ _ hv s s' h'
  | error e => exact ⟨.error e, h'⟩

/-- Functions that keep values related keep computations in agreement. -/
theorem Agree.map {x : ExceptT ε (StateM Reads) α} {y : ExceptT ε (StateM Reads) β}
    {f : α → γ} {g : β → δ} (hx : Agree ρ V x y) (hf : ∀ a b, V a b → W (f a) (g b)) :
    Agree ρ W (f <$> x) (g <$> y) := by
  rw [map_eq_pure_bind, map_eq_pure_bind]
  exact hx.bind fun a b h => agree_pure (hf a b h)

/-- A computation that does not fail of itself. -/
theorem Same.lift {x y : StateM Reads α} (hx : Same ρ x y) :
    Agree ρ Eq (ExceptT.lift x : ExceptT ε (StateM Reads) α) (ExceptT.lift y) := by
  intro r r' h
  obtain ⟨ha, h'⟩ := hx r r' h
  exact ⟨.ok ha, h'⟩

/-- Failures that are put in another way are alike as before. -/
theorem Agree.adapt {ε' : Type} {x : ExceptT ε (StateM Reads) α} {y : ExceptT ε (StateM Reads) β}
    (hx : Agree ρ V x y) (f : ε → ε') : Agree ρ V (x.adapt f) (y.adapt f) := by
  intro r r' h
  obtain ⟨halike, h'⟩ := hx r r' h
  exact ⟨halike.mapError f, h'⟩

end Reads

/-! ### Templates -/

section Templates

variable {s s' : Scope}

variable {ρ : Reads → Reads → Prop}

/-- Only names that are written in a path matter to what is found there. -/
theorem Scope.lookup?_same {path : String}
    (hread : ∀ name, name.toList <:+: path.toList → Reads.Same ρ (s.read? name) (s'.read? name)) :
    Reads.Same ρ (s.lookup? path) (s'.lookup? path) := by
  unfold lookup?
  cases hsegments : segments path with
  | nil => exact Reads.same_pure none
  | cons name keys =>
    have hwritten : name.toList <:+: path.toList :=
      infix_of_mem_segments (hsegments ▸ List.mem_cons_self)
    exact (hread name hwritten).bind fun v => Reads.same_pure _

/-- Only names that are written in a placeholder matter to what it gives. -/
theorem Scope.placeholder_agree (template : String) {key : String}
    (hread : ∀ name, name.toList <:+: key.toList → Reads.Same ρ (s.read? name) (s'.read? name)) :
    Reads.Agree ρ Eq (s.placeholder template key) (s'.placeholder template key) := by
  refine (Scope.lookup?_same hread).lift.bind ?_
  rintro v _ rfl
  cases v with
  | none => exact Reads.agree_throw _
  | some v => exact Reads.agree_pure rfl

/-- Only names that are mentioned in a text matter to what its placeholders give. -/
theorem Scope.interpolate_agree (template : String) {cs : List Char}
    (hread : ∀ name, Mentions cs name → Reads.Same ρ (s.read? name) (s'.read? name)) :
    Reads.Agree ρ Eq (s.interpolate template cs) (s'.interpolate template cs) := by
  induction hn : cs.length using Nat.strongRecOn generalizing cs with
  | _ n ih =>
    cases ho : breakAtDouble '\x7b' cs with
    | none =>
      rw [s.interpolate_of_none template ho, s'.interpolate_of_none template ho]
      exact Reads.agree_pure rfl
    | some p =>
      obtain ⟨before, inside⟩ := p
      rw [s.interpolate_of_some template ho, s'.interpolate_of_some template ho]
      cases hc : breakAtDouble '\x7d' inside with
      | none => exact Reads.agree_pure rfl
      | some q =>
        obtain ⟨key, after⟩ := q
        have hinside := length_of_breakAtDouble ho
        have hafter := length_of_breakAtDouble hc
        have hkey (name : String)
            (hname : name.toList <:+: (String.ofList (Text.trim key)).toList) :
            Reads.Same ρ (s.read? name) (s'.read? name) := by
          rw [String.toList_ofList] at hname
          exact hread name (mentions_of_breakAtDouble ho hc hname)
        have hrest (name : String) (hname : Mentions after name) :
            Reads.Same ρ (s.read? name) (s'.read? name) :=
          hread name (hname.of_suffix (suffix_of_breakAtDouble ho hc))
        refine (Scope.placeholder_agree template hkey).bind ?_
        rintro v _ rfl
        refine (ih after.length (by omega) hrest rfl).bind ?_
        rintro rest _ rfl
        exact Reads.agree_pure rfl

section Mentioned

variable {template : String}
  (hread : ∀ name, Mentions template.toList name → Reads.Same ρ (s.read? name) (s'.read? name))

include hread

/-- Where all the names that it mentions read the same, a template gives the same text. -/
theorem Scope.resolveText_agree :
    Reads.Agree ρ Eq (s.resolveText template) (s'.resolveText template) := by
  rw [s.resolveText_eq_interpolate, s'.resolveText_eq_interpolate]
  refine (Scope.interpolate_agree template hread).map ?_
  rintro cs _ rfl
  rfl

/-- It gives the same value. -/
theorem Scope.resolveString_agree :
    Reads.Agree ρ Eq (s.resolveString template) (s'.resolveString template) := by
  unfold resolveString
  cases hwhole : wholePlaceholder? template with
  | some key =>
    refine Scope.placeholder_agree template fun name hname => ?_
    exact hread name (mentions_of_wholePlaceholder hwhole hname)
  | none =>
    refine (Scope.resolveText_agree hread).map ?_
    rintro text _ rfl
    rfl

end Mentioned

end Templates

/-! ### Values, blocks and statements -/

mutual

/-- A property of every template in a value: of every string outside of keys and tags. -/
def Value.AllTexts (P : String → Prop) : Value → Prop
  | .string template => P template
  | .sequence items => AllTextsItems P items
  | .mapping entries => AllTextsEntries P entries
  | _ => True

/-- A property of every template in the items of a sequence. -/
def Value.AllTextsItems (P : String → Prop) : List Value → Prop
  | [] => True
  | v :: rest => v.AllTexts P ∧ AllTextsItems P rest

/-- A property of every template in the values of entries. -/
def Value.AllTextsEntries (P : String → Prop) : List (Value × Value) → Prop
  | [] => True
  | (_, v) :: rest => v.AllTexts P ∧ AllTextsEntries P rest

end

/-- A property of every template in a block. -/
structure Block.AllTexts (P : String → Prop) (b : Block) : Prop where
  attributes : ∀ e ∈ b.attributes.entries, e.2.AllTexts P
  notifies : ∀ n ∈ b.notifies, P n.target

mutual

/-- A property of every template in a statement. -/
def Statement.AllTexts (P : String → Prop) : Statement → Prop
  | .declare _ identifier block => P identifier ∧ (block.getD Block.empty).AllTexts P
  | .define _ _ body => AllTextsList P body
  | .includeRecipe target => P target

/-- A property of every template in statements. -/
def Statement.AllTextsList (P : String → Prop) : List Statement → Prop
  | [] => True
  | s :: rest => s.AllTexts P ∧ AllTextsList P rest

end

/-- A property of every template in statements is one of every statement. -/
theorem Statement.allTextsList_iff {P : String → Prop} {list : List Statement} :
    AllTextsList P list ↔ ∀ s ∈ list, s.AllTexts P := by
  induction list with
  | nil => simp [AllTextsList]
  | cons s rest ih => rw [AllTextsList, ih, List.forall_mem_cons]

section Decidable

variable {P : String → Prop} [DecidablePred P]

mutual

instance Value.decidableAllTexts : (v : Value) → Decidable (v.AllTexts P)
  | .null | .bool _ | .int _ | .float _ | .tagged _ _ => inferInstanceAs (Decidable True)
  | .string template => inferInstanceAs (Decidable (P template))
  | .sequence items => decidableAllTextsItems items
  | .mapping entries => decidableAllTextsEntries entries

instance Value.decidableAllTextsItems : (items : List Value) → Decidable (AllTextsItems P items)
  | [] => inferInstanceAs (Decidable True)
  | v :: rest =>
    have := decidableAllTexts v
    have := decidableAllTextsItems rest
    inferInstanceAs (Decidable (_ ∧ _))

instance Value.decidableAllTextsEntries :
    (entries : List (Value × Value)) → Decidable (AllTextsEntries P entries)
  | [] => inferInstanceAs (Decidable True)
  | (_, v) :: rest =>
    have := decidableAllTexts v
    have := decidableAllTextsEntries rest
    inferInstanceAs (Decidable (_ ∧ _))

end

instance Block.decidableAllTexts (b : Block) : Decidable (b.AllTexts P) :=
  decidable_of_iff ((∀ e ∈ b.attributes.entries, e.2.AllTexts P) ∧ ∀ n ∈ b.notifies, P n.target)
    ⟨fun ⟨h, h'⟩ => ⟨h, h'⟩, fun ⟨h, h'⟩ => ⟨h, h'⟩⟩

mutual

instance Statement.decidableAllTexts : (s : Statement) → Decidable (s.AllTexts P)
  | .declare _ _ _ => inferInstanceAs (Decidable (_ ∧ _))
  | .define _ _ body => decidableAllTextsList body
  | .includeRecipe target => inferInstanceAs (Decidable (P target))

instance Statement.decidableAllTextsList :
    (list : List Statement) → Decidable (AllTextsList P list)
  | [] => inferInstanceAs (Decidable True)
  | s :: rest =>
    have := decidableAllTexts s
    have := decidableAllTextsList rest
    inferInstanceAs (Decidable (_ ∧ _))

end

end Decidable

section All

variable {P : String → Prop}

mutual

/-- A property of all texts is one of those in any value. -/
theorem Value.allTexts_of_forall (h : ∀ template, P template) (v : Value) : v.AllTexts P := by
  match v with
  | .null | .bool _ | .int _ | .float _ | .tagged _ _ => trivial
  | .string template => exact h template
  | .sequence items => exact allTextsItems_of_forall h items
  | .mapping entries => exact allTextsEntries_of_forall h entries

/-- It is one of the texts in any items. -/
theorem Value.allTextsItems_of_forall (h : ∀ template, P template) (items : List Value) :
    AllTextsItems P items := by
  match items with
  | [] => trivial
  | v :: rest => exact ⟨allTexts_of_forall h v, allTextsItems_of_forall h rest⟩

/-- It is one of the texts in any entries. -/
theorem Value.allTextsEntries_of_forall (h : ∀ template, P template)
    (entries : List (Value × Value)) : AllTextsEntries P entries := by
  match entries with
  | [] => trivial
  | (_, v) :: rest => exact ⟨allTexts_of_forall h v, allTextsEntries_of_forall h rest⟩

end

/-- It is one of the texts in any block. -/
theorem Block.allTexts_of_forall (h : ∀ template, P template) (b : Block) : b.AllTexts P :=
  ⟨fun e _ => e.2.allTexts_of_forall h, fun n _ => h n.target⟩

mutual

/-- It is one of the texts in any statement. -/
theorem Statement.allTexts_of_forall (h : ∀ template, P template) (s : Statement) :
    s.AllTexts P := by
  match s with
  | .declare _ identifier block => exact ⟨h identifier, Block.allTexts_of_forall h _⟩
  | .define _ _ body => exact allTextsList_of_forall h body
  | .includeRecipe target => exact h target

/-- It is one of the texts in any statements. -/
theorem Statement.allTextsList_of_forall (h : ∀ template, P template) (list : List Statement) :
    AllTextsList P list := by
  match list with
  | [] => trivial
  | s :: rest => exact ⟨allTexts_of_forall h s, allTextsList_of_forall h rest⟩

end

end All

/-! ### Attributes and resources -/

/-- Two scopes agree on some templates. -/
structure Scope.Agree (ρ : Reads → Reads → Prop) (P : String → Prop) (s s' : Scope) : Prop where
  text : ∀ template, P template →
    Reads.Agree ρ Eq (s.resolveText template) (s'.resolveText template)
  string : ∀ template, P template →
    Reads.Agree ρ Eq (s.resolveString template) (s'.resolveString template)

/-- Scopes agree on the templates that mention only names which read the same in them. -/
theorem Scope.agree_of_mentions {s s' : Scope} {ρ : Reads → Reads → Prop} {P : String → Prop}
    (hread : ∀ template, P template → ∀ name, Mentions template.toList name →
      Reads.Same ρ (s.read? name) (s'.read? name)) : Agree ρ P s s' :=
  ⟨fun template h => resolveText_agree (hread template h),
    fun template h => resolveString_agree (hread template h)⟩

/-- Scopes in which every name reads the same agree on all templates. -/
theorem Scope.agree_of_read {s s' : Scope} {ρ : Reads → Reads → Prop} (P : String → Prop)
    (hread : ∀ name, Reads.Same ρ (s.read? name) (s'.read? name)) : Agree ρ P s s' :=
  agree_of_mentions fun _ _ name _ => hread name

/-- Every name of a scope is bound to a constant. -/
def Scope.Constant (s : Scope) : Prop :=
  ∀ name b, s.get? name = some b → ∃ v, b = .constant v

namespace Scope.Constant

variable {s : Scope}

/-- A scope of constants stays one with one more constant. -/
theorem insert (h : s.Constant) (name : String) (v : Value) :
    Scope.Constant (s.insert name (.constant v)) := OrderedMap.forall_insert h ⟨v, rfl⟩

/-- The reads so far do not matter to constants, and constants do not add to them. -/
theorem read?_same (h : s.Constant) (ρ : Reads → Reads → Prop) (name : String) :
    Reads.Same ρ (s.read? name) (s.read? name) := by
  unfold read?
  cases hb : s.get? name with
  | none => exact Reads.same_pure none
  | some b =>
    obtain ⟨v, rfl⟩ := h name b hb
    exact fun _ _ hr => ⟨rfl, hr⟩

/-- A call reads nothing of a scope of constants. -/
theorem call?_same (h : s.Constant) (ρ : Reads → Reads → Prop) (name : String) (argument : Value) :
    Reads.Same ρ (s.call? name argument) (s.call? name argument) := by
  unfold call?
  cases hb : s.get? name with
  | none => exact Reads.same_pure none
  | some b =>
    obtain ⟨v, rfl⟩ := h name b hb
    exact fun _ _ hr => ⟨rfl, hr⟩

end Scope.Constant

section Building

variable {s s' : Scope} {ρ : Reads → Reads → Prop} {P : String → Prop}

mutual

/-- A value resolves alike in scopes that agree on its templates. -/
theorem Scope.Agree.resolve (hs : s.Agree ρ P s') {v : Value} (hv : v.AllTexts P) :
    Reads.Agree ρ Eq (s.resolve v) (s'.resolve v) := by
  match v with
  | .null | .bool _ | .int _ | .float _ | .tagged _ _ => exact Reads.agree_pure rfl
  | .string template => exact hs.string template hv
  | .sequence items => exact (hs.resolveItems hv).map fun _ _ => congrArg _
  | .mapping entries => exact (hs.resolveEntries hv).map fun _ _ => congrArg _

/-- So do items. -/
theorem Scope.Agree.resolveItems (hs : s.Agree ρ P s') {items : List Value}
    (hitems : Value.AllTextsItems P items) :
    Reads.Agree ρ Eq (s.resolveItems items) (s'.resolveItems items) := by
  match items with
  | [] => exact Reads.agree_pure rfl
  | v :: rest =>
    refine (hs.resolve hitems.1).bind ?_
    rintro v _ rfl
    exact (hs.resolveItems hitems.2).map fun _ _ => congrArg _

/-- So do entries. -/
theorem Scope.Agree.resolveEntries (hs : s.Agree ρ P s') {entries : List (Value × Value)}
    (hentries : Value.AllTextsEntries P entries) :
    Reads.Agree ρ Eq (s.resolveEntries entries) (s'.resolveEntries entries) := by
  match entries with
  | [] => exact Reads.agree_pure rfl
  | (k, v) :: rest =>
    refine (hs.resolve hentries.1).bind ?_
    rintro v _ rfl
    exact (hs.resolveEntries hentries.2).map fun _ _ => congrArg _

end

/-- A value is built alike, since it resolves alike. -/
theorem Scope.Agree.build (hs : s.Agree ρ P s') {v : Value} (hv : v.AllTexts P) :
    Reads.Agree ρ Eq (s.build v) (s'.build v) := (hs.resolve hv).adapt Failure.undefined

/-- A text is built alike, since it resolves alike. -/
theorem Scope.Agree.buildText (hs : s.Agree ρ P s') {template : String} (h : P template) :
    Reads.Agree ρ Eq (s.buildText template) (s'.buildText template) :=
  (hs.text template h).adapt Failure.undefined

/-- A fold of steps that agree agrees. -/
theorem Reads.agree_foldlM {ε α β : Type} {ρ : Reads → Reads → Prop} {list : List α}
    {f g : β → α → ExceptT ε (StateM Reads) β}
    (h : ∀ b, ∀ a ∈ list, Reads.Agree ρ Eq (f b a) (g b a)) (b : β) :
    Reads.Agree ρ Eq (list.foldlM f b) (list.foldlM g b) := by
  induction list generalizing b with
  | nil => exact Reads.agree_pure rfl
  | cons a rest ih =>
    rw [List.foldlM_cons, List.foldlM_cons]
    refine (h b a List.mem_cons_self).bind ?_
    rintro b _ rfl
    exact ih (fun b a ha => h b a (List.mem_cons_of_mem _ ha)) b

/-- An invocation has the same attributes in both scopes. -/
theorem Definition.attributes_agree (hs : s.Agree ρ P s') (d : Definition) (argument : String)
    {block : Option Block} (hblock : (block.getD Block.empty).AllTexts P) :
    Reads.Agree ρ Eq (d.attributes s argument block) (d.attributes s' argument block) := by
  refine (Reads.agree_foldlM (fun attributes e he => ?_) d.parameters).map fun _ _ h => h ▸ rfl
  unfold Definition.set
  split
  · exact (hs.build (hblock.attributes e he)).map fun _ _ => congrArg _
  · exact Reads.agree_throw _

/-- A notification is the same from both scopes, but for the recipe that it is made in. -/
theorem Resource.notify_agree (hs : s.Agree ρ P s') (i j : Nat) {n : Notice} (hn : P n.target) :
    Reads.Agree ρ (fun a b => ∃ c : Notification,
      a = c.renumber (fun _ => i) ∧ b = c.renumber fun _ => j) (notify i s n) (notify j s' n) := by
  refine (hs.buildText hn).bind ?_
  rintro target _ rfl
  unfold Notification.make
  cases Timing.ofText? n.timing with
  | none => exact Reads.agree_throw _
  | some t => exact Reads.agree_pure ⟨⟨i, n.action, target, t⟩, rfl, rfl⟩

/-- Notifications are made alike in both scopes, but for the recipe that they come from. -/
theorem Resource.notifyAll_agree (hs : s.Agree ρ P s') (i j : Nat) {list : List Notice}
    (hlist : ∀ n ∈ list, P n.target) :
    Reads.Agree ρ (fun as bs => ∃ cs : List Notification,
      as = cs.map (·.renumber fun _ => i) ∧ bs = cs.map (·.renumber fun _ => j))
      (list.mapM (notify i s)) (list.mapM (notify j s')) := by
  induction list with
  | nil =>
    rw [List.mapM_nil, List.mapM_nil]
    exact Reads.agree_pure ⟨[], rfl, rfl⟩
  | cons n rest ih =>
    rw [List.mapM_cons, List.mapM_cons]
    refine (Resource.notify_agree hs i j (hlist n List.mem_cons_self)).bind ?_
    rintro _ _ ⟨c, rfl, rfl⟩
    refine (ih fun n hn => hlist n (List.mem_cons_of_mem _ hn)).bind ?_
    rintro _ _ ⟨cs, rfl, rfl⟩
    exact Reads.agree_pure ⟨c :: cs, rfl, rfl⟩

/-- A declaration gives the same resource in both scopes, but for the recipe that it is
declared in. -/
theorem Resource.make_agree (hs : s.Agree ρ P s') (kind : Kind) (name : String) (i j : Nat)
    {block : Option Block} (hblock : (block.getD Block.empty).AllTexts P) :
    Reads.Agree ρ (fun a b => ∃ x : Resource, a = x.ownedBy i ∧ b = x.ownedBy j)
      (make kind name i s block) (make kind name j s' block) := by
  unfold make
  refine (Reads.agree_foldlM (fun attributes e he => ?_) _).bind ?_
  · exact (hs.build (hblock.attributes e he)).map fun _ _ h => h ▸ rfl
  rintro attributes _ rfl
  have hnotified : Reads.Agree ρ (fun a b => ∃ x : Resource, a = x.ownedBy i ∧ b = x.ownedBy j)
      (do
        let notifications ← (block.getD Block.empty).notifies.mapM (notify i s)
        return { kind, name, recipe := i, attributes, notifications, directory := none,
                 node := none } : Building Resource)
      (do
        let notifications ← (block.getD Block.empty).notifies.mapM (notify j s')
        return { kind, name, recipe := j, attributes, notifications, directory := none,
                 node := none }) := by
    refine (Resource.notifyAll_agree hs i j hblock.notifies).bind ?_
    rintro _ _ ⟨cs, rfl, rfl⟩
    exact Reads.agree_pure ⟨⟨kind, name, i, attributes, cs, none, none⟩, rfl, rfl⟩
  cases attributes.get? "action" with
  | none => exact hnotified
  | some action =>
    dsimp only
    cases checkActions kind name action with
    | error f => exact Reads.agree_throw f
    | ok _ => exact hnotified

end Building

end Provision
