import Provision.Proofs.Evaluation.Outcome

/-!
# Statements and steps from operations

Statements and steps are put together from a few operations on the recipe that is built: text is
resolved, a resource is added, a definition is invoked or registered, a file is included. What can
be said of these operations, and of one computation after another, can be said of statements and
steps of every kind. A `Judgement` is what is said. It may be about one run, about two runs that
are compared, or about a run for each depth, so there is a computation for each run, and there
are the results of all of them.
-/

namespace Provision

variable {ι : Type}

/-- Something that does not depend on the run. -/
def Common {α : Type} (a : ι → α) : Prop := ∃ b, a = fun _ => b

/-- Something that is said of computations, one for each run. -/
structure Judgement (ι : Type) where
  /-- It is said of some computations, and something else of the results of those that succeed. -/
  Holds {α : Type} (V : (ι → α) → Prop) (x : ι → Run α) : Prop
  /-- It can be said of doing nothing. -/
  pure {α : Type} {V : (ι → α) → Prop} {a : α} (ha : V fun _ => a) : Holds V fun _ => Pure.pure a
  /-- It can be said of one computation after another. -/
  bind {α β : Type} {V : (ι → α) → Prop} {W : (ι → β) → Prop} {x : ι → Run α} {f : ι → α → Run β}
    (hx : Holds V x) (hf : ∀ a, V a → Holds W fun i => f i (a i)) : Holds W fun i => x i >>= f i

/-- The statements that a step performs, or does as much as. -/
def Step.performed : Step → List Statement
  | .resource kind name block => [.declare kind.keyword name block]
  | .declare keyword name block => [.declare keyword name block]
  | .includeRecipe target => [.includeRecipe target]
  | .evaluate list => list
  | .meaning keyword => [.declare keyword "" none]
  | _ => []

namespace Judgement

/-- A keyword stands for the same in all runs: for nothing only if that may be a failure, and for a
definition only if its body may be built. -/
def Means (J : Judgement ι) (Builds : Body → Prop) (keyword : String)
    (m : ι → Option Meaning) : Prop :=
  ∃ meaning, (m = fun _ => meaning) ∧
    (meaning = none → J.Holds Common fun _ => (Run.fail (.unknownOperation keyword) : Run Unit)) ∧
    ∀ d, meaning = some (.definition d) → Builds d.body

/-- The operations that statements are put together from. -/
structure Statements (J : Judgement ι) (host : Host) (expand : ι → Expansion) (c : ι → Context)
    (Performs : Statement → Prop) (Builds : Body → Prop) : Prop where
  /-- An operation on the recipe begins. -/
  act : J.Holds Common fun i => Run.happen (.act (c i).recipe)
  /-- The identifier of a declaration is resolved. -/
  identifier (keyword identifier : String) (block : Option Block)
    (h : Performs (.declare keyword identifier block)) :
    J.Holds Common fun i => Run.building ((c i).scope.buildText identifier)
  /-- It is looked up what the keyword of a declaration stands for. -/
  meaning (keyword identifier : String) (block : Option Block)
    (h : Performs (.declare keyword identifier block)) :
    J.Holds (J.Means Builds keyword) fun _ => Context.meaning? keyword
  /-- A resource is added. -/
  resource (keyword identifier : String) (block : Option Block)
    (h : Performs (.declare keyword identifier block)) (kind : Kind) (name : String) :
    J.Holds Common fun i => (c i).addResource kind name block
  /-- A definition is invoked. -/
  invoke (keyword identifier : String) (block : Option Block)
    (h : Performs (.declare keyword identifier block)) (d : Definition) (hd : Builds d.body)
    (name : String) : J.Holds Common fun i => (c i).invoke (expand i) d name block
  /-- A definition that is written down is registered. -/
  define (name : String) (parameters : OrderedMap Value) (body : List Statement)
    (h : Performs (.define name parameters body)) :
    J.Holds Common fun _ => Context.define ⟨name, parameters, .statements body⟩
  /-- The target of an inclusion is resolved. -/
  target (target : String) (h : Performs (.includeRecipe target)) :
    J.Holds Common fun i => Run.building ((c i).scope.buildText target)
  /-- A file is included. -/
  inclusion (target : String) (h : Performs (.includeRecipe target)) (resolved : String) :
    J.Holds Common fun i => (c i).includeRecipe host (expand i) resolved

/-- The operations that steps are put together from. -/
structure Steps (J : Judgement ι) (host : Host) (expand : ι → Expansion) (c : ι → Context)
    (Performs : Statement → Prop) (Builds : Body → Prop) (Takes : Step → Prop)
    (Answers : (ι → Answer) → Prop) (Caught : (ι → Except Failure Answer) → Prop) : Prop
    extends J.Statements host expand c Performs Builds where
  /-- What a step performs may be performed. -/
  performs {st : Step} (h : Takes st) : ∀ s ∈ st.performed, Performs s
  /-- The same answer in all runs is an answer. -/
  same (a : Answer) : Answers fun _ => a
  /-- A definition with any body is registered. -/
  register (name : String) (parameters : OrderedMap Value) (body : Body)
    (h : Takes (.define name parameters body)) :
    J.Holds Common fun _ => Context.define ⟨name, parameters, body⟩
  /-- A step fails of itself. -/
  fail (f : Failure) (h : Takes (.fail f)) : J.Holds Answers fun _ => Run.fail f
  /-- A name of the scope is read. -/
  read (name : String) : J.Holds Common fun i => Run.reading ((c i).scope.read? name)
  /-- A name of the scope is read with an argument. -/
  call (name : String) (argument : Value) :
    J.Holds Common fun i => Run.reading ((c i).scope.call? name argument)
  /-- The number of the recipe is asked for. -/
  current : J.Holds Answers fun i => Pure.pure (.recipe (c i).recipe)
  /-- A failure is caught. -/
  attempt {x : ι → Run Answer} (hx : J.Holds Answers x) : J.Holds Caught fun i => (x i).attempt
  /-- An answer is recorded, and a failure that was caught is passed on. -/
  record {answer : ι → Except Failure Answer} (h : Caught answer) :
    J.Holds Common fun i => do
      modify fun e => { e with trace := e.trace ++ [answer i] }
      let _ ← Run.ofExcept (answer i)
  /-- What comes after a step that may fail does not depend on the run. -/
  next (first : Step) (next : Except Failure Observation → List Step)
    (h : Takes (.attempt first next)) :
    Takes first ∧ ∀ answer : ι → Except Failure Answer, Caught answer →
      ∃ seen, (∀ st ∈ next seen, Takes st) ∧
        ∀ i, next ((answer i).map (·.observation)) = next seen

variable {J : Judgement ι} {host : Host} {expand : ι → Expansion} {c : ι → Context}
  {Performs : Statement → Prop} {Builds : Body → Prop}

namespace Statements

/-- It can be said of fewer statements, too. -/
theorem mono (h : J.Statements host expand c Performs Builds) {Performs' : Statement → Prop}
    (hle : ∀ s, Performs' s → Performs s) : J.Statements host expand c Performs' Builds where
  act := h.act
  identifier keyword identifier block hs := h.identifier keyword identifier block (hle _ hs)
  meaning keyword identifier block hs := h.meaning keyword identifier block (hle _ hs)
  resource keyword identifier block hs := h.resource keyword identifier block (hle _ hs)
  invoke keyword identifier block hs := h.invoke keyword identifier block (hle _ hs)
  define name parameters body hs := h.define name parameters body (hle _ hs)
  target target hs := h.target target (hle _ hs)
  inclusion target hs := h.inclusion target (hle _ hs)

/-- A keyword that is declared stands for a kind, for a definition or for nothing. -/
theorem declare (h : J.Statements host expand c Performs Builds) (keyword identifier : String)
    (block : Option Block) (hs : Performs (.declare keyword identifier block)) (name : String) :
    J.Holds Common fun i => (c i).declare (expand i) keyword name block := by
  refine J.bind (h.meaning keyword identifier block hs) ?_
  rintro _ ⟨meaning, rfl, hnone, hbody⟩
  match meaning with
  | none => exact hnone rfl
  | some (.kind kind) => exact h.resource keyword identifier block hs kind name
  | some (.definition d) => exact h.invoke keyword identifier block hs d (hbody d rfl) name

/-- It can be said of a statement. -/
theorem perform (h : J.Statements host expand c Performs Builds) {s : Statement}
    (hs : Performs s) : J.Holds Common fun i => (c i).perform host (expand i) s := by
  refine J.bind h.act fun _ _ => ?_
  cases s with
  | declare keyword identifier block =>
    refine J.bind (h.identifier keyword identifier block hs) ?_
    rintro _ ⟨name, rfl⟩
    exact h.declare keyword identifier block hs name
  | define name parameters body => exact h.define name parameters body hs
  | includeRecipe target =>
    refine J.bind (h.target target hs) ?_
    rintro _ ⟨resolved, rfl⟩
    exact h.inclusion target hs resolved

/-- It can be said of statements in order. -/
theorem performAll (h : J.Statements host expand c Performs Builds) {list : List Statement}
    (hlist : ∀ s ∈ list, Performs s) :
    J.Holds Common fun i => (c i).performAll host (expand i) list := by
  induction list with
  | nil => exact J.pure ⟨(), rfl⟩
  | cons s rest ih =>
    obtain ⟨hs, hrest⟩ := List.forall_mem_cons.mp hlist
    exact J.bind (h.perform hs) fun _ _ => ih hrest

end Statements

namespace Steps

variable {Takes : Step → Prop} {Answers : (ι → Answer) → Prop}
  {Caught : (ι → Except Failure Answer) → Prop}

/-- The answer to a step is recorded, and a failure passed on. -/
theorem traced (h : J.Steps host expand c Performs Builds Takes Answers Caught) {x : ι → Run Answer}
    (hx : J.Holds Answers x) : J.Holds Common fun i => Context.traced (x i) :=
  J.bind (h.attempt hx) fun _ hanswer => h.record hanswer

/-- An operation that has no other answer than to be done. -/
theorem done (h : J.Steps host expand c Performs Builds Takes Answers Caught) {x : ι → Run Unit}
    (hx : J.Holds Common x) : J.Holds Answers fun i => do x i; return .done :=
  J.bind hx fun _ _ => J.pure (h.same .done)

/-- An operation on the recipe that is built. -/
theorem act_done (h : J.Steps host expand c Performs Builds Takes Answers Caught) {x : ι → Run Unit}
    (hx : J.Holds Common x) :
    J.Holds Answers fun i => do Run.happen (.act (c i).recipe); x i; return .done :=
  J.bind h.act fun _ _ => h.done hx

mutual

/-- It can be said of a step. -/
theorem step (h : J.Steps host expand c Performs Builds Takes Answers Caught) {st : Step}
    (hst : Takes st) : J.Holds Answers fun i => (c i).step host (expand i) st := by
  match st with
  | .resource kind name block =>
    exact h.act_done (h.resource kind.keyword name block (h.performs hst _ (.head _)) kind name)
  | .declare keyword name block =>
    exact h.act_done (h.declare keyword name block (h.performs hst _ (.head _)) name)
  | .define name parameters body => exact h.act_done (h.register name parameters body hst)
  | .includeRecipe target =>
    exact h.act_done (h.inclusion target (h.performs hst _ (.head _)) target)
  | .evaluate list => exact h.done (h.performAll (h.performs hst))
  | .fail f => exact h.fail f hst
  | .read name =>
    refine J.bind (h.read name) ?_
    rintro _ ⟨v, rfl⟩
    exact J.pure (h.same (.value v))
  | .call name argument =>
    refine J.bind (h.call name argument) ?_
    rintro _ ⟨v, rfl⟩
    exact J.pure (h.same (.value v))
  | .current => exact h.current
  | .meaning keyword =>
    refine J.bind (h.meaning keyword "" none (h.performs hst _ (.head _))) ?_
    rintro _ ⟨meaning, rfl, -⟩
    exact J.pure (h.same (.meaning meaning))
  | .attempt first next =>
    obtain ⟨hfirst, hnext⟩ := h.next first next hst
    refine J.bind (h.attempt (step h hfirst)) fun answer hanswer => ?_
    obtain ⟨seen, hseen, hsame⟩ := hnext answer hanswer
    simp only [hsame]
    exact h.done (stepAll h hseen)

/-- It can be said of steps in order. -/
theorem stepAll (h : J.Steps host expand c Performs Builds Takes Answers Caught) {list : List Step}
    (hlist : ∀ st ∈ list, Takes st) :
    J.Holds Common fun i => (c i).stepAll host (expand i) list := by
  match list with
  | [] => exact J.pure ⟨(), rfl⟩
  | st :: rest =>
    obtain ⟨hst, hrest⟩ := List.forall_mem_cons.mp hlist
    exact J.bind (h.traced (step h hst)) fun _ _ => stepAll h hrest

end

end Steps

end Judgement

/-! ### One run -/

/-- Something that is said of a single run from a state. -/
structure Assertion where
  /-- What holds of the state before a run, and after it if it succeeds. -/
  Kept (s : Evaluation) : Prop
  /-- What is said of the run. -/
  Holds {α : Type} (x : Run α) (s : Evaluation) : Prop
  /-- It can be said of doing nothing. -/
  pure {α : Type} (a : α) {s : Evaluation} (hs : Kept s) : Holds (Pure.pure a) s
  /-- A run of which it is said keeps the rest. -/
  kept {α : Type} {x : Run α} {a : α} {s t : Evaluation} (hs : Kept s) (hx : Holds x s)
    (hr : x.outcome s = (.ok a, t)) : Kept t
  /-- It can be said of one run after another. -/
  bind {α β : Type} {x : Run α} {f : α → Run β} {s : Evaluation} (hx : Holds x s)
    (hf : ∀ a t, x.outcome s = (.ok a, t) → Holds (f a) t) : Holds (x >>= f) s

namespace Assertion

/-- It is said of the run from every state for which the rest holds. -/
def judgement (A : Assertion) : Judgement Unit where
  Holds V x := ∀ s, A.Kept s →
    A.Holds (x ()) s ∧ ∀ a t, (x ()).outcome s = (.ok a, t) → V fun _ => a
  pure ha s hs := ⟨A.pure _ hs, by
    rintro _ _ h
    cases h
    exact ha⟩
  bind hx hf s hs := by
    obtain ⟨hholds, hresult⟩ := hx s hs
    refine ⟨A.bind hholds fun a t hr => ?_, fun b u hr => ?_⟩
    · exact (hf _ (hresult a t hr) t (A.kept hs hholds hr)).1
    · obtain ⟨a, t, ha, hb⟩ := Run.outcome_bind_eq_ok hr
      exact (hf _ (hresult a t ha) t (A.kept hs hholds ha)).2 b u hb

/-- Something that is so of every result need not be shown of it. -/
theorem holds {A : Assertion} {α : Type} {V : (Unit → α) → Prop} (hV : ∀ a, V fun _ => a)
    {x : Run α} (h : ∀ s, A.Kept s → A.Holds x s) : A.judgement.Holds V fun _ => x :=
  fun s hs => ⟨h s hs, fun a _ _ => hV a⟩

/-- There is one run, so that results are common. -/
theorem common {A : Assertion} {α : Type} {x : Run α} (h : ∀ s, A.Kept s → A.Holds x s) :
    A.judgement.Holds Common fun _ => x := holds (fun a => ⟨a, rfl⟩) h

end Assertion

/-! ### The same run twice -/

/-- Of two computations it is said that they are the same. -/
def sameness : Judgement Bool where
  Holds V x := x false = x true ∧ ∀ s a t, (x false).outcome s = (.ok a, t) → V fun _ => a
  pure ha := ⟨rfl, by
    rintro _ _ _ h
    cases h
    exact ha⟩
  bind {_ _ _ _ x f} hx hf := by
    obtain ⟨hsame, hresult⟩ := hx
    refine ⟨funext fun s => ?_, fun s b u hr => ?_⟩
    · change (x false >>= f false).outcome s = (x true >>= f true).outcome s
      rw [Run.outcome_bind, Run.outcome_bind, ← hsame]
      rcases hr : (x false).outcome s with ⟨stop | a, t⟩
      · rfl
      · exact congrArg (Run.outcome · t) (hf _ (hresult s a t hr)).1
    · obtain ⟨a, t, ha, hb⟩ := Run.outcome_bind_eq_ok hr
      exact (hf _ (hresult s a t ha)).2 t b u hb

/-- Equal computations are the same, and so are their results. -/
theorem sameness_of_eq {α : Type} {x : Bool → Run α} (h : x false = x true) :
    sameness.Holds Common x := ⟨h, fun _ a _ _ => ⟨a, rfl⟩⟩

end Provision
