import Provision.Proofs.Evaluation.Operations
import Provision.Proofs.Evaluation.Walk
import Provision.Proofs.Scope.Agreement

/-!
# Runs that correspond

Two runs of the same operations may be told apart by the recipes that were begun before them,
by their scopes, or by where a recipe stands. `Correspondence` says what is compared, and
`Correspondence.Lawful` what has to be kept by each single event. From that it follows for
every operation, for statements and steps, and for bodies nested to any depth, that both runs
give alike results and keep corresponding.
-/

namespace Provision

/-! ### Bodies that do not depend on numbers -/

mutual

/-- A body is blind if what it does never depends on the number of the recipe that is built.
Statements have no way to ask for it. -/
def Body.Blind : Body → Prop
  | .statements _ => True
  | .steps list => Step.BlindAll list

/-- A step is blind if it goes on in the same way whatever number it learns. -/
def Step.Blind : Step → Prop
  | .define _ _ body => body.Blind
  | .attempt first next =>
    first.Blind ∧ (∀ id id', next (.ok (.recipe id)) = next (.ok (.recipe id'))) ∧
      ∀ answer, Step.BlindAll (next answer)
  | _ => True

/-- Every step of a list is blind. -/
def Step.BlindAll : List Step → Prop
  | [] => True
  | st :: rest => st.Blind ∧ Step.BlindAll rest

end

/-- The steps of a list are blind exactly if each of them is. -/
theorem Step.blindAll_iff {list : List Step} : BlindAll list ↔ ∀ st ∈ list, st.Blind := by
  induction list with
  | nil => simp [BlindAll]
  | cons st rest ih => rw [BlindAll, ih, List.forall_mem_cons]

/-- Every definition has a blind body. -/
def Definitions.Blind (ds : Definitions) : Prop :=
  ∀ name d, ds.get? name = some d → d.body.Blind

/-- Definitions stay blind when one with a blind body is registered. -/
theorem Definitions.Blind.register {ds : Definitions} (h : ds.Blind) {d : Definition}
    (hd : d.body.Blind) : Definitions.Blind (ds.register d) := OrderedMap.forall_insert h hd

/-! ### What corresponds -/

/-- How two runs are compared. -/
structure Correspondence where
  /-- The numbers of a recipe in the one run and in the other. -/
  number : Nat → Nat → Prop
  /-- The numbers of a recipe that may include files in both runs. -/
  includers : Nat → Nat → Prop
  /-- How far the runs have come. -/
  progress : Progress → Progress → Prop
  /-- The reads of lazy bindings. -/
  reads : Reads → Reads → Prop
  /-- The scopes in which contents are resolved. -/
  scopes : Scope → Scope → Prop
  /-- The templates that are resolved in them. -/
  texts : String → Prop

namespace Correspondence

/-- What happens in the one run and in the other. -/
inductive Events (R : Correspondence) : Event → Event → Prop
  | child {i j : Nat} (h : R.number i j) (r : Recipe) (hr : r.children = []) :
      Events R (.child i r) (.child j r)
  | resource {i j : Nat} (h : R.number i j) (x : Resource) :
      Events R (.resource i (x.ownedBy i)) (.resource j (x.ownedBy j))
  | define (d : Definition) : Events R (.define d) (.define d)
  | enter (path : Path) : Events R (.enter path) (.enter path)
  | leave : Events R .leave .leave
  | act {i j : Nat} (h : R.number i j) : Events R (.act i) (.act j)

/-- What a correspondence has to keep. -/
structure Lawful (R : Correspondence) : Prop where
  definitions : ∀ {p q}, R.progress p q → q.definitions = p.definitions
  stack : ∀ {p q}, R.progress p q → q.stack = p.stack
  size : ∀ {p q}, R.progress p q → R.number p.graph.size q.graph.size
  begun : ∀ {p q}, R.progress p q → R.includers p.graph.size q.graph.size
  path : ∀ {p q i j}, R.progress p q → R.number i j → (q.recipe j).path = (p.recipe i).path
  included : ∀ {p q i j}, R.progress p q → R.includers i j → ∀ path,
    Context.isIncluded q.graph (q.recipe j) path = Context.isIncluded p.graph (p.recipe i) path
  after : ∀ {p q e e'}, R.progress p q → R.Events e e' → R.progress (p.after e) (q.after e')
  agree : ∀ {s s'}, R.scopes s s' → s.Agree R.reads R.texts s'
  node : ∀ {s s'}, R.scopes s s' → Reads.Same R.reads (s.read? "node") (s'.read? "node")
  params : ∀ {s s'}, R.scopes s s' → ∀ v : Value,
    R.scopes (s.insert "params" (.constant v)) (s'.insert "params" (.constant v))

/-- Everything can be resolved and read in both scopes. -/
structure Total (R : Correspondence) : Prop where
  texts : ∀ template, R.texts template
  read : ∀ {s s'}, R.scopes s s' → ∀ name, Reads.Same R.reads (s.read? name) (s'.read? name)
  call : ∀ {s s'}, R.scopes s s' → ∀ name argument,
    Reads.Same R.reads (s.call? name argument) (s'.call? name argument)

/-- The bodies that both runs may build. Steps can do anything but tell numbers apart. -/
def Bodies (R : Correspondence) : Body → Prop
  | .statements list => Statement.AllTextsList R.texts list
  | .steps list => R.Total ∧ Step.BlindAll list

/-- Where everything can be resolved and read in both scopes, both runs may build every blind body.
-/
theorem bodies_of_total {R : Correspondence} (h : R.Total) {body : Body} (hbody : body.Blind) :
    R.Bodies body := by
  cases body with
  | statements list => exact Statement.allTextsList_of_forall h.texts list
  | steps list => exact ⟨h, by simpa [Body.Blind] using hbody⟩

/-- Both runs may build every recipe file. -/
def Files (R : Correspondence) (host : Host) : Prop :=
  ∀ path list, host.recipe path = .ok list → R.Bodies (.statements list)

/-- The states of the runs. -/
structure States (R : Correspondence) (s t : Evaluation) : Prop where
  progress : R.progress s.toProgress t.toProgress
  reads : R.reads s.reads t.reads
  bodies : ∀ name d, s.definitions.get? name = some d → R.Bodies d.body

/-- The recipes that are built, with their scopes. -/
structure Contexts (R : Correspondence) (c c' : Context) : Prop where
  number : R.number c.recipe c'.recipe
  scope : R.scopes c.scope c'.scope

/-- Two computations give alike results and leave corresponding states. -/
def Runs {α β : Type} (R : Correspondence) (V : α → β → Prop) (x : Run α) (y : Run β)
    (s t : Evaluation) : Prop :=
  Alike V (x.outcome s).1 (y.outcome t).1 ∧ R.States (x.outcome s).2 (y.outcome t).2

/-- The answers to a step. -/
inductive Answers (R : Correspondence) : Answer → Answer → Prop
  | same (a : Answer) : Answers R a a
  | recipe {i j : Nat} (h : R.number i j) : Answers R (.recipe i) (.recipe j)

/-- Bodies are built alike in corresponding contexts that may include files. -/
def Expands (R : Correspondence) (expand expand' : Expansion) : Prop :=
  ∀ {c c' : Context} {body : Body} {s t : Evaluation}, R.Contexts c c' →
    R.includers c.recipe c'.recipe → R.Bodies body → R.States s t →
    R.Runs Eq (expand c body) (expand' c' body) s t

/-! ### Computations -/

section Computations

variable {R : Correspondence} {α β γ δ : Type} {V : α → β → Prop} {W : γ → δ → Prop}
  {s t : Evaluation}

/-- Corresponding values are given without further ado. -/
theorem runs_pure {a : α} {b : β} (h : V a b) (hst : R.States s t) :
    R.Runs V (pure a) (pure b) s t := ⟨.ok h, hst⟩

/-- Less may be said of the results. -/
theorem Runs.imp {V' : α → β → Prop} {x : Run α} {y : Run β} (h : R.Runs V x y s t)
    (hV : ∀ a b, V a b → V' a b) : R.Runs V' x y s t := ⟨h.1.imp hV, h.2⟩

/-- Both runs fail in the same way. -/
theorem runs_fail (f : Failure) (hst : R.States s t) :
    R.Runs V (Run.fail f) (Run.fail f) s t := ⟨.error _, hst⟩

/-- What corresponds can be put in sequence. -/
theorem Runs.bind {x : Run α} {y : Run β} {f : α → Run γ} {g : β → Run δ}
    (hx : R.Runs V x y s t)
    (hf : ∀ a b s' t', V a b → R.States s' t' → R.Runs W (f a) (g b) s' t') :
    R.Runs W (x >>= f) (y >>= g) s t := by
  rw [Runs, Run.outcome_bind, Run.outcome_bind]
  obtain ⟨halike, hstates⟩ := hx
  revert halike hstates
  rcases x.outcome s with ⟨a, s'⟩
  rcases y.outcome t with ⟨b, t'⟩
  intro halike hstates
  cases halike with
  | ok hv => exact hf _ _ _ _ hv hstates
  | error stop => exact ⟨.error stop, hstates⟩

/-- A log entry is the same for both runs. -/
theorem runs_log (e : Log.Entry) (hst : R.States s t) :
    R.Runs Eq (Run.log e) (Run.log e) s t := ⟨.ok rfl, hst.progress, hst.reads, hst.bodies⟩

/-- What reads the same from both scopes gives the same values. -/
theorem runs_reading {x y : StateM Reads α} (h : Reads.Same R.reads x y) (hst : R.States s t) :
    R.Runs Eq (Run.reading x) (Run.reading y) s t := by
  obtain ⟨ha, hr⟩ := h s.reads t.reads hst.reads
  exact ⟨.ok ha, hst.progress, hr, hst.bodies⟩

/-- What is built from both scopes alike gives alike outcomes. -/
theorem runs_building {x : Building α} {y : Building β} (h : Reads.Agree R.reads V x y)
    (hst : R.States s t) : R.Runs V (Run.building x) (Run.building y) s t := by
  obtain ⟨halike, hr⟩ := h s.reads t.reads hst.reads
  rw [Runs, Run.building, Run.building, Run.outcome_bind, Run.outcome_bind, Run.outcome_reading,
    Run.outcome_reading]
  revert halike hr
  rcases StateT.run x.run s.reads with ⟨a, r⟩
  rcases StateT.run y.run t.reads with ⟨b, r'⟩
  intro halike hr
  have hread : R.States { s with reads := r } { t with reads := r' } :=
    ⟨hst.progress, hr, hst.bodies⟩
  cases halike with
  | ok hv => exact runs_pure hv hread
  | error f =>
    -- Only an invalid timing is logged and ends the run.
    rcases f with _ | _ | _ | _ | _ | _ | _ | _ | _ | _ | (_ | _ | word)
    case notification.invalidTiming =>
      exact ⟨.error _, hread.progress, hread.reads, hread.bodies⟩
    all_goals exact runs_fail _ hread

/-- Failures that are answered are the same in both runs. -/
theorem runs_attempt {x : Run α} {y : Run β} (h : R.Runs V x y s t) :
    R.Runs (Alike V) x.attempt y.attempt s t := by
  rw [Runs, Run.outcome_attempt, Run.outcome_attempt]
  obtain ⟨halike, hstates⟩ := h
  revert halike hstates
  rcases x.outcome s with ⟨a, s'⟩
  rcases y.outcome t with ⟨b, t'⟩
  intro halike hstates
  cases halike with
  | ok hv => exact ⟨.ok (.ok hv), hstates⟩
  | error stop =>
    cases stop with
    | failure f => exact ⟨.ok (.error f), hstates⟩
    | abort f => exact ⟨.error _, hstates⟩
    | tooDeep => exact ⟨.error _, hstates⟩

/-- Nothing that happens has to do with bodies, but for a definition. -/
theorem Lawful.runs_happen (hR : R.Lawful) {e e' : Event} (he : R.Events e e')
    (hst : R.States s t) (hdefine : ∀ d, e = .define d → R.Bodies d.body) :
    R.Runs Eq (Run.happen e) (Run.happen e') s t := by
  refine ⟨.ok rfl, hR.after hst.progress he, hst.reads, ?_⟩
  cases he with
  | define d => exact OrderedMap.forall_insert hst.bodies (hdefine d rfl)
  | child h r hr => exact hst.bodies
  | resource h x => exact hst.bodies
  | enter path => exact hst.bodies
  | leave => exact hst.bodies
  | act h => exact hst.bodies

/-- What both runs do for a file corresponds if it does so with the file on the stack. -/
theorem Lawful.runs_within (hR : R.Lawful) (path : Path) {x y : Run Unit} (hst : R.States s t)
    (hx : R.States (s.after (.enter path)) (t.after (.enter path)) →
      R.Runs Eq x y (s.after (.enter path)) (t.after (.enter path))) :
    R.Runs Eq (Run.within path x) (Run.within path y) s t := by
  have hstack : t.stack = s.stack := hR.stack hst.progress
  rw [Runs, Run.outcome_within, Run.outcome_within, hstack]
  split
  · exact ⟨.error _, hst⟩
  · have hentered := (hR.runs_happen (.enter path) hst nofun).2
    obtain ⟨halike, hinner⟩ := hx hentered
    exact ⟨halike, (hR.runs_happen .leave hinner nofun).2⟩

end Computations

/-! ### Two runs -/

section Comparison

variable {R : Correspondence} {α : Type}

/-- What the one run has and what the other. -/
def both (a b : α) : Bool → α
  | false => a
  | true => b

/-- The same in both runs. -/
theorem common_both_iff {a b : α} : Common (both a b) ↔ a = b := by
  constructor
  · rintro ⟨v, hv⟩
    exact (congrFun hv false).trans (congrFun hv true).symm
  · rintro rfl
    exact ⟨a, funext fun i => by cases i <;> rfl⟩

/-- Of two runs it is said that their results are alike and that they keep corresponding. -/
def comparison (R : Correspondence) : Judgement Bool where
  Holds V x := ∀ s t, R.States s t → R.Runs (fun a b => V (both a b)) (x false) (x true) s t
  pure {_ _ a} ha s t hst := by
    obtain ⟨b, hb⟩ := common_both_iff.mpr (rfl : a = a)
    have hsame : both a a = fun _ => a := hb.trans (funext fun _ => (congrFun hb false).symm)
    exact runs_pure (hsame.symm ▸ ha) hst
  bind hx hf s t hst := (hx s t hst).bind fun a b _ _ hv hst => hf (both a b) hv _ _ hst

/-- A comparison of two runs holds if they correspond from all corresponding states. -/
theorem comparison_of_runs {x : Bool → Run α}
    (h : ∀ s t, R.States s t → R.Runs Eq (x false) (x true) s t) :
    R.comparison.Holds Common x :=
  fun s t hst => (h s t hst).imp fun _ _ => common_both_iff.mpr

/-- From corresponding states, runs for which the comparison holds do correspond. -/
theorem runs_of_comparison {x : Bool → Run α} (h : R.comparison.Holds Common x)
    {s t : Evaluation} (hst : R.States s t) : R.Runs Eq (x false) (x true) s t :=
  (h s t hst).imp fun _ _ => common_both_iff.mp

end Comparison

end Correspondence

/-! ### Operations -/

namespace Context

open Provision.Correspondence

variable {R : Correspondence} {host : Host} {expand expand' : Expansion} {c c' : Context}

section Statements

variable (hR : R.Lawful) {s t : Evaluation}

include hR

/-- The recipes that are built stand at the same path in both runs. -/
theorem runs_current (hc : R.Contexts c c') (hst : R.States s t) :
    R.Runs (fun r r' => r'.path = r.path) c.current c'.current s t :=
  ⟨.ok (hR.path hst.progress hc.number), hst⟩

/-- Corresponding recipes are given the same resource, but for the number of its owner. -/
theorem runs_addResource (hc : R.Contexts c c') (kind : Kind) (name : String)
    {block : Option Block} (hblock : (block.getD Block.empty).AllTexts R.texts)
    (hst : R.States s t) :
    R.Runs Eq (c.addResource kind name block) (c'.addResource kind name block) s t := by
  refine (runs_building (Resource.make_agree (hR.agree hc.scope) kind name _ _ hblock) hst).bind ?_
  rintro _ _ s t ⟨x, rfl, rfl⟩ hst
  refine (runs_current hR hc hst).bind fun r r' s t hpath hst => ?_
  have hdirectory : r'.directory = r.directory := congrArg Path.directory hpath
  dsimp only
  rw [hdirectory]
  have hadded (node : Option Value) {s t : Evaluation} (hst : R.States s t) := hR.runs_happen
    (.resource hc.number { x with
      directory := if kind.wantsDirectory then some r.directory else none, node }) hst nofun
  split
  · refine (runs_reading (hR.node hc.scope) hst).bind ?_
    rintro node _ s t rfl hst
    exact hadded node hst
  · exact hadded none hst

/-- A keyword has the same meaning in both runs, and what it invokes can be built in both. -/
theorem runs_meaning? (keyword : String) (hst : R.States s t) :
    R.Runs (fun m m' => m = m' ∧ ∀ d, m = some (.definition d) → R.Bodies d.body)
      (meaning? keyword) (meaning? keyword) s t := by
  rw [Runs, outcome_meaning?, outcome_meaning?, hR.definitions hst.progress]
  refine ⟨.ok ⟨rfl, fun d hd => ?_⟩, hst⟩
  cases hkind : Kind.ofKeyword? keyword with
  | some k =>
    rw [hkind] at hd
    cases hd
  | none =>
    rw [hkind] at hd
    obtain ⟨d', hd', hsame⟩ := Option.map_eq_some_iff.mp hd
    cases hsame
    exact hst.bodies keyword d hd'

/-- An invocation of a definition that both runs may build corresponds. -/
theorem runs_invoke (hexpand : R.Expands expand expand') (hc : R.Contexts c c') {d : Definition}
    (hbody : R.Bodies d.body) (name : String) {block : Option Block}
    (hblock : (block.getD Block.empty).AllTexts R.texts) (hst : R.States s t) :
    R.Runs Eq (c.invoke expand d name block) (c'.invoke expand' d name block) s t := by
  have hmade {s t : Evaluation} (hst : R.States s t) := runs_building
    (d.attributes_agree (hR.agree hc.scope) name hblock) hst
  have hbegun (attributes : OrderedMap Value) {s t : Evaluation} (hst : R.States s t) :
      R.Runs Eq
        (do
          let recipe ← c.current
          let id := (← get).graph.size
          Run.happen (.child c.recipe (.ofDefinition d.name name recipe.path))
          let params := Value.ofFields attributes.entries
          expand ⟨id, c.scope.insert "params" (.constant params)⟩ d.body)
        (do
          let recipe ← c'.current
          let id := (← get).graph.size
          Run.happen (.child c'.recipe (.ofDefinition d.name name recipe.path))
          let params := Value.ofFields attributes.entries
          expand' ⟨id, c'.scope.insert "params" (.constant params)⟩ d.body) s t := by
    refine (runs_current hR hc hst).bind fun r r' s t hpath hst => ?_
    rw [hpath]
    have hget : R.Runs (fun u u' => R.number u.graph.size u'.graph.size ∧
        R.includers u.graph.size u'.graph.size) get get s t :=
      ⟨.ok ⟨hR.size hst.progress, hR.begun hst.progress⟩, hst⟩
    refine hget.bind ?_
    rintro u u' s t ⟨hsize, hincluder⟩ hst
    refine (hR.runs_happen (.child hc.number _ rfl) hst nofun).bind ?_
    rintro _ _ s t - hst
    exact hexpand ⟨hsize, hR.params hc.scope _⟩ hincluder hbody hst
  -- A warning may come first, which is the same in both runs.
  unfold invoke
  split
  · refine (runs_log _ hst).bind ?_
    rintro _ _ s t - hst
    refine (hmade hst).bind ?_
    rintro attributes _ s t rfl hst
    exact hbegun attributes hst
  · refine (hmade hst).bind ?_
    rintro attributes _ s t rfl hst
    exact hbegun attributes hst

/-- The same definition is registered in both runs. -/
theorem runs_define {d : Definition} (hbody : R.Bodies d.body) (hst : R.States s t) :
    R.Runs Eq (define d) (define d) s t := by
  have hdefined := (hR.runs_happen (.define d) hst fun d' hd' => by cases hd'; exact hbody).2
  rw [Runs, outcome_define, outcome_define, hR.definitions hst.progress]
  split
  · exact ⟨.error _, hst⟩
  · exact ⟨.ok rfl, hdefined.progress, hdefined.reads, hdefined.bodies⟩

variable (hfiles : R.Files host)

include hfiles

/-- Both runs begin a recipe for the file, and build it alike. -/
theorem runs_includeFile (hexpand : R.Expands expand expand') (hc : R.Contexts c c')
    (path : Path) (hst : R.States s t) :
    R.Runs Eq (c.includeFile host expand path) (c'.includeFile host expand' path) s t := by
  rw [Runs, outcome_includeFile, outcome_includeFile]
  cases hread : host.recipe path with
  | error f => exact runs_fail f hst
  | ok list =>
    have hbegun := (hR.runs_happen (.child hc.number (.ofFile path) rfl) hst nofun).2
    exact hexpand ⟨hR.size hst.progress, hc.scope⟩ (hR.begun hst.progress)
      (hfiles path list hread) hbegun

/-- An inclusion leads both runs to the same file, if it may be included in both. -/
theorem runs_includeRecipe (hexpand : R.Expands expand expand') (hc : R.Contexts c c')
    (hincluder : R.includers c.recipe c'.recipe) (target : String) (hst : R.States s t) :
    R.Runs Eq (c.includeRecipe host expand target) (c'.includeRecipe host expand' target) s t := by
  have hpath : c'.included host t target = c.included host s target := by
    rw [included, included, Recipe.directory, Recipe.directory, hR.path hst.progress hc.number]
  have hincluded := hR.included hst.progress hincluder (c.included host s target)
  rw [Runs, outcome_includeRecipe, outcome_includeRecipe, hpath]
  dsimp only
  rw [hincluded]
  split
  · exact ⟨.error _, hst⟩
  · split
    · exact ⟨.ok rfl, hst.progress, hst.reads, hst.bodies⟩
    · exact hR.runs_within _ hst fun hst => runs_includeFile hR hfiles hexpand hc _ hst

/-- The operations of statements are done alike in both runs. A recipe that may not include files
does everything else alike. -/
theorem statements_alike (hexpand : R.Expands expand expand') (hc : R.Contexts c c') :
    R.comparison.Statements host (both expand expand') (both c c')
      (fun statement => statement.AllTexts R.texts ∧
        ∀ target, statement = .includeRecipe target → R.includers c.recipe c'.recipe)
      R.Bodies where
  act := comparison_of_runs fun _ _ hst => hR.runs_happen (.act hc.number) hst nofun
  identifier _ _ _ h := comparison_of_runs fun _ _ hst =>
    runs_building ((hR.agree hc.scope).buildText h.1.1) hst
  meaning keyword _ _ _ _ _ hst := (runs_meaning? hR keyword hst).imp fun m _ h => by
    obtain ⟨rfl, hbodies⟩ := h
    obtain ⟨m', hm'⟩ := common_both_iff.mpr (rfl : m = m)
    cases congrFun hm' false
    exact ⟨m, hm', fun _ => comparison_of_runs fun _ _ hst => runs_fail _ hst, hbodies⟩
  resource _ _ _ h kind name := comparison_of_runs fun _ _ hst =>
    runs_addResource hR hc kind name h.1.2 hst
  invoke _ _ _ h _ hd name := comparison_of_runs fun _ _ hst =>
    runs_invoke hR hexpand hc hd name h.1.2 hst
  define name parameters body h := comparison_of_runs fun _ _ hst =>
    runs_define hR (d := ⟨name, parameters, .statements body⟩) h.1 hst
  target _ h := comparison_of_runs fun _ _ hst =>
    runs_building ((hR.agree hc.scope).buildText h.1) hst
  inclusion target h resolved := comparison_of_runs fun _ _ hst =>
    runs_includeRecipe hR hfiles hexpand hc (h.2 target rfl) resolved hst

/-- Recipes that may not include files do everything else alike. -/
theorem runs_performAll (hexpand : R.Expands expand expand') (hc : R.Contexts c c')
    {list : List Statement}
    (hincluder : ∀ target, .includeRecipe target ∈ list → R.includers c.recipe c'.recipe)
    (hlist : Statement.AllTextsList R.texts list) (hst : R.States s t) :
    R.Runs Eq (c.performAll host expand list) (c'.performAll host expand' list) s t := by
  refine runs_of_comparison ((statements_alike hR hfiles hexpand hc).performAll ?_) hst
  intro statement hmem
  refine ⟨Statement.allTextsList_iff.mp hlist statement hmem, ?_⟩
  rintro target rfl
  exact hincluder target hmem

end Statements

/-- Alike answers are recorded alike. -/
theorem runs_record {answer answer' : Except Failure Answer} (h : Alike R.Answers answer answer')
    {s t : Evaluation} (hst : R.States s t) :
    R.Runs Eq
      (do
        modify fun e => { e with trace := e.trace ++ [answer] }
        let _ ← Run.ofExcept answer)
      (do
        modify fun e => { e with trace := e.trace ++ [answer'] }
        let _ ← Run.ofExcept answer') s t := by
  have hrecorded : R.Runs Eq
      (modify fun e => { e with trace := e.trace ++ [answer] } : Run Unit)
      (modify fun e => { e with trace := e.trace ++ [answer'] } : Run Unit) s t :=
    ⟨.ok rfl, hst.progress, hst.reads, hst.bodies⟩
  refine hrecorded.bind ?_
  rintro _ _ s t - hst
  cases h with
  | ok h => exact runs_pure rfl hst
  | error f => exact runs_fail f hst

/-- Alike answers differ in a number at most, which does not matter to what comes next. -/
theorem next_of_alike {next : Except Failure Observation → List Step}
    (hnumber : ∀ id id', next (.ok (.recipe id)) = next (.ok (.recipe id')))
    {answer answer' : Except Failure Answer} (h : Alike R.Answers answer answer') :
    next (answer'.map (·.observation)) = next (answer.map (·.observation)) := by
  cases h with
  | error f => rfl
  | ok h =>
    cases h with
    | same a => rfl
    | recipe h => exact hnumber _ _

/-- The operations of blind steps are done alike, their answers but for the number of the
recipe. -/
theorem steps_alike (hR : R.Lawful) (hfiles : R.Files host) (htotal : R.Total)
    (hexpand : R.Expands expand expand') (hc : R.Contexts c c')
    (hincluder : R.includers c.recipe c'.recipe) :
    R.comparison.Steps host (both expand expand') (both c c') (fun _ => True) R.Bodies Step.Blind
      (fun answer => R.Answers (answer false) (answer true))
      (fun answer => Alike R.Answers (answer false) (answer true)) where
  toStatements := (statements_alike hR hfiles hexpand hc).mono fun statement _ =>
    ⟨Statement.allTexts_of_forall htotal.texts statement, fun _ _ => hincluder⟩
  performs _ _ _ := trivial
  same a := .same a
  register name parameters body h := comparison_of_runs fun _ _ hst =>
    runs_define hR (d := ⟨name, parameters, body⟩) (bodies_of_total htotal h) hst
  fail f _ _ _ hst := runs_fail f hst
  read name := comparison_of_runs fun _ _ hst => runs_reading (htotal.read hc.scope name) hst
  call name argument := comparison_of_runs fun _ _ hst =>
    runs_reading (htotal.call hc.scope name argument) hst
  current _ _ hst := runs_pure (.recipe hc.number) hst
  attempt hx s t hst := runs_attempt (hx s t hst)
  record h := comparison_of_runs fun _ _ hst => runs_record h hst
  next first next h := by
    obtain ⟨hfirst, hnumber, hnext⟩ := h
    refine ⟨hfirst, fun answer halike => ⟨(answer false).map (·.observation),
      Step.blindAll_iff.mp (hnext _), fun i => ?_⟩⟩
    cases i with
    | false => rfl
    | true => exact next_of_alike hnumber halike

/-- Bodies nested to any depth are built alike in corresponding contexts. -/
theorem build_expands (hR : R.Lawful) (hfiles : R.Files host) (depth : Nat) :
    R.Expands (build host depth) (build host depth) := by
  induction depth with
  | zero =>
    intro c c' body s t hc hincluder hbody hst
    exact ⟨.error _, hst⟩
  | succ depth ih =>
    intro c c' body s t hc hincluder hbody hst
    cases body with
    | statements list => exact runs_performAll hR hfiles ih hc (fun _ _ => hincluder) hbody hst
    | steps list =>
      have hsteps := steps_alike hR hfiles hbody.1 ih hc hincluder
      exact runs_of_comparison (hsteps.stepAll (Step.blindAll_iff.mp hbody.2)) hst

end Context

namespace Evaluation

open Provision.Correspondence

variable {R : Correspondence} {host : Host}

/-- A load gives alike results in corresponding scopes, if the runs may each begin a root. -/
theorem runs_load (hR : R.Lawful) (hfiles : R.Files host)
    (hroot : ∀ {p q}, R.progress p q → ∀ path : Path,
      R.progress (p.after (.root (.ofFile path))) (q.after (.root (.ofFile path))))
    (depth : Nat) (path : Path) {scope scope' : Scope} (hscope : R.scopes scope scope')
    {s t : Evaluation} (hst : R.States s t) :
    R.Runs R.number (load host depth path scope) (load host depth path scope') s t := by
  let p := absolute host path
  have hopened : R.States (s.opened p) (t.opened p) :=
    ⟨hroot hst.progress p, hst.reads, hst.bodies⟩
  have hstack : t.stack = s.stack := hR.stack hst.progress
  have hsize : R.number s.graph.size t.graph.size := hR.size hst.progress
  rw [Runs]
  by_cases hguard : (!host.present p || host.isDirectory p) = true
  · rw [outcome_load_absent depth scope s hguard, outcome_load_absent depth scope' t hguard]
    exact ⟨.error _, hst⟩
  · cases hread : host.recipe p with
    | error f =>
      rw [outcome_load_unread depth scope s hguard hread,
        outcome_load_unread depth scope' t hguard hread]
      exact ⟨.error _, hst⟩
    | ok list =>
      by_cases hcycle : s.stack.any (·.same p) = true
      · rw [outcome_load_cycle depth scope s hguard hread hcycle,
          outcome_load_cycle depth scope' t hguard hread (hstack ▸ hcycle), hstack]
        exact ⟨.error _, hopened⟩
      · rw [outcome_load_new depth scope s hguard hread hcycle,
          outcome_load_new depth scope' t hguard hread (hstack ▸ hcycle)]
        have hentered := (hR.runs_happen (.enter p) hopened fun _ hd => by cases hd).2
        have hcontexts : R.Contexts ⟨s.graph.size, scope⟩ ⟨t.graph.size, scope'⟩ :=
          ⟨hsize, hscope⟩
        obtain ⟨halike, hinner⟩ := Context.build_expands hR hfiles depth hcontexts
          (hR.begun hst.progress) (hfiles p list hread) hentered
        have hleft := (hR.runs_happen .leave hinner fun _ hd => by cases hd).2
        exact ⟨halike.map fun _ _ _ => hsize, hleft⟩

end Evaluation

end Provision
