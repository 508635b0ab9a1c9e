import Provision.Proofs.ApplyOrder
import Provision.Proofs.Evaluation.Nesting
import Provision.Proofs.Evaluation.Surroundings

/-!
# Independence

What a load does has nothing to do with what was loaded or begun before it, but for the
definitions that are left. It does the same as from a state in which there is no recipe, and
its recipes get the next numbers.
-/

namespace Provision

namespace Evaluation

open Provision.Correspondence

/-- The state in which there are definitions, but no recipe. -/
def blank (ds : Definitions) : Evaluation := { empty with definitions := ds }

/-- In a graph without recipes there is nothing to order. -/
theorem blank_arranged (ds : Definitions) : (blank ds).Arranged := .nil 0

/-- A load has a result of its own and adds a graph of its own, in which the numbers begin
with the next one of the state. -/
structure Adds (s : Evaluation) (done : Except Stop Nat × Evaluation) (result : Except Stop Nat)
    (added : Graph) : Prop where
  result : done.1 = result.map (· + s.graph.size)
  graph : done.2.graph = s.graph.graft added
  /-- What a notification of the load means is a resource of the load. -/
  notifications : ∀ n : Notification, (n.renumber (· + s.graph.size)).resource? done.2.graph =
    (n.resource? added).map (·.renumber (· + s.graph.size))
  /-- In the order of application, the resources of the load come last. -/
  resources : ∀ session : Session, session.Reachable → session.state = s →
    done.2.graph.resources =
      s.graph.resources ++ added.resources.map (·.renumber (· + s.graph.size))

variable {s : Evaluation} {scope : Scope}

/-- A state between two loads corresponds to the one in which there is no recipe. -/
theorem states_blank (hstack : s.stack = []) (hblind : s.definitions.Blind) :
    (Correspondence.graft s.graph (fun _ _ => True) Scope.Constant).States
      (blank s.definitions) s := by
  have htotal := graft_total s.graph (Scope.readAlike_constant fun _ _ => True)
  refine ⟨⟨s.graph.graft_empty.symm, rfl, hstack⟩, trivial, fun name d hd => ?_⟩
  exact bodies_of_total htotal (hblind name d hd)

/-- A load leaves a graph that is arranged, if it was so before. -/
theorem load_arranged (host : Host) (depth : Nat) (path : Path) (scope : Scope)
    (hs : s.Arranged) : ((load host depth path scope).outcome s).2.Arranged := by
  obtain ⟨es, hes, hend⟩ := load_follows host depth path scope s
  rw [hend]
  exact (hes.arranged hs).2

/-- A load adds what it adds to the state in which there is no recipe. -/
theorem load_adds (host : Host) (depth : Nat) (path : Path) (hscope : scope.Constant)
    (hstack : s.stack = []) (hblind : s.definitions.Blind) :
    let alone := (load host depth path scope).outcome (blank s.definitions)
    let done := (load host depth path scope).outcome s
    s.Adds done alone.1 alone.2.graph ∧ done.2.definitions = alone.2.definitions := by
  intro alone done
  obtain ⟨hresult, hstates⟩ := load_graft s.graph
    (Scope.readAlike_constant fun _ _ => True) host depth path hscope (states_blank hstack hblind)
  have hgraph : done.2.graph = s.graph.graft alone.2.graph := hstates.progress.graph
  have halone : alone.2.Arranged := load_arranged host depth path scope (blank_arranged _)
  refine ⟨⟨hresult.eq_map, hgraph, fun n => ?_, fun session hsession hs => ?_⟩,
    hstates.progress.definitions⟩
  · rw [hgraph]
    exact Graph.resource?_graft s.graph alone.2.graph n
  · have harranged : s.Arranged := hs ▸ hsession.arranged.state
    rw [hgraph]
    exact Graph.resources_graft s.graph alone.2.graph harranged halone

/-- From two states with the same definitions, a load gives the same result, the same
definitions and the same recipes, whatever recipes there are in the states. The recipes have
other numbers only, so the resources come in the same order and are the same, and each
notification means the same one of them in both. Bodies that are statements do not go by
numbers, and those made of steps may do anything else. -/
theorem load_independent {s t : Evaluation} (hs : s.stack = []) (ht : t.stack = [])
    (hdefinitions : t.definitions = s.definitions) (hblind : s.definitions.Blind) (host : Host)
    (depth : Nat) (path : Path) {scope : Scope} (hscope : scope.Constant) :
    let done := (load host depth path scope).outcome s
    let done' := (load host depth path scope).outcome t
    ∃ (result : Except Stop Nat) (added : Graph), s.Adds done result added ∧
      t.Adds done' result added ∧ done'.2.definitions = done.2.definitions := by
  intro done done'
  obtain ⟨hadds, hleft⟩ := load_adds host depth path hscope hs hblind
  obtain ⟨hadds', hleft'⟩ := load_adds host depth path hscope ht (hdefinitions ▸ hblind)
  rw [hdefinitions] at hadds' hleft'
  exact ⟨_, _, hadds, hadds', hleft'.trans hleft.symm⟩

end Evaluation

namespace Session

/-- A machine with a file that invokes a definition. -/
def invokingFile : Host := .ofFacts [(⟨"/a.yml"⟩, some (.file (.ok "[{web: x}]")))] none ⟨"/"⟩

/-- A definition that declares a package. -/
def packaged : Definition := ⟨"web", {}, .statements [.declare "package" "nginx" none]⟩

/-- The session after a recipe has defined it. -/
def oneDefined : Session :=
  (start.root ⟨"/r.yml"⟩ {}).step bareHost 1 ⟨0, {}⟩
    (.define packaged.name packaged.parameters packaged.body)

/-- The body of that definition is made of statements, so it is blind. -/
theorem oneDefined_blind : oneDefined.state.definitions.Blind := by
  have hempty : Definitions.Blind {} := nofun
  exact hempty.register (d := packaged) trivial

/-- A definition that declares a package, which it names by the number of its own recipe. -/
def numbering : Definition :=
  ⟨"web", {}, .steps [.attempt .current fun
    | .ok (.recipe id) => [.resource .package (String.ofList (Text.natDigits id)) none]
    | _ => []]⟩

/-- The session after a recipe has defined that. -/
def numberingDefined : Session :=
  (start.root ⟨"/r.yml"⟩ {}).step bareHost 1 ⟨0, {}⟩
    (.define numbering.name numbering.parameters numbering.body)

/-- A program can bring about a session with a definition that goes by numbers. -/
theorem reachable_numberingDefined : Reachable numberingDefined := by
  have hbegins : Next bareHost 1 start (start.root ⟨"/r.yml"⟩ {}) := .root _ _
  exact .next (.next .start hbegins) (.step ⟨0, {}⟩ _ rfl)

/-- The session after the recipe has declared a package, too. -/
def oneDeclared : Session := oneDefined.step bareHost 1 ⟨0, {}⟩ (.declare "package" "nginx" none)

/-- The session after another recipe is begun. -/
def twoBegun : Session := oneDeclared.root ⟨"/a.yml"⟩ {}

set_option maxRecDepth 8192 in
/-- A file that invokes the definition is loaded alike with one recipe there and with two. -/
theorem load_independent_begun :
    (let done := (Evaluation.load invokingFile 3 ⟨"/a.yml"⟩ {}).outcome oneDefined.state
      let done' := (Evaluation.load invokingFile 3 ⟨"/a.yml"⟩ {}).outcome twoBegun.state
      ∃ (result : Except Stop Nat) (added : Graph), oneDefined.state.Adds done result added ∧
        twoBegun.state.Adds done' result added ∧ done'.2.definitions = done.2.definitions) ∧
    Reachable oneDefined ∧ oneDefined.state.graph.size = 1 ∧
    Reachable twoBegun ∧ twoBegun.state.graph.size = 2 := by
  have hbegins : Next bareHost 1 start (start.root ⟨"/r.yml"⟩ {}) := .root _ _
  have hdefined : Reachable oneDefined := .next (.next .start hbegins) (.step ⟨0, {}⟩ _ rfl)
  have hdeclared : Reachable oneDeclared := .next hdefined (.step ⟨0, {}⟩ _ rfl)
  have hbegun : Next bareHost 1 oneDeclared twoBegun := .root _ _
  have hscope : Scope.Constant {} := nofun
  exact ⟨Evaluation.load_independent (s := oneDefined.state) (t := twoBegun.state) rfl rfl rfl
    oneDefined_blind invokingFile 3 ⟨"/a.yml"⟩ hscope, hdefined, rfl, .next hdeclared hbegun, rfl⟩

end Session

end Provision
