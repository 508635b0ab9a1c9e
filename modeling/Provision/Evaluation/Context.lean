import Provision.Evaluation.State

/-!
# Building a recipe

A context is a recipe that is being built, with the scope its contents are resolved in.
Evaluating statements or taking steps on it adds to its children. An inclusion and an
invocation add a nested recipe and build that one in turn.
-/

namespace Provision

/-- A recipe that is being built. -/
structure Context where
  /-- The number of the recipe. -/
  recipe : Nat
  scope : Scope
  deriving Inhabited

/-- How the body of a nested recipe is built. -/
abbrev Expansion := Context → Body → Run Unit

namespace Context

/-- The recipe as it is built so far. -/
def current (c : Context) : Run Recipe := do
  return ((← get).graph.recipe? c.recipe).getD default

/-- What a keyword stands for: a kind, or else a definition. -/
def meaning? (keyword : String) : Run (Option Meaning) := do
  match Kind.ofKeyword? keyword with
  | some k => return some (.kind k)
  | none => return ((← get).definitions.get? keyword).map .definition

/-- Declares a resource. -/
def addResource (c : Context) (kind : Kind) (name : String) (block : Option Block) :
    Run Unit := do
  let r ← Run.building (Resource.make kind name c.recipe c.scope block)
  let recipe ← c.current
  let directory := if kind.wantsDirectory then some recipe.directory else none
  let node ← if kind.wantsNode then Run.reading (c.scope.read? "node") else pure none
  Run.happen (.resource c.recipe { r with directory, node })

/-- The message for an invocation whose notifications have no effect. -/
def ignoredNotices (definition name : String) : Log.Entry :=
  ⟨.warn, .context,
    Descriptor.text ⟨definition, name⟩ ++ ": notifies on a definition invocation are ignored"⟩

/-- Invokes a definition: its body is built as a nested recipe, in a scope where `params`
holds the attributes of the invocation. -/
def invoke (expand : Expansion) (c : Context) (d : Definition) (name : String)
    (block : Option Block) : Run Unit := do
  if (block.getD Block.empty).notifies ≠ [] then Run.log (ignoredNotices d.name name)
  let attributes ← Run.building (d.attributes c.scope name block)
  let recipe ← c.current
  let id := (← get).graph.size
  Run.happen (.child c.recipe (.ofDefinition d.name name recipe.path))
  let params := Value.ofFields attributes.entries
  expand ⟨id, c.scope.insert "params" (.constant params)⟩ d.body

/-- Declares a resource or invokes a definition, as the keyword says. -/
def declare (expand : Expansion) (c : Context) (keyword name : String)
    (block : Option Block) : Run Unit := do
  match ← meaning? keyword with
  | some (.kind k) => c.addResource k name block
  | some (.definition d) => c.invoke expand d name block
  | none => Run.fail (.unknownOperation keyword)

/-- Registers a definition. -/
def define (d : Definition) : Run Unit := do
  if Kind.isReserved d.name then Run.fail (.reservedKeyword d.name)
  modify fun s => { s with log := s.log ++ s.definitions.registration d }
  Run.happen (.define d)

/-- Whether a file is among the recipes nested right in another. -/
def isIncluded (g : Graph) (r : Recipe) (path : Path) : Bool :=
  r.nested.any fun id => (g.recipe? id).any fun n => n.isFile && n.path.same path

/-- The message for an inclusion that is passed over. -/
def skipped (path : Path) : Log.Entry :=
  ⟨.debug, .context,
    "Recipe, " ++ path.shown ++ ", is skipped because it is already included"⟩

/-- Builds a recipe file as a nested recipe. -/
def includeFile (host : Host) (expand : Expansion) (c : Context) (path : Path) :
    Run Unit := do
  let list ← Run.ofExcept (host.recipe path)
  let id := (← get).graph.size
  Run.happen (.child c.recipe (.ofFile path))
  expand ⟨id, c.scope⟩ (.statements list)

/-- Includes the recipe that a target names. Including a file once more has no effect. -/
def includeRecipe (host : Host) (expand : Expansion) (c : Context) (target : String) :
    Run Unit := do
  let recipe ← c.current
  let path := host.resolve recipe.directory target
  if !host.present path then Run.fail (.recipeNotFound target path)
  if isIncluded (← get).graph recipe path then Run.log (skipped path)
  else Run.within path (c.includeFile host expand path)

/-- Evaluates one statement. -/
def perform (host : Host) (expand : Expansion) (c : Context) (s : Statement) : Run Unit := do
  Run.happen (.act c.recipe)
  match s with
  | .declare keyword identifier block => do
    let name ← Run.building (c.scope.buildText identifier)
    c.declare expand keyword name block
  | .define name parameters body => define ⟨name, parameters, .statements body⟩
  | .includeRecipe target => do
    let target ← Run.building (c.scope.buildText target)
    c.includeRecipe host expand target

/-- Evaluates statements in order. -/
def performAll (host : Host) (expand : Expansion) (c : Context) (list : List Statement) :
    Run Unit :=
  list.forM (c.perform host expand)

/-- Records the answer to a step of a body. -/
def traced (x : Run Answer) : Run Unit := do
  let answer ← Run.attempt x
  modify fun e => { e with trace := e.trace ++ [answer] }
  let _ ← Run.ofExcept answer

mutual

/-- Takes one step. -/
def step (host : Host) (expand : Expansion) (c : Context) : Step → Run Answer
  | .resource kind name block => do
    Run.happen (.act c.recipe)
    c.addResource kind name block
    return .done
  | .declare keyword name block => do
    Run.happen (.act c.recipe)
    c.declare expand keyword name block
    return .done
  | .define name parameters body => do
    Run.happen (.act c.recipe)
    define ⟨name, parameters, body⟩
    return .done
  | .includeRecipe target => do
    Run.happen (.act c.recipe)
    c.includeRecipe host expand target
    return .done
  | .evaluate list => do
    c.performAll host expand list
    return .done
  | .fail f => Run.fail f
  | .read name => return .value (← Run.reading (c.scope.read? name))
  | .call name argument => return .value (← Run.reading (c.scope.call? name argument))
  | .current => return .recipe c.recipe
  | .meaning keyword => return .meaning (← meaning? keyword)
  | .attempt first next => do
    let answer ← Run.attempt (c.step host expand first)
    c.stepAll host expand (next (answer.map (·.observation)))
    return .done

/-- Takes the steps of a body in order. -/
def stepAll (host : Host) (expand : Expansion) (c : Context) : List Step → Run Unit
  | [] => return
  | s :: rest => do
    traced (c.step host expand s)
    c.stepAll host expand rest

end

/-- Builds a body, in which others may be nested down to a given depth. -/
def build (host : Host) : Nat → Expansion
  | 0, _, _ => throw .tooDeep
  | depth + 1, c, .statements list => c.performAll host (build host depth) list
  | depth + 1, c, .steps list => c.stepAll host (build host depth) list

end Context

namespace Evaluation

/-- Adds a recipe for a path that steps can then be taken on. -/
def root (path : Path) : Run Nat := do
  let id := (← get).graph.size
  Run.happen (.root (.ofFile path))
  return id

/-- The message for a recipe file that is evaluated. -/
def evaluating (path : Path) : Log.Entry :=
  ⟨.debug, .evaluator, "Evaluating recipe " ++ path.shown⟩

/-- Evaluates a recipe file that no other recipe holds. -/
def load (host : Host) (depth : Nat) (path : Path) (scope : Scope) : Run Nat := do
  let absolute := (host.current.join path).normalize
  if !host.present absolute || host.isDirectory absolute then
    Run.fail (.recipeNotFound path.text absolute)
  let list ← Run.ofExcept (host.recipe absolute)
  let id ← root absolute
  Run.log (evaluating absolute)
  Run.within absolute (Context.build host depth ⟨id, scope⟩ (.statements list))
  return id

end Evaluation

end Provision
