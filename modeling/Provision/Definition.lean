import Provision.Failure
import Provision.Kind
import Provision.Log

/-!
# Definitions

A definition gives a name to a body, with parameters that an invocation may set. The
body is a list of statements, or a list of steps taken on the recipe it expands into,
where a step may depend on the answers to earlier ones.
-/

namespace Provision

/-- What a body learns from a step that succeeds. Of a definition it learns the statements,
but not the steps. -/
inductive Observation where
  | done
  | value (v : Option Value)
  | recipe (id : Nat)
  | kind (k : Kind)
  | definition (name : String) (parameters : OrderedMap Value) (body : Option (List Statement))
  | unknown
  deriving Inhabited

mutual

/-- What a definition expands into. -/
inductive Body where
  | statements (list : List Statement)
  | steps (list : List Step)

/-- One step taken on a recipe that is being built. -/
inductive Step where
  /-- Declares a resource of a kind. -/
  | resource (kind : Kind) (identifier : String) (block : Option Block)
  /-- Declares a resource or invokes a definition. -/
  | declare (keyword identifier : String) (block : Option Block)
  /-- Registers a definition. -/
  | define (name : String) (parameters : OrderedMap Value) (body : Body)
  /-- Takes in another recipe. -/
  | includeRecipe (target : String)
  /-- Evaluates statements. -/
  | evaluate (list : List Statement)
  /-- Fails. -/
  | fail (failure : Failure)
  /-- Reads a name of the scope. -/
  | read (name : String)
  /-- Reads a name of the scope with an argument. -/
  | call (name : String) (argument : Value)
  /-- Asks which recipe is being built. -/
  | current
  /-- Asks what a keyword stands for. -/
  | meaning (keyword : String)
  /-- Takes a step and goes on as its answer says, also when it has failed. -/
  | attempt (first : Step) (next : Except Failure Observation → List Step)

end

instance : Inhabited Body := ⟨.statements []⟩

instance : Inhabited Step := ⟨.current⟩

/-- A named body with parameters. -/
structure Definition where
  name : String
  /-- The parameters with their defaults. -/
  parameters : OrderedMap Value
  body : Body
  deriving Inhabited

/-- The statements of a body that has no steps. -/
def Body.statements? : Body → Option (List Statement)
  | .statements list => some list
  | .steps _ => none

/-- A computation that reads bindings and may fail. -/
abbrev Building := ExceptT Failure (StateM Reads)

/-- Resolves a value, a placeholder without a value being a failure. -/
def Scope.build (s : Scope) (v : Value) : Building Value :=
  ExceptT.adapt Failure.undefined (s.resolve v)

/-- Resolves a template, a placeholder without a value being a failure. -/
def Scope.buildText (s : Scope) (template : String) : Building String :=
  ExceptT.adapt Failure.undefined (s.resolveText template)

namespace Definition

/-- The parameters with one set by an invocation. -/
def set (d : Definition) (s : Scope) (attributes : OrderedMap Value) (e : String × Value) :
    Building (OrderedMap Value) := do
  if d.parameters.contains e.1 then return attributes.insert e.1 (← s.build e.2)
  else throw (.unknownParameter d.name e.1)

/-- The attributes of one invocation: the defaults, as far as the block does not set them,
and the argument of the invocation as `name`. -/
def attributes (d : Definition) (s : Scope) (argument : String) (block : Option Block) :
    Building (OrderedMap Value) := do
  let settings := (block.getD Block.empty).attributes
  let attributes ← settings.entries.foldlM (d.set s) d.parameters
  return attributes.insert "name" (.string argument)

end Definition

/-- The definitions of a run, in the order in which their names were first defined. -/
abbrev Definitions := OrderedMap Definition

namespace Definitions

/-- Registers a definition in place of any earlier one of its name. -/
def register (ds : Definitions) (d : Definition) : Definitions := ds.insert d.name d

/-- The message for a definition that takes the place of another. -/
def redefined (name : String) : Log.Entry :=
  ⟨.debug, .definition, "Definition, " ++ name ++ ", is redefined"⟩

/-- What is logged when a definition is registered. -/
def registration (ds : Definitions) (d : Definition) : List Log.Entry :=
  if ds.contains d.name then [redefined d.name] else []

end Definitions

end Provision
