import Provision.Resource

/-!
# The recipe graph

The recipes of a run, numbered in the order in which they were begun. Each has a list
of children, resources and nested recipes; read depth first from the roots, it gives
the order in which resources are applied.
-/

namespace Provision

/-- Where a recipe comes from. -/
inductive Origin where
  /-- A file. -/
  | file
  /-- An invocation of a definition. -/
  | definition (definition name : String)
  deriving DecidableEq, Inhabited

/-- An entry in a recipe's list of children. -/
inductive Child where
  | resource (r : Resource)
  | recipe (id : Nat)
  deriving Inhabited

/-- An ordered container of resources and nested recipes. -/
structure Recipe where
  /-- The file it was read from, or the file it was invoked from. -/
  path : Path
  origin : Origin
  /-- The children, in the order they were declared. -/
  children : List Child
  deriving Inhabited

namespace Recipe

/-- A recipe of a file, without children. -/
def ofFile (path : Path) : Recipe := ⟨path, .file, []⟩

/-- A recipe of an invocation, without children. -/
def ofDefinition (definition name : String) (path : Path) : Recipe :=
  ⟨path, .definition definition name, []⟩

/-- Whether a recipe comes from a file. -/
def isFile (r : Recipe) : Bool := r.origin == .file

/-- The directory of a recipe's file. -/
def directory (r : Recipe) : Path := r.path.directory

/-- The resources among the children. -/
def resources (r : Recipe) : List Resource :=
  r.children.filterMap fun
    | .resource x => some x
    | .recipe _ => none

/-- The nested recipes among the children. -/
def nested (r : Recipe) : List Nat :=
  r.children.filterMap fun
    | .resource _ => none
    | .recipe id => some id

end Recipe

/-- The recipes of a run. -/
structure Graph where
  /-- The recipes that no other recipe holds. -/
  roots : List Nat
  /-- Every recipe, at the place of its number. -/
  recipes : Array Recipe
  deriving Inhabited

namespace Graph

/-- The graph without recipes. -/
def empty : Graph := ⟨[], #[]⟩

/-- The recipe of a number. -/
def recipe? (g : Graph) (id : Nat) : Option Recipe := g.recipes[id]?

/-- The number of recipes. -/
def size (g : Graph) : Nat := g.recipes.size

/-- Puts a child at the end of a recipe's list. -/
def append (g : Graph) (parent : Nat) (c : Child) : Graph :=
  { g with recipes := g.recipes.modify parent fun r => { r with children := r.children ++ [c] } }

/-- Adds a recipe that no other recipe holds. -/
def addRoot (g : Graph) (r : Recipe) : Graph :=
  { roots := g.roots ++ [g.size], recipes := g.recipes.push r }

/-- Adds a recipe as the last child of another. -/
def addChild (g : Graph) (parent : Nat) (r : Recipe) : Graph :=
  { g with recipes := g.recipes.push r }.append parent (.recipe g.size)

/-- Adds a resource as the last child of a recipe. -/
def addResource (g : Graph) (parent : Nat) (r : Resource) : Graph :=
  g.append parent (.resource r)

/-- The resources below a recipe, depth first, down to a given depth of nesting. -/
def resourcesBelow (g : Graph) : Nat → Nat → List Resource
  | 0, _ => []
  | depth + 1, id =>
    match g.recipe? id with
    | some r =>
      r.children.flatMap fun
        | .resource x => [x]
        | .recipe nested => g.resourcesBelow depth nested
    | none => []

/-- Every resource, in the order in which they are applied. No recipe is nested deeper than
there are recipes. -/
def resources (g : Graph) : List Resource := g.roots.flatMap (g.resourcesBelow g.size)

end Graph

/-- The resource a notification is meant for: the first of the type and name in its recipe. -/
def Notification.resource? (n : Notification) (g : Graph) :
    Except Notification.Failure Resource :=
  match Descriptor.ofText? n.target with
  | none => .error (.malformed n.target)
  | some d =>
    let found := (g.recipe? n.recipe).bind fun r =>
      r.resources.find? fun x => x.kind.keyword == d.type && x.name == d.name
    match found with
    | some x => .ok x
    | none => .error (.notFound n.target)

/-- A notification together with the resources at its two ends. -/
structure Delivery where
  source : Resource
  notification : Notification
  target : Resource
  deriving Inhabited

/-- Every notification with its target, in the order in which resources are applied. The
first one that cannot be resolved is a failure. -/
def Graph.deliveries (g : Graph) : Except Notification.Failure (List Delivery) :=
  let pending := g.resources.flatMap fun r => r.notifications.map (r, ·)
  pending.mapM fun (source, notification) =>
    (notification.resource? g).map fun target => { source, notification, target }

end Provision
