import Provision.Definition

/-!
# Resources

A resource is one unit of desired state: a kind, a name, attributes, and notifications
to other resources.
-/

namespace Provision

/-- A declared resource. -/
structure Resource where
  kind : Kind
  name : String
  /-- The recipe it was declared in. -/
  recipe : Nat
  attributes : OrderedMap Value
  notifications : List Notification
  /-- The directory of the recipe, where the kind records it. -/
  directory : Option Path
  /-- The description of the node, where the kind records it. -/
  node : Option Value
  deriving Inhabited

namespace Resource

/-- The descriptor of a resource of a kind and name. -/
def describe (kind : Kind) (name : String) : String :=
  Descriptor.text ⟨kind.keyword, name⟩

/-- The descriptor of a resource. -/
def descriptor (r : Resource) : String := describe r.kind r.name

/-- The actions a value asks for: each item of a sequence, or the value itself. -/
def requested : Value → List String
  | .sequence items => items.map Value.text
  | v => [v.text]

/-- The actions to take, the default one where none is asked for. -/
def actions (r : Resource) : List String :=
  match r.attributes.get? "action" with
  | some v => requested v
  | none => [r.kind.defaultAction]

/-- The first action asked for that a kind does not accept is a failure. -/
def checkActions (kind : Kind) (name : String) (action : Value) : Except Failure Unit :=
  match (requested action).find? (! kind.actions.contains ·) with
  | some a => .error (.unsupportedAction (describe kind name) a kind.actions)
  | none => .ok ()

/-- A notification that a block asks for, its target resolved. -/
def notify (recipe : Nat) (s : Scope) (n : Notice) : Building Notification := do
  let target ← s.buildText n.target
  match Notification.make recipe n.action target n.timing with
  | .ok n => return n
  | .error failure => throw (.notification failure)

/-- The resource of a declaration: first the attributes are resolved, then the actions
checked, then the notifications made. -/
def make (kind : Kind) (name : String) (recipe : Nat) (s : Scope) (block : Option Block) :
    Building Resource := do
  let block := block.getD Block.empty
  let identity := OrderedMap.empty.insert kind.identity (.string name)
  let attributes ← block.attributes.entries.foldlM (fun m e => do
    return m.insert e.1 (← s.build e.2)) identity
  if let some action := attributes.get? "action" then
    ExceptT.mk (pure (checkActions kind name action))
  let notifications ← block.notifies.mapM (notify recipe s)
  return { kind, name, recipe, attributes, notifications, directory := none, node := none }

end Resource

end Provision
