import Provision.Graph.Basic

/-!
# Positions in a graph

Two resources of a graph may be equal in every field, so a resource is told apart by
where it stands: in which recipe, and at which place among the children. With positions
the notifications become edges between numbers of the apply order.
-/

namespace Provision

/-- Where a child stands. -/
structure Position where
  /-- The number of the recipe. -/
  recipe : Nat
  /-- The place among the children of the recipe. -/
  index : Nat
  deriving DecidableEq, Inhabited

namespace Graph

/-- The positions of the resources below a recipe, in the order of `resourcesBelow`. -/
def positionsBelow (g : Graph) : Nat → Nat → List Position
  | 0, _ => []
  | depth + 1, id =>
    match g.recipe? id with
    | some r =>
      r.children.zipIdx.flatMap fun
        | (.resource _, index) => [⟨id, index⟩]
        | (.recipe nested, _) => g.positionsBelow depth nested
    | none => []

/-- The position of every resource, in the order in which they are applied. -/
def positions (g : Graph) : List Position := g.roots.flatMap (g.positionsBelow g.size)

end Graph

/-- Where the resource stands that a notification is meant for. -/
def Notification.position? (n : Notification) (g : Graph) : Option Position := do
  let d ← Descriptor.ofText? n.target
  let r ← g.recipe? n.recipe
  let index ← r.children.findIdx? fun
    | .resource x => x.kind.keyword == d.type && x.name == d.name
    | .recipe _ => false
  return ⟨n.recipe, index⟩

/-- A notification between two resources that are given by their numbers in apply order.
A target outside of every root has no number. -/
structure Edge where
  source : Nat
  action : String
  target : Option Nat
  deriving DecidableEq, Inhabited

/-- Every notification as an edge, in the order in which resources are applied. -/
def Graph.edges (g : Graph) : List Edge :=
  g.resources.zipIdx.flatMap fun (r, source) =>
    r.notifications.map fun n =>
      { source, action := n.action, target := (n.position? g).bind (g.positions.idxOf? ·) }

end Provision
