import Provision.Graph.Basic

/-!
# The graph as a JSON document

There is a document unless a mapping somewhere in the graph has a key that cannot be a
JSON key, or a path has bytes that belong to no character. What comes first in the document
is the obstacle.
-/

namespace Provision

/-- A number of a recipe in a document. -/
def Json.ofNat (n : Nat) : Json := .number (String.ofList (Text.natDigits n))

/-- The document of a path. -/
def Path.json (p : Path) : Except Json.Obstacle Json :=
  if p.isText then .ok (.string p.text) else .error .path

/-- The document of a notification. -/
def Notification.json (n : Notification) : Json :=
  .object [("action", .string n.action), ("resource", .string n.target),
    ("timing", .string n.timing.text)]

/-- Fields, each with the document of what it holds. -/
def jsonFields {α : Type} (json : α → Except Json.Obstacle Json) (es : List (String × α)) :
    Except Json.Obstacle (List (String × Json)) :=
  es.mapM fun e => (json e.2).map (e.1, ·)

/-- The document of a resource. The recorded directory and node are left out where there
are none. -/
def Resource.json (r : Resource) : Except Json.Obstacle Json := do
  let attributes ← jsonFields Value.json r.attributes.entries
  let directory ← jsonFields Path.json (r.directory.map fun p => ("recipe_dir", p)).toList
  let node ← jsonFields Value.json (r.node.map fun v => ("node", v)).toList
  return .object <|
    [("type", .string r.kind.keyword), ("name", .string r.name),
      ("attributes", .object attributes),
      ("notifications", .array (r.notifications.map (·.json)))] ++ directory ++ node

/-- The fields that tell where a recipe comes from. -/
def Origin.jsonFields : Origin → List (String × Json)
  | .file => [("kind", .string "file")]
  | .definition d name =>
    [("kind", .string "definition"), ("definition", .string d), ("name", .string name)]

/-- The document of a child. A nested recipe is its number. -/
def Child.json : Child → Except Json.Obstacle Json
  | .resource r => r.json
  | .recipe id => .ok (Json.ofNat id)

/-- The document of a recipe. -/
def Recipe.json (r : Recipe) : Except Json.Obstacle Json := do
  let path ← r.path.json
  let children ← r.children.mapM (·.json)
  return .object <| [("path", path)] ++ r.origin.jsonFields ++ [("children", .array children)]

/-- The document of a graph, or the obstacle to it. -/
def Graph.json (g : Graph) : Except Json.Obstacle Json := do
  let recipes ← g.recipes.toList.mapM (·.json)
  return .object [("roots", .array (g.roots.map Json.ofNat)), ("recipes", .array recipes)]

/-- The document of a graph, if there is one. -/
def Graph.json? (g : Graph) : Option Json := g.json.toOption

end Provision
