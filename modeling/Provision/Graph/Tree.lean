import Provision.Graph.Basic

/-!
# The graph as an indented tree

One line for each recipe, resource and notification, indented by two spaces a level.
-/

namespace Provision.Graph

/-- The indentation of a level. -/
def indentation (level : Nat) : String := String.ofList (List.replicate (2 * level) ' ')

/-- The line of a recipe. -/
def recipeLine (level : Nat) (r : Recipe) : String :=
  match r.origin with
  | .file => indentation level ++ "Recipe: " ++ r.path.shown ++ "\n"
  | .definition d name =>
    indentation level ++ "Definition: " ++ Descriptor.text ⟨d, name⟩ ++ "\n"

/-- The line of a notification. -/
def notificationLine (level : Nat) (n : Notification) : String :=
  indentation level ++ "    notifies " ++ n.action ++ " " ++ n.target ++ " (" ++
    n.timing.text ++ ")\n"

/-- The line of a resource, and those of its notifications. -/
def resourceLines (level : Nat) (r : Resource) : String :=
  indentation level ++ "  " ++ r.descriptor ++ " (" ++ Text.joined ", " r.actions ++ ")\n" ++
    String.join (r.notifications.map (notificationLine level))

/-- The lines of a recipe and all below it, down to a given depth of nesting. -/
def recipeLines (g : Graph) : Nat → Nat → Nat → String
  | 0, _, _ => ""
  | depth + 1, level, id =>
    match g.recipe? id with
    | some r =>
      recipeLine level r ++ String.join (r.children.map fun
        | .resource x => resourceLines level x
        | .recipe nested => g.recipeLines depth (level + 1) nested)
    | none => ""

/-- The lines of every recipe, from the roots down. -/
def tree (g : Graph) : String := String.join (g.roots.map (g.recipeLines g.size 0))

end Provision.Graph
