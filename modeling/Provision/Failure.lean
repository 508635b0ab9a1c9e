import Provision.Notification
import Provision.Scope.Template
import Provision.Statement.Basic

/-!
# Failures

The causes for which an evaluation fails, and the wording of each.
-/

namespace Provision

/-- Why an evaluation fails. -/
inductive Failure where
  | recipeNotFound (target : String) (path : Path)
  | includeCycle (chain : List Path)
  | unreadable (path : Path) (reason : String)
  | malformedDocument (path : Path) (reason : String)
  | malformedRecipe (path : Path) (fault : Statement.Fault)
  | undefined (placeholder : Undefined)
  | reservedKeyword (name : String)
  | unknownOperation (keyword : String)
  | unknownParameter (definition parameter : String)
  | unsupportedAction (resource action : String) (accepted : List String)
  | notification (failure : Notification.Failure)
  deriving DecidableEq, Inhabited

/-- The text of a failure. -/
def Failure.message : Failure → String
  | .recipeNotFound target _ => "Recipe not found. (" ++ Path.shown ⟨target⟩ ++ ")"
  | .includeCycle chain => "recipe inclusion cycle: " ++ Text.joined " -> " (chain.map (·.shown))
  | .unreadable path reason => "cannot read recipe " ++ path.shown ++ ": " ++ reason
  | .malformedDocument path reason => "recipe parse error in " ++ path.shown ++ ": " ++ reason
  | .malformedRecipe path fault => "recipe parse error in " ++ path.shown ++ ": " ++ fault.text
  | .undefined v => "undefined variable '" ++ v.name ++ "' in \"" ++ v.template ++ "\""
  | .reservedKeyword name =>
    "'" ++ name ++ "' is a reserved keyword and cannot be used as a definition name"
  | .unknownOperation keyword => "unknown resource type or definition '" ++ keyword ++ "'"
  | .unknownParameter definition parameter =>
    "definition '" ++ definition ++ "' has no parameter '" ++ parameter ++ "'"
  | .unsupportedAction resource action accepted =>
    resource ++ ": action '" ++ action ++ "' is not supported (expected one of: " ++
      Text.joined ", " accepted ++ ")"
  | .notification failure => failure.message

end Provision
