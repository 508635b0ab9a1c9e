import Provision.OrderedMap
import Provision.Value.Basic
import Provision.Path

/-!
# Statements

What a recipe says: declarations of resources, definitions, and inclusions of other
recipes. A declaration may carry a block of attributes and notifications.
-/

namespace Provision

/-- A notification as a block asks for it, its timing still a word. -/
structure Notice where
  action : String
  target : String
  timing : String
  deriving DecidableEq, Inhabited

/-- The settings of a declaration. -/
structure Block where
  /-- The attributes, in the order they are written. -/
  attributes : OrderedMap Value
  /-- The notifications, in the order they are written. -/
  notifies : List Notice
  deriving Inhabited

/-- The block without settings. -/
def Block.empty : Block := ⟨{}, []⟩

/-- One statement of a recipe. -/
inductive Statement where
  /-- Declares a resource, or invokes a definition. -/
  | declare (keyword identifier : String) (block : Option Block)
  /-- Gives a name to a list of statements. -/
  | define (name : String) (parameters : OrderedMap Value) (body : List Statement)
  /-- Takes in another recipe. -/
  | includeRecipe (target : String)
  deriving Inhabited

namespace Statement

/-- The list a statement stands in, and its number there, counted from one. -/
inductive Place where
  | recipe (number : Nat)
  | definition (name : String) (number : Nat)
  deriving DecidableEq, Inhabited

/-- The text of a place. -/
def Place.text : Place → String
  | .recipe n => "recipe statement #" ++ toString n
  | .definition name n => "definition '" ++ name ++ "' statement #" ++ toString n

/-- What is wrong with a statement. -/
inductive Cause where
  | notAMapping
  | unexpectedKey (key : Option String)
  | notAScalar (what : String)
  | notAStringKeyed (what : String)
  | keysNotStrings
  | parametersNotAMapping
  | bodyNotAList
  | missingBody (name : String)
  | missingKeyword
  | severalKeywords (found : List String)
  | missingValue (keyword : String)
  | withNotAMapping
  | notifiesNotAList
  | noticeShape
  | noticeWithoutAction
  | noticeWithoutResource
  deriving DecidableEq, Inhabited

/-- The text of a cause. -/
def Cause.text : Cause → String
  | .notAMapping => "expected a mapping"
  | .unexpectedKey key => "unexpected key '" ++ key.getD "<non-string>" ++ "'"
  | .notAScalar what => what ++ " must be a scalar"
  | .notAStringKeyed what => what ++ " keys must be strings"
  | .keysNotStrings => "keys must be strings"
  | .parametersNotAMapping => "params must be a mapping"
  | .bodyNotAList => "body must be a list"
  | .missingBody name => "define '" ++ name ++ "' has no body"
  | .missingKeyword => "missing resource keyword"
  | .severalKeywords found => "expected one keyword, found " ++ Text.joined ", " found
  | .missingValue keyword => "missing value for '" ++ keyword ++ "'"
  | .withNotAMapping => "with must be a mapping"
  | .notifiesNotAList => "notifies must be a list"
  | .noticeShape => "notifies entries are [action, resource, timing?] or a mapping"
  | .noticeWithoutAction => "notifies entry has no action"
  | .noticeWithoutResource => "notifies entry has no resource"

/-- Why a document is not a recipe. -/
inductive Fault where
  | notAList
  | statement (place : Place) (cause : Cause)
  deriving DecidableEq, Inhabited

/-- The text of a fault. -/
def Fault.text : Fault → String
  | .notAList => "a recipe must be a list of statements"
  | .statement place cause => place.text ++ ": " ++ cause.text

end Statement

end Provision
