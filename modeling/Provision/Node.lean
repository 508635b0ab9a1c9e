import Provision.Host
import Provision.Value.Document
import Provision.Yaml.Document

/-!
# Node attributes

The facts about the machine that recipes refer to as `node`. They come from a YAML file
and a JSON file, of which the second has the last word on every key.
-/

namespace Provision.Node

/-- The format of a file of attributes. -/
inductive Format where
  | yaml
  | json
  deriving DecidableEq, Inhabited

/-- The name of a format. -/
def Format.text : Format → String
  | .yaml => "YAML"
  | .json => "JSON"

/-- The value of a text in a format, or why there is none. -/
def Format.read : Format → String → Except String Value
  | .yaml, text => (Yaml.read text).mapError (·.text)
  | .json, text => (Value.readJson text).mapError (·.text)

/-- Why attributes cannot be loaded. -/
inductive Failure where
  | unreadable (path : Path) (reason : String)
  | malformed (format : Format) (path : Path) (reason : String)
  | notAMapping (path : Path)
  deriving DecidableEq, Inhabited

/-- The text of a failure. -/
def Failure.message : Failure → String
  | .unreadable path reason => "cannot read " ++ path.shown ++ ": " ++ reason
  | .malformed format path reason =>
    format.text ++ " parse error in " ++ path.shown ++ ": " ++ reason
  | .notAMapping path => path.shown ++ ": node attributes must be a mapping"

/-- Attributes with those of a document put in. An empty document has none. -/
def merge (path : Path) (attributes : List (Value × Value)) :
    Value → Except Failure (List (Value × Value))
  | .mapping entries => .ok (entries.foldl (fun es e => Value.put e.1 e.2 es) attributes)
  | .null => .ok attributes
  | _ => .error (.notAMapping path)

/-- The value of a file. -/
def readFile (host : Host) (format : Format) (path : Path) : Except Failure Value := do
  let text ← (host.read path).mapError (.unreadable path)
  (format.read text).mapError (.malformed format path)

/-- Attributes with those of a file put in, if there is one. -/
def mergeFile (host : Host) (format : Format) (attributes : List (Value × Value)) :
    Option Path → Except Failure (List (Value × Value))
  | none => .ok attributes
  | some path => do merge path attributes (← readFile host format path)

/-- The attributes of the two files. -/
def load (host : Host) (yaml json : Option Path) : Except Failure Value := do
  let attributes ← mergeFile host .yaml [] yaml
  return .mapping (← mergeFile host .json attributes json)

end Provision.Node
