import Provision.Text.Split

/-!
# Notifications

A notification asks for an action on another resource of the same recipe. Its target
is named by a descriptor such as `service[nginx]`, and it fires at a given time.
-/

namespace Provision

/-- When a notified action fires. The first two both mean the end of the run. -/
inductive Timing where
  | delay
  | delayed
  | immediately
  deriving DecidableEq, Inhabited

namespace Timing

/-- The word for a timing. -/
def text : Timing → String
  | .delay => "delay"
  | .delayed => "delayed"
  | .immediately => "immediately"

/-- The timing a word stands for. -/
def ofText? (word : String) : Option Timing :=
  [delay, delayed, immediately].find? (·.text == word)

/-- Whether the action waits for the end of the run. -/
def isDelayed : Timing → Bool
  | .delay | .delayed => true
  | .immediately => false

end Timing

/-- A notification of a resource, its target still a descriptor. -/
structure Notification where
  /-- The recipe in which the target is looked for. -/
  recipe : Nat
  /-- The action asked for. -/
  action : String
  /-- The descriptor of the target. -/
  target : String
  /-- When the action fires. -/
  timing : Timing
  deriving DecidableEq, Inhabited

namespace Notification

/-- Why a notification cannot be made or resolved. -/
inductive Failure where
  | malformed (descriptor : String)
  | notFound (descriptor : String)
  | invalidTiming (word : String)
  deriving DecidableEq, Inhabited

/-- The text of a failure. -/
def Failure.message : Failure → String
  | .malformed d => "'" ++ d ++ "' doesn't represent a resource."
  | .notFound d => "'" ++ d ++ "' resource is not found."
  | .invalidTiming w =>
    "'" ++ w ++ "' is not valid notification timing. (Valid option is delayed or immediately)"

/-- A notification with its timing given as a word. -/
def make (recipe : Nat) (action target timing : String) : Except Failure Notification :=
  match Timing.ofText? timing with
  | some t => .ok { recipe, action, target, timing := t }
  | none => .error (.invalidTiming timing)

/-- Whether the action fires right after the notifying resource. -/
def isImmediate (n : Notification) : Bool := n.timing == .immediately

end Notification

/-- The parts of a descriptor: a type and a name. -/
structure Descriptor where
  type : String
  name : String
  deriving DecidableEq, Inhabited

namespace Descriptor

/-- The parts of the characters of a descriptor: a non-empty type up to the first opening
bracket, and a non-empty name up to a closing bracket that is the last character. -/
def split? (cs : List Char) : Option (List Char × List Char) :=
  let type := cs.takeWhile (· ≠ '[')
  match cs.dropWhile (· ≠ '[') with
  | _ :: rest =>
    let name := rest.takeWhile (· ≠ ']')
    if !type.isEmpty && !name.isEmpty && rest.dropWhile (· ≠ ']') == [']'] then some (type, name)
    else none
  | [] => none

/-- The descriptor that a text represents. -/
def ofText? (s : String) : Option Descriptor :=
  (split? s.toList).map fun p => ⟨String.ofList p.1, String.ofList p.2⟩

/-- The text of a descriptor. -/
def text (d : Descriptor) : String := d.type ++ "[" ++ d.name ++ "]"

end Descriptor

end Provision
