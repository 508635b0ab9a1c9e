import Provision.OrderedMap
import Provision.Text.Blank
import Provision.Text.Numeral
import Provision.Text.Split
import Provision.Value.Basic

/-!
# Scopes

A scope gives values to names. A binding is a constant, or lazy: then its value is
computed at each read, from the arguments of all reads of it so far. The reads of a
run are recorded in order, and that record is the only state lazy bindings have.
-/

namespace Provision

/-- One read of a lazy binding. -/
structure Read where
  /-- Which lazy binding is read. -/
  source : Nat
  /-- The argument of the read, if it has one. -/
  argument : Option Value

/-- The reads of lazy bindings so far, oldest first. -/
abbrev Reads := List Read

/-- The arguments with which one lazy binding was read. -/
def Reads.arguments (rs : Reads) (source : Nat) : List (Option Value) :=
  (rs.filter (·.source == source)).map (·.argument)

/-- What a name is bound to. -/
inductive Binding where
  /-- A value that is the same at each read. -/
  | constant (v : Value)
  /-- A value computed from the arguments of all reads, that of the present one last.
  Bindings with the same source share their reads. -/
  | lazy (source : Nat) (answer : List (Option Value) → Value)
  deriving Inhabited

/-- Reads a binding. -/
def Binding.read (b : Binding) (argument : Option Value) : StateM Reads Value := fun rs =>
  match b with
  | .constant v => (v, rs)
  | .lazy source answer =>
    let rs := rs ++ [⟨source, argument⟩]
    (answer (rs.arguments source), rs)

/-- An ordered map from names to bindings. -/
abbrev Scope := OrderedMap Binding

namespace Scope

/-- Reads a name without an argument. -/
def read? (s : Scope) (name : String) : StateM Reads (Option Value) :=
  match s.get? name with
  | some b => some <$> b.read none
  | none => pure none

/-- Reads a name with an argument, which constants pass over. -/
def call? (s : Scope) (name : String) (argument : Value) : StateM Reads (Option Value) :=
  match s.get? name with
  | some b => some <$> b.read (some argument)
  | none => pure none

end Scope

/-- An index into a sequence: a decimal numeral, which may carry a plus sign. -/
def Value.readIndex? : List Char → Option Nat
  | '+' :: ds => Text.readNat? 10 ds
  | ds => Text.readNat? 10 ds

/-- The part of a value that a key leads to: the entry of a mapping under the key as a
string, or the item of a sequence at the key as an index. -/
def Value.child? (v : Value) (key : String) : Option Value :=
  match v with
  | .mapping entries => Value.field? key entries
  | .sequence items => (Value.readIndex? key.toList).bind (items[·]?)
  | _ => none

/-- The part of a value that several keys lead to, one after the other. -/
def Value.descend? : List String → Value → Option Value
  | [], v => some v
  | key :: keys, v => (v.child? key).bind (descend? keys)

/-- The segments of a dotted path, each without blanks at its ends. -/
def Scope.segments (path : String) : List String :=
  (Text.split '.' path.toList).map fun cs => String.ofList (Text.trim cs)

/-- Looks up a dotted path: the first segment is a name, which is read even if the rest of
the path leads nowhere. -/
def Scope.lookup? (s : Scope) (path : String) : StateM Reads (Option Value) :=
  match Scope.segments path with
  | [] => pure none
  | name :: keys => return (← s.read? name).bind (Value.descend? keys)

end Provision
