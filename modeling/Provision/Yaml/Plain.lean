import Provision.Decimal.Reading
import Provision.Text.Numeral
import Provision.Value.Basic
import Provision.Yaml.Tag

/-!
# The types of scalars

A plain scalar is null, a truth value, a number or else a string, by how it is written.
A tag may ask for one of these types.
-/

namespace Provision.Yaml

/-- The words for null. -/
def isNull (cs : List Char) : Bool :=
  ["null", "Null", "NULL", "~"].contains (String.ofList cs)

/-- The truth value of a word. -/
def bool? (cs : List Char) : Option Bool :=
  let s := String.ofList cs
  if ["true", "True", "TRUE"].contains s then some true
  else if ["false", "False", "FALSE"].contains s then some false
  else none

/-- A run of digits that starts with a zero and goes on is not a number. -/
def isZeroLed (cs : List Char) : Bool :=
  let cs :=
    match cs with
    | '-' :: ds | '+' :: ds => ds
    | _ => cs
  match cs with
  | '0' :: ds@(_ :: _) => ds.all Text.isDigit
  | _ => false

/-- The number of digits behind a mark of their base, if it is less than a limit. -/
def based? (limit : Nat) : List Char → Option Nat
  | '0' :: 'x' :: ds => (Text.readNat? 16 ds).filter (· < limit)
  | '0' :: 'o' :: ds => (Text.readNat? 8 ds).filter (· < limit)
  | '0' :: 'b' :: ds => (Text.readNat? 2 ds).filter (· < limit)
  | _ => none

/-- An integer as it is written, its magnitude less than a limit that depends on its
sign. A sign may stand in front, and a mark of the base behind it. -/
def integer? (positive negative : Nat) (cs : List Char) : Option Int :=
  match cs with
  | '-' :: ds =>
    let n? := (based? negative ds).or
      (if isZeroLed cs then none else (Text.readNat? 10 ds).filter (· < negative))
    n?.map fun n => -(n : Int)
  | _ =>
    let ds := match cs with
      | '+' :: ds => ds
      | _ => cs
    let n? := (based? positive ds).or
      (if isZeroLed cs then none else (Text.readNat? 10 ds).filter (· < positive))
    n?.map fun n => (n : Int)

/-- The value of an integer. One that fits 128 bits but not 64 is out of range. -/
def int? (cs : List Char) : Option (Result Value) :=
  match integer? (Nat.pow 2 64) (Nat.pow 2 63 + 1) cs with
  | some n => some (.ok (.int n))
  | none =>
    match integer? (Nat.pow 2 128) (Nat.pow 2 127 + 1) cs with
    | some _ => some (.error .numberOutOfRange)
    | none => none

/-- The value of a decimal fraction with a finite value, or of a dotted word. -/
def float? (cs : List Char) : Option Binary64 :=
  let unsigned := match cs with
    | '+' :: ds => ds
    | _ => cs
  if [".inf", ".Inf", ".INF"].contains (String.ofList unsigned) then some (.infinite false)
  else if ["-.inf", "-.Inf", "-.INF"].contains (String.ofList cs) then some (.infinite true)
  else if [".nan", ".NaN", ".NAN"].contains (String.ofList cs) then some .nan
  else
    match cs with
    | '+' :: '+' :: _ | '+' :: '-' :: _ => none
    | _ => ((Decimal.read? unsigned).map (·.toBinary64)).filter (·.isFinite)

/-- The value of a plain scalar without a tag. -/
def plainValue (cs : List Char) : Result Value :=
  if cs.isEmpty || isNull cs then .ok .null
  else
    match bool? cs with
    | some b => .ok (.bool b)
    | none =>
      match int? cs with
      | some r => r
      | none =>
        if isZeroLed cs then .ok (.string (String.ofList cs))
        else
          match float? cs with
          | some x => .ok (.float x)
          | none => .ok (.string (String.ofList cs))

/-- The tag of a type. -/
def typeTag (name : String) : Tag := Tag.standard ++ Tag.ofChars name.toList

/-- The value of a scalar with a tag that is not local. -/
def typedValue (tag : Tag) (cs : List Char) : Result Value :=
  if tag == typeTag "bool" then
    match bool? cs with
    | some b => .ok (.bool b)
    | none => .error .unreadableScalar
  else if tag == typeTag "int" then (int? cs).getD (.error .unreadableScalar)
  else if tag == typeTag "float" then
    match float? cs with
    | some x => .ok (.float x)
    | none => .error .unreadableScalar
  else if tag == typeTag "null" then
    if isNull cs then .ok .null else .error .unreadableScalar
  else .ok (.string (String.ofList cs))

end Provision.Yaml
