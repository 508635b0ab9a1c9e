import Provision.Decimal.Stepwise
import Provision.Json.Reader
import Provision.Value.Basic

/-!
# The value of a JSON document

Numbers that are plain integers of 64 bits stay integers, every other number becomes a
double. An object has no key twice.
-/

namespace Provision.Value

/-- The value of a number, unless it is out of range. -/
def ofNumeral? (n : Json.Numeral) : Option Value :=
  let integer? : Option Nat :=
    match n.plain, Decimal.absorb 0 n.whole with
    | true, (k, 0) => some k
    | _, _ => none
  let double? := (Decimal.stepwise n.negative n.whole n.fraction n.exponent).map .float
  match n.negative, integer? with
  | false, some k => some (.int k)
  | true, some k => if 0 < k ∧ k ≤ Nat.pow 2 63 then some (.int (-(k : Int))) else double?
  | _, none => double?

mutual

/-- The value of a document. -/
def ofJson : Json → Except Json.Cause Value
  | .null => .ok .null
  | .bool b => .ok (.bool b)
  | .number text =>
    match (Json.Numeral.ofChars? text.toList).bind ofNumeral? with
    | some v => .ok v
    | none => .error .numberOutOfRange
  | .string s => .ok (.string s)
  | .array items => (ofItems items).map .sequence
  | .object fields => (ofFieldList [] fields).map .mapping

/-- The values of the items of an array. -/
def ofItems : List Json → Except Json.Cause (List Value)
  | [] => .ok []
  | j :: rest => do
    let v ← ofJson j
    return v :: (← ofItems rest)

/-- The entries of an object, behind those of the fields before. -/
def ofFieldList (entries : List (Value × Value)) :
    List (String × Json) → Except Json.Cause (List (Value × Value))
  | [] => .ok entries
  | (key, j) :: rest => do
    if (field? key entries).isSome then throw .duplicateKey
    let v ← ofJson j
    ofFieldList (entries ++ [(.string key, v)]) rest

end

/-- The value of a JSON text. -/
def readJson (text : String) : Except Json.Cause Value := (Json.read text).bind ofJson

end Provision.Value
