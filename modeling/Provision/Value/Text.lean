import Provision.Value.Basic
import Provision.Json.Basic
import Provision.Text.Printable

/-!
# The text of a value

What a placeholder leaves in a text: strings as they are, numbers and truth values in
their plain form, nothing for null. Compound values are written as JSON, or, where a
key of a mapping cannot be a JSON key, as a dump that names each kind of value.
-/

namespace Provision.Value

open Provision.Text

/-- Doubles in plain texts: infinities and the invalid number are dotted words. -/
def doubles : Decimal.Layout where
  minPoint := -4
  maxPoint := 16
  plusSign := false
  nan := ".nan"
  infinity := ".inf"
  negativeInfinity := "-.inf"

/-- A key of a JSON object: strings, and truth values, integers and finite doubles in their
written form. -/
def jsonKey : Value → Except Json.Obstacle String
  | .string s => .ok s
  | .bool b => .ok (Json.boolText b)
  | .int n => .ok (String.ofList (intDigits n))
  | .float x =>
    if x.isFinite then .ok (String.ofList (Json.doubles.chars x)) else .error .double
  | _ => .error .key

mutual

/-- The JSON document of a value. The first key of a mapping that cannot be one is in its way. -/
def json : Value → Except Json.Obstacle Json
  | .null => .ok .null
  | .bool b => .ok (.bool b)
  | .int n => .ok (.number (String.ofList (intDigits n)))
  | .float x =>
    .ok (if x.isFinite then .number (String.ofList (Json.doubles.chars x)) else .null)
  | .string s => .ok (.string s)
  | .sequence items => (jsonItems items).map .array
  | .mapping entries => (jsonFields entries).map .object
  | .tagged tag v => (json v).map fun j => .object [(tag, j)]

/-- The JSON documents of the items of a sequence. -/
def jsonItems : List Value → Except Json.Obstacle (List Json)
  | [] => .ok []
  | v :: rest => do
    let j ← json v
    (jsonItems rest).map (j :: ·)

/-- The JSON fields of the entries of a mapping. -/
def jsonFields : List (Value × Value) → Except Json.Obstacle (List (String × Json))
  | [] => .ok []
  | (k, v) :: rest => do
    let name ← jsonKey k
    let j ← json v
    (jsonFields rest).map ((name, j) :: ·)

end

/-- The characters of a number or truth value in a plain text. -/
def scalarChars : Value → List Char
  | .bool b => (Json.boolText b).toList
  | .int n => intDigits n
  | .float x => doubles.chars x
  | .string s => s.toList
  | _ => []

mutual

/-- A value with the name of its kind. -/
def dump : Value → List Char
  | .null => "Null".toList
  | .bool b => "Bool(".toList ++ scalarChars (.bool b) ++ [')']
  | .int n => "Number(".toList ++ scalarChars (.int n) ++ [')']
  | .float x => "Number(".toList ++ scalarChars (.float x) ++ [')']
  | .string s => "String(".toList ++ Text.dumped s ++ [')']
  | .sequence items => "Sequence [".toList ++ dumpItems items ++ [']']
  | .mapping entries => "Mapping \x7b".toList ++ dumpEntries entries ++ ['\x7d']
  | .tagged tag v =>
    "TaggedValue \x7b tag: ".toList ++ tag.toList ++ ", value: ".toList ++ dump v ++ " \x7d".toList

/-- A key: numbers, truth values and strings stand without the name of their kind. -/
def dumpKey : Value → List Char
  | .bool b => scalarChars (.bool b)
  | .int n => scalarChars (.int n)
  | .float x => scalarChars (.float x)
  | .string s => Text.dumped s
  | .null => "Null".toList
  | .sequence items => "Sequence [".toList ++ dumpItems items ++ [']']
  | .mapping entries => "Mapping \x7b".toList ++ dumpEntries entries ++ ['\x7d']
  | .tagged tag v =>
    "TaggedValue \x7b tag: ".toList ++ tag.toList ++ ", value: ".toList ++ dump v ++ " \x7d".toList

/-- The items of a sequence, separated by a comma and a space. -/
def dumpItems : List Value → List Char
  | [] => []
  | [v] => dump v
  | v :: rest => dump v ++ ',' :: ' ' :: dumpItems rest

/-- The entries of a mapping, separated by a comma and a space. -/
def dumpEntries : List (Value × Value) → List Char
  | [] => []
  | [(k, v)] => dumpKey k ++ ':' :: ' ' :: dump v
  | (k, v) :: rest => dumpKey k ++ ':' :: ' ' :: dump v ++ ',' :: ' ' :: dumpEntries rest

end

/-- The characters a value leaves in a text. -/
def chars : Value → List Char
  | .null => []
  | v@(.sequence _) | v@(.mapping _) | v@(.tagged _ _) =>
    match v.json with
    | .ok j => j.compact
    | .error _ => v.dump
  | v => v.scalarChars

/-- The text of a value. -/
def text (v : Value) : String := String.ofList v.chars

end Provision.Value
