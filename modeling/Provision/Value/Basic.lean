import Provision.Decimal.Binary64

/-!
# Values

The data that recipes are written in and that variables hold: the values of the YAML
data model. Mappings keep the order of their entries.
-/

namespace Provision

/-- A value of the YAML data model. -/
inductive Value where
  | null
  | bool (b : Bool)
  | int (n : Int)
  | float (x : Binary64)
  | string (s : String)
  | sequence (items : List Value)
  | mapping (entries : List (Value × Value))
  | tagged (tag : String) (value : Value)
  deriving Inhabited

namespace Value

mutual

/-- Whether two values are the same key. Integers and floats differ, the two zeros do not,
and the order of a mapping's entries is left out of account. -/
def same : Value → Value → Bool
  | .null, .null => true
  | .bool a, .bool b => a == b
  | .int a, .int b => a == b
  | .float a, .float b => a.same b
  | .string a, .string b => a == b
  | .sequence as, .sequence bs => sameItems as bs
  | .mapping as, .mapping bs => as.length == bs.length && sameEntries as bs
  | .tagged s a, .tagged t b => s == t && same a b
  | _, _ => false

/-- Whether two sequences are the same item by item. -/
def sameItems : List Value → List Value → Bool
  | [], [] => true
  | a :: as, b :: bs => same a b && sameItems as bs
  | _, _ => false

/-- Whether every entry of the first mapping is an entry of the second. -/
def sameEntries : List (Value × Value) → List (Value × Value) → Bool
  | [], _ => true
  | (k, v) :: rest, bs =>
    bs.any (fun e => same k e.1 && same v e.2) && sameEntries rest bs

end

/-- The value of an entry with the given key. -/
def find? (key : Value) : List (Value × Value) → Option Value
  | [] => none
  | (k, v) :: rest => if same k key then some v else find? key rest

/-- Entries with a value put in at its key's place, or at the end for a new key. -/
def put (key value : Value) : List (Value × Value) → List (Value × Value)
  | [] => [(key, value)]
  | (k, v) :: rest => if same k key then (k, value) :: rest else (k, v) :: put key value rest

/-- The entry of a mapping under a string key. A tagged key is another key. -/
def field? (name : String) (entries : List (Value × Value)) : Option Value :=
  find? (.string name) entries

/-- The entries with string keys, as a mapping. -/
def ofFields (fields : List (String × Value)) : Value :=
  .mapping (fields.map fun e => (.string e.1, e.2))

/-- A value without the tags around it. -/
def untagged : Value → Value
  | .tagged _ v => untagged v
  | v => v

/-- The string a value is, seen through tags. -/
def string? (v : Value) : Option String :=
  match v.untagged with
  | .string s => some s
  | _ => none

/-- The entries of the mapping a value is, seen through tags. -/
def entries? (v : Value) : Option (List (Value × Value)) :=
  match v.untagged with
  | .mapping es => some es
  | _ => none

end Value

end Provision
