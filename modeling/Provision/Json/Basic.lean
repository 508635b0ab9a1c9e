import Provision.Decimal.Layout
import Provision.Text.Numeral

/-!
# JSON documents

A document is a tree whose numbers are kept as they are written. It is written either
on one line or indented by two spaces a level.
-/

namespace Provision

/-- A JSON document. -/
inductive Json where
  | null
  | bool (b : Bool)
  | number (text : String)
  | string (s : String)
  | array (items : List Json)
  | object (fields : List (String × Json))
  deriving Inhabited

namespace Json

open Provision.Text

/-- Why there is no document of something. -/
inductive Obstacle where
  /-- A mapping has a key that is neither a string nor written like one. -/
  | key
  /-- A mapping has an infinite or invalid double for a key. -/
  | double
  /-- A path has bytes that belong to no character. -/
  | path
  deriving DecidableEq, Inhabited

/-- The text of an obstacle. -/
def Obstacle.message : Obstacle → String
  | .key => "key must be a string"
  | .double => "float key must be finite (got NaN or +/-inf)"
  | .path => "path contains invalid UTF-8 characters"

/-- Doubles in a document: invalid and infinite numbers have no written form but null, and
a positive exponent carries a plus sign. -/
def doubles : Decimal.Layout where
  minPoint := -4
  maxPoint := 16
  plusSign := true
  nan := "null"
  infinity := "null"
  negativeInfinity := "null"

/-- One character of a string as it is written between quotes. -/
def escape (c : Char) : List Char :=
  match c with
  | '"' => ['\\', '"']
  | '\\' => ['\\', '\\']
  | '\x08' => ['\\', 'b']
  | '\x0c' => ['\\', 'f']
  | '\n' => ['\\', 'n']
  | '\r' => ['\\', 'r']
  | '\t' => ['\\', 't']
  | _ => if c.toNat < 0x20 then '\\' :: 'u' :: hexDigits 4 c else [c]

/-- A string between quotes. -/
def quoted (s : String) : List Char :=
  '"' :: s.toList.flatMap escape ++ ['"']

/-- The text of a truth value. -/
def boolText (b : Bool) : String := if b then "true" else "false"

/-- A line break and the indentation of a level. -/
def newline (level : Nat) : List Char := '\n' :: List.replicate (2 * level) ' '

/-- How the parts of a document are set apart. -/
structure Spacing where
  /-- What stands in front of each item, field and closing bracket of a level. -/
  gap : Nat → List Char
  /-- What stands behind the colon of a field. -/
  pad : List Char
  /-- Lines and columns are all that gaps are for. -/
  blank : ∀ level, ∀ c ∈ gap level, c = ' ' ∨ c = '\n'

/-- Everything on one line, without spaces. -/
def Spacing.tight : Spacing := ⟨fun _ => [], [], fun _ _ h => nomatch h⟩

/-- Items and fields on lines of their own, indented by two spaces a level. -/
def Spacing.lines : Spacing where
  gap := newline
  pad := [' ']
  blank level c h := by
    rcases List.mem_cons.1 h with rfl | h
    · exact .inr rfl
    · exact .inl (List.eq_of_mem_replicate h)

mutual

/-- A document that stands on a level. There is nothing in empty arrays and objects. -/
def written (p : Spacing) (level : Nat) : Json → List Char
  | .null => "null".toList
  | .bool b => (boolText b).toList
  | .number text => text.toList
  | .string s => quoted s
  | .array [] => ['[', ']']
  | .array (j :: rest) =>
    '[' :: p.gap (level + 1) ++ written p (level + 1) j ++ writtenItems p (level + 1) rest ++
      p.gap level ++ [']']
  | .object [] => ['\x7b', '\x7d']
  | .object ((k, j) :: rest) =>
    '\x7b' :: p.gap (level + 1) ++ quoted k ++ ':' :: p.pad ++ written p (level + 1) j ++
      writtenFields p (level + 1) rest ++ p.gap level ++ ['\x7d']

/-- The items after the first, each behind a comma. -/
def writtenItems (p : Spacing) (level : Nat) : List Json → List Char
  | [] => []
  | j :: rest => ',' :: p.gap level ++ written p level j ++ writtenItems p level rest

/-- The fields after the first, each behind a comma. -/
def writtenFields (p : Spacing) (level : Nat) : List (String × Json) → List Char
  | [] => []
  | (k, j) :: rest =>
    ',' :: p.gap level ++ quoted k ++ ':' :: p.pad ++ written p level j ++
      writtenFields p level rest

end

/-- A document on one line. -/
def compact (j : Json) : List Char := j.written .tight 0

/-- A document on lines of its own. -/
def indented (j : Json) : List Char := j.written .lines 0

/-- The text of a document on one line. -/
def text (j : Json) : String := String.ofList j.compact

/-- The text of a document on several lines. -/
def indentedText (j : Json) : String := String.ofList j.indented

end Json

end Provision
