import Provision.Json.Basic
import Provision.Json.Escape
import Provision.Json.Number

/-!
# Reading JSON documents

A document is read from left to right. Every part that is read leaves a shorter rest,
and arrays and objects are nested down to a limit.
-/

namespace Provision.Json

/-- Why a text is not the document of a value. -/
inductive Cause where
  | malformed
  | nestedTooDeep
  | duplicateKey
  | numberOutOfRange
  deriving DecidableEq, Inhabited

/-- The text of a cause. -/
def Cause.text : Cause → String
  | .malformed => "the text is not a JSON document"
  | .nestedTooDeep => "values are nested too deep"
  | .duplicateKey => "an object has the same key twice"
  | .numberOutOfRange => "a number is out of range"

/-- What is left of a text after a part of it. -/
abbrev Rest (cs : List Char) := { rest : List Char // rest.length < cs.length }

/-- The result of reading a part of a text. -/
abbrev Part (α : Type) (cs : List Char) := Except Cause (α × Rest cs)

/-- A part of the end of a text is a part of the text. -/
def Part.within {α : Type} {cs rest : List Char} (h : rest.length ≤ cs.length)
    (p : Part α rest) : Part α cs :=
  p.map fun (a, r) => (a, ⟨r.1, Nat.lt_of_lt_of_le r.2 h⟩)

/-- The blanks between the parts of a document. -/
def isBlank (c : Char) : Bool := c == ' ' || c == '\t' || c == '\n' || c == '\r'

/-- A text without the blanks at its front. -/
def skipBlanks (cs : List Char) : List Char := cs.dropWhile isBlank

/-- Skipping blanks adds no characters. -/
theorem length_skipBlanks_le (cs : List Char) : (skipBlanks cs).length ≤ cs.length :=
  (List.dropWhile_suffix isBlank).length_le

/-- After the first character that is no blank, fewer characters are left. -/
theorem length_of_skipBlanks {cs rest : List Char} {c : Char}
    (h : skipBlanks cs = c :: rest) : rest.length < cs.length := by
  have := length_skipBlanks_le cs
  rw [h, List.length_cons] at this
  omega

/-- Reads one given character, behind blanks. -/
def expect (x : Char) (cs : List Char) : Except Cause (Rest cs) :=
  match h : skipBlanks cs with
  | c :: rest => if c = x then .ok ⟨rest, length_of_skipBlanks h⟩ else .error .malformed
  | [] => .error .malformed

/-- Reads a string whose opening quote has been read. -/
def readString (cs : List Char) : Part String cs :=
  match h : splitQuote cs with
  | some (inside, rest) =>
    match unescape inside with
    | some s => .ok (s, ⟨rest, length_of_splitQuote h⟩)
    | none => .error .malformed
  | none => .error .malformed

/-- Reads a word, of which at least one letter stands there. -/
def readWord (word : String) (j : Json) (c : Char) (cs : List Char) : Part Json (c :: cs) :=
  let size := word.length - 1
  if c :: cs.take size = word.toList then
    .ok (j, ⟨cs.drop size, by simp only [List.length_drop, List.length_cons]; omega⟩)
  else .error .malformed

/-- Reads a number, of which at least one character stands there. -/
def readNumber (c : Char) (cs : List Char) : Part Json (c :: cs) :=
  let text := c :: cs.takeWhile isNumeric
  if (Numeral.ofChars? text).isSome then
    .ok (.number (String.ofList text), ⟨cs.dropWhile isNumeric, by
      have := (List.dropWhile_suffix isNumeric (l := cs)).length_le
      simp only [List.length_cons]
      omega⟩)
  else .error .malformed

/-- Reads the items of an array up to its closing bracket, each as a value is read. -/
def readItems (value : (cs : List Char) → Part Json cs) (cs : List Char) :
    Part (List Json) cs :=
  match value cs with
  | .error e => .error e
  | .ok (j, ⟨rest, hrest⟩) =>
    match hs : skipBlanks rest with
    | ',' :: more =>
      have shorter : more.length < cs.length := Nat.lt_trans (length_of_skipBlanks hs) hrest
      Part.within (Nat.le_of_lt shorter) ((readItems value more).map fun (js, r) => (j :: js, r))
    | ']' :: more =>
      .ok ([j], ⟨more, Nat.lt_trans (length_of_skipBlanks hs) hrest⟩)
    | _ => .error .malformed
termination_by cs.length

/-- Reads the key of a field, and the colon behind it. -/
def readKey (cs : List Char) : Part String cs := do
  let ⟨rest, h⟩ ← expect '"' cs
  let (key, ⟨rest', h'⟩) ← readString rest
  let ⟨rest'', h''⟩ ← expect ':' rest'
  return (key, ⟨rest'', by omega⟩)

/-- Reads the fields of an object up to its closing brace. -/
def readFields (value : (cs : List Char) → Part Json cs) (cs : List Char) :
    Part (List (String × Json)) cs :=
  match readKey cs with
  | .error e => .error e
  | .ok (key, ⟨start, hstart⟩) =>
    match value start with
    | .error e => .error e
    | .ok (j, ⟨rest, hrest⟩) =>
      match hs : skipBlanks rest with
      | ',' :: more =>
        have := length_of_skipBlanks hs
        Part.within (by omega) ((readFields value more).map fun (es, r) => ((key, j) :: es, r))
      | '\x7d' :: more =>
        have := length_of_skipBlanks hs
        .ok ([(key, j)], ⟨more, by omega⟩)
      | _ => .error .malformed
termination_by cs.length

/-- Reads an array whose opening bracket has been read. -/
def readArray (value : (cs : List Char) → Part Json cs) (cs : List Char) : Part Json cs :=
  match expect ']' cs with
  | .ok rest => .ok (.array [], rest)
  | .error _ => (readItems value cs).map fun (js, rest) => (.array js, rest)

/-- Reads an object whose opening brace has been read. -/
def readObject (value : (cs : List Char) → Part Json cs) (cs : List Char) : Part Json cs :=
  match expect '\x7d' cs with
  | .ok rest => .ok (.object [], rest)
  | .error _ => (readFields value cs).map fun (es, rest) => (.object es, rest)

/-- Reads a value in which arrays and objects are nested down to a given depth. -/
def readValue (depth : Nat) (cs : List Char) : Part Json cs :=
  match h : skipBlanks cs with
  | [] => .error .malformed
  | c :: rest =>
    have hrest := length_of_skipBlanks h
    have hcons : (c :: rest).length ≤ cs.length := hrest
    match c, depth with
    | '"', _ => Part.within (by omega) ((readString rest).map fun (s, r) => (.string s, r))
    | '[', depth + 1 => Part.within (by omega) (readArray (readValue depth) rest)
    | '\x7b', depth + 1 => Part.within (by omega) (readObject (readValue depth) rest)
    | '[', 0 | '\x7b', 0 => .error .nestedTooDeep
    | 'n', _ => Part.within hcons (readWord "null" .null c rest)
    | 't', _ => Part.within hcons (readWord "true" (.bool true) c rest)
    | 'f', _ => Part.within hcons (readWord "false" (.bool false) c rest)
    | _, _ => Part.within hcons (readNumber c rest)

/-- How deep arrays and objects may be nested. -/
def maxDepth : Nat := 127

/-- The document of a text. -/
def read (text : String) : Except Cause Json := do
  let (j, rest) ← readValue maxDepth text.toList
  if (skipBlanks rest.1).isEmpty then return j else throw .malformed

end Provision.Json
