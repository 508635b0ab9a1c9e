import Provision.Text.Alphanumeric
import Provision.Text.Numeral

/-!
# Patterns

The value of a field can be matched against a regular expression. No message has a field
with a value, so an expression is only read to tell whether it is well formed. It stands
within braces that its first closing brace ends, so that no counted repetition and no name
in braces is ever complete. Flags are checked, but they do not change how the rest is read.
-/

namespace Provision.Log.Pattern

/-- What is wrong with a pattern. -/
inductive Fault where
  | malformed
  /-- A boundary between words cannot be matched. -/
  | boundary
  deriving DecidableEq, Inhabited

/-- What a backslash and the characters behind it stand for. -/
inductive Escape where
  | character (c : Char)
  | set
  | assertion
  | boundary
  deriving DecidableEq, Inhabited

/-- The character with a code point of some hexadecimal digits, and what follows them. -/
def hexadecimal? (width : Nat) (cs : List Char) : Option (Escape × List Char) :=
  let digits := cs.take width
  if digits.length < width then none
  else
    (Text.readNat? 16 digits).bind fun n =>
      if n.isValidChar then some (.character (Char.ofNat n), cs.drop width) else none

/-- The general categories that a single letter of either case names. -/
def isCategory (c : Char) : Bool := "clmnpsz".toList.contains c.toLower

/-- What stands behind a backslash, and what follows it. -/
def escape? : List Char → Option (Escape × List Char)
  | [] => none
  | c :: cs =>
    match c with
    | 'x' => hexadecimal? 2 cs
    | 'u' => hexadecimal? 4 cs
    | 'U' => hexadecimal? 8 cs
    | 'p' | 'P' =>
      match cs with
      | name :: cs => if isCategory name then some (.set, cs) else none
      | [] => none
    | 'd' | 's' | 'w' | 'D' | 'S' | 'W' => some (.set, cs)
    | 'a' => some (.character '\x07', cs)
    | 'f' => some (.character '\x0c', cs)
    | 'n' => some (.character '\n', cs)
    | 'r' => some (.character '\r', cs)
    | 't' => some (.character '\t', cs)
    | 'v' => some (.character '\x0b', cs)
    | 'A' | 'z' => some (.assertion, cs)
    | 'b' | 'B' | '<' | '>' => some (.boundary, cs)
    | _ => if c.isAlphanum || 0x80 ≤ c.toNat then none else some (.character c, cs)

/-! ## Sets in brackets -/

/-- The named sets of ASCII characters. -/
def asciiSets : List String :=
  ["alnum", "alpha", "ascii", "blank", "cntrl", "digit", "graph", "lower", "print", "punct",
    "space", "upper", "word", "xdigit"]

/-- What follows the name of a set between colons and the bracket behind it. -/
def afterNamed? : List Char → Option (List Char)
  | ':' :: cs =>
    let cs :=
      match cs with
      | '^' :: rest => rest
      | _ => cs
    match cs.dropWhile (· ≠ ':') with
    | ':' :: ']' :: rest =>
      if asciiSets.contains (String.ofList (cs.takeWhile (· ≠ ':'))) then some rest else none
    | _ => none
  | _ => none

/-- What follows the opening bracket of a set, its negation, and the dashes or the bracket at
its start that stand for themselves. -/
def openSet (cs : List Char) : List Char :=
  let cs :=
    match cs with
    | '^' :: rest => rest
    | _ => cs
  match cs with
  | '-' :: rest => rest.dropWhile (· == '-')
  | ']' :: rest => rest
  | _ => cs

/-- An end of a range in a set, and what follows it. -/
def setItem? : List Char → Option (Escape × List Char)
  | [] => none
  | '\\' :: cs => escape? cs
  | c :: cs => some (.character c, cs)

/-- What follows a single item of a set, or a range of characters in it. -/
def setPart? (cs : List Char) : Option (List Char) := do
  match ← setItem? cs with
  | (.assertion, _) | (.boundary, _) => none
  | (first, '-' :: rest) =>
    if rest.head? == some ']' || rest.head? == some '-' then some ('-' :: rest)
    else
      match first, ← setItem? rest with
      | .character low, (.character high, rest) => if low ≤ high then some rest else none
      | _, _ => none
  | (_, rest) => some rest

/-- What follows a set of which some brackets are still open. -/
def afterSet? : Nat → Nat → List Char → Option (List Char)
  | 0, _, _ => none
  | fuel + 1, depth, cs =>
    match cs with
    | [] => none
    | '[' :: rest =>
      match afterNamed? rest with
      | some rest => afterSet? fuel depth rest
      | none => afterSet? fuel (depth + 1) (openSet rest)
    | ']' :: rest => if depth ≤ 1 then some rest else afterSet? fuel (depth - 1) rest
    | '&' :: '&' :: rest | '-' :: '-' :: rest | '~' :: '~' :: rest => afterSet? fuel depth rest
    | _ => (setPart? cs).bind (afterSet? fuel depth)

/-! ## Groups -/

/-- A pattern as far as it has been read. -/
structure Progress where
  /-- The number of open groups. -/
  depth : Nat
  /-- Whether there is something here that can be repeated. -/
  repeatable : Bool
  /-- The names of groups. -/
  names : List (List Char)
  /-- Whether a boundary between words is asked for. -/
  bounded : Bool
  deriving Inhabited

/-- Whether a text can name a group. -/
def isName (cs : List Char) : Bool :=
  match cs with
  | [] => false
  | c :: cs =>
    (c == '_' || Text.isAlphabetic c) &&
      cs.all fun c => ['_', '.', '[', ']'].contains c || Text.isAlphanumeric c

/-- Whether letters can stand as flags: each of them once, with one minus sign among them
that others follow. -/
def areFlags (cs : List Char) : Bool :=
  cs.all ("imsUuRx-".toList.contains ·) && decide cs.Nodup && cs.getLast? != some '-'

/-- Opens the group of a name that ends at an angle bracket. -/
def Progress.openNamed (p : Progress) (cs : List Char) : Option (Progress × List Char) :=
  let name := cs.takeWhile (· ≠ '>')
  match cs.dropWhile (· ≠ '>') with
  | _ :: rest =>
    if isName name && !p.names.contains name then
      some ({ p with depth := p.depth + 1, repeatable := false, names := name :: p.names }, rest)
    else none
  | [] => none

/-- Opens the group of a parenthesis, or sets the flags that stand in it. -/
def Progress.openGroup (p : Progress) (cs : List Char) : Option (Progress × List Char) :=
  match cs with
  | '?' :: '<' :: '=' :: _ | '?' :: '<' :: '!' :: _ => none
  | '?' :: 'P' :: '<' :: rest | '?' :: '<' :: rest => p.openNamed rest
  | '?' :: rest =>
    let flags := rest.takeWhile fun c => c ≠ ':' ∧ c ≠ ')'
    if !areFlags flags then none
    else
      match rest.dropWhile fun c => c ≠ ':' ∧ c ≠ ')' with
      | ':' :: rest => some ({ p with depth := p.depth + 1, repeatable := false }, rest)
      | _ :: rest =>
        if flags.isEmpty then none else some ({ p with repeatable := false }, rest)
      | [] => none
  | _ => some ({ p with depth := p.depth + 1, repeatable := false }, cs)

/-- Reads a pattern to its end. -/
def Progress.finish? : Nat → Progress → List Char → Option Progress
  | 0, _, _ => none
  | fuel + 1, p, cs =>
    match cs with
    | [] => if p.depth = 0 then some p else none
    | '(' :: rest => (p.openGroup rest).bind fun (p, rest) => finish? fuel p rest
    | ')' :: rest =>
      if p.depth = 0 then none
      else finish? fuel { p with depth := p.depth - 1, repeatable := true } rest
    | '|' :: rest => finish? fuel { p with repeatable := false } rest
    | '\x7b' :: _ => none
    | '[' :: rest =>
      (afterSet? (cs.length + 1) 1 (openSet rest)).bind (finish? fuel { p with repeatable := true })
    | '\\' :: rest =>
      (escape? rest).bind fun (e, rest) =>
        finish? fuel { p with repeatable := true, bounded := p.bounded || e == .boundary } rest
    | c :: rest =>
      if c == '?' || c == '*' || c == '+' then
        if !p.repeatable then none
        else
          match rest with
          | '?' :: rest => finish? fuel p rest
          | _ => finish? fuel p rest
      else finish? fuel { p with repeatable := true } rest

/-- What is wrong with a pattern, if anything is. -/
def fault? (cs : List Char) : Option Fault :=
  match Progress.finish? (cs.length + 1) ⟨0, false, [], false⟩ cs with
  | some p => if p.bounded then some .boundary else none
  | none => some .malformed

end Provision.Log.Pattern
