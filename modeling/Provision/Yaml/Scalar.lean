import Provision.Yaml.Cursor

/-!
# The text of scalars

Plain, quoted and block scalars. A scalar of several lines is folded: a single line
break becomes a space, and of several breaks the first is dropped.
-/

namespace Provision.Yaml

/-- The blanks and breaks between two parts of a scalar. -/
structure Gap where
  /-- Whether a line was broken. -/
  broken : Bool
  /-- The blanks, if no line was broken. -/
  blanks : List Char
  /-- The first break. -/
  first : List Char
  /-- The breaks after the first. -/
  more : List Char
  deriving Inhabited

/-- What a gap becomes in the text. -/
def Gap.text (g : Gap) : List Char :=
  if g.broken then
    if g.first == ['\n'] then (if g.more.isEmpty then [' '] else g.more) else g.first ++ g.more
  else g.blanks

/-- Extends a gap as far as blanks and breaks go. A tab may not stand before the given
column of a later line. -/
def Cursor.extendGap (limit : Nat) : Nat → Gap → Cursor → Result (Gap × Cursor)
  | 0, g, c => .ok (g, c)
  | fuel + 1, g, c =>
    match c.peek 0 with
    | some x =>
      if isBlank x then
        if g.broken && x == '\t' && c.column < limit then .error .misplacedTab
        else if g.broken then extendGap limit fuel g (c.skip 1)
        else extendGap limit fuel { g with blanks := g.blanks ++ [x] } (c.skip 1)
      else if isBreak x then
        let g :=
          if g.broken then { g with more := g.more ++ c.breakText }
          else { g with broken := true, blanks := [], first := c.breakText }
        extendGap limit fuel g c.skipBreak
      else .ok (g, c)
    | none => .ok (g, c)

/-- The gap that stands here. A line may already have been broken by an escape. -/
def Cursor.gap (c : Cursor) (limit : Nat) (broken : Bool) : Result (Gap × Cursor) :=
  c.extendGap limit (c.rest.length + 1) ⟨broken, [], [], []⟩

/-! ## Plain scalars -/

/-- The characters that end a plain scalar inside of brackets. -/
def isFlowIndicator (x : Char) : Bool :=
  x == ',' || x == '[' || x == ']' || x == '\x7b' || x == '\x7d'

/-- Reads the characters of a plain scalar up to a gap or its end, adding them in front of
those read so far. -/
def Cursor.plainRun (flow : Bool) : Nat → List Char → Cursor → Result (List Char × Cursor)
  | 0, acc, c => .ok (acc, c)
  | fuel + 1, acc, c =>
    match c.peek 0 with
    | none => .ok (acc, c)
    | some x =>
      if isBlank x || isBreak x then .ok (acc, c)
      else if flow && x == ':' && (c.peek 1).any (fun y => y == '?' || isFlowIndicator y) then
        .error .ambiguousColon
      else if (x == ':' && c.gapAt 1) || (flow && isFlowIndicator x) then .ok (acc, c)
      else plainRun flow fuel (x :: acc) (c.skip 1)

/-- Reads a plain scalar further. The gap before this place becomes text only if more of
the scalar follows. The last result tells whether a line was broken at the end. -/
def Cursor.plainFrom (flow : Bool) (indent : Nat) :
    Nat → List Char → Gap → Cursor → Result (List Char × Cursor × Bool)
  | 0, acc, g, c => .ok (acc, c, g.broken)
  | fuel + 1, acc, g, c => do
    if c.atMarker || c.sees '#' then return (acc, c, g.broken)
    let (run, c') ← c.plainRun flow (c.rest.length + 1) []
    if run.isEmpty then return (acc, c', g.broken)
    let acc := run ++ g.text.reverse ++ acc
    if !(c'.blankAt 0 || c'.breakAt 0) then return (acc, c', false)
    let (g, c') ← c'.gap indent false
    if !flow && c'.column < indent then return (acc, c', g.broken)
    plainFrom flow indent fuel acc g c'

/-- The plain scalar that starts here, the place after it, and whether the gap behind it
breaks a line. -/
def Cursor.plain (c : Cursor) (flow : Bool) (indent : Nat) :
    Result (List Char × Cursor × Bool) := do
  let (acc, c, broken) ← c.plainFrom flow indent (c.rest.length + 1) [] default
  return (acc.reverse, c, broken)

/-! ## Quoted scalars -/

/-- The character that an escape of one letter stands for. -/
def escaped? (x : Char) : Option Char :=
  match x with
  | '0' => some '\x00'
  | 'a' => some '\x07'
  | 'b' => some '\x08'
  | 't' | '\t' => some '\t'
  | 'n' => some '\n'
  | 'v' => some '\x0b'
  | 'f' => some '\x0c'
  | 'r' => some '\r'
  | 'e' => some '\x1b'
  | ' ' | '"' | '/' | '\\' => some x
  | 'N' => some '\u0085'
  | '_' => some '\u00a0'
  | 'L' => some '\u2028'
  | 'P' => some '\u2029'
  | _ => none

/-- The number of hexadecimal digits behind the letter of an escape. -/
def escapeWidth? (x : Char) : Option Nat :=
  match x with
  | 'x' => some 2
  | 'u' => some 4
  | 'U' => some 8
  | _ => none

/-- The character of a code point. -/
def charOf? (n : Nat) : Option Char := if n.isValidChar then some (Char.ofNat n) else none

/-- The escape sequence that starts here, and the place after it. -/
def Cursor.escape (c : Cursor) : Result (Char × Cursor) :=
  match c.peek 1 with
  | none => .error .unknownEscape
  | some x =>
    match escaped? x, escapeWidth? x with
    | some y, _ => .ok (y, c.skip 2)
    | none, some width =>
      let digits := (c.rest.drop 2).take width
      if digits.length < width then .error .unknownEscape
      else
        match (Text.readNat? 16 digits).bind charOf? with
        | some y => .ok (y, c.skip (2 + width))
        | none => .error .unknownEscape
    | none, none => .error .unknownEscape

/-- Reads the characters between quotes up to a gap, the closing quote, or an escaped line
break. The last result tells whether it was such a break. -/
def Cursor.quotedRun (single : Bool) : Nat → List Char → Cursor → Result (List Char × Cursor × Bool)
  | 0, acc, c => .ok (acc, c, false)
  | fuel + 1, acc, c =>
    match c.peek 0 with
    | none => .ok (acc, c, false)
    | some x =>
      if isBlank x || isBreak x then .ok (acc, c, false)
      else if single then
        if x == '\'' then
          if c.peek 1 == some '\'' then quotedRun single fuel ('\'' :: acc) (c.skip 2)
          else .ok (acc, c, false)
        else quotedRun single fuel (x :: acc) (c.skip 1)
      else if x == '"' then .ok (acc, c, false)
      else if x == '\\' then
        if c.breakAt 1 then .ok (acc, (c.skip 1).skipBreak, true)
        else
          match c.escape with
          | .ok (y, c) => quotedRun single fuel (y :: acc) c
          | .error e => .error e
      else quotedRun single fuel (x :: acc) (c.skip 1)

/-- Reads a quoted scalar further, up to its closing quote. -/
def Cursor.quotedFrom (single : Bool) : Nat → List Char → Cursor → Result (List Char × Cursor)
  | 0, _, _ => .error .unclosedQuote
  | fuel + 1, acc, c => do
    if c.atMarker then throw .unexpectedDocumentMarker
    if c.atEnd then throw .unclosedQuote
    let (acc, c, broken) ← c.quotedRun single (c.rest.length + 1) acc
    if c.sees (if single then '\'' else '"') then return (acc, c.skip 1)
    let (g, c) ← c.gap 0 broken
    quotedFrom single fuel (g.text.reverse ++ acc) c

/-- The quoted scalar that starts here, and the place after it. -/
def Cursor.quoted (c : Cursor) (single : Bool) : Result (List Char × Cursor) := do
  let (acc, c) ← (c.skip 1).quotedFrom single (c.rest.length + 1) []
  return (acc.reverse, c)

/-! ## Block scalars -/

/-- What becomes of the line breaks at the end of a block scalar. -/
inductive Chomping where
  | strip
  | clip
  | keep
  deriving DecidableEq, Inhabited

/-- The header of a block scalar. -/
structure BlockHeader where
  chomping : Chomping
  /-- The indentation beyond that of the parent, if it is given. -/
  increment : Option Nat

/-- The chomping that a character stands for. -/
def chomping? (x : Char) : Option Chomping :=
  if x == '+' then some .keep else if x == '-' then some .strip else none

/-- The indentation that a digit stands for. -/
def increment? (x : Char) : Option Nat := Text.digitValue? 10 x

/-- The header after the indicator, and the place after it. Its two parts may come in
either order. -/
def Cursor.blockHeader (c : Cursor) : Result (BlockHeader × Cursor) :=
  let first := (c.peek 0).bind chomping?
  let c₁ := if first.isSome then c.skip 1 else c
  let increment := (c₁.peek 0).bind increment?
  let c₂ := if increment.isSome then c₁.skip 1 else c₁
  let second := if first.isNone && increment.isSome then (c₂.peek 0).bind chomping? else none
  let c₃ := if second.isSome then c₂.skip 1 else c₂
  if increment == some 0 then .error .malformedBlockHeader
  else .ok (⟨(first.or second).getD .clip, increment⟩, c₃)

/-- Passes over indentation and empty lines. Until the indentation is known, every space
counts as indentation, and the widest line is remembered. -/
def Cursor.blockBreaks (indent : Nat) :
    Nat → Nat → List Char → Cursor → Result (Nat × List Char × Cursor)
  | 0, widest, breaks, c => .ok (widest, breaks, c)
  | fuel + 1, widest, breaks, c =>
    let spaces := (c.rest.takeWhile (· == ' ')).length
    let c := c.skip (if indent = 0 then spaces else min spaces (indent - c.column))
    let widest := max widest c.column
    if (indent = 0 ∨ c.column < indent) ∧ c.sees '\t' then .error .misplacedTab
    else if c.breakAt 0 then blockBreaks indent fuel widest (breaks ++ c.breakText) c.skipBreak
    else .ok (widest, breaks, c)

/-- Reads the lines of a block scalar. `pending` is the break before this line, `breaks`
those of the empty lines behind it, and `spaced` tells whether the line before starts with
a blank, which keeps a folded scalar from being folded there. -/
def Cursor.blockLines (literal : Bool) (indent : Nat) :
    Nat → List Char → List Char → List Char → Bool → Cursor →
      Result (List Char × List Char × List Char × Cursor)
  | 0, acc, pending, breaks, _, c => .ok (acc, pending, breaks, c)
  | fuel + 1, acc, pending, breaks, spaced, c => do
    if c.column ≠ indent ∨ c.atEnd then return (acc, pending, breaks, c)
    let blank := c.blankAt 0
    let folded := !literal && pending == ['\n'] && !spaced && !blank
    let joint := if folded then (if breaks.isEmpty then [' '] else []) else pending
    let (line, c) := c.span (! isBreak ·)
    let acc := line.reverse ++ breaks.reverse ++ joint.reverse ++ acc
    let pending := c.breakText
    let (_, breaks, c) ← c.skipBreak.blockBreaks indent (c.rest.length + 1) 0 []
    blockLines literal indent fuel acc pending breaks blank c

/-- The block scalar that starts here, and the place after it. The parent's indentation is
given as the least column of a child. -/
def Cursor.block (c : Cursor) (literal : Bool) (child : Nat) : Result (List Char × Cursor) := do
  let (header, c) ← (c.skip 1).blockHeader
  let c := c.skipBlanks
  let c := if c.sees '#' then c.skipLine else c
  if !(c.atEnd || c.breakAt 0) then throw .malformedBlockHeader
  let c := c.skipBreak
  let given := (header.increment.map fun n => child - 1 + n).getD 0
  let (widest, breaks, c) ← c.blockBreaks given (c.rest.length + 1) 0 []
  let indent := if given = 0 then max widest (max child 1) else given
  let (acc, pending, breaks, c) ←
    c.blockLines literal indent (c.rest.length + 1) [] [] breaks false
  let acc := if header.chomping = .strip then acc else pending.reverse ++ acc
  let acc := if header.chomping = .keep then breaks.reverse ++ acc else acc
  return (acc.reverse, c)

end Provision.Yaml
