import Provision.Yaml.Scalar
import Provision.Yaml.Tag

/-!
# Tokens

A text is cut into tokens in which layout is explicit: where indentation grows, a token
opens a block, and where it falls back, one closes it. Whether a scalar is a key shows
only at the colon behind it; the token that says so is then put in front of it.
-/

namespace Provision.Yaml

/-- A token. -/
inductive Token where
  | directive (d : Directive)
  | documentStart
  | documentEnd
  | blockSequence
  | blockMapping
  | blockEnd
  | flowSequence
  | flowSequenceEnd
  | flowMapping
  | flowMappingEnd
  | entry
  | separator
  | key
  | value
  | alias (name : List Char)
  | anchor (name : List Char)
  | tag (name : TagName)
  | scalar (text : List Char) (plain : Bool)
  | finish
  deriving DecidableEq, Inhabited

/-- A token that may turn out to be a key. -/
structure Candidate where
  /-- The number of tokens before it. -/
  position : Nat
  /-- Whether it stands where a key must stand. -/
  required : Bool
  /-- Where it starts. -/
  index : Nat
  line : Nat
  column : Nat
  deriving Inhabited

/-- The cutting of a text, so far. -/
structure Layout where
  cursor : Cursor
  /-- The tokens, the last one first. -/
  tokens : List Token
  /-- The columns of the open blocks, the innermost first. -/
  blocks : List Nat
  /-- The candidates for keys, one for each open bracket, and one for the block around
  them, the innermost first. -/
  candidates : List (Option Candidate)
  /-- Whether a key may start here. -/
  keyAllowed : Bool
  deriving Inhabited

namespace Layout

/-- Whether a bracket is open. -/
def inFlow (s : Layout) : Bool := 1 < s.candidates.length

/-- The least column of a child of the innermost block. -/
def childColumn (s : Layout) : Nat :=
  match s.blocks with
  | column :: _ => column + 1
  | [] => 0

/-- Puts a token at the end. -/
def push (s : Layout) (t : Token) : Layout := { s with tokens := t :: s.tokens }

/-- Puts a token behind a number of tokens from the start. -/
def insert (s : Layout) (position : Nat) (t : Token) : Layout :=
  let after := s.tokens.length - position
  { s with tokens := s.tokens.take after ++ t :: s.tokens.drop after }

/-- Closes the blocks that are indented further than a line which starts at a column.
Brackets suspend layout. -/
def closeBlocks (s : Layout) (column : Nat) : Layout :=
  if s.inFlow then s
  else
    let closed := s.blocks.takeWhile (column < ·)
    { s with
      tokens := List.replicate closed.length .blockEnd ++ s.tokens
      blocks := s.blocks.drop closed.length }

/-- Closes every block. -/
def closeAll (s : Layout) : Layout :=
  if s.inFlow then s
  else { s with tokens := List.replicate s.blocks.length .blockEnd ++ s.tokens, blocks := [] }

/-- Opens a block at a column behind a number of tokens, unless one is open there. -/
def openBlock (s : Layout) (column position : Nat) (t : Token) : Layout :=
  if s.inFlow || column < s.childColumn then s
  else { s.insert position t with blocks := column :: s.blocks }

/-- Gives up the innermost candidate. A required key cannot be given up. -/
def dropCandidate (s : Layout) : Result Layout :=
  match s.candidates with
  | some k :: rest =>
    if k.required then .error .missingColon else .ok { s with candidates := none :: rest }
  | _ => .ok s

/-- Makes the token that starts here the innermost candidate, if a key may start here. -/
def addCandidate (s : Layout) : Result Layout :=
  if s.keyAllowed then do
    let s ← s.dropCandidate
    let c := s.cursor
    let required := !s.inFlow && s.blocks.head? == some c.column
    let k : Candidate := ⟨s.tokens.length, required, c.index, c.line, c.column⟩
    return { s with candidates := some k :: s.candidates.tail }
  else .ok s

/-- Gives up the candidates that can no longer be keys: a key ends on the line it starts
on, within 1024 bytes. -/
def dropStale (s : Layout) : Result Layout := do
  let c := s.cursor
  let candidates ← s.candidates.mapM fun
    | some k =>
      if k.line < c.line ∨ k.index + 1024 < c.index then
        if k.required then .error .missingColon else .ok none
      else .ok (some k)
    | none => .ok none
  return { s with candidates }

/-- Passes over blanks, comments and line breaks, and over a byte order mark at the start of
a line, which still takes up a column. A key may start on a new line outside of brackets,
and where one may start, tabs do not count as blanks. -/
def skipGap : Nat → Layout → Layout
  | 0, s => s
  | fuel + 1, s =>
    let c := s.cursor
    let c := if c.column = 0 && c.sees '\ufeff' then c.skip 1 else c
    let tabs := s.inFlow || !s.keyAllowed
    let c := (c.span fun x => x == ' ' || (tabs && x == '\t')).2
    let c := if c.sees '#' then c.skipLine else c
    if c.breakAt 0 then
      skipGap fuel { s with cursor := c.skipBreak, keyAllowed := s.keyAllowed || !s.inFlow }
    else { s with cursor := c }

/-- Adds a token that is a mark of some characters. -/
def mark (s : Layout) (t : Token) (width : Nat) (keyAllowed : Bool) : Layout :=
  { s.push t with cursor := s.cursor.skip width, keyAllowed }

/-- Adds a line about a document, or a marker between documents. -/
def documentLine (s : Layout) (t : Token) (next : Cursor) : Result Layout := do
  let s ← s.closeAll.dropCandidate
  return { s.push t with cursor := next, keyAllowed := false }

/-- Opens a bracket. -/
def openFlow (s : Layout) (t : Token) : Result Layout := do
  let s ← s.addCandidate
  return { s with candidates := none :: s.candidates }.mark t 1 true

/-- Closes a bracket. -/
def closeFlow (s : Layout) (t : Token) : Result Layout := do
  let s ← s.dropCandidate
  let s := if s.inFlow then { s with candidates := s.candidates.tail } else s
  return s.mark t 1 false

/-- Adds the mark of a sequence entry, which opens a sequence where none is open. -/
def sequenceEntry (s : Layout) : Result Layout := do
  if !s.inFlow && !s.keyAllowed then throw .misplacedEntry
  let s ← (s.openBlock s.cursor.column s.tokens.length .blockSequence).dropCandidate
  return s.mark .entry 1 true

/-- Adds the mark of a key, which opens a mapping where none is open. -/
def explicitKey (s : Layout) : Result Layout := do
  if !s.inFlow && !s.keyAllowed then throw .misplacedKey
  let s ← (s.openBlock s.cursor.column s.tokens.length .blockMapping).dropCandidate
  return s.mark .key 1 (!s.inFlow)

/-- Adds the mark of a value. If there is a candidate, it is the key. -/
def mappingValue (s : Layout) : Result Layout := do
  match s.candidates with
  | some k :: rest =>
    let s := (s.insert k.position .key).openBlock k.column k.position .blockMapping
    return { s with candidates := none :: rest }.mark .value 1 false
  | _ =>
    if !s.inFlow && !s.keyAllowed then throw .misplacedValue
    let s := s.openBlock s.cursor.column s.tokens.length .blockMapping
    return s.mark .value 1 (!s.inFlow)

/-- Adds a token that has been read up to a place. -/
def add (s : Layout) (t : Token) (next : Cursor) (keyAllowed : Bool) : Layout :=
  { s.push t with cursor := next, keyAllowed }

/-- Adds the end of the text. -/
def close (s : Layout) : Result Layout := do
  let s ← s.closeAll.dropCandidate
  return s.push .finish

/-- Whether a plain scalar may start with a character, which others follow. -/
def startsPlain (s : Layout) (x : Char) : Bool :=
  let c := s.cursor
  if x == '-' then !c.blankAt 1
  else if x == '?' || x == ':' then !s.inFlow && !c.gapAt 1
  else !(isBlank x || isBreak x || ",[]\x7b\x7d#&*!|>'\"%@`".toList.contains x)

/-- Adds the token that starts with a character here. -/
def token (s : Layout) (x : Char) : Result Layout := do
  let c := s.cursor
  let mark := c.column == 0
  if mark && x == '%' then
    let (d, c) ← c.directive
    s.documentLine (.directive d) c
  else if c.atMarker then
    s.documentLine (if x == '-' then .documentStart else .documentEnd) (c.skip 3)
  else if x == '[' then s.openFlow .flowSequence
  else if x == '\x7b' then s.openFlow .flowMapping
  else if x == ']' then s.closeFlow .flowSequenceEnd
  else if x == '\x7d' then s.closeFlow .flowMappingEnd
  else if x == ',' then return (← s.dropCandidate).mark .separator 1 true
  else if x == '-' && c.gapAt 1 then s.sequenceEntry
  else if x == '?' && (s.inFlow || c.gapAt 1) then s.explicitKey
  else if x == ':' && (s.inFlow || c.gapAt 1) then s.mappingValue
  else if x == '*' then
    let s ← s.addCandidate
    let (name, c) ← c.anchor
    return s.add (.alias name) c false
  else if x == '&' then
    let s ← s.addCandidate
    let (name, c) ← c.anchor
    return s.add (.anchor name) c false
  else if x == '!' then
    let s ← s.addCandidate
    let (name, c) ← c.tag s.inFlow
    return s.add (.tag name) c false
  else if (x == '|' || x == '>') && !s.inFlow then
    let s ← s.dropCandidate
    let (text, c) ← c.block (x == '|') s.childColumn
    return s.add (.scalar text false) c true
  else if x == '\'' || x == '"' then
    let s ← s.addCandidate
    let (text, c) ← c.quoted (x == '\'')
    return s.add (.scalar text false) c false
  else if s.startsPlain x then
    let s ← s.addCandidate
    let (text, c, broken) ← c.plain s.inFlow s.childColumn
    return s.add (.scalar text true) c broken
  else throw .unexpectedCharacter

/-- Adds the next token, and the ends of the blocks before it. -/
def step (s : Layout) : Result Layout := do
  let s ← (skipGap (s.cursor.rest.length + 1) s).dropStale
  match s.cursor.peek 0 with
  | none => s.close
  | some x => (s.closeBlocks s.cursor.column).token x

/-- Adds tokens up to the end of the text. -/
def run : Nat → Layout → Result Layout
  | 0, s => .ok s
  | fuel + 1, s => do
    let s ← s.step
    if s.tokens.head? == some .finish then return s
    run fuel s

end Layout

/-- The tokens of a text. Each of them takes up at least one character, except the last. -/
def tokens (cs : List Char) : Result (List Token) := do
  let s ← Layout.run (cs.length + 1) ⟨Cursor.start cs, [], [], [none], true⟩
  return s.tokens.reverse

end Provision.Yaml
