import Provision.Text.Bytes
import Provision.Text.Numeral

/-!
# A place in a YAML text

What is left of the text, and where that stands: layout depends on lines and columns.
-/

namespace Provision.Yaml

/-- What is wrong with a YAML text. -/
inductive Cause where
  | forbiddenCharacter
  | unexpectedCharacter
  | misplacedTab
  | missingColon
  | misplacedEntry
  | misplacedKey
  | misplacedValue
  | malformedDirective
  | malformedAnchor
  | malformedTag
  | malformedBlockHeader
  | unexpectedDocumentMarker
  | unclosedQuote
  | unknownEscape
  | ambiguousColon
  | unexpectedToken
  | incompatibleVersion
  | unknownTagHandle
  | unknownAlias
  | severalDocuments
  | nestedTooDeep
  | tooManyAliases
  | duplicateKey
  | numberOutOfRange
  | unreadableScalar
  deriving DecidableEq, Inhabited

/-- The text of a cause. -/
def Cause.text : Cause → String
  | .forbiddenCharacter => "a character is not allowed in a document"
  | .unexpectedCharacter => "a character cannot start anything here"
  | .misplacedTab => "a tab stands where spaces indent"
  | .missingColon => "a key lacks its colon"
  | .misplacedEntry => "a sequence entry is not allowed here"
  | .misplacedKey => "a key is not allowed here"
  | .misplacedValue => "a value is not allowed here"
  | .malformedDirective => "a directive is malformed"
  | .malformedAnchor => "an anchor or alias is malformed"
  | .malformedTag => "a tag is malformed"
  | .malformedBlockHeader => "the header of a block scalar is malformed"
  | .unexpectedDocumentMarker => "a document marker stands inside of quotes"
  | .unclosedQuote => "a quoted text is not closed"
  | .unknownEscape => "an escape sequence is unknown"
  | .ambiguousColon => "a colon stands before a flow indicator"
  | .unexpectedToken => "the structure is malformed"
  | .incompatibleVersion => "the version is not supported"
  | .unknownTagHandle => "a tag handle is not declared"
  | .unknownAlias => "an alias has no anchor"
  | .severalDocuments => "there is more than one document"
  | .nestedTooDeep => "values are nested too deep"
  | .tooManyAliases => "aliases expand too often"
  | .duplicateKey => "a mapping has the same key twice"
  | .numberOutOfRange => "an integer is out of range"
  | .unreadableScalar => "a scalar is not of the type of its tag"

/-- The result of reading part of a text. -/
abbrev Result (α : Type) := Except Cause α

/-- A place in a text. -/
structure Cursor where
  /-- The text from here on. -/
  rest : List Char
  /-- The number of bytes before this place, in UTF-8. -/
  index : Nat
  /-- The number of line breaks before this place. -/
  line : Nat
  /-- The number of characters since the last of them. -/
  column : Nat
  deriving Inhabited

/-- The characters that break a line. -/
def isBreak (c : Char) : Bool :=
  c == '\n' || c == '\r' || c == '\u0085' || c == '\u2028' || c == '\u2029'

/-- The blanks within a line. -/
def isBlank (c : Char) : Bool := c == ' ' || c == '\t'

/-- The characters of anchors and tag handles. -/
def isWord (c : Char) : Bool :=
  ('0' ≤ c && c ≤ '9') || ('A' ≤ c && c ≤ 'Z') || ('a' ≤ c && c ≤ 'z') || c == '_' || c == '-'

/-- The characters that a document may hold. -/
def isAllowed (c : Char) : Bool :=
  let n := c.toNat
  n == 0x09 || n == 0x0a || n == 0x0d || (0x20 ≤ n && n ≤ 0x7e) || n == 0x85 ||
    (0xa0 ≤ n && n ≤ 0xfffd) || 0x10000 ≤ n

namespace Cursor

/-- The start of a text. -/
def start (cs : List Char) : Cursor := ⟨cs, 0, 0, 0⟩

/-- The character some places ahead. -/
def peek (c : Cursor) (ahead : Nat) : Option Char := c.rest[ahead]?

/-- Whether a given character stands here. -/
def sees (c : Cursor) (x : Char) : Bool := c.peek 0 == some x

/-- Whether the text ends here. -/
def atEnd (c : Cursor) : Bool := c.rest.isEmpty

/-- Whether a line ends some places ahead. -/
def breakAt (c : Cursor) (ahead : Nat) : Bool := (c.peek ahead).any isBreak

/-- Whether a blank stands some places ahead. -/
def blankAt (c : Cursor) (ahead : Nat) : Bool := (c.peek ahead).any isBlank

/-- Whether a blank, a break or the end of the text is some places ahead. -/
def gapAt (c : Cursor) (ahead : Nat) : Bool := (c.peek ahead).all fun x => isBlank x || isBreak x

/-- The place some characters further on in the line. -/
def skip (c : Cursor) (count : Nat) : Cursor :=
  { c with
    rest := c.rest.drop count
    index := c.index + Text.byteLength (c.rest.take count)
    column := c.column + count }

/-- The place after the line break that stands here. -/
def skipBreak (c : Cursor) : Cursor :=
  let count :=
    match c.rest with
    | '\r' :: '\n' :: _ => 2
    | x :: _ => if isBreak x then 1 else 0
    | [] => 0
  if count = 0 then c
  else
    { rest := c.rest.drop count
      index := c.index + Text.byteLength (c.rest.take count)
      line := c.line + 1
      column := 0 }

/-- The line break that stands here as it counts in a text: the two separators of Unicode
stand for themselves, every other break for a line feed. -/
def breakText (c : Cursor) : List Char :=
  match c.rest with
  | x :: _ =>
    if x == '\u2028' || x == '\u2029' then [x] else if isBreak x then ['\n'] else []
  | [] => []

/-- The characters of the line from here on that satisfy a test, and the place after them.
The test fails at line breaks. -/
def span (c : Cursor) (p : Char → Bool) : List Char × Cursor :=
  let taken := c.rest.takeWhile p
  (taken, c.skip taken.length)

/-- The place after the blanks that stand here. -/
def skipBlanks (c : Cursor) : Cursor := (c.span isBlank).2

/-- The place at the end of the line. -/
def skipLine (c : Cursor) : Cursor := (c.span (! isBreak ·)).2

/-- Whether a marker between documents stands here, at the start of a line. -/
def atMarker (c : Cursor) : Bool :=
  c.column == 0 && (['-', '-', '-'].isPrefixOf c.rest || ['.', '.', '.'].isPrefixOf c.rest) &&
    c.gapAt 3

end Cursor

end Provision.Yaml
