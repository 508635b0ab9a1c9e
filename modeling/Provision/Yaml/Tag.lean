import Provision.Yaml.Cursor

/-!
# Anchors, tags and directives

The words that stand in front of a value or a document.
-/

namespace Provision.Yaml

/-- A tag in full, as bytes: percent signs can spell bytes that are not a text. -/
abbrev Tag := List UInt8

namespace Tag

/-- The tag with the given ASCII characters. -/
def ofChars (cs : List Char) : Tag := cs.map fun c => c.toNat.toUInt8

/-- The exclamation mark that local tags start with. -/
def mark : Tag := ofChars ['!']

/-- The start of the tags of the format itself. -/
def standard : Tag := ofChars "tag:yaml.org,2002:".toList

/-- The part of a tag that counts: it ends in front of the first zero byte. -/
def clip (t : Tag) : Tag := t.takeWhile (· ≠ 0)

end Tag

/-- A tag as it is written: a handle, empty for a tag that is written in full, and what
follows it. -/
structure TagName where
  handle : List Char
  suffix : Tag
  deriving DecidableEq, Inhabited

/-- The characters of a tag besides percent signs. Brackets and commas belong only to tags
that are set off in another way. -/
def isTagChar (brackets : Bool) (x : Char) : Bool :=
  isWord x || ";/?:@&=+$.!~*'()".toList.contains x || (brackets && ",[]".toList.contains x)

/-- The value of the byte that two hexadecimal digits behind a percent sign stand for, and
the place after them. -/
def Cursor.percentByte (c : Cursor) : Result (UInt8 × Cursor) :=
  let digits := (c.rest.drop 1).take 2
  if c.sees '%' && digits.length == 2 then
    match Text.readNat? 16 digits with
    | some n => .ok (n.toUInt8, c.skip 3)
    | none => .error .malformedTag
  else .error .malformedTag

/-- The number of bytes that follow a first byte, by the shape of the encoding alone. -/
def continuation? (b : UInt8) : Option Nat :=
  if b < 0x80 then some 0
  else if 0xc0 ≤ b && b < 0xe0 then some 1
  else if 0xe0 ≤ b && b < 0xf0 then some 2
  else if 0xf0 ≤ b && b < 0xf8 then some 3
  else none

/-- Reads a number of bytes written with percent signs. -/
def Cursor.percentBytes : Nat → Tag → Cursor → Result (Tag × Cursor)
  | 0, acc, c => .ok (acc.reverse, c)
  | n + 1, acc, c => do
    let (b, c) ← c.percentByte
    if b < 0x80 || 0xc0 ≤ b then throw .malformedTag
    percentBytes n (b :: acc) c

/-- The bytes written with percent signs that start here and have the shape of one
character, and the place after them. -/
def Cursor.percentChar (c : Cursor) : Result (Tag × Cursor) := do
  let (b, c) ← c.percentByte
  let some more := continuation? b | throw .malformedTag
  let (bs, c) ← Cursor.percentBytes more [] c
  return (b :: bs, c)

/-- Reads the bytes of a tag, adding them in front of those read so far. -/
def Cursor.tagBytes (brackets : Bool) : Nat → Tag → Cursor → Result (Tag × Cursor)
  | 0, acc, c => .ok (acc.reverse, c)
  | fuel + 1, acc, c =>
    match c.peek 0 with
    | some x =>
      if isTagChar brackets x then
        tagBytes brackets fuel (x.toNat.toUInt8 :: acc) (c.skip 1)
      else if x == '%' then
        match c.percentChar with
        | .ok (bs, c) => tagBytes brackets fuel (bs.reverse ++ acc) c
        | .error e => .error e
      else .ok (acc.reverse, c)
    | none => .ok (acc.reverse, c)

/-- The bytes of a tag that stand here, and the place after them. -/
def Cursor.tagText (c : Cursor) (brackets : Bool) : Result (Tag × Cursor) :=
  c.tagBytes brackets (c.rest.length + 1) []

/-- The exclamation mark that stands here with the word behind it, and a second mark if
there is one. -/
def Cursor.tagHandle (c : Cursor) : Result (List Char × Cursor) :=
  if c.sees '!' then
    let (word, c) := (c.skip 1).span isWord
    if c.sees '!' then .ok ('!' :: word ++ ['!'], c.skip 1) else .ok ('!' :: word, c)
  else .error .malformedTag

/-- The tag that starts here, and the place after it. -/
def Cursor.tag (c : Cursor) (flow : Bool) : Result (TagName × Cursor) := do
  let (name, c) ←
    if c.peek 1 == some '<' then do
      let (suffix, c) ← (c.skip 2).tagText true
      if suffix.isEmpty || !c.sees '>' then throw .malformedTag
      pure ((⟨[], suffix.clip⟩ : TagName), c.skip 1)
    else do
      let (head, c) ← c.tagHandle
      if 2 ≤ head.length && head.getLast? == some '!' then do
        let (suffix, c) ← c.tagText false
        if suffix.isEmpty then throw .malformedTag
        pure ((⟨head, suffix.clip⟩ : TagName), c)
      else do
        let (rest, c) ← c.tagText false
        let suffix := (Tag.ofChars head.tail ++ rest).clip
        pure ((if suffix.isEmpty then ⟨[], Tag.mark⟩ else ⟨['!'], suffix⟩ : TagName), c)
  if c.gapAt 0 || (flow && c.sees ',') then return (name, c) else throw .malformedTag

/-- The name of the anchor or alias whose mark stands here, and the place after it. -/
def Cursor.anchor (c : Cursor) : Result (List Char × Cursor) :=
  let (name, c) := (c.skip 1).span isWord
  if name.isEmpty then .error .malformedAnchor
  else if c.gapAt 0 || (c.peek 0).any ("?:,]\x7d%@`".toList.contains ·) then .ok (name, c)
  else .error .malformedAnchor

/-- A line about the document that follows. -/
inductive Directive where
  | version (major minor : Nat)
  | tag (handle : List Char) (start : Tag)
  deriving DecidableEq, Inhabited

/-- A number of up to nine digits that stands here, and the place after it. -/
def Cursor.versionNumber (c : Cursor) : Result (Nat × Cursor) :=
  let (digits, c) := c.span Text.isDigit
  match Text.readNat? 10 digits with
  | some n => if digits.length ≤ 9 then .ok (n, c) else .error .malformedDirective
  | none => .error .malformedDirective

/-- The directive that starts here, and the place behind its line. -/
def Cursor.directive (c : Cursor) : Result (Directive × Cursor) := do
  let (name, c) := (c.skip 1).span isWord
  if name.isEmpty || !c.gapAt 0 then throw .malformedDirective
  let (directive, c) ←
    if name == "YAML".toList then do
      let (major, c) ← c.skipBlanks.versionNumber
      if !c.sees '.' then throw .malformedDirective
      let (minor, c) ← (c.skip 1).versionNumber
      pure (Directive.version major minor, c)
    else if name == "TAG".toList then do
      let (handle, c) ← c.skipBlanks.tagHandle
      if handle != ['!'] && handle.getLast? != some '!' then throw .malformedDirective
      if !c.blankAt 0 then throw .malformedDirective
      let (start, c) ← c.skipBlanks.tagText true
      if start.isEmpty || !c.gapAt 0 then throw .malformedDirective
      pure (Directive.tag handle start.clip, c)
    else throw .malformedDirective
  let c := c.skipBlanks
  let c := if c.sees '#' then c.skipLine else c
  if !(c.atEnd || c.breakAt 0) then throw .malformedDirective
  return (directive, c.skipBreak)

end Provision.Yaml
