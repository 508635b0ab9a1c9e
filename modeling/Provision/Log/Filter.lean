import Provision.Decimal.Reading
import Provision.Log
import Provision.Log.Pattern
import Provision.Text.Alphanumeric
import Provision.Text.Blank
import Provision.Text.Bytes
import Provision.Text.Split

/-!
# Filtering the log

A filter is a list of directives separated by commas. Each sets how far down in urgency
messages are shown, for all sources or for those whose names begin with a given text.
-/

namespace Provision.Log

/-- The names of the levels in a filter, in the order of their ranks. -/
def levelWords : List String := ["off", "error", "warn", "info", "debug", "trace"]

/-- The rank that a level in a filter stands for: its name in letters of any case, or a
digit. -/
def rank? (cs : List Char) : Option Nat :=
  let digits :=
    match cs with
    | '+' :: ds => ds
    | _ => cs
  match Text.readNat? 10 digits with
  | some n => if n < levelWords.length then some n else none
  | none => levelWords.idxOf? (String.ofList (cs.map Char.toLower))

/-- One directive. -/
structure Directive where
  /-- What the names of its sources begin with. -/
  target : Option (List Char)
  /-- The name of a field that its messages have. -/
  field : Option (List Char)
  /-- Whether it only concerns spans, by their names or by the values of their fields, and
  messages within them. -/
  spanned : Bool
  /-- The highest rank that it lets through. -/
  limit : Nat
  deriving DecidableEq, Inhabited

namespace Directive

/-- Why a text is not a directive. -/
inductive Cause where
  | malformed
  | level
  | pattern (fault : Pattern.Fault)
  deriving DecidableEq, Inhabited

/-- The text of a cause. -/
def Cause.text : Cause → String
  | .malformed => "invalid filter directive"
  | .level =>
    "error parsing level filter: expected one of \"off\", \"error\", \"warn\", \"info\", " ++
      "\"debug\", \"trace\", or a number 0-5"
  | .pattern .malformed => "invalid field filter: error building NFA"
  | .pattern .boundary =>
    "invalid field filter: unsupported regex feature for DFAs: cannot build DFAs for regexes " ++
      "with Unicode word boundaries; switch to ASCII word boundaries, or heuristically enable " ++
      "Unicode word boundaries or use a different regex engine"

/-- The directive that concerns everything and lets everything through. -/
def all : Directive :=
  { target := none, field := none, spanned := false, limit := Level.trace.rank }

/-- A directive with the level after its equals sign. None at all lets everything through. -/
def withLevel (d : Directive) (cs : List Char) : Except Cause Directive :=
  if cs.isEmpty then .ok d
  else
    match rank? cs with
    | some limit => .ok { d with limit }
    | none => .error .level

/-- The words for values that are numbers without digits. -/
def numberWords : List String := ["inf", "infinity", "nan"]

/-- Whether the value of a field is a number. -/
def isNumber (cs : List Char) : Bool :=
  (Decimal.read? cs).isSome ||
    numberWords.contains (String.ofList ((Decimal.splitSign cs).2.map Char.toLower))

/-- A directive with the field in its braces. A value behind the name of the field is a number
or a pattern. -/
def withField (d : Directive) (cs : List Char) : Except Cause Directive :=
  if cs.isEmpty then .error .malformed
  else
    match Text.split '=' cs with
    | _ :: value :: _ =>
      if isNumber value then .ok { d with spanned := true }
      else
        match Pattern.fault? value with
        | some fault => .error (.pattern fault)
        | none => .ok { d with spanned := true }
    | _ => .ok { d with field := some cs }

/-- Whether a character can begin a directive that does not begin with a span. -/
def isInitial (c : Char) : Bool := Text.isAlphanumeric c || ['-', ':', '_'].contains c

/-- Which part of a directive is being read, and the place where it begins. -/
inductive Stage where
  | start
  /-- The name of a level or of sources. -/
  | word
  | span (first : Nat)
  | field (first : Nat)
  /-- Behind the braces. -/
  | fieldEnd
  /-- Behind the brackets. -/
  | spanEnd
  | level (first : Nat)
  deriving DecidableEq, Inhabited

/-- The part of a text between two places. -/
def part (text : List Char) (first last : Nat) : Except Cause (List Char) :=
  match Text.between? first last text with
  | some cs => .ok cs
  | none => .error .malformed

/-- Reads the character at a place. -/
def step (text : List Char) (place : Nat) (c : Char) (stage : Stage) (d : Directive) :
    Except Cause (Stage × Directive) := do
  match stage with
  | .start =>
    if c == '[' then return (.span (place + 1), d)
    if isInitial c then return (.word, d)
    throw .malformed
  | .word =>
    if c == '=' then return (.level (place + 1), { d with target := ← part text 0 place })
    if c == '[' then return (.span (place + 1), { d with target := ← part text 0 place })
    return (.word, d)
  | .span first =>
    if c == ']' then return (.spanEnd, { d with spanned := true })
    if c == '\x7b' then
      let name ← part text first place
      return (.field (place + 1), { d with spanned := !name.isEmpty })
    return (.span first, d)
  | .field first =>
    if c == '\x7d' then return (.fieldEnd, ← d.withField (← part text first place))
    return (.field first, d)
  | .fieldEnd => if c == ']' then return (.spanEnd, d) else throw .malformed
  | .spanEnd => if c == '=' then return (.level (place + 1), d) else throw .malformed
  | .level first => return (.level first, d)

/-- Reads the characters from a place on, and what ends with the text. -/
def readFrom (text : List Char) :
    Nat → Stage → Directive → List Char → Except Cause Directive
  | place, stage, d, c :: cs => do
    let (stage, d) ← step text place c stage d
    readFrom text (place + c.utf8Size) stage d cs
  | _, stage, d, [] =>
    match stage with
    | .word =>
      match rank? text with
      | some limit => .ok { d with limit }
      | none => .ok { d with target := some text }
    | .level first => do d.withLevel (← part text first (Text.byteLength text))
    | .spanEnd => .ok d
    | _ => .error .malformed

/-- The directive that a text stands for. Blanks at its ends do not count when the text is
taken apart, but its parts are then looked up at the same places of the text with its blanks,
so that blanks in front shift them. -/
def ofChars (text : List Char) : Except Cause Directive :=
  readFrom text 0 .start all (Text.trim text)

/-- Whether a directive concerns the messages of a source. -/
def concerns (d : Directive) (s : Source) : Bool :=
  !d.spanned && (d.target.getD []).isPrefixOf s.text.toList &&
    d.field.all (· == fieldName.toList)

/-- How specific a directive is: the longer its target, the more, and of two targets of the
same length the one with a field more. -/
def weight (d : Directive) : Nat :=
  let length :=
    match d.target with
    | none => 0
    | some name => name.length + 1
  2 * length + (if d.field.isSome then 1 else 0)

end Directive

/-- What is shown of a log. -/
abbrev Filter := List Directive

namespace Filter

/-- The texts of the directives in the text of a filter. -/
def parts (text : String) : List (List Char) := (Text.split ',' text.toList).filter (! ·.isEmpty)

/-- The filter for a text without directives: errors alone. -/
def minimal : Filter := [{ Directive.all with limit := Level.error.rank }]

/-- A filter of directives. -/
def ofDirectives (ds : List Directive) : Filter := if ds.isEmpty then minimal else ds

/-- The filter of a text in which every directive is well formed. -/
def ofText? (text : String) : Option Filter :=
  (((parts text).mapM Directive.ofChars).map ofDirectives).toOption

/-- The filter of the well-formed directives of a text. -/
def ofText (text : String) : Filter :=
  ofDirectives ((parts text).filterMap fun cs => (Directive.ofChars cs).toOption)

/-- The directives of a text that are not well formed, with the causes. -/
def malformed (text : String) : List (String × Directive.Cause) :=
  (parts text).filterMap fun cs =>
    match Directive.ofChars cs with
    | .ok _ => none
    | .error cause => some (String.ofList cs, cause)

/-- The directive that decides on a source: of the most specific ones the last. -/
def deciding? (f : Filter) (s : Source) : Option Directive :=
  (f.filter (·.concerns s)).foldl (fun best d =>
    match best with
    | some b => if b.weight ≤ d.weight then some d else some b
    | none => some d) none

/-- Whether a message is shown. -/
def shows (f : Filter) (e : Entry) : Bool :=
  match f.deciding? e.source with
  | some d => e.level.rank ≤ d.limit
  | none => false

end Filter

end Provision.Log
