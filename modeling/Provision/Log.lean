import Provision.Text.Numeral

/-!
# The log

Messages for the operator that a run writes on its way. They are data of the run, so
which of them are shown is decided where they are printed.
-/

namespace Provision.Log

/-- How urgent a message is, the most urgent first. -/
inductive Level where
  | error
  | warn
  | info
  | debug
  | trace
  deriving DecidableEq, Inhabited

/-- The rank of a level. A filter that lets a level through lets every lower rank through. -/
def Level.rank : Level → Nat
  | .error => 1
  | .warn => 2
  | .info => 3
  | .debug => 4
  | .trace => 5

/-- The name of a level at the front of a line. -/
def Level.text : Level → String
  | .error => "ERROR"
  | .warn => "WARN"
  | .info => "INFO"
  | .debug => "DEBUG"
  | .trace => "TRACE"

/-- The part of the program that a message comes from. -/
inductive Source where
  | notification
  | definition
  | context
  | evaluator
  | command
  deriving DecidableEq, Inhabited

/-- The name of a source in a line, which filters match from the left. -/
def Source.text : Source → String
  | .notification => "cocina::core::notification"
  | .definition => "cocina::core::definition"
  | .context => "cocina::core::context"
  | .evaluator => "cocina::core::evaluator"
  | .command => "cocina::cli"

/-- A message with its level and source. -/
structure Entry where
  level : Level
  source : Source
  message : String
  deriving DecidableEq, Inhabited

/-- The only field of a message, its text. -/
def fieldName : String := "message"

/-- A character of a message as it is written. Those that could steer a terminal are written
as escapes. -/
def written (c : Char) : List Char :=
  if ['\x07', '\x08', '\x0c', '\x1b', '\x7f'].contains c then
    '\\' :: 'x' :: Text.hexDigits 2 c
  else if 0x80 ≤ c.toNat && c.toNat < 0xa0 then
    '\\' :: 'u' :: '\x7b' :: Text.hexDigits 1 c ++ ['\x7d']
  else [c]

/-- The line of a message, without the time it was written at. -/
def Entry.line (e : Entry) : String :=
  e.level.text ++ " " ++ e.source.text ++ ": " ++ String.ofList (e.message.toList.flatMap written)

end Provision.Log
