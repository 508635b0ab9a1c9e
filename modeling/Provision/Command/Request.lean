import Provision.Path

/-!
# Requests

What the arguments of the command line ask for. Options may stand before and after
operands, and a double dash ends them.
-/

namespace Provision.Command

/-- The name and version of the program. -/
def version : String := "cocina 0.1.0"

/-- How a plan is printed. -/
inductive Format where
  | text
  | json
  deriving DecidableEq, Inhabited

/-- The word for a format. -/
def Format.word : Format → String
  | .text => "text"
  | .json => "json"

/-- The format a word stands for. -/
def Format.ofWord? (word : String) : Option Format :=
  [text, json].find? (·.word == word)

/-- What is done with the recipes. -/
inductive Action where
  /-- Shows what would be done. -/
  | plan (format : Format)
  /-- Checks that every notification has a target. -/
  | validate
  deriving DecidableEq, Inhabited

/-- A run over recipes. -/
structure Job where
  action : Action
  /-- The recipe files, in order. -/
  recipes : List Path
  /-- The node attributes in YAML. -/
  nodeYaml : Option Path
  /-- The node attributes in JSON. -/
  nodeJson : Option Path
  /-- The filter of the log, where the environment does not set one. -/
  logLevel : String
  deriving DecidableEq, Inhabited

/-- What the arguments ask for. -/
inductive Request where
  | run (job : Job)
  | help
  | version
  deriving DecidableEq, Inhabited

/-- Why arguments ask for nothing. -/
inductive Misuse where
  | noCommand
  | unknownCommand (name : String)
  | unexpected (argument : String)
  | missingValue (option : String)
  | repeated (option : String)
  | invalidFormat (word : String)
  | emptyPath
  | noRecipes
  deriving DecidableEq, Inhabited

/-- The text of a misuse. -/
def Misuse.message : Misuse → String
  | .noCommand => "a command is required: plan or validate"
  | .unknownCommand name => "unknown command '" ++ name ++ "'"
  | .unexpected argument => "unexpected argument '" ++ argument ++ "'"
  | .missingValue option => "option '--" ++ option ++ "' needs a value"
  | .repeated option => "option '--" ++ option ++ "' is given more than once"
  | .invalidFormat word => "unknown format '" ++ word ++ "'"
  | .emptyPath => "a path is empty"
  | .noRecipes => "at least one recipe is required"

/-- An option that takes a value. -/
inductive Setting where
  | logLevel
  | nodeYaml
  | nodeJson
  | format
  deriving DecidableEq, Inhabited

namespace Setting

/-- The name of an option behind two dashes. -/
def name : Setting → String
  | .logLevel => "log-level"
  | .nodeYaml => "node-yaml"
  | .nodeJson => "node-json"
  | .format => "format"

/-- The letter of an option behind one dash, if it has one. -/
def letter? : Setting → Option Char
  | .logLevel => some 'l'
  | .nodeYaml => some 'y'
  | .nodeJson => some 'j'
  | .format => none

/-- Whether the value of an option may be what it is. -/
def check : Setting → String → Except Misuse Unit
  | .logLevel, _ => .ok ()
  | .nodeYaml, value | .nodeJson, value => if value.isEmpty then .error .emptyPath else .ok ()
  | .format, value =>
    if (Format.ofWord? value).isSome then .ok () else .error (.invalidFormat value)

end Setting

/-- What an argument is by itself. -/
inductive Shape where
  | operand
  | separator
  | option (s : Setting) (value : Option String)
  | help
  | version
  | unknown
  deriving DecidableEq, Inhabited

/-- The options that are understood somewhere on the command line. -/
structure Grammar where
  settings : List Setting
  /-- Whether the version can be asked for. -/
  version : Bool

/-- The shape of an argument behind two dashes. -/
def Grammar.longShape (g : Grammar) (cs : List Char) : Shape :=
  let name := String.ofList (cs.takeWhile (· ≠ '='))
  let value :=
    match cs.dropWhile (· ≠ '=') with
    | _ :: value => some (String.ofList value)
    | [] => none
  match g.settings.find? (·.name == name) with
  | some s => .option s value
  | none =>
    if name = "help" ∧ value = none then .help
    else if name = "version" ∧ value = none ∧ g.version then .version
    else .unknown

/-- The shape of an argument behind one dash, of which the first letter counts. -/
def Grammar.shortShape (g : Grammar) (letter : Char) (cs : List Char) : Shape :=
  match g.settings.find? (·.letter? == some letter) with
  | some s =>
    match cs with
    | [] => .option s none
    | '=' :: value => .option s (some (String.ofList value))
    | value => .option s (some (String.ofList value))
  | none =>
    if letter = 'h' then .help
    else if letter = 'V' ∧ g.version then .version
    else .unknown

/-- The shape of an argument. A single dash is an operand. -/
def Grammar.shape (g : Grammar) (argument : String) : Shape :=
  match argument.toList with
  | ['-', '-'] => .separator
  | '-' :: '-' :: name => g.longShape name
  | '-' :: letter :: rest => g.shortShape letter rest
  | _ => .operand

/-- Whether an argument can be the value of the option before it. -/
def isValue (argument : String) : Bool :=
  match argument.toList with
  | '-' :: _ :: _ => false
  | _ => true

/-- What has been read of the arguments. -/
structure Collected where
  settings : List (Setting × String)
  operands : List String
  deriving Inhabited

namespace Collected

/-- Before anything has been read. -/
def empty : Collected := ⟨[], []⟩

/-- The value of an option. -/
def value? (c : Collected) (s : Setting) : Option String := c.settings.lookup s

/-- Takes an option in. No option is given twice. -/
def set (c : Collected) (s : Setting) (value : String) : Except Misuse Collected := do
  s.check value
  if (c.value? s).isSome then throw (.repeated s.name)
  return { c with settings := c.settings ++ [(s, value)] }

/-- Takes operands in. None of them is empty. -/
def add (c : Collected) (operands : List String) : Except Misuse Collected :=
  if operands.contains "" then .error .emptyPath
  else .ok { c with operands := c.operands ++ operands }

end Collected

/-- Why reading arguments ends before the last of them. -/
inductive Detour where
  | misuse (m : Misuse)
  | help
  | version

/-- Reads options up to the first operand, and returns the arguments from there on. Behind
the separator every argument is an operand, which the flag tells. -/
def Grammar.options (g : Grammar) (c : Collected) :
    List String → Except Detour (Collected × Bool × List String)
  | [] => .ok (c, false, [])
  | a :: rest =>
    match g.shape a with
    | .operand => .ok (c, false, a :: rest)
    | .separator => .ok (c, true, rest)
    | .help => .error .help
    | .version => .error .version
    | .unknown => .error (.misuse (.unexpected a))
    | .option s (some value) =>
      match c.set s value with
      | .ok c => g.options c rest
      | .error m => .error (.misuse m)
    | .option s none =>
      match rest with
      | value :: rest =>
        if isValue value then
          match c.set s value with
          | .ok c => g.options c rest
          | .error m => .error (.misuse m)
        else .error (.misuse (.missingValue s.name))
      | [] => .error (.misuse (.missingValue s.name))

/-- Reading options never adds arguments to those that are left. -/
theorem Grammar.length_of_options {g : Grammar} {c d : Collected} {as rest : List String}
    {ended : Bool} (h : g.options c as = .ok (d, ended, rest)) : rest.length ≤ as.length := by
  fun_induction Grammar.options g c as <;> simp_all <;> omega

/-- Reads options and operands in any order. -/
def Grammar.arguments (g : Grammar) (c : Collected) (as : List String) :
    Except Detour Collected :=
  match h : g.options c as with
  | .error d => .error d
  | .ok (c, true, rest) => (c.add rest).mapError Detour.misuse
  | .ok (c, false, []) => .ok c
  | .ok (c, false, a :: rest) =>
    have : rest.length < as.length := by
      have := length_of_options h
      simp only [List.length_cons] at this
      omega
    match c.add [a] with
    | .ok c => g.arguments c rest
    | .error m => .error (.misuse m)
termination_by as.length

/-- The options before the command. -/
def outer : Grammar := ⟨[.logLevel], true⟩

/-- The options of a command. -/
def inner (name : String) : Option Grammar :=
  if name = "plan" then some ⟨[.nodeYaml, .nodeJson, .format, .logLevel], false⟩
  else if name = "validate" then some ⟨[.nodeYaml, .nodeJson, .logLevel], false⟩
  else none

/-- The filter of the log where no option sets one. -/
def defaultLogLevel : String := "info"

/-- The job of a command, its options and operands, and the options before it. -/
def job (name : String) (before c : Collected) : Except Misuse Job := do
  if c.operands.isEmpty then throw .noRecipes
  let format := ((c.value? .format).bind Format.ofWord?).getD .text
  return {
    action := if name = "plan" then .plan format else .validate
    recipes := c.operands.map Path.mk
    nodeYaml := (c.value? .nodeYaml).map Path.mk
    nodeJson := (c.value? .nodeJson).map Path.mk
    logLevel := ((c.value? .logLevel).or (before.value? .logLevel)).getD defaultLogLevel }

/-- What asking for help on a command gives. -/
def helpOn : List String → Except Detour Request
  | [] => .ok .help
  | [name] =>
    if name = "help" ∨ (inner name).isSome then .ok .help
    else .error (.misuse (.unknownCommand name))
  | _ :: extra :: _ => .error (.misuse (.unexpected extra))

/-- Reads the arguments of the command line. -/
def request (arguments : List String) : Except Detour Request := do
  match ← outer.options Collected.empty arguments with
  | (_, _, []) => .error (.misuse .noCommand)
  | (_, true, a :: _) => .error (.misuse (.unexpected a))
  | (before, false, name :: rest) =>
    match inner name with
    | some g =>
      let c ← g.arguments Collected.empty rest
      ((job name before c).map Request.run).mapError Detour.misuse
    | none => if name = "help" then helpOn rest else .error (.misuse (.unknownCommand name))

/-- What the arguments of the command line ask for. -/
def Request.ofArguments (arguments : List String) : Except Misuse Request :=
  match request arguments with
  | .ok r => .ok r
  | .error .help => .ok .help
  | .error .version => .ok .version
  | .error (.misuse m) => .error m

end Provision.Command
