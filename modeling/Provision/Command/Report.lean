import Provision.Command.Request
import Provision.Evaluation.Context
import Provision.Graph.Document
import Provision.Graph.Tree
import Provision.Log.Filter
import Provision.Node

/-!
# Reports

What a job prints: the plan or a line of counts, or else one line that says why there is
none. Printing goes on piece by piece, and what is printed stays printed when a later step
fails.
-/

namespace Provision.Command

/-- Why a job fails. -/
inductive Failure where
  | node (f : Node.Failure)
  | recipe (f : Provision.Failure)
  | notification (f : Notification.Failure)
  /-- The graph has no JSON document. -/
  | unwritable (obstacle : Json.Obstacle := .key)
  /-- The run was ended by a message that is in the log. -/
  | logged
  | tooDeep
  deriving DecidableEq, Inhabited

namespace Failure

/-- The cause of an evaluation that stops early. -/
def ofStop : Stop → Failure
  | .failure f => .recipe f
  | .abort _ => .logged
  | .tooDeep => .tooDeep

/-- The text of a failure, if the log does not hold it yet. -/
def message? : Failure → Option String
  | .node f => some f.message
  | .recipe f => some f.message
  | .notification f => some f.message
  | .unwritable obstacle => some ("JSON serialization error: " ++ obstacle.message)
  | .logged => none
  | .tooDeep => some "definitions are nested too deep"

end Failure

/-- What a job leaves behind. -/
structure Report where
  log : List Log.Entry
  /-- The text that was printed. -/
  printed : String
  /-- Whether the job was done. -/
  outcome : Except Failure Unit
  deriving Inhabited

namespace Report

/-- The text that was printed, or why the job failed. -/
def result (r : Report) : Except Failure String := r.outcome.map fun _ => r.printed

/-- The exit code of a job. -/
def code (r : Report) : Nat := if r.result.isOk then 0 else 1

/-- The messages of a job that a filter shows, and after them its failure. -/
def messages (r : Report) (filter : Log.Filter) : List String :=
  let failure :=
    match r.result with
    | .ok _ => none
    | .error f => f.message?
  (r.log.filter filter.shows).map (·.line) ++ (failure.map ("error: " ++ ·)).toList

end Report

/-- A count in a text. -/
def count (n : Nat) : String := String.ofList (Text.natDigits n)

/-- The message for recipes that are evaluated. -/
def evaluated (files resources : Nat) : Log.Entry :=
  ⟨.info, .command,
    "Evaluated " ++ count files ++ " recipe file(s) into " ++ count resources ++ " resources"⟩

/-- Evaluates recipes one after the other, with the attributes of the node in scope. -/
def evaluate (host : Host) (depth : Nat) (recipes : List Path) (node : Value) : Run Unit := do
  let scope : Scope := OrderedMap.empty.insert "node" (.constant node)
  recipes.forM fun path => do
    let _ ← Evaluation.load host depth path scope
  Run.log (evaluated recipes.length (← get).graph.resources.length)

/-- The counts that end a plan. -/
def planLine (recipes resources notifications : Nat) : String :=
  "Plan: " ++ count recipes ++ " recipes, " ++ count resources ++ " resources, " ++
    count notifications ++ " notifications.\n"

/-- The counts of a validation. -/
def validLine (recipes resources notifications definitions : Nat) : String :=
  "OK: " ++ count recipes ++ " recipes, " ++ count resources ++ " resources, " ++
    count notifications ++ " notifications, " ++ count definitions ++ " definitions\n"

/-- What a job does in the end: it prints, and may fail at any point. -/
abbrev Printing := ExceptT Failure (StateM String)

/-- Prints a text. -/
def emit (text : String) : Printing Unit := modify (· ++ text)

/-- Prints an evaluation whose notifications were resolved. -/
def Action.print (a : Action) (e : Evaluation) (notifications : Nat) : Printing Unit := do
  let resources := e.graph.resources.length
  match a with
  | .plan .text =>
    emit e.graph.tree
    emit "\n"
    emit (planLine e.graph.size resources notifications)
  | .plan .json =>
    match e.graph.json with
    | .ok j => emit (j.indentedText ++ "\n")
    | .error obstacle => throw (.unwritable obstacle)
  | .validate =>
    emit (validLine e.graph.size resources notifications e.definitions.size)

/-- What is done with an evaluation. -/
def Action.conclude (a : Action) (e : Evaluation) : Printing Unit :=
  match e.graph.deliveries with
  | .ok ds => a.print e ds.length
  | .error f => throw (.notification f)

/-- Evaluates the recipes of a job, with what is built up to its end or to a failure. -/
def Job.evaluate (host : Host) (depth : Nat) (j : Job) : Except Failure Unit × Evaluation :=
  match Node.load host j.nodeYaml j.nodeJson with
  | .error f => (.error (.node f), Evaluation.empty)
  | .ok node =>
    match (Command.evaluate host depth j.recipes node).outcome Evaluation.empty with
    | (.ok _, e) => (.ok (), e)
    | (.error stop, e) => (.error (.ofStop stop), e)

/-- Does a job. Definitions may be nested down to a given depth. -/
def Job.run (host : Host) (depth : Nat) (j : Job) : Report :=
  match j.evaluate host depth with
  | (.ok _, e) =>
    let (outcome, printed) := (j.action.conclude e).run.run ""
    ⟨e.log, printed, outcome⟩
  | (.error f, e) => ⟨e.log, "", .error f⟩

/-- The filter for a job: that of the environment, if it is well formed, or else that of
the job. The second part is what is said about malformed directives. -/
def Job.filter (j : Job) (environment : Option String) : Log.Filter × List String :=
  match environment.bind Log.Filter.ofText? with
  | some filter => (filter, [])
  | none =>
    (Log.Filter.ofText j.logLevel, (Log.Filter.malformed j.logLevel).map fun (d, cause) =>
      "ignoring \x60" ++ d ++ "\x60: " ++ cause.text)

end Provision.Command
