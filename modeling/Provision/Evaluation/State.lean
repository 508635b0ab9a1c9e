import Provision.Graph.Basic
import Provision.Host
import Provision.Statement.Reader
import Provision.Yaml.Document

/-!
# The state of an evaluation

Everything that a run builds up: the graph, the definitions, the stack of files being
evaluated, the reads of lazy bindings, and what was logged. The graph, the definitions and
the stack change by events alone, and a journal keeps these in order. A step that fails
keeps what it has built up to then.
-/

namespace Provision

/-- What a keyword stands for. -/
inductive Meaning where
  | kind (k : Kind)
  | definition (d : Definition)
  deriving Inhabited

/-- The answer to a step. -/
inductive Answer where
  | done
  | value (v : Option Value)
  | recipe (id : Nat)
  | meaning (m : Option Meaning)
  deriving Inhabited

/-- What a body learns from an answer. -/
def Answer.observation : Answer → Observation
  | .done => .done
  | .value v => .value v
  | .recipe id => .recipe id
  | .meaning none => .unknown
  | .meaning (some (.kind k)) => .kind k
  | .meaning (some (.definition d)) => .definition d.name d.parameters d.body.statements?

/-- Something that happens in a run. -/
inductive Event where
  /-- A recipe is added that no other recipe holds. -/
  | root (r : Recipe)
  /-- A recipe is added as the last child of another. -/
  | child (parent : Nat) (r : Recipe)
  /-- A resource is added as the last child of a recipe. -/
  | resource (parent : Nat) (r : Resource)
  /-- A definition is registered. -/
  | define (d : Definition)
  /-- A file is put on the stack. -/
  | enter (path : Path)
  /-- The innermost file is taken off the stack. -/
  | leave
  /-- A declaration, definition or inclusion is about to be performed for a recipe. -/
  | act (recipe : Nat)
  deriving Inhabited

/-- How far a run has come. -/
structure Progress where
  graph : Graph
  definitions : Definitions
  /-- The files being evaluated, outermost first. -/
  stack : List Path
  /-- What has happened so far, oldest first. -/
  journal : List Event
  deriving Inhabited

namespace Progress

/-- What an event changes, apart from the journal. -/
def change (p : Progress) : Event → Progress
  | .root r => { p with graph := p.graph.addRoot r }
  | .child parent r => { p with graph := p.graph.addChild parent r }
  | .resource parent r => { p with graph := p.graph.addResource parent r }
  | .define d => { p with definitions := p.definitions.register d }
  | .enter path => { p with stack := p.stack ++ [path] }
  | .leave => { p with stack := p.stack.dropLast }
  | .act _ => p

/-- The progress after an event. -/
def after (p : Progress) (e : Event) : Progress :=
  { p.change e with journal := p.journal ++ [e] }

end Progress

/-- The state of a run. -/
structure Evaluation extends Progress where
  /-- The reads of lazy bindings. -/
  reads : Reads
  /-- What was logged, oldest first. -/
  log : List Log.Entry
  /-- The answers to the steps of expanded bodies, in the order in which they ended. -/
  trace : List (Except Failure Answer)
  deriving Inhabited

/-- The state before anything is evaluated. -/
def Evaluation.empty : Evaluation := ⟨⟨Graph.empty, {}, [], []⟩, [], [], []⟩

/-- The state after an event. -/
def Evaluation.after (s : Evaluation) (e : Event) : Evaluation :=
  { s with toProgress := s.toProgress.after e }

/-- Why an evaluation stops early. -/
inductive Stop where
  /-- A failure, after which the run may go on with something else. -/
  | failure (f : Failure)
  /-- A notification that cannot be made ends the run. -/
  | abort (f : Notification.Failure)
  /-- Bodies are nested deeper than the evaluation was meant to go. -/
  | tooDeep
  deriving DecidableEq, Inhabited

/-- A computation on the state of a run. The state is kept when it stops early. -/
abbrev Run := ExceptT Stop (StateM Evaluation)

namespace Run

/-- What a computation gives in a state, with the state it leaves. -/
def outcome {α : Type} (x : Run α) (s : Evaluation) : Except Stop α × Evaluation := x.run.run s

/-- Stops with a failure. -/
def fail {α : Type} (f : Failure) : Run α := throw (.failure f)

/-- Logs a message. -/
def log (e : Log.Entry) : Run Unit := modify fun s => { s with log := s.log ++ [e] }

/-- Lets something happen. -/
def happen (e : Event) : Run Unit := modify fun s => s.after e

/-- Reads bindings. -/
def reading {α : Type} (x : StateM Reads α) : Run α := do
  let s ← get
  let (a, reads) := x.run s.reads
  set { s with reads }
  return a

/-- Builds something. An invalid timing is logged and ends the run. -/
def building {α : Type} (x : Building α) : Run α := do
  match ← reading x.run with
  | .ok a => return a
  | .error (.notification f@(.invalidTiming _)) =>
    log ⟨.error, .notification, f.message⟩
    throw (.abort f)
  | .error f => fail f

/-- Carries on with a result, or stops with its failure. -/
def ofExcept {α : Type} : Except Failure α → Run α
  | .ok a => return a
  | .error f => fail f

/-- Puts a file on the stack while a computation runs. A file that is on it already would be
included for ever. -/
def within {α : Type} (path : Path) (x : Run α) : Run α := do
  let s ← get
  if s.stack.any (·.same path) then fail (.includeCycle (s.stack ++ [path]))
  happen (.enter path)
  let result ← ExceptT.lift x.run
  happen .leave
  ExceptT.mk (pure result)

/-- Takes a failure of a computation for its answer. -/
def attempt {α : Type} (x : Run α) : Run (Except Failure α) := do
  match ← ExceptT.lift x.run with
  | .ok a => return .ok a
  | .error (.failure f) => return .error f
  | .error stop => throw stop

end Run

/-- The statements of a text. The path is that of the failure, if there is one. -/
def Statement.ofText (text : String) (path : Path) : Except Failure (List Statement) :=
  match Yaml.read text with
  | .error cause => .error (.malformedDocument path cause.text)
  | .ok v => (Statement.ofDocument v).mapError (.malformedRecipe path)

/-- The statements of a recipe file. -/
def Host.recipe (h : Host) (path : Path) : Except Failure (List Statement) :=
  match h.read path with
  | .error reason => .error (.unreadable path reason)
  | .ok text => Statement.ofText text path

end Provision
