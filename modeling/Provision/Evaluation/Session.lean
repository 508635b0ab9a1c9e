import Provision.Evaluation.Context

/-!
# Sessions

What a program does with an evaluation: it loads recipe files, begins recipes of its own,
and takes steps on the one it has begun last. An operation that fails leaves what it has
built, and the next one goes on from there.
-/

namespace Provision

/-- An evaluation between two operations. -/
structure Session where
  state : Evaluation
  /-- The recipe that steps are taken on. A load ends it. -/
  context : Option Context
  /-- The roots that were loaded, the others having been begun. -/
  loaded : List Nat

namespace Session

/-- The session before any operation. -/
def start : Session := ⟨Evaluation.empty, none, []⟩

/-- The session after a load. -/
def load (host : Host) (depth : Nat) (s : Session) (path : Path) (scope : Scope) : Session :=
  let state := ((Evaluation.load host depth path scope).outcome s.state).2
  { state
    context := none
    loaded := s.loaded ++ state.graph.roots.drop s.state.graph.roots.length }

/-- The session after a recipe is begun. -/
def root (s : Session) (path : Path) (scope : Scope) : Session :=
  { s with
    state := ((Evaluation.root path).outcome s.state).2
    context := some ⟨s.state.graph.size, scope⟩ }

/-- The session after a step. -/
def step (host : Host) (depth : Nat) (s : Session) (c : Context) (st : Step) : Session :=
  { s with state := ((c.step host (Context.build host depth) st).outcome s.state).2 }

/-- One session comes from another by one operation. -/
inductive Next (host : Host) (depth : Nat) (s : Session) : Session → Prop
  | load (path : Path) (scope : Scope) : Next host depth s (s.load host depth path scope)
  | root (path : Path) (scope : Scope) : Next host depth s (s.root path scope)
  | step (c : Context) (st : Step) (hc : s.context = some c) :
      Next host depth s (s.step host depth c st)

/-- A session comes about by operations. Between two of them the files may change. -/
inductive Reachable : Session → Prop
  | start : Reachable start
  | next {host : Host} {depth : Nat} {s s' : Session} (hs : Reachable s)
      (hn : Next host depth s s') : Reachable s'

end Session

end Provision
