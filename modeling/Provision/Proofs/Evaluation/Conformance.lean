import Provision.Proofs.Evaluation.Operations
import Provision.Proofs.Evaluation.Walk

/-!
# Runs take courses of events

Whatever is computed for a recipe, and however it ends, what happens during it is a
course of events for that recipe. This is proved for each operation, then for statements
and for the steps of a body by recursion over them, and last for bodies nested to any
depth. A load takes a course for the root that it adds.
-/

namespace Provision

/-- What happens in a computation is a course of events for a context. -/
def Run.Follows {α : Type} (x : Run α) (c : Context) (s : Evaluation) : Prop :=
  ∃ es, Course s.toProgress c es ∧ (x.outcome s).2.toProgress = s.toProgress.replay es

namespace Run

variable {α β : Type} {x : Run α} {c : Context} {s : Evaluation}

/-- Nothing happens in a computation that keeps the progress. -/
theorem follows_of_quiet (c : Context) (h : (x.outcome s).2.toProgress = s.toProgress) :
    x.Follows c s := ⟨[], .nil _ c, h⟩

/-- About to perform something. -/
theorem follows_act (c : Context) (s : Evaluation) : (happen (.act c.recipe)).Follows c s :=
  ⟨[.act c.recipe], .act _ c, rfl⟩

/-- Nothing happens while a value is built. -/
theorem building_follows (x : Building α) (c : Context) (s : Evaluation) :
    (building x).Follows c s := follows_of_quiet c (building_toProgress x s)

/-- A computation that goes on where another one ends takes a course after its course. -/
theorem Follows.bind {f : α → Run β} (hx : x.Follows c s)
    (hf : ∀ a t, x.outcome s = (.ok a, t) → (f a).Follows c t) : (x >>= f).Follows c s := by
  obtain ⟨es, hes, hxs⟩ := hx
  rw [Follows, outcome_bind]
  rcases hr : x.outcome s with ⟨stop | a, t⟩
  · rw [hr] at hxs
    exact ⟨es, hes, hxs⟩
  · rw [hr] at hxs
    obtain ⟨es', hes', hfs⟩ := hf a t hr
    have ht : t.toProgress = s.toProgress.replay es := hxs
    rw [ht] at hes' hfs
    exact ⟨es ++ es', hes.append hes', hfs.trans (Progress.replay_append _ _ _).symm⟩

/-- Nothing is added to any recipe that was there before but the one of the context. -/
theorem Follows.extendsAt (hx : x.Follows c s) :
    s.graph.ExtendsAt (x.outcome s).2.graph c.recipe := by
  obtain ⟨es, hes, hend⟩ := hx
  rw [hend]
  exact hes.extendsAt_replay

/-- Catching a failure takes nothing back. -/
theorem Follows.attempt (hx : x.Follows c s) : x.attempt.Follows c s := by
  obtain ⟨es, hes, hxs⟩ := hx
  refine ⟨es, hes, ?_⟩
  rw [outcome_attempt]
  rcases hr : x.outcome s with ⟨(f | f | _) | a, t⟩
  all_goals
    rw [hr] at hxs
    exact hxs

end Run

/-- An expansion under which the events for each context are a course. -/
def Expansion.Follows (expand : Expansion) : Prop :=
  ∀ (c : Context) (body : Body) (s : Evaluation), (expand c body).Follows c s

namespace Context

open Provision.Run

variable {host : Host} {expand : Expansion}

/-- A resource is added to the recipe that asks for it, after its parts are built. -/
theorem addResource_follows (c : Context) (kind : Kind) (name : String) (block : Option Block)
    (s : Evaluation) : (c.addResource kind name block).Follows c s := by
  rcases c.outcome_addResource kind name block s with
    ⟨x, t, hr, hdeclared, ht⟩ | ⟨stop, t, hr, ht⟩
  · exact ⟨[.resource c.recipe x], .resource hdeclared, by rw [hr]; exact ht⟩
  · exact follows_of_quiet _ (by rw [hr]; exact ht)

/-- A definition is registered, and nothing else happens. -/
theorem define_follows (d : Definition) (c : Context) (s : Evaluation) :
    (define d).Follows c s := by
  rw [Follows, outcome_define]
  cases hd : Kind.isReserved d.name with
  | true => exact ⟨[], .nil _ c, rfl⟩
  | false => exact ⟨[.define d], .define _ c d hd, rfl⟩

/-- The body of a definition is expanded in the recipe that the invocation begins. -/
theorem invoke_follows (hexpand : expand.Follows) (c : Context) (d : Definition) (name : String)
    (block : Option Block) (s : Evaluation) :
    (c.invoke expand d name block).Follows c s := by
  cases hattributes : ((d.attributes c.scope name block).run.run s.reads).1 with
  | error f =>
    obtain ⟨t, hr, ht⟩ := c.outcome_invoke_error expand hattributes
    exact follows_of_quiet _ (by rw [hr]; exact ht)
  | ok a =>
    obtain ⟨log, hr⟩ := c.outcome_invoke expand hattributes
    obtain ⟨es, hes, hend⟩ := hexpand (c.invoked s a) d.body _
    exact ⟨_, .expand d.name name _ hes, by rw [hr]; exact hend⟩

/-- Nothing happens while the meaning of a keyword is looked up. -/
theorem meaning?_follows (keyword : String) (c : Context) (s : Evaluation) :
    (meaning? keyword).Follows c s := by
  refine follows_of_quiet c ?_
  rw [outcome_meaning?]

/-- A file that is neither included already nor being evaluated is put on the stack, and its
statements are evaluated in the recipe that is begun for it, if it can be read. -/
theorem within_includeFile_follows (hexpand : expand.Follows) (c : Context) (path : Path)
    (s : Evaluation) (new : isIncluded s.graph (s.recipe c.recipe) path = false) :
    (within path (c.includeFile host expand path)).Follows c s := by
  rw [Follows, outcome_within, outcome_includeFile]
  by_cases hcycle : s.stack.any (·.same path) = true
  · rw [if_pos hcycle]
    exact ⟨[], .nil _ _, rfl⟩
  · have hacyclic : s.stack.any (·.same path) = false := Bool.not_eq_true _ ▸ hcycle
    rw [if_neg hcycle]
    cases host.recipe path with
    | error f => exact ⟨[.enter path, .leave], .unread _ new hacyclic, rfl⟩
    | ok list =>
      obtain ⟨es, hes, hend⟩ := hexpand ⟨s.graph.size, c.scope⟩ (.statements list)
        ((s.after (.enter path)).after (.child c.recipe (.ofFile path)))
      refine ⟨_, .included new hacyclic hes, ?_⟩
      rw [Progress.replay_append]
      exact congrArg (Progress.after · .leave) hend

/-- An inclusion nests a recipe for the file, or else leaves the graph as it is. -/
theorem includeRecipe_follows (hexpand : expand.Follows) (c : Context) (target : String)
    (s : Evaluation) : (c.includeRecipe host expand target).Follows c s := by
  rw [Follows, outcome_includeRecipe]
  dsimp only
  split
  · exact ⟨[], .nil _ _, rfl⟩
  · split
    · exact ⟨[], .nil _ _, rfl⟩
    · rename_i hnew
      exact c.within_includeFile_follows hexpand _ s (Bool.not_eq_true _ ▸ hnew)

/-- Of a run it is said that its events are a course for a context. -/
def following (c : Context) : Assertion where
  Kept _ := True
  Holds x s := x.Follows c s
  pure _ _ _ := follows_of_quiet c rfl
  kept _ _ _ := trivial
  bind := Follows.bind

/-- The events of each operation are a course. -/
theorem steps_following (host : Host) (hexpand : expand.Follows) (c : Context) :
    (following c).judgement.Steps host (fun _ => expand) (fun _ => c) (fun _ => True)
      (fun _ => True) (fun _ => True) (fun _ => True) fun _ => True where
  act := Assertion.common fun s _ => follows_act c s
  identifier _ _ _ _ := Assertion.common fun s _ => building_follows _ c s
  meaning keyword _ _ _ := by
    refine Assertion.holds (fun meaning => ⟨meaning, rfl, fun _ => ?_, fun _ _ => trivial⟩)
      fun s _ => meaning?_follows keyword c s
    exact Assertion.common fun _ _ => follows_of_quiet c rfl
  resource _ _ block _ kind name :=
    Assertion.common fun s _ => c.addResource_follows kind name block s
  invoke _ _ block _ d _ name :=
    Assertion.common fun s _ => c.invoke_follows hexpand d name block s
  define _ _ _ _ := Assertion.common fun s _ => define_follows _ c s
  target _ _ := Assertion.common fun s _ => building_follows _ c s
  inclusion _ _ resolved := Assertion.common fun s _ => c.includeRecipe_follows hexpand resolved s
  performs _ _ _ := trivial
  same _ := trivial
  register _ _ _ _ := Assertion.common fun s _ => define_follows _ c s
  fail _ _ := Assertion.holds (fun _ => trivial) fun _ _ => follows_of_quiet c rfl
  read _ := Assertion.common fun _ _ => follows_of_quiet c rfl
  call _ _ := Assertion.common fun _ _ => follows_of_quiet c rfl
  current := Assertion.holds (fun _ => trivial) fun _ _ => follows_of_quiet c rfl
  attempt hx := Assertion.holds (fun _ => trivial) fun s hs => (hx s hs).1.attempt
  record {answer} _ :=
    Assertion.common fun _ _ => follows_of_quiet c (by cases answer () <;> rfl)
  next _ _ _ := ⟨trivial, fun answer _ =>
    ⟨(answer ()).map (·.observation), fun _ _ => trivial, fun _ => rfl⟩⟩

/-- Statements follow a course of the recipe that they are taken in. -/
theorem performAll_follows (hexpand : expand.Follows) (c : Context) (list : List Statement)
    (s : Evaluation) : (c.performAll host expand list).Follows c s :=
  ((c.steps_following host hexpand).performAll (fun _ _ => trivial) s trivial).1

/-- The events of a step are a course for the recipe that it is taken on. -/
theorem step_follows (hexpand : expand.Follows) (c : Context) (st : Step) (s : Evaluation) :
    (c.step host expand st).Follows c s :=
  ((c.steps_following host hexpand).step trivial s trivial).1

/-- So do steps. -/
theorem stepAll_follows (hexpand : expand.Follows) (c : Context) (list : List Step)
    (s : Evaluation) : (c.stepAll host expand list).Follows c s :=
  ((c.steps_following host hexpand).stepAll (fun _ _ => trivial) s trivial).1

/-- The events of a body are a course for the recipe that it is built in. -/
theorem build_follows (host : Host) (depth : Nat) : Expansion.Follows (build host depth) := by
  induction depth with
  | zero =>
    intro c body s
    exact follows_of_quiet _ rfl
  | succ depth ih =>
    intro c body s
    cases body with
    | statements list => exact c.performAll_follows ih list s
    | steps list => exact c.stepAll_follows ih list s

/-- The events of a declaration, with bodies nested to any depth below it. -/
theorem declare_build_follows (host : Host) (depth : Nat) (c : Context) (keyword name : String)
    (block : Option Block) (s : Evaluation) :
    (c.declare (build host depth) keyword name block).Follows c s :=
  ((c.steps_following host (build_follows host depth)).declare keyword name block trivial name
    s trivial).1

/-- The events of a step, with bodies nested to any depth below it. -/
theorem step_build_follows (host : Host) (depth : Nat) (c : Context) (st : Step)
    (s : Evaluation) : (c.step host (build host depth) st).Follows c s :=
  c.step_follows (build_follows host depth) st s

end Context

/-- What happens in a load is one of the courses a load may take. -/
theorem Evaluation.load_follows (host : Host) (depth : Nat) (path : Path) (scope : Scope)
    (s : Evaluation) : ∃ es, Loading s.toProgress scope es ∧
      ((load host depth path scope).outcome s).2.toProgress = s.toProgress.replay es := by
  rw [outcome_load]
  dsimp only
  split
  · exact ⟨[], .refused, rfl⟩
  · cases host.recipe (absolute host path) with
    | error f => exact ⟨[], .refused, rfl⟩
    | ok list =>
      dsimp only
      let begun : Evaluation := { s.after (.root (.ofFile (absolute host path))) with
        log := s.log ++ [evaluating (absolute host path)] }
      rw [Run.outcome_within]
      split
      · rename_i hcycle
        exact ⟨_, .cyclic (absolute host path) hcycle, rfl⟩
      · rename_i hcycle
        obtain ⟨es, hes, hend⟩ := Context.build_follows host depth ⟨s.graph.size, scope⟩
          (.statements list) (begun.after (.enter (absolute host path)))
        refine ⟨_, .evaluated (Bool.not_eq_true _ ▸ hcycle) hes, ?_⟩
        rw [Progress.replay_append]
        exact congrArg (Progress.after · .leave) hend

/-- What happens in one operation of a session is one of the courses for it. -/
theorem Session.Next.happens {host : Host} {depth : Nat} {s s' : Session}
    (h : Next host depth s s') :
    ∃ es, s'.state.toProgress = s.state.toProgress.replay es ∧
      ((∃ scope, Loading s.state.toProgress scope es) ∨ (∃ path, es = [.root (.ofFile path)]) ∨
        ∃ c, s.context = some c ∧ Course s.state.toProgress c es) := by
  cases h with
  | load path scope =>
    obtain ⟨es, hes, hend⟩ := Evaluation.load_follows host depth path scope s.state
    exact ⟨es, hend, .inl ⟨scope, hes⟩⟩
  | root path scope => exact ⟨_, rfl, .inr (.inl ⟨path, rfl⟩)⟩
  | step c st hc =>
    obtain ⟨es, hes, hend⟩ := c.step_build_follows host depth st s.state
    exact ⟨es, hend, .inr (.inr ⟨c, hc, hes⟩)⟩

end Provision
