import Provision.Proofs.Evaluation.Outcome
import Provision.Proofs.Graph.Growth

/-!
# Courses of events

What may happen while one recipe is being built, said once and for all: `Course p c es`
holds if the events `es` may follow on the progress `p` while the recipe of the context `c`
is built. Declarations and definitions are single events. A nested recipe is begun by an
event of its own, and is built to its end before anything else happens to the recipe that
holds it. Whatever holds of every run is proved by induction on courses.
-/

namespace Provision

namespace Progress

/-- The progress after several events. -/
def replay (p : Progress) (es : List Event) : Progress := es.foldl after p

/-- Without events, nothing changes. -/
@[simp] theorem replay_nil (p : Progress) : p.replay [] = p := rfl

/-- Events are replayed one after another. -/
@[simp] theorem replay_cons (p : Progress) (e : Event) (es : List Event) :
    p.replay (e :: es) = (p.after e).replay es := rfl

/-- The events of two journals can be replayed one journal after the other. -/
theorem replay_append (p : Progress) (es es' : List Event) :
    p.replay (es ++ es') = (p.replay es).replay es' := List.foldl_append

/-- The journal records every event. -/
theorem replay_journal (p : Progress) (es : List Event) :
    (p.replay es).journal = p.journal ++ es := by
  induction es generalizing p with
  | nil => simp
  | cons e es ih => simp [ih]

/-- The recipe of a number. -/
def recipe (p : Progress) (id : Nat) : Recipe := (p.graph.recipe? id).getD default

/-- A number below the size of the graph is that of a recipe. -/
theorem recipe?_of_lt {p : Progress} {id : Nat} (hid : id < p.graph.size) :
    p.graph.recipe? id = some (p.recipe id) := by
  obtain ⟨r, hr⟩ := Graph.recipe?_of_lt hid
  rw [recipe, hr]
  rfl

/-- No event takes anything away from the graph. -/
theorem grows_after (p : Progress) (e : Event) : p.graph.Grows (p.after e).graph := by
  cases e with
  | root r => exact p.graph.grows_addRoot r
  | child parent r => exact p.graph.grows_addChild parent r
  | resource parent x => exact p.graph.grows_addResource parent x
  | define d => exact Graph.Grows.refl _
  | enter path => exact Graph.Grows.refl _
  | leave => exact Graph.Grows.refl _
  | act id => exact Graph.Grows.refl _

/-- A graph only grows while events are replayed. -/
theorem grows_replay (p : Progress) (es : List Event) : p.graph.Grows (p.replay es).graph := by
  induction es generalizing p with
  | nil => exact Graph.Grows.refl _
  | cons e es ih => exact (p.grows_after e).trans (ih (p.after e))

end Progress

/-- Something is the case at each of several events, right before it happens. -/
def Throughout (P : Progress → Event → Prop) : Progress → List Event → Prop
  | _, [] => True
  | p, e :: es => P p e ∧ Throughout P (p.after e) es

/-- What holds throughout two journals holds throughout the first, and throughout the second from
where that has ended. -/
theorem throughout_append {P : Progress → Event → Prop} {p : Progress} {es es' : List Event} :
    Throughout P p (es ++ es') ↔ Throughout P p es ∧ Throughout P (p.replay es) es' := by
  induction es generalizing p with
  | nil => simp [Throughout]
  | cons e es ih => simp [Throughout, ih, and_assoc]

/-- A weaker property holds throughout as well. -/
theorem Throughout.imp {P Q : Progress → Event → Prop} {p : Progress} {es : List Event}
    (h : Throughout P p es) (himp : ∀ q e, P q e → Q q e) : Throughout Q p es := by
  induction es generalizing p with
  | nil => trivial
  | cons e es ih => exact ⟨himp p e h.1, ih h.2⟩

/-- What a resource takes from the context that it is declared in and from its recipe, as that
is built so far. Its actions are some that its kind accepts. -/
structure Resource.DeclaredIn (x : Resource) (c : Context) (r : Recipe) : Prop where
  recipe : x.recipe = c.recipe
  notifications : ∀ n ∈ x.notifications, n.recipe = c.recipe
  directory : x.directory = if x.kind.wantsDirectory then some r.directory else none
  node : x.node.isSome = (x.kind.wantsNode && c.scope.contains "node")
  actions : ∀ a ∈ x.actions, a ∈ x.kind.actions

/-- What may happen while the recipe of a context is being built. -/
inductive Course : Progress → Context → List Event → Prop
  /-- Nothing happens. -/
  | nil (p : Progress) (c : Context) : Course p c []
  /-- One thing happens after another. -/
  | append {p : Progress} {c : Context} {es es' : List Event} (first : Course p c es)
      (second : Course (p.replay es) c es') : Course p c (es ++ es')
  /-- Something is about to be performed. -/
  | act (p : Progress) (c : Context) : Course p c [.act c.recipe]
  /-- A resource is declared. -/
  | resource {p : Progress} {c : Context} {x : Resource}
      (declared : x.DeclaredIn c (p.recipe c.recipe)) : Course p c [.resource c.recipe x]
  /-- A definition is registered. -/
  | define (p : Progress) (c : Context) (d : Definition) (free : Kind.isReserved d.name = false) :
      Course p c [.define d]
  /-- A definition is expanded in a recipe of its own, in a scope with its attributes. -/
  | expand {p : Progress} {c : Context} {es : List Event} (definition name : String) (v : Value)
      (inner : Course
        (p.after (.child c.recipe (.ofDefinition definition name (p.recipe c.recipe).path)))
        ⟨p.graph.size, c.scope.insert "params" (.constant v)⟩ es) :
      Course p c (.child c.recipe (.ofDefinition definition name (p.recipe c.recipe).path) :: es)
  /-- A file to include turns out not to be a recipe. -/
  | unread {p : Progress} (c : Context) {path : Path}
      (new : Context.isIncluded p.graph (p.recipe c.recipe) path = false)
      (acyclic : p.stack.any (·.same path) = false) : Course p c [.enter path, .leave]
  /-- A file is included, in the scope of the recipe that includes it. -/
  | included {p : Progress} {c : Context} {es : List Event} {path : Path}
      (new : Context.isIncluded p.graph (p.recipe c.recipe) path = false)
      (acyclic : p.stack.any (·.same path) = false)
      (inner : Course ((p.after (.enter path)).after (.child c.recipe (.ofFile path)))
        ⟨p.graph.size, c.scope⟩ es) :
      Course p c (.enter path :: .child c.recipe (.ofFile path) :: es ++ [.leave])

/-- What may happen while a file is loaded. -/
inductive Loading (p : Progress) (scope : Scope) : List Event → Prop
  /-- The file is not a recipe. -/
  | refused : Loading p scope []
  /-- The file is being evaluated already. -/
  | cyclic (path : Path) (cyclic : p.stack.any (·.same path) = true) :
      Loading p scope [.root (.ofFile path)]
  /-- The file is evaluated. -/
  | evaluated {path : Path} {es : List Event} (acyclic : p.stack.any (·.same path) = false)
      (inner : Course ((p.after (.root (.ofFile path))).after (.enter path))
        ⟨p.graph.size, scope⟩ es) :
      Loading p scope (.root (.ofFile path) :: .enter path :: es ++ [.leave])

namespace Course

/-- The stack is the same after a course as before. -/
theorem stack_replay {p : Progress} {c : Context} {es : List Event} (h : Course p c es) :
    (p.replay es).stack = p.stack := by
  induction h with
  | nil | act | resource | define => rfl
  | append _ _ ih ih' => rw [Progress.replay_append, ih', ih]
  | expand definition name v _ ih => exact ih
  | @unread p c path => exact List.dropLast_concat
  | @included p c es path _ _ _ ih =>
    rw [Progress.replay_append]
    change (((p.after (.enter path)).after
      (.child c.recipe (.ofFile path))).replay es).stack.dropLast = _
    rw [ih]
    exact List.dropLast_concat

/-- While a recipe is built, nothing is added to any other recipe that was there before. -/
theorem extendsAt_replay {p : Progress} {c : Context} {es : List Event} (h : Course p c es) :
    p.graph.ExtendsAt (p.replay es).graph c.recipe := by
  induction h with
  | nil | act | define | unread => exact Graph.ExtendsAt.refl _ _
  | append _ _ ih ih' => rw [Progress.replay_append]; exact ih.trans ih'
  | @resource p c x => exact p.graph.extendsAt_addResource c.recipe x
  | @expand p c es definition name v _ ih =>
    exact (p.graph.extendsAt_addChild c.recipe _).of_newer ih (Nat.le_refl _)
  | @included p c es path _ _ _ ih =>
    rw [Progress.replay_append]
    exact (p.graph.extendsAt_addChild c.recipe _).of_newer ih (Nat.le_refl _)

end Course

/-- The stack is the same after a load as before. -/
theorem Loading.stack_replay {p : Progress} {scope : Scope} {es : List Event}
    (h : Loading p scope es) :
    (p.replay es).stack = p.stack := by
  cases h with
  | refused | cyclic => rfl
  | @evaluated path es _ inner =>
    rw [Progress.replay_append]
    change (((p.after (.root (.ofFile path))).after (.enter path)).replay es).stack.dropLast = _
    rw [inner.stack_replay]
    exact List.dropLast_concat

end Provision
