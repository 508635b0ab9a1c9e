import Provision.Proofs.Evaluation.Conformance
import Provision.Proofs.Graph.Spans

/-!
# The order in which resources are applied

Resources are applied in the order in which they were declared, and recipes are visited in
the order in which they were begun. A declaration goes to the recipe that is being built,
wherever that is nested, so this holds because the recipe that is being built is always the
open one of the graph: nothing that was begun after it is found behind it in the walk.
-/

namespace Provision

/-- The resource that an event adds. -/
def Event.resource? : Event → Option Resource
  | .resource _ x => some x
  | _ => none

namespace Progress

/-- The resources added so far, in the order in which they were. -/
def added (p : Progress) : List Resource := p.journal.filterMap Event.resource?

/-- Resources are applied in the order in which they were added, and the walk visits every
recipe once, in the order in which they were begun. -/
structure Chronological (p : Progress) : Prop where
  resources : p.graph.resources = p.added
  recipes : p.graph.Walk p.graph.roots (List.range p.graph.size)

/-- The roots span the graph, and its resources are those added. -/
def Arranged (p : Progress) : Prop :=
  p.graph.Spans (p.graph.roots.map .recipe) 0 p.graph.size p.added

/-- Resources in the order of a walk are in the order in which they were added. -/
theorem Arranged.chronological {p : Progress} (h : p.Arranged) : p.Chronological :=
  ⟨Graph.resources_of_spans h, Graph.walk_of_spans h⟩

/-- One event adds the resource that it pushes, after those added before. -/
theorem added_after (p : Progress) (e : Event) :
    (p.after e).added = p.added ++ (Event.resource? e).toList := by
  rw [added, after_journal, List.filterMap_append]
  cases e <;> rfl

/-- A journal adds the resources that its events push, one after another. -/
theorem added_replay (p : Progress) (es : List Event) :
    (p.replay es).added = p.added ++ es.filterMap Event.resource? := by
  rw [added, replay_journal, List.filterMap_append, added]

/-- A recipe is the open one: the resources before it and its own are all that were added. -/
structure OpenAt (p : Progress) (id : Nat) (before : List Resource) : Prop where
  place : p.graph.Open id (p.graph.roots.map .recipe) 0 before
  own : ∃ r xs, p.graph.recipe? id = some r ∧
    p.graph.Spans r.children (id + 1) p.graph.size xs ∧ p.added = before ++ xs

namespace OpenAt

variable {p q : Progress} {id : Nat} {before : List Resource}

/-- Around a recipe that is still open, the resources so far are those of a walk. -/
theorem arranged (h : p.OpenAt id before) : p.Arranged := by
  obtain ⟨r, xs, hr, hspan, hadded⟩ := h.own
  rw [Arranged, hadded]
  exact h.place.spans hr hspan

/-- An event that adds no recipe and no resource leaves the open recipe open. -/
theorem quiet (h : p.OpenAt id before) {e : Event} (hg : (p.after e).graph = p.graph)
    (he : e.resource? = none) : (p.after e).OpenAt id before := by
  have hadded : (p.after e).added = p.added := by
    rw [added_after, he]
    exact List.append_nil _
  constructor
  · rw [hg]
    exact h.place
  · rw [hg, hadded]
    exact h.own

/-- A resource that is added to the open recipe is the last of all. -/
theorem resource (h : p.OpenAt id before) (x : Resource) :
    (p.after (.resource id x)).OpenAt id before := by
  obtain ⟨r, xs, hr, hspan, hadded⟩ := h.own
  have hother (i : Nat) (hi : id ≠ i) :
      (p.graph.addResource id x).recipe? i = p.graph.recipe? i := by
    rw [Graph.recipe?_addResource, if_neg hi]
  have hrx : (p.graph.addResource id x).recipe? id = some (r.push (.resource x)) := by
    rw [Graph.recipe?_addResource, if_pos rfl, hr]
    rfl
  have hold : (p.graph.addResource id x).Spans r.children (id + 1) p.graph.size xs :=
    hspan.congr fun i hi _ => hother i (by omega)
  refine ⟨h.place.congr fun i hi => hother i (by omega), _, xs ++ [x], hrx, ?_, ?_⟩
  · change (p.graph.addResource id x).Spans (r.push (.resource x)).children (id + 1)
      (p.graph.addResource id x).size (xs ++ [x])
    rw [Graph.size_addResource, Recipe.push_children]
    exact hold.append (.resource x (.nil _))
  · rw [added_after, hadded, List.append_assoc]
    rfl

/-- A recipe that is begun in the open one is the open one, and when it is finished the
other is open again. -/
theorem child (h : p.OpenAt id before) {r : Recipe} (hempty : r.children = []) :
    ∃ earlier, (p.after (.child id r)).OpenAt p.graph.size earlier ∧
      ∀ q : Progress, (p.after (.child id r)).graph.ExtendsAt q.graph p.graph.size →
        q.OpenAt p.graph.size earlier → q.OpenAt id before := by
  obtain ⟨o, xs, ho, hspan, hadded⟩ := h.own
  have hlt : id < p.graph.size := Graph.recipe?_lt ho
  have hsize : (p.after (.child id r)).graph.size = p.graph.size + 1 :=
    Graph.size_addChild p.graph id r
  have hother (i : Nat) (hi : i < p.graph.size) (hne : id ≠ i) :
      (p.after (.child id r)).graph.recipe? i = p.graph.recipe? i := by
    change (p.graph.addChild id r).recipe? i = _
    rw [Graph.recipe?_addChild hlt, if_neg (by omega), if_neg hne]
  have hholder : (p.after (.child id r)).graph.recipe? id =
      some (o.push (.recipe p.graph.size)) := by
    change (p.graph.addChild id r).recipe? id = _
    rw [Graph.recipe?_addChild hlt, if_neg (by omega), if_pos rfl, ho]
    rfl
  have hnew : (p.after (.child id r)).graph.recipe? p.graph.size = some r := by
    change (p.graph.addChild id r).recipe? p.graph.size = _
    rw [Graph.recipe?_addChild hlt, if_pos rfl]
  have hplace : (p.after (.child id r)).graph.Open id (p.graph.roots.map .recipe) 0 before :=
    h.place.congr fun i hi => hother i (by omega) (by omega)
  have hold : (p.after (.child id r)).graph.Spans o.children (id + 1) p.graph.size xs :=
    hspan.congr fun i hi hi' => hother i hi' (by omega)
  refine ⟨before ++ xs, ⟨hplace.trans hholder (.last hold), r, [], hnew, ?_, ?_⟩, ?_⟩
  · rw [hempty, hsize]
    exact .nil _
  · rw [added_after, hadded]
    rfl
  · -- Only the new recipe and those after it were added to since.
    intro q hq hopen
    have hkept (i : Nat) (hi : i < p.graph.size) :
        q.graph.recipe? i = (p.after (.child id r)).graph.recipe? i :=
      hq.others i (by omega) (by omega)
    obtain ⟨r', ys, hr', hspan', hadded'⟩ := hopen.own
    have hroots : q.graph.roots = p.graph.roots := hq.roots
    refine ⟨?_, _, xs ++ ys, (hkept id hlt).trans hholder, ?_, ?_⟩
    · rw [hroots]
      exact hplace.congr fun i hi => hkept i (by omega)
    · have hold' : q.graph.Spans o.children (id + 1) p.graph.size xs :=
        hold.congr fun i _ hi => hkept i hi
      exact hold'.concat hr' hspan'
    · rw [hadded', List.append_assoc]

end OpenAt

/-- A root that is begun in an arranged graph is the open recipe. -/
theorem Arranged.root {p : Progress} (h : p.Arranged) {r : Recipe} (hempty : r.children = []) :
    (p.after (.root r)).OpenAt p.graph.size p.added := by
  have hold : (p.graph.addRoot r).Spans (p.graph.roots.map .recipe) 0 p.graph.size p.added := by
    refine Graph.Spans.congr h fun i _ hi => ?_
    rw [Graph.recipe?_addRoot, if_neg (by omega)]
  have hnew : (p.graph.addRoot r).recipe? p.graph.size = some r := by
    rw [Graph.recipe?_addRoot, if_pos rfl]
  refine ⟨?_, r, [], hnew, ?_, ?_⟩
  · change (p.graph.addRoot r).Open _ ((p.graph.addRoot r).roots.map .recipe) 0 _
    rw [Graph.roots_addRoot, List.map_append]
    exact .last hold
  · change (p.graph.addRoot r).Spans r.children _ (p.graph.addRoot r).size []
    rw [hempty, Graph.size_addRoot]
    exact .nil _
  · rw [added_after]
    rfl

end Progress

/-- What holds right before an event: the order is chronological, and a recipe that something
is performed for is the open one. -/
structure Progress.Timely (p : Progress) (e : Event) : Prop where
  arranged : p.Arranged
  acting : ∀ id, e = .act id → ∃ before, p.OpenAt id before

/-- Only an act is about a recipe that has to be open. -/
theorem Progress.Arranged.timely {p : Progress} (h : p.Arranged) {e : Event}
    (he : ∀ id, e ≠ .act id) : p.Timely e := ⟨h, fun id hid => absurd hid (he id)⟩

/-- An event in the open recipe comes in time. -/
theorem Progress.OpenAt.timely {p : Progress} {id : Nat} {before : List Resource}
    (h : p.OpenAt id before) {e : Event} (he : ∀ other, e = .act other → other = id) :
    p.Timely e := ⟨h.arranged, fun other hother => ⟨before, he other hother ▸ h⟩⟩

/-- At every moment of a course for the open recipe the order is chronological, and at its
end the recipe is the open one still. -/
theorem Course.openAt {p : Progress} {c : Context} {es : List Event} (h : Course p c es)
    {before : List Resource} (hopen : p.OpenAt c.recipe before) :
    Throughout Progress.Timely p es ∧ (p.replay es).OpenAt c.recipe before := by
  induction h generalizing before with
  | nil => exact ⟨trivial, hopen⟩
  | append _ _ ih ih' =>
    obtain ⟨hfirst, hmid⟩ := ih hopen
    obtain ⟨hsecond, hend⟩ := ih' hmid
    rw [throughout_append, Progress.replay_append]
    exact ⟨⟨hfirst, hsecond⟩, hend⟩
  | act p c =>
    refine ⟨⟨hopen.timely fun other hother => ?_, trivial⟩, hopen.quiet rfl rfl⟩
    cases hother
    rfl
  | define => exact ⟨⟨hopen.timely nofun, trivial⟩, hopen.quiet rfl rfl⟩
  | @resource p c x => exact ⟨⟨hopen.timely nofun, trivial⟩, hopen.resource x⟩
  | expand definition name v inner ih =>
    obtain ⟨earlier, hnew, hback⟩ := hopen.child (r := .ofDefinition definition name _) rfl
    obtain ⟨hinner, hend⟩ := ih hnew
    exact ⟨⟨hopen.timely nofun, hinner⟩, hback _ inner.extendsAt_replay hend⟩
  | @unread p c path new acyclic =>
    have hentered := hopen.quiet (e := .enter path) rfl rfl
    exact ⟨⟨hopen.timely nofun, hentered.timely nofun, trivial⟩, hentered.quiet rfl rfl⟩
  | @included p c es path new acyclic inner ih =>
    have hentered := hopen.quiet (e := .enter path) rfl rfl
    obtain ⟨earlier, hnew, hback⟩ := hentered.child (r := .ofFile path) rfl
    obtain ⟨hinner, hlast⟩ := ih hnew
    have hend := hback _ inner.extendsAt_replay hlast
    rw [throughout_append, Progress.replay_append]
    exact ⟨⟨⟨hopen.timely nofun, hentered.timely nofun, hinner⟩, hend.timely nofun, trivial⟩,
      hend.quiet rfl rfl⟩

/-- After a computation for the open recipe, resources are applied in the order in which they
were added. -/
theorem Run.Follows.resources {α : Type} {x : Run α} {c : Context} {s : Evaluation}
    {before : List Resource} (hx : x.Follows c s) (hopen : s.OpenAt c.recipe before) :
    (x.outcome s).2.graph.resources = (x.outcome s).2.added := by
  obtain ⟨es, hes, hend⟩ := hx
  rw [hend]
  exact (hes.openAt hopen).2.arranged.chronological.resources

/-- At every moment of a load the order is chronological, and so it is at its end. -/
theorem Loading.arranged {p : Progress} {scope : Scope} {es : List Event}
    (h : Loading p scope es) (hp : p.Arranged) :
    Throughout Progress.Timely p es ∧ (p.replay es).Arranged := by
  cases h with
  | refused => exact ⟨trivial, hp⟩
  | cyclic path _ => exact ⟨⟨hp.timely nofun, trivial⟩, (hp.root rfl).arranged⟩
  | @evaluated path es _ inner =>
    have hroot := hp.root (r := .ofFile path) rfl
    obtain ⟨hinner, hend⟩ := inner.openAt (hroot.quiet (e := .enter path) rfl rfl)
    rw [throughout_append, Progress.replay_append]
    exact ⟨⟨⟨hp.timely nofun, hroot.timely nofun, hinner⟩, hend.timely nofun, trivial⟩,
      (hend.quiet (e := .leave) rfl rfl).arranged⟩

namespace Session

/-- Between two operations the graph is arranged, and the recipe that steps are taken on is
the open one. -/
structure Arranged (s : Session) : Prop where
  state : s.state.Arranged
  context : ∀ c, s.context = some c → ∃ before, s.state.OpenAt c.recipe before

/-- Before anything is evaluated, there is nothing to order. -/
theorem arranged_start : start.Arranged := ⟨.nil 0, by simp [start]⟩

/-- An operation keeps the graph arranged, and what it performs, it performs for the open
recipe. -/
theorem Arranged.timely {host : Host} {depth : Nat} {s s' : Session} (h : s.Arranged)
    (hn : Next host depth s s') :
    s'.Arranged ∧ ∃ es, s'.state.toProgress = s.state.toProgress.replay es ∧
      Throughout Progress.Timely s.state.toProgress es := by
  cases hn with
  | load path scope =>
    obtain ⟨es, hes, hend⟩ := Evaluation.load_follows host depth path scope s.state
    obtain ⟨hmoments, harranged⟩ := hes.arranged h.state
    refine ⟨⟨?_, fun c hc => by cases hc⟩, es, hend, hmoments⟩
    rw [load, hend]
    exact harranged
  | root path scope =>
    have hroot := h.state.root (r := .ofFile path) rfl
    refine ⟨⟨hroot.arranged, ?_⟩, [.root (.ofFile path)], rfl, h.state.timely nofun, trivial⟩
    intro c hc
    cases hc
    exact ⟨_, hroot⟩
  | step c st hc =>
    obtain ⟨es, hes, hend⟩ := c.step_build_follows host depth st s.state
    obtain ⟨before, hopen⟩ := h.context c hc
    obtain ⟨hmoments, hopen'⟩ := hes.openAt hopen
    have hopen'' : Progress.OpenAt (s.step host depth c st).state.toProgress c.recipe before := by
      rw [step, hend]
      exact hopen'
    refine ⟨⟨hopen''.arranged, ?_⟩, es, hend, hmoments⟩
    intro c' hc'
    have hsame : c = c' := Option.some.inj (hc.symm.trans hc')
    exact ⟨before, hsame ▸ hopen''⟩

/-- An operation keeps the graph arranged, and at every moment of it the order is
chronological. -/
theorem Arranged.next {host : Host} {depth : Nat} {s s' : Session} (h : s.Arranged)
    (hn : Next host depth s s') :
    s'.Arranged ∧ ∃ es, s'.state.toProgress = s.state.toProgress.replay es ∧
      Throughout (fun p _ => p.Chronological) s.state.toProgress es := by
  obtain ⟨hs', es, hend, hmoments⟩ := h.timely hn
  exact ⟨hs', es, hend, hmoments.imp fun _ _ hmoment => hmoment.arranged.chronological⟩

/-- In every reachable session, the order of the walk is that of the journal. -/
theorem Reachable.arranged {s : Session} (h : Reachable s) : s.Arranged := by
  induction h with
  | start => exact arranged_start
  | next _ hn ih => exact (ih.next hn).1

/-- Whatever an operation does and however it ends, the resources it adds come after all
that were there, in the order in which it adds them, and the recipes are walked through in
the order in which they were begun. This holds at every moment of the operation, too. -/
theorem Reachable.apply_order {host : Host} {depth : Nat} {s s' : Session} (hs : Reachable s)
    (hn : Next host depth s s') :
    ∃ es, s'.state.toProgress = s.state.toProgress.replay es ∧
      s'.state.graph.resources = s.state.graph.resources ++ es.filterMap Event.resource? ∧
      s'.state.graph.Walk s'.state.graph.roots (List.range s'.state.graph.size) ∧
      Throughout (fun p _ => p.Chronological) s.state.toProgress es := by
  obtain ⟨hs', es, hend, hmoments⟩ := hs.arranged.next hn
  have hbefore := hs.arranged.state.chronological
  have hafter := hs'.state.chronological
  refine ⟨es, hend, ?_, hafter.recipes, hmoments⟩
  rw [hafter.resources, hend, Progress.added_replay, hbefore.resources]

/-- A machine without files. -/
def bareHost : Host := .ofFacts [] none ⟨"/"⟩

/-- A session with a definition that declares a package, then includes a file that is not
there, and would declare a service after it. -/
def halfway : Session :=
  (start.root ⟨"/r.yml"⟩ {}).step bareHost 1 ⟨0, {}⟩
    (.define "web" {}
      (.steps [.resource .package "nginx" none, .includeRecipe "a.yml",
        .resource .service "nginx" none]))

/-- The session after an invocation of the definition, which fails halfway. -/
def afterHalfway : Session := halfway.step bareHost 1 ⟨0, {}⟩ (.declare "web" "nginx" none)

set_option maxRecDepth 8192 in
/-- An invocation that fails halfway keeps what it has declared. -/
theorem apply_order_halfway :
    (∃ es, afterHalfway.state.toProgress = halfway.state.toProgress.replay es ∧
      afterHalfway.state.graph.resources =
        halfway.state.graph.resources ++ es.filterMap Event.resource? ∧
      afterHalfway.state.graph.Walk afterHalfway.state.graph.roots
        (List.range afterHalfway.state.graph.size) ∧
      Throughout (fun p _ => p.Chronological) halfway.state.toProgress es) ∧
    halfway.state.graph.resources = [] ∧
    afterHalfway.state.graph.resources.map (·.kind) = [.package] := by
  have hbegins : Next bareHost 1 start (start.root ⟨"/r.yml"⟩ {}) := .root _ _
  have hhalfway : Reachable halfway := .next (.next .start hbegins) (.step ⟨0, {}⟩ _ rfl)
  exact ⟨hhalfway.apply_order (.step ⟨0, {}⟩ _ rfl), rfl, rfl⟩

end Session

end Provision
