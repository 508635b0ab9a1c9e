import Mathlib.Logic.Relation
import Provision.Graph.Position
import Provision.Proofs.Deliveries

/-!
# Targets of notifications over time

A recipe is only ever added to at its end, and a notification is meant for the first resource
of its own recipe that it describes. So what a notification has found once it finds at the
same place for good, whatever is evaluated later on and however that ends. A notification that
has found nothing may find something later, but only what was added to its own recipe since.
-/

namespace Provision

/-! ### What is added to a recipe -/

namespace Progress

variable {p : Progress} {id : Nat} {r : Recipe}

/-- An event leaves a recipe as it is or gives it one more child. If that is a resource, then
the event is its declaration. -/
theorem recipe?_after (h : p.graph.recipe? id = some r) (e : Event) :
    (p.after e).graph.recipe? id = some r ∨
      ∃ c, (p.after e).graph.recipe? id = some (r.push c) ∧
        ∀ x, c = .resource x → e = .resource id x := by
  have hid : id < p.graph.size := Graph.recipe?_lt h
  cases e with
  | root r' =>
    refine .inl ?_
    change (p.graph.addRoot r').recipe? id = some r
    rw [Graph.recipe?_addRoot, if_neg (by omega), h]
  | child parent r' =>
    have hbegun : ({ p.graph with recipes := p.graph.recipes.push r' } : Graph).recipe? id =
        some r := (Array.getElem?_push_lt hid).trans ((Array.getElem?_eq_getElem hid).symm.trans h)
    change (p.graph.addChild parent r').recipe? id = some r ∨
      ∃ c, (p.graph.addChild parent r').recipe? id = some (r.push c) ∧ _
    rw [Graph.addChild, Graph.recipe?_append, hbegun]
    split
    · refine .inr ⟨_, rfl, fun x hx => ?_⟩
      cases hx
    · exact .inl rfl
  | resource parent x =>
    change (p.graph.addResource parent x).recipe? id = some r ∨
      ∃ c, (p.graph.addResource parent x).recipe? id = some (r.push c) ∧ _
    rw [Graph.recipe?_addResource, h]
    split
    · rename_i hparent
      refine .inr ⟨_, rfl, fun y hy => ?_⟩
      cases hy
      rw [hparent]
    · exact .inl rfl
  | define d => exact .inl h
  | enter path => exact .inl h
  | leave => exact .inl h
  | act other => exact .inl h

/-- A resource behind the children that a recipe had was declared for it since then. -/
theorem resource_of_replay {r' : Recipe} {es : List Event} {i : Nat} {x : Resource}
    (h : p.graph.recipe? id = some r) (h' : (p.replay es).graph.recipe? id = some r')
    (hi : r.children.length ≤ i) (hx : r'.children[i]? = some (.resource x)) :
    .resource id x ∈ es := by
  induction es generalizing p r with
  | nil =>
    cases h.symm.trans h'
    rw [List.getElem?_eq_none hi] at hx
    cases hx
  | cons e es ih =>
    rcases recipe?_after h e with hsame | ⟨c, hpush, hc⟩
    · exact List.mem_cons_of_mem _ (ih hsame h' hi)
    · by_cases hnew : r.children.length = i
      · -- The child was added by this event, and it has kept its place since.
        obtain ⟨r'', hr'', hgrown⟩ := (grows_replay (p.after e) es).recipes id _ hpush
        cases hr''.symm.trans h'
        obtain ⟨rest, hrest⟩ := hgrown.children
        rw [← hrest, Recipe.push_children, ← hnew] at hx
        have hlast : c = .resource x := by simpa using hx
        rw [hc x hlast]
        exact List.mem_cons_self
      · have hlater : (r.push c).children.length ≤ i := by
          rw [Recipe.push_children, List.length_append, List.length_singleton]
          omega
        exact List.mem_cons_of_mem _ (ih hpush h' hlater)

end Progress

/-! ### The place of a target -/

/-- A child is a resource that a descriptor names. -/
def Child.isNamed (d : Descriptor) : Child → Bool
  | .resource x => decide (d.Names x)
  | .recipe _ => false

namespace Notification

/-- A notification is resolved to a resource, which stands at a place among the children of
its recipe. -/
structure ResolvesAt (n : Notification) (g : Graph) (i : Nat) (x : Resource) : Prop where
  found : n.resource? g = .ok x
  position : n.position? g = some ⟨n.recipe, i⟩
  child : ∃ r, g.recipe? n.recipe = some r ∧ r.children[i]? = some (.resource x)

variable {n : Notification} {g g' : Graph} {d : Descriptor} {r : Recipe} {i : Nat} {x : Resource}

/-- The position of a target is that of the first child with its kind and name. -/
theorem position?_of_describes (h : n.Describes d) (hr : g.recipe? n.recipe = some r) :
    n.position? g = (r.children.findIdx? (Child.isNamed d)).map (⟨n.recipe, ·⟩) := by
  have hnamed : (fun c : Child =>
      match c with
      | .resource x => x.kind.keyword == d.type && x.name == d.name
      | .recipe _ => false) = Child.isNamed d := by
    funext c
    cases c with
    | recipe id => rfl
    | resource x =>
      rw [Bool.eq_iff_iff, Child.isNamed, decide_eq_true_eq, Bool.and_eq_true, beq_iff_eq,
        beq_iff_eq]
      rfl
  rw [position?, Descriptor.ofText?_eq_some_iff.mpr h, hr, ← hnamed, Option.map_eq_bind]
  rfl

/-- The first resource that a descriptor names is in the first child that it names. -/
theorem find?_resources (d : Descriptor) (r : Recipe) :
    r.resources.find? (fun x => decide (d.Names x)) =
      (r.children.find? (Child.isNamed d)).bind fun
        | .resource x => some x
        | .recipe _ => none := by
  rw [Recipe.resources, List.find?_filterMap]
  congr 2
  funext c
  cases c <;> rfl

/-- A notification is resolved to the first child that its descriptor names. -/
theorem resolvesAt_iff (hr : g.recipe? n.recipe = some r) :
    n.ResolvesAt g i x ↔ ∃ d, n.Describes d ∧ r.children[i]? = some (.resource x) ∧
      r.children.findIdx? (Child.isNamed d) = some i := by
  constructor
  · rintro ⟨hfound, hposition, r', hr', hchild⟩
    cases hr.symm.trans hr'
    obtain ⟨d, hdescribes, -⟩ := means_of_resource? hr hfound
    refine ⟨d, hdescribes, hchild, ?_⟩
    rw [position?_of_describes hdescribes hr, Option.map_eq_some_iff] at hposition
    obtain ⟨j, hj, hij⟩ := hposition
    cases hij
    exact hj
  · rintro ⟨d, hdescribes, hchild, hfirst⟩
    refine ⟨?_, ?_, r, hr, hchild⟩
    · obtain ⟨hlt, hnamed, hbefore⟩ := List.findIdx?_eq_some_iff_getElem.mp hfirst
      have hat : r.children[i] = .resource x := List.getElem?_eq_some_iff.mp hchild |>.choose_spec
      have hfind : r.children.find? (Child.isNamed d) = some (.resource x) :=
        List.find?_eq_some_iff_getElem.mpr
          ⟨hat ▸ hnamed, i, hlt, hat, fun j hj => by simpa using hbefore j hj⟩
      rw [resource?_of_describes hdescribes, hr, Option.bind_some, find?_resources, hfind]
      rfl
    · rw [position?_of_describes hdescribes hr, hfirst]
      rfl

/-- What is found for a notification stands at some place in its recipe. -/
theorem exists_resolvesAt (h : n.resource? g = .ok x) : ∃ i, n.ResolvesAt g i x := by
  obtain ⟨r, d, hr, hdescribes, -⟩ := (n.resource?_isOk_iff g).mp ⟨x, h⟩
  rw [resource?_of_describes hdescribes, hr, Option.bind_some, find?_resources] at h
  cases hfind : r.children.find? (Child.isNamed d) with
  | none =>
    rw [hfind] at h
    cases h
  | some c =>
    rw [hfind] at h
    cases c with
    | recipe id => cases h
    | resource y =>
      cases h
      obtain ⟨hnamed, i, hlt, hat, hbefore⟩ := List.find?_eq_some_iff_getElem.mp hfind
      refine ⟨i, (resolvesAt_iff hr).mpr ⟨d, hdescribes, ?_, ?_⟩⟩
      · rw [List.getElem?_eq_getElem hlt, hat]
      · exact List.findIdx?_eq_some_iff_getElem.mpr
          ⟨hlt, hat.symm ▸ hnamed, fun j hj => by simpa using hbefore j hj⟩

/-- What is added to a graph does not take the place of a target. -/
theorem ResolvesAt.grows (h : n.ResolvesAt g i x) (hgrows : g.Grows g') :
    n.ResolvesAt g' i x := by
  obtain ⟨r, hr, hchild⟩ := h.child
  obtain ⟨r', hr', hgrown⟩ := hgrows.recipes n.recipe r hr
  obtain ⟨d, hdescribes, -, hfirst⟩ := (resolvesAt_iff hr).mp h
  refine (resolvesAt_iff hr').mpr ⟨d, hdescribes, ?_, hgrown.children.findIdx?_eq_some hfirst⟩
  obtain ⟨rest, hrest⟩ := hgrown.children
  rw [← hrest, List.getElem?_append_left (List.getElem?_eq_some_iff.mp hchild).choose, hchild]

/-- A descriptor that is not well-formed is malformed in any graph. -/
theorem malformed_of_malformed {descriptor : String}
    (h : n.resource? g = .error (.malformed descriptor)) (g' : Graph) :
    n.resource? g' = .error (.malformed descriptor) := by
  cases hd : Descriptor.ofText? n.target with
  | none =>
    rw [resource?, hd] at h ⊢
    exact h
  | some d =>
    rw [resource?_of_describes (Descriptor.ofText?_eq_some_iff.mp hd)] at h
    split at h
    · cases h
    · cases h

/-- If nothing was found, then none of the children is named. -/
theorem not_isNamed_of_notFound {descriptor : String} (hr : g.recipe? n.recipe = some r)
    (hd : n.Describes d) (h : n.resource? g = .error (.notFound descriptor)) :
    ∀ c ∈ r.children, Child.isNamed d c = false := by
  intro c hc
  by_contra hnamed
  cases c with
  | recipe id => exact hnamed rfl
  | resource y =>
    have hresolves : n.Resolves g := by
      refine ⟨r, d, hr, hd, y, List.mem_filterMap.mpr ⟨_, hc, rfl⟩, ?_⟩
      exact of_decide_eq_true (Bool.not_eq_false _ ▸ hnamed)
    obtain ⟨z, hz⟩ := (n.resource?_isOk_iff g).mpr hresolves
    cases h.symm.trans hz

/-- What becomes of a notification while some events happen. -/
structure Steady (n : Notification) (g g' : Graph) (es : List Event) : Prop where
  /-- Either it has a target, which stands at some place, or there are two failures. -/
  outcomes : (∃ i x, n.ResolvesAt g i x) ∨ n.resource? g = .error (.malformed n.target) ∨
    n.resource? g = .error (.notFound n.target)
  /-- A target stays the same resource at the same place. -/
  resolved : ∀ i x, n.ResolvesAt g i x → n.ResolvesAt g' i x
  /-- A malformed descriptor stays malformed. -/
  malformed : n.resource? g = .error (.malformed n.target) →
    n.resource? g' = .error (.malformed n.target)
  /-- If there was no target, then there is none still, or it is a resource that was added to
  the recipe of the notification itself, behind all children that it had. -/
  notFound : n.resource? g = .error (.notFound n.target) →
    n.resource? g' = .error (.notFound n.target) ∨
      ∃ i x, n.ResolvesAt g' i x ∧ .resource n.recipe x ∈ es ∧
        ∀ r, g.recipe? n.recipe = some r → r.children.length ≤ i

/-- Whatever happens, a notification of a recipe that is there is steady. -/
theorem steady_replay {p : Progress} (hn : n.recipe < p.graph.size) (es : List Event) :
    n.Steady p.graph (p.replay es).graph es := by
  have hgrows := p.grows_replay es
  refine ⟨?_, fun i x h => h.grows hgrows, fun h => malformed_of_malformed h _, fun h => ?_⟩
  · cases hfound : n.resource? p.graph with
    | ok x =>
      obtain ⟨i, hi⟩ := exists_resolvesAt hfound
      exact .inl ⟨i, x, hi⟩
    | error f =>
      rcases resource?_error hfound with ⟨-, rfl⟩ | ⟨-, rfl⟩
      · exact .inr (.inr rfl)
      · exact .inr (.inl rfl)
  · obtain ⟨r, hr⟩ := Graph.recipe?_of_lt hn
    obtain ⟨r', hr', hgrown⟩ := hgrows.recipes _ r hr
    obtain ⟨d, hd⟩ : ∃ d, n.Describes d := by
      rcases resource?_error h with ⟨hd, -⟩ | ⟨-, hf⟩
      · exact hd
      · cases hf
    cases hfound : n.resource? (p.replay es).graph with
    | error f =>
      rcases resource?_error hfound with ⟨-, rfl⟩ | ⟨hnone, -⟩
      · exact .inl rfl
      · exact absurd ⟨d, hd⟩ hnone
    | ok x =>
      obtain ⟨i, hi⟩ := exists_resolvesAt hfound
      obtain ⟨d', hd', hchild, hfirst⟩ := (resolvesAt_iff hr').mp hi
      -- No child that was there before is named, so the target is behind all of them.
      have hbehind : r.children.length ≤ i := by
        by_contra hlt
        have hlt' : i < r.children.length := Nat.lt_of_not_le hlt
        obtain ⟨rest, hrest⟩ := hgrown.children
        rw [← hrest, List.getElem?_append_left hlt'] at hchild
        have hmem : .resource x ∈ r.children := List.mem_of_getElem? hchild
        have hnone := not_isNamed_of_notFound hr hd' h _ hmem
        obtain ⟨hlt'', hnamed, -⟩ := List.findIdx?_eq_some_iff_getElem.mp hfirst
        simp only [← hrest, List.getElem_append_left hlt'] at hnamed
        rw [(List.getElem?_eq_some_iff.mp hchild).choose_spec, hnone] at hnamed
        cases hnamed
      refine .inr ⟨i, x, hi, Progress.resource_of_replay hr hr' hbehind hchild, fun o ho => ?_⟩
      cases hr.symm.trans ho
      exact hbehind

end Notification

namespace Session

/-- One session comes from another by any number of operations, whether or not they fail. -/
def Leads : Session → Session → Prop :=
  Relation.ReflTransGen fun s s' => ∃ host depth, Next host depth s s'

/-- Between two sessions, one of which leads to the other, there are only events. -/
theorem Leads.replays {s s' : Session} (h : Leads s s') :
    ∃ es, s'.state.toProgress = s.state.toProgress.replay es := by
  induction h with
  | refl => exact ⟨[], rfl⟩
  | tail _ hnext ih =>
    obtain ⟨es, hes⟩ := ih
    obtain ⟨host, depth, hnext⟩ := hnext
    obtain ⟨es', hes', -⟩ := hnext.happens
    exact ⟨es ++ es', by rw [hes', hes, Progress.replay_append]⟩

/-- Whatever operations follow and however they end, a notification of the graph keeps the
target that it has, and a malformed descriptor stays malformed. A notification without a target
gets one only from what these operations add to its own recipe. -/
theorem Reachable.targets_stable {s s' : Session} (hs : Reachable s) (hlater : Leads s s') :
    ∃ es, s'.state.toProgress = s.state.toProgress.replay es ∧
      ∀ id r, s.state.graph.recipe? id = some r → ∀ x ∈ r.resources, ∀ n ∈ x.notifications,
        n.recipe = id ∧ n.Steady s.state.graph s'.state.graph es := by
  obtain ⟨es, hes⟩ := hlater.replays
  refine ⟨es, hes, fun id r hr x hx n hn => ?_⟩
  have howner : n.recipe = id := (hs.owned.resources id r hr x hx).notifications n hn
  rw [hes]
  exact ⟨howner, Notification.steady_replay (howner ▸ Graph.recipe?_lt hr) es⟩

/-- A session with a file that notifies itself and a service that is not declared yet. -/
def awaitingService : Session :=
  (start.root ⟨"/r.yml"⟩ {}).step bareHost 1 ⟨0, {}⟩
    (.declare "file" "/etc/x"
      (some ⟨{}, [⟨"edit", "file[/etc/x]", "delay"⟩, ⟨"restart", "service[nginx]", "delay"⟩]⟩))

/-- The session after the service is declared, by an operation that fails after that. -/
def serviceDeclared : Session :=
  awaitingService.step bareHost 1 ⟨0, {}⟩
    (.evaluate [.declare "file" "/etc/x" none, .declare "service" "nginx" none,
      .includeRecipe "a.yml"])

set_option maxRecDepth 8192 in
/-- The file is notified at the place where it was, and the service at its new one. -/
theorem targets_stable_declared :
    (∃ es, serviceDeclared.state.toProgress = awaitingService.state.toProgress.replay es ∧
      ∀ id r, awaitingService.state.graph.recipe? id = some r →
        ∀ x ∈ r.resources, ∀ n ∈ x.notifications,
          n.recipe = id ∧ n.Steady awaitingService.state.graph serviceDeclared.state.graph es) ∧
    (awaitingService.state.graph.resources.flatMap (·.notifications)).map
      (fun n =>
        (n.position? awaitingService.state.graph, n.position? serviceDeclared.state.graph)) =
        [(some ⟨0, 0⟩, some ⟨0, 0⟩), (none, some ⟨0, 2⟩)] := by
  have hbegins : Next bareHost 1 start (start.root ⟨"/r.yml"⟩ {}) := .root _ _
  have hawaiting : Reachable awaitingService := .next (.next .start hbegins) (.step ⟨0, {}⟩ _ rfl)
  have hdeclares : Next bareHost 1 awaitingService serviceDeclared := .step ⟨0, {}⟩ _ rfl
  exact ⟨hawaiting.targets_stable (.single ⟨_, _, hdeclares⟩), by decide +kernel⟩

end Session

end Provision
