import Provision.Proofs.ApplyOrder
import Provision.Proofs.Evaluation.Nesting

/-!
# What belongs to whom

Which recipe a resource belongs to is said three times: by the list that it stands in, by its
own number of a recipe, and by the numbers that its notifications have. An expanded definition
has the path of the recipe that invokes it, through any depth of invocations, so the directory
that a resource carries is that of the file it is declared for, and not of the file that has
the definition. All this is kept by every event of a course.
-/

namespace Provision

/-- The directory is kept for remote files and templates. -/
theorem Kind.wantsDirectory_iff (k : Kind) :
    k.wantsDirectory = true ↔ k = .remoteFile ∨ k = .template := by
  cases k <;> decide

/-- The node is kept for templates. -/
theorem Kind.wantsNode_iff (k : Kind) : k.wantsNode = true ↔ k = .template := by
  cases k <;> decide

/-- A resource as it stands in a recipe of a given number and path. -/
structure Resource.BelongsTo (x : Resource) (id : Nat) (path : Path) : Prop where
  recipe : x.recipe = id
  notifications : ∀ n ∈ x.notifications, n.recipe = id
  directory : x.directory =
    if x.kind = .remoteFile ∨ x.kind = .template then some path.directory else none
  node : x.node.isSome = true → x.kind = .template

/-- A resource stands in the recipe that it is declared in. -/
theorem Resource.DeclaredIn.belongsTo {x : Resource} {c : Context} {r : Recipe}
    (h : x.DeclaredIn c r) : x.BelongsTo c.recipe r.path := by
  refine ⟨h.recipe, h.notifications, ?_, fun hnode => ?_⟩
  · rw [h.directory]
    simp only [Kind.wantsDirectory_iff]
    rfl
  · rw [h.node, Bool.and_eq_true] at hnode
    exact (Kind.wantsNode_iff _).mp hnode.1

/-- A template carries the description of the node exactly if the scope has one. -/
theorem Resource.DeclaredIn.node_iff {x : Resource} {c : Context} {r : Recipe}
    (h : x.DeclaredIn c r) :
    x.node.isSome = true ↔ x.kind = .template ∧ c.scope.contains "node" = true := by
  rw [h.node, Bool.and_eq_true, Kind.wantsNode_iff]

namespace Graph

/-! ### The invariant -/

/-- In a graph everything belongs to the recipe that it is found in. -/
structure Owned (g : Graph) : Prop where
  forest : g.Forest
  /-- There is a line down to every recipe. -/
  line : ∀ id < g.size, ∃ root above, g.Line root above id
  /-- A resource belongs to the recipe that it stands in. -/
  resources : ∀ id r, g.recipe? id = some r → ∀ x ∈ r.resources, x.BelongsTo id r.path
  /-- No definition is expanded but in another recipe. -/
  roots : ∀ root ∈ g.roots, ∀ r, g.recipe? root = some r → r.isFile = true
  /-- An expanded definition has the path of the recipe that it is nested in. -/
  inherited : ∀ parent id, id ∈ g.nested parent → ∀ o r, g.recipe? parent = some o →
    g.recipe? id = some r → r.isFile = false → r.path = o.path

/-- In a graph without recipes there is nothing that would not belong. -/
theorem owned_empty : empty.Owned := by
  refine ⟨forest_empty, ?_, ?_, nofun, ?_⟩ <;> simp [empty, size, recipe?, nested]

namespace Owned

variable {g : Graph} (h : g.Owned)

include h

/-- The path of a recipe is that of the last file on the line down to it. -/
theorem nearest {root id : Nat} {above : List Nat} (hline : g.Line root above id) {r : Recipe}
    (hr : g.recipe? id = some r) : (g.files (above ++ [id])).getLast? = some r.path := by
  have hfile {id : Nat} {r : Recipe} (hr : g.recipe? id = some r) :
      g.files [id] = if r.isFile then [r.path] else [] := by
    rw [files, List.filterMap_cons, file?, hr, Option.bind_some, Recipe.file?]
    cases r.isFile <;> rfl
  induction hline generalizing r with
  | root hroot =>
    rw [List.nil_append, hfile hr, h.roots _ hroot r hr]
    rfl
  | @nested above parent id hline hid ih =>
    obtain ⟨o, ho⟩ := recipe?_of_lt (hline.id_lt h.forest)
    rw [files_append, hfile hr]
    cases hisFile : r.isFile with
    | true =>
      rw [if_pos rfl]
      exact List.getLast?_concat
    | false =>
      rw [if_neg Bool.false_ne_true, List.append_nil, ih ho, h.inherited parent id hid o r ho hr
        hisFile]

/-- What a graph has to be given for everything to stay with its owner. The recipes that were
there before keep their paths, so nothing has to be said of them again. -/
theorem extend {g' : Graph} (hforest : g'.Forest) (hgrows : g.Grows g')
    (hline : ∀ id, g.size ≤ id → id < g'.size → ∃ root above, g'.Line root above id)
    (hresources : ∀ id r', g'.recipe? id = some r' → ∀ x ∈ r'.resources,
      x.BelongsTo id r'.path ∨ ∃ r, g.recipe? id = some r ∧ x ∈ r.resources)
    (hroots : ∀ root ∈ g'.roots, root ∈ g.roots ∨
      ∀ r', g'.recipe? root = some r' → r'.isFile = true)
    (hinherited : ∀ parent, ∀ id ∈ g'.nested parent, id ∈ g.nested parent ∨
      ∀ o r, g'.recipe? parent = some o → g'.recipe? id = some r → r.isFile = false →
        r.path = o.path) :
    g'.Owned := by
  -- What is known of a recipe that was there before.
  have hold {id : Nat} {r' : Recipe} (hid : id < g.size) (hr' : g'.recipe? id = some r') :
      ∃ r, g.recipe? id = some r ∧ r.Grows r' := by
    obtain ⟨r, hr⟩ := recipe?_of_lt hid
    obtain ⟨r'', hr'', hgrown⟩ := hgrows.recipes id r hr
    cases hr''.symm.trans hr'
    exact ⟨r, hr, hgrown⟩
  refine ⟨hforest, fun id hid => ?_, fun id r' hr' x hx => ?_, fun root hroot r' hr' => ?_,
    fun parent id hid o' r' ho' hr' hisFile => ?_⟩
  · by_cases hnew : g.size ≤ id
    · exact hline id hnew hid
    · obtain ⟨root, above, hline⟩ := h.line id (Nat.lt_of_not_le hnew)
      exact ⟨root, above, hline.grows hgrows⟩
  · rcases hresources id r' hr' x hx with hx | ⟨r, hr, hx⟩
    · exact hx
    · obtain ⟨q, hq, hgrown⟩ := hold (recipe?_lt hr) hr'
      cases hr.symm.trans hq
      rw [hgrown.path]
      exact h.resources id r hr x hx
  · rcases hroots root hroot with hroot | hfile
    · obtain ⟨r, hr, hgrown⟩ := hold (h.forest.root_lt root hroot) hr'
      rw [hgrown.isFile]
      exact h.roots root hroot r hr
    · exact hfile r' hr'
  · rcases hinherited parent id hid with hid | hpath
    · have hparent : parent < g.size := by
        refine Nat.lt_of_not_le fun hle => ?_
        rw [nested_of_le hle] at hid
        cases hid
      obtain ⟨o, ho, hgrown⟩ := hold hparent ho'
      obtain ⟨r, hr, hgrown'⟩ := hold (h.forest.nested_lt parent id hid) hr'
      rw [hgrown'.isFile] at hisFile
      rw [hgrown.path, hgrown'.path]
      exact h.inherited parent id hid o r ho hr hisFile
    · exact hpath o' r' ho' hr' hisFile

/-- A resource may be added that belongs to the recipe it is added to. -/
theorem addResource {id : Nat} {r : Recipe} (hr : g.recipe? id = some r) {x : Resource}
    (hx : x.BelongsTo id r.path) : (g.addResource id x).Owned := by
  refine h.extend (h.forest.addResource id x) (g.grows_addResource id x)
    (fun other hle hlt => ?_) (fun other r' hr' y hy => ?_) (fun _ => .inl)
    fun _ _ hid => .inl (nested_addResource g id x ▸ hid)
  · rw [size_addResource] at hlt
    omega
  · rw [recipe?_addResource] at hr'
    split at hr'
    · rename_i hother
      subst hother
      rw [hr] at hr'
      cases hr'
      rw [Recipe.resources_push_resource, List.mem_append, List.mem_singleton] at hy
      rcases hy with hy | rfl
      · exact .inr ⟨r, hr, hy⟩
      · exact .inl hx
    · exact .inr ⟨r', hr', hy⟩

/-- A root for a file may be begun without children. -/
theorem addRoot {r : Recipe} (hempty : r.children = []) (hfile : r.isFile = true) :
    (g.addRoot r).Owned := by
  have hnested : r.nested = [] := Recipe.nested_of_children hempty
  refine h.extend (h.forest.addRoot hnested) (g.grows_addRoot r) (fun id hle hlt => ?_)
    (fun id r' hr' x hx => ?_) (fun root hroot => ?_)
    fun _ _ hid => .inl (nested_addRoot g hnested ▸ hid)
  · rw [size_addRoot] at hlt
    obtain rfl : id = g.size := by omega
    exact ⟨g.size, [], .root (g.mem_roots_addRoot r)⟩
  · rw [recipe?_addRoot] at hr'
    split at hr'
    · cases hr'
      rw [Recipe.resources, hempty] at hx
      cases hx
    · exact .inr ⟨r', hr', hx⟩
  · rw [roots_addRoot, List.mem_append, List.mem_singleton] at hroot
    refine hroot.imp_right fun hnew r' hr' => ?_
    rw [recipe?_addRoot, if_pos hnew] at hr'
    cases hr'
    exact hfile

/-- A nested recipe may be begun if it is of a file, or has the path of the other recipe. -/
theorem addChild {id : Nat} {o : Recipe} (ho : g.recipe? id = some o) {r : Recipe}
    (hempty : r.children = []) (hpath : r.isFile = false → r.path = o.path) :
    (g.addChild id r).Owned := by
  have hid : id < g.size := recipe?_lt ho
  have hnested : r.nested = [] := Recipe.nested_of_children hempty
  have hgrows := g.grows_addChild id r
  refine h.extend (h.forest.addChild hid hnested) hgrows (fun other hle hlt => ?_)
    (fun other r' hr' x hx => ?_) (fun _ => .inl) fun parent other hother => ?_
  · rw [size_addChild] at hlt
    obtain rfl : other = g.size := by omega
    obtain ⟨root, above, hline⟩ := h.line id hid
    exact ⟨root, above ++ [id], .nested (hline.grows hgrows) (mem_nested_addChild hid hnested)⟩
  · rw [recipe?_addChild hid] at hr'
    split at hr'
    · cases hr'
      rw [Recipe.resources, hempty] at hx
      cases hx
    · split at hr'
      · obtain ⟨q, hq, rfl⟩ := Option.map_eq_some_iff.mp hr'
        rw [Recipe.resources_push_recipe] at hx
        exact .inr ⟨q, hq, hx⟩
      · exact .inr ⟨r', hr', hx⟩
  · refine (mem_nested_of_addChild hid hnested hother).imp_right ?_
    rintro ⟨rfl, rfl⟩ o' r' ho' hr' hisFile
    obtain ⟨o'', ho'', hgrown⟩ := hgrows.recipes parent o ho
    cases ho''.symm.trans ho'
    rw [recipe?_addChild hid, if_pos rfl] at hr'
    cases hr'
    rw [hgrown.path]
    exact hpath hisFile

end Owned

end Graph

/-- A course for a recipe that is there keeps everything with its owner. -/
theorem Course.owned {p : Progress} {c : Context} {es : List Event} (h : Course p c es)
    (hp : p.graph.Owned) (hc : c.recipe < p.graph.size) : (p.replay es).graph.Owned := by
  induction h with
  | nil | act | define | unread => exact hp
  | append _ _ ih ih' =>
    rw [Progress.replay_append]
    exact ih' (ih hp hc) (Nat.lt_of_lt_of_le hc (Progress.grows_replay _ _).size_le)
  | resource declared => exact hp.addResource (Progress.recipe?_of_lt hc) declared.belongsTo
  | @expand p c es definition name v _ ih =>
    have hnew := hp.addChild (Progress.recipe?_of_lt hc) (r := .ofDefinition definition name
      (p.recipe c.recipe).path) rfl fun _ => rfl
    exact ih hnew (p.graph.lt_size_addChild _ _)
  | @included p c es path _ _ _ ih =>
    have hnew := hp.addChild (Progress.recipe?_of_lt hc) (r := .ofFile path) rfl nofun
    rw [Progress.replay_append]
    exact ih hnew (p.graph.lt_size_addChild _ _)

/-- The resources of a course are declared in contexts, those of nested recipes included. Their
scopes all have the description of the node, or none has. -/
theorem Course.declared {p : Progress} {c : Context} {es : List Event} (h : Course p c es) :
    ∀ x ∈ es.filterMap Event.resource?, ∃ c' r, x.DeclaredIn c' r ∧
      c'.scope.contains "node" = c.scope.contains "node" := by
  induction h with
  | nil | act | define | unread => exact List.forall_mem_nil _
  | append _ _ ih ih' =>
    rw [List.filterMap_append]
    exact List.forall_mem_append.mpr ⟨ih, ih'⟩
  | resource declared => exact List.forall_mem_singleton.mpr ⟨_, _, declared, rfl⟩
  | @expand p c es definition name v _ ih =>
    have hcontains : OrderedMap.contains (c.scope.insert "params" (.constant v)) "node" =
        c.scope.contains "node" := by
      rw [OrderedMap.contains, OrderedMap.get?_insert, if_neg (by decide), OrderedMap.contains]
    rw [← hcontains]
    exact ih
  | included _ _ _ ih =>
    rw [List.filterMap_append]
    exact List.forall_mem_append.mpr ⟨ih, List.forall_mem_nil _⟩

/-- A resource that is declared in a course carries the description of the node exactly if it
is a template and the scope of the course has one. -/
theorem Course.node_iff {p : Progress} {c : Context} {es : List Event} (h : Course p c es) :
    ∀ x ∈ es.filterMap Event.resource?,
      x.node.isSome = true ↔ x.kind = .template ∧ c.scope.contains "node" = true := by
  intro x hx
  obtain ⟨c', r, hdeclared, hscope⟩ := h.declared x hx
  rw [← hscope]
  exact hdeclared.node_iff

/-- The actions of a resource that is declared in a course are accepted by its kind. -/
theorem Course.accepted {p : Progress} {c : Context} {es : List Event} (h : Course p c es) :
    ∀ x ∈ es.filterMap Event.resource?, ∀ a ∈ x.actions, a ∈ x.kind.actions := by
  intro x hx
  obtain ⟨c', r, hdeclared, -⟩ := h.declared x hx
  exact hdeclared.actions

namespace Loading

variable {p : Progress} {scope : Scope} {es : List Event}

/-- A load keeps everything with its owner. -/
theorem owned (h : Loading p scope es) (hp : p.graph.Owned) : (p.replay es).graph.Owned := by
  cases h with
  | refused => exact hp
  | cyclic path _ => exact hp.addRoot rfl rfl
  | @evaluated path es _ inner =>
    rw [Progress.replay_append]
    exact inner.owned (hp.addRoot rfl rfl) (p.graph.lt_size_addRoot _)

/-- The resources of a load are those of a course in its scope. -/
theorem exists_course (h : Loading p scope es) : ∃ q c es', Course q c es' ∧ c.scope = scope ∧
    es.filterMap Event.resource? = es'.filterMap Event.resource? := by
  cases h with
  | refused => exact ⟨p, ⟨0, scope⟩, [], .nil _ _, rfl, rfl⟩
  | cyclic => exact ⟨p, ⟨0, scope⟩, [], .nil _ _, rfl, rfl⟩
  | evaluated _ inner =>
    refine ⟨_, _, _, inner, rfl, ?_⟩
    rw [List.filterMap_append]
    exact List.append_nil _

/-- Templates have the node that is bound in the scope of the load, and nothing else has one. -/
theorem node_iff (h : Loading p scope es) : ∀ x ∈ es.filterMap Event.resource?,
    x.node.isSome = true ↔ x.kind = .template ∧ scope.contains "node" = true := by
  obtain ⟨q, c, es', hcourse, rfl, hresources⟩ := h.exists_course
  exact hresources ▸ hcourse.node_iff

/-- The actions of the resources added by a load are accepted by their kinds. -/
theorem accepted (h : Loading p scope es) :
    ∀ x ∈ es.filterMap Event.resource?, ∀ a ∈ x.actions, a ∈ x.kind.actions := by
  obtain ⟨q, c, es', hcourse, -, hresources⟩ := h.exists_course
  exact hresources ▸ hcourse.accepted

end Loading

/-- The resources that were added between two states carry the description of the node exactly
if they are templates and a scope has one. -/
def Evaluation.Describes (scope : Scope) (s t : Evaluation) : Prop :=
  ∃ xs, t.graph.resources = s.graph.resources ++ xs ∧
    ∀ x ∈ xs, x.node.isSome = true ↔ x.kind = .template ∧ scope.contains "node" = true

/-- What is so of the resources in a journal is so of those that the apply order gains by it. -/
theorem Evaluation.describes_of_replay {scope : Scope} {s t : Evaluation} {es : List Event}
    (hs : s.Arranged) (ht : t.Arranged) (hend : t.toProgress = s.toProgress.replay es)
    (hes : ∀ x ∈ es.filterMap Event.resource?,
      x.node.isSome = true ↔ x.kind = .template ∧ scope.contains "node" = true) :
    s.Describes scope t := by
  refine ⟨es.filterMap Event.resource?, ?_, hes⟩
  rw [ht.chronological.resources, hs.chronological.resources, hend, Progress.added_replay]

namespace Session

/-- Between two operations everything is with its owner. -/
theorem Reachable.owned {s : Session} (h : Reachable s) : s.state.graph.Owned := by
  induction h with
  | start => exact Graph.owned_empty
  | @next host depth s s' hs hn ih =>
    cases hn with
    | load path scope =>
      obtain ⟨es, hes, hend⟩ := Evaluation.load_follows host depth path scope s.state
      rw [load, hend]
      exact hes.owned ih
    | root path scope => exact ih.addRoot rfl rfl
    | step c st hc =>
      obtain ⟨es, hes, hend⟩ := c.step_build_follows host depth st s.state
      rw [step, hend]
      exact hes.owned ih ((hs.sound.context c hc).lt hs.sound.state.forest)

/-- Whatever operations have been done, every resource belongs to the recipe that it stands in,
with its notifications, and every recipe has the path of the nearest file: its own, or that of
the recipe that the definition was invoked from. A resource that was added by an operation, at
any depth of nesting, carries the description of the node exactly if it is a template and the
scope of the operation has one, and so has the scope that it is declared in itself. -/
theorem Reachable.ownership {s : Session} (hs : Reachable s) :
    s.state.graph.Owned ∧
      (∀ root above id r, s.state.graph.Line root above id → s.state.graph.recipe? id = some r →
        (s.state.graph.files (above ++ [id])).getLast? = some r.path) ∧
      (∀ host depth path scope,
        s.state.Describes scope (s.load host depth path scope).state) ∧
      (∀ host depth c st, s.context = some c →
        s.state.Describes c.scope (s.step host depth c st).state) ∧
      ∀ (c : Context) (kind : Kind) (name : String) (block : Option Block) (t t' : Evaluation),
        (c.addResource kind name block).outcome t = (.ok (), t') →
          ∃ x, t'.toProgress = t.toProgress.after (.resource c.recipe x) ∧
            (x.node.isSome = true ↔ x.kind = .template ∧ c.scope.contains "node" = true) := by
  refine ⟨hs.owned, fun root above id r hline hr => hs.owned.nearest hline hr,
    fun host depth path scope => ?_, fun host depth c st hc => ?_,
    fun c kind name block t t' hdone => ?_⟩
  · obtain ⟨es, hes, hend⟩ := Evaluation.load_follows host depth path scope s.state
    have hnext : Reachable (s.load host depth path scope) := hs.next (.load path scope)
    exact Evaluation.describes_of_replay hs.arranged.state hnext.arranged.state hend hes.node_iff
  · obtain ⟨es, hes, hend⟩ := c.step_build_follows host depth st s.state
    have hnext : Reachable (s.step host depth c st) := hs.next (.step c st hc)
    exact Evaluation.describes_of_replay hs.arranged.state hnext.arranged.state hend hes.node_iff
  · rcases c.outcome_addResource kind name block t with
      ⟨x, u, hr, hdeclared, hu⟩ | ⟨stop, u, hr, -⟩
    · cases hr.symm.trans hdone
      exact ⟨x, hu, hdeclared.node_iff⟩
    · cases hr.symm.trans hdone

/-- A session in which a recipe defines a template of a page. -/
def paged : Session :=
  (start.root ⟨"/lib/r.yml"⟩ {}).step bareHost 1 ⟨0, {}⟩
    (.define "page" {} (.statements [.declare "template" "/index" none]))

/-- A machine with a file elsewhere that invokes it. -/
def pageFile : Host := .ofFacts [(⟨"/app/a.yml"⟩, some (.file (.ok "[{page: x}]")))] none ⟨"/"⟩

/-- A scope that describes the node. -/
def described : Scope := OrderedMap.empty.insert "node" (.constant .null)

/-- The session after that file is loaded. -/
def pageLoaded : Session := paged.load pageFile 2 ⟨"/app/a.yml"⟩ described

set_option maxRecDepth 8192 in
/-- The template has the directory of the file that invokes the definition, and belongs to the
recipe that the definition is expanded in. -/
theorem ownership_elsewhere :
    (pageLoaded.state.graph.Owned ∧
      (∀ root above id r, pageLoaded.state.graph.Line root above id →
        pageLoaded.state.graph.recipe? id = some r →
        (pageLoaded.state.graph.files (above ++ [id])).getLast? = some r.path) ∧
      (∀ host depth path scope,
        pageLoaded.state.Describes scope (pageLoaded.load host depth path scope).state) ∧
      (∀ host depth c st, pageLoaded.context = some c →
        pageLoaded.state.Describes c.scope (pageLoaded.step host depth c st).state) ∧
      ∀ (c : Context) (kind : Kind) (name : String) (block : Option Block) (t t' : Evaluation),
        (c.addResource kind name block).outcome t = (.ok (), t') →
          ∃ x, t'.toProgress = t.toProgress.after (.resource c.recipe x) ∧
            (x.node.isSome = true ↔ x.kind = .template ∧ c.scope.contains "node" = true)) ∧
    pageLoaded.state.graph.resources.map (fun x => (x.recipe, x.directory, x.node.isSome)) =
      [(2, some ⟨"/app"⟩, true)] := by
  have hbegins : Next bareHost 1 start (start.root ⟨"/lib/r.yml"⟩ {}) := .root _ _
  have hpaged : Reachable paged := .next (.next .start hbegins) (.step ⟨0, {}⟩ _ rfl)
  have hloads : Next pageFile 2 paged pageLoaded := .load _ _
  exact ⟨(hpaged.next hloads).ownership, by decide +kernel⟩

end Session

end Provision
