import Provision.Proofs.Independence
import Provision.Proofs.Resolution

/-!
# Two ways to evaluate a file

A file can be loaded, and it can be included by a recipe that was begun for that purpose.
Both ways look for the file, read it and put it on the stack in their own manner, but the
file is evaluated alike. The same recipes are below it, and it is a root itself or is nested
in the root that was begun.
-/

namespace Provision

/-- The resources of a recipe keep their names under other numbers. -/
theorem Recipe.names_renumber (ν : Nat → Nat) (r : Recipe) :
    (r.renumber ν).resources.map (·.name) = r.resources.map (·.name) := by
  rw [renumber_resources, List.map_map]
  rfl

namespace Graph

/-- A graph of recipes below one file. -/
structure RootedAt (g : Graph) (path : Path) : Prop where
  roots : g.roots = [0]
  root : ∃ r, g.recipe? 0 = some r ∧ r.path = path ∧ r.isFile = true

/-- A graph with one more root, in which the roots of a later graph are nested. -/
def under (g : Graph) (path : Path) (later : Graph) : Graph :=
  let held := later.roots.map fun id => Child.recipe (id + (g.size + 1))
  { roots := g.roots ++ [g.size]
    recipes := g.recipes.push { Recipe.ofFile path with children := held } ++
      later.recipes.map (·.renumber (· + (g.size + 1))) }

/-- The graph before the file in a load: its number is known to be a root. -/
def awaiting (g : Graph) : Graph := { g with roots := g.roots ++ [g.size] }

/-- The graph before the file in an inclusion: its number is known to be nested. -/
def awaitingUnder (g : Graph) (path : Path) : Graph :=
  g.addRoot { Recipe.ofFile path with children := [.recipe (g.size + 1)] }

/-- The names of the resources of a graph, recipe by recipe. -/
def resourceNames (g : Graph) : List String :=
  g.recipes.toList.flatMap fun r => r.resources.map (·.name)

/-- A graph of one recipe that is not a root. -/
def single (r : Recipe) : Graph := ⟨[], #[r]⟩

section

variable (g : Graph)

/-- Below an awaited root, what is begun later is the root itself and what is below it. -/
theorem graft_awaiting (recipes : Array Recipe) :
    g.awaiting.graft ⟨[], recipes⟩ = g.graft ⟨[0], recipes⟩ := by
  simp [graft, awaiting, size]

/-- Below an awaited file, it is nested in the root of the inclusion. -/
theorem graft_awaitingUnder (path : Path) (recipes : Array Recipe) :
    (g.awaitingUnder path).graft ⟨[], recipes⟩ = g.under path ⟨[0], recipes⟩ := by
  simp [graft, awaitingUnder, under, addRoot, size]

/-- The root of the inclusion is there while its file is awaited. -/
theorem size_awaitingUnder (path : Path) : (g.awaitingUnder path).size = g.size + 1 :=
  g.size_addRoot _

/-- Grafting one recipe without children adds it, and no root. -/
theorem graft_single {r : Recipe} (hr : r.children = []) :
    g.graft (single r) = { g with recipes := g.recipes.push r } := by
  simp [graft, single, Recipe.renumber_of_empty _ hr]

/-- A recipe that was awaited as a root becomes one. -/
theorem awaiting_graft_single {r : Recipe} (hr : r.children = []) :
    g.awaiting.graft (single r) = g.addRoot r := graft_single g.awaiting hr

/-- A recipe that was awaited below a root is nested in it. -/
theorem awaitingUnder_graft_single (path : Path) {r : Recipe} (hr : r.children = []) :
    (g.awaitingUnder path).graft (single r) = (g.addRoot (.ofFile path)).addChild g.size r := by
  rw [graft_single _ hr]
  refine ext_recipe? rfl fun id => ?_
  have hlt : g.size < (g.addRoot (.ofFile path)).size := by simp
  have hpush : ({ g.awaitingUnder path with
        recipes := (g.awaitingUnder path).recipes.push r } : Graph).recipe? id =
      if id = (g.awaitingUnder path).size then some r else (g.awaitingUnder path).recipe? id :=
    Array.getElem?_push
  rw [hpush, recipe?_addChild hlt, awaitingUnder, recipe?_addRoot, recipe?_addRoot, size_addRoot,
    size_addRoot]
  by_cases hid : id = g.size
  · simp [hid, Recipe.push, Recipe.ofFile]
  · simp [hid, Ne.symm hid]

/-- A graph that is put after another one brings its names. -/
theorem resourceNames_graft (later : Graph) :
    (g.graft later).resourceNames = g.resourceNames ++ later.resourceNames := by
  simp [resourceNames, graft, List.flatMap_map, Recipe.names_renumber]

/-- It brings them also where its roots are nested in another root. -/
theorem resourceNames_under (path : Path) (later : Graph) :
    (g.under path later).resourceNames = g.resourceNames ++ later.resourceNames := by
  have hheld : ({ Recipe.ofFile path with
      children := later.roots.map fun id => Child.recipe (id + (g.size + 1)) } : Recipe).resources =
        [] := by
    simp [Recipe.resources]
  simp [resourceNames, under, List.flatMap_map, Recipe.names_renumber, hheld]

/-- With nothing to nest, the root of the inclusion stays empty. -/
theorem under_empty (path : Path) : g.under path empty = g.addRoot (.ofFile path) := by
  simp [under, empty, addRoot, Recipe.ofFile]

end

end Graph

namespace Evaluation

open Provision.Correspondence

/-- The state in which a file is evaluated that has nothing to do with any other recipe. -/
def alone (s : Evaluation) (path : Path) : Evaluation :=
  { s with graph := .single (.ofFile path), stack := [path] }

/-- What comes of a file that is evaluated alone is below that file. -/
theorem alone_rooted (s : Evaluation) (host : Host) (depth : Nat) (scope : Scope) (path : Path)
    (body : Body) :
    let built := ((Context.build host depth ⟨0, scope⟩ body).outcome (s.alone path)).2.graph
    built.roots = [] ∧ Graph.RootedAt ⟨[0], built.recipes⟩ path := by
  intro built
  obtain ⟨es, hes, hend⟩ := Context.build_follows host depth ⟨0, scope⟩ body (s.alone path)
  have hextends : (s.alone path).graph.ExtendsAt built 0 := by
    change (s.alone path).graph.ExtendsAt (Evaluation.toProgress _).graph 0
    rw [hend]
    exact hes.extendsAt_replay
  obtain ⟨r, hr, hgrows⟩ := hextends.current (.ofFile path) rfl
  refine ⟨hextends.roots, rfl, r, hr, hgrows.path, ?_⟩
  rw [Recipe.isFile, hgrows.origin]
  rfl

variable {s t : Evaluation}
  (hblind : s.definitions.Blind) (host : Host)
  (depth : Nat) (scope : Scope)

include hblind in
/-- A file is evaluated after other recipes as it is evaluated alone. -/
theorem build_alone (b : Graph) {path : Path} (list : List Statement)
    (hgraph : t.graph = b.graft (.single (.ofFile path)))
    (hdefinitions : t.definitions = s.definitions) (hstack : t.stack = [path])
    (hreads : t.reads = s.reads) :
    let built := (Context.build host depth ⟨0, scope⟩ (.statements list)).outcome (s.alone path)
    let done := (Context.build host depth ⟨b.size, scope⟩ (.statements list)).outcome t
    done.1 = built.1 ∧ done.2.definitions = built.2.definitions ∧ done.2.reads = built.2.reads ∧
      done.2.graph = b.graft ⟨[], built.2.graph.recipes⟩ := by
  intro built done
  let R := Correspondence.graft b Eq fun _ => True
  have htotal : R.Total := graft_total b Scope.readAlike_same
  have hstates : R.States (s.alone path) t :=
    ⟨⟨hgraph, hdefinitions, hstack⟩, hreads.symm,
      fun name d hd => bodies_of_total htotal (hblind name d hd)⟩
  have hcontexts : R.Contexts ⟨0, scope⟩ ⟨b.size, scope⟩ := ⟨(Nat.zero_add _).symm, rfl, trivial⟩
  have hlist : R.Bodies (.statements list) :=
    Statement.allTextsList_of_forall htotal.texts list
  obtain ⟨halike, hdone⟩ :=
    Context.build_graft b Scope.readAlike_same host depth hcontexts (Nat.zero_add _).symm hlist
      hstates
  obtain ⟨hroots, -⟩ := s.alone_rooted host depth scope path (.statements list)
  have hbuilt : built.2.graph = ⟨[], built.2.graph.recipes⟩ :=
    congrArg (Graph.mk · built.2.graph.recipes) hroots
  exact ⟨halike.eq.symm, hdone.progress.definitions, hdone.reads.symm,
    hdone.progress.graph.trans (congrArg b.graft hbuilt)⟩

/-- A recipe that was just begun includes any file that is there and is a recipe. -/
theorem outcome_root_include (hstack : s.stack = []) (root : Path) {target : String} {path : Path}
    (hpath : host.resolve (Recipe.ofFile root).directory target = path) :
    (do
      let id ← Evaluation.root root
      Context.includeRecipe host (Context.build host depth) ⟨id, scope⟩ target).outcome s =
      let begun := s.after (.root (.ofFile root))
      if host.present path = false then (.error (.failure (.recipeNotFound target path)), begun)
      else
        match host.recipe path with
        | .error f => (.error (.failure f), (begun.after (.enter path)).after .leave)
        | .ok list =>
          let r := (Context.build host depth ⟨s.graph.size + 1, scope⟩ (.statements list)).outcome
            ((begun.after (.enter path)).after (.child s.graph.size (.ofFile path)))
          (r.1, r.2.after .leave) := by
  let begun := s.after (.root (.ofFile root))
  have hroot : begun.recipe s.graph.size = .ofFile root := by
    change ((s.graph.addRoot (.ofFile root)).recipe? s.graph.size).getD default = _
    rw [Graph.recipe?_addRoot, if_pos rfl]
    rfl
  have hincluded : Context.included host ⟨s.graph.size, scope⟩ begun target = path := by
    rw [Context.included, hroot, hpath]
  have hacyclic : ¬begun.stack.any (·.same path) = true := by
    change ¬s.stack.any _ = true
    rw [hstack]
    exact Bool.false_ne_true
  have hsize : (begun.after (.enter path)).graph.size = s.graph.size + 1 := s.graph.size_addRoot _
  change (Evaluation.root root >>= _).outcome s = _
  rw [Run.outcome_bind, outcome_root]
  dsimp only
  rw [Context.outcome_includeRecipe, hincluded, hroot]
  by_cases hpresent : host.present path = false
  · rw [if_pos hpresent, if_pos hpresent]
  · rw [if_neg hpresent, if_neg hpresent]
    -- Nothing is nested in the recipe yet.
    change (Run.within path _).outcome begun = _
    rw [Run.outcome_within, if_neg hacyclic, Context.outcome_includeFile]
    cases host.recipe path with
    | error f => rfl
    | ok list =>
      dsimp only
      rw [hsize]

/-- A load and an inclusion in a root that was begun for it have come to the same. -/
structure Coincide (s : Evaluation) (root path : Path) (loaded : Except Stop Nat × Evaluation)
    (included : Except Stop Unit × Evaluation) : Prop where
  result : loaded.1 = included.1.map fun _ => s.graph.size
  definitions : included.2.definitions = loaded.2.definitions
  reads : included.2.reads = loaded.2.reads
  /-- The recipes that came of the file come after those that there were in the one case, and
  below the root in the other. If the file could not be read, then there are none. -/
  recipes : ∃ sub : Graph, loaded.2.graph = s.graph.graft sub ∧
    included.2.graph = s.graph.under root sub ∧
      (sub.RootedAt path ∨ sub = .empty ∧ ∃ f, included.1 = .error (.failure f))

/-- Resources of the same names come of the file. -/
theorem Coincide.resourceNames {root path : Path} {loaded : Except Stop Nat × Evaluation}
    {included : Except Stop Unit × Evaluation} (h : s.Coincide root path loaded included) :
    included.2.graph.resourceNames = loaded.2.graph.resourceNames := by
  obtain ⟨sub, hloaded, hincluded, -⟩ := h.recipes
  rw [hloaded, hincluded, Graph.resourceNames_graft, Graph.resourceNames_under]

/-- Both have failed before the file was evaluated. -/
theorem coincide_of_failure (s : Evaluation) (root path : Path) (f : Failure) {t : Evaluation}
    (hgraph : t.graph = s.graph.addRoot (.ofFile root))
    (hdefinitions : t.definitions = s.definitions) (hreads : t.reads = s.reads) :
    Coincide s root path (.error (.failure f), s) (.error (.failure f), t) :=
  ⟨rfl, hdefinitions, hreads, .empty, s.graph.graft_empty.symm,
    hgraph.trans (s.graph.under_empty root).symm, .inr ⟨rfl, f, rfl⟩⟩

include hblind in
/-- Both have evaluated the file. -/
theorem coincide_of_read (hstack : s.stack = []) (root path : Path) (list : List Statement) :
    let opened := (s.opened path).after (.enter path)
    let loaded := (Context.build host depth ⟨s.graph.size, scope⟩ (.statements list)).outcome opened
    let begun := s.after (.root (.ofFile root))
    let nested := (begun.after (.enter path)).after (.child s.graph.size (.ofFile path))
    let included :=
      (Context.build host depth ⟨s.graph.size + 1, scope⟩ (.statements list)).outcome nested
    Coincide s root path (loaded.1.map fun _ => s.graph.size, loaded.2.after .leave)
      (included.1, included.2.after .leave) := by
  intro opened loaded begun nested included
  have hentered : s.stack ++ [path] = [path] := by
    rw [hstack]
    rfl
  obtain ⟨hresult, hdefinitions, hreads, hgraph⟩ := build_alone hblind host depth scope
    s.graph.awaiting list (t := opened) (s.graph.awaiting_graft_single rfl).symm rfl hentered rfl
  obtain ⟨hresult', hdefinitions', hreads', hgraph'⟩ := build_alone hblind host depth scope
    (s.graph.awaitingUnder root) list (t := nested)
    (s.graph.awaitingUnder_graft_single root rfl).symm rfl hentered rfl
  rw [Graph.size_awaitingUnder] at hresult' hdefinitions' hreads' hgraph'
  obtain ⟨-, hrooted⟩ := s.alone_rooted host depth scope path (.statements list)
  exact {
    result := congrArg (Except.map _) (hresult.trans hresult'.symm)
    definitions := hdefinitions'.trans hdefinitions.symm
    reads := hreads'.trans hreads.symm
    recipes := ⟨_, hgraph.trans (s.graph.graft_awaiting _),
      hgraph'.trans (s.graph.graft_awaitingUnder root _), .inl hrooted⟩ }

include hblind in
/-- A file that is loaded, and one that is included by a recipe begun for it, have the same
result, the same definitions and the same reads, and the same recipes come of it. The numbers
of the recipes differ by one, and bodies made of steps may do anything but go by them. -/
theorem load_agrees_include (hstack : s.stack = []) {path : Path} (root : Path)
    (habsolute : path.isAbsolute = true) (hextension : Host.extension <:+ path.text.toList)
    (hfile : host.isDirectory path.normalize = false) :
    let loaded := (load host depth path scope).outcome s
    let included := (do
      let id ← Evaluation.root root
      Context.includeRecipe host (Context.build host depth) ⟨id, scope⟩ path.text).outcome s
    s.Coincide root path.normalize loaded included := by
  have hpath : absolute host path = path.normalize := by
    rw [absolute, Path.join_of_isAbsolute _ habsolute]
  have hresolved : host.resolve (Recipe.ofFile root).directory path.text = path.normalize :=
    host.resolve_of_isAbsolute _ habsolute hextension hfile
  dsimp only
  rw [outcome_load, hpath, outcome_root_include host depth scope hstack root hresolved]
  dsimp only
  cases hpresent : host.present path.normalize with
  | false => exact coincide_of_failure s root _ _ rfl rfl rfl
  | true =>
    rw [hfile]
    cases hread : host.recipe path.normalize with
    | error f => exact coincide_of_failure s root _ f rfl rfl rfl
    | ok list =>
      have hsame := coincide_of_read hblind host depth scope hstack root path.normalize list
      have hacyclic : ¬(s.opened path.normalize).stack.any (·.same path.normalize) = true := by
        rw [opened_stack, hstack]
        exact Bool.false_ne_true
      change Coincide s root path.normalize (Except.map _ (Run.outcome _ (s.opened _)).1,
        (Run.outcome _ (s.opened _)).2) _
      rw [Run.outcome_within, if_neg hacyclic]
      exact hsame

/-- A definition whose body asks for its recipe first, and declares a package then. -/
def asking : Definition :=
  ⟨"web", {}, .steps [.attempt .current fun _ => [.resource .package "nginx" none]]⟩

/-- The state in which nothing but that is defined. -/
def askingDefined : Evaluation := blank (Definitions.register {} asking)

/-- A body is blind that asks for its recipe and does not use the number that it learns. -/
theorem askingDefined_blind : askingDefined.definitions.Blind := by
  have hempty : Definitions.Blind {} := nofun
  have hbody : asking.body.Blind := by
    simp [asking, Body.Blind, Step.BlindAll, Step.Blind]
  exact hempty.register hbody

open Provision.Session in
set_option maxRecDepth 8192 in
/-- A file that invokes the definition is loaded, and is included in a root: the number that
is asked for is another one, and the package is declared in both. -/
theorem load_agrees_include_asking :
    (let loaded := (load invokingFile 3 ⟨"/a.yml"⟩ {}).outcome askingDefined
      let included := (do
        let id ← Evaluation.root ⟨"/r.yml"⟩
        Context.includeRecipe invokingFile (Context.build invokingFile 3) ⟨id, {}⟩
          "/a.yml").outcome askingDefined
      askingDefined.Coincide ⟨"/r.yml"⟩ (Path.normalize ⟨"/a.yml"⟩) loaded included) ∧
    let loaded := (load invokingFile 3 ⟨"/a.yml"⟩ {}).outcome askingDefined
    loaded.1 = .ok 0 ∧ loaded.2.graph.resources.map (·.name) = ["nginx"] :=
  ⟨load_agrees_include askingDefined_blind invokingFile 3 {} rfl ⟨"/r.yml"⟩ (by decide)
    (by decide) (by decide), by decide +kernel⟩

open Provision.Session in
set_option maxRecDepth 8192 in
/-- Where a definition goes by numbers, the two ways do not come to the same: the package that
it declares has one name after a load and another one after an inclusion. -/
theorem load_differs_numbering :
    let s := numberingDefined.state
    let path : Path := ⟨"/a.yml"⟩
    let loaded := (load invokingFile 3 path {}).outcome s
    let included := (do
      let id ← Evaluation.root ⟨"/q.yml"⟩
      Context.includeRecipe invokingFile (Context.build invokingFile 3) ⟨id, {}⟩
        path.text).outcome s
    Reachable numberingDefined ∧ s.stack = [] ∧ path.isAbsolute = true ∧ path.normalize = path ∧
      Host.extension <:+ path.text.toList ∧ invokingFile.isDirectory path = false ∧
      loaded.2.graph.resourceNames = ["2"] ∧ included.2.graph.resourceNames = ["3"] ∧
      ¬s.Coincide ⟨"/q.yml"⟩ path loaded included := by
  intro s path loaded included
  have hloaded : loaded.2.graph.resourceNames = ["2"] := by decide +kernel
  have hincluded : included.2.graph.resourceNames = ["3"] := by decide +kernel
  refine ⟨reachable_numberingDefined, rfl, by decide, by decide, by decide, by decide, hloaded,
    hincluded, fun h => ?_⟩
  have hnames := h.resourceNames
  rw [hloaded, hincluded] at hnames
  exact absurd hnames (by decide)

end Evaluation

end Provision
