import Provision.Proofs.Independence

/-!
# Invocations and inlining

Invoking a definition does what its statements do where it is invoked, in a scope that has the
attributes of the invocation. An invocation begins a recipe of its own, so what the statements
would add to the one recipe is added to the other, and all later recipes have the next number.
The paths are the same, as the new recipe has the path of the one that invokes it, so files are
found in the same places. Only the files that the recipe has included before make a difference:
the new recipe would include them once more.
-/

namespace Provision

/-! ### Moments at which a recipe is built -/

/-- A moment at which a recipe is being built: the session stands between two operations, or
within one that is about to perform something for the recipe. -/
inductive Session.Moment : Progress → Nat → Prop
  | between {s : Session} {c : Context} (hs : s.Reachable) (hc : s.context = some c) :
      Moment s.state.toProgress c.recipe
  | within {host : Host} {depth : Nat} {s s' : Session} {es rest : List Event} {id : Nat}
      (hs : s.Reachable) (hn : Next host depth s s')
      (hend : s'.state.toProgress = s.state.toProgress.replay (es ++ .act id :: rest)) :
      Moment (s.state.toProgress.replay (es ++ [.act id])) id

/-- From one state, different journals lead to different states. -/
theorem Progress.replay_inj {p : Progress} {es es' : List Event}
    (h : p.replay es = p.replay es') : es = es' := by
  have hjournal := congrArg Progress.journal h
  rw [replay_journal, replay_journal] at hjournal
  exact List.append_cancel_left hjournal

/-- The recipe that is built is the open one. -/
theorem Session.Moment.openAt {p : Progress} {id : Nat} (h : Moment p id) :
    (∃ before, p.OpenAt id before) ∧ p.graph.Forest := by
  cases h with
  | between hs hc => exact ⟨hs.arranged.context _ hc, hs.sound.state.forest⟩
  | @within host depth s s' es rest id hs hn hend =>
    obtain ⟨-, es', hend', htimely⟩ := hs.arranged.timely hn
    obtain ⟨-, es'', hend'', hattended⟩ := hs.sound.next hn
    cases Progress.replay_inj (hend'.symm.trans hend)
    cases Progress.replay_inj (hend''.symm.trans hend)
    obtain ⟨before, hopen⟩ := (throughout_append.mp htimely).2.1.acting id rfl
    have hforest := (throughout_append.mp hattended).2.1.1.forest
    rw [Progress.replay_append]
    exact ⟨⟨before, hopen.quiet (e := .act id) rfl rfl⟩, hforest⟩

/-! ### Paths of recipes -/

namespace Graph

/-- The path of the recipe of a number. -/
def path (g : Graph) (id : Nat) : Path := ((g.recipe? id).getD default).path

/-- A child changes no recipe's path. -/
theorem path_append (g : Graph) (parent : Nat) (c : Child) : (g.append parent c).path = g.path := by
  funext id
  rw [path, recipe?_append]
  split
  · rw [path]
    cases g.recipe? id <;> rfl
  · rfl

/-- A new child has its own path, and the other recipes have theirs. -/
theorem path_addChild (g : Graph) (parent : Nat) (r : Recipe) (id : Nat) :
    (g.addChild parent r).path id = if id = g.size then r.path else g.path id := by
  have hpush : ({ g with recipes := g.recipes.push r } : Graph).recipe? id =
      if id = g.size then some r else g.recipe? id := g.recipe?_addRoot r id
  rw [addChild, path_append, path, hpush]
  split <;> rfl

/-- Every nested recipe is one of the graph, also after one more is begun. -/
theorem nested_lt_addChild {g : Graph} (hg : ∀ i, ∀ k ∈ g.nested i, k < g.size) (parent : Nat)
    {r : Recipe} (hr : r.nested = []) :
    ∀ i, ∀ k ∈ (g.addChild parent r).nested i, k < (g.addChild parent r).size := by
  intro i k hk
  rw [nested_addChild_any g parent hr] at hk
  rw [size_addChild]
  split at hk
  · rw [List.mem_append, List.mem_singleton] at hk
    rcases hk with hk | hk
    · have hlt := hg i k hk
      omega
    · omega
  · have hlt := hg i k hk
    omega

/-- The files nested in a recipe after one more is begun. -/
theorem files_nested_addChild {g : Graph} (hg : ∀ i, ∀ k ∈ g.nested i, k < g.size)
    (parent : Nat) {r : Recipe} (hr : r.nested = []) (i : Nat) :
    (g.addChild parent r).files ((g.addChild parent r).nested i) =
      g.files (g.nested i) ++ if i = parent ∧ i ≤ g.size then r.file?.toList else [] := by
  have hold : (g.addChild parent r).files (g.nested i) = g.files (g.nested i) :=
    (g.grows_addChild parent r).files (hg i)
  rw [nested_addChild_any g parent hr]
  split
  · rw [files_append, hold, files_addChild_self]
  · rw [hold, List.append_nil]

end Graph

/-! ### What is kept -/

/-- The number that a recipe of the inlined run has in the invoked one. What would be added to
the recipe `id` goes to the recipe `n`, which is begun for it, and later recipes come after
that. -/
def displaced (id n i : Nat) : Nat := if i = id then n else i + 1

/-- The recipe in hand is displaced by the one begun for the invocation. -/
theorem displaced_self (id n : Nat) : displaced id n id = n := if_pos rfl

/-- Recipes that are begun later come one after where they would. -/
theorem displaced_of_le {id n i : Nat} (hid : id < n) (hi : n ≤ i) : displaced id n i = i + 1 :=
  if_neg (by omega)

/-- Different recipes get different numbers. -/
theorem displaced_inj {id n i k : Nat} (hi : i = id ∨ n ≤ i) (hk : k = id ∨ n ≤ k) :
    displaced id n i = displaced id n k ↔ i = k := by
  unfold displaced
  split <;> split <;> omega

/-- A recipe gets the number after that of a later one only if it is this one. -/
theorem displaced_eq_succ_iff {id n m : Nat} (hid : id < n) (hm : n ≤ m) (i : Nat) :
    displaced id n i = m + 1 ↔ i = m := by
  unfold displaced
  split <;> omega

/-- A recipe does not come after the number that follows a later one exactly if it did not come
after this one. -/
theorem displaced_le_succ_iff {id n m : Nat} (hid : id < n) (hm : n ≤ m) (i : Nat) :
    displaced id n i ≤ m + 1 ↔ i ≤ m := by
  unfold displaced
  split <;> omega

/-- The progress of a run in which statements are evaluated for the recipe `id`, and of one in
which they are the body of an invocation by it. The first may include files if `fresh`. -/
structure Progress.Inlined (id n : Nat) (fresh : Prop) (before : List Resource)
    (p q : Progress) : Prop where
  definitions : q.definitions = p.definitions
  stack : q.stack = p.stack
  size : q.graph.size = p.graph.size + 1
  later : n ≤ p.graph.size
  path : ∀ i, i = id ∨ n ≤ i → q.graph.path (displaced id n i) = p.graph.path i
  files : ∀ i, (i = id ∧ fresh) ∨ n ≤ i →
    q.graph.files (q.graph.nested (displaced id n i)) = p.graph.files (p.graph.nested i)
  nested_lt : ∀ i, ∀ k ∈ p.graph.nested i, k < p.graph.size
  nested_lt' : ∀ j, ∀ k ∈ q.graph.nested j, k < q.graph.size
  added : ∃ xs, p.added = before ++ xs ∧ q.added = before ++ xs.map (·.renumber (displaced id n))

namespace Progress.Inlined

variable {id n : Nat} {fresh : Prop} {before : List Resource} {p q : Progress}

/-- An event that adds no recipe and no resource is the same in both runs. -/
theorem quiet (h : Inlined id n fresh before p q) {e e' : Event}
    (hp : (p.after e).graph = p.graph) (hq : (q.after e').graph = q.graph)
    (he : e.resource? = none) (he' : e'.resource? = none)
    (hdefinitions : (q.after e').definitions = (p.after e).definitions)
    (hstack : (q.after e').stack = (p.after e).stack) :
    Inlined id n fresh before (p.after e) (q.after e') := by
  have hadded : (p.after e).added = p.added := by
    rw [added_after, he, Option.toList_none, List.append_nil]
  have hadded' : (q.after e').added = q.added := by
    rw [added_after, he', Option.toList_none, List.append_nil]
  exact ⟨hdefinitions, hstack, hp ▸ hq ▸ h.size, hp ▸ h.later, hp ▸ hq ▸ h.path,
    hp ▸ hq ▸ h.files, hp ▸ h.nested_lt, hq ▸ h.nested_lt', hadded ▸ hadded' ▸ h.added⟩

/-- A resource that is added in both runs goes to corresponding recipes. -/
theorem resource (h : Inlined id n fresh before p q) (i : Nat) (x : Resource) :
    Inlined id n fresh before (p.after (.resource i (x.ownedBy i)))
      (q.after (.resource (displaced id n i) (x.ownedBy (displaced id n i)))) := by
  have hnested (p : Progress) (i : Nat) (y : Resource) :
      (p.after (.resource i y)).graph.nested = p.graph.nested := p.graph.nested_addResource i y
  have hsize (p : Progress) (i : Nat) (y : Resource) :
      (p.after (.resource i y)).graph.size = p.graph.size := p.graph.size_addResource i y
  have hpath (p : Progress) (i : Nat) (y : Resource) :
      (p.after (.resource i y)).graph.path = p.graph.path := p.graph.path_append i _
  have hfiles (p : Progress) (i : Nat) (y : Resource) :
      (p.after (.resource i y)).graph.files = p.graph.files := by
    funext ids
    exact congrArg (List.filterMap · ids) (p.graph.file?_addResource i y)
  refine ⟨h.definitions, h.stack, ?_, ?_, ?_, ?_, ?_, ?_, ?_⟩
  · rw [hsize, hsize]
    exact h.size
  · rw [hsize]
    exact h.later
  · rw [hpath, hpath]
    exact h.path
  · rw [hfiles, hfiles, hnested, hnested]
    exact h.files
  · rw [hnested, hsize]
    exact h.nested_lt
  · rw [hnested, hsize]
    exact h.nested_lt'
  · obtain ⟨xs, hp, hq⟩ := h.added
    refine ⟨xs ++ [x.ownedBy i], ?_, ?_⟩
    · rw [added_after, hp, List.append_assoc]
      rfl
    · rw [added_after, hq, List.map_append, List.append_assoc, List.map_singleton,
        Resource.renumber_ownedBy]
      rfl

/-- A nested recipe is begun in both runs. -/
theorem child (h : Inlined id n fresh before p q) (hid : id < n) {i : Nat} (hi : i = id ∨ n ≤ i)
    {r : Recipe} (hr : r.children = []) :
    Inlined id n fresh before (p.after (.child i r)) (q.after (.child (displaced id n i) r)) := by
  have hempty : r.nested = [] := Recipe.nested_of_children hr
  refine ⟨h.definitions, h.stack, ?_, ?_, ?_, ?_, ?_, ?_, ?_⟩
  · change (q.graph.addChild _ r).size = (p.graph.addChild _ r).size + 1
    rw [Graph.size_addChild, Graph.size_addChild, h.size]
  · change n ≤ (p.graph.addChild _ r).size
    rw [Graph.size_addChild]
    exact Nat.le_succ_of_le h.later
  · intro k hk
    change (q.graph.addChild _ r).path _ = (p.graph.addChild _ r).path _
    rw [Graph.path_addChild, Graph.path_addChild]
    simp only [h.size, displaced_eq_succ_iff hid h.later, h.path k hk]
  · intro k hk
    have hk' : k = id ∨ n ≤ k := hk.imp_left And.left
    change (q.graph.addChild _ r).files ((q.graph.addChild _ r).nested _) =
      (p.graph.addChild _ r).files ((p.graph.addChild _ r).nested _)
    rw [Graph.files_nested_addChild h.nested_lt' _ hempty,
      Graph.files_nested_addChild h.nested_lt _ hempty, h.files k hk]
    simp only [h.size, displaced_inj hk' hi, displaced_le_succ_iff hid h.later]
  · exact Graph.nested_lt_addChild h.nested_lt _ hempty
  · exact Graph.nested_lt_addChild h.nested_lt' _ hempty
  · rw [added_after, added_after]
    simpa [Event.resource?] using h.added

end Progress.Inlined

/-! ### The two runs -/

/-- A run of statements for the recipe `id`, and the same run for the recipe `n`. -/
def Correspondence.inline (id n : Nat) (fresh : Prop) (before : List Resource) :
    Correspondence where
  number i j := (i = id ∨ n ≤ i) ∧ j = displaced id n i
  includers i j := ((i = id ∧ fresh) ∨ n ≤ i) ∧ j = displaced id n i
  progress := Progress.Inlined id n fresh before
  reads := Eq
  scopes := Eq
  texts _ := True

namespace Correspondence

variable {id n : Nat} {fresh : Prop} {before : List Resource}

/-- Everything can be resolved and read in an invocation as it is in the recipe. -/
theorem inline_total : (inline id n fresh before).Total where
  texts _ := trivial
  read := by
    rintro s _ rfl name
    exact Reads.same_self _
  call := by
    rintro s _ rfl name argument
    exact Reads.same_self _

/-- Every event keeps an invocation in step with the statements inlined. -/
theorem inline_lawful (hid : id < n) : (inline id n fresh before).Lawful where
  definitions hpq := hpq.definitions
  stack hpq := hpq.stack
  size hpq := ⟨.inr hpq.later, hpq.size.trans (displaced_of_le hid hpq.later).symm⟩
  begun hpq := ⟨.inr hpq.later, hpq.size.trans (displaced_of_le hid hpq.later).symm⟩
  path := by
    rintro p q i _ hpq ⟨hi, rfl⟩
    exact hpq.path i hi
  included := by
    rintro p q i _ hpq ⟨hi, rfl⟩ path
    rw [Bool.eq_iff_iff, isIncluded_iff, isIncluded_iff, Graph.HasFile, Graph.HasFile,
      hpq.files i hi]
  after := by
    intro p q e e' hpq he
    cases he with
    | child hij r hr =>
      obtain ⟨hi, rfl⟩ := hij
      exact hpq.child hid hi hr
    | @resource i _ hij x =>
      obtain ⟨-, rfl⟩ := hij
      exact hpq.resource i x
    | define d =>
      exact hpq.quiet rfl rfl rfl rfl (congrArg (·.register d) hpq.definitions) hpq.stack
    | enter path =>
      exact hpq.quiet rfl rfl rfl rfl hpq.definitions (congrArg (· ++ [path]) hpq.stack)
    | leave =>
      exact hpq.quiet rfl rfl rfl rfl hpq.definitions (congrArg List.dropLast hpq.stack)
    | act => exact hpq.quiet rfl rfl rfl rfl hpq.definitions hpq.stack
  agree := by
    rintro s _ rfl
    exact Scope.agree_of_read _ fun _ => Reads.same_self _
  node := by
    rintro s _ rfl
    exact Reads.same_self _
  params := by
    rintro s _ rfl v
    rfl

end Correspondence

/-- Right after an invocation has begun its recipe, the two runs correspond. -/
theorem Context.invocation_inlined {c : Context} {s : Evaluation}
    (hc : c.recipe < s.graph.size) (hforest : s.graph.Forest) (d : Definition) (name : String) :
    Progress.Inlined c.recipe s.graph.size (s.graph.files (s.graph.nested c.recipe) = [])
      s.added s.toProgress (c.invocation d name s).toProgress := by
  let r : Recipe := .ofDefinition d.name name (s.recipe c.recipe).path
  have hnested (k : Nat) : (s.graph.addChild c.recipe r).nested k =
      if k = c.recipe then s.graph.nested k ++ [s.graph.size] else s.graph.nested k :=
    Graph.nested_addChild hc rfl k
  refine ⟨rfl, rfl, Graph.size_addChild _ _ _, Nat.le_refl _, ?_, ?_, hforest.nested_lt,
    (hforest.addChild hc rfl).nested_lt, [], ?_, ?_⟩
  · intro i hi
    change (s.graph.addChild c.recipe r).path _ = _
    rw [Graph.path_addChild]
    rcases hi with rfl | hi
    · rw [displaced_self, if_pos rfl]
      rfl
    · have hnone {k : Nat} (hk : s.graph.size ≤ k) : s.graph.recipe? k = none :=
        Array.getElem?_eq_none hk
      rw [displaced_of_le hc hi, if_neg (by omega), Graph.path, Graph.path, hnone hi,
        hnone (by omega)]
  · intro i hi
    change (s.graph.addChild c.recipe r).files ((s.graph.addChild c.recipe r).nested _) = _
    rcases hi with ⟨rfl, hfresh⟩ | hi
    · rw [displaced_self, hnested, if_neg (by omega), Graph.nested_of_le (Nat.le_refl _), hfresh]
      rfl
    · rw [displaced_of_le hc hi, hnested, if_neg (by omega), Graph.nested_of_le (by omega),
        Graph.nested_of_le hi]
      rfl
  · exact (List.append_nil _).symm
  · rw [List.map_nil, List.append_nil]
    exact (Progress.added_after _ _).trans (List.append_nil _)

open Provision.Correspondence in
/-- A definition of statements is invoked, and the statements are evaluated where it is invoked,
in a scope that has the attributes. Both runs have the same result, leave the same definitions
and have read the same, and they append the same resources in the same order: only the recipes
that own them have other numbers. The recipe must not have included any file before, unless
the statements do not include any themselves. Statements do not go by the numbers of recipes,
and bodies made of steps may do anything else. -/
theorem Context.declare_inlined {c : Context} {s : Evaluation}
    (hmoment : Session.Moment s.toProgress c.recipe) (hblind : s.definitions.Blind)
    {keyword : String} {d : Definition} {list : List Statement}
    (hmeaning : ((meaning? keyword).outcome s).1 = .ok (some (.definition d)))
    (hbody : d.body = .statements list) {name : String} {block : Option Block}
    {attributes : OrderedMap Value}
    (hmerged : ((d.attributes c.scope name block).run.run s.reads).1 = .ok attributes)
    (hfresh : s.graph.files (s.graph.nested c.recipe) = [] ∨
      ∀ target, .includeRecipe target ∉ list) (host : Host) (depth : Nat) :
    let params := Value.ofFields attributes.entries
    let invoked := (c.declare (build host (depth + 1)) keyword name block).outcome s
    let inlined := (performAll host (build host depth)
      ⟨c.recipe, c.scope.insert "params" (.constant params)⟩ list).outcome
        { s with reads := ((d.attributes c.scope name block).run.run s.reads).2 }
    invoked.1 = inlined.1 ∧ invoked.2.definitions = inlined.2.definitions ∧
      invoked.2.reads = inlined.2.reads ∧
      ∃ xs, inlined.2.graph.resources = s.graph.resources ++ xs ∧
        invoked.2.graph.resources = s.graph.resources ++
          xs.map (·.renumber (displaced c.recipe s.graph.size)) := by
  intro params invoked inlined
  obtain ⟨⟨before, hopen⟩, hforest⟩ := hmoment.openAt
  obtain ⟨o, -, ho, -⟩ := hopen.own
  have hc : c.recipe < s.graph.size := Graph.recipe?_lt ho
  -- The statements are evaluated for the new recipe after the attributes are read.
  let merged : Evaluation :=
    { s with reads := ((d.attributes c.scope name block).run.run s.reads).2 }
  obtain ⟨log, hinvoke⟩ := c.outcome_invoke (build host (depth + 1)) hmerged
  have hinvoked : invoked = (performAll host (build host depth) (c.invoked s attributes)
      list).outcome (c.invocation d name { merged with log }) := by
    refine (c.outcome_declare_definition _ name block hmeaning).trans ?_
    rw [hinvoke, hbody]
    rfl
  let fresh : Prop := s.graph.files (s.graph.nested c.recipe) = []
  let R := inline c.recipe s.graph.size fresh s.added
  have hlawful : R.Lawful := inline_lawful hc
  have htotal : R.Total := inline_total
  have hfiles : R.Files host := fun _ list _ =>
    Statement.allTextsList_of_forall htotal.texts list
  have hstates : R.States merged (c.invocation d name { merged with log }) :=
    ⟨c.invocation_inlined (s := { merged with log }) hc hforest d name, rfl,
      fun name d hd => bodies_of_total htotal (hblind name d hd)⟩
  have hcontexts : R.Contexts
      ⟨c.recipe, c.scope.insert "params" (.constant params)⟩ (c.invoked s attributes) :=
    ⟨⟨.inl rfl, (displaced_self _ _).symm⟩, rfl⟩
  have hincluder (target : String) (h : .includeRecipe target ∈ list) :
      R.includers c.recipe s.graph.size := by
    refine ⟨.inl ⟨rfl, ?_⟩, (displaced_self _ _).symm⟩
    exact hfresh.resolve_right fun hnone => hnone target h
  obtain ⟨hresult, hdone⟩ := runs_performAll hlawful hfiles (build_expands hlawful hfiles depth)
    hcontexts hincluder (Statement.allTextsList_of_forall htotal.texts list) hstates
  rw [← hinvoked] at hresult hdone
  -- Resources are applied in the order in which they were added.
  have hstart : s.graph.resources = s.added := hopen.arranged.chronological.resources
  have hinlined : inlined.2.graph.resources = inlined.2.added :=
    (performAll_follows (build_follows host depth) _ list merged).resources hopen
  have hdeclared : invoked.2.graph.resources = invoked.2.added :=
    (c.declare_build_follows host (depth + 1) keyword name block s).resources hopen
  obtain ⟨xs, hadded, hadded'⟩ := hdone.progress.added
  refine ⟨hresult.eq.symm, hdone.progress.definitions, hdone.reads.symm, xs, ?_, ?_⟩
  · rw [hinlined, hstart]
    exact hadded
  · rw [hdeclared, hstart]
    exact hadded'

namespace Session

set_option maxRecDepth 8192 in
/-- A package that is declared by the definition, and by its statements themselves. -/
theorem declare_inlined_package :
    (let params := Value.ofFields [("name", .string "x")]
      let invoked := (Context.declare (Context.build bareHost 2) ⟨0, {}⟩ "web" "x" none).outcome
        oneDefined.state
      let inlined := (Context.performAll bareHost (Context.build bareHost 1)
        ⟨0, OrderedMap.empty.insert "params" (.constant params)⟩
        [.declare "package" "nginx" none]).outcome oneDefined.state
      invoked.1 = inlined.1 ∧ invoked.2.definitions = inlined.2.definitions ∧
        invoked.2.reads = inlined.2.reads ∧
        ∃ xs, inlined.2.graph.resources = oneDefined.state.graph.resources ++ xs ∧
          invoked.2.graph.resources = oneDefined.state.graph.resources ++
            xs.map (·.renumber (displaced 0 oneDefined.state.graph.size))) ∧
    ((Context.declare (Context.build bareHost 2) ⟨0, {}⟩ "web" "x" none).outcome
      oneDefined.state).2.graph.resources.map (fun x => (x.recipe, x.name)) = [(1, "nginx")] := by
  have hbegins : Next bareHost 1 start (start.root ⟨"/r.yml"⟩ {}) := .root _ _
  have hdefined : Reachable oneDefined := .next (.next .start hbegins) (.step ⟨0, {}⟩ _ rfl)
  have hmoment : Moment oneDefined.state.toProgress 0 := .between (c := ⟨0, {}⟩) hdefined rfl
  have hmerged : ((packaged.attributes {} "x" none).run.run oneDefined.state.reads).1 =
      .ok (OrderedMap.empty.insert "name" (.string "x")) := rfl
  exact ⟨Context.declare_inlined (c := ⟨0, {}⟩) (s := oneDefined.state) hmoment
    oneDefined_blind rfl rfl hmerged (.inl rfl) bareHost 1, by decide +kernel⟩

/-- A definition whose only statement invokes the one that goes by numbers. -/
def siteOfNumbering : Definition := ⟨"site", {}, .statements [.declare "web" "x" none]⟩

/-- The session after both are defined. -/
def numberingSite : Session :=
  numberingDefined.step bareHost 1 ⟨0, {}⟩
    (.define siteOfNumbering.name siteOfNumbering.parameters siteOfNumbering.body)

set_option maxRecDepth 8192 in
/-- A body that goes by numbers notices the recipe that an invocation begins: what it declares
has one name in the invocation and another one where the statements are inlined. -/
theorem declare_differs_numbering :
    let s := numberingSite.state
    let params := Value.ofFields [("name", .string "y")]
    let invoked := (Context.declare (Context.build bareHost 3) ⟨0, {}⟩ "site" "y" none).outcome s
    let inlined := (Context.performAll bareHost (Context.build bareHost 2)
      ⟨0, OrderedMap.empty.insert "params" (.constant params)⟩
      [.declare "web" "x" none]).outcome s
    Moment s.toProgress 0 ∧
      ((Context.meaning? "site").outcome s).1 = .ok (some (.definition siteOfNumbering)) ∧
      ((siteOfNumbering.attributes {} "y" none).run.run s.reads).1 =
        .ok (OrderedMap.empty.insert "name" (.string "y")) ∧
      s.graph.files (s.graph.nested 0) = [] ∧
      invoked.2.graph.resources.map (·.name) = ["2"] ∧
      inlined.2.graph.resources.map (·.name) = ["1"] ∧
      ¬∃ xs, inlined.2.graph.resources = s.graph.resources ++ xs ∧
        invoked.2.graph.resources =
          s.graph.resources ++ xs.map (·.renumber (displaced 0 s.graph.size)) := by
  intro s params invoked inlined
  have hdefined : Reachable numberingSite := .next reachable_numberingDefined (.step ⟨0, {}⟩ _ rfl)
  have hinvoked : invoked.2.graph.resources.map (·.name) = ["2"] := by decide +kernel
  have hinlined : inlined.2.graph.resources.map (·.name) = ["1"] := by decide +kernel
  refine ⟨.between (c := ⟨0, {}⟩) hdefined rfl, rfl, rfl, rfl, hinvoked, hinlined, ?_⟩
  -- Other numbers of recipes are no other names.
  rintro ⟨xs, hxs, hxs'⟩
  have hnames : invoked.2.graph.resources.map (·.name) =
      inlined.2.graph.resources.map (·.name) := by
    rw [hxs, hxs', List.map_append, List.map_append, List.map_map]
    rfl
  rw [hinvoked, hinlined] at hnames
  exact absurd hnames (by decide)

end Session

end Provision
