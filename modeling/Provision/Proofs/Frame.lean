import Provision.Proofs.Inclusion

/-!
# What operations leave alone

An operation on a recipe adds to that recipe and makes new ones, and every other recipe
stays as it is. An operation that fails before it has anything to add leaves the graph, the
definitions and the stack as they were, and a declaration adds one resource or nothing.
All this holds in any state, so in every state that a run comes to.
-/

namespace Provision

namespace Evaluation

/-- The graph, the definitions and the stack are the same. -/
structure Unchanged (s t : Evaluation) : Prop where
  graph : t.graph = s.graph
  definitions : t.definitions = s.definitions
  stack : t.stack = s.stack

/-- A run that comes no further leaves everything unchanged. -/
theorem Unchanged.of_progress {s t : Evaluation} (h : t.toProgress = s.toProgress) :
    s.Unchanged t := by
  refine ⟨?_, ?_, ?_⟩ <;> rw [h]

/-- A recipe has one more resource at the end of its list, and nothing else is different. -/
structure Gains (s : Evaluation) (id : Nat) (x : Resource) (t : Evaluation) : Prop where
  current : ∀ r, s.graph.recipe? id = some r →
    t.graph.recipe? id = some { r with children := r.children ++ [.resource x] }
  others : ∀ other, other ≠ id → t.graph.recipe? other = s.graph.recipe? other
  size : t.graph.size = s.graph.size
  roots : t.graph.roots = s.graph.roots
  definitions : t.definitions = s.definitions
  stack : t.stack = s.stack

/-- A run in which only a resource is added has the recipe gain it. -/
theorem Gains.of_progress {s t : Evaluation} {id : Nat} {x : Resource}
    (h : t.toProgress = s.toProgress.after (.resource id x)) : s.Gains id x t := by
  have hgraph : t.graph = s.graph.addResource id x := congrArg Progress.graph h
  refine ⟨?_, ?_, ?_, ?_, ?_, ?_⟩
  · intro r hr
    rw [hgraph, Graph.recipe?_addResource, if_pos rfl, hr]
    rfl
  · intro other hother
    rw [hgraph, Graph.recipe?_addResource, if_neg (Ne.symm hother)]
  · rw [hgraph, Graph.size_addResource]
  · rw [hgraph, Graph.roots_addResource]
  · exact (congrArg Progress.definitions h).trans rfl
  · exact (congrArg Progress.stack h).trans rfl

/-- Roots may have been added, and every recipe that there was is as it was. -/
structure Retains (s t : Evaluation) : Prop where
  roots : t.graph.roots = s.graph.roots ∨ t.graph.roots = s.graph.roots ++ [s.graph.size]
  recipes : ∀ id < s.graph.size, t.graph.recipe? id = s.graph.recipe? id
  stack : t.stack = s.stack

end Evaluation

/-- A computation adds one resource to a recipe and changes nothing else, or it stops early
and changes nothing. -/
def Run.Declares (x : Run Unit) (id : Nat) (s : Evaluation) : Prop :=
  (∃ r t, x.outcome s = (.ok (), t) ∧ s.Gains id r t) ∨
    ∃ stop t, x.outcome s = (.error stop, t) ∧ s.Unchanged t

/-- A resource is added whole, or not at all. -/
theorem Context.addResource_declares (c : Context) (kind : Kind) (name : String)
    (block : Option Block) (s : Evaluation) :
    (c.addResource kind name block).Declares c.recipe s := by
  rcases c.outcome_addResource kind name block s with ⟨x, t, hr, -, ht⟩ | ⟨stop, t, hr, ht⟩
  · exact .inl ⟨x, t, hr, .of_progress ht⟩
  · exact .inr ⟨stop, t, hr, .of_progress ht⟩

/-- A load begins one root at most. -/
theorem Loading.retains {s t : Evaluation} {scope : Scope} {es : List Event}
    (h : Loading s.toProgress scope es) (ht : t.toProgress = s.toProgress.replay es) :
    s.Retains t := by
  have hstack : t.stack = s.stack := (congrArg Progress.stack ht).trans h.stack_replay
  have hgraph : t.graph = (s.toProgress.replay es).graph := congrArg Progress.graph ht
  have hnew (path : Path) : ∀ id < s.graph.size,
      (s.graph.addRoot (.ofFile path)).recipe? id = s.graph.recipe? id := by
    intro id hid
    rw [Graph.recipe?_addRoot, if_neg (by omega)]
  cases h with
  | refused => exact ⟨.inl (congrArg Graph.roots hgraph), fun id _ => by rw [hgraph]; rfl, hstack⟩
  | cyclic path _ =>
    refine ⟨.inr (congrArg Graph.roots hgraph), fun id hid => ?_, hstack⟩
    rw [hgraph]
    exact hnew path id hid
  | @evaluated path es _ inner =>
    have hextends : (s.graph.addRoot (.ofFile path)).ExtendsAt _ s.graph.size :=
      inner.extendsAt_replay
    rw [Progress.replay_append] at hgraph
    refine ⟨.inr ((congrArg Graph.roots hgraph).trans hextends.roots), fun id hid => ?_, hstack⟩
    rw [hgraph]
    have hlt : id < (s.graph.addRoot (.ofFile path)).size := by
      rw [Graph.size_addRoot]
      omega
    exact (hextends.others id hlt (by omega)).trans (hnew path id hid)

/-- What each operation leaves alone, on whatever recipe it is taken. -/
structure Evaluation.Framed (host : Host) (depth : Nat) (s : Evaluation) : Prop where
  /-- A declaration of a kind adds one resource or nothing. -/
  resource : ∀ (c : Context) (kind : Kind) (name : String) (block : Option Block),
    (c.addResource kind name block).Declares c.recipe s
  /-- So it does by its keyword. -/
  declare : ∀ (expand : Expansion) (c : Context) (keyword name : String) (block : Option Block),
    (Kind.ofKeyword? keyword).isSome = true →
      (c.declare expand keyword name block).Declares c.recipe s
  /-- A definition changes the definitions alone. -/
  define : ∀ d : Definition, Kind.isReserved d.name = false →
    ∃ t, (Context.define d).outcome s = (.ok (), t) ∧ t.graph = s.graph ∧
      t.definitions = s.definitions.register d ∧ t.stack = s.stack
  /-- A reserved name is not defined. -/
  reserved : ∀ d : Definition, Kind.isReserved d.name = true →
    ∃ t, (Context.define d).outcome s = (.error (.failure (.reservedKeyword d.name)), t) ∧
      s.Unchanged t
  /-- An invocation whose attributes cannot be made changes nothing. -/
  invoke : ∀ (expand : Expansion) (c : Context) (keyword name : String) (block : Option Block)
    (d : Definition) (f : Failure), Kind.ofKeyword? keyword = none →
      s.definitions.get? keyword = some d →
      ((d.attributes c.scope name block).run.run s.reads).1 = .error f →
      ((∃ parameter, f = .unknownParameter d.name parameter) ∨ ∃ u, f = .undefined u) ∧
        ∃ t, (c.declare expand keyword name block).outcome s = (.error (.failure f), t) ∧
          s.Unchanged t
  /-- An inclusion of a file that is not there changes nothing. -/
  absent : ∀ (expand : Expansion) (c : Context) (target : String),
    let path := c.included host s target
    host.present path = false →
      ∃ t, (c.includeRecipe host expand target).outcome s =
          (.error (.failure (.recipeNotFound target path)), t) ∧ s.Unchanged t
  /-- An inclusion that is passed over changes nothing. -/
  skipped : ∀ (expand : Expansion) (c : Context) (target : String),
    let path := c.included host s target
    host.present path = true → s.graph.HasFile c.recipe path →
      ∃ t, (c.includeRecipe host expand target).outcome s = (.ok (), t) ∧ s.Unchanged t
  /-- An inclusion that finds a cycle itself changes nothing. -/
  cycle : ∀ (expand : Expansion) (c : Context) (target : String) (chain : List Path),
    c.Raises host target s (.includeCycle chain) →
      ∃ t, (c.includeRecipe host expand target).outcome s =
          (.error (.failure (.includeCycle chain)), t) ∧ s.Unchanged t
  /-- An inclusion of a file that is not a recipe changes nothing. -/
  unread : ∀ (expand : Expansion) (c : Context) (target : String) (f : Failure),
    let path := c.included host s target
    host.present path = true → ¬s.graph.HasFile c.recipe path →
      s.stack.any (·.same path) = false → host.recipe path = .error f →
      ∃ t, (c.includeRecipe host expand target).outcome s = (.error (.failure f), t) ∧
        s.Unchanged t
  /-- A load of a file that is not there changes nothing. -/
  missing : ∀ (path : Path) (scope : Scope),
    let absolute := Evaluation.absolute host path
    (host.present absolute = false ∨ host.isDirectory absolute = true) →
      ∃ t, (Evaluation.load host depth path scope).outcome s =
          (.error (.failure (.recipeNotFound path.text absolute)), t) ∧ s.Unchanged t
  /-- A load of a file that is not a recipe changes nothing. -/
  refused : ∀ (path : Path) (scope : Scope) (f : Failure),
    let absolute := Evaluation.absolute host path
    host.present absolute = true → host.isDirectory absolute = false →
      host.recipe absolute = .error f →
      ∃ t, (Evaluation.load host depth path scope).outcome s = (.error (.failure f), t) ∧
        s.Unchanged t
  /-- However an operation on a recipe ends, only this recipe has been added to, only at its
  end, and the stack is as it was. -/
  step : ∀ (c : Context) (st : Step),
    let t := ((c.step host (Context.build host depth) st).outcome s).2
    s.graph.ExtendsAt t.graph c.recipe ∧ t.stack = s.stack
  /-- However a load ends, no recipe that there was is different. -/
  load : ∀ (path : Path) (scope : Scope),
    s.Retains ((Evaluation.load host depth path scope).outcome s).2
  /-- A root that is begun changes no recipe that there was. -/
  root : ∀ path : Path, s.Retains ((Evaluation.root path).outcome s).2

/-- Every operation leaves alone what it should. -/
theorem Evaluation.framed (host : Host) (depth : Nat) (s : Evaluation) : s.Framed host depth where
  resource c kind name block := c.addResource_declares kind name block s
  declare expand c keyword name block hkeyword := by
    obtain ⟨kind, hkind⟩ := Option.isSome_iff_exists.mp hkeyword
    have hsame : (c.declare expand keyword name block).outcome s =
        (c.addResource kind name block).outcome s := by
      rw [c.outcome_declare, hkind]
    rw [Run.Declares, hsame]
    exact c.addResource_declares kind name block s
  define d hfree := by
    refine ⟨{ s.after (.define d) with log := s.log ++ s.definitions.registration d }, ?_,
      rfl, rfl, rfl⟩
    rw [Context.outcome_define, hfree]
    rfl
  reserved d hreserved := by
    refine ⟨s, ?_, .of_progress rfl⟩
    rw [Context.outcome_define, hreserved]
    rfl
  invoke expand c keyword name block d f hkeyword hd hf := by
    obtain ⟨t, hr, ht⟩ := c.outcome_invoke_error expand hf
    refine ⟨d.attributes_failsOnly c.scope name block s.reads f hf, t, ?_, .of_progress ht⟩
    rw [c.outcome_declare, hkeyword, hd]
    exact hr
  absent expand c target habsent := by
    exact ⟨s, c.outcome_includeRecipe_absent expand habsent, .of_progress rfl⟩
  skipped expand c target hpresent hfile := by
    exact ⟨_, c.outcome_includeRecipe_again expand hpresent hfile, .of_progress rfl⟩
  cycle expand c target chain hraises := by
    obtain ⟨hpresent, hnew, hcycle, rfl⟩ :=
      (c.raises_includeCycle_iff host target s chain).mp hraises
    exact ⟨s, c.outcome_includeRecipe_cycle expand hpresent hnew hcycle, .of_progress rfl⟩
  unread expand c target f hpresent hnew hacyclic hread := by
    have hnot : ¬s.stack.any (·.same (c.included host s target)) = true :=
      Bool.eq_false_iff.mp hacyclic
    have hout := c.outcome_includeRecipe_unread expand hpresent hnew hnot hread
    exact ⟨_, hout, rfl, rfl, List.dropLast_concat⟩
  missing path scope hmissing := by
    refine ⟨s, ?_, .of_progress rfl⟩
    rw [outcome_load]
    apply if_pos
    rcases hmissing with habsent | hdirectory
    · rw [habsent]
      rfl
    · rw [hdirectory, Bool.or_true]
  refused path scope f hpresent hfile hread := by
    refine ⟨s, ?_, .of_progress rfl⟩
    rw [outcome_load]
    dsimp only
    rw [hpresent, hfile, hread]
    rfl
  step c st := by
    obtain ⟨es, hes, hend⟩ := c.step_build_follows host depth st s
    dsimp only
    rw [hend]
    exact ⟨hes.extendsAt_replay, hes.stack_replay⟩
  load path scope := by
    obtain ⟨es, hes, hend⟩ := load_follows host depth path scope s
    exact hes.retains hend
  root path := by
    refine ⟨.inr rfl, fun id hid => ?_, rfl⟩
    change (s.graph.addRoot (.ofFile path)).recipe? id = _
    rw [Graph.recipe?_addRoot, if_neg (by omega)]

end Provision
