import Provision.Proofs.Evaluation.Course

/-!
# The outcomes of operations

What each operation on a recipe gives, and what it does to the progress of the run: an
equation where the operation decides everything, and otherwise the cases there are. What
an included file or an expanded body does is left to the expansion that builds it.
-/

namespace Provision

/-- A name has a value exactly if it is bound. -/
theorem Scope.isSome_read? (s : Scope) (name : String) (reads : Reads) :
    ((s.read? name).run reads).1.isSome = s.contains name := by
  rw [read?, OrderedMap.contains]
  cases s.get? name with
  | none => rfl
  | some b => cases b <;> rfl

/-- The notifications that a block asks for belong to the recipe of the declaration. -/
theorem Resource.notify_yields (recipe : Nat) (s : Scope) (n : Notice) :
    (notify recipe s n).Yields (·.recipe = recipe) := by
  refine (Building.yields_trivial _).bind fun target _ => ?_
  unfold Notification.make
  cases Timing.ofText? n.timing with
  | none => exact fun _ _ h => by cases h
  | some t => exact Building.yields_pure rfl

/-- Every kind accepts its own default action. -/
theorem Kind.defaultAction_mem (kind : Kind) : kind.defaultAction ∈ kind.actions := by
  cases kind <;> decide

/-- Actions pass the check only if the kind accepts all of them. -/
theorem Resource.checkActions_yields (kind : Kind) (name : String) (action : Value) :
    Building.Yields (fun _ => ∀ a ∈ requested action, a ∈ kind.actions)
      (ExceptT.mk (pure (checkActions kind name action))) := by
  intro reads _ h
  change checkActions kind name action = .ok _ at h
  rw [checkActions] at h
  split at h
  · cases h
  · rename_i hnone
    simpa using hnone

/-- A declaration gives a resource of the kind, whose actions the kind accepts, and the recipe is
the owner of it and of its notifications. -/
theorem Resource.make_yields (kind : Kind) (name : String) (recipe : Nat) (s : Scope)
    (block : Option Block) :
    (make kind name recipe s block).Yields fun x =>
      x.kind = kind ∧ x.recipe = recipe ∧ (∀ n ∈ x.notifications, n.recipe = recipe) ∧
        ∀ a ∈ x.actions, a ∈ kind.actions := by
  refine (Building.yields_trivial _).bind fun attributes _ => ?_
  have hnotified := Building.yields_mapM (notify_yields recipe s)
    (block.getD Block.empty).notifies
  cases haction : attributes.get? "action" with
  | none =>
    refine hnotified.bind fun _ h => Building.yields_pure ⟨rfl, rfl, h, ?_⟩
    simp [actions, haction, kind.defaultAction_mem]
  | some action =>
    refine (checkActions_yields kind name action).bind fun _ hactions => ?_
    refine hnotified.bind fun _ h => Building.yields_pure ⟨rfl, rfl, h, ?_⟩
    simpa [actions, haction] using hactions

end Provision

namespace Provision.Context

open Provision.Run

/-- To ask for the recipe in hand gives it, and changes nothing. -/
theorem outcome_current (c : Context) (s : Evaluation) :
    outcome c.current s = (.ok (s.recipe c.recipe), s) := rfl

/-- A core keyword stands for its kind, whatever is defined. -/
theorem outcome_meaning? (keyword : String) (s : Evaluation) :
    outcome (meaning? keyword) s =
      (.ok (match Kind.ofKeyword? keyword with
        | some k => some (.kind k)
        | none => (s.definitions.get? keyword).map .definition), s) := by
  rw [meaning?]
  cases Kind.ofKeyword? keyword <;> rfl

/-- A declaration adds one resource, or it fails and adds nothing. -/
theorem outcome_addResource (c : Context) (kind : Kind) (name : String) (block : Option Block)
    (s : Evaluation) :
    (∃ (x : Resource) (t : Evaluation), outcome (c.addResource kind name block) s = (.ok (), t) ∧
        x.DeclaredIn c (s.recipe c.recipe) ∧
        t.toProgress = s.toProgress.after (.resource c.recipe x)) ∨
      ∃ (stop : Stop) (t : Evaluation),
        outcome (c.addResource kind name block) s = (.error stop, t) ∧
          t.toProgress = s.toProgress := by
  rcases outcome_building (Resource.make kind name c.recipe c.scope block) s with
    ⟨x, hx, hb⟩ | ⟨stop, t, hb, ht⟩
  · refine .inl ?_
    obtain ⟨hkind, hrecipe, hnotifications, hactions⟩ := Resource.make_yields _ _ _ _ _ _ _ hx
    let directory := if kind.wantsDirectory then some (s.recipe c.recipe).directory else none
    have hdeclared (node : Option Value)
        (hnode : node.isSome = (kind.wantsNode && c.scope.contains "node")) :
        Resource.DeclaredIn { x with directory, node } c (s.recipe c.recipe) :=
      ⟨hrecipe, hnotifications, by rw [hkind], by rw [hkind]; exact hnode,
        fun a ha => by rw [hkind]; exact hactions a ha⟩
    rw [addResource, outcome_bind, hb]
    simp only [outcome_bind, outcome_current]
    split
    · rename_i hwants
      refine ⟨_, _, rfl, hdeclared _ ?_, rfl⟩
      rw [hwants, Bool.true_and]
      exact c.scope.isSome_read? "node" _
    · rename_i hwants
      refine ⟨_, _, rfl, hdeclared none ?_, rfl⟩
      rw [Bool.eq_false_iff.mpr hwants]
      rfl
  · exact .inr ⟨stop, t, by rw [addResource, outcome_bind, hb], ht⟩

/-- A name that is free is defined, and one that is reserved is not. -/
theorem outcome_define (d : Definition) (s : Evaluation) :
    outcome (define d) s =
      if Kind.isReserved d.name then (.error (.failure (.reservedKeyword d.name)), s)
      else (.ok (), { s.after (.define d) with log := s.log ++ s.definitions.registration d }) := by
  rw [define]
  split <;> simp [outcome_bind, Evaluation.after]

/-- The message of an invocation is all that comes before its attributes. -/
theorem outcome_invoke_log (expand : Expansion) (c : Context) (d : Definition) (name : String)
    (block : Option Block) (s : Evaluation) :
    ∃ log, outcome (c.invoke expand d name block) s =
      outcome (do
        let attributes ← building (d.attributes c.scope name block)
        let recipe ← c.current
        let id := (← get).graph.size
        happen (.child c.recipe (.ofDefinition d.name name recipe.path))
        let params := Value.ofFields attributes.entries
        expand ⟨id, c.scope.insert "params" (.constant params)⟩ d.body) { s with log := log } := by
  rw [invoke]
  split
  · exact ⟨_, rfl⟩
  · exact ⟨s.log, rfl⟩

/-- An invocation whose attributes cannot be made fails and leaves the progress as it is. -/
theorem outcome_invoke_error (expand : Expansion) (c : Context) {d : Definition} {name : String}
    {block : Option Block} {s : Evaluation} {f : Failure}
    (h : ((d.attributes c.scope name block).run.run s.reads).1 = .error f) :
    ∃ t, outcome (c.invoke expand d name block) s = (.error (.failure f), t) ∧
      t.toProgress = s.toProgress := by
  obtain ⟨log, hlog⟩ := outcome_invoke_log expand c d name block s
  have hkind : ∀ word, f ≠ .notification (.invalidTiming word) := by
    rintro word rfl
    rcases d.attributes_failsOnly c.scope name block s.reads _ h with ⟨_, hp⟩ | ⟨_, hu⟩
    · cases hp
    · cases hu
  let logged : Evaluation := { s with log := log }
  obtain ⟨t, hb, ht⟩ := outcome_building_error (s := logged) h hkind
  exact ⟨t, by rw [hlog, outcome_bind, hb], ht⟩

/-- The context in which the body of an invocation with some attributes is expanded. -/
def invoked (c : Context) (s : Evaluation) (attributes : OrderedMap Value) : Context :=
  ⟨s.graph.size, c.scope.insert "params" (.constant (Value.ofFields attributes.entries))⟩

/-- The state in which the body of an invocation is expanded, when its attributes have been
made. -/
def invocation (c : Context) (d : Definition) (name : String) (s : Evaluation) : Evaluation :=
  s.after (.child c.recipe (.ofDefinition d.name name (s.recipe c.recipe).path))

/-- An invocation whose attributes are made begins a recipe and expands the body in it. -/
theorem outcome_invoke (expand : Expansion) (c : Context) {d : Definition} {name : String}
    {block : Option Block} {s : Evaluation} {a : OrderedMap Value}
    (h : ((d.attributes c.scope name block).run.run s.reads).1 = .ok a) :
    ∃ log, outcome (c.invoke expand d name block) s =
      outcome (expand (c.invoked s a) d.body) (c.invocation d name
        { s with log, reads := ((d.attributes c.scope name block).run.run s.reads).2 }) := by
  obtain ⟨log, hlog⟩ := outcome_invoke_log expand c d name block s
  refine ⟨log, ?_⟩
  rw [hlog, outcome_bind, outcome_building_ok (s := { s with log := log }) h]
  rfl

/-- A keyword that stands for a definition invokes it. -/
theorem outcome_declare_definition (expand : Expansion) (c : Context) {keyword : String}
    (name : String) (block : Option Block) {s : Evaluation} {d : Definition}
    (h : ((meaning? keyword).outcome s).1 = .ok (some (.definition d))) :
    (c.declare expand keyword name block).outcome s =
      (c.invoke expand d name block).outcome s := by
  have hpair : (meaning? keyword).outcome s = (.ok (some (.definition d)), s) := by
    rw [outcome_meaning?] at h ⊢
    exact Prod.ext h rfl
  rw [declare, outcome_bind, hpair]

/-- What a keyword stands for decides what a declaration does. -/
theorem outcome_declare (expand : Expansion) (c : Context) (keyword name : String)
    (block : Option Block) (s : Evaluation) :
    (c.declare expand keyword name block).outcome s =
      match Kind.ofKeyword? keyword, s.definitions.get? keyword with
      | some kind, _ => (c.addResource kind name block).outcome s
      | none, some d => (c.invoke expand d name block).outcome s
      | none, none => (.error (.failure (.unknownOperation keyword)), s) := by
  rw [declare, Run.outcome_bind, outcome_meaning?]
  cases Kind.ofKeyword? keyword with
  | some kind => rfl
  | none => cases s.definitions.get? keyword <;> rfl

/-- A file that is a recipe begins a nested one, in which its statements are taken. A file that is
not fails before that. -/
theorem outcome_includeFile (host : Host) (expand : Expansion) (c : Context) (path : Path)
    (s : Evaluation) :
    outcome (c.includeFile host expand path) s =
      match host.recipe path with
      | .error f => (.error (.failure f), s)
      | .ok list =>
        outcome (expand ⟨s.graph.size, c.scope⟩ (.statements list))
          (s.after (.child c.recipe (.ofFile path))) := by
  rw [includeFile, outcome_bind]
  cases host.recipe path with
  | error f => rfl
  | ok list => simp [outcome_bind]

/-- The path of the file that an inclusion is about. -/
def included (host : Host) (c : Context) (s : Evaluation) (target : String) : Path :=
  host.resolve (s.recipe c.recipe).directory target

/-- An inclusion checks for the file, then for one inclusion of it, and then for a cycle. -/
theorem outcome_includeRecipe (host : Host) (expand : Expansion) (c : Context) (target : String)
    (s : Evaluation) :
    outcome (c.includeRecipe host expand target) s =
      let path := c.included host s target
      if host.present path = false then (.error (.failure (.recipeNotFound target path)), s)
      else if isIncluded s.graph (s.recipe c.recipe) path then
        (.ok (), { s with log := s.log ++ [skipped path] })
      else outcome (within path (c.includeFile host expand path)) s := by
  simp only [includeRecipe, included, outcome_bind, outcome_current]
  by_cases hp : host.present (host.resolve (s.recipe c.recipe).directory target) = true
  · simp only [hp, Bool.not_true, Bool.false_eq_true, Bool.true_eq_false, if_false,
      outcome_bind, outcome_get]
    exact apply_ite (outcome · s) _ _ _
  · simp only [Bool.not_eq_true] at hp
    simp [hp, outcome_bind]

end Provision.Context

namespace Provision.Evaluation

open Provision.Run

/-- A root takes the next number. -/
theorem outcome_root (path : Path) (s : Evaluation) :
    outcome (root path) s = (.ok s.graph.size, s.after (.root (.ofFile path))) := rfl

/-- The path of the file that a load is about. -/
def absolute (host : Host) (path : Path) : Path := (host.current.join path).normalize

/-- A load reads the file before it adds a root, and puts it on the stack after that. -/
theorem outcome_load (host : Host) (depth : Nat) (path : Path) (scope : Scope) (s : Evaluation) :
    outcome (load host depth path scope) s =
      let p := absolute host path
      if !host.present p || host.isDirectory p then
        (.error (.failure (.recipeNotFound path.text p)), s)
      else
        match host.recipe p with
        | .error f => (.error (.failure f), s)
        | .ok list =>
          let t := s.after (.root (.ofFile p))
          let r := outcome
            (within p (Context.build host depth ⟨s.graph.size, scope⟩ (.statements list)))
            { t with log := t.log ++ [evaluating p] }
          (r.1.map fun _ => s.graph.size, r.2) := by
  unfold absolute
  simp only [load]
  by_cases hguard : (!host.present (host.current.join path).normalize ||
      host.isDirectory (host.current.join path).normalize) = true
  · simp only [if_pos hguard]
    rfl
  · simp only [if_neg hguard]
    cases host.recipe (host.current.join path).normalize with
    | error f => rfl
    | ok list =>
      simp only [outcome_pure, outcome_ofExcept_ok, outcome_root, outcome_log, outcome_bind]
      rcases outcome (within _ _) _ with ⟨_ | _, t⟩ <;> rfl

/-- The state in which the file of a load is put on the stack. -/
def opened (s : Evaluation) (path : Path) : Evaluation :=
  { s.after (.root (.ofFile path)) with log := s.log ++ [evaluating path] }

/-- A root that is begun for a file does not put it on the stack. -/
@[simp] theorem opened_stack (s : Evaluation) (path : Path) : (s.opened path).stack = s.stack := rfl

section Cases

variable {host : Host} {path : Path} (depth : Nat) (scope : Scope) (s : Evaluation)

/-- A load of what is no file fails without a root. -/
theorem outcome_load_absent
    (h : (!host.present (absolute host path) || host.isDirectory (absolute host path)) = true) :
    outcome (load host depth path scope) s =
      (.error (.failure (.recipeNotFound path.text (absolute host path))), s) := by
  rw [outcome_load]
  exact if_pos h

/-- A load of a file that is not a recipe fails without a root. -/
theorem outcome_load_unread {f : Failure}
    (h : ¬(!host.present (absolute host path) || host.isDirectory (absolute host path)) = true)
    (hread : host.recipe (absolute host path) = .error f) :
    outcome (load host depth path scope) s = (.error (.failure f), s) := by
  rw [outcome_load]
  dsimp only
  rw [if_neg h, hread]

/-- A file that can be read is put on the stack. -/
theorem outcome_load_read {list : List Statement}
    (h : ¬(!host.present (absolute host path) || host.isDirectory (absolute host path)) = true)
    (hread : host.recipe (absolute host path) = .ok list) :
    outcome (load host depth path scope) s =
      let r := outcome (within (absolute host path)
          (Context.build host depth ⟨s.graph.size, scope⟩ (.statements list)))
        (s.opened (absolute host path))
      (r.1.map fun _ => s.graph.size, r.2) := by
  rw [outcome_load]
  dsimp only
  rw [if_neg h, hread]
  rfl

/-- A load of a file that is being evaluated fails once its root is begun. -/
theorem outcome_load_cycle {list : List Statement}
    (h : ¬(!host.present (absolute host path) || host.isDirectory (absolute host path)) = true)
    (hread : host.recipe (absolute host path) = .ok list)
    (hcycle : s.stack.any (·.same (absolute host path)) = true) :
    outcome (load host depth path scope) s =
      (.error (.failure (.includeCycle (s.stack ++ [absolute host path]))),
        s.opened (absolute host path)) := by
  rw [outcome_load_read depth scope s h hread, outcome_within, opened_stack, if_pos hcycle]
  rfl

/-- It is evaluated in a new root, unless it is on the stack already. -/
theorem outcome_load_new {list : List Statement}
    (h : ¬(!host.present (absolute host path) || host.isDirectory (absolute host path)) = true)
    (hread : host.recipe (absolute host path) = .ok list)
    (hacyclic : ¬s.stack.any (·.same (absolute host path)) = true) :
    outcome (load host depth path scope) s =
      let r := outcome (Context.build host depth ⟨s.graph.size, scope⟩ (.statements list))
        ((s.opened (absolute host path)).after (.enter (absolute host path)))
      (r.1.map fun _ => s.graph.size, r.2.after .leave) := by
  rw [outcome_load_read depth scope s h hread, outcome_within, opened_stack, if_neg hacyclic]

end Cases

end Provision.Evaluation
