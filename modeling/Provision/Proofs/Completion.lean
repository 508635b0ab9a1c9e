import Provision.Proofs.Inclusion

/-!
# Inclusions and how they end

A recipe begins a nested recipe for each file that it includes, and keeps it however the
evaluation of the file ends. Here is the ledger of the operations on one recipe: its
inclusions, each with the result of the evaluation. The files nested right in the recipe are
exactly those of the ledger, so a file is included only once, and a repeated inclusion is
passed over even where the first one has failed halfway. The ledger goes from one statement or step
to the next by the states in which they are taken, and so do the proofs about it. That it has
nothing to say of an operation is a judgement like others.
-/

namespace Provision

/-- An inclusion that has begun a recipe for a file. -/
structure Inclusion where
  path : Path
  /-- How the evaluation of the statements of the file has ended. -/
  result : Except Stop Unit

/-- What follows on an outcome: nothing if it is an early stop. -/
def Run.following {α : Type} (next : α → Evaluation → List Inclusion) :
    Except Stop α × Evaluation → List Inclusion
  | (.ok a, t) => next a t
  | (.error _, _) => []

/-! ### The ledger -/

namespace Context

section Ledger

variable (host : Host) (expand : Expansion) (c : Context)

/-- The inclusion that a target leads to: none if the file is not there, is nested in the
recipe already, is being evaluated, or is not a recipe. -/
def inclusion? (target : String) (s : Evaluation) : Option Inclusion :=
  let path := c.included host s target
  if host.present path && !isIncluded s.graph (s.recipe c.recipe) path &&
      !s.stack.any (·.same path) then
    match host.recipe path with
    | .error _ => none
    | .ok list =>
      let begun := (s.after (.enter path)).after (.child c.recipe (.ofFile path))
      some ⟨path, ((expand ⟨s.graph.size, c.scope⟩ (.statements list)).outcome begun).1⟩
  else none

/-- The inclusions of one statement. -/
def ledgerOf (statement : Statement) (s : Evaluation) : List Inclusion :=
  match statement with
  | .includeRecipe target =>
    Run.following (fun target t => (c.inclusion? host expand target t).toList)
      ((Run.building (c.scope.buildText target)).outcome (s.after (.act c.recipe)))
  | _ => []

/-- The inclusions of statements, up to the first one that fails. -/
def ledgerOfAll : List Statement → Evaluation → List Inclusion
  | [], _ => []
  | statement :: rest, s =>
    c.ledgerOf host expand statement s ++
      Run.following (fun _ t => ledgerOfAll rest t) ((c.perform host expand statement).outcome s)

mutual

/-- The inclusions of one operation. -/
def ledgerOfStep : Step → Evaluation → List Inclusion
  | .includeRecipe target, s =>
    (c.inclusion? host expand target (s.after (.act c.recipe))).toList
  | .evaluate list, s => c.ledgerOfAll host expand list s
  | .attempt first next, s =>
    ledgerOfStep first s ++
      Run.following (fun answer t => ledgerOfSteps (next (answer.map (·.observation))) t)
        ((c.step host expand first).attempt.outcome s)
  | _, _ => []

/-- The inclusions of the steps of a body, up to the first one that fails. -/
def ledgerOfSteps : List Step → Evaluation → List Inclusion
  | [], _ => []
  | st :: rest, s =>
    ledgerOfStep st s ++
      Run.following (fun _ t => ledgerOfSteps rest t)
        ((traced (c.step host expand st)).outcome s)

end

/-- The state after operations, each of which is taken whether or not those before it have
failed. -/
def taking : List Step → Evaluation → Evaluation
  | [], s => s
  | st :: rest, s => taking rest ((c.step host expand st).outcome s).2

/-- The inclusions of operations, each of which is taken whether or not those before it have
failed. -/
def ledger : List Step → Evaluation → List Inclusion
  | [], _ => []
  | st :: rest, s =>
    c.ledgerOfStep host expand st s ++ ledger rest ((c.step host expand st).outcome s).2

end Ledger

end Context

/-! ### Files nested right in a recipe -/

namespace Graph

/-- A recipe is there, and so are those nested right in it. -/
structure Holds (g : Graph) (id : Nat) : Prop where
  lt : id < g.size
  nested_lt : ∀ child ∈ g.nested id, child < g.size

/-- A recipe has been added to: some more files are nested right in it, none of them twice. -/
structure Takes (g g' : Graph) (id : Nat) (paths : List Path) : Prop where
  holds : g.Holds id → g'.Holds id
  files : g.Holds id → g'.files (g'.nested id) = g.files (g.nested id) ++ paths
  distinct : g.Holds id → Path.Distinct (g.files (g.nested id)) →
    Path.Distinct (g'.files (g'.nested id))

/-- A recipe that is left as it is takes no file. -/
theorem Takes.refl (g : Graph) (id : Nat) : g.Takes g id [] :=
  ⟨fun h => h, fun _ => (List.append_nil _).symm, fun _ h => h⟩

/-- A recipe that is added to twice takes the files of the first time, and then those of the second.
-/
theorem Takes.trans {g g' g'' : Graph} {id : Nat} {ps ps' : List Path} (h : g.Takes g' id ps)
    (h' : g'.Takes g'' id ps') : g.Takes g'' id (ps ++ ps') := by
  refine ⟨fun hg => h'.holds (h.holds hg), fun hg => ?_, fun hg hdistinct => ?_⟩
  · rw [h'.files (h.holds hg), h.files hg, List.append_assoc]
  · exact h'.distinct (h.holds hg) (h.distinct hg hdistinct)

/-- A resource nests no file in a recipe. -/
theorem takes_addResource (g : Graph) (id : Nat) (x : Resource) :
    g.Takes (g.addResource id x) id [] := by
  have hfiles : (g.addResource id x).files ((g.addResource id x).nested id) =
      g.files (g.nested id) := by
    unfold files
    rw [file?_addResource, nested_addResource]
  refine ⟨fun h => ⟨?_, ?_⟩, fun _ => ?_, fun _ hdistinct => ?_⟩
  · rw [size_addResource]
    exact h.lt
  · rw [nested_addResource, size_addResource]
    exact h.nested_lt
  · rw [hfiles, List.append_nil]
  · rwa [hfiles]

/-- A recipe that is begun brings its own file at most, whatever is added to it later. -/
theorem takes_addChild {g g' : Graph} {id : Nat} {r : Recipe} (hempty : r.nested = [])
    (hnew : ∀ path, r.file? = some path → ¬g.HasFile id path)
    (h : (g.addChild id r).ExtendsAt g' g.size) : g.Takes g' id r.file?.toList := by
  have hsize : (g.addChild id r).size = g.size + 1 := size_addChild g id r
  have hgrows := h.grows
  have hle := hgrows.size_le
  -- Whatever was added since was added to later recipes.
  have hnested (hlt : id < g.size) : g'.nested id = g.nested id ++ [g.size] := by
    have hsame : g'.nested id = (g.addChild id r).nested id := by
      unfold nested
      rw [h.others id (by omega) (by omega)]
    rw [hsame, nested_addChild hlt hempty, if_pos rfl]
  have hfiles (hg : g.Holds id) :
      g'.files (g'.nested id) = g.files (g.nested id) ++ r.file?.toList := by
    have hold : g'.files (g.nested id) = g.files (g.nested id) :=
      ((g.grows_addChild id r).trans hgrows).files hg.nested_lt
    have hself : g'.files [g.size] = r.file?.toList := by
      rw [hgrows.files (by simp [hsize]), files_addChild_self]
    rw [hnested hg.lt, files_append, hold, hself]
  refine ⟨fun hg => ⟨?_, ?_⟩, hfiles, fun hg hdistinct => ?_⟩
  · have hlt := hg.lt
    omega
  · intro child hchild
    rw [hnested hg.lt, List.mem_append, List.mem_singleton] at hchild
    rcases hchild with hchild | hchild
    · have hold := hg.nested_lt child hchild
      omega
    · omega
  · rw [hfiles hg]
    cases hr : r.file? with
    | none => rwa [Option.toList_none, List.append_nil]
    | some path =>
      refine Path.distinct_concat.mpr ⟨hdistinct, fun q hq => ?_⟩
      exact Bool.eq_false_iff.mpr fun hsame => hnew path hr ⟨q, hq, hsame⟩

end Graph

/-- The files that a computation adds right in a recipe are those of some inclusions. -/
def Run.Records {α : Type} (x : Run α) (id : Nat) (s : Evaluation) (es : List Inclusion) : Prop :=
  s.graph.Takes (x.outcome s).2.graph id (es.map (·.path))

namespace Run

variable {α β : Type} {x : Run α} {id : Nat} {s : Evaluation} {es : List Inclusion}

/-- What leaves the graph as it is needs no entry in the ledger. -/
theorem records_of_quiet (id : Nat) (h : (x.outcome s).2.graph = s.graph) :
    x.Records id s [] := by
  rw [Records, h]
  exact Graph.Takes.refl _ _

/-- About to perform something. -/
theorem act_records (id : Nat) (s : Evaluation) : (happen (.act id)).Records id s [] :=
  records_of_quiet id rfl

/-- Nothing is included while a value is built. -/
theorem building_records (x : Building α) (id : Nat) (s : Evaluation) :
    (building x).Records id s [] :=
  records_of_quiet id (congrArg Progress.graph (building_toProgress x s))

/-- The ledger of a sequence is that of its first part, and then that of what follows on its
outcome. -/
theorem Records.bind {f : α → Run β} (hx : x.Records id s es)
    (next : α → Evaluation → List Inclusion)
    (hf : ∀ a t, x.outcome s = (.ok a, t) → (f a).Records id t (next a t)) :
    (x >>= f).Records id s (es ++ following next (x.outcome s)) := by
  rw [Records, outcome_bind, List.map_append]
  refine Graph.Takes.trans hx ?_
  rcases hr : x.outcome s with ⟨stop | a, t⟩
  · exact Graph.Takes.refl _ _
  · exact hf a t hr

/-- What follows without an inclusion changes nothing. -/
theorem Records.bind_quiet {f : α → Run β} (hx : x.Records id s es)
    (hf : ∀ a t, x.outcome s = (.ok a, t) → (f a).Records id t []) :
    (x >>= f).Records id s es := by
  have hbind := hx.bind (fun _ _ => []) hf
  have hnone : following (fun _ _ => []) (x.outcome s) = [] := by
    rcases x.outcome s with ⟨stop | a, t⟩ <;> rfl
  rwa [hnone, List.append_nil] at hbind

/-- Failures that are answered do not change the ledger. -/
theorem Records.attempt (hx : x.Records id s es) : x.attempt.Records id s es := by
  rw [Records, outcome_attempt]
  rw [Records] at hx
  rcases hr : x.outcome s with ⟨(f | f | _) | a, t⟩
  all_goals
    rw [hr] at hx
    exact hx

end Run

/-- The ledger has nothing to say of a step, whatever the state in which it is taken. -/
def Step.Passes : Step → Prop
  | .includeRecipe _ => False
  | .evaluate _ => False
  | .attempt _ _ => False
  | _ => True

namespace Context

open Provision.Run

variable {host : Host} {expand : Expansion}

/-- Nothing is included when a resource is added. -/
theorem addResource_records (c : Context) (kind : Kind) (name : String) (block : Option Block)
    (s : Evaluation) : (c.addResource kind name block).Records c.recipe s [] := by
  rcases c.outcome_addResource kind name block s with ⟨x, t, hr, -, ht⟩ | ⟨stop, t, hr, ht⟩
  · have hgraph : t.graph = s.graph.addResource c.recipe x := congrArg Progress.graph ht
    rw [Records, hr, hgraph]
    exact s.graph.takes_addResource c.recipe x
  · exact records_of_quiet _ (by rw [hr]; exact congrArg Progress.graph ht)

/-- Nothing is included when a definition is registered. -/
theorem define_records (d : Definition) (id : Nat) (s : Evaluation) :
    (define d).Records id s [] := by
  refine records_of_quiet id ?_
  rw [outcome_define]
  split <;> rfl

/-- An invocation brings a recipe that is no file. -/
theorem invoke_records (hexpand : expand.Follows) (c : Context) (d : Definition) (name : String)
    (block : Option Block) (s : Evaluation) :
    (c.invoke expand d name block).Records c.recipe s [] := by
  cases hattributes : ((d.attributes c.scope name block).run.run s.reads).1 with
  | error f =>
    obtain ⟨t, hr, ht⟩ := c.outcome_invoke_error expand hattributes
    exact records_of_quiet _ (by rw [hr]; exact congrArg Progress.graph ht)
  | ok a =>
    obtain ⟨log, hr⟩ := c.outcome_invoke expand hattributes
    let r : Recipe := .ofDefinition d.name name (s.recipe c.recipe).path
    let t : Evaluation :=
      { s with log, reads := ((d.attributes c.scope name block).run.run s.reads).2 }
    have hextends : (s.graph.addChild c.recipe r).ExtendsAt _ s.graph.size :=
      (hexpand (c.invoked s a) d.body (c.invocation d name t)).extendsAt
    rw [Records, hr]
    exact Graph.takes_addChild (r := r) rfl nofun hextends

/-- An inclusion brings the file that it begins a recipe for, and no other. -/
theorem includeRecipe_records (hexpand : expand.Follows) (c : Context) (target : String)
    (s : Evaluation) : (c.includeRecipe host expand target).Records c.recipe s
      (c.inclusion? host expand target s).toList := by
  rw [Records, outcome_includeRecipe, inclusion?]
  dsimp only
  by_cases hpresent : host.present (c.included host s target) = false
  · rw [if_pos hpresent, hpresent]
    exact Graph.Takes.refl _ _
  · by_cases hold : isIncluded s.graph (s.recipe c.recipe) (c.included host s target) = true
    · rw [if_neg hpresent, if_pos hold, hold, Bool.not_true, Bool.and_false, Bool.false_and]
      exact Graph.Takes.refl _ _
    · rw [if_neg hpresent, if_neg hold, outcome_within, outcome_includeFile]
      by_cases hcycle : s.stack.any (·.same (c.included host s target)) = true
      · rw [if_pos hcycle, hcycle, Bool.not_true, Bool.and_false]
        exact Graph.Takes.refl _ _
      · simp only [Bool.not_eq_false, Bool.not_eq_true] at hpresent hold hcycle
        simp only [hpresent, hold, hcycle, Bool.not_false, Bool.and_true, if_true,
          Bool.false_eq_true, if_false]
        cases host.recipe (c.included host s target) with
        | error f => exact Graph.Takes.refl _ _
        | ok list =>
          let r : Recipe := .ofFile (c.included host s target)
          let entered := s.after (.enter (c.included host s target))
          obtain ⟨es, hes, hend⟩ := hexpand ⟨s.graph.size, c.scope⟩ (.statements list)
            (entered.after (.child c.recipe r))
          have hextends := hes.extendsAt_replay
          rw [← hend] at hextends
          refine Graph.takes_addChild (r := r) rfl ?_ hextends
          intro path hpath hfile
          cases hpath
          have hsame := (isIncluded_iff s.toProgress _ _).mpr hfile
          exact absurd (hold.symm.trans hsame) Bool.false_ne_true

/-- Of a run it is said that it includes no file in a recipe. -/
def passing (id : Nat) : Assertion where
  Kept _ := True
  Holds x s := x.Records id s []
  pure _ _ _ := records_of_quiet id rfl
  kept _ _ _ := trivial
  bind := Records.bind_quiet

/-- Only inclusions include files. -/
theorem steps_passing (host : Host) (hexpand : expand.Follows) (c : Context) :
    (passing c.recipe).judgement.Steps host (fun _ => expand) (fun _ => c)
      (fun statement => ∀ target, statement ≠ .includeRecipe target) (fun _ => True)
      Step.Passes (fun _ => True) fun _ => True where
  act := Assertion.common fun s _ => act_records c.recipe s
  identifier _ _ _ _ := Assertion.common fun s _ => building_records _ c.recipe s
  meaning keyword _ _ _ := by
    refine Assertion.holds (fun meaning => ⟨meaning, rfl, fun _ => ?_, fun _ _ => trivial⟩)
      fun s _ => records_of_quiet c.recipe (by rw [outcome_meaning?])
    exact Assertion.common fun _ _ => records_of_quiet c.recipe rfl
  resource _ _ block _ kind name :=
    Assertion.common fun s _ => c.addResource_records kind name block s
  invoke _ _ block _ d _ name :=
    Assertion.common fun s _ => c.invoke_records hexpand d name block s
  define _ _ _ _ := Assertion.common fun s _ => define_records _ c.recipe s
  target target h := absurd rfl (h target)
  inclusion target h := absurd rfl (h target)
  performs {st} h := by
    cases st with
    | includeRecipe | evaluate | attempt => exact h.elim
    | resource | declare | define | fail | read | call | current | meaning =>
      simp [Step.performed]
  same _ := trivial
  register _ _ _ _ := Assertion.common fun s _ => define_records _ c.recipe s
  fail _ _ := Assertion.holds (fun _ => trivial) fun _ _ => records_of_quiet c.recipe rfl
  read _ := Assertion.common fun _ _ => records_of_quiet c.recipe rfl
  call _ _ := Assertion.common fun _ _ => records_of_quiet c.recipe rfl
  current := Assertion.holds (fun _ => trivial) fun _ _ => records_of_quiet c.recipe rfl
  attempt hx := Assertion.holds (fun _ => trivial) fun s hs => (hx s hs).1.attempt
  record {answer} _ :=
    Assertion.common fun _ _ => records_of_quiet c.recipe (by cases answer () <;> rfl)
  next _ _ h := h.elim

/-- Of such a step there is nothing in the ledger. -/
theorem step_passing (hexpand : expand.Follows) (c : Context) {st : Step} (h : st.Passes)
    (s : Evaluation) : (c.step host expand st).Records c.recipe s [] :=
  ((c.steps_passing host hexpand).step h s trivial).1

/-- The ledger of a statement has the files that it nests in the recipe. -/
theorem perform_records (hexpand : expand.Follows) (c : Context) (statement : Statement)
    (s : Evaluation) : (c.perform host expand statement).Records c.recipe s
      (c.ledgerOf host expand statement s) := by
  cases statement with
  | declare | define =>
    refine ((c.steps_passing host hexpand).perform (fun target h => ?_) s trivial).1
    cases h
  | includeRecipe target =>
    refine (act_records c.recipe s).bind
      (fun _ _ => c.ledgerOf host expand (.includeRecipe target) s) ?_
    intro _ t ht
    have hacted : s.after (.act c.recipe) = t := congrArg Prod.snd ht
    rw [ledgerOf, hacted]
    refine (building_records _ _ t).bind
      (fun target u => (c.inclusion? host expand target u).toList) ?_
    intro target u _
    exact c.includeRecipe_records hexpand target u

/-- So does the ledger of several statements. -/
theorem performAll_records (hexpand : expand.Follows) (c : Context) (list : List Statement)
    (s : Evaluation) : (c.performAll host expand list).Records c.recipe s
      (c.ledgerOfAll host expand list s) := by
  induction list generalizing s with
  | nil => exact records_of_quiet _ rfl
  | cons statement rest ih =>
    refine (c.perform_records hexpand statement s).bind
      (fun _ t => c.ledgerOfAll host expand rest t) ?_
    intro _ t _
    exact ih t

/-- What an answer leaves in the log does not change the ledger. -/
theorem traced_records {x : Run Answer} {id : Nat} {s : Evaluation} {es : List Inclusion}
    (hx : x.Records id s es) : (traced x).Records id s es := by
  refine hx.attempt.bind_quiet ?_
  intro answer t _
  refine Records.bind_quiet (records_of_quiet id rfl) ?_
  intro _ u _
  cases answer <;> exact records_of_quiet id rfl

mutual

/-- The files that an operation adds right in its recipe are those of its inclusions. -/
theorem step_records (hexpand : expand.Follows) (c : Context) (st : Step) (s : Evaluation) :
    (c.step host expand st).Records c.recipe s (c.ledgerOfStep host expand st s) := by
  match st with
  | .includeRecipe target =>
    rw [step, ledgerOfStep]
    refine (act_records c.recipe s).bind
      (fun _ t => (c.inclusion? host expand target t).toList) fun _ t _ => ?_
    exact (c.includeRecipe_records hexpand target t).bind_quiet fun _ _ _ => records_of_quiet _ rfl
  | .evaluate list =>
    exact (c.performAll_records hexpand list s).bind_quiet fun _ _ _ => records_of_quiet _ rfl
  | .attempt first next =>
    rw [step, ledgerOfStep]
    refine (step_records hexpand c first s).attempt.bind
      (fun answer t => c.ledgerOfSteps host expand (next (answer.map (·.observation))) t)
      fun answer t _ => ?_
    refine (stepAll_records hexpand c (next (answer.map (·.observation))) t).bind_quiet ?_
    intro _ _ _
    exact records_of_quiet _ rfl
  | .resource _ _ _ | .declare _ _ _ | .define _ _ _ | .fail _ | .read _ | .call _ _ | .current
  | .meaning _ =>
    apply c.step_passing hexpand
    trivial

/-- The ledger of several steps has the files that they nest in the recipe. -/
theorem stepAll_records (hexpand : expand.Follows) (c : Context) (list : List Step)
    (s : Evaluation) : (c.stepAll host expand list).Records c.recipe s
      (c.ledgerOfSteps host expand list s) := by
  match list with
  | [] => exact records_of_quiet _ rfl
  | st :: rest =>
    rw [stepAll, ledgerOfSteps]
    refine (traced_records (step_records hexpand c st s)).bind
      (fun _ t => c.ledgerOfSteps host expand rest t) fun _ t _ => ?_
    exact stepAll_records hexpand c rest t

end

/-- The files nested right in a recipe are those of the inclusions by it. -/
theorem taking_takes (hexpand : expand.Follows) (c : Context) (ops : List Step) (s : Evaluation) :
    s.graph.Takes (c.taking host expand ops s).graph c.recipe
      ((c.ledger host expand ops s).map (·.path)) := by
  induction ops generalizing s with
  | nil => exact Graph.Takes.refl _ _
  | cons st rest ih =>
    rw [taking, ledger, List.map_append]
    exact Graph.Takes.trans (c.step_records hexpand st s) (ih _)

/-- An inclusion is of the file that the target names, and the call ends as it does. -/
theorem outcome_of_inclusion? {c : Context} {target : String} {s : Evaluation} {e : Inclusion}
    (h : c.inclusion? host expand target s = some e) :
    e.path = c.included host s target ∧ ¬s.graph.HasFile c.recipe e.path ∧
      ((c.includeRecipe host expand target).outcome s).1 = e.result := by
  rw [inclusion?] at h
  dsimp only at h
  split at h
  · rename_i hguard
    rw [Bool.and_eq_true, Bool.and_eq_true, Bool.not_eq_true', Bool.not_eq_true'] at hguard
    obtain ⟨⟨hpresent, hnew⟩, hacyclic⟩ := hguard
    have hfile : ¬s.graph.HasFile c.recipe (c.included host s target) :=
      mt (isIncluded_iff s.toProgress _ _).mpr (Bool.eq_false_iff.mp hnew)
    cases hread : host.recipe (c.included host s target) with
    | error f =>
      rw [hread] at h
      cases h
    | ok list =>
      rw [hread] at h
      cases h
      refine ⟨rfl, hfile, ?_⟩
      rw [outcome_includeRecipe_read expand c hpresent hfile (Bool.eq_false_iff.mp hacyclic) hread]
  · cases h

/-- A call that succeeds without an inclusion has passed over a file that is nested in the
recipe. -/
theorem hasFile_of_inclusion?_eq_none {c : Context} {target : String} {s : Evaluation}
    (h : c.inclusion? host expand target s = none)
    (hok : ((c.includeRecipe host expand target).outcome s).1 = .ok ()) :
    host.present (c.included host s target) = true ∧
      s.graph.HasFile c.recipe (c.included host s target) := by
  by_cases hpresent : host.present (c.included host s target) = true
  · by_cases hfile : s.graph.HasFile c.recipe (c.included host s target)
    · exact ⟨hpresent, hfile⟩
    · by_cases hcycle : s.stack.any (·.same (c.included host s target)) = true
      · rw [outcome_includeRecipe_cycle expand c hpresent hfile hcycle] at hok
        cases hok
      · cases hread : host.recipe (c.included host s target) with
        | error f =>
          rw [outcome_includeRecipe_unread expand c hpresent hfile hcycle hread] at hok
          cases hok
        | ok list =>
          have hnew : isIncluded s.graph (s.recipe c.recipe) (c.included host s target) = false :=
            Bool.eq_false_iff.mpr (mt (isIncluded_iff s.toProgress _ _).mp hfile)
          have hguard : (host.present (c.included host s target) &&
              !isIncluded s.graph (s.recipe c.recipe) (c.included host s target) &&
              !s.stack.any (·.same (c.included host s target))) = true := by
            rw [hpresent, hnew, Bool.eq_false_iff.mpr hcycle]
            rfl
          rw [inclusion?] at h
          dsimp only at h
          rw [if_pos hguard, hread] at h
          cases h
  · rw [outcome_includeRecipe_absent expand c (Bool.not_eq_true _ ▸ hpresent)] at hok
    cases hok

end Context

/-- Of inclusions of distinct files, at most one is of a given file. -/
theorem Inclusion.filter_same {es : List Inclusion} (h : Path.Distinct (es.map (·.path)))
    {e : Inclusion} (he : e ∈ es) {path : Path} (hpath : e.path.same path = true) :
    es.filter (·.path.same path) = [e] := by
  -- Two files that are the same as the path are the same.
  have htwo {p q : Path} (hp : p.same path = true) (hq : q.same path = true) :
      p.same q = true := by
    rw [Path.same, beq_iff_eq] at hp hq ⊢
    exact hp.trans hq.symm
  induction es with
  | nil => cases he
  | cons first rest ih =>
    rw [List.map_cons, Path.Distinct, List.pairwise_cons, List.forall_mem_map] at h
    obtain ⟨hfirst, hrest⟩ := h
    rcases List.mem_cons.mp he with rfl | he
    · have hnone : rest.filter (·.path.same path) = [] := by
        refine List.filter_eq_nil_iff.mpr fun other hother hsame => ?_
        exact absurd (htwo hpath hsame) (Bool.eq_false_iff.mp (hfirst other hother))
      rw [List.filter_cons, if_pos hpath, hnone]
    · have hother : ¬first.path.same path = true := fun hsame =>
        absurd (htwo hsame hpath) (Bool.eq_false_iff.mp (hfirst e he))
      rw [List.filter_cons, if_neg hother]
      exact ih hrest he

namespace Context

variable (host : Host) (depth : Nat) (c : Context)

/-- The files nested right in a recipe that has been begun are those of its ledger, none of
them twice. -/
theorem files_taking {s : Evaluation} (hc : c.recipe < s.graph.size)
    (hempty : s.graph.nested c.recipe = []) (ops : List Step) :
    let t := c.taking host (build host depth) ops s
    let paths := (c.ledger host (build host depth) ops s).map (·.path)
    t.graph.Holds c.recipe ∧ t.graph.files (t.graph.nested c.recipe) = paths ∧
      Path.Distinct paths := by
  dsimp only
  have htakes : s.graph.Takes (c.taking host (build host depth) ops s).graph c.recipe _ :=
    c.taking_takes (build_follows host depth) ops s
  have hholds : s.graph.Holds c.recipe := ⟨hc, by rw [hempty]; exact nofun⟩
  have hnone : s.graph.files (s.graph.nested c.recipe) = [] := by rw [hempty]; rfl
  have hfiles := htakes.files hholds
  have hdistinct := htakes.distinct hholds (hnone ▸ List.Pairwise.nil)
  rw [hnone, List.nil_append] at hfiles
  exact ⟨htakes.holds hholds, hfiles, hfiles ▸ hdistinct⟩

/-- A recipe that has been begun is given any operations, of which some may fail, and then
includes a file. If that succeeds, the file is nested right in the recipe, and its
statements have been evaluated for it exactly once, by this inclusion or by an earlier one.
They have been evaluated to their end, unless the earlier inclusion has stopped halfway: it
counts nevertheless, so this one is passed over and leaves everything as it is. -/
theorem includeRecipe_completes {s : Evaluation} (hc : c.recipe < s.graph.size)
    (hempty : s.graph.nested c.recipe = []) (ops : List Step) (target : String) :
    let before := c.taking host (build host depth) ops s
    let path := c.included host before target
    let done := (c.includeRecipe host (build host depth) target).outcome before
    let earlier := c.ledger host (build host depth) ops s
    let now := c.inclusion? host (build host depth) target before
    (done.1 = .ok () →
      done.2.graph.HasFile c.recipe path ∧
        ∃ e, (earlier ++ now.toList).filter (·.path.same path) = [e] ∧
          (e.result = .ok () ∨
            ∃ stop, e.result = .error stop ∧ e ∈ earlier ∧ now = none ∧
              done.2.toProgress = before.toProgress)) ∧
      ((∃ e ∈ earlier, e.path.same path = true) → host.present path = true →
        done.1 = .ok () ∧ now = none ∧ done.2.toProgress = before.toProgress) := by
  dsimp only
  obtain ⟨hholds, hfiles, hdistinct⟩ := c.files_taking host depth hc hempty ops
  generalize c.taking host (build host depth) ops s = before at *
  generalize c.ledger host (build host depth) ops s = earlier at *
  generalize hpath : c.included host before target = path at *
  have hmem (p : Path) : before.graph.HasFile c.recipe p ↔ ∃ e ∈ earlier, e.path.same p = true := by
    simp only [Graph.HasFile, hfiles, List.mem_map, exists_exists_and_eq_and]
  constructor
  · intro hok
    cases hnow : c.inclusion? host (build host depth) target before with
    | none =>
      -- Nothing was begun, so the call has passed over a file of the ledger.
      obtain ⟨hpresent, hfile⟩ := hasFile_of_inclusion?_eq_none hnow hok
      have hagain := c.outcome_includeRecipe_again (build host depth) hpresent hfile
      rw [hpath] at hfile
      obtain ⟨e, he, hsame⟩ := (hmem path).mp hfile
      rw [hagain, Option.toList_none, List.append_nil]
      refine ⟨hfile, e, Inclusion.filter_same hdistinct he hsame, ?_⟩
      cases hresult : e.result with
      | ok _ => exact .inl rfl
      | error stop => exact .inr ⟨stop, rfl, he, rfl, rfl⟩
    | some e =>
      -- The call itself has begun a recipe, for a file that was not in the ledger.
      obtain ⟨he, hnew, hresult⟩ := outcome_of_inclusion? hnow
      rw [hpath] at he
      subst he
      have hself : e.path.same e.path = true := beq_self_eq_true _
      have hrecords : (c.includeRecipe host (build host depth) target).Records c.recipe before _ :=
        c.includeRecipe_records (build_follows host depth) target before
      rw [hnow] at hrecords
      refine ⟨?_, e, ?_, .inl (hresult.symm.trans hok)⟩
      · rw [Graph.HasFile, hrecords.files hholds]
        exact ⟨e.path, List.mem_append_right _ (List.mem_singleton_self _), hself⟩
      · have hnone : earlier.filter (·.path.same e.path) = [] := by
          refine List.filter_eq_nil_iff.mpr fun other hother hsame => ?_
          exact hnew ((hmem e.path).mpr ⟨other, hother, hsame⟩)
        rw [List.filter_append, hnone, Option.toList_some, List.filter_cons, if_pos hself]
        rfl
  · intro hold hpresent
    have hfile := (hmem path).mpr hold
    subst hpath
    have hagain := c.outcome_includeRecipe_again (build host depth) hpresent hfile
    refine ⟨congrArg Prod.fst hagain, ?_, by rw [hagain]⟩
    rw [Option.eq_none_iff_forall_ne_some]
    intro e hnow
    obtain ⟨he, hnew, -⟩ := outcome_of_inclusion? hnow
    exact hnew (he ▸ hfile)

/-- A recipe that has just been begun. -/
def begun : Evaluation := ((Evaluation.root ⟨"/r.yml"⟩).outcome .empty).2

set_option maxRecDepth 8192 in
/-- A file in which nothing is declared is included twice and evaluated once. -/
theorem includeRecipe_completes_twice :
    let c : Context := ⟨0, {}⟩
    let expand := build Session.oneFile 1
    let before := c.taking Session.oneFile expand [.includeRecipe "a.yml"] begun
    let done := (c.includeRecipe Session.oneFile expand "/a.yml").outcome before
    done.1 = .ok () ∧ done.2.graph.HasFile 0 ⟨"/a.yml"⟩ ∧
      ∃ e, (c.ledger Session.oneFile expand [.includeRecipe "a.yml"] begun ++
          (c.inclusion? Session.oneFile expand "/a.yml" before).toList).filter
            (·.path.same ⟨"/a.yml"⟩) = [e] ∧
        (e.result = .ok () ∨
          ∃ stop, e.result = .error stop ∧
            e ∈ c.ledger Session.oneFile expand [.includeRecipe "a.yml"] begun ∧
            c.inclusion? Session.oneFile expand "/a.yml" before = none ∧
            done.2.toProgress = before.toProgress) := by
  have hcompletes := includeRecipe_completes Session.oneFile 1 ⟨0, {}⟩ (s := begun)
    (by decide) rfl [.includeRecipe "a.yml"] "/a.yml"
  exact ⟨rfl, hcompletes.1 rfl⟩

/-- A machine with a recipe file that declares a package and then fails. -/
def brokenFile : Host :=
  .ofFacts [(⟨"/a.yml"⟩, some (.file (.ok "[{package: nginx}, {web: x}]")))] none ⟨"/"⟩

/-- The same file is included once more after it has failed halfway. That succeeds, although
its statements have not been evaluated to their end. -/
theorem includeRecipe_unfinished :
    let c : Context := ⟨0, {}⟩
    let expand := build brokenFile 2
    let before := c.taking brokenFile expand [.includeRecipe "a.yml"] begun
    ((c.includeRecipe brokenFile expand "a.yml").outcome before).1 = .ok () ∧
      ¬∃ e ∈ c.ledger brokenFile expand [.includeRecipe "a.yml"] begun ++
          (c.inclusion? brokenFile expand "a.yml" before).toList, e.result = .ok () := by
  decide +kernel

end Context

end Provision
