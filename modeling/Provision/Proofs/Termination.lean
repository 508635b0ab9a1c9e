import Mathlib.Data.List.Count
import Mathlib.Order.RelClasses
import Provision.Proofs.Evaluation.Walk
import Provision.Proofs.Frame

/-!
# Termination

Files may include each other in any way, and definitions may invoke others, include files
and be redefined while they are expanded. An evaluation ends all the same if the definitions
can be ranked: every body invokes only names of a lower rank than its own. What gets smaller
is, first, the number of files that are not on the stack, then the rank of the definition
that is expanded, and last the statements that are left.

A computation that is given a depth ends if its outcome is the same from some depth on and
is not that the depth was too small.
-/

namespace Provision

/-! ### Ranked statements -/

namespace Statement

/-- The name that a declaration invokes, if its keyword is not that of a kind. -/
def invoked? : Statement → Option String
  | .declare keyword _ _ => if (Kind.ofKeyword? keyword).isNone then some keyword else none
  | _ => none

section

variable {α : Type} [LT α] (rank : String → α)

mutual

/-- Every definition in a statement, at any depth, invokes only names of a lower rank. -/
def Ranked : Statement → Prop
  | .declare _ _ _ => True
  | .define name _ body => (∀ n ∈ body.filterMap invoked?, rank n < rank name) ∧ RankedAll body
  | .includeRecipe _ => True

/-- Every statement of a list is ranked. -/
def RankedAll : List Statement → Prop
  | [] => True
  | s :: rest => s.Ranked ∧ RankedAll rest

end

end

/-- Statements are ranked exactly if each of them is. -/
theorem rankedAll_iff {α : Type} [LT α] {rank : String → α} {list : List Statement} :
    RankedAll rank list ↔ ∀ s ∈ list, s.Ranked rank := by
  induction list with
  | nil => simp [RankedAll]
  | cons s rest ih => rw [RankedAll, ih, List.forall_mem_cons]

section

variable {α : Type} [LT α] [DecidableLT α] {rank : String → α}

mutual

instance decidableRanked : (s : Statement) → Decidable (s.Ranked rank)
  | .declare _ _ _ => inferInstanceAs (Decidable True)
  | .define _ _ body =>
    have := decidableRankedAll body
    inferInstanceAs (Decidable (_ ∧ _))
  | .includeRecipe _ => inferInstanceAs (Decidable True)

instance decidableRankedAll : (list : List Statement) → Decidable (RankedAll rank list)
  | [] => inferInstanceAs (Decidable True)
  | s :: rest =>
    have := decidableRanked s
    have := decidableRankedAll rest
    inferInstanceAs (Decidable (_ ∧ _))

end

end

end Statement

/-- Every definition is a list of statements that is ranked under its name. -/
def Definitions.Ranked {α : Type} [LT α] (rank : String → α) (ds : Definitions) : Prop :=
  ∀ name d, ds.get? name = some d →
    ∃ list, d.body = .statements list ∧ (Statement.define name d.parameters list).Ranked rank

/-- Definitions stay ranked when one with a ranked body is registered. -/
theorem Definitions.Ranked.register {α : Type} [LT α] {rank : String → α} {ds : Definitions}
    (h : ds.Ranked rank) {name : String} {parameters : OrderedMap Value} {body : List Statement}
    (hbody : (Statement.define name parameters body).Ranked rank) :
    Definitions.Ranked rank (ds.register ⟨name, parameters, .statements body⟩) :=
  OrderedMap.forall_insert h ⟨body, rfl, hbody⟩

/-! ### Computations that end -/

/-- From some depth on, a computation has one and the same outcome, which is not that the
depth was too small, and the state that it leaves is as it should be. -/
def Run.Ends {α : Type} (Q : Evaluation → Prop) (x : Nat → Run α) (s : Evaluation) : Prop :=
  ∃ r, r.1 ≠ .error .tooDeep ∧ Q r.2 ∧ ∃ bound, ∀ depth ≥ bound, (x depth).outcome s = r

namespace Run

variable {α β : Type} {Q : Evaluation → Prop} {s : Evaluation}

/-- A computation that does not depend on the depth. -/
theorem ends_const {x : Run α} (hdeep : (x.outcome s).1 ≠ .error .tooDeep)
    (hq : Q (x.outcome s).2) : Ends Q (fun _ => x) s :=
  ⟨_, hdeep, hq, 0, fun _ _ => rfl⟩

/-- Only the outcomes matter. -/
theorem Ends.congr {x y : Nat → Run α} (hx : Ends Q x s)
    (hy : ∀ depth, (y depth).outcome s = (x depth).outcome s) : Ends Q y s := by
  obtain ⟨r, hdeep, hq, bound, hbound⟩ := hx
  exact ⟨r, hdeep, hq, bound, fun depth hdepth => (hy depth).trans (hbound depth hdepth)⟩

/-- One level of depth more does not matter. -/
theorem Ends.deeper {x y : Nat → Run α} (hx : Ends Q x s) (hy : ∀ depth, y (depth + 1) = x depth) :
    Ends Q y s := by
  obtain ⟨r, hdeep, hq, bound, hbound⟩ := hx
  refine ⟨r, hdeep, hq, bound + 1, fun depth hdepth => ?_⟩
  obtain ⟨depth, rfl⟩ : ∃ d, depth = d + 1 := ⟨depth - 1, by omega⟩
  rw [hy]
  exact hbound depth (by omega)

end Run

/-- Of runs of all depths it is said that from some depth on they end alike, with the same result
if they succeed. -/
def ending (Q : Evaluation → Prop) : Judgement Nat where
  Holds V x := ∀ s, Q s → ∃ r, r.1 ≠ .error .tooDeep ∧ (∀ a, r.1 = .ok a → V fun _ => a) ∧ Q r.2 ∧
    ∃ bound, ∀ depth ≥ bound, (x depth).outcome s = r
  pure {_ _ a} ha s hs := by
    refine ⟨(.ok a, s), nofun, ?_, hs, 0, fun _ _ => rfl⟩
    rintro _ h
    cases h
    exact ha
  bind {_ _ _ _ x f} hx hf s hs := by
    obtain ⟨⟨stop | a, t⟩, hdeep, hresult, hq, bound, hbound⟩ := hx s hs
    · refine ⟨(.error stop, t), fun hstop => hdeep ?_, nofun, hq, bound, fun depth hdepth => ?_⟩
      · cases hstop
        rfl
      · rw [Run.outcome_bind, hbound depth hdepth]
    · obtain ⟨r, hdeep', hresult', hq', bound', hbound'⟩ := hf _ (hresult a rfl) t hq
      refine ⟨r, hdeep', hresult', hq', max bound bound', fun depth hdepth => ?_⟩
      rw [Run.outcome_bind, hbound depth (by omega)]
      exact hbound' depth (by omega)

section

variable {α : Type} {Q : Evaluation → Prop}

/-- Of one computation it is said, by this, that it ends in every state that is as it should be. -/
theorem ending_iff {x : Nat → Run α} :
    (ending Q).Holds Common x ↔ ∀ s, Q s → Run.Ends Q x s := by
  constructor
  · intro h s hs
    obtain ⟨r, hdeep, -, hq, hbound⟩ := h s hs
    exact ⟨r, hdeep, hq, hbound⟩
  · intro h s hs
    obtain ⟨r, hdeep, hq, hbound⟩ := h s hs
    exact ⟨r, hdeep, fun a _ => ⟨a, rfl⟩, hq, hbound⟩

/-- A computation that does not depend on the depth. -/
theorem ending_const {x : Run α} (hdeep : ∀ s, (x.outcome s).1 ≠ .error .tooDeep)
    (hq : ∀ s, Q s → Q (x.outcome s).2) : (ending Q).Holds Common fun _ => x :=
  ending_iff.mpr fun s hs => Run.ends_const (hdeep s) (hq s hs)

/-- Building something does not depend on any depth. -/
theorem ending_building (hq : ∀ s t : Evaluation, Q s → t.toProgress = s.toProgress → Q t)
    (x : Building α) : (ending Q).Holds Common fun _ => Run.building x := by
  refine ending_const (fun s => ?_) fun s hs => hq s _ hs (Run.building_toProgress x s)
  rw [Run.building, Run.outcome_bind, Run.outcome_reading]
  rcases StateT.run x.run s.reads with ⟨f | a, reads⟩
  · rcases f with _ | _ | _ | _ | _ | _ | _ | _ | _ | _ | (_ | _ | _)
    all_goals
      intro h
      cases h
  · intro h
    cases h

end

/-! ### What is kept between statements -/

/-- The stack is a given one, and the definitions are ranked. -/
structure Evaluation.Settled {α : Type} [LT α] (rank : String → α) (stack : List Path)
    (s : Evaluation) : Prop where
  stack : s.stack = stack
  definitions : s.definitions.Ranked rank

/-- Only the progress of a state matters to whether it is settled. -/
theorem Evaluation.Settled.of_progress {α : Type} [LT α] {rank : String → α} {stack : List Path}
    {s t : Evaluation} (h : s.Settled rank stack) (ht : t.toProgress = s.toProgress) :
    t.Settled rank stack := by
  refine ⟨?_, ?_⟩
  · rw [ht]
    exact h.stack
  · rw [ht]
    exact h.definitions

namespace Context

open Provision.Run Provision.Evaluation

section Statements

variable {α : Type} [LT α] {rank : String → α} {stack : List Path}
  {host : Host} {expand : Nat → Expansion} {s : Evaluation}

/-- A body is expanded to an end in every recipe. -/
def Expanding (rank : String → α) (stack : List Path) (expand : Nat → Expansion) (body : Body) :
    Prop :=
  ∀ c : Context, (ending (Settled rank stack)).Holds Common fun depth => expand depth c body

/-- The bodies that a name may stand for are expanded to an end. -/
def Expands (rank : String → α) (stack : List Path) (expand : Nat → Expansion) (name : String) :
    Prop :=
  ∀ (parameters : OrderedMap Value) (list : List Statement),
    (Statement.define name parameters list).Ranked rank →
      Expanding rank stack expand (.statements list)

/-- Inclusions come to an end. -/
def Includes (rank : String → α) (stack : List Path) (host : Host) (expand : Nat → Expansion) :
    Prop :=
  ∀ (c : Context) (target : String),
    (ending (Settled rank stack)).Holds Common
      fun depth => c.includeRecipe host (expand depth) target

/-- What keeps the progress keeps it settled. -/
theorem settled_building {β : Type} (x : Building β) :
    (ending (Settled rank stack)).Holds Common fun _ => building x :=
  ending_building (fun _ _ hs ht => hs.of_progress ht) x

/-- A resource is added at any depth. -/
theorem addResource_ends (c : Context) (kind : Kind) (name : String) (block : Option Block) :
    (ending (Settled rank stack)).Holds Common fun _ => c.addResource kind name block := by
  refine (ending _).bind (settled_building _) ?_
  rintro _ ⟨x, rfl⟩
  refine (ending _).bind (ending_const (x := c.current) (fun _ => nofun) fun _ hs => hs) ?_
  rintro _ ⟨recipe, rfl⟩
  dsimp only
  split
  · exact ending_const (fun _ => nofun) fun _ hs => ⟨hs.stack, hs.definitions⟩
  · exact ending_const (fun _ => nofun) fun _ hs => ⟨hs.stack, hs.definitions⟩

/-- An invocation ends if the expansion of the body does. -/
theorem invoke_ends (c : Context) {d : Definition} (hbody : Expanding rank stack expand d.body)
    (name : String) (block : Option Block) :
    (ending (Settled rank stack)).Holds Common
      fun depth => c.invoke (expand depth) d name block := by
  have hmade : (ending (Settled rank stack)).Holds Common (fun depth => do
      let attributes ← building (d.attributes c.scope name block)
      let recipe ← c.current
      let id := (← get).graph.size
      happen (.child c.recipe (.ofDefinition d.name name recipe.path))
      let params := Value.ofFields attributes.entries
      expand depth ⟨id, c.scope.insert "params" (.constant params)⟩ d.body) := by
    refine (ending _).bind (settled_building _) ?_
    rintro _ ⟨attributes, rfl⟩
    refine (ending _).bind (ending_const (x := c.current) (fun _ => nofun) fun _ hs => hs) ?_
    rintro _ ⟨recipe, rfl⟩
    refine (ending _).bind (ending_const (x := get) (fun _ => nofun) fun _ hs => hs) ?_
    rintro _ ⟨s, rfl⟩
    refine (ending _).bind (ending_const (x := happen _) (fun _ => nofun)
      fun _ hs => ⟨hs.stack, hs.definitions⟩) fun _ _ => ?_
    exact hbody _
  unfold invoke
  split
  · exact (ending _).bind (ending_const (x := log _) (fun _ => nofun)
      fun _ hs => ⟨hs.stack, hs.definitions⟩) fun _ _ => hmade
  · exact hmade

/-- A definition is registered at any depth, and keeps the definitions ranked. -/
theorem define_ends {name : String} {parameters : OrderedMap Value} {body : List Statement}
    (hranked : (Statement.define name parameters body).Ranked rank) :
    (ending (Settled rank stack)).Holds Common
      fun _ => define ⟨name, parameters, .statements body⟩ := by
  refine ending_const (x := define _) (fun s => ?_) fun s hs => ?_
  · rw [outcome_define]
    split <;> exact nofun
  · have hregistered := hs.definitions.register hranked
    rw [outcome_define]
    split
    · exact hs
    · exact ⟨hs.stack, hregistered⟩

/-- The operations of statements end if inclusions do, and the bodies of what is invoked. -/
theorem statements_ending (c : Context) (hincludes : Includes rank stack host expand) :
    (ending (Settled rank stack)).Statements host expand (fun _ => c)
      (fun statement => statement.Ranked rank ∧
        ∀ name, statement.invoked? = some name → Expands rank stack expand name)
      (Expanding rank stack expand) where
  act := ending_const (x := happen _) (fun _ => nofun) fun _ hs => ⟨hs.stack, hs.definitions⟩
  identifier _ _ _ _ := settled_building _
  meaning keyword _ _ h s hs := by
    refine ⟨_, ?_, ?_, ?_, 0, fun _ _ => outcome_meaning? keyword s⟩
    · exact nofun
    · rintro _ hmeaning
      cases hmeaning
      refine ⟨_, rfl, fun _ => ending_const (fun _ => nofun) fun _ hs => hs, fun d hd => ?_⟩
      cases hkind : Kind.ofKeyword? keyword with
      | some kind => simp [hkind] at hd
      | none =>
        obtain ⟨list, hbody, hranked⟩ := hs.definitions keyword d (by simpa [hkind] using hd)
        rw [hbody]
        exact h.2 keyword (by simp [Statement.invoked?, hkind]) d.parameters list hranked
    · exact hs
  resource _ _ block _ kind name := c.addResource_ends kind name block
  invoke _ _ block _ _ hbody name := c.invoke_ends hbody name block
  define _ _ _ h := define_ends h.1
  target _ _ := settled_building _
  inclusion _ _ resolved := hincludes c resolved

/-- Statements end if the inclusions among them do, and the bodies of what they invoke. -/
theorem performAll_ends (c : Context) {list : List Statement}
    (hranked : Statement.RankedAll rank list) (hincludes : Includes rank stack host expand)
    (hexpands : ∀ name ∈ list.filterMap Statement.invoked?, Expands rank stack expand name) :
    (ending (Settled rank stack)).Holds Common fun depth => c.performAll host (expand depth) list :=
  (c.statements_ending hincludes).performAll fun statement hmem =>
    ⟨Statement.rankedAll_iff.mp hranked statement hmem, fun name hname =>
      hexpands name (List.mem_filterMap.mpr ⟨statement, hmem, hname⟩)⟩

end Statements

/-! ### Files -/

/-- How many files are not on the stack. -/
def pending (files stack : List Path) : Nat := files.countP fun f => !stack.any (·.same f)

/-- One file fewer is left when one of them is put on the stack. -/
theorem pending_lt {files stack : List Path} {path : Path} (hfile : ∃ f ∈ files, f.same path = true)
    (hnew : ¬stack.any (·.same path) = true) :
    pending files (stack ++ [path]) < pending files stack := by
  obtain ⟨f, hf, hsame⟩ := hfile
  have hold : f ∈ files.filter fun f => !stack.any (·.same f) := by
    refine List.mem_filter.mpr ⟨hf, ?_⟩
    rw [Bool.not_eq_true', List.any_eq_false]
    intro q hq hqf
    refine hnew (List.any_eq_true.mpr ⟨q, hq, ?_⟩)
    rw [Path.same, beq_iff_eq] at hsame hqf ⊢
    exact hqf.trans hsame
  have hgone : ¬(!path.same f) = true := by
    rw [Path.same, beq_iff_eq] at hsame
    simp [Path.same, hsame]
  -- Of the files that were not on the stack, those are left that are not the new one.
  have hafter : (files.filter fun f => !(stack ++ [path]).any (·.same f)) =
      (files.filter fun f => !stack.any (·.same f)).filter fun f => !path.same f := by
    rw [List.filter_filter]
    refine List.filter_congr fun g _ => ?_
    rw [List.any_append, Bool.not_or, Bool.and_comm, List.any_cons, List.any_nil, Bool.or_false]
  unfold pending
  rw [List.countP_eq_length_filter, List.countP_eq_length_filter, hafter]
  exact List.length_filter_lt_length_iff_exists.mpr ⟨f, hold, hgone⟩

section Files

variable {α : Type} [LT α] {rank : String → α} {host : Host} {files : List Path}

/-- Inclusions end if the statements of the files end that are not on the stack. -/
theorem includes_of_files {stack : List Path}
    (hends : ∀ path list, host.recipe path = .ok list → ¬stack.any (·.same path) = true →
      ∀ (c : Context) (t : Evaluation), t.Settled rank (stack ++ [path]) →
        Ends (Settled rank (stack ++ [path]))
          (fun depth => build host depth c (.statements list)) t) :
    Includes rank stack host (build host) := by
  refine fun c target => ending_iff.mpr fun t ht => ?_
  let path := c.included host t target
  by_cases hpresent : host.present path = true
  · by_cases hfile : t.graph.HasFile c.recipe path
    · have hagain (depth : Nat) :=
        c.outcome_includeRecipe_again (build host depth) hpresent hfile
      exact (ends_const (x := log (skipped path)) nofun ⟨ht.stack, ht.definitions⟩).congr hagain
    · by_cases hcycle : t.stack.any (·.same path) = true
      · have hcyclic (depth : Nat) :=
          c.outcome_includeRecipe_cycle (build host depth) hpresent hfile hcycle
        exact (ends_const (x := Run.fail (.includeCycle (t.stack ++ [path]))) nofun ht).congr
          hcyclic
      -- However the file ends, it is taken off the stack again.
      · have hleft {u : Evaluation} (hu : u.Settled rank (stack ++ [path])) :
            (u.after .leave).Settled rank stack := by
          refine ⟨?_, hu.definitions⟩
          change u.stack.dropLast = stack
          rw [hu.stack, List.dropLast_concat]
        have hentered : (t.after (.enter path)).Settled rank (stack ++ [path]) :=
          ⟨congrArg (· ++ [path]) ht.stack, ht.definitions⟩
        cases hread : host.recipe path with
        | error f =>
          have hunread (depth : Nat) :=
            c.outcome_includeRecipe_unread (build host depth) hpresent hfile hcycle hread
          exact ⟨(.error (.failure f), _), nofun, hleft hentered, 0, fun depth _ => hunread depth⟩
        | ok list =>
          obtain ⟨r, hdeep, hr, bound, hbound⟩ := hends path list hread (ht.stack ▸ hcycle)
            ⟨t.graph.size, c.scope⟩ ((t.after (.enter path)).after (.child c.recipe (.ofFile path)))
            ⟨hentered.stack, hentered.definitions⟩
          refine ⟨(r.1, r.2.after .leave), hdeep, hleft hr, bound, fun depth hdepth => ?_⟩
          rw [c.outcome_includeRecipe_read (build host depth) hpresent hfile hcycle hread,
            ← hbound depth hdepth]
  · have habsent (depth : Nat) :=
      c.outcome_includeRecipe_absent (build host depth) (Bool.not_eq_true _ ▸ hpresent)
    exact (ends_const (x := Run.fail (.recipeNotFound target path)) nofun ht).congr habsent

/-- If inclusions end, then so do the bodies of definitions. -/
theorem expands_of_includes [WellFoundedLT α] {stack : List Path}
    (hincludes : Includes rank stack host (build host)) (name : String) :
    Expands rank stack (build host) name := by
  induction hrank : rank name using WellFoundedLT.induction generalizing name with
  | _ r ih =>
    intro parameters list hranked c
    obtain ⟨hbelow, hbody⟩ := hranked
    refine ending_iff.mpr fun t ht => ?_
    have hends := ending_iff.mp (c.performAll_ends hbody hincludes fun other hother =>
      ih (rank other) (hrank ▸ hbelow other hother) other rfl) t ht
    exact hends.deeper fun _ => rfl

/-- Statements end, by the files that are left, the ranks of definitions and the statements
themselves. -/
theorem statements_end [WellFoundedLT α] (hfiles : ∀ path list, host.recipe path = .ok list →
      ∃ f ∈ files, f.same path = true)
    (hranked : ∀ path list, host.recipe path = .ok list → Statement.RankedAll rank list)
    (stack : List Path) (c : Context) {list : List Statement}
    (hlist : Statement.RankedAll rank list) {s : Evaluation} (hs : s.Settled rank stack) :
    Ends (Settled rank stack) (fun depth => build host depth c (.statements list)) s := by
  induction hn : pending files stack using Nat.strongRecOn generalizing stack c list s with
  | _ n ih =>
    have hincludes : Includes rank stack host (build host) := by
      refine includes_of_files fun path list hread hnew c t ht => ?_
      have hlt := pending_lt (hfiles path list hread) hnew
      exact ih _ (hn ▸ hlt) (stack ++ [path]) c (hranked path list hread) ht rfl
    have hends := ending_iff.mp (c.performAll_ends hlist hincludes fun name _ =>
      expands_of_includes hincludes name) s hs
    exact hends.deeper fun _ => rfl

end Files

end Context

/-- A load ends if there are finitely many files and the definitions are ranked, in the files
as well as in the table it starts from. Whatever files are included from where, and whatever
is redefined on the way, from some depth on the outcome is the same, a result or a failure
that is not for lack of depth. -/
theorem Evaluation.load_terminates {α : Type} [LT α] [WellFoundedLT α] (rank : String → α)
    (host : Host) (files : List Path)
    (hfiles : ∀ path text, host.read path = .ok text → ∃ f ∈ files, f.same path = true)
    (hranked : ∀ path list, host.recipe path = .ok list → Statement.RankedAll rank list)
    (s : Evaluation) (hdefinitions : s.definitions.Ranked rank) (path : Path) (scope : Scope) :
    ∃ r : Except Stop Nat × Evaluation, r.1 ≠ .error .tooDeep ∧
      ∃ bound, ∀ depth ≥ bound, (load host depth path scope).outcome s = r := by
  have hread (path : Path) (list : List Statement) (h : host.recipe path = .ok list) :
      ∃ f ∈ files, f.same path = true := by
    obtain ⟨text, htext, -⟩ := Host.read_of_recipe h
    exact hfiles path text htext
  -- What fails before the file is built fails in the same way at every depth.
  have hfails {f : Failure} {t : Evaluation}
      (h : ∀ depth, (load host depth path scope).outcome s = (.error (.failure f), t)) :
      ∃ r : Except Stop Nat × Evaluation, r.1 ≠ .error .tooDeep ∧
        ∃ bound, ∀ depth ≥ bound, (load host depth path scope).outcome s = r :=
    ⟨(.error (.failure f), t), nofun, 0, fun depth _ => h depth⟩
  let p := absolute host path
  by_cases hguard : (!host.present p || host.isDirectory p) = true
  · exact hfails fun depth => outcome_load_absent depth scope s hguard
  · cases hlist : host.recipe p with
    | error f => exact hfails fun depth => outcome_load_unread depth scope s hguard hlist
    | ok list =>
      by_cases hcycle : s.stack.any (·.same p) = true
      · exact hfails fun depth => outcome_load_cycle depth scope s hguard hlist hcycle
      · obtain ⟨⟨r, t⟩, hdeep, -, bound, hbound⟩ := Context.statements_end hread hranked
          (s.stack ++ [p]) ⟨s.graph.size, scope⟩ (hranked p list hlist)
          (s := (s.opened p).after (.enter p)) ⟨rfl, hdefinitions⟩
        refine ⟨(r.map fun _ => s.graph.size, t.after .leave), fun hstop => hdeep ?_, bound,
          fun depth hdepth => ?_⟩
        · cases r with
          | error stop =>
            cases hstop
            rfl
          | ok _ => cases hstop
        · rw [outcome_load_new depth scope s hguard hlist hcycle]
          dsimp only
          rw [hbound depth hdepth]

/-- A machine with a file that defines a name by its own inclusion, and then invokes it. -/
def circularFile : Host :=
  .ofFacts
    [(⟨"/a.yml"⟩,
      some (.file (.ok "[{define: web, body: [{include_recipe: /a.yml}]}, {web: x}]")))]
    none ⟨"/"⟩

/-- The names in the file can be ranked alike, as the body does not invoke any. -/
theorem circularFile_ranked {path : Path} {list : List Statement}
    (h : circularFile.recipe path = .ok list) :
    Statement.RankedAll (fun _ : String => 0) list := by
  have hread : ∀ list ∈ (Statement.ofText
      "[{define: web, body: [{include_recipe: /a.yml}]}, {web: x}]" ⟨"/a.yml"⟩).toOption,
      Statement.RankedAll (fun _ : String => 0) list := by
    decide +kernel
  refine hread list ?_
  rw [Host.recipe_of_one h]
  rfl

/-- The load of a file that includes itself through a definition ends all the same. -/
theorem Evaluation.load_terminates_circular :
    ∃ r : Except Stop Nat × Evaluation, r.1 ≠ .error .tooDeep ∧
      ∃ bound, ∀ depth ≥ bound,
        (load circularFile depth ⟨"/a.yml"⟩ {}).outcome Evaluation.empty = r :=
  load_terminates (fun _ => 0) circularFile [⟨"/a.yml"⟩]
    (fun _ _ h => ⟨_, List.mem_singleton_self _, (Host.read_of_one h).1⟩)
    (fun _ _ h => circularFile_ranked h) Evaluation.empty nofun ⟨"/a.yml"⟩ {}

end Provision
