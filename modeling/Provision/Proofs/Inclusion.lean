import Provision.Proofs.Evaluation.Nesting

/-!
# Inclusions

A file that is being evaluated cannot be included once more below itself, and a recipe
includes a file only once. The first is decided by the stack, which in a loaded tree has
exactly the files above the recipe that includes. The second is decided by the files right
in that recipe, and by nothing deeper or elsewhere.
-/

namespace Provision

namespace Context

section Cases

variable {host : Host} (expand : Expansion) (c : Context) {target : String} {s : Evaluation}

/-- A file that is not there is not included. -/
theorem outcome_includeRecipe_absent (h : host.present (c.included host s target) = false) :
    (c.includeRecipe host expand target).outcome s =
      (.error (.failure (.recipeNotFound target (c.included host s target))), s) := by
  rw [outcome_includeRecipe]
  exact if_pos h

/-- A file that is nested right in the recipe is passed over. -/
theorem outcome_includeRecipe_again (h : host.present (c.included host s target) = true)
    (hfile : s.graph.HasFile c.recipe (c.included host s target)) :
    (c.includeRecipe host expand target).outcome s =
      (.ok (), { s with log := s.log ++ [skipped (c.included host s target)] }) := by
  have hold := (isIncluded_iff s.toProgress _ _).mpr hfile
  have hthere : ¬host.present (c.included host s target) = false := by simp [h]
  rw [outcome_includeRecipe]
  dsimp only
  rw [if_neg hthere, if_pos hold]

/-- Any other file is put on the stack while it is included. -/
theorem outcome_includeRecipe_new (h : host.present (c.included host s target) = true)
    (hnew : ¬s.graph.HasFile c.recipe (c.included host s target)) :
    (c.includeRecipe host expand target).outcome s =
      (Run.within (c.included host s target)
        (c.includeFile host expand (c.included host s target))).outcome s := by
  have hnot := mt (isIncluded_iff s.toProgress _ _).mp hnew
  have hthere : ¬host.present (c.included host s target) = false := by simp [h]
  rw [outcome_includeRecipe]
  dsimp only
  rw [if_neg hthere, if_neg hnot]

/-- If it is on the stack already, then this is a cycle. -/
theorem outcome_includeRecipe_cycle (h : host.present (c.included host s target) = true)
    (hnew : ¬s.graph.HasFile c.recipe (c.included host s target))
    (hcycle : s.stack.any (·.same (c.included host s target)) = true) :
    (c.includeRecipe host expand target).outcome s =
      (.error (.failure (.includeCycle (s.stack ++ [c.included host s target]))), s) := by
  rw [outcome_includeRecipe_new expand c h hnew, Run.outcome_within, if_pos hcycle]

/-- If it is not a recipe, then nothing is left of it. -/
theorem outcome_includeRecipe_unread {f : Failure}
    (h : host.present (c.included host s target) = true)
    (hnew : ¬s.graph.HasFile c.recipe (c.included host s target))
    (hacyclic : ¬s.stack.any (·.same (c.included host s target)) = true)
    (hread : host.recipe (c.included host s target) = .error f) :
    (c.includeRecipe host expand target).outcome s =
      (.error (.failure f), (s.after (.enter (c.included host s target))).after .leave) := by
  rw [outcome_includeRecipe_new expand c h hnew, Run.outcome_within, if_neg hacyclic,
    outcome_includeFile, hread]

/-- If it is a recipe, then it is evaluated in a new child. -/
theorem outcome_includeRecipe_read {list : List Statement}
    (h : host.present (c.included host s target) = true)
    (hnew : ¬s.graph.HasFile c.recipe (c.included host s target))
    (hacyclic : ¬s.stack.any (·.same (c.included host s target)) = true)
    (hread : host.recipe (c.included host s target) = .ok list) :
    (c.includeRecipe host expand target).outcome s =
      let path := c.included host s target
      let r := (expand ⟨s.graph.size, c.scope⟩ (.statements list)).outcome
        ((s.after (.enter path)).after (.child c.recipe (.ofFile path)))
      (r.1, r.2.after .leave) := by
  rw [outcome_includeRecipe_new expand c h hnew, Run.outcome_within, if_neg hacyclic,
    outcome_includeFile, hread]
  rfl

end Cases

/-- An inclusion fails of itself, whatever the building of the included file comes to. -/
def Raises (host : Host) (c : Context) (target : String) (s : Evaluation) (f : Failure) : Prop :=
  ∀ expand : Expansion, ((c.includeRecipe host expand target).outcome s).1 = .error (.failure f)

/-- An inclusion finds a cycle exactly if the file is there, is not included already, and is
on the stack. It reports the stack and the file after it. -/
theorem raises_includeCycle_iff (host : Host) (c : Context) (target : String) (s : Evaluation)
    (chain : List Path) :
    c.Raises host target s (.includeCycle chain) ↔
      let path := c.included host s target
      host.present path = true ∧ ¬s.graph.HasFile c.recipe path ∧
        s.stack.any (·.same path) = true ∧ chain = s.stack ++ [path] := by
  dsimp only
  constructor
  · -- An expansion that does nothing tells a cycle from what is found later on.
    intro h
    let idle : Expansion := fun _ _ => pure ()
    have hidle := h idle
    by_cases hpresent : host.present (c.included host s target) = true
    · by_cases hfile : s.graph.HasFile c.recipe (c.included host s target)
      · rw [outcome_includeRecipe_again idle c hpresent hfile] at hidle
        cases hidle
      · by_cases hcycle : s.stack.any (·.same (c.included host s target)) = true
        · rw [outcome_includeRecipe_cycle idle c hpresent hfile hcycle] at hidle
          cases hidle
          exact ⟨hpresent, hfile, hcycle, rfl⟩
        · cases hread : host.recipe (c.included host s target) with
          | error f =>
            rw [outcome_includeRecipe_unread idle c hpresent hfile hcycle hread] at hidle
            cases hidle
            rcases Host.recipe_error hread with ⟨_, hf⟩ | ⟨_, hf⟩ | ⟨_, hf⟩ <;> cases hf
          | ok list =>
            rw [outcome_includeRecipe_new idle c hpresent hfile, Run.outcome_within,
              if_neg hcycle, outcome_includeFile, hread] at hidle
            cases hidle
    · rw [outcome_includeRecipe_absent idle c (Bool.not_eq_true _ ▸ hpresent)] at hidle
      cases hidle
  · rintro ⟨hpresent, hnew, hcycle, rfl⟩ expand
    rw [outcome_includeRecipe_cycle expand c hpresent hnew hcycle]

/-- A file whose inclusion succeeds has brought a recipe. -/
theorem size_lt_of_within_includeFile {host : Host} {depth : Nat} {c : Context} {path : Path}
    {s t : Evaluation}
    (h : (Run.within path (c.includeFile host (build host depth) path)).outcome s = (.ok (), t)) :
    s.graph.size < t.graph.size := by
  rw [Run.outcome_within] at h
  split at h
  · cases h
  · rw [outcome_includeFile] at h
    cases hread : host.recipe path with
    | error f =>
      rw [hread] at h
      cases h
    | ok list =>
      rw [hread] at h
      let begun := (s.after (.enter path)).after (.child c.recipe (.ofFile path))
      obtain ⟨es, -, hend⟩ :=
        build_follows host depth ⟨s.graph.size, c.scope⟩ (.statements list) begun
      have ht : t.graph = (begun.toProgress.replay es).graph := by
        rw [← hend]
        exact congrArg (fun r => r.2.graph) h.symm
      have hbegun : begun.graph.size = s.graph.size + 1 := Graph.size_addChild _ _ _
      have hle := (Progress.grows_replay begun.toProgress es).size_le
      rw [ht]
      omega

/-- An inclusion succeeds without adding anything exactly if the file is there and the recipe
has it nested right in it. -/
theorem includeRecipe_idle_iff (host : Host) (depth : Nat) (c : Context) (target : String)
    (s : Evaluation) :
    let done := (c.includeRecipe host (build host depth) target).outcome s
    (done.1 = .ok () ∧ done.2.graph = s.graph) ↔
      host.present (c.included host s target) = true ∧
        s.graph.HasFile c.recipe (c.included host s target) := by
  dsimp only
  by_cases hpresent : host.present (c.included host s target) = true
  · by_cases hfile : s.graph.HasFile c.recipe (c.included host s target)
    · rw [outcome_includeRecipe_again _ c hpresent hfile]
      exact ⟨fun _ => ⟨hpresent, hfile⟩, fun _ => ⟨rfl, rfl⟩⟩
    · rw [outcome_includeRecipe_new _ c hpresent hfile]
      constructor
      · rintro ⟨hok, hsame⟩
        have hlt := size_lt_of_within_includeFile (Prod.ext hok rfl)
        rw [hsame] at hlt
        exact absurd hlt (Nat.lt_irrefl _)
      · rintro ⟨-, hold⟩
        exact absurd hold hfile
  · rw [outcome_includeRecipe_absent _ c (Bool.not_eq_true _ ▸ hpresent)]
    constructor
    · rintro ⟨hok, -⟩
      cases hok
    · rintro ⟨hthere, -⟩
      exact absurd hthere hpresent

/-- The stack is the same after a step as before, however the step ends. -/
theorem step_stack (host : Host) (depth : Nat) (c : Context) (st : Step) (s : Evaluation) :
    ((c.step host (build host depth) st).outcome s).2.stack = s.stack := by
  obtain ⟨es, hes, hend⟩ := c.step_build_follows host depth st s
  rw [hend]
  exact hes.stack_replay

end Context

/-- The stack is the same after a load as before, however the load ends. -/
theorem Evaluation.load_stack (host : Host) (depth : Nat) (path : Path) (scope : Scope)
    (s : Evaluation) : ((load host depth path scope).outcome s).2.stack = s.stack := by
  obtain ⟨es, hes, hend⟩ := load_follows host depth path scope s
  rw [hend]
  exact hes.stack_replay

/-- What holds while something is performed for a recipe. There is a line down to it. If the
root of the line was loaded, then the stack has the files on the line, outermost first, and
an inclusion by the recipe finds a cycle exactly if the file is there, is not nested right in
the recipe, and is one of those on the line. What it reports is the stack, on which no file
stands twice, and the file, which stands on it. -/
structure Progress.Disciplined (p : Progress) (loaded : List Nat) (id : Nat) : Prop where
  line : ∃ root above, p.graph.Line root above id
  stack : ∀ root ∈ loaded, ∀ above, p.graph.Line root above id →
    p.stack = p.graph.files (above ++ [id])
  cycle : ∀ root ∈ loaded, ∀ above, p.graph.Line root above id →
    ∀ (host : Host) (c : Context) (target : String) (s : Evaluation), c.recipe = id →
      s.graph = p.graph → s.stack = p.stack →
      ((∃ chain, c.Raises host target s (.includeCycle chain)) ↔
        host.present (c.included host s target) = true ∧
          ¬p.graph.HasFile id (c.included host s target) ∧
          ∃ q ∈ p.graph.files (above ++ [id]), q.same (c.included host s target) = true)
  chain : ∀ (host : Host) (c : Context) (target : String) (s : Evaluation) (chain : List Path),
    s.stack = p.stack → c.Raises host target s (.includeCycle chain) →
      chain = p.stack ++ [c.included host s target] ∧ Path.Distinct p.stack ∧
        ∃ q ∈ p.stack, q.same (c.included host s target) = true

/-- A recipe that is tracked is disciplined, its line being the only one. -/
theorem Progress.Tracks.disciplined {p : Progress} {loaded : List Nat} {id : Nat}
    (h : p.Tracks loaded id) (hp : p.Sound loaded) : p.Disciplined loaded id := by
  obtain ⟨root, above, hline, htop⟩ := h
  have hstack : ∀ root' ∈ loaded, ∀ above', p.graph.Line root' above' id →
      p.stack = p.graph.files (above' ++ [id]) := by
    intro root' hroot' above' hline'
    obtain ⟨hr, ha⟩ := hline.unique hp.forest hline'
    subst hr ha
    exact htop hroot'
  refine ⟨⟨root, above, hline⟩, hstack, ?_, ?_⟩
  · intro root' hroot' above' hline' host c target s hc hg hs
    rw [← hstack root' hroot' above' hline', ← hs, ← hg, ← hc, ← List.any_eq_true]
    constructor
    · rintro ⟨chain, hraises⟩
      obtain ⟨hpresent, hnew, hcycle, -⟩ :=
        (c.raises_includeCycle_iff host target s chain).mp hraises
      exact ⟨hpresent, hnew, hcycle⟩
    · rintro ⟨hpresent, hnew, hcycle⟩
      exact ⟨_, (c.raises_includeCycle_iff host target s _).mpr ⟨hpresent, hnew, hcycle, rfl⟩⟩
  · intro host c target s chain hs hraises
    obtain ⟨-, -, hcycle, hchain⟩ := (c.raises_includeCycle_iff host target s chain).mp hraises
    rw [hs] at hcycle hchain
    exact ⟨hchain, hp.stack, List.any_eq_true.mp hcycle⟩

namespace Session

/-- No file stands on the stack twice at any moment, every operation leaves the stack as it
was, at any depth and however it ends, and while a recipe is evaluated that was loaded, or
was brought by one that was, the stack has exactly the files on the line down to it. So an
inclusion finds a cycle exactly if the file is being evaluated on that line. -/
theorem Reachable.inclusion_stack {host : Host} {depth : Nat} {s s' : Session} (hs : Reachable s)
    (hn : Next host depth s s') :
    s'.state.stack = s.state.stack ∧ Path.Distinct s'.state.stack ∧
      (∃ es, s'.state.toProgress = s.state.toProgress.replay es ∧
        Throughout (fun p e => Path.Distinct p.stack ∧
          ∀ id, e = .act id → p.Disciplined s'.loaded id) s.state.toProgress es) ∧
      (∀ (inner : Nat) (c : Context) (st : Step) (t : Evaluation),
        ((c.step host (Context.build host inner) st).outcome t).2.stack = t.stack) ∧
      ∀ (inner : Nat) (path : Path) (scope : Scope) (t : Evaluation),
        ((Evaluation.load host inner path scope).outcome t).2.stack = t.stack := by
  obtain ⟨hs', es, hend, hmoments⟩ := hs.sound.next hn
  refine ⟨hs'.stack.trans hs.sound.stack.symm, hs'.state.stack, ⟨es, hend, ?_⟩, ?_, ?_⟩
  · refine hmoments.imp fun p e hattended => ⟨hattended.1.stack, fun id hid => ?_⟩
    exact (hattended.2 id hid).disciplined hattended.1
  · exact fun inner c st t => c.step_stack host inner st t
  · exact fun inner path scope t => Evaluation.load_stack host inner path scope t

/-- A machine with one recipe file, in which nothing is declared. -/
def oneFile : Host := .ofFacts [(⟨"/a.yml"⟩, some (.file (.ok "")))] none ⟨"/"⟩

/-- The session after the file is loaded. -/
def afterLoad : Session := start.load oneFile 1 ⟨"a.yml"⟩ {}

set_option maxRecDepth 4096 in
/-- A load begins a root and leaves the stack empty. -/
theorem inclusion_stack_load :
    (afterLoad.state.stack = start.state.stack ∧ Path.Distinct afterLoad.state.stack ∧
      (∃ es, afterLoad.state.toProgress = start.state.toProgress.replay es ∧
        Throughout (fun p e => Path.Distinct p.stack ∧
          ∀ id, e = .act id → p.Disciplined afterLoad.loaded id) start.state.toProgress es) ∧
      (∀ (inner : Nat) (c : Context) (st : Step) (t : Evaluation),
        ((c.step oneFile (Context.build oneFile inner) st).outcome t).2.stack = t.stack) ∧
      ∀ (inner : Nat) (path : Path) (scope : Scope) (t : Evaluation),
        ((Evaluation.load oneFile inner path scope).outcome t).2.stack = t.stack) ∧
    afterLoad.loaded = [0] :=
  ⟨Reachable.start.inclusion_stack (.load ⟨"a.yml"⟩ {}), rfl⟩

/-- No recipe has a file nested right in it twice, and below a root that was loaded no file
comes below itself, whatever recipes of definitions lie between. An inclusion that succeeds
adds nothing exactly if the file is there and is nested right in the recipe: neither recipes
of definitions nor files that are deeper or elsewhere keep it from adding. -/
theorem Reachable.inclusion_once {s : Session} (hs : Reachable s) :
    (∀ id, Path.Distinct (s.state.graph.files (s.state.graph.nested id))) ∧
      (∀ root ∈ s.loaded, ∀ above id, s.state.graph.Line root above id →
        Path.Distinct (s.state.graph.files (above ++ [id]))) ∧
      ∀ (host : Host) (depth : Nat) (c : Context) (target : String) (t : Evaluation),
        let done := (c.includeRecipe host (Context.build host depth) target).outcome t
        (done.1 = .ok () ∧ done.2.graph = t.graph) ↔
          host.present (c.included host t target) = true ∧
            t.graph.HasFile c.recipe (c.included host t target) := by
  refine ⟨hs.sound.state.siblings, hs.sound.state.lines, ?_⟩
  intro host depth c target t
  exact c.includeRecipe_idle_iff host depth target t

/-- The session after a recipe has included the file twice. -/
def afterTwice : Session :=
  let begun := start.root ⟨"/r.yml"⟩ {}
  let once := begun.step oneFile 1 ⟨0, {}⟩ (.includeRecipe "a.yml")
  once.step oneFile 1 ⟨0, {}⟩ (.includeRecipe "/a.yml")

set_option maxRecDepth 8192 in
/-- The file is nested in the recipe once. -/
theorem inclusion_once_twice :
    ((∀ id, Path.Distinct (afterTwice.state.graph.files (afterTwice.state.graph.nested id))) ∧
      (∀ root ∈ afterTwice.loaded, ∀ above id, afterTwice.state.graph.Line root above id →
        Path.Distinct (afterTwice.state.graph.files (above ++ [id]))) ∧
      ∀ (host : Host) (depth : Nat) (c : Context) (target : String) (t : Evaluation),
        let done := (c.includeRecipe host (Context.build host depth) target).outcome t
        (done.1 = .ok () ∧ done.2.graph = t.graph) ↔
          host.present (c.included host t target) = true ∧
            t.graph.HasFile c.recipe (c.included host t target)) ∧
    afterTwice.state.graph.files (afterTwice.state.graph.nested 0) = [⟨"/a.yml"⟩] := by
  have hbegins : Next oneFile 1 start (start.root ⟨"/r.yml"⟩ {}) := .root _ _
  have htwice : Reachable afterTwice :=
    .next (.next (.next .start hbegins) (.step ⟨0, {}⟩ _ rfl)) (.step ⟨0, {}⟩ _ rfl)
  exact ⟨htwice.inclusion_once, rfl⟩

end Session

end Provision
