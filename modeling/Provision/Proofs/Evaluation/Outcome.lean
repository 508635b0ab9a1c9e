import Provision.Evaluation.Session

/-!
# The outcomes of computations

One equation for each way in which a computation is put together, and one for each
operation on a recipe: what it gives in a state and what state it leaves. Later proofs
cite these equations and do not open the definitions.
-/

namespace Provision

/-- An event changes only how far the run has come. -/
@[simp] theorem Evaluation.after_toProgress (s : Evaluation) (e : Event) :
    (s.after e).toProgress = s.toProgress.after e := rfl

/-- Every event is written in the journal. -/
@[simp] theorem Progress.after_journal (p : Progress) (e : Event) :
    (p.after e).journal = p.journal ++ [e] := rfl

/-! ### Recipe files -/

/-- A recipe file has been read. -/
theorem Host.read_of_recipe {host : Host} {path : Path} {list : List Statement}
    (h : host.recipe path = .ok list) :
    ∃ text, host.read path = .ok text ∧ Statement.ofText text path = .ok list := by
  rw [Host.recipe] at h
  cases htext : host.read path with
  | error reason =>
    rw [htext] at h
    cases h
  | ok text =>
    rw [htext] at h
    exact ⟨text, rfl, h⟩

/-- A recipe file cannot be read, or its text is not a document or not a recipe. -/
theorem Host.recipe_error {host : Host} {path : Path} {f : Failure}
    (h : host.recipe path = .error f) :
    (∃ reason, f = .unreadable path reason) ∨ (∃ reason, f = .malformedDocument path reason) ∨
      ∃ fault, f = .malformedRecipe path fault := by
  rw [Host.recipe] at h
  cases hread : host.read path with
  | error reason =>
    rw [hread] at h
    cases h
    exact .inl ⟨reason, rfl⟩
  | ok text =>
    rw [hread] at h
    change Statement.ofText text path = _ at h
    rw [Statement.ofText] at h
    cases hyaml : Yaml.read text with
    | error cause =>
      rw [hyaml] at h
      cases h
      exact .inr (.inl ⟨_, rfl⟩)
    | ok v =>
      rw [hyaml] at h
      change (Statement.ofDocument v).mapError _ = _ at h
      cases hdocument : Statement.ofDocument v with
      | error fault =>
        rw [hdocument] at h
        cases h
        exact .inr (.inr ⟨fault, rfl⟩)
      | ok list =>
        rw [hdocument] at h
        cases h

/-- The path of a text matters to failures alone. -/
theorem Statement.ofText_path {text : String} {path : Path} {list : List Statement} (other : Path)
    (h : ofText text path = .ok list) : ofText text other = .ok list := by
  rw [ofText] at h ⊢
  cases hread : Yaml.read text with
  | error cause =>
    rw [hread] at h
    cases h
  | ok v =>
    rw [hread] at h
    dsimp only at h ⊢
    cases hv : ofDocument v with
    | error fault =>
      rw [hv] at h
      cases h
    | ok list' =>
      rw [hv] at h
      exact h

/-- On a machine with one file, that is the only one that can be read. -/
theorem Host.read_of_one {file path current : Path} {text text' : String}
    (h : (Host.ofFacts [(file, some (.file (.ok text)))] none current).read path = .ok text') :
    file.same path = true ∧ text' = text := by
  cases hsame : file.same path with
  | false => simp [ofFacts, hsame] at h
  | true =>
    simp only [ofFacts, List.find?_cons, hsame] at h
    cases h
    exact ⟨rfl, rfl⟩

/-- If the one file that there is reads as a recipe, it does so by its own text. -/
theorem Host.recipe_of_one {file path current : Path} {text : String} {list : List Statement}
    (h : (Host.ofFacts [(file, some (.file (.ok text)))] none current).recipe path = .ok list) :
    Statement.ofText text file = .ok list := by
  obtain ⟨text', htext, hlist⟩ := read_of_recipe h
  rw [(read_of_one htext).2] at hlist
  exact Statement.ofText_path file hlist

/-! ### Failures and results of building -/

/-- One computation after another goes on from the reads that the first has left. -/
theorem Reads.run_bind {ε α β : Type} (x : ExceptT ε (StateM Reads) α)
    (k : α → ExceptT ε (StateM Reads) β) (reads : Reads) :
    (x >>= k).run.run reads =
      match x.run.run reads with
      | (.ok a, reads') => (k a).run.run reads'
      | (.error e, reads') => (.error e, reads') := by
  change StateT.run (ExceptT.run x >>= ExceptT.bindCont k) reads = _
  rw [StateT.run_bind]
  change StateT.run (ExceptT.bindCont k (x.run.run reads).1) (x.run.run reads).2 = _
  rcases x.run.run reads with ⟨_ | _, _⟩ <;> rfl

/-- A function of a result changes nothing but the result. -/
theorem Reads.run_map {ε α β : Type} (x : ExceptT ε (StateM Reads) α) (f : α → β)
    (reads : Reads) :
    (f <$> x).run.run reads = ((x.run.run reads).1.map f, (x.run.run reads).2) := by
  rw [map_eq_pure_bind, run_bind]
  rcases x.run.run reads with ⟨_ | _, _⟩ <;> rfl

/-- Reads alone do not fail. -/
theorem Reads.run_lift {ε α : Type} (x : StateM Reads α) (reads : Reads) :
    (ExceptT.lift x : ExceptT ε (StateM Reads) α).run.run reads =
      (.ok (x.run reads).1, (x.run reads).2) := rfl

/-- A computation on the reads fails only with failures of some kind. -/
def Building.FailsOnly {α : Type} (P : Failure → Prop) (x : Building α) : Prop :=
  ∀ reads f, (x.run.run reads).1 = .error f → P f

/-- A computation on the reads gives only results of some kind. -/
def Building.Yields {α : Type} (Q : α → Prop) (x : Building α) : Prop :=
  ∀ reads a, (x.run.run reads).1 = .ok a → Q a

namespace Building

variable {α β : Type} {P : Failure → Prop}

/-- A value that has the property is a result that has it. -/
theorem yields_pure {Q : α → Prop} {a : α} (h : Q a) : Yields Q (pure a : Building α) := by
  intro reads b hb
  cases hb
  exact h

/-- What follows on results with a property may rely on it. -/
theorem Yields.bind {Q : α → Prop} {Q' : β → Prop} {x : Building α} {k : α → Building β}
    (hx : x.Yields Q) (hk : ∀ a, Q a → (k a).Yields Q') : (x >>= k).Yields Q' := by
  intro reads b h
  rw [Reads.run_bind] at h
  have hxa := hx reads
  rcases hr : x.run.run reads with ⟨f | a, reads'⟩
  · rw [hr] at h
    cases h
  · rw [hr] at h hxa
    exact hk a (hxa a rfl) reads' b h

/-- A computation of which nothing is known. -/
theorem yields_trivial (x : Building α) : Yields (fun _ => True) x := fun _ _ _ => trivial

/-- Results are collected, each of them with the property. -/
theorem yields_mapM {Q : β → Prop} {k : α → Building β} (hk : ∀ a, (k a).Yields Q)
    (list : List α) : (list.mapM k).Yields fun bs => ∀ b ∈ bs, Q b := by
  induction list with
  | nil =>
    rw [List.mapM_nil]
    exact yields_pure nofun
  | cons a rest ih =>
    rw [List.mapM_cons]
    refine (hk a).bind fun b hb => ih.bind fun bs hbs => yields_pure ?_
    exact List.forall_mem_cons.mpr ⟨hb, hbs⟩

/-- What gives a value at once does not fail. -/
theorem failsOnly_pure (a : α) : FailsOnly P (pure a : Building α) := by
  intro reads f h
  cases h

/-- A failure is of the sort that it is. -/
theorem failsOnly_throw {f : Failure} (h : P f) : FailsOnly P (throw f : Building α) := by
  intro reads f' h'
  cases h'
  exact h

/-- A sequence fails only as its parts do. -/
theorem FailsOnly.bind {x : Building α} {k : α → Building β} (hx : x.FailsOnly P)
    (hk : ∀ a, (k a).FailsOnly P) : (x >>= k).FailsOnly P := by
  intro reads f h
  rw [Reads.run_bind] at h
  have hxf := hx reads
  rcases hr : x.run.run reads with ⟨f' | a, reads'⟩
  · rw [hr] at h hxf
    cases h
    exact hxf f rfl
  · rw [hr] at h
    exact hk a reads' f h

/-- A fold fails only as its steps do. -/
theorem failsOnly_foldlM {k : β → α → Building β} (hk : ∀ b a, (k b a).FailsOnly P) (b : β)
    (list : List α) : (list.foldlM k b).FailsOnly P := by
  induction list generalizing b with
  | nil => exact failsOnly_pure b
  | cons a rest ih =>
    rw [List.foldlM_cons]
    exact (hk b a).bind fun b' => ih b'

end Building

/-- The attributes of an invocation fail with a parameter that the definition does not have,
or with a placeholder without a value. -/
theorem Definition.attributes_failsOnly (d : Definition) (s : Scope) (argument : String)
    (block : Option Block) : (d.attributes s argument block).FailsOnly fun f =>
      (∃ parameter, f = .unknownParameter d.name parameter) ∨ ∃ u, f = .undefined u := by
  refine (Building.failsOnly_foldlM (fun b e => ?_) _ _).bind fun _ => Building.failsOnly_pure _
  rw [set]
  split
  · refine Building.FailsOnly.bind ?_ fun _ => Building.failsOnly_pure _
    intro reads f h
    change ((s.resolve e.2).run.run reads).1.mapError _ = _ at h
    rcases hr : (s.resolve e.2).run.run reads with ⟨u | v, reads'⟩
    · rw [hr] at h
      cases h
      exact .inr ⟨u, rfl⟩
    · rw [hr] at h
      cases h
  · exact Building.failsOnly_throw (.inl ⟨e.1, rfl⟩)

/-! ### Outcomes -/

namespace Run

variable {α β : Type}

/-- A value is given, and the state stays. -/
@[simp] theorem outcome_pure (a : α) (s : Evaluation) : outcome (pure a) s = (.ok a, s) := rfl

/-- A failure stops the run, and the state stays. -/
@[simp] theorem outcome_fail (f : Failure) (s : Evaluation) :
    outcome (fail f : Run α) s = (.error (.failure f), s) := rfl

/-- The state that is asked for is the one that there is. -/
@[simp] theorem outcome_get (s : Evaluation) : outcome (get : Run Evaluation) s = (.ok s, s) := rfl

/-- The state is changed as it is said. -/
@[simp] theorem outcome_modify (f : Evaluation → Evaluation) (s : Evaluation) :
    outcome (modify f : Run Unit) s = (.ok (), f s) := rfl

/-- An event happens to the state. -/
@[simp] theorem outcome_happen (e : Event) (s : Evaluation) :
    outcome (happen e) s = (.ok (), s.after e) := rfl

/-- An entry is written at the end of the log. -/
@[simp] theorem outcome_log (e : Log.Entry) (s : Evaluation) :
    outcome (log e) s = (.ok (), { s with log := s.log ++ [e] }) := rfl

/-- A result is given as it is. -/
@[simp] theorem outcome_mk (r : Except Stop α) (s : Evaluation) :
    outcome (ExceptT.mk (pure r)) s = (r, s) := rfl

/-- A computation whose failures are results goes through. -/
@[simp] theorem outcome_lift (x : Run α) (s : Evaluation) :
    outcome (ExceptT.lift x.run) s = (.ok (outcome x s).1, (outcome x s).2) := rfl

/-- The second computation runs where the first one ends, unless that stops early. -/
theorem outcome_bind (x : Run α) (f : α → Run β) (s : Evaluation) :
    outcome (x >>= f) s =
      match outcome x s with
      | (.ok a, t) => outcome (f a) t
      | (.error stop, t) => (.error stop, t) := by
  change StateT.run (ExceptT.run x >>= ExceptT.bindCont f) s = _
  rw [StateT.run_bind]
  change StateT.run (ExceptT.bindCont f (outcome x s).1) (outcome x s).2 = _
  rcases outcome x s with ⟨_ | a, t⟩ <;> rfl

/-- A computation that succeeds has succeeded in its first part before. -/
theorem outcome_bind_eq_ok {x : Run α} {f : α → Run β} {s u : Evaluation} {b : β}
    (h : outcome (x >>= f) s = (.ok b, u)) :
    ∃ a t, outcome x s = (.ok a, t) ∧ outcome (f a) t = (.ok b, u) := by
  rw [outcome_bind] at h
  rcases hr : outcome x s with ⟨stop | a, t⟩
  · rw [hr] at h
    cases h
  · rw [hr] at h
    exact ⟨a, t, rfl, h⟩

/-- A result that is no failure is the value. -/
@[simp] theorem outcome_ofExcept_ok (a : α) (s : Evaluation) :
    outcome (ofExcept (.ok a)) s = (.ok a, s) := rfl

/-- A computation that reads bindings changes only the record of the reads. -/
theorem outcome_reading (x : StateM Reads α) (s : Evaluation) :
    outcome (reading x) s = (.ok (x.run s.reads).1, { s with reads := (x.run s.reads).2 }) := rfl

/-- A computation that fails is answered with its failure, and one that is cut off in another
way cuts off this one too. -/
theorem outcome_attempt (x : Run α) (s : Evaluation) :
    outcome (attempt x) s =
      match outcome x s with
      | (.ok a, t) => (.ok (.ok a), t)
      | (.error (.failure f), t) => (.ok (.error f), t)
      | (.error stop, t) => (.error stop, t) := by
  rw [attempt, outcome_bind, outcome_lift]
  rcases outcome x s with ⟨(f | f | _) | a, t⟩ <;> rfl

/-- A file is on the stack exactly as long as the computation under it takes. -/
theorem outcome_within (path : Path) (x : Run α) (s : Evaluation) :
    outcome (within path x) s =
      if s.stack.any (·.same path) then
        (.error (.failure (.includeCycle (s.stack ++ [path]))), s)
      else
        ((outcome x (s.after (.enter path))).1,
          (outcome x (s.after (.enter path))).2.after .leave) := by
  simp only [within, outcome_bind, outcome_get]
  split <;> simp [outcome_bind]

/-- What is built is the result, and the reads are those that it took. -/
theorem outcome_building_ok {x : Building α} {s : Evaluation} {a : α}
    (h : (x.run.run s.reads).1 = .ok a) :
    outcome (building x) s = (.ok a, { s with reads := (x.run.run s.reads).2 }) := by
  have hrun : StateT.run x.run s.reads = (.ok a, (x.run.run s.reads).2) := Prod.ext h rfl
  rw [building, outcome_bind, outcome_reading, hrun]
  rfl

/-- Building something succeeds as it does on the reads alone, or it stops the run where it
is. -/
theorem outcome_building (x : Building α) (s : Evaluation) :
    (∃ a, (x.run.run s.reads).1 = .ok a ∧
        outcome (building x) s = (.ok a, { s with reads := (x.run.run s.reads).2 })) ∨
      ∃ stop t, outcome (building x) s = (.error stop, t) ∧ t.toProgress = s.toProgress := by
  cases h : (x.run.run s.reads).1 with
  | ok a => exact .inl ⟨a, rfl, outcome_building_ok h⟩
  | error f =>
    refine .inr ?_
    change (StateT.run x.run s.reads).1 = _ at h
    rw [building, outcome_bind, outcome_reading, h]
    rcases f with _ | _ | _ | _ | _ | _ | _ | _ | _ | _ | (_ | _ | _)
    all_goals exact ⟨_, _, rfl, rfl⟩

/-- A failure stops the run as it is, but for an invalid timing. -/
theorem outcome_building_error {x : Building α} {s : Evaluation} {f : Failure}
    (h : (x.run.run s.reads).1 = .error f)
    (hf : ∀ word, f ≠ .notification (.invalidTiming word)) :
    ∃ t, outcome (building x) s = (.error (.failure f), t) ∧ t.toProgress = s.toProgress := by
  rw [building, outcome_bind, outcome_reading]
  change (StateT.run x.run s.reads).1 = _ at h
  rcases hr : StateT.run x.run s.reads with ⟨f' | a, reads⟩
  · rw [hr] at h
    cases h
    rcases f with _ | _ | _ | _ | _ | _ | _ | _ | _ | _ | (_ | _ | word)
    case notification.invalidTiming => exact absurd rfl (hf word)
    all_goals exact ⟨_, rfl, rfl⟩
  · rw [hr] at h
    cases h

/-- No event happens while a value is built. -/
theorem building_toProgress (x : Building α) (s : Evaluation) :
    (outcome (building x) s).2.toProgress = s.toProgress := by
  rcases outcome_building x s with ⟨a, -, hr⟩ | ⟨stop, t, hr, ht⟩
  · rw [hr]
  · rw [hr]
    exact ht

end Run

end Provision
