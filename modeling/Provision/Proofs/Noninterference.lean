import Provision.Proofs.Evaluation.Correspondence

/-!
# Bindings that no recipe mentions

Only the text of recipes is resolved. A string that comes out of a binding, a parameter or an
attribute is data from then on, even if it looks like a placeholder. So a binding whose name
is mentioned nowhere in the recipes makes no difference to a run: two runs in scopes that are
the same but for that name take the same course, and read the other bindings only.
-/

namespace Provision

/-- A template that does not mention a name. -/
def Silent (name template : String) : Prop := ¬Mentions template.toList name

instance (name : String) : DecidablePred (Silent name) := fun template =>
  inferInstanceAs (Decidable ¬Mentions template.toList name)

/-- Every definition has statements for its body, and no template in them mentions a name. -/
def Definitions.Silent (name : String) (ds : Definitions) : Prop :=
  ∀ keyword d, ds.get? keyword = some d →
    ∃ list, d.body = .statements list ∧ Statement.AllTextsList (Provision.Silent name) list

/-- No template in a recipe file mentions a name. -/
def Host.Silent (name : String) (host : Host) : Prop :=
  ∀ path list, host.recipe path = .ok list → Statement.AllTextsList (Provision.Silent name) list

/-- A source of lazy values that some other name is bound to. -/
def Scope.SourceBut (name : String) (s : Scope) (source : Nat) : Prop :=
  ∃ other answer, other ≠ name ∧ s.get? other = some (.lazy source answer)

/-- Reads that come after others, each of a binding of one of some sources. -/
def Reads.From (K : Nat → Prop) (start reads : Reads) : Prop :=
  ∃ rs, reads = start ++ rs ∧ ∀ r ∈ rs, K r.source

/-- At the start nothing has been read. -/
theorem Reads.From.refl (K : Nat → Prop) (start : Reads) : From K start start :=
  ⟨[], (List.append_nil _).symm, nofun⟩

/-- One more source may be read if it is one of those. -/
theorem Reads.From.concat {K : Nat → Prop} {start reads : Reads} (h : From K start reads)
    {source : Nat} (hsource : K source) (argument : Option Value) :
    From K start (reads ++ [⟨source, argument⟩]) := by
  obtain ⟨rs, rfl, hall⟩ := h
  refine ⟨rs ++ [⟨source, argument⟩], List.append_assoc _ _ _, fun r hr => ?_⟩
  rcases List.mem_append.mp hr with hr | hr
  · exact hall r hr
  · rw [List.mem_singleton.mp hr]
    exact hsource

/-- Two scopes that are the same but for one name. The sources of the other names are known. -/
structure Scope.SameBut (name : String) (K : Nat → Prop) (s s' : Scope) : Prop where
  get? : ∀ other, other ≠ name → s'.get? other = s.get? other
  sources : ∀ source, s.SourceBut name source → K source

namespace Scope.SameBut

variable {x : String} {K : Nat → Prop} {s s' : Scope} {start : Reads}

/-- The scopes are the same with a binding of that one name, whatever the other has. -/
theorem of_insert (x : String) (s : Scope) (b : Binding) :
    SameBut x (s.SourceBut x) s (s.insert x b) := by
  refine ⟨fun other hother => ?_, fun _ h => h⟩
  rw [OrderedMap.get?_insert, if_neg (Ne.symm hother)]

/-- A constant put in for a name in both scopes. -/
theorem insert (h : SameBut x K s s') (name : String) (v : Value) :
    SameBut x K (s.insert name (.constant v)) (s'.insert name (.constant v)) := by
  refine ⟨fun other hother => ?_, ?_⟩
  · rw [OrderedMap.get?_insert, OrderedMap.get?_insert, h.get? other hother]
  · rintro source ⟨other, answer, hother, hget⟩
    rw [OrderedMap.get?_insert] at hget
    split at hget
    · cases hget
    · exact h.sources source ⟨other, answer, hother, hget⟩

/-- Every other name reads the same in both, and is of a known source if it is lazy. -/
theorem read?_same (h : SameBut x K s s') {name : String} (hname : name ≠ x) :
    Reads.Same (fun r r' => r' = r ∧ Reads.From K start r) (s.read? name) (s'.read? name) := by
  unfold Scope.read?
  rw [h.get? name hname]
  cases hget : s.get? name with
  | none => exact Reads.same_pure none
  | some b =>
    rintro r _ ⟨rfl, hfrom⟩
    cases b with
    | constant v => exact ⟨rfl, rfl, hfrom⟩
    | lazy source answer =>
      exact ⟨rfl, rfl, hfrom.concat (h.sources source ⟨name, answer, hname, hget⟩) none⟩

end Scope.SameBut

namespace Correspondence

/-- Two runs that are the same but for the binding of a name that no template mentions. -/
def unmentioned (x : String) (K : Nat → Prop) (start : Reads) : Correspondence where
  number := Eq
  includers := Eq
  progress p q := q = p
  reads r r' := r' = r ∧ Reads.From K start r
  scopes := Scope.SameBut x K
  texts := Silent x

/-- The name may be any but the one that a run reads by itself. -/
theorem unmentioned_lawful {x : String} (hnode : x ≠ "node") (K : Nat → Prop) (start : Reads) :
    (unmentioned x K start).Lawful where
  definitions hpq := congrArg Progress.definitions hpq
  stack hpq := congrArg Progress.stack hpq
  size := by
    rintro p _ rfl
    rfl
  begun := by
    rintro p _ rfl
    rfl
  path := by
    rintro p _ i _ rfl rfl
    rfl
  included := by
    rintro p _ i _ rfl rfl path
    rfl
  after := by
    rintro p _ e e' rfl he
    cases he with
    | child hij | resource hij | act hij =>
      cases hij
      rfl
    | define | enter | leave => rfl
  agree := fun h => Scope.agree_of_mentions fun template hsilent name hname =>
    h.read?_same fun hx => hsilent (hx ▸ hname)
  node h := h.read?_same (Ne.symm hnode)
  params h v := h.insert "params" v

end Correspondence

namespace Evaluation

open Provision.Correspondence

/-- A binding whose name is mentioned in no recipe file and in no definition makes no
difference to a load: the result, the graph, the definitions and the reads are those of the
load without it. All that is read are bindings of other names, so a lazy value is not asked
for through this one. The other bindings may have any strings in them, and so may the
defaults of parameters. -/
theorem load_unmentioned {x : String} (hnode : x ≠ "node") {host : Host}
    (hfiles : host.Silent x) {s : Evaluation} (hdefinitions : s.definitions.Silent x)
    (depth : Nat) (path : Path) (scope : Scope) (b : Binding) :
    let done := (load host depth path scope).outcome s
    let done' := (load host depth path (scope.insert x b)).outcome s
    done'.1 = done.1 ∧ done'.2.graph = done.2.graph ∧ done'.2.definitions = done.2.definitions ∧
      done'.2.reads = done.2.reads ∧
      ∃ rs, done.2.reads = s.reads ++ rs ∧ ∀ r ∈ rs, scope.SourceBut x r.source := by
  intro done done'
  let R := unmentioned x (scope.SourceBut x) s.reads
  have hstates : R.States s s := by
    refine ⟨rfl, ⟨rfl, Reads.From.refl _ _⟩, fun name d hd => ?_⟩
    obtain ⟨list, hbody, hlist⟩ := hdefinitions name d hd
    rw [hbody]
    exact hlist
  obtain ⟨hresult, hdone⟩ := runs_load (unmentioned_lawful hnode _ _) hfiles
    (fun hpq path => congrArg (fun p : Progress => p.after (.root (.ofFile path))) hpq) depth
    path (Scope.SameBut.of_insert x scope b) hstates
  obtain ⟨hreads, hfrom⟩ := hdone.reads
  exact ⟨hresult.eq.symm, congrArg Progress.graph hdone.progress,
    congrArg Progress.definitions hdone.progress, hreads, hfrom⟩

/-- A recipe with a parameter whose default looks like a placeholder. -/
def quoting : String :=
  Text.joined "\n"
    ["- define: web",
     "  params:",
     "    p: is {{ secret }}",
     "  body:",
     "    - package: web {{ params.p }}",
     "- web: at {{ node }}"]

/-- A machine with a file that has it. -/
def quotingFile : Host := .ofFacts [(⟨"/a.yml"⟩, some (.file (.ok quoting)))] none ⟨"/"⟩

/-- The file does not mention the name. -/
theorem quotingFile_silent : quotingFile.Silent "secret" := by
  have hread : ∀ list ∈ (Statement.ofText quoting ⟨"/a.yml"⟩).toOption,
      Statement.AllTextsList (Silent "secret") list := by
    decide +kernel
  intro path list h
  refine hread list ?_
  rw [Host.recipe_of_one h]
  rfl

/-- A node that is described by what looks like a placeholder. -/
def quotedNode : Scope := OrderedMap.empty.insert "node" (.constant (.string "{{ secret }}"))

/-- What looks like a placeholder comes out of the parameter and of the node as it is, and the
lazy value of that name is not asked for. -/
theorem load_unmentioned_quoted :
    let leak : Binding := .lazy 0 fun _ => .string "leak"
    let done := (load quotingFile 3 ⟨"/a.yml"⟩ quotedNode).outcome Evaluation.empty
    let done' :=
      (load quotingFile 3 ⟨"/a.yml"⟩ (quotedNode.insert "secret" leak)).outcome Evaluation.empty
    (done'.1 = done.1 ∧ done'.2.graph = done.2.graph ∧
      done'.2.definitions = done.2.definitions ∧ done'.2.reads = done.2.reads ∧
      ∃ rs, done.2.reads = Evaluation.empty.reads ++ rs ∧
        ∀ r ∈ rs, quotedNode.SourceBut "secret" r.source) ∧
    done.1 = .ok 0 ∧ done.2.graph.resources.map (·.name) = ["web is {{ secret }}"] :=
  ⟨load_unmentioned (by decide) quotingFile_silent (s := Evaluation.empty) nofun 3 ⟨"/a.yml"⟩
    quotedNode (.lazy 0 fun _ => .string "leak"), by decide +kernel⟩

end Evaluation

end Provision
