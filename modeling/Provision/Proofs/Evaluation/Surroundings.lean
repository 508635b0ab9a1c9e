import Provision.Proofs.Evaluation.Correspondence

/-!
# Runs in other surroundings

A run does the same whether it begins with a graph of its own or after the recipes of another
graph: only the numbers of its recipes are greater by as many as there are others. This is a
correspondence, in which the definitions and the stack are the same in both runs, and the
lazy bindings are read alike.
-/

namespace Provision

/-- The same progress with its graph after another one. -/
structure Progress.Grafted (b : Graph) (p q : Progress) : Prop where
  graph : q.graph = b.graft p.graph
  definitions : q.definitions = p.definitions
  stack : q.stack = p.stack

namespace Progress.Grafted

variable {b : Graph} {p q : Progress} (h : Grafted b p q)

include h

/-- A recipe that is not there is taken for one without children, in both. -/
theorem recipe (id : Nat) : q.recipe (id + b.size) = (p.recipe id).renumber (· + b.size) := by
  unfold Progress.recipe
  rw [h.graph, Graph.recipe?_graft_add]
  cases p.graph.recipe? id with
  | none => exact (Recipe.renumber_of_empty _ rfl).symm
  | some r => rfl

/-- A file is nested in a grafted recipe exactly if it was nested in the recipe itself. -/
theorem isIncluded (id : Nat) (path : Path) :
    Context.isIncluded q.graph (q.recipe (id + b.size)) path =
      Context.isIncluded p.graph (p.recipe id) path := by
  unfold Context.isIncluded
  rw [h.recipe, Recipe.renumber_nested, List.any_map]
  congr 1
  funext nested
  change (q.graph.recipe? (nested + b.size)).any _ = _
  rw [h.graph, Graph.recipe?_graft_add]
  cases p.graph.recipe? nested <;> rfl

/-- A root can be begun after another graph as it is begun alone. -/
theorem addRoot {r : Recipe} (hr : r.children = []) :
    Grafted b (p.after (.root r)) (q.after (.root r)) := by
  refine ⟨?_, h.definitions, h.stack⟩
  change q.graph.addRoot r = b.graft (p.graph.addRoot r)
  rw [h.graph, Graph.graft_addRoot _ _ hr]

end Progress.Grafted

/-- In some scopes every name reads alike after related reads. -/
structure Scope.ReadAlike (ρ : Reads → Reads → Prop) (σ : Scope → Prop) : Prop where
  read : ∀ {s : Scope}, σ s → ∀ name, Reads.Same ρ (s.read? name) (s.read? name)
  call : ∀ {s : Scope}, σ s → ∀ name argument,
    Reads.Same ρ (s.call? name argument) (s.call? name argument)
  params : ∀ {s : Scope}, σ s → ∀ v : Value, σ (s.insert "params" (.constant v))

/-- Constants read the same after any reads. -/
theorem Scope.readAlike_constant (ρ : Reads → Reads → Prop) : ReadAlike ρ Constant :=
  ⟨fun hs => hs.read?_same ρ, fun hs => hs.call?_same ρ, fun hs => hs.insert "params"⟩

/-- After the same reads, everything reads the same. -/
theorem Scope.readAlike_same : ReadAlike Eq fun _ => True :=
  ⟨fun _ _ => Reads.same_self _, fun _ _ _ => Reads.same_self _, fun _ _ => trivial⟩

namespace Correspondence

/-- A run with a graph of its own, and the same run after another graph. -/
def graft (b : Graph) (ρ : Reads → Reads → Prop) (σ : Scope → Prop) : Correspondence where
  number i j := j = i + b.size
  includers i j := j = i + b.size
  progress := Progress.Grafted b
  reads := ρ
  scopes s s' := s' = s ∧ σ s
  texts _ := True

section Graft

variable (b : Graph) {ρ : Reads → Reads → Prop} {σ : Scope → Prop} (h : Scope.ReadAlike ρ σ)

include h

/-- After another graph, everything can be resolved and read as it is alone. -/
theorem graft_total : (graft b ρ σ).Total where
  texts _ := trivial
  read := by
    rintro s _ ⟨rfl, hs⟩ name
    exact h.read hs name
  call := by
    rintro s _ ⟨rfl, hs⟩ name argument
    exact h.call hs name argument

/-- Every event keeps a graph what it is after another one. -/
theorem graft_lawful : (graft b ρ σ).Lawful where
  definitions hpq := hpq.definitions
  stack hpq := hpq.stack
  size hpq := by
    rw [hpq.graph]
    exact Graph.size_graft _ _
  begun hpq := by
    rw [hpq.graph]
    exact Graph.size_graft _ _
  path := by
    rintro p q i _ hpq rfl
    rw [hpq.recipe]
    rfl
  included := by
    rintro p q i _ hpq rfl path
    exact hpq.isIncluded i path
  after := by
    intro p q e e' hpq he
    cases he with
    | child hij r hr =>
      cases hij
      refine ⟨?_, hpq.definitions, hpq.stack⟩
      change q.graph.addChild _ r = b.graft (p.graph.addChild _ r)
      rw [hpq.graph, Graph.graft_addChild _ _ _ hr]
    | resource hij x =>
      cases hij
      refine ⟨?_, hpq.definitions, hpq.stack⟩
      change q.graph.addResource _ _ = b.graft (p.graph.addResource _ _)
      rw [hpq.graph, Graph.graft_addResource]
    | define d => exact ⟨hpq.graph, congrArg (·.register d) hpq.definitions, hpq.stack⟩
    | enter path => exact ⟨hpq.graph, hpq.definitions, congrArg (· ++ [path]) hpq.stack⟩
    | leave => exact ⟨hpq.graph, hpq.definitions, congrArg List.dropLast hpq.stack⟩
    | act hij => exact ⟨hpq.graph, hpq.definitions, hpq.stack⟩
  agree := by
    rintro s _ ⟨rfl, hs⟩
    exact Scope.agree_of_read _ (h.read hs)
  node := by
    rintro s _ ⟨rfl, hs⟩
    exact h.read hs "node"
  params := by
    rintro s _ ⟨rfl, hs⟩ v
    exact ⟨rfl, h.params hs v⟩

end Graft

end Correspondence

open Provision.Correspondence

variable (b : Graph) {ρ : Reads → Reads → Prop} {σ : Scope → Prop} (h : Scope.ReadAlike ρ σ)
  (host : Host) (depth : Nat)

include h

/-- All recipe files may be built after another graph. -/
theorem Correspondence.graft_files : (graft b ρ σ).Files host := fun _ list _ =>
  Statement.allTextsList_of_forall (graft_total b h).texts list

/-- Blind bodies are built alike after another graph. -/
theorem Context.build_graft : (graft b ρ σ).Expands (build host depth) (build host depth) :=
  build_expands (graft_lawful b h) (graft_files b h host) depth

/-- A load gives the same after another graph, and its root is numbered accordingly. -/
theorem Evaluation.load_graft (path : Path) {scope : Scope} (hscope : σ scope) {u s : Evaluation}
    (hus : (graft b ρ σ).States u s) :
    (graft b ρ σ).Runs (fun id id' => id' = id + b.size) (load host depth path scope)
      (load host depth path scope) u s :=
  runs_load (graft_lawful b h) (graft_files b h host) (fun hpq _ => hpq.addRoot rfl) depth path
    ⟨rfl, hscope⟩ hus

end Provision
