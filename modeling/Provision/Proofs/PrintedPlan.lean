import Provision.Proofs.ApplyOrder
import Provision.Proofs.Graph.Outline
import Provision.Proofs.Reports

/-!
# The plan that is printed

A plan shows the tree of the graph and three counts, and a validation shows the same counts. The
first is that of the recipes that were begun, the second that of the resources that are applied,
and the third that of the notifications that are delivered. None of them is taken from the tree,
and still they are those of its blocks: every recipe that was begun is below a root, and only once.
-/

namespace Provision

open Provision.Command Provision.Graph

/-- The counts of blocks are those that are taken elsewhere. -/
structure Graph.Counted (g : Graph) (rows : List Row) (ds : List Delivery) : Prop where
  recipes : (Row.recipes rows).length = g.size
  resources : (Row.resources rows).length = g.resources.length
  notifications : (Row.notifications rows).length = ds.length
  /-- The notifications are delivered in the order of their blocks. -/
  delivered : ds.map (·.notification) = Row.notifications rows

/-- A plan and a validation of an evaluation show the blocks of rows and their counts. -/
structure Command.Shows (e : Evaluation) (rows : List Row) : Prop where
  plan : ∀ before, ((Action.plan .text).conclude e).run.run before =
    (.ok (), before ++ String.join (rows.map Row.block) ++ "\n" ++
      planLine (Row.recipes rows).length (Row.resources rows).length
        (Row.notifications rows).length)
  validation : ∀ before, (Action.validate.conclude e).run.run before =
    (.ok (), before ++ validLine (Row.recipes rows).length (Row.resources rows).length
      (Row.notifications rows).length e.definitions.size)

namespace Graph.Outlined

variable {g : Graph} {rows : List Row} {ds : List Delivery}

/-- The counts that are printed are those of the rows and the deliveries. -/
theorem counted (h : g.Outlined rows) (hds : g.deliveries = .ok ds) : g.Counted rows ds := by
  have hdelivered : ds.map (·.notification) = Row.notifications rows := by
    rcases g.deliveries_cases with ⟨ds', hds', -, hpending, -⟩ | ⟨_, _, _, _, f, hf, -⟩
    · cases hds.symm.trans hds'
      have hsecond := congrArg (List.map Prod.snd) hpending
      rw [List.map_map, pending, List.map_flatMap] at hsecond
      rw [h.notifications]
      simpa [Function.comp_def] using hsecond
    · cases hds.symm.trans hf
  refine ⟨?_, by rw [h.resources], by rw [← hdelivered, List.length_map], hdelivered⟩
  rw [h.recipes, List.length_zipIdx, Array.length_toList, size]

/-- If all notifications are delivered, the tree and the counts are printed. -/
theorem shows (h : g.Outlined rows) (hds : g.deliveries = .ok ds) {e : Evaluation}
    (he : e.graph = g) : Shows e rows := by
  subst he
  have hcounted := h.counted hds
  constructor <;> intro before <;>
    rw [hcounted.recipes, hcounted.resources, hcounted.notifications, Action.conclude, hds]
  · rw [← h.tree]
    exact Action.print_text _ _
  · exact Action.print_validate _ _

end Graph.Outlined

namespace Session

/-- The graph of every reachable session has an outline. -/
theorem Reachable.exists_outlined {s : Session} (hs : Reachable s) :
    ∃ rows, s.state.graph.Outlined rows := hs.arranged.state.exists_outlined

/-- Whatever operations have been done, the tree of the graph consists of the blocks of a walk
through all of it, and if the notifications are delivered, the counts that a plan and a validation
show are those of its blocks. -/
theorem Reachable.plan_outlined {s : Session} (hs : Reachable s) :
    ∃ rows, s.state.graph.Outlined rows ∧ ∀ ds, s.state.graph.deliveries = .ok ds →
      s.state.graph.Counted rows ds ∧
        ∀ e : Evaluation, e.graph = s.state.graph → Shows e rows := by
  obtain ⟨rows, h⟩ := hs.exists_outlined
  exact ⟨rows, h, fun ds hds => ⟨h.counted hds, fun e he => h.shows hds he⟩⟩

/-- A session in which a definition is invoked whose file notifies itself. -/
def sited : Session :=
  (start.root ⟨"/r.yml"⟩ {}).step bareHost 1 ⟨0, {}⟩
    (.evaluate
      [.define "site" {}
        [.declare "file" "/etc/\x7b\x7b params.name \x7d\x7d"
          (some ⟨{}, [⟨"delete", "file[/etc/a]", "delayed"⟩]⟩)],
       .declare "site" "a" none,
       .declare "service" "nginx" none])

/-- That session comes of operations. -/
theorem reachable_sited : Reachable sited := by
  have hbegins : Next bareHost 1 start (start.root ⟨"/r.yml"⟩ {}) := .root _ _
  exact .next (.next .start hbegins) (.step ⟨0, {}⟩ _ rfl)

/-- The tree of that session. -/
def sitedTree : String :=
  "Recipe: /r.yml\n" ++ "  Definition: site[a]\n" ++ "    file[/etc/a] (create)\n" ++
    "      notifies delete file[/etc/a] (delayed)\n" ++ "  service[nginx] (nothing)\n"

set_option maxRecDepth 8192 in
/-- Two recipes, two resources and a notification make five blocks. -/
theorem plan_outlined_sited : ∃ rows ds, sited.state.graph.Outlined rows ∧
    sited.state.graph.deliveries = .ok ds ∧ sited.state.graph.Counted rows ds ∧
    Shows sited.state rows ∧ String.join (rows.map Row.block) = sitedTree ∧
    (Row.recipes rows).length = 2 ∧ (Row.resources rows).length = 2 ∧ ds.length = 1 := by
  obtain ⟨rows, hrows, hall⟩ := reachable_sited.plan_outlined
  have hlength : sited.state.graph.deliveries.toOption.map List.length = some 1 := by
    decide +kernel
  have htree : sited.state.graph.tree = sitedTree := by decide +kernel
  have hsize : sited.state.graph.size = 2 := by decide +kernel
  have hresources : sited.state.graph.resources.length = 2 := by decide +kernel
  cases hds : sited.state.graph.deliveries with
  | error f =>
    rw [hds] at hlength
    cases hlength
  | ok ds =>
    rw [hds] at hlength
    obtain ⟨hcounted, hshows⟩ := hall ds hds
    exact ⟨rows, ds, hrows, rfl, hcounted, hshows _ rfl, hrows.tree ▸ htree,
      hcounted.recipes.trans hsize, hcounted.resources.trans hresources, Option.some.inj hlength⟩

end Session

/-- A plan and a validation by a job whose evaluation is done show the blocks of the graph and their
counts. -/
theorem Command.Job.report_outlined {host : Host} {depth : Nat} {j : Job} {ds : List Delivery}
    (hj : (j.evaluate host depth).1 = .ok ())
    (hds : (j.evaluate host depth).2.graph.deliveries = .ok ds) :
    ∃ rows, (j.evaluate host depth).2.graph.Outlined rows ∧
      (j.evaluate host depth).2.graph.Counted rows ds ∧
      (j.report host depth (.plan .text)).printed = String.join (rows.map Row.block) ++ "\n" ++
        planLine (Row.recipes rows).length (Row.resources rows).length
          (Row.notifications rows).length ∧
      (j.report host depth .validate).printed =
        validLine (Row.recipes rows).length (Row.resources rows).length
          (Row.notifications rows).length (j.evaluate host depth).2.definitions.size := by
  obtain ⟨s, hs, hgraph⟩ := Job.exists_session host depth j
  obtain ⟨rows, hrows⟩ := hs.exists_outlined
  rw [hgraph] at hrows
  obtain ⟨hplan, hvalidation⟩ := hrows.shows hds rfl
  have hprinted (a : Action) : (j.report host depth a).printed =
      ((a.conclude (j.evaluate host depth).2).run.run "").2 := by
    rw [Job.report_eq]
    split
    · next h => rw [h]
    · next h => cases hj.symm.trans (congrArg Prod.fst h)
  refine ⟨rows, hrows, hrows.counted hds, ?_, ?_⟩
  · rw [hprinted, hplan, String.empty_append]
  · rw [hprinted, hvalidation, String.empty_append]

end Provision
