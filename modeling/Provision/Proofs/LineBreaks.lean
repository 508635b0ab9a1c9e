import Provision.Proofs.PrintedPlan
import Provision.Proofs.Text.Segments

/-!
# Line breaks in the tree

Each block of a tree ends in a line break, and its heading is put together from texts that recipes
choose: paths, names, actions and targets. None of them is quoted, so the lines of a tree are the
headings of its items only as long as no such text has a line break itself. One that has may stand
for several lines, and these may look like the lines of other items. Only the actions of a resource
are safe, as its kind has to accept them.
-/

namespace Provision

/-! ### Counting line breaks -/

namespace Text

/-- The number of line breaks in a text. -/
def breaks (s : String) : Nat := s.toList.count '\n'

/-- The line breaks of texts add up. -/
theorem breaks_append (s t : String) : breaks (s ++ t) = breaks s + breaks t := by
  rw [breaks, String.toList_append, List.count_append, breaks, breaks]

/-- A text without line breaks has none among its characters. -/
theorem breaks_eq_zero_iff {s : String} : breaks s = 0 ↔ '\n' ∉ s.toList := List.count_eq_zero

/-- Texts put together have no line breaks exactly if none of them does. -/
theorem breaks_join_eq_zero_iff {list : List String} :
    breaks (String.join list) = 0 ↔ ∀ s ∈ list, '\n' ∉ s.toList := by
  rw [breaks_eq_zero_iff, String.toList_join, List.mem_flatMap]
  exact not_exists.trans (forall_congr' fun s => not_and)

/-- A separator without line breaks adds none. -/
theorem breaks_joined {sep : String} (hsep : breaks sep = 0) (list : List String) :
    breaks (joined sep list) = breaks (String.join list) := by
  induction list with
  | nil => rfl
  | cons s rest ih =>
    cases rest with
    | nil => simp [joined]
    | cons next rest =>
      rw [joined, breaks_append, breaks_append, ih, hsep, Nat.add_zero, ← breaks_append,
        ← String.join_cons]
      exact List.cons_ne_nil _ _

end Text

/-! ### Line breaks in headings -/

open Provision.Text

/-- No keyword of a kind has a line break. -/
theorem Kind.breaks_keyword (kind : Kind) : breaks kind.keyword = 0 := by
  cases kind <;> decide

/-- No kind accepts an action with a line break. -/
theorem Kind.breaks_action (kind : Kind) : ∀ a ∈ kind.actions, breaks a = 0 := by
  cases kind <;> decide

/-- No timing has a line break in its text. -/
theorem Timing.breaks_text (timing : Timing) : breaks timing.text = 0 := by
  cases timing <;> decide

/-- What a descriptor has besides its type and name has no line break. -/
theorem Descriptor.breaks_text (d : Descriptor) :
    breaks d.text = breaks d.type + breaks d.name := by
  simp only [Descriptor.text, breaks_append]
  simp [breaks]

namespace Graph

/-- The texts that are put into a heading as they are, but for the actions of a resource. -/
def Item.texts : Item → List String
  | .recipe _ r =>
    match r.origin with
    | .file => [r.path.shown]
    | .definition d name => [d, name]
  | .resource x => [x.name]
  | .notification n => [n.action, n.target]

/-- The texts that are put into the headings of rows as they are. -/
def Row.texts (rows : List Row) : List String := rows.flatMap (·.item.texts)

/-- The actions of a resource are accepted by its kind. -/
def Item.Accepted (i : Item) : Prop :=
  ∀ x, i.resource? = some x → ∀ a ∈ x.actions, a ∈ x.kind.actions

/-- What a heading has besides these texts has no line break. -/
theorem Item.Accepted.breaks_heading {i : Item} (h : i.Accepted) :
    breaks i.heading = breaks (String.join i.texts) := by
  cases i with
  | recipe id r =>
    have hfile : breaks "Recipe: " = 0 := by decide
    have hdefinition : breaks "Definition: " = 0 := by decide
    rw [heading, texts]
    cases r.origin <;> simp [breaks_append, Descriptor.breaks_text, hfile, hdefinition]
  | resource x =>
    have hactions : breaks (String.join x.actions) = 0 := by
      refine breaks_join_eq_zero_iff.mpr fun a ha => breaks_eq_zero_iff.mp ?_
      exact x.kind.breaks_action a (h x rfl a ha)
    have hopen : breaks " (" = 0 := by decide
    have hclose : breaks ")" = 0 := by decide
    simp [heading, texts, breaks_append, breaks_joined (show breaks ", " = 0 by decide), hactions,
      Resource.descriptor, Resource.describe, Descriptor.breaks_text, Kind.breaks_keyword, hopen,
      hclose]
  | notification n =>
    have hfirst : breaks "notifies " = 0 := by decide
    have hblank : breaks " " = 0 := by decide
    have hopen : breaks " (" = 0 := by decide
    have hclose : breaks ")" = 0 := by decide
    simp [heading, texts, breaks_append, Timing.breaks_text, hfirst, hblank, hopen, hclose]

/-- An indentation has no line break. -/
theorem breaks_indentation (level : Nat) : breaks (indentation level) = 0 := by
  refine breaks_eq_zero_iff.mpr fun h => ?_
  rw [indentation, String.toList_ofList] at h
  cases List.eq_of_mem_replicate h

namespace Row

/-- The heading of an item, indented. -/
def line (r : Row) : String := indentation r.level ++ r.item.heading

/-- The line breaks of a line are those of the heading. -/
theorem breaks_line (r : Row) : breaks r.line = breaks r.item.heading := by
  rw [line, breaks_append, breaks_indentation, Nat.zero_add]

/-- A block has one line break more than its heading. -/
theorem breaks_block (r : Row) : breaks r.block = breaks r.item.heading + 1 := by
  rw [← breaks_line]
  exact breaks_append r.line "\n"

/-- The line breaks in the blocks of rows, beside those that end a block, are those in the texts
of the rows. -/
theorem breaks_blocks {rows : List Row} (h : ∀ r ∈ rows, r.item.Accepted) :
    breaks (String.join (rows.map block)) = rows.length + breaks (String.join (texts rows)) := by
  induction rows with
  | nil => rfl
  | cons r rows ih =>
    obtain ⟨hfirst, hrest⟩ := List.forall_mem_cons.mp h
    rw [List.map_cons, String.join_cons, breaks_append, ih hrest, breaks_block,
      hfirst.breaks_heading, texts, texts, List.flatMap_cons, String.join_append, breaks_append,
      List.length_cons]
    omega

/-- Blocks are lines with a line break after each. -/
theorem toList_blocks (rows : List Row) : (String.join (rows.map block)).toList =
    (rows.map fun r => r.line.toList).flatMap (· ++ ['\n']) := by
  rw [String.toList_join, List.flatMap_map, List.flatMap_map]
  refine congrArg (rows.flatMap ·) (funext fun r => ?_)
  exact String.toList_append

end Row

namespace Outlined

variable {g : Graph} {rows : List Row}

/-- There are as many line breaks as rows exactly if no text has one. -/
theorem breaks_eq_length_iff (h : g.Outlined rows) (hrows : ∀ r ∈ rows, r.item.Accepted) :
    breaks g.tree = rows.length ↔ ∀ t ∈ Row.texts rows, '\n' ∉ t.toList := by
  rw [h.tree, Row.breaks_blocks hrows, Nat.add_eq_left, breaks_join_eq_zero_iff]

/-- The lines are the headings of the rows exactly if no text has a line break. -/
theorem split_tree_iff (h : g.Outlined rows) (hrows : ∀ r ∈ rows, r.item.Accepted) :
    Text.split '\n' g.tree.toList = (rows.map fun r => r.line.toList) ++ [[]] ↔
      ∀ t ∈ Row.texts rows, '\n' ∉ t.toList := by
  rw [← h.breaks_eq_length_iff hrows]
  constructor
  · intro hsplit
    have hlength := congrArg List.length hsplit
    rw [length_split, List.length_append, List.length_map, List.length_singleton] at hlength
    exact Nat.add_right_cancel hlength
  · intro hbreaks
    rw [h.breaks_eq_length_iff hrows] at hbreaks
    rw [h.tree, Row.toList_blocks]
    refine split_lines (List.forall_mem_map.mpr fun r hr => ?_)
    rw [← breaks_eq_zero_iff, Row.breaks_line, (hrows r hr).breaks_heading,
      breaks_join_eq_zero_iff]
    exact fun t ht => hbreaks t (List.mem_flatMap.mpr ⟨r, hr, ht⟩)

end Outlined

end Graph

/-! ### The tree of an evaluation -/

namespace Session

open Provision.Graph

/-- In a reachable graph, the actions of every resource are accepted by its kind. -/
theorem Reachable.accepted {s : Session} (h : Reachable s) :
    ∀ x ∈ s.state.graph.resources, ∀ a ∈ x.actions, a ∈ x.kind.actions := by
  rw [h.arranged.state.chronological.resources]
  induction h with
  | start => exact List.forall_mem_nil _
  | next _ hn ih =>
    obtain ⟨es, hes, hcourse⟩ := hn.happens
    rw [hes, Progress.added_replay]
    refine List.forall_mem_append.mpr ⟨ih, ?_⟩
    rcases hcourse with ⟨scope, hloading⟩ | ⟨path, rfl⟩ | ⟨c, -, hcourse⟩
    · exact hloading.accepted
    · exact List.forall_mem_nil _
    · exact hcourse.accepted

/-- Whatever operations have been done, the tree has a line break for each recipe, each resource and
each notification, and besides those that paths, names, actions and targets have in themselves. So
there is one line for each of them, and it is the heading of that, exactly if none of these texts
has a line break. -/
theorem Reachable.lines_outlined {s : Session} (hs : Reachable s) :
    ∃ rows, s.state.graph.Outlined rows ∧
      breaks s.state.graph.tree =
          s.state.graph.itemCount + breaks (String.join (Row.texts rows)) ∧
      (breaks s.state.graph.tree = s.state.graph.itemCount ↔
        ∀ t ∈ Row.texts rows, '\n' ∉ t.toList) ∧
      (Text.split '\n' s.state.graph.tree.toList = (rows.map fun r => r.line.toList) ++ [[]] ↔
        ∀ t ∈ Row.texts rows, '\n' ∉ t.toList) := by
  obtain ⟨rows, h⟩ := hs.exists_outlined
  have hrows : ∀ r ∈ rows, r.item.Accepted := fun r hr x hx =>
    hs.accepted x (h.resources ▸ List.mem_filterMap.mpr ⟨r, hr, hx⟩)
  refine ⟨rows, h, ?_, ?_, h.split_tree_iff hrows⟩
  · rw [h.tree, Row.breaks_blocks hrows, h.length]
  · rw [← h.length]
    exact h.breaks_eq_length_iff hrows

set_option maxRecDepth 8192 in
/-- The five items of a session have a line each. -/
theorem lines_outlined_sited : ∃ rows, sited.state.graph.Outlined rows ∧ rows.length = 5 ∧
    Text.split '\n' sited.state.graph.tree.toList = (rows.map fun r => r.line.toList) ++ [[]] := by
  obtain ⟨rows, hrows, -, hbreaks, hsplit⟩ := reachable_sited.lines_outlined
  have hitems : sited.state.graph.itemCount = 5 := by decide +kernel
  have hcount : breaks sited.state.graph.tree = 5 := by decide +kernel
  exact ⟨rows, hrows, hrows.length.trans hitems, hsplit.mpr (hbreaks.mp (hcount.trans hitems.symm))⟩

/-- The session after a recipe of a given text was loaded. -/
def ofRecipe (text : String) : Session :=
  start.load (.ofFacts [(⟨"/r.yml"⟩, some (.file (.ok text)))] none ⟨"/"⟩) 1 ⟨"/r.yml"⟩ {}

/-- A recipe of a package whose name is written on two lines. -/
def forging : String := "- package: \"curl] (install)\\n  package[eve\"\n"

/-- A recipe of two packages. -/
def forged : String := "- package: curl\n- package: eve\n"

/-- The tree of that recipe. -/
def forgedTree : String :=
  "Recipe: /r.yml\n" ++ "  package[curl] (install)\n" ++ "  package[eve] (install)\n"

set_option maxRecDepth 8192 in
/-- One package is shown as if there were two. -/
theorem forging_discords :
    ((ofRecipe forging).state.graph.tree = forgedTree ∧
        (ofRecipe forging).state.graph.itemCount = 2) ∧
      ((ofRecipe forged).state.graph.tree = forgedTree ∧
        (ofRecipe forged).state.graph.itemCount = 3) ∧
      ¬∀ s : Session, Reachable s → breaks s.state.graph.tree = s.state.graph.itemCount := by
  have hforging : ((ofRecipe forging).state.graph.tree,
      (ofRecipe forging).state.graph.itemCount) = (forgedTree, 2) := by decide +kernel
  have hforged : ((ofRecipe forged).state.graph.tree,
      (ofRecipe forged).state.graph.itemCount) = (forgedTree, 3) := by decide +kernel
  obtain ⟨htree, hitems⟩ := Prod.mk.inj hforging
  refine ⟨⟨htree, hitems⟩, Prod.mk.inj hforged, fun h => ?_⟩
  have hcount := h (ofRecipe forging) (.next .start (.load _ _))
  rw [htree, hitems] at hcount
  exact absurd hcount (by decide)

end Session

end Provision
