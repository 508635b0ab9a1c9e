import Mathlib.Data.List.Basic
import Provision.Proofs.Graph.Growth

/-!
# Lines of recipes

A recipe is a root, or it is nested in exactly one other, so there is one line of recipes
from a root down to it. The lines that there are stay the same when something is added,
and a new recipe extends the line of the recipe that holds it.
-/

namespace Provision

/-- The file of a recipe that was read from one. -/
def Recipe.file? (r : Recipe) : Option Path := if r.isFile then some r.path else none

namespace Path

/-- No two of the paths have the same components. -/
def Distinct (ps : List Path) : Prop := ps.Pairwise fun p q => p.same q = false

/-- A path at the end of a list has to differ from all those before it. -/
theorem distinct_concat {ps : List Path} {p : Path} :
    Distinct (ps ++ [p]) ↔ Distinct ps ∧ ∀ q ∈ ps, q.same p = false := by
  simp [Distinct, List.pairwise_append]

/-- Paths stay distinct without the last one. -/
theorem Distinct.dropLast {ps : List Path} (h : Distinct ps) : Distinct ps.dropLast :=
  List.Pairwise.sublist (List.dropLast_sublist ps) h

end Path

namespace Graph

/-- The recipes nested right in a recipe. -/
def nested (g : Graph) (id : Nat) : List Nat := ((g.recipe? id).map Recipe.nested).getD []

/-- The file of a recipe that was read from one. -/
def file? (g : Graph) (id : Nat) : Option Path := (g.recipe? id).bind Recipe.file?

/-- The files among some recipes. -/
def files (g : Graph) (ids : List Nat) : List Path := ids.filterMap g.file?

/-- The files among recipes come in the order of these. -/
theorem files_append (g : Graph) (ids ids' : List Nat) :
    g.files (ids ++ ids') = g.files ids ++ g.files ids' := List.filterMap_append

/-- Nothing is nested in a recipe that is not there. -/
theorem nested_of_le {g : Graph} {id : Nat} (h : g.size ≤ id) : g.nested id = [] := by
  rw [nested, recipe?, Array.getElem?_eq_none h]
  rfl

/-! ### What the operations do to them -/

/-- A resource changes nothing about nested recipes. -/
theorem nested_addResource (g : Graph) (parent : Nat) (x : Resource) :
    (g.addResource parent x).nested = g.nested := by
  funext id
  unfold nested
  rw [recipe?_addResource]
  split
  · cases g.recipe? id with
    | none => rfl
    | some r => exact r.nested_push_resource x
  · rfl

/-- A child changes no recipe's file. -/
theorem file?_append (g : Graph) (parent : Nat) (c : Child) :
    (g.append parent c).file? = g.file? := by
  funext id
  unfold file?
  rw [recipe?_append]
  split
  · cases g.recipe? id <;> rfl
  · rfl

/-- Nor does a resource. -/
theorem file?_addResource (g : Graph) (parent : Nat) (x : Resource) :
    (g.addResource parent x).file? = g.file? := g.file?_append parent _

/-- A new root without children does not nest anything. -/
theorem nested_addRoot (g : Graph) {r : Recipe} (hr : r.nested = []) :
    (g.addRoot r).nested = g.nested := by
  funext id
  rw [nested, recipe?_addRoot]
  split
  · rename_i hid
    rw [nested_of_le (Nat.le_of_eq hid.symm)]
    exact hr
  · rfl

/-- A new root has its own file, and the other recipes have theirs. -/
theorem file?_addRoot (g : Graph) (r : Recipe) (id : Nat) :
    (g.addRoot r).file? id = if id = g.size then r.file? else g.file? id := by
  rw [file?, recipe?_addRoot]
  split <;> rfl

/-- A number that is appended is nested in that recipe, if there is one. -/
theorem nested_append_recipe (g : Graph) (parent child id : Nat) :
    (g.append parent (.recipe child)).nested id =
      if id = parent ∧ id < g.size then g.nested id ++ [child] else g.nested id := by
  by_cases hp : id = parent
  · subst hp
    rw [nested, recipe?_append, if_pos rfl]
    by_cases hid : id < g.size
    · obtain ⟨o, ho⟩ := recipe?_of_lt hid
      rw [if_pos ⟨rfl, hid⟩, nested, ho]
      exact o.nested_push_recipe child
    · have hnone : g.recipe? id = none := Array.getElem?_eq_none (Nat.le_of_not_lt hid)
      rw [if_neg fun hboth => hid hboth.2, nested, hnone]
      rfl
  · rw [if_neg fun hboth => hp hboth.1, nested, recipe?_append, if_neg (Ne.symm hp)]
    rfl

/-- A new child without children is nested in the recipe that it was added to, wherever that
is. -/
theorem nested_addChild_any (g : Graph) (parent : Nat) {r : Recipe} (hr : r.nested = [])
    (id : Nat) :
    (g.addChild parent r).nested id =
      if id = parent ∧ id ≤ g.size then g.nested id ++ [g.size] else g.nested id := by
  have hpush : ({ g with recipes := g.recipes.push r } : Graph).nested = g.nested :=
    g.nested_addRoot hr
  have hsize : ({ g with recipes := g.recipes.push r } : Graph).size = g.size + 1 :=
    g.size_addRoot r
  rw [addChild, nested_append_recipe, hpush, hsize]
  simp only [Nat.lt_succ_iff]

/-- A new child is nested in the recipe that it was added to, and nowhere else. -/
theorem nested_addChild {g : Graph} {parent : Nat} (h : parent < g.size) {r : Recipe}
    (hr : r.nested = []) (id : Nat) :
    (g.addChild parent r).nested id =
      if id = parent then g.nested id ++ [g.size] else g.nested id := by
  have hiff : (id = parent ∧ id ≤ g.size) ↔ id = parent := by omega
  simp only [nested_addChild_any g parent hr, hiff]

/-- A nested recipe is the new one, in its parent, or it was nested there before. -/
theorem mem_nested_of_addChild {g : Graph} {parent : Nat} (h : parent < g.size) {r : Recipe}
    (hr : r.nested = []) {i id : Nat} (hid : id ∈ (g.addChild parent r).nested i) :
    id ∈ g.nested i ∨ (i = parent ∧ id = g.size) := by
  rw [nested_addChild h hr] at hid
  split at hid
  · rename_i hi
    rw [List.mem_append, List.mem_singleton] at hid
    exact hid.imp_right fun hnew => ⟨hi, hnew⟩
  · exact .inl hid

/-- A new child has its own file, and the other recipes have theirs. -/
theorem file?_addChild (g : Graph) (parent : Nat) (r : Recipe) (id : Nat) :
    (g.addChild parent r).file? id = if id = g.size then r.file? else g.file? id := by
  rw [addChild, file?_append]
  exact g.file?_addRoot r id

/-- The new root is one. -/
theorem mem_roots_addRoot (g : Graph) (r : Recipe) : g.size ∈ (g.addRoot r).roots := by
  rw [roots_addRoot]
  simp

/-- A new root brings its file. -/
theorem files_addRoot_self (g : Graph) (r : Recipe) :
    (g.addRoot r).files [g.size] = r.file?.toList := by
  rw [files, List.filterMap_cons, file?_addRoot, if_pos rfl]
  cases r.file? <;> rfl

/-- The new child is nested in its recipe. -/
theorem mem_nested_addChild {g : Graph} {parent : Nat} (h : parent < g.size) {r : Recipe}
    (hr : r.nested = []) : g.size ∈ (g.addChild parent r).nested parent := by
  rw [nested_addChild h hr, if_pos rfl]
  simp

/-- A new child brings its file, if it comes from one. -/
theorem files_addChild_self (g : Graph) (parent : Nat) (r : Recipe) :
    (g.addChild parent r).files [g.size] = r.file?.toList := by
  rw [files, List.filterMap_cons, file?_addChild, if_pos rfl]
  cases r.file? <;> rfl

/-- A recipe that there is keeps its file. -/
theorem Grows.file? {g g' : Graph} (h : g.Grows g') {id : Nat} (hid : id < g.size) :
    g'.file? id = g.file? id := by
  obtain ⟨r, hr⟩ := recipe?_of_lt hid
  obtain ⟨r', hr', hgrows⟩ := h.recipes id r hr
  unfold Graph.file?
  rw [hr, hr']
  change r'.file? = r.file?
  unfold Recipe.file?
  rw [hgrows.isFile, hgrows.path]

/-- The files of recipes stay the same while the graph grows. -/
theorem Grows.files {g g' : Graph} (h : g.Grows g') {ids : List Nat}
    (hids : ∀ id ∈ ids, id < g.size) : g'.files ids = g.files ids :=
  List.filterMap_congr fun id hid => h.file? (hids id hid)

/-- What is nested in a recipe stays nested in it. -/
theorem Grows.mem_nested {g g' : Graph} (h : g.Grows g') {parent id : Nat}
    (hid : id ∈ g.nested parent) : id ∈ g'.nested parent := by
  rw [nested] at hid ⊢
  cases hr : g.recipe? parent with
  | none => simp [hr] at hid
  | some r =>
    obtain ⟨r', hr', hgrows⟩ := h.recipes parent r hr
    rw [hr] at hid
    rw [hr']
    exact hgrows.nested.subset hid

/-! ### Forests -/

/-- Every recipe but a root is nested in one other, and a root is not. -/
structure Forest (g : Graph) : Prop where
  root_lt : ∀ root ∈ g.roots, root < g.size
  nested_lt : ∀ parent, ∀ id ∈ g.nested parent, id < g.size
  parent_eq : ∀ parent parent' id, id ∈ g.nested parent → id ∈ g.nested parent' → parent = parent'
  root_free : ∀ parent, ∀ id ∈ g.nested parent, id ∉ g.roots

/-- A graph without recipes is a forest. -/
theorem forest_empty : empty.Forest := by
  refine ⟨?_, ?_, ?_, ?_⟩ <;> simp [empty, nested, recipe?]

namespace Forest

variable {g : Graph} (h : g.Forest)

include h

/-- It stays one when a resource is added to a recipe. -/
theorem addResource (parent : Nat) (x : Resource) : (g.addResource parent x).Forest := by
  refine ⟨?_, ?_, ?_, ?_⟩
  · rw [roots_addResource, size_addResource]
    exact h.root_lt
  · rw [nested_addResource, size_addResource]
    exact h.nested_lt
  · rw [nested_addResource]
    exact h.parent_eq
  · rw [nested_addResource, roots_addResource]
    exact h.root_free

/-- It stays one when a root is begun with nothing nested in it. -/
theorem addRoot {r : Recipe} (hr : r.nested = []) : (g.addRoot r).Forest := by
  refine ⟨?_, ?_, ?_, ?_⟩
  · intro root hroot
    rw [roots_addRoot, List.mem_append, List.mem_singleton] at hroot
    rw [size_addRoot]
    rcases hroot with hroot | hroot
    · have hlt := h.root_lt root hroot
      omega
    · omega
  · rw [nested_addRoot g hr, size_addRoot]
    intro parent id hid
    have hlt := h.nested_lt parent id hid
    omega
  · rw [nested_addRoot g hr]
    exact h.parent_eq
  · rw [nested_addRoot g hr, roots_addRoot]
    intro parent id hid hroot
    have hlt := h.nested_lt parent id hid
    rw [List.mem_append, List.mem_singleton] at hroot
    rcases hroot with hroot | hroot
    · exact h.root_free parent id hid hroot
    · omega

/-- It stays one when such a recipe is nested in one of the graph. -/
theorem addChild {parent : Nat} (hp : parent < g.size) {r : Recipe} (hr : r.nested = []) :
    (g.addChild parent r).Forest := by
  refine ⟨?_, ?_, ?_, ?_⟩
  · rw [roots_addChild, size_addChild]
    intro root hroot
    have hlt := h.root_lt root hroot
    omega
  · intro i id hid
    rw [size_addChild]
    rcases mem_nested_of_addChild hp hr hid with hold | ⟨-, hnew⟩
    · have hlt := h.nested_lt i id hold
      omega
    · omega
  · intro i i' id hid hid'
    rcases mem_nested_of_addChild hp hr hid with hold | ⟨hi, hnew⟩
    · have hlt := h.nested_lt i id hold
      rcases mem_nested_of_addChild hp hr hid' with hold' | ⟨-, hnew'⟩
      · exact h.parent_eq i i' id hold hold'
      · omega
    · rcases mem_nested_of_addChild hp hr hid' with hold' | ⟨hi', -⟩
      · have hlt := h.nested_lt i' id hold'
        omega
      · exact hi.trans hi'.symm
  · rw [roots_addChild]
    intro i id hid hroot
    have hlt := h.root_lt id hroot
    rcases mem_nested_of_addChild hp hr hid with hold | ⟨-, hnew⟩
    · exact h.root_free i id hold hroot
    · omega

end Forest

/-! ### Lines -/

/-- The recipes above one, from a root down to the one that it is nested in. -/
inductive Line (g : Graph) (root : Nat) : List Nat → Nat → Prop
  | root (h : root ∈ g.roots) : Line g root [] root
  | nested {above : List Nat} {parent id : Nat} (h : Line g root above parent)
      (hid : id ∈ g.nested parent) : Line g root (above ++ [parent]) id

namespace Line

variable {g g' : Graph} {root id : Nat} {above : List Nat}

/-- The recipes on a line are all recipes of the graph. -/
theorem lt (hg : g.Forest) (h : Line g root above id) : ∀ i ∈ above ++ [id], i < g.size := by
  induction h with
  | root h =>
    intro i hi
    rw [List.nil_append, List.mem_singleton] at hi
    rw [hi]
    exact hg.root_lt root h
  | @nested above parent id _ hid ih =>
    intro i hi
    rw [List.mem_append, List.mem_singleton] at hi
    rcases hi with hi | hi
    · exact ih i hi
    · rw [hi]
      exact hg.nested_lt parent id hid

/-- A line begins with a recipe of the graph. -/
theorem root_lt (hg : g.Forest) (h : Line g root above id) : root < g.size := by
  induction h with
  | root h => exact hg.root_lt root h
  | nested _ _ ih => exact ih

/-- A line ends with a recipe of the graph. -/
theorem id_lt (hg : g.Forest) (h : Line g root above id) : id < g.size :=
  h.lt hg id (by simp)

/-- There is one line for each recipe. -/
theorem unique (hg : g.Forest) (h : Line g root above id) {root' : Nat} {above' : List Nat}
    (h' : Line g root' above' id) : root = root' ∧ above = above' := by
  induction h generalizing root' above' with
  | root h =>
    cases h' with
    | root _ => exact ⟨rfl, rfl⟩
    | nested _ hid => exact absurd h (hg.root_free _ _ hid)
  | nested _ hid ih =>
    cases h' with
    | root h => exact absurd h (hg.root_free _ _ hid)
    | nested hline hid' =>
      have hparent := hg.parent_eq _ _ _ hid hid'
      subst hparent
      obtain ⟨hroot, habove⟩ := ih hline
      exact ⟨hroot, by rw [habove]⟩

/-- The lines that there are stay when the graph grows. -/
theorem grows (h : Line g root above id) (hg : g.Grows g') : Line g' root above id := by
  induction h with
  | root h => exact .root (hg.roots.subset h)
  | nested _ hid ih => exact .nested ih (hg.mem_nested hid)

/-- Resources do not matter to lines. -/
theorem of_addResource {parent : Nat} {x : Resource}
    (h : Line (g.addResource parent x) root above id) : Line g root above id := by
  induction h with
  | root h => exact .root h
  | nested _ hid ih =>
    rw [nested_addResource] at hid
    exact .nested ih hid

/-- With a new root there is one more line. -/
theorem of_addRoot {r : Recipe} (hr : r.nested = [])
    (h : Line (g.addRoot r) root above id) :
    Line g root above id ∨ (root = g.size ∧ above = [] ∧ id = g.size) := by
  induction h with
  | root h =>
    rw [roots_addRoot, List.mem_append, List.mem_singleton] at h
    exact h.imp Line.root fun heq => ⟨heq, rfl, heq⟩
  | nested _ hid ih =>
    rw [nested_addRoot g hr] at hid
    rcases ih with hline | ⟨-, -, hparent⟩
    · exact .inl (.nested hline hid)
    · rw [hparent, nested_of_le (Nat.le_refl _)] at hid
      exact absurd hid List.not_mem_nil

/-- With a new nested recipe there is one more line, which extends that of its parent. -/
theorem of_addChild {parent : Nat} (hp : parent < g.size) {r : Recipe} (hr : r.nested = [])
    (h : Line (g.addChild parent r) root above id) :
    Line g root above id ∨
      ∃ above', above = above' ++ [parent] ∧ id = g.size ∧ Line g root above' parent := by
  induction h with
  | root h => exact .inl (.root h)
  | @nested above i id _ hid ih =>
    rcases ih with hline | ⟨above', -, hi, -⟩
    · rcases mem_nested_of_addChild hp hr hid with hold | ⟨hparent, hnew⟩
      · exact .inl (.nested hline hold)
      · exact .inr ⟨above, by rw [hparent], hnew, hparent ▸ hline⟩
    · -- Nothing is nested in the new recipe.
      rw [nested_addChild hp hr, if_neg (by omega), hi, nested_of_le (Nat.le_refl _)] at hid
      exact absurd hid List.not_mem_nil

end Line

end Graph

end Provision
