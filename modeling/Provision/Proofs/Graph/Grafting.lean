import Provision.Proofs.Graph.Spans

/-!
# Graphs after other graphs

Recipes are numbered in the order in which they are begun, so the same recipes have other
numbers in a graph in which others were begun before them. `Graph.graft` puts a graph after
another one. What is added to the later of the two, and what is found in it, is then the same
under the other numbers.
-/

namespace Provision

/-- A notification in which recipes have other numbers. -/
def Notification.renumber (ν : Nat → Nat) (n : Notification) : Notification :=
  { n with recipe := ν n.recipe }

/-- A resource in which recipes have other numbers. -/
def Resource.renumber (ν : Nat → Nat) (x : Resource) : Resource :=
  { x with recipe := ν x.recipe, notifications := x.notifications.map (·.renumber ν) }

/-- A child in which recipes have other numbers. -/
def Child.renumber (ν : Nat → Nat) : Child → Child
  | .resource x => .resource (x.renumber ν)
  | .recipe id => .recipe (ν id)

/-- A recipe in which recipes have other numbers. -/
def Recipe.renumber (ν : Nat → Nat) (r : Recipe) : Recipe :=
  { r with children := r.children.map (·.renumber ν) }

/-- A resource as it is declared in a recipe of a given number. -/
def Resource.ownedBy (id : Nat) (x : Resource) : Resource := x.renumber fun _ => id

/-- A resource that is renumbered belongs to the new number of its recipe. -/
theorem Resource.renumber_ownedBy (ν : Nat → Nat) (id : Nat) (x : Resource) :
    (x.ownedBy id).renumber ν = x.ownedBy (ν id) := by
  simp [ownedBy, renumber, Notification.renumber, Function.comp_def]

namespace Recipe

variable (ν : Nat → Nat) (r : Recipe)

/-- A child that is added can be renumbered before or after that. -/
theorem renumber_push (c : Child) : (r.push c).renumber ν = (r.renumber ν).push (c.renumber ν) := by
  simp [renumber, push]

/-- A recipe without children has no numbers to change. -/
theorem renumber_of_empty {r : Recipe} (h : r.children = []) : r.renumber ν = r := by
  rw [renumber, h]
  exact congrArg (Recipe.mk r.path r.origin) h.symm

/-- The nested recipes are those with the new numbers. -/
theorem renumber_nested : (r.renumber ν).nested = r.nested.map ν := by
  unfold nested renumber
  rw [List.filterMap_map, List.map_filterMap]
  congr 1
  funext c
  cases c <;> rfl

/-- The resources are those with the new numbers. -/
theorem renumber_resources : (r.renumber ν).resources = r.resources.map (·.renumber ν) := by
  unfold resources renumber
  rw [List.filterMap_map, List.map_filterMap]
  congr 1
  funext c
  cases c <;> rfl

end Recipe

namespace Graph

/-- A graph is its roots and its recipes. -/
theorem ext_recipe? {g g' : Graph} (hroots : g.roots = g'.roots)
    (hrecipes : ∀ id, g.recipe? id = g'.recipe? id) : g = g' := by
  have hsame : g.recipes = g'.recipes := Array.ext_getElem? hrecipes
  exact congr (congrArg Graph.mk hroots) hsame

/-- A graph put after another one. Its recipes keep their order and get higher numbers. -/
def graft (b g : Graph) : Graph :=
  { roots := b.roots ++ g.roots.map (· + b.size)
    recipes := b.recipes ++ g.recipes.map (·.renumber (· + b.size)) }

section Graft

variable (b g : Graph)

/-- The sizes of the two graphs add up. -/
theorem size_graft : (b.graft g).size = g.size + b.size := by
  simp [graft, size, Nat.add_comm]

/-- The recipes of the earlier graph keep their numbers and stay as they are. -/
theorem recipe?_graft_of_lt {id : Nat} (h : id < b.size) :
    (b.graft g).recipe? id = b.recipe? id := Array.getElem?_append_left h

/-- The recipes of the later graph are found under higher numbers. -/
theorem recipe?_graft_add (id : Nat) :
    (b.graft g).recipe? (id + b.size) = (g.recipe? id).map (·.renumber (· + b.size)) := by
  have hle : b.recipes.size ≤ id + b.size := Nat.le_add_left _ _
  rw [recipe?, graft, Array.getElem?_append_right hle, Array.getElem?_map]
  change (g.recipes[id + b.size - b.size]?).map _ = _
  rw [Nat.add_sub_cancel]
  rfl

/-- An empty graph adds nothing. -/
theorem graft_empty : b.graft empty = b := by
  simp [graft, empty]

/-- Every recipe of the whole is one of the first graph or one of the second. -/
theorem lt_or_add (n id : Nat) : id < n ∨ ∃ later, id = later + n := by
  rcases Nat.lt_or_ge id n with h | h
  · exact .inl h
  · exact .inr ⟨id - n, by omega⟩

/-! ### Additions to the later graph -/

/-- A child can be added to a recipe before or after grafting. -/
theorem graft_append (id : Nat) (c : Child) :
    b.graft (g.append id c) = (b.graft g).append (id + b.size) (c.renumber (· + b.size)) := by
  refine ext_recipe? rfl fun other => ?_
  rcases lt_or_add b.size other with h | ⟨later, rfl⟩
  · rw [recipe?_append, if_neg (by omega), recipe?_graft_of_lt _ _ h, recipe?_graft_of_lt _ _ h]
  · rw [recipe?_append, recipe?_graft_add, recipe?_graft_add, recipe?_append]
    by_cases hid : id = later
    · rw [if_pos hid, if_pos (by omega), Option.map_map, Option.map_map]
      congr 1
      funext r
      exact r.renumber_push _ c
    · rw [if_neg hid, if_neg (by omega)]

/-- So can a resource, which belongs to the number that the recipe has then. -/
theorem graft_addResource (id : Nat) (x : Resource) :
    b.graft (g.addResource id (x.ownedBy id)) =
      (b.graft g).addResource (id + b.size) (x.ownedBy (id + b.size)) := by
  rw [addResource, graft_append, Child.renumber, Resource.renumber_ownedBy]
  rfl

/-- A recipe that no other one nests can be added before or after grafting. -/
theorem graft_push {r : Recipe} (hr : r.children = []) :
    b.graft { g with recipes := g.recipes.push r } =
      { b.graft g with recipes := (b.graft g).recipes.push r } := by
  rw [graft, Array.map_push, Array.append_push, r.renumber_of_empty _ hr]
  rfl

/-- So can a nested recipe. -/
theorem graft_addChild (id : Nat) {r : Recipe} (hr : r.children = []) :
    b.graft (g.addChild id r) = (b.graft g).addChild (id + b.size) r := by
  rw [addChild, graft_append, graft_push b g hr, addChild, size_graft]
  rfl

/-- So can a root. -/
theorem graft_addRoot {r : Recipe} (hr : r.children = []) :
    b.graft (g.addRoot r) = (b.graft g).addRoot r := by
  have hpush := congrArg Graph.recipes (graft_push b g hr)
  refine congr (congrArg Graph.mk ?_) hpush
  rw [size_graft]
  simp [addRoot, graft]

/-! ### What is found in the later graph -/

/-- Below a recipe of the later graph, the resources are those that it had, with new numbers. -/
theorem resourcesBelow_graft (depth id : Nat) :
    (b.graft g).resourcesBelow depth (id + b.size) =
      (g.resourcesBelow depth id).map (·.renumber (· + b.size)) := by
  induction depth generalizing id with
  | zero => rfl
  | succ depth ih =>
    rw [resourcesBelow, resourcesBelow, recipe?_graft_add]
    cases g.recipe? id with
    | none => rfl
    | some r =>
      change List.flatMap _ (r.children.map _) = _
      rw [List.flatMap_map, List.map_flatMap]
      congr 1
      funext c
      cases c with
      | resource x => rfl
      | recipe nested => exact ih nested

/-- A notification means the resource that it means in the later graph alone. -/
theorem resource?_graft (n : Notification) :
    (n.renumber (· + b.size)).resource? (b.graft g) =
      (n.resource? g).map (·.renumber (· + b.size)) := by
  have htarget : (n.renumber (· + b.size)).target = n.target := rfl
  unfold Notification.resource?
  rw [htarget]
  cases Descriptor.ofText? n.target with
  | none => rfl
  | some d =>
    dsimp only
    rw [Notification.renumber, recipe?_graft_add]
    cases g.recipe? n.recipe with
    | none => rfl
    | some r =>
      -- Neither the kind nor the name of a resource has to do with numbers.
      have hfind : ((r.renumber (· + b.size)).resources.find? fun x =>
            x.kind.keyword == d.type && x.name == d.name) =
          (r.resources.find? fun x => x.kind.keyword == d.type && x.name == d.name).map
            (·.renumber (· + b.size)) := by
        rw [Recipe.renumber_resources, List.find?_map]
        rfl
      simp only [Option.map_some, Option.bind_some, hfind]
      cases r.resources.find? _ <;> rfl

/-- If the roots of both graphs span everything, the resources of the later one follow those
of the earlier one. -/
theorem resources_graft {xs ys : List Resource} (hb : b.Spans (b.roots.map .recipe) 0 b.size xs)
    (hg : g.Spans (g.roots.map .recipe) 0 g.size ys) :
    (b.graft g).resources = b.resources ++ g.resources.map (·.renumber (· + b.size)) := by
  have hbefore : b.roots.flatMap ((b.graft g).resourcesBelow (b.graft g).size) = xs := by
    have hsame : (b.graft g).Spans (b.roots.map .recipe) 0 b.size xs :=
      hb.congr fun id _ hid => recipe?_graft_of_lt b g hid
    have hdepth : b.size - 0 ≤ (b.graft g).size := by rw [size_graft]; omega
    have hdeep := hsame.resources hdepth
    rwa [List.flatMap_map] at hdeep
  have hafter : g.roots.flatMap (g.resourcesBelow (b.graft g).size) = ys := by
    have hdepth : g.size - 0 ≤ (b.graft g).size := by rw [size_graft]; omega
    have hdeep := hg.resources hdepth
    rwa [List.flatMap_map] at hdeep
  have hlater : (g.roots.map (· + b.size)).flatMap ((b.graft g).resourcesBelow (b.graft g).size) =
      ys.map (·.renumber (· + b.size)) := by
    rw [← hafter, List.flatMap_map, List.map_flatMap]
    congr 1
    funext root
    exact resourcesBelow_graft b g _ root
  rw [resources_of_spans hb, resources_of_spans hg, resources, graft, List.flatMap_append]
  exact congr (congrArg _ hbefore) hlater

end Graft

end Graph

end Provision
