import Provision.Graph.Basic

/-!
# Growth of the graph

A recipe keeps its number, its path and its origin for good, and its children are only
ever added to at the end. Here are the equations of the three operations that add
something, and the two orders that they respect: `Graph.Grows` for any addition, and
`Graph.ExtendsAt` for additions to one recipe and to recipes made after it.
-/

namespace Provision

/-- A recipe with one more child at the end of its list. -/
def Recipe.push (r : Recipe) (c : Child) : Recipe := { r with children := r.children ++ [c] }

/-- The new child is the last one. -/
@[simp] theorem Recipe.push_children (r : Recipe) (c : Child) :
    (r.push c).children = r.children ++ [c] := rfl

/-- A recipe that has no children yet does not nest any recipe. -/
theorem Recipe.nested_of_children {r : Recipe} (h : r.children = []) : r.nested = [] := by
  rw [nested, h]
  rfl

/-- A resource is not a nested recipe. -/
theorem Recipe.nested_push_resource (r : Recipe) (x : Resource) :
    (r.push (.resource x)).nested = r.nested := by
  simp [Recipe.nested]

/-- A recipe that is nested comes after those nested before. -/
theorem Recipe.nested_push_recipe (r : Recipe) (id : Nat) :
    (r.push (.recipe id)).nested = r.nested ++ [id] := by
  simp [Recipe.nested]

/-- A resource that is added comes after those added before. -/
theorem Recipe.resources_push_resource (r : Recipe) (x : Resource) :
    (r.push (.resource x)).resources = r.resources ++ [x] := by
  simp [Recipe.resources]

/-- A nested recipe is not a resource. -/
theorem Recipe.resources_push_recipe (r : Recipe) (id : Nat) :
    (r.push (.recipe id)).resources = r.resources := by
  simp [Recipe.resources]

namespace Graph

/-! ### The equations of the operations -/

/-- The number of a recipe is below the size of the graph. -/
theorem recipe?_lt {g : Graph} {id : Nat} {r : Recipe} (h : g.recipe? id = some r) :
    id < g.size := (Array.getElem?_eq_some_iff.mp h).choose

/-- Every number below the size of the graph is that of a recipe. -/
theorem recipe?_of_lt {g : Graph} {id : Nat} (h : id < g.size) :
    ∃ r, g.recipe? id = some r := ⟨g.recipes[id], Array.getElem?_eq_getElem h⟩

/-- A child that is added to a list changes no number of recipes. -/
@[simp] theorem size_append (g : Graph) (parent : Nat) (c : Child) :
    (g.append parent c).size = g.size := Array.size_modify

/-- Appending a child changes one recipe and no other. -/
theorem recipe?_append (g : Graph) (parent id : Nat) (c : Child) :
    (g.append parent c).recipe? id =
      if parent = id then (g.recipe? id).map (·.push c) else g.recipe? id :=
  Array.getElem?_modify

/-- A resource brings no recipe. -/
@[simp] theorem size_addResource (g : Graph) (parent : Nat) (x : Resource) :
    (g.addResource parent x).size = g.size := size_append g parent _

/-- A resource brings no root. -/
@[simp] theorem roots_addResource (g : Graph) (parent : Nat) (x : Resource) :
    (g.addResource parent x).roots = g.roots := rfl

/-- The recipe that a resource is added to has it last, and the other recipes stay. -/
theorem recipe?_addResource (g : Graph) (parent id : Nat) (x : Resource) :
    (g.addResource parent x).recipe? id =
      if parent = id then (g.recipe? id).map (·.push (.resource x)) else g.recipe? id :=
  recipe?_append g parent id _

/-- A root is one more recipe. -/
@[simp] theorem size_addRoot (g : Graph) (r : Recipe) : (g.addRoot r).size = g.size + 1 :=
  Array.size_push r

/-- The number of the new root is in use then. -/
theorem lt_size_addRoot (g : Graph) (r : Recipe) : g.size < (g.addRoot r).size := by
  rw [size_addRoot]
  exact Nat.lt_succ_self _

/-- The new root comes after the other roots. -/
@[simp] theorem roots_addRoot (g : Graph) (r : Recipe) :
    (g.addRoot r).roots = g.roots ++ [g.size] := rfl

/-- The new root is found under the next number, and the other recipes stay. -/
theorem recipe?_addRoot (g : Graph) (r : Recipe) (id : Nat) :
    (g.addRoot r).recipe? id = if id = g.size then some r else g.recipe? id :=
  Array.getElem?_push

/-- A nested recipe is one more recipe. -/
@[simp] theorem size_addChild (g : Graph) (parent : Nat) (r : Recipe) :
    (g.addChild parent r).size = g.size + 1 := by
  rw [addChild, size_append]
  exact Array.size_push r

/-- The number of the new recipe is in use then. -/
theorem lt_size_addChild (g : Graph) (parent : Nat) (r : Recipe) :
    g.size < (g.addChild parent r).size := by
  rw [size_addChild]
  exact Nat.lt_succ_self _

/-- A nested recipe is not a root. -/
@[simp] theorem roots_addChild (g : Graph) (parent : Nat) (r : Recipe) :
    (g.addChild parent r).roots = g.roots := rfl

/-- Adding a nested recipe changes the recipe that holds it, which is an older one, and
gives the next number to the new one. -/
theorem recipe?_addChild {g : Graph} {parent : Nat} (h : parent < g.size) (r : Recipe) (id : Nat) :
    (g.addChild parent r).recipe? id =
      if id = g.size then some r
      else if parent = id then (g.recipe? id).map (·.push (.recipe g.size)) else g.recipe? id := by
  have hpush : ({ g with recipes := g.recipes.push r } : Graph).recipe? id =
      if id = g.size then some r else g.recipe? id := Array.getElem?_push
  rw [addChild, recipe?_append, hpush]
  by_cases hid : id = g.size
  · have hne : parent ≠ id := by omega
    simp only [hid, if_true, if_neg (hid ▸ hne)]
  · simp only [hid, if_false]

/-! ### Growth -/

end Graph

/-- A later state of a recipe. -/
structure Recipe.Grows (r r' : Recipe) : Prop where
  path : r'.path = r.path
  origin : r'.origin = r.origin
  children : r.children <+: r'.children

/-- A recipe is a later state of itself. -/
theorem Recipe.Grows.refl (r : Recipe) : r.Grows r := ⟨rfl, rfl, List.prefix_refl _⟩

/-- A later state of a later state is one. -/
theorem Recipe.Grows.trans {r r' r'' : Recipe} (h : r.Grows r') (h' : r'.Grows r'') :
    r.Grows r'' :=
  ⟨h'.path.trans h.path, h'.origin.trans h.origin, h.children.trans h'.children⟩

/-- A recipe with one more child is a later state of it. -/
theorem Recipe.grows_push (r : Recipe) (c : Child) : r.Grows (r.push c) :=
  ⟨rfl, rfl, List.prefix_append _ _⟩

/-- Nested recipes are only ever added at the end. -/
theorem Recipe.Grows.nested {r r' : Recipe} (h : r.Grows r') : r.nested <+: r'.nested :=
  h.children.filterMap _

/-- A recipe for a file stays one. -/
theorem Recipe.Grows.isFile {r r' : Recipe} (h : r.Grows r') : r'.isFile = r.isFile := by
  unfold Recipe.isFile
  rw [h.origin]

namespace Graph

/-- A later state of a graph. -/
structure Grows (g g' : Graph) : Prop where
  roots : g.roots <+: g'.roots
  recipes : ∀ id r, g.recipe? id = some r → ∃ r', g'.recipe? id = some r' ∧ r.Grows r'

/-- A graph is a later state of itself. -/
theorem Grows.refl (g : Graph) : g.Grows g :=
  ⟨List.prefix_refl _, fun _ r h => ⟨r, h, Recipe.Grows.refl r⟩⟩

/-- A later state of a later state is one. -/
theorem Grows.trans {g g' g'' : Graph} (h : g.Grows g') (h' : g'.Grows g'') : g.Grows g'' := by
  refine ⟨h.roots.trans h'.roots, ?_⟩
  intro id r hr
  obtain ⟨r', hr', hg⟩ := h.recipes id r hr
  obtain ⟨r'', hr'', hg'⟩ := h'.recipes id r' hr'
  exact ⟨r'', hr'', hg.trans hg'⟩

/-- Recipes do not get fewer. -/
theorem Grows.size_le {g g' : Graph} (h : g.Grows g') : g.size ≤ g'.size := by
  refine Nat.le_of_not_lt fun hlt => ?_
  obtain ⟨r, hr⟩ := recipe?_of_lt hlt
  obtain ⟨r', hr', -⟩ := h.recipes _ r hr
  exact Nat.lt_irrefl _ (recipe?_lt hr')

/-- A graph grows by a child of a recipe. -/
theorem grows_append (g : Graph) (parent : Nat) (c : Child) : g.Grows (g.append parent c) := by
  refine ⟨List.prefix_refl _, ?_⟩
  intro id r hr
  rw [recipe?_append, hr]
  split
  · exact ⟨r.push c, rfl, r.grows_push c⟩
  · exact ⟨r, rfl, Recipe.Grows.refl r⟩

/-- It grows by a resource. -/
theorem grows_addResource (g : Graph) (parent : Nat) (x : Resource) :
    g.Grows (g.addResource parent x) := grows_append g parent _

/-- It grows by a root. -/
theorem grows_addRoot (g : Graph) (r : Recipe) : g.Grows (g.addRoot r) := by
  refine ⟨List.prefix_append _ _, ?_⟩
  intro id x hx
  have hlt := recipe?_lt hx
  rw [recipe?_addRoot, if_neg (by omega)]
  exact ⟨x, hx, Recipe.Grows.refl x⟩

/-- It grows by a nested recipe. -/
theorem grows_addChild (g : Graph) (parent : Nat) (r : Recipe) : g.Grows (g.addChild parent r) := by
  have hpush : g.Grows { g with recipes := g.recipes.push r } := by
    refine ⟨List.prefix_refl _, ?_⟩
    intro id x hx
    exact ⟨x, (Array.getElem?_push_lt (recipe?_lt hx)).trans
      ((Array.getElem?_eq_getElem (recipe?_lt hx)).symm.trans hx), Recipe.Grows.refl x⟩
  exact hpush.trans (grows_append _ parent _)

/-! ### Growth at one recipe -/

/-- A later state of a graph to which only one of its recipes has been added to. -/
structure ExtendsAt (g g' : Graph) (id : Nat) : Prop where
  roots : g'.roots = g.roots
  others : ∀ other < g.size, other ≠ id → g'.recipe? other = g.recipe? other
  current : ∀ r, g.recipe? id = some r → ∃ r', g'.recipe? id = some r' ∧ r.Grows r'

/-- A graph to which nothing was added is extended at any recipe. -/
theorem ExtendsAt.refl (g : Graph) (id : Nat) : g.ExtendsAt g id :=
  ⟨rfl, fun _ _ _ => rfl, fun r h => ⟨r, h, Recipe.Grows.refl r⟩⟩

/-- Growth at one recipe is growth. -/
theorem ExtendsAt.grows {g g' : Graph} {id : Nat} (h : g.ExtendsAt g' id) : g.Grows g' := by
  refine ⟨h.roots ▸ List.prefix_refl _, ?_⟩
  intro other r hr
  by_cases ho : other = id
  · subst ho
    exact h.current r hr
  · exact ⟨r, (h.others other (recipe?_lt hr) ho).trans hr, Recipe.Grows.refl r⟩

/-- Growth at one recipe can go on there. -/
theorem ExtendsAt.trans {g g' g'' : Graph} {id : Nat} (h : g.ExtendsAt g' id)
    (h' : g'.ExtendsAt g'' id) : g.ExtendsAt g'' id := by
  refine ⟨h'.roots.trans h.roots, ?_, ?_⟩
  · intro other hlt hne
    have hle := h.grows.size_le
    exact (h'.others other (by omega) hne).trans (h.others other hlt hne)
  · intro r hr
    obtain ⟨r', hr', hg⟩ := h.current r hr
    obtain ⟨r'', hr'', hg'⟩ := h'.current r' hr'
    exact ⟨r'', hr'', hg.trans hg'⟩

/-- A child of a recipe is growth at this recipe. -/
theorem extendsAt_append (g : Graph) (id : Nat) (c : Child) : g.ExtendsAt (g.append id c) id := by
  refine ⟨rfl, ?_, fun r hr => (grows_append g id c).recipes id r hr⟩
  intro other _ hne
  rw [recipe?_append, if_neg (Ne.symm hne)]

/-- So is a resource. -/
theorem extendsAt_addResource (g : Graph) (id : Nat) (x : Resource) :
    g.ExtendsAt (g.addResource id x) id := extendsAt_append g id _

/-- So is a nested recipe. -/
theorem extendsAt_addChild (g : Graph) (id : Nat) (r : Recipe) :
    g.ExtendsAt (g.addChild id r) id := by
  refine ⟨rfl, ?_, fun x hx => (grows_addChild g id r).recipes id x hx⟩
  intro other hlt hne
  have hpush : ({ g with recipes := g.recipes.push r } : Graph).recipe? other = g.recipe? other :=
    (Array.getElem?_push_lt hlt).trans (Array.getElem?_eq_getElem hlt).symm
  rw [addChild, recipe?_append, if_neg (Ne.symm hne), hpush]

/-- What is added to a recipe made later leaves the older recipes alone. -/
theorem ExtendsAt.of_newer {g g' g'' : Graph} {id new : Nat} (h : g.ExtendsAt g' id)
    (h' : g'.ExtendsAt g'' new) (hnew : g.size ≤ new) : g.ExtendsAt g'' id := by
  have hle := h.grows.size_le
  refine ⟨h'.roots.trans h.roots, ?_, ?_⟩
  · intro other hlt hne
    exact (h'.others other (by omega) (by omega)).trans (h.others other hlt hne)
  · intro r hr
    have hlt := recipe?_lt hr
    obtain ⟨r', hr', hg⟩ := h.current r hr
    exact ⟨r', (h'.others id (by omega) (by omega)).trans hr', hg⟩

end Graph

end Provision
