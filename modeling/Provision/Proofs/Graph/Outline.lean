import Provision.Graph.Tree
import Provision.Proofs.Graph.Spans

/-!
# The outline of a graph

The tree of a graph tells of one item after the other: of a recipe and of all that is below it, of
a resource and of its notifications. Each item stands on a level, and is told of in a block of its
own. If the recipes of a graph are numbered in the order of a walk, there is one outline of it, and
its items are those that the graph lists elsewhere: every recipe at its number, and the resources in
the order in which they are applied.
-/

namespace Provision.Graph

/-- What a block of a tree is about. -/
inductive Item where
  /-- A recipe with its number. -/
  | recipe (id : Nat) (r : Recipe)
  | resource (x : Resource)
  | notification (n : Notification)
  deriving Inhabited

namespace Item

/-- What a tree tells of an item. -/
def heading : Item → String
  | .recipe _ r =>
    match r.origin with
    | .file => "Recipe: " ++ r.path.shown
    | .definition d name => "Definition: " ++ Descriptor.text ⟨d, name⟩
  | .resource x => x.descriptor ++ " (" ++ Text.joined ", " x.actions ++ ")"
  | .notification n =>
    "notifies " ++ n.action ++ " " ++ n.target ++ " (" ++ n.timing.text ++ ")"

/-- The recipe that an item is, with its number. -/
def recipe? : Item → Option (Recipe × Nat)
  | .recipe id r => some (r, id)
  | _ => none

/-- The resource that an item is. -/
def resource? : Item → Option Resource
  | .resource x => some x
  | _ => none

/-- The notification that an item is. -/
def notification? : Item → Option Notification
  | .notification n => some n
  | _ => none

/-- A resource, and its notifications. -/
def declared (x : Resource) : List Item := .resource x :: x.notifications.map .notification

end Item

/-- An item on a level. -/
structure Row where
  level : Nat
  item : Item
  deriving Inhabited

namespace Row

/-- The block of an item, indented by two spaces a level. -/
def block (r : Row) : String := indentation r.level ++ r.item.heading ++ "\n"

/-- The rows of a resource, its notifications being one level below. -/
def declared (level : Nat) (x : Resource) : List Row :=
  ⟨level, .resource x⟩ :: x.notifications.map fun n => ⟨level + 1, .notification n⟩

/-- The recipes that rows are about, with their numbers. -/
def recipes (rows : List Row) : List (Recipe × Nat) := rows.filterMap (·.item.recipe?)

/-- The resources that rows are about. -/
def resources (rows : List Row) : List Resource := rows.filterMap (·.item.resource?)

/-- The notifications that rows are about. -/
def notifications (rows : List Row) : List Notification := rows.filterMap (·.item.notification?)

end Row

/-- The rows of a list of children on a level, depth first. What is nested in a recipe is one level
below it. -/
inductive Outline (g : Graph) : Nat → List Child → List Row → Prop
  | nil (level : Nat) : Outline g level [] []
  | resource {level : Nat} {cs : List Child} {rows : List Row} (x : Resource)
      (rest : Outline g level cs rows) :
      Outline g level (.resource x :: cs) (Row.declared level x ++ rows)
  | recipe {level id : Nat} {r : Recipe} {cs : List Child} {inner rows : List Row}
      (hr : g.recipe? id = some r) (below : Outline g (level + 1) r.children inner)
      (rest : Outline g level cs rows) :
      Outline g level (.recipe id :: cs) (⟨level, .recipe id r⟩ :: inner ++ rows)

/-- There is at most one outline. -/
theorem Outline.unique {g : Graph} {level : Nat} {cs : List Child} {rows others : List Row}
    (h : Outline g level cs rows) (h' : Outline g level cs others) : others = rows := by
  induction h generalizing others with
  | nil =>
    cases h'
    rfl
  | resource x _ ih =>
    cases h' with
    | resource _ rest => rw [ih rest]
  | recipe hr _ _ ih ih' =>
    cases h' with
    | recipe hr' below rest =>
      cases hr.symm.trans hr'
      rw [ih below, ih' rest]

/-! ### The blocks of an outline -/

/-- Indentations add up. -/
theorem indentation_add (level more : Nat) :
    indentation (level + more) = indentation level ++ indentation more := by
  rw [indentation, indentation, indentation, ← String.ofList_append,
    List.replicate_append_replicate, Nat.mul_add]

/-- The line of a recipe is the block of its row. -/
theorem recipeLine_eq (level id : Nat) (r : Recipe) :
    recipeLine level r = Row.block ⟨level, .recipe id r⟩ := by
  rw [recipeLine, Row.block, Item.heading]
  cases r.origin <;> simp only [String.append_assoc]

/-- The line of a notification is the block of a row, on the second level below its recipe. -/
theorem notificationLine_eq (level : Nat) (n : Notification) :
    notificationLine level n = Row.block ⟨level + 1 + 1, .notification n⟩ := by
  have hindentation : indentation (level + 1 + 1) = indentation level ++ "    " :=
    indentation_add level 2
  have hfirst : "    notifies " = "    " ++ "notifies " := rfl
  have hlast : ")\n" = ")" ++ "\n" := rfl
  rw [notificationLine, Row.block, Item.heading, hindentation, hfirst, hlast]
  simp only [String.append_assoc]

/-- The lines of a resource are its blocks one level below the recipe. -/
theorem resourceLines_eq (level : Nat) (x : Resource) :
    resourceLines level x = String.join ((Row.declared (level + 1) x).map Row.block) := by
  have hnotifications : notificationLine level =
      Row.block ∘ fun n => ⟨level + 1 + 1, .notification n⟩ :=
    funext fun n => notificationLine_eq level n
  have hindentation : indentation (level + 1) = indentation level ++ "  " :=
    indentation_add level 1
  have hlast : ")\n" = ")" ++ "\n" := rfl
  rw [resourceLines, Row.declared, List.map_cons, String.join_cons, List.map_map, hnotifications,
    Row.block, Item.heading, hindentation, hlast]
  simp only [String.append_assoc]

section

variable (g : Graph)

/-- The blocks of a child on a level and of all below it, down to a given depth of nesting. -/
def childBlocks (depth level : Nat) : Child → String
  | .resource x => String.join ((Row.declared level x).map Row.block)
  | .recipe id => g.recipeLines depth level id

/-- The lines of a recipe are its own and then the blocks of its children. -/
theorem recipeLines_eq {id : Nat} {r : Recipe} (hr : g.recipe? id = some r) (depth level : Nat) :
    g.recipeLines (depth + 1) level id = Row.block ⟨level, .recipe id r⟩ ++
      String.join (r.children.map (g.childBlocks depth (level + 1))) := by
  simp only [recipeLines, hr, recipeLine_eq level id]
  congr 3
  funext c
  cases c with
  | resource x => exact resourceLines_eq level x
  | recipe id => rfl

/-- The tree is made of the blocks of the roots. -/
theorem tree_eq : g.tree = String.join ((g.roots.map .recipe).map (g.childBlocks g.size 0)) := by
  rw [tree, List.map_map]
  rfl

end

namespace Spans

variable {g : Graph} {cs : List Child} {a b level depth : Nat} {xs : List Resource}
  {rows : List Row}

/-- The blocks of a span are found by looking as deep as there are recipes in it. -/
theorem join_childBlocks (h : g.Spans cs a b xs) (hrows : g.Outline level cs rows)
    (hdepth : b - a ≤ depth) :
    String.join (cs.map (g.childBlocks depth level)) = String.join (rows.map Row.block) := by
  induction h generalizing level depth rows with
  | nil =>
    cases hrows
    rfl
  | resource x _ ih =>
    cases hrows with
    | resource _ rest =>
      rw [List.map_cons, String.join_cons, ih rest hdepth, List.map_append, String.join_append]
      rfl
  | @recipe cs a b c r xs ys hr below rest ih ih' =>
    have hab := below.le
    have hbc := rest.le
    obtain ⟨depth, rfl⟩ : ∃ d, depth = d + 1 := ⟨depth - 1, by omega⟩
    cases hrows with
    | recipe hr' inner next =>
      cases hr.symm.trans hr'
      rw [List.map_cons, String.join_cons, ih' next (by omega), childBlocks, g.recipeLines_eq hr,
        ih inner (by omega), List.cons_append, List.map_cons, String.join_cons, List.map_append,
        String.join_append, String.append_assoc]

end Spans

/-! ### The items of an outline -/

/-- The recipe of a number, with the number. -/
def numbered (g : Graph) (id : Nat) : Recipe × Nat := ((g.recipe? id).getD default, id)

/-- The numbered recipes are all that there are. -/
theorem map_numbered (g : Graph) :
    (List.range g.size).map g.numbered = g.recipes.toList.zipIdx := by
  refine List.ext_getElem (by simp [size]) fun id hid hid' => ?_
  have hlt : id < g.recipes.size := by simpa using hid'
  simp [numbered, recipe?, hlt]

/-- Rows tell of the recipes numbered from `a` up to `b` in the order of their numbers, and of
the resources `xs` in their order, each followed by its notifications. -/
structure Tells (g : Graph) (a b : Nat) (xs : List Resource) (rows : List Row) : Prop where
  recipes : Row.recipes rows = (List.range' a (b - a)).map g.numbered
  declared : (rows.map (·.item)).filter (·.recipe?.isNone) = xs.flatMap Item.declared

namespace Tells

variable {g : Graph} {a b c : Nat} {xs ys : List Resource} {rows others : List Row}

/-- None of the rows of a resource is about a recipe. -/
theorem recipe?_declared {level : Nat} {x : Resource} {r : Row} (h : r ∈ Row.declared level x) :
    r.item.recipe? = none := by
  rcases List.mem_cons.mp h with rfl | h
  · rfl
  · obtain ⟨n, -, rfl⟩ := List.mem_map.mp h
    rfl

/-- The level does not matter to what the rows of a resource are about. -/
theorem items_declared (level : Nat) (x : Resource) :
    (Row.declared level x).map (·.item) = Item.declared x := by
  rw [Row.declared, List.map_cons, List.map_map]
  rfl

/-- The rows of a resource may come before others. -/
theorem resource (h : g.Tells a b xs rows) (level : Nat) (x : Resource) :
    g.Tells a b (x :: xs) (Row.declared level x ++ rows) := by
  have hnone : (Row.declared level x).filterMap (·.item.recipe?) = [] :=
    List.filterMap_eq_nil_iff.mpr fun r hr => recipe?_declared hr
  have hall : (Item.declared x).filter (·.recipe?.isNone) = Item.declared x := by
    refine List.filter_eq_self.mpr fun i hi => ?_
    rw [← items_declared 0] at hi
    obtain ⟨r, hr, rfl⟩ := List.mem_map.mp hi
    rw [recipe?_declared hr, Option.isNone_none]
  constructor
  · rw [Row.recipes, List.filterMap_append, hnone, List.nil_append, ← Row.recipes, h.recipes]
  · rw [List.map_append, List.filter_append, items_declared, hall, h.declared, List.flatMap_cons]

/-- The row of a recipe comes before those of what is below it. -/
theorem recipe {r : Recipe} (hr : g.recipe? a = some r) (h : g.Tells (a + 1) b xs rows)
    (hab : a + 1 ≤ b) (level : Nat) : g.Tells a b xs (⟨level, .recipe a r⟩ :: rows) := by
  have hnumbered : g.numbered a = (r, a) := by rw [numbered, hr, Option.getD_some]
  constructor
  · rw [← cons_range' hab, List.map_cons, hnumbered, ← h.recipes]
    rfl
  · rw [← h.declared]
    rfl

/-- Rows about consecutive numbers can be put together. -/
theorem append (h : g.Tells a b xs rows) (h' : g.Tells b c ys others) (hab : a ≤ b)
    (hbc : b ≤ c) : g.Tells a c (xs ++ ys) (rows ++ others) := by
  constructor
  · rw [Row.recipes, List.filterMap_append, ← Row.recipes, ← Row.recipes, h.recipes, h'.recipes,
      ← List.map_append, range'_append_range' hab hbc]
  · rw [List.map_append, List.filter_append, h.declared, h'.declared, List.flatMap_append]

/-- What is asked of items that are no recipes is asked of the resources and their
notifications. -/
theorem filterMap_item {α : Type} (h : g.Tells a b xs rows) {f : Item → Option α}
    (hf : ∀ id r, f (.recipe id r) = none) :
    rows.filterMap (fun r => f r.item) = xs.flatMap fun x => (Item.declared x).filterMap f := by
  have hitems : rows.filterMap (fun r => f r.item) =
      ((rows.map (·.item)).filter (·.recipe?.isNone)).filterMap f := by
    rw [List.filterMap_filter, List.filterMap_map]
    congr 1
    funext r
    cases hr : r.item <;> simp [Item.recipe?, hr, hf]
  rw [hitems, h.declared, List.filterMap_flatMap]

/-- The rows are about those resources, in that order. -/
theorem resources (h : g.Tells a b xs rows) : Row.resources rows = xs := by
  have hone (x : Resource) : (Item.declared x).filterMap Item.resource? = [x] := by
    rw [Item.declared, List.filterMap_cons, List.filterMap_map]
    exact congrArg (x :: ·) (List.filterMap_eq_nil_iff.mpr fun _ _ => rfl)
  rw [Row.resources, h.filterMap_item fun _ _ => rfl]
  simp only [hone, List.flatMap_singleton']

/-- The rows are about the notifications of these resources. -/
theorem notifications (h : g.Tells a b xs rows) :
    Row.notifications rows = xs.flatMap (·.notifications) := by
  have hown (x : Resource) : (Item.declared x).filterMap Item.notification? = x.notifications := by
    rw [Item.declared, List.filterMap_cons, List.filterMap_map]
    exact List.filterMap_some
  rw [Row.notifications, h.filterMap_item fun _ _ => rfl]
  simp only [hown]

end Tells

/-- A span has an outline, which tells of what it spans. -/
theorem Spans.exists_outline {g : Graph} {cs : List Child} {a b : Nat} {xs : List Resource}
    (h : g.Spans cs a b xs) (level : Nat) :
    ∃ rows, g.Outline level cs rows ∧ g.Tells a b xs rows := by
  induction h generalizing level with
  | nil a => exact ⟨[], .nil level, by rw [Nat.sub_self]; rfl, rfl⟩
  | resource x _ ih =>
    obtain ⟨rows, hrows, htells⟩ := ih level
    exact ⟨_, .resource x hrows, htells.resource level x⟩
  | recipe hr below rest ih ih' =>
    obtain ⟨inner, hinner, htells⟩ := ih (level + 1)
    obtain ⟨rows, hrows, htells'⟩ := ih' level
    have hbelow := htells.recipe hr below.le level
    exact ⟨_, .recipe hr hinner hrows, hbelow.append htells' (by have := below.le; omega) rest.le⟩

/-! ### The outline of all -/

/-- Rows are those of the one walk through a graph, and agree with the other accounts of it. -/
structure Outlined (g : Graph) (rows : List Row) : Prop where
  walk : ∀ others, g.Outline 0 (g.roots.map .recipe) others ↔ others = rows
  /-- The tree consists of their blocks. -/
  tree : g.tree = String.join (rows.map Row.block)
  /-- Every recipe is there once, in the order of the numbers. -/
  recipes : Row.recipes rows = g.recipes.toList.zipIdx
  /-- The resources are there in the order in which they are applied. -/
  resources : Row.resources rows = g.resources
  notifications : Row.notifications rows = g.resources.flatMap (·.notifications)
  /-- Each resource is followed by its own notifications. -/
  declared : (rows.map (·.item)).filter (·.recipe?.isNone) = g.resources.flatMap Item.declared

/-- A graph that is spanned by its roots has an outline. -/
theorem Spans.exists_outlined {g : Graph} {xs : List Resource}
    (h : g.Spans (g.roots.map .recipe) 0 g.size xs) : ∃ rows, g.Outlined rows := by
  obtain ⟨rows, hrows, htells⟩ := h.exists_outline 0
  obtain rfl : g.resources = xs := resources_of_spans h
  refine ⟨rows, fun others => ⟨hrows.unique, fun heq => heq ▸ hrows⟩, ?_, ?_, htells.resources,
    htells.notifications, htells.declared⟩
  · rw [tree_eq, h.join_childBlocks hrows (Nat.sub_le _ _)]
  · rw [htells.recipes, ← map_numbered, Nat.sub_zero, List.range_eq_range']

/-- A row is about one thing. -/
theorem Row.length_eq (rows : List Row) : rows.length =
    (recipes rows).length + (resources rows).length + (notifications rows).length := by
  induction rows with
  | nil => rfl
  | cons r rows ih =>
    unfold recipes resources notifications at ih ⊢
    cases hr : r.item <;>
      simp [hr, Item.recipe?, Item.resource?, Item.notification?, ih] <;> omega

/-- The number of all recipes, resources and notifications. -/
def itemCount (g : Graph) : Nat :=
  g.size + g.resources.length + (g.resources.flatMap (·.notifications)).length

/-- There is a row for each. -/
theorem Outlined.length {g : Graph} {rows : List Row} (h : g.Outlined rows) :
    rows.length = g.itemCount := by
  rw [Row.length_eq, h.recipes, h.resources, h.notifications, List.length_zipIdx,
    Array.length_toList, itemCount, size]

end Provision.Graph
