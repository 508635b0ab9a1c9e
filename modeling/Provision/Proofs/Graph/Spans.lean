import Provision.Proofs.Graph.Growth

/-!
# Graphs in the order of a walk

Recipes are numbered as they are begun. If a recipe is only ever added to while
everything below it and after it is finished, the numbers are those of a depth-first walk:
the recipes below a list of children are numbered without gaps. `Graph.Spans` says this of
a list of children, and `Graph.Open` of the place where the walk stands. Adding something
at that place puts it at the end of the walk.
-/

namespace Provision.Graph

/-- A walk through recipes that starts at each of a list in turn, and visits a recipe
before those nested in it. The second list has the numbers of the visited recipes. -/
inductive Walk (g : Graph) : List Nat → List Nat → Prop
  | done : Walk g [] []
  | visit {id : Nat} {r : Recipe} {rest inner outer : List Nat} (hr : g.recipe? id = some r)
      (below : Walk g r.nested inner) (next : Walk g rest outer) :
      Walk g (id :: rest) (id :: inner ++ outer)

section

variable {a b c : Nat}

/-- Numbers from `a` up to `c`, divided at `b`. -/
theorem range'_append_range' (hab : a ≤ b) (hbc : b ≤ c) :
    List.range' a (b - a) ++ List.range' b (c - b) = List.range' a (c - a) := by
  have hb : b = a + (b - a) := by omega
  have hlength : b - a + (c - b) = c - a := by omega
  rw [← hlength, ← List.range'_append_1, ← hb]

/-- Numbers from `a` up to `b`, but for the first. -/
theorem cons_range' (hab : a + 1 ≤ b) :
    a :: List.range' (a + 1) (b - (a + 1)) = List.range' a (b - a) := by
  rw [← List.range'_succ, show b - (a + 1) + 1 = b - a by omega]

end

/-- The recipes below a list of children are, depth first, those numbered from `a` up to
`b`, and the resources among the children and below are `xs`. -/
inductive Spans (g : Graph) : List Child → Nat → Nat → List Resource → Prop
  | nil (a : Nat) : Spans g [] a a []
  | resource {cs : List Child} {a b : Nat} {xs : List Resource} (x : Resource)
      (rest : Spans g cs a b xs) : Spans g (.resource x :: cs) a b (x :: xs)
  | recipe {cs : List Child} {a b c : Nat} {r : Recipe} {xs ys : List Resource}
      (hr : g.recipe? a = some r) (below : Spans g r.children (a + 1) b xs)
      (rest : Spans g cs b c ys) : Spans g (.recipe a :: cs) a c (xs ++ ys)

namespace Spans

variable {g g' : Graph} {cs cs' : List Child} {a b c : Nat} {xs ys : List Resource}

/-- The open recipe comes after those that the numbers begin with. -/
theorem le (h : Spans g cs a b xs) : a ≤ b := by
  induction h with
  | nil a => exact Nat.le_refl a
  | resource x _ ih => exact ih
  | recipe _ _ _ ih ih' => omega

/-- Only the recipes of the span matter. -/
theorem congr (h : Spans g cs a b xs)
    (heq : ∀ id, a ≤ id → id < b → g'.recipe? id = g.recipe? id) : Spans g' cs a b xs := by
  induction h with
  | nil a => exact .nil a
  | resource x _ ih => exact .resource x (ih heq)
  | @recipe cs a b c r xs ys hr below rest ih ih' =>
    have hab := below.le
    have hbc := rest.le
    refine .recipe ((heq a (by omega) (by omega)).trans hr) (ih ?_) (ih' ?_)
    · intro id _ _
      exact heq id (by omega) (by omega)
    · intro id _ _
      exact heq id (by omega) (by omega)

/-- Consecutive lists of children span consecutive numbers. -/
theorem append (h : Spans g cs a b xs) (h' : Spans g cs' b c ys) :
    Spans g (cs ++ cs') a c (xs ++ ys) := by
  induction h with
  | nil a => exact h'
  | resource x _ ih => exact .resource x (ih h')
  | recipe hr below _ _ ih =>
    rw [List.append_assoc]
    exact .recipe hr below (ih h')

/-- A span with one more recipe, the one numbered next. -/
theorem concat {r : Recipe} (h : Spans g cs a b xs) (hr : g.recipe? b = some r)
    (below : Spans g r.children (b + 1) c ys) :
    Spans g (cs ++ [.recipe b]) a c (xs ++ ys) := by
  have hone : Spans g [.recipe b] b c (ys ++ []) := .recipe hr below (.nil c)
  rw [List.append_nil] at hone
  exact h.append hone

/-- The walk through a span visits its numbers in order, without gaps. -/
theorem walk (h : Spans g cs a b xs) :
    g.Walk (Recipe.nested { (default : Recipe) with children := cs }) (List.range' a (b - a)) := by
  induction h with
  | nil a =>
    rw [Nat.sub_self]
    exact .done
  | resource x _ ih => exact ih
  | @recipe cs a b c r xs ys hr below rest ih ih' =>
    have hab := below.le
    have hac : a ≤ b := by omega
    rw [← range'_append_range' hac rest.le, ← cons_range' hab]
    exact .visit hr ih ih'

/-- The resources of a span are those found by looking as deep as there are recipes in it. -/
theorem resources (h : Spans g cs a b xs) {depth : Nat} (hdepth : b - a ≤ depth) :
    (cs.flatMap fun
      | .resource x => [x]
      | .recipe nested => g.resourcesBelow depth nested) = xs := by
  induction h generalizing depth with
  | nil a => rfl
  | resource x _ ih => rw [List.flatMap_cons, ih hdepth]; rfl
  | @recipe cs a b c r xs ys hr below rest ih ih' =>
    have hab := below.le
    have hbc := rest.le
    obtain ⟨depth, rfl⟩ : ∃ d, depth = d + 1 := ⟨depth - 1, by omega⟩
    rw [List.flatMap_cons, ih' (by omega)]
    congr 1
    simp only [resourcesBelow, hr]
    exact ih (by omega)

end Spans

/-- The roots span everything. -/
theorem resources_of_spans {g : Graph} {xs : List Resource}
    (h : Spans g (g.roots.map .recipe) 0 g.size xs) : g.resources = xs := by
  rw [← h.resources (show g.size - 0 ≤ g.size by omega), resources, List.flatMap_map]

/-- A walk from the roots that span the graph meets the recipes in the order of their numbers. -/
theorem walk_of_spans {g : Graph} {xs : List Resource}
    (h : Spans g (g.roots.map .recipe) 0 g.size xs) : g.Walk g.roots (List.range g.size) := by
  have hwalk := h.walk
  rwa [Recipe.nested, List.filterMap_map, Nat.sub_zero, ← List.range_eq_range',
    show (_ ∘ Child.recipe) = some from rfl, List.filterMap_some] at hwalk

/-- The recipe numbered `id` is the last one in a list of children, or the last one below
the last one, and so on, the recipes before it being numbered from `a`. The resources
before it are `xs`. -/
inductive Open (g : Graph) (id : Nat) : List Child → Nat → List Resource → Prop
  | last {cs : List Child} {a : Nat} {xs : List Resource} (before : Spans g cs a id xs) :
      Open g id (cs ++ [.recipe id]) a xs
  | under {cs : List Child} {a above : Nat} {r : Recipe} {xs ys : List Resource}
      (before : Spans g cs a above xs) (hr : g.recipe? above = some r)
      (inner : Open g id r.children (above + 1) ys) :
      Open g id (cs ++ [.recipe above]) a (xs ++ ys)

namespace Open

variable {g g' : Graph} {cs : List Child} {a b id new : Nat} {r : Recipe} {xs ys : List Resource}

/-- The open recipe comes after those that the numbers begin with. -/
theorem le (h : Open g id cs a xs) : a ≤ id := by
  induction h with
  | last before => exact before.le
  | under before _ _ ih =>
    have hle := before.le
    omega

/-- Only older recipes matter. -/
theorem congr (h : Open g id cs a xs) (heq : ∀ i < id, g'.recipe? i = g.recipe? i) :
    Open g' id cs a xs := by
  induction h with
  | last before => exact .last (before.congr fun i _ hi => heq i hi)
  | under before hr inner ih =>
    have hle := inner.le
    exact .under (before.congr fun i _ _ => heq i (by omega)) ((heq _ (by omega)).trans hr) ih

/-- What the open recipe holds comes last. -/
theorem spans (h : Open g id cs a xs) (hr : g.recipe? id = some r)
    (own : Spans g r.children (id + 1) b ys) : Spans g cs a b (xs ++ ys) := by
  induction h with
  | last before => exact before.concat hr own
  | under before hr' _ ih =>
    rw [List.append_assoc]
    exact before.concat hr' ih

/-- A recipe that is open below an open one is open. -/
theorem trans (h : Open g id cs a xs) (hr : g.recipe? id = some r)
    (inner : Open g new r.children (id + 1) ys) : Open g new cs a (xs ++ ys) := by
  induction h with
  | last before => exact .under before hr inner
  | under before hr' _ ih =>
    rw [List.append_assoc]
    exact .under before hr' ih

end Open

end Provision.Graph
