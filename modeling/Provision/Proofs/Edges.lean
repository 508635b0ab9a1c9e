import Provision.Graph.Position
import Provision.Proofs.Targets

/-!
# Edges between places in the apply order

The positions of a graph are those of its resources, in the order in which these are applied, and
no position comes twice. So the number of a resource in that order tells it from all others, and
the edges of a graph are its deliveries, with such numbers for the resources at their two ends.
-/

namespace Provision

namespace Graph

/-- A resource stands at a position. -/
def HasAt (g : Graph) (p : Position) (x : Resource) : Prop :=
  ∃ r, g.recipe? p.recipe = some r ∧ r.children[p.index]? = some (.resource x)

section

variable {g : Graph} {p q : Position} {x y : Resource}

/-- There is one resource at a position. -/
theorem HasAt.unique (h : g.HasAt p x) (h' : g.HasAt p y) : x = y := by
  obtain ⟨r, hr, hx⟩ := h
  obtain ⟨r', hr', hy⟩ := h'
  cases hr.symm.trans hr'
  cases hx.symm.trans hy
  rfl

/-- What stands at a position belongs to the recipe of the position. -/
theorem Owned.recipe_of_hasAt (h : g.Owned) (hp : g.HasAt p x) : x.recipe = p.recipe := by
  obtain ⟨r, hr, hx⟩ := hp
  have hmem : x ∈ r.resources := List.mem_filterMap.mpr ⟨_, List.mem_of_getElem? hx, rfl⟩
  exact (h.resources p.recipe r hr x hmem).recipe

end

/-! ### The order of positions -/

/-- The children of a recipe, each found at its index. -/
theorem forall₂_zipIdx (cs : List Child) :
    List.Forall₂ (fun q c => cs[q.2]? = some c ∧ q.1 = c) cs.zipIdx cs := by
  have hself : List.Forall₂ (fun q c => cs[q.2]? = some c ∧ q.1 = c) cs.zipIdx
      (cs.zipIdx.map Prod.fst) :=
    List.forall₂_map_right_iff.mpr
      (List.forall₂_same.mpr fun q hq => ⟨List.mem_zipIdx_iff_getElem?.mp hq, rfl⟩)
  rwa [List.zipIdx_map_fst] at hself

/-- Below a recipe, the positions are those of the resources, one by one. -/
theorem hasAt_positionsBelow (g : Graph) (depth id : Nat) :
    List.Forall₂ g.HasAt (g.positionsBelow depth id) (g.resourcesBelow depth id) := by
  induction depth generalizing id with
  | zero => exact .nil
  | succ depth ih =>
    rw [positionsBelow, resourcesBelow]
    cases hr : g.recipe? id with
    | none => exact .nil
    | some r =>
      refine List.rel_flatMap (forall₂_zipIdx r.children) ?_
      rintro ⟨c, index⟩ _ ⟨hindex, rfl⟩
      cases c with
      | resource x => exact .cons ⟨r, hr, hindex⟩ .nil
      | recipe nested => exact ih nested

/-- The positions of a graph are those of its resources, in the order of their application. -/
theorem hasAt_positions (g : Graph) : List.Forall₂ g.HasAt g.positions g.resources :=
  List.rel_flatMap (List.forall₂_same.mpr fun _ _ => rfl)
    fun id _ hid => hid ▸ g.hasAt_positionsBelow g.size id

/-- Below a recipe, either none of the resources of another one are found, or all of them. -/
theorem mem_positionsBelow_of_recipe_eq {g : Graph} {depth id : Nat} {p q : Position}
    {x : Resource} (hp : p ∈ g.positionsBelow depth id) (hq : g.HasAt q x)
    (hsame : q.recipe = p.recipe) : q ∈ g.positionsBelow depth id := by
  induction depth generalizing id with
  | zero => cases hp
  | succ depth ih =>
    rw [positionsBelow] at hp ⊢
    cases hr : g.recipe? id with
    | none =>
      rw [hr] at hp
      cases hp
    | some r =>
      rw [hr] at hp
      obtain ⟨⟨c, index⟩, hc, hp⟩ := List.mem_flatMap.mp hp
      refine List.mem_flatMap.mpr ?_
      cases c with
      | resource y =>
        obtain rfl := List.mem_singleton.mp hp
        obtain ⟨r', hr', hx⟩ := hq
        have hown : r' = r := Option.some.inj (hr'.symm.trans ((congrArg g.recipe? hsame).trans hr))
        refine ⟨(.resource x, q.index), List.mem_zipIdx_iff_getElem?.mpr (hown ▸ hx), ?_⟩
        exact List.mem_singleton.mpr (congrArg (Position.mk · q.index) hsame)
      | recipe nested => exact ⟨(.recipe nested, index), hc, ih hp⟩

/-- The resources of a recipe have positions, if one of them has. -/
theorem mem_positions_of_recipe_eq {g : Graph} {p q : Position} {x : Resource}
    (hp : p ∈ g.positions) (hq : g.HasAt q x) (hsame : q.recipe = p.recipe) : q ∈ g.positions := by
  obtain ⟨root, hroot, hp⟩ := List.mem_flatMap.mp hp
  exact List.mem_flatMap.mpr ⟨root, hroot, mem_positionsBelow_of_recipe_eq hp hq hsame⟩

/-! ### Every resource has one position -/

/-- The positions of resources in a list of children of a recipe, the first of which has a given
index, and below these children. -/
def positionsFrom (g : Graph) (depth id index : Nat) (cs : List Child) : List Position :=
  (cs.zipIdx index).flatMap fun
    | (.resource _, index) => [⟨id, index⟩]
    | (.recipe nested, _) => g.positionsBelow depth nested

/-- Below a recipe there are the positions in its own children. -/
theorem positionsBelow_succ {g : Graph} {id : Nat} {r : Recipe} (hr : g.recipe? id = some r)
    (depth : Nat) : g.positionsBelow (depth + 1) id = g.positionsFrom depth id 0 r.children := by
  rw [positionsBelow, hr]
  rfl

/-- In the order of a walk, the positions in a list of children are distinct. Each of them is that
of a resource in the list, or is in a recipe that the list spans. -/
theorem Spans.positionsFrom_nodup {g : Graph} {cs : List Child} {a b : Nat} {xs : List Resource}
    (h : g.Spans cs a b xs) (depth id index : Nat) (hdepth : b - a ≤ depth)
    (hid : ∀ x, .resource x ∈ cs → id < a) :
    (g.positionsFrom depth id index cs).Nodup ∧ ∀ p ∈ g.positionsFrom depth id index cs,
      (p.recipe = id ∧ index ≤ p.index ∧ ∃ x, .resource x ∈ cs) ∨
        (a ≤ p.recipe ∧ p.recipe < b) := by
  induction h generalizing depth id index with
  | nil a => exact ⟨.nil, nofun⟩
  | @resource cs a b xs x rest ih =>
    have hlt : id < a := hid x (.head _)
    obtain ⟨hnodup, hwhere⟩ := ih depth id (index + 1) hdepth fun y hy => hid y (.tail _ hy)
    have hcons : g.positionsFrom depth id index (.resource x :: cs) =
        ⟨id, index⟩ :: g.positionsFrom depth id (index + 1) cs := rfl
    rw [hcons]
    refine ⟨List.nodup_cons.mpr ⟨fun hmem => ?_, hnodup⟩, fun p hp => ?_⟩
    · rcases hwhere _ hmem with ⟨-, hindex, -⟩ | ⟨hle, -⟩
      · exact Nat.lt_irrefl index hindex
      · exact Nat.not_le_of_lt hlt hle
    · rcases List.mem_cons.mp hp with rfl | hp
      · exact .inl ⟨rfl, Nat.le_refl index, x, .head _⟩
      · refine (hwhere p hp).imp_left ?_
        rintro ⟨hrecipe, hindex, y, hy⟩
        exact ⟨hrecipe, Nat.le_of_succ_le hindex, y, .tail _ hy⟩
  | @recipe cs a b c r xs ys hr below rest ih ih' =>
    have hab := below.le
    have hbc := rest.le
    obtain ⟨depth, rfl⟩ : ∃ d, depth = d + 1 := ⟨depth - 1, by omega⟩
    have hlater (y : Resource) (hy : .resource y ∈ cs) : id < a := hid y (.tail _ hy)
    obtain ⟨hbelow, hinner⟩ := ih depth a 0 (by omega) fun _ _ => Nat.lt_succ_self a
    obtain ⟨hrest, houter⟩ := ih' (depth + 1) id (index + 1) (by omega)
      fun y hy => Nat.lt_of_lt_of_le (hlater y hy) (by omega)
    have hcons : g.positionsFrom (depth + 1) id index (.recipe a :: cs) =
        g.positionsFrom depth a 0 r.children ++
          g.positionsFrom (depth + 1) id (index + 1) cs := by
      rw [← positionsBelow_succ hr]
      rfl
    -- What is below the first recipe is in recipes before those of the rest.
    have hnested (p : Position) (hp : p ∈ g.positionsFrom depth a 0 r.children) :
        a ≤ p.recipe ∧ p.recipe < b := by
      rcases hinner p hp with ⟨hrecipe, -⟩ | ⟨hle, hlt⟩ <;> omega
    rw [hcons]
    refine ⟨List.nodup_append.mpr ⟨hbelow, hrest, ?_⟩, fun p hp => ?_⟩
    · rintro p hp _ hp' rfl
      obtain ⟨hle, hlt⟩ := hnested p hp
      rcases houter p hp' with ⟨hrecipe, -, y, hy⟩ | ⟨hle', -⟩
      · have hid := hlater y hy
        omega
      · omega
    · rcases List.mem_append.mp hp with hp | hp
      · obtain ⟨hle, hlt⟩ := hnested p hp
        exact .inr ⟨hle, by omega⟩
      · rcases houter p hp with ⟨hrecipe, hindex, y, hy⟩ | ⟨hle, hlt⟩
        · exact .inl ⟨hrecipe, Nat.le_of_succ_le hindex, y, .tail _ hy⟩
        · exact .inr ⟨by omega, hlt⟩

/-- In the order of a walk, no position comes twice. -/
theorem positions_nodup {g : Graph} {xs : List Resource}
    (h : g.Spans (g.roots.map .recipe) 0 g.size xs) : g.positions.Nodup := by
  have hroots (index : Nat) (ids : List Nat) :
      g.positionsFrom g.size 0 index (ids.map .recipe) = ids.flatMap (g.positionsBelow g.size) := by
    induction ids generalizing index with
    | nil => rfl
    | cons id ids ih => exact congrArg (g.positionsBelow g.size id ++ ·) (ih (index + 1))
  rw [positions, ← hroots 0]
  exact (h.positionsFrom_nodup g.size 0 0 (Nat.sub_le _ _) (by simp)).1

/-! ### Edges and deliveries -/

/-- An edge has the numbers of the resources at the two ends of a delivery. The one of the target
is the number of the place where the notification finds it. -/
structure Joins (g : Graph) (e : Edge) (d : Delivery) : Prop where
  source : g.resources[e.source]? = some d.source
  action : e.action = d.notification.action
  target : ∃ i p, e.target = some i ∧ g.resources[i]? = some d.target ∧
    g.positions[i]? = some p ∧ d.notification.position? g = some p

/-- Every notification with the resource that has it, and with the number of this resource. -/
def sourced (g : Graph) : List ((Resource × Nat) × Notification) :=
  g.resources.zipIdx.flatMap fun q => q.1.notifications.map (q, ·)

/-- The edge of a notification. -/
def edge (g : Graph) (q : (Resource × Nat) × Notification) : Edge :=
  { source := q.1.2, action := q.2.action
    target := (q.2.position? g).bind (g.positions.idxOf? ·) }

/-- There is one edge for each notification. -/
theorem edges_eq (g : Graph) : g.edges = g.sourced.map g.edge := by
  rw [sourced, List.map_flatMap]
  simp only [List.map_map]
  rfl

/-- Without the numbers of resources, these are the notifications that wait for delivery. -/
theorem pending_eq (g : Graph) : g.pending = g.sourced.map fun q => (q.1.1, q.2) := by
  rw [pending, sourced, List.map_flatMap, ← List.zipIdx_map_fst 0 g.resources, List.flatMap_map,
    List.zipIdx_map_fst]
  simp only [List.map_map]
  rfl

/-- The edges of a graph are its deliveries, if everything belongs to the recipe that it is
found in. -/
theorem Owned.edges_join {g : Graph} (h : g.Owned) {ds : List Delivery}
    (hds : g.deliveries = .ok ds) : List.Forall₂ g.Joins g.edges ds := by
  rw [deliveries_eq, Except.mapM_eq_ok_iff, pending_eq, List.forall₂_map_left_iff] at hds
  have hsourced : ∀ q ∈ g.sourced,
      g.resources[q.1.2]? = some q.1.1 ∧ q.2 ∈ q.1.1.notifications := by
    intro q hq
    obtain ⟨p, hp, hpq⟩ := List.mem_flatMap.mp hq
    obtain ⟨n, hn, rfl⟩ := List.mem_map.mp hpq
    exact ⟨List.mem_zipIdx_iff_getElem?.mp hp, hn⟩
  rw [edges_eq, List.forall₂_map_left_iff]
  refine ((List.forall₂_and_left _ _).mpr ⟨hsourced, hds⟩).imp ?_
  rintro ⟨⟨x, i⟩, n⟩ d ⟨⟨hx, hn⟩, hdeliver⟩
  obtain ⟨hsame, hfound⟩ := deliver_ok hdeliver
  obtain ⟨rfl, rfl⟩ := Prod.mk.inj hsame
  -- The source has a position, in the recipe in which the target is looked for.
  obtain ⟨p, hp, hpx⟩ := exists_getElem?_of_forall₂ g.hasAt_positions.flip hx
  obtain ⟨k, -, hposition, hchild⟩ := Notification.exists_resolvesAt hfound
  obtain ⟨r, hr, hmem⟩ := h.exists_owner (List.mem_of_getElem? hx)
  have hrecipe : d.notification.recipe = p.recipe :=
    (hmem.2 d.notification hn).trans (h.recipe_of_hasAt hpx)
  have htarget : ⟨d.notification.recipe, k⟩ ∈ g.positions :=
    mem_positions_of_recipe_eq (List.mem_of_getElem? hp) hchild hrecipe
  obtain ⟨t, ht⟩ := Option.isSome_iff_exists.mp (List.isSome_idxOf?.mpr htarget)
  obtain ⟨hlt, hat, -⟩ := List.idxOf?_eq_some_iff.mp ht
  have hat : g.positions[t]? = some ⟨d.notification.recipe, k⟩ :=
    List.getElem?_eq_some_iff.mpr ⟨hlt, hat⟩
  obtain ⟨y, hy, hty⟩ := exists_getElem?_of_forall₂ g.hasAt_positions hat
  cases hty.unique hchild
  exact {
    source := hx
    action := rfl
    target := ⟨t, _, by rw [edge, hposition, Option.bind_some, ht], hy, hat, hposition⟩ }

end Graph

/-- Whatever operations have been done, the edges of the graph are its deliveries, and the number
of a resource in the order of application tells it from all others. -/
theorem Session.Reachable.edges_delivered {s : Session} (hs : s.Reachable) {ds : List Delivery}
    (hds : s.state.graph.deliveries = .ok ds) :
    s.state.graph.positions.Nodup ∧
      List.Forall₂ s.state.graph.HasAt s.state.graph.positions s.state.graph.resources ∧
        List.Forall₂ s.state.graph.Joins s.state.graph.edges ds :=
  ⟨Graph.positions_nodup hs.arranged.state, s.state.graph.hasAt_positions, hs.owned.edges_join hds⟩

end Provision
