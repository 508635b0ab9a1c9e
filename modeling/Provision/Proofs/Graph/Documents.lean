import Provision.Graph.Document
import Provision.Proofs.Deliveries
import Provision.Proofs.Json.Values

/-!
# What the document of a graph tells

The document names neither the recipe that a resource belongs to nor the one in which the target
of a notification is looked for, and neither the origin of a recipe nor a child is marked for what
it is. Still it tells the whole graph but for attributes and the descriptions of nodes, because
everything belongs to the recipe that it stands in. Attributes cannot be told: a key that is a
number is written like one that is a string.
-/

namespace Provision

/-! ### When there is a document -/

/-- A resource whose directory is a text and whose attributes and node can be written. -/
structure Resource.Writable (x : Resource) : Prop where
  attributes : ∀ e ∈ x.attributes.entries, e.2.Writable
  directory : ∀ p ∈ x.directory, p.isText = true
  node : ∀ v ∈ x.node, v.Writable

/-- A recipe whose path is a text and whose resources can be written. -/
structure Recipe.Writable (r : Recipe) : Prop where
  path : r.path.isText = true
  resources : ∀ x ∈ r.resources, x.Writable

/-- A graph whose recipes can be written. -/
def Graph.Writable (g : Graph) : Prop := ∀ id r, g.recipe? id = some r → r.Writable

/-- The document of a path is its text. -/
theorem Path.json_eq_ok_iff {p : Path} {j : Json} :
    p.json = .ok j ↔ p.isText = true ∧ .string p.text = j := by
  rw [json]
  split
  · next h => simp [h]
  · next h => simp [h]

/-- A path has a document exactly if all its bytes belong to characters. -/
theorem Path.json_isOk_iff (p : Path) : (∃ j, p.json = .ok j) ↔ p.isText = true := by
  simp only [json_eq_ok_iff, exists_and_left, exists_eq', and_true]

/-- There are fields if each has a document. -/
theorem jsonFields_isOk_iff {α : Type} (json : α → Except Json.Obstacle Json)
    (es : List (String × α)) :
    (∃ fs, jsonFields json es = .ok fs) ↔ ∀ e ∈ es, ∃ j, json e.2 = .ok j := by
  simp only [jsonFields, Except.isOk_mapM_iff, Except.isOk_map_iff]

/-- A field that may be left out has a document if it is left out. -/
theorem jsonFields_option_isOk_iff {α : Type} (json : α → Except Json.Obstacle Json)
    (key : String) (o : Option α) :
    (∃ fs, jsonFields json (o.map fun a => (key, a)).toList = .ok fs) ↔
      ∀ a ∈ o, ∃ j, json a = .ok j := by
  rw [jsonFields_isOk_iff]
  cases o <;> simp

/-- A resource has a document exactly if it can be written. -/
theorem Resource.json_isOk_iff (x : Resource) : (∃ j, x.json = .ok j) ↔ x.Writable := by
  have hfields : (∃ j, x.json = .ok j) ↔
      (∃ fs, jsonFields Value.json x.attributes.entries = .ok fs) ∧
        (∃ fs, jsonFields Path.json (x.directory.map fun p => ("recipe_dir", p)).toList = .ok fs) ∧
          ∃ fs, jsonFields Value.json (x.node.map fun v => ("node", v)).toList = .ok fs := by
    constructor
    · rintro ⟨_, h⟩
      obtain ⟨attributes, hattributes, h⟩ := Except.bind_eq_ok_iff.mp h
      obtain ⟨directory, hdirectory, h⟩ := Except.bind_eq_ok_iff.mp h
      obtain ⟨node, hnode, -⟩ := Except.bind_eq_ok_iff.mp h
      exact ⟨⟨attributes, hattributes⟩, ⟨directory, hdirectory⟩, node, hnode⟩
    · rintro ⟨⟨attributes, hattributes⟩, ⟨directory, hdirectory⟩, node, hnode⟩
      rw [json, hattributes, hdirectory, hnode]
      exact ⟨_, rfl⟩
  rw [hfields, jsonFields_isOk_iff, jsonFields_option_isOk_iff, jsonFields_option_isOk_iff]
  simp only [Value.json_isOk_iff, Path.json_isOk_iff]
  exact ⟨fun ⟨ha, hd, hn⟩ => ⟨ha, hd, hn⟩, fun ⟨ha, hd, hn⟩ => ⟨ha, hd, hn⟩⟩

/-- A recipe has a document exactly if it can be written. -/
theorem Recipe.json_isOk_iff (r : Recipe) : (∃ j, r.json = .ok j) ↔ r.Writable := by
  have hchildren : (∀ c ∈ r.children, ∃ j, c.json = .ok j) ↔ ∀ x ∈ r.resources, x.Writable := by
    constructor
    · intro h x hx
      obtain ⟨c, hc, hcx⟩ := List.mem_filterMap.1 hx
      cases c with
      | resource y =>
        cases hcx
        exact x.json_isOk_iff.mp (h _ hc)
      | recipe => cases hcx
    · intro h c hc
      cases c with
      | resource y => exact y.json_isOk_iff.mpr (h y (List.mem_filterMap.2 ⟨_, hc, rfl⟩))
      | recipe id => exact ⟨_, rfl⟩
  have hparts : (∃ j, r.json = .ok j) ↔
      (∃ j, r.path.json = .ok j) ∧ ∃ js, r.children.mapM Child.json = .ok js := by
    constructor
    · rintro ⟨_, h⟩
      obtain ⟨path, hpath, h⟩ := Except.bind_eq_ok_iff.mp h
      obtain ⟨children, hjs, -⟩ := Except.bind_eq_ok_iff.mp h
      exact ⟨⟨path, hpath⟩, children, hjs⟩
    · rintro ⟨⟨path, hpath⟩, children, hjs⟩
      rw [json, hpath, hjs]
      exact ⟨_, rfl⟩
  rw [hparts, Path.json_isOk_iff, Except.isOk_mapM_iff, hchildren]
  exact ⟨fun ⟨hp, hx⟩ => ⟨hp, hx⟩, fun ⟨hp, hx⟩ => ⟨hp, hx⟩⟩

/-- There is a document of a graph exactly if its recipes can be written. -/
theorem Graph.json_isOk_iff (g : Graph) : (∃ j, g.json = .ok j) ↔ g.Writable := by
  have hrecipes : (∃ j, g.json = .ok j) ↔ ∃ js, g.recipes.toList.mapM Recipe.json = .ok js := by
    constructor
    · rintro ⟨_, h⟩
      obtain ⟨recipes, hjs, -⟩ := Except.bind_eq_ok_iff.mp h
      exact ⟨recipes, hjs⟩
    · rintro ⟨recipes, hjs⟩
      rw [json, hjs]
      exact ⟨_, rfl⟩
  rw [hrecipes, Except.isOk_mapM_iff]
  simp only [Recipe.json_isOk_iff, Array.mem_toList_iff]
  refine ⟨fun h id r hr => h r (Array.mem_of_getElem? hr), fun h r hr => ?_⟩
  obtain ⟨id, hid⟩ := Array.getElem?_of_mem hr
  exact h id r hid

/-- A document that there is has come without an obstacle. -/
theorem Graph.json?_eq_some_iff {g : Graph} {j : Json} : g.json? = some j ↔ g.json = .ok j := by
  rw [json?]
  cases g.json <;> simp [Except.toOption]

/-! ### Documents are proper -/

/-- The number of a recipe has the text of a number. -/
theorem Json.proper_ofNat (n : Nat) : (Json.ofNat n).Proper :=
  .number (by simpa using Json.isNumeral_natDigits n)

/-- There are no numbers in the document of a notification. -/
theorem Notification.proper_json (n : Notification) : n.json.Proper :=
  .object (by simpa using ⟨.string, .string, .string⟩)

/-- The values of fields have proper documents. -/
theorem proper_jsonFields {es : List (String × Value)} {fs : List (String × Json)}
    (h : jsonFields Value.json es = .ok fs) : ∀ e ∈ fs, e.2.Proper := by
  intro e he
  obtain ⟨a, -, ha⟩ := exists_of_forall₂_right (Except.mapM_eq_ok_iff.mp h) he
  obtain ⟨j, hj, rfl⟩ := Except.map_eq_ok_iff.mp ha
  exact Value.proper_json hj

/-- The field of a directory holds its text. -/
theorem jsonFields_directory {d : Option Path} {fs : List (String × Json)}
    (h : jsonFields Path.json (d.map fun p => ("recipe_dir", p)).toList = .ok fs) :
    fs = (d.map fun p => ("recipe_dir", Json.string p.text)).toList := by
  cases d with
  | none =>
    cases h
    rfl
  | some p =>
    cases Except.mapM_eq_ok_iff.mp h with
    | cons hp hnil =>
      cases hnil
      obtain ⟨j, hj, rfl⟩ := Except.map_eq_ok_iff.mp hp
      obtain ⟨-, rfl⟩ := Path.json_eq_ok_iff.mp hj
      rfl

/-- The document of a resource, its parts written out. -/
theorem Resource.json_eq_ok {x : Resource} {j : Json} (h : x.json = .ok j) :
    ∃ attributes node, jsonFields Value.json x.attributes.entries = .ok attributes ∧
      jsonFields Value.json (x.node.map fun v => ("node", v)).toList = .ok node ∧
      j = .object ([("type", .string x.kind.keyword), ("name", .string x.name),
        ("attributes", .object attributes),
        ("notifications", .array (x.notifications.map (·.json)))] ++
          (x.directory.map fun p => ("recipe_dir", Json.string p.text)).toList ++ node) := by
  obtain ⟨attributes, hattributes, h⟩ := Except.bind_eq_ok_iff.mp h
  obtain ⟨directory, hdirectory, h⟩ := Except.bind_eq_ok_iff.mp h
  obtain ⟨node, hnode, h⟩ := Except.bind_eq_ok_iff.mp h
  obtain rfl := jsonFields_directory hdirectory
  exact ⟨attributes, node, hattributes, hnode, (Except.ok.inj h).symm⟩

/-- The document of a resource is proper. -/
theorem Resource.proper_json {x : Resource} {j : Json} (h : x.json = .ok j) : j.Proper := by
  obtain ⟨attributes, node, hattributes, hnode, rfl⟩ := json_eq_ok h
  have hnotifications : Json.Proper (.array (x.notifications.map (·.json))) :=
    .array (by simpa using fun n _ => Notification.proper_json n)
  refine .object (List.forall_mem_append.2 ⟨List.forall_mem_append.2 ⟨?_, ?_⟩, ?_⟩)
  · simpa using ⟨.string, .string, .object (proper_jsonFields hattributes), hnotifications⟩
  · cases x.directory with
    | none => nofun
    | some p => simpa using .string
  · exact proper_jsonFields hnode

/-- The document of a child is proper. -/
theorem Child.proper_json {c : Child} {j : Json} (h : c.json = .ok j) : j.Proper := by
  cases c with
  | resource x => exact Resource.proper_json h
  | recipe id =>
    cases h
    exact Json.proper_ofNat id

/-- The document of a recipe, its parts written out. -/
theorem Recipe.json_eq_ok {r : Recipe} {j : Json} (h : r.json = .ok j) :
    ∃ children, r.children.mapM (·.json) = .ok children ∧
      j = .object ([("path", .string r.path.text)] ++ r.origin.jsonFields ++
        [("children", .array children)]) := by
  obtain ⟨path, hpath, h⟩ := Except.bind_eq_ok_iff.mp h
  obtain ⟨children, hchildren, h⟩ := Except.bind_eq_ok_iff.mp h
  obtain ⟨-, rfl⟩ := Path.json_eq_ok_iff.mp hpath
  exact ⟨children, hchildren, (Except.ok.inj h).symm⟩

/-- The document of a recipe is proper. -/
theorem Recipe.proper_json {r : Recipe} {j : Json} (h : r.json = .ok j) : j.Proper := by
  obtain ⟨children, hchildren, rfl⟩ := json_eq_ok h
  refine .object (List.forall_mem_append.2 ⟨List.forall_mem_append.2 ⟨?_, ?_⟩, ?_⟩)
  · simpa using .string
  · cases r.origin with
    | file => simpa [Origin.jsonFields] using .string
    | definition => simpa [Origin.jsonFields] using ⟨.string, .string, .string⟩
  · refine List.forall_mem_singleton.2 (.array fun j hj => ?_)
    obtain ⟨c, -, hc⟩ := exists_of_forall₂_right (Except.mapM_eq_ok_iff.mp hchildren) hj
    exact Child.proper_json hc

/-- The document of a graph, its parts written out. -/
theorem Graph.json_eq_ok {g : Graph} {j : Json} (h : g.json = .ok j) :
    ∃ recipes, g.recipes.toList.mapM (·.json) = .ok recipes ∧
      j = .object [("roots", .array (g.roots.map Json.ofNat)), ("recipes", .array recipes)] := by
  obtain ⟨recipes, hrecipes, h⟩ := Except.bind_eq_ok_iff.mp h
  exact ⟨recipes, hrecipes, (Except.ok.inj h).symm⟩

/-- The document of a graph is proper, so that it is told from its text. -/
theorem Graph.proper_json {g : Graph} {j : Json} (h : g.json = .ok j) : j.Proper := by
  obtain ⟨recipes, hrecipes, rfl⟩ := json_eq_ok h
  have hroots : Json.Proper (.array (g.roots.map Json.ofNat)) :=
    .array (by simpa using fun n _ => Json.proper_ofNat n)
  have hall : Json.Proper (.array recipes) := .array fun j hj => by
    obtain ⟨r, -, hr⟩ := exists_of_forall₂_right (Except.mapM_eq_ok_iff.mp hrecipes) hj
    exact Recipe.proper_json hr
  exact .object (by simpa using ⟨hroots, hall⟩)

/-! ### What a document tells -/

/-- Different numbers are written in different ways. -/
theorem Json.ofNat_injective : Function.Injective Json.ofNat := by
  intro m n h
  simp only [Json.ofNat, Json.number.injEq, String.ofList_inj] at h
  rw [← Nat.ofDigitChars_ten_toDigits (n := m), ← Nat.ofDigitChars_ten_toDigits (n := n)]
  exact congrArg (Nat.ofDigitChars 10 · 0) h

/-- Different kinds have different keywords. -/
theorem Kind.keyword_injective : Function.Injective Kind.keyword := by
  intro k l h
  have hk := ofKeyword?_keyword k
  rw [h, ofKeyword?_keyword, Option.some.injEq] at hk
  exact hk.symm

/-- Different timings have different texts. -/
theorem Timing.text_injective : Function.Injective Timing.text := by
  intro s t h
  cases s <;> cases t <;> first | rfl | exact absurd h (by decide)

/-- Notifications of one document that look for their targets in the same recipe. -/
theorem Notification.eq_of_json {n m : Notification} (h : n.json = m.json)
    (hrecipe : n.recipe = m.recipe) : n = m := by
  cases n
  cases m
  simp_all [json, Timing.text_injective.eq_iff]

/-- Notifications from one recipe are told apart by what is written of them. -/
theorem Notification.eq_of_map_json {id : Nat} {ns ms : List Notification}
    (h : ns.map (·.json) = ms.map (·.json)) (hns : ∀ n ∈ ns, n.recipe = id)
    (hms : ∀ m ∈ ms, m.recipe = id) : ns = ms := by
  induction ns generalizing ms with
  | nil => exact (List.map_eq_nil_iff.1 h.symm).symm
  | cons n ns ih =>
    cases ms with
    | nil => cases h
    | cons m ms =>
      obtain ⟨hn, hns⟩ := List.forall_mem_cons.1 hns
      obtain ⟨hm, hms⟩ := List.forall_mem_cons.1 hms
      obtain ⟨hhead, htail⟩ := List.cons.inj h
      rw [eq_of_json hhead (hn.trans hm.symm), ih htail hns hms]

/-- The field of a directory is not mistaken for one of the node. -/
theorem Resource.directory_eq {d d' : Option Path} {n n' : List (String × Json)}
    (hn : ∀ e ∈ n, e.1 = "node") (hn' : ∀ e ∈ n', e.1 = "node")
    (h : (d.map fun p => ("recipe_dir", Json.string p.text)).toList ++ n =
      (d'.map fun p => ("recipe_dir", Json.string p.text)).toList ++ n') : d = d' := by
  cases d with
  | none =>
    cases d' with
    | none => rfl
    | some q =>
      have hkey : "recipe_dir" = "node" :=
        hn ("recipe_dir", .string q.text) (by rw [show n = _ from h]; exact .head _)
      exact absurd hkey (by decide)
  | some p =>
    cases d' with
    | none =>
      have hkey : "recipe_dir" = "node" :=
        hn' ("recipe_dir", .string p.text) (by rw [← show _ = n' from h]; exact .head _)
      exact absurd hkey (by decide)
    | some q =>
      have htext : p.text = q.text := by simpa using (List.cons.inj h).1
      rw [show p = q from congrArg Path.mk htext]

/-- Resources that are alike but for attributes and the description of the node. -/
structure Resource.Alike (x y : Resource) : Prop where
  kind : x.kind = y.kind
  name : x.name = y.name
  recipe : x.recipe = y.recipe
  directory : x.directory = y.directory
  notifications : x.notifications = y.notifications

/-- Children that are the same nested recipe, or resources that are alike. -/
inductive Child.Alike : Child → Child → Prop
  | resource {x y : Resource} (h : x.Alike y) : Alike (.resource x) (.resource y)
  | recipe (id : Nat) : Alike (.recipe id) (.recipe id)

/-- Recipes that are alike but for the attributes and the nodes of resources. -/
structure Recipe.Alike (r r' : Recipe) : Prop where
  path : r.path = r'.path
  origin : r.origin = r'.origin
  children : List.Forall₂ Child.Alike r.children r'.children

/-- Graphs that are alike but for the attributes and the nodes of resources. -/
structure Graph.Alike (g g' : Graph) : Prop where
  roots : g.roots = g'.roots
  size : g.size = g'.size
  recipes : ∀ id r r', g.recipe? id = some r → g'.recipe? id = some r' → r.Alike r'

section

variable {id : Nat} {j : Json}

/-- Resources of one recipe that are written in the same way are alike. -/
theorem Resource.alike_of_json {x y : Resource} {p q : Path} (hx : x.json = .ok j)
    (hy : y.json = .ok j) (hxid : x.BelongsTo id p) (hyid : y.BelongsTo id q) : x.Alike y := by
  have hnode {z : Resource} {fields : List (String × Json)}
      (h : jsonFields Value.json (z.node.map fun v => ("node", v)).toList = .ok fields) :
      ∀ e ∈ fields, e.1 = "node" := by
    intro e he
    obtain ⟨a, ha, hae⟩ := exists_of_forall₂_right (Except.mapM_eq_ok_iff.mp h) he
    obtain ⟨_, -, rfl⟩ := Except.map_eq_ok_iff.mp hae
    obtain ⟨_, -, rfl⟩ := Option.map_eq_some_iff.1 (Option.mem_toList.1 ha)
    rfl
  obtain ⟨_, n, -, hn, rfl⟩ := json_eq_ok hx
  obtain ⟨_, n', -, hn', hfields⟩ := json_eq_ok hy
  simp only [List.cons_append, List.nil_append, Json.object.injEq, List.cons.injEq,
    Prod.mk.injEq, Json.string.injEq, Json.array.injEq, true_and] at hfields
  obtain ⟨hkind, hname, -, hnotifications, htail⟩ := hfields
  exact {
    kind := Kind.keyword_injective hkind
    name := hname
    recipe := hxid.recipe.trans hyid.recipe.symm
    directory := directory_eq (hnode hn) (hnode hn') htail
    notifications :=
      Notification.eq_of_map_json hnotifications hxid.notifications hyid.notifications }

/-- So are children of one recipe. -/
theorem Child.alike_of_json {c d : Child} {p q : Path} (hc : c.json = .ok j)
    (hd : d.json = .ok j) (hcid : ∀ x, c = .resource x → x.BelongsTo id p)
    (hdid : ∀ x, d = .resource x → x.BelongsTo id q) : c.Alike d := by
  match c, d with
  | .resource x, .resource y =>
    exact .resource (Resource.alike_of_json hc hd (hcid x rfl) (hdid y rfl))
  | .recipe m, .recipe n =>
    cases Json.ofNat_injective (Except.ok.inj (hc.trans hd.symm))
    exact .recipe m
  | .resource x, .recipe n =>
    obtain ⟨_, _, -, -, rfl⟩ := Resource.json_eq_ok hc
    cases hd
  | .recipe m, .resource y =>
    obtain ⟨_, _, -, -, rfl⟩ := Resource.json_eq_ok hd
    cases hc

/-- The fields of an origin end where the children begin. -/
theorem Origin.eq_of_jsonFields {o o' : Origin} {a a' : Json}
    (h : o.jsonFields ++ [("children", a)] = o'.jsonFields ++ [("children", a')]) :
    o = o' ∧ a = a' := by
  cases o <;> cases o' <;> simp_all [jsonFields]

/-- Recipes that are written in the same way are alike, if what they have belongs to them. -/
theorem Recipe.alike_of_json {r r' : Recipe} (hr : r.json = .ok j) (hr' : r'.json = .ok j)
    (hid : ∀ x ∈ r.resources, x.BelongsTo id r.path)
    (hid' : ∀ x ∈ r'.resources, x.BelongsTo id r'.path) : r.Alike r' := by
  have hmem {r : Recipe} (hid : ∀ x ∈ r.resources, x.BelongsTo id r.path) :
      ∀ c ∈ r.children, ∀ x, c = .resource x → x.BelongsTo id r.path := by
    rintro _ hc x rfl
    exact hid x (List.mem_filterMap.2 ⟨_, hc, rfl⟩)
  obtain ⟨children, hchildren, rfl⟩ := json_eq_ok hr
  obtain ⟨children', hchildren', hfields⟩ := json_eq_ok hr'
  simp only [List.cons_append, List.nil_append, Json.object.injEq, List.cons.injEq,
    Prod.mk.injEq, Json.string.injEq, true_and] at hfields
  obtain ⟨hpath, hrest⟩ := hfields
  obtain ⟨horigin, harray⟩ := Origin.eq_of_jsonFields hrest
  cases harray
  have hall := forall₂_of_common (Except.mapM_eq_ok_iff.mp hchildren)
    (Except.mapM_eq_ok_iff.mp hchildren').flip
  have howned := (List.forall₂_and_left _ _).2 ⟨hmem hid, hall⟩
  refine ⟨congrArg Path.mk hpath, horigin, ?_⟩
  have howned' := ((List.forall₂_and_left _ _).2 ⟨hmem hid', howned.flip⟩).flip
  exact howned'.imp fun c d ⟨hd, hc, j, hcj, hdj⟩ => Child.alike_of_json hcj hdj hc hd

end

/-- Graphs of one document are alike, where everything belongs to the recipe it stands in. -/
theorem Graph.Owned.alike_of_json {g g' : Graph} {j : Json} (h : g.Owned) (h' : g'.Owned)
    (hj : g.json = .ok j) (hj' : g'.json = .ok j) : g.Alike g' := by
  obtain ⟨recipes, hrecipes, rfl⟩ := json_eq_ok hj
  obtain ⟨recipes', hrecipes', hfields⟩ := json_eq_ok hj'
  simp only [Json.object.injEq, List.cons.injEq, Prod.mk.injEq, Json.array.injEq, true_and,
    and_true] at hfields
  obtain ⟨hroots, rfl⟩ := hfields
  obtain ⟨hlength, hall⟩ := List.forall₂_iff_get.1 (forall₂_of_common
    (Except.mapM_eq_ok_iff.mp hrecipes) (Except.mapM_eq_ok_iff.mp hrecipes').flip)
  refine ⟨List.map_injective_iff.2 Json.ofNat_injective hroots, by simpa [size] using hlength,
    fun id r r' hr hr' => ?_⟩
  obtain ⟨hlt, hget⟩ := Array.getElem?_eq_some_iff.1 hr
  obtain ⟨hlt', hget'⟩ := Array.getElem?_eq_some_iff.1 hr'
  obtain ⟨j, hrj, hrj'⟩ := hall id (by simpa using hlt) (by simpa using hlt')
  simp only [List.get_eq_getElem, Array.getElem_toList, hget, hget'] at hrj hrj'
  exact Recipe.alike_of_json hrj hrj' (h.resources id r hr) (h'.resources id r' hr')

namespace Session

/-- Two evaluations whose graphs have one JSON text, on one line or on several, have graphs that
are alike but for the attributes of resources and the nodes they carry. -/
theorem Reachable.alike_of_text {s t : Session} (hs : Reachable s) (ht : Reachable t)
    {j j' : Json} (hj : s.state.graph.json? = some j) (hj' : t.state.graph.json? = some j')
    (h : j.text = j'.text ∨ j.indentedText = j'.indentedText) :
    s.state.graph.Alike t.state.graph := by
  rw [Graph.json?_eq_some_iff] at hj hj'
  have hproper := Graph.proper_json hj
  have hproper' := Graph.proper_json hj'
  have hsame : j = j' := by
    rcases h with h | h
    · exact hproper.eq_of_written .tight hproper' (String.ofList_inj.1 h)
    · exact hproper.eq_of_written .lines hproper' (String.ofList_inj.1 h)
  subst hsame
  exact hs.owned.alike_of_json ht.owned hj hj'

/-- A session with a package whose options are a mapping with one given key. -/
def optioned (key : Value) : Session :=
  (start.root ⟨"/r.yml"⟩ {}).step bareHost 1 ⟨0, {}⟩
    (.evaluate [.declare "package" "nginx"
      (some ⟨OrderedMap.empty.insert "options" (.mapping [(key, .null)]), []⟩)])

/-- The graph that the key is in comes of a run. -/
theorem reachable_optioned (key : Value) : Reachable (optioned key) := by
  have hbegins : Next bareHost 1 start (start.root ⟨"/r.yml"⟩ {}) := .root _ _
  exact .next (.next .start hbegins) (.step ⟨0, {}⟩ _ rfl)

/-- The text of the plan of such a session. -/
def optionedText : String :=
  "\x7b\"roots\":[0],\"recipes\":[\x7b\"path\":\"/r.yml\",\"kind\":\"file\",\"children\":[" ++
    "\x7b\"type\":\"package\",\"name\":\"nginx\"," ++
    "\"attributes\":\x7b\"name\":\"nginx\",\"options\":\x7b\"1\":null\x7d\x7d," ++
    "\"notifications\":[]\x7d]\x7d]\x7d"

set_option maxRecDepth 8192 in
/-- A number and a string are different keys, but have the same text in a document. -/
theorem alike_of_text_optioned :
    (optioned (.int 1)).state.graph.json?.map Json.text = some optionedText ∧
    (optioned (.string "1")).state.graph.json?.map Json.text = some optionedText ∧
    (optioned (.int 1)).state.graph.Alike (optioned (.string "1")).state.graph := by
  have hint : (optioned (.int 1)).state.graph.json?.map Json.text = some optionedText := by
    decide +kernel
  have hstring : (optioned (.string "1")).state.graph.json?.map Json.text = some optionedText := by
    decide +kernel
  obtain ⟨j, hj, htext⟩ := Option.map_eq_some_iff.1 hint
  obtain ⟨j', hj', htext'⟩ := Option.map_eq_some_iff.1 hstring
  exact ⟨hint, hstring, (reachable_optioned _).alike_of_text (reachable_optioned _) hj hj'
    (.inl (htext.trans htext'.symm))⟩

end Session

end Provision
