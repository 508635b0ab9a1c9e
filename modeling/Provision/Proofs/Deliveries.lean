import Mathlib.Data.List.TakeWhile
import Provision.Proofs.Ownership
import Provision.Proofs.Result

/-!
# Deliveries of notifications

A notification is delivered to the first resource of its own recipe that has the type and the
name of its descriptor. Either every notification of a graph is delivered, in the order in
which resources are applied, or the first one that cannot be delivered is the failure. As a
resource and its notifications have the number of the recipe that they stand in, the recipe
that is searched is always that of the notifying resource.
-/

namespace Provision

/-! ### Descriptors -/

namespace Descriptor

/-- A descriptor whose parts can be told apart in its text. -/
structure WellFormed (d : Descriptor) : Prop where
  type_ne : d.type ≠ ""
  type_open : '[' ∉ d.type.toList
  name_ne : d.name ≠ ""
  name_close : ']' ∉ d.name.toList

/-- A descriptor names the resources of its type and name. -/
def Names (d : Descriptor) (x : Resource) : Prop := x.kind.keyword = d.type ∧ x.name = d.name

instance (d : Descriptor) : DecidablePred d.Names := fun x =>
  inferInstanceAs (Decidable (x.kind.keyword = d.type ∧ x.name = d.name))

section

variable {c : Char} {front : List Char} (h : c ∉ front) (rest : List Char)

include h

/-- What comes before the first occurrence of a character is all that lacks it. -/
theorem takeWhile_of_not_mem : (front ++ c :: rest).takeWhile (· ≠ c) = front := by
  have hall : ∀ a ∈ front, decide (a ≠ c) = true := fun a ha =>
    decide_eq_true fun hac => h (hac ▸ ha)
  rw [List.takeWhile_append_of_pos hall]
  simp

/-- What is left then begins with the character. -/
theorem dropWhile_of_not_mem : (front ++ c :: rest).dropWhile (· ≠ c) = c :: rest := by
  have hall : ∀ a ∈ front, decide (a ≠ c) = true := fun a ha =>
    decide_eq_true fun hac => h (hac ▸ ha)
  rw [List.dropWhile_append_of_pos hall]
  simp

end

/-- The characters of a descriptor are its type, and its name between brackets. -/
theorem split?_eq_some_iff {cs type name : List Char} :
    split? cs = some (type, name) ↔
      (type ≠ [] ∧ '[' ∉ type ∧ name ≠ [] ∧ ']' ∉ name) ∧ cs = type ++ '[' :: (name ++ [']']) := by
  by_cases hopen : '[' ∈ cs
  · obtain ⟨front, rest, rfl, hfront⟩ := List.eq_append_cons_of_mem hopen
    rw [split?, dropWhile_of_not_mem hfront, takeWhile_of_not_mem hfront]
    dsimp only
    constructor
    · intro h
      split at h
      · rename_i hguard
        obtain ⟨⟨htype, hname⟩, hend⟩ : (front ≠ [] ∧ rest.takeWhile (· ≠ ']') ≠ []) ∧
            rest.dropWhile (· ≠ ']') = [']'] := by simpa using hguard
        cases h
        refine ⟨⟨htype, hfront, hname, fun hclose => ?_⟩, ?_⟩
        · simpa using List.mem_takeWhile_imp hclose
        · rw [← hend, List.takeWhile_append_dropWhile]
      · cases h
    · rintro ⟨⟨htype, hfree, hname, hclose⟩, hsplit⟩
      -- There is one place where a bracket opens first.
      have hfirst := congrArg (List.takeWhile (· ≠ '[')) hsplit
      have hrest := congrArg (List.dropWhile (· ≠ '[')) hsplit
      rw [takeWhile_of_not_mem hfront, takeWhile_of_not_mem hfree] at hfirst
      rw [dropWhile_of_not_mem hfront, dropWhile_of_not_mem hfree] at hrest
      cases hfirst
      cases hrest
      rw [takeWhile_of_not_mem hclose, dropWhile_of_not_mem hclose]
      simp [htype, hname]
  · have hnone : cs.dropWhile (· ≠ '[') = [] :=
      List.dropWhile_eq_nil_iff.mpr fun a ha => decide_eq_true fun hac => hopen (hac ▸ ha)
    rw [split?, hnone]
    refine ⟨nofun, ?_⟩
    rintro ⟨-, rfl⟩
    exact absurd (by simp) hopen

/-- A text represents a descriptor exactly if it is written like one. -/
theorem ofText?_eq_some_iff {s : String} {d : Descriptor} :
    ofText? s = some d ↔ d.WellFormed ∧ s = d.text := by
  have htext : s = d.text ↔ s.toList = d.type.toList ++ '[' :: (d.name.toList ++ [']']) := by
    rw [← String.toList_inj, text]
    simp
  have hparts : ofText? s = some d ↔ split? s.toList = some (d.type.toList, d.name.toList) := by
    rw [ofText?, Option.map_eq_some_iff]
    constructor
    · rintro ⟨⟨type, name⟩, hsplit, rfl⟩
      rw [hsplit, String.toList_ofList, String.toList_ofList]
    · intro hsplit
      exact ⟨_, hsplit, by simp⟩
  rw [hparts, split?_eq_some_iff, htext]
  refine and_congr_left fun _ => ⟨?_, ?_⟩
  · rintro ⟨htype, hopen, hname, hclose⟩
    exact ⟨fun h => htype (by simp [h]), hopen, fun h => hname (by simp [h]), hclose⟩
  · rintro ⟨htype, hopen, hname, hclose⟩
    exact ⟨by simpa using htype, hopen, by simpa using hname, hclose⟩

end Descriptor

/-! ### The target of a notification -/

namespace Notification

/-- A notification has a descriptor that is well-formed. -/
def Describes (n : Notification) (d : Descriptor) : Prop := d.WellFormed ∧ n.target = d.text

/-- A resource is the first of some resources that has the type and the name that a
notification describes. -/
def Means (n : Notification) (xs : List Resource) (y : Resource) : Prop :=
  ∃ d, n.Describes d ∧ d.Names y ∧
    ∃ before after, xs = before ++ y :: after ∧ ∀ z ∈ before, ¬d.Names z

/-- Among the resources of the recipe of a notification there is one that it describes. -/
def Resolves (n : Notification) (g : Graph) : Prop :=
  ∃ r d, g.recipe? n.recipe = some r ∧ n.Describes d ∧ ∃ y ∈ r.resources, d.Names y

variable {n : Notification} {g : Graph}

/-- With a descriptor that can be read, a notification finds the first resource that it names in its
own recipe, or else nothing. -/
theorem resource?_of_describes {d : Descriptor} (h : n.Describes d) (g : Graph) :
    n.resource? g =
      match (g.recipe? n.recipe).bind fun r => r.resources.find? fun x => decide (d.Names x) with
      | some x => .ok x
      | none => .error (.notFound n.target) := by
  have hfind (r : Recipe) :
      (r.resources.find? fun x => x.kind.keyword == d.type && x.name == d.name) =
        r.resources.find? fun x => decide (d.Names x) := by
    congr 1
    funext x
    rw [Bool.eq_iff_iff, decide_eq_true_eq, Bool.and_eq_true, beq_iff_eq, beq_iff_eq]
    rfl
  let answer : Option Resource → Except Failure Resource
    | some x => .ok x
    | none => .error (.notFound n.target)
  rw [resource?, Descriptor.ofText?_eq_some_iff.mpr h]
  exact congrArg (fun find => answer ((g.recipe? n.recipe).bind find)) (funext hfind)

/-- What is found for a notification is the resource that it means. -/
theorem means_of_resource? {r : Recipe} (hr : g.recipe? n.recipe = some r) {y : Resource}
    (h : n.resource? g = .ok y) : n.Means r.resources y := by
  cases hd : Descriptor.ofText? n.target with
  | none =>
    rw [resource?, hd] at h
    cases h
  | some d =>
    have hdescribes : n.Describes d := Descriptor.ofText?_eq_some_iff.mp hd
    rw [resource?_of_describes hdescribes, hr, Option.bind_some] at h
    cases hfind : r.resources.find? fun x => decide (d.Names x) with
    | none =>
      rw [hfind] at h
      cases h
    | some z =>
      rw [hfind] at h
      cases h
      obtain ⟨hnames, before, after, hsplit, hbefore⟩ := List.find?_eq_some_iff_append.mp hfind
      refine ⟨d, hdescribes, of_decide_eq_true hnames, before, after, hsplit, fun z hz => ?_⟩
      simpa using hbefore z hz

/-- Something is found for a notification exactly if its recipe has what it describes. -/
theorem resource?_isOk_iff (n : Notification) (g : Graph) :
    (∃ y, n.resource? g = .ok y) ↔ n.Resolves g := by
  constructor
  · rintro ⟨y, hy⟩
    cases hr : g.recipe? n.recipe with
    | none =>
      cases hd : Descriptor.ofText? n.target with
      | none => simp [resource?, hd] at hy
      | some d => simp [resource?, hd, hr] at hy
    | some r =>
      obtain ⟨d, hdescribes, hnames, before, after, hsplit, -⟩ := means_of_resource? hr hy
      exact ⟨r, d, hr, hdescribes, y, by simp [hsplit], hnames⟩
  · rintro ⟨r, d, hr, hdescribes, y, hy, hnames⟩
    rw [resource?_of_describes hdescribes, hr, Option.bind_some]
    have hsome : (r.resources.find? fun x => decide (d.Names x)).isSome = true :=
      List.find?_isSome.mpr ⟨y, hy, decide_eq_true hnames⟩
    obtain ⟨z, hz⟩ := Option.isSome_iff_exists.mp hsome
    rw [hz]
    exact ⟨z, rfl⟩

/-- A descriptor that is not well-formed is one failure, and one that names no resource of the
recipe is the other. -/
theorem resource?_error {f : Failure} (h : n.resource? g = .error f) :
    ((∃ d, n.Describes d) ∧ f = .notFound n.target) ∨
      (¬∃ d, n.Describes d) ∧ f = .malformed n.target := by
  cases hd : Descriptor.ofText? n.target with
  | none =>
    rw [resource?, hd] at h
    cases h
    refine .inr ⟨?_, rfl⟩
    rintro ⟨d, hdescribes⟩
    rw [Descriptor.ofText?_eq_some_iff.mpr hdescribes] at hd
    cases hd
  | some d =>
    have hdescribes : n.Describes d := Descriptor.ofText?_eq_some_iff.mp hd
    rw [resource?_of_describes hdescribes] at h
    split at h
    · cases h
    · cases h
      exact .inl ⟨⟨d, hdescribes⟩, rfl⟩

end Notification

/-! ### All notifications -/

namespace Graph

/-- Every notification with the resource that has it, in the order in which resources are
applied. -/
def pending (g : Graph) : List (Resource × Notification) :=
  g.resources.flatMap fun x => x.notifications.map (x, ·)

/-- A resource that is applied stands in some recipe. -/
theorem exists_recipe_of_mem_resources {g : Graph} {x : Resource} (h : x ∈ g.resources) :
    ∃ id r, g.recipe? id = some r ∧ x ∈ r.resources := by
  have hbelow (depth id : Nat) (h : x ∈ g.resourcesBelow depth id) :
      ∃ id r, g.recipe? id = some r ∧ x ∈ r.resources := by
    induction depth generalizing id with
    | zero => cases h
    | succ depth ih =>
      rw [resourcesBelow] at h
      cases hr : g.recipe? id with
      | none =>
        rw [hr] at h
        cases h
      | some r =>
        rw [hr] at h
        obtain ⟨c, hc, hx⟩ := List.mem_flatMap.mp h
        cases c with
        | resource y =>
          cases List.mem_singleton.mp hx
          exact ⟨id, r, hr, List.mem_filterMap.mpr ⟨_, hc, rfl⟩⟩
        | recipe nested => exact ih nested hx
  obtain ⟨root, -, hx⟩ := List.mem_flatMap.mp h
  exact hbelow _ _ hx

/-- A resource that is applied, and each of its notifications, has the number of the recipe
that it stands in. -/
theorem Owned.exists_owner {g : Graph} (h : g.Owned) {x : Resource} (hx : x ∈ g.resources) :
    ∃ r, g.recipe? x.recipe = some r ∧ x ∈ r.resources ∧
      ∀ n ∈ x.notifications, n.recipe = x.recipe := by
  obtain ⟨id, r, hr, hmem⟩ := exists_recipe_of_mem_resources hx
  obtain ⟨hrecipe, hnotifications, -, -⟩ := h.resources id r hr x hmem
  rw [hrecipe]
  exact ⟨r, hr, hmem, hnotifications⟩

/-- A delivery is made within the recipe of the notifying resource, to the first resource there
that the notification describes. -/
structure Delivers (g : Graph) (d : Delivery) : Prop where
  owner : d.notification.recipe = d.source.recipe
  within : ∃ r, g.recipe? d.source.recipe = some r ∧ d.source ∈ r.resources ∧
    d.notification.Means r.resources d.target
  target : d.target.recipe = d.source.recipe

/-- A notification is delivered to the resource that it finds. -/
theorem Owned.delivers {g : Graph} (h : g.Owned) {x y : Resource} {n : Notification}
    (hx : x ∈ g.resources) (hn : n ∈ x.notifications) (hy : n.resource? g = .ok y) :
    g.Delivers ⟨x, n, y⟩ := by
  obtain ⟨r, hr, hmem, howner⟩ := h.exists_owner hx
  have hmeans : n.Means r.resources y :=
    Notification.means_of_resource? ((congrArg g.recipe? (howner n hn)).trans hr) hy
  refine ⟨howner n hn, ⟨r, hr, hmem, hmeans⟩, ?_⟩
  obtain ⟨d, -, -, before, after, hsplit, -⟩ := hmeans
  exact (h.resources _ r hr y (by simp [hsplit])).recipe

/-- What the deliveries of a graph are. -/
structure Resolved (g : Graph) : Prop where
  /-- All notifications are delivered exactly if each describes a resource of its recipe. -/
  isOk_iff : (∃ ds, g.deliveries = .ok ds) ↔
    ∀ x ∈ g.resources, ∀ n ∈ x.notifications, n.Resolves g
  /-- Then there is one delivery for each, in the order in which resources are applied. -/
  ok : ∀ ds, g.deliveries = .ok ds →
    ds.map (fun d => (d.source, d.notification)) = g.pending ∧ ∀ d ∈ ds, g.Delivers d
  /-- Otherwise the result is the failure of the first that is not resolved: its descriptor is
  not well-formed, or it does not name any resource of the recipe. -/
  error : ∀ f, g.deliveries = .error f →
    ∃ before x n after, g.pending = before ++ (x, n) :: after ∧
      (∀ q ∈ before, q.2.Resolves g) ∧ ¬n.Resolves g ∧
        (((∃ d, n.Describes d) ∧ f = .notFound n.target) ∨
          (¬∃ d, n.Describes d) ∧ f = .malformed n.target)

/-- The notifications that wait for delivery are those of the resources in the apply order. -/
theorem mem_pending {g : Graph} {q : Resource × Notification} :
    q ∈ g.pending ↔ q.1 ∈ g.resources ∧ q.2 ∈ q.1.notifications := by
  obtain ⟨x, n⟩ := q
  simp [pending]

/-- What is delivered for one notification. -/
def deliver (g : Graph) (q : Resource × Notification) : Except Notification.Failure Delivery :=
  (q.2.resource? g).map fun target => ⟨q.1, q.2, target⟩

/-- The deliveries are those of the waiting notifications, up to the first that fails. -/
theorem deliveries_eq (g : Graph) : g.deliveries = g.pending.mapM g.deliver := rfl

/-- A delivery is from its resource to the one that the notification finds. -/
theorem deliver_ok {g : Graph} {q : Resource × Notification} {d : Delivery}
    (h : g.deliver q = .ok d) :
    (d.source, d.notification) = q ∧ q.2.resource? g = .ok d.target := by
  unfold deliver at h
  cases htarget : q.2.resource? g with
  | error f => simp [htarget, Except.map] at h
  | ok target =>
    simp only [htarget, Except.map] at h
    cases h
    exact ⟨rfl, rfl⟩

/-- A delivery fails just as the search for the target does. -/
theorem deliver_error {g : Graph} {q : Resource × Notification} {f : Notification.Failure}
    (h : g.deliver q = .error f) : q.2.resource? g = .error f := by
  unfold deliver at h
  cases htarget : q.2.resource? g with
  | error f' =>
    simp only [htarget, Except.map] at h
    cases h
    rfl
  | ok target => simp [htarget, Except.map] at h

/-- All notifications resolve, and there is one delivery for each, or there is a first one for
which nothing is found. -/
theorem deliveries_cases (g : Graph) :
    (∃ ds, g.deliveries = .ok ds ∧ (∀ q ∈ g.pending, q.2.Resolves g) ∧
      ds.map (fun d => (d.source, d.notification)) = g.pending ∧
        ∀ d ∈ ds, (d.source, d.notification) ∈ g.pending ∧
          d.notification.resource? g = .ok d.target) ∨
      ∃ before x n after f, g.deliveries = .error f ∧ g.pending = before ++ (x, n) :: after ∧
        (∀ q ∈ before, q.2.Resolves g) ∧ n.resource? g = .error f := by
  have hresolves {q : Resource × Notification} {d : Delivery} (hq : g.deliver q = .ok d) :
      q.2.Resolves g := (q.2.resource?_isOk_iff g).mp ⟨_, (deliver_ok hq).2⟩
  rw [deliveries_eq]
  rcases Except.mapM_cases g.deliver g.pending with
    ⟨ds, hds, hall⟩ | ⟨before, ⟨x, n⟩, after, f, hpending, hbefore, hfails, hf⟩
  · refine .inl ⟨ds, hds, fun q hq => ?_, ?_, fun d hd => ?_⟩
    · obtain ⟨d, hd⟩ := exists_of_forall₂_left hall hq
      exact hresolves hd
    · have hsame : List.Forall₂ Eq (ds.map fun d => (d.source, d.notification)) g.pending :=
        List.forall₂_map_left_iff.mpr (hall.flip.imp fun _ _ hd => (deliver_ok hd).1)
      exact List.forall₂_eq_eq_eq ▸ hsame
    · obtain ⟨q, hq, hqd⟩ := exists_of_forall₂_right hall hd
      obtain ⟨rfl, htarget⟩ := deliver_ok hqd
      exact ⟨hq, htarget⟩
  · have hn : n.resource? g = .error f := deliver_error (q := (x, n)) hfails
    refine .inr ⟨before, x, n, after, f, hf, hpending, fun q hq => ?_, hn⟩
    obtain ⟨d, hd⟩ := hbefore q hq
    exact hresolves hd

/-- The deliveries of a graph in which everything belongs to the recipe that it is found in. -/
theorem Owned.resolved {g : Graph} (h : g.Owned) : g.Resolved := by
  rcases g.deliveries_cases with
    ⟨ds, hds, hall, hpending, htargets⟩ | ⟨before, x, n, after, f, hf, hpending, hbefore, hn⟩
  · refine ⟨⟨fun _ x hx n hn => hall (x, n) (mem_pending.mpr ⟨hx, hn⟩), fun _ => ⟨ds, hds⟩⟩,
      fun ds' hds' => ?_, fun f hf => ?_⟩
    · cases hds.symm.trans hds'
      refine ⟨hpending, fun d hd => ?_⟩
      obtain ⟨hmem, htarget⟩ := htargets d hd
      obtain ⟨hsource, hnotification⟩ := mem_pending.mp hmem
      exact h.delivers hsource hnotification htarget
    · cases hds.symm.trans hf
  · have hunresolved : ¬n.Resolves g := fun hresolves => by
      obtain ⟨y, hy⟩ := (n.resource?_isOk_iff g).mpr hresolves
      cases hn.symm.trans hy
    have hmem : (x, n) ∈ g.pending := hpending ▸ List.mem_append_right _ List.mem_cons_self
    obtain ⟨hsource, hnotification⟩ := mem_pending.mp hmem
    refine ⟨⟨?_, fun hall => absurd (hall x hsource n hnotification) hunresolved⟩,
      fun ds hds => ?_, fun f' hf' => ?_⟩
    · rintro ⟨ds, hds⟩
      cases hf.symm.trans hds
    · cases hf.symm.trans hds
    · cases hf.symm.trans hf'
      exact ⟨before, x, n, after, hpending, hbefore, hunresolved,
        Notification.resource?_error hn⟩

end Graph

namespace Session

/-- Whatever operations have been done, the notifications of the graph are all delivered if
each of them describes a resource of its own recipe, and otherwise the first that does not is
the failure. -/
theorem Reachable.deliveries_resolved {s : Session} (hs : Reachable s) :
    s.state.graph.Resolved := hs.owned.resolved

/-- A session with a template that notifies a service, of which there are two. -/
def notifying : Session :=
  (start.root ⟨"/r.yml"⟩ {}).step bareHost 1 ⟨0, {}⟩
    (.evaluate
      [.declare "service" "nginx" none,
       .declare "template" "/etc/nginx"
         (some ⟨{}, [⟨"restart", "service[nginx]", "delayed"⟩]⟩),
       .declare "service" "nginx" (some ⟨OrderedMap.empty.insert "late" (.bool true), []⟩)])

set_option maxRecDepth 8192 in
/-- The service that was declared first is notified. -/
theorem deliveries_resolved_first :
    notifying.state.graph.Resolved ∧
      notifying.state.graph.deliveries.toOption.map (fun ds =>
        ds.map fun d => (d.source.name, d.target.name, d.target.attributes.contains "late")) =
          some [("/etc/nginx", "nginx", false)] := by
  have hbegins : Next bareHost 1 start (start.root ⟨"/r.yml"⟩ {}) := .root _ _
  have hnotifying : Reachable notifying := .next (.next .start hbegins) (.step ⟨0, {}⟩ _ rfl)
  exact ⟨hnotifying.deliveries_resolved, by decide +kernel⟩

end Session

end Provision
