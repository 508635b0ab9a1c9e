import Provision.Proofs.Settings
import Provision.Proofs.Evaluation.Operations

/-!
# The construction of resources

A declaration makes a resource exactly if its settings resolve, its actions are some that the
kind accepts, and each of its notifications has a target that resolves and a timing. Then it is
the resource that was declared, and no other. Otherwise the first of these that is wrong is the
failure, and if that is a timing, the run is over.
-/

namespace Provision

/-- A timing is read from its own text only. -/
theorem Timing.ofText?_eq_some_iff {word : String} {t : Timing} :
    ofText? word = some t ↔ t.text = word := by
  constructor
  · intro h
    simpa using List.find?_some h
  · rintro rfl
    cases t <;> decide

/-- A word that is not the text of any timing is not read as one. -/
theorem Timing.ofText?_eq_none_iff {word : String} :
    ofText? word = none ↔ ∀ t : Timing, t.text ≠ word := by
  rw [Option.eq_none_iff_forall_ne_some]
  simp only [ne_eq, ofText?_eq_some_iff]

/-- No kind keeps the name of a resource where the actions are asked for. -/
theorem Kind.identity_ne_action (kind : Kind) : kind.identity ≠ "action" := by
  cases kind <;> decide

/-- What is no list is one action. -/
theorem Resource.requested_of_ne {v : Value} (h : ∀ items, v ≠ .sequence items) :
    requested v = [v.text] := by
  cases v with
  | sequence items => exact absurd rfl (h items)
  | _ => rfl

/-! ### What is declared -/

/-- A resource as it is declared for a recipe, with the scope of the declaration. -/
structure Declaration where
  kind : Kind
  name : String
  recipe : Nat
  scope : Scope
  block : Option Block

namespace Declaration

/-- The attributes that the block sets. -/
def settings (d : Declaration) : OrderedMap Value := (d.block.getD Block.empty).attributes

/-- The notifications that the block asks for. -/
def notices (d : Declaration) : List Notice := (d.block.getD Block.empty).notifies

/-- The attributes before the block has set any. -/
def identity (d : Declaration) : OrderedMap Value :=
  OrderedMap.empty.insert d.kind.identity (.string d.name)

/-- The actions to be taken: the items of the list that is set, or the one value that is, or else
the default of the kind. -/
inductive Takes (d : Declaration) : List String → Prop
  | list {v : Value} {items : List Value} (h : d.settings.get? "action" = some v)
      (hv : d.scope.resolved v = .ok (.sequence items)) : d.Takes (items.map Value.text)
  | single {v w : Value} (h : d.settings.get? "action" = some v)
      (hv : d.scope.resolved v = .ok w) (hw : ∀ items, w ≠ .sequence items) : d.Takes [w.text]
  | default (h : d.settings.get? "action" = none) : d.Takes [d.kind.defaultAction]

/-- A notification is the one that is asked for. -/
structure Makes (d : Declaration) (n : Notice) (m : Notification) : Prop where
  recipe : m.recipe = d.recipe
  action : m.action = n.action
  target : d.scope.resolvedText n.target = .ok m.target
  timing : m.timing.text = n.timing

/-- A resource is the one that is declared. -/
structure Declares (d : Declaration) (x : Resource) : Prop where
  kind : x.kind = d.kind
  /-- The name is the one that is declared, even if a setting overrides the attribute for it. -/
  name : x.name = d.name
  recipe : x.recipe = d.recipe
  attributes : d.scope.Overrides d.settings d.identity x.attributes
  actions : d.Takes x.actions
  accepted : ∀ a ∈ x.actions, a ∈ d.kind.actions
  notifications : List.Forall₂ d.Makes d.notices x.notifications
  directory : x.directory = none
  node : x.node = none

/-- A notification can be made. -/
structure Admits (d : Declaration) (n : Notice) : Prop where
  target : ∃ target, d.scope.resolvedText n.target = .ok target
  timing : ∃ t : Timing, t.text = n.timing

/-- Nothing is wrong with a declaration. -/
structure Acceptable (d : Declaration) : Prop where
  attributes : ∀ e ∈ d.settings.entries, ∃ v, d.scope.resolved e.2 = .ok v
  actions : ∀ actions, d.Takes actions → ∀ a ∈ actions, a ∈ d.kind.actions
  notices : ∀ n ∈ d.notices, d.Admits n

/-- The first thing that is wrong with a declaration. Settings come before actions, and these
before notifications, each of them with its target before its timing. -/
inductive Refuses (d : Declaration) : Failure → Prop
  | attribute {before after : List (String × Value)} {e : String × Value} {u : Undefined}
      (h : d.settings.entries = before ++ e :: after)
      (hbefore : ∀ other ∈ before, ∃ v, d.scope.resolved other.2 = .ok v)
      (hu : d.scope.resolved e.2 = .error u) : d.Refuses (.undefined u)
  | action {before after : List String} {a : String}
      (hattributes : ∀ e ∈ d.settings.entries, ∃ v, d.scope.resolved e.2 = .ok v)
      (h : d.Takes (before ++ a :: after)) (hbefore : ∀ other ∈ before, other ∈ d.kind.actions)
      (ha : a ∉ d.kind.actions) :
      d.Refuses (.unsupportedAction (Resource.describe d.kind d.name) a d.kind.actions)
  | target {before after : List Notice} {n : Notice} {u : Undefined}
      (hattributes : ∀ e ∈ d.settings.entries, ∃ v, d.scope.resolved e.2 = .ok v)
      (hactions : ∀ actions, d.Takes actions → ∀ a ∈ actions, a ∈ d.kind.actions)
      (h : d.notices = before ++ n :: after) (hbefore : ∀ other ∈ before, d.Admits other)
      (hu : d.scope.resolvedText n.target = .error u) : d.Refuses (.undefined u)
  | timing {before after : List Notice} {n : Notice} {target : String}
      (hattributes : ∀ e ∈ d.settings.entries, ∃ v, d.scope.resolved e.2 = .ok v)
      (hactions : ∀ actions, d.Takes actions → ∀ a ∈ actions, a ∈ d.kind.actions)
      (h : d.notices = before ++ n :: after) (hbefore : ∀ other ∈ before, d.Admits other)
      (htarget : d.scope.resolvedText n.target = .ok target)
      (ht : ∀ t : Timing, t.text ≠ n.timing) :
      d.Refuses (.notification (.invalidTiming n.timing))

variable {d : Declaration}

/-! ### Settings -/

/-- What one setting comes to. -/
def setting (d : Declaration) (e : String × Value) : Except Failure Value :=
  (d.scope.resolved e.2).mapError .undefined

/-- A setting comes to the value that it resolves to. -/
theorem setting_eq_ok_iff {e : String × Value} {w : Value} :
    d.setting e = .ok w ↔ d.scope.resolved e.2 = .ok w := Except.mapError_eq_ok_iff

/-- The attributes that settings come to are the map that they override. -/
theorem override_eq_ok_iff {m : OrderedMap Value} :
    d.identity.override d.setting d.settings.entries = .ok m ↔
      d.scope.Overrides d.settings d.identity m := by
  have hoverrides {m : OrderedMap Value}
      (h : d.identity.override d.setting d.settings.entries = .ok m) :
      d.scope.Overrides d.settings d.identity m :=
    Scope.overrides_of_override (fun _ _ => setting_eq_ok_iff.mp) h
  refine ⟨hoverrides, fun h => ?_⟩
  -- The settings have to resolve, so some map comes of them, and there is only one.
  have hsettings : ∀ e ∈ d.settings.entries, ∃ w, d.setting e = .ok w := by
    intro e he
    have hset : d.settings.get? e.1 = some e.2 :=
      (OrderedMap.find?_eq_some_iff d.settings.nodup).mpr he
    obtain ⟨w, hw, -⟩ := h.set e.1 e.2 hset
    exact ⟨w, setting_eq_ok_iff.mpr hw⟩
  obtain ⟨m', hm'⟩ := OrderedMap.isOk_override_iff.mpr hsettings
  rw [hm', h.unique (hoverrides hm')]

/-! ### Actions -/

/-- The actions that attributes ask for, or else the default one. -/
def actionsOf (d : Declaration) (m : OrderedMap Value) : List String :=
  match m.get? "action" with
  | some v => Resource.requested v
  | none => [d.kind.defaultAction]

variable {m : OrderedMap Value} {f : Failure}

/-- The actions that the attributes ask for are those that the settings do. -/
theorem takes_iff (h : d.scope.Overrides d.settings d.identity m) {actions : List String} :
    d.Takes actions ↔ actions = d.actionsOf m := by
  -- The name of the resource is kept elsewhere, so the action is what the block sets, if anything.
  have hunset (hnone : d.settings.get? "action" = none) : m.get? "action" = none := by
    rw [h.unset _ hnone, identity, OrderedMap.get?_insert, if_neg d.kind.identity_ne_action]
    rfl
  constructor
  · rintro (⟨hset, hv⟩ | ⟨hset, hv, hw⟩ | hnone)
    · obtain ⟨w, hw, hm⟩ := h.set _ _ hset
      cases hv.symm.trans hw
      rw [actionsOf, hm]
      rfl
    · obtain ⟨w', hw', hm⟩ := h.set _ _ hset
      cases hv.symm.trans hw'
      rw [actionsOf, hm]
      exact (Resource.requested_of_ne hw).symm
    · rw [actionsOf, hunset hnone]
  · rintro rfl
    cases hset : d.settings.get? "action" with
    | none =>
      rw [actionsOf, hunset hset]
      exact .default hset
    | some v =>
      obtain ⟨w, hw, hm⟩ := h.set _ _ hset
      rw [actionsOf, hm]
      by_cases hsequence : ∃ items, w = .sequence items
      · obtain ⟨items, rfl⟩ := hsequence
        exact .list hset hw
      · have hne : ∀ items, w ≠ .sequence items := not_exists.mp hsequence
        change d.Takes (Resource.requested w)
        rw [Resource.requested_of_ne hne]
        exact .single hset hw hne

/-- The actions are checked, or there are none but the default one. -/
def checked (d : Declaration) (m : OrderedMap Value) : Except Failure Unit :=
  match m.get? "action" with
  | some v => Resource.checkActions d.kind d.name v
  | none => .ok ()

/-- The check of the actions ends with the first one that the kind does not accept. -/
theorem checked_eq : d.checked m =
    match (d.actionsOf m).find? (! d.kind.actions.contains ·) with
    | some a => .error (.unsupportedAction (Resource.describe d.kind d.name) a d.kind.actions)
    | none => .ok () := by
  rw [checked, actionsOf]
  cases m.get? "action" with
  | some v => rfl
  | none => simp [d.kind.defaultAction_mem]

/-- The actions pass the check exactly if the kind accepts all of those to be taken. -/
theorem checked_eq_ok_iff (h : d.scope.Overrides d.settings d.identity m) :
    d.checked m = .ok () ↔ ∀ actions, d.Takes actions → ∀ a ∈ actions, a ∈ d.kind.actions := by
  simp only [takes_iff h, forall_eq]
  rw [checked_eq]
  cases hfind : (d.actionsOf m).find? (! d.kind.actions.contains ·) with
  | none => simpa using hfind
  | some a =>
    have ha : a ∉ d.kind.actions := by simpa using List.find?_some hfind
    exact iff_of_false nofun fun hall => ha (hall a (List.mem_of_find?_eq_some hfind))

/-- The first action that the kind does not accept is the failure. -/
theorem checked_eq_error_iff (h : d.scope.Overrides d.settings d.identity m) :
    d.checked m = .error f ↔ ∃ before a after, d.Takes (before ++ a :: after) ∧
      (∀ other ∈ before, other ∈ d.kind.actions) ∧ a ∉ d.kind.actions ∧
        f = .unsupportedAction (Resource.describe d.kind d.name) a d.kind.actions := by
  simp only [takes_iff h]
  have hfind (a : String) : (d.actionsOf m).find? (! d.kind.actions.contains ·) = some a ↔
      a ∉ d.kind.actions ∧ ∃ before after, d.actionsOf m = before ++ a :: after ∧
        ∀ other ∈ before, other ∈ d.kind.actions := by
    rw [List.find?_eq_some_iff_append]
    simp
  rw [checked_eq]
  constructor
  · intro herror
    cases hfirst : (d.actionsOf m).find? (! d.kind.actions.contains ·) with
    | none =>
      rw [hfirst] at herror
      cases herror
    | some a =>
      rw [hfirst] at herror
      obtain ⟨ha, before, after, hactions, hbefore⟩ := (hfind a).mp hfirst
      exact ⟨before, a, after, hactions.symm, hbefore, ha, (Except.error.inj herror).symm⟩
  · rintro ⟨before, a, after, hactions, hbefore, ha, rfl⟩
    rw [(hfind a).mpr ⟨ha, before, after, hactions.symm, hbefore⟩]

/-! ### Notifications -/

/-- What one notification that is asked for comes to. -/
def notice (d : Declaration) (n : Notice) : Except Failure Notification := do
  let target ← (d.scope.resolvedText n.target).mapError .undefined
  (Notification.make d.recipe n.action target n.timing).mapError .notification

variable {n : Notice}

/-- A notification is made exactly if its target resolves and its timing is one. -/
theorem notice_eq_ok_iff {x : Notification} : d.notice n = .ok x ↔ d.Makes n x := by
  simp only [notice, Except.bind_eq_ok_iff, Except.mapError_eq_ok_iff, Notification.make]
  constructor
  · rintro ⟨target, htarget, hx⟩
    cases ht : Timing.ofText? n.timing with
    | none =>
      rw [ht] at hx
      cases hx
    | some t =>
      rw [ht] at hx
      cases hx
      exact ⟨rfl, rfl, htarget, Timing.ofText?_eq_some_iff.mp ht⟩
  · rintro ⟨hrecipe, haction, htarget, htiming⟩
    refine ⟨x.target, htarget, ?_⟩
    rw [Timing.ofText?_eq_some_iff.mpr htiming, ← hrecipe, ← haction]

/-- It fails for a target that does not resolve, and after that for a timing that is none. -/
theorem notice_eq_error_iff : d.notice n = .error f ↔
    (∃ u, d.scope.resolvedText n.target = .error u ∧ f = .undefined u) ∨
      ∃ target, d.scope.resolvedText n.target = .ok target ∧ (∀ t : Timing, t.text ≠ n.timing) ∧
        f = .notification (.invalidTiming n.timing) := by
  have hmake (target : String) : (Notification.make d.recipe n.action target n.timing).mapError
      .notification = .error f ↔
        (∀ t : Timing, t.text ≠ n.timing) ∧ f = .notification (.invalidTiming n.timing) := by
    rw [← Timing.ofText?_eq_none_iff, Notification.make]
    cases Timing.ofText? n.timing with
    | none => simp [Except.mapError, eq_comm]
    | some t => simp [Except.mapError]
  simp only [notice, Except.bind_eq_error_iff, Except.mapError_eq_error_iff,
    Except.mapError_eq_ok_iff, hmake, eq_comm (b := f)]

/-- What admits a notification is just that one can be made. -/
theorem admits_iff : d.Admits n ↔ ∃ x, d.notice n = .ok x := by
  simp only [notice_eq_ok_iff]
  constructor
  · rintro ⟨⟨target, htarget⟩, t, ht⟩
    exact ⟨⟨d.recipe, n.action, target, t⟩, rfl, rfl, htarget, ht⟩
  · rintro ⟨x, hx⟩
    exact ⟨⟨_, hx.target⟩, _, hx.timing⟩

/-- All the notifications are made exactly if each of them is. -/
theorem notices_eq_ok_iff {notifications : List Notification} :
    d.notices.mapM d.notice = .ok notifications ↔
      List.Forall₂ d.Makes d.notices notifications := by
  simp only [Except.mapM_eq_ok_iff, notice_eq_ok_iff]

/-! ### The resource -/

/-- What a declaration comes to. -/
def result (d : Declaration) : Except Failure Resource := do
  let attributes ← d.identity.override d.setting d.settings.entries
  d.checked attributes
  let notifications ← d.notices.mapM d.notice
  return ⟨d.kind, d.name, d.recipe, attributes, notifications, none, none⟩

/-- In a scope of constants, the construction has the result that is computed from the declaration
alone. -/
theorem make_gives (hs : d.scope.Constant) :
    Reads.Gives (Resource.make d.kind d.name d.recipe d.scope d.block) d.result := by
  have hset (m : OrderedMap Value) (e : String × Value) :
      Reads.Gives (do return m.insert e.1 (← d.scope.build e.2) : Building (OrderedMap Value))
        ((d.setting e).map (m.insert e.1)) := (hs.build_gives e.2).map (m.insert e.1)
  have hnotice (n : Notice) : Reads.Gives (Resource.notify d.recipe d.scope n) (d.notice n) := by
    refine (hs.buildText_gives n.target).and_then fun target => ?_
    cases Notification.make d.recipe n.action target n.timing <;> exact fun _ => rfl
  refine (Reads.gives_foldlM_insert hset d.identity d.settings.entries).and_then fun m => ?_
  have hmade (notifications : List Notification) : Reads.Gives
      (pure ⟨d.kind, d.name, d.recipe, m, notifications, none, none⟩ : Building Resource)
      (.ok ⟨d.kind, d.name, d.recipe, m, notifications, none, none⟩) := Reads.gives_pure _
  have hnotices := (Reads.gives_mapM hnotice d.notices).and_then hmade
  rw [checked]
  cases m.get? "action" with
  | none => exact hnotices
  | some action =>
    have hchecked : Reads.Gives
        (ExceptT.mk (pure (Resource.checkActions d.kind d.name action)) : Building Unit)
        (Resource.checkActions d.kind d.name action) := fun _ => rfl
    exact hchecked.and_then fun _ => hnotices

/-- Everything goes well, and the parts are put together. -/
theorem result_eq_ok_iff {x : Resource} : d.result = .ok x ↔ ∃ m notifications,
    d.scope.Overrides d.settings d.identity m ∧
      (∀ actions, d.Takes actions → ∀ a ∈ actions, a ∈ d.kind.actions) ∧
      List.Forall₂ d.Makes d.notices notifications ∧
      ⟨d.kind, d.name, d.recipe, m, notifications, none, none⟩ = x := by
  simp only [result, Except.bind_eq_ok_iff, override_eq_ok_iff, notices_eq_ok_iff]
  constructor
  · rintro ⟨m, hm, ⟨⟩, hchecked, notifications, hnotifications, ⟨⟩⟩
    exact ⟨m, notifications, hm, (checked_eq_ok_iff hm).mp hchecked, hnotifications, rfl⟩
  · rintro ⟨m, notifications, hm, hactions, hnotifications, rfl⟩
    exact ⟨m, hm, (), (checked_eq_ok_iff hm).mpr hactions, notifications, hnotifications, rfl⟩

/-- The resource that is declared is the one that the declaration comes to. -/
theorem declares_iff {x : Resource} : d.Declares x ↔ d.result = .ok x := by
  rw [result_eq_ok_iff]
  constructor
  · intro h
    refine ⟨x.attributes, x.notifications, h.attributes, fun actions hactions => ?_,
      h.notifications, ?_⟩
    · have hsame : actions = x.actions :=
        ((takes_iff h.attributes).mp hactions).trans ((takes_iff h.attributes).mp h.actions).symm
      exact hsame ▸ h.accepted
    · rw [← h.kind, ← h.name, ← h.recipe, ← h.directory, ← h.node]
  · rintro ⟨m, notifications, hm, hactions, hnotifications, rfl⟩
    have htakes : d.Takes (d.actionsOf m) := (takes_iff hm).mpr rfl
    exact ⟨rfl, rfl, rfl, hm, htakes, hactions _ htakes, hnotifications, rfl, rfl⟩

/-- The settings come to some attributes exactly if every one of them resolves. -/
theorem exists_overrides_iff : (∃ m, d.scope.Overrides d.settings d.identity m) ↔
    ∀ e ∈ d.settings.entries, ∃ v, d.scope.resolved e.2 = .ok v := by
  simp only [← override_eq_ok_iff, OrderedMap.isOk_override_iff, setting_eq_ok_iff]

/-- Nothing is wrong with a declaration exactly if a resource comes of it. -/
theorem acceptable_iff : d.Acceptable ↔ ∃ x, d.result = .ok x := by
  have hnotices : (∀ n ∈ d.notices, d.Admits n) ↔
      ∃ notifications, List.Forall₂ d.Makes d.notices notifications := by
    simp only [← notices_eq_ok_iff, Except.isOk_mapM_iff, admits_iff]
  simp only [result_eq_ok_iff]
  constructor
  · rintro ⟨hsettings, hactions, hall⟩
    obtain ⟨m, hm⟩ := exists_overrides_iff.mpr hsettings
    obtain ⟨notifications, hnotifications⟩ := hnotices.mp hall
    exact ⟨_, m, notifications, hm, hactions, hnotifications, rfl⟩
  · rintro ⟨x, m, notifications, hm, hactions, hnotifications, -⟩
    exact ⟨exists_overrides_iff.mp ⟨m, hm⟩, hactions, hnotices.mpr ⟨notifications, hnotifications⟩⟩

/-- The first thing that is wrong with a declaration is the failure that it comes to. -/
theorem refuses_iff : d.Refuses f ↔ d.result = .error f := by
  have hoverride : d.identity.override d.setting d.settings.entries = .error f ↔
      ∃ before e after, d.settings.entries = before ++ e :: after ∧
        (∀ other ∈ before, ∃ v, d.scope.resolved other.2 = .ok v) ∧
          ∃ u, d.scope.resolved e.2 = .error u ∧ .undefined u = f := by
    simp only [OrderedMap.override_eq_error_iff, setting, Except.mapError_eq_ok_iff,
      Except.mapError_eq_error_iff]
  have hnotices : d.notices.mapM d.notice = .error f ↔ ∃ before n after,
      d.notices = before ++ n :: after ∧ (∀ other ∈ before, d.Admits other) ∧
        d.notice n = .error f := by
    simp only [Except.mapM_eq_error_iff, admits_iff]
  -- Settings are made before actions are checked, and these before any notification is made.
  simp only [result, Except.bind_eq_error_iff, override_eq_ok_iff, hoverride, hnotices]
  constructor
  · rintro (⟨h, hbefore, hu⟩ | ⟨hsettings, h, hbefore, ha⟩ | ⟨hsettings, hactions, h, hbefore, hu⟩ |
      ⟨hsettings, hactions, h, hbefore, htarget, ht⟩)
    · exact .inl ⟨_, _, _, h, hbefore, _, hu, rfl⟩
    · obtain ⟨m, hm⟩ := exists_overrides_iff.mpr hsettings
      have hchecked := (checked_eq_error_iff hm).mpr ⟨_, _, _, h, hbefore, ha, rfl⟩
      exact .inr ⟨m, hm, .inl hchecked⟩
    · obtain ⟨m, hm⟩ := exists_overrides_iff.mpr hsettings
      have hn := notice_eq_error_iff.mpr (.inl ⟨_, hu, rfl⟩)
      exact .inr ⟨m, hm, .inr ⟨(), (checked_eq_ok_iff hm).mpr hactions,
        .inl ⟨_, _, _, h, hbefore, hn⟩⟩⟩
    · obtain ⟨m, hm⟩ := exists_overrides_iff.mpr hsettings
      have hn := notice_eq_error_iff.mpr (.inr ⟨_, htarget, ht, rfl⟩)
      exact .inr ⟨m, hm, .inr ⟨(), (checked_eq_ok_iff hm).mpr hactions,
        .inl ⟨_, _, _, h, hbefore, hn⟩⟩⟩
  · rintro (⟨before, e, after, h, hbefore, u, hu, rfl⟩ | ⟨m, hm, hrest⟩)
    · exact .attribute h hbefore hu
    · have hsettings := exists_overrides_iff.mp ⟨m, hm⟩
      rcases hrest with hchecked | ⟨⟨⟩, hchecked, hnotice⟩
      · obtain ⟨before, a, after, h, hbefore, ha, rfl⟩ := (checked_eq_error_iff hm).mp hchecked
        exact .action hsettings h hbefore ha
      · have hactions := (checked_eq_ok_iff hm).mp hchecked
        obtain ⟨before, n, after, h, hbefore, hn⟩ | ⟨_, _, ⟨⟩⟩ := hnotice
        rcases notice_eq_error_iff.mp hn with ⟨u, hu, rfl⟩ | ⟨target, htarget, ht, rfl⟩
        · exact .target hsettings hactions h hbefore hu
        · exact .timing hsettings hactions h hbefore htarget ht

end Declaration

/-! ### In a run -/

/-- What comes of a run in which something is built. A failure stops it where it is, but a wrong
timing is logged and ends it altogether. -/
def Evaluation.built {α : Type} (t : Evaluation) : Except Failure α → Except Stop α × Evaluation
  | .ok a => (.ok a, t)
  | .error (.notification (.invalidTiming word)) =>
    (.error (.abort (.invalidTiming word)),
      { t with log := t.log ++
        [⟨.error, .notification, (Notification.Failure.invalidTiming word).message⟩] })
  | .error f => (.error (.failure f), t)

/-- A run that builds a value with a known result has that result for its outcome. -/
theorem Run.outcome_building_of_gives {α : Type} {x : Building α} {result : Except Failure α}
    (h : Reads.Gives x result) (t : Evaluation) : (building x).outcome t = t.built result := by
  have hrun : StateT.run x.run t.reads = (result, t.reads) := h t.reads
  rw [building, outcome_bind, outcome_reading, hrun]
  rcases result with (_ | _ | _ | _ | _ | _ | _ | _ | _ | _ | (_ | _ | _)) | a
  all_goals rfl

/-- In a scope of constants, a declaration makes a resource exactly if nothing is wrong with it,
and that is the one that is declared. Otherwise the first thing that is wrong is the failure. In
a run it is the same. -/
theorem Declaration.make_exact (d : Declaration) (hs : d.scope.Constant) :
    ∃ result, Reads.Gives (Resource.make d.kind d.name d.recipe d.scope d.block) result ∧
      ((∃ x, result = .ok x) ↔ d.Acceptable) ∧
      (∀ x, result = .ok x ↔ d.Declares x) ∧
      (∀ f, result = .error f ↔ d.Refuses f) ∧
      ∀ t, (Run.building (Resource.make d.kind d.name d.recipe d.scope d.block)).outcome t =
        t.built result :=
  ⟨d.result, make_gives hs, acceptable_iff.symm, fun _ => declares_iff.symm,
    fun _ => refuses_iff.symm, Run.outcome_building_of_gives (make_gives hs)⟩

/-- A package with two actions and a notification, the attribute for its name being set as well. -/
def Declaration.editor (action : String) : Declaration :=
  ⟨.package, "vim", 0, .single,
    some ⟨OrderedMap.ofList [("name", .string "\x7b\x7ba\x7d\x7d"),
      ("action", .sequence [.string "install", .string action])],
      [⟨"restart", "service[\x7b\x7ba\x7d\x7d]", "delayed"⟩]⟩⟩

/-- A package with a notification at a time that there is not. -/
def Declaration.untimely : Declaration :=
  ⟨.package, "vim", 0, .single, some ⟨{}, [⟨"restart", "service[\x7b\x7ba\x7d\x7d]", "soon"⟩]⟩⟩

/-- The name is kept where its attribute is not, the target is resolved, and the actions are in
order. An action that packages do not have is a failure, and a wrong timing ends the run. -/
theorem Declaration.make_exact_editor :
    Scope.single.Constant ∧
      Reads.Gives (Resource.make .package "vim" 0 .single (editor "remove").block)
        (.ok ⟨.package, "vim", 0, OrderedMap.ofList [("name", .int 1),
          ("action", .sequence [.string "install", .string "remove"])],
          [⟨0, "restart", "service[1]", .delayed⟩], none, none⟩) ∧
      Reads.Gives (Resource.make .package "vim" 0 .single (editor "upgrade").block)
        (.error (.unsupportedAction "package[vim]" "upgrade" ["install", "remove", "nothing"])) ∧
      ∀ t, ((Run.building (Resource.make .package "vim" 0 .single untimely.block)).outcome t).1 =
        .error (.abort (.invalidTiming "soon")) := by
  have hs := Scope.constant_single
  have hname : Scope.single.resolved (.string "\x7b\x7ba\x7d\x7d") = .ok (.int 1) :=
    (hs.resolve_whole (show wholePlaceholder? _ = some "a" from rfl)).unique (hs.resolve_gives _)
  have htarget : Scope.single.resolvedText "service[\x7b\x7ba\x7d\x7d]" = .ok "service[1]" := by
    obtain ⟨pieces, hunique, -, hgives⟩ :=
      hs.resolveText_splits "service[\x7b\x7ba\x7d\x7d]"
    have hsplits : Template.Splits "service[\x7b\x7ba\x7d\x7d]".toList
        [.literal "service[".toList, .placeholder "a", .literal [']']] :=
      @Template.Splits.placeholder "service[".toList ['a'] _ _ (by decide) (by decide)
        (Template.splits_of_not_mem (by decide))
    cases (hunique _).mp hsplits
    exact hgives.unique (hs.resolveText_gives _)
  have haction : Scope.single.resolved (.sequence [.string "install", .string "remove"]) =
      .ok (.sequence [.string "install", .string "remove"]) := hs.resolved_self (by decide)
  have haction' : Scope.single.resolved (.sequence [.string "install", .string "upgrade"]) =
      .ok (.sequence [.string "install", .string "upgrade"]) := hs.resolved_self (by decide)
  refine ⟨hs, ?_, ?_, fun t => ?_⟩
  · obtain ⟨result, hgives, -, hdeclares, -⟩ := (editor "remove").make_exact hs
    have hresult := (hdeclares ⟨.package, "vim", 0, OrderedMap.ofList [("name", .int 1),
      ("action", .sequence [.string "install", .string "remove"])],
      [⟨0, "restart", "service[1]", .delayed⟩], none, none⟩).mpr
      { kind := rfl
        name := rfl
        recipe := rfl
        attributes := by
          refine ⟨by decide, fun name v hv => ?_, fun name hnone => ?_⟩
          · have hmem := (OrderedMap.find?_eq_some_iff (editor "remove").settings.nodup).mp hv
            rcases List.mem_pair.mp hmem with h | h <;> cases h
            · exact ⟨_, hname, rfl⟩
            · exact ⟨_, haction, rfl⟩
          · have hnew : name ∉ ["name", "action"] := OrderedMap.find?_eq_none_iff.mp hnone
            have hnew' : name ∉ ["name"] := fun h => hnew (List.mem_append_left ["action"] h)
            exact (OrderedMap.find?_eq_none_iff.mpr hnew).trans
              (OrderedMap.find?_eq_none_iff.mpr hnew').symm
        actions := .list rfl haction
        accepted := by
          have hactions : [Value.string "install", .string "remove"].map Value.text =
              ["install", "remove"] := by decide +kernel
          change ∀ a ∈ [Value.string "install", .string "remove"].map Value.text,
            a ∈ Kind.package.actions
          rw [hactions]
          decide
        notifications := .cons ⟨rfl, rfl, htarget, rfl⟩ .nil
        directory := rfl
        node := rfl }
    exact hresult ▸ hgives
  · obtain ⟨result, hgives, -, -, hrefuses, -⟩ := (editor "upgrade").make_exact hs
    have hattributes : ∀ e ∈ (editor "upgrade").settings.entries,
        ∃ v, Scope.single.resolved e.2 = .ok v := by
      intro e he
      rcases List.mem_pair.mp he with rfl | rfl
      · exact ⟨_, hname⟩
      · exact ⟨_, haction'⟩
    have hactions : [Value.string "install", .string "upgrade"].map Value.text =
        ["install"] ++ ["upgrade"] := by decide +kernel
    have htakes : (editor "upgrade").Takes (["install"] ++ ["upgrade"]) :=
      hactions ▸ .list rfl haction'
    have hresult := (hrefuses _).mpr (.action hattributes htakes (by decide) (by decide))
    exact hresult ▸ hgives
  · obtain ⟨result, -, -, -, hrefuses, hrun⟩ := untimely.make_exact hs
    have hactions (actions : List String) (hactions : untimely.Takes actions) :
        ∀ a ∈ actions, a ∈ Kind.package.actions := by
      rcases hactions with ⟨hset, -⟩ | ⟨hset, -⟩ | -
      · cases hset
      · cases hset
      · decide
    have hword : ∀ t : Timing, t.text ≠ "soon" := by
      intro t
      cases t <;> decide
    have hresult := (hrefuses _).mpr
      (@Refuses.timing untimely [] [] _ _ nofun hactions rfl nofun htarget hword)
    rw [hresult] at hrun
    exact congrArg Prod.fst (hrun t)

end Provision
