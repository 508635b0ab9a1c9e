import Provision.Proofs.ApplyOrder

/-!
# The register of definitions

The definitions of a run are the record of those that were executed, wherever that was and
however it ended: one entry for each name, in the order in which the names were first defined,
and under each name the definition that was executed last. So a keyword stands for its kind or
else for the definition that was executed last under it. A declaration of any other keyword
fails at once, and nothing else makes it fail in that way: a name that stands for something
goes on doing so, and the bodies that are expanded pass on the failures of other names only,
unless one of them makes up such a failure itself.
-/

namespace Provision

/-! ### The definitions that were executed -/

/-- Of one more item, the first occurrence is the new one only if there was none before. -/
theorem eraseDups_concat {α : Type} [DecidableEq α] (l : List α) (a : α) :
    (l ++ [a]).eraseDups = if a ∈ l then l.eraseDups else l.eraseDups ++ [a] := by
  rw [List.eraseDups_append, List.removeAll]
  split
  · rename_i h
    simp [h]
  · rename_i h
    simp only [List.elem_eq_mem, List.filter_cons, h, decide_false, Bool.not_false, if_true,
      List.filter_nil]
    rfl

/-- The definition that an event registers. -/
def Event.definition? : Event → Option Definition
  | .define d => some d
  | _ => none

namespace Progress

/-- The definitions that have been executed so far, oldest first. -/
def executed (p : Progress) : List Definition := p.journal.filterMap Event.definition?

/-- The definition of a name that was executed last. -/
def latest? (p : Progress) (name : String) : Option Definition :=
  p.executed.reverse.find? (·.name = name)

/-- An event executes the definition that it registers, and no other. -/
theorem executed_after (p : Progress) (e : Event) :
    (p.after e).executed = p.executed ++ e.definition?.toList := by
  rw [executed, after_journal, List.filterMap_append, executed]
  cases h : e.definition? <;> simp [h]

/-- The definitions are the record of what was executed. -/
structure Recorded (p : Progress) : Prop where
  /-- The names stand there in the order in which they were first defined. -/
  names : p.definitions.keys = (p.executed.map (·.name)).eraseDups
  /-- Under each name is the definition that was executed last. -/
  entries : ∀ name, p.definitions.get? name = p.latest? name
  /-- No name is a word of the recipe language. -/
  free : ∀ name ∈ p.definitions.keys, Kind.isReserved name = false

variable {p : Progress}

/-- What touches neither the definitions nor those executed leaves the record right. -/
theorem Recorded.quiet (h : p.Recorded) {q : Progress}
    (hdefinitions : q.definitions = p.definitions) (hexecuted : q.executed = p.executed) :
    q.Recorded := by
  refine ⟨?_, fun name => ?_, ?_⟩
  · rw [hdefinitions, hexecuted]
    exact h.names
  · rw [hdefinitions, latest?, hexecuted]
    exact h.entries name
  · rw [hdefinitions]
    exact h.free

/-- A definition is put on record. -/
theorem Recorded.define (h : p.Recorded) {d : Definition} (hd : Kind.isReserved d.name = false) :
    (p.after (.define d)).Recorded := by
  have hexecuted : (p.after (.define d)).executed = p.executed ++ [d] := p.executed_after _
  have hkeys : (p.after (.define d)).definitions.keys =
      if d.name ∈ p.definitions.keys then p.definitions.keys
      else p.definitions.keys ++ [d.name] := OrderedMap.keys_insert _ _ _
  refine ⟨?_, fun name => ?_, fun name hname => ?_⟩
  · rw [hkeys, hexecuted, List.map_append, List.map_singleton, eraseDups_concat, h.names]
    simp only [List.mem_eraseDups]
  · have hget : (p.after (.define d)).definitions.get? name =
        if d.name = name then some d else p.definitions.get? name := OrderedMap.get?_insert _ _ _ _
    rw [hget, latest?, hexecuted, List.reverse_append, List.reverse_singleton,
      List.singleton_append, List.find?_cons, h.entries]
    by_cases hd : d.name = name <;> simp [hd, latest?]
  · rw [hkeys] at hname
    split at hname
    · exact h.free name hname
    · rcases List.mem_append.mp hname with hold | hnew
      · exact h.free name hold
      · rw [List.mem_singleton.mp hnew]
        exact hd

/-- The record stays right with every event that defines no reserved name. -/
theorem Recorded.after (h : p.Recorded) {e : Event}
    (hfree : ∀ d, e = .define d → Kind.isReserved d.name = false) : (p.after e).Recorded := by
  cases e with
  | define d => exact h.define (hfree d rfl)
  | root | child | resource | enter | leave | act =>
    exact h.quiet rfl ((p.executed_after _).trans (List.append_nil _))

/-- No event takes a name away. -/
theorem keys_after (p : Progress) (e : Event) :
    p.definitions.keys <+: (p.after e).definitions.keys := by
  cases e with
  | define d =>
    change _ <+: (p.definitions.insert d.name d).keys
    rw [OrderedMap.keys_insert]
    split
    · exact List.prefix_rfl
    · exact List.prefix_append _ _
  | root | child | resource | enter | leave | act => exact List.prefix_rfl

/-- Names are only ever added, and behind the others. -/
theorem keys_replay (p : Progress) (es : List Event) :
    p.definitions.keys <+: (p.replay es).definitions.keys := by
  induction es generalizing p with
  | nil => exact List.prefix_rfl
  | cons e es ih => exact (p.keys_after e).trans (ih _)

/-- Whatever happens, the definitions are the record at every moment, if every name that is
defined is free. -/
theorem Recorded.replay (h : p.Recorded) {es : List Event}
    (hfree : ∀ d, .define d ∈ es → Kind.isReserved d.name = false) :
    Throughout (fun q _ => q.Recorded) p es ∧ (p.replay es).Recorded := by
  induction es generalizing p with
  | nil => exact ⟨trivial, h⟩
  | cons e es ih =>
    have hafter := h.after (e := e) fun d hd => hfree d (hd ▸ List.mem_cons_self)
    obtain ⟨hmoments, hend⟩ := ih hafter fun d hd => hfree d (List.mem_cons_of_mem _ hd)
    exact ⟨⟨h, hmoments⟩, hend⟩

end Progress

/-- Only free names are defined while a recipe is built. -/
theorem Course.free {p : Progress} {c : Context} {es : List Event} (h : Course p c es)
    {d : Definition} (hd : .define d ∈ es) : Kind.isReserved d.name = false := by
  induction h with
  | nil | act | resource | unread => simp at hd
  | append _ _ ih ih' => exact (List.mem_append.mp hd).elim ih ih'
  | define p c d' free =>
    cases List.mem_singleton.mp hd
    exact free
  | expand definition name v _ ih => exact ih (by simpa using hd)
  | included _ _ _ ih => exact ih (by simpa using hd)

/-- A load defines no reserved name. -/
theorem Loading.free {p : Progress} {scope : Scope} {es : List Event} (h : Loading p scope es)
    {d : Definition} (hd : .define d ∈ es) : Kind.isReserved d.name = false := by
  cases h with
  | refused | cyclic => simp at hd
  | evaluated _ inner => exact inner.free (by simpa using hd)

/-! ### Failures of building -/

namespace Building

variable {α β : Type} {P : Failure → Prop}

/-- Resolving something fails with a placeholder without a value. -/
theorem failsOnly_adapt {x : ExceptT Undefined (StateM Reads) α}
    (h : ∀ u, P (.undefined u)) : FailsOnly P (ExceptT.adapt Failure.undefined x) := by
  intro reads f hf
  change (x.run.run reads).1.mapError _ = _ at hf
  rcases hr : x.run.run reads with ⟨u | v, reads'⟩
  · rw [hr] at hf
    cases hf
    exact h u
  · rw [hr] at hf
    cases hf

/-- Building the items of a list fails only as building one of them does. -/
theorem failsOnly_mapM {k : α → Building β} (hk : ∀ a, (k a).FailsOnly P) (list : List α) :
    (list.mapM k).FailsOnly P := by
  induction list with
  | nil =>
    rw [List.mapM_nil]
    exact failsOnly_pure []
  | cons a rest ih =>
    rw [List.mapM_cons]
    exact (hk a).bind fun _ => ih.bind fun _ => failsOnly_pure _

end Building

/-- A declaration of a resource fails with a placeholder without a value, with an action that
the kind does not accept, or with a notification. -/
theorem Resource.make_failsOnly (kind : Kind) (name : String) (recipe : Nat) (s : Scope)
    (block : Option Block) : (make kind name recipe s block).FailsOnly fun f =>
      (∃ u, f = .undefined u) ∨ (∃ r a as, f = .unsupportedAction r a as) ∨
        ∃ n, f = .notification n := by
  have hnotify (n : Notice) : (notify recipe s n).FailsOnly fun f =>
      (∃ u, f = .undefined u) ∨ (∃ r a as, f = .unsupportedAction r a as) ∨
        ∃ n, f = .notification n := by
    refine (Building.failsOnly_adapt fun u => .inl ⟨u, rfl⟩).bind fun target => ?_
    cases Notification.make recipe n.action target n.timing with
    | ok n => exact Building.failsOnly_pure n
    | error f => exact Building.failsOnly_throw (.inr (.inr ⟨f, rfl⟩))
  have hnotices (list : List Notice) := Building.failsOnly_mapM hnotify list
  refine (Building.failsOnly_foldlM (fun m e => ?_) _ _).bind fun attributes => ?_
  · exact (Building.failsOnly_adapt fun u => .inl ⟨u, rfl⟩).bind
      fun _ => Building.failsOnly_pure _
  · cases attributes.get? "action" with
    | none => exact (hnotices _).bind fun _ => Building.failsOnly_pure _
    | some action =>
      refine Building.FailsOnly.bind ?_ fun _ =>
        (hnotices _).bind fun _ => Building.failsOnly_pure _
      intro reads f hf
      change checkActions kind name action = .error f at hf
      rw [checkActions] at hf
      split at hf
      · cases hf
        exact .inr (.inl ⟨_, _, _, rfl⟩)
      · cases hf

/-! ### Failures that are made up -/

mutual

/-- A body takes operations and passes on their failures, but does not make up the failure that
a keyword stands for nothing. -/
def Body.Honest (keyword : String) : Body → Prop
  | .statements _ => True
  | .steps list => Step.HonestAll keyword list

/-- A step does not make the failure up. It may pass one on that it has caught. -/
def Step.Honest (keyword : String) : Step → Prop
  | .define _ _ body => body.Honest keyword
  | .fail f => f ≠ .unknownOperation keyword
  | .attempt first next =>
    first.Honest keyword ∧
      ∀ answer, answer ≠ .error (.unknownOperation keyword) → Step.HonestAll keyword (next answer)
  | _ => True

/-- No step of a list makes the failure up. -/
def Step.HonestAll (keyword : String) : List Step → Prop
  | [] => True
  | st :: rest => st.Honest keyword ∧ Step.HonestAll keyword rest

end

/-- No step of a list makes the failure up exactly if none of its items does. -/
theorem Step.honestAll_iff {keyword : String} {list : List Step} :
    HonestAll keyword list ↔ ∀ st ∈ list, st.Honest keyword := by
  induction list with
  | nil => simp [HonestAll]
  | cons st rest ih => rw [HonestAll, ih, List.forall_mem_cons]

namespace Definitions

/-- No definition makes up the failure that a keyword stands for nothing. -/
def Honest (keyword : String) (ds : Definitions) : Prop :=
  ∀ name d, ds.get? name = some d → d.body.Honest keyword

/-- A keyword stands for something. -/
def Knows (ds : Definitions) (keyword : String) : Prop :=
  Kind.ofKeyword? keyword = none → ds.get? keyword ≠ none

variable {ds : Definitions} {keyword : String}

/-- Definitions stay honest when an honest one is registered. -/
theorem Honest.register (h : ds.Honest keyword) {d : Definition} (hd : d.body.Honest keyword) :
    Honest keyword (ds.register d) := OrderedMap.forall_insert h hd

/-- What stands for something goes on doing so. -/
theorem Knows.register (h : ds.Knows keyword) (d : Definition) :
    Knows (ds.register d) keyword := by
  intro hkind
  change (ds.insert d.name d).get? keyword ≠ none
  rw [OrderedMap.get?_insert]
  split
  · exact nofun
  · exact h hkind

end Definitions

/-- Where a keyword stands for something and no definition makes up that it does not, a
computation does not fail in that way, and leaves it so. -/
def Run.Spares {α : Type} (keyword : String) (x : Run α) : Prop :=
  ∀ s : Evaluation, s.definitions.Knows keyword → s.definitions.Honest keyword →
    (x.outcome s).1 ≠ .error (.failure (.unknownOperation keyword)) ∧
      (x.outcome s).2.definitions.Knows keyword ∧ (x.outcome s).2.definitions.Honest keyword

namespace Run

variable {α β : Type} {keyword : String}

/-- A computation that does not fail in that way and keeps the definitions. -/
theorem spares_of_quiet {x : Run α}
    (h : ∀ s, (x.outcome s).1 ≠ .error (.failure (.unknownOperation keyword)))
    (hquiet : ∀ s, (x.outcome s).2.definitions = s.definitions) : x.Spares keyword := by
  intro s hknows hhonest
  rw [hquiet]
  exact ⟨h s, hknows, hhonest⟩

/-- A value does not fail. -/
theorem spares_pure (a : α) : (pure a : Run α).Spares keyword :=
  spares_of_quiet (fun _ => nofun) fun _ => rfl

/-- An event does not fail, and one that defines nothing keeps the definitions. -/
theorem spares_happen {e : Event} (he : ∀ d, e ≠ .define d) : (happen e).Spares keyword := by
  refine spares_of_quiet (fun _ => nofun) fun s => ?_
  cases e with
  | define d => exact absurd rfl (he d)
  | root | child | resource | enter | leave | act => rfl

/-- To begin an operation does not fail. -/
theorem spares_act (c : Context) : (happen (.act c.recipe)).Spares keyword := by
  refine spares_happen fun d h => ?_
  cases h

/-- Any other failure spares the keyword. -/
theorem spares_fail {f : Failure} (hf : f ≠ .unknownOperation keyword) :
    (fail f : Run α).Spares keyword := by
  refine spares_of_quiet (fun s h => hf ?_) fun _ => rfl
  cases h
  rfl

/-- A failure of building something is the failure of the run. -/
theorem failure_of_building {x : Building α} {s : Evaluation} {f : Failure}
    (h : (outcome (building x) s).1 = .error (.failure f)) :
    (x.run.run s.reads).1 = .error f := by
  rw [building, outcome_bind, outcome_reading] at h
  rcases hr : StateT.run x.run s.reads with ⟨f' | a, reads⟩
  · rw [hr] at h
    rcases f' with _ | _ | _ | _ | _ | _ | _ | _ | _ | _ | (_ | _ | _)
    all_goals
      cases h
      try rfl
  · rw [hr] at h
    cases h

/-- Building spares the keyword if none of its failures is about it. -/
theorem spares_building {x : Building α} (hx : x.FailsOnly (· ≠ .unknownOperation keyword)) :
    (building x).Spares keyword :=
  spares_of_quiet (fun s h => hx s.reads _ (failure_of_building h) rfl)
    fun s => by rw [building_toProgress]

/-- Catching a failure takes nothing back, and it is not that one. -/
theorem Spares.attempt {x : Run α} (hx : x.Spares keyword) : x.attempt.Spares keyword := by
  intro s hknows hhonest
  obtain ⟨-, hknows', hhonest'⟩ := hx s hknows hhonest
  rw [outcome_attempt]
  rcases hr : x.outcome s with ⟨(f | f | _) | a, t⟩
  all_goals
    rw [hr] at hknows' hhonest'
    exact ⟨nofun, hknows', hhonest'⟩

/-- The answer to an attempt does not say that the keyword stands for nothing. -/
theorem Spares.attempt_ne {x : Run α} (hx : x.Spares keyword) {s t : Evaluation}
    (hknows : s.definitions.Knows keyword) (hhonest : s.definitions.Honest keyword)
    {answer : Except Failure α} (h : x.attempt.outcome s = (.ok answer, t)) :
    answer ≠ .error (.unknownOperation keyword) := by
  rintro rfl
  obtain ⟨hfails, -, -⟩ := hx s hknows hhonest
  rw [outcome_attempt] at h
  rcases hr : x.outcome s with ⟨(f | f | _) | a, t⟩
  all_goals
    rw [hr] at h hfails
    cases h
  exact hfails rfl

/-- What is done within a file spares the keyword if it does so elsewhere. -/
theorem Spares.within {x : Run α} (hx : x.Spares keyword) (path : Path) :
    (within path x).Spares keyword := by
  intro s hknows hhonest
  rw [outcome_within]
  split
  · exact ⟨nofun, hknows, hhonest⟩
  · exact hx (s.after (.enter path)) hknows hhonest

end Run

/-- An expansion that passes no such failure on from bodies that do not make it up. -/
def Expansion.Spares (keyword : String) (expand : Expansion) : Prop :=
  ∀ (c : Context) (body : Body), body.Honest keyword → (expand c body).Spares keyword

namespace Context

open Provision.Run

variable {host : Host} {expand : Expansion} {keyword : String}

/-- A declaration of a resource fails only as making the resource does. -/
theorem addResource_failure {c : Context} {kind : Kind} {name : String} {block : Option Block}
    {s : Evaluation} {f : Failure}
    (h : ((c.addResource kind name block).outcome s).1 = .error (.failure f)) :
    f ≠ .unknownOperation keyword := by
  rw [addResource, outcome_bind] at h
  rcases hr : (building (Resource.make kind name c.recipe c.scope block)).outcome s with
    ⟨stop | x, t⟩
  · rw [hr] at h
    cases h
    have hmade := failure_of_building (congrArg Prod.fst hr)
    intro hunknown
    subst hunknown
    rcases Resource.make_failsOnly _ _ _ _ _ _ _ hmade with ⟨u, h⟩ | ⟨r, a, as, h⟩ | ⟨n, h⟩ <;>
      cases h
  · rw [hr] at h
    simp only [outcome_bind, outcome_current] at h
    split at h <;> cases h

/-- No resource fails for a keyword that stands for nothing. -/
theorem addResource_spares (c : Context) (kind : Kind) (name : String) (block : Option Block) :
    (c.addResource kind name block).Spares keyword := by
  refine spares_of_quiet (fun s h => addResource_failure h rfl) fun s => ?_
  rcases c.outcome_addResource kind name block s with ⟨x, t, hr, -, ht⟩ | ⟨stop, t, hr, ht⟩
  · rw [hr, ht]
    rfl
  · rw [hr, ht]

/-- To ask for the meaning of a keyword does not fail. -/
theorem meaning?_spares (other : String) : (meaning? other).Spares keyword :=
  spares_of_quiet (fun s => by rw [outcome_meaning?]; exact nofun)
    fun s => by rw [outcome_meaning?]

/-- A definition with an honest body is registered, or it fails for its reserved name. -/
theorem define_spares {d : Definition} (hd : d.body.Honest keyword) :
    (define d).Spares keyword := by
  intro s hknows hhonest
  rw [outcome_define]
  split
  · exact ⟨nofun, hknows, hhonest⟩
  · exact ⟨nofun, hknows.register d, hhonest.register hd⟩

/-- An invocation spares the keyword if the body is honest. -/
theorem invoke_spares (hexpand : expand.Spares keyword) (c : Context) {d : Definition}
    (hd : d.body.Honest keyword) (name : String) (block : Option Block) :
    (c.invoke expand d name block).Spares keyword := by
  intro s hknows hhonest
  cases hattributes : ((d.attributes c.scope name block).run.run s.reads).1 with
  | error f =>
    obtain ⟨t, hr, ht⟩ := c.outcome_invoke_error expand hattributes
    rw [hr, ht]
    refine ⟨fun h => ?_, hknows, hhonest⟩
    cases h
    rcases d.attributes_failsOnly c.scope name block s.reads _ hattributes with ⟨_, hf⟩ | ⟨_, hf⟩
    · cases hf
    · cases hf
  | ok a =>
    obtain ⟨log, hr⟩ := c.outcome_invoke expand hattributes
    rw [hr]
    exact hexpand _ _ hd _ hknows hhonest

/-- So does an inclusion, the statements of which are always honest. -/
theorem includeRecipe_spares (hexpand : expand.Spares keyword) (c : Context) (target : String) :
    (c.includeRecipe host expand target).Spares keyword := by
  have hfile (path : Path) : (c.includeFile host expand path).Spares keyword := by
    intro s hknows hhonest
    rw [outcome_includeFile]
    cases hread : host.recipe path with
    | error f =>
      refine ⟨fun h => ?_, hknows, hhonest⟩
      cases h
      rcases Host.recipe_error hread with ⟨_, hf⟩ | ⟨_, hf⟩ | ⟨_, hf⟩ <;> cases hf
    | ok list => exact hexpand _ _ (by rw [Body.Honest]; trivial) _ hknows hhonest
  intro s hknows hhonest
  rw [outcome_includeRecipe]
  dsimp only
  split
  · exact ⟨nofun, hknows, hhonest⟩
  · split
    · exact ⟨nofun, hknows, hhonest⟩
    · exact (hfile _).within _ s hknows hhonest

/-- Of a run it is said that it does not fail in that way, and leaves it so. -/
def sparing (keyword : String) : Assertion where
  Kept s := s.definitions.Knows keyword ∧ s.definitions.Honest keyword
  Holds x s := (x.outcome s).1 ≠ .error (.failure (.unknownOperation keyword)) ∧
    (x.outcome s).2.definitions.Knows keyword ∧ (x.outcome s).2.definitions.Honest keyword
  pure a s hs := spares_pure a s hs.1 hs.2
  kept _ hx hr := by
    rw [hr] at hx
    exact hx.2
  bind {_ _ x f s} hx hf := by
    rw [outcome_bind]
    rcases hr : x.outcome s with ⟨stop | a, t⟩
    · rw [hr] at hx
      refine ⟨fun h => hx.1 ?_, hx.2⟩
      cases h
      rfl
    · exact hf a t hr

/-- What spares the keyword does so from every state for which the rest holds. -/
theorem sparing_of_spares {α : Type} {x : Run α} (h : x.Spares keyword) :
    (sparing keyword).judgement.Holds Common fun _ => x :=
  Assertion.common fun s hs => h s hs.1 hs.2

/-- None of the operations fails in that way, but for steps that make the failure up. -/
theorem steps_sparing (host : Host) (hexpand : expand.Spares keyword) (c : Context) :
    (sparing keyword).judgement.Steps host (fun _ => expand) (fun _ => c) (fun _ => True)
      (Body.Honest keyword) (Step.Honest keyword) (fun _ => True)
      fun answer => answer () ≠ .error (.unknownOperation keyword) where
  act := sparing_of_spares (spares_act c)
  identifier _ _ _ _ :=
    sparing_of_spares (spares_building (Building.failsOnly_adapt fun _ => nofun))
  meaning other _ _ _ s hs := by
    obtain ⟨hknows, hhonest⟩ := hs
    have hmeaning := outcome_meaning? other s
    refine ⟨meaning?_spares other s hknows hhonest, fun meaning t hr => ?_⟩
    cases hmeaning.symm.trans hr
    refine ⟨_, rfl, fun hnone => ?_, fun d hd => ?_⟩
    · -- A keyword that stands for something is another one.
      refine sparing_of_spares (spares_fail fun hsame => ?_)
      cases hsame
      cases hkind : Kind.ofKeyword? keyword with
      | some kind => simp [hkind] at hnone
      | none => exact hknows hkind (by simpa [hkind] using hnone)
    · cases hkind : Kind.ofKeyword? other with
      | some kind => simp [hkind] at hd
      | none => exact hhonest other d (by simpa [hkind] using hd)
  resource _ _ block _ kind name := sparing_of_spares (c.addResource_spares kind name block)
  invoke _ _ block _ d hd name := sparing_of_spares (c.invoke_spares hexpand hd name block)
  define _ _ _ _ := sparing_of_spares (define_spares (by rw [Body.Honest]; trivial))
  target _ _ := sparing_of_spares (spares_building (Building.failsOnly_adapt fun _ => nofun))
  inclusion _ _ resolved := sparing_of_spares (c.includeRecipe_spares hexpand resolved)
  performs _ _ _ := trivial
  same _ := trivial
  register name parameters body h := by
    rw [Step.Honest] at h
    exact sparing_of_spares (define_spares h)
  fail f h := by
    rw [Step.Honest] at h
    exact Assertion.holds (fun _ => trivial) fun s hs => spares_fail h s hs.1 hs.2
  read _ := sparing_of_spares (spares_of_quiet (fun _ => nofun) fun _ => rfl)
  call _ _ := sparing_of_spares (spares_of_quiet (fun _ => nofun) fun _ => rfl)
  current := Assertion.holds (fun _ => trivial) fun s hs => spares_pure _ s hs.1 hs.2
  attempt {x} hx s hs := by
    have hspares : (x ()).Spares keyword := fun s hknows hhonest => (hx s ⟨hknows, hhonest⟩).1
    exact ⟨hspares.attempt s hs.1 hs.2, fun _ _ => hspares.attempt_ne hs.1 hs.2⟩
  record {answer} hanswer := by
    refine sparing_of_spares (spares_of_quiet (fun s h => hanswer ?_) fun s => ?_)
    · cases hr : answer () with
      | ok a =>
        rw [hr] at h
        cases h
      | error f =>
        rw [hr] at h
        cases h
        rfl
    · cases answer () <;> rfl
  next first next h := by
    rw [Step.Honest] at h
    refine ⟨h.1, fun answer hanswer => ⟨(answer ()).map (·.observation), ?_, fun _ => rfl⟩⟩
    refine Step.honestAll_iff.mp (h.2 _ ?_)
    cases hr : answer () with
    | ok a => exact nofun
    | error f => exact fun hf => hanswer (hr.trans (congrArg _ (Except.error.inj hf)))

/-- A keyword that stands for something is declared without that failure, whatever else is declared
in between. -/
theorem declare_spares (hexpand : expand.Spares keyword) (host : Host) (c : Context)
    (other name : String) (block : Option Block) :
    (c.declare expand other name block).Spares keyword := fun s hknows hhonest =>
  ((c.steps_sparing host hexpand).declare other name block trivial name s ⟨hknows, hhonest⟩).1

/-- Bodies that do not make the failure up are built without it, nested to any depth. -/
theorem build_spares (host : Host) (depth : Nat) : (build host depth).Spares keyword := by
  induction depth with
  | zero => exact fun c body _ => spares_of_quiet (fun _ => nofun) fun _ => rfl
  | succ depth ih =>
    intro c body hbody
    cases body with
    | statements list =>
      intro s hknows hhonest
      exact ((c.steps_sparing host ih).performAll (fun _ _ => trivial) s ⟨hknows, hhonest⟩).1
    | steps list =>
      rw [Body.Honest] at hbody
      intro s hknows hhonest
      exact ((c.steps_sparing host ih).stepAll (Step.honestAll_iff.mp hbody) s
        ⟨hknows, hhonest⟩).1

/-- A declaration fails at once, without doing anything, exactly if its keyword stands for
nothing. -/
theorem declare_unknown_iff (host : Host) (depth : Nat) (c : Context) (name : String)
    (block : Option Block) (s : Evaluation) :
    (c.declare (build host depth) keyword name block).outcome s =
        (.error (.failure (.unknownOperation keyword)), s) ↔
      Kind.ofKeyword? keyword = none ∧ s.definitions.get? keyword = none := by
  rw [outcome_declare]
  constructor
  · intro h
    cases hkind : Kind.ofKeyword? keyword with
    | some kind =>
      rw [hkind] at h
      exact absurd rfl (addResource_failure (congrArg Prod.fst h))
    | none =>
      refine ⟨rfl, ?_⟩
      cases hd : s.definitions.get? keyword with
      | none => rfl
      | some d =>
        rw [hkind, hd] at h
        dsimp only at h
        cases hattributes : ((d.attributes c.scope name block).run.run s.reads).1 with
        | error f =>
          obtain ⟨t, hr, -⟩ := c.outcome_invoke_error (build host depth) hattributes
          rw [hr] at h
          cases h
          rcases d.attributes_failsOnly c.scope name block s.reads _ hattributes with
            ⟨_, hf⟩ | ⟨_, hf⟩ <;> cases hf
        | ok a =>
          -- The recipe of the invocation has been begun, and the journal knows of it.
          obtain ⟨log, hr⟩ := c.outcome_invoke (build host depth) hattributes
          obtain ⟨es, -, hend⟩ := build_follows host depth (c.invoked s a) d.body
            (c.invocation d name { s with
              log, reads := ((d.attributes c.scope name block).run.run s.reads).2 })
          rw [← hr, h] at hend
          have hjournal := congrArg (·.journal.length) hend
          simp only [Progress.replay_journal, invocation, Evaluation.after_toProgress,
            Progress.after_journal, List.length_append, List.length_singleton] at hjournal
          omega
  · rintro ⟨hkind, hd⟩
    rw [hkind, hd]

/-- Where no definition makes the failure up, it is never any other that a declaration ends
with. -/
theorem declare_unknown_honest_iff {s : Evaluation} (hhonest : s.definitions.Honest keyword)
    (host : Host) (depth : Nat) (c : Context) (name : String) (block : Option Block) :
    ((c.declare (build host depth) keyword name block).outcome s).1 =
        .error (.failure (.unknownOperation keyword)) ↔
      Kind.ofKeyword? keyword = none ∧ s.definitions.get? keyword = none := by
  constructor
  · intro h
    refine Classical.byContradiction fun hmeant => ?_
    have hknows : s.definitions.Knows keyword := fun hkind hd => hmeant ⟨hkind, hd⟩
    exact (c.declare_spares (build_spares host depth) host keyword name block s hknows hhonest).1 h
  · intro h
    rw [(c.declare_unknown_iff host depth name block s).mpr h]

end Context

/-! ### The register at every moment -/

/-- What the definitions are for, while a run has come as far as this. -/
structure Progress.Dispatches (p : Progress) : Prop where
  /-- A keyword stands for its kind, or else for the definition that was executed last. -/
  meaning : ∀ s : Evaluation, s.toProgress = p → ∀ keyword,
    (Context.meaning? keyword).outcome s =
      (.ok (match Kind.ofKeyword? keyword with
        | some kind => some (.kind kind)
        | none => (p.latest? keyword).map .definition), s)
  /-- A definition succeeds exactly if its name is free, and exactly then it is executed. -/
  define : ∀ s : Evaluation, s.toProgress = p → ∀ d,
    let done := (Context.define d).outcome s
    Kind.isReserved d.name = false ∧ done.1 = .ok () ∧ done.2.executed = p.executed ++ [d] ∨
      Kind.isReserved d.name = true ∧
        done.1 = .error (.failure (.reservedKeyword d.name)) ∧ done.2.executed = p.executed
  /-- A declaration fails at once exactly if its keyword stands for nothing. -/
  declare : ∀ s : Evaluation, s.toProgress = p →
    ∀ (host : Host) (depth : Nat) (c : Context) (keyword name : String) (block : Option Block),
      (c.declare (Context.build host depth) keyword name block).outcome s =
          (.error (.failure (.unknownOperation keyword)), s) ↔
        Kind.ofKeyword? keyword = none ∧ p.latest? keyword = none
  /-- There is no other way to fail like that, unless a body makes the failure up. -/
  honest : ∀ s : Evaluation, s.toProgress = p → ∀ keyword, p.definitions.Honest keyword →
    ∀ (host : Host) (depth : Nat) (c : Context) (name : String) (block : Option Block),
      ((c.declare (Context.build host depth) keyword name block).outcome s).1 =
          .error (.failure (.unknownOperation keyword)) ↔
        Kind.ofKeyword? keyword = none ∧ p.latest? keyword = none

/-- With the record right, keywords lead to what they were last defined as. -/
theorem Progress.Recorded.dispatches {p : Progress} (h : p.Recorded) : p.Dispatches where
  meaning := by
    rintro s rfl keyword
    rw [Context.outcome_meaning?]
    cases Kind.ofKeyword? keyword with
    | some kind => rfl
    | none =>
      dsimp only
      rw [h.entries]
  define := by
    rintro s rfl d
    dsimp only
    rw [Context.outcome_define]
    cases hd : Kind.isReserved d.name with
    | true => exact .inr ⟨rfl, rfl, rfl⟩
    | false => exact .inl ⟨rfl, rfl, s.executed_after _⟩
  declare := by
    rintro s rfl host depth c keyword name block
    rw [c.declare_unknown_iff host depth name block s, h.entries]
  honest := by
    rintro s rfl keyword hhonest host depth c name block
    rw [Context.declare_unknown_honest_iff hhonest host depth c name block, h.entries]

/-- How the definitions stand at one moment. -/
structure Progress.Registered (p : Progress) : Prop where
  recorded : p.Recorded
  /-- No name stands there twice. -/
  distinct : p.definitions.keys.Nodup
  dispatches : p.Dispatches

/-- With the record right, the definitions are those that were executed. -/
theorem Progress.Recorded.registered {p : Progress} (h : p.Recorded) : p.Registered :=
  ⟨h, p.definitions.nodup, h.dispatches⟩

namespace Session

/-- An operation keeps the record, at every moment of it and at its end. -/
theorem Next.recorded {host : Host} {depth : Nat} {s s' : Session} (hn : Next host depth s s')
    (h : s.state.Recorded) :
    ∃ es, s'.state.toProgress = s.state.toProgress.replay es ∧
      Throughout (fun p _ => p.Recorded) s.state.toProgress es ∧ s'.state.Recorded := by
  obtain ⟨es, hend, hes⟩ := hn.happens
  have hfree (d : Definition) (hd : .define d ∈ es) : Kind.isReserved d.name = false := by
    rcases hes with ⟨_, hloading⟩ | ⟨path, rfl⟩ | ⟨_, -, hcourse⟩
    · exact hloading.free hd
    · simp at hd
    · exact hcourse.free hd
  obtain ⟨hmoments, hlast⟩ := h.replay hfree
  exact ⟨es, hend, hmoments, hend ▸ hlast⟩

/-- In every reachable session the definitions are the record of what was executed. -/
theorem Reachable.recorded {s : Session} (h : Reachable s) : s.state.Recorded := by
  induction h with
  | start => exact ⟨rfl, fun _ => rfl, nofun⟩
  | next _ hn ih =>
    obtain ⟨es, -, -, hend⟩ := hn.recorded ih
    exact hend

/-- Whatever an operation does and however it ends, at every moment of it the definitions are
the record of those that were executed so far, and no name is ever taken away. So every keyword
stands for its kind or for the definition that was executed last, and a declaration of any
other fails at once, as no declaration does otherwise. -/
theorem Reachable.definitions_recorded {host : Host} {depth : Nat} {s s' : Session}
    (hs : Reachable s) (hn : Next host depth s s') :
    ∃ es, s'.state.toProgress = s.state.toProgress.replay es ∧
      Throughout (fun p e => p.Registered ∧
        p.definitions.keys <+: (p.after e).definitions.keys) s.state.toProgress es ∧
      s'.state.Registered ∧ s.state.definitions.keys <+: s'.state.definitions.keys := by
  obtain ⟨es, hend, hmoments, hlast⟩ := hn.recorded hs.recorded
  refine ⟨es, hend, ?_, hlast.registered, ?_⟩
  · exact hmoments.imp fun p e hrecorded => ⟨hrecorded.registered, p.keys_after e⟩
  · rw [hend]
    exact Progress.keys_replay _ es

/-- A session with a definition that defines another one when it is expanded. -/
def webDefined : Session :=
  (start.root ⟨"/r.yml"⟩ {}).step bareHost 3 ⟨0, {}⟩
    (.define "web" {} (.statements [.define "page" {} []]))

/-- The session after both are defined once more, by an operation that fails after that. -/
def webRedefined : Session :=
  webDefined.step bareHost 3 ⟨0, {}⟩
    (.evaluate [.define "db" {} [], .declare "web" "x" none,
      .define "web" {} [.declare "nginx" "y" none], .declare "web" "z" none])

set_option maxRecDepth 8192 in
/-- One name was defined twice, and the names stand in the order in which they were first
defined, although the operation fails in the end. -/
theorem definitions_recorded_again :
    (∃ es, webRedefined.state.toProgress = webDefined.state.toProgress.replay es ∧
      Throughout (fun p e => p.Registered ∧
        p.definitions.keys <+: (p.after e).definitions.keys) webDefined.state.toProgress es ∧
      webRedefined.state.Registered ∧
      webDefined.state.definitions.keys <+: webRedefined.state.definitions.keys) ∧
    webRedefined.state.definitions.keys = ["web", "db", "page"] ∧
    webRedefined.state.executed.map (·.name) = ["web", "db", "page", "web"] := by
  have hbegins : Next bareHost 3 start (start.root ⟨"/r.yml"⟩ {}) := .root _ _
  have hdefined : Reachable webDefined := .next (.next .start hbegins) (.step ⟨0, {}⟩ _ rfl)
  have hagain : Next bareHost 3 webDefined webRedefined := .step ⟨0, {}⟩ _ rfl
  exact ⟨hdefined.definitions_recorded hagain, by decide +kernel, by decide +kernel⟩

/-- A session with a definition whose body makes up the failure that its own keyword stands for
nothing. -/
def denying : Session :=
  (start.root ⟨"/r.yml"⟩ {}).step bareHost 2 ⟨0, {}⟩
    (.define "web" {} (.steps [.fail (.unknownOperation "web")]))

set_option maxRecDepth 8192 in
/-- A failure that a body makes up is like the one for an unknown keyword, although the keyword
stands for the definition. -/
theorem definitions_recorded_denying :
    Reachable denying ∧ (denying.state.latest? "web").isSome = true ∧
      ((Context.declare (Context.build bareHost 2) ⟨0, {}⟩ "web" "x" none).outcome
        denying.state).1 = .error (.failure (.unknownOperation "web")) ∧
      ¬∀ (s : Session) (host : Host) (depth : Nat) (c : Context) (keyword name : String)
        (block : Option Block), Reachable s → s.context = some c →
          (((c.declare (Context.build host depth) keyword name block).outcome s.state).1 =
              .error (.failure (.unknownOperation keyword)) ↔
            Kind.ofKeyword? keyword = none ∧ s.state.latest? keyword = none) := by
  have hbegins : Next bareHost 2 start (start.root ⟨"/r.yml"⟩ {}) := .root _ _
  have hdenying : Reachable denying := .next (.next .start hbegins) (.step ⟨0, {}⟩ _ rfl)
  have hdefined : (denying.state.latest? "web").isSome = true := by decide +kernel
  have hfailed : ((Context.declare (Context.build bareHost 2) ⟨0, {}⟩ "web" "x" none).outcome
      denying.state).1 = .error (.failure (.unknownOperation "web")) := rfl
  refine ⟨hdenying, hdefined, hfailed, fun h => ?_⟩
  obtain ⟨-, hnone⟩ := (h denying bareHost 2 ⟨0, {}⟩ "web" "x" none hdenying rfl).mp hfailed
  rw [hnone] at hdefined
  cases hdefined

end Session

end Provision
