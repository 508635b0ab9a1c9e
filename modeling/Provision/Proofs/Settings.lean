import Provision.Proofs.Scope.Leaves
import Provision.Proofs.Statement.Spelling

/-!
# Settings

What a block sets is put into a map that is there before: the defaults of a definition, or the
identity of a resource. A name that the map has keeps its place and gets another value, and a new
name comes behind. An invocation may set the parameters of its definition and nothing else, and
`name` is the argument of the invocation in any case.
-/

namespace Provision

/-! ### Entries put into a map -/

namespace OrderedMap

variable {α β : Type} {name : String}

/-- Nothing is found under a name that no entry has. -/
theorem find?_eq_none_iff {es : List (String × α)} :
    find? name es = none ↔ name ∉ es.map Prod.fst := by
  induction es with
  | nil => simp [find?]
  | cons e rest ih =>
    by_cases h : e.1 = name
    · simp [find?, h]
    · have h' : ¬name = e.1 := fun hname => h hname.symm
      simp [find?, h, h', ih]

/-- The keys of a map are the names that it contains. -/
theorem mem_keys_iff {m : OrderedMap α} : name ∈ m.keys ↔ m.contains name = true := by
  rw [contains, get?, Option.isSome_iff_ne_none, ne_eq, find?_eq_none_iff, not_not, keys]

/-- Maps with the same names in the same order are the same if every name has the same value. -/
theorem ext_get? {m m' : OrderedMap α} (hkeys : m.keys = m'.keys)
    (h : ∀ name, m.get? name = m'.get? name) : m = m' := by
  have hentries {es es' : List (String × α)} (hnodup : (es.map Prod.fst).Nodup)
      (hkeys : es.map Prod.fst = es'.map Prod.fst)
      (h : ∀ name, find? name es = find? name es') : es = es' := by
    induction es generalizing es' with
    | nil => exact (List.map_eq_nil_iff.mp hkeys.symm).symm
    | cons e rest ih =>
      cases es' with
      | nil => simp at hkeys
      | cons e' rest' =>
        obtain ⟨hname, hnames⟩ := List.cons_eq_cons.mp hkeys
        obtain ⟨hnew, hrest⟩ := List.nodup_cons.mp hnodup
        have hvalue : e.2 = e'.2 := by
          have hfirst := h e.1
          rwa [find?, if_pos rfl, find?, if_pos hname.symm, Option.some.injEq] at hfirst
        have hothers : rest = rest' := by
          refine ih hrest hnames fun name => ?_
          by_cases hn : e.1 = name
          · have hnew' : name ∉ rest'.map Prod.fst := hnames ▸ hn ▸ hnew
            rw [find?_eq_none_iff.mpr (hn ▸ hnew), find?_eq_none_iff.mpr hnew']
          · have hn' : ¬e'.1 = name := hname ▸ hn
            have hlater := h name
            rwa [find?, if_neg hn, find?, if_neg hn'] at hlater
        rw [Prod.ext hname hvalue, hothers]
  have hsame : m.entries = m'.entries := hentries m.nodup hkeys h
  cases m
  cases m'
  cases hsame
  rfl

/-- Names that are there keep their places, and the others follow in order. -/
theorem keys_insertAll (m : OrderedMap α) {es : List (String × α)}
    (h : (es.map Prod.fst).Nodup) :
    (m.insertAll es).keys = m.keys ++ (es.map Prod.fst).filter (· ∉ m.keys) := by
  induction es generalizing m with
  | nil => exact (List.append_nil _).symm
  | cons e rest ih =>
    obtain ⟨hnew, hrest⟩ := List.nodup_cons.mp h
    change ((m.insert e.1 e.2).insertAll rest).keys = _
    rw [ih _ hrest, keys_insert, List.map_cons]
    by_cases hmem : e.1 ∈ m.keys
    · rw [if_pos hmem, List.filter_cons_of_neg (by simpa using hmem)]
    · have hothers : (rest.map Prod.fst).filter (· ∉ m.keys ++ [e.1]) =
          (rest.map Prod.fst).filter (· ∉ m.keys) := by
        refine List.filter_congr fun name hname => ?_
        have hne : name ≠ e.1 := fun heq => hnew (heq ▸ hname)
        simp [hne]
      rw [if_neg hmem, List.filter_cons_of_pos (by simpa using hmem), hothers,
        List.append_assoc, List.singleton_append]

/-- A name that is put in has its new value, and every other one the value that it had. -/
theorem get?_insertAll (m : OrderedMap α) {es : List (String × α)}
    (h : (es.map Prod.fst).Nodup) :
    (m.insertAll es).get? name = (find? name es).or (m.get? name) := by
  induction es generalizing m with
  | nil => rfl
  | cons e rest ih =>
    obtain ⟨hnew, hrest⟩ := List.nodup_cons.mp h
    change ((m.insert e.1 e.2).insertAll rest).get? name = _
    rw [ih _ hrest, get?_insert, find?]
    by_cases hname : e.1 = name
    · rw [if_pos hname, if_pos hname, find?_eq_none_iff.mpr (hname ▸ hnew)]
      rfl
    · rw [if_neg hname, if_neg hname]

/-- In two lists of entries with the same names, related values are found under every name. -/
theorem find?_forall₂ {R : α → β → Prop} {es : List (String × α)} {fs : List (String × β)}
    (h : List.Forall₂ (fun e f => e.1 = f.1 ∧ R e.2 f.2) es fs) (name : String) :
    (find? name es = none ∧ find? name fs = none) ∨
      ∃ a b, find? name es = some a ∧ find? name fs = some b ∧ R a b := by
  induction h with
  | nil => exact .inl ⟨rfl, rfl⟩
  | @cons e f _ _ hef _ ih =>
    rw [find?, find?, ← hef.1]
    by_cases hname : e.1 = name
    · rw [if_pos hname, if_pos hname]
      exact .inr ⟨e.2, f.2, rfl, rfl, hef.2⟩
    · rw [if_neg hname, if_neg hname]
      exact ih

end OrderedMap

/-! ### Settings that may fail -/

namespace OrderedMap

variable {ε α β : Type} {f : String × α → Except ε β} {m : OrderedMap β} {es : List (String × α)}

/-- The map with entries put in, each with what its value comes to. -/
def override (m : OrderedMap β) (f : String × α → Except ε β) (es : List (String × α)) :
    Except ε (OrderedMap β) :=
  (es.mapM fun e => (f e).map (e.1, ·)).map m.insertAll

/-- Settings are put in one after another, up to the first that fails. -/
theorem override_cons (e : String × α) :
    m.override f (e :: es) = (f e).map (m.insert e.1) >>= fun m' => m'.override f es := by
  simp only [override]
  rw [List.mapM_cons]
  cases f e with
  | error failure => rfl
  | ok b => cases es.mapM fun e => (f e).map (e.1, ·) <;> rfl

/-- They are all put in exactly if none of them fails. -/
theorem isOk_override_iff : (∃ m', m.override f es = .ok m') ↔ ∀ e ∈ es, ∃ b, f e = .ok b := by
  simp only [override, Except.isOk_map_iff, Except.isOk_mapM_iff]

/-- The first entry that comes to nothing is the failure. -/
theorem override_eq_error_iff {e : ε} : m.override f es = .error e ↔ ∃ before a after,
    es = before ++ a :: after ∧ (∀ other ∈ before, ∃ b, f other = .ok b) ∧ f a = .error e := by
  simp only [override, Except.map_eq_error_iff, Except.mapM_eq_error_iff, Except.isOk_map_iff]

end OrderedMap

namespace Scope

/-- A map is another one into which settings have been put, as a scope resolves them. -/
structure Overrides (s : Scope) (settings base m : OrderedMap Value) : Prop where
  /-- The names that were there come first, in their order, and then those that are new. -/
  keys : m.keys = base.keys ++ settings.keys.filter (· ∉ base.keys)
  /-- A name that is set has the value that the setting resolves to. -/
  set : ∀ name v, settings.get? name = some v →
    ∃ w, s.resolved v = .ok w ∧ m.get? name = some w
  /-- Any other name has the value that it had. -/
  unset : ∀ name, settings.get? name = none → m.get? name = base.get? name

variable {s : Scope} {settings base m m' : OrderedMap Value}

/-- There is no more than one such map. -/
theorem Overrides.unique (h : s.Overrides settings base m) (h' : s.Overrides settings base m') :
    m' = m := by
  refine OrderedMap.ext_get? (h'.keys.trans h.keys.symm) fun name => ?_
  cases hv : settings.get? name with
  | none => rw [h'.unset name hv, h.unset name hv]
  | some v =>
    obtain ⟨w, hw, hm⟩ := h.set name v hv
    obtain ⟨w', hw', hm'⟩ := h'.set name v hv
    rw [hm', hm, Except.ok.inj (hw'.symm.trans hw)]

/-- To put in settings that come to what they resolve to is to override with them. -/
theorem overrides_of_override {ε : Type} {f : String × Value → Except ε Value}
    (hf : ∀ e w, f e = .ok w → s.resolved e.2 = .ok w)
    (h : base.override f settings.entries = .ok m) : s.Overrides settings base m := by
  obtain ⟨es, hes, rfl⟩ := Except.map_eq_ok_iff.mp h
  have hentries : List.Forall₂ (fun e f => e.1 = f.1 ∧ s.resolved e.2 = .ok f.2)
      settings.entries es := by
    refine (Except.mapM_eq_ok_iff.mp hes).imp fun e f he => ?_
    obtain ⟨w, hw, rfl⟩ := Except.map_eq_ok_iff.mp he
    exact ⟨rfl, hf e w hw⟩
  have hsame : List.Forall₂ Eq settings.keys (es.map Prod.fst) :=
    List.forall₂_map_left_iff.mpr
      (List.forall₂_map_right_iff.mpr (hentries.imp fun _ _ he => he.1))
  have hnames : settings.keys = es.map Prod.fst := List.forall₂_eq_eq_eq ▸ hsame
  have hnodup : (es.map Prod.fst).Nodup := hnames ▸ settings.nodup
  have hfound := OrderedMap.find?_forall₂ (R := fun v w => s.resolved v = .ok w) hentries
  refine ⟨?_, fun name v hv => ?_, fun name hv => ?_⟩
  · rw [OrderedMap.keys_insertAll base hnodup, hnames]
  · rcases hfound name with ⟨hnone, -⟩ | ⟨v', w, hv', hw, hresolved⟩
    · cases hv.symm.trans hnone
    · cases hv.symm.trans hv'
      exact ⟨w, hresolved, by rw [OrderedMap.get?_insertAll base hnodup, hw, Option.some_or]⟩
  · rcases hfound name with ⟨-, hnone⟩ | ⟨v, w, hv', -, -⟩
    · rw [OrderedMap.get?_insertAll base hnodup, hnone, Option.none_or]
    · cases hv.symm.trans hv'

end Scope

/-! ### Building without reads -/

namespace Reads

variable {ε ε' α β : Type}

/-- A failure that is put in another way is given in that way. -/
theorem Gives.adapt {x : ExceptT ε (StateM Reads) α} {result : Except ε α} (h : Gives x result)
    (f : ε → ε') : Gives (ExceptT.adapt f x) (result.mapError f) := by
  intro r
  have hx := h r
  change ((x.run.run r).1.mapError f, (x.run.run r).2) = _
  rw [hx]

/-- Results are collected in the order of the list. -/
theorem gives_mapM {f : α → ExceptT ε (StateM Reads) β} {g : α → Except ε β}
    (h : ∀ a, Gives (f a) (g a)) (as : List α) : Gives (as.mapM f) (as.mapM g) := by
  induction as with
  | nil => exact gives_pure []
  | cons a rest ih =>
    rw [List.mapM_cons, List.mapM_cons]
    exact (h a).and_then fun b => ih.and_then fun bs => gives_pure (b :: bs)

/-- Entries that are built one by one are put into a map in their order. -/
theorem gives_foldlM_insert
    {f : OrderedMap β → String × α → ExceptT ε (StateM Reads) (OrderedMap β)}
    {g : String × α → Except ε β} (h : ∀ m e, Gives (f m e) ((g e).map (m.insert e.1)))
    (m : OrderedMap β) (es : List (String × α)) : Gives (es.foldlM f m) (m.override g es) := by
  induction es generalizing m with
  | nil => exact gives_pure m
  | cons e rest ih =>
    rw [List.foldlM_cons, OrderedMap.override_cons]
    exact (h m e).and_then fun m' => ih m'

end Reads

namespace Scope

/-- What a template resolves to before anything is read. -/
def resolvedText (s : Scope) (template : String) : Except Undefined String :=
  ((s.resolveText template).run.run []).1

variable {s : Scope} (hs : s.Constant)

include hs

/-- In a scope of constants, a template resolves to the same whatever has been read. -/
theorem Constant.resolveText_gives (template : String) :
    Reads.Gives (s.resolveText template) (s.resolvedText template) := by
  obtain ⟨pieces, -, -, hgives⟩ := hs.resolveText_splits template
  have hresult : s.resolvedText template = _ := congrArg Prod.fst (hgives [])
  rwa [hresult]

/-- In a scope of constants, a value is built as it resolves. -/
theorem Constant.build_gives (v : Value) :
    Reads.Gives (s.build v) ((s.resolved v).mapError .undefined) :=
  (hs.resolve_gives v).adapt Failure.undefined

/-- So is a text. -/
theorem Constant.buildText_gives (template : String) :
    Reads.Gives (s.buildText template) ((s.resolvedText template).mapError .undefined) :=
  (hs.resolveText_gives template).adapt Failure.undefined

end Scope

/-! ### Invocations -/

namespace Definition

/-- An invocation may make a setting if it is one of a parameter, to a value that resolves. -/
def Admits (d : Definition) (s : Scope) (e : String × Value) : Prop :=
  e.1 ∈ d.parameters.keys ∧ ∃ v, s.resolved e.2 = .ok v

/-- Why an invocation may not make a setting. That there is no such parameter comes first. -/
inductive Refuses (d : Definition) (s : Scope) (e : String × Value) : Failure → Prop
  | unknown (h : e.1 ∉ d.parameters.keys) : d.Refuses s e (.unknownParameter d.name e.1)
  | undefined {u : Undefined} (h : e.1 ∈ d.parameters.keys) (hu : s.resolved e.2 = .error u) :
      d.Refuses s e (.undefined u)

/-- A map has the attributes of an invocation. -/
structure Merges (d : Definition) (s : Scope) (argument : String) (settings m : OrderedMap Value) :
    Prop where
  /-- The parameters as they are declared, and `name` behind them if it is none of them. -/
  keys : m.keys =
    if "name" ∈ d.parameters.keys then d.parameters.keys else d.parameters.keys ++ ["name"]
  /-- `name` is the argument, whatever it is set to and whatever its default is. -/
  name : m.get? "name" = some (.string argument)
  /-- A parameter that is set has the value that the setting resolves to. -/
  set : ∀ key v, key ≠ "name" → settings.get? key = some v →
    ∃ w, s.resolved v = .ok w ∧ m.get? key = some w
  /-- Any other one has its default as it was written. -/
  default : ∀ key, key ≠ "name" → settings.get? key = none → m.get? key = d.parameters.get? key

variable {d : Definition} {s : Scope} {argument : String} {settings m m' : OrderedMap Value}

/-- There is no more than one such map. -/
theorem Merges.unique (h : d.Merges s argument settings m) (h' : d.Merges s argument settings m') :
    m' = m := by
  refine OrderedMap.ext_get? (h'.keys.trans h.keys.symm) fun key => ?_
  by_cases hname : key = "name"
  · rw [hname, h'.name, h.name]
  · cases hv : settings.get? key with
    | none => rw [h'.default key hname hv, h.default key hname hv]
    | some v =>
      obtain ⟨w, hw, hm⟩ := h.set key v hname hv
      obtain ⟨w', hw', hm'⟩ := h'.set key v hname hv
      rw [hm', hm, Except.ok.inj (hw'.symm.trans hw)]

/-- The attributes of an invocation are the parameters, overridden by settings of some of them,
and the argument. -/
theorem merges_insert (hdeclared : ∀ key ∈ settings.keys, key ∈ d.parameters.keys)
    (h : s.Overrides settings d.parameters m) :
    d.Merges s argument settings (m.insert "name" (.string argument)) := by
  have hkeys : m.keys = d.parameters.keys := by
    have hnone : settings.keys.filter (· ∉ d.parameters.keys) = [] := by
      simpa [List.filter_eq_nil_iff] using hdeclared
    rw [h.keys, hnone, List.append_nil]
  have hother {key : String} (hname : key ≠ "name") :
      (m.insert "name" (.string argument)).get? key = m.get? key := by
    rw [OrderedMap.get?_insert, if_neg (Ne.symm hname)]
  refine ⟨?_, ?_, fun key v hname hv => ?_, fun key hname hv => ?_⟩
  · rw [OrderedMap.keys_insert, hkeys]
  · rw [OrderedMap.get?_insert, if_pos rfl]
  · rw [hother hname]
    exact h.set key v hv
  · rw [hother hname]
    exact h.unset key hv

/-- What one setting of an invocation comes to. -/
def setting (d : Definition) (s : Scope) (e : String × Value) : Except Failure Value :=
  if d.parameters.contains e.1 then (s.resolved e.2).mapError .undefined
  else .error (.unknownParameter d.name e.1)

/-- A setting comes to the value that it resolves to, if its name is a parameter. -/
theorem setting_eq_ok_iff {e : String × Value} {w : Value} :
    d.setting s e = .ok w ↔ e.1 ∈ d.parameters.keys ∧ s.resolved e.2 = .ok w := by
  rw [setting, OrderedMap.mem_keys_iff]
  split
  · rename_i hmem
    rw [Except.mapError_eq_ok_iff, and_iff_right hmem]
  · rename_i hmem
    exact iff_of_false nofun fun h => hmem h.1

/-- It fails for the name first, and for its value after that. -/
theorem setting_eq_error_iff {e : String × Value} {f : Failure} :
    d.setting s e = .error f ↔ d.Refuses s e f := by
  rw [setting]
  split
  · rename_i hcontains
    have hmem : e.1 ∈ d.parameters.keys := OrderedMap.mem_keys_iff.mpr hcontains
    rw [Except.mapError_eq_error_iff]
    constructor
    · rintro ⟨u, hu, rfl⟩
      exact .undefined hmem hu
    · rintro (hunknown | ⟨_, hu⟩)
      · exact absurd hmem hunknown
      · exact ⟨_, hu, rfl⟩
  · rename_i hcontains
    have hmem : e.1 ∉ d.parameters.keys := fun h => hcontains (OrderedMap.mem_keys_iff.mp h)
    constructor
    · rintro ⟨⟩
      exact .unknown hmem
    · rintro (_ | ⟨h, _⟩)
      · rfl
      · exact absurd h hmem

/-- What a definition admits is just what comes to a value. -/
theorem admits_iff {e : String × Value} : d.Admits s e ↔ ∃ w, d.setting s e = .ok w := by
  simp only [setting_eq_ok_iff, Admits, exists_and_left]

/-- In a scope of constants, the attributes of an invocation are the parameters with its settings
and its argument. -/
theorem attributes_gives (hs : s.Constant) (d : Definition) (argument : String)
    (block : Option Block) :
    Reads.Gives (d.attributes s argument block)
      ((d.parameters.override (d.setting s) (block.getD Block.empty).attributes.entries).map
        (·.insert "name" (.string argument))) := by
  have hset (m : OrderedMap Value) (e : String × Value) :
      Reads.Gives (d.set s m e) ((d.setting s e).map (m.insert e.1)) := by
    unfold set setting
    split
    · exact (hs.build_gives e.2).map (m.insert e.1)
    · exact fun _ => rfl
  exact (Reads.gives_foldlM_insert hset d.parameters _).map _

end Definition

/-- In a scope of constants, an invocation has attributes exactly if each of its settings is one
of a parameter and resolves. Then these are the parameters in their order, each with its setting
or else its default, and the argument as `name`. Otherwise the first setting that may not be made
is the failure. -/
theorem Scope.Constant.attributes_merge {s : Scope} (hs : s.Constant) (d : Definition)
    (argument : String) (block : Option Block) :
    ∃ result, Reads.Gives (d.attributes s argument block) result ∧
      ((∃ m, result = .ok m) ↔
        ∀ e ∈ (block.getD Block.empty).attributes.entries, d.Admits s e) ∧
      (∀ m, result = .ok m → ∀ other,
        d.Merges s argument (block.getD Block.empty).attributes other ↔ other = m) ∧
      (∀ f, result = .error f ↔ ∃ before e after,
        (block.getD Block.empty).attributes.entries = before ++ e :: after ∧
          (∀ other ∈ before, d.Admits s other) ∧ d.Refuses s e f) := by
  have hgives := Definition.attributes_gives hs d argument block
  generalize (block.getD Block.empty).attributes = settings at hgives ⊢
  have hadmits : (∃ m, (d.parameters.override (d.setting s) settings.entries).map
      (·.insert "name" (.string argument)) = .ok m) ↔ ∀ e ∈ settings.entries, d.Admits s e := by
    simp only [Except.isOk_map_iff, OrderedMap.isOk_override_iff, Definition.admits_iff]
  refine ⟨_, hgives, hadmits, fun m hm other => ?_, fun f => ?_⟩
  · have hdeclared : ∀ key ∈ settings.keys, key ∈ d.parameters.keys := by
      intro key hkey
      obtain ⟨e, he, rfl⟩ := List.mem_map.mp hkey
      exact (hadmits.mp ⟨m, hm⟩ e he).1
    obtain ⟨overridden, hoverridden, rfl⟩ := Except.map_eq_ok_iff.mp hm
    have hoverrides := Scope.overrides_of_override
      (fun e w he => (Definition.setting_eq_ok_iff.mp he).2) hoverridden
    have hmerges : d.Merges s argument settings (overridden.insert "name" (.string argument)) :=
      Definition.merges_insert hdeclared hoverrides
    exact ⟨hmerges.unique, fun h => h ▸ hmerges⟩
  · simp only [Except.map_eq_error_iff, OrderedMap.override_eq_error_iff, Definition.admits_iff,
      Definition.setting_eq_error_iff]

/-- A definition with a parameter `name` between two others. -/
def Definition.site : Definition :=
  ⟨"site", OrderedMap.ofList
    [("port", .int 80), ("name", .null), ("root", .string "\x7b\x7ba\x7d\x7d")], .statements []⟩

/-- The placeholder `{{a}}` of a setting is resolved and that of a default is not. A name may be
set, but that has no effect. The first setting that fails is the failure. -/
theorem Scope.Constant.attributes_merge_named :
    single.Constant ∧
      (∃ m, Reads.Gives (Definition.site.attributes single "x"
          (some ⟨OrderedMap.ofList [("name", .null), ("port", .string "\x7b\x7ba\x7d\x7d")], []⟩))
          (.ok m) ∧
        m.keys = ["port", "name", "root"] ∧ m.get? "port" = some (.int 1) ∧
          m.get? "name" = some (.string "x") ∧
          m.get? "root" = some (.string "\x7b\x7ba\x7d\x7d")) ∧
      Reads.Gives (Definition.site.attributes single "x"
        (some ⟨OrderedMap.ofList [("port", .null), ("user", .null),
          ("name", .string "\x7b\x7bb\x7d\x7d")], []⟩))
        (.error (.unknownParameter "site" "user")) := by
  have hs := constant_single
  have ha : single.resolved (.string "\x7b\x7ba\x7d\x7d") = .ok (.int 1) :=
    (hs.resolve_whole (show wholePlaceholder? _ = some "a" from rfl)).unique (hs.resolve_gives _)
  refine ⟨hs, ?_, ?_⟩
  · obtain ⟨result, hgives, hok, hmerges, -⟩ := hs.attributes_merge Definition.site "x"
      (some ⟨OrderedMap.ofList [("name", .null), ("port", .string "\x7b\x7ba\x7d\x7d")], []⟩)
    obtain ⟨m, rfl⟩ := hok.mpr (by
      intro e he
      change e ∈ [("name", Value.null), ("port", .string "\x7b\x7ba\x7d\x7d")] at he
      rcases List.mem_cons.mp he with rfl | he
      · exact ⟨by decide, _, rfl⟩
      · obtain rfl := List.mem_singleton.mp he
        exact ⟨by decide, _, ha⟩)
    have hm := (hmerges m rfl m).mpr rfl
    obtain ⟨w, hw, hport⟩ := hm.set "port" _ (by decide) rfl
    cases ha.symm.trans hw
    exact ⟨m, hgives, hm.keys, hport, hm.name, hm.default "root" (by decide) rfl⟩
  · obtain ⟨result, hgives, -, -, hfirst⟩ := hs.attributes_merge Definition.site "x"
      (some ⟨OrderedMap.ofList [("port", .null), ("user", .null),
        ("name", .string "\x7b\x7bb\x7d\x7d")], []⟩)
    have hresult : result = .error (.unknownParameter "site" "user") := by
      refine (hfirst _).mpr ⟨[("port", .null)], ("user", .null), _, rfl, ?_, .unknown (by decide)⟩
      intro e he
      obtain rfl := List.mem_singleton.mp he
      exact ⟨by decide, _, rfl⟩
    exact hresult ▸ hgives

end Provision
