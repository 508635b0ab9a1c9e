import Provision.Proofs.Result
import Provision.Statement.Reader

/-!
# The grammar of recipes

What a document has to look like for it to be a recipe, and which statements it denotes, said
without any order in which things are looked at. The keys of a mapping are seen through their
tags, but what is written under a key is only found if the key is a plain string. A document is
read exactly if the grammar has statements for it, and these are what is read.
-/

namespace Provision

/-! ### Keys and what is written under them -/

namespace Value

/-- The value is a string, number or truth value. -/
def isScalar : Value → Bool
  | .string _ | .int _ | .float _ | .bool _ => true
  | _ => false

/-- The value is a scalar with this text. -/
def Says (v : Value) (text : String) : Prop := v.isScalar = true ∧ v.text = text

/-- A scalar with this text is written under a name. -/
def SaysAt (entries : List (Value × Value)) (name text : String) : Prop :=
  ∃ v, field? name entries = some v ∧ v.Says text

/-- Every key is one of some words, seen through its tags. -/
def Keyed (words : List String) (entries : List (Value × Value)) : Prop :=
  ∀ e ∈ entries, ∃ key ∈ words, e.1.string? = some key

/-- The keys of some entries are strings, seen through their tags. -/
def Fields : List (Value × Value) → List (String × Value) → Prop :=
  List.Forall₂ fun e f => e.1.string? = some f.1 ∧ e.2 = f.2

/-- What is set by a mapping that may be left out. -/
inductive Sets : Option Value → OrderedMap Value → Prop
  | absent : Sets none {}
  | null : Sets (some .null) {}
  | mapping {entries : List (Value × Value)} {fields : List (String × Value)}
      (hfields : Fields entries fields) : Sets (some (.mapping entries)) (.ofList fields)

/-- Only the string itself is the same key as a string. -/
theorem same_string_iff {k : Value} {name : String} :
    same k (.string name) = true ↔ k = .string name := by
  cases k <;> simp [same]

/-- The first entry with the name is the one that counts. -/
theorem field?_cons (name : String) (k v : Value) (rest : List (Value × Value)) :
    field? name ((k, v) :: rest) =
      if same k (.string name) then some v else field? name rest := rfl

/-- What is found under a name stands there under the plain name. -/
theorem mem_of_field? {name : String} {entries : List (Value × Value)} {v : Value}
    (h : field? name entries = some v) : (.string name, v) ∈ entries := by
  induction entries with
  | nil => cases h
  | cons e rest ih =>
    obtain ⟨k, w⟩ := e
    rw [field?_cons] at h
    split at h
    · rename_i hsame
      cases h
      rw [same_string_iff.mp hsame]
      exact List.mem_cons_self
    · exact List.mem_cons_of_mem _ (ih h)

/-- Nothing is found under a name that no key has. -/
theorem Keyed.field?_eq_none {words : List String} {entries : List (Value × Value)}
    (h : Keyed words entries) {name : String} (hname : name ∉ words) :
    field? name entries = none := by
  rw [Option.eq_none_iff_forall_ne_some]
  intro v hv
  obtain ⟨key, hkey, hstring⟩ := h _ (mem_of_field? hv)
  cases hstring
  exact hname hkey

end Value

namespace Statement

open Provision.Value

/-- A scalar is read exactly if the value says a text. -/
theorem scalar_eq_ok_iff {what text : String} {v : Value} :
    scalar what v = .ok text ↔ v.Says text := by
  cases v <;> simp [scalar, Says, isScalar]

/-- The check of the keys is passed exactly if each of them is one of the words. -/
theorem onlyKeys_eq_ok_iff {words : List String} {entries : List (Value × Value)} :
    onlyKeys words entries = .ok () ↔ Keyed words entries := by
  rw [onlyKeys, Keyed]
  induction entries with
  | nil => exact ⟨fun _ => nofun, fun _ => rfl⟩
  | cons e rest ih =>
    rw [List.forM, Except.bind_eq_ok_iff, List.forall_mem_cons, ← ih]
    refine ⟨fun ⟨_, hfirst, hrest⟩ => ⟨?_, hrest⟩, fun ⟨hfirst, hrest⟩ => ⟨(), ?_, hrest⟩⟩
    · cases hkey : e.1.string? with
      | none =>
        rw [hkey] at hfirst
        cases hfirst
      | some key =>
        rw [hkey] at hfirst
        dsimp only at hfirst
        split at hfirst
        · rename_i hmem
          exact ⟨key, List.contains_iff_mem.mp hmem, rfl⟩
        · cases hfirst
    · obtain ⟨key, hmem, hkey⟩ := hfirst
      rw [hkey]
      exact if_pos (List.contains_iff_mem.mpr hmem)

/-- Reading string keys one after another inserts what stands under them. -/
theorem foldlM_insert_eq_ok_iff
    {step : OrderedMap Value → Value × Value → Reading (OrderedMap Value)}
    (hstep : ∀ m e m', step m e = .ok m' ↔ ∃ key, e.1.string? = some key ∧ m.insert key e.2 = m')
    {entries : List (Value × Value)} {start m : OrderedMap Value} :
    entries.foldlM step start = .ok m ↔
      ∃ fields, Fields entries fields ∧ start.insertAll fields = m := by
  induction entries generalizing start with
  | nil =>
    refine ⟨fun h => ⟨[], .nil, Except.ok.inj h⟩, ?_⟩
    rintro ⟨fields, hfields, rfl⟩
    cases hfields
    rfl
  | cons e rest ih =>
    rw [List.foldlM_cons, Except.bind_eq_ok_iff]
    constructor
    · rintro ⟨m', hfirst, hrest⟩
      obtain ⟨key, hkey, rfl⟩ := (hstep _ _ _).mp hfirst
      obtain ⟨fields, hfields, hm⟩ := ih.mp hrest
      exact ⟨(key, e.2) :: fields, .cons ⟨hkey, rfl⟩ hfields, hm⟩
    · rintro ⟨fields, hfields, hm⟩
      obtain ⟨f, fields', ⟨hkey, hvalue⟩, hrest, rfl⟩ := List.forall₂_cons_left_iff.mp hfields
      exact ⟨start.insert f.1 f.2, (hstep _ _ _).mpr ⟨f.1, hkey, hvalue ▸ rfl⟩,
        ih.mpr ⟨fields', hrest, hm⟩⟩

/-- String keys are read in order, a later entry replacing an earlier one. -/
theorem stringKeyed_eq_ok_iff {what : String} {entries : List (Value × Value)}
    {m : OrderedMap Value} :
    stringKeyed what entries = .ok m ↔ ∃ fields, Fields entries fields ∧ .ofList fields = m := by
  refine foldlM_insert_eq_ok_iff fun m e m' => ?_
  split
  · rename_i key hkey
    rw [hkey]
    simp
  · rename_i hkey
    rw [hkey]
    simp

/-! ### Notifications and blocks -/

/-- The timing of a notification, which may be left out. -/
inductive Timed : Option Value → String → Prop
  | absent : Timed none defaultTiming
  | written {v : Value} {timing : String} (htiming : v.Says timing) : Timed (some v) timing

/-- What asks for a notification. -/
inductive Asks : Value → Notice → Prop
  | pair {a t : Value} {action target : String} (haction : a.Says action)
      (htarget : t.Says target) : Asks (.sequence [a, t]) ⟨action, target, defaultTiming⟩
  | triple {a t w : Value} {action target timing : String} (haction : a.Says action)
      (htarget : t.Says target) (htiming : w.Says timing) :
      Asks (.sequence [a, t, w]) ⟨action, target, timing⟩
  | mapping {entries : List (Value × Value)} {action target timing : String}
      (haction : SaysAt entries "action" action) (htarget : SaysAt entries "resource" target)
      (htiming : Timed (field? "timing" entries) timing) :
      Asks (.mapping entries) ⟨action, target, timing⟩

/-- What asks for several notifications, which may be left out. -/
inductive AsksAll : Option Value → List Notice → Prop
  | absent : AsksAll none []
  | null : AsksAll (some .null) []
  | sequence {vs : List Value} {notices : List Notice} (hnotices : List.Forall₂ Asks vs notices) :
      AsksAll (some (.sequence vs)) notices
  | single {entries : List (Value × Value)} {n : Notice} (hnotice : Asks (.mapping entries) n) :
      AsksAll (some (.mapping entries)) [n]

/-- The block of a declaration. There is none if `with` is not written and there are no
notifications. -/
inductive Settings (entries : List (Value × Value)) : Option Block → Prop
  | none (hwith : field? "with" entries = none)
      (hnotifies : AsksAll (field? "notifies" entries) []) : Settings entries none
  | some {attributes : OrderedMap Value} {notifies : List Notice}
      (hwith : Sets (field? "with" entries) attributes)
      (hnotifies : AsksAll (field? "notifies" entries) notifies)
      (hset : field? "with" entries ≠ .none ∨ notifies ≠ []) :
      Settings entries (some ⟨attributes, notifies⟩)

/-- A field of a notification may be left out, and says a text otherwise. -/
theorem noticeField_eq_ok_iff {name : String} {entries : List (Value × Value)}
    {field : Option String} :
    noticeField name entries = .ok field ↔
      field? name entries = none ∧ field = none ∨
        ∃ text, SaysAt entries name text ∧ field = some text := by
  rw [noticeField]
  cases hv : field? name entries with
  | none => simp [SaysAt, hv, eq_comm]
  | some v =>
    dsimp only
    simp only [Except.map_eq_ok_iff, scalar_eq_ok_iff, SaysAt, hv, Option.some.injEq,
      exists_eq_left', reduceCtorEq, false_and, false_or]
    exact ⟨fun ⟨text, hsays, h⟩ => ⟨text, hsays, h.symm⟩,
      fun ⟨text, hsays, h⟩ => ⟨text, hsays, h.symm⟩⟩

/-- A notification is read exactly if it is asked for. -/
theorem notice_eq_ok_iff {v : Value} {n : Notice} : notice v = .ok n ↔ Asks v n := by
  constructor
  · intro h
    unfold notice at h
    split at h
    · obtain ⟨action, haction, h⟩ := Except.bind_eq_ok_iff.mp h
      obtain ⟨target, htarget, h⟩ := Except.bind_eq_ok_iff.mp h
      cases h
      exact .pair (scalar_eq_ok_iff.mp haction) (scalar_eq_ok_iff.mp htarget)
    · obtain ⟨action, haction, h⟩ := Except.bind_eq_ok_iff.mp h
      obtain ⟨target, htarget, h⟩ := Except.bind_eq_ok_iff.mp h
      obtain ⟨timing, htiming, h⟩ := Except.bind_eq_ok_iff.mp h
      cases h
      exact .triple (scalar_eq_ok_iff.mp haction) (scalar_eq_ok_iff.mp htarget)
        (scalar_eq_ok_iff.mp htiming)
    · obtain ⟨action?, haction, h⟩ := Except.bind_eq_ok_iff.mp h
      rcases noticeField_eq_ok_iff.mp haction with ⟨-, rfl⟩ | ⟨action, haction', rfl⟩
      · cases h
      · obtain ⟨target?, htarget, h⟩ := Except.bind_eq_ok_iff.mp h
        rcases noticeField_eq_ok_iff.mp htarget with ⟨-, rfl⟩ | ⟨target, htarget', rfl⟩
        · cases h
        · obtain ⟨timing?, htiming, h⟩ := Except.bind_eq_ok_iff.mp h
          cases h
          refine .mapping haction' htarget' ?_
          rcases noticeField_eq_ok_iff.mp htiming with ⟨hnone, rfl⟩ | ⟨timing, ⟨w, hw, htext⟩, rfl⟩
          · rw [hnone]
            exact .absent
          · rw [hw]
            exact .written htext
    · cases h
  · intro h
    cases h with
    | pair haction htarget =>
      rw [notice, scalar_eq_ok_iff.mpr haction, scalar_eq_ok_iff.mpr htarget]
      rfl
    | triple haction htarget htiming =>
      rw [notice, scalar_eq_ok_iff.mpr haction, scalar_eq_ok_iff.mpr htarget,
        scalar_eq_ok_iff.mpr htiming]
      rfl
    | @mapping entries action target timing haction htarget htiming =>
      -- Only the timing may be left out.
      have htimed : ∃ field, noticeField "timing" entries = .ok field ∧
          field.getD defaultTiming = timing := by
        cases htime : field? "timing" entries with
        | none =>
          rw [htime] at htiming
          cases htiming
          exact ⟨none, noticeField_eq_ok_iff.mpr (.inl ⟨htime, rfl⟩), rfl⟩
        | some w =>
          rw [htime] at htiming
          cases htiming with
          | written htext =>
            exact ⟨some timing, noticeField_eq_ok_iff.mpr (.inr ⟨_, ⟨w, htime, htext⟩, rfl⟩), rfl⟩
      obtain ⟨field, hfield, rfl⟩ := htimed
      rw [notice, noticeField_eq_ok_iff.mpr (.inr ⟨_, haction, rfl⟩),
        noticeField_eq_ok_iff.mpr (.inr ⟨_, htarget, rfl⟩), hfield]
      rfl

/-- A mapping with string keys that may be left out is read exactly if it sets something. -/
theorem sets_iff {what : String} {cause : Cause} {written : Option Value} {m : OrderedMap Value} :
    (match written with
      | none | some .null => .ok {}
      | some (.mapping es) => stringKeyed what es
      | some _ => .error cause) = Except.ok m ↔ Sets written m := by
  constructor
  · intro h
    split at h
    · cases h
      exact .absent
    · cases h
      exact .null
    · obtain ⟨fields, hfields, rfl⟩ := stringKeyed_eq_ok_iff.mp h
      exact .mapping hfields
    · cases h
  · intro h
    cases h with
    | absent => rfl
    | null => rfl
    | mapping hfields => exact stringKeyed_eq_ok_iff.mpr ⟨_, hfields, rfl⟩

/-- The attributes are what `with` sets. -/
theorem attributes_eq_ok_iff {entries : List (Value × Value)} {m : OrderedMap Value} :
    attributes entries = .ok m ↔ Sets (field? "with" entries) m := sets_iff

/-- The parameters are what `params` sets. -/
theorem parameters_eq_ok_iff {entries : List (Value × Value)} {m : OrderedMap Value} :
    parameters entries = .ok m ↔ Sets (field? "params" entries) m := sets_iff

/-- The notifications are what `notifies` asks for. -/
theorem notices_eq_ok_iff {entries : List (Value × Value)} {list : List Notice} :
    notices entries = .ok list ↔ AsksAll (field? "notifies" entries) list := by
  have hall {vs : List Value} {ns : List Notice} :
      vs.mapM notice = .ok ns ↔ List.Forall₂ Asks vs ns := by
    simp only [Except.mapM_eq_ok_iff, notice_eq_ok_iff]
  rw [notices]
  constructor
  · intro h
    split at h
    · rename_i hv
      cases h
      rw [hv]
      exact .absent
    · rename_i hv
      cases h
      rw [hv]
      exact .null
    · rename_i hv
      rw [hv]
      exact .sequence (hall.mp h)
    · rename_i hv
      obtain ⟨n, hn, rfl⟩ := Except.map_eq_ok_iff.mp h
      rw [hv]
      exact .single (notice_eq_ok_iff.mp hn)
    · cases h
  · intro h
    cases hv : field? "notifies" entries with
    | none =>
      rw [hv] at h
      cases h
      rfl
    | some v =>
      rw [hv] at h
      cases h with
      | null => rfl
      | sequence hnotices => exact hall.mpr hnotices
      | single hnotice => exact Except.map_eq_ok_iff.mpr ⟨_, notice_eq_ok_iff.mpr hnotice, rfl⟩

/-- The block is made of these settings. -/
theorem block_eq_ok_iff {entries : List (Value × Value)} {b : Option Block} :
    block entries = .ok b ↔ Settings entries b := by
  constructor
  · intro h
    obtain ⟨attributes, hattributes, h⟩ := Except.bind_eq_ok_iff.mp h
    obtain ⟨notifies, hnotifies, h⟩ := Except.bind_eq_ok_iff.mp h
    rw [attributes_eq_ok_iff] at hattributes
    rw [notices_eq_ok_iff] at hnotifies
    split at h
    · rename_i hnone
      cases h
      simp only [Bool.and_eq_true, List.isEmpty_iff, Option.isNone_iff_eq_none] at hnone
      exact .none hnone.2 (hnone.1.2 ▸ hnotifies)
    · rename_i hsome
      cases h
      refine .some hattributes hnotifies ?_
      by_cases hwith : field? "with" entries = none
      · -- Nothing is set without `with`, so it is the notifications that make the block.
        refine .inr fun hempty => hsome ?_
        rw [hwith] at hattributes
        cases hattributes
        simp [hempty, hwith, OrderedMap.isEmpty]
        rfl
      · exact .inl hwith
  · intro h
    cases h with
    | none hwith hnotifies =>
      have hnothing : attributes entries = .ok {} :=
        attributes_eq_ok_iff.mpr (hwith.symm ▸ Sets.absent)
      rw [block, hnothing, notices_eq_ok_iff.mpr hnotifies, hwith]
      rfl
    | some hwith hnotifies hset =>
      rw [block, attributes_eq_ok_iff.mpr hwith, notices_eq_ok_iff.mpr hnotifies]
      refine if_neg fun hnone => ?_
      simp only [Bool.and_eq_true, List.isEmpty_iff, Option.isNone_iff_eq_none] at hnone
      exact hset.elim (fun h => h hnone.2) fun h => h hnone.1.2

/-! ### Statements -/

mutual

/-- What a value has to look like to denote a statement. -/
inductive Denotes : Value → Statement → Prop
  /-- A keyword with an identifier, and with settings that may be left out. -/
  | declare {v : Value} {entries : List (Value × Value)} {keyword identifier : String}
      {block : Option Block} (hmapping : v.entries? = some entries)
      (hfree : keyword ≠ "include_recipe" ∧ keyword ≠ "define")
      (hkeyword : keywords entries = [keyword])
      (hstrings : ∀ e ∈ entries, e.1.string?.isSome)
      (hidentifier : SaysAt entries keyword identifier) (hblock : Settings entries block) :
      Denotes v (.declare keyword identifier block)
  /-- A name with parameters that may be left out, and with a body that is like a document. -/
  | define {v w : Value} {entries : List (Value × Value)} {name : String}
      {params : OrderedMap Value} {body : List Statement}
      (hmapping : v.entries? = some entries) (hkeys : Keyed ["define", "params", "body"] entries)
      (hname : SaysAt entries "define" name) (hparams : Sets (field? "params" entries) params)
      (hbody : field? "body" entries = some w) (hholds : Holds w body) :
      Denotes v (.define name params body)
  /-- The target of an inclusion. -/
  | includeRecipe {v : Value} {entries : List (Value × Value)} {target : String}
      (hmapping : v.entries? = some entries) (hkeys : Keyed ["include_recipe"] entries)
      (htarget : SaysAt entries "include_recipe" target) : Denotes v (.includeRecipe target)

/-- What a document has to be to hold a recipe. An empty document holds an empty one. -/
inductive Holds : Value → List Statement → Prop
  | empty : Holds .null []
  | sequence {items : List Value} {list : List Statement} (hitems : DenotesAll items list) :
      Holds (.sequence items) list

/-- Values that denote statements one by one. -/
inductive DenotesAll : List Value → List Statement → Prop
  | nil : DenotesAll [] []
  | cons {v : Value} {s : Statement} {vs : List Value} {list : List Statement}
      (hfirst : Denotes v s) (hrest : DenotesAll vs list) : DenotesAll (v :: vs) (s :: list)

end

/-- An inclusion has no other key, and says its target. -/
theorem inclusion_eq_ok_iff {v : Value} {entries : List (Value × Value)} {s : Statement} :
    inclusion v entries = .ok s ↔
      Keyed ["include_recipe"] entries ∧ ∃ target, v.Says target ∧ .includeRecipe target = s := by
  constructor
  · intro h
    obtain ⟨_, hkeys, h⟩ := Except.bind_eq_ok_iff.mp h
    obtain ⟨target, htarget, h⟩ := Except.bind_eq_ok_iff.mp h
    exact ⟨onlyKeys_eq_ok_iff.mp hkeys, target, scalar_eq_ok_iff.mp htarget, Except.ok.inj h⟩
  · rintro ⟨hkeys, target, htarget, rfl⟩
    rw [inclusion, onlyKeys_eq_ok_iff.mpr hkeys, scalar_eq_ok_iff.mpr htarget]
    rfl

/-- The heading of a definition says its name and sets its parameters, and there are no other keys
than those of a definition. -/
theorem heading_eq_ok_iff {v : Value} {entries : List (Value × Value)} {name : String}
    {params : OrderedMap Value} :
    heading v entries = .ok (name, params) ↔
      Keyed ["define", "params", "body"] entries ∧ v.Says name ∧
        Sets (field? "params" entries) params := by
  constructor
  · intro h
    obtain ⟨_, hkeys, h⟩ := Except.bind_eq_ok_iff.mp h
    obtain ⟨name', hname, h⟩ := Except.bind_eq_ok_iff.mp h
    obtain ⟨params', hparams, h⟩ := Except.bind_eq_ok_iff.mp h
    cases h
    exact ⟨onlyKeys_eq_ok_iff.mp hkeys, scalar_eq_ok_iff.mp hname,
      parameters_eq_ok_iff.mp hparams⟩
  · rintro ⟨hkeys, hname, hparams⟩
    rw [heading, onlyKeys_eq_ok_iff.mpr hkeys, scalar_eq_ok_iff.mpr hname,
      parameters_eq_ok_iff.mpr hparams]
    rfl

/-- A mapping with one keyword. -/
theorem declaration_of_keyword {entries : List (Value × Value)} {keyword : String}
    (h : keywords entries = [keyword]) :
    declaration entries =
      if entries.any (·.1.string?.isNone) then .error .keysNotStrings
      else match field? keyword entries with
        | none => .error (.missingValue keyword)
        | some v => do
          let identifier ← scalar keyword v
          let block ← block entries
          return .declare keyword identifier block := by
  rw [declaration, h]
  dsimp only
  split
  · rfl
  · cases field? keyword entries <;> rfl

/-- A declaration has one keyword, which says an identifier, and besides it only settings. -/
theorem declaration_eq_ok_iff {entries : List (Value × Value)} {s : Statement} :
    declaration entries = .ok s ↔ ∃ keyword identifier block, keywords entries = [keyword] ∧
      (∀ e ∈ entries, e.1.string?.isSome) ∧ SaysAt entries keyword identifier ∧
        Settings entries block ∧ .declare keyword identifier block = s := by
  constructor
  · intro h
    rcases hkeyword : keywords entries with _ | ⟨keyword, _ | ⟨other, rest⟩⟩
    · rw [declaration, hkeyword] at h
      cases h
    · rw [declaration_of_keyword hkeyword] at h
      split at h
      · cases h
      · rename_i hstrings
        split at h
        · cases h
        · rename_i v hv
          obtain ⟨identifier, hidentifier, h⟩ := Except.bind_eq_ok_iff.mp h
          obtain ⟨block, hblock, h⟩ := Except.bind_eq_ok_iff.mp h
          refine ⟨keyword, identifier, block, rfl, ?_,
            ⟨v, hv, scalar_eq_ok_iff.mp hidentifier⟩, block_eq_ok_iff.mp hblock, Except.ok.inj h⟩
          simpa [Option.isSome_iff_ne_none] using hstrings
    · rw [declaration, hkeyword] at h
      cases h
  · rintro ⟨keyword, identifier, block, hkeyword, hstrings, ⟨v, hv, hidentifier⟩, hblock, rfl⟩
    have hnone : ¬(entries.any (·.1.string?.isNone)) = true := by
      simpa [Option.isSome_iff_ne_none] using hstrings
    rw [declaration_of_keyword hkeyword, if_neg hnone, hv]
    dsimp only
    rw [scalar_eq_ok_iff.mpr hidentifier, block_eq_ok_iff.mpr hblock]
    rfl

/-- A plain key that is not a setting is a keyword. -/
theorem mem_keywords {entries : List (Value × Value)} {name : String} {v : Value}
    (h : field? name entries = some v) (hname : name ≠ "with" ∧ name ≠ "notifies") :
    name ∈ keywords entries := by
  rw [keywords, List.mem_filter, List.mem_filterMap]
  exact ⟨⟨_, mem_of_field? h, rfl⟩, by simp [hname]⟩

/-- The words by which inclusions and definitions are told from declarations are not found in
a mapping with another keyword. -/
theorem field?_eq_none_of_keywords {entries : List (Value × Value)} {keyword name : String}
    (h : keywords entries = [keyword]) (hne : keyword ≠ name)
    (hname : name ≠ "with" ∧ name ≠ "notifies") : field? name entries = none := by
  rw [Option.eq_none_iff_forall_ne_some]
  intro v hv
  have hmem := mem_keywords hv hname
  rw [h, List.mem_singleton] at hmem
  exact hne hmem.symm

section

variable {place : Place} {v : Value}

/-- What is no mapping is no statement. -/
theorem read_of_no_mapping (h : v.entries? = none) :
    read place v = .error (.statement place .notAMapping) := by
  rw [read]
  split
  · rfl
  · rename_i hmapping
    cases h.symm.trans hmapping

variable {entries : List (Value × Value)} (hmapping : v.entries? = some entries)

include hmapping

/-- A mapping with the key of an inclusion is read as one. -/
theorem read_of_inclusion {target : Value}
    (htarget : field? "include_recipe" entries = some target) :
    read place v = (inclusion target entries).mapError (.statement place) := by
  rw [read]
  split
  · rename_i hnone
    cases hmapping.symm.trans hnone
  · rename_i hsome
    cases hmapping.symm.trans hsome
    rw [htarget]

/-- A mapping with neither this key nor that of a definition is read as a declaration. -/
theorem read_of_declaration (hinclude : field? "include_recipe" entries = none)
    (hdefine : field? "define" entries = none) :
    read place v = (declaration entries).mapError (.statement place) := by
  rw [read]
  split
  · rename_i hnone
    cases hmapping.symm.trans hnone
  · rename_i hsome
    cases hmapping.symm.trans hsome
    rw [hinclude, hdefine]

/-- The heading of a definition comes first. -/
theorem read_of_definition (hinclude : field? "include_recipe" entries = none) {name : Value}
    (hname : field? "define" entries = some name) :
    read place v =
      match (heading name entries).mapError (Fault.statement place) with
      | .error fault => .error fault
      | .ok (name, params) =>
        match field? "body" entries with
        | some (.sequence items) => (readAll (.definition name) 1 items).map (.define name params)
        | some .null => .ok (.define name params [])
        | some _ => .error (.statement place .bodyNotAList)
        | none => .error (.statement place (.missingBody name)) := by
  rw [read]
  split
  · rename_i hnone
    cases hmapping.symm.trans hnone
  · rename_i hsome
    cases hmapping.symm.trans hsome
    rw [hinclude, hname]
    dsimp only
    cases (heading name entries).mapError (Fault.statement place) with
    | error fault => rfl
    | ok head =>
      dsimp only
      split <;> rename_i hbody <;> simp only [hbody]

/-- A definition with a heading is read if it has a body. -/
theorem read_of_heading {name : String} {params : OrderedMap Value}
    (hkeys : Keyed ["define", "params", "body"] entries) (hname : SaysAt entries "define" name)
    (hparams : Sets (field? "params" entries) params) :
    read place v =
      match field? "body" entries with
      | some (.sequence items) => (readAll (.definition name) 1 items).map (.define name params)
      | some .null => .ok (.define name params [])
      | some _ => .error (.statement place .bodyNotAList)
      | none => .error (.statement place (.missingBody name)) := by
  obtain ⟨w, hw, hsays⟩ := hname
  rw [read_of_definition hmapping (hkeys.field?_eq_none (by decide)) hw,
    heading_eq_ok_iff.mpr ⟨hkeys, hsays, hparams⟩]
  rfl

end

mutual

/-- What is read as a statement denotes it. -/
theorem denotes_of_read {place : Place} {v : Value} {s : Statement}
    (h : read place v = .ok s) : Denotes v s := by
  cases hmapping : v.entries? with
  | none =>
    rw [read_of_no_mapping hmapping] at h
    cases h
  | some entries =>
    cases hinclude : field? "include_recipe" entries with
    | some target =>
      rw [read_of_inclusion hmapping hinclude] at h
      obtain ⟨hkeys, text, hsays, rfl⟩ := inclusion_eq_ok_iff.mp (Except.mapError_eq_ok_iff.mp h)
      exact .includeRecipe hmapping hkeys ⟨target, hinclude, hsays⟩
    | none =>
      cases hdefine : field? "define" entries with
      | none =>
        rw [read_of_declaration hmapping hinclude hdefine] at h
        obtain ⟨keyword, identifier, block, hkeyword, hstrings, ⟨w, hw, hsays⟩, hblock, rfl⟩ :=
          declaration_eq_ok_iff.mp (Except.mapError_eq_ok_iff.mp h)
        -- The keys of other statements are not found, so neither is the keyword.
        refine .declare hmapping ⟨?_, ?_⟩ hkeyword hstrings ⟨w, hw, hsays⟩ hblock
        · rintro rfl
          cases hinclude.symm.trans hw
        · rintro rfl
          cases hdefine.symm.trans hw
      | some name =>
        rw [read_of_definition hmapping hinclude hdefine] at h
        split at h
        · cases h
        · rename_i text params hheading
          obtain ⟨hkeys, hsays, hparams⟩ :=
            heading_eq_ok_iff.mp (Except.mapError_eq_ok_iff.mp hheading)
          split at h
          · rename_i items hbody
            obtain ⟨body, hitems, rfl⟩ := Except.map_eq_ok_iff.mp h
            have hinner : sizeOf items < sizeOf v := by
              have hentries := sizeOf_entries?_lt hmapping
              have hvalue := sizeOf_find?_lt hbody
              simp only [Value.sequence.sizeOf_spec] at hvalue
              omega
            exact .define hmapping hkeys ⟨name, hdefine, hsays⟩ hparams hbody
              (.sequence (denotesAll_of_readAll hitems))
          · rename_i hbody
            cases h
            exact .define hmapping hkeys ⟨name, hdefine, hsays⟩ hparams hbody .empty
          · cases h
          · cases h
termination_by sizeOf v

/-- Values that are read as statements denote them. -/
theorem denotesAll_of_readAll {place : Nat → Place} {number : Nat} {vs : List Value}
    {list : List Statement} (h : readAll place number vs = .ok list) : DenotesAll vs list := by
  match vs with
  | [] =>
    rw [readAll] at h
    cases h
    exact .nil
  | v :: rest =>
    rw [readAll] at h
    split at h
    · cases h
    · rename_i s hs
      obtain ⟨list, hlist, rfl⟩ := Except.map_eq_ok_iff.mp h
      exact .cons (denotes_of_read hs) (denotesAll_of_readAll hlist)
termination_by sizeOf vs

end

mutual

/-- What denotes a statement is read as that one, wherever it stands. -/
theorem read_of_denotes (place : Place) {v : Value} {s : Statement} (h : Denotes v s) :
    read place v = .ok s := by
  cases h with
  | declare hmapping hfree hkeyword hstrings hidentifier hblock =>
    have hinclude := field?_eq_none_of_keywords hkeyword hfree.1 (by decide)
    have hdefine := field?_eq_none_of_keywords hkeyword hfree.2 (by decide)
    rw [read_of_declaration hmapping hinclude hdefine]
    exact Except.mapError_eq_ok_iff.mpr (declaration_eq_ok_iff.mpr
      ⟨_, _, _, hkeyword, hstrings, hidentifier, hblock, rfl⟩)
  | define hmapping hkeys hname hparams hbody hholds =>
    rw [read_of_heading hmapping hkeys hname hparams, hbody]
    cases hholds with
    | empty => rfl
    | sequence hitems => exact Except.map_eq_ok_iff.mpr ⟨_, readAll_of_denotesAll _ 1 hitems, rfl⟩
  | includeRecipe hmapping hkeys htarget =>
    obtain ⟨w, hw, hsays⟩ := htarget
    rw [read_of_inclusion hmapping hw]
    exact Except.mapError_eq_ok_iff.mpr (inclusion_eq_ok_iff.mpr ⟨hkeys, _, hsays, rfl⟩)

/-- Values that denote statements are read as these, wherever they stand. -/
theorem readAll_of_denotesAll (place : Nat → Place) (number : Nat) {vs : List Value}
    {list : List Statement} (h : DenotesAll vs list) : readAll place number vs = .ok list := by
  cases h with
  | nil => rw [readAll]
  | cons hfirst hrest =>
    rw [readAll, read_of_denotes _ hfirst, readAll_of_denotesAll _ _ hrest]
    rfl

end

/-- A value is read as a statement exactly if it denotes that statement. -/
theorem read_eq_ok_iff {place : Place} {v : Value} {s : Statement} :
    read place v = .ok s ↔ Denotes v s := ⟨denotes_of_read, read_of_denotes place⟩

/-- A document is read exactly if it holds a recipe. -/
theorem ofDocument_eq_ok_iff {v : Value} {list : List Statement} :
    ofDocument v = .ok list ↔ Holds v list := by
  constructor
  · intro h
    unfold ofDocument at h
    split at h
    · cases h
      exact .empty
    · exact .sequence (denotesAll_of_readAll h)
    · cases h
  · intro h
    cases h with
    | empty => rfl
    | sequence hitems => exact readAll_of_denotesAll _ 1 hitems

end Statement

end Provision
