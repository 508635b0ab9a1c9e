import Provision.Kind
import Provision.Proofs.Statement.Grammar

/-!
# Writing recipes

Every statement can be written as a value, and there is some freedom in it: the keys of a
mapping stand in any order, and a notification is a list or a mapping, in which a delayed timing
may be left out. Whichever way it is written, the statement is what is read. What can be read is
nothing but such statements, so reading what was read and written again gives the same.
-/

namespace Provision

/-! ### Fields in any order -/

namespace OrderedMap

variable {α : Type} {name : String} {a : α} {es es' : List (String × α)}

/-- Where no name occurs twice, what is found under a name is what stands there. -/
theorem find?_eq_some_iff (h : (es.map Prod.fst).Nodup) :
    find? name es = some a ↔ (name, a) ∈ es := by
  induction es with
  | nil => simp [find?]
  | cons e rest ih =>
    obtain ⟨n, b⟩ := e
    obtain ⟨hnew, hrest⟩ := List.nodup_cons.mp h
    by_cases hn : n = name
    · subst hn
      have habsent : (n, a) ∉ rest := fun hmem => hnew (List.mem_map.mpr ⟨_, hmem, rfl⟩)
      simp [find?, habsent, eq_comm]
    · simp [find?, hn, ih hrest, Ne.symm hn]

/-- Where no name occurs twice, the order does not matter. -/
theorem find?_perm (hperm : es.Perm es') (h : (es'.map Prod.fst).Nodup) :
    find? name es = find? name es' := by
  have hnodup : (es.map Prod.fst).Nodup := (hperm.map Prod.fst).nodup_iff.mpr h
  refine Option.ext fun a => ?_
  rw [find?_eq_some_iff hnodup, find?_eq_some_iff h, hperm.mem_iff]

/-- A new name is put at the end. -/
theorem put_of_not_mem (h : name ∉ es.map Prod.fst) : put name a es = es ++ [(name, a)] := by
  induction es with
  | nil => rfl
  | cons e rest ih =>
    obtain ⟨n, b⟩ := e
    rw [List.map_cons, List.mem_cons, not_or] at h
    rw [put, if_neg (Ne.symm h.1), ih h.2, List.cons_append]

/-- Entries with new names are put in as they are, behind the others. -/
theorem insertAll_entries {m : OrderedMap α} (h : ((m.entries ++ es).map Prod.fst).Nodup) :
    (m.insertAll es).entries = m.entries ++ es := by
  induction es generalizing m with
  | nil => exact (List.append_nil _).symm
  | cons e rest ih =>
    have hnew : e.1 ∉ m.entries.map Prod.fst := by
      rw [List.map_append, List.map_cons, List.nodup_append] at h
      exact fun hmem => h.2.2 _ hmem _ List.mem_cons_self rfl
    have hentries : (m.insert e.1 e.2).entries = m.entries ++ [e] := put_of_not_mem hnew
    have happend : m.entries ++ e :: rest = (m.insert e.1 e.2).entries ++ rest := by
      rw [hentries, List.append_assoc, List.singleton_append]
    rw [happend] at h ⊢
    exact ih h

/-- A map is the map of its entries. -/
theorem ofList_entries (m : OrderedMap α) : ofList m.entries = m := by
  have h : (ofList m.entries).entries = m.entries :=
    insertAll_entries (m := empty) (by simpa [empty] using m.nodup)
  cases m
  cases h' : ofList _
  rw [h'] at h
  congr

end OrderedMap

namespace Value

/-- The entries of a mapping with plain string keys. -/
def plain (fields : List (String × Value)) : List (Value × Value) :=
  fields.map fun e => (.string e.1, e.2)

/-- The mapping of some fields has their entries. -/
theorem entries?_ofFields (fields : List (String × Value)) :
    (ofFields fields).entries? = some (plain fields) := rfl

variable {fields base : List (String × Value)}

/-- What is found in a mapping of fields is found among the fields. -/
theorem field?_plain (name : String) :
    field? name (plain fields) = OrderedMap.find? name fields := by
  induction fields with
  | nil => rfl
  | cons e rest ih =>
    simp only [plain, List.map_cons, field?_cons, OrderedMap.find?, same_string_iff,
      Value.string.injEq]
    exact if_congr Iff.rfl rfl ih

/-- In any order, the same is found under every name. -/
theorem field?_of_perm (hperm : fields.Perm base) (h : (base.map Prod.fst).Nodup)
    (name : String) : field? name (plain fields) = OrderedMap.find? name base :=
  (field?_plain name).trans (OrderedMap.find?_perm hperm h)

/-- Fields are keyed by their names, in whatever order. -/
theorem keyed_of_perm {words : List String} (h : (fields.map Prod.fst).Perm words) :
    Keyed words (plain fields) := by
  intro e he
  obtain ⟨f, hf, rfl⟩ := List.mem_map.mp he
  exact ⟨f.1, h.mem_iff.mp (List.mem_map_of_mem hf), rfl⟩

/-- The keys of fields are strings. -/
theorem isSome_string?_plain : ∀ e ∈ plain fields, e.1.string?.isSome := by
  intro e he
  obtain ⟨f, -, rfl⟩ := List.mem_map.mp he
  rfl

/-- The entries of fields are read back as those. -/
theorem fields_plain : Fields (plain fields) fields := by
  induction fields with
  | nil => exact .nil
  | cons f rest ih => exact .cons ⟨rfl, rfl⟩ ih

/-- A map is set by the mapping of its entries. -/
theorem sets_ofFields (m : OrderedMap Value) : Sets (some (ofFields m.entries)) m := by
  have h : Sets (some (ofFields m.entries)) (.ofList m.entries) := .mapping fields_plain
  rwa [OrderedMap.ofList_entries] at h

/-- A string says itself. -/
theorem says_string (s : String) : Says (.string s) s :=
  ⟨rfl, by simp [text, chars, scalarChars]⟩

end Value

/-! ### Ways to write a statement -/

/-- The ways to write a notification. A delayed one need not name its timing. -/
inductive Notice.Written : Notice → Value → Prop
  | triple (n : Notice) :
      Written n (.sequence [.string n.action, .string n.target, .string n.timing])
  | pair (action target : String) :
      Written ⟨action, target, Statement.defaultTiming⟩ (.sequence [.string action, .string target])
  | mapping (n : Notice) {fields : List (String × Value)}
      (hfields : fields.Perm [("action", .string n.action), ("resource", .string n.target),
        ("timing", .string n.timing)]) : Written n (.ofFields fields)
  | untimed (action target : String) {fields : List (String × Value)}
      (hfields : fields.Perm [("action", .string action), ("resource", .string target)]) :
      Written ⟨action, target, Statement.defaultTiming⟩ (.ofFields fields)

/-- One way to write a notification. -/
def Notice.encode (n : Notice) : Value :=
  .sequence [.string n.action, .string n.target, .string n.timing]

namespace Statement

open Provision.Value

/-- The settings of a declaration, its notifications being written in some way. There is
`with` exactly if there is a block. -/
def settings (written : List Value) : Option Block → List (String × Value)
  | none => []
  | some b =>
    ("with", .ofFields b.attributes.entries) ::
      if b.notifies.isEmpty then [] else [("notifies", .sequence written)]

mutual

/-- The ways to write a statement. -/
inductive Written : Statement → Value → Prop
  | declare {keyword identifier : String} {block : Option Block} {written : List Value}
      {fields : List (String × Value)}
      (hwritten : List.Forall₂ Notice.Written (block.getD Block.empty).notifies written)
      (hfields : fields.Perm ((keyword, .string identifier) :: settings written block)) :
      Written (.declare keyword identifier block) (.ofFields fields)
  | define {name : String} {params : OrderedMap Value} {body : List Statement}
      {items : List Value} {fields : List (String × Value)} (hitems : WrittenAll body items)
      (hfields : fields.Perm [("define", .string name), ("params", .ofFields params.entries),
        ("body", .sequence items)]) : Written (.define name params body) (.ofFields fields)
  | includeRecipe (target : String) :
      Written (.includeRecipe target) (.ofFields [("include_recipe", .string target)])

/-- The ways to write several statements. -/
inductive WrittenAll : List Statement → List Value → Prop
  | nil : WrittenAll [] []
  | cons {s : Statement} {v : Value} {list : List Statement} {vs : List Value}
      (hfirst : Written s v) (hrest : WrittenAll list vs) : WrittenAll (s :: list) (v :: vs)

end

mutual

/-- One way to write a statement. -/
def encode : Statement → Value
  | .declare keyword identifier block =>
    .ofFields ((keyword, .string identifier) ::
      settings ((block.getD Block.empty).notifies.map Notice.encode) block)
  | .define name params body =>
    .ofFields [("define", .string name), ("params", .ofFields params.entries),
      ("body", .sequence (encodeAll body))]
  | .includeRecipe target => .ofFields [("include_recipe", .string target)]

/-- One way to write several statements. -/
def encodeAll : List Statement → List Value
  | [] => []
  | s :: list => encode s :: encodeAll list

end

mutual

/-- The keywords of declarations are not words of the recipe language, at any depth. -/
def Plain : Statement → Prop
  | .declare keyword _ _ => keyword ∉ Kind.languageWords
  | .define _ _ body => PlainAll body
  | .includeRecipe _ => True

/-- Every statement of a list is plain. -/
def PlainAll : List Statement → Prop
  | [] => True
  | s :: list => s.Plain ∧ PlainAll list

end

/-- Whichever way a notification is written, that asks for it. -/
theorem asks_of_written {n : Notice} {v : Value} (h : n.Written v) : Asks v n := by
  cases h with
  | triple => exact .triple (says_string _) (says_string _) (says_string _)
  | pair => exact .pair (says_string _) (says_string _)
  | mapping n hfields =>
    have hfield := field?_of_perm hfields (by simp)
    refine .mapping ⟨_, hfield "action", says_string _⟩ ⟨_, hfield "resource", says_string _⟩ ?_
    exact (hfield "timing").symm ▸ .written (says_string _)
  | untimed action target hfields =>
    have hfield := field?_of_perm hfields (by simp)
    refine .mapping ⟨_, hfield "action", says_string _⟩ ⟨_, hfield "resource", says_string _⟩ ?_
    exact (hfield "timing").symm ▸ .absent

/-- There are no settings, or `with` alone, or `notifies` after it. -/
theorem settings_names (written : List Value) (block : Option Block) :
    (settings written block).map Prod.fst = [] ∨
      (settings written block).map Prod.fst = ["with"] ∨
        (settings written block).map Prod.fst = ["with", "notifies"] := by
  rcases block with _ | ⟨attributes, _ | ⟨n, rest⟩⟩
  · exact .inl rfl
  · exact .inr (.inl rfl)
  · exact .inr (.inr rfl)

/-- Settings that are written are those of the block. -/
theorem settings_of_written {block : Option Block} {written : List Value}
    {entries : List (Value × Value)}
    (hwritten : List.Forall₂ Notice.Written (block.getD Block.empty).notifies written)
    (hwith : field? "with" entries = OrderedMap.find? "with" (settings written block))
    (hnotifies : field? "notifies" entries = OrderedMap.find? "notifies" (settings written block)) :
    Settings entries block := by
  cases block with
  | none => exact .none hwith (hnotifies.symm ▸ .absent)
  | some b =>
    obtain ⟨attributes, notifies⟩ := b
    have hset : field? "with" entries = some (.ofFields attributes.entries) := hwith
    refine .some (hset.symm ▸ sets_ofFields attributes) ?_ (.inl ?_)
    · rw [hnotifies]
      cases notifies with
      | nil => exact .absent
      | cons n rest => exact .sequence (hwritten.imp fun _ _ => asks_of_written).flip
    · rw [hset]
      exact nofun

/-- The keywords among fields are the names that are not those of settings. -/
theorem keywords_plain (fields : List (String × Value)) :
    keywords (plain fields) =
      (fields.map Prod.fst).filter fun k => k != "with" && k != "notifies" := by
  rw [keywords, plain, List.filterMap_map]
  congr 1
  induction fields with
  | nil => rfl
  | cons f rest ih => exact congrArg (f.1 :: ·) ih

mutual

/-- Whichever way a plain statement is written, the grammar has it for that. -/
theorem denotes_of_written {s : Statement} {v : Value} (hplain : s.Plain) (h : s.Written v) :
    Denotes v s := by
  cases h with
  | @declare keyword identifier block written fields hwritten hfields =>
    rw [Plain] at hplain
    obtain ⟨hdefine, hinclude, hwith, hnotifies⟩ : keyword ≠ "define" ∧
        keyword ≠ "include_recipe" ∧ keyword ≠ "with" ∧ keyword ≠ "notifies" := by
      simpa [Kind.languageWords] using hplain
    have hnames := settings_names written block
    have hnodup : (((keyword, Value.string identifier) :: settings written block).map
        Prod.fst).Nodup := by
      rcases hnames with h | h | h <;> simp [h, hwith, hnotifies]
    have hfield := field?_of_perm hfields hnodup
    refine .declare (entries?_ofFields _) ⟨hinclude, hdefine⟩ ?_ isSome_string?_plain
      ⟨_, (hfield keyword).trans (if_pos rfl), says_string _⟩
      (settings_of_written hwritten ((hfield "with").trans (if_neg hwith))
        ((hfield "notifies").trans (if_neg hnotifies)))
    rw [keywords_plain]
    have hfiltered := (hfields.map Prod.fst).filter fun k => k != "with" && k != "notifies"
    refine List.perm_singleton.mp (hfiltered.trans ?_)
    rcases hnames with h | h | h <;> simp [h, hwith, hnotifies]
  | define hitems hfields =>
    rw [Plain] at hplain
    have hfield := field?_of_perm hfields (by simp)
    exact .define (entries?_ofFields _) (keyed_of_perm (hfields.map Prod.fst))
      ⟨_, hfield "define", says_string _⟩ ((hfield "params").symm ▸ sets_ofFields _)
      (hfield "body") (.sequence (denotesAll_of_writtenAll hplain hitems))
  | includeRecipe target =>
    exact .includeRecipe (entries?_ofFields _) (keyed_of_perm .rfl) ⟨_, rfl, says_string _⟩

/-- Whichever way plain statements are written, the grammar has that for them. -/
theorem denotesAll_of_writtenAll {list : List Statement} {vs : List Value}
    (hplain : PlainAll list) (h : WrittenAll list vs) : DenotesAll vs list := by
  cases h with
  | nil => exact .nil
  | cons hfirst hrest =>
    rw [PlainAll] at hplain
    exact .cons (denotes_of_written hplain.1 hfirst) (denotesAll_of_writtenAll hplain.2 hrest)

end

mutual

/-- There is a way to write every statement. -/
theorem written_encode (s : Statement) : s.Written (encode s) := by
  match s with
  | .declare keyword identifier block =>
    rw [encode]
    refine .declare ?_ .rfl
    rw [List.forall₂_map_right_iff, List.forall₂_same]
    exact fun n _ => .triple n
  | .define name params body =>
    rw [encode]
    exact .define (writtenAll_encodeAll body) .rfl
  | .includeRecipe target =>
    rw [encode]
    exact .includeRecipe target

/-- There is a way to write all statements of a list. -/
theorem writtenAll_encodeAll (list : List Statement) : WrittenAll list (encodeAll list) := by
  match list with
  | [] =>
    rw [encodeAll]
    exact .nil
  | s :: rest =>
    rw [encodeAll]
    exact .cons (written_encode s) (writtenAll_encodeAll rest)

end

mutual

/-- What the grammar has are plain statements. -/
theorem plain_of_denotes {v : Value} {s : Statement} (h : Denotes v s) : s.Plain := by
  cases h with
  | @declare _ entries keyword _ _ hmapping hfree hkeyword hstrings hidentifier hblock =>
    rw [Plain]
    have hmem : keyword ∈ keywords entries := by
      rw [hkeyword]
      exact List.mem_singleton_self _
    rw [keywords, List.mem_filter] at hmem
    simpa [Kind.languageWords, hfree] using hmem.2
  | define hmapping hkeys hname hparams hbody hholds =>
    rw [Plain]
    cases hholds with
    | empty => exact trivial
    | sequence hitems => exact plainAll_of_denotesAll hitems
  | includeRecipe =>
    rw [Plain]
    exact trivial

/-- So are all statements of a list. -/
theorem plainAll_of_denotesAll {vs : List Value} {list : List Statement}
    (h : DenotesAll vs list) : PlainAll list := by
  cases h with
  | nil => exact trivial
  | cons hfirst hrest =>
    rw [PlainAll]
    exact ⟨plain_of_denotes hfirst, plainAll_of_denotesAll hrest⟩

end

/-- So are the statements of a document. -/
theorem plainAll_of_holds {v : Value} {list : List Statement} (h : Holds v list) :
    PlainAll list := by
  cases h with
  | empty => exact trivial
  | sequence hitems => exact plainAll_of_denotesAll hitems

/-- Plain statements are read from whichever way they are written, and every statement can be
written. What is read from any document are plain statements, so they can be written and read
once more. -/
theorem ofDocument_written :
    (∀ list vs, PlainAll list → WrittenAll list vs → ofDocument (.sequence vs) = .ok list) ∧
      (∀ list, WrittenAll list (encodeAll list)) ∧
      ∀ v list, ofDocument v = .ok list →
        PlainAll list ∧ ofDocument (.sequence (encodeAll list)) = .ok list := by
  have hread (list : List Statement) (vs : List Value) (hplain : PlainAll list)
      (hwritten : WrittenAll list vs) : ofDocument (.sequence vs) = .ok list :=
    ofDocument_eq_ok_iff.mpr (.sequence (denotesAll_of_writtenAll hplain hwritten))
  refine ⟨hread, writtenAll_encodeAll, fun v list h => ?_⟩
  have hplain := plainAll_of_holds (ofDocument_eq_ok_iff.mp h)
  exact ⟨hplain, hread list _ hplain (writtenAll_encodeAll list)⟩

/-- A definition with a declaration that notifies a service. -/
def notifying : List Statement :=
  [.define "vhost" {}
    [.declare "file" "/etc/x" (some ⟨{}, [⟨"reload", "service[nginx]", "delay"⟩]⟩)]]

/-- The same in an unusual order, the timing of the notification being left out. -/
def shuffled : List Value :=
  [.ofFields [("params", .ofFields []), ("define", .string "vhost"),
    ("body", .sequence [.ofFields [("with", .ofFields []), ("file", .string "/etc/x"),
      ("notifies", .sequence [.ofFields [("resource", .string "service[nginx]"),
        ("action", .string "reload")]])]])]]

/-- The unusual order is one of the ways to write these statements, and it is read as them. -/
theorem ofDocument_written_shuffled :
    PlainAll notifying ∧ WrittenAll notifying shuffled ∧
      ofDocument (.sequence shuffled) = .ok notifying := by
  have hplain : PlainAll notifying := by
    simp [notifying, PlainAll, Plain, Kind.languageWords]
  have hwritten : WrittenAll notifying shuffled := by
    refine .cons (.define (.cons (.declare ?_ (.swap _ _ _)) .nil) (.swap _ _ _)) .nil
    exact .cons (.untimed "reload" "service[nginx]" (.swap _ _ _)) .nil
  exact ⟨hplain, hwritten, ofDocument_written.1 notifying shuffled hplain hwritten⟩

end Statement

end Provision
