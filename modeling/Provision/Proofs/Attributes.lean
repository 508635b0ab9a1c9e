import Provision.Node
import Provision.Proofs.Evaluation.Walk
import Provision.Proofs.Scope.Paths
import Provision.Proofs.Scope.Whole
import Provision.Proofs.Value.Documents

/-!
# Node attributes

The attributes of a node are those of its YAML document, overridden by those of its JSON document
as a whole, key by key. A key that both have keeps its place and gets the value of the second, and
what only the second has comes behind. So a placeholder for an attribute of the JSON document has
its value there in every recipe, whatever the YAML document says.
-/

namespace Provision

namespace Value

variable {es : List (Value × Value)} {name : String} {v : Value}

/-! ### Entries put in one by one -/

/-- The only key that a string is the same as is that string. -/
theorem string_same_iff {key : Value} : same (.string name) key = true ↔ key = .string name := by
  cases key with
  | string s => simpa [same] using eq_comm
  | _ => simp [same]

/-- A value under a new key is put behind all others. -/
theorem put_of_find?_eq_none {key : Value} (h : find? key es = none) :
    put key v es = es ++ [(key, v)] := by
  induction es with
  | nil => rfl
  | cons e rest ih =>
    obtain ⟨k, w⟩ := e
    rw [find?_cons] at h
    split at h
    · cases h
    · rename_i hne
      rw [put, if_neg hne, ih h, List.cons_append]

/-- Entries without a common key may be put in at once. -/
theorem foldl_put_of_distinct {fs : List (Value × Value)} (h : Distinct (es ++ fs)) :
    fs.foldl (fun es e => put e.1 e.2 es) es = es ++ fs := by
  induction fs generalizing es with
  | nil => exact (List.append_nil es).symm
  | cons f rest ih =>
    have hnew : find? f.1 es = none := by
      refine find?_eq_none_iff.mpr fun e he => ?_
      exact (List.pairwise_append.mp h).2.2 e he f List.mem_cons_self
    have happend : es ++ f :: rest = (es ++ [f]) ++ rest := by simp
    rw [happend] at h ⊢
    rw [List.foldl_cons, put_of_find?_eq_none hnew]
    exact ih h

/-- A string that is a key already keeps its place, and any other comes behind. -/
theorem keys_put (name : String) (v : Value) (es : List (Value × Value)) :
    (put (.string name) v es).map Prod.fst =
      es.map Prod.fst ++ [.string name].filter fun k => (find? k es).isNone := by
  cases hfound : find? (.string name) es with
  | none =>
    rw [put_of_find?_eq_none hfound]
    simp [hfound]
  | some w =>
    rw [List.filter_cons_of_neg (by simp [hfound]), List.filter_nil, List.append_nil]
    induction es with
    | nil => cases hfound
    | cons e rest ih =>
      obtain ⟨k, x⟩ := e
      rw [find?_cons] at hfound
      rw [put]
      split at hfound
      · rename_i hsame
        rw [if_pos hsame]
        rfl
      · rename_i hne
        rw [if_neg hne, List.map_cons, ih hfound, List.map_cons]

/-- Under a string that is put in, its new value is found, and under any other key what was. -/
theorem find?_put (key : Value) (name : String) (v : Value) (es : List (Value × Value)) :
    find? key (put (.string name) v es) =
      if same (.string name) key then some v else find? key es := by
  induction es with
  | nil => rfl
  | cons e rest ih =>
    obtain ⟨k, x⟩ := e
    rw [put]
    split
    · rename_i hsame
      obtain rfl := same_string_iff.mp hsame
      rw [find?_cons, find?_cons]
      split <;> rfl
    · rename_i hne
      rw [find?_cons, find?_cons, ih]
      split
      · rename_i hsame
        have hother : ¬same (.string name) key = true := fun h =>
          hne (string_same_iff.mp h ▸ hsame)
        rw [if_neg hother]
      · rfl

/-! ### Overriding -/

/-- Entries are those of `ys`, overridden by those of `js`. -/
structure Overridden (ys js es : List (Value × Value)) : Prop where
  /-- The keys of `ys` come first, in their order, and then those that are new. -/
  keys : es.map Prod.fst =
    ys.map Prod.fst ++ (js.map Prod.fst).filter fun k => (find? k ys).isNone
  /-- No two entries have the same key. -/
  distinct : Distinct es
  /-- A key has the value that it has in `js`, or else the one that it has in `ys`. -/
  find?_eq : ∀ key, find? key es = (find? key js).or (find? key ys)
  /-- Only the very same value is the same key as one of `js`. -/
  same_iff : ∀ e ∈ js, ∀ key, same key e.1 = true ↔ key = e.1

variable {fields : List (String × Value)} {ys js : List (Value × Value)}

/-- Fields become entries under string keys, one by one. -/
theorem plain_cons (f : String × Value) (fields : List (String × Value)) :
    plain (f :: fields) = (.string f.1, f.2) :: plain fields := rfl

/-- Among the keys of fields are plain strings only. -/
theorem find?_plain_eq_none {key : Value} (h : ∀ f ∈ fields, key ≠ .string f.1) :
    find? key (plain fields) = none := by
  refine find?_eq_none_iff.mpr fun e he => ?_
  obtain ⟨f, hf, rfl⟩ := List.mem_map.mp he
  exact Bool.eq_false_iff.mpr fun hsame => h f hf (string_same_iff.mp hsame)

/-- Putting one list of fields over another keeps the keys of this one in their places, and new keys
follow in their own order. -/
theorem keys_foldl_put (hnodup : (fields.map Prod.fst).Nodup) (ys : List (Value × Value)) :
    ((plain fields).foldl (fun es e => put e.1 e.2 es) ys).map Prod.fst =
      ys.map Prod.fst ++ ((plain fields).map Prod.fst).filter fun k => (find? k ys).isNone := by
  induction fields generalizing ys with
  | nil => exact (List.append_nil _).symm
  | cons f rest ih =>
    obtain ⟨hnew, hrest⟩ := List.nodup_cons.mp hnodup
    -- The first name is none of the others, so putting it in does not make them less new.
    have hothers : ((plain rest).map Prod.fst).filter
          (fun k => (find? k (put (.string f.1) f.2 ys)).isNone) =
        ((plain rest).map Prod.fst).filter fun k => (find? k ys).isNone := by
      refine List.filter_congr fun key hkey => ?_
      obtain ⟨e, he, rfl⟩ := List.mem_map.mp hkey
      obtain ⟨g, hg, rfl⟩ := List.mem_map.mp he
      have hne : ¬same (.string f.1) (.string g.1) = true := fun hsame =>
        hnew (Value.string.inj (same_string_iff.mp hsame) ▸ List.mem_map_of_mem hg)
      rw [find?_put, if_neg hne]
    rw [plain_cons, List.foldl_cons, ih hrest, hothers, keys_put, List.append_assoc,
      ← List.filter_append]
    rfl

/-- A field that was put last is found first, and other fields are found where they were. -/
theorem find?_foldl_put (hnodup : (fields.map Prod.fst).Nodup) (key : Value)
    (ys : List (Value × Value)) :
    find? key ((plain fields).foldl (fun es e => put e.1 e.2 es) ys) =
      (find? key (plain fields)).or (find? key ys) := by
  induction fields generalizing ys with
  | nil => rfl
  | cons f rest ih =>
    obtain ⟨hnew, hrest⟩ := List.nodup_cons.mp hnodup
    rw [plain_cons, List.foldl_cons, ih hrest, find?_put, find?_cons]
    split
    · rename_i hsame
      have hnone : find? key (plain rest) = none := by
        refine find?_plain_eq_none fun g hg heq => hnew ?_
        have hname : f.1 = g.1 := Value.string.inj ((string_same_iff.mp hsame).symm.trans heq)
        exact hname ▸ List.mem_map_of_mem hg
      rw [hnone, Option.none_or, Option.some_or]
    · rfl

/-- The keys decide whether entries have a key in common. -/
theorem distinct_iff_keys :
    Distinct es ↔ (es.map Prod.fst).Pairwise fun k l => same k l = false := by
  rw [Distinct, List.pairwise_map]

/-- Fields of different names become entries of different keys. -/
theorem distinct_plain (hnodup : (fields.map Prod.fst).Nodup) : Distinct (plain fields) := by
  refine List.pairwise_map.mpr ((List.pairwise_map.mp hnodup).imp fun hne => ?_)
  exact Bool.eq_false_iff.mpr fun hsame => hne (Value.string.inj (same_string_iff.mp hsame))

/-- Fields that are put in one by one override what was there. -/
theorem overridden_foldl_put (hys : Distinct ys) (hnodup : (fields.map Prod.fst).Nodup) :
    Overridden ys (plain fields) ((plain fields).foldl (fun es e => put e.1 e.2 es) ys) := by
  have hkeys := keys_foldl_put hnodup ys
  refine ⟨hkeys, ?_, fun key => find?_foldl_put hnodup key ys, fun e he key => ?_⟩
  on_goal 2 =>
    obtain ⟨f, -, rfl⟩ := List.mem_map.mp he
    exact same_string_iff
  have hplain := distinct_iff_keys.mp (distinct_plain hnodup)
  rw [distinct_iff_keys, hkeys, List.pairwise_append]
  refine ⟨distinct_iff_keys.mp hys, hplain.filter _, fun k hk l hl => ?_⟩
  obtain ⟨e, he, rfl⟩ := List.mem_map.mp hk
  have hnone : find? l ys = none := Option.isNone_iff_eq_none.mp (List.mem_filter.mp hl).2
  exact find?_eq_none_iff.mp hnone e he

end Value

namespace Node

open Provision.Value

/-! ### Two documents -/

/-- The document of a file, if there is one. -/
inductive Given (host : Host) (format : Format) : Option Path → Option Value → Prop
  | absent : Given host format none none
  | file {path : Path} {v : Value} (h : readFile host format path = .ok v) :
      Given host format (some path) (some v)

/-- A document has attributes: those of a mapping without a tag. No document and an empty one
have none. -/
inductive Has : Option Value → List (Value × Value) → Prop
  | absent : Has none []
  | null : Has (some .null) []
  | mapping (entries : List (Value × Value)) : Has (some (.mapping entries)) entries

variable {host : Host} {format : Format} {file yaml json : Option Path} {doc Y J : Option Value}
  {es ys js : List (Value × Value)}

/-- Attributes of a document are put in one by one. -/
theorem mergeFile_of_has (h : Given host format file doc) (hes : Has doc es)
    (attributes : List (Value × Value)) :
    mergeFile host format attributes file =
      .ok (es.foldl (fun es e => put e.1 e.2 es) attributes) := by
  cases h with
  | absent =>
    cases hes
    rfl
  | file h =>
    rw [mergeFile, h]
    cases hes <;> rfl

/-- A document that has no attributes is a failure. -/
theorem mergeFile_of_not_has (h : Given host format file doc) (hnone : ¬∃ es, Has doc es)
    (attributes : List (Value × Value)) :
    ∃ f, mergeFile host format attributes file = .error f := by
  cases h with
  | absent => exact absurd ⟨[], .absent⟩ hnone
  | @file path v h =>
    refine ⟨.notAMapping path, ?_⟩
    rw [mergeFile, h]
    cases v with
    | null => exact absurd ⟨[], .null⟩ hnone
    | mapping entries => exact absurd ⟨entries, .mapping entries⟩ hnone
    | _ => rfl

/-- The attributes of a YAML document have keys of their own. -/
theorem distinct_of_yaml (h : Given host .yaml file doc) (hes : Has doc es) : Distinct es := by
  cases hes with
  | absent | null => exact .nil
  | mapping =>
    cases h with
    | file h =>
      obtain ⟨text, -, h⟩ := Except.bind_eq_ok_iff.mp h
      rw [Except.mapError_eq_ok_iff, Format.read, Except.mapError_eq_ok_iff] at h
      exact Yaml.distinct_of_read h

/-- The attributes of a JSON document are fields. -/
theorem exists_fields_of_json (h : Given host .json file doc) (hes : Has doc es) :
    ∃ fields, (fields.map Prod.fst).Nodup ∧ es = plain fields := by
  cases hes with
  | absent | null => exact ⟨[], List.nodup_nil, rfl⟩
  | mapping =>
    cases h with
    | file h =>
      obtain ⟨text, -, h⟩ := Except.bind_eq_ok_iff.mp h
      rw [Except.mapError_eq_ok_iff, Format.read, Except.mapError_eq_ok_iff] at h
      exact exists_fields_of_readJson h

/-- The attributes of the YAML document are overridden by those of the JSON document. -/
theorem load_of_has (hY : Given host .yaml yaml Y) (hJ : Given host .json json J) (hys : Has Y ys)
    (hjs : Has J js) : ∃ es, load host yaml json = .ok (.mapping es) ∧ Overridden ys js es := by
  have hdistinct : Distinct ys := distinct_of_yaml hY hys
  obtain ⟨fields, hnodup, rfl⟩ := exists_fields_of_json hJ hjs
  refine ⟨_, ?_, overridden_foldl_put hdistinct hnodup⟩
  have hfirst : mergeFile host .yaml [] yaml = .ok ys := by
    rw [mergeFile_of_has hY hys, @foldl_put_of_distinct [] ys hdistinct]
    rfl
  rw [load, hfirst]
  change (mergeFile host .json ys json >>= _) = _
  rw [mergeFile_of_has hJ hjs]
  rfl

/-- Both files must hold a mapping, or nothing, for a node to be loaded. -/
theorem load_ok_iff (hY : Given host .yaml yaml Y) (hJ : Given host .json json J) :
    (∃ node, load host yaml json = .ok node) ↔ (∃ ys, Has Y ys) ∧ ∃ js, Has J js := by
  constructor
  · rintro ⟨node, h⟩
    obtain ⟨first, hfirst, h⟩ := Except.bind_eq_ok_iff.mp h
    obtain ⟨second, hsecond, -⟩ := Except.bind_eq_ok_iff.mp h
    constructor
    · by_contra hnone
      obtain ⟨f, hf⟩ := mergeFile_of_not_has hY hnone []
      cases hfirst.symm.trans hf
    · by_contra hnone
      obtain ⟨f, hf⟩ := mergeFile_of_not_has hJ hnone first
      cases hsecond.symm.trans hf
  · rintro ⟨⟨ys, hys⟩, js, hjs⟩
    obtain ⟨es, hload, -⟩ := load_of_has hY hJ hys hjs
    exact ⟨_, hload⟩

/-! ### Attributes in recipes -/

/-- The scopes in which recipes are built: that in which files are loaded, where the node has a
name, and those that come from one by an invocation. -/
inductive InScope (node : Value) : Scope → Prop
  | loaded : InScope node (OrderedMap.empty.insert "node" (.constant node))
  | invoked {s : Scope} (h : InScope node s) (params : Value) :
      InScope node (s.insert "params" (.constant params))

namespace InScope

variable {node : Value} {s : Scope}

/-- The scopes that recipes are evaluated in hold constants only. -/
theorem constant (h : InScope node s) : s.Constant := by
  induction h with
  | loaded => exact OrderedMap.forall_insert nofun ⟨node, rfl⟩
  | invoked _ params ih => exact OrderedMap.forall_insert ih ⟨params, rfl⟩

/-- In such a scope, the node is found under its name. -/
theorem get?_node (h : InScope node s) : s.get? "node" = some (.constant node) := by
  induction h with
  | loaded => rw [OrderedMap.get?_insert, if_pos rfl]
  | invoked _ params ih => rwa [OrderedMap.get?_insert, if_neg (by decide)]

/-- A path into the node leads to its attribute. -/
theorem find?_attribute (h : InScope (.mapping es) s) {key : String} (hkey : Scope.IsSegment key)
    {v : Value} (hv : field? key es = some v) : s.find? ("node." ++ key) = some v := by
  have hsegments : Scope.segments ("node." ++ key) = ["node", key] := by
    have hpath : "node." ++ key = "node" ++ "." ++ key := rfl
    have hnode : Scope.segments "node" = ["node"] := by decide
    have hkeySegments : Scope.segments key = [key] := by
      rw [Scope.segments, Text.split_of_not_mem hkey.1, List.map_singleton, hkey.2,
        String.ofList_toList]
    rw [hpath, Scope.segments_append, hnode, hkeySegments]
    rfl
  refine h.constant.find?_eq_some_iff.mpr
    ⟨"node", [key], .mapping es, [.key key], hsegments, h.get?_node, ?_, ?_⟩
  · exact .cons (.key key) .nil
  · exact .key hv .here

/-- Recipes that are nested in a recipe with such a scope have such a scope as well, so that it
does not matter to any operation how they would be built in another one. -/
theorem statements_same {c : Context} (hc : InScope node c.scope) {x y : Expansion}
    (hxy : ∀ (c : Context) (body : Body), InScope node c.scope → x c body = y c body)
    (host : Host) :
    sameness.Statements host (fun i => if i then y else x) (fun _ => c) (fun _ => True)
      fun _ => True where
  act := sameness_of_eq rfl
  identifier _ _ _ _ := sameness_of_eq rfl
  meaning _ _ _ _ := ⟨rfl, fun _ meaning _ _ =>
    ⟨meaning, rfl, fun _ => sameness_of_eq rfl, fun _ _ => trivial⟩⟩
  resource _ _ _ _ _ _ := sameness_of_eq rfl
  invoke _ _ block _ d _ name := by
    have hbody (id : Nat) (params : Value) :
        x ⟨id, c.scope.insert "params" (.constant params)⟩ d.body =
          y ⟨id, c.scope.insert "params" (.constant params)⟩ d.body :=
      hxy _ _ (hc.invoked params)
    refine sameness_of_eq ?_
    change c.invoke x d name block = c.invoke y d name block
    unfold Context.invoke
    simp only [hbody]
  define _ _ _ _ := sameness_of_eq rfl
  target _ _ := sameness_of_eq rfl
  inclusion _ _ resolved := by
    have hfile (id : Nat) (list : List Statement) :
        x ⟨id, c.scope⟩ (.statements list) = y ⟨id, c.scope⟩ (.statements list) := hxy _ _ hc
    refine sameness_of_eq ?_
    change c.includeRecipe host x resolved = c.includeRecipe host y resolved
    unfold Context.includeRecipe Context.includeFile
    simp only [hfile]

/-- The same comes of statements, however recipes would be built in another scope. -/
theorem performAll_congr {c : Context} (hc : InScope node c.scope) {x y : Expansion}
    (hxy : ∀ (c : Context) (body : Body), InScope node c.scope → x c body = y c body)
    (host : Host) (list : List Statement) :
    c.performAll host x list = c.performAll host y list :=
  ((hc.statements_same hxy host).performAll fun _ _ => trivial).1

end InScope

/-- Wherever the attributes of the node are `es`, those of `js` are read. -/
structure Prevails (js es : List (Value × Value)) : Prop where
  /-- Recipes that are nested in a recipe have the node in scope as that has it: how nested recipes
  would be built in any other scope does not matter. -/
  nested : ∀ {c : Context}, InScope (.mapping es) c.scope → ∀ {x y : Expansion},
    (∀ (c : Context) (body : Body), InScope (.mapping es) c.scope → x c body = y c body) →
      ∀ (host : Host) (list : List Statement), c.performAll host x list = c.performAll host y list
  /-- The placeholder of an attribute has its value, and its text in a text. -/
  reads : ∀ {s : Scope}, InScope (.mapping es) s → ∀ {key : String} {v : Value},
    (.string key, v) ∈ js → Scope.IsSegment key → '\x7b' ∉ key.toList → '\x7d' ∉ key.toList →
      Reads.Gives (s.resolve (.string (Scope.mention ("node." ++ key)))) (.ok v) ∧
        Reads.Gives (s.resolveText (Scope.mention ("node." ++ key))) (.ok v.text)

/-- The attributes that override others prevail over them, wherever the node is read. -/
theorem prevails_of_overridden {fields : List (String × Value)}
    (hnodup : (fields.map Prod.fst).Nodup) (h : Overridden ys (plain fields) es) :
    Prevails (plain fields) es := by
  refine ⟨fun hc _ _ hxy => hc.performAll_congr hxy, fun {s} hs {key v} hv hkey hopen hclose => ?_⟩
  have hfound : field? key es = some v := by
    obtain ⟨f, hf, heq⟩ := List.mem_map.mp hv
    cases heq
    have hfield : field? f.1 (plain fields) = some f.2 := by
      rw [field?_plain, OrderedMap.find?_eq_some_iff hnodup]
      exact hf
    rw [field?, h.find?_eq, ← field?, hfield, Option.some_or]
  have hpath : ("node." ++ key).toList = "node.".toList ++ key.toList := String.toList_append
  refine hs.constant.resolve_mention ?_ ?_ ?_ (hs.find?_attribute hkey hfound)
  · rw [hpath, List.mem_append]
    exact not_or.mpr ⟨by decide, hopen⟩
  · rw [hpath, List.mem_append]
    exact not_or.mpr ⟨by decide, hclose⟩
  · rw [hpath, Text.trim_append (by decide) hkey.2]

/-- The attributes of a node are those of its YAML document, overridden by those of its JSON
document, if each of the two that is given is a mapping without a tag, or empty. So a placeholder
for an attribute of the JSON document has its value in every recipe. -/
theorem load_overrides (hY : Given host .yaml yaml Y) (hJ : Given host .json json J) :
    ((∃ node, load host yaml json = .ok node) ↔ (∃ ys, Has Y ys) ∧ ∃ js, Has J js) ∧
      ∀ ys js, Has Y ys → Has J js →
        ∃ es, load host yaml json = .ok (.mapping es) ∧ Overridden ys js es ∧ Prevails js es := by
  refine ⟨load_ok_iff hY hJ, fun ys js hys hjs => ?_⟩
  obtain ⟨es, hload, hes⟩ := load_of_has hY hJ hys hjs
  obtain ⟨fields, hnodup, rfl⟩ := exists_fields_of_json hJ hjs
  exact ⟨es, hload, hes, prevails_of_overridden hnodup hes⟩

/-- A host whose YAML file has a number for a key, and whose JSON file has its digits for one. -/
def overriding : Host :=
  Host.ofFacts [(⟨"/node.yml"⟩, some (.file (.ok "80: a\nport: 80\nrole:\n  web: 1\n"))),
    (⟨"/node.json"⟩, some (.file (.ok "\x7b\"80\": \"b\", \"role\": \"db\"\x7d")))] none ⟨"/"⟩

/-- The mapping that is read as attributes, if it has a property. -/
theorem exists_mapping {x : Except Failure Value} (p : List (Value × Value) → Bool)
    (h : x.toOption.any (fun v => match v with | .mapping es => p es | _ => false) = true) :
    ∃ es, x = .ok (.mapping es) ∧ p es = true := by
  cases x with
  | error f => cases h
  | ok v =>
    cases v with
    | mapping es => exact ⟨es, rfl, h⟩
    | _ => cases h

/-- A mapping is replaced, and a string is another key than a number of the same digits. -/
theorem load_overrides_overriding : ∃ ys js es,
    Given overriding .yaml (some ⟨"/node.yml"⟩) (some (.mapping ys)) ∧
      Given overriding .json (some ⟨"/node.json"⟩) (some (.mapping js)) ∧
      load overriding (some ⟨"/node.yml"⟩) (some ⟨"/node.json"⟩) = .ok (.mapping es) ∧
      Overridden ys js es ∧
      es.map (fun e => (e.1.text, e.2.text)) =
        [("80", "a"), ("port", "80"), ("role", "db"), ("80", "b")] ∧
      Reads.Gives (Scope.resolve (OrderedMap.empty.insert "node" (.constant (.mapping es)))
        (.string (Scope.mention "node.role"))) (.ok (.string "db")) := by
  obtain ⟨ys, hys, -⟩ := exists_mapping (x := readFile overriding .yaml ⟨"/node.yml"⟩)
    (fun _ => true) (by decide +kernel)
  obtain ⟨js, hjs, hrole⟩ := exists_mapping (x := readFile overriding .json ⟨"/node.json"⟩)
    (fun es => es.any fun e => same (.string "role") e.1 && same (.string "db") e.2)
    (by decide +kernel)
  obtain ⟨shown, hload, hshown⟩ := exists_mapping
    (x := load overriding (some ⟨"/node.yml"⟩) (some ⟨"/node.json"⟩))
    (fun es => es.map (fun e => (e.1.text, e.2.text)) ==
      [("80", "a"), ("port", "80"), ("role", "db"), ("80", "b")]) (by decide +kernel)
  obtain ⟨es, hes, hoverridden, hprevails⟩ :=
    (load_overrides (.file hys) (.file hjs)).2 ys js (.mapping ys) (.mapping js)
  cases hload.symm.trans hes
  have hmem : (.string "role", .string "db") ∈ js := by
    obtain ⟨⟨key, v⟩, he, hsame⟩ := List.any_eq_true.mp hrole
    rw [Bool.and_eq_true, string_same_iff, string_same_iff] at hsame
    obtain ⟨rfl, rfl⟩ := hsame
    exact he
  exact ⟨ys, js, shown, .file hys, .file hjs, hload, hoverridden, beq_iff_eq.mp hshown,
    (hprevails.reads .loaded hmem ⟨by decide, by decide⟩ (by decide) (by decide)).1⟩

end Node

end Provision
