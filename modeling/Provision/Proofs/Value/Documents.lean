import Provision.Proofs.Settings
import Provision.Proofs.Statement.Spelling
import Provision.Value.Document
import Provision.Yaml.Document

/-!
# Keys of documents

A mapping that comes from a document has no key twice, as both readers refuse a key that is there
already. In a mapping that comes from a JSON document the keys are moreover plain strings.
-/

namespace Provision

namespace Value

/-- No two entries have the same key. -/
def Distinct (entries : List (Value × Value)) : Prop :=
  entries.Pairwise fun e f => same e.1 f.1 = false

/-- The first entry with the key is the one that counts. -/
theorem find?_cons (key k v : Value) (rest : List (Value × Value)) :
    find? key ((k, v) :: rest) = if same k key then some v else find? key rest := rfl

/-- Nothing is found under a key exactly if no entry has it. -/
theorem find?_eq_none_iff {key : Value} {entries : List (Value × Value)} :
    find? key entries = none ↔ ∀ e ∈ entries, same e.1 key = false := by
  induction entries with
  | nil => simp [find?]
  | cons e rest ih =>
    obtain ⟨k, v⟩ := e
    rw [find?_cons, List.forall_mem_cons, ← ih]
    cases same k key <;> simp

/-- An entry may be added whose key is not found. -/
theorem Distinct.concat {entries : List (Value × Value)} (h : Distinct entries) {key : Value}
    (hnew : find? key entries = none) (v : Value) : Distinct (entries ++ [(key, v)]) := by
  refine List.pairwise_append.mpr ⟨h, List.pairwise_singleton _ _, fun e he f hf => ?_⟩
  obtain rfl := List.mem_singleton.mp hf
  exact find?_eq_none_iff.mp hnew e he

/-! ### JSON documents -/

/-- A number is no mapping. -/
theorem ofNumeral?_ne_mapping {n : Json.Numeral} {entries : List (Value × Value)} :
    ofNumeral? n ≠ some (.mapping entries) := by
  unfold ofNumeral?
  dsimp only
  split
  · simp
  · split <;> simp
  · simp

/-- The fields of an object become entries with their names for keys, and no name comes twice. -/
theorem exists_fields_of_ofFieldList {fields : List (String × Json)}
    {front : List (String × Value)} (hfront : (front.map Prod.fst).Nodup)
    {entries : List (Value × Value)} (h : ofFieldList (plain front) fields = .ok entries) :
    ∃ all, (all.map Prod.fst).Nodup ∧ entries = plain all := by
  induction fields generalizing front with
  | nil =>
    rw [ofFieldList] at h
    exact ⟨front, hfront, (Except.ok.inj h).symm⟩
  | cons field rest ih =>
    obtain ⟨key, j⟩ := field
    rw [ofFieldList] at h
    cases hfound : field? key (plain front) with
    | some v =>
      rw [hfound] at h
      cases h
    | none =>
      have hnew : key ∉ front.map Prod.fst := by
        rw [field?_plain] at hfound
        exact OrderedMap.find?_eq_none_iff.mp hfound
      cases hj : ofJson j with
      | error e =>
        rw [hfound, hj] at h
        cases h
      | ok v =>
        rw [hfound, hj] at h
        have hplain : plain front ++ [(.string key, v)] = plain (front ++ [(key, v)]) := by
          simp [plain]
        have hrest : ofFieldList (plain front ++ [(.string key, v)]) rest = .ok entries := h
        rw [hplain] at hrest
        refine ih ?_ hrest
        rw [List.map_append, List.nodup_append]
        refine ⟨hfront, by simp, fun name hname other hother => ?_⟩
        obtain rfl : other = key := by simpa using hother
        exact fun heq => hnew (heq ▸ hname)

/-- The keys of a mapping that is read as JSON are strings, none of them twice. -/
theorem exists_fields_of_readJson {text : String} {entries : List (Value × Value)}
    (h : readJson text = .ok (.mapping entries)) :
    ∃ fields, (fields.map Prod.fst).Nodup ∧ entries = plain fields := by
  obtain ⟨j, -, hj⟩ := Except.bind_eq_ok_iff.mp h
  cases j with
  | object fields =>
    rw [ofJson] at hj
    obtain ⟨es, hes, heq⟩ := Except.map_eq_ok_iff.mp hj
    cases heq
    exact @exists_fields_of_ofFieldList _ [] List.nodup_nil _ hes
  | number text =>
    rw [ofJson] at hj
    split at hj
    · rename_i v hv
      obtain ⟨n, -, hn⟩ := Option.bind_eq_some_iff.mp hv
      cases hj
      exact absurd hn ofNumeral?_ne_mapping
    · cases hj
  | array items =>
    rw [ofJson] at hj
    obtain ⟨vs, -, heq⟩ := Except.map_eq_ok_iff.mp hj
    cases heq
  | null | bool | string => cases hj

end Value

/-! ### YAML documents -/

namespace Yaml

open Provision.Value

namespace Composing

variable {α β : Type}

/-- Whatever a computation results in has a property. -/
def Yields (x : Composing α) (P : α → Prop) : Prop := ∀ s a s', x.run s = .ok (a, s') → P a

variable {x : Composing α} {P : α → Prop} {Q : β → Prop}

/-- A value with the property is one that is yielded with it. -/
theorem yields_pure {a : α} (h : P a) : Yields (pure a) P := by
  rintro s _ _ ⟨⟩
  exact h

/-- A failure yields nothing. -/
theorem yields_throw (cause : Cause) : Yields (throw cause : Composing α) P := nofun

/-- What follows no alias yields what it results in. -/
theorem yields_lift {r : Result α} (h : ∀ a, r = .ok a → P a) : Yields (liftM r) P := by
  intro s a s' hrun
  cases r with
  | error cause => cases hrun
  | ok b =>
    cases hrun
    exact h _ rfl

/-- What follows may rely on the property of what was yielded. -/
theorem Yields.bind {f : α → Composing β} (hx : Yields x P) (hf : ∀ a, P a → Yields (f a) Q) :
    Yields (x >>= f) Q := by
  intro s b s' h
  rw [StateT.run_bind] at h
  obtain ⟨⟨a, s''⟩, hrun, hrest⟩ := Except.bind_eq_ok_iff.mp h
  exact hf a (hx s a s'' hrun) s'' b s' hrest

/-- It need not rely on it. -/
theorem yields_bind {f : α → Composing β} (hf : ∀ a, Yields (f a) Q) : Yields (x >>= f) Q :=
  Yields.bind (P := fun _ => True) (fun _ _ _ _ => trivial) fun a _ => hf a

/-- What each step keeps is kept by all of them. -/
theorem yields_foldlM {f : β → α → Composing β} (hf : ∀ b a, Q b → Yields (f b a) Q) {b : β}
    (hb : Q b) (as : List α) : Yields (as.foldlM f b) Q := by
  induction as generalizing b with
  | nil => exact yields_pure hb
  | cons a as ih =>
    rw [List.foldlM_cons]
    exact (hf b a hb).bind fun b' hb' => ih hb'

end Composing

open Provision.Yaml.Composing

/-- A value that is plain by the way it is written is no mapping. -/
theorem plainValue_ne_mapping {cs : List Char} {entries : List (Value × Value)} :
    plainValue cs ≠ .ok (.mapping entries) := by
  unfold plainValue int?
  grind

/-- No scalar with a type is a mapping. -/
theorem typedValue_ne_mapping {tag : Tag} {cs : List Char} {entries : List (Value × Value)} :
    typedValue tag cs ≠ .ok (.mapping entries) := by
  unfold typedValue int?
  grind

/-- No scalar is a mapping. -/
theorem scalarValue_ne_mapping {p : Properties} {cs : List Char} {plain : Bool}
    {entries : List (Value × Value)} : scalarValue p cs plain ≠ .ok (.mapping entries) := by
  have hplain : plainValue cs ≠ .ok (.mapping entries) := plainValue_ne_mapping
  have htyped (tag : Tag) : typedValue tag cs ≠ .ok (.mapping entries) := typedValue_ne_mapping
  unfold scalarValue
  grind

/-- If a value is a mapping, no two entries of it have the same key. -/
def KeyedOnce (v : Value) : Prop := ∀ entries, v = .mapping entries → Distinct entries

/-- A tag adds no keys. -/
theorem KeyedOnce.applyTag {v : Value} (h : KeyedOnce v) (p : Properties) :
    KeyedOnce (applyTag p v) := by
  unfold Yaml.applyTag
  split
  · exact nofun
  · exact h

/-- A scalar yields no mapping. -/
theorem yields_scalar (p : Properties) (cs : List Char) (plain : Bool) :
    Yields (do return applyTag p (← scalarValue p cs plain)) KeyedOnce := by
  have hscalar : Yields (liftM (scalarValue p cs plain)) KeyedOnce := by
    refine yields_lift fun v hv entries hentries => ?_
    exact absurd (hentries ▸ hv) scalarValue_ne_mapping
  exact hscalar.bind fun v hv => yields_pure (hv.applyTag p)

/-- Entries are composed one by one, and a key that is there already is refused. -/
theorem yields_entries (compose : LinkedNode → Composing Value)
    (entries : List (LinkedNode × LinkedNode)) :
    Yields (entries.foldlM (fun es (k, v) => do
      let k ← compose k
      if (find? k es).isSome then throw .duplicateKey
      let v ← compose v
      return es ++ [(k, v)]) ([] : List (Value × Value))) Distinct := by
  refine yields_foldlM (fun es e (hes : Distinct es) => ?_) List.Pairwise.nil entries
  refine yields_bind fun k => ?_
  split
  · exact Yields.bind (yields_throw (P := fun _ => False) _) nofun
  · rename_i hnew
    have hnone : find? k es = none := Option.not_isSome_iff_eq_none.mp hnew
    exact yields_bind fun v => yields_pure (hes.concat hnone v)

/-- Whatever node is composed, no mapping has a key twice. -/
theorem compose_yields (l : Linked) (depth : Nat) (n : LinkedNode) :
    Yields (l.compose depth n) KeyedOnce := by
  -- Its equations are not generated, so the recursion is opened by hand.
  delta Linked.compose
  cases depth with
  | zero =>
    refine yields_bind fun target => ?_
    cases target with
    | scalar p text plain => exact yields_scalar p text plain
    | «alias» | sequence | mapping => exact yields_throw _
  | succ depth =>
    refine yields_bind fun target => ?_
    cases target with
    | scalar p text plain => exact yields_scalar p text plain
    | «alias» => exact yields_throw _
    | sequence p items =>
      have hsequence (vs : List Value) : KeyedOnce (.sequence vs) := nofun
      exact yields_bind fun vs => yields_pure ((hsequence vs).applyTag p)
    | mapping p entries =>
      refine (yields_entries _ entries).bind fun es hes => yields_pure (KeyedOnce.applyTag ?_ p)
      rintro _ ⟨⟩
      exact hes

/-- No two entries of a mapping that is read as YAML have the same key. -/
theorem distinct_of_read {text : String} {entries : List (Value × Value)}
    (h : read text = .ok (.mapping entries)) : Distinct entries := by
  unfold read at h
  dsimp only at h
  split at h
  · cases h
  · obtain ⟨ts, -, h⟩ := Except.bind_eq_ok_iff.mp h
    obtain ⟨root?, -, h⟩ := Except.bind_eq_ok_iff.mp h
    cases root? with
    | none => cases h
    | some root =>
      obtain ⟨l, -, h⟩ := Except.bind_eq_ok_iff.mp h
      obtain ⟨⟨v, left⟩, hv, h⟩ := Except.bind_eq_ok_iff.mp h
      cases h
      exact compose_yields l maxDepth l.root _ _ left hv entries rfl

end Yaml

end Provision
