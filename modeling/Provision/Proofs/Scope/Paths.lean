import Mathlib.Data.List.Forall2
import Provision.Proofs.Scope.Splitting
import Provision.Proofs.Text.Segments

/-!
# Dotted paths

A path leads from the value of a name into that value, along keys of mappings and indices of
sequences. In a scope of constants it leads to the part that its segments select one after the
other, and to nothing else. Every part of a value can be reached, as long as the keys on the way
can be written in a path. A path that leads nowhere leads nowhere whatever is appended to it.
-/

namespace Provision

namespace Value

/-- What selects a part of a value. -/
inductive Selector where
  /-- The entry of a mapping under a string. -/
  | key (name : String)
  /-- The item of a sequence at an index. -/
  | index (i : Nat)
  deriving DecidableEq

namespace Selector

/-- How a selector is written as a segment of a path. -/
def segment : Selector → String
  | key name => name
  | index i => String.ofList (Text.natDigits i)

/-- A segment stands for a selector: for the key that it is, or for an index that it is a
numeral of. -/
inductive Names : Selector → String → Prop
  | key (name : String) : (key name).Names name
  | index {segment : String} {i : Nat} (h : Text.Numeral segment.toList i) :
      (index i).Names segment

/-- A selector is among those that its own segment stands for. -/
theorem names_segment (x : Selector) : x.Names x.segment := by
  cases x with
  | key name => exact .key name
  | index i =>
    refine .index ?_
    rw [segment, String.toList_ofList]
    exact Text.numeral_natDigits i

end Selector

/-- Selectors lead from a value to a part of it. -/
inductive Reaches : Value → List Selector → Value → Prop
  | here {v : Value} : Reaches v [] v
  | key {entries : List (Value × Value)} {name : String} {v w : Value} {xs : List Selector}
      (hentry : field? name entries = some v) (hrest : v.Reaches xs w) :
      Reaches (.mapping entries) (.key name :: xs) w
  | index {items : List Value} {i : Nat} {v w : Value} {xs : List Selector}
      (hitem : items[i]? = some v) (hrest : v.Reaches xs w) :
      Reaches (.sequence items) (.index i :: xs) w

/-- One key leads to a part that it selects. -/
theorem child?_eq_some_iff {v w : Value} {key : String} :
    v.child? key = some w ↔ ∃ x : Selector, x.Names key ∧ v.Reaches [x] w := by
  constructor
  · intro h
    cases v with
    | mapping entries => exact ⟨_, .key key, .key h .here⟩
    | sequence items =>
      obtain ⟨i, hi, hitem⟩ := Option.bind_eq_some_iff.mp h
      exact ⟨_, .index (readIndex?_eq_some_iff.mp hi), .index hitem .here⟩
    | _ => cases h
  · rintro ⟨x, hx, hv⟩
    cases hv with
    | key hentry hrest =>
      cases hrest
      cases hx
      exact hentry
    | index hitem hrest =>
      cases hrest
      cases hx with
      | index hi => exact Option.bind_eq_some_iff.mpr ⟨_, readIndex?_eq_some_iff.mpr hi, hitem⟩

/-- Several selectors lead on from where the first one leads. -/
theorem reaches_cons_iff {v w : Value} {x : Selector} {xs : List Selector} :
    v.Reaches (x :: xs) w ↔ ∃ part, v.Reaches [x] part ∧ part.Reaches xs w := by
  constructor
  · intro h
    cases h with
    | key hentry hrest => exact ⟨_, .key hentry .here, hrest⟩
    | index hitem hrest => exact ⟨_, .index hitem .here, hrest⟩
  · rintro ⟨part, hpart, hrest⟩
    cases hpart with
    | key hentry hend =>
      cases hend
      exact .key hentry hrest
    | index hitem hend =>
      cases hend
      exact .index hitem hrest

/-- Keys lead to the part that is reached by selectors which they stand for. -/
theorem descend?_eq_some_iff {v w : Value} {keys : List String} :
    descend? keys v = some w ↔
      ∃ xs, List.Forall₂ Selector.Names xs keys ∧ v.Reaches xs w := by
  induction keys generalizing v with
  | nil =>
    simp only [descend?, Option.some.injEq, List.forall₂_nil_right_iff, exists_eq_left]
    constructor
    · rintro rfl
      exact .here
    · intro h
      cases h
      rfl
  | cons key keys ih =>
    simp only [descend?, Option.bind_eq_some_iff, child?_eq_some_iff, ih]
    constructor
    · rintro ⟨part, ⟨x, hx, hpart⟩, xs, hxs, hrest⟩
      exact ⟨x :: xs, .cons hx hxs, reaches_cons_iff.mpr ⟨part, hpart, hrest⟩⟩
    · rintro ⟨_, hxs, h⟩
      cases hxs with
      | cons hx hxs =>
        obtain ⟨part, hpart, hrest⟩ := reaches_cons_iff.mp h
        exact ⟨part, ⟨_, hx, hpart⟩, _, hxs, hrest⟩

/-- Keys one after the other lead on from where those in front lead. -/
theorem descend?_append (keys others : List String) (v : Value) :
    descend? (keys ++ others) v = (descend? keys v).bind (descend? others) := by
  induction keys generalizing v with
  | nil => rfl
  | cons key keys ih =>
    simp only [List.cons_append, descend?, Option.bind_assoc]
    exact congrArg _ (funext ih)

/-- One step down leads to a child. -/
theorem descend?_singleton (key : String) (v : Value) : descend? [key] v = v.child? key :=
  Option.bind_fun_some _

end Value

namespace Scope

/-! ### Writing paths -/

/-- A text can be written as a segment: it has no dot, and no blanks at its ends. -/
def IsSegment (name : String) : Prop := '.' ∉ name.toList ∧ Text.trim name.toList = name.toList

/-- A segment is written with any blanks around it. -/
def Pads (piece : List Char) (name : String) : Prop :=
  ∃ before after, Text.Blank before ∧ Text.Blank after ∧ piece = before ++ name.toList ++ after

/-- A path is written from segments, with dots between them. -/
def Spells (path : String) (names : List String) : Prop :=
  ∃ pieces, path.toList = Text.join '.' pieces ∧ List.Forall₂ Pads pieces names

/-- Blanks around a segment bring no dot into it. -/
theorem Pads.dot_not_mem {piece : List Char} {name : String} (h : Pads piece name)
    (hname : IsSegment name) : '.' ∉ piece := by
  obtain ⟨before, after, hbefore, hafter, rfl⟩ := h
  have hblank : Text.isBlank '.' = false := by decide
  simp [hbefore.not_mem hblank, hafter.not_mem hblank, hname.1]

/-- Trimming takes the blanks around a segment off again. -/
theorem Pads.trim {piece : List Char} {name : String} (h : Pads piece name)
    (hname : IsSegment name) : String.ofList (Text.trim piece) = name := by
  obtain ⟨before, after, hbefore, hafter, rfl⟩ := h
  rw [Text.trim_padded hbefore _ hafter, hname.2, String.ofList_toList]

/-- Names with blanks around them have no dots, and without the blanks they are the names. -/
theorem forall₂_pads {pieces : List (List Char)} {names : List String}
    (h : List.Forall₂ Pads pieces names) (hnames : ∀ name ∈ names, IsSegment name) :
    (∀ piece ∈ pieces, '.' ∉ piece) ∧
      pieces.map (fun piece => String.ofList (Text.trim piece)) = names := by
  induction h with
  | nil => exact ⟨nofun, rfl⟩
  | cons hpiece _ ih =>
    obtain ⟨hname, hrest⟩ := List.forall_mem_cons.mp hnames
    obtain ⟨hdot, htrim⟩ := ih hrest
    exact ⟨List.forall_mem_cons.mpr ⟨hpiece.dot_not_mem hname, hdot⟩,
      List.cons_eq_cons.mpr ⟨hpiece.trim hname, htrim⟩⟩

/-- The segments that a path is written from are those that are found in it. -/
theorem segments_of_spells {path : String} {names : List String} (h : Spells path names)
    (hne : names ≠ []) (hnames : ∀ name ∈ names, IsSegment name) : segments path = names := by
  obtain ⟨pieces, hpath, hpieces⟩ := h
  obtain ⟨hdot, htrim⟩ := forall₂_pads hpieces hnames
  have hsome : pieces ≠ [] := by
    rintro rfl
    cases hpieces
    exact hne rfl
  rw [segments, hpath, Text.split_join hsome hdot, htrim]

/-- An index can be written in a path. -/
theorem isSegment_natDigits (i : Nat) : IsSegment (String.ofList (Text.natDigits i)) := by
  rw [IsSegment, String.toList_ofList]
  refine ⟨fun hdot => ?_, Text.trim_of_not_blank fun c hc => ?_⟩
  · exact absurd (Text.isDigit_of_mem_natDigits hdot) (by decide)
  · exact Text.isBlank_of_isDigit (Text.isDigit_of_mem_natDigits hc)

/-- A dot joins the segments of what stands in front of it and behind it. -/
theorem segments_append (p q : String) : segments (p ++ "." ++ q) = segments p ++ segments q := by
  have htext : (p ++ "." ++ q).toList = p.toList ++ '.' :: q.toList := by simp
  rw [segments, htext, Text.split_append, List.map_append]
  rfl

/-- Every path has a first segment, which may be empty. -/
theorem exists_segments (path : String) : ∃ name keys, segments path = name :: keys := by
  refine List.exists_cons_of_ne_nil fun h => ?_
  exact Text.split_ne_nil '.' path.toList (List.map_eq_nil_iff.mp h)

/-! ### Looking paths up -/

variable {s : Scope}

/-- The value of a name before anything is read. -/
def value? (s : Scope) (name : String) : Option Value := ((s.read? name).run []).1

/-- What a path leads to is found by its first name and the steps from there. -/
theorem find?_of_segments {path name : String} {keys : List String}
    (h : segments path = name :: keys) :
    s.find? path = (s.value? name).bind (Value.descend? keys) := by
  rw [find?, lookup?, h]
  rfl

/-- A path is looked up by looking up the first part of it, and going on from there. -/
theorem find?_append (s : Scope) (p q : String) :
    s.find? (p ++ "." ++ q) = (s.find? p).bind (Value.descend? (segments q)) := by
  obtain ⟨name, keys, hp⟩ := exists_segments p
  have hpq : segments (p ++ "." ++ q) = name :: (keys ++ segments q) := by
    rw [segments_append, hp, List.cons_append]
  rw [find?_of_segments hp, find?_of_segments hpq, Option.bind_assoc]
  exact congrArg _ (funext (Value.descend?_append keys (segments q)))

/-- The value of a name is the constant that it is bound to. -/
theorem Constant.value?_eq_some_iff (hs : s.Constant) {name : String} {v : Value} :
    s.value? name = some v ↔ s.get? name = some (.constant v) := by
  unfold value? Scope.read?
  cases hb : s.get? name with
  | none => exact iff_of_false nofun nofun
  | some b =>
    obtain ⟨w, rfl⟩ := hs name b hb
    exact ⟨fun h => congrArg _ (congrArg _ (Option.some.inj h)), fun h => by cases h; rfl⟩

/-- A path leads to what its segments lead to: the first of them is a name, and the others stand
for selectors of parts of its value. -/
theorem Constant.find?_eq_some_iff (hs : s.Constant) {path : String} {v : Value} :
    s.find? path = some v ↔ ∃ name keys root xs, segments path = name :: keys ∧
      s.get? name = some (.constant root) ∧ List.Forall₂ Value.Selector.Names xs keys ∧
      root.Reaches xs v := by
  obtain ⟨name, keys, hpath⟩ := exists_segments path
  rw [find?_of_segments hpath, Option.bind_eq_some_iff]
  simp only [hs.value?_eq_some_iff, Value.descend?_eq_some_iff, hpath, List.cons.injEq]
  constructor
  · rintro ⟨root, hroot, xs, hkeys, hv⟩
    exact ⟨name, keys, root, xs, ⟨rfl, rfl⟩, hroot, hkeys, hv⟩
  · rintro ⟨_, _, root, xs, ⟨rfl, rfl⟩, hroot, hkeys, hv⟩
    exact ⟨root, hroot, xs, hkeys, hv⟩

/-- In a scope of constants, a path that is written from a name and from selectors leads to the
part of the value that they select, whatever blanks stand around its segments. No path leads
anywhere else: if one has a value, then that is the part of the value of its first segment that
the others select, each a key of a mapping or a numeral below the length of a sequence. To append
a segment is to go one key further, and a path that leads nowhere leads nowhere with any more
segments. -/
theorem Constant.find?_addresses (hs : s.Constant) :
    (∀ path, s.lookup? path = pure (s.find? path)) ∧
      (∀ path name root (xs : List Value.Selector) v, s.get? name = some (.constant root) →
        root.Reaches xs v → IsSegment name → (∀ key, .key key ∈ xs → IsSegment key) →
        Spells path (name :: xs.map (·.segment)) → s.find? path = some v) ∧
      (∀ path v, s.find? path = some v → ∃ name keys root xs, segments path = name :: keys ∧
        s.get? name = some (.constant root) ∧ List.Forall₂ Value.Selector.Names xs keys ∧
        root.Reaches xs v) ∧
      (∀ path key : String, '.' ∉ key.toList →
        s.find? (path ++ "." ++ key) = (s.find? path).bind (·.child? (Text.trimmed key))) ∧
      ∀ path rest, s.find? path = none → s.find? (path ++ "." ++ rest) = none := by
  refine ⟨hs.lookup?, ?_, fun path v => hs.find?_eq_some_iff.mp, ?_, ?_⟩
  · intro path name root xs v hroot hv hname hkeys hpath
    have hnames : ∀ n ∈ name :: xs.map (·.segment), IsSegment n := by
      refine List.forall_mem_cons.mpr ⟨hname, List.forall_mem_map.mpr fun x hx => ?_⟩
      cases x with
      | key key => exact hkeys key hx
      | index i => exact isSegment_natDigits i
    have hsegments := segments_of_spells hpath (List.cons_ne_nil _ _) hnames
    refine hs.find?_eq_some_iff.mpr ⟨name, _, root, xs, hsegments, hroot, ?_, hv⟩
    exact List.forall₂_map_right_iff.mpr (List.forall₂_same.mpr fun x _ => x.names_segment)
  · intro path key hdot
    have hkey : segments key = [Text.trimmed key] := by
      rw [segments, Text.split_of_not_mem hdot]
      rfl
    rw [find?_append, hkey]
    exact congrArg _ (funext (Value.descend?_singleton _))
  · intro path rest hnone
    rw [find?_append, hnone]
    rfl

/-- A scope with a mapping, in which a key is a numeral, and a sequence in it. -/
def racked : Scope :=
  OrderedMap.ofList [("node", .constant (.mapping [(.string "1", .null),
    (.string "racks", .sequence [.null, .mapping [(.string "", .bool true)]])]))]

/-- That scope is one of constants. -/
theorem constant_racked : racked.Constant := OrderedMap.forall_insert nofun ⟨_, rfl⟩

/-- An index may have zeros and a plus sign in front, and a key may be empty. -/
theorem Constant.find?_addresses_racked :
    racked.Constant ∧ racked.find? " node .racks.\t1 . " = some (.bool true) ∧
      (∃ name keys root xs, segments "node.racks.+01." = name :: keys ∧
        racked.get? name = some (.constant root) ∧
        List.Forall₂ Value.Selector.Names xs keys ∧ root.Reaches xs (.bool true)) ∧
      racked.find? ("node.racks" ++ "." ++ " 2") = none ∧
      racked.find? ("node.racks. 2" ++ "." ++ "1.x") = none := by
  obtain ⟨-, hspells, hreached, hstep, hnowhere⟩ := constant_racked.find?_addresses
  refine ⟨constant_racked, ?_, hreached _ _ rfl, ?_, hnowhere _ _ rfl⟩
  · refine hspells _ "node" _ [.key "racks", .index 1, .key ""] _ rfl
      (.key rfl (.index rfl (.key rfl .here))) ⟨by decide, by decide⟩ ?_ ?_
    · intro key hkey
      obtain rfl | rfl : key = "racks" ∨ key = "" := by simpa using hkey
      · exact ⟨by decide, by decide⟩
      · exact ⟨by decide, by decide⟩
    · exact ⟨[" node ".toList, "racks".toList, "\t1 ".toList, " ".toList], by decide,
        .cons ⟨[' '], [' '], by decide, by decide, by decide⟩
          (.cons ⟨[], [], by decide, by decide, by decide⟩
            (.cons ⟨['\t'], [' '], by decide, by decide, by decide⟩
              (.cons ⟨[' '], [], by decide, by decide, by decide⟩ .nil)))⟩
  · rw [hstep _ _ (by decide)]
    rfl

end Scope

end Provision
