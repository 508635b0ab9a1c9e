import Provision.Proofs.Scope.Whole
import Provision.Proofs.Statement.Grammar

/-!
# The leaves of a value

The leaves of a value are its strings, outside of keys and tags. Resolving a value in a scope of
constants puts other values in their place and keeps all else, so that what stands at a position
afterwards is what the part at that position resolves to. It fails exactly if a leaf does, and
then with the failure of the first one.
-/

namespace Provision

/-! ### Leaves and positions -/

namespace Value

mutual

/-- The strings of a value outside of keys and tags, in the order in which they are written. -/
def leaves : Value → List String
  | .string template => [template]
  | .sequence items => leavesItems items
  | .mapping entries => leavesEntries entries
  | _ => []

/-- The leaves of the items of a sequence. -/
def leavesItems : List Value → List String
  | [] => []
  | v :: rest => v.leaves ++ leavesItems rest

/-- The leaves of the values of entries. -/
def leavesEntries : List (Value × Value) → List String
  | [] => []
  | (_, v) :: rest => v.leaves ++ leavesEntries rest

end

/-- The part of a value at a position: each number is the place of an item in a sequence or of an
entry in a mapping. -/
def at? : List Nat → Value → Option Value
  | [], v => some v
  | i :: position, .sequence items => items[i]?.bind (at? position)
  | i :: position, .mapping entries => entries[i]?.bind fun e => at? position e.2
  | _ :: _, _ => none

/-- Whether a value is resolved to itself in every scope. -/
def isFixed : Value → Bool
  | .string _ | .sequence _ | .mapping _ => false
  | _ => true

/-- A value is another one with any values in the place of its leaves. -/
inductive Shapes : Value → Value → Prop
  | leaf (template : String) (w : Value) : Shapes (.string template) w
  | fixed {v : Value} (h : v.isFixed = true) : Shapes v v
  | sequence {items others : List Value} (h : List.Forall₂ Shapes items others) :
      Shapes (.sequence items) (.sequence others)
  | mapping {entries others : List (Value × Value)}
      (hkeys : entries.map Prod.fst = others.map Prod.fst)
      (h : List.Forall₂ Shapes (entries.map Prod.snd) (others.map Prod.snd)) :
      Shapes (.mapping entries) (.mapping others)

end Value

/-! ### Resolving without reads -/

/-- A computation that agrees with itself, whatever has been read, does not depend on reads. -/
theorem Reads.gives_of_agree {ε α : Type} {x : ExceptT ε (StateM Reads) α}
    (h : ∀ ρ, Agree ρ Eq x x) : Gives x (x.run.run []).1 := by
  intro r
  obtain ⟨hresult, hreads, -⟩ := h (fun after start => after = r ∧ start = []) r [] ⟨rfl, rfl⟩
  exact Prod.ext hresult.eq hreads

namespace Scope

/-- What a value resolves to before anything is read. -/
def resolved (s : Scope) (v : Value) : Except Undefined Value := ((s.resolve v).run.run []).1

section

variable {s : Scope} (hs : s.Constant)

include hs

/-- In a scope of constants, a value resolves to the same whatever has been read. -/
theorem Constant.resolve_gives (v : Value) : Reads.Gives (s.resolve v) (s.resolved v) :=
  -- Reads of constants are the same under any relation between what has been read.
  Reads.gives_of_agree fun ρ =>
    (agree_of_read (fun _ => True) (hs.read?_same ρ)).resolve
      (v.allTexts_of_forall fun _ => trivial)

/-- In a scope of constants, items resolve one by one. -/
theorem Constant.resolveItems_gives (items : List Value) :
    Reads.Gives (s.resolveItems items) (items.mapM s.resolved) := by
  induction items with
  | nil => exact Reads.gives_pure []
  | cons v rest ih =>
    rw [List.mapM_cons]
    exact (hs.resolve_gives v).and_then fun w => ih.and_then fun ws => Reads.gives_pure (w :: ws)

/-- The values of entries resolve one by one, and keys stay. -/
theorem Constant.resolveEntries_gives (entries : List (Value × Value)) :
    Reads.Gives (s.resolveEntries entries)
      (entries.mapM fun e => (s.resolved e.2).map fun w => (e.1, w)) := by
  induction entries with
  | nil => exact Reads.gives_pure []
  | cons e rest ih =>
    have hvalue := (hs.resolve_gives e.2).map fun w => (e.1, w)
    have hall := hvalue.and_then fun f => ih.and_then fun fs => Reads.gives_pure (f :: fs)
    rw [bind_map_left] at hall
    rw [List.mapM_cons]
    exact hall

/-- A sequence resolves to that of its items. -/
theorem Constant.resolved_sequence (items : List Value) :
    s.resolved (.sequence items) = (items.mapM s.resolved).map Value.sequence :=
  ((hs.resolveItems_gives items).map _).unique (hs.resolve_gives (.sequence items))

/-- A mapping resolves to that of its entries. -/
theorem Constant.resolved_mapping (entries : List (Value × Value)) :
    s.resolved (.mapping entries) =
      (entries.mapM fun e => (s.resolved e.2).map fun w => (e.1, w)).map Value.mapping :=
  ((hs.resolveEntries_gives entries).map _).unique (hs.resolve_gives (.mapping entries))

/-- A sequence resolves to what its items resolve to. -/
theorem Constant.resolved_sequence_iff {items : List Value} {w : Value} :
    s.resolved (.sequence items) = .ok w ↔ ∃ others, w = .sequence others ∧
      List.Forall₂ (fun v w => s.resolved v = .ok w) items others := by
  rw [hs.resolved_sequence, Except.map_eq_ok_iff]
  simp only [Except.mapM_eq_ok_iff, eq_comm (a := w), and_comm]

/-- A mapping resolves to what its values resolve to, under the same keys. -/
theorem Constant.resolved_mapping_iff {entries : List (Value × Value)} {w : Value} :
    s.resolved (.mapping entries) = .ok w ↔ ∃ others, w = .mapping others ∧
      List.Forall₂ (fun e f => e.1 = f.1 ∧ s.resolved e.2 = .ok f.2) entries others := by
  have hentry (e f : Value × Value) :
      ((s.resolved e.2).map fun w => (e.1, w)) = .ok f ↔ e.1 = f.1 ∧ s.resolved e.2 = .ok f.2 := by
    rw [Except.map_eq_ok_iff]
    constructor
    · rintro ⟨w, hw, rfl⟩
      exact ⟨rfl, hw⟩
    · rintro ⟨hkey, hw⟩
      exact ⟨f.2, hw, Prod.ext hkey rfl⟩
  rw [hs.resolved_mapping, Except.map_eq_ok_iff]
  simp only [Except.mapM_eq_ok_iff, hentry, eq_comm (a := w), and_comm]

end

/-! ### Success -/

/-- Lists that are related item by item have related items at every place of the first. -/
theorem exists_getElem?_of_forall₂ {α β : Type} {R : α → β → Prop} {as : List α} {bs : List β}
    (h : List.Forall₂ R as bs) {i : Nat} {a : α} (ha : as[i]? = some a) :
    ∃ b, bs[i]? = some b ∧ R a b := by
  obtain ⟨hi, rfl⟩ := List.getElem?_eq_some_iff.mp ha
  have hi' : i < bs.length := h.length_eq ▸ hi
  exact ⟨bs[i], List.getElem?_eq_getElem hi', h.get hi hi'⟩

section

variable {s : Scope}

mutual

/-- Only leaves are replaced. -/
theorem Constant.shapes (hs : s.Constant) {v w : Value} (h : s.resolved v = .ok w) :
    v.Shapes w := by
  match v with
  | .string template => exact .leaf template w
  | .null | .bool _ | .int _ | .float _ | .tagged _ _ =>
    cases h
    exact .fixed rfl
  | .sequence items =>
    obtain ⟨others, rfl, hitems⟩ := hs.resolved_sequence_iff.mp h
    exact .sequence (hs.shapes_items hitems)
  | .mapping entries =>
    obtain ⟨others, rfl, hentries⟩ := hs.resolved_mapping_iff.mp h
    obtain ⟨hkeys, hvalues⟩ := hs.shapes_entries hentries
    exact .mapping hkeys hvalues

/-- Items keep their shapes. -/
theorem Constant.shapes_items (hs : s.Constant) {items others : List Value}
    (h : List.Forall₂ (fun v w => s.resolved v = .ok w) items others) :
    List.Forall₂ Value.Shapes items others := by
  match items, h with
  | [], .nil => exact .nil
  | v :: rest, .cons hv hrest => exact .cons (hs.shapes hv) (hs.shapes_items hrest)

/-- Entries keep their keys, and their values keep their shapes. -/
theorem Constant.shapes_entries (hs : s.Constant) {entries others : List (Value × Value)}
    (h : List.Forall₂ (fun e f => e.1 = f.1 ∧ s.resolved e.2 = .ok f.2) entries others) :
    entries.map Prod.fst = others.map Prod.fst ∧
      List.Forall₂ Value.Shapes (entries.map Prod.snd) (others.map Prod.snd) := by
  match entries, h with
  | [], .nil => exact ⟨rfl, .nil⟩
  | (k, v) :: rest, .cons he hrest =>
    obtain ⟨hkeys, hvalues⟩ := hs.shapes_entries hrest
    exact ⟨List.cons_eq_cons.mpr ⟨he.1, hkeys⟩, .cons (hs.shapes he.2) hvalues⟩

end

/-- What stands at a position is what the part at that position resolves to. -/
theorem Constant.resolved_at (hs : s.Constant) {v w x : Value} {position : List Nat}
    (h : s.resolved v = .ok w) (hx : v.at? position = some x) :
    ∃ y, w.at? position = some y ∧ s.resolved x = .ok y := by
  induction position generalizing v w with
  | nil =>
    cases hx
    exact ⟨w, rfl, h⟩
  | cons i position ih =>
    cases v with
    | sequence items =>
      obtain ⟨others, rfl, hitems⟩ := hs.resolved_sequence_iff.mp h
      obtain ⟨part, hpart, hx⟩ := Option.bind_eq_some_iff.mp hx
      obtain ⟨other, hother, hresolved⟩ := exists_getElem?_of_forall₂ hitems hpart
      obtain ⟨y, hy, hxy⟩ := ih hresolved hx
      exact ⟨y, Option.bind_eq_some_iff.mpr ⟨other, hother, hy⟩, hxy⟩
    | mapping entries =>
      obtain ⟨others, rfl, hentries⟩ := hs.resolved_mapping_iff.mp h
      obtain ⟨part, hpart, hx⟩ := Option.bind_eq_some_iff.mp hx
      obtain ⟨other, hother, -, hresolved⟩ := exists_getElem?_of_forall₂ hentries hpart
      obtain ⟨y, hy, hxy⟩ := ih hresolved hx
      exact ⟨y, Option.bind_eq_some_iff.mpr ⟨other, hother, hy⟩, hxy⟩
    | _ => cases hx

end

/-! ### Failure -/

/-- The failure of a value, if it has one. -/
def failure? (s : Scope) (v : Value) : Option Undefined := Except.failure? (s.resolved v)

section

variable {s : Scope}

mutual

/-- The failure of a value is that of its first leaf that fails by itself. -/
theorem Constant.failure?_eq (hs : s.Constant) (v : Value) :
    s.failure? v = v.leaves.findSome? fun leaf => s.failure? (.string leaf) := by
  match v with
  | .string template => rw [Value.leaves, List.findSome?_singleton]
  | .null | .bool _ | .int _ | .float _ | .tagged _ _ => rfl
  | .sequence items =>
    rw [failure?, hs.resolved_sequence, Except.failure?_map]
    exact hs.failure?_items items
  | .mapping entries =>
    rw [failure?, hs.resolved_mapping, Except.failure?_map]
    exact hs.failure?_entries entries

/-- The failure of items is that of the first leaf that fails. -/
theorem Constant.failure?_items (hs : s.Constant) (items : List Value) :
    Except.failure? (items.mapM s.resolved) =
      (Value.leavesItems items).findSome? fun leaf => s.failure? (.string leaf) := by
  match items with
  | [] => rfl
  | v :: rest =>
    rw [Except.failure?_mapM_cons, Value.leavesItems, List.findSome?_append,
      ← hs.failure?_eq v, ← hs.failure?_items rest]
    rfl

/-- So is the failure of entries. -/
theorem Constant.failure?_entries (hs : s.Constant) (entries : List (Value × Value)) :
    Except.failure? (entries.mapM fun e => (s.resolved e.2).map fun w => (e.1, w)) =
      (Value.leavesEntries entries).findSome? fun leaf => s.failure? (.string leaf) := by
  match entries with
  | [] => rfl
  | (k, v) :: rest =>
    rw [Except.failure?_mapM_cons, Except.failure?_map, Value.leavesEntries,
      List.findSome?_append, ← hs.failure?_eq v, ← hs.failure?_entries rest]
    rfl

end

/-- A value fails as a leaf does behind leaves that do not fail. -/
theorem Constant.resolved_eq_error_iff (hs : s.Constant) {v : Value} {e : Undefined} :
    s.resolved v = .error e ↔ ∃ before leaf after, v.leaves = before ++ leaf :: after ∧
      (∀ other ∈ before, ∃ w, s.resolved (.string other) = .ok w) ∧
      s.resolved (.string leaf) = .error e := by
  rw [← Except.failure?_eq_some_iff]
  change s.failure? v = _ ↔ _
  rw [hs.failure?_eq, List.findSome?_eq_some_iff]
  simp only [failure?, Except.failure?_eq_none_iff, Except.failure?_eq_some_iff, and_comm]

/-- A value resolves exactly if each of its leaves does. -/
theorem Constant.resolved_ok_iff (hs : s.Constant) {v : Value} :
    (∃ w, s.resolved v = .ok w) ↔
      ∀ leaf ∈ v.leaves, ∃ w, s.resolved (.string leaf) = .ok w := by
  rw [← Except.failure?_eq_none_iff]
  change s.failure? v = _ ↔ _
  rw [hs.failure?_eq, List.findSome?_eq_none_iff]
  simp only [failure?, Except.failure?_eq_none_iff]

end

/-! ### Values without placeholders -/

section

variable {s : Scope}

/-- A string without a pair of opening braces resolves to itself. -/
theorem resolved_string_self {template : String}
    (h : ¬['\x7b', '\x7b'] <:+: template.toList) :
    s.resolved (.string template) = .ok (.string template) := by
  have hwhole : wholePlaceholder? template = none := by
    rw [Option.eq_none_iff_forall_ne_some]
    intro key hkey
    obtain ⟨inside, htrim, -⟩ := wholePlaceholder?_eq_some_iff.mp hkey
    have hpair : ['\x7b', '\x7b'] <:+: Text.trim template.toList := ⟨[], _, by rw [htrim]; rfl⟩
    exact h (hpair.trans (Text.trim_infix _))
  have hresolve : s.resolve (.string template) = pure (.string template) := by
    rw [resolve, resolveString, hwhole]
    dsimp only
    rw [s.resolveText_eq_interpolate,
      s.interpolate_of_none template (breakAtDouble_eq_none_iff.mpr h), map_pure, map_pure,
      String.ofList_toList]
  rw [resolved, hresolve]
  rfl

mutual

/-- A value without opening braces in its leaves resolves to itself. -/
theorem Constant.resolved_self (hs : s.Constant) {v : Value}
    (h : ∀ leaf ∈ v.leaves, ¬['\x7b', '\x7b'] <:+: leaf.toList) : s.resolved v = .ok v := by
  match v with
  | .string template => exact resolved_string_self (h template List.mem_cons_self)
  | .null | .bool _ | .int _ | .float _ | .tagged _ _ => rfl
  | .sequence items => exact hs.resolved_sequence_iff.mpr ⟨items, rfl, hs.resolved_items_self h⟩
  | .mapping entries =>
    exact hs.resolved_mapping_iff.mpr ⟨entries, rfl, hs.resolved_entries_self h⟩

/-- Items without placeholders resolve to themselves. -/
theorem Constant.resolved_items_self (hs : s.Constant) {items : List Value}
    (h : ∀ leaf ∈ Value.leavesItems items, ¬['\x7b', '\x7b'] <:+: leaf.toList) :
    List.Forall₂ (fun v w => s.resolved v = .ok w) items items := by
  match items with
  | [] => exact .nil
  | v :: rest =>
    obtain ⟨hv, hrest⟩ := List.forall_mem_append.mp h
    exact .cons (hs.resolved_self hv) (hs.resolved_items_self hrest)

/-- Entries without placeholders resolve to themselves. -/
theorem Constant.resolved_entries_self (hs : s.Constant) {entries : List (Value × Value)}
    (h : ∀ leaf ∈ Value.leavesEntries entries, ¬['\x7b', '\x7b'] <:+: leaf.toList) :
    List.Forall₂ (fun e f => e.1 = f.1 ∧ s.resolved e.2 = .ok f.2) entries entries := by
  match entries with
  | [] => exact .nil
  | (k, v) :: rest =>
    obtain ⟨hv, hrest⟩ := List.forall_mem_append.mp h
    exact .cons ⟨rfl, hs.resolved_self hv⟩ (hs.resolved_entries_self hrest)

end

end

/-- In a scope of constants, resolving a value puts other values in for its leaves alone: the
result is of the same shape, with the same keys, and at every position it has what the part at
that position resolves to. It fails for the first leaf that fails by itself, if there is one, and
otherwise it does not fail. A value without opening braces in a leaf resolves to itself. -/
theorem Constant.resolve_leafwise {s : Scope} (hs : s.Constant) (v : Value) :
    Reads.Gives (s.resolve v) (s.resolved v) ∧
      (∀ w, s.resolved v = .ok w → v.Shapes w ∧ ∀ position x, v.at? position = some x →
        ∃ y, w.at? position = some y ∧ s.resolved x = .ok y) ∧
      (∀ e, s.resolved v = .error e ↔ ∃ before leaf after, v.leaves = before ++ leaf :: after ∧
        (∀ other ∈ before, ∃ w, s.resolved (.string other) = .ok w) ∧
        s.resolved (.string leaf) = .error e) ∧
      ((∃ w, s.resolved v = .ok w) ↔
        ∀ leaf ∈ v.leaves, ∃ w, s.resolved (.string leaf) = .ok w) ∧
      ((∀ leaf ∈ v.leaves, ¬['\x7b', '\x7b'] <:+: leaf.toList) → s.resolved v = .ok v) :=
  ⟨hs.resolve_gives v, fun _ h => ⟨hs.shapes h, fun _ _ => hs.resolved_at h⟩,
    fun _ => hs.resolved_eq_error_iff, hs.resolved_ok_iff, hs.resolved_self⟩

/-- A mapping with a key that looks like a placeholder, in which `{{a}}` is a leaf and another one,
`{{b}}`, stands under a tag. -/
def nested : Value :=
  .mapping [(.string "\x7b\x7bb\x7d\x7d", .sequence [.string " \x7b\x7ba\x7d\x7d"]),
    (.null, .tagged "!t" (.string "\x7b\x7bb\x7d\x7d"))]

/-- The leaf is replaced, with keys and what stands under a tag left alone, and of several values
the first leaf that fails is the failure of all. -/
theorem Constant.resolve_leafwise_nested :
    single.Constant ∧ nested.leaves = [" \x7b\x7ba\x7d\x7d"] ∧
      (∃ w, single.resolved nested = .ok w ∧ nested.Shapes w ∧ w.at? [0, 0] = some (.int 1)) ∧
      single.resolved (.sequence [nested, .string "\x7b\x7bb\x7d\x7d", nested]) =
        .error ⟨"b", "\x7b\x7bb\x7d\x7d"⟩ := by
  have hs := constant_single
  have ha : single.resolved (.string " \x7b\x7ba\x7d\x7d") = .ok (.int 1) :=
    (hs.resolve_whole (show wholePlaceholder? _ = some "a" from rfl)).unique (hs.resolve_gives _)
  have hb : single.resolved (.string "\x7b\x7bb\x7d\x7d") = .error ⟨"b", "\x7b\x7bb\x7d\x7d"⟩ :=
    (hs.resolve_whole (show wholePlaceholder? _ = some "b" from rfl)).unique (hs.resolve_gives _)
  have hall : ∀ leaf ∈ nested.leaves, ∃ w, single.resolved (.string leaf) = .ok w := by
    intro leaf hleaf
    obtain rfl := List.mem_singleton.mp hleaf
    exact ⟨_, ha⟩
  obtain ⟨-, hok, -, hsome, -⟩ := hs.resolve_leafwise nested
  obtain ⟨w, hw⟩ := hsome.mpr hall
  obtain ⟨hshapes, hat⟩ := hok w hw
  obtain ⟨y, hy, hyone⟩ := hat [0, 0] _ rfl
  cases ha.symm.trans hyone
  obtain ⟨-, -, hfirst, -⟩ :=
    hs.resolve_leafwise (.sequence [nested, .string "\x7b\x7bb\x7d\x7d", nested])
  exact ⟨hs, rfl, ⟨w, hw, hshapes, hy⟩,
    (hfirst _).mpr ⟨nested.leaves, _, nested.leaves, rfl, hall, hb⟩⟩

end Scope

end Provision
