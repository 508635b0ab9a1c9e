/-!
# Maps in insertion order

A map from names to values that remembers the order in which the names were first
inserted. Inserting a name that is already there replaces its value in place.
The main statements say what an insertion does to the names and to every lookup.
-/

namespace Provision

/-- An ordered map from names to values. No name occurs twice. -/
structure OrderedMap (α : Type u) where
  /-- The entries, oldest first. -/
  entries : List (String × α)
  /-- Every name occurs once. -/
  nodup : (entries.map Prod.fst).Nodup

namespace OrderedMap

variable {α : Type u}

/-- The map without entries. -/
def empty : OrderedMap α := ⟨[], List.nodup_nil⟩

instance : Inhabited (OrderedMap α) := ⟨empty⟩

instance : EmptyCollection (OrderedMap α) := ⟨empty⟩

/-- The value of the first entry with the given name. -/
def find? (name : String) : List (String × α) → Option α
  | [] => none
  | (n, a) :: rest => if n = name then some a else find? name rest

/-- Entries with a value put in at its name's place, or at the end for a new name. -/
def put (name : String) (a : α) : List (String × α) → List (String × α)
  | [] => [(name, a)]
  | (n, b) :: rest => if n = name then (n, a) :: rest else (n, b) :: put name a rest

/-- A key that is put into a list stays where it is, or comes last if it is new. -/
theorem map_fst_put (name : String) (a : α) (es : List (String × α)) :
    (put name a es).map Prod.fst =
      if name ∈ es.map Prod.fst then es.map Prod.fst else es.map Prod.fst ++ [name] := by
  induction es with
  | nil => simp [put]
  | cons e rest ih =>
    obtain ⟨n, b⟩ := e
    by_cases h : n = name
    · simp [put, h]
    · have h' : ¬name = n := fun hn => h hn.symm
      simp only [put, h, if_false, List.map_cons, ih, List.mem_cons, h', false_or]
      split <;> simp

/-- Keys that are distinct remain so when another is put among them. -/
theorem nodup_put (name : String) (a : α) {es : List (String × α)}
    (h : (es.map Prod.fst).Nodup) : ((put name a es).map Prod.fst).Nodup := by
  rw [map_fst_put]
  split
  · exact h
  · rename_i hn
    rw [List.nodup_append]
    refine ⟨h, by simp, ?_⟩
    intro x hx y hy hxy
    simp only [List.mem_singleton] at hy
    exact hn (hy ▸ hxy ▸ hx)

/-- The value of a name. -/
def get? (m : OrderedMap α) (name : String) : Option α := find? name m.entries

/-- The map with a value put in at its name's place, or at the end for a new name. -/
def insert (m : OrderedMap α) (name : String) (a : α) : OrderedMap α :=
  ⟨put name a m.entries, nodup_put name a m.nodup⟩

/-- Whether a name has a value. -/
def contains (m : OrderedMap α) (name : String) : Bool := (m.get? name).isSome

/-- The names, oldest first. -/
def keys (m : OrderedMap α) : List String := m.entries.map Prod.fst

/-- The number of entries. -/
def size (m : OrderedMap α) : Nat := m.entries.length

/-- Whether there are no entries. -/
def isEmpty (m : OrderedMap α) : Bool := m.entries.isEmpty

/-- The map with several entries inserted one after the other. -/
def insertAll (m : OrderedMap α) (es : List (String × α)) : OrderedMap α :=
  es.foldl (fun m e => m.insert e.1 e.2) m

/-- The map of a list of entries, in which a later entry replaces an earlier one. -/
def ofList (es : List (String × α)) : OrderedMap α := empty.insertAll es

/-- A key that was put has the value put under it, and the other keys have theirs. -/
theorem find?_put (name other : String) (a : α) (es : List (String × α)) :
    find? other (put name a es) = if name = other then some a else find? other es := by
  induction es with
  | nil => simp [put, find?]
  | cons e rest ih =>
    obtain ⟨n, b⟩ := e
    by_cases h : n = name
    · subst h
      by_cases ho : n = other <;> simp [put, find?, ho]
    · by_cases ho : n = other
      · subst ho
        have hne : ¬name = n := fun hn => h hn.symm
        simp [put, find?, h, hne]
      · simp [put, find?, h, ho, ih]

/-- An insertion changes the value of its own name and of no other. -/
theorem get?_insert (m : OrderedMap α) (name other : String) (a : α) :
    (m.insert name a).get? other = if name = other then some a else m.get? other :=
  find?_put name other a m.entries

/-- What holds of every value holds after an insertion, if it holds of the new one. -/
theorem forall_insert {P : String → α → Prop} {m : OrderedMap α} {name : String} {a : α}
    (h : ∀ other b, m.get? other = some b → P other b) (ha : P name a) :
    ∀ other b, (m.insert name a).get? other = some b → P other b := by
  intro other b hb
  rw [get?_insert] at hb
  split at hb
  · rename_i hname
    cases hb
    exact hname ▸ ha
  · exact h other b hb

/-- An insertion keeps the names in order and adds its own at the end if it is new. -/
theorem keys_insert (m : OrderedMap α) (name : String) (a : α) :
    (m.insert name a).keys = if name ∈ m.keys then m.keys else m.keys ++ [name] :=
  map_fst_put name a m.entries

end OrderedMap

end Provision
