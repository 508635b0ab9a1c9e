import Provision.Statement.Basic
import Provision.Value.Text

/-!
# Reading statements

A recipe is a sequence of mappings. The keys of a mapping tell which statement it is:
`include_recipe`, `define`, or a keyword with an identifier and optional settings.
Keys are seen through tags where they are listed, but a value is only found under a
key that is a plain string.
-/

namespace Provision.Statement

/-- The result of reading part of a statement. -/
abbrev Reading (α : Type) := Except Cause α

/-- The timing of a notification that names none. -/
def defaultTiming : String := "delay"

/-- The text of a string, number or truth value. -/
def scalar (what : String) (v : Value) : Reading String :=
  match v with
  | .string _ | .int _ | .float _ | .bool _ => .ok v.text
  | _ => .error (.notAScalar what)

/-- The entries of a mapping under string keys, a later entry replacing an earlier one. -/
def stringKeyed (what : String) (entries : List (Value × Value)) : Reading (OrderedMap Value) :=
  entries.foldlM (fun m e =>
    match e.1.string? with
    | some key => .ok (m.insert key e.2)
    | none => .error (.notAStringKeyed what)) {}

/-- The first key that is not among those allowed is refused. -/
def onlyKeys (allowed : List String) (entries : List (Value × Value)) : Reading Unit :=
  entries.forM fun e =>
    match e.1.string? with
    | some key => if allowed.contains key then .ok () else .error (.unexpectedKey (some key))
    | none => .error (.unexpectedKey none)

/-- A field of a notification written as a mapping. -/
def noticeField (name : String) (entries : List (Value × Value)) : Reading (Option String) :=
  match Value.field? name entries with
  | some v => (scalar ("notifies " ++ name) v).map some
  | none => .ok none

/-- A notification, written as a sequence of two or three scalars or as a mapping. -/
def notice (v : Value) : Reading Notice :=
  match v with
  | .sequence [a, t] => do
    let action ← scalar "notifies action" a
    let target ← scalar "notifies resource" t
    return { action, target, timing := defaultTiming }
  | .sequence [a, t, w] => do
    let action ← scalar "notifies action" a
    let target ← scalar "notifies resource" t
    let timing ← scalar "notifies timing" w
    return { action, target, timing }
  | .mapping entries => do
    let some action ← noticeField "action" entries | throw .noticeWithoutAction
    let some target ← noticeField "resource" entries | throw .noticeWithoutResource
    let timing ← noticeField "timing" entries
    return { action, target, timing := timing.getD defaultTiming }
  | _ => .error .noticeShape

/-- The attributes of a block. -/
def attributes (entries : List (Value × Value)) : Reading (OrderedMap Value) :=
  match Value.field? "with" entries with
  | none | some .null => .ok {}
  | some (.mapping es) => stringKeyed "with" es
  | some _ => .error .withNotAMapping

/-- The notifications of a block. A single mapping stands for a list of one. -/
def notices (entries : List (Value × Value)) : Reading (List Notice) :=
  match Value.field? "notifies" entries with
  | none | some .null => .ok []
  | some (.sequence vs) => vs.mapM notice
  | some v@(.mapping _) => (notice v).map ([·])
  | some _ => .error .notifiesNotAList

/-- The settings of a declaration. There is a block if anything is set, or if `with` is
written at all. -/
def block (entries : List (Value × Value)) : Reading (Option Block) := do
  let attributes ← attributes entries
  let notifies ← notices entries
  if attributes.isEmpty && notifies.isEmpty && (Value.field? "with" entries).isNone then
    return none
  else
    return some { attributes, notifies }

/-- The string keys of a mapping that are not settings. -/
def keywords (entries : List (Value × Value)) : List String :=
  (entries.filterMap (·.1.string?)).filter fun k => k != "with" && k != "notifies"

/-- A declaration. Its only key besides the settings is the keyword. -/
def declaration (entries : List (Value × Value)) : Reading Statement :=
  match keywords entries with
  | [] => .error .missingKeyword
  | [keyword] => do
    if entries.any (·.1.string?.isNone) then throw .keysNotStrings
    let some v := Value.field? keyword entries | throw (.missingValue keyword)
    let identifier ← scalar keyword v
    let block ← block entries
    return .declare keyword identifier block
  | found => .error (.severalKeywords found)

/-- The parameters of a definition. -/
def parameters (entries : List (Value × Value)) : Reading (OrderedMap Value) :=
  match Value.field? "params" entries with
  | none | some .null => .ok {}
  | some (.mapping es) => stringKeyed "params" es
  | some _ => .error .parametersNotAMapping

/-- The name and parameters of a definition. -/
def heading (name : Value) (entries : List (Value × Value)) :
    Reading (String × OrderedMap Value) := do
  onlyKeys ["define", "params", "body"] entries
  let name ← scalar "define" name
  let params ← parameters entries
  return (name, params)

/-- An inclusion of another recipe. -/
def inclusion (target : Value) (entries : List (Value × Value)) : Reading Statement := do
  onlyKeys ["include_recipe"] entries
  return .includeRecipe (← scalar "include_recipe" target)

/-- A value without its tags is not larger than with them. -/
theorem sizeOf_untagged_le : ∀ v : Value, sizeOf v.untagged ≤ sizeOf v
  | .tagged t v => by
    have := sizeOf_untagged_le v
    simp only [Value.untagged, Value.tagged.sizeOf_spec]
    omega
  | .null | .bool _ | .int _ | .float _ | .string _ | .sequence _ | .mapping _ => by
    simp [Value.untagged]

/-- The entries of a mapping are smaller than the mapping. -/
theorem sizeOf_entries?_lt {v : Value} {es : List (Value × Value)} (h : v.entries? = some es) :
    sizeOf es < sizeOf v := by
  have hle := sizeOf_untagged_le v
  unfold Value.entries? at h
  split at h
  · rename_i es' heq
    simp only [Option.some.injEq] at h
    subst h
    rw [heq] at hle
    simp only [Value.mapping.sizeOf_spec] at hle
    omega
  · simp at h

/-- A value found among entries is smaller than the entries. -/
theorem sizeOf_find?_lt {key v : Value} {es : List (Value × Value)}
    (h : Value.find? key es = some v) : sizeOf v < sizeOf es := by
  induction es with
  | nil => simp [Value.find?] at h
  | cons e rest ih =>
    obtain ⟨k, w⟩ := e
    simp only [Value.find?] at h
    simp only [List.cons.sizeOf_spec, Prod.mk.sizeOf_spec]
    split at h
    · simp only [Option.some.injEq] at h
      subst h
      omega
    · have := ih h
      omega

mutual

/-- One statement. -/
def read (place : Place) (v : Value) : Except Fault Statement :=
  match h : v.entries? with
  | none => .error (.statement place .notAMapping)
  | some entries =>
    match Value.field? "include_recipe" entries with
    | some target => (inclusion target entries).mapError (.statement place)
    | none =>
      match Value.field? "define" entries with
      | none => (declaration entries).mapError (.statement place)
      | some name =>
        match (heading name entries).mapError (Fault.statement place) with
        | .error fault => .error fault
        | .ok (name, params) =>
          match hb : Value.field? "body" entries with
          | some (.sequence items) =>
            (readAll (.definition name) 1 items).map (.define name params)
          | some .null => .ok (.define name params [])
          | some _ => .error (.statement place .bodyNotAList)
          | none => .error (.statement place (.missingBody name))
termination_by sizeOf v
decreasing_by
  have hes := sizeOf_entries?_lt h
  have hv := sizeOf_find?_lt hb
  simp only [Value.sequence.sizeOf_spec] at hv
  omega

/-- Statements numbered from a given number on. -/
def readAll (place : Nat → Place) (number : Nat) (vs : List Value) :
    Except Fault (List Statement) :=
  match vs with
  | [] => .ok []
  | v :: rest =>
    match read (place number) v with
    | .error fault => .error fault
    | .ok s => (readAll place (number + 1) rest).map (s :: ·)
termination_by sizeOf vs

end

/-- The statements of a document. An empty document is an empty recipe. -/
def ofDocument (v : Value) : Except Fault (List Statement) :=
  match v with
  | .null => .ok []
  | .sequence items => readAll .recipe 1 items
  | _ => .error .notAList

end Provision.Statement
