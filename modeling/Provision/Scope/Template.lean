import Provision.Scope.Basic
import Provision.Text.Bytes
import Provision.Value.Text

/-!
# Templates

A text in which the placeholders `{{ path }}` stand for values of a scope. What is put
in for a placeholder is not looked at again. In a value, every string outside of keys
and tags is a template, and one that is a single placeholder keeps the type of the
value put in.
-/

namespace Provision

/-- A placeholder whose path has no value, and the template it stands in. -/
structure Undefined where
  name : String
  template : String
  deriving DecidableEq, Inhabited

/-- The parts of a text before and after the first place where a character is doubled. -/
def breakAtDouble (c : Char) : List Char → Option (List Char × List Char)
  | a :: b :: cs =>
    if a = c ∧ b = c then some ([], cs)
    else (breakAtDouble c (b :: cs)).map fun p => (a :: p.1, p.2)
  | _ => none

/-- What follows a doubled character is shorter than the text that it was found in. -/
theorem length_of_breakAtDouble {c : Char} {cs before after : List Char}
    (h : breakAtDouble c cs = some (before, after)) : after.length < cs.length := by
  induction cs generalizing before with
  | nil => simp [breakAtDouble] at h
  | cons a cs ih =>
    cases cs with
    | nil => simp [breakAtDouble] at h
    | cons b cs =>
      simp only [breakAtDouble] at h
      split at h
      · simp only [Option.some.injEq, Prod.mk.injEq] at h
        simp only [← h.2, List.length_cons]
        omega
      · simp only [Option.map_eq_some_iff, Prod.mk.injEq] at h
        obtain ⟨⟨x, y⟩, hp, _, rfl⟩ := h
        have := ih hp
        simp only [List.length_cons] at this ⊢
        omega

/-- A computation that reads bindings and may meet a placeholder without a value. -/
abbrev Resolving := ExceptT Undefined (StateM Reads)

namespace Scope

/-- The value of a placeholder, whose path is given without blanks around it. -/
def placeholder (s : Scope) (template key : String) : Resolving Value := do
  match ← (s.lookup? key : StateM Reads (Option Value)) with
  | some v => return v
  | none => throw { name := key, template }

end Scope

/-- A placeholder that stands in a text. -/
structure Placeholder where
  /-- The place at which its opening braces begin. -/
  first : Nat
  /-- The place at which its closing braces end. -/
  last : Nat
  /-- The path between the braces, without blanks around it. -/
  key : List Char

/-- The first placeholder behind a place, if there is one. A pair of opening braces that is
not closed, and all after it, is text. There is no answer if a place is not one of the text. -/
def placeholderFrom? (start : Nat) (cs : List Char) : Option (Option Placeholder) := do
  let (_, behind) ← Text.splitAtPlace? start cs
  let some (before, _) := breakAtDouble '\x7b' behind | return none
  let first := start + Text.byteLength before
  let (_, behind) ← Text.splitAtPlace? first cs
  let some (before, _) := breakAtDouble '\x7d' behind | return none
  let last := first + Text.byteLength before + 2
  let key ← Text.between? (first + 2) (last - 2) cs
  return some ⟨first, last, Text.trim key⟩

/-- A placeholder ends behind the place where it was looked for. -/
theorem lt_of_placeholderFrom? {start : Nat} {cs : List Char} {p : Placeholder}
    (h : placeholderFrom? start cs = some (some p)) : start < p.last := by
  obtain ⟨⟨_, behind⟩, -, h⟩ := Option.bind_eq_some_iff.1 h
  cases ho : breakAtDouble '\x7b' behind with
  | none => simp [ho] at h
  | some opened =>
    simp only [ho] at h
    obtain ⟨⟨_, inside⟩, -, h⟩ := Option.bind_eq_some_iff.1 h
    cases hc : breakAtDouble '\x7d' inside with
    | none => simp [hc] at h
    | some closed =>
      simp only [hc] at h
      obtain ⟨key, -, h⟩ := Option.bind_eq_some_iff.1 h
      cases h
      dsimp only
      omega

namespace Scope

/-- Puts values in for the placeholders of a text, from left to right. What stands in front
of the place `start` is done and is not looked at again. There is no answer if the text would
have to be cut within a character. -/
def rewrite (s : Scope) (template : String) (start : Nat) (cs : List Char) :
    Resolving (Option (List Char)) :=
  match hp : placeholderFrom? start cs with
  | none => return none
  | some none => return some cs
  | some (some p) => do
    let v ← s.placeholder template (String.ofList p.key)
    match hr : Text.replaceBetween? p.first p.last v.chars cs with
    | none => return none
    | some replaced => s.rewrite template (p.first + Text.byteLength v.chars) replaced
termination_by Text.byteLength cs - start
decreasing_by
  have := lt_of_placeholderFrom? hp
  have := Text.length_of_replaceBetween? hr
  omega

/-- The text of a template. It is never cut within a character, so there always is one. -/
def resolveText (s : Scope) (template : String) : Resolving String := do
  return String.ofList ((← s.rewrite template 0 template.toList).getD [])

end Scope

/-- The path of a text that is one placeholder and nothing else but blanks around it. -/
def wholePlaceholder? (template : String) : Option String :=
  match Text.trim template.toList with
  | '\x7b' :: '\x7b' :: cs =>
    match cs.reverse with
    | '\x7d' :: '\x7d' :: rest =>
      let inside := rest.reverse
      if (breakAtDouble '\x7b' inside).isNone && (breakAtDouble '\x7d' inside).isNone then
        some (String.ofList (Text.trim inside))
      else none
    | _ => none
  | _ => none

namespace Scope

/-- The value a string stands for. -/
def resolveString (s : Scope) (template : String) : Resolving Value :=
  match wholePlaceholder? template with
  | some key => s.placeholder template key
  | none => Value.string <$> s.resolveText template

mutual

/-- Puts values in for the placeholders in the strings of a value. -/
def resolve (s : Scope) : Value → Resolving Value
  | .string template => s.resolveString template
  | .sequence items => Value.sequence <$> s.resolveItems items
  | .mapping entries => Value.mapping <$> s.resolveEntries entries
  | v => return v

/-- The items of a sequence, in order. -/
def resolveItems (s : Scope) : List Value → Resolving (List Value)
  | [] => return []
  | v :: rest => do
    let v ← s.resolve v
    return v :: (← s.resolveItems rest)

/-- The values of the entries of a mapping, in order. Keys stay as they are. -/
def resolveEntries (s : Scope) : List (Value × Value) → Resolving (List (Value × Value))
  | [] => return []
  | (k, v) :: rest => do
    let v ← s.resolve v
    return (k, v) :: (← s.resolveEntries rest)

end

end Scope

end Provision
