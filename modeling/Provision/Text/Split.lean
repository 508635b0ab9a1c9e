/-!
# Splitting at a separator

A text cut at every occurrence of a character, and put together again.
-/

namespace Provision.Text

/-- The pieces between the occurrences of a separator. There is always at least one. -/
def split (sep : Char) : List Char → List (List Char)
  | [] => [[]]
  | c :: cs =>
    if c = sep then [] :: split sep cs
    else
      match split sep cs with
      | [] => [[c]]
      | piece :: rest => (c :: piece) :: rest

/-- Pieces put together with a separator between them. -/
def join (sep : Char) : List (List Char) → List Char
  | [] => []
  | [piece] => piece
  | piece :: rest => piece ++ sep :: join sep rest

/-- Splitting a text gives at least one part. -/
theorem split_ne_nil (sep : Char) (cs : List Char) : split sep cs ≠ [] := by
  induction cs with
  | nil => simp [split]
  | cons c cs _ =>
    by_cases h : c = sep
    · simp [split, h]
    · simp only [split, h, if_false]
      split <;> simp

/-- Joining what was split gives the text back. -/
theorem join_split (sep : Char) (cs : List Char) : join sep (split sep cs) = cs := by
  induction cs with
  | nil => rfl
  | cons c cs ih =>
    by_cases h : c = sep
    · subst h
      simp only [split, if_true]
      cases hs : split c cs with
      | nil => exact absurd hs (split_ne_nil c cs)
      | cons piece rest => rw [hs] at ih; simp [join, ih]
    · simp only [split, h, if_false]
      cases hs : split sep cs with
      | nil => exact absurd hs (split_ne_nil sep cs)
      | cons piece rest =>
        rw [hs] at ih
        cases rest with
        | nil => simpa [join] using ih
        | cons next rest => simpa [join] using ih

/-- Texts put together with a separator between them. -/
def joined (sep : String) : List String → String
  | [] => ""
  | [s] => s
  | s :: rest => s ++ sep ++ joined sep rest

end Provision.Text
