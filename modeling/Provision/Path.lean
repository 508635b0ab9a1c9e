import Provision.Text.Split
import Provision.Text.Stray

/-!
# Paths

A path is a text, in which a byte that belongs to no character is spelt by two characters.
What a path names is decided by its components: separators may be repeated or stand at the
end, and a dot between separators counts only at the very front of a relative path. Paths
are compared by their components.
-/

namespace Provision

/-- A path of the file system, as it is written. -/
structure Path where
  /-- The text of the path. -/
  text : String
  deriving DecidableEq, Inhabited

namespace Path

open Provision.Text

/-- Whether all bytes of a path belong to characters. -/
def isText (p : Path) : Bool := (units p.text.toList).all (·.isLeft)

/-- The path as it is shown, with a replacement for bytes that belong to no character. -/
def shown (p : Path) : String := String.ofList (replaced [] (units p.text.toList))

/-- A path whose bytes all belong to characters is shown as it is written. -/
theorem shown_of_isText {p : Path} (h : p.isText = true) : p.shown = p.text := by
  rw [shown, replaced_units h, String.ofList_toList]

/-- One step of a path. -/
inductive Component where
  | root
  | current
  | parent
  | name (segment : List Char)
  deriving DecidableEq, Inhabited

/-- Whether a path starts at the root. -/
def isAbsolute (p : Path) : Bool := p.text.toList.head? == some '/'

/-- The segments between separators. -/
def segments (p : Path) : List (List Char) := split '/' p.text.toList

/-- Whether a segment is passed over: it is empty or a single dot. -/
def isSilent (segment : List Char) : Bool := segment == [] || segment == ['.']

/-- The component of a segment that is not passed over. -/
def Component.ofSegment (segment : List Char) : Component :=
  if segment = ['.', '.'] then .parent else .name segment

/-- The components of segments, those passed over left out. -/
def componentsOf (segs : List (List Char)) : List Component :=
  (segs.filter (! isSilent ·)).map Component.ofSegment

/-- What comes before the segments of a path that are named one by one: the root, or a dot
at the front of a relative path. -/
def front (p : Path) : List Component :=
  if p.isAbsolute then [.root]
  else if p.segments.head? == some ['.'] then [.current]
  else []

/-- The components of a path. -/
def components (p : Path) : List Component := p.front ++ componentsOf p.segments

/-- Whether two paths have the same components. -/
def same (p q : Path) : Bool := p.components == q.components

/-- Whether the components of one path begin with those of another. -/
def startsWith (p base : Path) : Bool := base.components.isPrefixOf p.components

/-- A path taken relative to another. An absolute path stands for itself. -/
def join (p q : Path) : Path :=
  if q.isAbsolute ∨ p.text = "" then q
  else if p.text.toList.getLast? = some '/' then ⟨p.text ++ q.text⟩
  else ⟨p.text ++ "/" ++ q.text⟩

/-- Segments up to the last one that is not passed over. -/
def trimSegments (segs : List (List Char)) : List (List Char) :=
  (segs.reverse.dropWhile isSilent).reverse

/-- The text of a path without its last component, if it has one besides the root. -/
def parent? (p : Path) : Option Path :=
  let lead := p.front
  let body := trimSegments (if lead.isEmpty then p.segments else p.segments.tail)
  let rest := Text.join '/' (trimSegments body.dropLast)
  match body, lead with
  | [], [.current] => some ⟨""⟩
  | [], _ => none
  | _, [.root] => some ⟨String.ofList ('/' :: rest)⟩
  | _, [.current] => some ⟨String.ofList (if rest.isEmpty then ['.'] else '.' :: '/' :: rest)⟩
  | _, _ => some ⟨String.ofList rest⟩

/-- The directory a file lies in, the root for a path without a parent. -/
def directory (p : Path) : Path := p.parent?.getD ⟨"/"⟩

/-- A path in normal form: whether it is absolute, and its names. -/
structure Folded where
  /-- Whether the path starts at the root. -/
  absolute : Bool
  /-- The names below the start, outermost first. -/
  names : List (List Char)
  deriving DecidableEq, Inhabited

/-- One component taken into account: a dot changes nothing, and two dots take back the
last name, if there is one. -/
def Folded.step (f : Folded) : Component → Folded
  | .root => ⟨true, []⟩
  | .current => f
  | .parent => { f with names := f.names.dropLast }
  | .name s => { f with names := f.names ++ [s] }

/-- The text of a path in normal form. -/
def Folded.chars (f : Folded) : List Char :=
  if f.absolute then '/' :: Text.join '/' f.names else Text.join '/' f.names

/-- The components folded from left to right. -/
def fold (p : Path) : Folded := p.components.foldl Folded.step ⟨false, []⟩

/-- The path with its dots folded away, as far as names alone tell. -/
def normalize (p : Path) : Path := ⟨String.ofList p.fold.chars⟩

/-- The path a target names: relative to a base directory, or to the home directory where
the target begins with a tilde of its own. -/
def expand (home : Option Path) (base : Path) (target : String) : Path :=
  let joined :=
    match target.toList, home with
    | '~' :: rest, some home =>
      if rest.isEmpty ∨ rest.head? = some '/' then
        home.join ⟨String.ofList (rest.dropWhile (· = '/'))⟩
      else base.join ⟨target⟩
    | _, _ => base.join ⟨target⟩
  joined.normalize

end Path

end Provision
