import Provision.Path

/-!
# The host

What a run sees of the machine it takes place on: its files, the home directory and
the current directory. A recipe is named by a target, which is resolved to the path
of a file whose name ends in `.yml`.
-/

namespace Provision

/-- The machine on which recipes are read. -/
structure Host where
  /-- Whether a path is a directory. -/
  isDirectory : Path → Bool
  /-- Whether there is a file or directory at a path. -/
  present : Path → Bool
  /-- The text of a file, or why it cannot be read. -/
  read : Path → Except String String
  /-- The home directory, if one is set. -/
  home : Option Path
  /-- The current directory. -/
  current : Path

/-- What there is at a path. -/
inductive Entry where
  | directory
  /-- A file with its text, or with the reason why it cannot be read. -/
  | file (text : Except String String)
  deriving Inhabited

namespace Host

/-- A host of which only some paths are known, each with what there is at it. There is
nothing at any other path. -/
def ofFacts (facts : List (Path × Option Entry)) (home : Option Path) (current : Path) : Host :=
  let factAt (p : Path) := (facts.find? (·.1.same p)).bind (·.2)
  { isDirectory := fun p => (factAt p) matches some .directory
    present := fun p => (factAt p).isSome
    read := fun p =>
      match factAt p with
      | some (.file text) => text
      | some .directory => .error "it is a directory"
      | none => .error "there is no such file"
    home
    current }

/-- The file read for a directory. -/
def defaultRecipe : Path := ⟨"default.yml"⟩

/-- The end of every recipe's file name. -/
def extension : List Char := ".yml".toList

/-- The path with the extension put at its end, unless it is there already. -/
def withExtension (p : Path) : Path :=
  let cs := p.text.toList
  if extension.isSuffixOf cs then p else ⟨String.ofList (cs ++ extension)⟩

/-- The path of the recipe that a target names, as seen from a directory. -/
def resolve (h : Host) (base : Path) (target : String) : Path :=
  let p := Path.expand h.home base target
  withExtension (if h.isDirectory p then p.join defaultRecipe else p)

end Host

end Provision
