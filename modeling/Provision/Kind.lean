/-!
# Kinds of resources

The catalogue of built-in resources: how each kind is written, which attribute its
identifier fills, and which actions it accepts.
-/

namespace Provision

/-- A built-in kind of resource. -/
inductive Kind where
  | directory
  | execute
  | file
  | gemPackage
  | git
  | link
  | package
  | remoteFile
  | service
  | template
  deriving DecidableEq, Inhabited

namespace Kind

/-- Every kind, in catalogue order. -/
def all : List Kind :=
  [.directory, .execute, .file, .gemPackage, .git, .link, .package, .remoteFile, .service,
    .template]

/-- The keyword of a kind, which is also its name in a descriptor. -/
def keyword : Kind → String
  | .directory => "directory"
  | .execute => "execute"
  | .file => "file"
  | .gemPackage => "gem_package"
  | .git => "git"
  | .link => "link"
  | .package => "package"
  | .remoteFile => "remote_file"
  | .service => "service"
  | .template => "template"

/-- The kind a keyword stands for. -/
def ofKeyword? (keyword : String) : Option Kind := all.find? (·.keyword == keyword)

/-- The attribute that holds the identifier of a resource. -/
def identity : Kind → String
  | .directory | .file | .remoteFile | .template => "path"
  | .execute => "command"
  | .gemPackage => "package_name"
  | .git => "destination"
  | .link => "link"
  | .package | .service => "name"

/-- The action taken when none is asked for. -/
def defaultAction : Kind → String
  | .directory | .file | .link | .remoteFile | .template => "create"
  | .execute => "run"
  | .gemPackage | .package => "install"
  | .git => "sync"
  | .service => "nothing"

/-- The actions a kind accepts. -/
def actions : Kind → List String
  | .directory => ["create", "delete", "nothing"]
  | .execute => ["run", "nothing"]
  | .file | .remoteFile | .template => ["create", "delete", "edit", "nothing"]
  | .gemPackage => ["install", "uninstall", "upgrade", "nothing"]
  | .git => ["sync", "nothing"]
  | .link => ["create", "nothing"]
  | .package => ["install", "remove", "nothing"]
  | .service => ["start", "stop", "restart", "reload", "enable", "disable", "nothing"]

/-- Whether resources of a kind record the directory of their recipe. -/
def wantsDirectory : Kind → Bool
  | .remoteFile | .template => true
  | _ => false

/-- Whether resources of a kind record the description of the node. -/
def wantsNode : Kind → Bool
  | .template => true
  | _ => false

/-- The words of the recipe language that are not kinds. -/
def languageWords : List String := ["define", "include_recipe", "with", "notifies"]

/-- Whether a word is taken by the recipe language, and so cannot name a definition. -/
def isReserved (word : String) : Bool :=
  (ofKeyword? word).isSome || languageWords.contains word

/-- The list of all kinds misses none. -/
theorem mem_all (k : Kind) : k ∈ all := by cases k <;> decide

/-- Every kind is read back from its keyword. -/
theorem ofKeyword?_keyword (k : Kind) : ofKeyword? k.keyword = some k := by
  cases k <;> decide

end Kind

end Provision
