import Provision.Yaml.Node
import Provision.Yaml.Plain

/-!
# Documents

The value of a YAML text: aliases are replaced by what they stand for, and tags are
applied. A local tag stays in the value.
-/

namespace Provision.Yaml

/-! ## Aliases and anchors -/

/-- A node whose aliases are the numbers of anchors. -/
abbrev LinkedNode := NodeOf Nat

/-- The anchors met so far. The number of an anchor is the number of names met before it,
and the last anchor of a number is the one that counts. -/
structure Anchors where
  /-- The number that each name has now. -/
  numbers : List (List Char × Nat)
  /-- For each number, the place of its node in the order in which nodes begin; the latest
  entry stands first. -/
  places : List (Nat × Nat)
  /-- The number of nodes met. -/
  nodes : Nat
  deriving Inhabited

/-- A computation that goes over the nodes of a document in the order in which they begin. -/
abbrev Linking := StateT Anchors Result

/-- Takes note of a node that begins, and of its anchor. -/
def Anchors.enter (p : Properties) (a : Anchors) : Anchors :=
  match p.anchor with
  | some name =>
    let number := a.numbers.length
    { numbers := (name, number) :: a.numbers.filter (·.1 != name)
      places := (number, a.nodes) :: a.places
      nodes := a.nodes + 1 }
  | none => { a with nodes := a.nodes + 1 }

mutual

/-- Puts numbers in for the names of anchors. An alias refers to the last anchor of its
name that began before it. -/
def link : Node → Linking LinkedNode
  | .alias name => do
    let a ← get
    set { a with nodes := a.nodes + 1 }
    match a.numbers.lookup name with
    | some number => return .alias number
    | none => throw .unknownAlias
  | .scalar p text plain => do
    modify (Anchors.enter p)
    return .scalar p text plain
  | .sequence p items => do
    modify (Anchors.enter p)
    return .sequence p (← linkItems items)
  | .mapping p entries => do
    modify (Anchors.enter p)
    return .mapping p (← linkEntries entries)

/-- Puts numbers in for the names in the items of a sequence. -/
def linkItems : List Node → Linking (List LinkedNode)
  | [] => return []
  | n :: rest => do
    let n ← link n
    return n :: (← linkItems rest)

/-- Puts numbers in for the names in the entries of a mapping. -/
def linkEntries : List (Node × Node) → Linking (List (LinkedNode × LinkedNode))
  | [] => return []
  | (k, v) :: rest => do
    let k ← link k
    let v ← link v
    return (k, v) :: (← linkEntries rest)

end

mutual

/-- A node and those within it, in the order in which they begin. -/
def LinkedNode.flatten (n : LinkedNode) : List LinkedNode :=
  match n with
  | .sequence _ items => n :: flattenItems items
  | .mapping _ entries => n :: flattenEntries entries
  | _ => [n]

/-- The nodes within the items of a sequence. -/
def flattenItems : List LinkedNode → List LinkedNode
  | [] => []
  | n :: rest => LinkedNode.flatten n ++ flattenItems rest

/-- The nodes within the entries of a mapping. -/
def flattenEntries : List (LinkedNode × LinkedNode) → List LinkedNode
  | [] => []
  | (k, v) :: rest => LinkedNode.flatten k ++ LinkedNode.flatten v ++ flattenEntries rest

end

/-- The number of parts that a node by itself adds to a document: a collection has a
beginning and an end. -/
def NodeOf.weight {reference : Type} : NodeOf reference → Nat
  | .sequence .. | .mapping .. => 2
  | _ => 1

/-! ## Values -/

/-- A document with its aliases linked. -/
structure Linked where
  root : LinkedNode
  /-- Every node, in the order in which they begin. -/
  nodes : Array LinkedNode
  anchors : Anchors

/-- The document of a tree. -/
def Linked.ofNode (n : Node) : Result Linked := do
  let (root, anchors) ← (link n).run default
  return { root, nodes := (LinkedNode.flatten root).toArray, anchors }

/-- The node that the number of an anchor stands for. -/
def Linked.target? (l : Linked) (number : Nat) : Option LinkedNode :=
  (l.anchors.places.lookup number).bind (l.nodes[·]?)

/-- How often aliases may be followed: a hundred times the number of parts. -/
def Linked.allowance (l : Linked) : Nat :=
  100 * l.nodes.foldl (fun total n => total + n.weight) 0

/-- A computation that may still follow a number of aliases. -/
abbrev Composing := StateT Nat Result

/-- The node itself, or the one that an alias stands for. -/
def Linked.follow (l : Linked) : LinkedNode → Composing LinkedNode
  | .alias number => do
    let left ← get
    if left = 0 then throw .tooManyAliases
    set (left - 1)
    match l.target? number with
    | some n => return n
    | none => throw .unknownAlias
  | n => return n

/-- Whether a tag is local. -/
def Tag.isLocal (t : Tag) : Bool := Tag.mark.isPrefixOf t

/-- The name that the bytes of a local tag spell, if they are a text, with a single
exclamation mark in front of it. -/
def Tag.localName? (t : Tag) : Option String :=
  if t.isLocal then
    (String.fromUTF8? (ByteArray.mk (t.drop 1).toArray)).map fun name =>
      match name.toList with
      | [] => "!!"
      | '!' :: rest@(_ :: _) => String.ofList ('!' :: rest)
      | cs => String.ofList ('!' :: cs)
  else none

/-- A value with the local tag of its node. A tag that is not a text is dropped. -/
def applyTag (p : Properties) (v : Value) : Value :=
  match p.tag.bind Tag.localName? with
  | some name => .tagged name v
  | none => v

/-- The value of a scalar. -/
def scalarValue (p : Properties) (text : List Char) (plain : Bool) : Result Value :=
  let untagged := if plain then plainValue text else .ok (.string (String.ofList text))
  match p.tag with
  | some tag => if tag.isLocal then untagged else typedValue tag text
  | none => untagged

/-- The limit of nested collections. -/
def maxDepth : Nat := 128

/-- The value of a node below which a number of collections may still be nested. -/
def Linked.compose (l : Linked) (depth : Nat) (n : LinkedNode) : Composing Value := do
  match ← l.follow n, depth with
  | .scalar p text plain, _ => return applyTag p (← scalarValue p text plain)
  | .sequence p items, depth + 1 =>
    let vs ← items.mapM (l.compose depth)
    return applyTag p (.sequence vs)
  | .mapping p entries, depth + 1 =>
    let es ← entries.foldlM (fun es (k, v) => do
      let k ← l.compose depth k
      if (Value.find? k es).isSome then throw .duplicateKey
      let v ← l.compose depth v
      return es ++ [(k, v)]) ([] : List (Value × Value))
    return applyTag p (.mapping es)
  | .alias _, _ => throw .unknownAlias
  | _, 0 => throw .nestedTooDeep

/-- The value of a YAML text. A text without a document is null. -/
def read (text : String) : Result Value := do
  let cs := text.toList
  if !cs.all isAllowed then throw .forbiddenCharacter
  match ← documentNode (← tokens cs) with
  | none => return .null
  | some root =>
    let l ← Linked.ofNode root
    let (v, _) ← (l.compose maxDepth l.root).run l.allowance
    return v

end Provision.Yaml
