import Provision.Yaml.Token

/-!
# Nodes

The tree of a document, as its tokens spell it: aliases are not yet replaced, and tags
not yet applied. What an alias refers to its anchor by is a parameter of the tree.
-/

namespace Provision.Yaml

/-- What stands in front of a node. -/
structure Properties where
  anchor : Option (List Char)
  /-- The full tag. -/
  tag : Option Tag
  deriving DecidableEq, Inhabited

/-- A node of a document. -/
inductive NodeOf (reference : Type) where
  | alias (target : reference)
  | scalar (properties : Properties) (text : List Char) (plain : Bool)
  | sequence (properties : Properties) (items : List (NodeOf reference))
  | mapping (properties : Properties) (entries : List (NodeOf reference × NodeOf reference))

/-- A node whose aliases are the names of anchors. -/
abbrev Node := NodeOf (List Char)

/-- The node for a place where nothing is written. -/
def NodeOf.empty {reference : Type} : NodeOf reference := .scalar default [] true

instance {reference : Type} : Inhabited (NodeOf reference) := ⟨.empty⟩

/-- The beginnings that tag handles stand for. -/
abbrev Handles := List (List Char × Tag)

/-- The handles that need no declaration. -/
def standardHandles : Handles :=
  [(['!'], Tag.mark), (['!', '!'], Tag.standard)]

/-- The full tag of a tag as it is written. -/
def TagName.resolve (handles : Handles) (t : TagName) : Result Tag :=
  if t.handle.isEmpty then .ok t.suffix
  else
    match handles.lookup t.handle with
    | some start => .ok (start ++ t.suffix)
    | none => .error .unknownTagHandle

/-- The tokens that are left. -/
abbrev Tokens := List Token

/-- The anchor and tag that stand here, in either order. -/
def properties (handles : Handles) : Tokens → Result (Properties × Tokens)
  | .anchor a :: .tag t :: ts | .tag t :: .anchor a :: ts => do
    return (⟨some a, some (← t.resolve handles)⟩, ts)
  | .anchor a :: ts => .ok (⟨some a, none⟩, ts)
  | .tag t :: ts => do return (⟨none, some (← t.resolve handles)⟩, ts)
  | ts => .ok (default, ts)

/-- Whether a part of a block mapping or sequence ends here without a node. -/
def endsBlockPart : Tokens → Bool
  | .key :: _ | .value :: _ | .blockEnd :: _ => true
  | _ => false

/-- Whether a part of a flow collection ends here without a node. -/
def endsFlowPart (close : Token) : Tokens → Bool
  | t :: _ => t == .value || t == .separator || t == close
  | [] => false

/-- The node for properties that nothing follows. -/
def bare (p : Properties) (ts : Tokens) : Result (Node × Tokens) :=
  if p.anchor.isSome || p.tag.isSome then .ok (.scalar p [] true, ts) else .error .unexpectedToken

/-- The place after the separator that stands in front of every part but the first. -/
def separated (first : Bool) : Tokens → Result Tokens
  | .separator :: ts => if first then .ok (.separator :: ts) else .ok ts
  | ts => if first then .ok ts else .error .unexpectedToken

mutual

/-- The node that starts here. Block collections, and sequences whose entries are not
indented, are only possible in some places. -/
def node (handles : Handles) (block unindented : Bool) :
    Nat → Tokens → Result (Node × Tokens)
  | 0, _ => .error .unexpectedToken
  | fuel + 1, ts =>
    match ts with
    | .alias name :: ts => .ok (.alias name, ts)
    | _ => do
      let (p, ts) ← properties handles ts
      match ts with
      | .entry :: _ =>
        if unindented then
          let (items, ts) ← unindentedItems handles fuel ts
          return (.sequence p items, ts)
        else bare p ts
      | .scalar text plain :: ts => return (.scalar p text plain, ts)
      | .flowSequence :: ts =>
        let (items, ts) ← flowItems handles true fuel ts
        return (.sequence p items, ts)
      | .flowMapping :: ts =>
        let (entries, ts) ← flowEntries handles true fuel ts
        return (.mapping p entries, ts)
      | .blockSequence :: rest =>
        if block then
          let (items, ts) ← blockItems handles fuel rest
          return (.sequence p items, ts)
        else bare p ts
      | .blockMapping :: rest =>
        if block then
          let (entries, ts) ← blockEntries handles fuel rest
          return (.mapping p entries, ts)
        else bare p ts
      | _ => bare p ts

/-- The items of a block sequence up to its end. -/
def blockItems (handles : Handles) : Nat → Tokens → Result (List Node × Tokens)
  | 0, _ => .error .unexpectedToken
  | fuel + 1, ts =>
    match ts with
    | .blockEnd :: ts => .ok ([], ts)
    | .entry :: ts => do
      let (item, ts) ←
        match ts with
        | .entry :: _ | .blockEnd :: _ => pure (NodeOf.empty, ts)
        | _ => node handles true false fuel ts
      let (items, ts) ← blockItems handles fuel ts
      return (item :: items, ts)
    | _ => .error .unexpectedToken

/-- The items of a sequence whose entries are not indented, as far as there are entries. -/
def unindentedItems (handles : Handles) : Nat → Tokens → Result (List Node × Tokens)
  | 0, _ => .error .unexpectedToken
  | fuel + 1, ts =>
    match ts with
    | .entry :: ts => do
      let (item, ts) ←
        match ts with
        | .entry :: _ => pure (NodeOf.empty, ts)
        | _ => if endsBlockPart ts then pure (NodeOf.empty, ts) else node handles true false fuel ts
      let (items, ts) ← unindentedItems handles fuel ts
      return (item :: items, ts)
    | _ => .ok ([], ts)

/-- The entries of a block mapping up to its end. -/
def blockEntries (handles : Handles) : Nat → Tokens → Result (List (Node × Node) × Tokens)
  | 0, _ => .error .unexpectedToken
  | fuel + 1, ts =>
    match ts with
    | .blockEnd :: ts => .ok ([], ts)
    | .key :: ts => do
      let (k, ts) ←
        if endsBlockPart ts then pure (NodeOf.empty, ts) else node handles true true fuel ts
      let (v, ts) ← blockValue handles fuel ts
      let (entries, ts) ← blockEntries handles fuel ts
      return ((k, v) :: entries, ts)
    | _ => .error .unexpectedToken

/-- The value of an entry of a block mapping. -/
def blockValue (handles : Handles) : Nat → Tokens → Result (Node × Tokens)
  | 0, _ => .error .unexpectedToken
  | fuel + 1, ts =>
    match ts with
    | .value :: ts =>
      if endsBlockPart ts then .ok (NodeOf.empty, ts) else node handles true true fuel ts
    | _ => .ok (NodeOf.empty, ts)

/-- The items of a flow sequence up to its end. An item may be a mapping of one entry. -/
def flowItems (handles : Handles) (first : Bool) : Nat → Tokens → Result (List Node × Tokens)
  | 0, _ => .error .unexpectedToken
  | fuel + 1, ts =>
    match ts with
    | .flowSequenceEnd :: ts => .ok ([], ts)
    | _ => do
      let ts ← separated first ts
      match ts with
      | .flowSequenceEnd :: ts => return ([], ts)
      | .key :: ts =>
        let (k, ts) ←
          if endsFlowPart .flowSequenceEnd ts then pure (NodeOf.empty, ts.tail)
          else node handles false false fuel ts
        let (v, ts) ← flowValue handles .flowSequenceEnd fuel ts
        let (items, ts) ← flowItems handles false fuel ts
        return (.mapping default [(k, v)] :: items, ts)
      | _ =>
        let (item, ts) ← node handles false false fuel ts
        let (items, ts) ← flowItems handles false fuel ts
        return (item :: items, ts)

/-- The entries of a flow mapping up to its end. A key may stand without a value. -/
def flowEntries (handles : Handles) (first : Bool) :
    Nat → Tokens → Result (List (Node × Node) × Tokens)
  | 0, _ => .error .unexpectedToken
  | fuel + 1, ts =>
    match ts with
    | .flowMappingEnd :: ts => .ok ([], ts)
    | _ => do
      let ts ← separated first ts
      match ts with
      | .flowMappingEnd :: ts => return ([], ts)
      | .key :: ts =>
        let (k, ts) ←
          if endsFlowPart .flowMappingEnd ts then pure (NodeOf.empty, ts)
          else node handles false false fuel ts
        let (v, ts) ← flowValue handles .flowMappingEnd fuel ts
        let (entries, ts) ← flowEntries handles false fuel ts
        return ((k, v) :: entries, ts)
      | _ =>
        let (k, ts) ← node handles false false fuel ts
        let (entries, ts) ← flowEntries handles false fuel ts
        return ((k, NodeOf.empty) :: entries, ts)

/-- The value of an entry in a flow collection. -/
def flowValue (handles : Handles) (close : Token) : Nat → Tokens → Result (Node × Tokens)
  | 0, _ => .error .unexpectedToken
  | fuel + 1, ts =>
    match ts with
    | .value :: .separator :: rest => .ok (NodeOf.empty, .separator :: rest)
    | .value :: ts =>
      if ts.head? == some close then .ok (NodeOf.empty, ts) else node handles false false fuel ts
    | _ => .ok (NodeOf.empty, ts)

end

/-- The directives that stand here. -/
def directives : Tokens → List Directive × Tokens
  | .directive d :: ts =>
    let (ds, ts) := directives ts
    (d :: ds, ts)
  | ts => ([], ts)

/-- Whether a version of the format can be read. -/
def supportsVersion : Directive → Bool
  | .version major minor => major == 1 && (minor == 1 || minor == 2)
  | .tag .. => true

/-- Whether a directive is one about the version. -/
def Directive.isVersion : Directive → Bool
  | .version .. => true
  | .tag .. => false

/-- The handles that directives declare. None may be declared twice. -/
def declaredHandles (ds : List Directive) : Result Handles :=
  ds.foldlM (fun handles d =>
    match d with
    | .version .. => .ok handles
    | .tag handle start =>
      if (handles.lookup handle).isSome then .error .malformedDirective
      else .ok (handles ++ [(handle, start)])) []

/-- The handles that the directives of a document give it. -/
def handlesOf (ds : List Directive) : Result Handles := do
  if !ds.all supportsVersion then throw .incompatibleVersion
  if 1 < (ds.filter (·.isVersion)).length then throw .malformedDirective
  let declared ← declaredHandles ds
  return declared ++ standardHandles

/-- The node of the only document that the tokens hold, if there is one. -/
def documentNode (ts : Tokens) : Result (Option Node) := do
  let fuel := 4 * ts.length + 4
  let (ds, rest) := directives ts
  let (root, rest) ←
    match rest with
    | .finish :: _ => if ds.isEmpty then return none else throw .unexpectedToken
    | .documentStart :: rest =>
      let handles ← handlesOf ds
      match rest with
      | .directive _ :: _ | .documentStart :: _ | .documentEnd :: _ | .finish :: _ =>
        pure (NodeOf.empty, rest)
      | _ => node handles true false fuel rest
    | _ =>
      if ds.isEmpty then node standardHandles true false fuel rest else throw .unexpectedToken
  match rest.dropWhile (· == .documentEnd) with
  | [.finish] => return some root
  | .documentStart :: _ | .directive _ :: _ => throw .severalDocuments
  | _ => throw .unexpectedToken

end Provision.Yaml
