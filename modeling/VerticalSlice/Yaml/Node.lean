import VerticalSlice.Yaml.Layout
import VerticalSlice.Yaml.Tag

/-!
# The nodes of a YAML text

A document is one node: a scalar, a sequence of nodes, or a mapping with pairs of nodes. A node can
be given a name by an anchor, and an alias then stands for it. Only a text with one document, or
none, is read.
-/

namespace VerticalSlice.Yaml

/-- A node with its tag. -/
inductive Node
  | scalar (tag : Tag) (text : Text)
  | sequence (tag : Tag) (items : List Node)
  | mapping (tag : Tag) (pairs : List (Node × Node))
  /-- A collection that this place is inside of, met again through its name. -/
  | enclosing (isMapping : Bool)

/-- The tokens that are left, with the names and handles that are known. -/
structure Row where
  tokens : List Token
  anchors : List (Text × Node)
  handles : List (Text × Text)

/-- Takes tokens from a row, or finds it malformed. -/
abbrev Parse := StateT Row (Except Fault)

namespace Parse

def malformed : Parse α := throw .malformed

/-- The next token. -/
def next : Parse (Option Token) := do return (← get).tokens.head?

/-- Passes over the next token. -/
def advance : Parse Unit := modify fun row => { row with tokens := row.tokens.drop 1 }

/-- Passes over the next token if it is this one, and says whether it was. -/
def accept (token : Token) : Parse Bool := do
  if (← next) = some token then
    advance
    return true
  else return false

/-- Is the next token one of these? -/
def isNext (tokens : List Token) : Parse Bool := do return (← next).any tokens.contains

/-- The handles that need no directive. -/
def commonHandles : List (Text × Text) := [("!", "!"), ("!!", Tag.commonStart)]

/-- The full name of a tag. -/
def fullTag (handle : Option Text) (suffix : Text) : Parse Text := do
  match handle with
  | none => return suffix
  | some handle =>
    match (← get).handles.lookup handle with
    | some meaning => return meaning ++ suffix
    | none => malformed

/-- The anchor and the tag in front of a node, in either order. -/
def properties : Parse (Option Text × Option Text) := do
  match ← next with
  | some (.anchor name) =>
    advance
    match ← next with
    | some (.tag handle suffix) =>
      advance
      return (some name, some (← fullTag handle suffix))
    | _ => return (some name, none)
  | some (.tag handle suffix) =>
    advance
    let tag ← fullTag handle suffix
    match ← next with
    | some (.anchor name) =>
      advance
      return (some name, some tag)
    | _ => return (none, some tag)
  | _ => return (none, none)

/-- The tag that is written, unless it is none or says nothing. -/
def written (tag : Option Text) : Option Text := tag.filter (· ≠ ['!'])

/-- A node without any text. -/
def emptyNode : Node := .scalar (Tag.ofPlain []) []

/-- Gives a name to a node. -/
def name (anchor : Option Text) (node : Node) : Parse Unit := do
  match anchor with
  | none => return
  | some anchor => modify fun row => { row with anchors := (anchor, node) :: row.anchors }

/-- A collection with the reader of what is in it. Inside, its name stands for a collection that is
not finished. -/
def collection (anchor : Option Text) (isMapping : Bool) (content : Parse Node) : Parse Node := do
  name anchor (.enclosing isMapping)
  let node ← content
  name anchor node
  return node

/-- A node, or an empty one if one of the tokens comes next. -/
def orEmpty (stops : List Token) (node : Parse Node) : Parse Node := do
  if ← isNext stops then return emptyNode else node

mutual

/-- A node. `block` allows collections that are not in brackets, and `bare` besides a sequence that
is not indented. -/
def node (block bare : Bool) : Nat → Parse Node
  | 0 => malformed
  | depth + 1 => do
    match ← next with
    | some (.alias name) =>
      advance
      match (← get).anchors.lookup name with
      | some node => return node
      | none => malformed
    | _ =>
      let (anchor, tag) ← properties
      if ((← get).anchors.lookup (anchor.getD [])).isSome then malformed
      let listTag := ((written tag).map Tag.ofName).getD .list
      let mappingTag := ((written tag).map Tag.ofName).getD .mapping
      match ← next with
      | some (.scalar text plain) =>
        advance
        let node :=
          match written tag with
          | some tag => Node.scalar (.ofName tag) text
          | none =>
            if plain || tag.isSome then .scalar (.ofPlain text) text else .scalar .string text
        name anchor node
        return node
      | some .flowSequence =>
        advance
        collection anchor false do return .sequence listTag (← flowItems true depth)
      | some .flowMapping =>
        advance
        collection anchor true do return .mapping mappingTag (← flowPairs true depth)
      | some .entry =>
        if bare then
          collection anchor false do return .sequence listTag (← bareItems depth)
        else empty anchor tag
      | some .blockSequence =>
        if block then
          advance
          collection anchor false do return .sequence listTag (← blockItems depth)
        else empty anchor tag
      | some .blockMapping =>
        if block then
          advance
          collection anchor true do return .mapping mappingTag (← blockPairs depth)
        else empty anchor tag
      | _ => empty anchor tag
where
  /-- A node that consists of its anchor and its tag. -/
  empty (anchor tag : Option Text) : Parse Node := do
    if anchor.isNone && tag.isNone then malformed
    let node :=
      match written tag with
      | some tag => Node.scalar (.ofName tag) []
      | none => emptyNode
    name anchor node
    return node

/-- The entries of a block sequence, up to its end. -/
def blockItems : Nat → Parse (List Node)
  | 0 => malformed
  | depth + 1 => do
    if ← accept .entry then
      let item ← orEmpty [.entry, .blockEnd] (node true false depth)
      return item :: (← blockItems depth)
    else if ← accept .blockEnd then return []
    else malformed

/-- The entries of a sequence that is not indented, up to the first token that is none. -/
def bareItems : Nat → Parse (List Node)
  | 0 => malformed
  | depth + 1 => do
    if ← accept .entry then
      let item ← orEmpty [.entry, .key, .value, .blockEnd] (node true false depth)
      return item :: (← bareItems depth)
    else return []

/-- The pairs of a block mapping, up to its end. -/
def blockPairs : Nat → Parse (List (Node × Node))
  | 0 => malformed
  | depth + 1 => do
    let content := orEmpty [.key, .value, .blockEnd] (node true true depth)
    if ← accept .blockEnd then return []
    else if ← accept .key then
      let key ← content
      let value ← if ← accept .value then content else pure emptyNode
      return (key, value) :: (← blockPairs depth)
    else malformed

/-- The items of a sequence in brackets, up to the closing one. A pair among them is a mapping of
its own. -/
def flowItems (first : Bool) : Nat → Parse (List Node)
  | 0 => malformed
  | depth + 1 => do
    if ← accept .flowSequenceEnd then return []
    unless first || (← accept .comma) do malformed
    if ← accept .key then
      let key ← orEmpty [.value, .comma, .flowSequenceEnd] (node false false depth)
      let value ←
        if ← accept .value then orEmpty [.comma, .flowSequenceEnd] (node false false depth)
        else pure emptyNode
      return .mapping .mapping [(key, value)] :: (← flowItems false depth)
    else if ← accept .flowSequenceEnd then return []
    else
      let item ← node false false depth
      return item :: (← flowItems false depth)

/-- The pairs of a mapping in braces, up to the closing one. -/
def flowPairs (first : Bool) : Nat → Parse (List (Node × Node))
  | 0 => malformed
  | depth + 1 => do
    if ← accept .flowMappingEnd then return []
    unless first || (← accept .comma) do malformed
    if ← accept .key then
      let key ← orEmpty [.value, .comma, .flowMappingEnd] (node false false depth)
      let value ←
        if ← accept .value then orEmpty [.comma, .flowMappingEnd] (node false false depth)
        else pure emptyNode
      return (key, value) :: (← flowPairs false depth)
    else if ← accept .flowMappingEnd then return []
    else
      let key ← node false false depth
      return (key, emptyNode) :: (← flowPairs false depth)

end

/-- Passes over the directives in front of a document. -/
def directives (versioned : Bool) : Nat → Parse Unit
  | 0 => pure ()
  | count + 1 => do
    match ← next with
    | some (.version major) =>
      advance
      if versioned || major ≠ 1 then malformed
      directives true count
    | some (.tagHandle handle meaning) =>
      advance
      if ((← get).handles.lookup handle).isSome then malformed
      modify fun row => { row with handles := (handle, meaning) :: row.handles }
      directives versioned count
    | some .otherDirective =>
      advance
      directives versioned count
    | _ => return

/-- Passes over the lines that end a document. -/
def documentEnds : Nat → Parse Unit
  | 0 => pure ()
  | count + 1 => do
    if ← accept .documentEnd then documentEnds count

/-- Is the next token one that stands between documents, or is there none? -/
def isAtBoundary : Parse Bool := do
  match ← next with
  | none | some .documentStart | some .documentEnd | some (.version _) | some (.tagHandle _ _)
  | some .otherDirective => return true
  | _ => return false

/-- The node of the only document. -/
def document : Parse (Option Node) := do
  let count := (← get).tokens.length
  let depth := 4 * count + 8
  if count = 0 then return none
  let node ← do
    if (← isAtBoundary) && (← next) ≠ some .documentEnd then
      directives false count
      modify fun row => { row with handles := row.handles ++ commonHandles }
      if ← accept .documentStart then
        if ← isAtBoundary then pure emptyNode else node true false depth
      else malformed
    else
      modify fun row => { row with handles := commonHandles }
      node true false depth
  documentEnds count
  if (← next).isSome then malformed
  return some node

end Parse

/-- The node of a text, `none` if there is nothing in the text. -/
def Node.ofText (text : Text) : Except Fault (Option Node) := do
  let tokens ← Token.ofText text
  let (node, _) ← Parse.document ⟨tokens, [], []⟩
  return node

end VerticalSlice.Yaml
