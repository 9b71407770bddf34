import VerticalSlice.Yaml.Token

/-!
# From layout to tokens

A collection that is not in brackets begins at the column of its first entry and ends in front of
the first token further left. A key is only known for a key when the colon behind it is met, so the
place of every token that may turn out to begin a key is kept until its line ends; a token that must
be a key, being the first of its line in a mapping, may not be left without a colon.
-/

namespace VerticalSlice.Yaml

/-- A token that a key may begin with. -/
structure PossibleKey where
  /-- How many tokens stand before it. -/
  position : Nat
  /-- Must it be a key? -/
  required : Bool
  index : Nat
  line : Nat
  column : Nat

/-- How far a text has been taken apart. -/
structure Layout where
  cursor : Cursor
  /-- The tokens so far, the last one first. -/
  tokens : List Token := []
  /-- How many tokens there are. -/
  count : Nat := 0
  /-- The column of the innermost block collection, -1 if there is none. -/
  indent : Int := -1
  /-- The columns of the collections around it. -/
  outer : List Int := []
  /-- May a key begin here? -/
  keyAllowed : Bool := true
  /-- The possible key within each open bracket, and outside all of them; innermost first. -/
  keys : List (Option PossibleKey) := [none]

/-- Changes a layout, or finds a fault. -/
abbrev Step := StateT Layout (Except Fault)

namespace Layout

/-- Is the place between brackets? -/
def inFlow (layout : Layout) : Bool := layout.keys.length > 1

/-- Does the possible key, if there is one, still have to get its colon? -/
def isOwed (key : Option PossibleKey) : Bool := key.any (·.required)

/-- The layout with one more token. -/
def emit (layout : Layout) (token : Token) : Layout :=
  { layout with tokens := token :: layout.tokens, count := layout.count + 1 }

/-- The layout with a token put in where `position` others stand before it. -/
def insertAt (layout : Layout) (position : Nat) (token : Token) : Layout :=
  let behind := layout.count - position
  { layout with
    tokens := layout.tokens.take behind ++ token :: layout.tokens.drop behind
    count := layout.count + 1 }

/-- Closes the collections further right than `column`. -/
def closeTo (column : Int) : List Int → Layout → Layout
  | [], layout => layout
  | around :: outer, layout =>
    if layout.indent > column then
      closeTo column outer { layout.emit .blockEnd with indent := around, outer := outer }
    else layout

/-- Closes the collections that the column is to the left of; brackets keep all of them open. -/
def unwind (layout : Layout) (column : Int) : Layout :=
  if layout.inFlow then layout else closeTo column layout.outer layout

/-- Opens a collection at the column unless one is open there. -/
def openAt (layout : Layout) (column : Int) (position : Nat) (token : Token) : Layout :=
  if layout.indent < column then
    { layout.insertAt position token with
      indent := column
      outer := layout.indent :: layout.outer }
  else layout

end Layout

namespace Step

/-- Runs a reader at the place of the layout. -/
def scan (reader : Scan α) : Step α := do
  let layout ← get
  match reader layout.cursor with
  | .error fault => throw fault
  | .ok (found, cursor) =>
    set { layout with cursor := cursor }
    return found

def malformed : Step α := throw .malformed

def emit (token : Token) : Step Unit := modify (·.emit token)

def allowKey (allowed : Bool) : Step Unit := modify ({ · with keyAllowed := allowed })

/-- Gives up the possible key within the innermost brackets. -/
def dropKey : Step Unit := do
  let layout ← get
  if Layout.isOwed (layout.keys.headD none) then malformed
  set { layout with keys := none :: layout.keys.drop 1 }

/-- Gives up the possible keys that have been left behind: their line is over, or they are more
than 1024 characters back. -/
def dropStaleKeys : Step Unit := do
  let layout ← get
  let isStale (key : PossibleKey) : Bool :=
    key.line ≠ layout.cursor.line || layout.cursor.index - key.index > 1024
  if layout.keys.any (Option.any fun key => isStale key && key.required) then malformed
  set { layout with keys := layout.keys.map (Option.filter fun key => !isStale key) }

/-- Keeps the place as one where a key may begin. -/
def saveKey : Step Unit := do
  let layout ← get
  if layout.keyAllowed then
    dropKey
    let key : PossibleKey :=
      { position := layout.count
        required := !layout.inFlow && layout.indent = layout.cursor.column
        index := layout.cursor.index
        line := layout.cursor.line
        column := layout.cursor.column }
    modify fun layout => { layout with keys := some key :: layout.keys.drop 1 }

/-- A mark of one character that stands for a token. -/
def markToken (token : Token) : Step Unit := do
  scan (skip 1)
  emit token

/-- A line that begins or ends a document, or a directive: nothing outside brackets stays open. -/
def documentLine (reader : Scan Token) : Step Unit := do
  modify (·.unwind (-1))
  dropKey
  allowKey false
  emit (← scan reader)

/-- An opening bracket. -/
def openFlow (token : Token) : Step Unit := do
  saveKey
  modify fun layout => { layout with keys := none :: layout.keys }
  allowKey true
  markToken token

/-- A closing bracket. -/
def closeFlow (token : Token) : Step Unit := do
  dropKey
  if !(← get).inFlow then malformed
  modify fun layout => { layout with keys := layout.keys.drop 1 }
  allowKey false
  markToken token

/-- The dash of an entry. -/
def entry : Step Unit := do
  let layout ← get
  if !layout.inFlow then
    if !layout.keyAllowed then malformed
    set (layout.openAt layout.cursor.column layout.count .blockSequence)
  allowKey true
  dropKey
  markToken .entry

/-- The question mark in front of a key. -/
def explicitKey : Step Unit := do
  let layout ← get
  if !layout.inFlow then
    if !layout.keyAllowed then malformed
    set (layout.openAt layout.cursor.column layout.count .blockMapping)
  allowKey (!layout.inFlow)
  dropKey
  markToken .key

/-- The colon behind a key. -/
def value : Step Unit := do
  let layout ← get
  match layout.keys.headD none with
  | some key =>
    let opened := { layout.insertAt key.position .key with keys := none :: layout.keys.drop 1 }
    set (if layout.inFlow then opened else opened.openAt key.column key.position .blockMapping)
    allowKey false
  | none =>
    if !layout.inFlow then
      if !layout.keyAllowed then malformed
      set (layout.openAt layout.cursor.column layout.count .blockMapping)
    allowKey (!layout.inFlow)
    dropKey
  markToken .value

/-- A token that a key may begin with. -/
def content (reader : Scan Token) : Step Unit := do
  saveKey
  allowKey false
  emit (← scan reader)

/-- A scalar without quotes. A key may begin behind it if it ends its line. -/
def plain : Step Unit := do
  saveKey
  let layout ← get
  let (text, broken) ← scan (plainScalar layout.inFlow (layout.indent + 1))
  allowKey broken
  emit (.scalar text true)

/-- A block scalar. -/
def block (folded : Bool) : Step Unit := do
  allowKey true
  dropKey
  let text ← scan (blockScalar folded (← get).indent)
  emit (.scalar text false)

/-- Passes over the spaces, comments and ends of lines in front of the next token. -/
def skipToToken : Nat → Step Unit
  | 0 => pure ()
  | count + 1 => do
    scan do
      if (← get).index = 0 && (← isAt (· == '\ufeff')) then skip 1
      skipRun (· == ' ')
      skipComment
    if (← scan lineBreak) ≠ [] then
      if !(← get).inFlow then allowKey true
      skipToToken count

/-- Can a scalar without quotes begin with the character, seen with the one behind it? -/
def beginsPlain (inFlow : Bool) (c : Char) (second : Option Char) : Bool :=
  !(isGap c || "-?:,[]\x7b\x7d#&*!|>'\"%@`".toList.contains c) ||
    (!second.all isGap && (c == '-' || (!inFlow && (c == '?' || c == ':'))))

/-- The token that begins with `c`, or all tokens that its layout asks for. -/
def token (c : Char) (second : Option Char) : Step Unit := do
  let layout ← get
  let inFlow := layout.inFlow
  let atMargin := layout.cursor.column = 0
  let documentMarker (reader : Scan Bool) : Step Bool := do
    if atMargin then scan reader else return false
  if c == '%' && atMargin then documentLine directive
  else if ← documentMarker (isAtMarker '-') then
    documentLine do skip 3; return .documentStart
  else if ← documentMarker (isAtMarker '.') then
    documentLine do skip 3; return .documentEnd
  else if c == '[' then openFlow .flowSequence
  else if c == '\x7b' then openFlow .flowMapping
  else if c == ']' then closeFlow .flowSequenceEnd
  else if c == '\x7d' then closeFlow .flowMappingEnd
  else if c == ',' then
    allowKey true
    dropKey
    markToken .comma
  else if c == '-' && second.all isGap then entry
  else if c == '?' && (inFlow || second.all isGap) then explicitKey
  else if c == ':' && (inFlow || second.all isGap) then value
  else if c == '*' then content do return .alias (← anchorName)
  else if c == '&' then content do return .anchor (← anchorName)
  else if c == '!' then content tag
  else if c == '|' && !inFlow then block false
  else if c == '>' && !inFlow then block true
  else if c == '\'' then content do return .scalar (← quotedScalar false) false
  else if c == '"' then content do return .scalar (← quotedScalar true) false
  else if beginsPlain inFlow c second then plain
  else malformed

/-- All tokens, one after the other. -/
def tokens : Nat → Step Unit
  | 0 => malformed
  | count + 1 => do
    skipToToken ((← get).cursor.rest.length + 1)
    dropStaleKeys
    modify fun layout => layout.unwind layout.cursor.column
    match (← get).cursor.rest with
    | [] =>
      modify (·.unwind (-1))
      dropKey
    | c :: rest =>
      token c rest.head?
      tokens count

end Step

/-- Can the character stand in a YAML text? -/
def isPrintable (c : Char) : Bool :=
  let n := c.toNat
  n == 0x09 || n == 0x0a || n == 0x0d || (0x20 ≤ n && n ≤ 0x7e) || n == 0x85 ||
    (0xa0 ≤ n && n ≤ 0xfffd) || 0x10000 ≤ n

/-- The tokens of a text. -/
def Token.ofText (text : Text) : Except Fault (List Token) :=
  if text.all isPrintable then do
    let (_, layout) ← Step.tokens (text.length + 1) { cursor := ⟨text, 0, 0, 0⟩ }
    return layout.tokens.reverse
  else .error .malformed

end VerticalSlice.Yaml
