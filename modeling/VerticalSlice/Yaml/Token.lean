import VerticalSlice.Yaml.Scalar

/-!
# The tokens of a YAML text

Indentation and the colon behind a key are made explicit: a token opens and another one closes each
indented collection, and a token stands in front of every key. What remains is a row in which the
structure can be read off without looking at columns.
-/

namespace VerticalSlice.Yaml

/-- A token. -/
inductive Token
  /-- The major number of the version that a directive asks for. -/
  | version (major : Nat)
  /-- A directive that gives a meaning to the handle of tags. -/
  | tagHandle (handle meaning : Text)
  | otherDirective
  | documentStart
  | documentEnd
  | blockSequence
  | blockMapping
  | blockEnd
  | flowSequence
  | flowSequenceEnd
  | flowMapping
  | flowMappingEnd
  | entry
  | comma
  | key
  | value
  | alias (name : Text)
  | anchor (name : Text)
  | tag (handle : Option Text) (suffix : Text)
  /-- The text of a scalar, and whether it is written without quotes. -/
  | scalar (text : Text) (plain : Bool)
deriving DecidableEq, Repr

/-! ## Names and tags -/

/-- Can the character stand in the name of an anchor, a directive or a handle? -/
def isNameChar (c : Char) : Bool := c.isAlphanum || c == '-' || c == '_'

/-- Takes a name, which has one character at least. -/
def takeName : Scan Text := do
  let name ← takeRun isNameChar
  if name = [] then malformed
  return name

/-- The name behind the mark of an anchor or an alias. -/
def anchorName : Scan Text := do
  skip 1
  let name ← takeName
  unless ← isAtOrEnd (fun c => isGap c || "?:,]\x7d%@`".toList.contains c) do malformed
  return name

/-- A handle of tags, from its first exclamation mark to its last. -/
def handle : Scan Text := do
  unless ← isAt (· == '!') do malformed
  skip 1
  let name ← takeRun isNameChar
  if ← isAt (· == '!') then
    skip 1
    return '!' :: name ++ ['!']
  else if name = [] && (← isAt (· == ' ')) then return ['!']
  else malformed

/-- Can the character stand in the name of a tag without an escape? -/
def isTagChar (c : Char) : Bool :=
  c.isAlphanum || "-;/?:@&=+$,_.!~*'()[]".toList.contains c

/-- The bytes that are written with percent signs. -/
def percentBytes : Nat → Scan (List UInt8)
  | 0 => pure []
  | count + 1 => do
    if ← isAt (· == '%') then
      skip 1
      let byte ← hexNumber 2
      return UInt8.ofNat byte :: (← percentBytes count)
    else return []

/-- The pieces of the name of a tag. -/
def tagPieces : Nat → Scan Text
  | 0 => pure []
  | count + 1 => do
    let run ← takeRun isTagChar
    if ← isAt (· == '%') then
      match Text.Utf8.decode (← percentBytes (← get).rest.length) with
      | .error _ => malformed
      | .ok text => return run ++ text ++ (← tagPieces count)
    else return run

/-- The name of a tag, which has one character at least. -/
def tagName : Scan Text := do
  let before := (← get).index
  let name ← tagPieces (← get).rest.length
  if (← get).index = before then malformed
  return name

/-- A tag: a name between angle brackets, a lone exclamation mark, or a handle with a name. -/
def tag : Scan Token := do
  let rest := (← get).rest
  let found ← do
    if rest[1]? = some '<' then
      skip 2
      let name ← tagName
      unless ← isAt (· == '>') do malformed
      skip 1
      pure (Token.tag none name)
    else if rest[1]?.all isGap then
      skip 1
      pure (Token.tag none ['!'])
    else
      let word := (rest.drop 1).takeWhile fun c => !(c == ' ' || isBreak c)
      if word.contains '!' then
        let handle ← handle
        pure (Token.tag (some handle) (← tagName))
      else
        skip 1
        pure (Token.tag (some ['!']) (← tagName))
  unless ← isAtOrEnd (fun c => c == ' ' || isBreak c) do malformed
  return found

/-! ## Directives -/

/-- A number in decimal digits. -/
def decimal : Scan Nat := do
  let digits ← takeRun Char.isDigit
  if digits = [] then malformed
  return digits.foldl (fun number digit => number * 10 + (digit.toNat - '0'.toNat)) 0

/-- A directive, with the rest of its line. -/
def directive : Scan Token := do
  skip 1
  let name ← takeName
  unless ← isAtOrEnd (fun c => c == ' ' || isBreak c) do malformed
  let found ← do
    if name = "YAML" then
      skipRun (· == ' ')
      let major ← decimal
      unless ← isAt (· == '.') do malformed
      skip 1
      let _ ← decimal
      unless ← isAtOrEnd (fun c => c == ' ' || isBreak c) do malformed
      pure (Token.version major)
    else if name = "TAG" then
      skipRun (· == ' ')
      let handle ← handle
      unless ← isAt (· == ' ') do malformed
      skipRun (· == ' ')
      let meaning ← tagName
      unless ← isAtOrEnd (fun c => c == ' ' || isBreak c) do malformed
      pure (Token.tagHandle handle meaning)
    else
      skipRun (!isBreak ·)
      pure Token.otherDirective
  finishLine
  return found

end VerticalSlice.Yaml
