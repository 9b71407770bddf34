import VerticalSlice.Yaml.Cursor

/-!
# The texts of scalars

A scalar is written plainly, between quotes, or as an indented block. However it is written, its
text may go on over several lines, and then the ends of lines between its pieces are folded: a
single one counts as a space, and of several the first is dropped. Only a literal block keeps its
lines as they are.
-/

namespace VerticalSlice.Yaml

/-- What an end of line and the empty lines behind it stand for when they are folded. -/
def fold (first breaks : Text) : Text :=
  if first ≠ ['\n'] then first ++ breaks else if breaks = [] then [' '] else breaks

/-! ## Plain scalars -/

/-- The front of a text up to a gap, or up to a mark that ends a plain scalar. Within brackets more
marks end it. -/
def plainRun (inFlow : Bool) : Text → Text
  | [] => []
  | c :: rest =>
    if isGap c || (inFlow && ",?[]\x7b\x7d".toList.contains c) then []
    else if c == ':' &&
        rest.head?.all (fun d => isGap d || (inFlow && ",[]\x7b\x7d".toList.contains d)) then []
    else c :: plainRun inFlow rest

/-- The ends of lines in front, with the spaces between them dropped; `none` if a document ends
among them. -/
def plainBreaks : Nat → Scan (Option Text)
  | 0 => pure (some [])
  | count + 1 => do
    if ← isAt (· == ' ') then
      skip 1
      plainBreaks count
    else if ← isAt isBreak then
      let found ← lineBreak
      if ← isAtDocumentMarker then return none
      return (← plainBreaks count).map (found ++ ·)
    else return some []

/-- What stands between two pieces of a plain scalar, and whether a line ends in it. Nothing
stands there when the scalar cannot go on. -/
def plainGap : Scan (Text × Bool) := do
  let spaces ← takeRun (· == ' ')
  if ← isAt isBreak then
    let first ← lineBreak
    if ← isAtDocumentMarker then return ([], true)
    match ← plainBreaks (← get).rest.length with
    | none => return ([], true)
    | some breaks => return (fold first breaks, true)
  else return (spaces, false)

/-- The pieces of a plain scalar behind `gap`, and whether a line ends behind the last of them.
Outside brackets the lines of the scalar are indented at least as far as `indent`. -/
def plainPieces (inFlow : Bool) (indent : Int) (gap : Text) (onNewLine : Bool) :
    Nat → Scan (Text × Bool)
  | 0 => pure ([], onNewLine)
  | count + 1 => do
    let piece := plainRun inFlow (← get).rest
    if piece = [] || (← isAt (· == '#')) then return ([], onNewLine)
    skip piece.length
    let (next, broken) ← plainGap
    if next = [] || (← isAt (· == '#')) || (!inFlow && (← get).column < indent) then
      return (gap ++ piece, broken)
    let (more, ended) ← plainPieces inFlow indent next broken count
    return (gap ++ piece ++ more, ended)

/-- The text of a plain scalar, and whether a line ends behind it. -/
def plainScalar (inFlow : Bool) (indent : Int) : Scan (Text × Bool) := do
  plainPieces inFlow indent [] false (← get).rest.length

/-! ## Quoted scalars -/

/-- The characters that a letter behind a backslash stands for. -/
def escapes : List (Char × Char) :=
  [('0', '\x00'), ('a', '\x07'), ('b', '\x08'), ('t', '\t'), ('\t', '\t'), ('n', '\n'),
    ('v', '\x0b'), ('f', '\x0c'), ('r', '\r'), ('e', '\x1b'), (' ', ' '), ('"', '"'), ('\\', '\\'),
    ('/', '/'), ('N', '\x85'), ('_', '\xa0'), ('L', '\u2028'), ('P', '\u2029')]

/-- How many hexadecimal digits follow a letter behind a backslash. -/
def escapeDigits : List (Char × Nat) := [('x', 2), ('u', 4), ('U', 8)]

/-- Takes this many hexadecimal digits and gives the number they write. -/
def hexNumber (count : Nat) : Scan Nat := do
  let digits := ((← get).rest.take count).filterMap Text.hexValue?
  if digits.length = count then
    skip count
    return digits.foldl (fun number digit => number * 16 + digit) 0
  else malformed

/-- The ends of lines in front, with the spaces and tabs around them dropped. A document cannot end
among them. -/
def quotedBreaks : Nat → Scan Text
  | 0 => pure []
  | count + 1 => do
    if ← isAtDocumentMarker then malformed
    skipRun fun c => c == ' ' || c == '\t'
    if ← isAt isBreak then
      let found ← lineBreak
      return found ++ (← quotedBreaks count)
    else return []

/-- The character that is written with a backslash. -/
def escaped : Scan Text := do
  skip 1
  match ← peek 0 with
  | none => malformed
  | some c =>
    match escapes.lookup c, escapeDigits.lookup c with
    | some char, _ =>
      skip 1
      return [char]
    | none, some count =>
      skip 1
      let code ← hexNumber count
      if h : code.isValidChar then return [Char.ofNatAux code h]
      else if 0x110000 ≤ code then throw .noSuchCharacter
      else malformed
    | none, none =>
      if isBreak c then
        let _ ← lineBreak
        quotedBreaks (← get).rest.length
      else malformed

/-- The characters up to a gap or the closing quote. -/
def quotedPiece (double : Bool) : Nat → Scan Text
  | 0 => pure []
  | count + 1 => do
    let run ← takeRun fun c => !(isGap c || c == '\'' || c == '"' || c == '\\')
    match ← peek 0, ← peek 1 with
    | some '\'', second =>
      if double then
        skip 1
        return run ++ '\'' :: (← quotedPiece double count)
      else if second = some '\'' then
        skip 2
        return run ++ '\'' :: (← quotedPiece double count)
      else return run
    | some '"', _ =>
      if double then return run
      else
        skip 1
        return run ++ '"' :: (← quotedPiece double count)
    | some '\\', _ =>
      if double then
        let char ← escaped
        return run ++ char ++ (← quotedPiece double count)
      else
        skip 1
        return run ++ '\\' :: (← quotedPiece double count)
    | _, _ => return run

/-- The gap between two pieces. -/
def quotedGap : Scan Text := do
  let spaces ← takeRun fun c => c == ' ' || c == '\t'
  match ← peek 0 with
  | none => malformed
  | some c =>
    if isBreak c then
      let first ← lineBreak
      return fold first (← quotedBreaks (← get).rest.length)
    else return spaces

/-- The gaps and pieces up to the closing quote, which is passed over. -/
def quotedRest (double : Bool) : Nat → Scan Text
  | 0 => malformed
  | count + 1 => do
    if ← isAt (· == if double then '"' else '\'') then
      skip 1
      return []
    else
      let gap ← quotedGap
      let piece ← quotedPiece double (← get).rest.length
      return gap ++ piece ++ (← quotedRest double count)

/-- The text of a quoted scalar. -/
def quotedScalar (double : Bool) : Scan Text := do
  skip 1
  let first ← quotedPiece double (← get).rest.length
  return first ++ (← quotedRest double ((← get).rest.length + 1))

/-! ## Block scalars -/

/-- What becomes of the ends of lines behind the last line of a block. -/
inductive Chomping
  | strip
  | clip
  | keep
deriving DecidableEq, Repr

/-- The sign for the last ends of lines. -/
def chompingMark : Scan (Option Chomping) := do
  match ← peek 0 with
  | some '+' =>
    skip 1
    return some .keep
  | some '-' =>
    skip 1
    return some .strip
  | _ => return none

/-- The digit that says how much further a block is indented than what is around it. -/
def indentationMark : Scan (Option Nat) := do
  match ← peek 0 with
  | some c =>
    if c.isDigit then
      if c == '0' then malformed
      skip 1
      return some (c.toNat - '0'.toNat)
    else return none
  | none => return none

/-- The two marks of a block, in either order. -/
def blockMarks : Scan (Chomping × Option Nat) := do
  match ← chompingMark with
  | some chomping => return (chomping, ← indentationMark)
  | none =>
    match ← indentationMark with
    | some more => return ((← chompingMark).getD .clip, some more)
    | none => return (.clip, none)

/-- The empty lines in front, and the greatest column that spaces among them lead to. -/
def blockIndentation : Nat → Scan (Text × Nat)
  | 0 => pure ([], 0)
  | count + 1 => do
    if ← isAt (· == ' ') then
      skip 1
      let column := (← get).column
      let (breaks, greatest) ← blockIndentation count
      return (breaks, max column greatest)
    else if ← isAt isBreak then
      let found ← lineBreak
      let (breaks, greatest) ← blockIndentation count
      return (found ++ breaks, greatest)
    else return ([], 0)

/-- Passes over the spaces in front, as far as this column. -/
def skipIndentation (indent : Nat) : Scan Unit := do
  let cursor ← get
  skip ((cursor.rest.take (indent - cursor.column)).takeWhile (· == ' ')).length

/-- The empty lines in front of the next line of a block, up to its indentation. -/
def blockBreaks (indent : Nat) : Nat → Scan Text
  | 0 => pure []
  | count + 1 => do
    skipIndentation indent
    if ← isAt isBreak then
      let found ← lineBreak
      return found ++ (← blockBreaks indent count)
    else return []

/-- The lines of a block behind the empty lines `breaks`; with the text come the end of its last
line and the empty lines behind that. -/
def blockLines (folded : Bool) (indent : Nat) (breaks : Text) : Nat → Scan (Text × Text × Text)
  | 0 => pure ([], [], breaks)
  | count + 1 => do
    let spaced ← isAt fun c => c == ' ' || c == '\t'
    let line ← takeRun (!isBreak ·)
    let ending ← lineBreak
    let nextBreaks ← blockBreaks indent (← get).rest.length
    let cursor ← get
    if cursor.column = indent && !cursor.rest.isEmpty then
      let foldable := folded && ending = ['\n'] && !spaced &&
        !cursor.rest.head?.any fun c => c == ' ' || c == '\t'
      let glue : Text := if !foldable then ending else if nextBreaks = [] then [' '] else []
      let (more, last, after) ← blockLines folded indent nextBreaks count
      return (breaks ++ line ++ glue ++ more, last, after)
    else return (breaks ++ line, ending, nextBreaks)

/-- The text of a block scalar inside a collection that is indented as far as `outer`. -/
def blockScalar (folded : Bool) (outer : Int) : Scan Text := do
  skip 1
  let (chomping, indentation) ← blockMarks
  unless ← isAtOrEnd (fun c => c == ' ' || isBreak c) do malformed
  finishLine
  let least := max 1 (outer + 1).toNat
  let (indent, breaks) ← do
    match indentation with
    | some more =>
      let indent := least + more - 1
      pure (indent, ← blockBreaks indent (← get).rest.length)
    | none =>
      let (breaks, greatest) ← blockIndentation (← get).rest.length
      pure (max least greatest, breaks)
  let cursor ← get
  let (text, ending, after) ←
    if cursor.column = indent && !cursor.rest.isEmpty then
      blockLines folded indent breaks (cursor.rest.length + 1)
    else pure ([], [], breaks)
  return match chomping with
    | .strip => text
    | .clip => text ++ ending
    | .keep => text ++ ending ++ after

end VerticalSlice.Yaml
