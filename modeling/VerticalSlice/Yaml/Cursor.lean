import VerticalSlice.Text.Search
import VerticalSlice.Text.Utf8

/-!
# Reading a YAML text character by character

A cursor stands in front of the characters that are left and knows the line and the column it has
come to: the layout of a YAML text is part of what the text says. Lines end with a line feed, with
the character `U+0085`, or with one of the two Unicode separators.
-/

namespace VerticalSlice.Yaml

/-- What keeps a YAML text from having a value. -/
inductive Fault
  /-- The text is not well formed, or uses what plain data does not have. -/
  | malformed
  /-- An escape names a character that does not exist. -/
  | noSuchCharacter
  /-- A text that is declared to be a whole number is none in this base. -/
  | notWhole (base : Nat) (text : Text)
  /-- A text that is declared to be a number is none. -/
  | notReal (text : Text)
  | emptyNumber
  | unknownBoolean (text : Text)
  | notATimestamp
  | yearOutOfRange (year : Nat)
  | monthOutOfRange
  | dayOutOfRange
  | hourOutOfRange
  | minuteOutOfRange
  | secondOutOfRange
  /-- A distance from universal time, in minutes, that is a day or more. -/
  | offsetOutOfRange (minutes : Int)
deriving DecidableEq, Repr

/-- A place in a text: what follows it, and how far it is from the start. -/
structure Cursor where
  rest : Text
  index : Nat
  line : Nat
  column : Nat

/-- Does the character end a line? -/
def isBreak (c : Char) : Bool :=
  c == '\n' || c == '\x85' || c == '\u2028' || c == '\u2029'

/-- Is the character a space, a tab or the end of a line? -/
def isGap (c : Char) : Bool := c == ' ' || c == '\t' || isBreak c

/-- The place behind the next character. A byte order mark takes no column. -/
def Cursor.next (cursor : Cursor) : Cursor :=
  match cursor.rest with
  | [] => cursor
  | c :: rest =>
    if isBreak c then ⟨rest, cursor.index + 1, cursor.line + 1, 0⟩
    else
      let column := if c == '\ufeff' then cursor.column else cursor.column + 1
      ⟨rest, cursor.index + 1, cursor.line, column⟩

/-- Reads from a cursor, or finds a fault. -/
abbrev Scan := StateT Cursor (Except Fault)

/-- The text is not well formed. -/
def malformed : Scan α := throw .malformed

/-- The character with `count` others before it. -/
def peek (count : Nat) : Scan (Option Char) := do return (← get).rest[count]?

/-- Is the character in front one of these? -/
def isAt (accept : Char → Bool) : Scan Bool := do return (← peek 0).any accept

/-- Is the character in front one of these, or is there none? -/
def isAtOrEnd (accept : Char → Bool) : Scan Bool := do return (← peek 0).all accept

/-- Passes over `count` characters. -/
def skip (count : Nat) : Scan Unit := modify (Nat.repeat Cursor.next count)

/-- Takes the run of these characters. -/
def takeRun (accept : Char → Bool) : Scan Text := do
  let run := (← get).rest.takeWhile accept
  skip run.length
  return run

/-- Passes over the run of these characters. -/
def skipRun (accept : Char → Bool) : Scan Unit := do let _ ← takeRun accept

/-- Takes the end of a line, if there is one: a separator stands for itself, and any other end for
a line feed. -/
def lineBreak : Scan Text := do
  match ← peek 0 with
  | none => return []
  | some c =>
    if c == '\n' || c == '\x85' then
      skip 1
      return ['\n']
    else if isBreak c then
      skip 1
      return [c]
    else return []

/-- Passes over a comment, up to the end of the line. -/
def skipComment : Scan Unit := do
  if ← isAt (· == '#') then skipRun (!isBreak ·)

/-- Passes over the rest of a line, which may hold spaces and a comment only. -/
def finishLine : Scan Unit := do
  skipRun (· == ' ')
  skipComment
  if ← isAtOrEnd isBreak then
    let _ ← lineBreak
  else malformed

/-- Do three of these characters stand in front, with a gap or nothing behind them? -/
def isAtMarker (c : Char) : Scan Bool := do
  let rest := (← get).rest
  return [c, c, c].isPrefixOf rest && rest[3]?.all isGap

/-- Does a line that begins or ends a document stand in front? -/
def isAtDocumentMarker : Scan Bool := do
  return (← isAtMarker '-') || (← isAtMarker '.')

end VerticalSlice.Yaml
