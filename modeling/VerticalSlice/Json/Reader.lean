import VerticalSlice.Json.Value

/-!
# Reading JSON

A document is one value with blanks around it. The reader goes through the text once and stops at
the first character that cannot go on, with the position of that character. Besides the standard
form it knows `NaN`, `Infinity` and `-Infinity`. A name that comes twice in an object keeps its
first place and takes the last value.
-/

namespace VerticalSlice.Json

/-- What was wanted where the text went wrong. -/
inductive Problem
  | byteOrderMark
  | expectingValue
  | expectingName
  | expectingColon
  | expectingComma
  | extraData
  | unterminatedText
  | controlCharacter
  | badEscape
  | badUnicodeEscape
deriving DecidableEq, Repr

/-- A problem and the position, from 0, of the character it stands at. -/
structure Fault where
  problem : Problem
  position : Nat
deriving DecidableEq, Repr

/-- A position in the text and all that follows it. -/
structure Cursor where
  position : Nat
  rest : Text

namespace Cursor

/-- The cursor `count` characters further. -/
def advance (cursor : Cursor) (count : Nat) : Cursor :=
  ⟨cursor.position + count, cursor.rest.drop count⟩

def isSpace (c : Char) : Bool := c == ' ' || c == '\t' || c == '\n' || c == '\r'

/-- The cursor behind the blanks in front of it. -/
def skipSpace (cursor : Cursor) : Cursor :=
  cursor.advance (cursor.rest.takeWhile isSpace).length

def fail (cursor : Cursor) (problem : Problem) : Except Fault α :=
  .error ⟨problem, cursor.position⟩

end Cursor

/-- The number that four hexadecimal digits at the front write. -/
def hexCode? : Text → Option Nat
  | a :: b :: c :: d :: _ => do
    let a ← Text.hexValue? a
    let b ← Text.hexValue? b
    let c ← Text.hexValue? c
    let d ← Text.hexValue? d
    return ((a * 16 + b) * 16 + c) * 16 + d
  | _ => none

/-- The code point that two halves of a pair stand for together. -/
def pairedCode? (first second : Nat) : Option Nat :=
  if 0xd800 ≤ first && first < 0xdc00 && 0xdc00 ≤ second && second < 0xe000 then
    some (0x10000 + (first - 0xd800) * 0x400 + (second - 0xdc00))
  else none

/-- The character of a code point; half of a pair on its own has none and is replaced. -/
def charOfCode (code : Nat) : Char :=
  if 0xd800 ≤ code && code < 0xe000 then '\ufffd' else Char.ofNat code

/-- The character that follows a backslash, where it stands for one character. -/
def escaped? : Char → Option Char
  | '"' => some '"'
  | '\\' => some '\\'
  | '/' => some '/'
  | 'b' => some '\x08'
  | 'f' => some '\x0c'
  | 'n' => some '\n'
  | 'r' => some '\r'
  | 't' => some '\t'
  | _ => none

/-- A `\u` escape whose digits start at the front of `digits`: its character, and how many
characters of `digits` it takes. A first half takes the second half that follows it. At least one
character has to follow the digits. An escape that is wrong gives how far behind the first `u` the
wrong one stands. -/
def unicodeEscape (digits : Text) : Except Nat (Char × Nat) :=
  if digits.length < 5 then .error 0
  else
    match hexCode? digits with
    | none => .error 0
    | some first =>
      match digits.drop 4 with
      | '\\' :: 'u' :: more =>
        if 0xd800 ≤ first && first < 0xdc00 && 4 < more.length then
          match hexCode? more with
          | none => .error 6
          | some second =>
            match pairedCode? first second with
            | some code => .ok (charOfCode code, 10)
            | none => .ok (charOfCode first, 4)
        else .ok (charOfCode first, 4)
      | _ => .ok (charOfCode first, 4)

/-- Reads the rest of a quoted text whose opening quote stands at `opening`; `skip` characters of
it belong to an escape that is read already. -/
def readText (opening : Nat) (skip position : Nat) (done : Text) :
    Text → Except Fault (Text × Cursor)
  | [] => .error ⟨.unterminatedText, opening⟩
  | c :: rest =>
    match skip with
    | skip + 1 => readText opening skip (position + 1) done rest
    | 0 =>
      if c = '"' then .ok (done.reverse, ⟨position + 1, rest⟩)
      else if c = '\\' then
        match rest with
        | [] => .error ⟨.unterminatedText, opening⟩
        | 'u' :: digits =>
          match unicodeEscape digits with
          | .ok (char, length) => readText opening (length + 1) (position + 1) (char :: done) rest
          | .error offset => .error ⟨.badUnicodeEscape, position + 1 + offset⟩
        | kind :: _ =>
          match escaped? kind with
          | some char => readText opening 1 (position + 1) (char :: done) rest
          | none => .error ⟨.badEscape, position⟩
      else if c.toNat < 0x20 then .error ⟨.controlCharacter, position⟩
      else readText opening 0 (position + 1) (c :: done) rest

/-- The value of decimal digits. -/
def decimalValue (digits : Text) : Nat :=
  digits.foldl (fun n c => n * 10 + (c.toNat - '0'.toNat)) 0

/-- The number `digits · 10 ^ exponent`, rounded to the nearest floating point number. Where the
size alone decides, the digits are not looked at. -/
def roundedReal (negative : Bool) (digits : Nat) (exponent : Int) : Decimal.Real64 :=
  let size := (Text.ofNat digits).length + exponent
  if digits == 0 || size < -400 then .zero negative
  else if 400 < size then .infinite negative
  else
    let magnitude := Float.ofScientific digits (exponent < 0) exponent.natAbs
    Decimal.Real64.ofFloat (if negative then -magnitude else magnitude)

/-- The fraction at the front: a point and at least one digit. -/
def takeFraction : Text → Text
  | '.' :: rest => rest.takeWhile Char.isDigit
  | _ => []

/-- The exponent at the front, and how many characters it takes. -/
def takeExponent : Text → Option (Int × Nat)
  | e :: rest =>
    if e = 'e' || e = 'E' then
      let (negative, signLength) :=
        match rest with
        | '-' :: _ => (true, 1)
        | '+' :: _ => (false, 1)
        | _ => (false, 0)
      let digits := (rest.drop signLength).takeWhile Char.isDigit
      if digits.isEmpty then none
      else
        let size : Int := decimalValue digits
        some (if negative then -size else size, 1 + signLength + digits.length)
    else none
  | [] => none

/-- Reads a number at the cursor. -/
def readNumber (cursor : Cursor) : Except Fault (Json × Cursor) :=
  let (negative, unsigned) :=
    match cursor.rest with
    | '-' :: rest => (true, rest)
    | rest => (false, rest)
  let wholeDigits :=
    match unsigned with
    | '0' :: _ => ['0']
    | rest => rest.takeWhile Char.isDigit
  if wholeDigits.isEmpty then cursor.fail .expectingValue
  else
    let start := cursor.advance ((if negative then 1 else 0) + wholeDigits.length)
    let fraction := takeFraction start.rest
    let afterFraction := if fraction.isEmpty then start else start.advance (fraction.length + 1)
    match fraction, takeExponent afterFraction.rest with
    | [], none =>
      let size : Int := decimalValue wholeDigits
      .ok (.whole (if negative then -size else size), start)
    | _, found =>
      let (exponent, length) := found.getD (0, 0)
      .ok (.real (roundedReal negative (decimalValue (wholeDigits ++ fraction))
        (exponent - fraction.length)), afterFraction.advance length)

/-- The values that are written as words. -/
def words : List (Text × Json) :=
  [("null", .null), ("true", .boolean true), ("false", .boolean false),
    ("NaN", .real .notANumber), ("Infinity", .real (.infinite false)),
    ("-Infinity", .real (.infinite true))]

mutual

/-- Reads the value at the cursor. Every value inside another one has at least one character less
in front of it, so the length of the text bounds the nesting. -/
def readValue (fuel : Nat) (cursor : Cursor) : Except Fault (Json × Cursor) :=
  match fuel with
  | 0 => cursor.fail .expectingValue
  | fuel + 1 =>
    match cursor.rest with
    | '"' :: rest =>
      match readText cursor.position 0 (cursor.position + 1) [] rest with
      | .ok (value, after) => .ok (.text value, after)
      | .error fault => .error fault
    | '\x7b' :: _ =>
      let inside := (cursor.advance 1).skipSpace
      match inside.rest with
      | '\x7d' :: _ => .ok (.object [], inside.advance 1)
      | _ => readMembers fuel [] inside
    | '[' :: _ =>
      let inside := (cursor.advance 1).skipSpace
      match inside.rest with
      | ']' :: _ => .ok (.list [], inside.advance 1)
      | _ => readItems fuel [] inside
    | _ =>
      match words.find? fun word => word.1.isPrefixOf cursor.rest with
      | some (word, value) => .ok (value, cursor.advance word.length)
      | none => readNumber cursor

/-- Reads the members of an object from the name at the cursor on. -/
def readMembers (fuel : Nat) (done : List (Text × Json)) (cursor : Cursor) :
    Except Fault (Json × Cursor) :=
  match fuel with
  | 0 => cursor.fail .expectingName
  | fuel + 1 =>
    match cursor.rest with
    | '"' :: rest =>
      match readText cursor.position 0 (cursor.position + 1) [] rest with
      | .error fault => .error fault
      | .ok (name, after) =>
        let colon := after.skipSpace
        match colon.rest with
        | ':' :: _ =>
          match readValue fuel (colon.advance 1).skipSpace with
          | .error fault => .error fault
          | .ok (value, after) =>
            let done := setMember name value done
            let next := after.skipSpace
            match next.rest with
            | '\x7d' :: _ => .ok (.object done, next.advance 1)
            | ',' :: _ => readMembers fuel done (next.advance 1).skipSpace
            | _ => next.fail .expectingComma
        | _ => colon.fail .expectingColon
    | _ => cursor.fail .expectingName

/-- Reads the items of a list from the one at the cursor on. -/
def readItems (fuel : Nat) (done : List Json) (cursor : Cursor) : Except Fault (Json × Cursor) :=
  match fuel with
  | 0 => cursor.fail .expectingValue
  | fuel + 1 =>
    match readValue fuel cursor with
    | .error fault => .error fault
    | .ok (value, after) =>
      let next := after.skipSpace
      match next.rest with
      | ']' :: _ => .ok (.list (value :: done).reverse, next.advance 1)
      | ',' :: _ => readItems fuel (value :: done) (next.advance 1).skipSpace
      | _ => next.fail .expectingComma

end

/-- The value that the text writes. -/
def ofText (text : Text) : Except Fault Json :=
  if text.head? = some '\ufeff' then .error ⟨.byteOrderMark, 0⟩
  else
    match readValue (text.length + 1) (Cursor.skipSpace ⟨0, text⟩) with
    | .error fault => .error fault
    | .ok (value, after) =>
      let after := after.skipSpace
      if after.rest.isEmpty then .ok value else after.fail .extraData

/-- The problem in words. -/
def Problem.message : Problem → Text
  | .byteOrderMark => "Unexpected UTF-8 BOM (decode using utf-8-sig)"
  | .expectingValue => "Expecting value"
  | .expectingName => "Expecting property name enclosed in double quotes"
  | .expectingColon => "Expecting ':' delimiter"
  | .expectingComma => "Expecting ',' delimiter"
  | .extraData => "Extra data"
  | .unterminatedText => "Unterminated string starting at"
  | .controlCharacter => "Invalid control character at"
  | .badEscape => "Invalid \\escape"
  | .badUnicodeEscape => "Invalid \\uXXXX escape"

/-- The fault in words, with the line and the column, both from 1, of its position in the text. -/
def Fault.message (fault : Fault) (text : Text) : Text :=
  let before := text.take fault.position
  let line := before.count '\n' + 1
  let column := (before.reverse.takeWhile (· ≠ '\n')).length + 1
  Text.concat [fault.problem.message, ": line ", Text.ofNat line, " column ", Text.ofNat column,
    " (char ", Text.ofNat fault.position, ")"]

end VerticalSlice.Json
