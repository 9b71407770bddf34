import VerticalSlice.Text.Blank
import VerticalSlice.Text.Case
import VerticalSlice.Text.Occurrences
import VerticalSlice.Text.Word

/-!
# Colours

A colour is written in hexadecimal, as `#` with three, four, six or eight digits, or as one of the
functions `rgb`, `rgba`, `hsl` and `hsla` with its arguments. This module finds the colours of a
text and brings them to one spelling, in which they are compared.
-/

namespace VerticalSlice.Color

/-- A hexadecimal digit of ASCII. -/
def isHexDigit (c : Char) : Bool :=
  c.isDigit || ('a' ≤ c && c ≤ 'f') || ('A' ≤ c && c ≤ 'F')

/-- Is the first of the characters one of the class? -/
def startsWithAny (inClass : Char → Bool) : Text → Bool
  | [] => false
  | c :: _ => inClass c

/-- What stands in front of the part of a document inside `url(…)`, nearest first. -/
def documentPart : List Text := [['(', 'l', 'r', 'u'], ['"', '(', 'l', 'r', 'u'],
  ['\'', '(', 'l', 'r', 'u']]

/-- May a hexadecimal colour follow these characters, given nearest first? It may not continue a
word or a character reference, nor name a part of a document inside `url(…)`. -/
def mayPrecedeHex (before : Text) : Bool :=
  !startsWithAny (fun c => c == '&' || Text.isWordChar c) before &&
    !(documentPart.any fun reversed => reversed.isPrefixOf before)

/-- The numbers of digits that a hexadecimal colour can have, greater ones first. -/
def digitCounts : List Nat := [8, 6, 4, 3]

/-- The digits at the front of the text, if there are so many and no word goes on behind them. -/
def leadingDigits? (text : Text) (count : Nat) : Option Text :=
  let digits := text.take count
  if digits.length = count && digits.all isHexDigit &&
      !startsWithAny (fun c => Text.isWordChar c || c == '-') (text.drop count) then
    some digits
  else none

/-- The digits of a hexadecimal colour, when the text behind the `#` writes one. -/
def hexDigits? (text : Text) : Option Text := digitCounts.findSome? (leadingDigits? text)

/-- Are the two characters the same letter, whatever the case? The long s counts as an s. -/
def sameLetter (small c : Char) : Bool := c.toLower == small || (small == 's' && c == 'ſ')

/-- Does the text begin with the word, whatever the case of its letters? -/
def beginsWithWord : Text → Text → Bool
  | [], _ => true
  | _ :: _, [] => false
  | letter :: word, c :: text => sameLetter letter c && beginsWithWord word text

/-- The functions that give colours, the longer names first. -/
def functionNames : List Text :=
  [['r', 'g', 'b', 'a'], ['r', 'g', 'b'], ['h', 's', 'l', 'a'], ['h', 's', 'l']]

/-- The length of the parenthesised arguments at the front of the text; they hold no parentheses
themselves. -/
def argumentsLength? : Text → Option Nat
  | '(' :: rest =>
    let inside := (rest.takeWhile fun c => c ≠ '(' && c ≠ ')').length
    match rest.drop inside with
    | ')' :: _ => some (inside + 2)
    | _ => none
  | _ => none

/-- The length of the functional colour at the front of the text. -/
def functionLength? (text : Text) : Option Nat :=
  functionNames.findSome? fun name =>
    if beginsWithWord name text then
      (argumentsLength? (text.drop name.length)).map (name.length + ·)
    else none

/-- The hexadecimal colour that begins at a place. -/
def hexPattern : Text.Pattern Text := fun before text =>
  match text with
  | '#' :: rest =>
    if mayPrecedeHex before then
      (hexDigits? rest).map fun digits => ('#' :: digits, digits.length + 1)
    else none
  | _ => none

/-- The functional colour that begins at a place. -/
def functionPattern : Text.Pattern Text := fun before text =>
  if startsWithAny Text.isWordChar before then none
  else (functionLength? text).map fun length => (text.take length, length)

/-- The colour that begins at a place. -/
def pattern : Text.Pattern Text := fun before text =>
  match text with
  | '#' :: _ => hexPattern before text
  | _ => functionPattern before text

/-- The colours of a text, each with the offset of its first character, from left to right. The two
sorts are searched for one after the other, so that a colour may stand inside the arguments of
another one. -/
def locate (text : Text) : List (Nat × Text) :=
  Text.sortByOffset (Text.occurrences hexPattern text ++ Text.occurrences functionPattern text)

/-- The colours of a text from left to right. -/
def find (text : Text) : List Text := (locate text).map (·.2)

/-- Is the whole text one colour, but for blanks around it? -/
def isWhole (text : Text) : Bool :=
  let inner := Text.trim text
  match pattern [] inner with
  | some (_, length) => length == inner.length
  | none => false

/-- The spelling in which colours are compared: without blanks and in small letters. -/
def normalize (color : Text) : Text :=
  Text.lower (color.filter fun c => !Text.isBlank c)

end VerticalSlice.Color
