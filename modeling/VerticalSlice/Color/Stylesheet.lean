import VerticalSlice.Color.Basic
import VerticalSlice.Text.Lines
import VerticalSlice.Text.Search

/-!
# Colours in style sheets

A style sheet is cut at braces and semicolons. A piece in front of an opening brace is a selector;
any other piece may hold a declaration, and the colours of its value count. Besides, the square
brackets of utility classes such as `bg-[#ff0000]` hold values of their own.

Comments are taken out first, all but their line breaks, so that every colour stays on its line.
-/

namespace VerticalSlice.Color

/-- A colour as it is spelled and the line it stands on. -/
abbrev Sighting := Text × Nat

/-- Takes the comments out and keeps the line breaks in them; the next `skip` characters belong to
a comment. A comment that is not closed stays. -/
def dropComments (skip : Nat) : Text → Text
  | [] => []
  | c :: rest =>
    match skip with
    | skip + 1 => dropComments skip rest
    | 0 =>
      match c, rest with
      | '/', '*' :: body =>
        match Text.splitAtFirst ['*', '/'] body with
        | some (comment, _) =>
          List.replicate (Text.lineBreaks comment) '\n' ++ dropComments (comment.length + 3) rest
        | none => c :: dropComments 0 rest
      | _, _ => c :: dropComments 0 rest

/-- The text of a style sheet without its comments. -/
def withoutComments (text : Text) : Text := dropComments 0 text

/-- Does the character end a piece of a style sheet? -/
def endsPiece (c : Char) : Bool := c == '\x7b' || c == '\x7d' || c == ';'

/-- A run of characters without braces and semicolons, unless an opening brace follows. -/
def piecePattern : Text.Pattern (Option Text) := fun _ text =>
  let piece := text.takeWhile fun c => !endsPiece c
  match piece, text.drop piece.length with
  | [], _ => none
  | _, '\x7b' :: _ => some (none, piece.length)
  | _, _ => some (some piece, piece.length)

/-- The pieces of a style sheet that are no selectors, with their offsets. -/
def pieces (text : Text) : List (Nat × Text) :=
  (Text.occurrences piecePattern text).filterMap fun (offset, piece) => piece.map (offset, ·)

/-- May the character stand in the name of a property? -/
def isPropertyChar (c : Char) : Bool := Text.isWordChar c || c == '-'

/-- The value behind the colon, when a property name and a colon stand at the front of the text,
and the number of characters in front of it. -/
def valueBehindColon? (text : Text) : Option (Nat × Text) :=
  let afterName := text.dropWhile isPropertyChar
  match afterName.dropWhile Text.isBlank with
  | ':' :: rest =>
    match rest.dropWhile Text.isBlank with
    | [] => none
    | value => some (text.length - value.length, value)
  | _ => none

/-- The value of the first declaration in a piece and its offset; `inName` says that the character
before belongs to a name that is no property. -/
def declarationFrom (inName : Bool) (offset : Nat) : Text → Option (Nat × Text)
  | [] => none
  | c :: rest =>
    if isPropertyChar c then
      match (if inName then none else valueBehindColon? (c :: rest)) with
      | some (skipped, value) => some (offset + skipped, value)
      | none => declarationFrom true (offset + 1) rest
    else declarationFrom false (offset + 1) rest

/-- The value of the first declaration in a piece and its offset. -/
def declaration? (piece : Text) : Option (Nat × Text) := declarationFrom false 0 piece

/-- The value in square brackets behind a hyphen, without blanks in it. -/
def bracketPattern : Text.Pattern Text := fun _ text =>
  match text with
  | '-' :: '[' :: rest =>
    let value := rest.takeWhile fun c => c ≠ ']' && !Text.isBlank c
    match value, rest.drop value.length with
    | [], _ => none
    | _, ']' :: _ => some (value, value.length + 3)
    | _, _ => none
  | _ => none

/-- The colours of a part of `text` that begins at `offset`, each on its line; the first line of
the text has the number `firstLine`. -/
def sightingsIn (text : Text) (firstLine offset : Nat) (part : Text) : List Sighting :=
  (locate part).map fun (inside, color) =>
    (color, firstLine + Text.lineAt text (offset + inside) - 1)

/-- The colours in the brackets of utility classes. -/
def inBrackets (text : Text) (firstLine : Nat) : List Sighting :=
  (Text.occurrences bracketPattern text).flatMap fun (offset, value) =>
    sightingsIn text firstLine (offset + 2) value

/-- The colours in the values of declarations. -/
def inDeclarations (text : Text) (firstLine : Nat) : List Sighting :=
  (pieces text).flatMap fun (offset, piece) =>
    match declaration? piece with
    | some (inside, value) => sightingsIn text firstLine (offset + inside) value
    | none => []

/-- The colours of a style sheet whose first line has the number `firstLine`. -/
def inStylesheet (text : Text) (firstLine : Nat) : List Sighting :=
  let bare := withoutComments text
  inDeclarations bare firstLine ++ inBrackets bare firstLine

end VerticalSlice.Color
