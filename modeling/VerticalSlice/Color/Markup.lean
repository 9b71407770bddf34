import VerticalSlice.Color.Stylesheet

/-!
# Colours in HTML

HTML holds styles in three places: `style` attributes and `style` elements hold style sheets, and
`class` attributes hold utility classes. Colours anywhere else are content.
-/

namespace VerticalSlice.Color

/-- The length of a run of blanks, an equals sign and another run of blanks. -/
def equalsLength? (text : Text) : Option Nat :=
  let before := (text.takeWhile Text.isBlank).length
  match text.drop before with
  | '=' :: rest => some (before + 1 + (rest.takeWhile Text.isBlank).length)
  | _ => none

/-- An attribute of this name with its value in quotes: how far behind the name the value begins,
and the value. The name may not continue a word. -/
def attributePattern (name : Text) : Text.Pattern (Nat × Text) := fun before text =>
  if startsWithAny Text.isWordChar before || !name.isPrefixOf text then none
  else
    match equalsLength? (text.drop name.length) with
    | none => none
    | some gap =>
      match text.drop (name.length + gap) with
      | quote :: rest =>
        if quote = '"' || quote = '\'' then
          (Text.splitAtFirst [quote] rest).map fun (value, _) =>
            ((name.length + gap + 1, value), name.length + gap + value.length + 2)
        else none
      | [] => none

/-- The text split at the first occurrence of the word, whatever the case of its letters. -/
def splitAtWord (word : Text) : Text → Option (Text × Text)
  | [] => if word.isEmpty then some ([], []) else none
  | c :: rest =>
    if beginsWithWord word (c :: rest) then some ([], c :: rest)
    else (splitAtWord word rest).map fun (before, after) => (c :: before, after)

/-- The start of the opening tag of a style element. -/
def styleOpening : Text := ['<', 's', 't', 'y', 'l', 'e']

/-- The closing tag of a style element. -/
def styleClosing : Text := ['<', '/', 's', 't', 'y', 'l', 'e', '>']

/-- A style element: how far behind its start the contents begin, and the contents. -/
def stylePattern : Text.Pattern (Nat × Text) := fun _ text =>
  if beginsWithWord styleOpening text then
    let tag := ((text.drop styleOpening.length).takeWhile (· ≠ '>')).length
    let start := styleOpening.length + tag + 1
    match text.drop (start - 1) with
    | '>' :: rest =>
      (splitAtWord styleClosing rest).map fun (contents, _) =>
        ((start, contents), start + contents.length + styleClosing.length)
    | _ => none
  else none

/-- The parts of a text that a pattern finds, with the offsets at which they begin. -/
def parts (pattern : Text.Pattern (Nat × Text)) (text : Text) : List (Nat × Text) :=
  (Text.occurrences pattern text).map fun (offset, inside, part) => (offset + inside, part)

/-- The colours of an HTML text. -/
def inMarkup (text : Text) : List Sighting :=
  ((parts (attributePattern ['s', 't', 'y', 'l', 'e']) text).flatMap fun (offset, value) =>
      inStylesheet value (Text.lineAt text offset)) ++
    ((parts stylePattern text).flatMap fun (offset, contents) =>
      inStylesheet contents (Text.lineAt text offset)) ++
    ((parts (attributePattern ['c', 'l', 'a', 's', 's']) text).flatMap fun (offset, value) =>
      inBrackets value (Text.lineAt text offset))

end VerticalSlice.Color
