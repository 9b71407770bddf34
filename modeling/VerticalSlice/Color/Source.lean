import VerticalSlice.Color.Markup
import VerticalSlice.Path
import VerticalSlice.Syntax.Query

/-!
# Colours in the files of an application

In source code colours stand in literals. A literal that is one colour, but for blanks around it,
counts as that colour; any other one may hold a style sheet, and one with a `<` in it may hold HTML
besides. Which of the three ways a file is looked through depends on its extension.
-/

namespace VerticalSlice.Color

/-- The colours of a literal that starts on this line. -/
def inLiteral (contents : Text) (line : Nat) : List Sighting :=
  if isWhole contents then [(Text.trim contents, line)]
  else
    (if contents.contains '<' then
      (inMarkup contents).map fun (color, inside) => (color, line + inside - 1)
    else []) ++ inStylesheet contents line

/-- The colours of a source text. -/
def inSource (root : Syntax.Node) : List Sighting :=
  root.literals.flatMap fun (contents, line) => inLiteral contents line

/-- Are the sightings the same? The lines are compared first, since they mostly differ. -/
def sameSighting (first second : Sighting) : Bool := first.2 == second.2 && first.1 == second.1

/-- The sightings without those that came before. -/
def distinct (sightings : List Sighting) : List Sighting := sightings.eraseDupsBy sameSighting

/-- The colours of a file with this extension: a value can be both a declaration and a utility
class, and counts once. -/
def inFile (extension : Text) (text : Text) : List Sighting :=
  distinct <|
    if extension = ".ts" then inSource (Syntax.SyntaxTree.ofText text extension).root
    else if extension = ".html" then inMarkup text
    else inStylesheet text 1

end VerticalSlice.Color
