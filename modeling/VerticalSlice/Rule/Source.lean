import VerticalSlice.Notice
import VerticalSlice.Syntax.Query
import VerticalSlice.TextFile
import VerticalSlice.Verdict

/-!
# Source files under check

The checks read source files into syntax trees. A file that cannot be read breaks the rule of the
check that wanted it, and nothing else is said about it.
-/

namespace VerticalSlice

/-- The syntax tree of the source file at the path. -/
def FileTree.readSource (tree : FileTree) (path : Path) : Except ReadFault Syntax.SyntaxTree :=
  match tree.readText path with
  | .error fault => .error fault
  | .ok text => .ok (Syntax.SyntaxTree.ofText text path.extension)

/-- A file that could not be read. -/
def Violation.unreadable (file : Text) (fault : ReadFault) : Violation :=
  { file := some file, message := Text.concat ["Cannot read file: ", fault.message] }

/-- What is told of a tree that was made of a text called `name`. -/
def Syntax.SyntaxTree.notices (tree : Syntax.SyntaxTree) (name : Text) : List Notice :=
  if tree.isProgram then []
  else [⟨.debug, .syntaxTree, Text.concat ["Parse errors in ", name]⟩]

/-- What is told when the source file at the path is read. -/
def FileTree.sourceNotices (tree : FileTree) (path : Path) : List Notice :=
  match tree.readSource path with
  | .error _ => []
  | .ok source =>
    ⟨.debug, .syntaxTree, Text.concat ["Parsing ", path.toText]⟩ :: source.notices path.toText

end VerticalSlice
