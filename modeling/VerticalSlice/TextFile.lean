import VerticalSlice.FileTree
import VerticalSlice.Text.Lines
import VerticalSlice.Text.Utf8

/-!
# Text files

A text file is a file whose bytes are the UTF-8 encoding of a text. When it is read its lines are
brought to one form, and when it is written they stay as they are.
-/

namespace VerticalSlice

/-- Why a text file could not be read. -/
inductive ReadFault
  | file (fault : FileFault)
  | encoding (fault : Text.Utf8Fault)
deriving DecidableEq, Repr

/-- The fault in words. -/
def ReadFault.message : ReadFault → Text
  | .file fault => fault.message
  | .encoding fault => fault.message

/-- The text that bytes encode, with one form of line ends. -/
def Text.ofBytes (bytes : List UInt8) : Except Text.Utf8Fault Text :=
  (Text.Utf8.decode bytes).map Text.normalizeNewlines

namespace FileTree

/-- The text of the file at the path. -/
def readText (tree : FileTree) (path : Path) : Except ReadFault Text :=
  match tree.read path with
  | .error fault => .error (.file fault)
  | .ok bytes =>
    match Text.ofBytes bytes with
    | .error fault => .error (.encoding fault)
    | .ok text => .ok text

/-- Puts a file with this text at the path. -/
def writeText (tree : FileTree) (path : Path) (text : Text) : Except FileFault FileTree :=
  tree.write path (Text.Utf8.encode text)

end FileTree

end VerticalSlice
