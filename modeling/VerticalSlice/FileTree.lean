import VerticalSlice.Path
import VerticalSlice.Text.Quoted

/-!
# Files and folders

The file system is a value: a tree whose folders hold named entries and whose files hold bytes.
Reading a path looks an entry up, and every change gives a new tree. What can go wrong is a fault
that names the problem and the path, and a failed change leaves behind whatever was done before
it failed.

A way through the tree is walked name by name: each step needs a folder to start from, and `..`
goes back to the folder that holds the present one. `locate` turns a path into the plain names
that lead to the same place.
-/

namespace VerticalSlice

/-- A file with its bytes, or a folder with its named entries. -/
inductive FileTree
  | file (bytes : List UInt8)
  | folder (entries : List (Text × FileTree))

/-- Why a path could not be used. -/
inductive FileProblem
  | missing
  | alreadyThere
  | notAFolder
  | isAFolder
  | nulInName
deriving DecidableEq, Repr

/-- A problem and the path that met it. -/
structure FileFault where
  problem : FileProblem
  path : Path
deriving DecidableEq, Repr

/-- The fault in words, with the number by which systems know it. -/
def FileFault.message (fault : FileFault) : Text :=
  let withPath (words : Text) : Text :=
    Text.concat [words, ": ", Text.quoted fault.path.toText]
  match fault.problem with
  | .missing => withPath "[Errno 2] No such file or directory"
  | .alreadyThere => withPath "[Errno 17] File exists"
  | .notAFolder => withPath "[Errno 20] Not a directory"
  | .isAFolder => withPath "[Errno 21] Is a directory"
  | .nulInName => "embedded null byte"

namespace FileTree

/-- The tree without entries. -/
def empty : FileTree := .folder []

def isFolder : FileTree → Bool
  | .folder _ => true
  | .file _ => false

def isFile (tree : FileTree) : Bool := !tree.isFolder

/-- The named entries of a folder; a file has none. -/
def entries : FileTree → List (Text × FileTree)
  | .folder entries => entries
  | .file _ => []

/-! ## Plain names -/

/-- The entry at the end of the names. -/
def get? (tree : FileTree) : List Text → Option FileTree
  | [] => some tree
  | name :: names => (tree.entries.lookup name).bind fun entry => entry.get? names

/-- The entries with the one of this name replaced, or added at the end. -/
def setEntry (name : Text) (entry : FileTree) : List (Text × FileTree) → List (Text × FileTree)
  | [] => [(name, entry)]
  | (other, old) :: rest =>
    if other = name then (name, entry) :: rest else (other, old) :: setEntry name entry rest

/-- The tree with `entry` at the end of the names. Folders that are missing on the way are made;
below a file nothing can be put. -/
def put (tree : FileTree) : List Text → FileTree → FileTree
  | [], entry => entry
  | name :: names, entry =>
    match tree with
    | .file bytes => .file bytes
    | .folder entries =>
      .folder (setEntry name (((entries.lookup name).getD empty).put names entry) entries)

/-- The tree without the entry at the end of the names and without all that lies below it. -/
def erase (tree : FileTree) : List Text → FileTree
  | [] => empty
  | [name] =>
    match tree with
    | .file bytes => .file bytes
    | .folder entries => .folder (entries.filter fun entry => entry.1 ≠ name)
  | name :: names =>
    match tree with
    | .file bytes => .file bytes
    | .folder entries =>
      match entries.lookup name with
      | none => .folder entries
      | some entry => .folder (setEntry name (entry.erase names) entries)

theorem lookup_setEntry_self (name : Text) (entry : FileTree)
    (entries : List (Text × FileTree)) :
    (setEntry name entry entries).lookup name = some entry := by
  induction entries with
  | nil => simp [setEntry]
  | cons pair rest ih =>
    obtain ⟨other, old⟩ := pair
    by_cases h : other = name
    · simp [setEntry, h]
    · simp [setEntry, h, List.lookup_cons, ih, beq_eq_false_iff_ne.2 (Ne.symm h)]

theorem lookup_setEntry_of_ne {name other : Text} (h : other ≠ name) (entry : FileTree)
    (entries : List (Text × FileTree)) :
    (setEntry name entry entries).lookup other = entries.lookup other := by
  induction entries with
  | nil => simp [setEntry, List.lookup_cons, beq_eq_false_iff_ne.2 h]
  | cons pair rest ih =>
    obtain ⟨third, old⟩ := pair
    by_cases h' : third = name
    · simp [setEntry, h', List.lookup_cons, beq_eq_false_iff_ne.2 h]
    · simp [setEntry, h', List.lookup_cons, ih]

/-! ## Paths -/

/-- Walks from the folder at `here` and gives the plain names of the place the way ends at. All
steps but the last must lead to folders. -/
def walk (tree : FileTree) (here : List Text) : List Text → Except FileProblem (List Text)
  | [] => .ok here
  | name :: names =>
    match tree.get? here with
    | none => .error .missing
    | some (.file _) => .error .notAFolder
    | some (.folder _) =>
      walk tree (if name = parentName then here.dropLast else here ++ [name]) names

/-- The plain names of the place that the path leads to from the top of the tree. -/
def locate (tree : FileTree) (path : Path) : Except FileProblem (List Text) :=
  if path.names.any (·.contains '\x00') then .error .nulInName else tree.walk [] path.names

/-- The entry that the path leads to. -/
def entry? (tree : FileTree) (path : Path) : Option FileTree :=
  match tree.locate path with
  | .ok names => tree.get? names
  | .error _ => none

def hasEntry (tree : FileTree) (path : Path) : Bool := Option.isSome <| tree.entry? path

def hasFolder (tree : FileTree) (path : Path) : Bool := Option.any isFolder <| tree.entry? path

def hasFile (tree : FileTree) (path : Path) : Bool := Option.any isFile <| tree.entry? path

/-- The bytes of the file at the path. -/
def read (tree : FileTree) (path : Path) : Except FileFault (List UInt8) :=
  match tree.locate path with
  | .error problem => .error ⟨problem, path⟩
  | .ok names =>
    match tree.get? names with
    | none => .error ⟨.missing, path⟩
    | some (.folder _) => .error ⟨.isAFolder, path⟩
    | some (.file bytes) => .ok bytes

/-- Puts a file with these bytes at the path, in place of the file that is there. The folder
around it must be there. -/
def write (tree : FileTree) (path : Path) (bytes : List UInt8) : Except FileFault FileTree :=
  match tree.locate path with
  | .error problem => .error ⟨problem, path⟩
  | .ok names =>
    match tree.get? names with
    | some (.folder _) => .error ⟨.isAFolder, path⟩
    | _ =>
      match tree.get? names.dropLast with
      | some (.folder _) => .ok (tree.put names (.file bytes))
      | some (.file _) => .error ⟨.notAFolder, path⟩
      | none => .error ⟨.missing, path⟩

/-- Makes a folder at the path. The folder around it must be there, and nothing may be at the path
itself. -/
def makeFolder (tree : FileTree) (path : Path) : Except FileFault FileTree :=
  match tree.locate path with
  | .error problem => .error ⟨problem, path⟩
  | .ok names =>
    match tree.get? names with
    | some _ => .error ⟨.alreadyThere, path⟩
    | none =>
      match tree.get? names.dropLast with
      | some (.folder _) => .ok (tree.put names empty)
      | some (.file _) => .error ⟨.notAFolder, path⟩
      | none => .error ⟨.missing, path⟩

/-- A folder that could not be made because it is there already is no fault. -/
def tolerate (tree : FileTree) (path : Path) :
    Except FileFault FileTree → FileTree × Except FileFault Unit
  | .ok changed => (changed, .ok ())
  | .error fault =>
    if fault.problem ≠ .nulInName && tree.hasFolder path then (tree, .ok ())
    else (tree, .error fault)

/-- Makes the folder at the end of the names, given last name first, and every folder that is
missing on the way to it. Folders made before a fault stay. -/
def makeFoldersRev (tree : FileTree) (anchor : Anchor) :
    List Text → FileTree × Except FileFault Unit
  | [] => tolerate tree ⟨anchor, []⟩ (tree.makeFolder ⟨anchor, []⟩)
  | name :: outer =>
    let path : Path := ⟨anchor, (name :: outer).reverse⟩
    match tree.makeFolder path with
    | .error ⟨.missing, _⟩ =>
      match makeFoldersRev tree anchor outer with
      | (changed, .ok ()) => tolerate changed path (changed.makeFolder path)
      | failed => failed
    | result => tolerate tree path result

/-- Makes the folder at the path and every folder that is missing on the way to it. -/
def makeFolders (tree : FileTree) (path : Path) : FileTree × Except FileFault Unit :=
  makeFoldersRev tree path.anchor path.names.reverse

end FileTree

end VerticalSlice
