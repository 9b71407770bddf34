import VerticalSlice.FileTree

/-!
# Listing the files of a workspace

Files are listed folder by folder, in the order of their names. A folder that is passed over is left
out with everything in it.
-/

namespace VerticalSlice.FileTree

/-- The entries of the folder at a path, in the order of their names. -/
def sortedEntries (tree : FileTree) (folder : Path) : List (Text × FileTree) :=
  match tree.entry? folder with
  | some found => found.entries.mergeSort fun a b => Text.le a.1 b.1
  | none => []

/-- The names of the folders inside a folder, in order. -/
def folderNames (tree : FileTree) (folder : Path) : List Text :=
  ((tree.sortedEntries folder).filter fun entry => entry.2.isFolder).map (·.1)

/-- Does the name end in one of the suffixes? -/
def hasSuffix (suffixes : List Text) (name : Text) : Bool :=
  suffixes.any fun suffix => suffix.isSuffixOf name

mutual

/-- The tree with the entries of every folder in the order of their names. -/
def sorted : FileTree → FileTree
  | .file bytes => .file bytes
  | .folder entries => .folder ((sortedEach entries).mergeSort fun a b => Text.le a.1 b.1)

def sortedEach : List (Text × FileTree) → List (Text × FileTree)
  | [] => []
  | (name, entry) :: rest => (name, sorted entry) :: sortedEach rest

end

mutual

/-- The names that lead to the files of a tree that end in one of the suffixes, in the order of the
entries. Folders with an ignored name are passed over. -/
def filesWithin (suffixes ignored : List Text) : FileTree → List (List Text)
  | .file _ => []
  | .folder entries => filesAmong suffixes ignored entries

def filesAmong (suffixes ignored : List Text) : List (Text × FileTree) → List (List Text)
  | [] => []
  | (name, .file _) :: rest =>
    if hasSuffix suffixes name then [name] :: filesAmong suffixes ignored rest
    else filesAmong suffixes ignored rest
  | (name, .folder entries) :: rest =>
    if ignored.contains name then filesAmong suffixes ignored rest
    else
      (filesAmong suffixes ignored entries).map (name :: ·) ++ filesAmong suffixes ignored rest
termination_by entries => sizeOf entries
decreasing_by
  all_goals
    simp only [List.cons.sizeOf_spec, Prod.mk.sizeOf_spec, folder.sizeOf_spec]
    omega

end

/-- The files below the folder at `base` that end in one of the suffixes, in order. -/
def collectFiles (tree : FileTree) (base : Path) (suffixes ignored : List Text) : List Path :=
  match tree.entry? base with
  | some found =>
    (filesWithin suffixes ignored found.sorted).map fun names => ⟨base.anchor, base.names ++ names⟩
  | none => []

end VerticalSlice.FileTree
