import VerticalSlice.Command.Program

/-!
# The program on a file system

What the program does is decided on a tree. Here the part of the file system that a call can come
across is loaded into one, the call is run on it, and what has changed is written back.
-/

namespace VerticalSlice.Disk

/-- The entry of the file system at a path. -/
def entryAt (path : Path) : IO.FS.DirEntry :=
  ⟨String.ofList path.parent.toText, String.ofList path.fileName⟩

/-- What is at an entry; a folder is taken to be empty. -/
def look (entry : IO.FS.DirEntry) : IO (Option FileTree) := do
  if ← entry.path.isDir then return some .empty
  else if ← entry.path.pathExists then
    return some (.file (← IO.FS.readBinFile entry.path).toList)
  else return none

/-- What is at an entry, with all that lies below it. -/
partial def load (entry : IO.FS.DirEntry) : IO (Option FileTree) := do
  if ← entry.path.isDir then
    let found ← (← entry.path.readDir).toList.filterMapM fun inner => do
      return (← load inner).map fun tree => (inner.fileName.toList, tree)
    return some (.folder found)
  else look entry

/-- The tree with what is found at the path. -/
def place (tree : FileTree) (path : Path) (found : Option FileTree) : FileTree :=
  match found with
  | some entry => tree.put path.normalize.names entry
  | none => tree

/-- The tree with the folders on the way to the path, and with what is at its end. -/
def lookAlong (tree : FileTree) (path : Path) : IO FileTree :=
  (Workspace.ancestors path).reverse.foldlM (fun tree path => do
    if tree.hasEntry path then return tree
    else return place tree path (← look (entryAt path))) tree

/-- The tree with all that lies at the path and below it. -/
def loadAt (tree : FileTree) (path : Path) : IO FileTree := do
  return place (← lookAlong tree path) path (← load (entryAt path))

/-- The tree that a call needs. -/
def gather (call : Command.Call) (here : Path) : IO FileTree := do
  let tree ← lookAlong .empty (call.start here)
  match call.order? tree here with
  | none => return tree
  | some order =>
    let tree ← (order.landmarks here).foldlM lookAlong tree
    (order.holdings tree here).foldlM loadAt tree

/-- Writes what is in the new tree but not in the old one. -/
partial def save (path : Path) (old : Option FileTree) : FileTree → IO Unit
  | .file bytes => do
    match old with
    | some (.file before) => if before = bytes then return else write bytes
    | _ => write bytes
  | .folder entries => do
    if old.isNone then IO.FS.createDirAll (entryAt path).path
    for (name, entry) in entries do
      save (path.child name) (old.bind fun tree => tree.get? [name]) entry
where
  /-- Writes the file at the path. -/
  write (bytes : List UInt8) : IO Unit :=
    IO.FS.writeBinFile (entryAt path).path ⟨bytes.toArray⟩

/-- Writes the messages to the streams of the process. -/
def tell (outcome : Command.Outcome) : IO Unit := do
  for message in outcome.messages do
    let stream ← match message.stream with
      | .out => IO.getStdout
      | .err => IO.getStderr
    stream.putStr (String.ofList (message.text ++ ['\n']))
  match outcome.ending with
  | .status _ => return
  | .brokenOff cause => (← IO.getStderr).putStr (String.ofList (cause.message ++ ['\n']))

/-- Runs the program with the arguments of the process, from the folder of the process, and gives
the status that the process ends with. -/
def run (arguments : List Text) : IO UInt32 := do
  let here := Path.ofText (← IO.currentDir).toString.toList
  match Command.Call.ofProgram arguments with
  | .error outcome =>
    tell outcome
    return outcome.ending.code.toUInt32
  | .ok call =>
    let tree ← gather call here
    let (changed, outcome) := call.run tree here
    save ⟨.root, []⟩ (some tree) changed
    tell outcome
    return outcome.ending.code.toUInt32

end VerticalSlice.Disk

def main (arguments : List String) : IO UInt32 :=
  VerticalSlice.Disk.run (arguments.map String.toList)
