import VerticalSlice.Color.Source
import VerticalSlice.Rule.Source
import VerticalSlice.Workspace.Context
import VerticalSlice.Workspace.Listing

/-!
# Colours outside the design

The colours of an application are approved by being written in one of its token files. A file of the
application that is not one of them uses approved colours only; spellings of one colour are not told
apart.
-/

namespace VerticalSlice.RawColors

/-- The ends of the names of files that are looked through. -/
def scannedSuffixes : List Text := [".ts", ".html", ".css", ".scss"]

/-- The token files of the workspace, as they are named in the settings and by their paths. -/
def tokenFiles (context : Context) : List (Text × Path) :=
  context.settings.tokenFiles.map fun name => (name, context.root.join (Path.ofText name))

/-- The approved colours of a file, none if it cannot be read. -/
def approvedIn (tree : FileTree) (path : Path) : List Text :=
  if tree.hasFile path then
    match tree.readText path with
    | .ok text => (Color.find text).map Color.normalize
    | .error _ => []
  else []

/-- The approved colours of the workspace, each one once. -/
def approved (context : Context) (tree : FileTree) : List Text :=
  ((tokenFiles context).flatMap fun file => approvedIn tree file.2).eraseDups

/-- The places of the token files. -/
def tokenPlaces (context : Context) : Except FileFault (List Path) :=
  (tokenFiles context).mapM fun file => Workspace.resolve context.root file.2

/-- Is the path one of the places, whatever way it takes? -/
def isAmong (context : Context) (places : List Path) (path : Path) : Bool :=
  match Workspace.resolve context.root path with
  | .ok place => places.contains place
  | .error _ => false

/-- The violation that a colour in a file is. -/
def inFile (file : Text) (sighting : Color.Sighting) : Violation :=
  { file := some file
    message := Text.concat ["Raw color ", sighting.1,
      " is not allowed; use a design token instead."]
    line := some (Int.ofNat sighting.2) }

/-- The colours of a file that are not approved. -/
def unapproved (approved : List Text) (sightings : List Color.Sighting) : List Color.Sighting :=
  sightings.filter fun sighting => !approved.contains (Color.normalize sighting.1)

/-- The colours that are found in a file. -/
def sightings (tree : FileTree) (path : Path) : Except ReadFault (List Color.Sighting) :=
  (tree.readText path).map (Color.inFile path.extension)

/-- The violations of a file. -/
def violationsIn (context : Context) (tree : FileTree) (approved : List Text) (path : Path) :
    List Violation :=
  let file := context.relative path
  match sightings tree path with
  | .error fault => [Violation.unreadable file fault]
  | .ok found => (unapproved approved found).map (inFile file)

/-- The files that are looked through. -/
def scannedFiles (context : Context) (tree : FileTree) (places : List Path) : List Path :=
  (tree.collectFiles context.appFolder scannedSuffixes context.settings.ignoredFolders).filter
    fun path => !isAmong context places path

/-- Checks that the application uses approved colours only. -/
def check (context : Context) (tree : FileTree) : Except FileFault Verdict := do
  let places ← tokenPlaces context
  let approved := approved context tree
  return {
    check := "raw-colors"
    title := "Raw colors"
    summary := Text.concat ["OK: no raw colors detected in ", context.relative context.appFolder,
      "."]
    violations :=
      (scannedFiles context tree places).flatMap (violationsIn context tree approved) }

/-- What is told while the token files are read. -/
def tokenNotices (context : Context) (tree : FileTree) : List Notice :=
  ((tokenFiles context).filterMap fun (name, path) =>
    if !tree.hasFile path then none
    else
      match tree.readText path with
      | .ok _ => none
      | .error _ =>
        some ⟨.warning, .colorsCheck, Text.concat ["Cannot read token file: ", name]⟩) ++
    [⟨.debug, .colorsCheck, Text.concat ["Approved colors: ",
      Text.ofNat (approved context tree).length, " from token files"]⟩]

/-- What is told during the check. -/
def notices (context : Context) (tree : FileTree) : List Notice :=
  tokenNotices context tree ++
    match tokenPlaces context with
    | .error _ => []
    | .ok places =>
      let sources := (scannedFiles context tree places).filter fun path =>
        path.extension = (".ts" : Text)
      sources.flatMap tree.sourceNotices

end VerticalSlice.RawColors
