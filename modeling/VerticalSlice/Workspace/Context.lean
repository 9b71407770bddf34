import VerticalSlice.Json.Reader
import VerticalSlice.Workspace.Manifest
import VerticalSlice.Workspace.Settings
import VerticalSlice.Notice

/-!
# Finding a workspace

A workspace is found by walking up from a folder to the nearest one that holds a manifest. The
manifest and the settings then say which application is checked and where its sources are: below
the source root lies the folder of the application, with the route table and the features in it.
-/

namespace VerticalSlice

/-- Why there is no workspace to check. -/
inductive WorkspaceFault
  | badStart (fault : FileFault)
  | noManifest (start : Path)
  | unreadable (file : Path) (fault : FileFault)
  | encoding (fault : Text.Utf8Fault)
  | syntaxFault (fault : Json.Fault) (text : Text)
  | notAnObject
  | settings (fault : SettingsFault)
  | noApplication
  | unknownProject (name : Text)

/-- The fault in words. -/
def WorkspaceFault.message : WorkspaceFault → Text
  | .badStart fault => fault.message
  | .noManifest start =>
    Text.concat ["Unable to locate ", Manifest.fileName, " by walking up from: ", start.toText]
  | .unreadable file fault => Text.concat ["Cannot read ", file.toText, ": ", fault.message]
  | .encoding fault => fault.message
  | .syntaxFault fault text =>
    Text.concat ["Invalid JSON in ", Manifest.fileName, ": ", fault.message text]
  | .notAnObject => Text.concat ["Invalid ", Manifest.fileName, ": top level must be an object"]
  | .settings fault => fault.message
  | .noApplication => Text.concat ["No application project found in ", Manifest.fileName]
  | .unknownProject name =>
    Text.concat ["Project \"", name, "\" not found in ", Manifest.fileName]

/-- A workspace with the application that is checked. -/
structure Context where
  root : Path
  manifest : Manifest
  projectName : Text
  project : Members
  sourceRoot : Path
  settings : Settings

namespace Context

/-- The folder of the application. -/
def appFolder (context : Context) : Path := context.sourceRoot.child "app"

/-- The folder that holds a folder for every feature. -/
def featuresFolder (context : Context) : Path := context.appFolder.child "features"

/-- The file with the route table of the application. -/
def appRoutes (context : Context) : Path := context.appFolder.child "app.routes.ts"

/-- The path as it is shown: from the root of the workspace if it lies there. -/
def relative (context : Context) (path : Path) : Text :=
  match context.root.namesBelow? path with
  | some names => (Path.mk .relative names).toText
  | none => path.toText

end Context

namespace Workspace

/-- A folder and all folders around it, the innermost first. -/
def ancestors (folder : Path) : List Path :=
  (List.range (folder.names.length + 1)).map fun count =>
    ⟨folder.anchor, folder.names.take (folder.names.length - count)⟩

/-- The nearest folder with a manifest, from `start` on upwards. -/
def root? (tree : FileTree) (start : Path) : Option Path :=
  (ancestors start).find? fun folder => tree.hasFile (folder.child Manifest.fileName)

/-- The absolute path with no turning back in it that `path` means in the folder `here`. -/
def resolve (here path : Path) : Except FileFault Path :=
  if path.names.any (·.contains '\x00') then .error ⟨.nulInName, path⟩
  else .ok { (here.join path).normalize with anchor := .root }

/-- The root of the workspace around a folder. -/
def findRoot (tree : FileTree) (here start : Path) : Except WorkspaceFault Path :=
  match resolve here start with
  | .error fault => .error (.badStart fault)
  | .ok start =>
    match root? tree start with
    | some root => .ok root
    | none => .error (.noManifest start)

/-- The manifest of the workspace at `root`. -/
def readManifest (tree : FileTree) (root : Path) : Except WorkspaceFault Manifest :=
  let file := root.child Manifest.fileName
  match tree.readText file with
  | .error (.file fault) => .error (.unreadable file fault)
  | .error (.encoding fault) => .error (.encoding fault)
  | .ok text =>
    match Json.ofText text with
    | .error fault => .error (.syntaxFault fault text)
    | .ok (.object members) => .ok ⟨members⟩
    | .ok _ => .error .notAnObject

/-- A name that is not empty. -/
def given (name : Option Text) : Option Text := name.filter (· ≠ [])

/-- The name of the application to check: the one asked for, else the one in the settings, else the
default of the manifest. -/
def projectName? (manifest : Manifest) (settings : Settings) (asked : Option Text) : Option Text :=
  given asked <|> given settings.project <|> manifest.defaultProject?

/-- Where the sources of a project are, from the root of the workspace. -/
def sourceRootOf (project : Members) : Text :=
  match project.lookup ("sourceRoot" : Text) with
  | some value => if value.isMeaningful then value.toName else "src"
  | none => "src"

/-- The workspace at `root` with the application that is asked for. -/
def select (root : Path) (manifest : Manifest) (settings : Settings) (asked : Option Text) :
    Except WorkspaceFault Context :=
  match projectName? manifest settings asked with
  | none => .error .noApplication
  | some name =>
    match manifest.project? name with
    | none => .error (.unknownProject name)
    | some project =>
      .ok
        { root := root
          manifest := manifest
          projectName := name
          project := project
          sourceRoot := root.join (Path.ofText (sourceRootOf project))
          settings := settings }

/-- The workspace around the folder `start`, taken from the folder `here`. -/
def context (tree : FileTree) (here start : Path) (asked : Option Text) :
    Except WorkspaceFault Context := do
  let root ← findRoot tree here start
  let manifest ← readManifest tree root
  match Settings.load tree root with
  | .error fault => .error (.settings fault)
  | .ok (settings, _) => select root manifest settings asked

/-- What is told while the workspace around the folder `start` is looked at. -/
def notices (tree : FileTree) (here start : Path) : List Notice :=
  match findRoot tree here start with
  | .error _ => []
  | .ok root =>
    ⟨.debug, .workspace, Text.concat ["Workspace root: ", root.toText]⟩ ::
      match readManifest tree root, Settings.load tree root with
      | .ok _, .ok (_, found) =>
        found.map fun notice => ⟨.warning, .workspace, Settings.noticeText notice⟩
      | _, _ => []

end Workspace

end VerticalSlice
