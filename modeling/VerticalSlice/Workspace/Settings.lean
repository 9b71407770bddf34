import VerticalSlice.TextFile
import VerticalSlice.Yaml.Value

/-!
# The settings of a workspace

A workspace may say in a file of settings which application is checked, which folders are passed
over, and which style sheets define the approved colours. Each setting that is missing, or that is
not of the right kind, has its default.
-/

namespace VerticalSlice

/-- The settings. -/
structure Settings where
  /-- The application to check. -/
  project : Option Text := none
  /-- The names of folders that are passed over. -/
  ignoredFolders : List Text := ["node_modules", "dist", ".angular"]
  /-- The style sheets that define the approved colours. -/
  tokenFiles : List Text := ["src/tailwind.css", "src/styles.scss", "src/styles.css"]
deriving DecidableEq, Repr

/-- Why settings could not be used although there are some. -/
inductive SettingsFault
  | encoding (fault : Text.Utf8Fault)
  | value (fault : Yaml.Fault)
deriving DecidableEq, Repr

/-- The fault in words. -/
def SettingsFault.message : SettingsFault → Text
  | .encoding fault => fault.message
  | .value fault => fault.message

/-- What is worth telling the reader of settings. -/
inductive SettingsNotice
  | unreadable
  | projectIgnored
deriving DecidableEq, Repr

namespace Settings

/-- Where the settings stand, from the root of the workspace. -/
def path : Path := ⟨.relative, [".sliceguard", "config.yml"]⟩

/-- The notice in words. -/
def noticeText : SettingsNotice → Text
  | .unreadable => Text.concat ["Failed to read ", path.toText, ", using defaults"]
  | .projectIgnored => Text.concat ["Ignoring non-string app_project in ", path.toText]

/-- The texts of a list that has some, else the default. -/
def textsOr (default : List Text) (value : Option Yaml.Value) : List Text :=
  match value.bind Yaml.Value.texts? with
  | some (first :: rest) => first :: rest
  | _ => default

/-- The settings that a value describes. -/
def ofValue (value : Yaml.Value) : Settings :=
  let default : Settings := {}
  { project :=
      match value.member? "app_project" with
      | some (.text project) => some project
      | _ => none
    ignoredFolders := textsOr default.ignoredFolders (value.member? "ignore_dirs")
    tokenFiles := textsOr default.tokenFiles (value.member? "color_token_files") }

/-- Is a project named by something other than a text? -/
def ignoresProject (value : Yaml.Value) : Bool :=
  match value.member? "app_project" with
  | none | some .null | some (.text _) => false
  | some _ => true

/-- A fault at the end of the bytes is told from the first byte that is left over. -/
def endFault (fault : Text.Utf8Fault) : Text.Utf8Fault :=
  if fault.problem = .unexpectedEnd then { fault with position := 0 } else fault

/-- The settings in the bytes of a file, and what is worth telling. -/
def ofBytes (bytes : List UInt8) : Except SettingsFault (Settings × List SettingsNotice) :=
  match Text.ofBytes bytes with
  | .error fault => .error (.encoding (endFault fault))
  | .ok text =>
    match Yaml.Value.ofText text with
    | .error .malformed => .ok ({}, [.unreadable])
    | .error fault => .error (.value fault)
    | .ok value => .ok (ofValue value, if ignoresProject value then [.projectIgnored] else [])

/-- The settings of the workspace at `root`. -/
def load (tree : FileTree) (root : Path) : Except SettingsFault (Settings × List SettingsNotice) :=
  let file := root.join path
  if tree.hasFile file then
    match tree.read file with
    | .error _ => .ok ({}, [.unreadable])
    | .ok bytes => ofBytes bytes
  else .ok ({}, [])

end Settings

end VerticalSlice
