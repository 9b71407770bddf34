import VerticalSlice.Rule.Source
import VerticalSlice.Workspace.Context
import VerticalSlice.Workspace.Listing

/-!
# The structure of features

Every feature has a route table, a page, a data access and a store of its own. The back end is
reached through the data access only, so pages, stores and guards do not use the HTTP client, and a
feature provides its services along with its routes and not for the whole application.
-/

namespace VerticalSlice.Structure

open Syntax

/-- How the structure of a workspace breaks the rules. -/
inductive Breach
  | noAppFolder (folder : Text)
  | noFeaturesFolder (folder : Text)
  | noFeatures (folder : Text)
  | missingFile (feature file : Text)
  | httpClient
  | providedInRoot
deriving DecidableEq, Repr

/-- The breach in words. -/
def Breach.message : Breach → Text
  | .noAppFolder folder => Text.concat ["App root not found: ", folder]
  | .noFeaturesFolder folder => Text.concat ["Features dir not found: ", folder]
  | .noFeatures folder =>
    Text.concat ["No feature folders found in ", folder,
      ". Create at least one feature via `sliceguard gen-feature`."]
  | .missingFile feature file =>
    Text.concat ["Feature \"", feature, "\" missing required file: ", file]
  | .httpClient => "HttpClient is not allowed here (use *.data.ts or core/api)."
  | .providedInRoot => "Avoid providedIn: 'root' in features. Provide via route-level providers."

/-- The violation that a breach is. -/
def Breach.inFile (breach : Breach) (file : Option Text) : Violation :=
  { file := file, message := breach.message }

/-- The kinds of files that a feature has. -/
def requiredKinds : List Text := ["routes", "page", "data", "state"]

/-- The names of the files that a feature has. -/
def requiredFiles (feature : Text) : List Text :=
  requiredKinds.map fun kind => Text.concat [feature, ".", kind, ".ts"]

/-- The ends of the names of files that do not reach the back end themselves. -/
def restrictedSuffixes : List Text := [".page.ts", ".state.ts", ".guard.ts", ".guards.ts"]

/-- The module of the HTTP client. -/
def httpModule : Text := "@angular/common/http"

/-- Must the file not reach the back end itself? -/
def isRestricted (file : Path) : Bool := FileTree.hasSuffix restrictedSuffixes file.fileName

/-- Does the tree import the HTTP client's module and use its name? -/
def usesHttpClient (root : Node) : Bool :=
  (root.staticImports.any fun reference => reference.specifier = httpModule) &&
    root.containsIdentifier "HttpClient"

/-- Does the tree name a scope of provision and the scope of the whole application? -/
def providesInRoot (root : Node) : Bool :=
  root.containsIdentifier "providedIn" && root.containsString "root"

/-- The files that a feature lacks. -/
def missingFiles (context : Context) (tree : FileTree) (feature : Text) : List Violation :=
  (requiredFiles feature).filterMap fun name =>
    let path := (context.featuresFolder.child feature).child name
    if tree.hasEntry path then none
    else
      let file := context.relative path
      some ((Breach.missingFile feature file).inFile (some file))

/-- What a source file does that its place does not allow. -/
def misplaced (restricted inFeatures : Bool) (root : Node) : List Breach :=
  (if restricted && usesHttpClient root then [.httpClient] else []) ++
    (if inFeatures && providesInRoot root then [.providedInRoot] else [])

/-- Do the rules of placement concern the file? -/
def concerns (context : Context) (file : Path) : Bool :=
  isRestricted file || context.featuresFolder.isBelow file

/-- The breaches of placement in a file. -/
def placementIn (context : Context) (tree : FileTree) (path : Path) : List Violation :=
  if concerns context path then
    let file := context.relative path
    match tree.readSource path with
    | .error fault => [Violation.unreadable file fault]
    | .ok source =>
      (misplaced (isRestricted path) (context.featuresFolder.isBelow path) source.root).map
        (·.inFile (some file))
  else []

/-- The features of the workspace. -/
def features (context : Context) (tree : FileTree) : List Text :=
  tree.folderNames context.featuresFolder

/-- The source files of the application. -/
def sourceFiles (context : Context) (tree : FileTree) : List Path :=
  tree.collectFiles context.appFolder [".ts"] context.settings.ignoredFolders

/-- The violations in a workspace that has its folders. -/
def violationsWithin (context : Context) (tree : FileTree) : List Violation :=
  let names := features context tree
  (if names.isEmpty then
    [(Breach.noFeatures (context.relative context.featuresFolder)).inFile none] else []) ++
    names.flatMap (missingFiles context tree) ++
    (sourceFiles context tree).flatMap (placementIn context tree)

/-- The violations. Without the folder of the application or that of the features nothing else is
looked at. -/
def violations (context : Context) (tree : FileTree) : List Violation :=
  if !tree.hasFolder context.appFolder then
    [(Breach.noAppFolder (context.relative context.appFolder)).inFile none]
  else if !tree.hasFolder context.featuresFolder then
    [(Breach.noFeaturesFolder (context.relative context.featuresFolder)).inFile none]
  else violationsWithin context tree

/-- Checks the structure of a workspace. -/
def check (context : Context) (tree : FileTree) : Verdict :=
  let count := (features context tree).length
  { check := "structure"
    title := "Structure"
    summary := Text.concat ["OK: structure verified for appRoot=",
      context.relative context.appFolder, " (", Text.ofNat count, " feature(s))."]
    violations := violations context tree
    featuresChecked := count }

/-- What is told during the check. -/
def notices (context : Context) (tree : FileTree) : List Notice :=
  if tree.hasFolder context.appFolder && tree.hasFolder context.featuresFolder then
    let files := sourceFiles context tree
    ⟨.debug, .structureCheck, Text.concat ["Structure: ",
      Text.ofNat (features context tree).length, " feature(s), ", Text.ofNat files.length,
      " source file(s)"]⟩ :: (files.filter (concerns context)).flatMap tree.sourceNotices
  else []

end VerticalSlice.Structure
