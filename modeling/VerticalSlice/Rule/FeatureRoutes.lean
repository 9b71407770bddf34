import VerticalSlice.Rule.Source
import VerticalSlice.Workspace.Context
import VerticalSlice.Workspace.Listing

/-!
# The route tables of features

Every feature exports its routes as arrays of route objects. The first route of an array has the
empty path, provides the services of the feature and loads what is routed; no route names a
component directly; and whatever loads a component, at any depth, loads a page.
-/

namespace VerticalSlice.FeatureRoutes

open Syntax

/-- How the route table of a feature breaks the rules. -/
inductive Breach
  | noArray
  | empty (table : Text)
  | notAnObject (table : Text) (index : Nat)
  | component (table : Text)
  | firstPath (table : Text)
  | noProviders (table : Text)
  | emptyProviders (table : Text)
  | firstLoader (table : Text)
  | foreignPage (table : Text)
  | missingFile (file : Text)
deriving DecidableEq, Repr

/-- The breach in words. -/
def Breach.message : Breach → Text
  | .noArray => "must export at least one Routes array: export const X = [ ... ]"
  | .empty table => Text.concat ["export \"", table, "\" must not be empty."]
  | .notAnObject table index =>
    Text.concat ["export \"", table, "\" has a non-object route at index ", Text.ofNat index, "."]
  | .component table =>
    Text.concat ["export \"", table,
      "\" must not use \"component:\". Use loadComponent/loadChildren."]
  | .firstPath table => Text.concat ["export \"", table, "\" first route must have path: ''"]
  | .noProviders table =>
    Text.concat ["export \"", table, "\" first route must declare providers: [ ... ]"]
  | .emptyProviders table =>
    Text.concat ["export \"", table, "\" first route must declare a non-empty providers list"]
  | .firstLoader table =>
    Text.concat ["export \"", table, "\" first route must use loadComponent or loadChildren"]
  | .foreignPage table =>
    Text.concat ["export \"", table, "\" has loadComponent not importing a *.page file"]
  | .missingFile file => Text.concat ["Missing feature routes file: ", file]

/-- A breach with the line it is on. -/
structure Finding where
  breach : Breach
  line : Option Nat
deriving DecidableEq, Repr

/-- The violation that a finding in a file is. -/
def Finding.inFile (file : Text) (finding : Finding) : Violation :=
  { file := some file, message := finding.breach.message, line := finding.line.map Int.ofNat }

/-- Is the module a page? -/
def isPage (target : Text) : Bool := List.isSuffixOf ".page".toList target

/-- What is wrong with the providers of a route. -/
def providerBreaches (table : Text) (route : Node) : List Breach :=
  match route.property? "providers" with
  | none => [.noProviders table]
  | some providers =>
    if providers.kind = .array && providers.elements.isEmpty then [.emptyProviders table] else []

/-- What is wrong with a first route. -/
def firstRouteBreaches (table : Text) (route : Node) : List Breach :=
  (if route.propertyString? "path" = some [] then [] else [.firstPath table]) ++
    providerBreaches table route ++
    (if route.hasProperty "loadComponent" || route.hasProperty "loadChildren" then []
    else [.firstLoader table])

/-- What is wrong with the element of a table at an index. -/
def elementBreaches (table : Text) (index : Nat) (element : Node) : List Breach :=
  if element.kind ≠ .object then [.notAnObject table index]
  else
    (if element.hasProperty "component" then [.component table] else []) ++
      (if index = 0 then firstRouteBreaches table element else [])

/-- Does the object load a component that is no page? -/
def loadsForeign (object : Node) : Bool :=
  object.kind = .object &&
    (object.property? "loadComponent").any fun loader => !loader.hasDeferredImport isPage

/-- The objects at any depth of a table that load a component that is no page. -/
def loaderFindings (exported : ExportedArray) : List Finding :=
  (exported.array.walk.filter loadsForeign).map fun object =>
    ⟨.foreignPage exported.name, some object.line⟩

/-- What is wrong with the elements of a table, which are counted from `index`. -/
def elementFindings (table : Text) (index : Nat) : List Node → List Finding
  | [] => []
  | element :: rest =>
    (elementBreaches table index element).map (fun breach => ⟨breach, some element.line⟩) ++
      elementFindings table (index + 1) rest

/-- What is wrong with a table. -/
def tableFindings (exported : ExportedArray) : List Finding :=
  match exported.array.elements with
  | [] => [⟨.empty exported.name, some exported.line⟩]
  | elements => elementFindings exported.name 0 elements ++ loaderFindings exported

/-- What is wrong with a file of routes. -/
def findings (root : Node) : List Finding :=
  match root.exportedArrays with
  | [] => [⟨.noArray, none⟩]
  | tables => tables.flatMap tableFindings

/-- The violations in a file of routes, which is shown as `file`. -/
def violationsIn (file : Text) : Except ReadFault SyntaxTree → List Violation
  | .error fault => [Violation.unreadable file fault]
  | .ok source => (findings source.root).map (·.inFile file)

/-- The file with the routes of a feature. The name of the feature is taken as a path, so an empty
one leads nowhere further. -/
def routesFile (context : Context) (feature : Text) : Path :=
  (context.featuresFolder.join (Path.ofText feature)).join
    (Path.ofText (Text.concat [feature, ".routes.ts"]))

/-- The violations of a feature. -/
def violationsOf (context : Context) (tree : FileTree) (feature : Text) : List Violation :=
  let path := routesFile context feature
  let file := context.relative path
  if tree.hasFile path then violationsIn file (tree.readSource path)
  else [Finding.inFile file ⟨.missingFile file, none⟩]

/-- Checks the route tables of all features. -/
def check (context : Context) (tree : FileTree) : Verdict :=
  let features := tree.folderNames context.featuresFolder
  { check := "feature-routes"
    title := "Feature routes"
    summary := Text.concat ["OK: feature routes verified (", Text.ofNat features.length,
      " feature(s)) for ", context.relative context.featuresFolder, "."]
    violations := features.flatMap (violationsOf context tree)
    featuresChecked := features.length }

/-- What is told during the check. -/
def notices (context : Context) (tree : FileTree) : List Notice :=
  let features := tree.folderNames context.featuresFolder
  let files := (features.map (routesFile context)).filter tree.hasFile
  files.flatMap tree.sourceNotices ++
    [⟨.debug, .featureRoutesCheck, Text.concat ["Feature routes: ", Text.ofNat features.length,
      " feature(s) checked"]⟩]

end VerticalSlice.FeatureRoutes
