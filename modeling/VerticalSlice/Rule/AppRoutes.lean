import VerticalSlice.Rule.Source
import VerticalSlice.Workspace.Context

/-!
# The route table of the application

The table is an exported array of route objects. A route loads its feature when it is needed: it is
a redirect from the empty path, or it loads the routes of a feature, or it is the one wildcard that
loads the page for what is not found. Nothing that is routed is imported statically.
-/

namespace VerticalSlice.AppRoutes

open Syntax

/-- The name of the exported array. -/
def tableName : Text := "routes"

/-- The path of the wildcard. -/
def wildcardPath : Text := "**"

/-- The page for what is not found. -/
def notFoundPage : Text := "./shared/pages/not-found.page"

/-- Where the routes of features are imported from. -/
def featuresStart : Text := "./features/"

/-- How a route table breaks the rules. -/
inductive Breach
  | staticImport (specifier : Text)
  | notAnObject
  | component
  | noPath
  | emptyPathWithoutRedirect
  | wildcardLoader
  | noLoader (path : Text)
  | foreignLoader (path : Text)
  | wildcardCount (count : Nat)
deriving DecidableEq, Repr

/-- The breach in words. -/
def Breach.message : Breach → Text
  | .staticImport specifier =>
    Text.concat ["app.routes.ts must not statically import pages or components: '", specifier, "'"]
  | .notAnObject => "APP_ROUTES must contain only route objects."
  | .component => "app.routes.ts must not use \"component:\"; use loadChildren/loadComponent only."
  | .noPath => "Every app route must have a literal string \"path\"."
  | .emptyPathWithoutRedirect =>
    "Empty path route must be a redirect with redirectTo + pathMatch."
  | .wildcardLoader =>
    Text.concat ["Wildcard route must loadComponent from '", notFoundPage, "'."]
  | .noLoader path =>
    Text.concat ["Route \"", path, "\" must use loadChildren for feature routes."]
  | .foreignLoader path =>
    Text.concat ["Route \"", path, "\" loadChildren must import ",
      "'./features/<feature>/<feature>.routes'."]
  | .wildcardCount count =>
    Text.concat ["APP_ROUTES must contain exactly one wildcard '**' route (found ",
      Text.ofNat count, ")."]

/-- A breach with the line it is on. -/
structure Finding where
  breach : Breach
  line : Option Nat
deriving DecidableEq, Repr

/-- The violation that a finding in a file is. -/
def Finding.inFile (file : Text) (finding : Finding) : Violation :=
  { file := some file, message := finding.breach.message, line := finding.line.map Int.ofNat }

/-- Does the module hold something that is routed? -/
def isRouted (specifier : Text) : Bool :=
  Text.occursIn ".page" specifier || Text.occursIn ".component" specifier

/-- Are these the routes of a feature? -/
def isFeatureRoutes (target : Text) : Bool :=
  featuresStart.isPrefixOf target && List.isSuffixOf ".routes".toList target

/-- The static imports of what is routed. -/
def staticImportFindings (root : Node) : List Finding :=
  (root.staticImports.filter fun reference => isRouted reference.specifier).map fun reference =>
    ⟨.staticImport reference.specifier, some reference.line⟩

/-- Does the route have this wildcard path? -/
def isWildcard (element : Node) : Bool :=
  element.kind = .object && element.propertyString? "path" = some wildcardPath

/-- Does the value that the route gives to the property load such a module? -/
def loads (element : Node) (name : Text) (accept : Text → Bool) : Bool :=
  (element.property? name).any fun loader => loader.hasDeferredImport accept

/-- What is wrong with how a route with this path is loaded. -/
def loadingBreaches (element : Node) (path : Text) : List Breach :=
  if path = [] then
    if element.hasProperty "redirectTo" && element.hasProperty "pathMatch" then []
    else [.emptyPathWithoutRedirect]
  else if path = wildcardPath then
    if loads element "loadComponent" (· = notFoundPage) then [] else [.wildcardLoader]
  else if (element.property? "loadChildren").isNone then [.noLoader path]
  else if loads element "loadChildren" isFeatureRoutes then []
  else [.foreignLoader path]

/-- What is wrong with an element of the table. -/
def elementBreaches (element : Node) : List Breach :=
  if element.kind ≠ .object then [.notAnObject]
  else
    (if element.hasProperty "component" then [.component] else []) ++
      match element.propertyString? "path" with
      | none => [.noPath]
      | some path => loadingBreaches element path

/-- What is wrong with the number of wildcards. -/
def wildcardFindings (count : Nat) : List Finding :=
  if count = 1 then [] else [⟨.wildcardCount count, none⟩]

/-- The number of wildcards among the elements. -/
def wildcards (elements : List Node) : Nat := elements.countP isWildcard

/-- What is wrong with a file whose table has these elements. -/
def findings (root : Node) (elements : List Node) : List Finding :=
  staticImportFindings root ++
    (elements.flatMap fun element =>
      (elementBreaches element).map fun breach => ⟨breach, some element.line⟩) ++
    wildcardFindings (wildcards elements)

/-- Why a route table could not be checked. -/
inductive TableFault
  | missing (file : Text)
  | unreadable (file : Text) (fault : ReadFault)
  | noTable
deriving DecidableEq, Repr

/-- The fault in words. -/
def TableFault.message : TableFault → Text
  | .missing file => Text.concat ["Missing app.routes.ts at: ", file]
  | .unreadable file fault => Text.concat ["Cannot read ", file, ": ", fault.message]
  | .noTable => "app.routes.ts must export const routes = [ ... ] (Angular CLI convention)"

/-- The file with the table, and the table's elements. -/
def readTable (context : Context) (tree : FileTree) :
    Except TableFault (SyntaxTree × List Node) :=
  let file := context.relative context.appRoutes
  if tree.hasFile context.appRoutes then
    match tree.readSource context.appRoutes with
    | .error fault => .error (.unreadable file fault)
    | .ok source =>
      match source.root.exportedArray? tableName with
      | none => .error .noTable
      | some table => .ok (source, table.array.elements)
  else .error (.missing file)

/-- Checks the route table of the application. -/
def check (context : Context) (tree : FileTree) : Except TableFault Verdict := do
  let (source, elements) ← readTable context tree
  let file := context.relative context.appRoutes
  return {
    check := "app-routes"
    title := "App routes"
    summary := Text.concat ["OK: app.routes.ts verified (", file, ")."]
    violations := (findings source.root elements).map (·.inFile file) }

/-- What is told during the check. -/
def notices (context : Context) (tree : FileTree) : List Notice :=
  (if tree.hasFile context.appRoutes then tree.sourceNotices context.appRoutes else []) ++
    match readTable context tree with
    | .error _ => []
    | .ok (_, elements) =>
      [⟨.debug, .appRoutesCheck, Text.concat ["App routes: ", Text.ofNat (wildcards elements),
        " wildcard route(s) in ", context.relative context.appRoutes]⟩]

end VerticalSlice.AppRoutes
