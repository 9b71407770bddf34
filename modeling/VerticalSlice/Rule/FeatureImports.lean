import VerticalSlice.Rule.Source
import VerticalSlice.Workspace.Context
import VerticalSlice.Workspace.Listing

/-!
# The boundaries between features

A feature does not reach into another one. An import with a relative path is followed, by its names
alone, from the folder of the file that holds it; if it leads below the folder of features, it leads
to the feature that the next name on its way names, and that has to be the feature of the file.
-/

namespace VerticalSlice.FeatureImports

open Syntax

/-- The feature that a path belongs to: the first name below the folder of features. A file right
in that folder belongs to itself. -/
def featureOf (features path : Path) : Option Text :=
  (features.namesBelow? path).bind List.head?

/-- Where a relative import leads, from the file that holds it. -/
def resolve (file : Path) (specifier : Text) : Option Path :=
  match specifier with
  | '.' :: _ => some (file.parent.join (Path.ofText specifier)).normalize
  | _ => none

/-- An import from one feature into another. -/
structure Crossing where
  specifier : Text
  line : Nat
  fromFeature : Text
  toFeature : Text
deriving DecidableEq, Repr

/-- The crossing in words. -/
def Crossing.message (crossing : Crossing) : Text :=
  Text.concat ["Cross-feature import is not allowed: '", crossing.specifier, "' (feature=",
    crossing.fromFeature, " -> feature=", crossing.toFeature, ")"]

/-- The violation that a crossing in a file is. -/
def Crossing.inFile (file : Text) (crossing : Crossing) : Violation :=
  { file := some file
    message := crossing.message
    line := some (Int.ofNat crossing.line)
    fromFeature := some crossing.fromFeature
    toFeature := some crossing.toFeature }

/-- The crossing that an import of a file is, if it is one. -/
def crossing? (features file : Path) (own : Text) (reference : ImportReference) :
    Option Crossing := do
  let target ← resolve file reference.specifier
  let other ← featureOf features target
  if other = own then none else some ⟨reference.specifier, reference.line, own, other⟩

/-- The crossings of a file. -/
def crossings (features file : Path) (own : Text) (root : Node) : List Crossing :=
  (root.importReferences true).filterMap (crossing? features file own)

/-- The violations of a file. -/
def violationsIn (context : Context) (tree : FileTree) (path : Path) : List Violation :=
  match featureOf context.featuresFolder path with
  | none => []
  | some own =>
    let file := context.relative path
    match tree.readSource path with
    | .error fault => [Violation.unreadable file fault]
    | .ok source =>
      (crossings context.featuresFolder path own source.root).map (·.inFile file)

/-- The source files of all features. -/
def sourceFiles (context : Context) (tree : FileTree) : List Path :=
  tree.collectFiles context.featuresFolder [".ts"] context.settings.ignoredFolders

/-- Checks that no feature reaches into another one. -/
def check (context : Context) (tree : FileTree) : Verdict :=
  let folder := context.relative context.featuresFolder
  let found := tree.hasFolder context.featuresFolder
  { check := "cross-feature-imports"
    title := "Cross-feature import"
    summary :=
      if found then
        Text.concat ["OK: no cross-feature relative imports detected in ", folder, "."]
      else
        Text.concat ["OK: no features directory found at ", folder, " (nothing to check)."]
    violations :=
      if found then (sourceFiles context tree).flatMap (violationsIn context tree) else [] }

/-- What is told during the check. -/
def notices (context : Context) (tree : FileTree) : List Notice :=
  if tree.hasFolder context.featuresFolder then
    let files := sourceFiles context tree
    ⟨.debug, .importsCheck, Text.concat ["Cross-feature imports: scanning ",
      Text.ofNat files.length, " file(s)"]⟩ :: files.flatMap tree.sourceNotices
  else []

end VerticalSlice.FeatureImports
