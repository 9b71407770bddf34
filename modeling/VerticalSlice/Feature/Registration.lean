import VerticalSlice.Feature.Piece
import VerticalSlice.Rule.Source

/-!
# Registering the route of a feature

A feature is reached through an entry in the route table of the application, which loads the routes
of the feature. The entry is put in front of the wildcard route, so that the wildcard stays the last
one to be tried, or else at the end of the table. A table that has the route already stays as it is.
-/

namespace VerticalSlice.Feature

open Syntax

/-- The entry of the route table that leads to a feature. -/
def entryPieces : List Piece := [
  "  \x7b\n",
  "    path: '", Hole.route, "',\n",
  "    loadChildren: () =>\n",
  "      import('./features/", Hole.kebab, "/", Hole.kebab, ".routes').then((m) => m.", Hole.const,
  "_ROUTES),\n",
  "  \x7d,\n"]

/-- The entry of the route table that leads from `route` to the feature. -/
def routeEntry (route : Text) (name : FeatureName) : Text :=
  fill (holeValues name route) entryPieces

/-- How a table that has the route spells it. -/
def routeMark (route : Text) : Text := Text.concat ["path: '", route, "'"]

/-- The first object anywhere in a tree that has the path of a wildcard. -/
def wildcardObject? (root : Node) : Option Node :=
  root.find? fun node => node.kind = .object && node.propertyString? "path" = some "**".toList

/-- How many characters stand before the wildcard route. -/
def wildcardOffset? (text : Text) : Option Nat :=
  (wildcardObject? (SyntaxTree.ofText text ".ts").root).map (·.offset)

/-- The text split where an entry in front of the brace at `brace` goes: at the brace itself, or at
the start of its line if only blanks stand between. -/
def splitBefore (text : Text) (brace : Nat) : Text × Text :=
  let before := text.take brace
  let lineTail := (before.reverse.takeWhile (· ≠ '\n')).reverse
  let position := if lineTail.all Text.isBlank then brace - lineTail.length else brace
  (text.take position, text.drop position)

/-- The text split where a new entry goes: in front of the wildcard route, else in front of the last
end of an array. -/
def insertionPoint? (text : Text) : Option (Text × Text) :=
  match wildcardOffset? text with
  | some brace => some (splitBefore text brace)
  | none => Text.splitAtLast "];" text

/-- Why a route could not be registered. -/
inductive RegistrationFault
  | noTable (file : Path)
  | unreadable (fault : ReadFault)
  | noEnd
  | unwritable (fault : FileFault)

/-- The fault in words. -/
def RegistrationFault.message : RegistrationFault → Text
  | .noTable file => Text.concat ["Cannot find app.routes.ts at ", file.toText]
  | .unreadable fault => fault.message
  | .noEnd => "Could not locate end of the routes array in app.routes.ts"
  | .unwritable fault => fault.message

/-- What became of a route: the text of the table if it was put in. -/
inductive Registered
  | present
  | inserted (text : Text)
deriving DecidableEq, Repr

/-- Puts a route into the text of a table. -/
def registerIn (text route : Text) (name : FeatureName) : Except RegistrationFault Registered :=
  if Text.occursIn (routeMark route) text then .ok .present
  else
    match insertionPoint? text with
    | none => .error .noEnd
    | some (before, after) => .ok (.inserted (Text.concat [before, routeEntry route name, after]))

/-- Puts a route into the table in a file, and says whether the table had it already. -/
def register (tree : FileTree) (file : Path) (route : Text) (name : FeatureName) :
    Except RegistrationFault (FileTree × Bool) :=
  if tree.hasFile file then
    match tree.readText file with
    | .error fault => .error (.unreadable fault)
    | .ok text =>
      match registerIn text route name with
      | .error fault => .error fault
      | .ok .present => .ok (tree, true)
      | .ok (.inserted changed) =>
        match tree.writeText file changed with
        | .error fault => .error (.unwritable fault)
        | .ok written => .ok (written, false)
  else .error (.noTable file)

/-- What is told while a route is put into the table in a file. -/
def registrationNotices (tree : FileTree) (file : Path) (route : Text) : List Notice :=
  match tree.readText file with
  | .error _ => []
  | .ok text =>
    if Text.occursIn (routeMark route) text then
      [⟨.info, .scaffold, Text.concat ["app.routes.ts already contains route ", Text.quoted route,
        ", skipping insertion"]⟩]
    else (SyntaxTree.ofText text ".ts").notices "<text>"

end VerticalSlice.Feature
