import VerticalSlice.Command.Output

/-!
# Generating a feature from the command line

The command writes which files were made and what became of the route, or why nothing, or not all,
was done.
-/

namespace VerticalSlice.Command

open Feature

/-- Does a fault of the file system break the run off? Only a path that no file can have does. -/
def isBeyondAnswer (fault : FileFault) : Bool := fault.problem = .nulInName

/-- Does the fault break the run off? Else it is an answer. -/
def breaksOff : GenerationFault → Bool
  | .badName _ | .wouldOverwrite _ => false
  | .file fault => isBeyondAnswer fault
  | .registration (.unreadable (.encoding _)) => true
  | .registration (.unreadable (.file fault)) => isBeyondAnswer fault
  | .registration (.unwritable fault) => isBeyondAnswer fault
  | .registration _ => false

/-- What became of the route. -/
def routeText (context : Context) (generated : Generated) : Text :=
  match generated.route with
  | none => "Route not registered (use --register to add it to app.routes.ts)."
  | some route =>
    if generated.alreadyPresent then
      Text.concat ["app.routes.ts already contains path: '", route, "'. Skipping route insertion."]
    else Text.concat ["Registered route '", route, "' in ", context.relative context.appRoutes]

/-- What is written about a new feature. -/
def generatedTexts (context : Context) (generated : Generated) : List Text :=
  Text.concat ["Created feature: ", context.relative generated.folder] ::
    (generated.files.map fun file => Text.concat ["  ", context.relative file]) ++
    [routeText context generated]

/-- What the command does: the tree as it is afterwards, and the outcome. -/
def generateOutcome (loudness : Loudness) (context : Context) (tree : FileTree)
    (request : Request) : FileTree × Outcome :=
  let told := loudness.messages (Feature.notices context tree request)
  let (changed, result) := generate context tree request
  match result with
  | .ok generated =>
    (changed, ⟨told ++ (generatedTexts context generated).map (⟨.out, ·⟩), .status 0⟩)
  | .error fault =>
    if breaksOff fault then (changed, ⟨told, .brokenOff (.generation fault)⟩)
    else (changed, (Outcome.failure fault.message).after told)

end VerticalSlice.Command
