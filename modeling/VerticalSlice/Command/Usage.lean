import VerticalSlice.Command.Arguments
import VerticalSlice.Command.Output

/-!
# Commands and their use

The program has a command for every check, one for all checks together, and one that generates a
feature. A mistake in the arguments of a command is answered with a reminder of how the command is
used.
-/

namespace VerticalSlice

/-- The commands. -/
inductive Command
  | check (check : Check)
  | gate
  | generate
deriving DecidableEq, Repr

namespace Command

/-- The name of the program. -/
def programName : Text := "sliceguard"

/-- The version of the program. -/
def version : Text := "0.1.0"

/-- The commands in the order in which they are introduced. -/
def all : List Command := Check.all.map .check ++ [.gate, .generate]

def name : Command → Text
  | .check .layout => "verify-structure"
  | .check .appRoutes => "verify-app-routes"
  | .check .featureRoutes => "verify-feature-routes"
  | .check .featureImports => "verify-no-cross-feature-imports"
  | .check .rawColors => "verify-no-raw-colors"
  | .gate => "verify"
  | .generate => "gen-feature"

/-- The command with this name. -/
def ofName? (name : Text) : Option Command := all.find? fun command => command.name = name

/-- What the command is for. -/
def description : Command → Text
  | .check .layout =>
    "Check that every feature folder has its routes, page, data and state files."
  | .check .appRoutes =>
    "Check that app.routes.ts only lazy-loads features and has one wildcard route."
  | .check .featureRoutes =>
    "Check route-scoped providers and lazy page loaders in every feature's routes."
  | .check .featureImports =>
    "Check that no feature imports another feature through a relative path."
  | .check .rawColors => "Check that app code uses design tokens instead of raw color literals."
  | .gate => "Run every check and print a summary table."
  | .generate =>
    "Generate a new feature folder NAME with routes, page, data and state files."

/-- The switches of the command. -/
def switches : Command → List Switch
  | .generate => [.route, .register, .overwrite, .project, .appProject, .help]
  | _ => [.project, .appProject, .help]

/-- The switches in front of a command. -/
def programSwitches : List Switch := [.version, .verbose, .quiet, .help]

/-! ## How a command is used -/

/-- How a command is called: under which name, and what comes behind it. -/
structure Usage where
  path : Text
  pattern : Text

namespace Usage

/-- The line that shows the use. -/
def line (usage : Usage) : Text :=
  Text.concat ["Usage: ", usage.path, " ", usage.pattern]

/-- The answer to a mistake in the arguments. -/
def failure (usage : Usage) (fault : UsageFault) : Outcome :=
  ⟨[⟨.err, Text.joinWith ['\n'] [usage.line,
      Text.concat ["Try '", usage.path, " ", Switch.help.name, "' for help."], [],
      Text.concat ["Error: ", fault.message]]⟩], .status 2⟩

/-- The answer to a question for help: the use, what it does, and the names to choose from. -/
def help (usage : Usage) (description : Text) (names : List Text) : List Text :=
  [usage.line, [], Text.concat ["  ", description], []] ++
    names.map fun name => Text.concat ["  ", name]

end Usage

/-- How the program is called. -/
def programUsage : Usage := ⟨programName, "[OPTIONS] COMMAND [ARGS]..."⟩

/-- How a command is called whose name is preceded by the one of the program, or by nothing. -/
def usage (command : Command) (program : Text) : Usage :=
  ⟨program ++ command.name,
    match command with
    | .generate => "[OPTIONS] NAME"
    | _ => "[OPTIONS]"⟩

/-- The answer to a question for help with a command. -/
def helpOutcome (command : Command) (usage : Usage) : Outcome :=
  ⟨(usage.help command.description (command.switches.map Switch.name)).map (⟨.out, ·⟩), .status 0⟩

/-- The answer to a question for help with the program. -/
def programHelp : List Text :=
  programUsage.help "Structural verification for vertical-slice Angular apps."
    (programSwitches.map Switch.name ++ all.map name)

end Command

end VerticalSlice
