import VerticalSlice.Command.Order

/-!
# The program

A command is called through the program, with switches in front of it that say how loud it is, or
as a program of its own. Either way the arguments are read into a call, or answered at once; a call
is then run on a tree.
-/

namespace VerticalSlice.Command

/-- A command that is called with arguments. -/
structure Call where
  command : Command
  usage : Usage
  loudness : Loudness
  arguments : Arguments

namespace Call

/-- The call of a command with these arguments, or the answer to a mistake or a question for
help. -/
def ofArguments (command : Command) (usage : Usage) (loudness : Loudness)
    (arguments : List Text) : Except Outcome Call :=
  match Arguments.scan command.switches true arguments with
  | .error fault => .error (usage.failure fault)
  | .ok arguments =>
    if arguments.has .help then .error (command.helpOutcome usage)
    else .ok ⟨command, usage, loudness, arguments⟩

/-- The call of a command that is a program of its own. -/
def alone (command : Command) (arguments : List Text) : Except Outcome Call :=
  ofArguments command (command.usage []) Loudness.plain arguments

/-- The loudness that the switches ask for; of the two switches the louder one counts. -/
def loudnessOf (arguments : Arguments) : Loudness :=
  ⟨if arguments.has .verbose then .debug else if arguments.has .quiet then .error else .warning,
    true⟩

/-- The answer to the first switch that asks for nothing but an answer. -/
def answer? (arguments : Arguments) : Option Outcome :=
  arguments.switches.findSome? fun (switch, _) =>
    match switch with
    | .help => some ⟨programHelp.map (⟨.out, ·⟩), .status 0⟩
    | .version =>
      some ⟨[⟨.out, Text.concat [programName, ", version ", version]⟩], .status 0⟩
    | _ => none

/-- The call of the command that the operands begin with. -/
def ofOperands (loudness : Loudness) : List Text → Except Outcome Call
  | [] => .error (programUsage.failure .noCommand)
  | name :: arguments =>
    match ofName? name with
    | none => .error (programUsage.failure (.unknownCommand name))
    | some command =>
      ofArguments command (command.usage (programName ++ [' '])) loudness arguments

/-- The call that the arguments of the program make. Without any argument the program says how it is
used. -/
def ofProgram (arguments : List Text) : Except Outcome Call :=
  if arguments = [] then .error ⟨programHelp.map (⟨.err, ·⟩), .status 2⟩
  else
    match Arguments.scan programSwitches false arguments with
    | .error fault => .error (programUsage.failure fault)
    | .ok arguments =>
      match answer? arguments with
      | some outcome => .error outcome
      | none => ofOperands (loudnessOf arguments) arguments.operands

/-- Runs a call on a tree, from the present folder. -/
def run (call : Call) (tree : FileTree) (here : Path) : FileTree × Outcome :=
  match call.command.order tree here call.arguments with
  | .error fault => (tree, call.usage.failure fault)
  | .ok order => order.run call.loudness tree here

/-- The folder from which the call looks for a workspace. -/
def start (call : Call) (here : Path) : Path :=
  here.join (Path.ofText ((call.arguments.value? .project).getD []))

/-- The order of the call, if there is no mistake in it. -/
def order? (call : Call) (tree : FileTree) (here : Path) : Option Order :=
  (call.command.order tree here call.arguments).toOption

end Call

/-- Runs what arguments were read into: a call, or an answer that needs no tree. -/
def runCall (call : Except Outcome Call) (tree : FileTree) (here : Path) : FileTree × Outcome :=
  match call with
  | .error outcome => (tree, outcome)
  | .ok call => call.run tree here

/-- Runs the program with arguments. -/
def run (arguments : List Text) (tree : FileTree) (here : Path) : FileTree × Outcome :=
  runCall (Call.ofProgram arguments) tree here

/-- Runs a command that is a program of its own with arguments. -/
def runAlone (command : Command) (arguments : List Text) (tree : FileTree) (here : Path) :
    FileTree × Outcome :=
  runCall (Call.alone command arguments) tree here

end VerticalSlice.Command
