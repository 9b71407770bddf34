import VerticalSlice.Text.Quoted
import VerticalSlice.Text.Search

/-!
# Arguments

The arguments of a command are switches and operands. A switch begins with a hyphen; one that takes
a value has it behind an equals sign or as the next argument, whatever that looks like. Two hyphens
alone end the switches. `scan` sorts the arguments and looks at no value, so what it refuses are
only switches: unknown ones, a value that is missing, and a value where none is taken.
-/

namespace VerticalSlice.Command

/-- The switches of all commands. -/
inductive Switch
  | help
  | version
  | verbose
  | quiet
  | project
  | appProject
  | route
  | register
  | overwrite
deriving DecidableEq, Repr

namespace Switch

/-- The long name. -/
def name : Switch → Text
  | .help => "--help"
  | .version => "--version"
  | .verbose => "--verbose"
  | .quiet => "--quiet"
  | .project => "--project"
  | .appProject => "--app-project"
  | .route => "--route"
  | .register => "--register"
  | .overwrite => "--overwrite"

/-- The letter behind one hyphen. -/
def letter? : Switch → Option Char
  | .verbose => some 'v'
  | .quiet => some 'q'
  | _ => none

def takesValue : Switch → Bool
  | .project | .appProject | .route => true
  | _ => false

end Switch

/-- What is wrong with the arguments of a command. -/
inductive UsageFault
  | unknownSwitch (name : Text)
  | noValue (switch : Text)
  | unwantedValue (switch : Text)
  | missingFolder (switch path : Text)
  | notAFolder (switch path : Text)
  | missingOperand (name : Text)
  | extraOperands (operands : List Text)
  | noCommand
  | unknownCommand (name : Text)
deriving DecidableEq, Repr

/-- The fault in words. -/
def UsageFault.message : UsageFault → Text
  | .unknownSwitch name => Text.concat ["No such option: ", name]
  | .noValue switch => Text.concat ["Option ", Text.quoted switch, " requires an argument."]
  | .unwantedValue switch =>
    Text.concat ["Option ", Text.quoted switch, " does not take a value."]
  | .missingFolder switch path =>
    Text.concat ["Invalid value for '", switch, "': Directory ", Text.quoted path,
      " does not exist."]
  | .notAFolder switch path =>
    Text.concat ["Invalid value for '", switch, "': Directory ", Text.quoted path, " is a file."]
  | .missingOperand name => Text.concat ["Missing argument '", name, "'."]
  | .extraOperands operands =>
    Text.concat ["Got unexpected extra argument", if operands.length = 1 then "" else "s", " (",
      Text.joinWith [' '] operands, ")"]
  | .noCommand => "Missing command."
  | .unknownCommand name => Text.concat ["No such command ", Text.quoted name, "."]

/-- The switches with their values, in order, and the operands. A switch without a value has an
empty one. -/
structure Arguments where
  switches : List (Switch × Text) := []
  operands : List Text := []
deriving DecidableEq, Repr

namespace Arguments

/-- Is the switch among the arguments? -/
def has (arguments : Arguments) (switch : Switch) : Bool :=
  arguments.switches.any fun given => given.1 = switch

/-- The value that the switch has at the last place where it is given. -/
def value? (arguments : Arguments) (switch : Switch) : Option Text :=
  (arguments.switches.reverse.find? fun given => given.1 = switch).map (·.2)

/-- Does the argument begin a switch? A hyphen alone does not. -/
def beginsSwitch (argument : Text) : Bool :=
  match argument with
  | '-' :: _ :: _ => true
  | _ => false

/-- An argument cut at its first equals sign. -/
def cutValue (argument : Text) : Text × Option Text :=
  let name := argument.takeWhile (· ≠ '=')
  match argument.drop name.length with
  | [] => (name, none)
  | _ :: value => (name, some value)

/-- The switches of letters behind one hyphen. -/
def ofLetters (known : List Switch) (letters : Text) : Except UsageFault (List (Switch × Text)) :=
  letters.mapM fun letter =>
    match known.find? fun switch => switch.letter? = some letter with
    | some switch => .ok (switch, [])
    | none => .error (.unknownSwitch ['-', letter])

/-- Reads an argument that begins a switch: the switches that are complete with it, and the one
that takes the next argument as its value. -/
def readSwitch (known : List Switch) (argument : Text) :
    Except UsageFault (List (Switch × Text) × Option Switch) :=
  let (name, value) := cutValue argument
  match known.find? fun switch => switch.name = name with
  | some switch =>
    match switch.takesValue, value with
    | true, some value => .ok ([(switch, value)], none)
    | true, none => .ok ([], some switch)
    | false, some _ => .error (.unwantedValue name)
    | false, none => .ok ([(switch, [])], none)
  | none =>
    match argument with
    | '-' :: '-' :: _ => .error (.unknownSwitch name)
    | _ => (ofLetters known (argument.drop 1)).map fun switches => (switches, none)

/-- The arguments with switches in front of them. -/
def behind (switches : List (Switch × Text)) (arguments : Arguments) : Arguments :=
  { arguments with switches := switches ++ arguments.switches }

/-- Sorts the arguments of a command with the known switches. Unless switches and operands may be
`mixed`, the first operand ends the switches. -/
def scan (known : List Switch) (mixed : Bool) : List Text → Except UsageFault Arguments
  | [] => .ok {}
  | argument :: rest =>
    if argument = ("--" : Text) then .ok { operands := rest }
    else if beginsSwitch argument then
      match readSwitch known argument with
      | .error fault => .error fault
      | .ok (switches, none) => (scan known mixed rest).map (behind switches)
      | .ok (switches, some waiting) =>
        match rest with
        | [] => .error (.noValue waiting.name)
        | value :: rest => (scan known mixed rest).map (behind (switches ++ [(waiting, value)]))
    else if mixed then
      (scan known mixed rest).map fun arguments =>
        { arguments with operands := argument :: arguments.operands }
    else .ok { operands := argument :: rest }

end Arguments

end VerticalSlice.Command
