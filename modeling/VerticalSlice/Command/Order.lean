import VerticalSlice.Command.Gate
import VerticalSlice.Command.Scaffold
import VerticalSlice.Command.Usage

/-!
# Orders

The arguments of a command give an order: a job, and the workspace to do it on, which is the one
around the present folder or around a folder that is named. An order is carried out on a tree and
leaves a tree behind. `Order.landmarks` and `Order.holdings` name what an order can come across, so
that the tree need not hold more of a file system.
-/

namespace VerticalSlice.Command

/-- The work of a command. -/
inductive Job
  | check (check : Check)
  | gate
  | generate (request : Feature.Request)

/-- A job, the folder from which its workspace is looked for, and the application that is asked
for. -/
structure Order where
  job : Job
  start : Path
  application : Option Text

/-- Must a written path lead to a folder, because it ends behind a slash? -/
def endsInFolder (path : Text) : Bool :=
  path.getLast? = some '/' || List.isSuffixOf "/.".toList path

/-- The folder from which the workspace is looked for: the one named by the arguments, which must be
there, or else the present one. -/
def startFolder (tree : FileTree) (here : Path) (arguments : Arguments) : Except UsageFault Path :=
  match arguments.value? .project with
  | none => .ok here
  | some named =>
    let path := here.join (Path.ofText named)
    if named = [] then .error (.missingFolder Switch.project.name named)
    else if tree.hasFolder path then .ok (Path.ofText named)
    else if tree.hasFile path && !endsInFolder named then
      .error (.notAFolder Switch.project.name named)
    else .error (.missingFolder Switch.project.name named)

/-- The job of a command that takes no operands. -/
def without (operands : List Text) (job : Job) : Except UsageFault Job :=
  match operands with
  | [] => .ok job
  | extra => .error (.extraOperands extra)

/-- The job of a command, as its arguments have it. -/
def job (command : Command) (arguments : Arguments) : Except UsageFault Job :=
  match command with
  | .check which => without arguments.operands (.check which)
  | .gate => without arguments.operands .gate
  | .generate =>
    match arguments.operands with
    | [] => .error (.missingOperand "NAME")
    | [name] => .ok (.generate {
        name := name
        route := arguments.value? .route
        register := arguments.has .register
        overwrite := arguments.has .overwrite })
    | _ :: extra => .error (.extraOperands extra)

/-- The order that the arguments of a command give. The folder is looked at first. -/
def order (command : Command) (tree : FileTree) (here : Path) (arguments : Arguments) :
    Except UsageFault Order := do
  let start ← startFolder tree here arguments
  let job ← command.job arguments
  return ⟨job, start, arguments.value? .appProject⟩

/-! ## Running -/

/-- Does the fault break the run off? Else it is an answer. -/
def workspaceBreaksOff : WorkspaceFault → Bool
  | .badStart _ | .encoding _ | .settings _ => true
  | _ => false

/-- The outcome when there is no workspace to work on. -/
def withoutWorkspace (fault : WorkspaceFault) : Outcome :=
  if workspaceBreaksOff fault then ⟨[], .brokenOff (.workspace fault)⟩
  else Outcome.failure fault.message

/-- Does a job on a workspace. -/
def Job.run (job : Job) (loudness : Loudness) (context : Context) (tree : FileTree) :
    FileTree × Outcome :=
  match job with
  | .check which => (tree, checkOutcome loudness context tree which)
  | .gate => (tree, gateOutcome loudness context tree)
  | .generate request => generateOutcome loudness context tree request

/-- Carries out an order. -/
def Order.run (order : Order) (loudness : Loudness) (tree : FileTree) (here : Path) :
    FileTree × Outcome :=
  let (changed, outcome) :=
    match Workspace.context tree here order.start order.application with
    | .error fault => (tree, withoutWorkspace fault)
    | .ok context => order.job.run loudness context tree
  (changed, outcome.after (loudness.messages (Workspace.notices tree here order.start)))

/-- The files that say of the folders around the start whether they are workspaces, and which. -/
def Order.landmarks (order : Order) (here : Path) : List Path :=
  match Workspace.resolve here order.start with
  | .error _ => []
  | .ok start =>
    (Workspace.ancestors start).flatMap fun folder =>
      [folder.child Manifest.fileName, folder.join Settings.path]

/-- What a workspace is made of, if the tree tells which one the order is for: the folder of the
application, and the style sheets with the approved colours. -/
def Order.holdings (order : Order) (tree : FileTree) (here : Path) : List Path :=
  match Workspace.context tree here order.start order.application with
  | .error _ => []
  | .ok context =>
    context.appFolder ::
      context.settings.tokenFiles.map fun file => context.root.join (Path.ofText file)

end VerticalSlice.Command
