import VerticalSlice.Command.Output
import VerticalSlice.Command.Table

/-!
# Running checks

A check on its own writes its report and ends with the status of its verdict. The gate runs all
checks on one workspace, writes what each of them writes on its own, and then a summary: a table
with a row for every check, and a closing line that names the checks that failed. A check that comes
to no verdict has failed, and the others are run all the same.
-/

namespace VerticalSlice.Command

/-- How a check came out: whether it passed, and with how many issues, if it came to a verdict. -/
structure Row where
  check : Check
  passed : Bool
  issues : Option Nat
deriving DecidableEq, Repr

/-- The report of a verdict: a result if no rule was broken. -/
def reportMessage (verdict : Verdict) : Message :=
  ⟨if verdict.passed then .out else .err, verdict.toText⟩

/-- The row of a verdict. -/
def verdictRow (check : Check) (verdict : Verdict) : Row :=
  ⟨check, verdict.passed, some verdict.violations.length⟩

/-- What a check writes about a workspace, and how it comes out. -/
def runCheck (loudness : Loudness) (context : Context) (tree : FileTree) (check : Check) :
    List Message × Except Breakdown Row :=
  let told := loudness.messages (check.notices context tree)
  match check.run context tree with
  | .ok verdict => (told ++ [reportMessage verdict], .ok (verdictRow check verdict))
  | .error (.table fault) =>
    (told ++ [⟨.err, Text.concat ["Error: ", fault.message]⟩], .ok ⟨check, false, none⟩)
  | .error fault => (told, .error (.check fault))

/-- What a check does as a command. -/
def checkOutcome (loudness : Loudness) (context : Context) (tree : FileTree) (check : Check) :
    Outcome :=
  match runCheck loudness context tree check with
  | (messages, .ok row) => ⟨messages, .status (if row.passed then 0 else 1)⟩
  | (messages, .error cause) => ⟨messages, .brokenOff cause⟩

/-- What the checks write one after the other, and how they come out. -/
def runChecks (loudness : Loudness) (context : Context) (tree : FileTree) :
    List Check → List Message × Except Breakdown (List Row)
  | [] => ([], .ok [])
  | check :: rest =>
    match runCheck loudness context tree check with
    | (messages, .error cause) => (messages, .error cause)
    | (messages, .ok row) =>
      let (later, rows) := runChecks loudness context tree rest
      (messages ++ later, rows.map (row :: ·))

/-- The columns of the summary. -/
def summaryColumns : List Column := [⟨"Check", false⟩, ⟨"Status", false⟩, ⟨"Issues", true⟩]

/-- The cells of a row. -/
def Row.cells (row : Row) : List Text :=
  [row.check.name, if row.passed then "PASS" else "FAIL", (row.issues.map Text.ofNat).getD "error"]

/-- The names of the checks that failed. -/
def failedNames (rows : List Row) : List Text :=
  (rows.filter fun row => !row.passed).map fun row => row.check.name

/-- The line that ends the summary. -/
def closing (rows : List Row) : Message :=
  match failedNames rows with
  | [] => ⟨.out, Text.concat ["All ", Text.ofNat rows.length, " checks passed."]⟩
  | failed => ⟨.err, Text.concat [Text.ofNat failed.length, " of ", Text.ofNat rows.length,
      " check(s) failed: ", Text.joinWith ", " failed]⟩

/-- The summary. -/
def summary (rows : List Row) : List Message :=
  (([] : Text) :: Table.lines "Verification summary" summaryColumns (rows.map Row.cells)).map
    (⟨.out, ·⟩) ++ [closing rows]

/-- What the gate does. -/
def gateOutcome (loudness : Loudness) (context : Context) (tree : FileTree) : Outcome :=
  match runChecks loudness context tree Check.all with
  | (messages, .error cause) => ⟨messages, .brokenOff cause⟩
  | (messages, .ok rows) =>
    ⟨messages ++ summary rows, .status (if (failedNames rows).isEmpty then 0 else 1)⟩

end VerticalSlice.Command
