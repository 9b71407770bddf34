import VerticalSlice.Text.Search

/-!
# Verdicts

A check of a workspace ends in a verdict: the violations it found, in order, and what to say when
it found none. A verdict is written as its summary, or as a header that counts the violations, an
empty line, and one line for each violation.
-/

namespace VerticalSlice

/-- Something in the workspace that breaks a rule. -/
structure Violation where
  /-- The file it is about, seen from the workspace. -/
  file : Option Text
  message : Text
  line : Option Int := none
  /-- The feature that reaches out, where features must stay apart. -/
  fromFeature : Option Text := none
  /-- The feature that is reached into. -/
  toFeature : Option Text := none
deriving DecidableEq, Repr

namespace Violation

/-- The file with the line, if there is one. -/
def location (violation : Violation) : Option Text :=
  violation.file.map fun file =>
    match violation.line with
    | some line => Text.concat [file, ":", Text.ofInt line]
    | none => file

/-- The line of a report. -/
def toText (violation : Violation) : Text :=
  match violation.location with
  | some location => Text.concat ["- ", location, ": ", violation.message]
  | none => Text.concat ["- ", violation.message]

end Violation

/-- What a check found. -/
structure Verdict where
  /-- The name of the check. -/
  check : Text
  /-- What the check is called in the header of a report. -/
  title : Text
  /-- What is said when there are no violations. -/
  summary : Text
  violations : List Violation
  /-- How many features the check went through. -/
  featuresChecked : Nat := 0
deriving DecidableEq, Repr

namespace Verdict

/-- Was no rule broken? -/
def passed (verdict : Verdict) : Bool := verdict.violations.isEmpty

/-- The verdict with one more violation at the end. -/
def add (verdict : Verdict) (violation : Violation) : Verdict :=
  { verdict with violations := verdict.violations ++ [violation] }

/-- The first line of a report with violations. -/
def header (verdict : Verdict) : Text :=
  Text.concat [verdict.title, " verification failed (", Text.ofNat verdict.violations.length,
    " issue(s)):"]

/-- The lines of the report. -/
def lines (verdict : Verdict) : List Text :=
  if verdict.passed then [verdict.summary]
  else verdict.header :: [] :: verdict.violations.map Violation.toText

/-- The report. -/
def toText (verdict : Verdict) : Text := Text.joinWith ['\n'] verdict.lines

/-- The status that a process ends with: 0 if no rule was broken. -/
def exitCode (verdict : Verdict) : Nat := if verdict.passed then 0 else 1

theorem lines_of_passed {verdict : Verdict} (h : verdict.violations = []) :
    verdict.lines = [verdict.summary] := by
  simp [lines, passed, h]

/-- A report with violations has two lines more than there are violations. -/
theorem length_lines {verdict : Verdict} (h : verdict.violations ≠ []) :
    verdict.lines.length = verdict.violations.length + 2 := by
  simp [lines, passed, h]

end Verdict

end VerticalSlice
