import VerticalSlice.Text.Basic

/-!
# Lines of a text

A line ends with a line feed. Files may end their lines in other ways, and are brought to this
form when they are read.
-/

namespace VerticalSlice.Text

/-- Both a carriage return with its line feed and a carriage return on its own become one line
feed. -/
def normalizeNewlines : Text → Text
  | [] => []
  | '\r' :: '\n' :: rest => '\n' :: normalizeNewlines rest
  | c :: rest => (if c = '\r' then '\n' else c) :: normalizeNewlines rest

/-- How many lines the text ends. -/
def lineBreaks (text : Text) : Nat := text.count '\n'

/-- The number of the line that is reached when so many characters are passed from a line on. -/
def lineFrom (line : Nat) : Nat → Text → Nat
  | 0, _ => line
  | _, [] => line
  | count + 1, c :: rest => lineFrom (if c = '\n' then line + 1 else line) count rest

/-- The number, from 1, of the line on which the character at `offset` stands. -/
def lineAt (text : Text) (offset : Nat) : Nat := lineFrom 1 offset text

theorem lineFrom_eq (line count : Nat) (text : Text) :
    lineFrom line count text = line + lineBreaks (text.take count) := by
  induction text generalizing line count with
  | nil => cases count <;> simp [lineFrom, lineBreaks]
  | cons c rest ih =>
    cases count with
    | zero => simp [lineFrom, lineBreaks]
    | succ count =>
      by_cases h : c = '\n'
      · simp only [lineFrom, h, if_true, ih, lineBreaks, List.take_succ_cons, List.count_cons_self]
        omega
      · simp [lineFrom, h, ih, lineBreaks]

/-- The line of a character is one more than the number of lines that end before it. -/
theorem lineAt_eq (text : Text) (offset : Nat) :
    lineAt text offset = lineBreaks (text.take offset) + 1 := by
  rw [lineAt, lineFrom_eq, Nat.add_comm]

/-- A normalised text holds no carriage return. -/
theorem carriageReturn_notMem_normalizeNewlines (text : Text) :
    '\r' ∉ normalizeNewlines text := by
  fun_induction normalizeNewlines text with
  | case1 => simp
  | case2 rest ih => simp [ih]
  | case3 c rest _ ih =>
    by_cases h : c = '\r' <;> simp [h, ih, eq_comm]

/-- A text without carriage returns is normalised already. -/
theorem normalizeNewlines_eq_self {text : Text} (h : '\r' ∉ text) :
    normalizeNewlines text = text := by
  fun_induction normalizeNewlines text with
  | case1 => rfl
  | case2 rest _ => simp at h
  | case3 c rest _ ih =>
    simp only [List.mem_cons, not_or] at h
    simp [ih h.2, Ne.symm h.1]

end VerticalSlice.Text
