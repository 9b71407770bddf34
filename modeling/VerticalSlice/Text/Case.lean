import VerticalSlice.Text.Basic
import VerticalSlice.Text.Case.Table

/-!
# Letter case

Small and capital forms of a text, after the full mappings of Unicode: a letter may grow into
several characters, and the Greek sigma has a form of its own at the end of a word.
-/

namespace VerticalSlice.Text

namespace Case

/-- The mapping of one letter: an expansion if there is one, else the run that covers it, else the
letter itself. -/
def mapped (runs : List Run) (expansions : List (Nat × List Nat)) (c : Char) : Text :=
  match expansions.find? (·.1 == c.toNat) with
  | some (_, codes) => codes.map Char.ofNat
  | none =>
    match runs.find? (·.covers c.toNat) with
    | some run => [Char.ofNat (c.toNat + run.shift).toNat]
    | none => [c]

def isIgnorable (c : Char) : Bool := ignorableRanges.covers c.toNat

def isCased (c : Char) : Bool := casedRanges.covers c.toNat

/-- Is the nearest character that counts a letter with case? -/
def meetsCased (nearby : Text) : Bool :=
  match nearby.dropWhile isIgnorable with
  | [] => false
  | c :: _ => isCased c

end Case

/-- The small form of a letter, taken on its own. -/
def lowerChar (c : Char) : Text :=
  if c.val < 128 then [c.toLower] else Case.mapped Case.lowerRuns Case.lowerExpansions c

/-- The capital form of a letter. -/
def upperChar (c : Char) : Text :=
  if c.val < 128 then [c.toUpper] else Case.mapped Case.upperRuns Case.upperExpansions c

/-- The capital sigma, whose small form depends on its neighbours. -/
def capitalSigma : Char := 'Σ'

/-- The small form of `text`, where `before` holds the characters in front of it, nearest first:
a sigma that ends a word takes the final form. -/
def lowerFrom (before : Text) : Text → Text
  | [] => []
  | c :: rest =>
    let small :=
      if c = capitalSigma then
        if Case.meetsCased before && !Case.meetsCased rest then ['ς'] else ['σ']
      else lowerChar c
    small ++ lowerFrom (c :: before) rest

/-- The small form of a text. -/
def lower (text : Text) : Text := lowerFrom [] text

/-- The capital form of a text. -/
def upper (text : Text) : Text := text.flatMap upperChar

end VerticalSlice.Text
