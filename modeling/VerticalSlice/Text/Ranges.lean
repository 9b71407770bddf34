/-!
# Classes of characters given as ranges

A class of characters that no formula describes is a list of closed ranges of code points, and a
character belongs to it when its code point lies in one of them.
-/

namespace VerticalSlice.Text

/-- Closed ranges of code points, in increasing order. -/
abbrev Ranges := List (Nat × Nat)

/-- Does some range hold the code point? -/
def Ranges.covers (ranges : Ranges) (code : Nat) : Bool :=
  ranges.any fun range => range.1 ≤ code && code ≤ range.2

theorem Ranges.covers_iff {ranges : Ranges} {code : Nat} :
    ranges.covers code = true ↔ ∃ range ∈ ranges, range.1 ≤ code ∧ code ≤ range.2 := by
  simp [Ranges.covers]

end VerticalSlice.Text
