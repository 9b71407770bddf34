import VerticalSlice.Text.Basic

/-!
# Occurrences in a text

A pattern looks at a place in a text, with the characters before it and the characters from it on,
and says whether something begins there, what it is and how many characters it takes. The
occurrences of a pattern are found from left to right, and each search goes on behind the
occurrence before. The places of a pattern are all places where something begins, even inside
something else.
-/

namespace VerticalSlice.Text

/-- What begins at a place: given the characters before it, nearest first, and those from it on,
the value found there and the number of characters it takes. -/
abbrev Pattern (α : Type) := Text → Text → Option (α × Nat)

/-- The occurrences with their offsets, from a place on; the next `skip` characters belong to the
occurrence before. -/
def occurrencesFrom (pattern : Pattern α) (before : Text) (skip offset : Nat) :
    Text → List (Nat × α)
  | [] => []
  | c :: rest =>
    match skip with
    | skip + 1 => occurrencesFrom pattern (c :: before) skip (offset + 1) rest
    | 0 =>
      match pattern before (c :: rest) with
      | some (value, length) =>
        (offset, value) :: occurrencesFrom pattern (c :: before) (length - 1) (offset + 1) rest
      | none => occurrencesFrom pattern (c :: before) 0 (offset + 1) rest

/-- The occurrences of a pattern in a text, each with the offset it begins at. -/
def occurrences (pattern : Pattern α) (text : Text) : List (Nat × α) :=
  occurrencesFrom pattern [] 0 0 text

/-- Puts an occurrence among others, in front of the first that does not begin before it. -/
def insertByOffset (found : Nat × α) : List (Nat × α) → List (Nat × α)
  | [] => [found]
  | first :: rest =>
    if found.1 ≤ first.1 then found :: first :: rest else first :: insertByOffset found rest

/-- Occurrences in the order in which they begin. -/
def sortByOffset (found : List (Nat × α)) : List (Nat × α) := found.foldr insertByOffset []

/-- The places where something begins, each with its offset, from a place on. -/
def placesFrom (pattern : Pattern α) (before : Text) (offset : Nat) : Text → List (Nat × α)
  | [] => []
  | c :: rest =>
    match pattern before (c :: rest) with
    | some (value, _) => (offset, value) :: placesFrom pattern (c :: before) (offset + 1) rest
    | none => placesFrom pattern (c :: before) (offset + 1) rest

/-- The places in a text where something begins, each with its offset. -/
def places (pattern : Pattern α) (text : Text) : List (Nat × α) := placesFrom pattern [] 0 text

/-- No occurrence begins before the place the search starts from. -/
theorem le_of_mem_occurrencesFrom {pattern : Pattern α} {before text : Text} {skip offset : Nat}
    {found : Nat × α} (h : found ∈ occurrencesFrom pattern before skip offset text) :
    offset + skip ≤ found.1 := by
  induction text generalizing before skip offset with
  | nil => simp [occurrencesFrom] at h
  | cons c rest ih =>
    cases skip with
    | succ skip =>
      have := ih (by simpa [occurrencesFrom] using h)
      omega
    | zero =>
      simp only [occurrencesFrom] at h
      split at h
      · rcases List.mem_cons.1 h with rfl | h
        · simp
        · have := ih h
          omega
      · have := ih h
        omega

end VerticalSlice.Text
