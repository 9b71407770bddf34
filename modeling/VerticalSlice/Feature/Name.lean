import VerticalSlice.Text.Blank
import VerticalSlice.Text.Case
import VerticalSlice.Text.Quoted
import VerticalSlice.Text.Search

/-!
# Names of features

A feature has one name in three spellings: `user-profile` for folders, files and routes,
`UserProfile` for classes and `USER_PROFILE` for constants. All three come from the words of the
name, however it was written. A name is accepted when every spelling makes a good file name and a
good identifier.
-/

namespace VerticalSlice

/-- The three spellings of a feature's name. -/
structure FeatureName where
  /-- Small letters, words joined by hyphens. -/
  kebab : Text
  /-- Every word with a capital first letter, joined without anything between. -/
  pascal : Text
  /-- Capital letters, words joined by underscores. -/
  const : Text
deriving DecidableEq, Repr

namespace FeatureName

/-- Puts a hyphen wherever a small letter or a digit of ASCII meets a capital one. -/
def separateWords : Text → Text
  | a :: b :: rest =>
    if (a.isLower || a.isDigit) && b.isUpper then a :: '-' :: separateWords (b :: rest)
    else a :: separateWords (b :: rest)
  | short => short

/-- Does the character stand between words? -/
def isGap (c : Char) : Bool := Text.isBlank c || c == '_'

/-- Every run of blanks and underscores becomes one hyphen; `inGap` says that the characters before
belong to such a run. -/
def hyphenateGaps (inGap : Bool) : Text → Text
  | [] => []
  | c :: rest =>
    if isGap c then (if inGap then hyphenateGaps true rest else '-' :: hyphenateGaps true rest)
    else c :: hyphenateGaps false rest

/-- The spelling with hyphens. -/
def toKebab (name : Text) : Text :=
  Text.lower (hyphenateGaps false (separateWords (Text.trim name)))

/-- The word with a capital first letter. -/
def capitalize : Text → Text
  | [] => []
  | c :: rest => Text.upperChar c ++ rest

/-- The spelling of a class name. -/
def toPascal (name : Text) : Text :=
  (Text.splitOn '-' (toKebab name)).flatMap capitalize

/-- The spelling of a constant. -/
def toConst (name : Text) : Text :=
  (Text.upper (toKebab name)).map fun c => if c = '-' then '_' else c

/-- The three spellings, whether or not the name is an accepted one. -/
def spell (name : Text) : FeatureName := ⟨toKebab name, toPascal name, toConst name⟩

/-- May the character follow the first letter of a name? -/
def isNameChar (c : Char) : Bool :=
  c.isAlphanum || c == '_' || c == '-' || Text.isBlank c

/-- A name starts with a letter of ASCII; letters, digits, hyphens, underscores and blanks
follow. -/
def isAccepted (name : Text) : Bool :=
  match Text.trim name with
  | [] => false
  | c :: rest => c.isAlpha && rest.all isNameChar

/-- The spellings of an accepted name. -/
def ofText? (name : Text) : Option FeatureName :=
  if isAccepted name then some (spell name) else none

/-- Why a name was not accepted. -/
def rejection (name : Text) : Text :=
  Text.concat ["Invalid feature name: ", Text.quoted name,
    " (start with a letter; letters, digits, -, _ only)"]

theorem ofText?_eq_some_iff {name : Text} {spelled : FeatureName} :
    ofText? name = some spelled ↔ isAccepted name = true ∧ spell name = spelled := by
  simp [ofText?]

end FeatureName

end VerticalSlice
