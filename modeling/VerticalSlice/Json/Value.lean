import VerticalSlice.Decimal.Real
import VerticalSlice.Text.Quoted
import VerticalSlice.Text.Search

/-!
# JSON values

A document of named values, lists and scalars. The members of an object keep the order in which
their names first came.
-/

namespace VerticalSlice

/-- A JSON value. Whole numbers are exact; a number with a fraction or an exponent is a
floating point number, and so are the infinities and the value that is no number. -/
inductive Json
  | null
  | boolean (value : Bool)
  | whole (value : Int)
  | real (value : Decimal.Real64)
  | text (value : Text)
  | list (items : List Json)
  | object (members : List (Text × Json))

namespace Json

/-- The value of a member, if the value is an object that has it. -/
def member? (name : Text) : Json → Option Json
  | .object members => members.lookup name
  | _ => none

/-- The members with the value under this name replaced in its place, or added at the end. -/
def setMember (name : Text) (value : Json) : List (Text × Json) → List (Text × Json)
  | [] => [(name, value)]
  | (other, old) :: rest =>
    if other = name then (name, value) :: rest else (other, old) :: setMember name value rest

/-- Does the value say anything? Null, false, zero and empty texts, lists and objects do not. -/
def isMeaningful : Json → Bool
  | .null => false
  | .boolean value => value
  | .whole value => value ≠ 0
  | .real (.zero _) => false
  | .real _ => true
  | .text value => value ≠ []
  | .list items => !items.isEmpty
  | .object members => !members.isEmpty

mutual

/-- The value written inside a list or an object, where texts stand between quotes. -/
def display : Json → Text
  | .null => ['N', 'o', 'n', 'e']
  | .boolean value => if value then ['T', 'r', 'u', 'e'] else ['F', 'a', 'l', 's', 'e']
  | .whole value => Text.ofInt value
  | .real value => value.toText
  | .text value => Text.quoted value
  | .list items => Text.concat [['['], Text.joinWith [',', ' '] (displayItems items), [']']]
  | .object members =>
    Text.concat [['\x7b'], Text.joinWith [',', ' '] (displayMembers members), ['\x7d']]

def displayItems : List Json → List Text
  | [] => []
  | item :: rest => display item :: displayItems rest

def displayMembers : List (Text × Json) → List Text
  | [] => []
  | (name, value) :: rest =>
    Text.concat [Text.quoted name, [':', ' '], display value] :: displayMembers rest

end

/-- The value written where a name is wanted: a text is written as it is. -/
def toName : Json → Text
  | .text value => value
  | value => display value

end Json

end VerticalSlice
