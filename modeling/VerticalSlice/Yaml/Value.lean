import VerticalSlice.Text.Blank
import VerticalSlice.Text.Case
import VerticalSlice.Text.Quoted
import VerticalSlice.Yaml.Node

/-!
# The value of a YAML text

The tags of the nodes decide what the value is, and whether there is one: a scalar whose text does
not fit its tag is a fault, and so are tags that plain data does not have and collections as keys.
The faults are looked for level by level, so that of two faults the one nearer to the top counts.
-/

namespace VerticalSlice.Yaml

/-- A value. Of a scalar that is neither a text nor null only its tag and its spelling are kept. -/
inductive Value
  | null
  | text (text : Text)
  | scalar (tag : Tag) (text : Text)
  | list (items : List Value)
  /-- The pairs in their order; of several with one key the last one counts. -/
  | mapping (pairs : List (Value × Value))
  | set (pairs : List (Value × Value))
  /-- A collection that this value is inside of. -/
  | enclosing

/-! ## Scalars -/

/-- Is the text a whole number in this base, with the letter that marks the base or without? -/
def isWholeIn (base : Nat) (text : Text) : Bool :=
  let number := Tag.unsigned (Text.trim text)
  let mark :=
    if base = 2 then ['b'] else if base = 8 then ['o'] else if base = 16 then ['x'] else []
  let digits :=
    match number with
    | '0' :: c :: rest => if mark.contains c.toLower then rest else number
    | number => number
  Tag.isRun (fun c => (Text.hexValue? c).any (· < base)) digits

/-- What keeps the text from being a whole number in the base. -/
def wholeFaultIn (base : Nat) (text : Text) : Option Fault :=
  if isWholeIn base text then none else some (.notWhole base text)

/-- What keeps the text from being a whole number. -/
def wholeFault (text : Text) : Option Fault :=
  match Tag.unsigned (text.filter (· ≠ '_')) with
  | [] => some .emptyNumber
  | ['0'] => none
  | '0' :: 'b' :: digits => wholeFaultIn 2 digits
  | '0' :: 'x' :: digits => wholeFaultIn 16 digits
  | '0' :: digits => wholeFaultIn 8 ('0' :: digits)
  | number => (Text.splitOn ':' number).findSome? (wholeFaultIn 10)

/-- Is the text a number with or without a point and an exponent, or a word for what is none? -/
def isRealNumber (text : Text) : Bool :=
  let number := Tag.unsigned (Text.trim text)
  let before := number.takeWhile Char.isDigit
  let rest := number.drop before.length
  let after := match rest with
    | '.' :: rest => rest.takeWhile Char.isDigit
    | _ => []
  let rest := match rest with
    | '.' :: rest => rest.drop after.length
    | rest => rest
  let hasExponent := match rest with
    | [] => true
    | 'e' :: exponent => Tag.isRun Char.isDigit (Tag.unsigned exponent)
    | _ => false
  number = "inf" || number = "infinity" || number = "nan" ||
    ((before ≠ [] || after ≠ []) && hasExponent)

/-- What keeps the text from being a number. -/
def realFault (text : Text) : Option Fault :=
  match Tag.unsigned (Text.lower (text.filter (· ≠ '_'))) with
  | [] => some .emptyNumber
  | number =>
    if number = ".inf" || number = ".nan" then none
    else
      (Text.splitOn ':' number).findSome? fun piece =>
        if isRealNumber piece then none else some (.notReal piece)

/-- The number of days of a month. -/
def daysOfMonth (year month : Nat) : Nat :=
  if month = 2 then
    if year % 4 = 0 && (year % 100 ≠ 0 || year % 400 = 0) then 29 else 28
  else if month = 4 || month = 6 || month = 9 || month = 11 then 30
  else 31

/-- What keeps a moment from being one of the calendar and the clock. -/
def momentFault (moment : Tag.Moment) : Option Fault :=
  let offset := moment.offset.getD 0
  if moment.time.isSome && (offset ≤ -1440 || 1440 ≤ offset) then some (.offsetOutOfRange offset)
  else if moment.year = 0 then some (.yearOutOfRange moment.year)
  else if moment.month = 0 || 12 < moment.month then some .monthOutOfRange
  else if moment.day = 0 || daysOfMonth moment.year moment.month < moment.day then
    some .dayOutOfRange
  else
    match moment.time with
    | none => none
    | some (hour, minute, second) =>
      if 23 < hour then some .hourOutOfRange
      else if 59 < minute then some .minuteOutOfRange
      else if 59 < second then some .secondOutOfRange
      else none

/-- Can the character stand in bytes that are written in base 64? -/
def isBase64Char (c : Char) : Bool := c.isAlphanum || c == '+' || c == '/'

/-- Do the characters fill whole groups of four, with equals signs where the last one ends early?
`place` and `signs` say how far the present group is filled. Other characters do not count. -/
def isBase64 (place signs : Nat) : Text → Bool
  | [] => place = 0
  | c :: rest =>
    if c == '=' then
      if place ≥ 2 then
        if place + signs + 1 ≥ 4 then true else isBase64 place (signs + 1) rest
      else isBase64 place signs rest
    else if isBase64Char c then isBase64 ((place + 1) % 4) 0 rest
    else isBase64 place signs rest

/-- Does the tag ask for a scalar? -/
def Tag.isScalar (tag : Tag) : Bool :=
  [Tag.null, .boolean, .whole, .real, .binary, .timestamp, .string].contains tag

/-- Does the tag ask for a collection? -/
def Tag.isCollection (tag : Tag) : Bool :=
  [Tag.list, .mapping, .set, .orderedMapping, .pairs].contains tag

/-- What keeps the text from having a value with the tag of a scalar. -/
def scalarFault (tag : Tag) (text : Text) : Option Fault :=
  match tag with
  | .boolean =>
    if (Tag.booleanWords.lookup (Text.lower text)).isSome then none
    else some (.unknownBoolean (Text.lower text))
  | .whole => wholeFault text
  | .real => realFault text
  | .binary =>
    if text.all (·.toNat < 128) && isBase64 0 0 text then none else some .malformed
  | .timestamp =>
    match Tag.moment? text with
    | some moment => momentFault moment
    | none => some .notATimestamp
  | _ => none

/-! ## Nodes -/

namespace Node

/-- The tag of a node. -/
def tag : Node → Tag
  | .scalar tag _ => tag
  | .sequence tag _ => tag
  | .mapping tag _ => tag
  | .enclosing isMapping => if isMapping then .mapping else .list

mutual

/-- The text of a node that is wanted as a scalar. A mapping stands for the value of its standard
key. -/
def scalarText? : Node → Option Text
  | .scalar _ text => some text
  | .mapping _ pairs => standardText? pairs
  | _ => none

/-- The text of the value of the first standard key. -/
def standardText? : List (Node × Node) → Option Text
  | [] => none
  | (key, value) :: rest => if key.tag = .standard then scalarText? value else standardText? rest

end

mutual

/-- The pairs that are merged into a mapping, and its own ones. -/
def splitMerged : List (Node × Node) → Except Fault (List (Node × Node) × List (Node × Node))
  | [] => .ok ([], [])
  | (key, value) :: rest => do
    let (merged, own) ← splitMerged rest
    if key.tag = .merge then return ((← mergedPairs value) ++ merged, own)
    else return (merged, (key, value) :: own)

/-- The pairs of a mapping that is merged, or of several, the last one of them first. -/
def mergedPairs : Node → Except Fault (List (Node × Node))
  | .mapping _ pairs => do
    let (merged, own) ← splitMerged pairs
    return merged ++ own
  | .sequence _ items => mergedItems items
  | .enclosing _ => .ok []
  | .scalar _ _ => .error .malformed

/-- The pairs of several mappings, the last one first. -/
def mergedItems : List Node → Except Fault (List (Node × Node))
  | [] => .ok []
  | .mapping _ pairs :: rest => do
    let (merged, own) ← splitMerged pairs
    return (← mergedItems rest) ++ merged ++ own
  | .enclosing true :: rest => mergedItems rest
  | _ :: _ => .error .malformed

end

/-! ## Faults -/

/-- Looks at a node on its own: a collection is left for the next level. -/
def visit (node : Node) : Except Fault (List Node) :=
  match node with
  | .enclosing _ => .ok []
  | node =>
    if node.tag.isCollection then .ok [node]
    else if node.tag.isScalar then
      match node.scalarText? with
      | none => .error .malformed
      | some text =>
        match scalarFault node.tag text with
        | some fault => .error fault
        | none => .ok []
    else .error .malformed

/-- Looks at a key, which must be a scalar. -/
def visitKey (key : Node) : Except Fault Unit :=
  match key with
  | .scalar .standard _ => .ok ()
  | key => do
    let _ ← visit key
    if key.tag.isCollection then .error .malformed else .ok ()

/-- Looks at the keys and the values of pairs. -/
def visitPairs (pairs : List (Node × Node)) : Except Fault (List Node) := do
  return (← pairs.mapM fun (key, value) => do
    visitKey key
    visit value).flatten

/-- Looks at what is in a collection. -/
def visitContent : Node → Except Fault (List Node)
  | .enclosing _ => .ok []
  | .scalar _ _ => .error .malformed
  | .sequence tag items =>
    if tag = .list then do return (← items.mapM visit).flatten
    else if tag = .orderedMapping || tag = .pairs then do
      return (← items.mapM fun item =>
        match item with
        | .mapping _ [(key, value)] => do return (← visit key) ++ (← visit value)
        | _ => .error .malformed).flatten
    else .error .malformed
  | .mapping tag pairs =>
    if tag = .mapping || tag = .set then do
      let (merged, own) ← splitMerged pairs
      visitPairs (merged ++ own)
    else .error .malformed

/-- Looks at the collections of a level, and then at the levels below. -/
def visitLevels : Nat → List Node → Except Fault Unit
  | 0, _ => .ok ()
  | depth + 1, nodes => do
    let below ← nodes.mapM visitContent
    if below.flatten.isEmpty then return else visitLevels depth below.flatten

/-! ## Values -/

mutual

/-- The value of a node without faults. -/
def value : Node → Value
  | .scalar tag text =>
    if tag = .null then .null
    else if tag = .string || tag = .standard then .text text
    else .scalar tag text
  | .sequence _ items => .list (values items)
  | .mapping tag pairs =>
    if tag = .set then .set (mergedValues pairs ++ ownValues pairs)
    else if tag.isScalar then
      let text := (standardText? pairs).getD []
      if tag = .null then .null else if tag = .string then .text text else .scalar tag text
    else .mapping (mergedValues pairs ++ ownValues pairs)
  | .enclosing _ => .enclosing

/-- The values of several nodes. -/
def values : List Node → List Value
  | [] => []
  | node :: rest => value node :: values rest

/-- The values of the own pairs of a mapping. -/
def ownValues : List (Node × Node) → List (Value × Value)
  | [] => []
  | (key, node) :: rest =>
    if key.tag = .merge then ownValues rest else (value key, value node) :: ownValues rest

/-- The values of the pairs that are merged into a mapping. -/
def mergedValues : List (Node × Node) → List (Value × Value)
  | [] => []
  | (key, node) :: rest =>
    if key.tag = .merge then valuesOfMerged node ++ mergedValues rest else mergedValues rest

/-- The values of the pairs of what is merged. -/
def valuesOfMerged : Node → List (Value × Value)
  | .mapping _ pairs => mergedValues pairs ++ ownValues pairs
  | .sequence _ items => valuesOfItems items
  | _ => []

/-- The values of the pairs of several mappings, the last one first. -/
def valuesOfItems : List Node → List (Value × Value)
  | [] => []
  | node :: rest => valuesOfItems rest ++ valuesOfMerged node

end

end Node

/-- The value of a text; a text with nothing in it has the value null. -/
def Value.ofText (text : Text) : Except Fault Value := do
  match ← Node.ofText text with
  | none => return .null
  | some node =>
    Node.visitLevels (text.length + 1) (← node.visit)
    return node.value

/-- The value of the last pair of a mapping with this key. -/
def Value.member? (name : Text) : Value → Option Value
  | .mapping pairs =>
    (pairs.reverse.find? fun pair =>
      match pair.1 with
      | .text key => key = name
      | _ => false).map (·.2)
  | _ => none

/-- The texts of a list that holds nothing else. -/
def Value.texts? : Value → Option (List Text)
  | .list items => items.mapM fun item =>
    match item with
    | .text found => some found
    | _ => none
  | _ => none

/-! ## Faults in words -/

/-- A length of time in days and seconds. -/
def durationText (minutes : Int) : Text :=
  let seconds := minutes * 60
  let days := seconds / 86400
  let rest := seconds % 86400
  Text.concat ["datetime.timedelta(days=", Text.ofInt days,
    if rest = 0 then [] else Text.concat [", seconds=", Text.ofInt rest], ")"]

/-- The fault in words. -/
def Fault.message : Fault → Text
  | .malformed => "not well formed"
  | .noSuchCharacter => "chr() arg not in range(0x110000)"
  | .notWhole base text =>
    Text.concat ["invalid literal for int() with base ", Text.ofNat base, ": ", Text.quoted text]
  | .notReal text => Text.concat ["could not convert string to float: ", Text.quoted text]
  | .emptyNumber => "string index out of range"
  | .unknownBoolean text => Text.quoted text
  | .notATimestamp => "not a timestamp"
  | .yearOutOfRange year => Text.concat ["year ", Text.ofNat year, " is out of range"]
  | .monthOutOfRange => "month must be in 1..12"
  | .dayOutOfRange => "day is out of range for month"
  | .hourOutOfRange => "hour must be in 0..23"
  | .minuteOutOfRange => "minute must be in 0..59"
  | .secondOutOfRange => "second must be in 0..59"
  | .offsetOutOfRange minutes =>
    Text.concat ["offset must be a timedelta strictly between -timedelta(hours=24) and ",
      "timedelta(hours=24), not ", durationText minutes, "."]

end VerticalSlice.Yaml
