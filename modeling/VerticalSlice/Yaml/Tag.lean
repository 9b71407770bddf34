import VerticalSlice.Yaml.Cursor

/-!
# Tags

Every node of a YAML text has a tag, which says what it stands for. A scalar without quotes that has
none written in front of it gets one by its spelling: `no` is a truth value, `0x1F` and `12:30` are
whole numbers, `1e3` is a text, because a number needs a point before its exponent.
-/

namespace VerticalSlice.Yaml

/-- What a node stands for. -/
inductive Tag
  | null
  | boolean
  | whole
  | real
  | binary
  | timestamp
  | string
  | list
  | mapping
  | set
  | orderedMapping
  | pairs
  /-- The key whose value is a mapping to be merged into the one around it. -/
  | merge
  /-- The key of the value that a mapping stands for where a scalar is wanted. -/
  | standard
  /-- Any other tag. -/
  | foreign
deriving DecidableEq, Repr

namespace Tag

/-- The beginning of the names of the common tags. -/
def commonStart : Text := "tag:yaml.org,2002:"

/-- The common tags by the rest of their names. -/
def commonNames : List (Text × Tag) :=
  [("null", .null), ("bool", .boolean), ("int", .whole), ("float", .real), ("binary", .binary),
    ("timestamp", .timestamp), ("str", .string), ("seq", .list), ("map", .mapping), ("set", .set),
    ("omap", .orderedMapping), ("pairs", .pairs), ("merge", .merge), ("value", .standard)]

/-- The tag with this name. -/
def ofName (name : Text) : Tag :=
  if commonStart.isPrefixOf name then
    (commonNames.lookup (name.drop commonStart.length)).getD .foreign
  else .foreign

/-! ## Spellings -/

/-- The text without a sign in front. -/
def unsigned : Text → Text
  | '+' :: rest => rest
  | '-' :: rest => rest
  | text => text

/-- Is the text not empty and made of these characters only? -/
def isRun (accept : Char → Bool) (text : Text) : Bool := text ≠ [] && text.all accept

def isBinaryDigit (c : Char) : Bool := c == '0' || c == '1' || c == '_'

def isOctalDigit (c : Char) : Bool := ('0' ≤ c && c ≤ '7') || c == '_'

def isDecimalDigit (c : Char) : Bool := c.isDigit || c == '_'

def isHexDigit (c : Char) : Bool := (Text.hexValue? c).isSome || c == '_'

/-- Is the text a number below sixty, in one digit or two? -/
def isSixtieth : Text → Bool
  | [a] => a.isDigit
  | [a, b] => '0' ≤ a && a ≤ '5' && b.isDigit
  | _ => false

/-- Do pieces with colons between them write a number to the base of sixty, when the first piece
begins with a digit that `leads` accepts? -/
def isSexagesimal (leads : Char → Bool) (text : Text) : Bool :=
  match Text.splitOn ':' text with
  | (c :: first) :: second :: more =>
    leads c && first.all isDecimalDigit && (second :: more).all isSixtieth
  | _ => false

/-- Is the digit not zero? -/
def isLeading (c : Char) : Bool := '1' ≤ c && c ≤ '9'

/-- Does the text write a whole number? -/
def isWhole (text : Text) : Bool :=
  let number := unsigned text
  match number with
  | '0' :: 'b' :: digits => isRun isBinaryDigit digits
  | '0' :: 'x' :: digits => isRun isHexDigit digits
  | ['0'] => true
  | '0' :: digits => isRun isOctalDigit digits
  | c :: digits =>
    (isLeading c && digits.all isDecimalDigit) || isSexagesimal isLeading number
  | [] => false

/-- Is the text an exponent with its sign, or nothing? -/
def isExponent : Text → Bool
  | [] => true
  | e :: sign :: digits =>
    (e == 'e' || e == 'E') && (sign == '+' || sign == '-') && isRun Char.isDigit digits
  | _ => false

/-- Does the text write a number with a point? -/
def isReal (text : Text) : Bool :=
  let number := unsigned text
  let before := number.takeWhile (· ≠ '.')
  let after := (number.drop before.length).drop 1
  let fraction := after.takeWhile isDecimalDigit
  let rest := after.drop fraction.length
  if !number.contains '.' then false
  else
    match before with
    | [] =>
      [".inf".toList, ".Inf".toList, ".INF".toList].contains number ||
        (text = number &&
          ([".nan".toList, ".NaN".toList, ".NAN".toList].contains number ||
            (fraction.head?.any Char.isDigit && isExponent rest)))
    | c :: _ =>
      (c.isDigit && before.all isDecimalDigit && isExponent rest) ||
        (isSexagesimal Char.isDigit before && rest = [])

/-! ## Timestamps -/

/-- A day, and a time of day with its distance from universal time in minutes, if they are
given. -/
structure Moment where
  year : Nat
  month : Nat
  day : Nat
  time : Option (Nat × Nat × Nat)
  offset : Option Int
deriving DecidableEq, Repr

/-- The number that digits write. -/
def number (digits : Text) : Nat :=
  digits.foldl (fun number digit => number * 10 + (digit.toNat - '0'.toNat)) 0

/-- Between `least` and `most` digits from the front of a text, as many as there are. -/
def takeDigits (least most : Nat) (text : Text) : Option (Nat × Text) :=
  let digits := (text.take most).takeWhile Char.isDigit
  if least ≤ digits.length then some (number digits, text.drop digits.length) else none

/-- The text behind the character, if it begins with it. -/
def after (c : Char) : Text → Option Text
  | [] => none
  | d :: rest => if d = c then some rest else none

def skipSpaces (text : Text) : Text := text.dropWhile fun c => c == ' ' || c == '\t'

/-- The distance from universal time at the end of a timestamp, none if nothing is left. -/
def offset? (text : Text) : Option (Option Int) :=
  match skipSpaces text with
  | [] => if text = [] then some none else none
  | ['Z'] => some (some 0)
  | sign :: rest =>
    if sign == '+' || sign == '-' then do
      let (hours, rest) ← takeDigits 1 2 rest
      let (minutes, rest) ←
        match rest with
        | ':' :: rest => takeDigits 2 2 rest
        | rest => some (0, rest)
      if rest = [] then
        let distance : Int := hours * 60 + minutes
        some (some (if sign == '-' then -distance else distance))
      else none
    else none

/-- The time of day behind the day. -/
def time? (text : Text) : Option ((Nat × Nat × Nat) × Option Int) := do
  let rest ←
    match text with
    | 'T' :: rest | 't' :: rest => some rest
    | c :: _ => if c == ' ' || c == '\t' then some (skipSpaces text) else none
    | [] => none
  let (hour, rest) ← takeDigits 1 2 rest
  let (minute, rest) ← takeDigits 2 2 (← after ':' rest)
  let (second, rest) ← takeDigits 2 2 (← after ':' rest)
  let rest :=
    match rest with
    | '.' :: fraction => fraction.dropWhile Char.isDigit
    | rest => rest
  return ((hour, minute, second), ← offset? rest)

/-- The moment that a text writes. -/
def moment? (text : Text) : Option Moment := do
  let (year, rest) ← takeDigits 4 4 text
  let (month, rest) ← takeDigits 1 2 (← after '-' rest)
  let (day, rest) ← takeDigits 1 2 (← after '-' rest)
  if rest = [] then return ⟨year, month, day, none, none⟩
  let (time, offset) ← time? rest
  return ⟨year, month, day, some time, offset⟩

/-- Does the text write a moment? A day that stands alone is written with all ten characters. -/
def isTimestamp (text : Text) : Bool :=
  match moment? text with
  | some moment => moment.time.isSome || text.length = 10
  | none => false

/-! ## The tag of a spelling -/

/-- The spellings of the truth values, in small letters. -/
def booleanWords : List (Text × Bool) :=
  [("yes", true), ("no", false), ("true", true), ("false", false), ("on", true), ("off", false)]

/-- Is the text the word, in small letters, with a capital one in front, or in capitals? -/
def isCased (word text : Text) : Bool :=
  text = word || text = word.map Char.toUpper ||
    text = (word.take 1).map Char.toUpper ++ word.drop 1

/-- The tag of a scalar that is written without quotes and without a tag. -/
def ofPlain (text : Text) : Tag :=
  if booleanWords.any fun word => isCased word.1 text then .boolean
  else if isReal text then .real
  else if isWhole text then .whole
  else if text = "<<" then .merge
  else if text = [] || text = "~" || isCased "null" text then .null
  else if isTimestamp text then .timestamp
  else if text = "=" then .standard
  else if text = "!" || text = "&" || text = "*" then .foreign
  else .string

end Tag

end VerticalSlice.Yaml
