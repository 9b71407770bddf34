import VerticalSlice.Syntax.Node
import VerticalSlice.Syntax.View

/-!
# Grammar rules

A grammar is data: a rule says how views may follow one another and which nodes are built from the
tokens that they belong to. Brackets and the commas of lists are part of the few rules that hold
other rules together, and no rule takes them on their own; so what stands in brackets is read by one
rule, and an item of a list by another.

A rule looks ahead to choose between others. It never looks past a comma or into brackets, but it may
look at what stands behind them.

Rules refer to one another in circles. A circle is cut at a `Symbol`, which stands for a rule.
-/

namespace VerticalSlice.Syntax

/-- The symbols at which the circles of the grammar are cut. -/
inductive Symbol
  | statement
  | block
  /-- An expression, with commas. -/
  | expression
  /-- An expression without commas. -/
  | assignment
  | unary
  | type
  | typeOperand
  /-- What a value is bound to: a name, or a pattern of names. -/
  | target
  /-- An element of markup. -/
  | element
deriving DecidableEq, Repr

/-! ## Looking ahead -/

/-- What a token may look like. -/
inductive Look
  /-- It is one of these words or marks. -/
  | is (spellings : List Text)
  | isSort (sort : TokenClass)
  | afterBreak
  | glued
  | not (look : Look)
  | and (first second : Look)
  | or (first second : Look)
deriving DecidableEq, Repr

namespace Look

instance : AndOp Look := ⟨and⟩
instance : OrOp Look := ⟨or⟩
instance : Complement Look := ⟨not⟩

/-- Does the token look like this? -/
def fits (view : View) : Look → Bool
  | is spellings => spellings.contains view.sign
  | isSort sort => view.sort == sort
  | afterBreak => view.afterBreak
  | glued => view.glued
  | not look => !look.fits view
  | and first second => first.fits view && second.fits view
  | or first second => first.fits view || second.fits view

def word : Look := isSort .word

/-- Can the word be the name of a value? -/
def name : Look := word &&& ~~~is reservedWords

end Look

/-- Where a rule looks. -/
inductive Place
  /-- The token with `count` others before it. -/
  | next (count : Nat)
  /-- The token with `count` others before it behind an opening bracket. -/
  | inside (count : Nat)
  /-- The token behind the brackets that open with the token that has `count` others before it. -/
  | behind (count : Nat)
  /-- The token behind type arguments in angle brackets. -/
  | behindTypes
deriving DecidableEq, Repr

/-- What a rule may ask about the tokens to come. -/
inductive Test
  | see (place : Place) (look : Look)
  /-- There is no token left. -/
  | atEnd
  | not (test : Test)
  | and (first second : Test)
  | or (first second : Test)
deriving DecidableEq, Repr

namespace Test

instance : AndOp Test := ⟨and⟩
instance : OrOp Test := ⟨or⟩
instance : Complement Test := ⟨not⟩

end Test

namespace Place

/-- Is the token there one of these words or marks? -/
def isAny (place : Place) (spellings : List Text) : Test := .see place (.is spellings)

/-- Is the token there this word or mark? -/
def is (place : Place) (spelling : Text) : Test := .see place (.is [spelling])

def isSort (place : Place) (sort : TokenClass) : Test := .see place (.isSort sort)

def isWord (place : Place) : Test := .see place .word

def isName (place : Place) : Test := .see place .name

def isAfterBreak (place : Place) : Test := .see place .afterBreak

end Place

/-- The next token. -/
def next : Place := .next 0

/-- The token behind the next one. -/
def second : Place := .next 1

def third : Place := .next 2

def fourth : Place := .next 3

/-! ## Rules -/

/-- How views follow one another, and what is built from them. -/
inductive Rule
  | nothing
  | failure
  /-- One token that looks like this, as a leaf of this kind. -/
  | take (look : Look) (kind : Kind)
  /-- A node of this kind: a rule between an opening and a closing mark. -/
  | group (kind : Kind) (opening : Text) (inside : Rule) (closing : Text)
  /-- The items of a node of this kind up to the closing mark, with commas between them; a comma may
  follow the last one. -/
  | items (kind : Kind) (item : Rule) (closing : Text)
  /-- One item or more with commas between neighbours. -/
  | listed (item : Rule)
  /-- Members up to a closing brace, each with a separator behind it or a place where it may be left
  out. -/
  | members (item : Rule)
  | both (first second : Rule)
  | choose (test : Test) (yes no : Rule)
  /-- The first rule, or the second where what follows does not fit behind the first. -/
  | either (first second : Rule)
  /-- The rule again and again until the test holds. -/
  | many (stop : Test) (rule : Rule)
  /-- What the rule builds, in one node if there is a kind for it. -/
  | node (kind : Option Kind) (rule : Rule)
  /-- One node around all that the rule in which this stands has built so far. -/
  | fold (kind : Kind)
  /-- The first node that the rule in which this stands has built gets the role. -/
  | role (role : Role)
  | call (symbol : Symbol)
deriving Repr

namespace Rule

/-- The rules one after the other. -/
def sequence : List Rule → Rule
  | [] => nothing
  | [rule] => rule
  | rule :: rules => both rule (sequence rules)

/-- The rules one after the other, with the nodes in one node of this kind. -/
def wrap (kind : Kind) (rules : List Rule) : Rule := node (some kind) (sequence rules)

/-- The rules one after the other, as the place that `fold` and `role` mean. -/
def scope (rules : List Rule) : Rule := node none (sequence rules)

/-- The rule of the first test that holds, else the last rule. -/
def firstOf : List (Test × Rule) → Rule → Rule
  | [], last => last
  | (test, rule) :: cases, last => choose test rule (firstOf cases last)

/-- The rule if the test holds, else nothing. -/
def onlyIf (test : Test) (rule : Rule) : Rule := choose test rule nothing

/-- The rule if the next token is spelled like this, else nothing. -/
def ifNext (spelling : Text) (rule : Rule) : Rule := onlyIf (next.is spelling) rule

/-- Takes the word or mark that is spelled like this. -/
def mark (spelling : Text) : Rule := take (.is [spelling]) .mark

/-- Takes one of these words or marks. -/
def markAny (spellings : List Text) : Rule := take (.is spellings) .mark

/-- Takes a token of this class, as a leaf of this kind. -/
def takeSort (sort : TokenClass) (kind : Kind) : Rule := take (.isSort sort) kind

/-- Takes a quoted literal. -/
def stringLiteral : Rule := takeSort .string .string

/-- The mark if it comes next, else nothing. -/
def optionalMark (spelling : Text) : Rule := ifNext spelling (mark spelling)

/-- A list in brackets. -/
def list (kind : Kind) (opening : Text) (item : Rule) (closing : Text) : Rule :=
  group kind opening (items kind item closing) closing

/-- The rule again and again as long as the test holds. -/
def whileTest (test : Test) (rule : Rule) : Rule := many (~~~test) rule

/-- The rule with its result in this role. -/
def withRole (role : Role) (rule : Rule) : Rule := scope [rule, .role role]

/-! ## Names -/

/-- Takes a word that looks like this as a name of this kind; the word `string` in the place of a
name also counts as the keyword of the type. -/
def takeName (look : Look) (kind : Kind) : Rule :=
  choose (next.is "string") (wrap kind [take (look &&& .is ["string"]) .string]) (take look kind)

/-- Takes the name of a value as a plain leaf. -/
def bareName (kind : Kind) : Rule := take .name kind

/-- Takes any word as a plain leaf. -/
def anyWord (kind : Kind) : Rule := take .word kind

/-- The end of a statement: a semicolon, or a place where one may be left out. -/
def semicolon : Rule :=
  firstOf [(next.is ";", mark ";"), (next.is "\x7d" ||| next.isAfterBreak, nothing)] failure

end Rule

end VerticalSlice.Syntax
