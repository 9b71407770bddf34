import VerticalSlice.Syntax.Grammar.Statement

/-!
# Elements of markup

In the dialect with markup an element can stand where an operand is wanted: tags with attributes,
and between them text, expressions in braces and further elements.
-/

namespace VerticalSlice.Syntax

namespace Rule

/-- An expression in braces, which may be empty or spread. -/
def bracedExpression : Rule :=
  group .phrase "\x7b"
    (both (optionalMark "...") (choose (next.is "\x7d") nothing (call .expression))) "\x7d"

/-- The name of an element: a word, perhaps with a name space or members. -/
def elementName : Rule :=
  both (anyWord .identifier)
    (whileTest (next.isAny [".", ":"])
      (both (markAny [".", ":"]) (anyWord .propertyIdentifier)))

/-- The value of an attribute. -/
def attributeValue : Rule :=
  firstOf [(next.is "\x7b", bracedExpression), (next.is "<", call .element)] stringLiteral

/-- An attribute: a name with or without a value, or an expression in braces. -/
def elementAttribute : Rule :=
  choose (next.is "\x7b") bracedExpression
    (wrap .phrase [anyWord .propertyIdentifier,
      ifNext ":" (both (mark ":") (anyWord .propertyIdentifier)),
      ifNext "=" (both (mark "=") attributeValue)])

/-- What stands between two tags. -/
def content : Rule :=
  firstOf [(next.is "\x7b", bracedExpression), (next.is "<", call .element)]
    (takeSort .markup .phrase)

/-- The name of an element, unless it is a fragment, which has none. -/
def optionalName : Rule := onlyIf next.isWord elementName

/-- An element with its tags, or without contents. -/
def elementRule : Rule :=
  wrap .phrase [mark "<", optionalName, many (next.isAny [">", "/"]) elementAttribute,
    choose (next.is "/") (both (mark "/") (mark ">"))
      (sequence [mark ">", many (next.is "<" &&& second.is "/") content, mark "<", mark "/",
        optionalName, mark ">"])]

/-- A program: statements up to the end. -/
def programRule : Rule := many .atEnd (call .statement)

end Rule

/-- A rule for every symbol. -/
abbrev Grammar := Symbol → Rule

/-- The grammar of a dialect; `markup` says that it has markup. -/
def grammar (markup : Bool) : Grammar
  | .statement => .statementRule
  | .block => .blockRule
  | .expression => .expressionRule
  | .assignment => .assignmentRule
  | .unary => .unaryRule markup
  | .type => .typeRule
  | .typeOperand => .typeOperand
  | .target => .targetRule
  | .element => .elementRule

end VerticalSlice.Syntax
