import VerticalSlice.Syntax.Grammar.Class

/-!
# Expressions

The operators of an expression are not sorted by how tightly they bind: operands and operators
stand side by side in one phrase. What counts is which literals, names, arrays, objects and calls
there are, which of them are direct values, and what a call calls.
-/

namespace VerticalSlice.Syntax

namespace Rule

/-! ## Arrays, objects and templates -/

/-- A place in an array; it may be empty. -/
def arrayPlace : Rule :=
  firstOf [(next.is ",", nothing), (next.is "...", spread)] (call .assignment)

/-- An array. -/
def arrayRule : Rule := list .array "[" arrayPlace "]"

/-- A property of an object: a pair, a method or accessor, a name that is key and value in one, or
a spread. -/
def objectProperty : Rule :=
  firstOf [
    (next.is "...", spread),
    (next.is "*" ||| (next.isAny ["get", "set", "async"] &&&
        (.see second .beginsProperty ||| second.is "*")),
      wrap .phrase [onlyIf (~~~next.is "*") (markAny ["get", "set", "async"]), optionalMark "*",
        propertyName, signature, call .block]),
    (next.isName &&& second.isAny [",", "\x7d"], takeName .name .shorthandPropertyIdentifier)]
    (scope [withRole .key propertyName,
      choose (next.is ":")
        (sequence [mark ":", withRole .value (call .assignment), fold .pair])
        (sequence [signature, call .block, fold .phrase])])

/-- An object. -/
def objectRule : Rule := list .object "\x7b" objectProperty "\x7d"

/-- A template between back quotes. -/
def templateRule : Rule :=
  wrap .templateString [mark "`",
    many (next.is "`" ||| .atEnd)
      (choose (next.is "$\x7b") (group .phrase "$\x7b" (call .expression) "\x7d")
        (takeSort .template .phrase)),
    mark "`"]

end Rule

/-! ## Operands -/

/-- The words that are operands of their own. -/
def operandWords : List Text := ["this", "super", "null", "true", "false", "undefined"]

namespace Rule

/-- An operand without prefixes and suffixes. Brackets in front of an equals sign are a pattern. -/
def primary : Rule :=
  firstOf [
    (next.isSort .string, stringLiteral),
    (next.isSort .number, takeSort .number .phrase),
    (next.isSort .regex, takeSort .regex .phrase),
    (next.isSort .privateName, takeSort .privateName .phrase),
    (next.is "`", templateRule),
    (next.is "(", group .phrase "(" (call .expression) ")"),
    (next.is "[",
      choose ((Place.behind 0).isAny ["=", "of"]) (call .target) arrayRule),
    (next.is "\x7b",
      choose ((Place.behind 0).isAny ["=", "of"]) (call .target) objectRule),
    (next.isAny operandWords, take (.is operandWords) .phrase),
    (next.is "function" ||| (next.is "async" &&& second.is "function" &&& ~~~second.isAfterBreak),
      functionRule),
    (next.is "class" ||| (next.is "abstract" &&& second.is "class"), classRule),
    (next.is "@", wrap .phrase [decorators, classRule]),
    (next.is "new",
      choose (second.is ".") (wrap .phrase [mark "new", mark ".", anyWord .mark])
        (wrap .phrase [mark "new", call .unary])),
    (next.is "import",
      choose (second.is ".") (wrap .phrase [mark "import", mark ".", anyWord .mark])
        (take (.is ["import"]) .importKeyword))]
    (takeName .name .identifier)

/-- The name of a member behind a point. -/
def memberName : Rule :=
  choose (next.isSort .privateName) (takeSort .privateName .phrase) (anyWord .propertyIdentifier)

/-- The arguments of a call of all that has been built in this place. -/
def callWith (arguments : Rule) : Rule :=
  sequence [role .function, withRole .arguments arguments, fold .callExpression]

/-- What comes behind the mark of an optional member, index or call. -/
def optionalSuffix : Rule :=
  firstOf [
    (next.is "(", callWith callArguments),
    (next.is "<", both typeArguments (callWith callArguments)),
    (next.is "[", both bracketed (fold .phrase))]
    (both memberName (fold .phrase))

end Rule

/-- Can the token come behind the type arguments of a name that is not called? -/
def Look.endsInstantiation : Look :=
  afterBreak |||
    is [")", "]", "\x7d", ",", ";", ":", ".", "?.", "=", "==", "===", "!=", "!==", "&&", "||",
      "??", "?", "|", "&"]

/-- Are there type arguments to come, and not a comparison? Then a call comes behind them, or the
end of the operand. -/
def Test.typeArguments : Test :=
  next.is "<" &&& .see .behindTypes (.is ["(", "`"] ||| .endsInstantiation)

/-- Does a member, an index, a call or another suffix of an operand come next? -/
def Test.suffix : Test :=
  next.isAny [".", "?.", "[", "(", "`"] |||
    (next.isAny ["!", "++", "--"] &&& ~~~next.isAfterBreak) ||| typeArguments

namespace Rule

/-- A suffix of the operand that has been built in this place. -/
def suffix : Rule :=
  firstOf [
    (next.is ".", sequence [mark ".", memberName, fold .phrase]),
    (next.is "?.", both (mark "?.") optionalSuffix),
    (next.is "[", both bracketed (fold .phrase)),
    (next.is "(", callWith callArguments),
    (next.is "`", callWith templateRule),
    (next.is "<",
      both typeArguments (firstOf [
        (next.is "(", callWith callArguments),
        (next.is "`", callWith templateRule)]
        (fold .phrase)))]
    (both (markAny ["!", "++", "--"]) (fold .phrase))

end Rule

/-- Can the token begin an operand? What comes behind `await` decides whether it is an operator. -/
def Look.beginsOperand : Look :=
  word ||| is ["(", "[", "\x7b", "`", "!", "+", "-", "<"] ||| isSort .string ||| isSort .number |||
    isSort .regex

namespace Rule

/-- The marks and words in front of an operand. -/
def prefixes : List Text := ["!", "~", "+", "-", "++", "--", "typeof", "void", "delete"]

/-- An operand with its prefixes. `markup` says that the dialect has markup. -/
def unaryRule (markup : Bool) : Rule :=
  firstOf [
    (next.isAny prefixes, wrap .phrase [markAny prefixes, call .unary]),
    (next.is "await" &&& .see second .beginsOperand, wrap .phrase [mark "await", call .unary]),
    (next.is "<",
      if markup then call .element
      else wrap .phrase [mark "<", call .type, mark ">", call .unary])]
    (scope [primary, whileTest .suffix suffix])

/-! ## Operators -/

/-- The operators between two operands. -/
def binaryOperators : List Text :=
  ["+", "-", "*", "/", "%", "**", "==", "!=", "===", "!==", "<", "<=", "<<", "&", "|", "^", "&&",
    "||", "??", "instanceof", "in"]

/-- The marks that follow a closing angle bracket without a blank and belong to the operator. -/
def angleRest : Rule :=
  whileTest (next.isAny [">", "="] &&& .see next .glued) (markAny [">", "="])

end Rule

/-- Does an operator behind an operand come next? -/
def Test.operator : Test :=
  next.isAny Rule.binaryOperators ||| next.is ">" |||
    (next.isAny ["as", "satisfies"] &&& ~~~next.isAfterBreak)

namespace Rule

/-- An operator and what stands behind it. -/
def operation : Rule :=
  firstOf [
    (next.isAny binaryOperators, both (markAny binaryOperators) (call .unary)),
    (next.is ">", sequence [mark ">", angleRest, call .unary])]
    (both (markAny ["as", "satisfies"]) (choose (next.is "const") (mark "const") (call .type)))

/-- Operands with operators between them. -/
def operationRule : Rule :=
  scope [call .unary, onlyIf .operator (both (whileTest .operator operation) (fold .phrase))]

/-! ## Arrow functions, conditionals and assignments -/

/-- What an arrow function gives: a block or an expression. -/
def arrowBody : Rule :=
  both (mark "=>") (choose (next.is "\x7b") (call .block) (call .assignment))

/-- An arrow function with its parameters in parentheses. -/
def arrowFunction : Rule :=
  wrap .phrase [optionalMark "async", ifNext "<" typeParameters, parameters, typeBehindColon,
    arrowBody]

/-- An arrow function with one parameter that stands alone. -/
def shortArrowFunction : Rule := wrap .phrase [takeName .name .identifier, arrowBody]

/-- The operators that assign. -/
def assignmentOperators : List Text :=
  ["=", "+=", "-=", "*=", "/=", "%=", "**=", "<<=", "&=", "|=", "^=", "&&=", "||=", "??="]

/-- A conditional, an assignment, or what stands in front of one. -/
def plainAssignment : Rule :=
  scope [operationRule,
    firstOf [
      (next.is "?",
        sequence [mark "?", call .assignment, mark ":", call .assignment, fold .phrase]),
      (next.isAny assignmentOperators,
        sequence [markAny assignmentOperators, call .assignment, fold .phrase])]
      nothing]

/-- A value that is handed out, if there is one. -/
def yieldRule : Rule :=
  wrap .phrase [mark "yield", optionalMark "*",
    onlyIf (~~~next.isAfterBreak &&& ~~~next.isAny [")", "]", "\x7d", ",", ";", ":"])
      (call .assignment)]

end Rule

/-- Is the next token the word `async` in front of something on its line? -/
def Test.async : Test := next.is "async" &&& ~~~second.isAfterBreak

namespace Rule

/-- An expression without commas. Where a type comes behind parentheses, they may be the parameters
of an arrow function, or else an operand in front of the colon of a conditional. -/
def assignmentRule : Rule :=
  firstOf [
    (next.isName &&& second.is "=>", shortArrowFunction),
    (.async &&& second.isName &&& third.is "=>",
      wrap .phrase [mark "async", takeName .name .identifier, arrowBody]),
    (next.is "(" &&& (Place.behind 0).is "=>", arrowFunction),
    (next.is "(" &&& (Place.behind 0).is ":", either arrowFunction plainAssignment),
    (.async &&& second.is "(" &&& (Place.behind 1).is "=>", arrowFunction),
    (.async &&& second.is "(" &&& (Place.behind 1).is ":", either arrowFunction plainAssignment),
    (next.is "<" ||| (.async &&& second.is "<"), either arrowFunction plainAssignment),
    (next.is "yield", yieldRule)]
    plainAssignment

/-- An expression, with commas. -/
def expressionRule : Rule := wrap .phrase [listed (call .assignment)]

end Rule

end VerticalSlice.Syntax
