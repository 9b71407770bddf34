import VerticalSlice.Syntax.Grammar.Basic

/-!
# Types, parameters and names of properties

Types stand behind a colon, between angle brackets and on the right side of a type declaration.
Names in them are identifiers, and quoted literals are literals like any others; the keyword
`string` counts as a literal too. The levels of binding of the type operators are not told apart,
since no rule depends on them.
-/

namespace VerticalSlice.Syntax

namespace Rule

/-- The result or property type behind a colon, if there is one. -/
def typeBehindColon : Rule := ifNext ":" (wrap .phrase [mark ":", call .type])

/-- The value behind an equals sign, if there is one. -/
def initializer : Rule := ifNext "=" (both (mark "=") (call .assignment))

/-- The words from the list that stand in front of something else, at most `count` of them.
`follows` says what may come behind such a word for it to be a modifier and not a name. -/
def modifiers (words : List Text) (follows : Look) : Nat → Rule
  | 0 => nothing
  | count + 1 =>
    onlyIf (next.isAny words &&& .see second follows)
      (both (markAny words) (modifiers words follows count))

end Rule

/-- Can the token begin the name of a property? -/
def Look.beginsProperty : Look :=
  word ||| isSort .string ||| isSort .number ||| isSort .privateName ||| is ["["]

namespace Rule

/-- An expression in square brackets. -/
def bracketed : Rule := group .phrase "[" (listed (call .assignment)) "]"

/-- The name of a property: a word, a literal, or an expression in square brackets. -/
def propertyName : Rule :=
  firstOf [
    (next.is "[", bracketed),
    (next.isSort .string, stringLiteral),
    (next.isWord, takeName .word .propertyIdentifier)]
    (take (.isSort .number ||| .isSort .privateName) .phrase)

/-- A decorator in front of a class, a member or a parameter. -/
def decorator : Rule := wrap .phrase [mark "@", call .unary]

/-- The decorators that there are. -/
def decorators : Rule := whileTest (next.is "@") decorator

/-! ## Type parameters and arguments -/

/-- One type parameter with its bound and its default. -/
def typeParameter : Rule :=
  wrap .phrase [modifiers ["const", "in", "out"] .word 3, anyWord .typeIdentifier,
    ifNext "extends" (both (mark "extends") (call .type)),
    ifNext "=" (both (mark "=") (call .type))]

/-- Type parameters in angle brackets. -/
def typeParameters : Rule := list .phrase "<" typeParameter ">"

/-- Type arguments in angle brackets. -/
def typeArguments : Rule := list .phrase "<" (call .type) ">"

/-! ## Parameters -/

/-- One parameter of a function. -/
def parameter : Rule :=
  wrap .phrase [decorators,
    modifiers ["public", "private", "protected", "readonly", "override"]
      (.word ||| .is ["[", "\x7b", "..."]) 4,
    optionalMark "...",
    choose (next.is "this") (mark "this") (call .target),
    optionalMark "?", typeBehindColon, initializer]

/-- The parameters of a function. -/
def parameters : Rule := list .phrase "(" parameter ")"

/-- Type parameters, parameters and the type of the result. -/
def signature : Rule :=
  sequence [ifNext "<" typeParameters, parameters, typeBehindColon]

/-- An expression with three dots in front of it. -/
def spread : Rule := wrap .phrase [mark "...", call .assignment]

/-- The arguments of a call. -/
def callArguments : Rule :=
  list .phrase "(" (choose (next.is "...") spread (call .assignment)) ")"

/-! ## Object types -/

/-- An index with its type. -/
def indexSignature : Rule :=
  group .phrase "[" (both (anyWord .identifier) typeBehindColon) "]"

/-- The names that a mapped type runs over. -/
def mappedName : Rule :=
  group .phrase "["
    (sequence [anyWord .typeIdentifier, mark "in", call .type,
      ifNext "as" (both (mark "as") (call .type))])
    "]"

/-- A property between square brackets: an index, the names that a mapped type runs over, or an
expression. -/
def bracketedMember : Rule :=
  firstOf [
    ((Place.inside 0).isWord &&& (Place.inside 1).is ":", indexSignature),
    ((Place.inside 0).isWord &&& (Place.inside 1).is "in", mappedName)]
    bracketed

/-- One member of an object type. -/
def typeMember : Rule :=
  firstOf [
    (next.isAny ["(", "<"], signature),
    (next.is "new" &&& second.isAny ["(", "<"], both (mark "new") signature)]
    (sequence [
      onlyIf (next.isAny ["+", "-"]) (markAny ["+", "-"]),
      modifiers ["readonly", "get", "set"] .beginsProperty 3,
      choose (next.is "[") bracketedMember propertyName,
      onlyIf (next.isAny ["+", "-"]) (markAny ["+", "-"]),
      optionalMark "?",
      choose (next.isAny ["(", "<"]) signature typeBehindColon])

/-- The members of an object type or of an interface, in braces. -/
def objectType : Rule := group .phrase "\x7b" (members (wrap .phrase [typeMember])) "\x7d"

/-! ## Types -/

/-- An item of a tuple, with its label, its dots and its question mark. -/
def tupleItem : Rule :=
  wrap .phrase [optionalMark "...",
    onlyIf (next.isWord &&& (second.is ":" ||| (second.is "?" &&& third.is ":")))
      (sequence [anyWord .identifier, optionalMark "?", mark ":"]),
    call .type, optionalMark "?"]

/-- A call of `import` that gives a module. -/
def importCall : Rule :=
  wrap .callExpression [withRole .function (take (.is ["import"]) .importKeyword),
    withRole .arguments callArguments]

/-- A name and the members selected from it. -/
def selectedName (first rest : Kind) : Rule :=
  both (take .word first) (whileTest (next.is ".") (both (mark ".") (take .word rest)))

/-- A literal type between back quotes. -/
def templateType : Rule :=
  wrap .phrase [mark "`",
    many (next.is "`" ||| .atEnd)
      (choose (next.is "$\x7b") (group .phrase "$\x7b" (call .type) "\x7d")
        (takeSort .template .phrase)),
    mark "`"]

end Rule

/-- The types that are keywords or literals of their own. -/
def keywordTypes : List Text :=
  ["any", "number", "boolean", "symbol", "void", "unknown", "never", "object", "bigint", "null",
    "undefined", "true", "false", "this"]

namespace Rule

/-- A type without operators. -/
def primaryType : Rule :=
  firstOf [
    (next.isSort .string, stringLiteral),
    (next.isSort .number, takeSort .number .phrase),
    (next.is "-", wrap .phrase [mark "-", takeSort .number .phrase]),
    (next.is "`", templateType),
    (next.is "\x7b", objectType),
    (next.is "[", list .phrase "[" tupleItem "]"),
    (next.is "(", group .phrase "(" (call .type) ")"),
    (next.is "typeof",
      wrap .phrase [mark "typeof",
        choose (next.is "import") importCall (selectedName .identifier .propertyIdentifier),
        ifNext "<" typeArguments]),
    (next.is "import",
      wrap .phrase [importCall,
        whileTest (next.is ".") (both (mark ".") (anyWord .typeIdentifier)),
        ifNext "<" typeArguments]),
    (next.is "string", wrap .phrase [take (.is ["string"]) .string]),
    (next.isAny keywordTypes, markAny keywordTypes)]
    (wrap .phrase [selectedName .typeIdentifier .typeIdentifier, ifNext "<" typeArguments])

/-- The brackets of an array type or of an indexed type. -/
def typeIndex : Rule :=
  group .phrase "[" (choose (next.is "]") nothing (call .type)) "]"

/-- A type with the brackets behind it that make array types and indexed types of it. -/
def typeWithSuffixes : Rule :=
  scope [primaryType,
    whileTest (next.is "[" &&& ~~~next.isAfterBreak) (both typeIndex (fold .phrase))]

end Rule

/-- Can the token begin a type? -/
def Look.beginsType : Look := word ||| isSort .string ||| is ["(", "[", "\x7b", "`"]

namespace Rule

/-- A type with its prefixes and suffixes. -/
def typeOperand : Rule :=
  firstOf [
    (next.isAny ["keyof", "unique", "readonly"] &&& .see second .beginsType,
      wrap .phrase [markAny ["keyof", "unique", "readonly"], call .typeOperand]),
    (next.is "infer" &&& second.isWord, wrap .phrase [mark "infer", anyWord .typeIdentifier])]
    typeWithSuffixes

/-- Alternatives or intersections behind the first type. -/
def alternatives : Rule :=
  whileTest (next.isAny ["|", "&"]) (both (markAny ["|", "&"]) (call .typeOperand))

/-- Alternatives and intersections; the first may have a mark in front of it as well. -/
def unionType : Rule :=
  choose (next.isAny ["|", "&"])
    (wrap .phrase [markAny ["|", "&"], call .typeOperand, alternatives])
    (scope [call .typeOperand,
      onlyIf (next.isAny ["|", "&"]) (both alternatives (fold .phrase))])

/-- What makes a test or a condition of the type in front of it. -/
def typeCondition : Rule :=
  firstOf [
    (next.is "is" &&& ~~~next.isAfterBreak, sequence [mark "is", call .type, fold .phrase]),
    (next.is "extends",
      sequence [whileTest (next.is "extends") (both (mark "extends") unionType),
        ifNext "?" (sequence [mark "?", call .type, mark ":", call .type]), fold .phrase])]
    nothing

/-- A type: of a function, of a constructor, a test of a type, a condition, or a union. -/
def typeRule : Rule :=
  firstOf [
    (next.is "<", wrap .phrase [typeParameters, parameters, mark "=>", call .type]),
    (next.is "new" ||| (next.is "abstract" &&& second.is "new"),
      wrap .phrase [optionalMark "abstract", mark "new", ifNext "<" typeParameters, parameters,
        mark "=>", call .type]),
    (next.is "(" &&& (Place.behind 0).is "=>", wrap .phrase [parameters, mark "=>", call .type]),
    (next.is "asserts" &&& second.isWord &&& ~~~second.is "is" &&& ~~~second.isAfterBreak,
      wrap .phrase [mark "asserts", anyWord .identifier,
        ifNext "is" (both (mark "is") (call .type))])]
    (scope [unionType, typeCondition])

end Rule

end VerticalSlice.Syntax
