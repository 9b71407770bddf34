import VerticalSlice.Syntax.Grammar.Expression

/-!
# Statements

Declarations, imports, exports and the statements of functions. A word such as `type` or
`namespace` begins a declaration only where what follows fits; elsewhere it is a name.
-/

namespace VerticalSlice.Syntax

namespace Rule

/-- A block of statements in braces. -/
def blockRule : Rule := group .phrase "\x7b" (many (next.is "\x7d") (call .statement)) "\x7d"

/-! ## Variables -/

/-- A variable with its type and its value. -/
def declarator : Rule :=
  wrap .variableDeclarator [withRole .name declaredTarget, optionalMark "!", typeBehindColon,
    ifNext "=" (both (mark "=") (withRole .value (call .assignment)))]

/-- Variables, without the end of the statement. -/
def declarators : Rule := listed declarator

/-- A declaration of variables. -/
def variableRule (keyword : Text) (kind : Kind) : Rule :=
  wrap kind [mark keyword, declarators, semicolon]

/-! ## Imports and exports -/

/-- The module that a statement names. -/
def sourceModule : Rule := withRole .source stringLiteral

/-- The attributes of an import, in an object. -/
def importAttributes : Rule :=
  onlyIf (next.isAny ["with", "assert"] &&& second.is "\x7b")
    (both (markAny ["with", "assert"]) (call .assignment))

/-- The name of an import or export: a word or a quoted literal. -/
def specifierName : Rule :=
  firstOf [(next.isSort .string, stringLiteral), (next.is "default", mark "default")]
    (anyWord .identifier)

/-- One name in the braces of an import or export, perhaps with another name for it. -/
def specifier : Rule :=
  let renamed := second.is "as" &&&
    ~~~(third.isAny [",", "\x7d"] ||| (third.is "as" &&& fourth.isWord))
  wrap .phrase [
    onlyIf (next.is "type" &&& (second.isWord ||| second.isSort .string) &&& ~~~renamed)
      (mark "type"),
    specifierName, ifNext "as" (both (mark "as") specifierName)]

/-- The names in braces. -/
def specifiers : Rule := list .phrase "\x7b" specifier "\x7d"

/-- All names of a module under one name. -/
def wholeModule : Rule := wrap .phrase [mark "*", mark "as", specifierName]

/-- What an import brings in: a default name, all names, names in braces. -/
def importClause : Rule :=
  wrap .phrase [listed
    (firstOf [(next.is "*", wholeModule), (next.is "\x7b", specifiers)] (anyWord .identifier))]

/-- The right side of an import that names a namespace or requires a module. -/
def importedReference : Rule :=
  choose (next.is "require" &&& second.is "(")
    (wrap .phrase [mark "require", group .phrase "(" sourceModule ")"])
    (selectedName .identifier .identifier)

end Rule

/-- Does the word `type` behind `import` change its meaning, or is it the name that is imported? -/
def Test.importsType : Test :=
  next.isAny ["type", "typeof"] &&& ~~~second.isAny [",", "="] &&&
    (~~~second.is "from" ||| third.isAny ["from", ","])

namespace Rule

/-- What an import names behind its first words. -/
def importedNames : Rule :=
  choose (second.is "=")
    (sequence [anyWord .identifier, mark "=", importedReference, semicolon])
    (sequence [importClause, mark "from", sourceModule, importAttributes, semicolon])

/-- An import statement. -/
def importRule : Rule :=
  wrap .importStatement [mark "import",
    choose (next.isSort .string) (sequence [sourceModule, importAttributes, semicolon])
      (both (onlyIf .importsType (markAny ["type", "typeof"])) importedNames)]

/-- The module behind `from`. -/
def exportSource : Rule := sequence [mark "from", sourceModule, importAttributes]

/-- What stands behind `export default`. -/
def defaultExport : Rule :=
  firstOf [
    (next.is "function" ||| (next.is "async" &&& second.is "function" &&& ~~~second.isAfterBreak),
      functionRule),
    (next.isAny ["class", "@"] ||| (next.is "abstract" &&& second.is "class"),
      both decorators classRule),
    (next.is "interface" &&& second.isWord, call .statement)]
    (both (call .assignment) semicolon)

/-- What stands behind `export`. -/
def exported : Rule :=
  firstOf [
    (next.is "*" ||| (next.is "type" &&& second.is "*"),
      sequence [onlyIf (next.is "type") (mark "type"),
        choose (second.is "as") wholeModule (mark "*"), exportSource, semicolon]),
    (next.is "\x7b" ||| (next.is "type" &&& second.is "\x7b"),
      sequence [onlyIf (next.is "type") (mark "type"), specifiers, ifNext "from" exportSource,
        semicolon]),
    (next.is "default", both (mark "default") defaultExport),
    (next.is "=", sequence [mark "=", call .expression, semicolon]),
    (next.is "as" &&& second.is "namespace",
      sequence [mark "as", mark "namespace", anyWord .identifier, semicolon]),
    (next.is "import", call .statement)]
    (withRole .declaration (call .statement))

/-- An export statement. -/
def exportRule : Rule := wrap .exportStatement [mark "export", exported]

/-! ## Declarations -/

/-- An interface with the interfaces that it extends. -/
def interfaceRule : Rule :=
  wrap .phrase [mark "interface", anyWord .typeIdentifier, ifNext "<" typeParameters,
    ifNext "extends" (wrap .phrase [mark "extends", listed (call .type)]), objectType]

/-- A name for a type. -/
def typeAliasRule : Rule :=
  wrap .phrase [mark "type", anyWord .typeIdentifier, ifNext "<" typeParameters, mark "=",
    call .type, semicolon]

/-- A member of an enumeration with its value. -/
def enumMember : Rule := wrap .phrase [propertyName, initializer]

/-- An enumeration. -/
def enumRule : Rule :=
  wrap .phrase [optionalMark "const", mark "enum", anyWord .identifier,
    list .phrase "\x7b" enumMember "\x7d"]

/-- A namespace, or the declaration of a module or of the global names. -/
def namespaceRule : Rule :=
  wrap .phrase [markAny ["namespace", "module", "global"],
    firstOf [
      (next.isSort .string, stringLiteral),
      (next.isWord, selectedName .identifier .identifier)]
      nothing,
    choose (next.is "\x7b") (call .block) semicolon]

/-! ## Statements of functions -/

/-- A condition or another head in parentheses. -/
def inParentheses (rule : Rule) : Rule := group .phrase "(" rule ")"

/-- The head of a loop: the items of a collection, or a start, a condition and a step. A head such
as `name in object` has been taken as one expression. -/
def loopHead : Rule :=
  let unlessNext (spelling : Text) : Rule := choose (next.is spelling) nothing (call .expression)
  both
    (choose (next.isAny ["const", "let", "var"] &&& ~~~second.isAny ["of", "in", ";", "="])
      (wrap .phrase [markAny ["const", "let", "var"], declarators]) (unlessNext ";"))
    (firstOf [
      (next.isAny ["of", "in"], both (markAny ["of", "in"]) (call .expression)),
      (next.is ")", nothing)]
      (sequence [mark ";", unlessNext ";", mark ";", unlessNext ")"]))

/-- One branch of a switch. -/
def switchCase : Rule :=
  wrap .phrase [
    choose (next.is "case") (both (mark "case") (call .expression)) (mark "default"),
    mark ":", many (next.isAny ["case", "default", "\x7d"]) (call .statement)]

/-- A condition in parentheses. -/
def condition : Rule := inParentheses (call .expression)

/-- A statement that leaves its function with a value, if there is one. -/
def returnRule : Rule :=
  wrap .phrase [markAny ["return", "throw"],
    onlyIf (~~~next.isAfterBreak &&& ~~~next.isAny [";", "\x7d"]) (call .expression), semicolon]

/-- A statement that leaves or repeats a loop. -/
def breakRule : Rule :=
  wrap .phrase [markAny ["break", "continue"],
    onlyIf (~~~next.isAfterBreak &&& next.isWord) (anyWord .phrase), semicolon]

/-- A block with what is done when it fails and when it ends. -/
def tryRule : Rule :=
  wrap .phrase [mark "try", call .block,
    ifNext "catch" (sequence [mark "catch",
      ifNext "(" (inParentheses (both (call .target) typeBehindColon)), call .block]),
    ifNext "finally" (both (mark "finally") (call .block))]

/-- The statements that begin with a keyword of their own. -/
def controlRule : Rule :=
  firstOf [
    (next.is "if",
      wrap .phrase [mark "if", condition, call .statement,
        ifNext "else" (both (mark "else") (call .statement))]),
    (next.is "for",
      wrap .phrase [mark "for", optionalMark "await", inParentheses loopHead, call .statement]),
    (next.isAny ["while", "with"],
      wrap .phrase [markAny ["while", "with"], condition, call .statement]),
    (next.is "do",
      wrap .phrase [mark "do", call .statement, mark "while", condition, optionalMark ";"]),
    (next.is "switch",
      wrap .phrase [mark "switch", condition,
        group .phrase "\x7b" (many (next.is "\x7d") switchCase) "\x7d"]),
    (next.is "try", tryRule),
    (next.isAny ["return", "throw"], returnRule),
    (next.isAny ["break", "continue"], breakRule)]
    (wrap .phrase [mark "debugger", semicolon])

end Rule

/-- The keywords of `controlRule`. -/
def controlWords : List Text :=
  ["if", "for", "while", "with", "do", "switch", "try", "return", "throw", "break", "continue",
    "debugger"]

/-- Does a word on the same line come second? -/
def Test.wordFollows : Test := second.isWord &&& ~~~second.isAfterBreak

namespace Rule

/-- A statement that consists of an expression. -/
def expressionStatement : Rule := wrap .phrase [call .expression, semicolon]

/-- A statement that begins with a brace. What may be a label in a block as well as a key of an
object is a key if the whole statement can be read so. -/
def bracedStatement : Rule :=
  firstOf [
    ((Place.inside 1).is ":", either expressionStatement (call .block)),
    ((Place.inside 0).is "..." ||| (Place.inside 1).is ",",
      either (call .block) expressionStatement)]
    (call .block)

/-- A statement. -/
def statementRule : Rule :=
  firstOf [
    (next.is "\x7b", bracedStatement),
    (next.is ";", wrap .phrase [mark ";"]),
    (next.is "@", wrap .phrase [decorator, decorators, call .statement]),
    (next.is "import" &&& ~~~second.isAny ["(", "."], importRule),
    (next.is "export", exportRule),
    (next.isAny controlWords, controlRule),
    (next.isName &&& second.is ":", wrap .phrase [anyWord .phrase, mark ":", call .statement]),
    (next.is "const" &&& second.is "enum", enumRule),
    (next.is "const", variableRule "const" .lexicalDeclaration),
    (next.is "var", variableRule "var" .variableDeclaration),
    (next.is "let" &&& (second.isName ||| second.isAny ["[", "\x7b"]),
      variableRule "let" .lexicalDeclaration),
    (next.is "function" ||| (next.is "async" &&& second.is "function" &&& ~~~second.isAfterBreak),
      functionRule),
    (next.is "class" ||| (next.is "abstract" &&& second.is "class"), classRule),
    (next.is "interface" &&& .wordFollows, interfaceRule),
    (next.is "type" &&& .wordFollows, typeAliasRule),
    (next.is "enum", enumRule),
    (next.isAny ["namespace", "module"] &&& (second.isWord ||| second.isSort .string) &&&
        ~~~second.isAfterBreak,
      namespaceRule),
    (next.is "global" &&& second.is "\x7b", namespaceRule),
    (next.is "declare" &&& .wordFollows, wrap .phrase [mark "declare", call .statement])]
    expressionStatement

end Rule

end VerticalSlice.Syntax
