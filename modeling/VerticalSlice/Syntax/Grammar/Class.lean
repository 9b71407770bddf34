import VerticalSlice.Syntax.Grammar.Type

/-!
# Targets and classes

A target is what a value is bound to: a name, or a pattern that takes an array or an object apart.
The members of a class are methods, fields, accessors, index signatures and static blocks.
-/

namespace VerticalSlice.Syntax.Rule

/-! ## Targets -/

/-- An item of a pattern: a nested pattern or anything that can be assigned to, with a default. -/
def patternItem : Rule :=
  choose (next.isAny ["[", "\x7b"] &&& (Place.behind 0).isAny [",", "]", "\x7d", ")", "="])
    (both (call .target) initializer) (call .assignment)

/-- A place in a pattern for an array; it may be empty. -/
def patternPlace : Rule :=
  choose (next.is ",") nothing (wrap .phrase [optionalMark "...", patternItem])

/-- A pattern for an array. -/
def arrayPattern : Rule := list .phrase "[" patternPlace "]"

/-- A property in a pattern: the rest of the object, a property bound to an item, or a name that is
property and target in one. -/
def patternProperty : Rule :=
  firstOf [
    (next.is "...", wrap .phrase [mark "...", patternItem]),
    (next.isWord &&& ~~~second.is ":", wrap .phrase [bareName .phrase, initializer])]
    (wrap .phrase [propertyName, mark ":", patternItem])

/-- A pattern for an object. -/
def objectPattern : Rule := list .phrase "\x7b" patternProperty "\x7d"

/-- A name or a pattern. -/
def targetRule : Rule :=
  firstOf [(next.is "[", arrayPattern), (next.is "\x7b", objectPattern)]
    (takeName .name .identifier)

/-- What a declaration binds: a pattern, or a name as a plain leaf. -/
def declaredTarget : Rule :=
  choose (next.isAny ["[", "\x7b"]) (call .target) (bareName .identifier)

/-! ## Classes -/

/-- The words in front of a member. -/
def memberModifiers : List Text :=
  ["public", "private", "protected", "static", "readonly", "abstract", "override", "declare",
    "accessor", "async", "get", "set"]

/-- The block of a function, or the end of a statement where only its signature is given. -/
def functionBody : Rule := choose (next.is "\x7b") (call .block) semicolon

/-- A member behind its decorators and modifiers: a method or a field. -/
def classMemberRest : Rule :=
  sequence [optionalMark "*",
    choose (next.is "[" &&& (Place.inside 0).isWord &&& (Place.inside 1).is ":")
      bracketedMember propertyName,
    optionalMark "?", optionalMark "!",
    choose (next.isAny ["(", "<"]) (both signature functionBody)
      (sequence [typeBehindColon, initializer, semicolon])]

/-- One member of a class. -/
def classMember : Rule :=
  choose (next.is ";") (mark ";")
    (wrap .phrase [decorators,
      choose (next.is "static" &&& second.is "\x7b") (both (mark "static") (call .block))
        (both (modifiers memberModifiers (.beginsProperty ||| .is ["*"]) 8) classMemberRest)])

/-- The members of a class, in braces. -/
def classBody : Rule := group .phrase "\x7b" (many (next.is "\x7d") classMember) "\x7d"

/-- The class that is extended, and the interfaces that are implemented. -/
def classHeritage : Rule :=
  both (ifNext "extends" (wrap .phrase [mark "extends", call .unary, ifNext "<" typeArguments]))
    (ifNext "implements" (wrap .phrase [mark "implements", listed (call .type)]))

/-- A class, with or without a name. -/
def classRule : Rule :=
  wrap .phrase [optionalMark "abstract", mark "class",
    onlyIf (next.isWord &&& ~~~next.isAny ["extends", "implements"]) (anyWord .typeIdentifier),
    ifNext "<" typeParameters, classHeritage, classBody]

/-- A function, with or without a name. -/
def functionRule : Rule :=
  wrap .phrase [optionalMark "async", mark "function", optionalMark "*",
    onlyIf next.isWord (anyWord .identifier), signature, functionBody]

end VerticalSlice.Syntax.Rule
