import VerticalSlice.Syntax.Build
import VerticalSlice.Syntax.Lexeme

/-!
# Reading a source text into its tree

The text is cut into tokens, the comments are set aside, and the first reading of the rest as a
program says how the tree is built.

A text that is no program still has a tree. If it becomes a program when a pair of braces behind a
comma is passed over, so that an object spills into the one around it, it has the tree of that
program; otherwise its tokens stand side by side.
-/

namespace VerticalSlice.Syntax

/-- The nodes of a program, if the tokens make up one. -/
def programNodes? (markup : Bool) (tokens : List Token) : Option (List Node) :=
  let (items, last) := items tokens
  (program? markup (views items)).map fun steps =>
    build steps items ++ last.map (Node.leaf .comment)

/-- Is the token the word or mark that is spelled like this? -/
def Token.is (token : Token) (spelling : Text) : Bool :=
  (token.sort == .mark || token.sort == .word) && token.text == spelling

/-- Does the token open a bracket of any kind? -/
def Token.opens (token : Token) : Bool := (View.ofToken false token).opens

/-- Does the token close a bracket of any kind? -/
def Token.closes (token : Token) : Bool := (View.ofToken false token).closes

/-- Can the word be the name of a value? -/
def Token.isName (token : Token) : Bool := Look.name.fits (View.ofToken false token)

/-- The leaf that a token is when it stands on its own. -/
def looseLeaf (token : Token) : Node :=
  match token.sort with
  | .word => if token.isName then Node.leaf .identifier token else Node.leaf .mark token
  | .string => Node.leaf .string token
  | .comment => Node.leaf .comment token
  | .mark => Node.leaf .mark token
  | _ => Node.leaf .phrase token

/-! ## Texts that are no programs -/

/-- The token as one that rules look through. -/
def Token.passedOver (token : Token) : Token := { token with sort := .comment }

/-- The tokens with the bracket passed over that closes the last of the open ones. -/
def passOverClosing (depth : Nat) : List Token → List Token
  | [] => []
  | token :: rest =>
    if token.opens then token :: passOverClosing (depth + 1) rest
    else if token.closes then
      match depth with
      | 0 => token.passedOver :: rest
      | depth + 1 => token :: passOverClosing depth rest
    else token :: passOverClosing depth rest

/-- Every way to pass over a pair of braces that stands behind a comma. `behindComma` says that the
last token that is no comment is a comma. -/
def withoutBraces (behindComma : Bool) : List Token → List (List Token)
  | [] => []
  | token :: rest =>
    let later := (withoutBraces (if token.isComment then behindComma else token.is ",") rest).map
      (token :: ·)
    if behindComma && token.is "\x7b" then (token.passedOver :: passOverClosing 0 rest) :: later
    else later

/-- The nodes of a text that is no program. -/
def repaired (markup : Bool) (tokens : List Token) : List Node :=
  ((withoutBraces false tokens).findSome? (programNodes? markup)).getD (tokens.map looseLeaf)

/-- A tree and whether its text is a program. -/
structure SyntaxTree where
  root : Node
  isProgram : Bool

namespace SyntaxTree

/-- The tokens of a text. -/
def tokens (markup : Bool) (text : Text) : List Token := place (lexemes markup text)

/-- The tree of a text in a dialect. -/
def ofTokens (markup : Bool) (tokens : List Token) : SyntaxTree :=
  match programNodes? markup tokens with
  | some nodes => ⟨Node.branch .program nodes, true⟩
  | none => ⟨Node.branch .program (repaired markup tokens), false⟩

/-- The dialect with markup is chosen by the extension of a file name. -/
def hasMarkup (extension : Text) : Bool := extension = ".tsx"

/-- The tree of a text in the dialect that belongs to the extension. -/
def ofText (text : Text) (extension : Text) : SyntaxTree :=
  let markup := hasMarkup extension
  ofTokens markup (tokens markup text)

end SyntaxTree

end VerticalSlice.Syntax
