import VerticalSlice.Text.Basic

/-!
# Tokens

A source text is a row of tokens. Each token keeps the blanks in front of it, so the tokens put
together again are the text. Whether a line break stands before a token matters, because it can end
a statement; comments are tokens too, and are looked through where only that question is asked.
-/

namespace VerticalSlice.Syntax

/-- What a token is, as far as its characters tell. A mark is punctuation or an operator, the
delimiters of templates included; `template` and `markup` are runs of plain text between marks. -/
inductive TokenClass
  | word
  | privateName
  | number
  | string
  | regex
  | template
  | mark
  | comment
  | markup
  | unknown
deriving DecidableEq, Repr

/-- A token without its place: its class, the blanks in front of it and its characters. -/
structure Lexeme where
  sort : TokenClass
  blanks : Text
  text : Text
deriving DecidableEq, Repr

/-- A token at its place: the offset and the line, from 1, of its first character, and whether a
line break stands between it and the last token that is no comment. -/
structure Token where
  sort : TokenClass
  blanks : Text
  text : Text
  offset : Nat
  line : Nat
  afterBreak : Bool
deriving DecidableEq, Repr

/-- White space of any script, and the characters without width that stand for none. -/
def isSpace (c : Char) : Bool :=
  let n := c.toNat
  (9 ≤ n && n ≤ 13) || n == 32 || n == 0x85 || n == 0xa0 || n == 0x1680 ||
    (0x2000 ≤ n && n ≤ 0x200b) || n == 0x2028 || n == 0x2029 || n == 0x202f || n == 0x205f ||
    n == 0x2060 || n == 0x3000 || n == 0xfeff

/-- Does the character end a line, as far as statements are concerned? -/
def isLineBreak (c : Char) : Bool := c == '\n' || c == '\u2028' || c == '\u2029'

/-- Gives each lexeme its place: `offset` and `line` are those of the first character, and `broken`
says that a line break came since the last token that is no comment. -/
def placeFrom (offset line : Nat) (broken : Bool) : List Lexeme → List Token
  | [] => []
  | lexeme :: rest =>
    let start := offset + lexeme.blanks.length
    let startLine := line + lexeme.blanks.count '\n'
    let afterBreak := broken || lexeme.blanks.any isLineBreak
    let nextBroken := lexeme.sort == .comment && (afterBreak || lexeme.text.any isLineBreak)
    ⟨lexeme.sort, lexeme.blanks, lexeme.text, start, startLine, afterBreak⟩ ::
      placeFrom (start + lexeme.text.length) (startLine + lexeme.text.count '\n') nextBroken rest

/-- Gives each lexeme its place in the text that they make up. -/
def place (lexemes : List Lexeme) : List Token := placeFrom 0 1 false lexemes

/-- Placing changes no lexeme. -/
theorem map_placeFrom (offset line : Nat) (broken : Bool) (lexemes : List Lexeme) :
    (placeFrom offset line broken lexemes).map (fun t => Lexeme.mk t.sort t.blanks t.text) =
      lexemes := by
  induction lexemes generalizing offset line broken with
  | nil => rfl
  | cons lexeme rest ih => simp [placeFrom, ih]

end VerticalSlice.Syntax
