import VerticalSlice.Syntax.Token

/-!
# What rules see of a source text

Rules do not look at tokens as they are. They see of each token its class, its spelling if some rule
asks for it, and how it stands to the token before it; two texts that look the same are read the
same way, whatever their names and literals are. Comments are not seen at all: they go with the
token behind them, as an `Item`.
-/

namespace VerticalSlice.Syntax

/-! ## Views -/

/-- What a rule sees of a token. `sign` is the spelling of a mark, or of a word that means something
to some rule; `afterBreak` says that a line break stands in front of the token, and `glued` that no
blank does. -/
structure View where
  sort : TokenClass
  sign : Text
  afterBreak : Bool
  glued : Bool
deriving DecidableEq, Repr

/-- The words that cannot be names of values. -/
def reservedWords : List Text :=
  List.append
    ["break", "case", "catch", "class", "const", "continue", "debugger", "default", "delete", "do",
      "else", "enum", "export", "extends", "false", "finally", "for", "function"]
    ["if", "import", "in", "instanceof", "new", "null", "return", "super", "switch", "this",
      "throw", "true", "try", "typeof", "var", "void", "while", "with"]

/-- The words that mean something in some places and may be names in others. -/
def contextualWords : List Text :=
  List.append
    ["abstract", "accessor", "any", "as", "assert", "asserts", "async", "await", "bigint",
      "boolean", "declare", "from", "get", "global", "implements", "infer", "interface", "is",
      "keyof", "let", "module", "namespace", "never", "number"]
    ["object", "of", "out", "override", "private", "protected", "public", "readonly", "require",
      "satisfies", "set", "static", "string", "symbol", "type", "undefined", "unique", "unknown",
      "yield"]

/-- The words that rules ask for. -/
def knownWords : List Text := reservedWords ++ contextualWords

namespace View

/-- Stands for the token behind the last one. -/
def finish : View := ⟨.unknown, [], true, true⟩

/-- Stands for a token where there is none to be looked at. -/
def hidden : View := ⟨.unknown, [], false, false⟩

/-- Does the token open a bracket of any kind? -/
def opens (view : View) : Bool :=
  (["(", "[", "\x7b", "$\x7b"] : List Text).contains view.sign

/-- Does the token close a bracket of any kind? -/
def closes (view : View) : Bool := ([")", "]", "\x7d"] : List Text).contains view.sign

def isComma (view : View) : Bool := view.sign = [',']

/-- Is something that stands apart from it begun behind the token? Behind a comma or an opening
bracket a new item begins. -/
def beginsItem (view : View) : Bool := view.isComma || view.opens

/-- Commas and brackets, which hold the other tokens together. -/
def isStructural (view : View) : Bool := view.isComma || view.opens || view.closes

/-- The spelling that rules may ask for. -/
def signOf (token : Token) : Text :=
  match token.sort with
  | .mark => token.text
  | .word => if knownWords.contains token.text then token.text else []
  | _ => []

/-- The view of a token. `apart` says that a new item begins with it, so that it makes no difference
how far it stands from the token before. -/
def ofToken (apart : Bool) (token : Token) : View :=
  { sort := token.sort
    sign := signOf token
    afterBreak := token.afterBreak && !apart
    glued := token.blanks.isEmpty && !apart }

end View

/-! ## Items -/

def Token.isComment (token : Token) : Bool := token.sort == .comment

/-- A token that is no comment, with the comments in front of it. -/
structure Item where
  comments : List Token
  token : Token
deriving DecidableEq, Repr

/-- The tokens with the comments in front of each, and the comments behind the last one. `waiting`
are the comments since the last token. -/
def itemsFrom (waiting : List Token) : List Token → List Item × List Token
  | [] => ([], waiting)
  | token :: rest =>
    if token.isComment then itemsFrom (waiting ++ [token]) rest
    else
      let (items, last) := itemsFrom [] rest
      (⟨waiting, token⟩ :: items, last)

/-- The items of a row of tokens, and the comments at its end. -/
def items (tokens : List Token) : List Item × List Token := itemsFrom [] tokens

/-- The views of items; `apart` says that a new item of the text begins with the first of them. -/
def viewsFrom (apart : Bool) : List Item → List View
  | [] => []
  | item :: rest =>
    let view := View.ofToken apart item.token
    view :: viewsFrom view.beginsItem rest

/-- What rules see of a row of items. -/
def views (items : List Item) : List View := viewsFrom false items

theorem length_viewsFrom (apart : Bool) (items : List Item) :
    (viewsFrom apart items).length = items.length := by
  induction items generalizing apart with
  | nil => rfl
  | cons item rest ih => rw [viewsFrom, List.length_cons, ih, List.length_cons]

end VerticalSlice.Syntax
