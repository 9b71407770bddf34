import VerticalSlice.Syntax.Token

/-!
# Cutting a source text into lexemes

The text is cut from left to right. What a character begins depends on where it stands: a slash
begins a regular expression where an operand is wanted and is a division behind one, a closing
brace may end a block or go back into a template, and between the tags of markup almost everything
is plain text. The state of the cutting holds just that: the constructs that are open, and whether
an operand has just ended.

`lexemes_flatten` says that nothing is lost.
-/

namespace VerticalSlice.Syntax

/-! ## Classes of characters -/

/-- The marks that cannot stand inside a name. -/
def markChars : Text := ":;`\"'@#.,|^&<=>+-*/\\%?!~()[]\x7b\x7d"

/-- May the character stand in a name? Everything may but controls, blanks and marks. -/
def isNameChar (c : Char) : Bool :=
  c.isAlphanum || c == '_' || c == '$' ||
    (0x20 < c.toNat && !isSpace c && c.toNat != 0x7f && !markChars.contains c)

/-- May the character begin a name? -/
def isNameStart (c : Char) : Bool := isNameChar c && !c.isDigit

/-! ## Runs of characters

Each function gives the length of the run at the front of the text. -/

/-- A `\u` escape of a name, with four digits or with digits in braces. -/
def nameEscapeLength (text : Text) : Nat :=
  match text with
  | '\\' :: 'u' :: '\x7b' :: rest =>
    let digits := (rest.takeWhile Char.isAlphanum).length
    if (rest.drop digits).head? = some '\x7d' then digits + 4 else 0
  | '\\' :: 'u' :: rest => if ((rest.take 4).all Char.isAlphanum) && 4 ≤ rest.length then 6 else 0
  | _ => 0

/-- A name, with escapes in it; `skip` characters belong to an escape. -/
def nameLengthFrom (skip : Nat) : Text → Nat
  | [] => 0
  | c :: rest =>
    match skip with
    | skip + 1 => nameLengthFrom skip rest + 1
    | 0 =>
      if isNameChar c then nameLengthFrom 0 rest + 1
      else
        match nameEscapeLength (c :: rest) with
        | 0 => 0
        | length + 1 => nameLengthFrom length rest + 1

/-- A name that may hold escapes. -/
def nameLength (text : Text) : Nat := nameLengthFrom 0 text

/-- The inside of a quoted literal and its closing quote. A backslash takes the next character with
it. Nothing is found when the line or the text ends before the quote comes. -/
def quotedLength? (quote : Char) (multiline escaped : Bool) : Text → Option Nat
  | [] => none
  | c :: rest =>
    if escaped then (quotedLength? quote multiline false rest).map (· + 1)
    else if c = quote then some 1
    else if c = '\\' then (quotedLength? quote multiline true rest).map (· + 1)
    else if c = '\n' && !multiline then none
    else (quotedLength? quote multiline false rest).map (· + 1)

/-- The inside of a regular expression, its closing slash and its flags. A slash between square
brackets does not close it. -/
def regexLength? (inClass escaped : Bool) : Text → Option Nat
  | [] => none
  | c :: rest =>
    if c = '\n' then none
    else if escaped then (regexLength? inClass false rest).map (· + 1)
    else if c = '\\' then (regexLength? inClass true rest).map (· + 1)
    else if c = '[' then (regexLength? true false rest).map (· + 1)
    else if c = ']' then (regexLength? false false rest).map (· + 1)
    else if c = '/' && !inClass then some (1 + (rest.takeWhile Char.isAlpha).length)
    else (regexLength? inClass false rest).map (· + 1)

/-- The inside of a block comment and its end; an unclosed comment goes to the end of the text. -/
def blockCommentLength : Text → Nat
  | [] => 0
  | '*' :: '/' :: _ => 2
  | _ :: rest => blockCommentLength rest + 1

/-- The rest of a line. -/
def lineLength (text : Text) : Nat :=
  (text.takeWhile fun c => c ≠ '\n' && c ≠ '\r' && !isLineBreak c).length

/-- The characters of a template up to its closing back quote or to a substitution. -/
def templateLength (escaped : Bool) : Text → Nat
  | [] => 0
  | c :: rest =>
    if escaped then templateLength false rest + 1
    else if c = '\\' then templateLength true rest + 1
    else if c = '`' || (c = '$' && rest.head? = some '\x7b') then 0
    else templateLength false rest + 1

/-- Digits, letters and separators of a number. -/
def digitsLength (text : Text) : Nat := (text.takeWhile fun c => c.isAlphanum || c == '_').length

/-- The point and the digits of a fraction. -/
def fractionLength : Text → Nat
  | '.' :: rest => 1 + digitsLength rest
  | _ => 0

/-- The sign and the digits of an exponent, when the digits before it end in the letter for it. -/
def exponentLength (before rest : Text) : Nat :=
  match before.getLast?, rest with
  | some e, sign :: digits =>
    if (e = 'e' || e = 'E') && (sign = '+' || sign = '-') && digits.head?.any Char.isDigit then
      1 + digitsLength digits
    else 0
  | _, _ => 0

/-- A number: digits, a fraction and an exponent, or digits of another base. -/
def numberLength (text : Text) : Nat :=
  match text with
  | '0' :: base :: _ =>
    if base.isAlpha then digitsLength text else plain text
  | _ => plain text
where
  /-- A decimal number. -/
  plain (text : Text) : Nat :=
    let whole := digitsLength text
    let length := whole + fractionLength (text.drop whole)
    length + exponentLength (text.take length) (text.drop length)

/-- The marks of several characters, longer ones before their beginnings. Marks that begin with
`>` are cut into single characters, because the closing brackets of types stand side by side. -/
def longMarks : List Text :=
  ["...", "===", "!==", "**=", "<<=", "&&=", "||=", "??=", "=>", "==", "!=", "**", "++", "--", "+=",
    "-=", "*=", "/=", "%=", "&=", "|=", "^=", "<<", "<=", "&&", "||", "??", "?."]

/-- The length of the mark at the front of the text. A question mark and a point in front of a
digit are two marks. -/
def markLength (text : Text) : Nat :=
  match text with
  | '?' :: '.' :: c :: _ =>
    if c.isDigit then 1 else 2
  | _ =>
    match longMarks.find? (·.isPrefixOf text) with
    | some long => long.length
    | none => 1

/-! ## The state -/

/-- A construct that is open. -/
inductive Context
  /-- Parentheses; behind the head of a statement no operand has ended. -/
  | parentheses (head : Bool)
  | brackets
  /-- Braces; those of an object end an operand, those of a block do not. -/
  | braces (object : Bool)
  /-- A template, between its back quotes. -/
  | template
  /-- An expression inside a template. -/
  | substitution
  /-- A tag of markup, opening or closing. -/
  | tag (closing : Bool)
  /-- The contents between two tags. -/
  | contents
deriving DecidableEq, Repr

/-- The constructs that are open, innermost first, whether an operand has just ended, and the last
token that is no comment. -/
structure LexState where
  stack : List Context
  operandEnded : Bool
  last : Text
deriving DecidableEq, Repr

/-- The state before anything is read. -/
def LexState.start : LexState := ⟨[], false, []⟩

/-- Words behind which an operand is wanted. -/
def operatorWords : List Text :=
  ["return", "typeof", "instanceof", "in", "of", "new", "delete", "void", "throw", "case", "do",
    "else", "yield", "await", "default", "extends"]

/-- Words whose parentheses are the head of a statement. -/
def headWords : List Text := ["if", "while", "for", "with"]

/-- Does a brace behind this token open a block, where an operand is wanted? -/
def opensBlock (last : Text) : Bool :=
  (["", ";", "\x7b", "\x7d", "=>", ")", "else", "do", "try", "finally"] : List Text).contains last

/-- The state behind a word. A word behind a point is a property, whatever it spells. -/
def LexState.afterWord (state : LexState) (word : Text) : LexState :=
  let property := state.last = ['.'] || state.last = ['?', '.']
  { state with operandEnded := property || !operatorWords.contains word, last := word }

/-- The state behind a token that ends an operand. -/
def LexState.afterOperand (state : LexState) (text : Text) : LexState :=
  { state with operandEnded := true, last := text }

/-- The state behind a mark. -/
def LexState.afterMark (state : LexState) (mark : Text) : LexState :=
  let wanted : LexState := { state with operandEnded := false, last := mark }
  match mark with
  | ['('] => { wanted with stack := .parentheses (headWords.contains state.last) :: state.stack }
  | ['['] => { wanted with stack := .brackets :: state.stack }
  | ['\x7b'] =>
    { wanted with
      stack := .braces (!state.operandEnded && !opensBlock state.last) :: state.stack }
  | [')'] =>
    match state.stack with
    | .parentheses head :: stack => ⟨stack, !head, mark⟩
    | _ => { wanted with operandEnded := true }
  | [']'] =>
    match state.stack with
    | .brackets :: stack => ⟨stack, true, mark⟩
    | _ => { wanted with operandEnded := true }
  | ['\x7d'] =>
    match state.stack with
    | .braces object :: stack => ⟨stack, object, mark⟩
    | .substitution :: stack => ⟨stack, false, mark⟩
    | _ => wanted
  | ['+', '+'] | ['-', '-'] | ['!'] => { wanted with operandEnded := state.operandEnded }
  | _ => wanted

/-! ## One lexeme -/

/-- A token's class, its length and the state behind it. -/
abbrev Cut := TokenClass × Nat × LexState

/-- Does markup begin with the `<` at the front of the text? A list of type parameters in front of
an arrow function does not. -/
def opensMarkup : Text → Bool
  | '<' :: rest =>
    match rest with
    | '>' :: _ => true
    | c :: _ =>
      isNameStart c &&
        let after := (rest.drop (nameLength rest)).dropWhile isSpace
        !(after.head? = some ',' || "extends ".toList.isPrefixOf after)
    | [] => false
  | _ => false

/-- Cuts the token of code that begins with the character `c`, unless that character alone says what
it begins. `markup` says that the dialect has markup. -/
def cutBegunWith (markup : Bool) (state : LexState) (c : Char) (rest : Text) : Cut :=
  if c = '"' || c = '\'' then
    match quotedLength? c false false rest with
    | some length => (.string, length + 1, state.afterOperand [c])
    | none => (.unknown, 1, state)
  else if c.isDigit || (c = '.' && (rest.head?.any Char.isDigit)) then
    (.number, max 1 (numberLength (c :: rest)), state.afterOperand ['0'])
  else if 0 < nameLength (c :: rest) then
    let length := nameLength (c :: rest)
    (.word, length, state.afterWord ((c :: rest).take length))
  else if markup && !state.operandEnded && opensMarkup (c :: rest) then
    (.mark, 1, { state with stack := .tag false :: state.stack, last := ['<'] })
  else
    match (if c = '/' && !state.operandEnded then regexLength? false false rest else none) with
    | some length => (.regex, length + 1, state.afterOperand ['/'])
    | none =>
      let length := markLength (c :: rest)
      (.mark, length, state.afterMark ((c :: rest).take length))

/-- Cuts the token at the front of a text of code that does not begin with a blank. -/
def cutCode (markup : Bool) (state : LexState) (text : Text) : Cut :=
  match text with
  | '/' :: '/' :: rest => (.comment, 2 + lineLength rest, state)
  | '/' :: '*' :: rest => (.comment, 2 + blockCommentLength rest, state)
  | '`' :: _ => (.mark, 1, { state with stack := .template :: state.stack, last := ['`'] })
  | '#' :: '!' :: rest =>
    if state = .start then (.comment, 2 + lineLength rest, state) else (.unknown, 1, state)
  | '#' :: rest => (.privateName, 1 + nameLength rest, state.afterOperand ['#'])
  | c :: rest => cutBegunWith markup state c rest
  | [] => (.unknown, 0, state)

/-- Cuts a piece of a template: its characters, its closing back quote or the opening of a
substitution. -/
def cutTemplate (state : LexState) (text : Text) : Cut :=
  match templateLength false text with
  | 0 =>
    match text with
    | '`' :: _ => (.mark, 1, ⟨state.stack.drop 1, true, ['`']⟩)
    | _ => (.mark, 2, ⟨.substitution :: state.stack, false, ['$', '\x7b']⟩)
  | length => (.template, length, state)

/-- Cuts the contents between two tags: plain text, an opening brace or the start of a tag. -/
def cutContents (state : LexState) (text : Text) : Cut :=
  match (text.takeWhile fun c => c ≠ '<' && c ≠ '\x7b').length with
  | 0 =>
    match text with
    | '<' :: '/' :: _ => (.mark, 1, ⟨.tag true :: state.stack.drop 1, false, ['<']⟩)
    | '<' :: _ => (.mark, 1, ⟨.tag false :: state.stack, false, ['<']⟩)
    | _ => (.mark, 1, ⟨.braces false :: state.stack, false, ['\x7b']⟩)
  | length => (.markup, length, state)

/-- Cuts a token of a tag: a name, a quoted value or a mark. The end of an opening tag opens the
contents; the end of a closing one, or of one without contents, ends the element. -/
def cutTag (state : LexState) (closing : Bool) (text : Text) : Cut :=
  let outer := state.stack.drop 1
  match text with
  | '/' :: '/' :: rest => (.comment, 2 + lineLength rest, state)
  | '/' :: '*' :: rest => (.comment, 2 + blockCommentLength rest, state)
  | '>' :: _ =>
    if closing || state.last = ['/'] then (.mark, 1, ⟨outer, true, ['>']⟩)
    else (.mark, 1, ⟨.contents :: outer, false, ['>']⟩)
  | '\x7b' :: _ => (.mark, 1, ⟨.braces false :: state.stack, false, ['\x7b']⟩)
  | c :: rest =>
    if c = '"' || c = '\'' then
      if rest.contains c then
        (.string, (rest.takeWhile (· ≠ c)).length + 2, { state with last := [c] })
      else (.unknown, 1, state)
    else
      match (text.takeWhile fun c => isNameChar c || c == '-').length with
      | 0 => (.mark, 1, { state with last := [c] })
      | length => (.word, length, { state with last := text.take length })
  | [] => (.unknown, 0, state)

/-- Where the text of a construct goes on without blanks between its parts. -/
def keepsBlanks : List Context → Bool
  | .template :: _ => true
  | .contents :: _ => true
  | _ => false

/-- Cuts the token at the front of the text, in the construct that is open. -/
def cut (markup : Bool) (state : LexState) (text : Text) : Cut :=
  match state.stack with
  | .template :: _ => cutTemplate state text
  | .contents :: _ => cutContents state text
  | .tag closing :: _ => cutTag state closing text
  | _ => cutCode markup state text

/-! ## The whole text -/

/-- The blanks in front of the next lexeme. -/
def leadingBlanks (stack : List Context) (text : Text) : Text :=
  if keepsBlanks stack then [] else text.takeWhile isSpace

/-- The lexemes of the text from a state on. Every lexeme takes at least one character, but for an
empty comment at the end that carries the last blanks. -/
def lexemesFrom (markup : Bool) (state : LexState) (text : Text) : List Lexeme :=
  let blanks := leadingBlanks state.stack text
  match h : text.drop blanks.length with
  | [] => if blanks = [] then [] else [⟨.comment, blanks, []⟩]
  | c :: rest =>
    let (sort, length, after) := cut markup state (c :: rest)
    have : (rest.drop (length - 1)).length < text.length := by
      have hlength := congrArg List.length h
      simp only [List.length_drop, List.length_cons] at hlength ⊢
      omega
    ⟨sort, blanks, c :: rest.take (length - 1)⟩ ::
      lexemesFrom markup after (rest.drop (length - 1))
termination_by text.length
decreasing_by exact this

/-- The lexemes of a text. -/
def lexemes (markup : Bool) (text : Text) : List Lexeme := lexemesFrom markup .start text

theorem takeWhile_append_drop (p : Char → Bool) (text : Text) :
    text.takeWhile p ++ text.drop (text.takeWhile p).length = text := by
  induction text with
  | nil => rfl
  | cons c rest ih => by_cases h : p c = true <;> simp [h, ih]

theorem leadingBlanks_append_drop (stack : List Context) (text : Text) :
    leadingBlanks stack text ++ text.drop (leadingBlanks stack text).length = text := by
  unfold leadingBlanks
  split
  · simp
  · exact takeWhile_append_drop isSpace text

/-- The lexemes with their blanks make up the text. -/
theorem lexemesFrom_flatten (markup : Bool) (state : LexState) (text : Text) :
    (lexemesFrom markup state text).flatMap (fun l => l.blanks ++ l.text) = text := by
  fun_induction lexemesFrom markup state text with
  | case1 state text blanks h hblanks =>
    have := leadingBlanks_append_drop state.stack text
    simp_all [blanks]
  | case2 state text blanks h hblanks =>
    have := leadingBlanks_append_drop state.stack text
    simp only [blanks] at h
    rw [h] at this
    simpa using this
  | case3 state text blanks c rest h sort length after hcut _ ih =>
    have := leadingBlanks_append_drop state.stack text
    simp only [blanks] at h
    rw [h] at this
    simp only [List.flatMap_cons, ih, List.append_assoc, List.cons_append, List.take_append_drop]
    exact this

theorem lexemes_flatten (markup : Bool) (text : Text) :
    (lexemes markup text).flatMap (fun l => l.blanks ++ l.text) = text :=
  lexemesFrom_flatten markup .start text

end VerticalSlice.Syntax
