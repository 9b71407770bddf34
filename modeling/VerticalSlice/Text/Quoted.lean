import VerticalSlice.Text.Basic
import VerticalSlice.Text.Printable

/-!
# Quoted text

How a text is shown inside a message: between quotes, on one line, with everything invisible
written as an escape. The quotes are single unless the text holds a single quote and no double
one, so most texts need no escaped quote.
-/

namespace VerticalSlice.Text

/-- The low `width` hexadecimal digits of a number. -/
def hexDigits (width n : Nat) : Text :=
  ((List.range width).map fun place => Nat.digitChar (n / Nat.pow 16 place % 16)).reverse

/-- How one character is written between `quote`s. -/
def quotedChar (quote c : Char) : Text :=
  if c = quote || c = '\\' then ['\\', c]
  else if c = '\n' then ['\\', 'n']
  else if c = '\r' then ['\\', 'r']
  else if c = '\t' then ['\\', 't']
  else if isPrintable c then [c]
  else if c.toNat < 0x100 then '\\' :: 'x' :: hexDigits 2 c.toNat
  else if c.toNat < 0x10000 then '\\' :: 'u' :: hexDigits 4 c.toNat
  else '\\' :: 'U' :: hexDigits 8 c.toNat

/-- The quote that a text is put between. -/
def quoteFor (text : Text) : Char :=
  if text.contains '\'' && !text.contains '"' then '"' else '\''

/-- The text between its quotes. -/
def quoted (text : Text) : Text :=
  let quote := quoteFor text
  quote :: text.flatMap (quotedChar quote) ++ [quote]

end VerticalSlice.Text
