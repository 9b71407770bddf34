/-!
# Texts

A text is the list of its characters. Everything that is read, compared, cut or put together is
such a list; strings appear only where the program meets the outside.
-/

namespace VerticalSlice

/-- A sequence of Unicode characters. -/
abbrev Text := List Char

instance : Coe String Text := ⟨String.toList⟩

namespace Text

/-- The pieces one after the other. -/
def concat (pieces : List Text) : Text := pieces.flatten

/-- A number in decimal digits. -/
def ofNat (n : Nat) : Text := Nat.toDigits 10 n

/-- A whole number in decimal digits, with a minus sign if it is negative. -/
def ofInt (n : Int) : Text := if n < 0 then '-' :: ofNat n.natAbs else ofNat n.natAbs

/-- The value of a hexadecimal digit. -/
def hexValue? (c : Char) : Option Nat :=
  if '0' ≤ c && c ≤ '9' then some (c.toNat - '0'.toNat)
  else if 'a' ≤ c && c ≤ 'f' then some (c.toNat - 'a'.toNat + 10)
  else if 'A' ≤ c && c ≤ 'F' then some (c.toNat - 'A'.toNat + 10)
  else none

/-- The order of names: by the code point of the first character that differs. -/
def le (a b : Text) : Bool := decide (List.le a b)

/-- What is said of every character of a text is found out by going through the text. -/
theorem forall_mem {text : Text} {p : Char → Prop} [DecidablePred p]
    (h : (text.all fun c => decide (p c)) = true) : ∀ c ∈ text, p c := fun c hc =>
  of_decide_eq_true (List.all_eq_true.1 h c hc)

end Text

end VerticalSlice
