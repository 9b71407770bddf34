import VerticalSlice.Decimal.Shortest

/-!
# How a real number is written

Numbers with a fraction or an exponent are written with the fewest digits that read back. From
`10 ^ -4` up to `10 ^ 16` the digits stand around the point, with `.0` behind a whole number;
outside that range the exponent follows an `e`, with its sign and at least two digits.
-/

namespace VerticalSlice.Decimal

/-- The finite numbers, by their sign and their magnitude, and the special values. -/
inductive Real64
  | notANumber
  | infinite (negative : Bool)
  | zero (negative : Bool)
  | finite (negative : Bool) (magnitude : Binary)

/-- Takes the sign, the exponent and the significand out of the bits. -/
def Real64.ofFloat (x : Float) : Real64 :=
  let bits : Nat := x.toBits.toNat
  let negative := bits / Nat.pow 2 63 == 1
  let biased : Nat := bits / Nat.pow 2 52 % Nat.pow 2 11
  let fraction : Nat := bits % Nat.pow 2 52
  if biased == 2047 then (if fraction == 0 then .infinite negative else .notANumber)
  else if biased == 0 then
    if fraction == 0 then .zero negative else .finite negative ⟨fraction, -1074, false⟩
  else
    .finite negative ⟨Nat.pow 2 52 + fraction, (biased : Int) - 1075, fraction == 0 && biased > 1⟩

/-- The digits with the point or the exponent in its place. -/
def layout (d : Numeral) : Text :=
  let digits := Text.ofNat d.digits
  let leading := d.exponent + digits.length - 1
  if -4 ≤ leading && leading < 16 then
    if 0 ≤ d.exponent then
      Text.concat [digits, List.replicate d.exponent.toNat '0', ['.', '0']]
    else if 0 ≤ leading then
      Text.concat [digits.take (leading.toNat + 1), ['.'], digits.drop (leading.toNat + 1)]
    else Text.concat [['0', '.'], List.replicate (-leading - 1).toNat '0', digits]
  else
    let mantissa :=
      match digits with
      | [] => []
      | [c] => [c]
      | c :: rest => c :: '.' :: rest
    let size := Text.ofNat leading.natAbs
    Text.concat [mantissa, ['e', if leading < 0 then '-' else '+'],
      List.replicate (2 - size.length) '0', size]

/-- The text of a real number. -/
def Real64.toText : Real64 → Text
  | .notANumber => ['n', 'a', 'n']
  | .infinite negative => if negative then ['-', 'i', 'n', 'f'] else ['i', 'n', 'f']
  | .zero negative => if negative then ['-', '0', '.', '0'] else ['0', '.', '0']
  | .finite negative magnitude =>
    let text := layout (magnitude.shortest.stripped 20)
    if negative then '-' :: text else text

end VerticalSlice.Decimal
