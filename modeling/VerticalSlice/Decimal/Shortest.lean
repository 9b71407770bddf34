import VerticalSlice.Text.Basic

/-!
# The shortest decimal that reads back

A binary floating point number `significand · 2 ^ exponent` stands for every real number that
rounds to it. Among the decimals in that interval the one with the fewest digits is its text, and
of two of the same length the nearer one. Everything is exact arithmetic on natural numbers.
-/

namespace VerticalSlice.Decimal

/-- A positive finite number, `significand · 2 ^ exponent`. The gap to the number below is half as
wide as the gap above when `narrowBelow` holds. -/
structure Binary where
  significand : Nat
  exponent : Int
  narrowBelow : Bool

/-- The decimal `digits · 10 ^ exponent`. -/
structure Numeral where
  digits : Nat
  exponent : Int

/-- `base ^ n` where the power is a natural number, else `1`. -/
def power (base : Nat) (n : Int) : Nat := Nat.pow base n.toNat

/-- Compares the decimal `digits · 10 ^ place` with `quarters / 4 · 2 ^ exponent`. -/
def compareDecimal (digits : Nat) (place : Int) (quarters : Nat) (exponent : Int) : Ordering :=
  compare (4 * digits * power 10 place * power 2 (-exponent))
    (quarters * power 2 exponent * power 10 (-place))

/-- Does the decimal round to the number? The ends of the interval belong to it when the
significand is even. -/
def Binary.readsBack (x : Binary) (digits : Nat) (place : Int) : Bool :=
  let even := x.significand % 2 == 0
  let low := compareDecimal digits place
    (4 * x.significand - if x.narrowBelow then 1 else 2) x.exponent
  let high := compareDecimal digits place (4 * x.significand + 2) x.exponent
  (low == .gt || (low == .eq && even)) && (high == .lt || (high == .eq && even))

/-- The whole part of the number in units of `10 ^ place`. -/
def Binary.wholeAt (x : Binary) (place : Int) : Nat :=
  (x.significand * power 2 x.exponent * power 10 (-place)) /
    (power 10 place * power 2 (-x.exponent))

/-- The exponent of the leading digit of the number. -/
def Binary.leadingPlace (x : Binary) : Int :=
  let places := (List.range 640).map fun (n : Nat) => (n : Int) - 325
  match places.find? fun place => x.wholeAt (place + 1) == 0 with
  | some place => place
  | none => 315

/-- The nearer of the two neighbours of the number on the grid of `10 ^ place` that reads back; a
tie goes to the even one. -/
def Binary.onGrid (x : Binary) (place : Int) : Option Numeral :=
  let below := x.wholeAt place
  match x.readsBack below place, x.readsBack (below + 1) place with
  | true, false => some ⟨below, place⟩
  | false, true => some ⟨below + 1, place⟩
  | false, false => none
  | true, true =>
    match compareDecimal (2 * below + 1) place (8 * x.significand) x.exponent with
    | .gt => some ⟨below, place⟩
    | .lt => some ⟨below + 1, place⟩
    | .eq => some ⟨if below % 2 == 0 then below else below + 1, place⟩

/-- Tries one digit, then two, and so on up to seventeen, which always suffice. -/
def Binary.shortest (x : Binary) : Numeral :=
  let leading := x.leadingPlace
  match (List.range 17).findSome? fun (n : Nat) => x.onGrid (leading - n) with
  | some decimal => decimal
  | none => ⟨x.wholeAt (leading - 16), leading - 16⟩

/-- The digits without the zeros at their end, which move into the exponent. -/
def Numeral.stripped (fuel : Nat) (d : Numeral) : Numeral :=
  match fuel with
  | 0 => d
  | fuel + 1 => if d.digits % 10 == 0 && d.digits != 0 then
      Numeral.stripped fuel ⟨d.digits / 10, d.exponent + 1⟩ else d

end VerticalSlice.Decimal
