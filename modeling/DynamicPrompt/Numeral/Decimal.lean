import DynamicPrompt.Numeral.Binary
import DynamicPrompt.Numeral.Word

/-!
# Decimal numerals of doubles

Reading takes an optional sign, then a name of a special value in any case, or digits
with at most one point and at least one digit, then an optional exponent; the result is
the double nearest to the number denoted. Exponents far outside the range of doubles are
answered without raising ten to them.

Printing gives the fewest digits that read back as the same double and, of those, the
nearest to it, in positional notation whatever the size. Rounding to places gives the
nearest decimal with that many places, a half going to the even neighbour.
-/

namespace DynamicPrompt.Numeral

/-- An exponent with its sign: the text after the letter that introduces it. -/
def exponent? (text : Text) : Option Int :=
  let (negative, digits) := match text with
    | '-' :: rest => (true, rest)
    | '+' :: rest => (false, rest)
    | _ => (false, text)
  if isDigits digits then
    let magnitude := Int.ofNat (digitsValue 0 digits)
    some (if negative then -magnitude else magnitude)
  else none

/-- The double nearest to `significand · 10 ^ exponent`. Beyond the clamp every non-zero
number is infinite or rounds to zero already. -/
def ofScientific (significand : Nat) (exponent : Int) : Float :=
  let digits := Int.ofNat (Text.ofNat significand).length
  if significand == 0 then 0.0
  else if exponent + digits > 320 then 1.0 / 0.0
  else if exponent + digits < -400 then 0.0
  else if exponent < 0 then Float.ofScientific significand true (-exponent).toNat
  else Float.ofScientific significand false exponent.toNat

/-- The magnitude denoted by digits with at most one point and an optional exponent. -/
def magnitude? (text : Text) : Option Float :=
  let (mantissa, exponent) := match Text.cutAt? (fun c => c == 'e' || c == 'E') text with
    | some (before, after) => (before, exponent? after)
    | none => (text, some 0)
  let (whole, fraction) := (Text.cutAt? (· == '.') mantissa).getD (mantissa, [])
  if whole.all Char.isDigit && fraction.all Char.isDigit && !(whole ++ fraction).isEmpty then
    exponent.map fun e =>
      ofScientific (digitsValue 0 (whole ++ fraction)) (e - Int.ofNat fraction.length)
  else none

/-- The double denoted by a decimal numeral or by the name of a special value. -/
def float? (text : Text) : Option Float :=
  let (negative, rest) := match text with
    | '-' :: rest => (true, rest)
    | '+' :: rest => (false, rest)
    | _ => (false, text)
  let name := rest.map Char.toLower
  let value :=
    if name == "inf".toList || name == "infinity".toList then some (1.0 / 0.0 : Float)
    else if name == "nan".toList then some (0.0 / 0.0)
    else magnitude? rest
  value.map fun x => if negative then -x else x

/-- The decimal number `digits · 10 ^ exponent`. -/
structure Decimal where
  digits : Nat
  exponent : Int
deriving DecidableEq, Repr

/-- Whether one quotient of natural numbers is at most another. -/
def quotientLE (left right : Nat × Nat) : Bool := left.1 * right.2 ≤ right.1 * left.2

/-- A natural number times a power of a base, as a quotient. -/
def scaled (n base : Nat) (exponent : Int) : Nat × Nat :=
  if exponent < 0 then (n, base.pow (-exponent).toNat) else (n * base.pow exponent.toNat, 1)

/-- Whether a decimal reads back as the double with significand `m` and exponent `q`. The
numbers that do lie within half a unit of it, a quarter below a power of two, and the ends
belong to it exactly if the significand is even. -/
def readsBack (m : Nat) (q : Int) (d : Decimal) : Bool :=
  let low := scaled (4 * m - if m == Nat.pow 2 52 && q > -1074 then 1 else 2) 2 (q - 2)
  let high := scaled (4 * m + 2) 2 (q - 2)
  let value := scaled d.digits 10 d.exponent
  if m % 2 == 0 then quotientLE low value && quotientLE value high
  else !quotientLE value low && !quotientLE high value

/-- The number of digits before the point of a positive quotient; not positive if it
starts with zeros after the point. -/
def magnitudeOf (value : Nat × Nat) : Int :=
  let estimate : Int :=
    Int.ofNat (Text.ofNat value.1).length - Int.ofNat (Text.ofNat value.2).length
  if quotientLE (scaled 1 10 estimate) value then estimate + 1 else estimate

/-- The better of the two neighbours of a positive double on the grid of decimals with
the given exponent, if one reads back: the nearer one, the upper one at a tie. -/
def neighbour? (m : Nat) (q : Int) (exponent : Int) : Option Decimal :=
  let value := scaled m 2 q
  let unit := scaled 1 10 exponent
  let numerator := value.1 * unit.2
  let denominator := value.2 * unit.1
  let below := numerator / denominator
  let lower : Decimal := ⟨below, exponent⟩
  let upper : Decimal := ⟨below + 1, exponent⟩
  match readsBack m q lower, readsBack m q upper with
  | true, true => some (if 2 * (numerator % denominator) < denominator then lower else upper)
  | true, false => some lower
  | false, true => some upper
  | false, false => none

/-- The first grid, from coarse to fine, with a decimal that reads back. -/
def shortestFrom (m : Nat) (q : Int) (exponent : Int) : Nat → Decimal
  | 0 => ⟨m, q⟩
  | grids + 1 =>
    match neighbour? m q exponent with
    | some d => d
    | none => shortestFrom m q (exponent - 1) grids

/-- The shortest decimal that reads back as a positive double; seventeen digits always
suffice. -/
def shortest (m : Nat) (q : Int) : Decimal :=
  shortestFrom m q (magnitudeOf (scaled m 2 q) - 1) 17

/-- Positional notation of a decimal, without zeros at its end. -/
def positional (d : Decimal) : Text :=
  if d.exponent ≥ 0 then Text.ofNat (d.digits * Nat.pow 10 d.exponent.toNat)
  else
    let places := (-d.exponent).toNat
    let digits := Text.ofNat d.digits
    let padded := List.replicate (places + 1 - digits.length) '0' ++ digits
    let whole := padded.take (padded.length - places)
    let fraction := Text.dropEndWhile (· == '0') (padded.drop (padded.length - places))
    if fraction.isEmpty then whole else whole ++ '.' :: fraction

/-- The text of a double: its shortest decimal in positional notation. -/
def ofFloat (x : Float) : Text :=
  match Binary.ofFloat? x with
  | none => if x.isNaN then "NaN" else if x < 0 then "-inf" else "inf"
  | some b =>
    let text := if b.significand == 0 then ['0'] else positional (shortest b.significand b.exponent)
    if b.negative then '-' :: text else text

/-- The nearest whole number to a quotient, a half going to the even neighbour. -/
def roundHalfEven (numerator denominator : Nat) : Nat :=
  let below := numerator / denominator
  let twice := 2 * (numerator % denominator)
  if twice < denominator then below
  else if denominator < twice then below + 1
  else below + below % 2

/-- The text of a double rounded to a fixed number of places. -/
def toPlaces (places : Nat) (x : Float) : Text :=
  match Binary.ofFloat? x with
  | none => ofFloat x
  | some b =>
    let (numerator, denominator) := b.quotient
    let digits := Text.ofNat (roundHalfEven (numerator * Nat.pow 10 places) denominator)
    let padded := List.replicate (places + 1 - digits.length) '0' ++ digits
    let text := padded.take (padded.length - places) ++ '.' :: padded.drop (padded.length - places)
    if b.negative then '-' :: text else text

end DynamicPrompt.Numeral
