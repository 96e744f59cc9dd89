/-!
# Binary numbers behind doubles

A finite double is a natural number times a power of two, with a sign. Printing, rounding
and remainders are computed on that form in exact integer arithmetic, so no step rounds
where the result does not ask for it.
-/

namespace DynamicPrompt.Numeral

/-- The number `± significand · 2 ^ exponent`. -/
structure Binary where
  negative : Bool
  significand : Nat
  exponent : Int
deriving DecidableEq, Repr

/-- The exact value of a finite double; nothing for infinities and for NaN. -/
def Binary.ofFloat? (x : Float) : Option Binary :=
  let bits := x.toBits.toNat
  let negative := bits / Nat.pow 2 63 == 1
  let field := bits / Nat.pow 2 52 % Nat.pow 2 11
  let fraction := bits % Nat.pow 2 52
  if field == 2047 then none
  else if field == 0 then some ⟨negative, fraction, -1074⟩
  else some ⟨negative, Nat.pow 2 52 + fraction, Int.ofNat field - 1075⟩

/-- The magnitude as a quotient of natural numbers. -/
def Binary.quotient (b : Binary) : Nat × Nat :=
  if b.exponent < 0 then (b.significand, Nat.pow 2 (-b.exponent).toNat)
  else (b.significand * Nat.pow 2 b.exponent.toNat, 1)

/-- The double of a significand below `2 ^ 53` and an exponent for which the value is
exact. -/
def Binary.toFloat (b : Binary) : Float :=
  let magnitude := (Float.ofNat b.significand).scaleB b.exponent
  if b.negative then -magnitude else magnitude

/-- The whole number a double denotes, nothing if it has a fractional part or is not
finite. -/
def integer? (x : Float) : Option Int :=
  match Binary.ofFloat? x with
  | none => none
  | some b =>
    let (numerator, denominator) := b.quotient
    if numerator % denominator == 0 then
      let magnitude := Int.ofNat (numerator / denominator)
      some (if b.negative then -magnitude else magnitude)
    else none

/-- The remainder of a division that rounds toward zero; its sign is the dividend's. The
remainder of an infinity, and of any number by zero, is not a number, and dividing by an
infinity leaves the dividend as it is. -/
def remainder (x y : Float) : Float :=
  match Binary.ofFloat? x, Binary.ofFloat? y with
  | some a, some b =>
    if b.significand == 0 then 0.0 / 0.0
    else
      let exponent := min a.exponent b.exponent
      let dividend := a.significand * Nat.pow 2 (a.exponent - exponent).toNat
      let divisor := b.significand * Nat.pow 2 (b.exponent - exponent).toNat
      Binary.toFloat ⟨a.negative, dividend % divisor, exponent⟩
  | some _, none => if y.isNaN then y else x
  | none, _ => 0.0 / 0.0

end DynamicPrompt.Numeral
