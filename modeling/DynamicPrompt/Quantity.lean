import DynamicPrompt.Numeral.Word
import DynamicPrompt.Random

/-!
# Quantities

A quantity says how many choices a draw takes: at least `lower`, and at most `upper` or,
where no upper bound is stated, one less than the choices available. It is written as one
numeral, as two joined by a hyphen in either order, or with one of the two left out.

A draw's argument states the quantity and, after a comma, the separator of the drawn
texts. A quantity that cannot be read counts as one.
-/

namespace DynamicPrompt

/-- How many choices a draw takes. -/
structure Quantity where
  lower : Nat
  upper : Option Nat
deriving DecidableEq, Repr

namespace Quantity

/-- A fixed number. -/
def exactly (n : Nat) : Quantity := ⟨n, some n⟩

/-- The quantity written as `n`, `a-b`, `-b` or `a-`. The first hyphen separates. -/
def ofText? (text : Text) : Option Quantity :=
  let spec := Text.trim text
  match Text.cutAt? (· == '-') spec with
  | none => (Numeral.word? spec).map exactly
  | some ([], high) => do
    let upper ← Numeral.word? (Text.trim high)
    pure ⟨1, some upper⟩
  | some (low, []) => do
    let lower ← Numeral.word? (Text.trim low)
    pure ⟨lower, none⟩
  | some (low, high) => do
    let first ← Numeral.word? (Text.trim low)
    let second ← Numeral.word? (Text.trim high)
    pure ⟨min first second, some (max first second)⟩

/-- The largest count a draw may come to when so many choices are available. -/
def most (quantity : Quantity) (available : Nat) : Nat :=
  max (quantity.upper.getD (available - 1)) quantity.lower

/-- A count for the choices available. A word is taken only if more than one count is
possible. -/
def resolve (quantity : Quantity) (available : Nat) (stream : Random.Stream) :
    Nat × Random.Stream :=
  if quantity.most available = quantity.lower then (quantity.lower, stream)
  else stream.within quantity.lower (quantity.most available)

/-- The quantity and the separator of a draw's argument. Without a comma the separator is
a space; with nothing after the comma it is a comma and a space. -/
def ofArgument (argument : Text) : Quantity × Text :=
  let (count, separator) : Text × Text := match Text.cutAt? (· == ',') argument with
    | none => (argument, " ")
    | some (count, []) => (count, ", ")
    | some parts => parts
  ((ofText? count).getD (exactly 1), separator)

end Quantity

end DynamicPrompt
