import DynamicPrompt.Numeral.Decimal

/-!
# Values of expressions

An expression yields a truth value, a number or a text. Every value has a text: whole
numbers below `10 ^ 15` are written without a point, other numbers by their shortest
decimal. Every value counts as true or false, and a number or a text that denotes one can
be read as a number.
-/

namespace DynamicPrompt

/-- The result of an expression. -/
inductive Value where
  | bool (b : Bool)
  | number (x : Float)
  | text (t : Text)
deriving DecidableEq

namespace Value

/-- The numbers whose magnitude is below this limit are written as whole numbers if they
are whole. -/
def wholeLimit : Int := 1000000000000000

/-- The text of a whole number. -/
def ofInt (n : Int) : Text := if n < 0 then '-' :: Text.ofNat n.natAbs else Text.ofNat n.natAbs

/-- The text of a number. -/
def numberText (x : Float) : Text :=
  match Numeral.integer? x with
  | some n => if -wholeLimit < n ∧ n < wholeLimit then ofInt n else Numeral.ofFloat x
  | none => Numeral.ofFloat x

/-- The text of a value. -/
def toText : Value → Text
  | bool true => "true"
  | bool false => "false"
  | number x => numberText x
  | text t => t

/-- Whether a value counts as true: a true truth value, a positive number or a text that
is not empty. -/
def isTruthy : Value → Bool
  | bool b => b
  | number x => x > 0
  | text t => !t.isEmpty

/-- The number that a value denotes. Blanks around the numeral of a text are ignored. -/
def number? : Value → Option Float
  | bool _ => none
  | number x => some x
  | text t => Numeral.float? (Text.trim t)

end Value

end DynamicPrompt
