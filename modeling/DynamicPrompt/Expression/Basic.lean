import DynamicPrompt.Expression.Value

/-!
# Expressions

Conditions are expressions over values: literals, names, calls of functions, two prefix
operators and the infix operators. The infix operators fall into six levels from the
loosest to the tightest; operators of one level associate to the left, except for the
power.
-/

namespace DynamicPrompt

/-- The operators that compare. -/
inductive Comparison where
  | eq | ne | lt | le | gt | ge
deriving DecidableEq, Repr

/-- The operators that need two numbers. Addition is not among them, since it also joins
texts. -/
inductive Arithmetic where
  | subtract | multiply | divide | remainder | power
deriving DecidableEq, Repr

/-- The operators that stand between two operands. -/
inductive Infix where
  | or
  | and
  | compare (comparison : Comparison)
  | add
  | arithmetic (operation : Arithmetic)
deriving DecidableEq, Repr

/-- The operators that stand before an operand. -/
inductive Unary where
  | not
  | negate
deriving DecidableEq, Repr

/-- An expression. -/
inductive Expr where
  | literal (value : Value)
  | name (name : Text)
  | call (name : Text) (arguments : List Expr)
  | unary (operator : Unary) (operand : Expr)
  | binary (operator : Infix) (left right : Expr)

/-- The levels of the infix operators, from the loosest to the tightest. -/
inductive Level where
  | disjunction | conjunction | comparison | sum | product | power
deriving DecidableEq, Repr

namespace Level

/-- All levels, from the loosest to the tightest. -/
def all : List Level := [.disjunction, .conjunction, .comparison, .sum, .product, .power]

/-- Whether operators of the level associate to the right. -/
def associatesRight (level : Level) : Bool := level == .power

end Level

/-- The level of an infix operator. -/
def Infix.level : Infix → Level
  | .or => .disjunction
  | .and => .conjunction
  | .compare _ => .comparison
  | .add | .arithmetic .subtract => .sum
  | .arithmetic .multiply | .arithmetic .divide | .arithmetic .remainder => .product
  | .arithmetic .power => .power

end DynamicPrompt
