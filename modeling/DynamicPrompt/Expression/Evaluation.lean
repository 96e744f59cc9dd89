import DynamicPrompt.Expression.Parser
import DynamicPrompt.Report
import DynamicPrompt.Dictionary
import DynamicPrompt.Text.Lowercase

/-!
# Evaluating expressions

An expression is evaluated against a lookup of names, which may have effects of its own,
and the functions that have been registered. Operands are evaluated from left to right;
the logical operators evaluate their right operand only if the left one does not decide.
The arguments of a call are evaluated before its function is looked for. Two functions are
always there and cannot be replaced: the length of a text and whether any value is true.

Two values are compared as numbers if both denote one, numbers that cannot be ordered
counting as equal, and by their texts otherwise. Addition joins the texts of values that
are not both numbers; the other operations need two numbers.
-/

namespace DynamicPrompt.Expression

/-- A function from the values of its arguments. -/
abbrev Function := List Value → Except Error Value

/-- The order of two numbers; those that cannot be ordered count as equal. -/
def orderNumbers (x y : Float) : Ordering :=
  if x < y then .lt else if x > y then .gt else .eq

/-- The order of two values. -/
def order (left right : Value) : Ordering :=
  match left.number?, right.number? with
  | some x, some y => orderNumbers x y
  | _, _ => compare left.toText right.toText

/-- Whether a comparison holds for operands in the given order. -/
def holds : Comparison → Ordering → Bool
  | .eq, ordering => ordering == .eq
  | .ne, ordering => ordering != .eq
  | .lt, ordering => ordering == .lt
  | .le, ordering => ordering != .gt
  | .gt, ordering => ordering == .gt
  | .ge, ordering => ordering != .lt

/-- The result of an operation on numbers. -/
def calculate (operation : Arithmetic) (x y : Float) : Float :=
  match operation with
  | .subtract => x - y
  | .multiply => x * y
  | .divide => x / y
  | .remainder => Numeral.remainder x y
  | .power => x.pow y

/-- The value of an operation, which needs two numbers. -/
def arithmetic (operation : Arithmetic) (left right : Value) : Except Error Value :=
  match left.number?, right.number? with
  | some x, some y => .ok (.number (calculate operation x y))
  | _, _ => .error (.expression (.needsNumbers operation left right))

/-- The sum of two numbers, or else the two texts joined. -/
def add (left right : Value) : Value :=
  match left.number?, right.number? with
  | some x, some y => .number (x + y)
  | _, _ => .text (left.toText ++ right.toText)

/-- The value of an operator whose operands are both evaluated. -/
def operate (operator : Infix) (left right : Value) : Except Error Value :=
  match operator with
  | .or => .ok (.bool (left.isTruthy || right.isTruthy))
  | .and => .ok (.bool (left.isTruthy && right.isTruthy))
  | .compare comparison => .ok (.bool (holds comparison (order left right)))
  | .add => .ok (add left right)
  | .arithmetic operation => arithmetic operation left right

/-- The value of a prefix operator. -/
def prefixed (operator : Unary) (operand : Value) : Except Error Value :=
  match operator with
  | .not => .ok (.bool (!operand.isTruthy))
  | .negate =>
    match operand.number? with
    | some x => .ok (.number (-x))
    | none => .error (.expression (.notNegatable operand))

/-- The value of a call. -/
def apply (functions : Dictionary Function) (name : Text) (arguments : List Value) :
    Except Error Value :=
  if name = "length".toList then
    match arguments with
    | [value] => .ok (.number (Float.ofNat value.toText.length))
    | _ => .error (.expression .lengthArguments)
  else if name = "any".toList then .ok (.bool (arguments.any Value.isTruthy))
  else
    match functions.find? name with
    | some function => function arguments
    | none => .error (.expression (.unknownFunction name))

section Evaluate

variable {m : Type → Type} [Monad m]

mutual

/-- The value of an expression. -/
def evaluate (lookup : Text → m (Option Value)) (functions : Dictionary Function) :
    Expr → ExceptT Error m Value
  | .literal value => pure value
  | .name name => do
    match ← (lookup name : m (Option Value)) with
    | some value => pure value
    | none => throw (.expression (.unknownName name))
  | .call name arguments => do
    let values ← evaluateAll lookup functions arguments
    liftExcept (apply functions name values)
  | .unary operator operand => do
    let value ← evaluate lookup functions operand
    liftExcept (prefixed operator value)
  | .binary .or left right => do
    let first ← evaluate lookup functions left
    if first.isTruthy then pure (.bool true)
    else
      let second ← evaluate lookup functions right
      pure (.bool second.isTruthy)
  | .binary .and left right => do
    let first ← evaluate lookup functions left
    if first.isTruthy then
      let second ← evaluate lookup functions right
      pure (.bool second.isTruthy)
    else pure (.bool false)
  | .binary operator left right => do
    let first ← evaluate lookup functions left
    let second ← evaluate lookup functions right
    liftExcept (operate operator first second)

/-- The values of several expressions, in order. -/
def evaluateAll (lookup : Text → m (Option Value)) (functions : Dictionary Function) :
    List Expr → ExceptT Error m (List Value)
  | [] => pure []
  | e :: es => do
    let value ← evaluate lookup functions e
    let values ← evaluateAll lookup functions es
    pure (value :: values)

end

end Evaluate

/-- The texts of exactly two arguments. -/
def pairOfTexts (function : Text) (arguments : List Value) : Except Error (Text × Text) :=
  match arguments with
  | [first, second] => .ok (first.toText, second.toText)
  | _ => .error (.expression (.pairArguments function arguments.length))

/-- Whether the first text holds the second. -/
def contains : Function := fun arguments => do
  let (text, pattern) ← pairOfTexts "contains" arguments
  pure (.bool (Text.occursIn pattern text))

/-- Whether the first text holds the second when both are in lower case. -/
def containsLower : Function := fun arguments => do
  let (text, pattern) ← pairOfTexts "icontains" arguments
  pure (.bool (Text.occursIn (Text.lower pattern) (Text.lower text)))

end DynamicPrompt.Expression
