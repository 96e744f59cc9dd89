import DynamicPrompt.Expression.Token

/-!
# Reading expressions

Tokens are read in two steps. The first step reads operands and the operators between
them, without regard to levels: an operand is a literal, a name, a call or an expression in
parentheses, with any number of prefix operators before it, which bind tighter than every
infix operator. The second step groups such a chain into a tree, level by level: the chain
is cut at the operators of the loosest level, the pieces are grouped by the tighter levels,
and the results are joined from the left or, for the power, from the right.

The bound of the first step counts operands, calls and parentheses; the number of tokens is
always enough.
-/

namespace DynamicPrompt.Expression

/-- Operands with the operators between them. -/
structure Chain where
  first : Expr
  more : List (Infix × Expr)

/-- Cut a chain at the operators of a level: the part before the first of them, and each
of them with the part after it. -/
def cutAt (level : Level) (first : Expr) : List (Infix × Expr) → Chain × List (Infix × Chain)
  | [] => (⟨first, []⟩, [])
  | (operator, operand) :: more =>
    let (head, parts) := cutAt level operand more
    if operator.level = level then (⟨first, []⟩, (operator, head) :: parts)
    else (⟨first, (operator, head.first) :: head.more⟩, parts)

/-- Join operands from the left. -/
def joinLeft (first : Expr) (more : List (Infix × Expr)) : Expr :=
  more.foldl (fun left part => .binary part.1 left part.2) first

/-- Join operands from the right. -/
def joinRight (first : Expr) : List (Infix × Expr) → Expr
  | [] => first
  | (operator, operand) :: more => .binary operator first (joinRight operand more)

/-- The tree of a chain whose operators belong to the given levels. -/
def group : List Level → Chain → Expr
  | [], chain => chain.first
  | level :: tighter, chain =>
    let (head, parts) := cutAt level chain.first chain.more
    let first := group tighter head
    let more := parts.map fun part => (part.1, group tighter part.2)
    if level.associatesRight then joinRight first more else joinLeft first more

/-- The infix operator that a token stands for between two operands. -/
def infix? : Token → Option Infix
  | .operator operator => some operator
  | .minus => some (.arithmetic .subtract)
  | _ => none

mutual

/-- An operand with its prefix operators, and what follows it. -/
def operand? : Nat → List Token → Option (Expr × List Token)
  | 0, _ => none
  | bound + 1, tokens =>
    match tokens with
    | .not :: rest => (operand? bound rest).map fun (e, rest) => (.unary .not e, rest)
    | .minus :: rest => (operand? bound rest).map fun (e, rest) => (.unary .negate e, rest)
    | .literal value :: rest => some (.literal value, rest)
    | .name name :: .opener :: .closer :: rest => some (.call name [], rest)
    | .name name :: .opener :: rest =>
      (arguments? bound rest).map fun (es, rest) => (.call name es, rest)
    | .name name :: rest => some (.name name, rest)
    | .opener :: rest =>
      match whole? bound rest with
      | some (e, .closer :: rest) => some (e, rest)
      | _ => none
    | _ => none

/-- Operators with their right operands, as long as there are operators, and what
follows them. -/
def more? : Nat → List Token → Option (List (Infix × Expr) × List Token)
  | 0, _ => none
  | _ + 1, [] => some ([], [])
  | bound + 1, token :: rest =>
    match infix? token with
    | none => some ([], token :: rest)
    | some operator =>
      match operand? bound rest with
      | none => none
      | some (e, rest) => (more? bound rest).map fun (others, rest) => ((operator, e) :: others, rest)

/-- An expression, and what follows it. -/
def whole? : Nat → List Token → Option (Expr × List Token)
  | 0, _ => none
  | bound + 1, tokens =>
    match operand? bound tokens with
    | none => none
    | some (e, rest) =>
      (more? bound rest).map fun (others, rest) => (group Level.all ⟨e, others⟩, rest)

/-- The arguments of a call, at least one, up to its closing parenthesis. -/
def arguments? : Nat → List Token → Option (List Expr × List Token)
  | 0, _ => none
  | bound + 1, tokens =>
    match whole? bound tokens with
    | some (e, .closer :: rest) => some ([e], rest)
    | some (e, .comma :: rest) => (arguments? bound rest).map fun (es, rest) => (e :: es, rest)
    | _ => none

end

/-- The expression written as a text, if the text is one. Two steps of the bound for each
token are enough, and two for the end. -/
def parse? (text : Text) : Option Expr := do
  let tokens ← tokens? text
  match whole? (2 * tokens.length + 2) tokens with
  | some (e, []) => some e
  | _ => none

end DynamicPrompt.Expression
