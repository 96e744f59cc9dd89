import DynamicPrompt.Report
import DynamicPrompt.Text.Lowercase

/-!
# Conditions of blocks

A block's condition is a name, optionally followed by `not`, an operator and a value. It is
compiled into an expression. The value may be a list in parentheses: the condition then
holds if it holds for any value of the list, and negated, if it holds for none. Operators
are read in any case. An operator that is not known is passed on as it is, with a warning;
a list that is not closed makes the condition unreadable, with a warning of its own.
-/

namespace DynamicPrompt.Source.Condition

/-- The operator that holds exactly where the given one does not. -/
def negated? (operator : Text) : Option Text :=
  [("eq".toList, "ne".toList), ("ne".toList, "eq".toList), ("gt".toList, "le".toList),
   ("le".toList, "gt".toList), ("lt".toList, "ge".toList), ("ge".toList, "lt".toList)].lookup
    operator

/-- The first word of a text and what follows it, trimmed at its start. -/
def firstWord (text : Text) : Text × Text :=
  match Text.cutAt? isBlank text with
  | some (word, rest) => (word, Text.trimStart rest)
  | none => (text, [])

/-- The values of a condition: the members of a list in parentheses, or the one value;
nothing if a list is not closed. -/
def values? : Text → Option (List Text)
  | '(' :: list =>
    if list.getLast? = some ')' then some ((Text.split ',' list.dropLast).map Text.trim)
    else none
  | value => some [value]

/-- The expression that one value contributes, if the operator is known. -/
def term? (name operator : Text) (negate : Bool) (value : Text) : Option Text :=
  let infix? : Option Text :=
    if operator = "in".toList then some (if negate then "ne" else "eq")
    else
      match negated? operator with
      | some opposite => some (if negate then opposite else operator)
      | none => none
  if operator = "contains".toList then
    let call : Text := "contains(" ++ name ++ ", " ++ value ++ ")"
    some (if negate then "not " ++ call else call)
  else infix?.map fun operator => name ++ " " ++ operator ++ " " ++ value

/-- The expression of a condition whose operator and value have been told apart. -/
def compileWith (condition name : Text) (negate : Bool) (operator value : Text) :
    Option Text × Warnings :=
  match values? value with
  | none => (none, [.unclosedValues condition])
  | some values =>
    match values.mapM (term? name operator negate) with
    | some terms => (some (Text.join (if negate then " && " else " || ") terms), [])
    | none =>
      let negation : Text := if negate then "not " else []
      (some (Text.trimEnd (name ++ " " ++ negation ++ operator ++ " " ++ value)),
        [.unknownOperator operator])

/-- The expression of a condition, if it can be read, and the warnings raised. -/
def compile (text : Text) : Option Text × Warnings :=
  let condition := Text.trim text
  let (name, rest) := firstWord condition
  if name.isEmpty then (none, [])
  else if rest.isEmpty then (some name, [])
  else if Text.sameLetters rest "not" then (some ("not " ++ name), [])
  else
    let (word, after) := firstWord rest
    let negate := Text.sameLetters word "not"
    let (operator, value) := firstWord (if negate then after else rest)
    compileWith condition name negate (Text.lower operator) (Text.trim value)

/-- The expressions of several conditions, in order; where one cannot be read, those after
it are not looked at. A missing condition stays missing. -/
def compileAll : List (Option Text) → Option (List (Option Text)) × Warnings
  | [] => (some [], [])
  | none :: rest =>
    let (others, warnings) := compileAll rest
    (others.map (none :: ·), warnings)
  | some text :: rest =>
    match compile text with
    | (none, warnings) => (none, warnings)
    | (some condition, first) =>
      let (others, warnings) := compileAll rest
      (others.map (some condition :: ·), first ++ warnings)

end DynamicPrompt.Source.Condition
