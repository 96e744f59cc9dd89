import DynamicPrompt.Delimiter
import DynamicPrompt.Numeral.Decimal
import DynamicPrompt.Text.Lowercase

/-!
# Choices

A choice is one option of a variant or one line of a wildcard: a value that is not yet
expanded, a weight, labels and an optional guard. Before a double colon outside every tag
it may state these options in a fixed order: a guard after the word `if`, labels between
parentheses, a weight. If the text before the colons is not of that form, there are no
options and the whole text is the value.

Options are recognised from the right. A number at the end is the weight, except that a
number that ends a guard belongs to the guard. A group in parentheses at the end holds the
labels if a blank precedes it. What is left is empty or a guard.
-/

namespace DynamicPrompt

/-- One option to draw. The position counts from one in the list that the choice was read
from, and is zero outside a list. Labels ascend and are in lower case. -/
structure Choice where
  value : Text
  weight : Float
  labels : List Text
  guard : Option Text
  position : Nat

namespace Choice

/-- A choice without options. -/
def plain (value : Text) : Choice := ⟨value, 1.0, [], none, 0⟩

/-- The labels of a list separated by commas. -/
def labelsOf (list : Text) : List Text :=
  Text.ordered (((Text.split ',' list).map fun label => Text.lower (Text.trim label)).filter
    fun label => !label.isEmpty)

/-- The guard of the options that stand before labels and weight: nothing if there is no
text, and no reading if the text is not the word `if`, a blank and a condition. -/
def guard? : Text → Option (Option Text)
  | [] => some none
  | i :: f :: blank :: rest =>
    let condition := Text.trim rest
    if i.toLower = 'i' ∧ f.toLower = 'f' ∧ isBlank blank ∧ condition ≠ [] then
      some (some condition)
    else none
  | _ => none

/-- The weight at the end of the options, and what stands before it. A blank or a closing
parenthesis separates it from what precedes. -/
def splitWeight (options : Text) : Text × Option Float :=
  let digit (c : Char) : Bool := c.isDigit || c == '.'
  let before := Text.dropEndWhile digit options
  let separated := match before.getLast? with
    | none => true
    | some c => isBlank c || c == ')'
  match Numeral.float? (Text.takeEndWhile digit options) with
  | some weight => if separated then (Text.trimEnd before, some weight) else (options, none)
  | none => (options, none)

/-- The last group in parentheses that ends the text, with what stands before it. -/
def lastGroup? : Text → Option (Text × Text)
  | [] => none
  | c :: rest =>
    match lastGroup? rest with
    | some (before, inner) => some (c :: before, inner)
    | none =>
      if c = '(' then
        match enclosed? '(' ')' rest with
        | some (inner, []) => some ([], inner)
        | _ => none
      else none

/-- The label clause at the end of the options, and what stands before it. -/
def splitLabels? (options : Text) : Option (Text × Text) :=
  match lastGroup? options with
  | none => none
  | some (before, inner) =>
    match before.getLast? with
    | none => some ([], inner)
    | some c => if isBlank c then some (Text.trimEnd before, inner) else none

/-- Guard, labels and weight of an option clause. -/
structure Clause where
  guard : Option Text
  labels : List Text
  weight : Option Float

/-- The clause without a weight read apart: labels at the end if what precedes them is a
guard or nothing, and otherwise a guard or nothing. -/
def clauseWith? (options : Text) (weight : Option Float) : Option Clause :=
  let labelled := do
    let (before, inner) ← splitLabels? options
    let guard ← guard? before
    pure (⟨guard, labelsOf inner, weight⟩ : Clause)
  labelled.or ((guard? options).map fun guard => ⟨guard, [], weight⟩)

/-- The clause that a text states. A number that ends a guard without a label clause in
between belongs to the guard. -/
def clause? (text : Text) : Option Clause :=
  let options := Text.trim text
  let (before, weight) := splitWeight options
  let endsGuard := weight.isSome && before.getLast? != some ')' &&
    match guard? before with
    | some (some _) => true
    | _ => false
  if endsGuard then clauseWith? options none else clauseWith? before weight

/-- The choice written as a text. -/
def ofText (text : Text) : Choice :=
  let read := do
    let (options, value) ← cutTopLevel? "::" Brackets.tags text
    let clause ← clause? options
    pure (⟨value, clause.weight.getD 1.0, clause.labels, clause.guard, 0⟩ : Choice)
  read.getD (plain text)

/-- The choices written as lines, numbered from one. -/
def ofLines (lines : List Text) : List Choice :=
  lines.mapIdx fun index line => { ofText line with position := index + 1 }

/-- The choice with other labels, each put into lower case. -/
def withLabels (choice : Choice) (labels : List Text) : Choice :=
  { choice with labels := Text.ordered (labels.map Text.lower) }

end Choice

end DynamicPrompt
