import DynamicPrompt.Expression.Basic

/-!
# Errors and warnings

An error is a cause; its wording is made in one place. Evaluating an expression fails for
reasons of its own, using a directive for others, and beyond these a wildcard may be
missing, nesting may exceed the limit, and an expression or a document may not be readable.

A warning reports a problem that did not stop the work: what the rewriting of source syntax
could not represent, a failed directive, condition or macro, a draw that was cut short, or a
note of the host. Warnings are kept in the order in which they were raised.

Arithmetic on positions is checked. A position that is no word any more is neither an error nor a
warning: the work stops for good, and so does all work around it.
-/

namespace DynamicPrompt

/-- The causes for which an expression has no value. -/
inductive ExpressionError where
  | needsNumbers (operation : Arithmetic) (left right : Value)
  | notNegatable (operand : Value)
  | unknownName (name : Text)
  | unknownFunction (name : Text)
  | lengthArguments
  | pairArguments (function : Text) (given : Nat)
  | other (reason : Text)
deriving DecidableEq

/-- The causes for which a directive cannot be used where or as it stands. -/
inductive UsageError where
  | notPair (body : Text)
  | nameless (directive : Text)
  | caseOutsideMatch
  | other (reason : Text)
deriving DecidableEq

/-- The causes for which a request fails. -/
inductive Error where
  | missingWildcard (name : Text)
  | expression (cause : ExpressionError)
  | usage (cause : UsageError)
  | recursionLimit (limit : Nat)
  | unreadableExpression
  | unreadableJson
deriving DecidableEq

/-- The name of an operation in messages. -/
def Arithmetic.title : Arithmetic → Text
  | subtract => "Sub"
  | multiply => "Mul"
  | divide => "Div"
  | remainder => "Rem"
  | power => "Pow"

/-- A text between single quotation marks. -/
def Text.inQuotes (text : Text) : Text := '\x27' :: text ++ ['\x27']

/-- The wording of a cause. -/
def ExpressionError.message : ExpressionError → Text
  | needsNumbers operation left right =>
    operation.title ++ " needs numbers, got " ++ Text.inQuotes left.toText ++ " and " ++
      Text.inQuotes right.toText
  | notNegatable operand => "cannot negate " ++ Text.inQuotes operand.toText
  | unknownName name => "unknown name " ++ Text.inQuotes name
  | unknownFunction name => "unknown function " ++ Text.inQuotes name
  | lengthArguments => "length expects 1 argument"
  | pairArguments function given =>
    function ++ " expects 2 arguments, got " ++ Text.ofNat given
  | other reason => reason

/-- The wording of a cause. -/
def UsageError.message : UsageError → Text
  | notPair body => "fromto expects 'from||to', got " ++ Text.inQuotes body
  | nameless directive => directive ++ " needs a name"
  | caseOutsideMatch => "a wccase tag must be inside a wcmatch tag"
  | other reason => reason

/-- The wording of an error. -/
def Error.message : Error → Text
  | missingWildcard name => "missing wildcard: " ++ name
  | expression cause => "expression error: " ++ cause.message
  | usage cause => "usage error: " ++ cause.message
  | recursionLimit limit => "recursion limit of " ++ Text.ofNat limit ++ " exceeded"
  | unreadableExpression => "parse error"
  | unreadableJson => "json error"

/-- The problems that are reported without stopping the work. -/
inductive Warning where
  | nestingLeft (limit : Nat) (text : Text)
  | separatorDropped (separator : Text)
  | noGlobMatches (pattern : Text)
  | unknownModifier (word : Text)
  | addAndIfUndefined (name : Text)
  | unclosedValues (condition : Text)
  | unknownOperator (operator : Text)
  | insertionPoint (position : Text)
  | unknownPosition (position : Text)
  | markerRemoved (marker : Text)
  | directiveFailed (name : Text) (cause : Error)
  | conditionFailed (source : Text) (cause : Error)
  | macroFailed (name : Text) (cause : Error)
  | drawCapped (count cap : Nat)
  | note (text : Text)
deriving DecidableEq

namespace Warning

/-- The wording of a warning. -/
def message : Warning → Text
  | nestingLeft limit text =>
    "nesting deeper than " ++ Text.ofNat limit ++ " levels left as is: " ++ Text.inQuotes text
  | separatorDropped separator =>
    "separator " ++ Text.inQuotes separator ++ " cannot be represented and was dropped"
  | noGlobMatches pattern => "no glob matches for " ++ Text.inQuotes pattern
  | unknownModifier word => "unknown set modifier " ++ Text.inQuotes word ++ " ignored"
  | addAndIfUndefined name =>
    "set " ++ Text.inQuotes name ++ " cannot combine add and ifundefined"
  | unclosedValues condition => "unclosed value list in condition " ++ Text.inQuotes condition
  | unknownOperator operator =>
    "unknown condition operator " ++ Text.inQuotes operator ++ " passed through"
  | insertionPoint position =>
    "negative insertion point " ++ Text.inQuotes position ++ " unsupported, appending"
  | unknownPosition position =>
    "unknown negative position " ++ Text.inQuotes position ++ ", using start"
  | markerRemoved marker => "negative insertion marker " ++ Text.inQuotes marker ++ " removed"
  | directiveFailed name cause => "<" ++ name ++ "> failed: " ++ cause.message
  | conditionFailed source cause =>
    "error evaluating " ++ Text.inQuotes source ++ ": " ++ cause.message
  | macroFailed name cause =>
    "error expanding macro " ++ Text.inQuotes name ++ ": " ++ cause.message
  | drawCapped count cap =>
    "draw count " ++ Text.ofNat count ++ " was capped at " ++ Text.ofNat cap
  | note text => text

/-- The line shown for a warning. -/
def line (warning : Warning) : Text := "Warning: " ++ warning.message

end Warning

/-- Work on a state with checked arithmetic. Where a number is no word any more the work stops and
has no result; what it has done to the state remains. -/
abbrev Checked (σ : Type) := OptionT (StateM σ)

/-- What checked arithmetic comes to, as a step of work. -/
def checked {σ α : Type} (result : Option α) : Checked σ α := OptionT.mk (pure result)

/-- Warnings in the order in which they were raised. -/
abbrev Warnings := List Warning

/-- Work that may raise warnings. -/
abbrev Reporting := Checked Warnings

/-- Raise a warning after those raised before. -/
def warn (warning : Warning) : Reporting Unit := modify (· ++ [warning])

end DynamicPrompt
