import DynamicPrompt.Source.Head

/-!
# Variants

Braces outside tags enclose the options of a random draw, separated by bars, after an
optional head. Braces after a dollar sign are not read here. An option that is nothing but
one wildcard tag without an argument takes the count of the head itself when it is the only
option.
-/

namespace DynamicPrompt.Source.Variant

/-- The start of a wildcard tag without an argument. -/
def wildcardStart : Text := "<wcwildcard:"

/-- The only option with the argument of its head, if there is an argument and the option
is one wildcard tag. -/
def collapse? (option argument : Text) : Option Text :=
  if argument.isEmpty then none
  else
    match Text.after? wildcardStart option, enclosed? '<' '>' option.tail with
    | some body, some (_, []) => some ("<wcwildcard" ++ argument ++ ":" ++ body)
    | _, _ => none

/-- The directive of a variant. -/
def write (pass : Pass) (content : Text) : Reporting Text := do
  let (head, body) := match Head.split? content with
    | some (head, body) => (some head, body)
    | none => (none, content)
  let options := splitTopLevel "|" Brackets.tagsAndBraces body
  let argument ← Head.argument head (some (options.length - 1))
  let collapsed := match options with
    | [option] => collapse? option argument
    | _ => none
  match collapsed with
  | some text => pure text
  | none => do
    let options ← options.mapM pass.filled
    return "<random" ++ argument ++ ":" ++ Text.join "|" options ++ ">"

/-- The line with its variants rewritten. -/
def rewrite (pass : Pass) (line : Text) : Reporting Text :=
  writePieces (write pass) (enclosures '\x7b' '\x7d' (some '$') Cursor.start line)

end DynamicPrompt.Source.Variant
