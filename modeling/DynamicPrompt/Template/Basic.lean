import DynamicPrompt.Text.Basic

/-!
# Directives and templates

A directive is one tag of directive text: a name, an optional argument in square brackets
and an optional body after a colon. Both are kept as raw text, because the directive that
runs decides how to read them. An absent part is told apart from an empty one.

A template is directive text cut into literal text and top-level directives; tags inside
a body stay part of that body. Printing puts the pieces together again.
-/

namespace DynamicPrompt

/-- A tag `<name[argument]:body>`. -/
structure Directive where
  name : Text
  argument : Option Text
  body : Option Text
deriving DecidableEq, Repr

namespace Directive

/-- The directive as text. -/
def print (directive : Directive) : Text :=
  let argument : Text := match directive.argument with
    | some argument => '[' :: argument ++ [']']
    | none => []
  let body : Text := match directive.body with
    | some body => ':' :: body
    | none => []
  '<' :: directive.name ++ argument ++ body ++ ['>']

/-- The text of the argument, empty if it is absent. -/
def argumentText (directive : Directive) : Text := directive.argument.getD []

/-- The text of the body, empty if it is absent. -/
def bodyText (directive : Directive) : Text := directive.body.getD []

end Directive

/-- A piece of directive text. -/
inductive Node where
  | literal (content : Text)
  | directive (tag : Directive)
deriving DecidableEq, Repr

/-- The piece as text. -/
def Node.print : Node → Text
  | .literal content => content
  | .directive tag => tag.print

/-- Directive text cut into its pieces. -/
abbrev Template := List Node

namespace Template

/-- The template as text. -/
def print (template : Template) : Text := template.flatMap Node.print

/-- The top-level directives, in order. -/
def directives (template : Template) : List Directive :=
  template.filterMap fun node =>
    match node with
    | .directive tag => some tag
    | .literal _ => none

end Template

end DynamicPrompt
