import DynamicPrompt.Dictionary

/-!
# Scopes

A scope holds the variables and macros of one evaluation: variables are finished text,
macros are directive text that is expanded at every reading. A macro can be overridden for
a while. Each override remembers what it replaced, and the overrides of one name form a
stack of its own. Undoing an override that replaced nothing leaves the overriding text in
place, so the latest value stays readable.
-/

namespace DynamicPrompt

/-- The values of the variables, the macros, and for each overridden macro what its overrides
replaced, the latest first. No remembered stack is empty. -/
structure Scope where
  values : Dictionary Text
  macros : Dictionary Text
  replaced : Dictionary (List (Option Text))

namespace Scope

/-- The scope without bindings. -/
def empty : Scope := ⟨∅, ∅, ∅⟩

/-- Set a variable. -/
def setVariable (scope : Scope) (name value : Text) : Scope :=
  { scope with values := scope.values.insert name value }

/-- Set a macro. -/
def setMacro (scope : Scope) (name text : Text) : Scope :=
  { scope with macros := scope.macros.insert name text }

/-- Override a macro and remember what it was. -/
def pushMacro (scope : Scope) (name text : Text) : Scope :=
  let stack := (scope.replaced.find? name).getD []
  { scope with
    macros := scope.macros.insert name text
    replaced := scope.replaced.insert name (scope.macros.find? name :: stack) }

/-- Undo the latest override of a macro. Without one nothing changes. -/
def popMacro (scope : Scope) (name : Text) : Scope :=
  match scope.replaced.find? name with
  | none | some [] => scope
  | some (previous :: stack) =>
    { scope with
      macros := match previous with
        | some text => scope.macros.insert name text
        | none => scope.macros
      replaced :=
        if stack.isEmpty then scope.replaced.erase name
        else scope.replaced.insert name stack }

end Scope

end DynamicPrompt
