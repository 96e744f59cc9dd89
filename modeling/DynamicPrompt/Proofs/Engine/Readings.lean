import DynamicPrompt.Engine.Basic
import DynamicPrompt.Proofs.Expression.Lookup

/-!
# Conditions that only read variables

Reading a macro in a condition expands it, which may do anything. Reading any other name does
nothing: it has the value of a variable or, if it is the name of a function, none. A condition that
reads no macro therefore has one value, or fails for one cause, in all states with the same scope,
and its evaluation leaves the state alone. Of an expression this can be seen from its names.
-/

namespace DynamicPrompt

/-- The value of a name that is no macro: the names of functions have none, and a variable that is
not set is empty. -/
def Scope.variableValue (scope : Scope) (name : Text) : Option Value :=
  if Room.reserved.contains name then none
  else some (.text ((scope.values.find? name).getD []))

/-- No macro is read under this name: it is the name of a function, or no macro has it. -/
def Scope.ReadsNoMacro (scope : Scope) (name : Text) : Prop :=
  name ∈ Room.reserved ∨ scope.macros.find? name = none

/-- Reading a name that is no macro changes nothing. -/
theorem Room.run_lookup_variable (room : Room) (state : State) {name : Text}
    (noMacro : state.scope.ReadsNoMacro name) :
    (room.lookup name).run.run state = (some (state.scope.variableValue name), state) := by
  rw [lookup, Scope.variableValue]
  split
  · rfl
  · next free =>
    have absent : state.scope.macros.find? name = none :=
      noMacro.resolve_left fun member => free (List.contains_iff_mem.2 member)
    simp only [Checked.run_get_bind, absent]
    rfl

/-- In every state with this scope the condition has this value, or fails for this cause, and its
evaluation only reads variables: it suffices that names under which no macro is read are looked up
without effect. -/
def Language.Yields (language : Language) (scope : Scope) (condition : Text)
    (verdict : Except Error Value) : Prop :=
  match language.compile condition with
  | .error cause => verdict = .error cause
  | .ok program => ∀ (lookup : Text → Run (Option Value)) (state : State), state.scope = scope →
      (∀ name, scope.ReadsNoMacro name →
        (lookup name).run.run state = (some (scope.variableValue name), state)) →
      (program lookup).run.run.run state = (some verdict, state)

namespace Expression

/-- The value of a condition when its names have the values of variables. -/
def verdict (scope : Scope) (condition : Text) : Except Error Value :=
  match parse? condition with
  | some e =>
    (evaluate (fun name => (pure (scope.variableValue name) : Id (Option Value)))
      Language.functions e).run.run
  | none => .error .unreadableExpression

end Expression

/-- An expression whose names are no macros only reads variables. -/
theorem Language.expressions_yields {scope : Scope} {condition : Text}
    (noMacros : ∀ e, Expression.parse? condition = some e →
      ∀ name ∈ Expression.names e, scope.ReadsNoMacro name) :
    Language.expressions.Yields scope condition (Expression.verdict scope condition) := by
  rw [Yields, Expression.verdict]
  cases parsed : Expression.parse? condition with
  | none => simp only [expressions, parsed]
  | some e =>
    simp only [expressions, parsed]
    intro lookup state _ reads
    exact Expression.evaluate_reads e fun name member => reads name (noMacros e parsed name member)

/-- A condition that only reads variables has its value in a room as well. -/
theorem Room.run_evaluate {room : Room} {state : State} {condition : Text}
    {verdict : Except Error Value}
    (yields : room.settings.language.Yields state.scope condition verdict) :
    (room.evaluate condition).run.run.run state = (some verdict, state) := by
  rw [Language.Yields] at yields
  rw [evaluate]
  cases compiled : room.settings.language.compile condition with
  | error cause =>
    rw [compiled] at yields
    rw [yields]
    rfl
  | ok program =>
    rw [compiled] at yields
    exact yields room.lookup state rfl fun name noMacro => room.run_lookup_variable state noMacro

end DynamicPrompt
