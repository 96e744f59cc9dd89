import DynamicPrompt.Choice.Pool
import DynamicPrompt.Expression.Evaluation
import DynamicPrompt.Scope
import DynamicPrompt.Source.Transpiler
import DynamicPrompt.Template.Parser

/-!
# Engines

An engine expands directive text. It has a handler for each tag name that it knows and
settings that the handlers share. One evaluation has a state of its own: a scope, the state
of the innermost match, the negative prompt, the warnings and the random words left.

A handler works in a room, which offers it the settings and the expansion of text one level
deeper. It may fail; a run, by contrast, does not, since failures inside it have become
warnings. Handlers are written against the room alone and never call each other, so the depth
of nesting is counted in one place. Both stop for good where a condition reads a macro whose
rewriting overflows.

For estimates a handler has a second function. Its state is the number of characters of the
longest case seen in the innermost match.
-/

namespace DynamicPrompt

/-- The state of the innermost match: there is none, no case has fired yet, or one has. -/
inductive MatchState where
  | outside
  | undecided
  | decided
deriving DecidableEq, Repr

/-- The state of one evaluation. -/
structure State where
  scope : Scope
  matching : MatchState
  negative : Text
  warnings : Warnings
  stream : Random.Stream

namespace State

/-- The state before anything has been expanded. -/
def start (stream : Random.Stream) : State := ⟨Scope.empty, .outside, [], [], stream⟩

end State

/-- Work on the state that does not fail. -/
abbrev Run := Checked State

/-- Work on the state that may fail; what it has done to the state before remains. -/
abbrev Eval := ExceptT Error Run

/-- What one expansion yields: the text, the negative prompt, the values of the variables at the
end, and the warnings. -/
structure Expansion where
  text : Text
  negative : Text
  values : Dictionary Text
  warnings : Warnings

namespace Run

/-- Raise a warning. -/
def warn (warning : Warning) : Run Unit :=
  modify fun state => { state with warnings := state.warnings ++ [warning] }

/-- Work that reports, its warnings added to those of the state. -/
def report {α : Type} (work : Reporting α) : Run α := OptionT.mk fun state =>
  let (result, warnings) := work.run.run state.warnings
  (result, { state with warnings })

/-- A draw from the random words of the state. -/
def drawing {α : Type} (draw : Random.Stream → α × Random.Stream) : Run α :=
  OptionT.lift fun state =>
    let (result, stream) := draw state.stream
    (result, { state with stream })

/-- Change the scope. -/
def changeScope (change : Scope → Scope) : Run Unit :=
  modify fun state => { state with scope := change state.scope }

/-- Add to the negative prompt, before or after what is there. -/
def addNegative (text : Text) (before : Bool) : Run Unit :=
  modify fun state =>
    { state with negative := if before then text ++ state.negative else state.negative ++ text }

/-- Set the state of the innermost match. -/
def setMatching (matching : MatchState) : Run Unit :=
  modify fun state => { state with matching }

end Run

/-- The language of conditions: a text is compiled, and what it compiles to is run against
a lookup of names. -/
structure Language where
  compile : Text → Except Error ((Text → Run (Option Value)) → Eval Value)

namespace Language

/-- The functions that conditions may call besides those of every expression. -/
def functions : Dictionary Expression.Function :=
  Dictionary.ofList [("contains", Expression.contains), ("icontains", Expression.containsLower)]

/-- The language of expressions. -/
def expressions : Language where
  compile source :=
    match Expression.parse? source with
    | some e => .ok fun lookup => Expression.evaluate lookup functions e
    | none => .error .unreadableExpression

end Language

/-- What the handlers of an engine share: the wildcards to draw from, the transpiler of
macros read in conditions, the selection policy, the nesting limit and the language of
conditions. -/
structure Settings where
  wildcards : WildcardCollection
  transpiler : Transpiler
  selection : Selection
  limit : Nat
  language : Language

namespace Settings

/-- No wildcards, random selection, and room for sixty-four levels. -/
def standard : Settings :=
  ⟨WildcardCollection.empty, Transpiler.standard, .random, 64, Language.expressions⟩

/-- The settings with other wildcards, whose names the transpiler then knows. -/
def withWildcards (settings : Settings) (wildcards : WildcardCollection) : Settings :=
  { settings with
    wildcards := wildcards
    transpiler := settings.transpiler.withKnown wildcards.names }

end Settings

/-- What a handler may use besides the state. -/
structure Room where
  settings : Settings
  expand : Text → Eval Text

namespace Room

/-- The names of functions, which conditions never look up in the scope. -/
def reserved : List Text := ["any", "contains", "icontains", "length"]

/-- The value of a name in a condition. A macro is rewritten and expanded at every reading,
a variable has its text, and any other name is empty. -/
def lookup (room : Room) (name : Text) : Run (Option Value) := do
  if reserved.contains name then return none
  let scope := (← get).scope
  match scope.macros.find? name with
  | some text =>
    let directives ← Run.report (room.settings.transpiler.transpile text)
    match ← (room.expand directives).run with
    | .ok value => return some (.text value)
    | .error cause =>
      Run.warn (.macroFailed name cause)
      return some (.text [])
  | none => return some (.text ((scope.values.find? name).getD []))

/-- The value of a condition. -/
def evaluate (room : Room) (source : Text) : Eval Value := do
  let program ← liftExcept (room.settings.language.compile source)
  program room.lookup

/-- Whether a condition is true. One that has no value counts as false, with a warning. -/
def isTrue (room : Room) (source : Text) : Run Bool := do
  match ← (room.evaluate source).run with
  | .ok value => return value.isTruthy
  | .error cause =>
    Run.warn (.conditionFailed source cause)
    return false

/-- The expansion of the body of a match, whose state is put back afterwards whatever the
outcome. -/
def expandMatch (room : Room) (body : Text) : Eval Text := do
  let saved := (← get).matching
  Run.setMatching .undecided
  let result : Except Error Text ← liftM (room.expand body).run
  Run.setMatching saved
  liftExcept result

end Room

/-- Work of an estimate. The state is the number of characters of the longest case seen in
the innermost match. -/
abbrev Estimate := StateM Nat

/-- What the second function of a handler may use. -/
structure EstimateRoom where
  settings : Settings
  estimate : Text → Estimate Text

namespace EstimateRoom

/-- The estimate of the body of a match, with a fresh record of its cases. -/
def estimateMatch (room : EstimateRoom) (body : Text) : Estimate Text := fun longest =>
  ((room.estimate body 0).1, longest)

end EstimateRoom

/-- The part of a case that exceeds the longest case seen so far. -/
def recordCase (text : Text) : Estimate Text := fun longest =>
  if longest < text.length then (text.drop longest, text.length) else ([], longest)

/-- The functions that expand and estimate the tags of one name. Without a function of its
own, the estimate of a tag is that of its body. -/
structure Handler where
  expand : Room → Directive → Eval Text
  estimate : Option (EstimateRoom → Directive → Estimate Text)

/-- Handlers by lower-case tag name, and what they share. -/
structure Engine where
  settings : Settings
  handlers : Dictionary Handler

namespace Engine

/-- The engine with one more handler; tag names do not depend on case. -/
def withHandler (engine : Engine) (name : Text) (handler : Handler) : Engine :=
  { engine with handlers := engine.handlers.insert (Text.lower name) handler }

/-- The handler of a tag name. -/
def handler? (engine : Engine) (name : Text) : Option Handler :=
  (engine.handlers.find? name).or (engine.handlers.find? (Text.lower name))

/-- The expansion of one directive. A tag without a handler stays as it is, and a failure
becomes a warning and an empty text. -/
def expandDirective (engine : Engine) (room : Room) (directive : Directive) : Run Text :=
  match engine.handler? directive.name with
  | none => pure directive.print
  | some handler => do
    match ← (handler.expand room directive).run with
    | .ok text => return text
    | .error cause =>
      Run.warn (.directiveFailed directive.name cause)
      return []

/-- The expansion of one piece. -/
def expandNode (engine : Engine) (room : Room) : Node → Run Text
  | .literal content => pure content
  | .directive tag => engine.expandDirective room tag

/-- The expansion of a template, piece by piece. -/
def expandTemplate (engine : Engine) (room : Room) (template : Template) : Run Text :=
  return (← template.mapM (engine.expandNode room)).flatten

/-- The expansion of a text when so many levels are left. -/
def expandWithin (engine : Engine) : Nat → Text → Eval Text
  | 0, _ => throw (.recursionLimit engine.settings.limit)
  | levels + 1, text =>
    engine.expandTemplate ⟨engine.settings, engine.expandWithin levels⟩ (Template.ofText text)

/-- The room at the top level of an evaluation. -/
def room (engine : Engine) : Room :=
  ⟨engine.settings, engine.expandWithin engine.settings.limit⟩

/-- What an evaluation yields when it ends with a text. -/
def finish (text : Text) (state : State) : Expansion :=
  ⟨text, state.negative, state.scope.values, state.warnings⟩

/-- The expansion of a line of directive text, unless a number overflows, and the random words
left. -/
def expand (engine : Engine) (text : Text) (stream : Random.Stream) :
    Option (Except Error Expansion) × Random.Stream :=
  let (result, state) := (engine.room.expand text).run.run.run (State.start stream)
  (result.map fun outcome => outcome.map fun text => finish text state, state.stream)

/-- The expansion of a line of source syntax. The warnings of its rewriting come first. -/
def expandSource (engine : Engine) (line : Text) (stream : Random.Stream) :
    Option (Except Error Expansion) × Random.Stream :=
  match (engine.settings.transpiler.transpile line).run.run [] with
  | (none, _) => (none, stream)
  | (some text, warnings) =>
    let (result, stream) := engine.expand text stream
    (result.map fun outcome => outcome.map fun expansion =>
      { expansion with warnings := warnings ++ expansion.warnings }, stream)

/-- The estimate of one directive. -/
def estimateDirective (engine : Engine) (room : EstimateRoom) (directive : Directive) :
    Estimate Text :=
  match engine.handler? directive.name with
  | none => pure directive.print
  | some handler =>
    match handler.estimate with
    | some estimate => estimate room directive
    | none => room.estimate directive.bodyText

/-- The estimate of one piece. -/
def estimateNode (engine : Engine) (room : EstimateRoom) : Node → Estimate Text
  | .literal content => pure content
  | .directive tag => engine.estimateDirective room tag

/-- The estimate of a template, piece by piece. -/
def estimateTemplate (engine : Engine) (room : EstimateRoom) (template : Template) :
    Estimate Text :=
  return (← template.mapM (engine.estimateNode room)).flatten

/-- The estimate of a text when so many levels are left; nothing is left of text beyond
them. -/
def estimateWithin (engine : Engine) : Nat → Text → Estimate Text
  | 0, _ => pure []
  | levels + 1, text =>
    engine.estimateTemplate ⟨engine.settings, engine.estimateWithin levels⟩
      (Template.ofText text)

/-- The room at the top level of an estimate. -/
def estimateRoom (engine : Engine) : EstimateRoom :=
  ⟨engine.settings, engine.estimateWithin engine.settings.limit⟩

/-- Text at least as long as the expansions of a line that the handlers' estimates bound. -/
def estimate (engine : Engine) (text : Text) : Text := (engine.estimateRoom.estimate text 0).1

end Engine

end DynamicPrompt
