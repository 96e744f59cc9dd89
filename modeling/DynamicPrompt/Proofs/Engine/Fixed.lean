import DynamicPrompt.Proofs.Bindings
import DynamicPrompt.Proofs.Engine.Variables

/-!
# Values that are fixed at once

An assignment that fixes its text at once is written as two tags. The first sets a variable to what
the text comes to, and the second sets the macro of the same name to the tag that reads the variable.
A name is read by either tag or by a condition, and all three come to the value of the variable. They
meet one tag at most on the way, which no rewriting changes, and hand on the value without looking
into it, so they may read it as often as they like and in any order.
-/

namespace DynamicPrompt

open Source

/-- The tags of an assignment that fixes its text at once. -/
def fixingTags (name text : Text) : Template :=
  [.directive (setVarTag name text), .directive (setTag name (varTag name).print)]

/-- They are the directives that such an assignment is rewritten to. -/
theorem print_fixingTags (name text : Text) :
    (fixingTags name text).print = assignDirectives name text .set true := by
  simp only [assignDirectives_set, setDirectives_immediate, fixingTags, Template.print,
    List.flatMap_cons, List.flatMap_nil, List.append_nil, Node.print]

/-- The ways to read a name: by the tag of variables, by the tag of macros, and by the condition that
is the name alone. -/
inductive Reader where
  | byVariable
  | byMacro
  | byCondition
deriving DecidableEq, Repr

/-- What a reader makes of a name. -/
def Reader.read (room : Room) (name : Text) : Reader → Eval Value
  | byVariable => .text <$> room.expand (varTag name).print
  | byMacro => .text <$> room.expand (macroTag name).print
  | byCondition => room.evaluate name

/-- The state with a variable set to a value, and the macro of its name to the tag that reads it. -/
def State.fixing (state : State) (name value : Text) : State :=
  { state with scope := (state.scope.setVariable name value).setMacro name (varTag name).print }

/-- The value of a name is fixed: it is that of a variable, and the macro of the name is the tag that
reads this variable. -/
structure State.Fixes (state : State) (name value : Text) : Prop where
  holds : state.scope.values.find? name = some value
  reads : state.scope.macros.find? name = some (varTag name).print

/-- After the assignment the value is fixed. -/
theorem State.fixes_fixing (state : State) (name value : Text) :
    (state.fixing name value).Fixes name value where
  holds := (Dictionary.find?_insert _ name value name).trans (if_pos rfl)
  reads := (Dictionary.find?_insert _ name _ name).trans (if_pos rfl)

/-- The engine has the directives that set and read variables and macros and evaluates conditions as
expressions, and its transpiler rewrites something at least. -/
structure Engine.HandlesAssignments (engine : Engine) : Prop where
  setVariable : (engine.handler? "setvar").map Handler.expand = some Directives.setVariable
  readVariable : (engine.handler? "var").map Handler.expand = some Directives.readVariable
  setMacro : (engine.handler? "setmacro").map Handler.expand = some Directives.setMacro
  readMacro : (engine.handler? "macro").map Handler.expand = some Directives.readMacro
  language : engine.settings.language = Language.expressions
  positive : 0 < engine.settings.transpiler.limit

/-- An engine with the standard directives handles assignments. -/
theorem Engine.HandlesAssignments.of_standard {engine : Engine}
    (standard : engine.handlers = Directives.standard)
    (language : engine.settings.language = Language.expressions)
    (positive : 0 < engine.settings.transpiler.limit) : engine.HandlesAssignments := by
  refine ⟨?_, ?_, ?_, ?_, language, positive⟩
  all_goals
    rw [Engine.handler?, standard]
    rfl

section Names

variable {name : Text} (named : Expression.IsName name)

include named

/-- The tag that reads a variable is rewritten to itself. Underscores and keywords in the name do not
matter, because it stands in a tag. -/
theorem transpile_varTag {transpiler : Transpiler} (positive : 0 < transpiler.limit) :
    transpiler.transpile (varTag name).print = pure (varTag name).print := by
  have ordinary : ∀ c ∈ name, c ∉ tagMarks := by
    have marks : ∀ mark ∈ tagMarks, Expression.continuesName mark = false ∧ mark ≠ '-' := by decide
    exact fun c member among => named.ne member (marks c among) rfl
  have body : Held (':' :: name) :=
    (Held.of_free (show ∀ c ∈ [':'], c ∉ tagMarks by decide)).append (.of_free ordinary)
  have settled : Settled (varTag name).print := .print (by decide) (by decide) body
  have first : ∀ c ∈ (varTag name).print.head?, isBlank c = false ∧ c ≠ '\x22' ∧ c ≠ '\x27' := by
    rintro c ⟨⟩
    decide
  exact settled.transpile (clauseLabels_of_first first) positive

/-- A variable is set to what the body comes to, and nothing is yielded. -/
theorem Directives.run_setVariable {room : Room} {text value : Text} {state after : State}
    (expanded : (room.expand text).run.run.run state = (some (.ok value), after)) :
    (setVariable room (setVarTag name text)).run.run.run state =
      (some (.ok []), { after with scope := after.scope.setVariable name value }) := by
  have argument : nameAndFlag (setVarTag name text).argumentText = (name, "false".toList) :=
    nameAndFlag_name named "false"
  have filled : name.isEmpty = false := List.isEmpty_eq_false_iff.2 named.isUnspaced.filled
  have required : (requireName name (setVarTag name text)).run.run.run state =
      (some (.ok ()), state) := by
    rw [requireName, filled]
    rfl
  have silent : yields "false".toList = false := by decide
  have body : (setVarTag name text).bodyText = text := rfl
  rw [setVariable, argument]
  dsimp only
  rw [Eval.run_bind required, body, Eval.run_bind expanded, silent]
  rfl

/-- A variable that is set is read as it is. -/
theorem Directives.run_readVariable {room : Room} {value : Text} {state : State}
    (found : state.scope.values.find? name = some value) :
    (readVariable room (varTag name)).run.run.run state = (some (.ok value), state) := by
  have body : (varTag name).bodyText = name := rfl
  change (some (Except.ok ((state.scope.values.find? (Text.trim (varTag name).bodyText)).getD [])),
    state) = _
  rw [body, named.trim, found]
  rfl

end Names

namespace Engine

section Readers

variable {engine : Engine} (handles : engine.HandlesAssignments) {name : Text}
  (named : Expression.IsName name) {text value : Text} {state after : State} {levels : Nat}

include handles named

/-- The tag of a variable comes to its value while a level is left. -/
theorem run_varTag (found : state.scope.values.find? name = some value) :
    (engine.expandWithin (levels + 1) (varTag name).print).run.run.run state =
      (some (.ok value), state) := by
  have tag : Template.ofText (varTag name).print = [.directive (varTag name)] :=
    ofText_nameTag (by decide) named
  refine (run_expandWithin_directive levels tag handles.readVariable).trans ?_
  rw [Directives.run_readVariable named found]

/-- An assignment that fixes its text at once expands it a single time. -/
theorem run_fixingTags {room : Room}
    (expanded : (room.expand text).run.run.run state = (some (.ok value), after)) :
    (engine.expandTemplate room (fixingTags name text)).run.run state =
      (some [], after.fixing name value) := by
  obtain ⟨setter, known, expands⟩ := Option.map_eq_some_iff.1 handles.setVariable
  obtain ⟨setter', known', expands'⟩ := Option.map_eq_some_iff.1 handles.setMacro
  have first : (engine.expandDirective room (setVarTag name text)).run.run state =
      (some [], { after with scope := after.scope.setVariable name value }) := by
    rw [run_expandDirective room known, expands, Directives.run_setVariable named expanded]
  have second (now : State) :
      (engine.expandDirective room (setTag name (varTag name).print)).run.run now =
        (some [], { now with scope := now.scope.setMacro name (varTag name).print }) := by
    rw [run_expandDirective room known', expands', Directives.run_setMacro named]
  rw [fixingTags, expandTemplate_cons, expandNode, Run.run_bind first, expandTemplate_cons,
    expandNode, bind_assoc, Run.run_bind (second _)]
  rfl

variable (free : name ∉ Room.reserved)

include free

/-- Every reader comes to a fixed value and leaves the state alone. -/
theorem run_read (fixed : state.Fixes name value) (reader : Reader) :
    (reader.read ⟨engine.settings, engine.expandWithin (levels + 2)⟩ name).run.run.run state =
      (some (.ok (.text value)), state) := by
  have expanded (more : Nat) :
      (engine.expandWithin (more + 1) (varTag name).print).run.run.run state =
        (some (.ok value), state) :=
    run_varTag handles named fixed.holds
  cases reader with
  | byVariable =>
    rw [Reader.read, map_eq_pure_bind, Eval.run_bind (expanded (levels + 1))]
    rfl
  | byMacro =>
    -- The macro is expanded to the tag of the variable, with one level less.
    have whole := run_macroTag handles.readMacro named fixed.reads (expanded levels)
    rw [Reader.read, map_eq_pure_bind, Eval.run_bind whole]
    rfl
  | byCondition =>
    -- What a condition looks up is rewritten before it is expanded.
    have kept := transpile_varTag named handles.positive
    exact Room.run_evaluate_name handles.language
      (Room.run_lookup_macro free fixed.reads kept (expanded (levels + 1))) named

/-- However often and in whatever order a fixed value is read, every reading comes to it, and the
state is what it was. -/
theorem run_reads (fixed : state.Fixes name value) (readers : List Reader) :
    (readers.mapM
        (Reader.read ⟨engine.settings, engine.expandWithin (levels + 2)⟩ name)).run.run.run state =
      (some (.ok (readers.map fun _ => .text value)), state) := by
  induction readers with
  | nil => rfl
  | cons reader readers inductionHypothesis =>
    rw [List.mapM_cons, Eval.run_bind (run_read handles named free fixed reader),
      Eval.run_bind inductionHypothesis]
    rfl

/-- An assignment that fixes its text at once fixes it for all readers. The text may be any and the
state may be any with two levels left: the text comes to some value, unless its expansion stops, and
then the tags of the assignment yield nothing, and from then on the tag of the variable, the tag of
the macro and the condition that is the name come to exactly that value, as often and in whatever
order they are read, with no random word taken, no warning raised and nothing in the scope changed.
The tags are those that such an assignment is rewritten to. The name may be any that conditions can
read, and nothing is asked of the value, which may look like tags or source syntax. -/
theorem fixingTags_read (levels : Nat) (text : Text) (state : State) :
    let room : Room := ⟨engine.settings, engine.expandWithin (levels + 2)⟩
    (fixingTags name text).print = assignDirectives name text .set true ∧
      ((∃ value, ((room.expand text).run.run.run state).1 = some (.ok value)) ∨
        ((room.expand text).run.run.run state).1 = none) ∧
      ∀ value after, (room.expand text).run.run.run state = (some (.ok value), after) →
        (engine.expandTemplate room (fixingTags name text)).run.run state =
            (some [], after.fixing name value) ∧
          ∀ readers : List Reader,
            (readers.mapM (Reader.read room name)).run.run.run (after.fixing name value) =
              (some (.ok (readers.map fun _ => .text value)), after.fixing name value) := by
  intro room
  refine ⟨print_fixingTags name text, ?_, fun value after expanded =>
    ⟨run_fixingTags handles named expanded,
      run_reads handles named free (after.fixes_fixing name value)⟩⟩
  cases done : ((room.expand text).run.run.run state).1 with
  | none => exact .inr rfl
  | some outcome =>
    obtain ⟨value, rfl⟩ := exists_ok_of_expandWithin (Prod.ext done rfl)
    exact .inl ⟨value, rfl⟩

end Readers

/-- A text with a tag that no engine knows, a variant, a reference and a variable in it. -/
def unfinishedText : Text := "<note:\x7bx|y\x7d> __z__ $\x7bn\x7d"

/-- It is fixed as it is written, under a name that could hold a reference. -/
theorem fixingTags_read_unfinished :
    standard.HandlesAssignments ∧ Expression.IsName "sea__sky-2" ∧
      "sea__sky-2".toList ∉ Room.reserved ∧
      ∃ fixed,
        (standard.expandTemplate standard.room (fixingTags "sea__sky-2" unfinishedText)).run.run
            (State.start (Random.Stream.ofSeed #[] 0)) = (some [], fixed) ∧
          ([.byCondition, .byMacro, .byVariable, .byMacro].mapM
              (Reader.read standard.room "sea__sky-2")).run.run.run fixed =
            (some (.ok (List.replicate 4 (.text unfinishedText))), fixed) := by
  have handles : standard.HandlesAssignments := .of_standard rfl rfl (by decide)
  have named : Expression.IsName "sea__sky-2" :=
    ⟨⟨"sea__sky", ["2".toList], rfl, by decide, rfl⟩, rfl⟩
  have free : "sea__sky-2".toList ∉ Room.reserved := by decide
  have kept : ((standard.room.expand unfinishedText).run.run.run
      (State.start (Random.Stream.ofSeed #[] 0))).1 = some (.ok unfinishedText) := by decide +kernel
  generalize done : (standard.room.expand unfinishedText).run.run.run
    (State.start (Random.Stream.ofSeed #[] 0)) = outcome at kept
  obtain ⟨_, after⟩ := outcome
  cases kept
  obtain ⟨assigned, reads⟩ := (fixingTags_read handles named free 62 unfinishedText
    (State.start (Random.Stream.ofSeed #[] 0))).2.2 unfinishedText after done
  exact ⟨handles, named, free, _, assigned, reads [.byCondition, .byMacro, .byVariable, .byMacro]⟩

end Engine

end DynamicPrompt
