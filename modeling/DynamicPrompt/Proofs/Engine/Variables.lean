import DynamicPrompt.Proofs.Engine.Readings
import DynamicPrompt.Proofs.Engine.Run
import DynamicPrompt.Proofs.Expression.Grammar
import DynamicPrompt.Proofs.Expression.Spelling
import DynamicPrompt.Proofs.Numeral.Natural
import DynamicPrompt.Proofs.Source.Variables

/-!
# Variables in evaluations

A macro is set by one tag and read by another, and conditions read it by its name. What the tags do
and what a condition sees is said here for every state, so that what is built on them need not open
them again. A tag expands the text of a macro as it is; a condition has it rewritten first, and where
there is no macro it sees the variable of that name.
-/

namespace DynamicPrompt

open Source

/-- The engine has the directives of variables and evaluates conditions as expressions, and its
transpiler leaves room for the text in a construct. -/
structure Engine.HandlesVariables (engine : Engine) : Prop where
  read : (engine.handler? "macro").map Handler.expand = some Directives.readMacro
  set : (engine.handler? "setmacro").map Handler.expand = some Directives.setMacro
  block : (engine.handler? "wcmatch").map Handler.expand = some Directives.matchBlock
  case : (engine.handler? "wccase").map Handler.expand = some Directives.matchCase
  language : engine.settings.language = Language.expressions
  nested : 2 ≤ engine.settings.transpiler.limit

/-- An engine with the standard directives handles variables. -/
theorem Engine.HandlesVariables.of_standard {engine : Engine}
    (standard : engine.handlers = Directives.standard)
    (language : engine.settings.language = Language.expressions)
    (nested : 2 ≤ engine.settings.transpiler.limit) : engine.HandlesVariables := by
  refine ⟨?_, ?_, ?_, ?_, language, nested⟩
  all_goals
    rw [Engine.handler?, standard]
    rfl

section Conditions

open Expression

/-- The name of a variable is a name of expressions. -/
def IsVariable.identifier {name : Text} (proper : IsVariable name) : Identifier where
  first := name
  others := []
  starts := by
    cases name with
    | nil => exact absurd rfl proper.filled
    | cons c rest =>
      have letter : c.isAlpha = true := proper.starts
      simp [startsName, letter]
  continues := by
    intro part member
    obtain rfl := List.mem_singleton.1 member
    refine ⟨proper.filled, List.all_eq_true.2 fun c inside => ?_⟩
    simp [continuesName, proper.letters c inside]
  free := proper.free

/-- It is written as it is. -/
theorem IsVariable.text_identifier {name : Text} (proper : IsVariable name) :
    proper.identifier.text = name := List.append_nil name

/-- It is a name of expressions. -/
theorem IsVariable.spelled {name : Text} (proper : IsVariable name) : Expression.IsName name :=
  ⟨proper.identifier, proper.text_identifier⟩

/-- A name is plain in a template. -/
theorem Expression.IsName.literal {name : Text} (named : IsName name) :
    name.all Template.isPlain = true := by
  rw [List.all_eq_true]
  intro c member
  have marks : ∀ mark ∈ "<>\\".toList, continuesName mark = false ∧ mark ≠ '-' := by decide
  have apart : ∀ mark ∈ "<>\\".toList, c ≠ mark :=
    fun mark among => named.ne member (marks mark among)
  simp [Template.isPlain, apart]

/-- There are no blanks around a name. -/
theorem Expression.IsName.trim {name : Text} (named : IsName name) : Text.trim name = name :=
  Text.trim_unspaced named.isUnspaced.unspaced

/-- A name by itself is a condition. -/
theorem Expression.parse?_name {name : Text} (named : IsName name) :
    parse? name = some (.name name) := by
  obtain ⟨identifier, rfl⟩ := named
  exact (ReadsWhole.operand (.name identifier.text)).parse? (Cuts.identifier identifier).tokens?

/-- The digit zero. -/
def zeroLiteral : NumberLiteral := ⟨"0", none, by decide, by simp, by decide⟩

/-- It denotes zero. -/
theorem value_zeroLiteral : zeroLiteral.value = 0 := by decide +kernel

/-- The condition that a name is empty compares the length of its value with zero. -/
theorem Expression.parse?_isEmptyCondition {name : Text} (proper : IsVariable name) :
    parse? (isEmptyCondition name) =
      some (.binary (.compare .eq) (.call "length" [.name name]) (.literal (.number 0))) := by
  have zero : Cuts zeroLiteral.text [.literal (.number 0)] := by
    have numeral := Cuts.numeral zeroLiteral
    rwa [value_zeroLiteral] at numeral
  have equality : Cuts "eq" [.operator (.compare .eq)] := .keyword rfl (by decide) (by decide)
  have compared : Cuts (" eq 0" : Text) ([.operator (.compare .eq)] ++ [.literal (.number 0)]) :=
    (equality.append (by decide) zero.space).space
  have named : Cuts (name ++ ')' :: " eq 0".toList)
      ([.name name] ++ .closer :: ([.operator (.compare .eq)] ++ [.literal (.number 0)])) := by
    have cut := Cuts.identifier proper.identifier
    rw [proper.text_identifier] at cut
    have closed : Cuts (')' :: " eq 0".toList)
        (.closer :: ([.operator (.compare .eq)] ++ [.literal (.number 0)])) :=
      .single rfl (fun _ => rfl) (by decide) compared
    exact cut.append (by decide) closed
  have called : Cuts "length" [.name "length"] :=
    .identifier ⟨"length", [], rfl, by decide, rfl⟩
  have enclosed : Cuts ('(' :: (name ++ ')' :: " eq 0".toList))
      (.opener :: ([.name name] ++ .closer ::
        ([.operator (.compare .eq)] ++ [.literal (.number 0)]))) :=
    .single rfl (fun _ => rfl) (by decide) named
  have whole := called.append (by decide) enclosed
  have argument : ReadsArguments ([.name name] ++ [.closer]) [.name name] :=
    .last (.operand (.name name))
  have between : infix? (.operator (.compare .eq)) = some (.compare .eq) := rfl
  have chain := ReadsChain.join between (.operand (.call "length" argument))
    (.operand (.literal (.number 0)))
  rw [isEmptyCondition_eq, chain.whole.parse? whole.tokens?]
  rfl

variable {lookup : Text → Run (Option Value)} {functions : Dictionary Function} {state after : State}
  {name seen : Text}

/-- If looking up a name stops, so does its evaluation. -/
theorem Expression.run_name_stops (stops : (lookup name).run.run state = (none, after)) :
    (evaluate lookup functions (.name name)).run.run.run state = (none, after) := by
  rw [evaluate]
  change ((liftM (lookup name) : Eval (Option Value)) >>= _).run.run.run state = _
  rw [Checked.run_bindEither, Checked.run_liftEither, stops]
  rfl

variable (looked : (lookup name).run.run state = (some (some (.text seen)), after))

include looked

/-- A name has the value that is looked up. -/
theorem Expression.run_name :
    (evaluate lookup functions (.name name)).run.run.run state =
      (some (.ok (.text seen)), after) := by
  have lifted : (liftM (lookup name) : Eval (Option Value)).run.run.run state =
      (some (.ok (some (.text seen))), after) := by
    rw [Checked.run_liftEither, looked]
    rfl
  rw [evaluate, Eval.run_bind lifted]
  rfl

/-- The length of the value is compared with zero as a double. -/
theorem Expression.run_length :
    (evaluate lookup functions (.binary (.compare .eq) (.call "length" [.name name])
      (.literal (.number 0)))).run.run.run state = (some (.ok (.bool seen.isEmpty)), after) := by
  have arguments : (evaluateAll lookup functions [.name name]).run.run.run state =
      (some (.ok [.text seen]), after) := by
    rw [evaluateAll, Eval.run_bind (run_name looked), evaluateAll]
    rfl
  have length : (evaluate lookup functions (.call "length" [.name name])).run.run.run state =
      (some (.ok (.number (Float.ofNat seen.length))), after) := by
    rw [evaluate, Eval.run_bind arguments]
    rfl
  have zero : (evaluate lookup functions (.literal (.number 0))).run.run.run after =
      (some (.ok (.number 0)), after) := by
    rw [evaluate]
    rfl
  have compared : holds .eq (order (.number (Float.ofNat seen.length)) (.number 0)) =
      seen.isEmpty := by
    change (orderNumbers (Float.ofNat seen.length) 0 == .eq) = seen.isEmpty
    rw [Bool.eq_iff_iff, beq_iff_eq, orderNumbers_ofNat, List.isEmpty_iff, List.length_eq_zero_iff]
  rw [evaluate]
  · rw [Eval.run_bind length, Eval.run_bind zero, operate, compared]
    rfl
  · rintro ⟨⟩
  · rintro ⟨⟩

end Conditions

namespace Room

variable {room : Room} {state after : State} {name seen : Text}

/-- A macro that is rewritten to itself is seen as it expands, and if that fails, as nothing. -/
theorem run_lookup_kept {text : Text} (free : name ∉ Room.reserved)
    (found : state.scope.macros.find? name = some text)
    (kept : room.settings.transpiler.transpile text = pure text) :
    (room.lookup name).run.run state =
      match (room.expand text).run.run.run state with
      | (some (.ok seen), after) => (some (some (.text seen)), after)
      | (some (.error cause), after) =>
        (some (some (.text [])), after.warned (.macroFailed name cause))
      | (none, after) => (none, after) := by
  have unreserved : ¬ Room.reserved.contains name = true :=
    fun member => free (List.contains_iff_mem.1 member)
  have reported : (Run.report (pure text)).run.run state = (some text, state) := rfl
  rw [lookup, if_neg unreserved]
  simp only [Checked.run_get_bind, found]
  rw [kept, Run.run_bind reported, Checked.run_bind]
  generalize (room.expand text).run.run.run state = outcome
  obtain ⟨_ | _ | _, after⟩ := outcome
  · rfl
  · rfl
  · rfl

/-- A macro that is rewritten to itself is seen as it expands. -/
theorem run_lookup_macro {text : Text} (free : name ∉ Room.reserved)
    (found : state.scope.macros.find? name = some text)
    (kept : room.settings.transpiler.transpile text = pure text)
    (expanded : (room.expand text).run.run.run state = (some (.ok seen), after)) :
    (room.lookup name).run.run state = (some (some (.text seen)), after) := by
  rw [run_lookup_kept free found kept, expanded]

variable (language : room.settings.language = Language.expressions)

include language

/-- A condition that is a name evaluates the name. -/
theorem evaluate_name (named : Expression.IsName name) :
    room.evaluate name = Expression.evaluate room.lookup Language.functions (.name name) := by
  have compiled : Language.expressions.compile name =
      .ok fun lookup => Expression.evaluate lookup Language.functions (.name name) := by
    simp only [Language.expressions, Expression.parse?_name named]
  rw [Room.evaluate, language, compiled]
  rfl

variable (looked : (room.lookup name).run.run state = (some (some (.text seen)), after))

include looked

/-- A name has the value that is looked up. -/
theorem run_evaluate_name (named : Expression.IsName name) :
    (room.evaluate name).run.run.run state = (some (.ok (.text seen)), after) := by
  rw [evaluate_name language named, Expression.run_name looked]

/-- The condition that a name is empty is true if nothing is seen. -/
theorem run_isEmptyCondition (proper : IsVariable name) :
    (room.isTrue (isEmptyCondition name)).run.run state = (some seen.isEmpty, after) := by
  have compiled : Language.expressions.compile (isEmptyCondition name) =
      .ok fun lookup => Expression.evaluate lookup Language.functions
        (.binary (.compare .eq) (.call "length" [.name name]) (.literal (.number 0))) := by
    simp only [Language.expressions, Expression.parse?_isEmptyCondition proper]
  have evaluated : (room.evaluate (isEmptyCondition name)).run.run.run state =
      (some (.ok (.bool seen.isEmpty)), after) := by
    rw [Room.evaluate, language, compiled]
    exact @Expression.run_length room.lookup Language.functions state after name seen looked
  rw [run_isTrue, evaluated]
  rfl

end Room

namespace Directives

variable {name text : Text} (named : Expression.IsName name)

include named

/-- A name and the flag behind it are told apart. -/
theorem nameAndFlag_name (flag : Text) :
    nameAndFlag (name ++ ',' :: flag) = (name, Text.lower (Text.trim flag)) := by
  have absent : ',' ∉ name := fun member => named.ne member (by decide) rfl
  rw [nameAndFlag, Text.cutAt?_behind absent]
  dsimp only
  rw [named.trim]

/-- The tag that stores a text in a macro does so and comes to nothing. -/
theorem run_setMacro (room : Room) (state : State) :
    (setMacro room (setTag name text)).run.run.run state =
      (some (.ok []), { state with scope := state.scope.setMacro name text }) := by
  have argument : nameAndFlag (setTag name text).argumentText = (name, "false".toList) :=
    nameAndFlag_name named "false"
  have filled : name.isEmpty = false := List.isEmpty_eq_false_iff.2 named.isUnspaced.filled
  have silent : yields "false".toList = false := by decide
  rw [setMacro, argument]
  dsimp only
  rw [requireName, filled, silent]
  rfl

end Directives

namespace Engine

/-- A tag that holds a name alone is read as it is printed. -/
theorem ofText_nameTag {tag name : Text} (tagged : Template.isTagName tag = true)
    (named : Expression.IsName name) :
    Template.ofText (Directive.print ⟨tag, none, some name⟩) =
      [.directive ⟨tag, none, some name⟩] := by
  have head : Template.HasPlainHead tag none := ⟨tagged, by simp⟩
  have inside : ∀ body ∈ some name, Template.ReadsBack body := by
    rintro body ⟨⟩
    have whole := Template.readsBack_literal named.literal Template.readsBack_nil
    rwa [List.append_nil] at whole
  exact Template.ofText_directive head.readable inside

/-- The tag that reads a macro is read as it is printed. -/
theorem ofText_macroTag {name : Text} (named : Expression.IsName name) :
    Template.ofText (macroTag name).print = [.directive (macroTag name)] :=
  ofText_nameTag (by decide) named

variable {engine : Engine} {state after : State} {name text value : Text} {levels : Nat}
  (handled : (engine.handler? "macro").map Handler.expand = some Directives.readMacro)
  (named : Expression.IsName name)

include handled named

/-- Reading what is no macro comes to nothing. -/
theorem run_macroTag_none (absent : state.scope.macros.find? name = none) :
    (engine.expandWithin (levels + 1) (macroTag name).print).run.run.run state =
      (some (.ok []), state) := by
  have read : (Directives.readMacro ⟨engine.settings, engine.expandWithin levels⟩
      (macroTag name)).run.run.run state = (some (.ok []), state) := by
    have body : (macroTag name).bodyText = name := rfl
    rw [Directives.run_readMacro, body, named.trim, absent]
  have whole := @run_expandWithin_directive state _ _ _ _ levels
    (ofText_macroTag named) handled
  rwa [read] at whole

omit handled in
/-- What the tag does is the expansion of the text of the macro. -/
theorem run_readMacro_found (found : state.scope.macros.find? name = some text) :
    (Directives.readMacro ⟨engine.settings, engine.expandWithin levels⟩
      (macroTag name)).run.run.run state = (engine.expandWithin levels text).run.run.run state := by
  have body : (macroTag name).bodyText = name := rfl
  rw [Directives.run_readMacro, body, named.trim, found]

/-- Reading a macro comes to what its text expands to, with one level less. -/
theorem run_macroTag (found : state.scope.macros.find? name = some text)
    (expanded : (engine.expandWithin levels text).run.run.run state = (some (.ok value), after)) :
    (engine.expandWithin (levels + 1) (macroTag name).print).run.run.run state =
      (some (.ok value), after) := by
  have whole := @run_expandWithin_directive state _ _ _ _ levels (ofText_macroTag named) handled
  rwa [run_readMacro_found named found, expanded] at whole

/-- While a level is left for the text, reading a macro does exactly what the expansion of the text
does. -/
theorem run_macroTag_found (found : state.scope.macros.find? name = some text) :
    (engine.expandWithin (levels + 2) (macroTag name).print).run.run.run state =
      (engine.expandWithin (levels + 1) text).run.run.run state := by
  have whole := @run_expandWithin_directive state _ _ _ _ (levels + 1)
    (ofText_macroTag named) handled
  rw [whole, run_readMacro_found named found]
  generalize done : (engine.expandWithin (levels + 1) text).run.run.run state = outcome
  obtain ⟨_ | outcome, after⟩ := outcome
  · rfl
  · obtain ⟨result, rfl⟩ := exists_ok_of_expandWithin done
    rfl

end Engine

end DynamicPrompt
