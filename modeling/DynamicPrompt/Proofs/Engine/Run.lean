import DynamicPrompt.Engine.Directives
import DynamicPrompt.Proofs.Work

/-!
# Steps of an evaluation

What each step of an evaluation yields in a state and which state it leaves, for the steps that
look at the state or handle failures: conditions, matches, cases, and directives with their
handlers. What is said about evaluations rests on these laws and not on how the steps are written.
-/

namespace DynamicPrompt

/-- The expansion that is a text and nothing else. -/
def Expansion.ofText (text : Text) : Expansion := ⟨text, [], ∅, []⟩

/-- The text of an expansion, if the evaluation has one. -/
def Expansion.text? (outcome : Option (Except Error Expansion)) : Option Text :=
  outcome.bind fun result => result.toOption.map Expansion.text

/-- An outcome that has a text is an expansion with this text. -/
theorem Expansion.exists_of_text {outcome : Option (Except Error Expansion)} {text : Text}
    (known : Expansion.text? outcome = some text) :
    ∃ expansion, outcome = some (.ok expansion) ∧ expansion.text = text := by
  rcases outcome with _ | cause | expansion
  · cases known
  · cases known
  · exact ⟨expansion, rfl, Option.some.inj known⟩

variable (state : State)

/-- The state with a warning more. -/
def State.warned (warning : Warning) : State := { state with warnings := state.warnings ++ [warning] }

/-- The state with another state of the innermost match. -/
def State.matched (matching : MatchState) : State := { state with matching }

/-- A condition that is an expression becomes the evaluation of the expression. -/
theorem Language.expressions_program {source : Text}
    {program : (Text → Run (Option Value)) → Eval Value}
    (compiled : expressions.compile source = .ok program) :
    ∃ e, program = fun lookup => Expression.evaluate lookup functions e := by
  simp only [expressions] at compiled
  split at compiled
  · next e _ => exact ⟨e, (Except.ok.inj compiled).symm⟩
  · contradiction

/-- What follows a step goes on in the state that the step has left. -/
theorem Run.run_bind {α β : Type} {work : Run α} {next : α → Run β} {value : α} {after : State}
    {state : State} (done : work.run.run state = (some value, after)) :
    (work >>= next).run.run state = (next value).run.run after := by
  rw [Checked.run_bind, done]

/-- What follows a step that does not fail goes on in the state that the step has left. -/
theorem Eval.run_bind {α β : Type} {work : Eval α} {next : α → Eval β} {value : α} {after : State}
    {state : State} (done : work.run.run.run state = (some (.ok value), after)) :
    (work >>= next).run.run.run state = (next value).run.run.run after := by
  rw [Checked.run_bindEither, done]

/-- The same after a step that cannot fail. -/
theorem Eval.run_bind_lift {α β : Type} {work : Run α} {next : α → Eval β} {value : α}
    {after : State} {state : State} (done : work.run.run state = (some value, after)) :
    ((liftM work : Eval α) >>= next).run.run.run state = (next value).run.run.run after := by
  rw [Checked.run_bindEither, Checked.run_liftEither, done]
  rfl

namespace Room

variable (room : Room)

/-- A condition without a value counts as false and warns. -/
theorem run_isTrue (source : Text) :
    (room.isTrue source).run.run state =
      match (room.evaluate source).run.run.run state with
      | (some (.ok value), after) => (some value.isTruthy, after)
      | (some (.error cause), after) =>
        (some false, after.warned (.conditionFailed source cause))
      | (none, after) => (none, after) := by
  rw [isTrue, Checked.run_bind]
  generalize (room.evaluate source).run.run.run state = outcome
  obtain ⟨_ | _ | _, after⟩ := outcome
  · rfl
  · rfl
  · rfl

/-- The body of a match is expanded as undecided, and the state of the match around it is put
back, unless the expansion stops. -/
theorem run_expandMatch (body : Text) :
    (room.expandMatch body).run.run.run state =
      match (room.expand body).run.run.run (state.matched .undecided) with
      | (some result, after) => (some result, after.matched state.matching)
      | (none, after) => (none, after) := by
  have expanded : (room.expandMatch body).run.run.run state =
      ((liftM (room.expand body).run : Eval (Except Error Text)) >>= fun result => do
        Run.setMatching state.matching
        liftExcept result).run.run.run (state.matched .undecided) := rfl
  rw [expanded, Checked.run_bindEither, Checked.run_liftEither]
  generalize (room.expand body).run.run.run (state.matched .undecided) = outcome
  obtain ⟨_ | _ | _, after⟩ := outcome
  · rfl
  · rfl
  · rfl

end Room

namespace Directives

variable {state} (room : Room) (d : Directive)

/-- A macro is expanded as it is in the state, and one that is not set comes to nothing. -/
theorem run_readMacro :
    (readMacro room d).run.run.run state =
      match state.scope.macros.find? (Text.trim d.bodyText) with
      | some text => (room.expand text).run.run.run state
      | none => (some (.ok []), state) := by
  have got : (get : Eval State).run.run.run state = (some (.ok state), state) := rfl
  rw [readMacro, Eval.run_bind got]
  cases state.scope.macros.find? (Text.trim d.bodyText) with
  | some text => rfl
  | none => rfl

/-- What a case does is decided by the state of the match. -/
theorem run_matchCase :
    (matchCase room d).run.run.run state =
      (match state.matching with
        | .outside => throw (.usage .caseOutsideMatch)
        | .decided => pure []
        | .undecided =>
          if (Text.trim d.argumentText).isEmpty then do
            Run.setMatching .decided
            room.expand d.bodyText
          else do
            if ← room.isTrue (Text.trim d.argumentText) then
              Run.setMatching .decided
              room.expand (Text.trim d.bodyText)
            else return [] : Eval Text).run.run.run state :=
  rfl

/-- A case outside every match fails. -/
theorem run_matchCase_outside (outside : state.matching = .outside) :
    (matchCase room d).run.run.run state = (some (.error (.usage .caseOutsideMatch)), state) := by
  rw [run_matchCase, outside]
  rfl

/-- A case of a decided match does nothing. -/
theorem run_matchCase_decided (decided : state.matching = .decided) :
    (matchCase room d).run.run.run state = (some (.ok []), state) := by
  rw [run_matchCase, decided]
  rfl

variable {d}

/-- A case without a condition decides the match before its body is expanded. -/
theorem run_matchCase_unconditional (undecided : state.matching = .undecided)
    (unconditional : (Text.trim d.argumentText).isEmpty = true) :
    (matchCase room d).run.run.run state =
      (room.expand d.bodyText).run.run.run (state.matched .decided) := by
  rw [run_matchCase, undecided]
  dsimp only
  rw [if_pos unconditional]
  rfl

/-- A case with a condition decides the match, in the state that the condition has left, if its
condition is true, and then its body is expanded without the blanks around it. -/
theorem run_matchCase_conditional (undecided : state.matching = .undecided)
    (conditional : (Text.trim d.argumentText).isEmpty = false) :
    (matchCase room d).run.run.run state =
      match (room.isTrue (Text.trim d.argumentText)).run.run state with
      | (some true, after) =>
        (room.expand (Text.trim d.bodyText)).run.run.run (after.matched .decided)
      | (some false, after) => (some (.ok []), after)
      | (none, after) => (none, after) := by
  rw [run_matchCase, undecided]
  dsimp only
  rw [if_neg (by rw [conditional]; exact Bool.false_ne_true), Checked.run_bindEither,
    Checked.run_liftEither]
  generalize (room.isTrue (Text.trim d.argumentText)).run.run state = outcome
  obtain ⟨_ | _ | _, after⟩ := outcome
  · rfl
  · rfl
  · rfl

end Directives

namespace Engine

variable {engine : Engine} {state} (room : Room)

/-- A tag yields what its handler yields, or nothing and a warning if the handler fails. -/
theorem run_expandDirective {directive : Directive} {handler : Handler}
    (handled : engine.handler? directive.name = some handler) :
    (engine.expandDirective room directive).run.run state =
      match (handler.expand room directive).run.run.run state with
      | (some (.ok text), after) => (some text, after)
      | (some (.error cause), after) =>
        (some [], after.warned (.directiveFailed directive.name cause))
      | (none, after) => (none, after) := by
  rw [expandDirective, handled]
  dsimp only
  rw [Checked.run_bind]
  generalize (handler.expand room directive).run.run.run state = outcome
  obtain ⟨_ | _ | _, after⟩ := outcome
  · rfl
  · rfl
  · rfl

/-- The pieces of a template are expanded one after the other. -/
theorem expandTemplate_cons (node : Node) (rest : Template) :
    engine.expandTemplate room (node :: rest) = do
      let first ← engine.expandNode room node
      let others ← engine.expandTemplate room rest
      return first ++ others := by
  rw [expandTemplate, expandTemplate, List.mapM_cons]
  simp only [bind_assoc, pure_bind, List.flatten_cons]

/-- Behind a tag the other pieces are expanded in the state that the tag has left. -/
theorem run_expandTemplate_directive {tag : Directive} {text : Text} {after : State}
    (done : (engine.expandDirective room tag).run.run state = (some text, after))
    (rest : Template) :
    (engine.expandTemplate room (.directive tag :: rest)).run.run state =
      ((text ++ ·) <$> engine.expandTemplate room rest).run.run after := by
  rw [expandTemplate_cons, expandNode, Run.run_bind done, map_eq_pure_bind]

/-- A text in front of what is expanded. -/
theorem expandTemplate_literal (content : Text) (rest : Template) :
    engine.expandTemplate room (.literal content :: rest) =
      (content ++ ·) <$> engine.expandTemplate room rest := by
  rw [expandTemplate_cons, expandNode, pure_bind, map_eq_pure_bind]

/-- A literal character before a template. -/
theorem expandTemplate_consChar (c : Char) (rest : Template) :
    engine.expandTemplate room (Template.consChar c rest) =
      (c :: ·) <$> engine.expandTemplate room rest := by
  unfold Template.consChar
  split
  · rw [expandTemplate_literal, expandTemplate_literal, ← comp_map]
    rfl
  · rw [expandTemplate_literal]
    rfl

/-- A text before a template, whether or not that begins with a text. -/
theorem expandTemplate_content (content : Text) (rest : Template) :
    engine.expandTemplate room (content.foldr Template.consChar rest) =
      (content ++ ·) <$> engine.expandTemplate room rest := by
  induction content with
  | nil => exact (id_map _).symm
  | cons c content inductionHypothesis =>
    rw [List.foldr_cons, expandTemplate_consChar, inductionHypothesis, ← comp_map]
    rfl

/-- With a level left nothing fails. -/
theorem exists_ok_of_expandWithin {levels : Nat} {text : Text} {after : State}
    {outcome : Except Error Text}
    (done : (engine.expandWithin (levels + 1) text).run.run.run state = (some outcome, after)) :
    ∃ result, outcome = .ok result := by
  rw [expandWithin, Checked.run_liftEither] at done
  obtain ⟨result, _, same⟩ := Option.map_eq_some_iff.1 (congrArg Prod.fst done)
  exact ⟨result, same.symm⟩

/-- While levels are left, the text of one tag expands to what its handler yields, or to nothing
and a warning if the handler fails. -/
theorem run_expandWithin_directive {text : Text} {d : Directive}
    {handle : Room → Directive → Eval Text} (levels : Nat)
    (read : Template.ofText text = [.directive d])
    (handled : (engine.handler? d.name).map Handler.expand = some handle) :
    (engine.expandWithin (levels + 1) text).run.run.run state =
      match (handle ⟨engine.settings, engine.expandWithin levels⟩ d).run.run.run state with
      | (some (.ok result), after) => (some (.ok result), after)
      | (some (.error cause), after) =>
        (some (.ok []), after.warned (.directiveFailed d.name cause))
      | (none, after) => (none, after) := by
  obtain ⟨handler, known, rfl⟩ := Option.map_eq_some_iff.1 handled
  have single : engine.expandTemplate ⟨engine.settings, engine.expandWithin levels⟩
      [.directive d] =
        engine.expandDirective ⟨engine.settings, engine.expandWithin levels⟩ d := by
    have last : engine.expandTemplate ⟨engine.settings, engine.expandWithin levels⟩ [] = pure [] :=
      rfl
    rw [expandTemplate_cons, expandNode, last]
    simp only [pure_bind, List.append_nil, bind_pure]
  have whole : (engine.expandWithin (levels + 1) text).run.run.run state =
      ((engine.expandDirective ⟨engine.settings, engine.expandWithin levels⟩ d).run.run state).map
        (Option.map Except.ok) id := by
    rw [expandWithin, read, single]
    exact Checked.run_liftEither _ state
  rw [whole, run_expandDirective _ known]
  generalize (handler.expand _ d).run.run.run state = outcome
  obtain ⟨_ | _ | _, after⟩ := outcome
  · rfl
  · rfl
  · rfl

/-- A line that is rewritten without a warning expands as the text that it becomes. -/
theorem expandSource_eq_expand {line text : Text} {stream : Random.Stream}
    (written : engine.settings.transpiler.transpile line = pure text) :
    engine.expandSource line stream = engine.expand text stream := by
  have rewritten : (engine.settings.transpiler.transpile line).run.run [] = (some text, []) := by
    rw [written]
    rfl
  rw [expandSource, rewritten]
  dsimp only
  generalize engine.expand text stream = outcome
  obtain ⟨_ | _ | _, rest⟩ := outcome
  · rfl
  · rfl
  · rfl

/-- Without variables, a negative prompt and warnings an evaluation ends with its text. -/
theorem finish_eq_ofText (text : Text) {state : State} (values : state.scope.values = ∅)
    (negative : state.negative = []) (warnings : state.warnings = []) :
    finish text state = .ofText text := by
  rw [finish, values, negative, warnings]
  rfl

/-- An evaluation ends with what the expansion of its text comes to. -/
theorem expand_of_expandWithin {text : Text} {stream : Random.Stream}
    {outcome : Option (Except Error Text)} {after : State}
    (expanded : (engine.expandWithin engine.settings.limit text).run.run.run (State.start stream) =
      (outcome, after)) :
    engine.expand text stream =
      (outcome.map fun result => result.map fun text => finish text after, after.stream) := by
  have whole : engine.expand text stream =
      let ended :=
        (engine.expandWithin engine.settings.limit text).run.run.run (State.start stream)
      (ended.1.map fun result => result.map fun text => finish text ended.2, ended.2.stream) := rfl
  rw [whole, expanded]

/-- The evaluation of a text ends with what its pieces come to. -/
theorem expand_of_run {text result : Text} {levels : Nat} {stream : Random.Stream} {after : State}
    (limit : engine.settings.limit = levels + 1)
    (pieces : (engine.expandTemplate ⟨engine.settings, engine.expandWithin levels⟩
      (Template.ofText text)).run.run (State.start stream) = (some result, after)) :
    engine.expand text stream = (some (.ok (finish result after)), after.stream) := by
  have whole : (engine.expandWithin engine.settings.limit text).run.run.run (State.start stream) =
      (some (.ok result), after) := by
    rw [limit, expandWithin]
    refine (Checked.run_liftEither _ _).trans ?_
    rw [pieces]
    rfl
  exact expand_of_expandWithin whole

/-- The evaluation of the text of one tag ends with what its handler yields, or with nothing and a
warning if the handler fails. -/
theorem expand_directive {text : Text} {d : Directive} {handle : Room → Directive → Eval Text}
    {levels : Nat} {stream : Random.Stream} (room : engine.settings.limit = levels + 1)
    (read : Template.ofText text = [.directive d])
    (handled : (engine.handler? d.name).map Handler.expand = some handle) :
    engine.expand text stream =
      match (handle ⟨engine.settings, engine.expandWithin levels⟩ d).run.run.run
          (State.start stream) with
      | (some (.ok result), after) => (some (.ok (finish result after)), after.stream)
      | (some (.error cause), after) =>
        (some (.ok (finish [] (after.warned (.directiveFailed d.name cause)))), after.stream)
      | (none, after) => (none, after.stream) := by
  have whole := @run_expandWithin_directive (State.start stream) engine text d handle levels read
    handled
  rw [← room] at whole
  rw [expand_of_expandWithin whole]
  generalize (handle ⟨engine.settings, engine.expandWithin levels⟩ d).run.run.run
    (State.start stream) = outcome
  obtain ⟨_ | _ | _, after⟩ := outcome
  · rfl
  · rfl
  · rfl

/-- If the handler of a tag only yields a text, the text of the tag expands to it. -/
theorem expandWithin_directive_eq_pure {text result : Text} {d : Directive}
    {handle : Room → Directive → Eval Text} {levels : Nat}
    (read : Template.ofText text = [.directive d])
    (handled : (engine.handler? d.name).map Handler.expand = some handle)
    (yields : handle ⟨engine.settings, engine.expandWithin levels⟩ d = pure result) :
    engine.expandWithin (levels + 1) text = pure result := by
  funext state
  have whole := @run_expandWithin_directive state engine text d handle levels read handled
  rw [yields] at whole
  exact whole

end Engine

end DynamicPrompt
