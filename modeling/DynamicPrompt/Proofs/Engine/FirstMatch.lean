import DynamicPrompt.Proofs.Engine.Meaning
import DynamicPrompt.Proofs.Engine.Readings
import DynamicPrompt.Proofs.Engine.Run

/-!
# Matches mean their first case

An engine that expands the print of a tree of matches and cases yields the meaning of the tree and
does to the state what the meaning says and nothing else. The conditions that are evaluated must
only read variables, so that they have a value of their own, or no value; the others may be
anything.

The engine has one state of the match for all levels, which it sets aside for the body of a match
and puts back. The induction on the levels gives the bodies their meaning in whatever state they
are expanded, and inside one level the induction on the tree follows the state from piece to piece.
-/

namespace DynamicPrompt

/-- The state after an outcome. -/
def State.after (state : State) (outcome : Outcome) : State :=
  { state with
    warnings := state.warnings ++ outcome.warnings
    matching := outcome.matching }

/-- One outcome after another leads where the two together lead. -/
theorem State.after_append (state : State) (first rest : Outcome) :
    state.after (first ++ rest) = (state.after first).after rest := by
  unfold State.after
  exact congrArg (fun warnings => { state with warnings, matching := rest.matching })
    (List.append_assoc state.warnings first.warnings rest.warnings).symm

/-- An outcome says how the match is left. -/
@[simp]
theorem State.matching_after (state : State) (outcome : Outcome) :
    (state.after outcome).matching = outcome.matching := rfl

/-- Text alone leads at most to another state of the match. -/
theorem State.after_ofText (state : State) (text : Text) (matching : MatchState) :
    state.after (.ofText text matching) = state.matched matching := by
  rw [State.after, Outcome.ofText, List.append_nil]
  rfl

/-- All these conditions have the values given, in every state with this scope. -/
def Language.YieldsAll (language : Language) (scope : Scope) (verdict : Text → Except Error Value)
    (conditions : List Text) : Prop :=
  ∀ condition ∈ conditions, language.Yields scope condition (verdict condition)

/-- The tags of matches and cases have the handlers that the standard directives give them. -/
structure Engine.HandlesMatches (engine : Engine) : Prop where
  matchTag : (engine.handler? "wcmatch").map Handler.expand = some Directives.matchBlock
  caseTag : (engine.handler? "wccase").map Handler.expand = some Directives.matchCase

/-- Expansion in the room gives trees that are less deep than this their meaning, if the conditions
that are evaluated have these values. -/
def Room.Means (room : Room) (verdict : Text → Except Error Value) (levels : Nat) : Prop :=
  ∀ (tree : Casework) (state : State), tree.depth < levels →
    room.settings.language.YieldsAll state.scope verdict
      (tree.meaning verdict state.matching).conditions →
    (room.expand tree.print).run.run.run state =
      (some (.ok (tree.meaning verdict state.matching).text),
        state.after (tree.meaning verdict state.matching))

section Pieces

variable {room : Room} {state : State}

/-- A condition is true exactly if it decides a match, and its evaluation does nothing but warn if
it has no value. -/
theorem Room.run_isTrue_yields {condition : Text} {value : Except Error Value}
    (yields : room.settings.language.Yields state.scope condition value) :
    (room.isTrue condition).run.run state =
      (some (decide ((Outcome.ofCondition condition value).matching = .decided)),
        (state.after (.ofCondition condition value)).matched state.matching) := by
  rw [run_isTrue, run_evaluate yields]
  cases value with
  | ok value =>
    have silent : (state.after (.ofCondition condition (.ok value))).matched state.matching =
        state := state.after_ofText [] state.matching
    rw [silent]
    cases truthy : value.isTruthy with
    | true => simp [Outcome.ofCondition, truthy]
    | false => simp [Outcome.ofCondition, truthy]
  | error cause => rfl

/-- A case whose condition only reads variables evaluates the condition and, if that decides the
match, expands the body without the blanks around it. -/
theorem Directives.run_matchCase_yields {condition : CaseCondition} {value : Except Error Value}
    (body : Text) (undecided : state.matching = .undecided)
    (yields : room.settings.language.Yields state.scope condition.text value) :
    (matchCase room (Casework.caseDirective (some condition) body)).run.run.run state =
      if (Outcome.ofCondition condition.text value).matching = .decided then
        (room.expand (Text.trim body)).run.run.run (state.after (.ofCondition condition.text value))
      else
        (some (.ok []), (state.after (.ofCondition condition.text value)).matched .undecided) := by
  have source : Text.trim (Casework.caseDirective (some condition) body).argumentText =
    condition.text := rfl
  rw [run_matchCase_conditional room (d := Casework.caseDirective (some condition) body) undecided
    condition.filled, source, room.run_isTrue_yields yields]
  by_cases holds : (Outcome.ofCondition condition.text value).matching = .decided
  · have leads : (state.after (.ofCondition condition.text value)).matched .decided =
        state.after (.ofCondition condition.text value) := by
      rw [← holds]
      rfl
    rw [if_pos holds, decide_eq_true holds]
    exact congrArg _ leads
  · rw [if_neg holds, decide_eq_false holds, undecided]

namespace Engine

variable {engine : Engine} {verdict : Text → Except Error Value} {levels : Nat}

/-- A piece and the pieces after it. -/
theorem run_cons {node : Node} {rest : Template} {first others : Outcome}
    (piece : (engine.expandNode room node).run.run state = (some first.text, state.after first))
    (after : (engine.expandTemplate room rest).run.run (state.after first) =
      (some others.text, (state.after first).after others)) :
    (engine.expandTemplate room (node :: rest)).run.run state =
      (some (first ++ others).text, state.after (first ++ others)) := by
  rw [expandTemplate_cons, Run.run_bind piece, Run.run_bind after, State.after_append]
  rfl

/-- A text and the pieces after it, whether or not those begin with a text. -/
theorem run_text {rest : Template} {others : Outcome} (content : Text)
    (after : (engine.expandTemplate room rest).run.run state =
      (some others.text, state.after others)) :
    (engine.expandTemplate room (content.foldr Template.consChar rest)).run.run state =
      (some (Outcome.ofText content state.matching ++ others).text,
        state.after (.ofText content state.matching ++ others)) := by
  rw [State.after_append, State.after_ofText, expandTemplate_content, Checked.run_map, after]
  rfl

/-- The tag of a match comes to the meaning of its body in a match of its own. -/
theorem run_matchTag (handles : engine.HandlesMatches) (means : room.Means verdict levels)
    {body : Casework} (shallow : body.depth < levels)
    (yields : room.settings.language.YieldsAll state.scope verdict
      (body.meaning verdict .undecided).conditions) :
    (engine.expandDirective room (Casework.matchDirective body.print)).run.run state =
      (some (body.meaning verdict .undecided).text,
        state.after { body.meaning verdict .undecided with matching := state.matching }) := by
  obtain ⟨handler, handled, expands⟩ := Option.map_eq_some_iff.1 handles.matchTag
  have inside : (Casework.matchDirective body.print).bodyText = body.print := rfl
  rw [run_expandDirective room handled, expands, Directives.matchBlock, Room.run_expandMatch,
    inside, means body (state.matched .undecided) shallow yields]
  rfl

/-- The tag of a case does what a case does, and what fails in it becomes a warning. -/
theorem run_caseTag (handles : engine.HandlesMatches) (condition : Option CaseCondition)
    (body : Text) :
    (engine.expandDirective room (Casework.caseDirective condition body)).run.run state =
      match (Directives.matchCase room
          (Casework.caseDirective condition body)).run.run.run state with
      | (some (.ok text), after) => (some text, after)
      | (some (.error cause), after) =>
        (some [], after.warned (.directiveFailed "wccase" cause))
      | (none, after) => (none, after) := by
  obtain ⟨handler, handled, expands⟩ := Option.map_eq_some_iff.1 handles.caseTag
  rw [run_expandDirective room handled, expands]
  rfl

/-- A case outside every match comes to a warning. -/
theorem run_caseTag_outside (handles : engine.HandlesMatches) (condition : Option CaseCondition)
    (body : Text) (outside : state.matching = .outside) :
    (engine.expandDirective room (Casework.caseDirective condition body)).run.run state =
      (some [], state.after
        (.ofWarning (.directiveFailed "wccase" (.usage .caseOutsideMatch)) .outside)) := by
  rw [run_caseTag handles, Directives.run_matchCase_outside _ _ outside, ← outside]
  rfl

/-- A case of a match that is decided comes to nothing. -/
theorem run_caseTag_decided (handles : engine.HandlesMatches) (condition : Option CaseCondition)
    (body : Text) (decided : state.matching = .decided) :
    (engine.expandDirective room (Casework.caseDirective condition body)).run.run state =
      (some [], state.after (.ofText [] .decided)) := by
  rw [run_caseTag handles, Directives.run_matchCase_decided _ _ decided, State.after_ofText,
    ← decided]
  rfl

/-- A case without a condition in a match that is not decided comes to the meaning of its body in
the match, which is then decided. -/
theorem run_caseTag_unconditional (handles : engine.HandlesMatches)
    (means : room.Means verdict levels) {body : Casework} (shallow : body.depth < levels)
    (undecided : state.matching = .undecided)
    (yields : room.settings.language.YieldsAll state.scope verdict
      (body.meaning verdict .decided).conditions) :
    (engine.expandDirective room (Casework.caseDirective none body.print)).run.run state =
      (some (body.meaning verdict .decided).text, state.after (body.meaning verdict .decided)) := by
  have inside : (Casework.caseDirective none body.print).bodyText = body.print := rfl
  rw [run_caseTag handles, Directives.run_matchCase_unconditional room undecided rfl, inside,
    means body (state.matched .decided) shallow yields]
  rfl

/-- A case whose condition does not decide the match comes to the evaluation of the condition. -/
theorem run_caseTag_fails (handles : engine.HandlesMatches) {condition : CaseCondition}
    {value : Except Error Value} (body : Text) (undecided : state.matching = .undecided)
    (yields : room.settings.language.Yields state.scope condition.text value)
    (fails : (Outcome.ofCondition condition.text value).matching ≠ .decided) :
    (engine.expandDirective room (Casework.caseDirective (some condition) body)).run.run state =
      (some (Outcome.ofCondition condition.text value).text,
        state.after (.ofCondition condition.text value)) := by
  rw [run_caseTag handles, Directives.run_matchCase_yields body undecided yields, if_neg fails,
    ← Outcome.matching_ofCondition fails, Outcome.text_ofCondition]
  rfl

/-- A case whose condition decides the match comes to the evaluation of the condition and the
meaning of its body without the blanks around it. -/
theorem run_caseTag_holds (handles : engine.HandlesMatches) (means : room.Means verdict levels)
    {condition : CaseCondition} {value : Except Error Value} {body : Casework}
    (shallow : body.depth < levels) (undecided : state.matching = .undecided)
    (yields : room.settings.language.Yields state.scope condition.text value)
    (others : room.settings.language.YieldsAll state.scope verdict
      (body.trim.meaning verdict .decided).conditions)
    (holds : (Outcome.ofCondition condition.text value).matching = .decided) :
    let first := Outcome.ofCondition condition.text value ++ body.trim.meaning verdict .decided
    (engine.expandDirective room (Casework.caseDirective (some condition) body.print)).run.run state =
      (some first.text, state.after first) := by
  have decided : (state.after (.ofCondition condition.text value)).matching = .decided := holds
  have inside := means body.trim (state.after (.ofCondition condition.text value))
    (Nat.lt_of_le_of_lt body.depth_trim shallow)
  rw [decided] at inside
  have text : (Outcome.ofCondition condition.text value ++ body.trim.meaning verdict .decided).text =
      (body.trim.meaning verdict .decided).text :=
    congrArg (· ++ (body.trim.meaning verdict .decided).text) (Outcome.text_ofCondition _ _)
  intro first
  rw [run_caseTag handles, Directives.run_matchCase_yields body.print undecided yields,
    if_pos holds, ← body.print_trim, inside others, State.after_append, text]

/-- The pieces of a tree come to its meaning, if the room gives the bodies in it theirs. The state
of the match is part of the statement because the pieces after a case that fires stand in another
state than those before it. -/
theorem run_template (handles : engine.HandlesMatches) (means : room.Means verdict levels)
    (tree : Casework) (state : State) (shallow : tree.depth ≤ levels)
    (yields : room.settings.language.YieldsAll state.scope verdict
      (tree.meaning verdict state.matching).conditions) :
    (engine.expandTemplate room tree.template).run.run state =
      (some (tree.meaning verdict state.matching).text,
        state.after (tree.meaning verdict state.matching)) := by
  induction tree generalizing state with
  | nil =>
    rw [Casework.meaning, State.after_ofText]
    rfl
  | text content rest inductionHypothesis =>
    rw [Casework.meaning] at yields ⊢
    exact run_text content.content (inductionHypothesis state shallow yields)
  | matchTag body rest _ inductionHypothesis =>
    rw [Casework.meaning] at yields ⊢
    obtain ⟨inside, others⟩ := List.forall_mem_append.1 yields
    obtain ⟨deeper, beside⟩ := Nat.max_le.1 shallow
    exact run_cons (run_matchTag handles means deeper inside)
      (inductionHypothesis _ beside others)
  | caseTag condition body rest _ inductionHypothesis =>
    obtain ⟨deeper, beside⟩ := Nat.max_le.1 shallow
    cases matching : state.matching with
    | outside =>
      rw [matching, Casework.meaning] at yields
      rw [Casework.meaning]
      exact run_cons (run_caseTag_outside handles condition body.print matching)
        (inductionHypothesis _ beside yields)
    | decided =>
      rw [matching, Casework.meaning] at yields
      rw [Casework.meaning]
      exact run_cons (run_caseTag_decided handles condition body.print matching)
        (inductionHypothesis _ beside yields)
    | undecided =>
      cases condition with
      | none =>
        rw [matching, Casework.meaning] at yields
        rw [Casework.meaning]
        obtain ⟨inside, others⟩ := List.forall_mem_append.1 yields
        have decided := body.matching_meaning_decided verdict
        have after := inductionHypothesis (state.after (body.meaning verdict .decided)) beside
        rw [State.matching_after, decided] at after
        exact run_cons (run_caseTag_unconditional handles means deeper matching inside)
          (after others)
      | some condition =>
        rw [matching] at yields
        by_cases holds :
          (Outcome.ofCondition condition.text (verdict condition.text)).matching = .decided
        · rw [Casework.meaning_of_holds holds] at yields ⊢
          obtain ⟨first, others⟩ := List.forall_mem_append.1 yields
          obtain ⟨evaluated, inside⟩ := List.forall_mem_append.1 first
          have value := evaluated condition.text (Outcome.mem_conditions_ofCondition _ _)
          have decided := body.trim.matching_meaning_decided verdict
          have after := inductionHypothesis (state.after
            (.ofCondition condition.text (verdict condition.text) ++
              body.trim.meaning verdict .decided)) beside
          rw [State.matching_after, Outcome.matching_append, decided] at after
          exact run_cons (run_caseTag_holds handles means deeper matching value inside holds)
            (after others)
        · rw [Casework.meaning_of_fails holds] at yields ⊢
          obtain ⟨evaluated, others⟩ := List.forall_mem_append.1 yields
          have value := evaluated condition.text (Outcome.mem_conditions_ofCondition _ _)
          have after := inductionHypothesis
            (state.after (.ofCondition condition.text (verdict condition.text))) beside
          rw [State.matching_after, Outcome.matching_ofCondition holds] at after
          exact run_cons (run_caseTag_fails handles body.print matching value holds)
            (after others)

/-- With any number of levels left, trees that are less deep are given their meaning. -/
theorem means_expandWithin (handles : engine.HandlesMatches)
    (verdict : Text → Except Error Value) (levels : Nat) :
    Room.Means ⟨engine.settings, engine.expandWithin levels⟩ verdict levels := by
  induction levels with
  | zero => exact fun tree state shallow _ => absurd shallow (Nat.not_lt_zero _)
  | succ levels inductionHypothesis =>
    intro tree state shallow yields
    have pieces := run_template handles inductionHypothesis tree state
      (Nat.le_of_lt_succ shallow) yields
    dsimp only
    rw [expandWithin, tree.template_ofText]
    refine (Checked.run_liftEither _ state).trans ?_
    rw [pieces]
    rfl

end Engine

end Pieces

namespace Engine

/-- Matches mean their first case. With any number of levels left, an engine that expands the print
of a tree that is less deep yields the meaning of the tree, in whatever state of the match it
begins, and does nothing else to the state than to add the warnings of the meaning and to leave the
match as the meaning says. Of the conditions only those have to read nothing but variables that the
meaning evaluates. In the language of expressions these are the conditions whose names are no
macros, and their values are those of the variables. -/
theorem expandWithin_firstMatch {engine : Engine} (handles : engine.HandlesMatches) {levels : Nat}
    {tree : Casework} (shallow : tree.depth < levels) (state : State) :
    (∀ verdict : Text → Except Error Value,
      engine.settings.language.YieldsAll state.scope verdict
        (tree.meaning verdict state.matching).conditions →
      (engine.expandWithin levels tree.print).run.run.run state =
        (some (.ok (tree.meaning verdict state.matching).text),
          state.after (tree.meaning verdict state.matching))) ∧
      (engine.settings.language = Language.expressions →
        let verdict := Expression.verdict state.scope
        (∀ condition ∈ (tree.meaning verdict state.matching).conditions,
          ∀ e, Expression.parse? condition = some e →
            ∀ name ∈ Expression.names e, state.scope.ReadsNoMacro name) →
        (engine.expandWithin levels tree.print).run.run.run state =
          (some (.ok (tree.meaning verdict state.matching).text),
            state.after (tree.meaning verdict state.matching))) := by
  have means (verdict : Text → Except Error Value) := means_expandWithin handles verdict levels
  refine ⟨fun verdict yields => means verdict tree state shallow yields, ?_⟩
  intro language verdict noMacros
  refine means verdict tree state shallow fun condition member => ?_
  dsimp only
  rw [language]
  exact Language.expressions_yields (noMacros condition member)

/-- A fired case with blanks around its body and with a match and a case in it. -/
def purring : Casework :=
  .text ⟨"  purr ", by decide⟩ (.matchTag (.caseTag none (.text ⟨" in ", by decide⟩ .nil) .nil)
    (.caseTag none (.text ⟨"never", by decide⟩ .nil) (.text ⟨" ", by decide⟩ .nil)))

/-- A match with conditions that fail, are false, are true and are not evaluated, with a match
between its cases, and after it a case outside every match. -/
def menagerie : Casework :=
  .text ⟨"a ", by decide⟩ (.matchTag
    (.caseTag (some ⟨"unreadable(", by decide, by decide⟩) .nil
      (.caseTag (some ⟨"animal eq 'dog'", by decide, by decide⟩) (.text ⟨"bark", by decide⟩ .nil)
        (.matchTag (.caseTag none (.text ⟨"x ", by decide⟩ .nil) .nil)
          (.caseTag (some ⟨" animal eq 'cat' ", by decide, by decide⟩) purring
            (.caseTag (some ⟨"left out(", by decide, by decide⟩) .nil
              (.caseTag none (.text ⟨"late", by decide⟩ .nil) .nil))))))
    (.caseTag none (.text ⟨"stray", by decide⟩ .nil) .nil))

/-- A state in which a variable is set. -/
def withCat : State :=
  { State.start (Random.Stream.ofSeed #[] 0) with
    scope := Scope.empty.setVariable "animal" "cat" }

/-- The standard engine gives the menagerie its meaning. -/
theorem expandWithin_firstMatch_menagerie :
    standard.HandlesMatches ∧ menagerie.depth < 5 ∧
      (standard.expandWithin 5 menagerie.print).run.run.run withCat =
        (some (.ok "a x purr  in ".toList),
          { withCat with
            warnings := [.conditionFailed "unreadable(" .unreadableExpression,
              .directiveFailed "wccase" (.usage .caseOutsideMatch)] }) := by
  have handles : standard.HandlesMatches := ⟨by rfl, by rfl⟩
  have shallow : menagerie.depth < 5 := by decide
  have whole := (expandWithin_firstMatch handles shallow withCat).2 rfl
    fun _ _ _ _ _ _ => .inr rfl
  have text : (menagerie.meaning (Expression.verdict withCat.scope) withCat.matching).text =
      "a x purr  in ".toList := by decide +kernel
  have warnings : (menagerie.meaning (Expression.verdict withCat.scope) withCat.matching).warnings =
      [.conditionFailed "unreadable(" .unreadableExpression,
        .directiveFailed "wccase" (.usage .caseOutsideMatch)] := by decide +kernel
  have matching : (menagerie.meaning (Expression.verdict withCat.scope) withCat.matching).matching =
      .outside := by decide +kernel
  rw [text, State.after, warnings, matching] at whole
  exact ⟨handles, shallow, whole⟩

end Engine

end DynamicPrompt
