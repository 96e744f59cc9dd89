import DynamicPrompt.Proofs.Engine.Filtered
import DynamicPrompt.Proofs.Engine.Fixed

/-!
# Readings that fall back

A reading with a text to fall back to is a match. Its first case asks whether the length of the name
is zero, and its last resort is the reading itself. The two look the name up differently: a condition
rewrites the text of a macro once more and expands it, and where there is no macro it sees a
variable, while the reading expands the text of a macro as it is and comes to nothing where there is
none.

What the match comes to is therefore said first of all states: the text to fall back to where the
condition sees nothing, and otherwise what the reading comes to after the condition has been
evaluated. A macro whose text is rewritten to itself and that expands to the same text however often
it is read is seen alike by both.
-/

namespace DynamicPrompt

open Source

/-- The condition that a name is empty has no blanks around it. -/
theorem Source.trim_isEmptyCondition (name : Text) :
    Text.trim (isEmptyCondition name) = isEmptyCondition name := by
  apply Text.trim_solid
  · rintro c ⟨⟩
    decide
  · have last : ") eq 0".toList.getLast? = some '0' := by decide
    intro c ends
    unfold isEmptyCondition at ends
    simp only [List.getLast?_append, last, Option.some_or] at ends
    obtain rfl := Option.some.inj ends
    decide

/-- There is a condition. -/
theorem Source.isEmptyCondition_ne_nil (name : Text) : isEmptyCondition name ≠ [] := by
  rintro ⟨⟩

namespace Engine

section Reading

variable {name fallback : Text} (proper : IsVariable name) (plain : Plain fallback)

include proper plain

/-- The match of a reading that falls back is read as it is printed, and so are its two cases. -/
theorem ofText_fallbackTag (filled : fallback ≠ []) :
    Template.ofText (fallbackTag name fallback).print = [.directive (fallbackTag name fallback)] ∧
      Template.ofText (fallbackTag name fallback).bodyText =
        [.directive (fallbackCase name fallback), .directive (readCase name)] := by
  have single (node : Node) : Template.print [node] = node.print := List.append_nil node.print
  have bare {tag : Text} (named : Template.isTagName tag = true) : Template.HasPlainHead tag none :=
    ⟨named, by simp⟩
  have reading : Template.Canonical [.directive (readCase name)] := by
    have inside : Template.Canonical [.literal name] :=
      .literal name [] proper.filled proper.literal (by simp) .nil
    have macroRead := Template.Canonical.holding "macro" none _ [] (bare (by decide)) inside .nil
    have whole := Template.Canonical.holding "wccase" none _ [] (bare (by decide)) macroRead .nil
    rwa [single, single] at whole
  have cases : Template.Canonical
      [.directive (fallbackCase name fallback), .directive (readCase name)] := by
    have inside : Template.Canonical [.literal fallback] :=
      .literal fallback [] filled plain.literal (by simp) .nil
    have asking : Template.HasPlainHead "wccase" (some (isEmptyCondition name)) := by
      refine ⟨by decide, ?_⟩
      rintro condition ⟨⟩
      have first : "length(".toList.all Template.isPlainArgument = true := by decide
      have last : ") eq 0".toList.all Template.isPlainArgument = true := by decide
      unfold isEmptyCondition
      simp only [List.all_append, first, last, proper.argument, Bool.and_self]
    have whole := Template.Canonical.holding "wccase" _ _ _ asking inside reading
    rwa [single] at whole
  have body : Template.print [.directive (fallbackCase name fallback), .directive (readCase name)] =
      (fallbackCase name fallback).print ++ (readCase name).print :=
    congrArg ((fallbackCase name fallback).print ++ ·) (List.append_nil _)
  have block := Template.Canonical.holding "wcmatch" none _ [] (bare (by decide)) cases .nil
  have blockRead := Template.ofText_print block
  have casesRead := Template.ofText_print cases
  rw [single, body] at blockRead
  rw [body] at casesRead
  exact ⟨blockRead, casesRead⟩

end Reading

section Running

variable {engine : Engine} (handles : engine.HandlesVariables) {state after final : State}
  {name fallback seen text : Text} {levels : Nat} (proper : IsVariable name)
  (plain : Plain fallback) (filled : fallback ≠ [])

include handles

/-- A case does what its handler does. -/
theorem run_caseNode {room : Room} {argument : Option Text} {body : Text}
    (fires : (Directives.matchCase room ⟨"wccase", argument, some body⟩).run.run.run state =
      (some (.ok text), after)) :
    (engine.expandNode room (.directive ⟨"wccase", argument, some body⟩)).run.run state =
      (some text, after) := by
  obtain ⟨handler, known, expands⟩ := Option.map_eq_some_iff.1 handles.case
  rw [expandNode, run_expandDirective room known, expands, fires]

include proper

/-- The first case expands its text if the condition sees nothing. -/
theorem run_fallbackCase {room : Room} (settings : room.settings = engine.settings)
    (looked : (room.lookup name).run.run (state.matched .undecided) =
      (some (some (.text seen)), after)) :
    (Directives.matchCase room (fallbackCase name fallback)).run.run.run (state.matched .undecided) =
      match seen.isEmpty with
      | true => (room.expand (Text.trim fallback)).run.run.run (after.matched .decided)
      | false => (some (.ok []), after) := by
  have condition : Text.trim (fallbackCase name fallback).argumentText = isEmptyCondition name :=
    trim_isEmptyCondition name
  have conditional : (Text.trim (fallbackCase name fallback).argumentText).isEmpty = false := by
    rw [condition]
    exact List.isEmpty_eq_false_iff.2 (isEmptyCondition_ne_nil name)
  have language : room.settings.language = Language.expressions := settings ▸ handles.language
  rw [Directives.run_matchCase_conditional _ rfl conditional, condition,
    Room.run_isEmptyCondition language looked proper]
  cases seen.isEmpty with
  | true => rfl
  | false => rfl

include plain filled

/-- The match comes to what its two cases come to. -/
theorem run_fallbackTag {first second : Text} {between : State}
    (one : (engine.expandNode ⟨engine.settings, engine.expandWithin levels⟩
      (.directive (fallbackCase name fallback))).run.run (state.matched .undecided) =
        (some first, between))
    (other : (engine.expandNode ⟨engine.settings, engine.expandWithin levels⟩
      (.directive (readCase name))).run.run between = (some second, after)) :
    (engine.expandWithin (levels + 2) (fallbackTag name fallback).print).run.run.run state =
      (some (.ok (first ++ second)), after.matched state.matching) := by
  obtain ⟨block, cases⟩ := ofText_fallbackTag proper plain filled
  have inside : (engine.expandWithin (levels + 1) (fallbackTag name fallback).bodyText).run.run.run
      (state.matched .undecided) = (some (.ok (first ++ second)), after) := by
    have pieces : (engine.expandTemplate ⟨engine.settings, engine.expandWithin levels⟩
        [.directive (fallbackCase name fallback), .directive (readCase name)]).run.run
          (state.matched .undecided) = (some (first ++ second), after) := by
      rw [expandTemplate_cons, Run.run_bind one, expandTemplate_cons, bind_assoc,
        Run.run_bind other]
      exact congrArg (fun text => (some text, after)) (congrArg (first ++ ·) (List.append_nil second))
    have whole : (engine.expandWithin (levels + 1) (fallbackTag name fallback).bodyText).run.run.run
        (state.matched .undecided) =
          ((engine.expandTemplate ⟨engine.settings, engine.expandWithin levels⟩
            (Template.ofText (fallbackTag name fallback).bodyText)).run.run
              (state.matched .undecided)).map (Option.map Except.ok) id :=
      Checked.run_liftEither _ _
    rw [whole, cases, pieces]
    rfl
  have matched : (Directives.matchBlock ⟨engine.settings, engine.expandWithin (levels + 1)⟩
      (fallbackTag name fallback)).run.run.run state =
        (some (.ok (first ++ second)), after.matched state.matching) := by
    rw [Directives.matchBlock, Room.run_expandMatch]
    dsimp only
    rw [inside]
  refine (run_expandWithin_directive (levels + 1) block handles.block).trans ?_
  rw [matched]

/-- Where the condition sees nothing, the match comes to the text to fall back to. -/
theorem run_fallbackTag_empty (trimmed : Text.trim fallback = fallback)
    (looked : (Room.lookup ⟨engine.settings, engine.expandWithin (levels + 1)⟩ name).run.run
      (state.matched .undecided) = (some (some (.text [])), after)) :
    (engine.expandWithin (levels + 3) (fallbackTag name fallback).print).run.run.run state =
      (some (.ok fallback), (after.matched .decided).matched state.matching) := by
  have one : (engine.expandNode ⟨engine.settings, engine.expandWithin (levels + 1)⟩
      (.directive (fallbackCase name fallback))).run.run (state.matched .undecided) =
        (some fallback, after.matched .decided) := by
    apply run_caseNode handles
    have expanded : engine.expandWithin (levels + 1) fallback = pure fallback :=
      expandWithin_unopened levels (plain.absent (by decide))
    refine (run_fallbackCase handles proper rfl looked).trans ?_
    rw [trimmed]
    change (engine.expandWithin (levels + 1) fallback).run.run.run (after.matched .decided) = _
    rw [expanded]
    rfl
  have other : (engine.expandNode ⟨engine.settings, engine.expandWithin (levels + 1)⟩
      (.directive (readCase name))).run.run (after.matched .decided) =
        (some [], after.matched .decided) :=
    run_caseNode handles (Directives.run_matchCase_decided _ _ rfl)
  have whole := run_fallbackTag handles proper plain filled one other
  rwa [List.append_nil] at whole

/-- Where the condition sees something and has not decided the match, the match comes to what the
reading comes to. -/
theorem run_fallbackTag_filled (visible : seen ≠ [])
    (looked : (Room.lookup ⟨engine.settings, engine.expandWithin (levels + 1)⟩ name).run.run
      (state.matched .undecided) = (some (some (.text seen)), after))
    (undecided : after.matching = .undecided)
    (read : (engine.expandWithin (levels + 1) (macroTag name).print).run.run.run
      (after.matched .decided) = (some (.ok text), final)) :
    (engine.expandWithin (levels + 3) (fallbackTag name fallback).print).run.run.run state =
      (some (.ok text), final.matched state.matching) := by
  have one : (engine.expandNode ⟨engine.settings, engine.expandWithin (levels + 1)⟩
      (.directive (fallbackCase name fallback))).run.run (state.matched .undecided) =
        (some [], after) := by
    apply run_caseNode handles
    refine (run_fallbackCase handles proper rfl looked).trans ?_
    rw [List.isEmpty_eq_false_iff.2 visible]
  have other : (engine.expandNode ⟨engine.settings, engine.expandWithin (levels + 1)⟩
      (.directive (readCase name))).run.run after = (some text, final) :=
    run_caseNode handles ((Directives.run_matchCase_unconditional _ undecided rfl).trans read)
  exact run_fallbackTag handles proper plain filled one other

end Running

section Steady

variable {engine : Engine} {levels : Nat} {name value : Text}

/-- However often the macro is read, and whatever the match around has come to, it expands to the same
text: there are states that every reading stays among, in each of which the macro has a text that is
rewritten to itself and, with so many levels left, expands to this one and leaves the match alone. -/
def ReadsSteadily (engine : Engine) (levels : Nat) (name value : Text) (state : State) : Prop :=
  ∃ steady : State → Prop, (∀ matching, steady (state.matched matching)) ∧
    ∀ now, steady now → ∃ text, now.scope.macros.find? name = some text ∧
      engine.settings.transpiler.transpile text = pure text ∧
      ∀ more, levels ≤ more → ∃ after,
        (engine.expandWithin more text).run.run.run now = (some (.ok value), after) ∧
          after.matching = now.matching ∧ ∀ matching, steady (after.matched matching)

/-- After one reading the macro may be read again. -/
theorem ReadsSteadily.read {state : State} (steady : engine.ReadsSteadily levels name value state)
    (matching : MatchState) {more : Nat} (enough : levels ≤ more) :
    ∃ text after, (state.matched matching).scope.macros.find? name = some text ∧
      engine.settings.transpiler.transpile text = pure text ∧
      (engine.expandWithin more text).run.run.run (state.matched matching) = (some (.ok value), after) ∧
      after.matching = matching ∧ engine.ReadsSteadily levels name value after := by
  obtain ⟨among, here, reads⟩ := steady
  obtain ⟨text, found, kept, expands⟩ := reads _ (here matching)
  obtain ⟨after, expanded, left, again⟩ := expands more enough
  exact ⟨text, after, found, kept, expanded, left, among, again, reads⟩

/-- A macro is read steadily if its text expands to the same text in all states with this scope and
leaves the scope and the match alone. -/
theorem readsSteadily_of_fixed {scope : Scope} {text : Text}
    (found : scope.macros.find? name = some text)
    (kept : engine.settings.transpiler.transpile text = pure text)
    (expands : ∀ more, levels ≤ more → ∀ now : State, now.scope = scope → ∃ after,
      (engine.expandWithin more text).run.run.run now = (some (.ok value), after) ∧ after.scope = scope ∧
        after.matching = now.matching) {state : State} (here : state.scope = scope) :
    engine.ReadsSteadily levels name value state := by
  refine ⟨fun now => now.scope = scope, fun _ => here, fun now same => ?_⟩
  refine ⟨text, same ▸ found, kept, fun more enough => ?_⟩
  obtain ⟨after, expanded, kept, left⟩ := expands more enough now same
  exact ⟨after, expanded, left, fun _ => kept⟩

/-- A value that has been fixed at once is read steadily. -/
theorem readsSteadily_of_fixes (handles : engine.HandlesAssignments) (named : Expression.IsName name)
    {state : State} (fixed : state.Fixes name value) : engine.ReadsSteadily 1 name value state := by
  refine readsSteadily_of_fixed fixed.reads (transpile_varTag named handles.positive)
    (fun more enough now same => ⟨now, ?_, same, rfl⟩) rfl
  obtain ⟨levels, rfl⟩ := Nat.exists_eq_add_of_le' enough
  exact run_varTag handles named (same ▸ fixed.holds)

end Steady

section Falling

variable {engine : Engine} (handles : engine.HandlesVariables) {levels : Nat}
  {name fallback value : Text} (proper : IsVariable name) (plain : Plain fallback)
  (filled : fallback ≠ []) (trimmed : Text.trim fallback = fallback) {state : State}

include handles proper plain filled trimmed

/-- Where the macro is read steadily, the match comes to its text, or to the text to fall back to if
that is empty. -/
theorem run_fallbackTag_steady (steady : engine.ReadsSteadily levels name value state) {room : Nat}
    (enough : levels + 3 ≤ room) :
    ∃ after, (engine.expandWithin room (fallbackTag name fallback).print).run.run.run state =
      (some (.ok (if value = [] then fallback else value)), after) := by
  obtain ⟨inner, rfl⟩ := Nat.exists_eq_add_of_le' (Nat.le_trans (Nat.le_add_left 3 levels) enough)
  obtain ⟨text, after, found, kept, expanded, left, again⟩ :=
    steady.read .undecided (show levels ≤ inner + 1 by omega)
  have looked : (Room.lookup ⟨engine.settings, engine.expandWithin (inner + 1)⟩ name).run.run
      (state.matched .undecided) = (some (some (.text value)), after) :=
    Room.run_lookup_macro proper.unreserved found kept expanded
  by_cases nothing : value = []
  · subst nothing
    rw [if_pos rfl]
    exact ⟨_, run_fallbackTag_empty handles proper plain filled trimmed looked⟩
  · obtain ⟨text', after', found', _, expanded', _, _⟩ :=
      again.read .decided (show levels ≤ inner by omega)
    have read := run_macroTag handles.read proper.spelled found' expanded'
    rw [if_neg nothing]
    exact ⟨_, run_fallbackTag_filled handles proper plain filled nothing looked left read⟩

/-- Where there is no macro, the match comes to nothing if there is a variable that is not empty, and
to the text to fall back to if not. -/
theorem run_fallbackTag_unset (absent : state.scope.macros.find? name = none) {room : Nat}
    (enough : 3 ≤ room) :
    (engine.expandWithin room (fallbackTag name fallback).print).run.run.run state =
      (some (.ok (if (state.scope.values.find? name).getD [] = [] then fallback else [])), state) := by
  obtain ⟨inner, rfl⟩ := Nat.exists_eq_add_of_le' enough
  have unreserved : ¬ Room.reserved.contains name = true := fun member =>
    proper.unreserved (List.contains_iff_mem.1 member)
  have value : state.scope.variableValue name =
      some (.text ((state.scope.values.find? name).getD [])) := if_neg unreserved
  have looked : (Room.lookup ⟨engine.settings, engine.expandWithin (inner + 1)⟩ name).run.run
      (state.matched .undecided) =
        (some (some (.text ((state.scope.values.find? name).getD []))),
          state.matched .undecided) := by
    rw [← value]
    exact Room.run_lookup_variable _ _ (.inr absent)
  have read : (engine.expandWithin (inner + 1) (macroTag name).print).run.run.run
      ((state.matched .undecided).matched .decided) = (some (.ok []), state.matched .decided) :=
    run_macroTag_none handles.read proper.spelled absent
  by_cases nothing : (state.scope.values.find? name).getD [] = []
  · rw [nothing] at looked
    have whole := run_fallbackTag_empty handles proper plain filled trimmed looked
    rw [if_pos nothing]
    exact whole
  · have whole := run_fallbackTag_filled handles proper plain filled nothing looked rfl read
    rw [if_neg nothing]
    exact whole

/-- A reading with a text to fall back to falls back where the plain reading is empty, as far as both
see the same. If the macro is read steadily, the plain reading comes to its text, and the reading that
falls back comes to the same text, unless that is empty. If there is no macro, the plain reading is
empty, and the reading that falls back does fall back exactly if there is no variable of that name or
it is empty. The state may be any, with room for three levels more than the macro needs. -/
theorem expand_fallback (enough : levels + 3 ≤ engine.settings.limit) (state : State) :
    ∃ reading falling, engine.settings.transpiler.transpile (variableLine name) = pure reading ∧
      engine.settings.transpiler.transpile (variableLine (name ++ ':' :: fallback)) = pure falling ∧
      (∀ value, engine.ReadsSteadily levels name value state → ∃ after after',
        (engine.room.expand reading).run.run.run state = (some (.ok value), after) ∧
        (engine.room.expand falling).run.run.run state =
          (some (.ok (if value = [] then fallback else value)), after')) ∧
      (state.scope.macros.find? name = none →
        (engine.room.expand reading).run.run.run state = (some (.ok []), state) ∧
        (engine.room.expand falling).run.run.run state =
          (some (.ok (if (state.scope.values.find? name).getD [] = [] then fallback else [])), state)) := by
  obtain ⟨inner, limit⟩ := Nat.exists_eq_add_of_le' (Nat.le_trans (Nat.le_add_left 3 levels) enough)
  obtain ⟨depth, nested⟩ := Nat.exists_eq_add_of_le' handles.nested
  refine ⟨_, _, transpile_read proper nested, transpile_fallback proper nested plain filled,
    fun value steady => ?_, fun absent => ⟨?_, ?_⟩⟩
  · obtain ⟨text, after, found, _, expanded, _, _⟩ :=
      steady.read state.matching (show levels ≤ inner + 2 by omega)
    obtain ⟨after', fallen⟩ :=
      run_fallbackTag_steady handles proper plain filled trimmed steady enough
    have read := run_macroTag handles.read proper.spelled found expanded
    refine ⟨after, after', ?_, fallen⟩
    rw [Engine.room, limit]
    exact read
  · rw [Engine.room, limit]
    exact run_macroTag_none handles.read proper.spelled absent
  · exact run_fallbackTag_unset handles proper plain filled trimmed absent
      (Nat.le_trans (Nat.le_add_left 3 levels) enough)

end Falling

/-- The scope after a variable has been set at once, with the macro that reads it. -/
def paintedScope : Scope :=
  ⟨Dictionary.ofList [("n", "blue")], Dictionary.ofList [("n", "<var:n>")], ∅⟩

/-- A macro that reads a variable is read steadily, and where nothing has been set the reading falls
back. -/
theorem expand_fallback_blue :
    let start := State.start (Random.Stream.ofSeed #[] 0)
    let painted := { start with scope := paintedScope }
    standard.HandlesVariables ∧ IsVariable "n" ∧ Plain "red" ∧ "red".toList ≠ [] ∧
      Text.trim "red" = "red".toList ∧ 1 + 3 ≤ standard.settings.limit ∧
      standard.ReadsSteadily 1 "n" "blue" painted ∧ start.scope.macros.find? "n" = none ∧
      (∃ falling after, standard.settings.transpiler.transpile "$\x7bn:red\x7d" = pure falling ∧
        (standard.room.expand falling).run.run.run painted = (some (.ok "blue".toList), after)) ∧
      ∃ falling, standard.settings.transpiler.transpile "$\x7bn:red\x7d" = pure falling ∧
        (standard.room.expand falling).run.run.run start = (some (.ok "red".toList), start) := by
  intro start painted
  have handles : standard.HandlesVariables := .of_standard rfl rfl (by decide)
  have proper : IsVariable "n" := by decide
  have plain : Plain "red" := by decide
  have filled : "red".toList ≠ [] := by decide
  have trimmed : Text.trim "red" = "red".toList := by decide
  have enough : 1 + 3 ≤ standard.settings.limit := by decide
  have steady : standard.ReadsSteadily 1 "n" "blue" painted :=
    readsSteadily_of_fixes (.of_standard rfl rfl (by decide)) proper.spelled
      ⟨by decide, by decide⟩
  have absent : start.scope.macros.find? "n" = none := rfl
  have line : variableLine ("n".toList ++ ':' :: "red".toList) = "$\x7bn:red\x7d".toList := by decide
  obtain ⟨_, falling, _, transpiled, steadily, _⟩ :=
    expand_fallback handles proper plain filled trimmed enough painted
  obtain ⟨_, falling', _, transpiled', _, unset⟩ :=
    expand_fallback handles proper plain filled trimmed enough start
  obtain ⟨_, after, _, fallen⟩ := steadily "blue" steady
  rw [line] at transpiled transpiled'
  exact ⟨handles, proper, plain, filled, trimmed, enough, steady, absent,
    ⟨falling, after, transpiled, fallen⟩, falling', transpiled', (unset absent).2⟩

/-- The text of a line that the standard engine expands. -/
def textOf (line : Text) : Option Text :=
  Expansion.text? (standard.expandSource line (Random.Stream.ofSeed #[] 0)).1

/-- The reading that falls back and the plain reading see different things if there is a variable and
no macro, if the text of the macro is rewritten when a condition reads it, and if reading the macro
changes what it comes to; and no condition reads a name that begins with a digit. -/
theorem expand_fallback_differs :
    (textOf "<setvar[n,false]:v>$\x7bn\x7d" = some [] ∧
      textOf "<setvar[n,false]:v>$\x7bn:d\x7d" = some []) ∧
    (textOf "<setmacro[n,false]:BREAK>$\x7bn\x7d" = some "BREAK".toList ∧
      textOf "<setmacro[n,false]:BREAK>$\x7bn:d\x7d" = some "d".toList) ∧
    (textOf "<setmacro[m,false]:y><setmacro[n,false]:<macro:m><setmacro[m,false]:>>$\x7bn\x7d" =
        some "y".toList ∧
      textOf "<setmacro[m,false]:y><setmacro[n,false]:<macro:m><setmacro[m,false]:>>$\x7bn:d\x7d" =
        some []) ∧
    textOf "$\x7b1\x7d" = some [] ∧ textOf "$\x7b1:d\x7d" = some [] := by
  decide +kernel

end Engine

end DynamicPrompt
