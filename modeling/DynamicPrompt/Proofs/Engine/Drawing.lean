import DynamicPrompt.Proofs.Choice.Count
import DynamicPrompt.Proofs.Choice.Cycle
import DynamicPrompt.Proofs.Engine.Readings
import DynamicPrompt.Proofs.Engine.Run
import DynamicPrompt.Proofs.Engine.Unhandled

/-!
# Draws from wildcards

A draw from a wildcard takes the lines that pass the filter, evaluates the guards of all of them,
and draws from those whose guard holds and whose weight is positive and finite. How many it draws
depends on how many there are. The number is settled first, with a warning if it has to be cut
down; then the choices are drawn; and only then are their values expanded.

The guards must only read variables here, and the texts must have no tags that are worked on, so
that the draw itself is all that happens.
-/

namespace DynamicPrompt

/-- The state with more warnings. -/
def State.reported (state : State) (warnings : Warnings) : State :=
  { state with warnings := state.warnings ++ warnings }

/-- Warnings one after the other. -/
theorem State.reported_reported (state : State) (first rest : Warnings) :
    (state.reported first).reported rest = state.reported (first ++ rest) := by
  simp [State.reported]

namespace Choice

/-- Whether a choice has no guard, or one that counts as true when guards have these values. -/
def isOpen (verdict : Text → Except Error Value) (choice : Choice) : Bool :=
  match choice.guard with
  | none => true
  | some guard =>
    match verdict guard with
    | .ok value => value.isTruthy
    | .error _ => false

/-- The warning that a guard without a value raises. -/
def guardWarning? (verdict : Text → Except Error Value) (choice : Choice) : Option Warning :=
  match choice.guard with
  | none => none
  | some guard =>
    match verdict guard with
    | .ok _ => none
    | .error cause => some (.conditionFailed guard cause)

end Choice

namespace Directives

/-- What a draw from eligible choices comes to. Without any there is no text, and nothing happens.
Otherwise a number within the bounds of the quantity is cut down to a thousand, with a warning if
it is larger; so many choices are drawn, none of them more often than the number of draws divided by
the number of choices and rounded up; and the text is that of their values with the separator
between them. -/
def Draws (eligible : List Choice) (quantity : Quantity) (separator : Text) (before : State)
    (text : Text) (after : State) : Prop :=
  (eligible = [] → text = [] ∧ after = before) ∧
    (eligible ≠ [] →
      ∃ (count : Nat) (places : List (Fin eligible.length)) (stream : Random.Stream),
        quantity.lower ≤ count ∧
        count ≤ max (quantity.upper.getD (eligible.length - 1)) quantity.lower ∧
        places.length = min 1000 count ∧
        (∀ place, places.count place ≤
          (places.length + eligible.length - 1) / eligible.length) ∧
        text = Text.join separator (places.map fun place => (eligible.get place).value) ∧
        after = { before.reported (if 1000 < count then [.drawCapped count 1000] else []) with
          stream })

section Guards

variable {room : Room} {verdict : Text → Except Error Value} {state : State}

/-- A guard that only reads variables adds at most a warning. -/
theorem run_isEligible {choice : Choice}
    (yields : ∀ guard ∈ choice.guard,
      room.settings.language.Yields state.scope guard (verdict guard)) :
    (isEligible room choice).run.run state =
      (some (choice.isOpen verdict), state.reported (choice.guardWarning? verdict).toList) := by
  have silent : state.reported [] = state := by simp [State.reported]
  rw [isEligible, Choice.isOpen, Choice.guardWarning?]
  cases guarded : choice.guard with
  | none =>
    dsimp only
    rw [Option.toList_none, silent]
    rfl
  | some guard =>
    dsimp only
    rw [Room.run_isTrue, Room.run_evaluate (yields guard guarded)]
    cases verdict guard with
    | ok value =>
      dsimp only
      rw [Option.toList_none, silent]
    | error cause => rfl

/-- All guards are evaluated, in order, and the choices whose guard holds are kept. -/
theorem run_eligible {choices : List Choice}
    (yields : ∀ choice ∈ choices, ∀ guard ∈ choice.guard,
      room.settings.language.Yields state.scope guard (verdict guard)) :
    (eligible room choices).run.run state =
      (some (choices.filter (·.isOpen verdict)),
        state.reported (choices.filterMap (·.guardWarning? verdict))) := by
  induction choices generalizing state with
  | nil =>
    rw [List.filter_nil, List.filterMap_nil, State.reported, List.append_nil]
    rfl
  | cons choice others inductionHypothesis =>
    have first := run_isEligible fun guard => yields choice List.mem_cons_self guard
    have rest := @inductionHypothesis (state.reported (choice.guardWarning? verdict).toList)
      fun other member => yields other (List.mem_cons_of_mem choice member)
    rw [eligible, Run.run_bind first, Run.run_bind rest, State.reported_reported, List.filter_cons]
    cases warned : choice.guardWarning? verdict with
    | none =>
      rw [List.filterMap_cons_none warned, Option.toList_none, List.nil_append]
      rfl
    | some warning =>
      rw [List.filterMap_cons_some warned, Option.toList_some, List.singleton_append]
      rfl

end Guards

/-- A count is cut down to the limit, with a warning if it is larger. -/
theorem run_capped (count : Nat) (state : State) :
    (capped count).run.run state =
      (some (min 1000 count),
        state.reported (if 1000 < count then [.drawCapped count 1000] else [])) := by
  have limit : drawLimit = 1000 := rfl
  rw [capped, limit]
  by_cases large : 1000 < count
  · rw [if_pos large, if_pos large, Nat.min_eq_left (Nat.le_of_lt large)]
    rfl
  · rw [if_neg large, if_neg large, Nat.min_eq_right (Nat.le_of_not_lt large), State.reported,
      List.append_nil]
    rfl

/-- The choices drawn from a pool of usable choices are at places of the kept ones, in a number that
the quantity admits. Besides the random words only the warning of a cut changes. -/
theorem run_drawFrom {choices : List Choice} (usable : choices.filter Pool.isUsable ≠ [])
    (selection : Selection) (quantity : Quantity) (state : State) :
    ∃ (count : Nat) (places : List (Fin (choices.filter Pool.isUsable).length))
      (stream : Random.Stream),
      quantity.lower ≤ count ∧ count ≤ quantity.most (choices.filter Pool.isUsable).length ∧
      places.length = min 1000 count ∧
      (∀ place, places.count place ≤
        (places.length + (choices.filter Pool.isUsable).length - 1) /
          (choices.filter Pool.isUsable).length) ∧
      (drawFrom selection (Pool.ofChoices choices) quantity).run.run state =
        (some (places.map (choices.filter Pool.isUsable).get),
          { state.reported (if 1000 < count then [.drawCapped count 1000] else []) with
            stream }) := by
  have bounds := quantity.resolve_bounds (choices.filter Pool.isUsable).length state.stream
  generalize resolved : quantity.resolve (choices.filter Pool.isUsable).length state.stream =
    result at bounds
  obtain ⟨count, between⟩ := result
  obtain ⟨places, finished, round, number, drawn, order, stands⟩ :=
    (Pool.stands_ofChoices choices).drawMany usable selection between (min 1000 count)
  have cut : places = finished.flatten ++ round := by simpa using order.symm
  refine ⟨count, places, ((Pool.ofChoices choices).drawMany selection between
    (min 1000 count)).2.2, bounds.1, bounds.2, number, ?_, ?_⟩
  · rw [cut]
    exact stands.count_le
  · have counted : (Run.drawing (quantity.resolve (Pool.ofChoices choices).left.length)).run.run
        state = (some count, { state with stream := between }) := by
      change (some (quantity.resolve (choices.filter Pool.isUsable).length state.stream).1,
        { state with stream :=
          (quantity.resolve (choices.filter Pool.isUsable).length state.stream).2 }) = _
      rw [resolved]
    rw [drawFrom, Run.run_bind counted, Run.run_bind (run_capped count _)]
    change (some ((Pool.ofChoices choices).drawMany selection between (min 1000 count)).1, _) = _
    rw [drawn]
    rfl

/-- A draw evaluates the guards, settles what is drawn, and then expands it. -/
theorem run_draw_eligible {room : Room} {choices allowed : List Choice} {state before : State}
    (guarded : (eligible room choices).run.run state = (some allowed, before)) (quantity : Quantity)
    (separator : Text) :
    (draw room choices quantity separator).run.run.run state =
      if (allowed.filter Pool.isUsable).isEmpty then (some (.ok []), before)
      else (do
        let drawn ← drawFrom room.settings.selection (Pool.ofChoices allowed) quantity
        let texts ← drawn.mapM fun choice => room.expand choice.value
        return Text.join separator texts : Eval Text).run.run.run before := by
  rw [draw, Eval.run_bind_lift guarded]
  change (if (allowed.filter Pool.isUsable).isEmpty then _ else _ : Eval Text).run.run.run before = _
  split
  · rfl
  · rfl

/-- A draw of choices whose guards only read variables and whose values expand to themselves. -/
theorem run_draw {room : Room} {verdict : Text → Except Error Value} {state : State}
    {choices : List Choice}
    (yields : ∀ choice ∈ choices, ∀ guard ∈ choice.guard,
      room.settings.language.Yields state.scope guard (verdict guard))
    (plain : ∀ choice ∈ choices, room.expand choice.value = pure choice.value)
    (quantity : Quantity) (separator : Text) :
    ∃ text after,
      (draw room choices quantity separator).run.run.run state = (some (.ok text), after) ∧
      Draws (choices.filter fun choice => choice.isOpen verdict && Pool.isUsable choice) quantity
        separator (state.reported (choices.filterMap (·.guardWarning? verdict))) text after := by
  have usable : (choices.filter fun choice => choice.isOpen verdict && Pool.isUsable choice) =
      (choices.filter (·.isOpen verdict)).filter Pool.isUsable := by
    rw [List.filter_filter]
    exact List.filter_congr fun choice _ => Bool.and_comm _ _
  have guarded := run_eligible yields
  rw [usable]
  generalize state.reported (choices.filterMap (·.guardWarning? verdict)) = before at guarded ⊢
  by_cases none : (choices.filter (·.isOpen verdict)).filter Pool.isUsable = []
  · refine ⟨[], before, ?_, fun _ => ⟨rfl, rfl⟩, fun some => absurd none some⟩
    rw [run_draw_eligible guarded, none]
    rfl
  · obtain ⟨count, places, stream, lower, most, number, often, drawn⟩ :=
      run_drawFrom none room.settings.selection quantity before
    have each : ∀ choice ∈ places.map
        ((choices.filter (·.isOpen verdict)).filter Pool.isUsable).get,
        room.expand choice.value = pure (choice.value) := by
      intro choice member
      obtain ⟨place, -, rfl⟩ := List.mem_map.1 member
      exact plain _ (List.mem_filter.1 (List.mem_filter.1 (List.get_mem _ place)).1).1
    have texts : (places.map ((choices.filter (·.isOpen verdict)).filter Pool.isUsable).get).mapM
        (fun choice => room.expand choice.value) = (pure (places.map fun place =>
          (((choices.filter (·.isOpen verdict)).filter Pool.isUsable).get place).value) :
            Eval (List Text)) := by
      rw [mapM_eq_pure each, List.map_map]
      rfl
    refine ⟨_, _, ?_, fun empty => absurd empty none,
      fun _ => ⟨count, places, stream, lower, most, number, often, rfl, rfl⟩⟩
    rw [run_draw_eligible guarded, if_neg (by simpa using none), Eval.run_bind_lift drawn, texts]
    rfl

/-- The filter that a directive states, as it is written. -/
def filterOf (d : Directive) : Filter :=
  ((nameAndFilter d.bodyText).2.map Filter.ofText).getD ⟨[]⟩

/-- The lines that pass the filter of a directive, as choices numbered before they are filtered. -/
def listed (d : Directive) (lines : List Text) : List Choice :=
  (Choice.ofLines lines).filter (filterOf d).admits

/-- What a draw from the lines of a wildcard comes to when guards have these values. Of the lines
that pass the filter those are eligible whose guard is missing or true and whose weight is positive
and finite; the guards without a value have raised a warning each. -/
def DrawsLines (d : Directive) (lines : List Text) (verdict : Text → Except Error Value)
    (before : State) (text : Text) (after : State) : Prop :=
  Draws ((listed d lines).filter fun choice => choice.isOpen verdict && Pool.isUsable choice)
    (Quantity.ofArgument d.argumentText).1 (Quantity.ofArgument d.argumentText).2
    (before.reported ((listed d lines).filterMap (·.guardWarning? verdict))) text after

/-- A draw from a wildcard whose name and filter expand to themselves is a draw from the lines that
pass the filter. -/
theorem wildcard_eq_draw {room : Room} {d : Directive} {lines : List Text}
    (name : room.expand (nameAndFilter d.bodyText).1 = pure (nameAndFilter d.bodyText).1)
    (filter : ∀ filter ∈ (nameAndFilter d.bodyText).2, room.expand filter = pure filter)
    (found : room.settings.wildcards.find? (Text.trim (nameAndFilter d.bodyText).1) = some lines) :
    wildcard room d =
      draw room (listed d lines) (Quantity.ofArgument d.argumentText).1
        (Quantity.ofArgument d.argumentText).2 := by
  rw [wildcard, listed, filterOf]
  generalize nameAndFilter d.bodyText = parts at name filter found ⊢
  obtain ⟨written, stated⟩ := parts
  dsimp only at name filter found ⊢
  rw [name, pure_bind]
  cases stated with
  | none =>
    dsimp only
    rw [pure_bind, found]
    rfl
  | some text =>
    dsimp only
    rw [filter text rfl, pure_bind, pure_bind, found]
    rfl

end Directives

namespace Engine

/-- A directive draws from the lines of a wildcard, and its name and its filter have no tags that
the engine works on, nor have the values of the lines that pass the filter. -/
structure DrawsPlainly (engine : Engine) (d : Directive) (lines : List Text) : Prop where
  handles : (engine.handler? d.name).map Handler.expand = some Directives.wildcard
  name : engine.Unhandled (Template.ofText (Directives.nameAndFilter d.bodyText).1)
  filter : ∀ filter ∈ (Directives.nameAndFilter d.bodyText).2,
    engine.Unhandled (Template.ofText filter)
  found : engine.settings.wildcards.find?
    (Text.trim (Directives.nameAndFilter d.bodyText).1) = some lines
  values : ∀ choice ∈ Directives.listed d lines, engine.Unhandled (Template.ofText choice.value)

/-- A draw from a wildcard yields values of eligible lines only, and the right number of them, in
every state with a level left, whatever the policy and the random words are. Of the guards only
those of the lines that pass the filter have to read nothing but variables. In the language of
expressions these are the guards whose names are no macros, and their values are those of the
variables. -/
theorem expandDirective_wildcard {engine : Engine} {d : Directive} {lines : List Text}
    (plain : engine.DrawsPlainly d lines) (levels : Nat) (state : State) :
    let result :=
      (engine.expandDirective ⟨engine.settings, engine.expandWithin (levels + 1)⟩ d).run.run state
    (∀ verdict : Text → Except Error Value,
      (∀ choice ∈ Directives.listed d lines, ∀ guard ∈ choice.guard,
        engine.settings.language.Yields state.scope guard (verdict guard)) →
      ∃ text, result.1 = some text ∧
        Directives.DrawsLines d lines verdict state text result.2) ∧
      (engine.settings.language = Language.expressions →
        (∀ choice ∈ Directives.listed d lines, ∀ guard ∈ choice.guard,
          ∀ e, Expression.parse? guard = some e →
            ∀ name ∈ Expression.names e, state.scope.ReadsNoMacro name) →
        ∃ text, result.1 = some text ∧
          Directives.DrawsLines d lines (Expression.verdict state.scope) state text result.2) := by
  intro result
  obtain ⟨handler, handled, expands⟩ := Option.map_eq_some_iff.1 plain.handles
  have draws (verdict : Text → Except Error Value)
      (yields : ∀ choice ∈ Directives.listed d lines, ∀ guard ∈ choice.guard,
        engine.settings.language.Yields state.scope guard (verdict guard)) :
      ∃ text, result.1 = some text ∧
        Directives.DrawsLines d lines verdict state text result.2 := by
    let room : Room := ⟨engine.settings, engine.expandWithin (levels + 1)⟩
    have values : ∀ choice ∈ Directives.listed d lines,
        room.expand choice.value = pure choice.value :=
      fun choice member => expandWithin_eq_pure levels (plain.values choice member)
    have whole : result = _ := run_expandDirective room handled
    obtain ⟨text, after, drawn, comes⟩ :=
      Directives.run_draw yields values
        (Quantity.ofArgument d.argumentText).1 (Quantity.ofArgument d.argumentText).2
    have drawing : Directives.wildcard room d = _ := Directives.wildcard_eq_draw
      (expandWithin_eq_pure levels plain.name)
      (fun text stated => expandWithin_eq_pure levels (plain.filter text stated)) plain.found
    rw [expands, drawing, drawn] at whole
    rw [whole]
    exact ⟨text, rfl, comes⟩
  refine ⟨draws, fun language noMacros => draws _ fun choice member guard guarded => ?_⟩
  rw [language]
  exact Language.expressions_yields (noMacros choice member guard guarded)

/-- Lines with guards that are true, false and without a value, one without weight, and one with a
tag that no engine here works on. -/
def palette : List Text :=
  ["(warm)::red", "if mood eq 'calm' (cold)::blue", "if unreadable( (cold)::gray",
    "if mood eq 'wild' (cold)::black", "(cold) 0::clear", "(cold)::teal", "(cold) 2::<lora:navy>"]

/-- An engine with these lines for a wildcard. -/
def painter : Engine :=
  { Engine.standard with
    settings :=
      Settings.standard.withWildcards (WildcardCollection.ofList [("colors", palette)]) }

/-- A state in which a variable is set. -/
def calm : State :=
  { State.start (Random.Stream.ofSeed #[] 0) with
    scope := Scope.empty.setVariable "mood" "calm" }

/-- A draw of at least four cold lines. -/
def brush : Directive := ⟨"wcwildcard", some "4-,; ", some " colors :cold"⟩

/-- Three of the cold lines are eligible, and all of them are drawn before one is drawn again. -/
theorem expandDirective_wildcard_painter :
    painter.DrawsPlainly brush palette ∧
      let result :=
        (painter.expandDirective ⟨painter.settings, painter.expandWithin 1⟩ brush).run.run calm
      (∃ text, result.1 = some text ∧
        Directives.DrawsLines brush palette (Expression.verdict calm.scope) calm text result.2) ∧
        result.1 = some "<lora:navy>; blue; teal; <lora:navy>".toList ∧
        result.2.warnings = [.conditionFailed "unreadable(" .unreadableExpression] := by
  have plain : painter.DrawsPlainly brush palette := {
    handles := rfl
    name := by decide +kernel
    filter := by decide +kernel
    found := by decide +kernel
    values := by decide +kernel }
  have whole := (expandDirective_wildcard plain 0 calm).2 rfl fun _ _ _ _ _ _ _ _ => .inr rfl
  exact ⟨plain, whole, by decide +kernel, by decide +kernel⟩

end Engine

end DynamicPrompt
