import DynamicPrompt.Proofs.Bindings
import DynamicPrompt.Proofs.Engine.Drawing
import DynamicPrompt.Proofs.Source.Filtered

/-!
# Draws with a filter

A reference with a filter draws one of the options that the filter selects, and yields nothing if it
selects none. The three tags of the reference remember the filter, draw with it and end what was
remembered; the first two expand what is remembered, and read the filter that this comes to.
-/

namespace DynamicPrompt

namespace Scope

/-- The scope after an override of a macro has ended. -/
def overridden (scope : Scope) (name text : Text) : Scope := (scope.pushMacro name text).popMacro name

variable (scope : Scope) (name text : Text)

/-- The end of an override finds what the override has replaced. -/
theorem overridden_eq : ∃ replaced : Dictionary (List (Option Text)),
    scope.overridden name text =
      ⟨scope.values,
        match scope.macros.find? name with
        | some previous => (scope.macros.insert name text).insert name previous
        | none => scope.macros.insert name text,
        replaced⟩ := by
  have latest : (scope.pushMacro name text).replaced.find? name =
      some (scope.macros.find? name :: (scope.replaced.find? name).getD []) := by
    rw [pushMacro, Dictionary.find?_insert, if_pos rfl]
  rw [overridden, popMacro, latest]
  exact ⟨_, rfl⟩

/-- An override that has ended leaves the variables alone. -/
theorem values_overridden : (scope.overridden name text).values = scope.values := by
  obtain ⟨replaced, whole⟩ := scope.overridden_eq name text
  rw [whole]

/-- After an override a macro is what it was before, or what overrode it if it was nothing; the other
macros are left alone. -/
theorem find?_overridden (other : Text) :
    (scope.overridden name text).macros.find? other =
      if other = name then some ((scope.macros.find? name).getD text)
      else scope.macros.find? other := by
  obtain ⟨replaced, whole⟩ := scope.overridden_eq name text
  rw [whole]
  cases before : scope.macros.find? name with
  | none => exact Dictionary.find?_insert _ _ _ _
  | some previous =>
    dsimp only
    rw [Dictionary.find?_insert, Dictionary.find?_insert]
    split
    · rfl
    · rfl

end Scope

/-- A text is the value of an option that the filter selects, or nothing if there is none. -/
def DrawnFrom (filter : Text) (options : List WrittenOption) (text : Text) : Prop :=
  (∃ place option, options[place]? = some option ∧ FilterSelects filter place option ∧
      text = option.value) ∨
    (∀ place option, options[place]? = some option → ¬ FilterSelects filter place option) ∧ text = []

/-- Without empty values, what is drawn is empty exactly if the filter selects no option. -/
theorem DrawnFrom.eq_nil_iff {filter text : Text} {options : List WrittenOption}
    (drawn : DrawnFrom filter options text) (filled : ∀ option ∈ options, option.value ≠ []) :
    text = [] ↔
      ∀ place option, options[place]? = some option → ¬ FilterSelects filter place option := by
  rcases drawn with ⟨place, option, found, selects, rfl⟩ | ⟨none, rfl⟩
  · constructor
    · exact fun empty => absurd empty (filled option (List.mem_of_getElem? found))
    · exact fun none => absurd selects (none place option found)
  · exact ⟨fun _ => none, fun _ => rfl⟩

namespace Directives

/-- A draw of one choice yields the value of one, or nothing if there is none, and takes random words
and nothing else. -/
theorem Draws.single {eligible : List Choice} {separator : Text} {before after : State} {text : Text}
    (draws : Draws eligible (.exactly 1) separator before text after) :
    ∃ stream, after = { before with stream } ∧
      ((eligible = [] ∧ text = []) ∨ ∃ choice ∈ eligible, text = choice.value) := by
  by_cases none : eligible = []
  · obtain ⟨empty, same⟩ := draws.1 none
    exact ⟨before.stream, same, .inl ⟨none, empty⟩⟩
  · obtain ⟨count, places, stream, lower, upper, number, -, drawn, whole⟩ := draws.2 none
    have once : count = 1 := Nat.le_antisymm upper lower
    subst once
    obtain ⟨place, rfl⟩ := List.length_eq_one_iff.1 number
    refine ⟨stream, ?_, .inr ⟨eligible.get place, List.get_mem _ _, ?_⟩⟩
    · rw [whole, State.reported]
      simp
    · rw [drawn]
      simp [Text.join]

/-- A wildcard whose name and filter only read something is a draw from the lines that pass the filter
that was read. -/
theorem run_wildcard_filtered {room : Room} {d : Directive} {state : State}
    {name filter name' filter' : Text} {lines : List Text}
    (parts : nameAndFilter d.bodyText = (name, some filter))
    (named : Reads state (room.expand name) (pure name'))
    (stated : Reads state (room.expand filter) (pure filter'))
    (found : room.settings.wildcards.find? (Text.trim name') = some lines) :
    (wildcard room d).run.run.run state =
      (draw room ((Choice.ofLines lines).filter (Filter.ofText filter').admits)
        (Quantity.ofArgument d.argumentText).1 (Quantity.ofArgument d.argumentText).2).run.run.run
          state := by
  rw [wildcard, parts]
  dsimp only
  rw [Eval.run_bind named, Eval.run_bind stated, pure_bind, found]

/-- The options that a filter selects, as the choices that pass it. -/
theorem mem_choices_selected {filter : Text} {options : List WrittenOption} {choice : Choice}
    (written : IsFilter filter) (proper : ∀ option ∈ options, option.Proper) :
    choice ∈ (Choice.ofLines (options.map WrittenOption.line)).filter
        (Filter.ofText (Source.Reference.movedPositions filter)).admits ↔
      ∃ place option, options[place]? = some option ∧ FilterSelects filter place option ∧
        choice = { option.choice with position := place + 1 } := by
  have passes {place : Nat} {option : WrittenOption} :
      (Filter.ofText (Source.Reference.movedPositions filter)).admits
        { option.choice with position := place + 1 } = true ↔ FilterSelects filter place option :=
    admits_movedPositions written rfl fun label => WrittenOption.mem_choice_labels
  rw [List.mem_filter, List.mem_iff_getElem?]
  simp only [Choice.getElem?_ofLines proper, Option.map_eq_some_iff]
  constructor
  · rintro ⟨⟨place, option, found, rfl⟩, admits⟩
    exact ⟨place, option, found, passes.1 admits, rfl⟩
  · rintro ⟨place, option, found, selects, rfl⟩
    exact ⟨⟨place, option, found, rfl⟩, passes.2 selects⟩

/-- One option that a filter selects is drawn, if there is one. -/
theorem run_draw_selected {room : Room} {filter : Text} {options : List WrittenOption}
    (written : IsFilter filter) (proper : ∀ option ∈ options, option.Proper)
    (plain : ∀ option ∈ options, room.expand option.value = pure option.value) (separator : Text)
    (state : State) :
    ∃ text stream, DrawnFrom filter options text ∧
      (draw room ((Choice.ofLines (options.map WrittenOption.line)).filter
        (Filter.ofText (Source.Reference.movedPositions filter)).admits) (.exactly 1)
          separator).run.run.run state = (some (.ok text), { state with stream }) := by
  have selected (choice : Choice) := @mem_choices_selected filter options choice written proper
  generalize (Choice.ofLines (options.map WrittenOption.line)).filter
    (Filter.ofText (Source.Reference.movedPositions filter)).admits = choices at selected
  have usable : Pool.isUsable ⟨[], 1.0, [], none, 0⟩ = true := by decide
  have unguarded : ∀ choice ∈ choices, choice.guard = none ∧ Pool.isUsable choice = true := by
    intro choice member
    obtain ⟨place, option, -, -, rfl⟩ := (selected _).1 member
    exact ⟨rfl, usable⟩
  have values : ∀ choice ∈ choices, room.expand choice.value = pure choice.value := by
    intro choice member
    obtain ⟨place, option, found, -, rfl⟩ := (selected _).1 member
    exact plain option (List.mem_of_getElem? found)
  have silent (verdict : Text → Except Error Value) :
      choices.filterMap (·.guardWarning? verdict) = [] := by
    rw [List.filterMap_eq_nil_iff]
    intro choice member
    rw [Choice.guardWarning?, (unguarded choice member).1]
  have eligible (verdict : Text → Except Error Value) :
      (choices.filter fun choice => choice.isOpen verdict && Pool.isUsable choice) = choices := by
    rw [List.filter_eq_self]
    intro choice member
    rw [Choice.isOpen, (unguarded choice member).1, (unguarded choice member).2]
    rfl
  obtain ⟨text, after, drawn, draws⟩ := @run_draw room
    (fun _ => .error .unreadableExpression) state choices
    (fun choice member guard guarded => absurd guarded (by simp [(unguarded choice member).1]))
    values (.exactly 1) separator
  rw [silent, eligible] at draws
  obtain ⟨stream, rfl, outcome⟩ := draws.single
  refine ⟨text, stream, ?_, ?_⟩
  · rcases outcome with ⟨none, rfl⟩ | ⟨choice, member, rfl⟩
    · refine .inr ⟨fun place option found selects => ?_, rfl⟩
      have member := (selected _).2 ⟨place, option, found, selects, rfl⟩
      rw [none] at member
      exact List.not_mem_nil member
    · obtain ⟨place, option, found, selects, rfl⟩ := (selected _).1 member
      exact .inl ⟨place, option, found, selects, rfl⟩
  · rw [drawn, State.reported, List.append_nil]

end Directives

open Source

/-- An engine with the standard directives for what filtered references become, and with room for the
names and the filters in them. -/
structure Engine.HandlesFilters (engine : Engine) : Prop where
  push : (engine.handler? "wcpushmacro").map Handler.expand = some Directives.pushMacro
  draw : (engine.handler? "wcwildcard").map Handler.expand = some Directives.wildcard
  pop : (engine.handler? "wcpopmacro").map Handler.expand = some Directives.popMacro
  read : (engine.handler? "wcmacro").map Handler.expand = some Directives.readMacro
  folder : HasPlainFolder engine.settings.transpiler
  nested : 2 ≤ engine.settings.transpiler.limit

/-- A wildcard of the engine with these options, whose values have no tags that the engine works
on. -/
structure Engine.Offers (engine : Engine) (name : Text) (options : List WrittenOption) : Prop where
  named : IsName name
  unbroken : name ≠ breakWord
  found : engine.settings.wildcards.find? (Text.trim (engine.settings.transpiler.inFolder name)) =
    some (options.map WrittenOption.line)
  proper : ∀ option ∈ options, option.Proper
  plain : ∀ option ∈ options, engine.Unhandled (Template.ofText option.value)

/-- The macro that remembers the filter of a wildcard. -/
def Engine.holder (engine : Engine) (name : Text) : Text :=
  Reference.filterMacro (engine.settings.transpiler.inFolder name)

/-- The macro that remembers the filter of a wildcard has a name without blanks around it. -/
theorem solid_filterMacro (transpiler : Transpiler) {name : Text} (named : IsName name) :
    Text.IsSolid (Reference.filterMacro (transpiler.inFolder name)) := by
  have starts : "wcfilter_".toList.head? = some 'w' := by decide
  have filled := named.unspaced.filled
  have last : (transpiler.inFolder name).getLast? = some (name.getLast filled) := by
    rw [← List.getLast?_eq_some_getLast filled, Transpiler.inFolder]
    split
    · exact List.getLast?_append_of_ne_nil _ filled
    · rfl
  unfold Reference.filterMacro
  generalize "wcfilter_".toList = start at starts
  have begun : start ≠ [] := List.ne_nil_of_mem (List.mem_of_mem_head? starts)
  refine ⟨List.append_ne_nil_of_left_ne_nil begun _, ?_, ?_⟩
  · intro c first
    rw [List.head?_append_of_ne_nil _ begun, starts] at first
    obtain rfl := Option.some.inj first
    decide
  · intro c ends
    rw [List.getLast?_append, List.getLast?_map, last] at ends
    obtain rfl := Option.some.inj ends
    dsimp only
    split
    · decide
    · exact named.unspaced.unspaced _ (List.getLast_mem filled)

namespace Engine

section Tags

variable {engine : Engine} (handles : engine.HandlesFilters) (room : Room) {state : State}
  {reference remembered filter : Text}

include handles

/-- The first tag remembers what its body comes to. -/
theorem run_pushTag (solid : Text.IsSolid (Reference.filterMacro reference))
    (remember : Reads state (room.expand remembered) (pure filter)) :
    (engine.expandDirective room (pushTag reference remembered)).run.run state =
      (some [],
        { state with scope := state.scope.pushMacro (Reference.filterMacro reference) filter }) := by
  obtain ⟨handler, handled, expands⟩ := Option.map_eq_some_iff.1 handles.push
  have name : Text.trim (pushTag reference remembered).argumentText =
      Reference.filterMacro reference := solid.trim
  have filled : (Reference.filterMacro reference).isEmpty = false :=
    List.isEmpty_eq_false_iff.2 solid.filled
  have inside : (pushTag reference remembered).bodyText = remembered := rfl
  rw [run_expandDirective room handled, expands, Directives.pushMacro, name, Directives.requireName,
    filled, if_neg Bool.false_ne_true, inside, pure_bind, Eval.run_bind remember]
  rfl

/-- The last tag ends what is remembered. -/
theorem run_popTag (solid : Text.IsSolid (Reference.filterMacro reference)) :
    (engine.expandDirective room (popTag reference)).run.run state =
      (some [], { state with scope := state.scope.popMacro (Reference.filterMacro reference) }) := by
  obtain ⟨handler, handled, expands⟩ := Option.map_eq_some_iff.1 handles.pop
  have name : Text.trim (popTag reference).bodyText = Reference.filterMacro reference := solid.trim
  have filled : (Reference.filterMacro reference).isEmpty = false :=
    List.isEmpty_eq_false_iff.2 solid.filled
  rw [run_expandDirective room handled, expands, Directives.popMacro, name, filled,
    if_neg Bool.false_ne_true, Directives.requireName, filled, if_neg Bool.false_ne_true]
  rfl

omit handles in
/-- The name and what is remembered are told apart in the second tag. -/
theorem nameAndFilter_drawTag (unmarked : ∀ c ∈ reference, c ∉ partMarks) :
    Directives.nameAndFilter (drawTag reference remembered).bodyText =
      (reference, some remembered) := by
  have grouped : Grouped Brackets.tags (· ≠ ':') reference := by
    have marks : ∀ d ∈ "<>:\\".toList, d ∈ partMarks := by decide
    apply Grouped.of_unmentioned
    intro c member
    refine ⟨?_, ?_, ?_⟩
    · rintro rfl
      exact unmarked ':' member (by decide)
    · rintro (opens | closes)
      · exact unmarked c member (by rw [List.mem_singleton.1 opens]; decide)
      · exact unmarked c member (by rw [List.mem_singleton.1 closes]; decide)
    · rintro rfl
      exact unmarked '\\' member (by decide)
  have cut : cutTopLevel? ":" Brackets.tags (drawTag reference remembered).bodyText =
      some (reference, remembered) :=
    cutTopLevelFrom?_grouped (by decide) grouped (fun _ bare => bare) remembered
  rw [Directives.nameAndFilter, cut]

variable {options : List WrittenOption}

/-- The second tag draws with what is remembered. -/
theorem run_drawTag (unmarked : ∀ c ∈ reference, c ∉ partMarks)
    (named : Reads state (room.expand reference) (pure reference))
    (remember : Reads state (room.expand remembered) (pure (Reference.movedPositions filter)))
    (found : room.settings.wildcards.find? (Text.trim reference) =
      some (options.map WrittenOption.line))
    (written : IsFilter filter) (proper : ∀ option ∈ options, option.Proper)
    (plain : ∀ option ∈ options, room.expand option.value = pure option.value) :
    ∃ text stream, DrawnFrom filter options text ∧
      (engine.expandDirective room (drawTag reference remembered)).run.run state =
        (some text, { state with stream }) := by
  obtain ⟨handler, handled, expands⟩ := Option.map_eq_some_iff.1 handles.draw
  have quantity : Quantity.ofArgument (drawTag reference remembered).argumentText =
      (.exactly 1, " ".toList) := by
    have default : Quantity.ofArgument [] = (.exactly 1, " ".toList) := by decide
    exact default
  obtain ⟨text, stream, drawn, draws⟩ :=
    Directives.run_draw_selected written proper plain " " state
  refine ⟨text, stream, drawn, ?_⟩
  rw [run_expandDirective room handled, expands,
    Directives.run_wildcard_filtered (nameAndFilter_drawTag unmarked) named remember found,
    quantity, draws]

end Tags

section References

variable {engine : Engine} (handles : engine.HandlesFilters) {filter : Text}
  {options : List WrittenOption}

include handles

/-- A filtered reference draws an option that its filter selects, and remembers the filter as an
override that has ended does. The filter is what the text that is remembered reads, before the
override and during it. -/
theorem run_tags (levels : Nat) (state : State) (reference : Filtered)
    (offers : engine.Offers reference.name options) (written : IsFilter filter)
    (remember : ∀ scope, scope = state.scope ∨ scope = state.scope.pushMacro
        (engine.holder reference.name) (Reference.movedPositions filter) →
      Reads { state with scope := scope }
        (engine.expandWithin (levels + 1) (reference.asked.remembered engine.settings.transpiler))
        (pure (Reference.movedPositions filter))) :
    ∃ text stream, DrawnFrom filter options text ∧
      ∀ rest, (engine.expandTemplate ⟨engine.settings, engine.expandWithin (levels + 1)⟩
        ((reference.tags engine.settings.transpiler).foldr Tagged.pieces rest)).run.run state =
          ((fun others => reference.before ++ (text ++ others)) <$>
            engine.expandTemplate ⟨engine.settings, engine.expandWithin (levels + 1)⟩ rest).run.run
              { state with
                scope := state.scope.overridden (engine.holder reference.name)
                  (Reference.movedPositions filter)
                stream := stream } := by
  unfold Engine.holder at remember ⊢
  have unmarked := unmarked_inFolder handles.folder offers.named
  have solid := solid_filterMacro engine.settings.transpiler offers.named
  have name : engine.expandWithin (levels + 1)
      (engine.settings.transpiler.inFolder reference.name) =
        pure (engine.settings.transpiler.inFolder reference.name) :=
    expandWithin_unopened levels fun member => unmarked '<' member (by decide)
  have named (state : State) : Reads state
      (engine.expandWithin (levels + 1) (engine.settings.transpiler.inFolder reference.name))
      (pure (engine.settings.transpiler.inFolder reference.name)) := by
    rw [name]
    rfl
  have values : ∀ option ∈ options, engine.expandWithin (levels + 1) option.value =
      pure option.value :=
    fun option member => expandWithin_eq_pure levels (offers.plain option member)
  have pushed := run_pushTag handles ⟨engine.settings, engine.expandWithin (levels + 1)⟩ solid
    (remember _ (.inl rfl))
  obtain ⟨text, stream, drawn, draws⟩ := run_drawTag handles
    ⟨engine.settings, engine.expandWithin (levels + 1)⟩ unmarked (named _)
    (remember _ (.inr rfl)) offers.found written offers.proper values
  refine ⟨text, stream, drawn, fun rest => ?_⟩
  rw [Filtered.tags]
  dsimp only [List.foldr_cons, List.foldr_nil, Tagged.pieces]
  rw [expandTemplate_content,
    Checked.run_map_congr _ (run_expandTemplate_directive _ pushed _), ← comp_map,
    Checked.run_map_congr _ (run_expandTemplate_directive _ draws _), ← comp_map,
    Checked.run_map_congr _ (run_expandTemplate_directive _ (run_popTag handles _ solid) _),
    ← comp_map]
  rfl

end References

/-- A reference with a filter draws from the options that the filter selects. The line that is such a
reference becomes the value of an option that the filter selects, where a number selects the option
at that place, counted from zero, and any other entry the options with all labels that it names and
none that it excludes. If no option is selected the line becomes nothing, and if no value is empty it
becomes nothing only then. The policy and the random words have no part in this.

The name must not be the break keyword, since that is rewritten to the mark of the empty text like
any other text between the underscores. -/
theorem expandSource_filtered {engine : Engine} (handles : engine.HandlesFilters)
    (room : 2 ≤ engine.settings.limit) {name filter : Text} {options : List WrittenOption}
    (offers : engine.Offers name options) (written : IsFilter filter) (stream : Random.Stream) :
    ∃ text rest, engine.expandSource (filteredLine name filter) stream =
        (some (.ok (.ofText text)), rest) ∧
      DrawnFrom filter options text ∧
      ((∀ option ∈ options, option.value ≠ []) →
        (text = [] ↔ ∀ place option, options[place]? = some option →
          ¬ FilterSelects filter place option)) := by
  obtain ⟨levels, limit⟩ := Nat.exists_eq_add_of_le' room
  obtain ⟨depth, nested⟩ := Nat.exists_eq_add_of_le' handles.nested
  have nothing : Plain [] := by decide
  let reference : Filtered := ⟨[], name, .select filter⟩
  have proper : ∀ other ∈ [reference], other.Proper := by
    intro other member
    rw [List.mem_singleton.1 member]
    exact ⟨nothing, offers.named, offers.unbroken, written⟩
  have line : filteredLine name filter = mentioning ([reference].map Filtered.mention) [] := by
    simp [mentioning, Filtered.text_mention, reference, Asked.written]
  have unlabelled : ∀ quote ∈ (Text.trimStart (filteredLine name filter)).head?,
      quote ≠ '\x22' ∧ quote ≠ '\x27' := by
    rintro quote ⟨⟩
    exact ⟨by decide, by decide⟩
  rw [line] at unlabelled
  have tags : ∀ tagged ∈ reference.tags engine.settings.transpiler, tagged.Proper :=
    Filtered.proper_tags handles.folder (proper reference List.mem_cons_self)
  have transpiled := transpile_filtered nested handles.folder proper nothing unlabelled
  rw [List.flatMap_singleton] at transpiled
  have remembered : engine.expandWithin (levels + 1) (Reference.movedPositions filter) =
      pure (Reference.movedPositions filter) :=
    expandWithin_unopened levels fun member =>
      absurd (isFilterCharacter_movedPositions written '<' member) (by decide)
  obtain ⟨text, after, drawn, draws⟩ := run_tags handles levels (State.start stream)
    reference offers written fun scope _ => by
      rw [show reference.asked.remembered engine.settings.transpiler =
        Reference.movedPositions filter from rfl, remembered]
      rfl
  have read : Template.ofText ((reference.tags engine.settings.transpiler).flatMap Tagged.text ++ []) =
      (reference.tags engine.settings.transpiler).foldr Tagged.pieces [] :=
    Tagged.template_ofText tags nothing
  have pieces := draws []
  rw [← read] at pieces
  refine ⟨text, after, ?_, drawn, drawn.eq_nil_iff⟩
  have values := (State.start stream).scope.values_overridden (engine.holder reference.name)
    (Reference.movedPositions filter)
  rw [line, expandSource_eq_expand transpiled, expand_of_run limit pieces,
    finish_eq_ofText _ values rfl rfl]
  simp [reference]

/-- The standard engine with these wildcards. -/
def offering (wildcards : List (Text × List WrittenOption)) : Engine :=
  { Engine.standard with
    settings := Settings.standard.withWildcards (WildcardCollection.ofList
      (wildcards.map fun wildcard => (wildcard.1, wildcard.2.map WrittenOption.line))) }

/-- The standard engine works on the tags of filtered references, whatever its wildcards are. -/
theorem handlesFilters_offering (wildcards : List (Text × List WrittenOption)) :
    (offering wildcards).HandlesFilters where
  push := rfl
  draw := rfl
  pop := rfl
  read := rfl
  folder := by
    rintro folder ⟨⟩
  nested := by
    have limit : (offering wildcards).settings.transpiler.limit = 64 := rfl
    rw [limit]
    decide

/-- Options with labels in any case, and one without. -/
def shades : List WrittenOption :=
  [⟨some "Warm, Bright", "red"⟩, ⟨some " COLD ", "blue"⟩, ⟨none, "teal"⟩, ⟨some "cold,bright", "cyan"⟩]

/-- The standard engine draws one of the shades that are selected, and there is one. -/
theorem expandSource_filtered_shades :
    (offering [("shades", shades)]).HandlesFilters ∧
      2 ≤ (offering [("shades", shades)]).settings.limit ∧
      (offering [("shades", shades)]).Offers "shades" shades ∧ IsFilter "cold+!bright, 2" ∧
      ∀ stream, ∃ text rest, (offering [("shades", shades)]).expandSource
          "__shades'cold+!bright, 2'__" stream = (some (.ok (.ofText text)), rest) ∧
        DrawnFrom "cold+!bright, 2" shades text ∧ text ≠ [] := by
  have handles := handlesFilters_offering [("shades", shades)]
  have limit : (offering [("shades", shades)]).settings.limit = 64 := rfl
  have room : 2 ≤ (offering [("shades", shades)]).settings.limit := by
    rw [limit]
    decide
  have unopened : ∀ option ∈ shades, '<' ∉ option.value := by decide
  have offers : (offering [("shades", shades)]).Offers "shades" shades := {
    named := .of_isAlphanum (by decide) (by decide)
    unbroken := by decide
    found := by decide +kernel
    proper := by decide +kernel
    plain := fun option member => unhandled_unopened (unopened option member) }
  have written : IsFilter "cold+!bright, 2" := by decide +kernel
  have selected : FilterSelects "cold+!bright, 2" 2 ⟨none, "teal"⟩ := by decide +kernel
  refine ⟨handles, room, offers, written, fun stream => ?_⟩
  obtain ⟨text, rest, expanded, drawn, emptyIff⟩ :=
    expandSource_filtered handles room offers written stream
  refine ⟨text, rest, expanded, drawn, fun empty => ?_⟩
  exact (emptyIff (by decide)).1 empty 2 ⟨none, "teal"⟩ rfl selected

/-- An option with a label. -/
def loner : List WrittenOption := [⟨some "a", "v"⟩]

/-- A wildcard named by the break keyword is not found, although the filter selects its option. -/
theorem expandSource_filtered_break :
    IsFilter "a" ∧ FilterSelects "a" 0 ⟨some "a", "v"⟩ ∧
      (((offering [(breakWord, loner)]).expandSource "__BREAK'a'__"
        (Random.Stream.ofSeed #[] 0)).1.bind fun result => result.toOption.map
          fun expansion => (expansion.text, expansion.warnings)) =
            some ([], [.directiveFailed "wcwildcard" (.missingWildcard [])]) := by
  exact ⟨by decide +kernel, by decide +kernel, by decide +kernel⟩

end Engine

end DynamicPrompt
