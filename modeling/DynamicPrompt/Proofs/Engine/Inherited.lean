import DynamicPrompt.Proofs.Engine.Filtered

/-!
# Inherited filters

A reference that takes over the filter of another wildcard draws with the filter that the macro of
that wildcard remembers. The end of an override puts back what it replaced and leaves the overriding
text only where there was none, so the first reference with a filter settles what is remembered, and
the later ones draw with filters of their own and put the first one back.
-/

namespace DynamicPrompt

open Source

/-- Wildcards with different names have different macros, in whatever folder they are. -/
theorem Source.Reference.filterMacro_injective {transpiler : Transpiler} {x y : Text} (named : IsName x)
    (other : IsName y)
    (same : filterMacro (transpiler.inFolder x) = filterMacro (transpiler.inFolder y)) : x = y := by
  have mapped : (transpiler.inFolder x).map (fun c => if c = '/' then '_' else c) =
      (transpiler.inFolder y).map fun c => if c = '/' then '_' else c :=
    List.append_cancel_left same
  have names : x.map (fun c => if c = '/' then '_' else c) =
      y.map fun c => if c = '/' then '_' else c := by
    rw [Transpiler.inFolder, Transpiler.inFolder] at mapped
    split at mapped
    · rw [List.map_append, @List.map_append _ _ _ _ y] at mapped
      exact List.append_cancel_left mapped
    · exact mapped
  -- No underscore stands in a name, so the slashes can be put back.
  have back {name : Text} (named : IsName name) :
      (name.map fun c => if c = '/' then '_' else c).map (fun c => if c = '_' then '/' else c) =
        name := by
    rw [List.map_map]
    refine (List.map_congr_left fun c member => ?_).trans (List.map_id name)
    have other : c ≠ '_' := by
      rintro rfl
      exact named.unmarked '_' member (by decide)
    by_cases slash : c = '/'
    · simp [slash]
    · simp [slash, other]
  rw [← back named, names, back other]

/-- A reference to a wildcard with a filter of its own, by the text before it and the filter. -/
structure FilterUse where
  before : Text
  filter : Text

namespace FilterUse

/-- The text is plain, and the filter is one. -/
structure Proper (use : FilterUse) : Prop where
  before : Plain use.before
  filter : IsFilter use.filter

/-- The reference to the wildcard of this name. -/
def reference (name : Text) (use : FilterUse) : Filtered := ⟨use.before, name, .select use.filter⟩

/-- What the references become when these texts are drawn for them. -/
def drawnLine (uses : List FilterUse) (texts : List Text) : Text :=
  (uses.zipWith (fun use text => use.before ++ text) texts).flatten

end FilterUse

/-- References to a wildcard with filters of their own, and behind them a reference to another that
takes over the filter of the first. -/
def inheritingLine (source name : Text) (uses : List FilterUse) (between : Text) : Text :=
  uses.flatMap (fun use => use.before ++ filteredLine source use.filter) ++
    (between ++ filteredLine name ('^' :: source))

namespace Engine

section Uses

variable {engine : Engine} (handles : engine.HandlesFilters) {state : State}

/-- A filter is its own expansion. -/
theorem reads_filter {filter : Text} (written : IsFilter filter) (levels : Nat) (state : State) :
    Reads state (engine.expandWithin (levels + 1) (Reference.movedPositions filter))
      (pure (Reference.movedPositions filter)) := by
  have unopened : '<' ∉ Reference.movedPositions filter := fun member =>
    absurd (isFilterCharacter_movedPositions written '<' member) (by decide)
  rw [expandWithin_unopened levels unopened]
  rfl

include handles

/-- A remembered filter is read. -/
theorem reads_readMacro {name filter : Text} (named : IsName name) (written : IsFilter filter)
    (remembered : state.scope.macros.find? (engine.holder name) =
      some (Reference.movedPositions filter)) (levels : Nat) :
    Reads state
      (engine.expandWithin (levels + 2)
        (Reference.readMacro (engine.settings.transpiler.inFolder name)))
      (pure (Reference.movedPositions filter)) := by
  have marked := markedOnly_filterMacro (unmarked_inFolder handles.folder named)
  have head : Template.HasPlainHead "wcmacro" none := ⟨by decide, by simp⟩
  have inside : ∀ body ∈ some (engine.holder name), Template.ReadsBack body := by
    rintro body ⟨⟩
    have whole := Template.readsBack_literal marked.literal Template.readsBack_nil
    rwa [List.append_nil] at whole
  have read := Template.ofText_directive head.readable inside
  have trimmed : Text.trim (engine.holder name) = engine.holder name := (solid_filterMacro _ named).trim
  have inner : (engine.expandWithin (levels + 1) (Reference.movedPositions filter)).run.run.run
      state = (some (.ok (Reference.movedPositions filter)), state) := reads_filter written levels state
  have expanded : (Directives.readMacro ⟨engine.settings, engine.expandWithin (levels + 1)⟩
      ⟨"wcmacro", none, some (engine.holder name)⟩).run.run.run state =
        (some (.ok (Reference.movedPositions filter)), state) := by
    have body : Directive.bodyText ⟨"wcmacro", none, some (engine.holder name)⟩ =
      engine.holder name := rfl
    rw [Directives.run_readMacro, body, trimmed, remembered]
    exact inner
  rw [readMacro_eq_print]
  have whole := @run_expandWithin_directive state _ _ _ _ (levels + 1) read handles.read
  rw [expanded] at whole
  exact whole

/-- References with filters of their own draw by these, and remember the first filter unless another
is remembered already. -/
theorem run_uses (levels : Nat) {name : Text} {options : List WrittenOption}
    (offers : engine.Offers name options) {uses : List FilterUse}
    (proper : ∀ use ∈ uses, use.Proper) (state : State) :
    ∃ texts scope stream,
      List.Forall₂ (fun use text => DrawnFrom use.filter options text) uses texts ∧
      scope.values = state.scope.values ∧
      scope.macros.find? (engine.holder name) =
        (state.scope.macros.find? (engine.holder name)).or
          (uses.head?.map fun use => Reference.movedPositions use.filter) ∧
      ∀ rest, (engine.expandTemplate ⟨engine.settings, engine.expandWithin (levels + 1)⟩
        (((uses.map (FilterUse.reference name)).flatMap
          (Filtered.tags engine.settings.transpiler)).foldr Tagged.pieces rest)).run.run state =
          ((FilterUse.drawnLine uses texts ++ ·) <$>
            engine.expandTemplate ⟨engine.settings, engine.expandWithin (levels + 1)⟩ rest).run.run
              { state with scope := scope, stream := stream } := by
  induction uses generalizing state with
  | nil =>
    refine ⟨[], state.scope, state.stream, .nil, rfl, ?_, fun rest => ?_⟩
    · rw [List.head?_nil, Option.map_none, Option.or_none]
    · rw [show (FilterUse.drawnLine [] [] ++ ·) = id from rfl, id_map]
      rfl
  | cons use others inductionHypothesis =>
    have written := (proper use List.mem_cons_self).filter
    obtain ⟨text, stream, drawn, draws⟩ := run_tags handles levels state
      (use.reference name) offers written fun scope _ => reads_filter written levels _
    have remembers := state.scope.find?_overridden (engine.holder name)
      (Reference.movedPositions use.filter) (engine.holder name)
    have keeps := state.scope.values_overridden (engine.holder name)
      (Reference.movedPositions use.filter)
    rw [if_pos rfl] at remembers
    obtain ⟨texts, scope, stream', each, values, macros, continues⟩ :=
      inductionHypothesis (fun other member => proper other (List.mem_cons_of_mem use member))
        { state with
          scope := state.scope.overridden (engine.holder name) (Reference.movedPositions use.filter)
          stream := stream }
    refine ⟨text :: texts, scope, stream', .cons drawn each, values.trans keeps, ?_, fun rest => ?_⟩
    · rw [macros, remembers]
      cases state.scope.macros.find? (engine.holder name) with
      | none => rfl
      | some previous => rfl
    · have named : (use.reference name).name = name := rfl
      have line : FilterUse.drawnLine (use :: others) (text :: texts) =
          use.before ++ (text ++ FilterUse.drawnLine others texts) := by
        simp [FilterUse.drawnLine]
      rw [List.map_cons, List.flatMap_cons, List.foldr_append, draws, named,
        Checked.run_map_congr _ (continues rest), ← comp_map, line]
      simp only [Function.comp_def, FilterUse.reference, List.append_assoc]

/-- An inherited filter is the first one. After references to a wildcard with filters of their own, a
reference to another wildcard that takes over the filter draws from the options that the filter of the
first of them selects, whatever filters the later ones have. Where there is one such reference, or
the last has the filter of the first, this is the filter of the last one. -/
theorem expandSource_inherited (room : 3 ≤ engine.settings.limit) {x y : Text} (differ : x ≠ y)
    {xs ys : List WrittenOption} (source : engine.Offers x xs) (target : engine.Offers y ys)
    {uses : List FilterUse} (filled : uses ≠ []) (proper : ∀ use ∈ uses, use.Proper) {between : Text}
    (plain : Plain between)
    (unlabelled : ∀ quote ∈ (Text.trimStart (inheritingLine x y uses between)).head?,
      quote ≠ '\x22' ∧ quote ≠ '\x27') (stream : Random.Stream) :
    ∃ texts text rest, engine.expandSource (inheritingLine x y uses between) stream =
        (some (.ok (.ofText (FilterUse.drawnLine uses texts ++ (between ++ text)))), rest) ∧
      List.Forall₂ (fun use text => DrawnFrom use.filter xs text) uses texts ∧
      DrawnFrom (uses.head filled).filter ys text ∧
      ((uses.head filled).filter = (uses.getLast filled).filter →
        DrawnFrom (uses.getLast filled).filter ys text) := by
  obtain ⟨levels, limit⟩ := Nat.exists_eq_add_of_le' room
  obtain ⟨depth, nested⟩ := Nat.exists_eq_add_of_le' handles.nested
  have nothing : Plain [] := by decide
  let inheriting : Filtered := ⟨between, y, .inherit x⟩
  let references := uses.map (FilterUse.reference x) ++ [inheriting]
  have each : ∀ reference ∈ references, reference.Proper := by
    intro reference member
    rcases List.mem_append.1 member with among | last
    · obtain ⟨use, inside, rfl⟩ := List.mem_map.1 among
      exact ⟨(proper use inside).before, source.named, source.unbroken, (proper use inside).filter⟩
    · obtain rfl := List.mem_singleton.1 last
      exact ⟨plain, target.named, target.unbroken, source.named, source.unbroken⟩
  have line : inheritingLine x y uses between = mentioning (references.map Filtered.mention) [] := by
    simp [inheritingLine, mentioning, references, inheriting, Filtered.text_mention,
      List.flatMap_map, FilterUse.reference, Asked.written]
  rw [line] at unlabelled ⊢
  have tags : ∀ tagged ∈ references.flatMap (Filtered.tags engine.settings.transpiler),
      tagged.Proper := by
    intro tagged member
    obtain ⟨reference, among, inside⟩ := List.mem_flatMap.1 member
    exact Filtered.proper_tags handles.folder (each reference among) tagged inside
  have transpiled := transpile_filtered nested handles.folder each nothing unlabelled
  have first : uses.head? = some (uses.head filled) := List.head?_eq_some_head filled
  have written : IsFilter (uses.head filled).filter := (proper _ (List.head_mem filled)).filter
  obtain ⟨texts, scope, stream', drawn, values, macros, draws⟩ :=
    run_uses handles (levels + 1) source proper (State.start stream)
  have remembered : scope.macros.find? (engine.holder x) =
      some (Reference.movedPositions (uses.head filled).filter) := by
    rw [macros, first]
    rfl
  have apart : engine.holder x ≠ engine.holder y := fun same =>
    differ (Reference.filterMacro_injective source.named target.named same)
  obtain ⟨text, finalStream, chosen, ends⟩ := run_tags handles (levels + 1)
    { State.start stream with scope := scope, stream := stream' } inheriting target written
    fun during either => by
      apply reads_readMacro handles source.named written
      rcases either with rfl | rfl
      · exact remembered
      · exact (Dictionary.find?_insert _ _ _ _).trans ((if_neg apart).trans remembered)
  have read : Template.ofText ((references.flatMap
      (Filtered.tags engine.settings.transpiler)).flatMap Tagged.text ++ []) =
        ((uses.map (FilterUse.reference x)).flatMap
          (Filtered.tags engine.settings.transpiler)).foldr Tagged.pieces
            ((inheriting.tags engine.settings.transpiler).foldr Tagged.pieces []) := by
    rw [Tagged.template_ofText tags nothing, List.flatMap_append, List.flatMap_singleton,
      List.foldr_append]
    rfl
  have pieces := draws ((inheriting.tags engine.settings.transpiler).foldr Tagged.pieces [])
  have last := ends []
  rw [← read, Checked.run_map_congr _ last] at pieces
  have kept := (scope.values_overridden (engine.holder y)
    (Reference.movedPositions (uses.head filled).filter)).trans values
  refine ⟨texts, text, finalStream, ?_, drawn, chosen, fun same => same ▸ chosen⟩
  rw [expandSource_eq_expand transpiled, expand_of_run limit pieces,
    finish_eq_ofText _ kept rfl rfl]
  simp [inheriting]

end Uses

/-- Two options with a label each. -/
def numbers : List WrittenOption := [⟨some "a", "1"⟩, ⟨some "b", "2"⟩]

/-- Two options with the same labels. -/
def letters : List WrittenOption := [⟨some "a", "p"⟩, ⟨some "b", "q"⟩]

/-- References with different filters. -/
def bothUses : List FilterUse := [⟨[], "a"⟩, ⟨" ", "b"⟩]

/-- The filter of the first of two references is taken over. -/
theorem expandSource_inherited_letters :
    let engine := offering [("x", numbers), ("y", letters)]
    engine.HandlesFilters ∧ 3 ≤ engine.settings.limit ∧ "x".toList ≠ "y" ∧
      engine.Offers "x" numbers ∧ engine.Offers "y" letters ∧ (∀ use ∈ bothUses, use.Proper) ∧
      Plain " " ∧ inheritingLine "x" "y" bothUses " " = "__x'a'__ __x'b'__ __y'^x'__".toList ∧
      ∀ stream, ∃ texts text rest,
        engine.expandSource "__x'a'__ __x'b'__ __y'^x'__" stream =
          (some (.ok (.ofText (FilterUse.drawnLine bothUses texts ++ (' ' :: text)))), rest) ∧
        List.Forall₂ (fun use text => DrawnFrom use.filter numbers text) bothUses texts ∧
        DrawnFrom "a" letters text := by
  intro engine
  have handles : engine.HandlesFilters := handlesFilters_offering _
  have limit : engine.settings.limit = 64 := rfl
  have room : 3 ≤ engine.settings.limit := by
    rw [limit]
    decide
  have differ : "x".toList ≠ "y" := by decide
  have unhandled : ∀ options : List WrittenOption, (∀ option ∈ options, '<' ∉ option.value) →
      ∀ option ∈ options, engine.Unhandled (Template.ofText option.value) :=
    fun options unopened option member => unhandled_unopened (unopened option member)
  have source : engine.Offers "x" numbers := {
    named := .of_isAlphanum (by decide) (by decide)
    unbroken := by decide
    found := by decide +kernel
    proper := by decide +kernel
    plain := unhandled numbers (by decide) }
  have target : engine.Offers "y" letters := {
    named := .of_isAlphanum (by decide) (by decide)
    unbroken := by decide
    found := by decide +kernel
    proper := by decide +kernel
    plain := unhandled letters (by decide) }
  have proper : ∀ use ∈ bothUses, use.Proper := by
    simp only [bothUses, List.forall_mem_cons]
    exact ⟨⟨by decide, by decide +kernel⟩, ⟨by decide, by decide +kernel⟩,
      fun _ none => absurd none List.not_mem_nil⟩
  have filled : bothUses ≠ [] := List.cons_ne_nil _ _
  have plain : Plain " " := by decide
  have line : inheritingLine "x" "y" bothUses " " = "__x'a'__ __x'b'__ __y'^x'__".toList := by decide
  have unlabelled : ∀ quote ∈ (Text.trimStart (inheritingLine "x" "y" bothUses " ")).head?,
      quote ≠ '\x22' ∧ quote ≠ '\x27' := by
    have begins : (Text.trimStart "__x'a'__ __x'b'__ __y'^x'__").head? = some '_' := by decide
    intro quote first
    rw [line, begins] at first
    obtain rfl := Option.some.inj first
    decide
  refine ⟨handles, room, differ, source, target, proper, plain, line, fun stream => ?_⟩
  obtain ⟨texts, text, rest, expanded, each, drawn, -⟩ :=
    expandSource_inherited handles room differ source target filled proper plain unlabelled stream
  rw [line] at expanded
  exact ⟨texts, text, rest, expanded, each, drawn⟩

/-- The filter of the last reference selects the other option. -/
theorem expandSource_inherited_first :
    Expansion.text? ((offering [("x", numbers), ("y", letters)]).expandSource
        "__x'a'__ __x'b'__ __y'^x'__" (Random.Stream.ofSeed #[] 0)).1 = some "1 2 p".toList ∧
      ¬ DrawnFrom "b" letters "p" := by
  refine ⟨by decide +kernel, ?_⟩
  have first : ¬ FilterSelects "b" 0 ⟨some "a", "p"⟩ := by decide +kernel
  rintro (⟨place, option, found, selects, value⟩ | ⟨-, empty⟩)
  · match place with
    | 0 =>
      obtain rfl := Option.some.inj found
      exact first selects
    | 1 =>
      obtain rfl := Option.some.inj found
      exact absurd value (by decide)
    | _ + 2 => exact absurd found (by simp [letters])
  · exact absurd empty (by decide)

end Engine

end DynamicPrompt
