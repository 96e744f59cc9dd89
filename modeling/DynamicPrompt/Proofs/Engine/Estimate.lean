import DynamicPrompt.Proofs.Engine.Advance
import DynamicPrompt.Proofs.Engine.Drawing
import DynamicPrompt.Proofs.Template.Part
import DynamicPrompt.Proofs.Text.Cut
import DynamicPrompt.Proofs.Wildcard
import Mathlib.Data.List.Infix

/-!
# Estimates are upper bounds

An estimate goes through a text as the expansion does, but draws nothing and evaluates nothing. Away
from matches and from readings of variables and macros, whose texts are not known beforehand, it is
no shorter than any expansion. Drawing takes at most the largest count of options, each no longer
than the longest, of those that a filter or a guard may have left; and what fails yields nothing.

Such an estimate neither looks at the record of the longest case nor changes it. The two
interpreters are therefore compared directive by directive, and in a room the estimate of a text is
known to bound its expansion: for the room of a lower level that is the induction hypothesis.
-/

namespace DynamicPrompt

/-- The names of the tags whose estimates need not bound what they expand to: matches and their
cases, and readings. -/
def Directives.unmeasured : List Text := ["wcmatch", "wccase", "var", "macro", "wcmacro"]

/-- A tag is measured if it is none of those, and if no tag stands in the name of a wildcard that it
draws from. -/
structure Directive.IsMeasured (d : Directive) : Prop where
  name : Text.lower d.name ∉ Directives.unmeasured
  wildcard : Text.lower d.name = "wcwildcard" →
    (Template.ofText (Directives.nameAndFilter d.bodyText).1).directives = []

/-- Every tag that the text holds is measured. -/
def Text.IsMeasured (text : Text) : Prop := ∀ tag, Template.Holds text tag → tag.IsMeasured

/-- The parts of a measured text are measured. -/
theorem Text.IsMeasured.part {text part : Text} (measured : Text.IsMeasured text)
    (has : HasPart text part) : Text.IsMeasured part := by
  intro tag held
  exact measured tag (held.of_part has)

/-- The options that are found for a name are stored under some name. -/
theorem WildcardCollection.stored_of_find? {wildcards : WildcardCollection} {name : Text}
    {lines : List Text} (found : wildcards.find? name = some lines) :
    lines ∈ wildcards.options.entries.map Prod.snd := by
  obtain ⟨other, -, -, bound⟩ := bound_of_find? found
  obtain ⟨before, after, whole, -⟩ := List.lookup_eq_some_iff.1 bound
  simp [whole]

/-- Whether a tag that might begin here is measured by its name alone: it is none of the excluded
ones, and nothing opens a tag behind the name of a wildcard. -/
def beginsMeasured : Text → Bool
  | '<' :: rest =>
    let name := Text.lower (rest.takeWhile continuesTagName)
    !Directives.unmeasured.contains name && (name != "wcwildcard".toList || !rest.contains '<')
  | _ => true

/-- A text is measured if every tag that might begin in it is measured by its name. -/
theorem Text.isMeasured_of_tails {text : Text} (each : text.tails.all beginsMeasured = true) :
    Text.IsMeasured text := by
  intro tag held
  obtain ⟨before, rest, whole, named, body⟩ := held.begins
  have begins : beginsMeasured ('<' :: rest) = true :=
    List.all_eq_true.1 each _ ((List.mem_tails _ _).2 ⟨before, whole⟩)
  simp only [beginsMeasured, named, Bool.and_eq_true, Bool.or_eq_true, Bool.not_eq_true',
    List.contains_eq_mem, decide_eq_false_iff_not, bne_iff_ne] at begins
  obtain ⟨name, behind⟩ := begins
  constructor
  · exact name
  · intro draws
    apply Template.directives_unopened
    intro opens
    have unopened : '<' ∉ rest := behind.resolve_left (not_not.2 draws)
    obtain ⟨first, last, split, -⟩ := Directives.hasPart_name tag.bodyText
    have inside : '<' ∈ tag.bodyText := by
      rw [← split]
      exact List.mem_append_left last (List.mem_append_right first opens)
    exact unopened (body.subset inside)

/-- The text of an estimate that begins with an empty record of cases. -/
def Estimate.text (estimate : Estimate Text) : Text := (estimate.run 0).1

/-- An estimate bounds some work if it neither looks at the record of cases nor changes it, and if
what the work yields is never longer. -/
structure Estimate.Bounds (estimate : Estimate Text) (work : Eval Text) : Prop where
  steady : estimate = pure estimate.text
  longer : Ensures (fun text => text.length ≤ estimate.text.length) work

/-- An estimate that is known bounds work that yields nothing longer. -/
theorem Estimate.Bounds.of_pure {estimate : Estimate Text} {bound : Text} {work : Eval Text}
    (known : estimate = pure bound)
    (longer : Ensures (fun text => text.length ≤ bound.length) work) : estimate.Bounds work := by
  subst known
  exact ⟨rfl, longer⟩

/-- Work that yields no text is bounded by every estimate that is known. -/
theorem Estimate.Bounds.of_nil {estimate : Estimate Text} {bound : Text} {work : Eval Text}
    (known : estimate = pure bound) (nothing : Ensures (fun text => text = []) work) :
    estimate.Bounds work := by
  refine .of_pure known (nothing.mono ?_)
  rintro text rfl
  exact Nat.zero_le _

/-- In a pair of rooms with the same wildcards, whose lines are measured, the estimates of measured
texts bound their expansions, and text without tags expands to its estimate. -/
structure EstimateRoom.Bounds (estimates : EstimateRoom) (room : Room) : Prop where
  wildcards : estimates.settings.wildcards = room.settings.wildcards
  lines : ∀ name lines, room.settings.wildcards.find? name = some lines →
    ∀ line ∈ lines, Text.IsMeasured line
  texts : ∀ text, Text.IsMeasured text → (estimates.estimate text).Bounds (room.expand text)
  names : ∀ text, (Template.ofText text).directives = [] →
    Ensures (fun name => name = (estimates.estimate text).text) (room.expand text)

namespace Directives

/-- No text is longer than the longest. -/
theorem length_le_longest {texts : List Text} {text : Text} (member : text ∈ texts) :
    text.length ≤ (longest texts).length := by
  have fold : ∀ (texts : List Text) (best : Text),
      best.length ≤ (texts.foldl (fun best text =>
        if best.length ≤ text.length then text else best) best).length ∧
      ∀ text ∈ texts, text.length ≤ (texts.foldl (fun best text =>
        if best.length ≤ text.length then text else best) best).length := by
    intro texts
    induction texts with
    | nil => simp
    | cons first others inductionHypothesis =>
      intro best
      rw [List.foldl_cons]
      split
      · next longer =>
        obtain ⟨front, rest⟩ := inductionHypothesis first
        exact ⟨Nat.le_trans longer front, List.forall_mem_cons.2 ⟨front, rest⟩⟩
      · next shorter =>
        obtain ⟨front, rest⟩ := inductionHypothesis best
        exact ⟨front, List.forall_mem_cons.2
          ⟨Nat.le_trans (Nat.le_of_lt (Nat.lt_of_not_le shorter)) front, rest⟩⟩
  exact (fold texts []).2 text member

section Drawing

variable {room : Room}

/-- Guards only leave choices out. -/
theorem eligible_sublist {choices allowed : List Choice} {state after : State}
    (done : (eligible room choices).run.run state = (some allowed, after)) :
    allowed.Sublist choices := by
  induction choices generalizing state after allowed with
  | nil =>
    cases done
    exact .slnil
  | cons choice others inductionHypothesis =>
    rw [eligible, Checked.run_bind] at done
    split at done
    · next kept between first =>
      rw [Checked.run_bind] at done
      split at done
      · next rest final later =>
        have sublist := inductionHypothesis later
        cases done
        split
        · exact sublist.cons_cons choice
        · exact sublist.cons choice
      · cases done
    · cases done

/-- What is drawn from some choices are choices among them, no more than the limit and no more than
the quantity admits for a number of choices that is no smaller. -/
theorem drawFrom_within {choices drawn : List Choice} (usable : choices.filter Pool.isUsable ≠ [])
    {selection : Selection} {quantity : Quantity} {available : Nat}
    (fewer : choices.length ≤ available) {state after : State}
    (done : (drawFrom selection (Pool.ofChoices choices) quantity).run.run state =
      (some drawn, after)) :
    drawn.length ≤ min (quantity.most available) drawLimit ∧
      ∀ choice ∈ drawn, choice ∈ choices := by
  obtain ⟨count, places, stream, -, most, number, -, yields⟩ :=
    run_drawFrom usable selection quantity state
  have known : drawn = places.map (choices.filter Pool.isUsable).get :=
    Option.some.inj (congrArg Prod.fst (done.symm.trans yields))
  have grows :=
    quantity.most_mono (Nat.le_trans (List.length_filter_le Pool.isUsable choices) fewer)
  have limit : drawLimit = 1000 := rfl
  rw [known]
  constructor
  · rw [List.length_map, number, limit]
    omega
  · intro choice member
    obtain ⟨place, -, rfl⟩ := List.mem_map.1 member
    exact List.mem_of_mem_filter (List.get_mem _ place)

/-- A draw yields nothing longer than the longest option repeated for the largest count, if there
are no more choices than options and each choice expands to nothing longer than some option. -/
theorem draw_ensures {choices : List Choice} {texts : List Text}
    (fewer : choices.length ≤ texts.length)
    (each : ∀ choice ∈ choices, ∃ text ∈ texts,
      Ensures (fun expanded => expanded.length ≤ text.length) (room.expand choice.value))
    (quantity : Quantity) (separator : Text) :
    Ensures (fun text => text.length ≤ (longestRepeated texts quantity separator).length)
      (draw room choices quantity separator) := by
  have bounded : ∀ choice ∈ choices,
      Ensures (fun expanded => expanded.length ≤ (longest texts).length)
        (room.expand choice.value) := by
    intro choice member
    obtain ⟨text, present, shorter⟩ := each choice member
    refine shorter.mono ?_
    intro expanded bound
    exact Nat.le_trans bound (length_le_longest present)
  have left : Ensures (fun allowed => allowed.Sublist choices)
      (liftM (eligible room choices) : Eval (List Choice)) := .lift fun _ _ _ => eligible_sublist
  refine left.bind ?_
  intro allowed sublist
  dsimp only
  split
  · exact .pure (Nat.zero_le _)
  · next some =>
    have usable : allowed.filter Pool.isUsable ≠ [] := by simpa [Pool.ofChoices] using some
    have within : Ensures (fun drawn => drawn.length ≤ min (quantity.most texts.length) drawLimit ∧
        ∀ choice ∈ drawn, choice ∈ allowed) (liftM (drawFrom room.settings.selection
          (Pool.ofChoices allowed) quantity) : Eval (List Choice)) :=
      .lift fun _ _ _ => drawFrom_within usable (Nat.le_trans sublist.length_le fewer)
    refine within.bind ?_
    rintro drawn ⟨number, among⟩
    have shorter : Ensures
        (List.Forall₂ (fun _ expanded => expanded.length ≤ (longest texts).length) drawn)
        (drawn.mapM fun choice => room.expand choice.value) := by
      apply Ensures.mapM
      intro choice member
      exact bounded choice (sublist.subset (among choice member))
    refine shorter.bind ?_
    intro expanded related
    refine .pure ?_
    have each : List.Forall₂ (fun part bound : Text => part.length ≤ bound.length) expanded
        (drawn.map fun _ => longest texts) := List.forall₂_map_right_iff.2 related.flip
    rw [List.map_const'] at each
    exact Nat.le_trans (Text.length_join_le each) (Text.length_join_replicate_le _ _ number)

/-- What a draw from a wildcard of a known name ensures if it is found. Otherwise the draw fails. -/
theorem wildcard_ensures {d : Directive} {name : Text} {holds : Text → Prop}
    (named : Ensures (fun text => text = name) (room.expand (nameAndFilter d.bodyText).1))
    (drawn : ∀ lines, room.settings.wildcards.find? (Text.trim name) = some lines →
      ∀ filter : Filter, Ensures holds (draw room ((Choice.ofLines lines).filter filter.admits)
        (Quantity.ofArgument d.argumentText).1 (Quantity.ofArgument d.argumentText).2)) :
    Ensures holds (wildcard room d) := by
  refine named.bind ?_
  rintro text rfl
  dsimp only
  cases found : room.settings.wildcards.find? (Text.trim text) with
  | none =>
    split
    · refine .last ?_
      intro filter
      exact .throw _
    · exact .throw _
  | some lines =>
    split
    · refine .last ?_
      intro filter
      exact drawn lines found (Filter.ofText filter)
    · exact drawn lines found ⟨[]⟩

end Drawing

section Bounded

variable {estimates : EstimateRoom} {room : Room} (bounds : estimates.Bounds room)

include bounds

/-- The values of measured lines have estimates that are known. -/
theorem estimateValues_eq {lines : List Text} (measured : ∀ line ∈ lines, Text.IsMeasured line) :
    estimateValues estimates lines =
      pure (lines.map fun line => (estimates.estimate (Choice.ofText line).value).text) := by
  apply mapM_eq_pure
  intro line member
  exact (bounds.texts _ ((measured line member).part (Choice.hasPart_value line))).steady

/-- A draw from some of the choices that measured lines are written as. -/
theorem drawLines_ensures {lines : List Text} (measured : ∀ line ∈ lines, Text.IsMeasured line)
    {choices : List Choice} (among : choices.Sublist (Choice.ofLines lines)) (quantity : Quantity)
    (separator : Text) :
    Ensures (fun text => text.length ≤ (longestRepeated (lines.map fun line =>
        (estimates.estimate (Choice.ofText line).value).text) quantity separator).length)
      (draw room choices quantity separator) := by
  refine draw_ensures ?_ ?_ quantity separator
  · have fewer := among.length_le
    rw [Choice.ofLines, List.length_mapIdx] at fewer
    rwa [List.length_map]
  · intro choice member
    obtain ⟨index, inside, same⟩ := List.mem_mapIdx.1 (among.subset member)
    have present : lines[index] ∈ lines := List.getElem_mem inside
    refine ⟨_, List.mem_map_of_mem present, ?_⟩
    rw [← same]
    exact (bounds.texts _ ((measured _ present).part (Choice.hasPart_value _))).longer

variable {d : Directive}

/-- A draw from the options of a measured body. -/
theorem estimateRandom_bounds (body : Text.IsMeasured d.bodyText) :
    (estimateRandom estimates d).Bounds (random room d) := by
  have lines : ∀ option ∈ options d.bodyText, Text.IsMeasured option := by
    intro option member
    exact body.part (hasPart_options member)
  refine .of_pure ?_ (drawLines_ensures bounds lines (List.Sublist.refl _) _ _)
  rw [estimateRandom, estimateValues_eq bounds lines]
  rfl

/-- A draw from the lines of a wildcard in whose name no tag stands. -/
theorem estimateWildcard_bounds (body : Text.IsMeasured d.bodyText)
    (plain : (Template.ofText (nameAndFilter d.bodyText).1).directives = []) :
    (estimateWildcard estimates d).Bounds (wildcard room d) := by
  have steady := (bounds.texts _ (body.part (hasPart_name d.bodyText))).steady
  have name := bounds.names _ plain
  rw [estimateWildcard]
  dsimp only
  rw [steady, pure_bind, bounds.wildcards]
  split
  · next missing =>
    refine .of_pure rfl (wildcard_ensures name ?_)
    intro lines found
    rw [missing] at found
    cases found
  · next lines found =>
    have measured := bounds.lines _ lines found
    rw [estimateValues_eq bounds measured, pure_bind]
    refine .of_pure rfl (wildcard_ensures name ?_)
    intro lines' found' filter
    obtain rfl := Option.some.inj (found.symm.trans found')
    exact drawLines_ensures bounds measured List.filter_sublist _ _

/-- An edit between two measured texts at a measured step. Blanks around the step are dropped. -/
theorem estimateFromTo_bounds (argument : Text.IsMeasured d.argumentText)
    (body : Text.IsMeasured d.bodyText) :
    (estimateFromTo estimates d).Bounds (fromTo room d) := by
  have each : ∀ part ∈ parts d.bodyText, (estimates.estimate part).Bounds (room.expand part) := by
    intro part member
    exact bounds.texts part (body.part (hasPart_parts member))
  have step := bounds.texts d.argumentText argument
  rw [estimateFromTo, fromTo]
  split
  · next first second pair =>
    have first := each first (by simp [pair])
    have second := each second (by simp [pair])
    rw [first.steady, second.steady, step.steady]
    refine .of_pure rfl ?_
    refine first.longer.bind ?_
    intro first firstShorter
    refine second.longer.bind ?_
    intro second secondShorter
    refine step.longer.bind ?_
    intro step stepShorter
    refine .pure ?_
    have trimmed := (Text.trim_infix step).length_le
    simp only [List.length_append]
    omega
  · exact .of_pure rfl (.throw _)

/-- An alternation of measured texts. -/
theorem estimateAlternate_bounds (body : Text.IsMeasured d.bodyText) :
    (estimateAlternate estimates d).Bounds (alternate room d) := by
  have each : ∀ part ∈ parts d.bodyText, (estimates.estimate part).Bounds (room.expand part) := by
    intro part member
    exact bounds.texts part (body.part (hasPart_parts member))
  rw [estimateAlternate, mapM_eq_pure fun part member => (each part member).steady]
  have expanded := Ensures.mapM fun part member => (each part member).longer
  refine .of_pure rfl (expanded.bind ?_)
  intro texts related
  refine .pure ?_
  have joined : (Text.join "|" texts).length ≤ _ :=
    Text.length_join_le (List.forall₂_map_right_iff.2 related.flip)
  simp only [List.length_append]
  omega

/-- Setting a variable to a measured text yields that text or nothing. -/
theorem estimateAssignment_bounds_setVariable (body : Text.IsMeasured d.bodyText) :
    (estimateAssignment estimates d).Bounds (setVariable room d) := by
  have value := bounds.texts d.bodyText body
  rw [estimateAssignment, setVariable]
  generalize nameAndFlag d.argumentText = argument
  obtain ⟨name, flag⟩ := argument
  dsimp only
  by_cases shown : yields flag
  · simp only [shown, if_true]
    refine ⟨value.steady, .last fun _ => value.longer.bind ?_⟩
    intro text shorter
    exact .last fun _ => .pure shorter
  · simp only [shown]
    exact .of_nil rfl (.last fun _ => .last fun _ => .last fun _ => .pure rfl)

/-- Setting a macro to a measured text yields the expansion of that text or nothing. -/
theorem estimateAssignment_bounds_setMacro (body : Text.IsMeasured d.bodyText) :
    (estimateAssignment estimates d).Bounds (setMacro room d) := by
  have value := bounds.texts d.bodyText body
  rw [estimateAssignment, setMacro]
  generalize nameAndFlag d.argumentText = argument
  obtain ⟨name, flag⟩ := argument
  dsimp only
  by_cases shown : yields flag
  · simp only [shown, if_true]
    exact ⟨value.steady, .last fun _ => .last fun _ => value.longer⟩
  · simp only [shown]
    exact .of_nil rfl (.last fun _ => .last fun _ => .pure rfl)

/-- Away from matches and readings, the estimate of every standard directive bounds it. -/
theorem standard_bounds {name : Text} {handler : Handler}
    (found : standard.find? name = some handler) (other : name ∉ unmeasured)
    (argument : Text.IsMeasured d.argumentText) (body : Text.IsMeasured d.bodyText)
    (plain : name = "wcwildcard" → (Template.ofText (nameAndFilter d.bodyText).1).directives = []) :
    ∃ estimate, handler.estimate = some estimate ∧
      (estimate estimates d).Bounds (handler.expand room d) := by
  have member := Dictionary.mem_of_find?_ofList found
  simp only [List.mem_cons, List.not_mem_nil, or_false, Prod.mk.injEq] at member
  rcases member with ⟨_, rfl⟩ | ⟨same, rfl⟩ | ⟨_, rfl⟩ | ⟨_, rfl⟩ | ⟨_, rfl⟩ | ⟨_, rfl⟩ | ⟨read, _⟩ |
    ⟨read, _⟩ | ⟨read, _⟩ | ⟨_, rfl⟩ | ⟨_, rfl⟩ | ⟨_, rfl⟩ | ⟨_, rfl⟩ | ⟨_, rfl⟩ | ⟨_, rfl⟩ |
    ⟨read, _⟩ | ⟨read, _⟩
  · exact ⟨_, rfl, estimateRandom_bounds bounds body⟩
  · exact ⟨_, rfl, estimateWildcard_bounds bounds body (plain same)⟩
  · exact ⟨_, rfl, estimateFromTo_bounds bounds argument body⟩
  · exact ⟨_, rfl, estimateAlternate_bounds bounds body⟩
  · exact ⟨_, rfl, estimateAssignment_bounds_setVariable bounds body⟩
  · exact ⟨_, rfl, estimateAssignment_bounds_setMacro bounds body⟩
  · exact absurd (read ▸ by decide) other
  · exact absurd (read ▸ by decide) other
  · exact absurd (read ▸ by decide) other
  · exact ⟨_, rfl, .of_nil rfl (.last fun _ => .last fun _ => .last fun _ => .pure rfl)⟩
  · exact ⟨_, rfl, .of_nil rfl (.last fun _ => .last fun _ => .pure rfl)⟩
  · exact ⟨_, rfl, .of_nil rfl (.last fun _ => .last fun _ => .last fun _ => .pure rfl)⟩
  · exact ⟨_, rfl, .of_nil rfl (.last fun _ => .last fun _ => .pure rfl)⟩
  · exact ⟨_, rfl, .of_nil rfl (.last fun _ => .last fun _ => .pure rfl)⟩
  · exact ⟨_, rfl, .of_nil rfl (.pure rfl)⟩
  · exact absurd (read ▸ by decide) other
  · exact absurd (read ▸ by decide) other

end Bounded

end Directives

namespace Engine

variable {engine : Engine}

section Pieces

variable {estimates : EstimateRoom} {room : Room}

omit room in
/-- The estimate of a tag is the one that its handler has, if it has one. -/
theorem estimateDirective_of_handler {tag : Directive} {handler : Handler}
    {estimate : EstimateRoom → Directive → Estimate Text}
    (handled : engine.handler? tag.name = some handler)
    (stated : handler.estimate = some estimate) :
    engine.estimateDirective estimates tag = estimate estimates tag := by
  rw [estimateDirective, handled]
  dsimp only
  rw [stated]

/-- If the estimate of a directive bounds what its handler yields, it bounds what the tag expands
to, because a failure yields nothing. -/
theorem estimateDirective_bounds_of_handler {tag : Directive} {handler : Handler}
    {estimate : EstimateRoom → Directive → Estimate Text}
    (handled : engine.handler? tag.name = some handler) (stated : handler.estimate = some estimate)
    (bounded : (estimate estimates tag).Bounds (handler.expand room tag)) :
    (engine.estimateDirective estimates tag).Bounds (liftM (engine.expandDirective room tag)) := by
  rw [estimateDirective_of_handler handled stated]
  constructor
  · exact bounded.steady
  · apply Ensures.lift
    intro state result final done
    rw [run_expandDirective room handled] at done
    split at done
    · next text after expanded =>
      cases done
      exact bounded.longer state result final expanded
    · cases done
      exact Nat.zero_le _
    · cases done

/-- If the estimate of every tag in a template bounds what the tag expands to, the estimate of the
template bounds what its pieces expand to one after the other. -/
theorem estimateTemplate_bounds {template : Template}
    (tags : ∀ tag ∈ template.directives,
      (engine.estimateDirective estimates tag).Bounds (liftM (engine.expandDirective room tag))) :
    (engine.estimateTemplate estimates template).Bounds
      (liftM (engine.expandTemplate room template)) := by
  have each : ∀ node ∈ template,
      (engine.estimateNode estimates node).Bounds (liftM (engine.expandNode room node)) := by
    intro node member
    cases node with
    | literal content => exact .of_pure rfl (.pure (Nat.le_refl _))
    | directive tag => exact tags tag (List.mem_filterMap.2 ⟨_, member, rfl⟩)
  have known : engine.estimateTemplate estimates template =
      pure (template.map fun node => (engine.estimateNode estimates node).text).flatten := by
    rw [estimateTemplate, mapM_eq_pure fun node member => (each node member).steady]
    rfl
  refine .of_pure known (.lift ?_)
  intro state result final done
  clear known tags
  induction template generalizing state result final with
  | nil =>
    cases done
    exact Nat.zero_le _
  | cons node rest inductionHypothesis =>
    rw [expandTemplate_cons, Checked.run_bind] at done
    split at done
    · next first between ran =>
      rw [Checked.run_bind] at done
      split at done
      · next others after ranOthers =>
        have lifted : (liftM (engine.expandNode room node) : Eval Text).run.run.run state =
            (some (.ok first), between) := by
          rw [Checked.run_liftEither, ran]
          rfl
        have front := (each node List.mem_cons_self).longer state first between lifted
        have later := inductionHypothesis
          (fun node member => each node (List.mem_cons_of_mem _ member)) _ _ _ ranOthers
        cases done
        rw [List.map_cons, List.flatten_cons, List.length_append, List.length_append]
        exact Nat.add_le_add front later
      · cases done
    · cases done

omit estimates room in
/-- What the expansion in the room at the top level ensures is so for an expansion of the engine. -/
theorem ensures_expand {text : Text} {holds : Text → Prop}
    (ensures : Ensures holds (engine.room.expand text)) {stream : Random.Stream}
    {expansion : Expansion} (yields : (engine.expand text stream).1 = some (.ok expansion)) :
    holds expansion.text := by
  rw [expand] at yields
  rcases ended : (engine.room.expand text).run.run.run (State.start stream) with
    ⟨_ | cause | final, after⟩
  · rw [ended] at yields
    cases yields
  · rw [ended] at yields
    cases yields
  · rw [ended] at yields
    obtain rfl := Except.ok.inj (Option.some.inj yields)
    exact ensures _ final after ended

end Pieces

variable (standard : engine.handlers = Directives.standard)

include standard

/-- The standard directives have names in lower case. -/
theorem handler?_standard (name : Text) :
    engine.handler? name = Directives.standard.find? (Text.lower name) := by
  have lowered : ∀ name ∈ Directives.standard.names, Text.lower name = name := by decide
  rw [handler?, standard]
  cases found : Directives.standard.find? name with
  | none => rfl
  | some handler =>
    rw [lowered name (Dictionary.mem_names found), found]
    rfl

/-- The estimate of a measured tag bounds what the tag expands to. A tag without a handler stays as
it is in both. -/
theorem estimateDirective_bounds {estimates : EstimateRoom} {room : Room}
    (bounds : estimates.Bounds room) {tag : Directive} (measured : tag.IsMeasured)
    (argument : Text.IsMeasured tag.argumentText) (body : Text.IsMeasured tag.bodyText) :
    (engine.estimateDirective estimates tag).Bounds (liftM (engine.expandDirective room tag)) := by
  cases handled : engine.handler? tag.name with
  | none =>
    rw [estimateDirective, expandDirective, handled]
    exact .of_pure rfl (.pure (Nat.le_refl _))
  | some handler =>
    obtain ⟨estimate, stated, bounded⟩ := Directives.standard_bounds bounds
      ((handler?_standard standard tag.name).symm.trans handled) measured.name argument body
      measured.wildcard
    exact estimateDirective_bounds_of_handler handled stated bounded

/-- With any number of levels left, the estimates of measured texts bound their expansions. -/
theorem estimateWithin_bounds
    (lines : ∀ name lines, engine.settings.wildcards.find? name = some lines →
      ∀ line ∈ lines, Text.IsMeasured line) (levels : Nat) :
    EstimateRoom.Bounds ⟨engine.settings, engine.estimateWithin levels⟩
      ⟨engine.settings, engine.expandWithin levels⟩ := by
  induction levels with
  | zero => exact ⟨rfl, lines, fun _ _ => .of_pure rfl (.throw _), fun _ _ => .throw _⟩
  | succ levels inductionHypothesis =>
    refine ⟨rfl, lines, ?_, ?_⟩
    · intro text measured
      apply estimateTemplate_bounds
      intro tag member
      have held := Template.holds_of_mem_directives member
      exact estimateDirective_bounds standard inductionHypothesis (measured tag held)
        (measured.part held.hasPart_argument) (measured.part held.hasPart_body)
    · intro text plain
      have unhandled : engine.Unhandled (Template.ofText text) := unhandled_of_tagless plain
      have known : (engine.estimateWithin (levels + 1) text).text = text :=
        congrArg Prod.fst (estimateWithin_unhandled levels unhandled 0)
      dsimp only
      rw [expandWithin_eq_pure levels unhandled, known]
      exact .pure rfl

/-- The estimate of a text is an upper bound of the length of its expansions away from matches and
readings. Neither the text nor an option of a wildcard may hold a match, a case or a reading, or a
wildcard whose name has a tag in it; everything else may be in it at any depth, and the bound holds
for every selection policy, every source of random words and every nesting limit. -/
theorem length_le_estimate
    (lines : ∀ name lines, engine.settings.wildcards.find? name = some lines →
      ∀ line ∈ lines, Text.IsMeasured line)
    {text : Text} (measured : Text.IsMeasured text) {stream : Random.Stream} {expansion : Expansion}
    (yields : (engine.expand text stream).1 = some (.ok expansion)) :
    expansion.text.length ≤ (engine.estimate text).length := by
  have bounded := (estimateWithin_bounds standard lines engine.settings.limit).texts text measured
  exact ensures_expand bounded.longer yields

omit standard

/-- Options with labels, a weight, a guard and tags. -/
def flowers : List Text :=
  ["(tall)::foxglove", "(tall) 3::<lora:rose><random:red|dark red>", "moss",
    "if withered eq 'yes' (tall)::straw"]

/-- An engine with these options for a wildcard and room for three levels. -/
def gardener : Engine :=
  { Engine.standard with
    settings :=
      { Settings.standard.withWildcards (WildcardCollection.ofList [("flowers", flowers)]) with
        limit := 3 } }

/-- An assignment that yields its text, draws with separators, and a tag beyond the third level. -/
def bed : Text :=
  "<setvar[kind]:<fromto[ 4 ]:bud||bloom>>" ++
    "<random[2,; ]:1::ivy|2::<alternate:dew||<random:<random:rain>>>>" ++
    "<wcnegative:weeds><wcwildcard[3]: flowers :tall>"

/-- The estimate repeats the longest option and cuts off what is too deep. -/
theorem length_le_estimate_bed :
    gardener.handlers = Directives.standard ∧
      (∀ name lines, gardener.settings.wildcards.find? name = some lines →
        ∀ line ∈ lines, Text.IsMeasured line) ∧
      Text.IsMeasured bed ∧
      gardener.estimate bed = ("[bud:bloom: 4 ][dew|]; [dew|]<lora:rose>dark red " ++
        "<lora:rose>dark red <lora:rose>dark red" : Text) ∧
      ∃ expansion, (gardener.expand bed (Random.Stream.ofSeed #[] 7)).1 = some (.ok expansion) ∧
        expansion.text = "[bud:bloom:4][dew|]; ivy<lora:rose>red foxglove foxglove".toList ∧
        expansion.text.length ≤ (gardener.estimate bed).length := by
  have lines : ∀ name lines, gardener.settings.wildcards.find? name = some lines →
      ∀ line ∈ lines, Text.IsMeasured line := by
    intro name lines found line member
    have each : ∀ lines ∈ gardener.settings.wildcards.options.entries.map Prod.snd,
        ∀ line ∈ lines, line.tails.all beginsMeasured = true := by decide +kernel
    have stored := WildcardCollection.stored_of_find? found
    exact Text.isMeasured_of_tails (each lines stored line member)
  have measured : Text.IsMeasured bed := Text.isMeasured_of_tails (by decide +kernel)
  have known : Expansion.text? (gardener.expand bed (Random.Stream.ofSeed #[] 7)).1 =
      some "[bud:bloom:4][dew|]; ivy<lora:rose>red foxglove foxglove".toList := by decide +kernel
  obtain ⟨expansion, yields, text⟩ := Expansion.exists_of_text known
  exact ⟨rfl, lines, measured, by decide +kernel, expansion, yields, text,
    length_le_estimate rfl lines measured yields⟩

end Engine

end DynamicPrompt
