import DynamicPrompt.Engine.Directives
import DynamicPrompt.Proofs.Template.Lossless
import DynamicPrompt.Proofs.Template.Part
import DynamicPrompt.Proofs.Work

/-!
# Text without handled tags

An engine works on the top-level tags whose names it knows. A text that has none of them is
its own expansion and its own estimate: its pieces are printed as they were read, and
reading loses nothing. Tags inside a body that is not worked on do not count, since that
body is never read.
-/

namespace DynamicPrompt.Engine

/-- No top-level tag of the template has a handler. -/
def Unhandled (engine : Engine) (template : Template) : Prop :=
  ∀ tag ∈ template.directives, engine.handler? tag.name = none

/-- A piece of a template whose tags have no handler is a literal or such a tag. -/
theorem handler?_of_mem {engine : Engine} {template : Template} {tag : Directive}
    (unhandled : engine.Unhandled template) (member : Node.directive tag ∈ template) :
    engine.handler? tag.name = none :=
  unhandled tag (List.mem_filterMap.2 ⟨_, member, rfl⟩)

instance (engine : Engine) (template : Template) : Decidable (engine.Unhandled template) :=
  inferInstanceAs (Decidable (∀ tag ∈ template.directives, engine.handler? tag.name = none))

/-- Where there is no tag, none has a handler. -/
theorem unhandled_of_tagless {engine : Engine} {template : Template}
    (tagless : template.directives = []) : engine.Unhandled template := by
  intro tag member
  rw [tagless] at member
  exact absurd member List.not_mem_nil

/-- Text in which no bracket opens a tag has no handled tags. -/
theorem unhandled_unopened {engine : Engine} {text : Text} (unopened : '<' ∉ text) :
    engine.Unhandled (Template.ofText text) :=
  unhandled_of_tagless (Template.directives_unopened unopened)

/-- Pieces without handled tags expand to their print. -/
theorem expandTemplate_unhandled {engine : Engine} {template : Template} (room : Room)
    (unhandled : engine.Unhandled template) :
    engine.expandTemplate room template = pure template.print := by
  have each : ∀ node ∈ template, engine.expandNode room node = pure node.print := by
    intro node member
    cases node with
    | literal content => rfl
    | directive tag =>
      simp only [expandNode, expandDirective, handler?_of_mem unhandled member, Node.print]
  rw [expandTemplate, mapM_eq_pure each]
  simp [Template.print, List.flatMap]

/-- Pieces without handled tags have their print as their estimate. -/
theorem estimateTemplate_unhandled {engine : Engine} {template : Template}
    (room : EstimateRoom) (unhandled : engine.Unhandled template) :
    engine.estimateTemplate room template = pure template.print := by
  have each : ∀ node ∈ template, engine.estimateNode room node = pure node.print := by
    intro node member
    cases node with
    | literal content => rfl
    | directive tag =>
      simp only [estimateNode, estimateDirective, handler?_of_mem unhandled member, Node.print]
  rw [estimateTemplate, mapM_eq_pure each]
  simp [Template.print, List.flatMap]

/-- While levels are left, text without handled tags expands to itself and leaves the state
alone. -/
theorem expandWithin_unhandled {engine : Engine} {text : Text} (levels : Nat)
    (unhandled : engine.Unhandled (Template.ofText text)) (state : State) :
    (engine.expandWithin (levels + 1) text).run.run.run state = (some (.ok text), state) := by
  have whole := expandTemplate_unhandled ⟨engine.settings, engine.expandWithin levels⟩ unhandled
  rw [Template.print_ofText] at whole
  rw [expandWithin, whole]
  rfl

/-- While levels are left, expanding text without handled tags only yields the text. -/
theorem expandWithin_eq_pure {engine : Engine} {text : Text} (levels : Nat)
    (unhandled : engine.Unhandled (Template.ofText text)) :
    engine.expandWithin (levels + 1) text = pure text :=
  funext fun state => expandWithin_unhandled levels unhandled state

/-- While levels are left, expanding text in which no bracket opens a tag only yields the text. -/
theorem expandWithin_unopened {engine : Engine} {text : Text} (levels : Nat)
    (unopened : '<' ∉ text) : engine.expandWithin (levels + 1) text = pure text :=
  expandWithin_eq_pure levels (unhandled_unopened unopened)

/-- While levels are left, text without handled tags is its own estimate and leaves the
record of cases alone. -/
theorem estimateWithin_unhandled {engine : Engine} {text : Text} (levels : Nat)
    (unhandled : engine.Unhandled (Template.ofText text)) (longest : Nat) :
    engine.estimateWithin (levels + 1) text longest = (text, longest) := by
  have whole :=
    estimateTemplate_unhandled ⟨engine.settings, engine.estimateWithin levels⟩ unhandled
  rw [Template.print_ofText] at whole
  rw [estimateWithin, whole]
  rfl

/-- Reading directive text is total and loses nothing. The pieces of any text, printed in
order, are the text again, no literal is empty and no two literals are neighbours. An engine
that handles none of the top-level tags therefore leaves the text as it is, when expanding
and when estimating, as long as its nesting limit is not reached, and the evaluation
changes nothing, warns of nothing and draws nothing.

Losslessness carries both halves: the engine prints each piece it does not handle, and the
printed pieces are the text. -/
theorem reading_lossless (text : Text) :
    (Template.ofText text).print = text ∧
    Template.Separated (Template.ofText text) ∧
    ∀ engine : Engine, engine.Unhandled (Template.ofText text) →
      (∀ levels state,
        (engine.expandWithin (levels + 1) text).run.run.run state = (some (.ok text), state)) ∧
      (∀ levels longest, engine.estimateWithin (levels + 1) text longest = (text, longest)) ∧
      (0 < engine.settings.limit →
        (∀ stream, engine.expand text stream =
          (some (.ok (finish text (State.start stream))), stream)) ∧
        engine.estimate text = text) := by
  refine ⟨Template.print_ofText text, Template.piecesWithin_separated _ _, ?_⟩
  intro engine unhandled
  refine ⟨fun levels state => expandWithin_unhandled levels unhandled state,
    fun levels longest => estimateWithin_unhandled levels unhandled longest, ?_⟩
  intro positive
  obtain ⟨levels, limit⟩ := Nat.exists_eq_add_of_lt positive
  rw [Nat.zero_add] at limit
  constructor
  · intro stream
    have expanded := expandWithin_unhandled levels unhandled (State.start stream)
    rw [← limit] at expanded
    simp only [expand, room, expanded]
    rfl
  · have estimated := estimateWithin_unhandled levels unhandled 0
    rw [← limit] at estimated
    simp only [estimate, estimateRoom, estimated]

/-- A stray opening bracket, a tag that the standard directives do not know, around one that
they do, and a backslash at the end. -/
def strays : Text := "<3 <lora[1]:<random:a>> \\"

/-- The strays and the unknown tag stay as they are. -/
theorem reading_lossless_strays :
    standard.Unhandled (Template.ofText strays) ∧ 0 < standard.settings.limit ∧
      standard.estimate strays = strays := by
  have unhandled : standard.Unhandled (Template.ofText strays) := by decide +kernel
  have positive : 0 < standard.settings.limit := by decide
  have whole := (reading_lossless strays).2.2 standard unhandled
  exact ⟨unhandled, positive, (whole.2.2 positive).2⟩

end DynamicPrompt.Engine
