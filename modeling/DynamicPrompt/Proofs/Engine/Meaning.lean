import DynamicPrompt.Engine.Basic
import DynamicPrompt.Proofs.Template.Casework

/-!
# The meaning of matches and cases

The meaning of matches and cases is defined on their syntax, without a state that is changed and
put back: where a piece stands says what has happened in the match around it. In a match in which
no case has fired, the first case whose condition is missing or true fires; after that the cases of
the match yield nothing; and outside every match a case is a failure. A match inside another has a
course of its own and leaves that of the other alone.

The conditions that are evaluated are part of the meaning. Those that stand after the case that
fires are not among them.
-/

namespace DynamicPrompt

/-- What some pieces come to: their text, the warnings, the conditions that were evaluated, and the
state in which the match around them is left. -/
structure Outcome where
  text : Text
  warnings : Warnings
  conditions : List Text
  matching : MatchState

namespace Outcome

/-- One outcome after another. -/
instance : Append Outcome where
  append first rest :=
    ⟨first.text ++ rest.text, first.warnings ++ rest.warnings,
      first.conditions ++ rest.conditions, rest.matching⟩

/-- The match is left as the later outcome leaves it. -/
@[simp]
theorem matching_append (first rest : Outcome) : (first ++ rest).matching = rest.matching := rfl

/-- Text alone. -/
def ofText (text : Text) (matching : MatchState) : Outcome := ⟨text, [], [], matching⟩

/-- A warning alone. -/
def ofWarning (warning : Warning) (matching : MatchState) : Outcome := ⟨[], [warning], [], matching⟩

/-- The evaluation of a condition in a match that is not decided. It decides the match if its value
counts as true; without a value it counts as false and warns. -/
def ofCondition (condition : Text) (verdict : Except Error Value) : Outcome :=
  match verdict with
  | .ok value => ⟨[], [], [condition], if value.isTruthy then .decided else .undecided⟩
  | .error cause => ⟨[], [.conditionFailed condition cause], [condition], .undecided⟩

/-- The evaluation of a condition yields no text. -/
theorem text_ofCondition (condition : Text) (verdict : Except Error Value) :
    (ofCondition condition verdict).text = [] := by
  cases verdict with
  | ok value => rfl
  | error cause => rfl

/-- The condition is evaluated. -/
theorem mem_conditions_ofCondition (condition : Text) (verdict : Except Error Value) :
    condition ∈ (ofCondition condition verdict).conditions := by
  cases verdict with
  | ok value => exact List.mem_singleton_self condition
  | error cause => exact List.mem_singleton_self condition

/-- The evaluation of a condition leaves a match decided or undecided. -/
theorem matching_ofCondition {condition : Text} {verdict : Except Error Value}
    (fails : (ofCondition condition verdict).matching ≠ .decided) :
    (ofCondition condition verdict).matching = .undecided := by
  cases verdict with
  | error cause => rfl
  | ok value =>
    cases truthy : value.isTruthy with
    | false => simp [ofCondition, truthy]
    | true => exact absurd (by simp [ofCondition, truthy]) fails

end Outcome

/-- The condition as it is evaluated. -/
def CaseCondition.text (condition : CaseCondition) : Text := Text.trim condition.source

namespace Casework

/-- The meaning of pieces in a match in this state, or outside every match, when the conditions
have these values. -/
def meaning (verdict : Text → Except Error Value) : MatchState → Casework → Outcome
  | matching, nil => .ofText [] matching
  | matching, text content rest =>
    .ofText content.content matching ++ meaning verdict matching rest
  | matching, matchTag body rest =>
    { meaning verdict .undecided body with matching } ++ meaning verdict matching rest
  | .outside, caseTag _ _ rest =>
    .ofWarning (.directiveFailed "wccase" (.usage .caseOutsideMatch)) .outside ++
      meaning verdict .outside rest
  | .decided, caseTag _ _ rest => .ofText [] .decided ++ meaning verdict .decided rest
  | .undecided, caseTag none body rest =>
    meaning verdict .decided body ++ meaning verdict .decided rest
  | .undecided, caseTag (some condition) body rest =>
    let evaluated := Outcome.ofCondition condition.text (verdict condition.text)
    if evaluated.matching = .decided then
      evaluated ++ meaning verdict .decided body.trim ++ meaning verdict .decided rest
    else evaluated ++ meaning verdict .undecided rest
termination_by _ tree => tree.size
decreasing_by
  all_goals
    first
    | simp only [size]; omega
    | exact Nat.lt_succ_of_le (Nat.le_trans (size_trim _) (Nat.le_add_right _ _))

section Conditional

variable {verdict : Text → Except Error Value} {condition : CaseCondition} {body rest : Casework}

/-- A condition that is true makes its case fire. -/
theorem meaning_of_holds
    (holds : (Outcome.ofCondition condition.text (verdict condition.text)).matching = .decided) :
    (caseTag (some condition) body rest).meaning verdict .undecided =
      .ofCondition condition.text (verdict condition.text) ++ body.trim.meaning verdict .decided ++
        rest.meaning verdict .decided := by
  rw [meaning]
  exact if_pos holds

/-- A condition that is not true leaves the match to the cases after it. -/
theorem meaning_of_fails
    (fails : (Outcome.ofCondition condition.text (verdict condition.text)).matching ≠ .decided) :
    (caseTag (some condition) body rest).meaning verdict .undecided =
      .ofCondition condition.text (verdict condition.text) ++ rest.meaning verdict .undecided := by
  rw [meaning]
  exact if_neg fails

end Conditional

/-- In a match that is decided nothing decides it again. -/
theorem matching_meaning_decided (verdict : Text → Except Error Value) (tree : Casework) :
    (tree.meaning verdict .decided).matching = .decided := by
  induction tree with
  | nil => rw [meaning]; rfl
  | text content rest inductionHypothesis => rw [meaning]; exact inductionHypothesis
  | caseTag condition body rest _ inductionHypothesis => rw [meaning]; exact inductionHypothesis
  | matchTag body rest _ inductionHypothesis => rw [meaning]; exact inductionHypothesis

end Casework

end DynamicPrompt
