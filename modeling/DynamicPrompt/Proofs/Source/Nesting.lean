import DynamicPrompt.Proofs.Source.Passes

/-!
# Nesting of constructs

The rewriting counts the levels left down, and the text inside a construct has one level less. Seen
from a rewriting under way the same is counted up: every text that is entered makes it one deeper,
every text that is left one less deep, and at the limit no text is entered. The two ways of counting
are shown to agree.

The limit is only a safety net. A text that would be entered at the limit stays as it is, and this
never happens without a warning, whichever pass has found the construct. So a rewriting that raises
no such warning has not met the limit anywhere and is the same under every higher one. The passes act
through the rewriting of inner texts, so they agree where that does, and the levels carry the
agreement from the inside out.
-/

namespace DynamicPrompt

/-- Between the earlier warnings and the later ones one with the property has been raised. -/
def Raises (tells : Warning → Bool) (before after : Warnings) : Prop :=
  ∃ warning ∈ after.drop before.length, tells warning = true

/-- A warning that has been raised is not taken back. -/
theorem Raises.extends {tells : Warning → Bool} {first second third : Warnings}
    (raised : Raises tells first second) (extended : Extends second third) :
    Raises tells first third := by
  obtain ⟨warning, member, tells⟩ := raised
  exact ⟨warning, (extended.drop first.length).subset member, tells⟩

instance {tells : Warning → Bool} : Marking Extends Extends (Raises tells) where
  before := by
    rintro first second third extended ⟨warning, member, tells⟩
    exact ⟨warning, List.drop_subset_drop_left third extended.length_le member, tells⟩
  after := Raises.extends
  stop := Raises.extends

/-- A warning with the property is raised. -/
theorem raises_append {tells : Warning → Bool} {warning : Warning} (tell : tells warning = true)
    (warnings : Warnings) : Raises tells warnings (warnings ++ [warning]) :=
  ⟨warning, by rw [List.drop_left]; exact List.mem_singleton_self warning, tell⟩

/-- Whether a warning says that a text which would nest too deep has been left as it is. -/
def Warning.tellsNesting : Warning → Bool
  | .nestingLeft _ _ => true
  | _ => false

/-- Unless the first work meets the nesting limit, the second does the same. -/
abbrev AgreesBelow {α : Type} (first second : Reporting α) : Prop :=
  Agrees Extends Extends (Raises Warning.tellsNesting) first second

namespace Source

/-- A rewriting under way: how many texts are around the present one, and the warnings so far. -/
structure Session where
  depth : Nat
  warnings : Warnings

namespace Session

/-- The session inside one more text. -/
def enter (session : Session) : Session := { session with depth := session.depth + 1 }

/-- The session after a text. -/
def leave (session : Session) : Session := { session with depth := session.depth - 1 }

/-- Work that knows only the warnings, done in a session. -/
def perform {α : Type} (session : Session) (work : Reporting α) : Option α × Session :=
  let (result, warnings) := work.run.run session.warnings
  (result, { session with warnings })

end Session

end Source

namespace Transpiler

open Source

/-- The rewriting of a text in a session. The text is entered unless the limit is reached, and left
after the last pass over it. A rewriting that stops does not leave it. -/
def rewriteText (transpiler : Transpiler) (text : Text) (session : Session) :
    Option Text × Session :=
  if _reached : transpiler.limit ≤ session.depth then
    session.perform do
      warn (.nestingLeft transpiler.limit text)
      pure text
  else
    let nested (text : Text) : Reporting Text := OptionT.mk fun warnings =>
      let (result, after) := transpiler.rewriteText text { session.enter with warnings }
      (result, after.warnings)
    match session.enter.perform (passes ⟨transpiler, nested⟩ text) with
    | (some result, after) => (some result, after.leave)
    | (none, after) => (none, after)
termination_by transpiler.limit - session.depth
decreasing_by
  simp only [Session.enter]
  omega

/-- A rewriting that comes to an end has left every text that it entered. -/
theorem depth_rewriteText (transpiler : Transpiler) {text result : Text} {session after : Session}
    (done : transpiler.rewriteText text session = (some result, after)) :
    after.depth = session.depth := by
  rw [rewriteText] at done
  split at done
  · exact (Prod.mk.inj done).2 ▸ rfl
  · dsimp only at done
    split at done
    · next result inside performed =>
      have entered : inside.depth = session.enter.depth := (Prod.mk.inj performed).2 ▸ rfl
      rw [← (Prod.mk.inj done).2, Session.leave, entered]
      rfl
    · cases done

/-- Counting the depth up to the limit and counting the levels down come to the same. -/
theorem rewriteText_eq (transpiler : Transpiler) (text : Text) (session : Session) :
    (transpiler.rewriteText text session).map id Session.warnings =
      (transpiler.rewriteWithin (transpiler.limit - session.depth) text).run.run
        session.warnings := by
  induction left : transpiler.limit - session.depth generalizing text session with
  | zero =>
    have reached : transpiler.limit ≤ session.depth := by omega
    rw [rewriteText, dif_pos reached]
    rfl
  | succ levels inductionHypothesis =>
    have entered : ¬ transpiler.limit ≤ session.depth := by omega
    have inner : (fun (text : Text) => (OptionT.mk fun warnings =>
        let (result, after) := transpiler.rewriteText text { session.enter with warnings }
        (result, after.warnings) : Reporting Text)) = transpiler.rewriteWithin levels := by
      funext text warnings
      have deeper : transpiler.limit - (Session.enter session).depth = levels := by
        simp only [Session.enter]
        omega
      exact inductionHypothesis text { session.enter with warnings } deeper
    rw [rewriteText, dif_neg entered]
    dsimp only
    rw [inner, rewriteWithin, Session.perform]
    have kept : session.enter.warnings = session.warnings := rfl
    rw [kept]
    generalize (passes ⟨transpiler, transpiler.rewriteWithin levels⟩ text).run.run
      session.warnings = outcome
    obtain ⟨_ | _, after⟩ := outcome
    · rfl
    · rfl

/-- A line is rewritten in a session that has just begun. -/
theorem transpile_eq (transpiler : Transpiler) (line : Text) (warnings : Warnings) :
    (transpiler.transpile line).run.run warnings =
      (transpiler.rewriteText (clauseLabels line) ⟨0, warnings⟩).map id Session.warnings :=
  (transpiler.rewriteText_eq (clauseLabels line) ⟨0, warnings⟩).symm

/-- With more levels left, and under another limit, a text is rewritten to the same, unless the
fewer levels do not suffice. -/
theorem rewriteWithin_agrees (transpiler : Transpiler) (limit : Nat) {levels levels' : Nat}
    (more : levels ≤ levels') (text : Text) :
    AgreesBelow (transpiler.rewriteWithin levels text)
      ((transpiler.withLimit limit).rewriteWithin levels' text) := by
  induction levels generalizing levels' text with
  | zero =>
    -- the text is left as it is, with the warning that says so
    exact fun warnings =>
      ⟨transpiler.rewriteWithin_onlyAdds 0 text warnings, .inl (raises_append rfl warnings)⟩
  | succ levels inductionHypothesis =>
    cases levels' with
    | zero => exact absurd more (Nat.not_succ_le_zero levels)
    | succ levels' =>
      exact passes_agrees (inductionHypothesis (Nat.le_of_succ_le_succ more)) text

/-- The transpiler's nesting limit is only a safety net. If rewriting a line under one limit raises no
warning that the limit has been met, it is rewritten under every higher one to the same text, with
the same warnings, or stops under both. And whatever the limit, a rewriting under way, however deep,
is after a text as deep as it was before; a line is rewritten as the text at depth zero. -/
theorem transpile_withLimit (transpiler : Transpiler) {limit limit' : Nat} (higher : limit ≤ limit')
    (line : Text) (warnings : Warnings) :
    (¬ Raises Warning.tellsNesting warnings
          (((transpiler.withLimit limit).transpile line).run.run warnings).2 →
        ((transpiler.withLimit limit').transpile line).run.run warnings =
          ((transpiler.withLimit limit).transpile line).run.run warnings) ∧
      (∀ text session result after,
        (transpiler.withLimit limit).rewriteText text session = (some result, after) →
          after.depth = session.depth) ∧
      ((transpiler.withLimit limit).transpile line).run.run warnings =
        ((transpiler.withLimit limit).rewriteText (clauseLabels line) ⟨0, warnings⟩).map id
          Session.warnings := by
  refine ⟨fun unmet => ?_, fun _ _ _ _ => depth_rewriteText _, transpile_eq _ line warnings⟩
  have agrees := (transpiler.withLimit limit).rewriteWithin_agrees limit' higher (clauseLabels line)
  exact (agrees warnings).same.resolve_left unmet

/-- A variant in a variant in an alternation. -/
def nestedThrice : Text := "[x|{a|{b}}]"

/-- Four levels suffice for it; with three its innermost option is left as it is. -/
theorem transpile_withLimit_nestedThrice :
    4 ≤ 64 ∧
      ¬ Raises Warning.tellsNesting []
        (((standard.withLimit 4).transpile nestedThrice).run.run []).2 ∧
      ((standard.withLimit 64).transpile nestedThrice).run.run [] =
        ((standard.withLimit 4).transpile nestedThrice).run.run [] ∧
      (((standard.withLimit 4).transpile nestedThrice).run.run []).1 =
        some "<alternate:x||<random:a|<random:b>>>".toList ∧
      (((standard.withLimit 3).transpile nestedThrice).run.run []).2 = [.nestingLeft 3 "b"] := by
  have enough : 4 ≤ 64 := by decide
  have silent : (((standard.withLimit 4).transpile nestedThrice).run.run []).2 = [] := by
    decide +kernel
  have unmet : ¬ Raises Warning.tellsNesting []
      (((standard.withLimit 4).transpile nestedThrice).run.run []).2 := by
    rw [silent]
    rintro ⟨warning, member, _⟩
    exact List.not_mem_nil member
  exact ⟨enough, unmet, (transpile_withLimit standard enough nestedThrice []).1 unmet,
    by decide +kernel, by decide +kernel⟩

end Transpiler

end DynamicPrompt
