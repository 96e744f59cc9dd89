import DynamicPrompt.Proofs.Agreement
import DynamicPrompt.Proofs.Bindings
import DynamicPrompt.Proofs.Engine.Run
import DynamicPrompt.Proofs.Source.Passes

/-!
# Directives act through rooms

By itself a directive only advances the state: it warns, draws random words, changes the scope
without losing a name, adds to the negative prompt and decides the match that it stands in. Whatever
else it does to the state is done by its room, which expands texts and evaluates conditions. So where
two rooms do the same up to a mark, the standard directives do the same in them, and a relation
between states that contains the advances is respected by the directives if the room respects it.

The expansion of the body of a match and the firing of a case need more of such a relation, since
they set the state of the match aside, put it back and decide it.
-/

namespace DynamicPrompt

/-- Where the state of a match may lead: it stays, or the match is decided. -/
inductive MatchState.LeadsTo : MatchState → MatchState → Prop where
  | stays (matching : MatchState) : LeadsTo matching matching
  | fires : LeadsTo .undecided .decided

/-- The state after some work, compared with the state before it. -/
structure State.Advances (before after : State) : Prop where
  matching : before.matching.LeadsTo after.matching
  warnings : before.warnings <+: after.warnings
  scope : before.scope.Retains after.scope
  negative : before.negative <:+: after.negative

/-- What leads from one state of a match to a second and from there to a third leads from the
first to the third. -/
theorem MatchState.LeadsTo.trans {first second third : MatchState}
    (before : first.LeadsTo second) (after : second.LeadsTo third) : first.LeadsTo third := by
  cases before with
  | stays => exact after
  | fires =>
    cases after with
    | stays => exact .fires

instance : IsPreorder State State.Advances where
  refl _ := ⟨.stays _, List.prefix_rfl, .refl _, List.infix_rfl⟩
  trans _ _ _ before after :=
    ⟨before.matching.trans after.matching, before.warnings.trans after.warnings,
      before.scope.trans after.scope, before.negative.trans after.negative⟩

/-- Inside a match, deciding it is an advance. -/
theorem State.advances_decided {state : State} (inside : state.matching ≠ .outside) :
    state.Advances (state.matched .decided) := by
  have leads : state.matching.LeadsTo .decided := by
    cases matching : state.matching with
    | outside => exact absurd matching inside
    | undecided => exact .fires
    | decided => exact .stays _
  exact ⟨leads, List.prefix_rfl, .refl _, List.infix_rfl⟩

/-- No work leads out of a match. -/
theorem State.Advances.inside {before after : State} (advances : before.Advances after)
    (inside : before.matching ≠ .outside) : after.matching ≠ .outside := by
  have leads := advances.matching
  intro outside
  rw [outside] at leads
  generalize before.matching = matching at leads inside
  cases leads with
  | stays => exact inside rfl

/-- Work that only advances the state and does not stop. -/
abbrev Run.Advances {α : Type} (work : Run α) : Prop :=
  Respects State.Advances (fun _ _ => False) work

/-- Work that only advances the state, whether it fails or not, and does not stop. -/
abbrev Eval.Advances {α : Type} (work : Eval α) : Prop :=
  RespectsEither State.Advances (fun _ _ => False) work

/-- The settings with another nesting limit. -/
def Settings.withLimit (settings : Settings) (limit : Nat) : Settings := { settings with limit }

/-- The failure that a warning reports. -/
def Warning.cause? : Warning → Option Error
  | .directiveFailed _ cause | .conditionFailed _ cause | .macroFailed _ cause => some cause
  | _ => none

namespace Run

/-- A warning is an advance. -/
theorem warn_advances (warning : Warning) : Run.Advances (warn warning) :=
  .modify fun _ => ⟨.stays _, List.prefix_append _ _, .refl _, List.infix_rfl⟩

/-- A report is an advance if it only adds warnings, also where it stops. -/
theorem report_respects {α : Type} {work : Reporting α} (onlyAdds : OnlyAdds work) :
    Respects State.Advances State.Advances (report work) := by
  intro state
  have led := onlyAdds state.warnings
  have whole : (report work).run.run state = ((work.run.run state.warnings).1,
      { state with warnings := (work.run.run state.warnings).2 }) := rfl
  rw [whole]
  generalize work.run.run state.warnings = outcome at led ⊢
  obtain ⟨_ | _, warnings⟩ := outcome
  · exact ⟨.stays _, led, .refl _, List.infix_rfl⟩
  · exact ⟨.stays _, led, .refl _, List.infix_rfl⟩

/-- A draw touches nothing but the random words. -/
theorem drawing_advances {α : Type} (draw : Random.Stream → α × Random.Stream) :
    Run.Advances (drawing draw) :=
  fun _ => ⟨.stays _, List.prefix_rfl, .refl _, List.infix_rfl⟩

/-- A change of the scope is an advance if it keeps all names bound. -/
theorem changeScope_advances {change : Scope → Scope}
    (retains : ∀ scope, Scope.Retains scope (change scope)) :
    Run.Advances (changeScope change) :=
  .modify fun state => ⟨.stays _, List.prefix_rfl, retains state.scope, List.infix_rfl⟩

/-- The negative prompt stays part of what it grows into, on whichever side. -/
theorem addNegative_advances (text : Text) (before : Bool) :
    Run.Advances (addNegative text before) := by
  refine .modify fun state => ⟨.stays _, List.prefix_rfl, .refl _, ?_⟩
  dsimp only
  split
  · exact (List.suffix_append _ _).isInfix
  · exact (List.prefix_append _ _).isInfix

end Run

namespace Directives

/-- The lack of a name changes nothing. -/
theorem requireName_advances (name : Text) (d : Directive) : Eval.Advances (requireName name d) := by
  unfold requireName
  split
  · exact .throw _
  · exact .pure _

/-- A count that is cut down adds a warning. -/
theorem capped_advances (count : Nat) : Run.Advances (capped count) := by
  unfold capped
  split
  · exact .bind (Run.warn_advances _) fun _ => .pure _
  · exact .pure _

variable (room : Room) (d : Directive)

/-- Reading a variable changes nothing. -/
theorem readVariable_advances : Eval.Advances (readVariable room d) :=
  .bind (.lift .get) fun _ => .pure _

/-- Adding to a macro expands nothing. -/
theorem addToMacro_advances : Eval.Advances (addToMacro room d) :=
  .bind (requireName_advances _ d) fun _ =>
    .bind (.lift (Run.changeScope_advances fun scope => scope.retains_setMacro _ _)) fun _ =>
      .pure _

/-- The end of an override expands nothing. -/
theorem popMacro_advances : Eval.Advances (popMacro room d) :=
  .bind (requireName_advances _ d) fun _ =>
    .bind (.lift (Run.changeScope_advances fun scope => scope.retains_popMacro _)) fun _ => .pure _

end Directives

/-- A relation between states contains what the directives do by themselves. It contains the
advances; it leads from a state before which a match has been entered to that in which the match is
decided; and from what comes of the body of a match, entered as undecided, the state of the match
around it may be put back, which does not hide a mark either. Where the body stops, nothing is put
back, and what is said of such states must not depend on it. -/
class ContainsSteps (related stopped marked : State → State → Prop) : Prop
    extends Stopping related stopped, Marking related stopped marked where
  advance : ∀ {before after}, before.Advances after → related before after
  decide : ∀ {before after}, before.matching ≠ .outside → related before after →
    related after (after.matched .decided)
  restore : ∀ {before after}, related (before.matched .undecided) after →
    related before (after.matched before.matching)
  mark : ∀ {before after}, marked (before.matched .undecided) after →
    marked before (after.matched before.matching)
  quit : ∀ {before after}, stopped (before.matched .undecided) after → stopped before after
  hide : ∀ {before after}, marked (before.matched .undecided) after → marked before after

section Steps

variable {related stopped marked : State → State → Prop} [ContainsSteps related stopped marked]
  {telling : Error → Prop}

/-- What only advances the state agrees with itself. -/
theorem Run.Advances.agrees {α : Type} {work : Run α} (advances : Run.Advances work) :
    Agrees related stopped marked work work :=
  .itself (advances.mono (ContainsSteps.advance stopped marked) False.elim)

/-- What only advances the state agrees with itself, whether it fails or not. -/
theorem Eval.Advances.agrees {α : Type} {work : Eval α} (advances : Eval.Advances work) :
    AgreesEither related stopped marked telling work work :=
  .itself (Respects.mono advances (ContainsSteps.advance stopped marked) False.elim)

/-- A warning of a failure leaves a mark if the failure is telling. -/
def Telling (marked : State → State → Prop) (telling : Error → Prop) : Prop :=
  ∀ warning cause, warning.cause? = some cause → telling cause →
    ∀ state, marked state ((Run.warn warning).run.run state).2

/-- If no failure is telling, no mark has to be left. -/
theorem telling_never : Telling marked fun _ => False := fun _ _ _ never => never.elim

variable {settings : Settings} {limit : Nat} {expand expand' : Text → Eval Text}
  (tells : Telling marked telling)
  (inner : ∀ text, AgreesEither related stopped marked telling (expand text) (expand' text))
  (reading : ∀ {state : State} {name text}, state.scope.macros.find? name = some text →
    Leads related stopped state ((Run.report (settings.transpiler.transpile text)).run.run state))
  (evaluated : ∀ source, AgreesEither related stopped marked (fun _ => False)
    (Room.evaluate ⟨settings, expand⟩ source)
    (Room.evaluate ⟨settings.withLimit limit, expand'⟩ source))

namespace Room

include tells inner reading in
/-- Names are looked up alike. A macro that does not expand comes to nothing, with a warning. -/
theorem lookup_agrees (name : Text) :
    Agrees related stopped marked (Room.lookup ⟨settings, expand⟩ name)
      (Room.lookup ⟨settings.withLimit limit, expand'⟩ name) := by
  unfold lookup
  split
  · exact .pure _
  · refine .get_bind fun state => ?_
    dsimp only
    split
    · next text bound =>
      refine .bind ⟨reading bound, .inr rfl⟩ fun directives between _ => ?_
      refine AgreesEither.handle (inner directives) (fun result => ?_) (fun cause telling =>
        tells (.macroFailed name cause) cause rfl telling) between
      split
      · exact .pure _
      · exact .bind (Run.warn_advances _).agrees fun _ => .pure _
    · exact Agrees.pure _ state

include evaluated in
/-- Conditions hold alike. -/
theorem isTrue_agrees (source : Text) :
    Agrees related stopped marked (Room.isTrue ⟨settings, expand⟩ source)
      (Room.isTrue ⟨settings.withLimit limit, expand'⟩ source) := by
  refine AgreesEither.handle (evaluated source) (fun result => ?_) fun _ never => never.elim
  split
  · exact .pure _
  · exact .bind (Run.warn_advances _).agrees fun _ => .pure _

include inner in
/-- The bodies of matches are expanded alike, each in a match of its own. -/
theorem expandMatch_agrees (body : Text) :
    AgreesEither related stopped marked telling (Room.expandMatch ⟨settings, expand⟩ body)
      (Room.expandMatch ⟨settings.withLimit limit, expand'⟩ body) := by
  intro state
  obtain ⟨led, same⟩ := inner body (state.matched .undecided)
  constructor
  · change Leads related stopped state ((Room.expandMatch _ body).run.run.run state)
    rw [run_expandMatch]
    generalize (expand body).run.run.run (state.matched .undecided) = outcome at led ⊢
    obtain ⟨_ | _, after⟩ := outcome
    · exact ContainsSteps.quit related marked led
    · exact ContainsSteps.restore stopped marked led
  · rw [run_expandMatch, run_expandMatch]
    dsimp only
    generalize (expand body).run.run.run (state.matched .undecided) = outcome at same ⊢
    rcases same with hit | ⟨cause, tells, failed⟩ | equal
    · obtain ⟨_ | _, after⟩ := outcome
      · exact .inl (ContainsSteps.hide related stopped hit)
      · exact .inl (ContainsSteps.mark related stopped hit)
    · obtain ⟨_, after⟩ := outcome
      cases failed
      exact .inr (.inl ⟨cause, tells, rfl⟩)
    · rw [equal]
      exact .inr (.inr rfl)

end Room

namespace Directives

variable (d : Directive)

section Drawing

include inner evaluated

omit inner in
/-- Guards are evaluated alike, all of them before anything is drawn. -/
theorem eligible_agrees (choices : List Choice) :
    Agrees related stopped marked (eligible ⟨settings, expand⟩ choices)
      (eligible ⟨settings.withLimit limit, expand'⟩ choices) := by
  induction choices with
  | nil => exact .pure []
  | cons choice choices inductionHypothesis =>
    have allowed : Agrees related stopped marked (isEligible ⟨settings, expand⟩ choice)
        (isEligible ⟨settings.withLimit limit, expand'⟩ choice) := by
      unfold isEligible
      split
      · exact Room.isTrue_agrees evaluated _
      · exact .pure true
    exact .bind allowed fun _ => .bind inductionHypothesis fun _ => .pure _

/-- Once the guards are evaluated alike, the same choices are drawn. -/
theorem draw_agrees (choices : List Choice) (quantity : Quantity) (separator : Text) :
    AgreesEither related stopped marked telling (draw ⟨settings, expand⟩ choices quantity separator)
      (draw ⟨settings.withLimit limit, expand'⟩ choices quantity separator) := by
  refine .bind (.lift (eligible_agrees evaluated choices)) fun choices => ?_
  dsimp only
  split
  · exact .pure []
  · have drawn : Run.Advances (drawFrom settings.selection (Pool.ofChoices choices) quantity) :=
      .bind (Run.drawing_advances _) fun count =>
        .bind (capped_advances count) fun _ => Run.drawing_advances _
    exact .bind (.lift drawn.agrees) fun drawn =>
      .bind (.mapM drawn fun choice => inner choice.value) fun _ => .pure _

/-- The same lines are drawn from, unless they are missing. -/
theorem drawLines_agrees (lines : Option (List Text)) (name : Text) (filter : Filter)
    (quantity : Quantity) (separator : Text) :
    AgreesEither related stopped marked telling
      (match lines with
        | none => throw (.missingWildcard name)
        | some lines =>
          draw ⟨settings, expand⟩ ((Choice.ofLines lines).filter filter.admits) quantity separator)
      (match lines with
        | none => throw (.missingWildcard name)
        | some lines =>
          draw ⟨settings.withLimit limit, expand'⟩ ((Choice.ofLines lines).filter filter.admits)
            quantity separator) := by
  cases lines with
  | none => exact .throw _
  | some lines => exact draw_agrees inner evaluated _ quantity separator

/-- A draw from a wildcard expands the name and the filter first. -/
theorem wildcard_agrees :
    AgreesEither related stopped marked telling (wildcard ⟨settings, expand⟩ d)
      (wildcard ⟨settings.withLimit limit, expand'⟩ d) := by
  unfold wildcard
  split
  next quantity separator _ =>
  split
  next name filter _ =>
  refine .bind (inner name) fun name => ?_
  have found (filter : Filter) :=
    drawLines_agrees inner evaluated (settings.wildcards.find? (Text.trim name)) (Text.trim name)
      filter quantity separator
  dsimp only
  split
  · exact .bind (inner _) fun text => found (Filter.ofText text)
  · exact .bind (.pure _) found

end Drawing

section Expanding

include inner

/-- An edit expands its three parts. -/
theorem fromTo_agrees :
    AgreesEither related stopped marked telling (fromTo ⟨settings, expand⟩ d)
      (fromTo ⟨settings.withLimit limit, expand'⟩ d) := by
  unfold fromTo
  split
  · exact .bind (inner _) fun _ => .bind (inner _) fun _ => .bind (inner _) fun _ => .pure _
  · exact .throw _

/-- Setting a variable expands its value first. -/
theorem setVariable_agrees :
    AgreesEither related stopped marked telling (setVariable ⟨settings, expand⟩ d)
      (setVariable ⟨settings.withLimit limit, expand'⟩ d) :=
  .bind (requireName_advances _ d).agrees fun _ => .bind (inner _) fun value =>
    .bind (.lift (Run.changeScope_advances fun scope => scope.retains_setVariable _ value).agrees)
      fun _ => .pure _

/-- Setting a macro expands its text afterwards, if at all. -/
theorem setMacro_agrees :
    AgreesEither related stopped marked telling (setMacro ⟨settings, expand⟩ d)
      (setMacro ⟨settings.withLimit limit, expand'⟩ d) := by
  unfold setMacro
  split
  next name flag _ =>
  refine .bind (requireName_advances name d).agrees fun _ =>
    .bind (.lift (Run.changeScope_advances fun scope => scope.retains_setMacro name _).agrees)
      fun _ => ?_
  split
  · exact inner _
  · exact .pure []

/-- Reading a macro expands its text. -/
theorem readMacro_agrees :
    AgreesEither related stopped marked telling (readMacro ⟨settings, expand⟩ d)
      (readMacro ⟨settings.withLimit limit, expand'⟩ d) := by
  refine .get_bind fun state => ?_
  split
  · exact inner _ state
  · exact AgreesEither.pure [] state

/-- Adding to a variable expands what is added. -/
theorem addToVariable_agrees :
    AgreesEither related stopped marked telling (addToVariable ⟨settings, expand⟩ d)
      (addToVariable ⟨settings.withLimit limit, expand'⟩ d) :=
  .bind (requireName_advances _ d).agrees fun _ => .bind (inner _) fun _ =>
    .bind (.lift (Run.changeScope_advances fun scope => scope.retains_setVariable _ _).agrees)
      fun _ => .pure _

/-- An override expands its text first. -/
theorem pushMacro_agrees :
    AgreesEither related stopped marked telling (pushMacro ⟨settings, expand⟩ d)
      (pushMacro ⟨settings.withLimit limit, expand'⟩ d) :=
  .bind (requireName_advances _ d).agrees fun _ => .bind (inner _) fun text =>
    .bind (.lift (Run.changeScope_advances fun scope => scope.retains_pushMacro _ text).agrees)
      fun _ => .pure _

/-- An addition to the negative prompt expands what is added. -/
theorem negative_agrees :
    AgreesEither related stopped marked telling (negative ⟨settings, expand⟩ d)
      (negative ⟨settings.withLimit limit, expand'⟩ d) :=
  .bind (inner _) fun text => .bind (.lift (Run.addNegative_advances text _).agrees) fun _ => .pure _

/-- In a match that has been entered, a case that fires expands its text alike. -/
theorem fires_agrees {before between : State} (inside : before.matching ≠ .outside)
    (reached : related before between) (text : Text) :
    AgreesEitherAt related stopped marked telling between
      (do
        Run.setMatching .decided
        expand text)
      (do
        Run.setMatching .decided
        expand' text) := by
  refine .bind ⟨?_, .inr (.inr rfl)⟩ fun _ after _ => inner text after
  exact ContainsSteps.decide stopped marked inside reached

include evaluated

/-- A case evaluates its condition and expands its body, if the match around it is undecided. -/
theorem matchCase_agrees :
    AgreesEither related stopped marked telling (matchCase ⟨settings, expand⟩ d)
      (matchCase ⟨settings.withLimit limit, expand'⟩ d) := by
  refine .get_bind fun state => ?_
  cases matching : state.matching with
  | outside => exact AgreesEither.throw _ state
  | decided => exact AgreesEither.pure _ state
  | undecided =>
    have inside : state.matching ≠ .outside := by
      rw [matching]
      decide
    dsimp only
    split
    · exact fires_agrees inner inside (refl_of related state) _
    · have condition := Room.isTrue_agrees evaluated (Text.trim d.argumentText)
      refine .bind (AgreesEither.lift condition state) fun verdict between reached => ?_
      split
      · exact fires_agrees inner inside reached _
      · exact AgreesEither.pure _ between

/-- Every standard directive does the same in rooms that do the same. -/
theorem standard_agrees {name : Text} {handler : Handler} (found : standard.find? name = some handler) :
    AgreesEither related stopped marked telling (handler.expand ⟨settings, expand⟩ d)
      (handler.expand ⟨settings.withLimit limit, expand'⟩ d) := by
  have member := Dictionary.mem_of_find?_ofList found
  simp only [List.mem_cons, List.not_mem_nil, or_false, Prod.mk.injEq] at member
  rcases member with ⟨_, rfl⟩ | ⟨_, rfl⟩ | ⟨_, rfl⟩ | ⟨_, rfl⟩ | ⟨_, rfl⟩ | ⟨_, rfl⟩ | ⟨_, rfl⟩ |
    ⟨_, rfl⟩ | ⟨_, rfl⟩ | ⟨_, rfl⟩ | ⟨_, rfl⟩ | ⟨_, rfl⟩ | ⟨_, rfl⟩ | ⟨_, rfl⟩ | ⟨_, rfl⟩ |
    ⟨_, rfl⟩ | ⟨_, rfl⟩
  · exact draw_agrees inner evaluated _ _ _
  · exact wildcard_agrees inner evaluated d
  · exact fromTo_agrees inner d
  · exact .bind (.mapM _ inner) fun _ => .pure _
  · exact setVariable_agrees inner d
  · exact setMacro_agrees inner d
  · exact (readVariable_advances ⟨settings, expand⟩ d).agrees
  · exact readMacro_agrees inner d
  · exact readMacro_agrees inner d
  · exact addToVariable_agrees inner d
  · exact (addToMacro_advances ⟨settings, expand⟩ d).agrees
  · exact pushMacro_agrees inner d
  · exact (popMacro_advances ⟨settings, expand⟩ d).agrees
  · exact negative_agrees inner d
  · exact .pure []
  · exact Room.expandMatch_agrees inner d.bodyText
  · exact matchCase_agrees inner evaluated d

end Expanding

end Directives

namespace Engine

variable {engine engine' : Engine} {room room' : Room} {tag : Directive}

/-- A tag is expanded alike where its handler does the same. If the handler fails for a telling
cause, the warning leaves a mark. -/
theorem expandDirective_agrees (tells : Telling marked telling)
    (same : engine'.handler? tag.name = engine.handler? tag.name)
    (each : ∀ handler, engine.handler? tag.name = some handler →
      AgreesEither related stopped marked telling (handler.expand room tag) (handler.expand room' tag)) :
    Agrees related stopped marked (engine.expandDirective room tag)
      (engine'.expandDirective room' tag) := by
  unfold expandDirective
  rw [same]
  cases handled : engine.handler? tag.name with
  | none => exact .pure _
  | some handler =>
    refine AgreesEither.handle (each handler handled) (fun result => ?_) fun cause telling =>
      tells (.directiveFailed tag.name cause) cause rfl telling
    split
    · exact .pure _
    · exact .bind (Run.warn_advances _).agrees fun _ => .pure _

/-- A template is expanded alike where its tags are. -/
theorem expandTemplate_agrees
    (each : ∀ tag, Agrees related stopped marked (engine.expandDirective room tag)
      (engine'.expandDirective room' tag)) (template : Template) :
    Agrees related stopped marked (engine.expandTemplate room template)
      (engine'.expandTemplate room' template) := by
  refine .bind (.mapM fun node _ => ?_) fun _ => .pure _
  cases node with
  | literal content => exact .pure content
  | directive tag => exact each tag

end Engine

end Steps

end DynamicPrompt
