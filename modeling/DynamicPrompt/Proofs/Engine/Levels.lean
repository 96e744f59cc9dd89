import DynamicPrompt.Proofs.Engine.Rooms
import DynamicPrompt.Proofs.Expression.Lookup
import DynamicPrompt.Proofs.Source.Nesting

/-!
# The nesting limit of evaluations

Where an evaluation meets the nesting limit, the text that would nest too deep fails. The failure is
never silent: a directive, a condition or the reading of a macro around it turns it into a warning
that names the limit, and no directive handles the failures of the texts that it expands in any other
way. So an evaluation that raises no such warning has not met the limit anywhere and is the same
under every higher one.

An evaluation knows the limit only from the levels left, and the standard directives do the same in
two rooms whose expansions do the same until the first of them meets the limit. Handlers of the host
may be of any kind as long as they are like this, and so may the language of conditions if it does
the same against lookups that do the same.
-/

namespace DynamicPrompt

/-- Whether a failure is that of a text which would nest too deep. -/
def Error.isLimit : Error → Bool
  | .recursionLimit _ => true
  | _ => false

/-- Whether a warning says that the nesting limit of evaluations has been met. -/
def Warning.tellsLimit (warning : Warning) : Bool := warning.cause?.any Error.isLimit

/-- A warning that says so mentions the limit. -/
theorem Warning.mentions_of_tellsLimit {warning : Warning} (tells : warning.tellsLimit = true) :
    "recursion limit".toList <:+: warning.message := by
  obtain ⟨cause, reported, limited⟩ := (Option.any_eq_true _ _).1 tells
  have mentioned : "recursion limit".toList <:+: cause.message := by
    cases cause with
    | recursionLimit limit => exact ⟨[], " of " ++ Text.ofNat limit ++ " exceeded", rfl⟩
    | missingWildcard | expression | usage | unreadableExpression | unreadableJson => cases limited
  have ending : cause.message <:+ warning.message := by
    cases warning with
    | directiveFailed | conditionFailed | macroFailed =>
      obtain rfl := Option.some.inj reported
      exact List.suffix_append _ _
    | _ => cases reported
  exact mentioned.trans ending.isInfix

/-- The warnings of the later state begin with those of the earlier one. -/
def State.KeepsWarnings (before after : State) : Prop := Extends before.warnings after.warnings

/-- Between two states a warning has been raised that the nesting limit of evaluations was met. -/
def State.MeetsLimit (before after : State) : Prop :=
  Raises Warning.tellsLimit before.warnings after.warnings

instance : IsPreorder State State.KeepsWarnings where
  refl _ := List.prefix_rfl
  trans _ _ _ := List.IsPrefix.trans

instance : Marking State.KeepsWarnings State.KeepsWarnings State.MeetsLimit :=
  have marking : Marking Extends Extends (Raises Warning.tellsLimit) := inferInstance
  ⟨fun extended raised => marking.before extended raised,
    fun raised extended => marking.after raised extended,
    fun raised extended => marking.stop raised extended⟩

/-- Unless the first work raises a warning that it has met the nesting limit, the second does the
same. -/
abbrev Run.AgreesBelow {α : Type} (first second : Run α) : Prop :=
  Agrees State.KeepsWarnings State.KeepsWarnings State.MeetsLimit first second

/-- Unless the first work raises a warning that it has met the nesting limit, or fails because it
has, the second does the same. -/
abbrev Eval.AgreesBelow {α : Type} (first second : Eval α) : Prop :=
  AgreesEither State.KeepsWarnings State.KeepsWarnings State.MeetsLimit
    (fun cause => cause.isLimit = true) first second

/-- A language follows its lookups: up to any mark, what it compiles to does the same against
lookups that do the same. -/
def Language.FollowsLookups (language : Language) : Prop :=
  ∀ source program, language.compile source = .ok program →
    ∀ (related stopped marked : State → State → Prop) [Stopping related stopped]
      [Marking related stopped marked] (lookup lookup' : Text → Run (Option Value)),
      (∀ name, Agrees related stopped marked (lookup name) (lookup' name)) →
        AgreesEither related stopped marked (fun _ => False) (program lookup) (program lookup')

/-- The language of expressions follows its lookups. -/
theorem Language.expressions_followsLookups : Language.expressions.FollowsLookups := by
  intro source program compiled related stopped marked _ _ lookup lookup' looksUp
  obtain ⟨e, rfl⟩ := expressions_program compiled
  exact Expression.evaluate_agrees looksUp e

/-- The engine with another nesting limit. -/
def Engine.withLimit (engine : Engine) (limit : Nat) : Engine :=
  { engine with settings := engine.settings.withLimit limit }

/-- A handler is candid about the nesting limit: whatever else it does, it does the same under
another limit with expansions that do the same, and the failure of a text that would nest too deep
is not kept quiet. -/
def Handler.IsCandid (handler : Handler) : Prop :=
  ∀ (settings : Settings) (limit : Nat) (expand expand' : Text → Eval Text) (d : Directive),
    settings.language.FollowsLookups → (∀ text, Eval.AgreesBelow (expand text) (expand' text)) →
      Eval.AgreesBelow (handler.expand ⟨settings, expand⟩ d)
        (handler.expand ⟨settings.withLimit limit, expand'⟩ d)

/-- The language of conditions follows its lookups, and all handlers are candid about the nesting
limit. -/
structure Engine.IsCandid (engine : Engine) : Prop where
  language : engine.settings.language.FollowsLookups
  handlers : ∀ name handler, engine.handlers.find? name = some handler → handler.IsCandid

instance : ContainsSteps State.KeepsWarnings State.KeepsWarnings State.MeetsLimit where
  advance advances := advances.warnings
  decide _ _ := List.prefix_rfl
  restore kept := kept
  mark met := met
  quit kept := kept
  hide met := met

/-- A warning of a failure that is due to the nesting limit says so. -/
theorem telling_isLimit : Telling State.MeetsLimit fun cause => cause.isLimit = true := by
  intro warning cause reported limited state
  have tells : warning.tellsLimit = true := by
    rw [Warning.tellsLimit, reported]
    exact limited
  exact raises_append tells state.warnings

/-- Conditions are evaluated alike in rooms that expand alike, and none fails because a macro nests too
deep. -/
theorem Room.evaluate_agrees {settings : Settings} {limit : Nat} {expand expand' : Text → Eval Text}
    (language : settings.language.FollowsLookups)
    (inner : ∀ text, Eval.AgreesBelow (expand text) (expand' text)) (source : Text) :
    AgreesEither State.KeepsWarnings State.KeepsWarnings State.MeetsLimit (fun _ => False)
      (Room.evaluate ⟨settings, expand⟩ source)
      (Room.evaluate ⟨settings.withLimit limit, expand'⟩ source) := by
  unfold evaluate
  change AgreesEither _ _ _ _ (liftExcept (settings.language.compile source) >>= _)
    (liftExcept (settings.language.compile source) >>= _)
  cases compiled : settings.language.compile source with
  | error cause => exact .throw cause
  | ok program =>
    have reading (text : Text) : Respects State.KeepsWarnings State.KeepsWarnings
        (Run.report (settings.transpiler.transpile text)) :=
      (Run.report_respects (settings.transpiler.transpile_onlyAdds text)).mono
        (fun advances => advances.warnings) fun advances => advances.warnings
    exact language source program compiled _ _ _ _ _ <|
      lookup_agrees telling_isLimit inner fun {state _ text} _ => reading text state

/-- Every standard directive is candid about the nesting limit. -/
theorem Directives.standard_isCandid {name : Text} {handler : Handler}
    (found : standard.find? name = some handler) : handler.IsCandid := by
  intro settings limit expand expand' d language inner
  exact standard_agrees inner (Room.evaluate_agrees language inner) d found

namespace Engine

variable {engine : Engine}

/-- An engine with the standard directives is candid if its language follows its lookups. -/
theorem isCandid_of_standard (language : engine.settings.language.FollowsLookups)
    (standard : engine.handlers = Directives.standard) : engine.IsCandid := by
  refine ⟨language, fun name handler found => ?_⟩
  rw [standard] at found
  exact Directives.standard_isCandid found

/-- A candid engine stays candid with one more candid handler. -/
theorem IsCandid.withHandler (candid : engine.IsCandid) (name : Text) {handler : Handler}
    (added : handler.IsCandid) : (engine.withHandler name handler).IsCandid := by
  refine ⟨candid.language, fun name' handler' found => ?_⟩
  change (engine.handlers.insert (Text.lower name) handler).find? name' = some handler' at found
  rw [Dictionary.find?_insert] at found
  split at found
  · obtain rfl := Option.some.inj found
    exact added
  · exact candid.handlers name' handler' found

variable (candid : engine.IsCandid)

include candid

/-- A tag is expanded alike in rooms that expand texts alike. If its handler fails because a text
nests too deep, a warning says so. -/
theorem IsCandid.expandDirective_agrees {limit : Nat} {expand expand' : Text → Eval Text}
    (inner : ∀ text, Eval.AgreesBelow (expand text) (expand' text)) (tag : Directive) :
    Run.AgreesBelow (engine.expandDirective ⟨engine.settings, expand⟩ tag)
      ((engine.withLimit limit).expandDirective ⟨engine.settings.withLimit limit, expand'⟩ tag) := by
  refine Engine.expandDirective_agrees telling_isLimit rfl fun handler handled => ?_
  have known : handler.IsCandid := by
    rcases Option.or_eq_some_iff.1 handled with written | ⟨_, lower⟩
    · exact candid.handlers _ _ written
    · exact candid.handlers _ _ lower
  exact known engine.settings limit expand expand' tag candid.language inner

/-- With more levels left, and under another limit, a text is expanded to the same, unless the fewer
levels do not suffice. -/
theorem expandWithin_agrees (limit : Nat) {levels levels' : Nat} (more : levels ≤ levels')
    (text : Text) :
    Eval.AgreesBelow (engine.expandWithin levels text)
      ((engine.withLimit limit).expandWithin levels' text) := by
  induction levels generalizing levels' text with
  | zero =>
    change Eval.AgreesBelow (throwThe Error (.recursionLimit engine.settings.limit)) _
    refine AgreesEither.of_telling ?_ _
    rfl
  | succ levels inductionHypothesis =>
    cases levels' with
    | zero => exact absurd more (Nat.not_succ_le_zero levels)
    | succ levels' =>
      have fewer := inductionHypothesis (Nat.le_of_succ_le_succ more)
      exact .lift (expandTemplate_agrees (candid.expandDirective_agrees fewer) _)

/-- Unless a warning says that the nesting limit was met, a text is expanded in the same way under
every higher limit. -/
theorem run_eq_of_unmet {limit limit' : Nat} (higher : limit ≤ limit') (text : Text) (state : State)
    (unmet : ∀ warning ∈
      (((engine.withLimit (limit + 1)).expandWithin (limit + 1) text).run.run.run state).2.warnings,
        warning.tellsLimit = false) :
    ((engine.withLimit (limit' + 1)).expandWithin (limit' + 1) text).run.run.run state =
      ((engine.withLimit (limit + 1)).expandWithin (limit + 1) text).run.run.run state := by
  have lower : (engine.withLimit (limit + 1)).IsCandid := ⟨candid.language, candid.handlers⟩
  have same := (expandWithin_agrees lower (limit' + 1) (Nat.succ_le_succ higher) text state).same
  rcases same with ⟨warning, member, tells⟩ | ⟨cause, _, failed⟩ | equal
  · have told := unmet warning (List.mem_of_mem_drop member)
    rw [told] at tells
    exact absurd tells Bool.false_ne_true
  · obtain ⟨_, ok⟩ := exists_ok_of_expandWithin (Prod.ext failed rfl)
    exact absurd ok (by rintro ⟨⟩)
  · exact equal

/-- The nesting limit of evaluations is only a safety net. Under every limit of at least one a line is
expanded, unless the evaluation stops, and if no warning mentions the recursion limit, the line is
expanded under every higher limit to the same text, with the same negative prompt, variables and
warnings and the same random words left. An evaluation that stops without such a warning before it
stops under every higher limit. The engine may have any wildcards, policy and transpiler, any language
of conditions that follows its lookups and any handlers that do not keep the limit quiet, among them
all the standard ones. -/
theorem expand_withLimit {limit limit' : Nat} (positive : 1 ≤ limit) (higher : limit ≤ limit')
    (text : Text) (stream : Random.Stream) :
    (∃ expansion rest, (engine.withLimit limit).expand text stream = (some (.ok expansion), rest) ∧
        ((∀ warning ∈ expansion.warnings, ¬ "recursion limit".toList <:+: warning.message) →
          (engine.withLimit limit').expand text stream = (some (.ok expansion), rest))) ∨
      ∃ stopped : State,
        ((engine.withLimit limit).expandWithin limit text).run.run.run (State.start stream) =
            (none, stopped) ∧
          (engine.withLimit limit).expand text stream = (none, stopped.stream) ∧
          ((∀ warning ∈ stopped.warnings, ¬ "recursion limit".toList <:+: warning.message) →
            (engine.withLimit limit').expand text stream = (none, stopped.stream)) := by
  obtain ⟨levels, rfl⟩ : ∃ levels, limit = levels + 1 := ⟨limit - 1, by omega⟩
  obtain ⟨levels', rfl⟩ : ∃ levels', limit' = levels' + 1 := ⟨limit' - 1, by omega⟩
  have silent {warnings : Warnings}
      (unmentioned : ∀ warning ∈ warnings, ¬ "recursion limit".toList <:+: warning.message) :
      ∀ warning ∈ warnings, warning.tellsLimit = false := fun warning member =>
    Bool.eq_false_iff.2 fun tells =>
      unmentioned warning member (Warning.mentions_of_tellsLimit tells)
  have same := run_eq_of_unmet candid (Nat.le_of_succ_le_succ higher) text (State.start stream)
  generalize done : ((engine.withLimit (levels + 1)).expandWithin (levels + 1) text).run.run.run
    (State.start stream) = outcome at same
  have lower : (engine.withLimit (levels + 1)).expand text stream = _ := expand_of_expandWithin done
  obtain ⟨_ | outcome, after⟩ := outcome
  · refine .inr ⟨after, rfl, lower, fun unmentioned => ?_⟩
    exact expand_of_expandWithin (same (silent unmentioned))
  · obtain ⟨result, rfl⟩ := exists_ok_of_expandWithin done
    refine .inl ⟨finish result after, after.stream, lower, fun unmentioned => ?_⟩
    exact expand_of_expandWithin (same (silent unmentioned))

omit candid

/-- A handler of the host: the expansion of the body in capitals. -/
def shouting : Handler := ⟨fun room d => return (← room.expand d.bodyText).map Char.toUpper, none⟩

/-- The standard engine with such a handler. -/
def loud : Engine := standard.withHandler "shout" shouting

/-- It is candid. -/
theorem loud_isCandid : loud.IsCandid :=
  (isCandid_of_standard Language.expressions_followsLookups rfl).withHandler "shout"
    fun _ _ _ _ _ _ inner => .bind (inner _) fun _ => .pure _

/-- A macro that is read by a condition and again in the body of its case. -/
def readTwice : Text := "<setmacro[m,false]:<shout:a>><wcmatch:<wccase[m]:b<macro:m>>>"

/-- Five levels suffice for it; with four the second reading comes to nothing and with three the
first one as well, so that the case does not fire. -/
theorem expand_withLimit_readTwice :
    loud.IsCandid ∧ 1 ≤ 5 ∧ 5 ≤ 64 ∧
      let stream := Random.Stream.ofSeed #[] 0
      (loud.withLimit 64).expand readTwice stream = (loud.withLimit 5).expand readTwice stream ∧
      Expansion.text? ((loud.withLimit 5).expand readTwice stream).1 = some "bA".toList ∧
      Expansion.text? ((loud.withLimit 4).expand readTwice stream).1 = some "b".toList ∧
      Expansion.text? ((loud.withLimit 3).expand readTwice stream).1 = some [] := by
  have positive : 1 ≤ 5 := by decide
  have higher : 5 ≤ 64 := by decide
  have text : Expansion.text? ((loud.withLimit 5).expand readTwice (Random.Stream.ofSeed #[] 0)).1 =
      some "bA".toList := by decide +kernel
  have warnings : ((loud.withLimit 5).expand readTwice (Random.Stream.ofSeed #[] 0)).1.map
      (fun outcome => outcome.map Expansion.warnings) = some (.ok []) := by decide +kernel
  refine ⟨loud_isCandid, positive, higher, ?_, text, by decide +kernel, by decide +kernel⟩
  rcases expand_withLimit loud_isCandid positive higher readTwice (Random.Stream.ofSeed #[] 0) with
    ⟨expansion, rest, expanded, same⟩ | ⟨stopped, _, stops, _⟩
  · rw [expanded] at warnings
    have silent : expansion.warnings = [] := Except.ok.inj (Option.some.inj warnings)
    rw [expanded, same]
    rw [silent]
    exact fun warning member => absurd member List.not_mem_nil
  · rw [stops] at text
    exact absurd text (by rintro ⟨⟩)

/-- A handler that keeps every failure of its body quiet. -/
def hushing : Handler :=
  ⟨fun room d => ExceptT.mk do
    match ← (room.expand d.bodyText).run with
    | .ok text => return .ok text
    | .error _ => return .ok [], none⟩

/-- The standard engine with such a handler. -/
def hushed : Engine := standard.withHandler "quiet" hushing

/-- A macro whose text cannot be rewritten, overridden before a guard reads it. -/
def overridden : Text :=
  "<setmacro[m,false]:__x'18446744073709551615'__><wcpushmacro[m]:b><random:if m::a>"

/-- Where a handler keeps the limit quiet, the limit makes a difference that no warning tells of. And an
evaluation that stops has no warnings to tell, although the limit may be the reason that it stops. -/
theorem expand_withLimit_hushed :
    let stream := Random.Stream.ofSeed #[] 0
    (Expansion.text? ((hushed.withLimit 1).expand "a<quiet:b>c" stream).1 = some "ac".toList ∧
        ((hushed.withLimit 1).expand "a<quiet:b>c" stream).1.map
          (fun outcome => outcome.map Expansion.warnings) = some (.ok []) ∧
        Expansion.text? ((hushed.withLimit 2).expand "a<quiet:b>c" stream).1 =
          some "abc".toList) ∧
      ((standard.withLimit 1).expand overridden stream).1 = none ∧
      Expansion.text? ((standard.withLimit 2).expand overridden stream).1 = some "a".toList := by
  decide +kernel

end Engine

end DynamicPrompt
