import DynamicPrompt.Proofs.Engine.Rooms
import DynamicPrompt.Proofs.Expression.Lookup

/-!
# Evaluations only advance

Conditions read macros, reading a macro expands text, and expanding text runs directives, which
evaluate conditions. The levels break this circle: a directive expands text only in its room, where
one level less is left. So a relation between states that contains what the directives do by
themselves is respected by every evaluation, whatever its levels, if the rewriting of macros before
they are read respects it.

One such relation is that the state only moves forward. A match that is undecided may become decided,
but none is begun or left for good; warnings and negative prompt are only added to; and no name loses
its binding. This holds on every path that comes to an end, whether the work fails or not.
-/

namespace DynamicPrompt

/-- A language touches the state only by looking names up: whatever relation between states the
lookups respect, evaluation respects. -/
def Language.ActsThroughLookups (language : Language) : Prop :=
  ∀ source program, language.compile source = .ok program →
    ∀ (related stopped : State → State → Prop) [Stopping related stopped]
      (lookup : Text → Run (Option Value)),
      (∀ name, Respects related stopped (lookup name)) →
        RespectsEither related stopped (program lookup)

/-- The language of expressions touches the state only by looking names up. -/
theorem Language.expressions_actsThroughLookups : Language.expressions.ActsThroughLookups := by
  intro source program compiled related stopped _ lookup looksUp
  obtain ⟨e, rfl⟩ := expressions_program compiled
  exact Expression.evaluate_respects looksUp e

/-- What a handler does beyond the steps of the standard directives, it does by its room: whatever
relation the expansions and evaluations of the room respect, the handler respects. -/
def Handler.ActsThroughRooms (handler : Handler) : Prop :=
  ∀ (related stopped : State → State → Prop) [ContainsSteps related stopped fun _ _ => False]
    (room : Room) (d : Directive),
    (∀ text, RespectsEither related stopped (room.expand text)) →
      (∀ source, RespectsEither related stopped (room.evaluate source)) →
        RespectsEither related stopped (handler.expand room d)

/-- The language of conditions acts through lookups, and all handlers through their rooms. -/
structure Engine.ActsThroughRooms (engine : Engine) : Prop where
  language : engine.settings.language.ActsThroughLookups
  handlers : ∀ name handler, engine.handlers.find? name = some handler → handler.ActsThroughRooms

/-- Expansion in the room respects a relation, and so does the rewriting of the macros that are set;
the language of its conditions touches the state only by looking names up. -/
structure Room.Respecting (related stopped : State → State → Prop) (room : Room) : Prop where
  expand : ∀ text, RespectsEither related stopped (room.expand text)
  reading : ∀ {state : State} {name text}, state.scope.macros.find? name = some text →
    Leads related stopped state ((Run.report (room.settings.transpiler.transpile text)).run.run state)
  language : room.settings.language.ActsThroughLookups

section Respecting

variable {related stopped : State → State → Prop} [ContainsSteps related stopped fun _ _ => False]

namespace Room

/-- The room with its limit written out, with which it is compared. -/
abbrev again (room : Room) : Room := ⟨room.settings.withLimit room.settings.limit, room.expand⟩

variable {room : Room} (respecting : room.Respecting related stopped)

include respecting

omit [ContainsSteps related stopped fun _ _ => False] in
/-- Where expansion respects a relation, it agrees with itself. -/
theorem Respecting.agrees (text : Text) : AgreesEither related stopped (fun _ _ => False)
    (fun _ => False) (room.expand text) (room.again.expand text) :=
  .itself (respecting.expand text)

/-- Evaluation of a condition respects what its lookups respect. -/
theorem evaluate_respects (source : Text) :
    RespectsEither related stopped (room.evaluate source) := by
  have looksUp (name : Text) : Agrees related stopped (fun _ _ => False) (room.lookup name)
      (room.again.lookup name) :=
    lookup_agrees telling_never respecting.agrees respecting.reading name
  unfold evaluate
  cases compiled : room.settings.language.compile source with
  | error cause => exact .throw cause
  | ok program =>
    exact respecting.language source program compiled related stopped room.lookup
      fun name => (looksUp name).respects

/-- Where evaluation of conditions respects a relation, it agrees with itself. -/
theorem Respecting.evaluated (source : Text) : AgreesEither related stopped (fun _ _ => False)
    (fun _ => False) (room.evaluate source) (room.again.evaluate source) :=
  .itself (evaluate_respects respecting source)

/-- A condition that has no value adds a warning to that. -/
theorem isTrue_respects (source : Text) : Respects related stopped (room.isTrue source) := by
  have agrees : Agrees related stopped (fun _ _ => False) (room.isTrue source)
      (room.again.isTrue source) :=
    isTrue_agrees respecting.evaluated source
  exact agrees.respects

/-- The expansion of the body of a match begins where the match around it has been set aside, and
ends where that is put back. -/
theorem expandMatch_respects (body : Text) :
    RespectsEither related stopped (room.expandMatch body) := by
  have agrees : AgreesEither related stopped (fun _ _ => False) (fun _ => False)
      (room.expandMatch body) (room.again.expandMatch body) :=
    expandMatch_agrees respecting.agrees body
  exact agrees.respects

end Room

/-- The standard directives act through their rooms. -/
theorem Directives.standard_actsThroughRooms {name : Text} {handler : Handler}
    (found : standard.find? name = some handler) : handler.ActsThroughRooms := by
  intro related stopped _ room d expanded evaluated
  have agrees : AgreesEither related stopped (fun _ _ => False) (fun _ => False)
      (handler.expand room d) (handler.expand room.again d) :=
    standard_agrees (fun text => .itself (expanded text)) (fun source => .itself (evaluated source))
      d found
  exact agrees.respects

namespace Engine

variable {engine : Engine} (acts : engine.ActsThroughRooms)

/-- An engine with the standard directives acts through rooms if its language acts through
lookups. -/
theorem actsThroughRooms_of_standard (standard : engine.handlers = Directives.standard)
    (language : engine.settings.language.ActsThroughLookups) : engine.ActsThroughRooms := by
  refine ⟨language, fun name handler found => ?_⟩
  rw [standard] at found
  exact Directives.standard_actsThroughRooms found

include acts

/-- An engine that acts through rooms does so with one more handler that does. -/
theorem ActsThroughRooms.withHandler (name : Text) {handler : Handler}
    (added : handler.ActsThroughRooms) : (engine.withHandler name handler).ActsThroughRooms := by
  refine ⟨acts.language, fun name' handler' found => ?_⟩
  change (engine.handlers.insert (Text.lower name) handler).find? name' = some handler' at found
  rw [Dictionary.find?_insert] at found
  split at found
  · obtain rfl := Option.some.inj found
    exact added
  · exact acts.handlers name' handler' found

/-- A tag respects what its room respects. If its handler fails, a warning is added. -/
theorem expandDirective_respects {room : Room} (respecting : room.Respecting related stopped)
    (tag : Directive) : Respects related stopped (engine.expandDirective room tag) := by
  have agrees : Agrees related stopped (fun _ _ => False) (engine.expandDirective room tag)
      (engine.expandDirective room tag) := by
    refine expandDirective_agrees telling_never rfl fun handler handled => .itself ?_
    have known : handler.ActsThroughRooms := by
      rcases Option.or_eq_some_iff.1 handled with written | ⟨_, lower⟩
      · exact acts.handlers _ _ written
      · exact acts.handlers _ _ lower
    exact known related stopped room tag respecting.expand (Room.evaluate_respects respecting)
  exact agrees.respects

/-- With any number of levels left, expansion respects the relation. -/
theorem expandWithin_respecting (levels : Nat)
    (reading : ∀ {state : State} {name text}, state.scope.macros.find? name = some text →
      Leads related stopped state
        ((Run.report (engine.settings.transpiler.transpile text)).run.run state)) :
    Room.Respecting related stopped ⟨engine.settings, engine.expandWithin levels⟩ := by
  induction levels with
  | zero => exact ⟨fun _ => .throw _, reading, acts.language⟩
  | succ levels inductionHypothesis =>
    refine ⟨fun text => .lift ?_, reading, acts.language⟩
    have each (tag : Directive) : Agrees related stopped (fun _ _ => False)
        (engine.expandDirective ⟨engine.settings, engine.expandWithin levels⟩ tag)
        (engine.expandDirective ⟨engine.settings, engine.expandWithin levels⟩ tag) :=
      .itself (expandDirective_respects acts inductionHypothesis tag)
    exact (expandTemplate_agrees each (Template.ofText text)).respects

end Engine

end Respecting

/-- The advances contain themselves, wherever the work stops, and there is no mark to look for. -/
instance : ContainsSteps State.Advances (fun _ _ => True) fun _ _ => False where
  advance advances := advances
  decide inside advances := State.advances_decided (advances.inside inside)
  restore advances := ⟨.stays _, advances.warnings, advances.scope, advances.negative⟩
  mark never := never
  quit always := always
  hide never := never

/-- The state of a match is found again after the expansion of a body in it. -/
theorem Room.matching_expandMatch {room : Room} {body : Text} {state after : State}
    {result : Except Error Text}
    (done : (room.expandMatch body).run.run.run state = (some result, after)) :
    after.matching = state.matching := by
  rw [run_expandMatch] at done
  split at done
  · exact (Prod.mk.inj done).2 ▸ rfl
  · cases done

namespace Engine

variable {engine : Engine} (standard : engine.handlers = Directives.standard)

include standard

/-- With any number of levels left, expansion with the standard directives only advances the
state. -/
theorem expandWithin_advances (language : engine.settings.language.ActsThroughLookups)
    (levels : Nat) : Room.Respecting State.Advances (fun _ _ => True)
      ⟨engine.settings, engine.expandWithin levels⟩ := by
  have reading (text : Text) : Respects State.Advances (fun _ _ => True)
      (Run.report (engine.settings.transpiler.transpile text)) :=
    (Run.report_respects (engine.settings.transpiler.transpile_onlyAdds text)).mono id
      fun _ => trivial
  exact expandWithin_respecting (actsThroughRooms_of_standard standard language) levels
    fun {state _ text} _ => reading text state

/-- What holds of every evaluation with the standard directives that comes to an end, however deep
and in whatever state. After the expansion of a text and after the evaluation of a condition, a match
that was outside or decided is so still, and one that was undecided is undecided or decided; the
earlier warnings are the first of the later ones; all variables and macros that were bound are bound;
and the earlier negative prompt is part of the later one. The expansion of the body of a match, in
addition, leaves the state of the match around it exactly as it was. Conditions may be of any
language that touches the state only by looking names up. -/
theorem evaluation_advances (language : engine.settings.language.ActsThroughLookups)
    (levels : Nat) (state : State) :
    let room : Room := ⟨engine.settings, engine.expandWithin levels⟩
    (∀ text result after, (room.expand text).run.run.run state = (some result, after) →
        state.Advances after) ∧
      (∀ source result after, (room.evaluate source).run.run.run state = (some result, after) →
        state.Advances after) ∧
      (∀ source result after, (room.isTrue source).run.run state = (some result, after) →
        state.Advances after) ∧
      ∀ body result after, (room.expandMatch body).run.run.run state = (some result, after) →
        state.Advances after ∧ after.matching = state.matching := by
  have respecting := expandWithin_advances standard language levels
  exact ⟨fun text _ _ done => (respecting.expand text).ended done,
    fun source _ _ done => (Room.evaluate_respects respecting source).ended done,
    fun source _ _ done => (Room.isTrue_respects respecting source).ended done,
    fun body _ _ done => ⟨(Room.expandMatch_respects respecting body).ended done,
      Room.matching_expandMatch done⟩⟩

omit standard

/-- An undecided match, in which reading the macro `m` comes upon a case. -/
def interrupted : State :=
  { State.start (Random.Stream.ofSeed #[] 0) with
    scope := Scope.empty.setMacro "m" "<wccase:y>"
    matching := .undecided
    negative := "n"
    warnings := [.note "w"] }

/-- The case met while the condition of another is evaluated decides the match; nothing is lost. -/
theorem evaluation_advances_interrupted :
    Engine.standard.handlers = Directives.standard ∧
      Engine.standard.settings.language.ActsThroughLookups ∧
      let after := (Engine.standard.expandWithin 3
        "<wccase[m]:x><wcnegative[prepend]:b><fromto:c><wccase:z>").run.run.run interrupted
      interrupted.Advances after.2 ∧ after.1 = some (.ok "x".toList) ∧
        after.2.matching = .decided ∧ after.2.negative = "bn".toList ∧
        after.2.warnings.length = 2 := by
  have language := Language.expressions_actsThroughLookups
  generalize done : (Engine.standard.expandWithin 3
    "<wccase[m]:x><wcnegative[prepend]:b><fromto:c><wccase:z>").run.run.run interrupted = outcome
  have text : outcome.1 = some (.ok "x".toList) := by
    rw [← done]
    decide +kernel
  have advances : interrupted.Advances outcome.2 := by
    obtain ⟨_, after⟩ := outcome
    cases text
    exact (evaluation_advances rfl language 3 interrupted).1 _ _ after done
  refine ⟨rfl, language, advances, text, ?_⟩
  rw [← done]
  exact ⟨by decide +kernel, by decide +kernel, by decide +kernel⟩

end Engine

end DynamicPrompt
