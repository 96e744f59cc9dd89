import DynamicPrompt.Proofs.Engine.Advance

/-!
# Nesting of expansions

An engine hands every handler a room in which one level less is left, so the levels are counted
down and no handler can touch the count. Seen from an evaluation under way the same is counted
up: every expansion that is entered makes the evaluation one deeper and every expansion that is
left makes it one less deep, and at the limit no further expansion is entered. The two ways of
counting are shown to agree.

Reaching the limit is the only way in which an expansion fails. A directive that fails, for
whatever reason and however deep, has become a warning before its text is put together with the
texts around it.

An expansion that does not fail may still stop. Reading a macro in a condition rewrites its text,
and the rewriting stops where a position overflows. Where the handlers leave everything else to
their rooms, this is the only reason to stop.
-/

namespace DynamicPrompt

/-- An evaluation under way: how many expansions are around the present one, and the state. -/
structure Context where
  depth : Nat
  state : State

namespace Context

/-- The context inside one more expansion. -/
def enter (context : Context) : Context := { context with depth := context.depth + 1 }

/-- The context after an expansion. -/
def leave (context : Context) : Context := { context with depth := context.depth - 1 }

/-- Work that knows only the state, done in a context. -/
def perform {α : Type} (context : Context) (work : Run α) : Option α × Context :=
  let (result, state) := work.run.run context.state
  (result, { context with state })

end Context

namespace Engine

/-- The expansion of a text in a context. It is entered unless the limit is reached, and left when
all pieces of the text have been expanded. An expansion that stops is never left. -/
def expandText (engine : Engine) (text : Text) (context : Context) :
    Option (Except Error Text) × Context :=
  if _reached : engine.settings.limit ≤ context.depth then
    (some (.error (.recursionLimit engine.settings.limit)), context)
  else
    let expand (text : Text) : Eval Text := ExceptT.mk <| OptionT.mk fun state =>
      let (result, after) := engine.expandText text { context.enter with state }
      (result, after.state)
    match context.enter.perform
        (engine.expandTemplate ⟨engine.settings, expand⟩ (Template.ofText text)) with
    | (some text, after) => (some (.ok text), after.leave)
    | (none, after) => (none, after)
termination_by engine.settings.limit - context.depth
decreasing_by
  simp only [Context.enter]
  omega

/-- At the limit nothing is entered. -/
theorem expandText_reached (engine : Engine) (text : Text) {context : Context}
    (reached : engine.settings.limit ≤ context.depth) :
    engine.expandText text context =
      (some (.error (.recursionLimit engine.settings.limit)), context) := by
  rw [expandText, dif_pos reached]

/-- An expansion that comes to an end, in whatever way, is as deep as it was before. -/
theorem depth_expandText (engine : Engine) {text : Text} {context after : Context}
    {outcome : Except Error Text} (done : engine.expandText text context = (some outcome, after)) :
    after.depth = context.depth := by
  rw [expandText] at done
  split at done
  · exact (Prod.mk.inj done).2 ▸ rfl
  · dsimp only at done
    split at done
    · next result inside performed =>
      have entered : inside.depth = context.enter.depth := (Prod.mk.inj performed).2 ▸ rfl
      rw [← (Prod.mk.inj done).2, Context.leave, entered]
      rfl
    · cases done

/-- Counting the depth up to the limit and counting the levels down come to the same. -/
theorem expandText_eq (engine : Engine) (text : Text) (context : Context) :
    (engine.expandText text context).map id Context.state =
      (engine.expandWithin (engine.settings.limit - context.depth) text).run.run.run
        context.state := by
  induction left : engine.settings.limit - context.depth generalizing text context with
  | zero =>
    have reached : engine.settings.limit ≤ context.depth := by omega
    rw [expandText_reached engine text reached]
    rfl
  | succ levels inductionHypothesis =>
    have entered : ¬ engine.settings.limit ≤ context.depth := by omega
    have room : (fun (text : Text) => (ExceptT.mk <| OptionT.mk fun state =>
        let (result, after) := engine.expandText text { context.enter with state }
        (result, after.state) : Eval Text)) = engine.expandWithin levels := by
      funext text state
      have deeper : engine.settings.limit - (Context.enter context).depth = levels := by
        simp only [Context.enter]
        omega
      exact inductionHypothesis text { context.enter with state } deeper
    rw [expandText, dif_neg entered]
    dsimp only
    rw [room]
    refine Eq.trans ?_ (Checked.run_liftEither _ _).symm
    rw [Context.perform]
    have kept : context.enter.state = context.state := rfl
    rw [kept]
    generalize (engine.expandTemplate ⟨engine.settings, engine.expandWithin levels⟩
      (Template.ofText text)).run.run context.state = outcome
    obtain ⟨_ | _, after⟩ := outcome
    · rfl
    · rfl

/-- Below the limit nothing fails, since the pieces of a template never do. -/
theorem expandText_entered (engine : Engine) {text : Text} {context : Context}
    {outcome : Except Error Text} (free : context.depth < engine.settings.limit)
    (done : (engine.expandText text context).1 = some outcome) : ∃ result, outcome = .ok result := by
  rw [expandText, dif_neg (Nat.not_le.2 free)] at done
  dsimp only at done
  split at done
  · exact ⟨_, (Option.some.inj done).symm⟩
  · cases done

/-- A whole evaluation is an expansion in a context that has just begun. -/
theorem expand_eq (engine : Engine) (text : Text) (stream : Random.Stream) :
    engine.expand text stream =
      let (result, context) := engine.expandText text ⟨0, State.start stream⟩
      (result.map fun outcome => outcome.map fun text => finish text context.state,
        context.state.stream) := by
  have counted := engine.expandText_eq text ⟨0, State.start stream⟩
  exact (expand_of_expandWithin counted.symm).trans rfl

end Engine

/-- Some macro of the state has a text whose rewriting overflows. -/
def State.Overflows (transpiler : Transpiler) (state : State) : Prop :=
  ∃ name text warnings, state.scope.macros.find? name = some text ∧
    ((transpiler.transpile text).run.run warnings).1 = none

instance : IsPreorder State fun _ _ => True where
  refl _ := trivial
  trans _ _ _ _ _ := trivial

/-- Nothing is said of the states that work leads to, but it stops only in those that overflow. -/
instance {transpiler : Transpiler} :
    ContainsSteps (fun _ _ => True) (fun _ after => after.Overflows transpiler) fun _ _ => False where
  later _ overflows := overflows
  advance _ := trivial
  decide _ _ := trivial
  restore _ := trivial
  mark never := never
  quit overflows := overflows
  hide never := never

/-- If the text of a macro is rewritten before it is read and that stops, the state overflows. -/
theorem Run.report_overflows {transpiler : Transpiler} {state : State} {name text : Text}
    (bound : state.scope.macros.find? name = some text) :
    Leads (fun _ _ => True) (fun _ after => after.Overflows transpiler) state
      ((report (transpiler.transpile text)).run.run state) := by
  have whole : (report (transpiler.transpile text)).run.run state =
      (((transpiler.transpile text).run.run state.warnings).1,
        { state with warnings := ((transpiler.transpile text).run.run state.warnings).2 }) := rfl
  rw [whole]
  cases rewritten : ((transpiler.transpile text).run.run state.warnings).1 with
  | some directives => trivial
  | none => exact ⟨name, text, state.warnings, bound, rewritten⟩

namespace Engine

/-- An expansion that stops has come to a state in which the text of some macro cannot be rewritten,
if the engine acts through rooms. -/
theorem overflows_of_expandText {engine : Engine} (acts : engine.ActsThroughRooms) {text : Text}
    {context : Context} (stops : (engine.expandText text context).1 = none) :
    (engine.expandText text context).2.state.Overflows engine.settings.transpiler := by
  have respecting := expandWithin_respecting acts (engine.settings.limit - context.depth)
    (@Run.report_overflows engine.settings.transpiler)
  have led := respecting.expand text context.state
  rw [← expandText_eq] at led
  generalize engine.expandText text context = outcome at stops led ⊢
  obtain ⟨_, after⟩ := outcome
  cases stops
  exact led

/-- One bad directive never aborts an evaluation. In every engine, whatever its handlers do, and
in every context, the expansion of a text fails exactly if the depth has reached the limit; the
failure then names the limit and nothing has changed. In any other case there is a text, unless the
expansion stops, and an expansion that does not stop ends as deep as it began. So an evaluation from
the start does not fail if the limit leaves room for one level. If the handlers act through their
rooms, as the standard ones do, an expansion stops only in a state in which the text of some macro
cannot be rewritten since a position in it overflows. -/
theorem expandText_outcome (engine : Engine) (context : Context) (text : Text) :
    ((∃ cause, (engine.expandText text context).1 = some (.error cause)) ↔
        engine.settings.limit ≤ context.depth) ∧
      (engine.settings.limit ≤ context.depth →
        engine.expandText text context =
          (some (.error (.recursionLimit engine.settings.limit)), context)) ∧
      (context.depth < engine.settings.limit →
        (∃ result, (engine.expandText text context).1 = some (.ok result)) ∨
          (engine.expandText text context).1 = none) ∧
      (∀ outcome after, engine.expandText text context = (some outcome, after) →
        after.depth = context.depth) ∧
      (0 < engine.settings.limit → ∀ stream,
        (∃ expansion, (engine.expand text stream).1 = some (.ok expansion)) ∨
          (engine.expand text stream).1 = none) ∧
      (engine.ActsThroughRooms → (engine.expandText text context).1 = none →
        (engine.expandText text context).2.state.Overflows engine.settings.transpiler) := by
  have below {context : Context} (free : context.depth < engine.settings.limit) :
      (∃ result, (engine.expandText text context).1 = some (.ok result)) ∨
        (engine.expandText text context).1 = none := by
    cases done : (engine.expandText text context).1 with
    | none => exact .inr rfl
    | some outcome =>
      obtain ⟨result, rfl⟩ := expandText_entered engine free done
      exact .inl ⟨result, rfl⟩
  refine ⟨⟨?_, ?_⟩, expandText_reached engine text, below, fun _ _ => depth_expandText engine, ?_,
    fun acts stops => overflows_of_expandText acts stops⟩
  · rintro ⟨cause, failed⟩
    by_contra free
    rcases below (Nat.lt_of_not_le free) with ⟨result, yields⟩ | stops
    · exact absurd (failed.symm.trans yields) (by rintro ⟨⟩)
    · exact absurd (failed.symm.trans stops) (by rintro ⟨⟩)
  · intro reached
    exact ⟨_, congrArg Prod.fst (expandText_reached engine text reached)⟩
  · intro positive stream
    have free : (⟨0, State.start stream⟩ : Context).depth < engine.settings.limit := positive
    rw [expand_eq]
    dsimp only
    rcases below free with ⟨result, yields⟩ | stops
    · rw [yields]
      exact .inl ⟨_, rfl⟩
    · rw [stops]
      exact .inr rfl

/-- A handler that always fails. -/
def refusing : Handler := ⟨fun _ directive => throw (.usage (.other directive.bodyText)), none⟩

/-- The standard engine with such a handler and with room for two levels. -/
def failing : Engine :=
  let engine := Engine.standard.withHandler "fail" refusing
  { engine with settings := engine.settings.withLimit 2 }

/-- Failing is nothing that the room does not do. -/
theorem failing_actsThroughRooms : failing.ActsThroughRooms := by
  have standard : Engine.ActsThroughRooms ⟨Settings.standard.withLimit 2, Directives.standard⟩ :=
    actsThroughRooms_of_standard rfl Language.expressions_actsThroughLookups
  exact standard.withHandler "fail" fun _ _ _ _ _ _ _ => .throw _

/-- A directive that fails, one whose body has one that fails, and one that nests too deep. -/
def failures : Text := "a<fail:x>b<alternate:c<fail>||d><alternate:<alternate:e>>"

/-- A macro whose text cannot be rewritten, and a condition that reads it. -/
def overflowing : Text :=
  "<setmacro[m,false]:__x'18446744073709551615'__><wcmatch:<wccase[m]:a>>"

/-- Failures of every kind leave a text, beyond the limit nothing is entered, and where an evaluation
stops, a macro is to blame. -/
theorem expandText_outcome_failing :
    failing.ActsThroughRooms ∧ 0 < failing.settings.limit ∧
      Expansion.text? (failing.expand failures (Random.Stream.ofSeed #[] 0)).1 =
        some "ab[c|d][]".toList ∧
      failing.expandText failures ⟨2, State.start (Random.Stream.ofSeed #[] 0)⟩ =
        (some (.error (.recursionLimit 2)), ⟨2, State.start (Random.Stream.ofSeed #[] 0)⟩) ∧
      (failing.expandText overflowing
        ⟨0, State.start (Random.Stream.ofSeed #[] 0)⟩).2.state.Overflows Transpiler.standard := by
  have positive : 0 < failing.settings.limit := by decide
  have reached := (expandText_outcome failing ⟨2, State.start (Random.Stream.ofSeed #[] 0)⟩
    failures).2.1 (by decide)
  obtain ⟨_, _, _, _, _, stops⟩ := expandText_outcome failing
    ⟨0, State.start (Random.Stream.ofSeed #[] 0)⟩ overflowing
  have stopped : (failing.expandText overflowing
      ⟨0, State.start (Random.Stream.ofSeed #[] 0)⟩).1 = none :=
    (congrArg Prod.fst
      (expandText_eq failing overflowing ⟨0, State.start (Random.Stream.ofSeed #[] 0)⟩)).trans
      (by decide +kernel)
  exact ⟨failing_actsThroughRooms, positive, by decide +kernel, reached,
    stops failing_actsThroughRooms stopped⟩

/-- Far from the limit an evaluation may stop because of one condition. -/
theorem expandText_overflowing :
    0 < Engine.standard.settings.limit ∧
      (Engine.standard.expandText overflowing ⟨0, State.start (Random.Stream.ofSeed #[] 0)⟩).1 =
        none ∧
      (Engine.standard.expand overflowing (Random.Stream.ofSeed #[] 0)).1 = none := by
  have stops : (Engine.standard.expand overflowing (Random.Stream.ofSeed #[] 0)).1 = none := by
    decide +kernel
  refine ⟨by decide, ?_, stops⟩
  rw [expand_eq] at stops
  exact Option.map_eq_none_iff.1 stops

end Engine

end DynamicPrompt
