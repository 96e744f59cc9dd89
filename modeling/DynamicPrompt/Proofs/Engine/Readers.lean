import DynamicPrompt.Proofs.Engine.Levels
import DynamicPrompt.Proofs.Engine.Variables
import DynamicPrompt.Proofs.Source.Scan.Passes

/-!
# The two readers of a macro

A macro that has been assigned is read by a tag, which expands the stored text, and by the conditions
that mention it, which have the stored text rewritten once more and then expand it with one more level
left. The two come to the same if the second rewriting changes nothing and no text nests so deep that
the level matters.

The second rewriting is on purpose: macros may be set by hand in source syntax, and conditions
understand them. What an assignment stores has been rewritten once already, though, and is not always
left alone by the next rewriting: a quoted label is one only at the beginning of a line.
-/

namespace DynamicPrompt

open Source

/-- Without warnings no limit has been met. -/
theorem State.not_meetsLimit_of_silent {before after : State} (silent : after.warnings = []) :
    ¬ before.MeetsLimit after := by
  rintro ⟨warning, member, _⟩
  rw [silent, List.drop_nil] at member
  exact List.not_mem_nil member

/-- An assignment of the source text becomes one tag, which stores the given text. -/
def Transpiler.Assigns (transpiler : Transpiler) (name source text : Text) : Prop :=
  ((transpiler.transpile (variableLine (name ++ '=' :: source))).run.run []).1.map Template.ofText =
    some [.directive (setTag name text)]

instance (transpiler : Transpiler) (name source text : Text) :
    Decidable (transpiler.Assigns name source text) :=
  inferInstanceAs (Decidable (_ = _))

/-- Nothing is assigned without a level left. -/
theorem Transpiler.Assigns.positive {transpiler : Transpiler} {name source text : Text}
    (assigned : transpiler.Assigns name source text) : 0 < transpiler.limit := by
  refine Nat.pos_of_ne_zero fun exhausted => ?_
  obtain ⟨directives, written, read⟩ := Option.map_eq_some_iff.1 assigned
  have unlabelled : clauseLabels (variableLine (name ++ '=' :: source)) =
      variableLine (name ++ '=' :: source) := by
    apply clauseLabels_of_first
    rintro c ⟨⟩
    decide
  rw [Transpiler.transpile, unlabelled, exhausted, Transpiler.rewriteWithin] at written
  obtain rfl : variableLine (name ++ '=' :: source) = directives := Option.some.inj written
  -- The line begins with a dollar sign, a tag with an angle bracket.
  have whole := Template.print_ofText (variableLine (name ++ '=' :: source))
  rw [read] at whole
  exact absurd (List.cons.inj whole).1 (by decide)

/-- An assignment of a complete text stores one in which no construct is left. -/
theorem Transpiler.Assigns.complete {transpiler : Transpiler} {name source text : Text} {depth : Nat}
    (assigned : transpiler.Assigns name source text) (unmarked : transpiler.HasUnmarkedNames)
    (proper : IsVariable name) (complete : Complete 0 [] depth source)
    (shallow : depth < transpiler.limit) : Complete 5 [] 0 text := by
  obtain ⟨directives, written, read⟩ := Option.map_eq_some_iff.1 assigned
  obtain ⟨stored, immediate, known, same⟩ :=
    (transpiler.transpile_assignment_complete unmarked (isVariableName_of_isVariable proper) complete
      shallow).holds_run written
  have printed := Template.print_ofText directives
  rw [read, same] at printed
  rwa [← eq_of_setDirectives (printed.symm.trans (List.append_nil _))]

namespace Engine

/-- Reading the macro by its tag does not fail, and evaluating the condition that is its name alone
comes to the text that it comes to and leaves the same state, or stops with it, unless the reading
raises a warning that it has met the nesting limit. -/
def ReadersAgree (engine : Engine) (name : Text) (state : State) : Prop :=
  let read := (engine.room.expand (macroTag name).print).run.run.run state
  (∀ cause, read.1 ≠ some (.error cause)) ∧
    (state.MeetsLimit read.2 ∨ (engine.room.evaluate name).run.run.run state =
      (read.1.map (Except.map Value.text), read.2))

section Readers

variable {engine : Engine} (handles : engine.HandlesVariables) {name text : Text} {state : State}
  (proper : IsVariable name)

include handles proper

/-- The tag that stores a text in a macro does so and comes to nothing. -/
theorem run_setTag {written : Text} (read : Template.ofText written = [.directive (setTag name text)])
    (levels : Nat) :
    (engine.expandWithin (levels + 1) written).run.run.run state =
      (some (.ok []), { state with scope := state.scope.setMacro name text }) := by
  refine (run_expandWithin_directive levels read handles.set).trans ?_
  rw [Directives.run_setMacro proper.spelled]

/-- The readers of a macro agree if its text is rewritten to itself. -/
theorem readersAgree_of_kept (candid : engine.IsCandid) (roomy : 2 ≤ engine.settings.limit)
    (found : state.scope.macros.find? name = some text)
    (kept : engine.settings.transpiler.transpile text = pure text) :
    engine.ReadersAgree name state := by
  obtain ⟨levels, limit⟩ := Nat.exists_eq_add_of_le' roomy
  have agrees := (expandWithin_agrees candid engine.settings.limit
    (Nat.le_succ (levels + 1)) text state).same
  have same : (engine.withLimit engine.settings.limit).expandWithin (levels + 2) text =
      engine.expandWithin (levels + 2) text := rfl
  have looked := @Room.run_lookup_kept engine.room _ _ _ proper.unreserved found kept
  rw [ReadersAgree, Room.evaluate_name handles.language proper.spelled]
  rw [Engine.room, limit] at looked ⊢
  rw [run_macroTag_found handles.read proper.spelled found]
  generalize done : (engine.expandWithin (levels + 1) text).run.run.run state = outcome at agrees
  refine ⟨fun cause failed => ?_, ?_⟩
  · obtain ⟨_, after⟩ := outcome
    cases failed
    obtain ⟨_, ok⟩ := exists_ok_of_expandWithin done
    cases ok
  rcases agrees with met | ⟨cause, _, failed⟩ | equal
  · exact .inl met
  · obtain ⟨_, after⟩ := outcome
    cases failed
    obtain ⟨_, ok⟩ := exists_ok_of_expandWithin done
    cases ok
  · rw [same] at equal
    rw [equal] at looked
    refine .inr ?_
    obtain ⟨_ | _ | value, after⟩ := outcome
    · exact Expression.run_name_stops looked
    · obtain ⟨_, ok⟩ := exists_ok_of_expandWithin done
      cases ok
    · exact Expression.run_name looked

/-- After the assignment of the source text has been expanded in a fresh state, the two readers of the
macro agree. -/
def AssignmentAgrees (engine : Engine) (name source : Text) (stream : Random.Stream) : Prop :=
  ∃ directives warnings stored,
    (engine.settings.transpiler.transpile (variableLine (name ++ '=' :: source))).run.run [] =
        (some directives, warnings) ∧
      (engine.room.expand directives).run.run.run (State.start stream) = (some (.ok []), stored) ∧
      engine.ReadersAgree name stored

/-- The two readers of a macro agree on every source text whose assignment becomes one tag that stores
a text in which nothing is left to rewrite and no label stands at the beginning: after that tag has been
expanded in a fresh state, the condition that is the name of the macro and the tag that reads it come to
the same text and leave the same state behind, as far as the nesting limit is not met.

If the source text is complete, nothing is left to rewrite in what is stored: references, variables,
blocks, square brackets and variants may stand in it and in each other to any depth below the limit of
the transpiler. The engine may have any wildcards, policy and transpiler and any other handlers that do
not keep the nesting limit quiet, but folder and known names may not bring in marks of constructs. -/
theorem assignmentAgrees (candid : engine.IsCandid) (roomy : 2 ≤ engine.settings.limit)
    (stream : Random.Stream) :
    (∀ source text, engine.settings.transpiler.Assigns name source text → Settled text →
      clauseLabels text = text → engine.AssignmentAgrees name source stream) ∧
    (engine.settings.transpiler.HasUnmarkedNames → ∀ source text depth,
      Complete 0 [] depth source → depth < engine.settings.transpiler.limit →
        engine.settings.transpiler.Assigns name source text → clauseLabels text = text →
          engine.AssignmentAgrees name source stream) := by
  have general : ∀ source text, engine.settings.transpiler.Assigns name source text →
      Settled text → clauseLabels text = text → engine.AssignmentAgrees name source stream := by
    intro source text assigned settled unlabelled
    have kept := settled.transpile unlabelled assigned.positive
    obtain ⟨levels, limit⟩ := Nat.exists_eq_add_of_le' roomy
    let stored : State :=
      { State.start stream with scope := (State.start stream).scope.setMacro name text }
    have found : stored.scope.macros.find? name = some text :=
      (Dictionary.find?_insert _ name text name).trans (if_pos rfl)
    obtain ⟨directives, written, read⟩ := Option.map_eq_some_iff.1 assigned
    refine ⟨directives, _, stored, Prod.ext written rfl, ?_,
      readersAgree_of_kept handles proper candid roomy found kept⟩
    rw [Engine.room, limit]
    exact run_setTag handles proper read (levels + 1)
  refine ⟨general, fun unmarked source text depth complete shallow assigned unlabelled => ?_⟩
  have stored := assigned.complete unmarked proper complete shallow
  exact general source text assigned (stored.settled (Nat.le_refl 5)) unlabelled

end Readers

/-- The state of the standard engine after the assignment of the source text to `x`. -/
def assignedState (source : Text) : State :=
  let line := variableLine ("x".toList ++ '=' :: source)
  let directives := ((standard.settings.transpiler.transpile line).run.run []).1
  ((standard.room.expand (directives.getD [])).run.run.run
    (State.start (Random.Stream.ofSeed #[] 0))).2

/-- The state of the assignment is the one that the readers start from. -/
theorem AssignmentAgrees.readersAgree {source : Text}
    (agrees : standard.AssignmentAgrees "x" source (Random.Stream.ofSeed #[] 0)) :
    standard.ReadersAgree "x" (assignedState source) := by
  obtain ⟨directives, warnings, stored, written, expanded, readers⟩ := agrees
  have same : assignedState source = stored := by
    unfold assignedState
    dsimp only
    rw [written, Option.getD_some, expanded]
  rwa [same]

/-- A reference with a variant in its name, a reading that falls back to an edit, an addition to another
variable, and a conditional block with a variant and an alternation in it. -/
def nestedSource : Text :=
  "__a\x7bb|c\x7d'd'__ $\x7by:[p:q:3]\x7d $\x7bz+=e\x7d <ppp:if w>\x7bf|[g|h]\x7d<ppp:else>[i]<ppp:/if>"

/-- What its assignment stores. -/
def nestedText : Text :=
  "<wcpushmacro[wcfilter_a<random:b|c>]:d><wcwildcard:a<random:b|c>:d>" ++
    "<wcpopmacro:wcfilter_a<random:b|c>> " ++
    "<wcmatch:<wccase[length(y) eq 0]:<fromto[3]:p||q>><wccase:<macro:y>>> <wcaddmacro[z]:, e> " ++
    "<wcmatch:<wccase[w]:<random:f|<alternate:g||h>>><wccase:(i:0.9)>>"

/-- The text is complete, with constructs nested three levels deep. -/
theorem complete_nestedSource : Complete 0 [] 3 nestedSource := by
  have named {name : Text} {operator : VariableUse.Operator} (proper : IsVariable name) :
      (Construct.use name operator).Proper := isVariableName_of_isVariable proper
  have run (depth : Nat) (front : Text) (free : ∀ c ∈ front, c ∉ constructMarks ∧ c ∉ "_B".toList)
      {rest : Text} (others : Complete 0 [] depth rest) : Complete 0 [] depth (front ++ rest) :=
    .run free others
  have alternation := Complete.single .squares 0 trivial (Nat.zero_le _) rfl rfl trivial
    (run 0 "g|h" (by decide) .nil) .nil
  have variant := Complete.single .braces 1 trivial (Nat.zero_le _) rfl rfl trivial
    (run 1 "f|" (by decide) alternation) .nil
  have lowered := Complete.single .squares 1 trivial (Nat.zero_le _) rfl rfl trivial
    (run 1 "i" (by decide) .nil) .nil
  have given : AreArguments " w" := by
    refine ⟨?_, by decide⟩
    rintro _ ⟨⟩
    rfl
  have compiles : (Condition.compile " w").1.isSome = true := by decide +kernel
  have proper : (Construct.choose " w" [none]).Proper := ⟨given, by simp, compiles, rfl⟩
  have choice := Complete.construct proper (Nat.zero_le _)
    (fun _ none => absurd none (Option.not_mem_none _)) (show [_, _].length = 2 from rfl)
    (fun _ _ => trivial) (List.forall_mem_cons.2 ⟨variant, List.forall_mem_singleton.2 lowered⟩) .nil
  have adding := Complete.single (.use "z" (.assign .add)) 2 (named (by decide)) (Nat.zero_le _) rfl
    rfl trivial (run 2 "e" (by decide) .nil) (run 3 " " (by decide) choice)
  have edit := Complete.single .squares 1 trivial (Nat.zero_le _) rfl rfl trivial
    (run 1 "p:q:3" (by decide) .nil) .nil
  have reading := Complete.single (.use "y" .fallback) 2 (named (by decide)) (Nat.zero_le _) rfl rfl
    trivial edit (run 3 " " (by decide) adding)
  have option := Complete.single .braces 1 trivial (Nat.zero_le _) rfl rfl trivial
    (run 1 "b|c" (by decide) .nil) .nil
  have filtered : (Construct.reference (some ('\x27', "d"))).Proper := by
    rintro _ ⟨⟩
    exact ⟨.inr rfl, by decide⟩
  have whole := Complete.single (.reference (some ('\x27', "d"))) 2 filtered (Nat.zero_le _) rfl rfl
    ⟨by decide, by decide, by unfold Undoubled; decide⟩ (run 2 "a" (by decide) option)
    (run 3 " " (by decide) reading)
  exact Eq.mp (congrArg (Complete 0 [] 3) (by decide +kernel)) whole

/-- References, variables, blocks and choices in each other are read alike by both readers. -/
theorem assignmentAgrees_nestedSource :
    standard.HandlesVariables ∧ IsVariable "x" ∧ standard.IsCandid ∧ 2 ≤ standard.settings.limit ∧
      standard.settings.transpiler.HasUnmarkedNames ∧ Complete 0 [] 3 nestedSource ∧
      3 < standard.settings.transpiler.limit ∧
      standard.settings.transpiler.Assigns "x" nestedSource nestedText ∧
      clauseLabels nestedText = nestedText ∧
      standard.ReadersAgree "x" (assignedState nestedSource) := by
  have handles : standard.HandlesVariables := .of_standard rfl rfl (by decide)
  have proper : IsVariable "x" := by decide
  have candid : standard.IsCandid :=
    isCandid_of_standard Language.expressions_followsLookups rfl
  have roomy : 2 ≤ standard.settings.limit := by decide
  have unmarked : standard.settings.transpiler.HasUnmarkedNames := Transpiler.hasUnmarkedNames_standard
  have shallow : 3 < standard.settings.transpiler.limit := by decide
  have assigned : standard.settings.transpiler.Assigns "x" nestedSource nestedText := by
    decide +kernel
  have unlabelled : clauseLabels nestedText = nestedText := by decide +kernel
  refine ⟨handles, proper, candid, roomy, unmarked, complete_nestedSource, shallow, assigned,
    unlabelled, ?_⟩
  exact ((assignmentAgrees handles proper candid roomy (Random.Stream.ofSeed #[] 0)).2 unmarked
    nestedSource nestedText 3 complete_nestedSource shallow assigned unlabelled).readersAgree

/-- Where the two readers come to different texts, they do not agree. -/
theorem not_assignmentAgrees {source expanded evaluated : Text}
    (read : ((standard.room.expand "<macro:x>").run.run.run (assignedState source)).1 =
      some (.ok expanded))
    (silent : ((standard.room.expand "<macro:x>").run.run.run (assignedState source)).2.warnings = [])
    (asked : ((standard.room.evaluate "x").run.run.run (assignedState source)).1 =
      some (.ok (.text evaluated)))
    (other : expanded ≠ evaluated) :
    ¬ standard.AssignmentAgrees "x" source (Random.Stream.ofSeed #[] 0) := by
  intro agrees
  have written : (macroTag "x").print = "<macro:x>".toList := by decide
  have readers := agrees.readersAgree
  rw [ReadersAgree, written] at readers
  rcases readers.2 with met | alike
  · exact State.not_meetsLimit_of_silent silent met
  · have same := (congrArg Prod.fst alike).symm.trans asked
    rw [read] at same
    exact other (Value.text.inj (Except.ok.inj (Option.some.inj same)))

/-- A quoted label at the beginning of a line. -/
def labelledText : Text := "'a'::b"

/-- Single underscores around a block of which nothing is left, and two of them at the end. -/
def strayText : Text := "_<ppp:stn i1>_y__"

/-- A quoted label in the middle of a line is no label, but it is one at the beginning of the stored
text, where a condition has it rewritten. Underscores that belong to no reference may be left beside
each other in the stored text and belong to one there. -/
theorem assignmentAgrees_unsettledTexts :
    (standard.settings.transpiler.Assigns "x" labelledText labelledText ∧
      ((standard.room.expand "<macro:x>").run.run.run (assignedState labelledText)).1 =
        some (.ok labelledText) ∧
      ((standard.room.evaluate "x").run.run.run (assignedState labelledText)).1 =
        some (.ok (.text "(a)::b")) ∧
      ¬ standard.AssignmentAgrees "x" labelledText (Random.Stream.ofSeed #[] 0)) ∧
    standard.settings.transpiler.Assigns "x" strayText "__y__" ∧
      ((standard.room.expand "<macro:x>").run.run.run (assignedState strayText)).1 =
        some (.ok "__y__".toList) ∧
      ((standard.room.evaluate "x").run.run.run (assignedState strayText)).1 =
        some (.ok (.text [])) ∧
      ¬ standard.AssignmentAgrees "x" strayText (Random.Stream.ofSeed #[] 0) := by
  have labelled : ((standard.room.expand "<macro:x>").run.run.run (assignedState labelledText)).1 =
      some (.ok labelledText) := by decide +kernel
  have label : ((standard.room.evaluate "x").run.run.run (assignedState labelledText)).1 =
      some (.ok (.text "(a)::b")) := by decide +kernel
  have stray : ((standard.room.expand "<macro:x>").run.run.run (assignedState strayText)).1 =
      some (.ok "__y__".toList) := by decide +kernel
  have draw : ((standard.room.evaluate "x").run.run.run (assignedState strayText)).1 =
      some (.ok (.text [])) := by decide +kernel
  refine ⟨⟨by decide +kernel, labelled, label, ?_⟩, by decide +kernel, stray, draw, ?_⟩
  · exact not_assignmentAgrees labelled (by decide +kernel) label (by decide)
  · exact not_assignmentAgrees stray (by decide +kernel) draw (by decide)

end Engine

end DynamicPrompt
