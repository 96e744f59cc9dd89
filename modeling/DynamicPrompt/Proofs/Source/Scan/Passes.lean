import DynamicPrompt.Proofs.Source.Scan.Blocks
import DynamicPrompt.Proofs.Source.Scan.References

/-!
# Complete texts and all passes

The five passes, one after the other, take a complete text to one in which nothing but tags is left, and
the texts inside constructs go through all of them again, so the same follows for every number of levels
from the number before. What is left over is settled: another rewriting changes nothing.

An assignment of a complete text therefore stores a complete text in which no construct is left.
-/

namespace DynamicPrompt

namespace Source

namespace Complete

variable {stage : Nat} {within : List Text} {depth : Nat} {text : Text}

/-- A text whose constructs are nested no levels deep has none. -/
theorem unnested (complete : Complete stage within 0 text) : Complete 5 [] 0 text := by
  generalize none : 0 = depth at complete
  induction complete with
  | nil => exact .nil
  | char free unbarred _ inductionHypothesis => exact .char free unbarred (inductionHypothesis none)
  | tag harmless free inside _ inductionHypothesis =>
    exact .tag harmless free inside (inductionHypothesis none)
  | construct => exact absurd none.symm (Nat.succ_ne_zero _)

/-- Without constructs nothing in a complete text is rewritten. -/
theorem settled (last : 5 ≤ stage) (complete : Complete stage within depth text) : Settled text where
  bare := complete.bare last
  unopened inside := (complete.isSealed last).undollared (inside.subset List.mem_cons_self)
  uncommanded := (complete.isSealed last).quiet.absent
  unbroken := complete.unbroken (Nat.le_of_succ_le last)

/-- All passes together leave no construct in a complete text. -/
theorem rewritten {pass : Pass} {levels : Nat} (unmarked : pass.transpiler.HasUnmarkedNames)
    (completes : pass.Completes levels) (complete : Complete 0 [] (levels + 1) text) :
    Reports (Complete 5 [] 0) (Transpiler.passes pass text) := by
  refine (Reference.rewrite_complete unmarked completes complete).bind fun text complete => ?_
  refine (VariableUse.rewrite_complete completes complete).bind fun text complete => ?_
  refine (Block.rewrite_complete completes complete).bind fun text complete => ?_
  refine (Bracketed.rewrite_complete completes complete).bind fun text complete => ?_
  rw [complete.unbroken (Nat.le_refl 4)]
  exact (Variant.rewrite_complete completes complete).mono fun _ written =>
    written.anywhere (Nat.le_refl 5)

end Complete

/-- The name of a macro is read whole and has no marks of constructs. -/
theorem isVariableName_of_isVariable {name : Text} (proper : IsVariable name) : IsVariableName name where
  whole := proper.whole
  free c member marked := by
    have wordless : ∀ mark ∈ constructMarks, mark.isAlphanum = false := by decide
    exact proper.ne member (wordless c marked) rfl
  apart inside := underscore_not_mem proper (inside.subset List.mem_cons_self)

/-- Printed tags with the same name and argument and with the same print have the same body. -/
theorem body_of_print {name argument body other : Text}
    (same : Directive.print ⟨name, some argument, some body⟩ =
      Directive.print ⟨name, some argument, some other⟩) : body = other := by
  rw [Template.print_full, Template.print_full] at same
  simpa using same

/-- If an assignment is written as one tag, it is the tag of the text that is stored. -/
theorem eq_of_setDirectives {name value text : Text} {immediate : Bool}
    (same : setDirectives name value immediate = (setTag name text).print) : value = text := by
  cases immediate with
  | false =>
    rw [setDirectives_delayed] at same
    exact body_of_print same
  | true =>
    -- The tag of a variable has another name than the tag of a macro.
    have first : "setvar".toList = 's' :: 'e' :: 't' :: 'v' :: "ar".toList := rfl
    have second : "setmacro".toList = 's' :: 'e' :: 't' :: 'm' :: "acro".toList := rfl
    rw [setDirectives_immediate] at same
    unfold setTag setVarTag at same
    generalize (varTag name).print = reading at same
    generalize name ++ ",false".toList = argument at same
    rw [Template.print_full, Template.print_full, Template.print_full, first, second] at same
    simp only [List.cons_append, List.cons.injEq] at same
    exact absurd same.2.2.2.2.1 (by decide)

end Source

open Source

namespace Transpiler

/-- Without a folder and without known names there are none with marks. -/
theorem hasUnmarkedNames_standard : standard.HasUnmarkedNames where
  folder _ given := absurd given (Option.not_mem_none _)
  known := List.forall_mem_nil _

variable {transpiler : Transpiler} (unmarked : transpiler.HasUnmarkedNames)

include unmarked

/-- With so many levels left the texts inside constructs become complete, if they are nested no deeper,
and no construct is left in them. -/
theorem completes (levels : Nat) :
    Pass.Completes ⟨transpiler, transpiler.rewriteWithin levels⟩ levels := by
  induction levels with
  | zero =>
    exact {
      complete := fun complete => (Reports.warn _).bind fun _ _ => .pure complete.unnested
      plain := fun _ => (Reports.warn _).bind fun _ _ => .pure rfl }
  | succ levels inductionHypothesis =>
    refine ⟨fun complete => complete.rewritten unmarked inductionHypothesis, fun {text} plain => ?_⟩
    dsimp only
    rw [rewriteWithin, plain.passes]
    exact .pure rfl

/-- An assignment of a complete text stores one in which no construct is left.

The pass over references goes into the text before the assignment is read, and the passes after that
leave alone what is written for it. -/
theorem transpile_assignment_complete {name source : Text} {depth : Nat} (proper : IsVariableName name)
    (complete : Complete 0 [] depth source) (shallow : depth < transpiler.limit) :
    Reports (fun written => ∃ text immediate, Complete 5 [] 0 text ∧
      written = setDirectives name text immediate)
      (transpiler.transpile (variableLine (name ++ '=' :: source))) := by
  obtain ⟨levels, limit⟩ := Nat.exists_eq_add_of_le' (Nat.one_le_of_lt shallow)
  have nested : depth ≤ levels := by omega
  have completes := completes unmarked levels
  have unlabelled : clauseLabels (variableLine (name ++ '=' :: source)) =
      variableLine (name ++ '=' :: source) := by
    apply clauseLabels_of_first
    rintro c ⟨⟩
    decide
  let construct : Construct := .use name (.assign .set)
  have named : construct.Proper := proper
  have paired : [source].length = construct.closers.length := rfl
  have line (source : Text) :
      variableLine (name ++ (AssignMode.set.sign ++ source)) = construct.write [source] := by
    simp [variableLine, construct, Construct.write, Construct.opener, Construct.closers,
      Construct.closed, VariableUse.Operator.sign]
  have begins : variableLine (name ++ '=' :: source) = construct.write [source] := line source
  have whole : Complete 0 [] (depth + 1) (construct.write [source] ++ []) :=
    .single construct depth named (Nat.zero_le _) rfl rfl trivial complete .nil
  rw [List.append_nil] at whole
  rw [transpile, unlabelled, limit, rewriteWithin, passes, begins]
  refine (Reference.rewrite_construct unmarked completes named (Nat.le_refl 1) paired complete
    (Nat.le_succ_of_le nested) whole.undoubled.apart).bind fun _ known => ?_
  obtain ⟨source, rfl, complete⟩ := known
  obtain ⟨immediate, value, held, written⟩ := VariableUse.rewrite_assignment
    ⟨transpiler, transpiler.rewriteWithin levels⟩ proper .set complete
  rw [← line, written]
  have value : Complete 0 [] levels value := held.weaken (Nat.zero_le 1) (List.Subset.refl []) nested
  rw [VariableUse.write, bind_assoc]
  refine (completes.filled value).bind fun text stored => ?_
  rw [pure_bind, assignDirectives_set]
  have named : Sealed name := .of_free proper.free
  have emitted := emitted_setDirectives named (stored.isSealed (Nat.le_refl 5)) immediate
  have settled := emitted.complete.settled (Nat.le_refl 5)
  rw [Block.rewrite_of_absent _ settled.uncommanded, pure_bind, settled.bare.brackets, pure_bind,
    settled.unbroken, settled.bare.braces]
  exact .pure ⟨text, immediate, stored, rfl⟩

end Transpiler

end DynamicPrompt
