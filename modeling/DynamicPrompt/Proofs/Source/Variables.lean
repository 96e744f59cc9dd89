import DynamicPrompt.Engine.Basic
import DynamicPrompt.Proofs.Source.Naming

/-!
# Variables in source syntax

A line that is one variable construct becomes the directives of what it says: the tag that reads a
macro, a match that reads it unless it is empty, or the tag that sets it. The texts in it are
rewritten first, and what is written for the construct is settled, so the passes after it leave it
alone.

The same name is read by conditions, where the functions and the words of expressions have names
too.
-/

namespace DynamicPrompt

/-- A name under which conditions and tags find the same macro: letters and digits, a letter first,
and neither a word of expressions nor the name of a function. -/
structure IsVariable (name : Text) : Prop where
  starts : name.head?.any Char.isAlpha = true
  letters : ∀ c ∈ name, c.isAlphanum = true
  free : Expression.keyword? name = none
  unreserved : name ∉ Room.reserved

instance (name : Text) : Decidable (IsVariable name) :=
  decidable_of_iff (name.head?.any Char.isAlpha = true ∧ (∀ c ∈ name, c.isAlphanum = true) ∧
      Expression.keyword? name = none ∧ name ∉ Room.reserved)
    ⟨fun ⟨starts, letters, free, unreserved⟩ => ⟨starts, letters, free, unreserved⟩,
      fun proper => ⟨proper.starts, proper.letters, proper.free, proper.unreserved⟩⟩

/-- A name that is read whole: it has no blanks around it and no character that an operator begins
with. -/
structure Source.VariableUse.IsWhole (name : Text) : Prop where
  filled : name ≠ []
  trim : Text.trim name = name
  undivided : ∀ c ∈ name, c ∉ ":=+?".toList

namespace IsVariable

variable {name : Text} (proper : IsVariable name)

include proper

/-- There is a first letter. -/
theorem filled : name ≠ [] := by
  rintro rfl
  exact Bool.false_ne_true proper.starts

/-- It could name a wildcard, too. -/
theorem isName : Source.IsName name := .of_isAlphanum proper.filled proper.letters

/-- No other character stands in it. -/
theorem ne {c mark : Char} (member : c ∈ name) (other : mark.isAlphanum = false) : c ≠ mark := by
  rintro rfl
  rw [proper.letters c member] at other
  exact absurd other.symm Bool.false_ne_true

/-- It is plain in an argument. -/
theorem argument : name.all Template.isPlainArgument = true := by
  rw [List.all_eq_true]
  intro c member
  have apart : ∀ mark ∈ "<>\\[]".toList, c ≠ mark := by
    have marks : ∀ mark ∈ "<>\\[]".toList, mark.isAlphanum = false := by decide
    exact fun mark among => proper.ne member (marks mark among)
  simp [Template.isPlainArgument, Template.isPlain, apart]

/-- It is plain in a template. -/
theorem literal : name.all Template.isPlain = true := by
  rw [List.all_eq_true]
  intro c member
  have inside := List.all_eq_true.1 proper.argument c member
  simp only [Template.isPlainArgument, Bool.and_eq_true] at inside
  exact inside.1.1

/-- There are no blanks around it. -/
theorem trim : Text.trim name = name :=
  Text.trim_unspaced fun c member => isBlank_of_isAlphanum (proper.letters c member)

/-- It is read whole. -/
theorem whole : Source.VariableUse.IsWhole name where
  filled := proper.filled
  trim := proper.trim
  undivided := by
    have signs : ∀ c ∈ ":=+?".toList, c.isAlphanum = false := by decide
    exact fun c member among => proper.ne member (signs c among) rfl

end IsVariable

namespace Source

/-- The line that is one variable construct. -/
def variableLine (content : Text) : Text := '$' :: '\x7b' :: (content ++ ['\x7d'])

/-- The sign of an assignment. -/
def AssignMode.sign : AssignMode → Text
  | set => "="
  | add => "+="
  | ifUndefined => "?="

/-- An assignment as it stands between the braces. -/
def assignment (name : Text) (mode : AssignMode) (immediate : Bool) (value : Text) : Text :=
  name ++ (mode.sign ++ ((if immediate then ['!'] else []) ++ value))

namespace VariableUse

section Reading

variable {name : Text} (whole : IsWhole name)

include whole

/-- A name is cut off at the operator behind it. -/
theorem split_name (rest : Text) :
    split (name ++ rest) = (name ++ (split rest).1, (split rest).2) := by
  have undivided := whole.undivided
  clear whole
  induction name with
  | nil => rfl
  | cons c name inductionHypothesis =>
    have others := inductionHypothesis fun d member => undivided d (List.mem_cons_of_mem c member)
    have ordinary : ∀ mark ∈ ":=+?".toList, c ≠ mark := by
      rintro mark among rfl
      exact undivided c List.mem_cons_self among
    rw [List.cons_append, split, others, List.cons_append]
    · exact ordinary ':' (by decide)
    · exact ordinary '=' (by decide)
    · exact fun _ plus => absurd plus (ordinary '+' (by decide))
    · exact fun _ mark => absurd mark (ordinary '?' (by decide))

/-- A name alone reads. -/
theorem ofText?_read : ofText? name = some (.read name) := by
  have alone := split_name whole []
  rw [List.append_nil] at alone
  rw [ofText?, alone, split]
  dsimp only
  rw [List.append_nil, whole.trim, if_neg (by simpa using whole.filled)]

/-- A name with a text behind a colon falls back to it. -/
theorem ofText?_fallback (text : Text) :
    ofText? (name ++ ':' :: text) = some (.fallback name text) := by
  rw [ofText?, split_name whole, split]
  dsimp only
  rw [List.append_nil, whole.trim, if_neg (by simpa using whole.filled)]

/-- A name with a text behind the sign of an assignment is set to it. If the text is not meant to be
fixed at once it must not begin with the mark of that. -/
theorem ofText?_assign {mode : AssignMode} {immediate : Bool} {value : Text}
    (delayed : immediate = false → value.head? ≠ some '!') :
    ofText? (assignment name mode immediate value) = some (.assign name mode immediate value) := by
  have signed : split (mode.sign ++ ((if immediate then ['!'] else []) ++ value)) =
      ([], some (.assign mode, (if immediate then ['!'] else []) ++ value)) := by
    cases mode with
    | set => rfl
    | add => rfl
    | ifUndefined => rfl
  rw [ofText?, assignment, split_name whole, signed]
  dsimp only
  rw [List.append_nil, whole.trim, if_neg (by simpa using whole.filled)]
  cases immediate with
  | true => rfl
  | false =>
    cases value with
    | nil => rfl
    | cons c value =>
      have other : c ≠ '!' := fun same => delayed rfl (congrArg some same)
      simp [other]

end Reading

/-- A line that is one variable construct is written as what the construct says. -/
theorem rewrite_variableLine {content : Text} {use : VariableUse}
    (closes : enclosed? '\x7b' '\x7d' (content ++ ['\x7d']) = some (content, []))
    (meant : ofText? content = some use) (pass : Pass) :
    rewrite pass (variableLine content) = write pass use := by
  rw [rewrite, variableLine, pieces, if_neg Bool.false_ne_true]
  split
  · next missed => simp [closes] at missed
  · next inner after found =>
    obtain ⟨rfl, rfl⟩ := Prod.mk.inj (Option.some.inj (closes.symm.trans found))
    rw [meant]
    dsimp only
    rw [pieces, writePieces]
    simp [writePieces]

end VariableUse

/-- A line that is one variable construct becomes what is written for it and then goes through the
passes after block commands, if no command can begin in what is written. -/
theorem transpile_variable {transpiler : Transpiler} {levels : Nat} {content : Text}
    {use : VariableUse} (limit : transpiler.limit = levels + 1)
    (apart : ¬ ['_', '_'] <:+: variableLine content)
    (closes : enclosed? '\x7b' '\x7d' (content ++ ['\x7d']) = some (content, []))
    (meant : VariableUse.ofText? content = some use)
    (absent : Reports (Absent commandStart)
      (use.write ⟨transpiler, transpiler.rewriteWithin levels⟩)) :
    transpiler.transpile (variableLine content) =
      use.write ⟨transpiler, transpiler.rewriteWithin levels⟩ >>=
        afterBlocks ⟨transpiler, transpiler.rewriteWithin levels⟩ := by
  have unlabelled : clauseLabels (variableLine content) = variableLine content := by
    apply clauseLabels_of_first
    rintro c ⟨⟩
    decide
  rw [Transpiler.transpile, unlabelled, limit, Transpiler.rewriteWithin, Transpiler.passes,
    Reference.rewrite_of_apart _ apart, pure_bind, VariableUse.rewrite_variableLine closes meant]
  refine absent.bind_congr fun text absent => ?_
  rw [Block.rewrite_of_absent _ absent, pure_bind, afterBlocks]

/-- A line that is one variable construct becomes what is written for it, if that is settled. -/
theorem transpile_variableLine {transpiler : Transpiler} {levels : Nat} {content written : Text}
    {use : VariableUse} (limit : transpiler.limit = levels + 1) (apart : '_' ∉ content)
    (grouped : Grouped Brackets.tagsAndBraces (fun _ => True) content)
    (meant : VariableUse.ofText? content = some use)
    (writes : use.write ⟨transpiler, transpiler.rewriteWithin levels⟩ = pure written)
    (settled : Settled written) : transpiler.transpile (variableLine content) = pure written := by
  have unreferenced : ¬ ['_', '_'] <:+: variableLine content := by
    apply Reference.apart_of_absent
    rw [variableLine, List.mem_cons, List.mem_cons, List.mem_append, List.mem_singleton]
    rintro (same | same | inside | same)
    · exact absurd same (by decide)
    · exact absurd same (by decide)
    · exact apart inside
    · exact absurd same (by decide)
  have pair : Brackets.tagsAndBraces.Pair '\x7b' '\x7d' := by constructor <;> decide
  have absent : Reports (Absent commandStart)
      (use.write ⟨transpiler, transpiler.rewriteWithin levels⟩) := by
    rw [writes]
    exact .pure settled.uncommanded
  rw [transpile_variable limit unreferenced (enclosed?_grouped pair grouped []) meant absent, writes,
    pure_bind, afterBlocks, settled.bare.brackets, pure_bind, settled.unbroken,
    settled.bare.braces]

section Tags

/-- The tag that reads a macro. -/
def macroTag (name : Text) : Directive := ⟨"macro", none, some name⟩

/-- The tag that sets a macro without expanding it. -/
def setTag (name value : Text) : Directive := ⟨"setmacro", some (name ++ ",false"), some value⟩

/-- The tag that reads a variable. -/
def varTag (name : Text) : Directive := ⟨"var", none, some name⟩

/-- The tag that sets a variable to what the text comes to, and yields nothing. -/
def setVarTag (name text : Text) : Directive := ⟨"setvar", some (name ++ ",false"), some text⟩

/-- The condition that a macro or a variable is empty. -/
def isEmptyCondition (name : Text) : Text := "length(" ++ name ++ ") eq 0"

/-- It is a comparison of a length, whose argument stands between parentheses. -/
theorem isEmptyCondition_eq (name : Text) :
    isEmptyCondition name = "length".toList ++ '(' :: (name ++ ')' :: " eq 0".toList) := by
  have opening : "length(".toList = "length".toList ++ ['('] := rfl
  have closing : ") eq 0".toList = ')' :: " eq 0".toList := rfl
  unfold isEmptyCondition
  simp only [opening, closing, List.append_assoc, List.cons_append, List.nil_append]

/-- The case of a text to fall back to. -/
def fallbackCase (name text : Text) : Directive := ⟨"wccase", some (isEmptyCondition name), some text⟩

/-- The case of a macro that is read otherwise. -/
def readCase (name : Text) : Directive := ⟨"wccase", none, some (macroTag name).print⟩

/-- The match that reads a macro unless it is empty. -/
def fallbackTag (name text : Text) : Directive :=
  ⟨"wcmatch", none, some ((fallbackCase name text).print ++ (readCase name).print)⟩

/-- The directives of a reading are a tag. -/
theorem readDirectives_nil (name : Text) : readDirectives name [] = (macroTag name).print := by
  rw [macroTag, Template.print_bodied]
  rfl

/-- The directives of a reading that falls back are a match. -/
theorem readDirectives_filled (name : Text) {text : Text} (filled : text ≠ []) :
    readDirectives name text = (fallbackTag name text).print := by
  have opening : "<wcmatch:<wccase[length(".toList =
      '<' :: ("wcmatch".toList ++ ':' :: '<' :: ("wccase".toList ++ '[' :: "length(".toList)) := rfl
  have asking : ") eq 0]:".toList = ") eq 0".toList ++ [']', ':'] := rfl
  have between : "><wccase:<macro:".toList =
      '>' :: '<' :: ("wccase".toList ++ ':' :: '<' :: ("macro".toList ++ [':'])) := rfl
  have closing : ">>>".toList = ['>', '>', '>'] := rfl
  have nonempty : text.isEmpty = false := List.isEmpty_eq_false_iff.2 filled
  unfold readDirectives fallbackTag fallbackCase readCase macroTag isEmptyCondition
  simp only [nonempty, Bool.false_eq_true, if_false, Template.print_bodied, Template.print_full,
    opening, asking, between, closing, List.append_assoc, List.cons_append, List.nil_append]

/-- An assignment that replaces a variable has the directives of that. -/
theorem assignDirectives_set (name value : Text) (immediate : Bool) :
    assignDirectives name value .set immediate = setDirectives name value immediate := by
  cases immediate <;> rfl

/-- The directives that replace a variable are a tag. -/
theorem setDirectives_delayed (name value : Text) :
    setDirectives name value false = (setTag name value).print := by
  have opening : "<setmacro[".toList = '<' :: ("setmacro".toList ++ ['[']) := rfl
  have between : ",false]:".toList = ",false".toList ++ [']', ':'] := rfl
  have closing : ">".toList = ['>'] := rfl
  unfold setDirectives setTag
  simp only [Bool.false_eq_true, if_false, Template.print_full, opening, between, closing,
    List.append_assoc, List.cons_append, List.nil_append]

/-- The directives that replace a variable and fix its text at once are two tags. -/
theorem setDirectives_immediate (name value : Text) :
    setDirectives name value true =
      (setVarTag name value).print ++ (setTag name (varTag name).print).print := by
  have first : "<setvar[".toList = '<' :: ("setvar".toList ++ ['[']) := rfl
  have second : ",false]:".toList = ",false".toList ++ [']', ':'] := rfl
  have third : "><setmacro[".toList = '>' :: '<' :: ("setmacro".toList ++ ['[']) := rfl
  have fourth : ",false]:<var:".toList =
      ",false".toList ++ ']' :: ':' :: '<' :: ("var".toList ++ [':']) := rfl
  have closing : ">>".toList = ['>', '>'] := rfl
  unfold setDirectives setVarTag setTag varTag
  simp only [Template.print_full, Template.print_bodied, if_true, first, second, third, fourth,
    closing, List.append_assoc, List.cons_append, List.nil_append]

end Tags

section Forms

variable {transpiler : Transpiler} {levels : Nat} {name : Text} (proper : IsVariable name)

include proper

/-- A name may stand in a tag. -/
theorem held_variable : Held name := .of_unmarked proper.isName.unmarked

/-- No underscore stands in a name. -/
theorem underscore_not_mem : '_' ∉ name :=
  fun member => proper.ne member (by decide) rfl

/-- A name with a text behind it is grouped if the text is. -/
theorem grouped_variable {mark : Char} (unmentioned : ¬ Brackets.tagsAndBraces.Mentions mark)
    (unescaping : mark ≠ '\\') {text : Text}
    (grouped : Grouped Brackets.tagsAndBraces (fun _ => True) text) :
    Grouped Brackets.tagsAndBraces (fun _ => True) (name ++ mark :: text) :=
  (held_variable proper).braces.append (.char trivial unmentioned unescaping grouped)

/-- What the tag that reads a macro holds. -/
theorem held_reading :
    Held (Template.printArgument (macroTag name).argument ++
      Template.printBody (macroTag name).body) :=
  (Held.of_free (show ∀ c ∈ [':'], c ∉ tagMarks by decide)).append (held_variable proper)

/-- The tag that reads a macro may stand in another one. -/
theorem held_macroTag : Held (macroTag name).print :=
  .print (by decide) (by decide) (held_reading proper)

/-- A name in braces reads the macro of that name. -/
theorem transpile_read (limit : transpiler.limit = levels + 1) :
    transpiler.transpile (variableLine name) = pure (macroTag name).print := by
  have settled : Settled (macroTag name).print :=
    .print (by decide) (by decide) (held_reading proper)
  refine transpile_variableLine limit (underscore_not_mem proper) (held_variable proper).braces
    (VariableUse.ofText?_read proper.whole) ?_ settled
  rw [VariableUse.write, readDirectives_nil]

/-- A name with a plain text to fall back to becomes a match. -/
theorem transpile_fallback (limit : transpiler.limit = levels + 2) {text : Text}
    (plain : Plain text) (filled : text ≠ []) :
    transpiler.transpile (variableLine (name ++ ':' :: text)) =
      pure (fallbackTag name text).print := by
  have colon : Held [':'] := .of_free (by decide)
  have condition : Held ('[' :: (isEmptyCondition name ++ [']'])) := by
    have first : Held "[length(" := .of_free (by decide)
    have last : Held ") eq 0]" := .of_free (by decide)
    have asking : ") eq 0]".toList = ") eq 0".toList ++ [']'] := rfl
    have whole := first.append ((held_variable proper).append last)
    unfold isEmptyCondition
    simp only [asking, List.append_assoc] at whole ⊢
    exact whole
  have fallback : Held (fallbackCase name text).print :=
    .print (by decide) (by decide)
      (condition.append (colon.append (.of_unmarked plain.unmarked)))
  have reading : Held (readCase name).print :=
    .print (by decide) (by decide) (colon.append (held_macroTag proper))
  have settled : Settled (fallbackTag name text).print :=
    .print (by decide) (by decide) (colon.append (fallback.append reading))
  have apart : '_' ∉ name ++ ':' :: text := by
    rw [List.mem_append, List.mem_cons, not_or, not_or]
    exact ⟨underscore_not_mem proper, by decide, plain.absent (by decide)⟩
  have rewritten : transpiler.rewriteWithin (levels + 1) text = pure text := by
    rw [Transpiler.rewriteWithin, plain.passes]
  refine transpile_variableLine limit apart
    (grouped_variable proper (by decide) (by decide)
      (plain.grouped (.inr (.inl rfl)) fun _ _ => trivial))
    (VariableUse.ofText?_fallback proper.whole text) ?_ settled
  rw [VariableUse.write]
  dsimp only
  rw [rewritten, pure_bind, readDirectives_filled name filled]

end Forms

end Source

end DynamicPrompt
