import DynamicPrompt.Proofs.Source.Scan.Enclosed
import DynamicPrompt.Proofs.Source.Spellings

/-!
# Complete texts and variables

The pass over variables looks at nothing but dollar signs before braces. In a complete text each of them
begins a whole construct, and what is written for that is a tag, or a few of them.
-/

namespace DynamicPrompt.Source

/-- A printed tag may stand for a construct. -/
theorem emitted_print {name : Text} {argument body : Option Text}
    (harmless : name.head?.map (sameLetter 'p') = some false)
    (free : ∀ c ∈ name, c ∉ constructMarks) (given : ∀ text ∈ argument, Sealed text)
    (inside : ∀ text ∈ body, Sealed text) : Emitted (Directive.print ⟨name, argument, body⟩) := by
  have arguments : Sealed (Template.printArgument argument) := by
    cases argument with
    | none => exact .nil
    | some text => exact (given text rfl).squared .nil
  have bodies : Sealed (Template.printBody body) := by
    have colon : Sealed [':'] := .of_free (by decide)
    cases body with
    | none => exact .nil
    | some text => exact colon.append (inside text rfl)
  rw [print_named]
  exact .tag harmless free (arguments.append bodies)

/-- A printed tag without an argument. -/
theorem emitted_bodied {name body : Text} (harmless : name.head?.map (sameLetter 'p') = some false)
    (free : ∀ c ∈ name, c ∉ constructMarks) (inside : Sealed body) :
    Emitted (Directive.print ⟨name, none, some body⟩) := by
  refine emitted_print harmless free (fun _ given => absurd given (Option.not_mem_none _)) ?_
  rintro _ ⟨⟩
  exact inside

/-- A printed tag with an argument. -/
theorem emitted_full {name argument body : Text}
    (harmless : name.head?.map (sameLetter 'p') = some false)
    (free : ∀ c ∈ name, c ∉ constructMarks) (given : Sealed argument) (inside : Sealed body) :
    Emitted (Directive.print ⟨name, some argument, some body⟩) := by
  refine emitted_print harmless free ?_ ?_
  · rintro _ ⟨⟩
    exact given
  · rintro _ ⟨⟩
    exact inside

section Directives

variable {name value : Text} (named : Sealed name) (valued : Sealed value)

include named

/-- Reading a macro. -/
theorem emitted_macroTag : Emitted (macroTag name).print :=
  emitted_bodied (by decide) (by decide) named

/-- A name with the flag behind it that nothing is to be written. -/
theorem sealed_flagged : Sealed (name ++ ",false".toList) :=
  named.append (.of_free (show ∀ c ∈ ",false".toList, c ∉ constructMarks by decide))

include valued

/-- Setting a macro. -/
theorem emitted_setTag : Emitted (setTag name value).print :=
  emitted_full (by decide) (by decide) (sealed_flagged named) valued

/-- The case of a text to fall back to. -/
theorem emitted_fallbackCase : Emitted (fallbackCase name value).print := by
  have first : Sealed "length(" := .of_free (by decide)
  have last : Sealed ") eq 0" := .of_free (by decide)
  exact emitted_full (by decide) (by decide) ((first.append named).append last) valued

/-- Replacing a variable. -/
theorem emitted_setDirectives (immediate : Bool) : Emitted (setDirectives name value immediate) := by
  cases immediate with
  | true =>
    rw [setDirectives_immediate]
    have fixed : Emitted (setVarTag name value).print :=
      emitted_full (by decide) (by decide) (sealed_flagged named) valued
    have reading : Emitted (varTag name).print := emitted_bodied (by decide) (by decide) named
    exact fixed.append (emitted_setTag named reading.isSealed)
  | false =>
    rw [setDirectives_delayed]
    exact emitted_setTag named valued

/-- The directives of an assignment. -/
theorem emitted_assignDirectives (mode : AssignMode) (immediate : Bool) :
    Emitted (assignDirectives name value mode immediate) := by
  have added {before : Text} (held : Sealed before) : Sealed (before ++ ", ".toList ++ value) :=
    (held.append (.of_free (show ∀ c ∈ ", ".toList, c ∉ constructMarks by decide))).append valued
  cases mode with
  | set =>
    rw [assignDirectives_set]
    exact emitted_setDirectives named valued immediate
  | add =>
    cases immediate with
    | true =>
      rw [assignDirectives_add_immediate]
      exact emitted_setDirectives named (added (emitted_macroTag named).isSealed) true
    | false =>
      rw [assignDirectives_add]
      exact emitted_full (by decide) (by decide) named (added .nil)
  | ifUndefined =>
    rw [assignDirectives_ifUndefined]
    have assigned := emitted_setDirectives named valued immediate
    exact emitted_bodied (by decide) (by decide)
      (emitted_fallbackCase named assigned.isSealed).isSealed

/-- The directives of a reading. -/
theorem emitted_readDirectives : Emitted (readDirectives name value) := by
  by_cases empty : value = []
  · rw [empty, readDirectives_nil]
    exact emitted_macroTag named
  · rw [readDirectives_filled name empty]
    have reading : Emitted (readCase name).print :=
      emitted_bodied (by decide) (by decide) (emitted_macroTag named).isSealed
    have cases := (emitted_fallbackCase named valued).append reading
    exact emitted_bodied (by decide) (by decide) cases.isSealed

end Directives

namespace VariableUse

/-- The scan of the pass. No character of a complete text escapes the next one, so there is nothing to
carry along. -/
def scan (pass : Pass) : Scan where
  State := Unit
  Ready _ := True
  run _ text := writePieces (write pass) (pieces false text)

/-- A text without dollar signs and backslashes is kept. -/
theorem turns_kept (pass : Pass) {text : Text} (undollared : '$' ∉ text) (unescaping : '\\' ∉ text) :
    (scan pass).Turns Anything text (· = text) := by
  have passed (rest : Text) :
      pieces false (text ++ rest) = text.map Piece.plain ++ pieces false rest := by
    induction text with
    | nil => rfl
    | cons c text inductionHypothesis =>
      rw [List.mem_cons, not_or] at undollared unescaping
      have unescaped : escapes false c = false := by simp [escapes, Ne.symm unescaping.1]
      rw [List.cons_append, pieces, unescaped, inductionHypothesis undollared.2 unescaping.2]
      · rfl
      · exact fun _ same => absurd same.symm undollared.1
  refine .kept fun _ _ => ⟨(), trivial, fun rest _ => ?_⟩
  exact (congrArg (writePieces (write pass)) (passed rest)).trans (writePieces_passed _ text _)

/-- A construct turns into what is written for it. -/
theorem turns_use {pass : Pass} {content : Text} {use : VariableUse} {holds : Text → Prop}
    (closes : ∀ after, enclosed? '\x7b' '\x7d' (content ++ '\x7d' :: after) = some (content, after))
    (meant : ofText? content = some use) (reports : Reports holds (write pass use)) :
    (scan pass).Turns Anything (variableLine content) holds := by
  refine ⟨write pass use, fun _ _ => ⟨(), trivial, fun rest _ => ?_⟩, reports⟩
  have whole : variableLine content ++ rest = '$' :: '\x7b' :: (content ++ '\x7d' :: rest) := by
    simp [variableLine]
  have found : pieces false ('$' :: '\x7b' :: (content ++ '\x7d' :: rest)) =
      .found use :: pieces false rest := by
    rw [pieces, if_neg Bool.false_ne_true]
    split
    · next missed => simp [closes rest] at missed
    · next inner after found =>
      obtain ⟨rfl, rfl⟩ := Prod.mk.inj (Option.some.inj ((closes rest).symm.trans found))
      rw [meant]
  rw [whole]
  exact congrArg (writePieces (write pass)) found

/-- What an assignment of a complete text says. A text that begins with the mark of it is fixed at
once. -/
theorem exists_assign {name : Text} (proper : IsVariableName name) (mode : AssignMode)
    {stage depth : Nat} {within : List Text} {part : Text} (complete : Complete stage within depth part) :
    ∃ immediate value, ofText? (name ++ (mode.sign ++ part)) =
      some (.assign name mode immediate value) ∧ Complete stage within depth value := by
  by_cases marked : part.head? = some '!'
  · obtain ⟨value, rfl⟩ := List.head?_eq_some_iff.1 marked
    have fixed : name ++ (mode.sign ++ '!' :: value) = assignment name mode true value := rfl
    refine ⟨true, value, ?_, complete.behind (by decide) (by decide)⟩
    rw [fixed]
    exact ofText?_assign proper.whole fun impossible => absurd impossible.symm Bool.false_ne_true
  · have plain : name ++ (mode.sign ++ part) = assignment name mode false part := rfl
    refine ⟨false, part, ?_, complete⟩
    rw [plain]
    exact ofText?_assign proper.whole fun _ => marked

/-- An assignment of a complete text alone is written as what it says. -/
theorem rewrite_assignment (pass : Pass) {name : Text} (proper : IsVariableName name)
    (mode : AssignMode) {stage depth : Nat} {within : List Text} {part : Text}
    (complete : Complete stage within depth part) :
    ∃ immediate value, Complete stage within depth value ∧
      rewrite pass (variableLine (name ++ (mode.sign ++ part))) =
        write pass (.assign name mode immediate value) := by
  obtain ⟨immediate, value, meant, held⟩ := exists_assign proper mode complete
  have sign : ∀ c ∈ mode.sign, c ∉ constructMarks := by cases mode <;> decide
  have grouped := (grouped_of_free proper.free).append ((grouped_of_free sign).append complete.grouped)
  exact ⟨immediate, value, held,
    rewrite_variableLine (enclosed?_grouped pairs_ofConstructs.2.2 grouped []) meant pass⟩

section Complete

variable {pass : Pass} {levels : Nat} (completes : pass.Completes levels)

include completes

/-- What a construct with a text in it becomes may stand in its place. -/
theorem turns_operator {name part : Text} (proper : IsVariableName name) (operator : Operator)
    (complete : Complete 0 [] levels part) :
    (scan pass).Turns Anything (variableLine ((name ++ operator.sign) ++ part)) Emitted := by
  have named : Sealed name := .of_free proper.free
  have sign : ∀ c ∈ operator.sign, c ∉ constructMarks := by
    rcases operator with _ | _ | _ | _ <;> decide
  have grouped := ((grouped_of_free proper.free).append (grouped_of_free sign)).append
    complete.grouped
  have closes := enclosed?_grouped pairs_ofConstructs.2.2 grouped
  cases operator with
  | fallback =>
    have meant : ofText? ((name ++ ":".toList) ++ part) = some (.fallback name part) := by
      rw [List.append_assoc]
      exact ofText?_fallback proper.whole part
    refine turns_use closes meant ((completes.complete complete).bind fun text written => .pure ?_)
    exact emitted_readDirectives named (written.isSealed (Nat.le_refl 5))
  | assign mode =>
    obtain ⟨immediate, value, meant, held⟩ := exists_assign proper mode complete
    rw [← List.append_assoc] at meant
    refine turns_use closes meant ((completes.filled held).bind fun text written => .pure ?_)
    exact emitted_assignDirectives named (written.isSealed (Nat.le_refl 5)) mode immediate

/-- The scan does to every part of a complete text what it has to. -/
theorem handles : (scan pass).Handles 1 2 levels where
  char {c} free := by
    have other : ∀ d ∈ constructMarks, d ∉ [c] := by
      intro d marked member
      exact free (List.mem_singleton.1 member ▸ marked)
    exact (turns_kept pass (other '$' (by decide)) (other '\\' (by decide))).before_mono
      fun _ _ => trivial
  tag harmless free inside := by
    have emitted := Emitted.tag harmless free inside
    exact turns_kept pass emitted.isSealed.undollared emitted.isSealed.grouped.unescaped
  opener proper later := by
    rcases Construct.delimiters proper later with ⟨command, _⟩ | ⟨first, last, opens, _, among, _⟩
    · exact turns_kept pass (command.absent (by decide) (by decide))
        (command.absent (by decide) (by decide))
    · have others : ∀ c ∈ "[\x7b".toList, '$' ∉ [c] ∧ '\\' ∉ [c] := by decide
      rw [opens]
      exact turns_kept pass (others first among).1 (others first among).2
  closers proper later := by
    rcases Construct.delimiters proper later with ⟨_, commands⟩ | ⟨first, last, _, closes, _, among⟩
    · exact fun closer member => turns_kept pass ((commands closer member).absent (by decide) (by decide))
        ((commands closer member).absent (by decide) (by decide))
    · have others : ∀ c ∈ "]\x7d".toList, '$' ∉ [c] ∧ '\\' ∉ [c] := by decide
      rw [closes]
      exact List.forall_mem_singleton.2
        (turns_kept pass (others last among).1 (others last among).2)
  own {kind parts within depth} proper reached later _ paired _ each shallow := by
    cases kind with
    | read name =>
      obtain rfl := List.eq_nil_of_length_eq_zero paired
      have line : (Construct.read name).write [] = variableLine name := List.append_nil _
      have closes := enclosed?_grouped pairs_ofConstructs.2.2 (grouped_of_free proper.free)
      rw [line]
      exact turns_use closes (ofText?_read proper.whole)
        (.pure (emitted_readDirectives (.of_free proper.free) .nil))
    | use name operator =>
      obtain ⟨part, rfl, written⟩ := Construct.exists_part paired
      have complete := (each part List.mem_cons_self).weaken (Nat.zero_le 1)
        (List.nil_subset _) shallow
      have line : (Construct.use name operator).write [part] =
          variableLine ((name ++ operator.sign) ++ part) := by
        rw [Construct.write, Construct.opener, Construct.closers, written]
        simp [variableLine]
      rw [line]
      exact turns_operator completes proper operator complete
    | reference filter => exact absurd later (by simp [Construct.pass])
    | _ => exact absurd reached (by simp [Construct.pass])

/-- The pass makes complete texts of complete texts. -/
theorem rewrite_complete {text : Text} (complete : Complete 1 [] (levels + 1) text) :
    Reports (Complete 2 [] (levels + 1)) (rewrite pass text) := by
  have turns := complete.turns (handles completes) (by decide) (Nat.le_refl _)
  have ready : (scan pass).Ready () := trivial
  have ended : pieces false [] = [] := by rw [pieces]
  exact (turns.reports ready (fun _ => congrArg (writePieces (write pass)) ended) .nil).mono
    fun _ known => known.1

end Complete

end VariableUse

end DynamicPrompt.Source
