import DynamicPrompt.Proofs.Source.Naming
import DynamicPrompt.Proofs.Source.Quantified

/-!
# Counted references

How many options of a wildcard are drawn can be written at the start of the reference, directly
before it, or at the start of braces around it. Each way has a reader of its own: the reference reads
its head, the pass over references looks back from the underscores, and the pass over braces finds
a tag where the option was and puts the argument of its own head into that tag.

A fixed count and one with both bounds come to the same tag in all three. A count without an upper
bound stays open in a reference. Braces close it one below the number of their options, and since
the reference is their only option, at the lower bound.
-/

namespace DynamicPrompt.Source

variable (count : Count) (name : Text)

/-- The reference with the count at its start. -/
def countedInside : Text :=
  '_' :: '_' :: ((count.written ++ '$' :: '$' :: name) ++ ['_', '_'])

/-- The reference with the count directly before it. -/
def countedBefore : Text :=
  (count.written ++ ['$', '$']) ++ '_' :: '_' :: (name ++ ['_', '_'])

/-- The reference in braces with the count at their start. -/
def countedVariant : Text :=
  '\x7b' :: ((count.written ++ ['$', '$']) ++ '_' :: '_' :: (name ++ ['_', '_', '\x7d']))

/-- The argument of a counted draw, with its brackets. -/
def countedArgument (bound : Option Nat) : Text := '[' :: (Head.countText count bound ++ [',', ']'])

/-- The tag of a counted draw. -/
def countedTag (bound : Option Nat) (reference : Text) : Text :=
  Reference.drawDirective (countedArgument count bound) reference []

variable {count name}

/-- A name has no head. -/
theorem split?_name (named : IsName name) : Head.split? name = none :=
  Head.split?_of_absent fun member => named.unmarked '$' member (by decide)

/-- A name has no separator before it. -/
theorem separator?_name (named : IsName name) : Head.separator? name = none := by
  apply Head.separator?_grouped
  apply named.grouped (.inr (.inl rfl))
  rintro c member rfl
  exact named.unmarked '$' member (by decide)

namespace Reference

/-- A run of digits from the end of a text back to what is no digit. -/
theorem backward_run {digits tail : Text} (run : Numeral.isDigits digits = true)
    (ends : ∀ c ∈ tail.head?, isDecimalDigit c = false) :
    (digits.reverse ++ tail).takeWhile isDecimalDigit = digits.reverse ∧
      (digits.reverse ++ tail).dropWhile isDecimalDigit = tail := by
  have passing : digits.reverse.all isDecimalDigit = true := by
    rw [List.all_reverse, List.all_eq_true]
    exact fun c member => isDecimalDigit_of_isDigit c (Numeral.isDigit_of_mem run c member)
  exact ⟨Text.takeWhile_run passing ends, Text.dropWhile_run passing ends⟩

/-- A run of digits read backward is not empty. -/
theorem backward_filled {digits : Text} (run : Numeral.isDigits digits = true) :
    digits.reverse.isEmpty = false := by
  rw [List.isEmpty_reverse, List.isEmpty_eq_false_iff]
  exact Numeral.ne_nil_of_isDigits run

/-- A fixed count or one with both bounds directly before a reference belongs to the reference,
unless it begins braces. -/
theorem leadingCount?_closed {front : Text} (stated : count.IsStated)
    (bounded : ∀ high, count ≠ .upTo high) (closed : ∀ low, count ≠ .atLeast low)
    (apart : ∀ c ∈ front.reverse.head?, isDecimalDigit c = false ∧ c ≠ '-') :
    leadingCount? (front ++ (count.written ++ ['$', '$'])) =
      if (front.reverse.dropWhile Head.isFlag).head? == some '\x7b' then none
      else some (front, count.written) := by
  have ends : ∀ c ∈ front.reverse.head?, isDecimalDigit c = false := fun c first => (apart c first).1
  cases count with
  | exactly digits =>
    obtain ⟨taken, left⟩ := backward_run stated.digits ends
    have reversed : (front ++ (digits ++ ['$', '$'])).reverse =
        '$' :: '$' :: (digits.reverse ++ front.reverse) := by simp
    simp only [Count.written, leadingCount?, reversed, taken, left, backward_filled stated.digits]
    split
    · next others begins => exact absurd rfl (apart '-' (by rw [begins]; rfl)).2
    · simp
  | between low high =>
    obtain ⟨takenLow, leftLow⟩ := backward_run stated.1.digits ends
    have hyphen : ∀ c ∈ ('-' :: (low.reverse ++ front.reverse)).head?, isDecimalDigit c = false := by
      intro c first
      obtain rfl : '-' = c := Option.some.inj first
      decide
    obtain ⟨takenHigh, leftHigh⟩ := backward_run stated.2.digits hyphen
    simp [Count.written, leadingCount?, takenHigh, leftHigh, takenLow, leftLow,
      backward_filled stated.1.digits, backward_filled stated.2.digits]
  | upTo high => exact absurd rfl (bounded high)
  | atLeast low => exact absurd rfl (closed low)

/-- A count without an upper bound ends with a hyphen and is never taken from before a reference. -/
theorem leadingCount?_open {front low : Text} (word : Numeral.IsWord low)
    (apart : ∀ c ∈ front.reverse.head?, isDecimalDigit c = false) :
    leadingCount? (front ++ (low ++ ['-'] ++ ['$', '$'])) = none := by
  obtain ⟨taken, left⟩ := backward_run word.digits apart
  have hyphen : isDecimalDigit '-' = false := by decide
  simp [leadingCount?, hyphen, taken, left, backward_filled word.digits]

/-- A count at the start of braces belongs to the braces. -/
theorem leadingCount?_braced (stated : count.IsStated) (bounded : ∀ high, count ≠ .upTo high) :
    leadingCount? ('\x7b' :: (count.written ++ ['$', '$'])) = none := by
  have brace : ∀ c ∈ ['\x7b'].reverse.head?, isDecimalDigit c = false ∧ c ≠ '-' := by
    intro c first
    obtain rfl : '\x7b' = c := Option.some.inj first
    decide
  by_cases closed : ∀ low, count ≠ .atLeast low
  · exact @leadingCount?_closed count ['\x7b'] stated bounded closed brace
  · push Not at closed
    obtain ⟨low, rfl⟩ := closed
    exact @leadingCount?_open ['\x7b'] low stated fun c first => (brace c first).1

/-- A head with a count alone is written with an empty separator. -/
theorem argument_counted (count : Count) (most : Option Nat) :
    Head.argument (some ⟨some count, none⟩) most =
      pure (countedArgument count most) := by
  rw [countedArgument, Head.argument]
  simp

/-- A name with a count before it is written as the tag of a counted draw. -/
theorem write_counted (named : IsName name) (stated : count.IsStated) {pass : Pass}
    {raised : Reporting PUnit} {written : Text}
    (nested : pass.nested name = (raised >>= fun _ => pure written))
    (handed : written = name ∨ written = emptyMark) :
    write pass (count.written ++ '$' :: '$' :: name) = (raised >>= fun _ =>
      pure (countedTag count none (pass.transpiler.inFolder written))) := by
  rw [write, Head.split?_counted stated (separator?_name named)]
  dsimp only
  rw [argument_counted, pure_bind, splitFilter_name named]
  dsimp only
  rw [nested, bind_assoc]
  refine bind_congr fun _ => ?_
  rw [pure_bind, pure_bind, isGlob_name named handed, Bool.false_and, if_neg Bool.false_ne_true]
  rfl

/-- A name alone is written as the tag of a draw without an argument. -/
theorem write_name (named : IsName name) {pass : Pass} {raised : Reporting PUnit} {written : Text}
    (nested : pass.nested name = (raised >>= fun _ => pure written))
    (handed : written = name ∨ written = emptyMark) :
    write pass name = (raised >>= fun _ =>
      pure (drawDirective [] (pass.transpiler.inFolder written) [])) := by
  rw [write, split?_name named]
  dsimp only
  rw [Head.argument, pure_bind, splitFilter_name named]
  dsimp only
  rw [nested, bind_assoc]
  refine bind_congr fun _ => ?_
  rw [pure_bind, pure_bind, isGlob_name named handed, Bool.false_and, if_neg Bool.false_ne_true]
  rfl

end Reference

section Tags

/-- The content of the tag of a counted draw. -/
theorem held_counted (stated : count.IsStated) {reference : Text} (held : Held reference)
    (bound : Option Nat) : Held (countedArgument count bound ++ ':' :: reference) := by
  have opener : Held ['['] := .of_free (by decide)
  have closer : Held [',', ']', ':'] := .of_free (by decide)
  have written : Held (Head.countText count bound) := by
    have other : ∀ c ∈ tagMarks, isCountCharacter c = false := by decide
    apply Held.of_free
    intro c member marks
    have counting := Head.countText_characters stated c member
    exact ne_of_isCountCharacter counting (other c marks) rfl
  have whole := ((opener.append written).append closer).append held
  rw [countedArgument]
  simpa using whole

/-- The tag of a counted draw is settled. -/
theorem settled_countedTag (stated : count.IsStated) {reference : Text} (held : Held reference)
    (bound : Option Nat) : Settled (countedTag count bound reference) := by
  have letters : ∀ c ∈ "wcwildcard".toList, c ∉ tagMarks := by decide
  have nothing : Plain [] := by decide
  have tagged := Settled.tag nothing (by decide) letters (held_counted stated held bound)
    (.plain nothing)
  rw [countedTag, Reference.drawDirective_eq, List.append_nil]
  exact tagged

/-- Characters that stand neither in a count nor among the dollar signs behind it. -/
def headMarks : Text := "<>[]\x7b\x7d|_\\BREAK"

/-- Characters of a count and dollar signs are neither underscores nor brackets nor blanks. -/
theorem ordinary_head (stated : count.IsStated) :
    ∀ c ∈ count.written ++ ['$', '$'], c ∉ headMarks ∧ isBlank c = false := by
  have other : ∀ c ∈ headMarks, isCountCharacter c = false ∧ c ≠ '$' := by
    decide
  intro c member
  rcases List.mem_append.1 member with counting | dollar
  · have digit := Count.written_characters stated c counting
    refine ⟨?_, isBlank_of_isCountCharacter digit⟩
    exact fun marks => ne_of_isCountCharacter digit (other c marks).1 rfl
  · obtain rfl : c = '$' := by simpa using dollar
    exact ⟨by decide, by decide⟩

/-- A count with its dollar signs is grouped. -/
theorem grouped_head (stated : count.IsStated) {bare : Char → Prop}
    (outside : ∀ c ∈ count.written ++ ['$', '$'], bare c) :
    Grouped Brackets.tagsAndBraces bare (count.written ++ ['$', '$']) := by
  have marks : ∀ d ∈ Brackets.tagsAndBraces.openers ++ Brackets.tagsAndBraces.closers,
      d ∈ headMarks := by decide
  apply Grouped.of_unmentioned
  intro c member
  have free := (ordinary_head stated c member).1
  refine ⟨outside c member, fun mentioned => free (marks c (List.mem_append.2 mentioned)), ?_⟩
  rintro rfl
  exact free (by decide)

end Tags

section Parts

/-- Characters of a count and dollar signs are passed by the pass over references. -/
theorem ordinary_before (stated : count.IsStated) :
    ∀ c ∈ count.written ++ ['$', '$'], c ≠ '_' ∧ ¬ Brackets.tags.Mentions c ∧ c ≠ '\\' := by
  have marks : ∀ d ∈ Brackets.tags.openers ++ Brackets.tags.closers,
      d ∈ headMarks := by decide
  intro c member
  have free := (ordinary_head stated c member).1
  refine ⟨?_, fun mentioned => free (marks c (List.mem_append.2 mentioned)), ?_⟩
  · rintro rfl
    exact free (by decide)
  · rintro rfl
    exact free (by decide)

/-- A name between underscores is a reference, whatever stands before it. -/
theorem proper_name (named : IsName name) {before : Text}
    (passed : ∀ c ∈ before, c ≠ '_' ∧ ¬ Brackets.tags.Mentions c ∧ c ≠ '\\') :
    Mention.Proper ⟨before, name⟩ where
  before := passed
  solid := named.unspaced.solid
  grouped := by
    apply named.grouped (.inr (.inl rfl))
    rintro c member rfl
    exact named.unmarked '_' member (by decide)

/-- The tag of a draw without an argument takes the argument of the braces around it, if it is their
only option. -/
theorem collapse?_tag {reference argument : Text} (held : Held reference) (filled : argument ≠ []) :
    Variant.collapse? (Reference.drawDirective [] reference []) argument =
      some (Reference.drawDirective argument reference []) := by
  have inside : Grouped Brackets.tags (fun _ => True) ("wcwildcard:".toList ++ reference) :=
    (Held.of_free (show ∀ c ∈ "wcwildcard:".toList, c ∉ tagMarks by decide)).tags.append held.tags
  have starts : Text.after? Variant.wildcardStart
      (Variant.wildcardStart ++ (reference ++ ['>'])) = some (reference ++ ['>']) :=
    Text.after?_eq_some_iff.2 rfl
  have closes : enclosed? '<' '>' (("wcwildcard:".toList ++ reference) ++ '>' :: []) =
      some ("wcwildcard:".toList ++ reference, []) :=
    enclosed?_grouped (Brackets.Known.angle (.inl rfl)) inside []
  have tag : Reference.drawDirective [] reference [] =
      Variant.wildcardStart ++ (reference ++ ['>']) := by
    rw [Reference.drawDirective_eq]
    simp only [List.nil_append, List.append_nil, List.append_assoc]
    rfl
  have tail : (Variant.wildcardStart ++ (reference ++ ['>'])).tail =
      ("wcwildcard:".toList ++ reference) ++ '>' :: [] := by
    rw [List.append_assoc]
    rfl
  have written : Reference.drawDirective argument reference [] =
      "<wcwildcard" ++ argument ++ ":" ++ (reference ++ ['>']) := by
    unfold Reference.drawDirective
    simp only [List.append_nil, List.append_assoc]
    rfl
  rw [Variant.collapse?, if_neg (by simpa using filled), tag, starts, tail, closes, written]

end Parts

section Braces

variable (count) in
/-- The braces around a counted reference once the reference is a tag. -/
def bracedTag (reference : Text) : Text :=
  (count.written ++ ['$', '$']) ++ '<' :: (("wcwildcard".toList ++ ':' :: reference) ++ ['>'])

variable (stated : count.IsStated) {reference : Text} (held : Held reference)

include held in
/-- The content of the tag in the braces. -/
theorem held_uncounted : Held ("wcwildcard".toList ++ ':' :: reference) := by
  have name : Held "wcwildcard".toList := .of_free (by decide)
  have colon : Held [':'] := .of_free (by decide)
  exact name.append (colon.append held)

include stated held

/-- The content of the braces is grouped, and no bar stands outside the tag. -/
theorem grouped_bracedTag : Grouped Brackets.tagsAndBraces (· ≠ '|') (bracedTag count reference) := by
  apply Grouped.append
  · apply grouped_head stated
    rintro c member rfl
    exact (ordinary_head stated '|' member).1 (by decide)
  · exact .group (Brackets.Known.angle (.inr (.inl rfl))) (held_uncounted held).braces .nil

/-- No dollar sign in the line has a brace after it. -/
theorem unopened_bracedTag :
    ¬ ['$', '\x7b'] <:+: '\x7b' :: (bracedTag count reference ++ ['\x7d']) := by
  have front : '\x7b' ∉ count.written ++ ['$', '$'] :=
    fun member => (ordinary_head stated _ member).1 (by decide)
  have back : '$' ∉ (("wcwildcard".toList ++ ':' :: reference) ++ ['>']) ++ ['\x7d'] := by
    rw [List.append_assoc, List.mem_append, not_or]
    exact ⟨(held_uncounted held).undollared, by decide⟩
  rw [bracedTag, List.append_assoc, List.cons_append, List.infix_cons_iff]
  rintro (begins | later)
  · exact absurd (List.cons_prefix_cons.1 begins).1 (by decide)
  · rcases (infix_around (by decide)).1 later with before | after
    · exact front (before.subset (by decide))
    · exact back (after.subset (by decide))

/-- No command begins in the line. -/
theorem quiet_bracedTag : Quiet ('\x7b' :: (bracedTag count reference ++ ['\x7d'])) := by
  have absent : '<' ∉ '\x7b' :: (count.written ++ ['$', '$']) := by
    intro member
    rcases List.mem_cons.1 member with brace | later
    · exact absurd brace (by decide)
    · exact (ordinary_head stated '<' later).1 (by decide)
  have name : '<' ∉ "wcwildcard".toList := by decide
  have harmless : "wcwildcard".toList.head?.map (sameLetter 'p') = some false := by decide
  have colon : Quiet (':' :: reference) := .plain (by decide) held.quiet
  have tail : Quiet ['\x7d'] := .of_absent (by decide)
  have whole := Quiet.after absent (.tag harmless name colon tail)
  rw [bracedTag]
  simpa using whole

/-- The pass over square brackets finds none outside the tag. -/
theorem brackets_bracedTag (pass : Pass) :
    Rewritten (Bracketed.write pass) '[' ']' none
      ('\x7b' :: (bracedTag count reference ++ ['\x7d']))
      ('\x7b' :: (bracedTag count reference ++ ['\x7d'])) := by
  have passed : ∀ c ∈ '\x7b' :: (count.written ++ ['$', '$']),
      c ≠ '[' ∧ ¬ Brackets.tags.Mentions c ∧ c ≠ '\\' ∧ some c ≠ none := by
    intro c member
    rcases List.mem_cons.1 member with rfl | later
    · decide
    · refine ⟨?_, (ordinary_before stated c later).2.1, (ordinary_before stated c later).2.2,
        Option.some_ne_none c⟩
      rintro rfl
      exact (ordinary_head stated '[' later).1 (by decide)
  have closer : Rewritten (Bracketed.write pass) '[' ']' none ['\x7d'] ['\x7d'] :=
    .plain (by decide) (by decide) (by decide) (by decide) .nil
  have whole := (Rewritten.of_unmarked passed).append (.tag (held_uncounted held).tags closer)
  rw [bracedTag]
  simpa using whole

/-- No keyword stands outside the tag. -/
theorem markBreaks_bracedTag :
    markBreaks Cursor.start ('\x7b' :: (bracedTag count reference ++ ['\x7d'])) =
      '\x7b' :: (bracedTag count reference ++ ['\x7d']) := by
  let inner := "wcwildcard".toList ++ ':' :: reference
  have line : '\x7b' :: (bracedTag count reference ++ ['\x7d']) =
      '\x7b' :: (count.written ++ ['$', '$']) ++ ('<' :: (inner ++ '>' :: ['\x7d'])) := by
    simp [bracedTag, inner]
  have unmentioned : ∀ c ∈ '\x7b' :: (count.written ++ ['$', '$']), ¬ Brackets.tags.Mentions c := by
    intro c member
    rcases List.mem_cons.1 member with rfl | later
    · decide
    · exact (ordinary_before stated c later).2.1
  have unbroken : Unbroken ('\x7b' :: (count.written ++ ['$', '$'])) := by
    have letters : ∀ d ∈ breakWord, d ∈ headMarks := by decide
    have absent : ∀ c ∈ '\x7b' :: (count.written ++ ['$', '$']), c ∉ breakWord := by
      intro c member
      rcases List.mem_cons.1 member with rfl | later
      · decide
      · exact fun within => (ordinary_head stated c later).1 (letters c within)
    have whole := Unbroken.after absent .nil
    rwa [List.append_nil] at whole
  have apart : ∀ c ∈ ('<' :: (inner ++ '>' :: ['\x7d'])).head?, c ∉ breakWord := by
    rintro c ⟨⟩
    decide
  obtain ⟨cursor, depth, kept⟩ := markBreaks_run unbroken unmentioned apart Cursor.start
  have closer : ∀ cursor, markBreaks cursor ['\x7d'] = ['\x7d'] :=
    fun _ => markBreaks_of_absent (by decide)
  rw [line, kept, markBreaks_keepsHeld.tag (.of_grouped (held_uncounted held).tags) depth, closer,
    List.map_id]
  simp [inner]

/-- The content of the braces is written as the tag with their count. -/
theorem write_bracedTag (pass : Pass) :
    Variant.write pass (bracedTag count reference) = pure (countedTag count (some 0) reference) := by
  have tag : '<' :: (("wcwildcard".toList ++ ':' :: reference) ++ ['>']) =
      Reference.drawDirective [] reference [] := by
    rw [Reference.drawDirective_eq, List.nil_append, List.append_nil]
  have grouped : ∀ bare : Char → Prop,
      Grouped Brackets.tagsAndBraces bare (Reference.drawDirective [] reference []) := by
    intro bare
    rw [← tag]
    exact .group (Brackets.Known.angle (.inr (.inl rfl))) (held_uncounted held).braces .nil
  have alone : splitTopLevel "|" Brackets.tagsAndBraces (Reference.drawDirective [] reference []) =
      [Reference.drawDirective [] reference []] :=
    splitTopLevel_alone (by decide) (by decide) (grouped (· ≠ '|')) fun _ bare => bare
  have headed : Head.split? (bracedTag count reference) =
      some (⟨some count, none⟩, Reference.drawDirective [] reference []) := by
    rw [bracedTag, tag, List.append_assoc]
    exact Head.split?_counted stated (Head.separator?_grouped (grouped (· ≠ '$')))
  have filled : countedArgument count (some 0) ≠ [] := List.cons_ne_nil _ _
  rw [Variant.write, headed]
  dsimp only
  rw [alone, List.length_singleton, Nat.sub_self, Reference.argument_counted, pure_bind]
  dsimp only
  rw [collapse?_tag held filled]
  rfl

/-- The braces around a counted reference become its tag, in which the count is closed for one
option. -/
theorem afterReferences_bracedTag (pass : Pass) :
    afterReferences pass ('\x7b' :: (bracedTag count reference ++ ['\x7d'])) =
      pure (countedTag count (some 0) reference) := by
  have pair : Brackets.tagsAndBraces.Pair '\x7b' '\x7d' := by constructor <;> decide
  have construct : Rewritten (Variant.write pass) '\x7b' '\x7d' (some '$')
      ('\x7b' :: (bracedTag count reference ++ ['\x7d']))
      (countedTag count (some 0) reference ++ []) :=
    .construct (enclosed?_grouped pair (grouped_bracedTag stated held))
      (write_bracedTag stated held pass) .nil
  apply afterReferences_parts (unopened_bracedTag stated held) (quiet_bracedTag stated held)
    (brackets_bracedTag stated held pass)
  rw [markBreaks_bracedTag stated held]
  rwa [List.append_nil] at construct

end Braces

section Lines

variable (named : IsName name) (stated : count.IsStated) {transpiler : Transpiler} {levels : Nat}
  (limit : transpiler.limit = levels + 1) (plainFolder : HasPlainFolder transpiler)
  {raised : Reporting PUnit} {written : Text}
  (nested : transpiler.rewriteWithin levels name = (raised >>= fun _ => pure written))
  (handed : written = name ∨ written = emptyMark)

include named handed plainFolder in
/-- What a name is handed on as may stand in a tag. -/
theorem held_reference : Held (transpiler.inFolder written) := by
  apply held_inFolder plainFolder
  rcases handed with rfl | rfl
  · exact .of_unmarked named.unmarked
  · exact held_emptyMark

include limit in
/-- A line with one reference becomes what the passes after references make of its tag. -/
theorem transpile_single {mention : Mention} {last tag result : Text} (proper : mention.Proper)
    (unlabelled : ∀ c ∈ (mentioning [mention] last).head?,
      isBlank c = false ∧ c ≠ '\x22' ∧ c ≠ '\x27')
    (apart : ¬ ['_', '_'] <:+: last)
    (writes : Reference.write ⟨transpiler, transpiler.rewriteWithin levels⟩ mention.counted.2 =
      (raised >>= fun _ => pure tag))
    (finished : afterReferences ⟨transpiler, transpiler.rewriteWithin levels⟩
      (mention.counted.1 ++ (tag ++ last)) = pure result) :
    transpiler.transpile (mentioning [mention] last) = (raised >>= fun _ => pure result) := by
  rw [Transpiler.transpile, clauseLabels_of_first unlabelled, limit, Transpiler.rewriteWithin,
    passes_eq_references, Reference.rewrite_single proper apart writes, bind_assoc]
  refine bind_congr fun _ => ?_
  rw [pure_bind, finished]

include named stated limit plainFolder nested handed

/-- A reference with a count becomes the tag with that count. -/
theorem transpile_mention {mention : Mention} (proper : mention.Proper)
    (unlabelled : ∀ c ∈ (mentioning [mention] []).head?,
      isBlank c = false ∧ c ≠ '\x22' ∧ c ≠ '\x27')
    (counted : mention.counted = ([], count.written ++ '$' :: '$' :: name)) :
    transpiler.transpile (mentioning [mention] []) =
      (raised >>= fun _ => pure (countedTag count none (transpiler.inFolder written))) := by
  apply transpile_single limit proper unlabelled (by decide)
  · rw [counted]
    exact Reference.write_counted named stated nested handed
  · rw [counted, List.nil_append, List.append_nil]
    exact (settled_countedTag stated (held_reference named plainFolder handed) none).afterReferences _

/-- With the count at its start a reference becomes the tag with that count. -/
theorem transpile_countedInside :
    transpiler.transpile (countedInside count name) =
      (raised >>= fun _ => pure (countedTag count none (transpiler.inFolder written))) := by
  let mention : Mention := ⟨[], (count.written ++ ['$', '$']) ++ name⟩
  have whole : countedInside count name = mentioning [mention] [] := by
    simp [countedInside, mentioning, Mention.text, mention]
  have content : (count.written ++ ['$', '$']) ++ name = count.written ++ '$' :: '$' :: name :=
    List.append_assoc count.written ['$', '$'] name
  have counted : mention.counted = ([], count.written ++ '$' :: '$' :: name) := by
    rw [← content]
    apply Mention.counted_headed
    rw [content, Head.split?_counted stated (separator?_name named)]
    rfl
  have proper : mention.Proper := by
    refine ⟨fun c member => absurd member List.not_mem_nil, ?_, ?_⟩
    · apply Text.IsUnspaced.solid
      refine ⟨List.append_ne_nil_of_right_ne_nil _ named.unspaced.filled, ?_⟩
      intro c member
      rcases List.mem_append.1 member with front | back
      · exact (ordinary_head stated c front).2
      · exact named.unspaced.unspaced c back
    · apply Grouped.append
      · apply grouped_head stated
        rintro c member rfl
        exact (ordinary_head stated '_' member).1 (by decide)
      · apply named.grouped (.inr (.inl rfl))
        rintro c member rfl
        exact named.unmarked '_' member (by decide)
  have unlabelled : ∀ c ∈ (mentioning [mention] []).head?,
      isBlank c = false ∧ c ≠ '\x22' ∧ c ≠ '\x27' := by
    rw [← whole]
    rintro c ⟨⟩
    exact ⟨by decide, by decide, by decide⟩
  rw [whole]
  exact transpile_mention named stated limit plainFolder nested handed proper unlabelled counted

/-- With the count directly before it a reference becomes the same tag. -/
theorem transpile_countedBefore (bounded : ∀ high, count ≠ .upTo high)
    (closed : ∀ low, count ≠ .atLeast low) :
    transpiler.transpile (countedBefore count name) =
      (raised >>= fun _ => pure (countedTag count none (transpiler.inFolder written))) := by
  let mention : Mention := ⟨count.written ++ ['$', '$'], name⟩
  have whole : countedBefore count name = mentioning [mention] [] := by
    simp [countedBefore, mentioning, Mention.text, mention]
  have counted : mention.counted = ([], count.written ++ '$' :: '$' :: name) := by
    exact Mention.counted_some (split?_name named)
      (@Reference.leadingCount?_closed count [] stated bounded closed (by simp))
  have unlabelled : ∀ c ∈ (mentioning [mention] []).head?,
      isBlank c = false ∧ c ≠ '\x22' ∧ c ≠ '\x27' := by
    obtain ⟨first, others, begins⟩ := List.exists_cons_of_ne_nil (Count.written_ne_nil stated)
    have counting : isCountCharacter first = true :=
      Count.written_characters stated first (begins ▸ List.mem_cons_self)
    rw [← whole, countedBefore, begins]
    rintro c ⟨⟩
    exact ⟨isBlank_of_isCountCharacter counting, ne_of_isCountCharacter counting (by decide),
      ne_of_isCountCharacter counting (by decide)⟩
  rw [whole]
  exact transpile_mention named stated limit plainFolder nested handed
    (proper_name named (ordinary_before stated)) unlabelled counted

/-- In braces with the count at their start a reference becomes the tag in which the count is closed
for one option. -/
theorem transpile_countedVariant (bounded : ∀ high, count ≠ .upTo high) :
    transpiler.transpile (countedVariant count name) =
      (raised >>= fun _ => pure (countedTag count (some 0) (transpiler.inFolder written))) := by
  let mention : Mention := ⟨'\x7b' :: (count.written ++ ['$', '$']), name⟩
  have whole : countedVariant count name = mentioning [mention] ['\x7d'] := by
    simp [countedVariant, mentioning, Mention.text, mention]
  have counted : mention.counted = ('\x7b' :: (count.written ++ ['$', '$']), name) :=
    Mention.counted_none (Reference.leadingCount?_braced stated bounded)
  have before : ∀ c ∈ '\x7b' :: (count.written ++ ['$', '$']),
      c ≠ '_' ∧ ¬ Brackets.tags.Mentions c ∧ c ≠ '\\' := by
    intro c member
    rcases List.mem_cons.1 member with rfl | later
    · decide
    · exact ordinary_before stated c later
  have unlabelled : ∀ c ∈ (mentioning [mention] ['\x7d']).head?,
      isBlank c = false ∧ c ≠ '\x22' ∧ c ≠ '\x27' := by
    rintro c ⟨⟩
    exact ⟨by decide, by decide, by decide⟩
  rw [whole]
  apply transpile_single limit (proper_name named before) unlabelled (by decide)
  · rw [counted]
    exact Reference.write_name named nested handed
  · have line : '\x7b' :: (count.written ++ ['$', '$']) ++
        (Reference.drawDirective [] (transpiler.inFolder written) [] ++ ['\x7d']) =
          '\x7b' :: (bracedTag count (transpiler.inFolder written) ++ ['\x7d']) := by
      rw [Reference.drawDirective_eq, bracedTag]
      simp
    rw [counted, line]
    exact afterReferences_bracedTag stated (held_reference named plainFolder handed) _

end Lines

/-- A word with a hyphen behind it is read as a lower bound. -/
theorem ofText?_open {low : Text} (word : Numeral.IsWord low) :
    Quantity.ofText? (low ++ ['-']) = some ⟨Numeral.digitsValue 0 low, none⟩ := by
  have stated : (Count.atLeast low).IsStated := word
  have counting : ∀ c ∈ low ++ ['-'], isCountCharacter c = true := Count.written_characters stated
  rw [Quantity.ofText?_eq_some_iff, trim_of_isCountCharacter counting]
  exact .atLeast (Numeral.word?_trim_of_isWord word)

/-- A count with nothing behind its comma is read with the separator that stands for nothing. -/
theorem ofArgument_count {written : Text} {quantity : Quantity}
    (counting : ∀ c ∈ written, isCountCharacter c = true)
    (read : Quantity.ofText? written = some quantity) :
    Quantity.ofArgument (written ++ [',']) = (quantity, ", ".toList) :=
  Quantity.ofArgument_counted counting read []

/-- The spellings of a counted reference agree. A name is drawn from with a fixed count or one with
both bounds by the same tag, whether the count stands at the start of the reference, directly before
it at the start of the line, or at the start of braces around it. With a count that has no upper
bound, the tag of the reference keeps it open, so the draw ends one below the number of options that
there are; the braces close it for their only option, so the draw takes exactly the lower bound.

The name is rewritten once in each of them, perhaps to the mark of the empty text and perhaps with a
warning, so the two sides share it. -/
theorem transpile_countedSpellings (transpiler : Transpiler) (positive : 0 < transpiler.limit)
    (plainFolder : HasPlainFolder transpiler) (name : Text) (named : IsName name) :
    (∀ count : Count, count.IsStated → (∀ high, count ≠ .upTo high) →
      (∀ low, count ≠ .atLeast low) →
        transpiler.transpile (countedVariant count name) =
          transpiler.transpile (countedInside count name) ∧
        transpiler.transpile (countedBefore count name) =
          transpiler.transpile (countedInside count name)) ∧
    ∀ low, Numeral.IsWord low →
      let reference := transpiler.inFolder <$> transpiler.rewriteWithin (transpiler.limit - 1) name
      let value := Text.ofNat (Numeral.digitsValue 0 low)
      transpiler.transpile (countedInside (.atLeast low) name) =
          (Reference.drawDirective ('[' :: (low ++ ['-', ',', ']'])) · []) <$> reference ∧
        Quantity.ofArgument (low ++ ['-', ',']) =
          (⟨Numeral.digitsValue 0 low, none⟩, ", ".toList) ∧
        transpiler.transpile (countedVariant (.atLeast low) name) =
          (Reference.drawDirective ('[' :: (value ++ '-' :: (value ++ [',', ']']))) · []) <$>
            reference ∧
        Quantity.ofArgument (value ++ '-' :: (value ++ [','])) =
          (.exactly (Numeral.digitsValue 0 low), ", ".toList) := by
  obtain ⟨levels, limit⟩ := Nat.exists_eq_succ_of_ne_zero (Nat.ne_of_gt positive)
  obtain ⟨raised, written, nested, handed⟩ := named.nested transpiler levels
  constructor
  · intro count stated bounded closed
    have same : countedTag count (some 0) = countedTag count none := by
      funext reference
      cases count with
      | atLeast low => exact absurd rfl (closed low)
      | exactly digits => rfl
      | between low high => rfl
      | upTo high => rfl
    have inside := transpile_countedInside named stated limit plainFolder nested handed
    have before := transpile_countedBefore named stated limit plainFolder nested handed bounded closed
    have braces := transpile_countedVariant named stated limit plainFolder nested handed bounded
    rw [inside, before, braces, same]
    exact ⟨rfl, rfl⟩
  · intro low word reference value
    have stated : (Count.atLeast low).IsStated := word
    have bounded : ∀ high, Count.atLeast low ≠ .upTo high := fun high => Count.noConfusion
    have shared : reference = (raised >>= fun _ => pure (transpiler.inFolder written)) := by
      have levels' : transpiler.limit - 1 = levels := by omega
      simp only [reference, levels', nested, map_bind, map_pure]
    have digits : Numeral.IsWord value := Numeral.isWord_ofNat word.small
    have closing : ∀ c ∈ value ++ '-' :: value, isCountCharacter c = true :=
      isCountCharacter_hyphenated (isCountCharacter_digits digits.digits)
        (isCountCharacter_digits digits.digits)
    have opening : ∀ c ∈ low ++ ['-'], isCountCharacter c = true :=
      Count.written_characters stated
    have exact_ : Quantity.ofText? (value ++ '-' :: value) =
        some (.exactly (Numeral.digitsValue 0 low)) := by
      rw [Quantity.ofText?_between digits digits, Numeral.digitsValue_ofNat, Nat.min_self,
        Nat.max_self]
      rfl
    refine ⟨?_, ?_, ?_, ?_⟩
    · rw [transpile_countedInside named stated limit plainFolder nested handed, shared]
      simp [countedTag, countedArgument, Head.countText]
    · have read := ofArgument_count opening (ofText?_open word)
      rwa [List.append_assoc] at read
    · rw [transpile_countedVariant named stated limit plainFolder nested handed bounded, shared]
      simp [countedTag, countedArgument, Head.countText_atLeast word, value]
    · have read := ofArgument_count closing exact_
      rwa [List.append_assoc, List.cons_append] at read

/-- With a folder every spelling draws from the wildcard in it. -/
theorem transpile_countedSpellings_folder :
    0 < (Transpiler.standard.withFolder "set").limit ∧
      HasPlainFolder (Transpiler.standard.withFolder "set") ∧ IsName "colors" ∧
      (Transpiler.standard.withFolder "set").transpile "\x7b2-3$$__colors__\x7d" =
        (Transpiler.standard.withFolder "set").transpile "__2-3$$colors__" ∧
      (Transpiler.standard.withFolder "set").transpile "2-3$$__colors__" =
        (Transpiler.standard.withFolder "set").transpile "__2-3$$colors__" := by
  have positive : 0 < (Transpiler.standard.withFolder "set").limit := by decide
  have plainFolder : HasPlainFolder (Transpiler.standard.withFolder "set") := by
    have given : (Transpiler.standard.withFolder "set").folder = some "set".toList := by decide
    rw [HasPlainFolder, given]
    rintro folder ⟨⟩
    decide
  have named : IsName "colors" := .of_isAlphanum (by decide) (by decide)
  have stated : (Count.between "2" "3").IsStated := by
    constructor
    · decide
    · decide
  have agree := (transpile_countedSpellings _ positive plainFolder "colors" named).1
    (.between "2" "3") stated (fun high => Count.noConfusion) fun low => Count.noConfusion
  exact ⟨positive, plainFolder, named, agree⟩

/-- Without an upper bound the reference draws at least two, and the braces draw two. -/
theorem transpile_countedSpellings_open :
    (Count.atLeast "2").IsStated ∧ IsName "x" ∧
      countedVariant (.atLeast "2") "x" = "\x7b2-$$__x__\x7d".toList ∧
      countedInside (.atLeast "2") "x" = "__2-$$x__".toList ∧
      Transpiler.standard.transpile "\x7b2-$$__x__\x7d" ≠ Transpiler.standard.transpile "__2-$$x__" := by
  have stated : (Count.atLeast "2").IsStated := (by decide : Numeral.IsWord "2")
  have texts : (Transpiler.standard.transpile "\x7b2-$$__x__\x7d" []).1 ≠
      (Transpiler.standard.transpile "__2-$$x__" []).1 := by decide +kernel
  refine ⟨stated, .of_isAlphanum (by decide) (by decide), by decide, by decide, ?_⟩
  intro same
  exact texts (by rw [same])

end DynamicPrompt.Source
