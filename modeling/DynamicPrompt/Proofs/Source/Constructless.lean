import DynamicPrompt.Proofs.Delimiter.Unclosed
import DynamicPrompt.Proofs.Source.Untouched

/-!
# Lines without a complete construct

A line can be full of the marks of source syntax and still have nothing to rewrite: an opener may
lack its closer or be escaped, a bracket may belong to a tag, and a closer may stand alone. Such a
line is handed on as it is. What the passes look for is stated here by places in the line: what
stands before a place tells whether it is escaped and how many tags are open there, and what
stands after it holds a balancing closer or does not.

The passes carry this knowledge along instead of looking back, so their cursor is shown to know
exactly what the text before it says.
-/

namespace DynamicPrompt

/-- How many tags are open after a text. -/
def tagDepth (before : Text) : Nat := before.foldl tagDepthAfter 0

namespace Source

/-- No opener of the pair that is unescaped and outside every tag has a balancing closer. -/
def Unclosed (opener closer : Char) (text : Text) : Prop :=
  ∀ place < text.length, text[place]? = some opener →
    tagDepth (text.take place) = 0 → isEscapedAfter (text.take place) = false →
      ¬ HasCloser opener closer (text.drop (place + 1))

/-- No unescaped dollar sign with braces after it has a brace that balances them, whether in a
tag or not. -/
def UnclosedVariables (line : Text) : Prop :=
  ∀ place < line.length, ['$', '\x7b'] <+: line.drop place →
    isEscapedAfter (line.take place) = false →
      ¬ HasCloser '\x7b' '\x7d' (line.drop (place + 2))

/-- A line in which no construct of source syntax is complete. -/
structure Constructless (line : Text) : Prop where
  unlabelled : ∀ quote ∈ (Text.trimStart line).head?, quote ≠ '\x22' ∧ quote ≠ '\x27'
  noReference : ¬ ['_', '_'] <:+: line
  noKeyword : ¬ breakWord <:+: line
  noCommand : ¬ commandStart <:+: line.map Char.toLower
  noVariable : UnclosedVariables line
  noBrackets : Unclosed '[' ']' line
  noBraces : Unclosed '\x7b' '\x7d' line

/-- What a cursor knows after a text follows from the text alone. -/
theorem Cursor.after_text (cursor : Cursor) (before : Text) :
    (before.foldl Cursor.after cursor).depth = before.foldl tagDepthAfter cursor.depth ∧
      (before.foldl Cursor.after cursor).escaped = before.foldl escapes cursor.escaped := by
  induction before generalizing cursor with
  | nil => exact ⟨rfl, rfl⟩
  | cons c before inductionHypothesis => exact inductionHypothesis (cursor.after c)

/-- From the start of a line, a character is free exactly if it opens no tag, no tag is open
before it and it is not escaped. -/
theorem Cursor.isFree_after (before : Text) (c : Char) :
    (before.foldl Cursor.after Cursor.start).isFree c = true ↔
      c ≠ '<' ∧ tagDepth before = 0 ∧ isEscapedAfter before = false := by
  obtain ⟨depth, escaped⟩ := Cursor.start.after_text before
  rw [Cursor.isFree, standsOutside, depth, escaped]
  simp [tagDepth, isEscapedAfter, Cursor.start, and_assoc]

/-- A line whose free openers enclose nothing is only passed. -/
theorem enclosures_of_unclosed {opener closer : Char} {barred : Option Char} {cursor : Cursor}
    {text : Text}
    (unclosed : ∀ before rest, text = before ++ opener :: rest →
      (before.foldl Cursor.after cursor).isFree opener = true →
        enclosed? opener closer rest = none) :
    enclosures opener closer barred cursor text = text.map Piece.plain := by
  induction text generalizing cursor with
  | nil => simp [enclosures]
  | cons c rest inductionHypothesis =>
    have others : enclosures opener closer barred (cursor.after c) rest = rest.map Piece.plain := by
      apply inductionHypothesis
      intro before after same free
      exact unclosed (c :: before) after (by rw [same, List.cons_append]) free
    rw [enclosures]
    split
    · next begins =>
      obtain ⟨rfl, free, _⟩ := begins
      split
      · next inner after found =>
        have nothing := unclosed [] rest rfl free
        simp [nothing] at found
      · rw [others, List.map_cons]
    · rw [others, List.map_cons]

/-- At the place where a text begins that follows another, the other stands before it. -/
theorem take_drop_place (before after : Text) (count : Nat) :
    (before ++ after).take before.length = before ∧
      (before ++ after).drop (before.length + count) = after.drop count :=
  ⟨List.take_left, List.drop_length_add_append count⟩

/-- A line without a complete pair of brackets is only passed by the pass over them. -/
theorem writePieces_unclosed {opener closer : Char} {barred : Option Char}
    (write : Text → Reporting Text) {line : Text} (distinct : opener ≠ closer)
    (unclosed : Unclosed opener closer line) :
    writePieces write (enclosures opener closer barred Cursor.start line) = pure line := by
  rw [enclosures_of_unclosed, writePieces_plain]
  rintro before rest rfl free
  obtain ⟨_, outside, unescaped⟩ := (Cursor.isFree_after before opener).1 free
  obtain ⟨front, back⟩ := take_drop_place before (opener :: rest) 1
  have missing : ¬ HasCloser opener closer ((before ++ opener :: rest).drop (before.length + 1)) := by
    apply unclosed before.length
    · simp
    · simp
    · rwa [front]
    · rwa [front]
  rw [back] at missing
  exact (enclosed?_eq_none_iff distinct).2 missing

/-- A text whose unescaped dollar signs enclose nothing is only passed. -/
theorem VariableUse.pieces_of_unclosed {escaped : Bool} {text : Text}
    (unclosed : ∀ before rest, text = before ++ '$' :: '\x7b' :: rest →
      before.foldl escapes escaped = false → enclosed? '\x7b' '\x7d' rest = none) :
    VariableUse.pieces escaped text = text.map Piece.plain := by
  induction text generalizing escaped with
  | nil => simp [VariableUse.pieces]
  | cons c rest inductionHypothesis =>
    have others : VariableUse.pieces (escapes escaped c) rest = rest.map Piece.plain := by
      apply inductionHypothesis
      intro before after same unescaped
      exact unclosed (c :: before) after (by rw [same, List.cons_append]) unescaped
    by_cases dollar : ∃ after, c = '$' ∧ rest = '\x7b' :: after
    · obtain ⟨after, rfl, rfl⟩ := dollar
      have plainly : escapes escaped '$' = false := rfl
      rw [plainly] at others
      rw [VariableUse.pieces]
      split
      · rw [others]
        rfl
      · next free =>
        have nothing := unclosed [] after rfl (by simpa using free)
        split
        · rw [others]
          rfl
        · next inner beyond found => simp [nothing] at found
    · rw [VariableUse.pieces]
      · rw [others, List.map_cons]
      · intro after same following
        exact dollar ⟨after, same, following⟩

/-- A line without a complete variable construct is handed on. -/
theorem VariableUse.rewrite_of_unclosed (pass : Pass) {line : Text}
    (unclosed : UnclosedVariables line) : VariableUse.rewrite pass line = pure line := by
  rw [VariableUse.rewrite, VariableUse.pieces_of_unclosed, writePieces_plain]
  rintro before rest rfl unescaped
  obtain ⟨front, back⟩ := take_drop_place before ('$' :: '\x7b' :: rest) 2
  have missing : ¬ HasCloser '\x7b' '\x7d'
      ((before ++ '$' :: '\x7b' :: rest).drop (before.length + 2)) := by
    apply unclosed before.length
    · simp
    · simp
    · rwa [front]
  rw [back] at missing
  exact (enclosed?_eq_none_iff (by decide)).2 missing

/-- A line in which no variable begins is handed on. -/
theorem VariableUse.rewrite_of_unopened (pass : Pass) {line : Text}
    (unopened : ¬ ['$', '\x7b'] <:+: line) : VariableUse.rewrite pass line = pure line := by
  apply VariableUse.rewrite_of_unclosed
  intro place _ begins
  exact absurd (begins.isInfix.trans (List.drop_suffix place line).isInfix) unopened

/-- A line that does not begin with a quotation mark has no labels. -/
theorem clauseLabels_of_unlabelled {line : Text}
    (unlabelled : ∀ quote ∈ (Text.trimStart line).head?, quote ≠ '\x22' ∧ quote ≠ '\x27') :
    clauseLabels line = line := by
  unfold clauseLabels
  split
  · rfl
  · next quote rest starts =>
    have other := unlabelled quote (by rw [starts]; rfl)
    rw [if_neg (by simpa [not_or] using other)]

end Source

open Source

/-- Text without complete source constructs passes through the rewriting untouched. A line that
has no quoted labels, no neighbouring underscores, no keyword and no command in any letter case,
and none of whose variables, square brackets and braces are closed where they count, is handed on
as it is, without a warning, if the limit leaves room for one level. Brackets and braces inside
tags do not count, and neither do those that are escaped, so directive text is such a line.

No pass changes the line, so each of them is met by the same line. -/
theorem Transpiler.transpile_constructless (transpiler : Transpiler) (line : Text)
    (positive : 0 < transpiler.limit) (constructless : Constructless line) :
    transpiler.transpile line = pure line := by
  obtain ⟨levels, limit⟩ := Nat.exists_eq_succ_of_ne_zero (Nat.ne_of_gt positive)
  have quiet : Absent commandStart line := .of_lower (by decide) constructless.noCommand
  rw [transpile, clauseLabels_of_unlabelled constructless.unlabelled, limit, rewriteWithin, passes,
    Reference.rewrite_of_apart _ constructless.noReference, pure_bind,
    VariableUse.rewrite_of_unclosed _ constructless.noVariable, pure_bind,
    Block.rewrite_of_absent _ quiet, pure_bind, Bracketed.rewrite,
    writePieces_unclosed _ (by decide) constructless.noBrackets, pure_bind,
    markBreaks_of_absent constructless.noKeyword, Variant.rewrite,
    writePieces_unclosed _ (by decide) constructless.noBraces]

/-- A tag with brackets and braces inside, closers that stand alone, an escaped opener with its
closer, and a variable, a bracket and a tag that are never closed. -/
def unfinished : Text :=
  "a <random[2,]:\x7bb\x7d|[c]> ] \x7d \\[d] \\\\[é _ $\x7be <ppp <B".toList

/-- None of the marks of the unfinished line begins a construct. -/
theorem Transpiler.transpile_unfinished :
    0 < Transpiler.standard.limit ∧ Constructless unfinished ∧
      Transpiler.standard.transpile unfinished = pure unfinished := by
  have positive : 0 < Transpiler.standard.limit := by decide
  have constructless : Constructless unfinished := by
    constructor
    · have first : (Text.trimStart unfinished).head? = some 'a' := by decide
      simp [first]
    · decide +kernel
    · decide +kernel
    · decide +kernel
    · unfold UnclosedVariables
      decide +kernel
    · unfold Unclosed
      decide +kernel
    · unfold Unclosed
      decide +kernel
  exact ⟨positive, constructless,
    transpile_constructless Transpiler.standard unfinished positive constructless⟩

end DynamicPrompt
