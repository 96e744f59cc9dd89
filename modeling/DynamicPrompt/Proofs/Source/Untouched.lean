import DynamicPrompt.Proofs.Text.Folding
import DynamicPrompt.Source.Transpiler

/-!
# Text that a pass leaves alone

A pass changes a line only where a construct of its kind begins. These laws state, pass by
pass, what a line must not contain for the pass to hand it on unchanged and without a warning.
Each condition speaks of the text alone, so it can be checked without running the pass.

Commands are read up to case folding by one of the two scans over them, so the condition on
commands is stated up to case folding for both.
-/

namespace DynamicPrompt.Source

/-- Characters that are only passed are written as they are, before what follows them. -/
theorem writePieces_passed {α : Type} (write : α → Reporting Text) (text : Text)
    (pieces : List (Piece α)) :
    writePieces write (text.map Piece.plain ++ pieces) =
      (text ++ ·) <$> writePieces write pieces := by
  induction text with
  | nil => simp
  | cons c rest inductionHypothesis =>
    rw [List.map_cons, List.cons_append, writePieces, inductionHypothesis]
    simp

/-- A line of which every character is only passed is written as it is. -/
theorem writePieces_plain {α : Type} (write : α → Reporting Text) (text : Text) :
    writePieces write (text.map Piece.plain) = pure text := by
  have whole := writePieces_passed write text []
  rw [List.append_nil] at whole
  rw [whole, writePieces, map_pure, List.append_nil]

/-- A line without quotation marks has no quoted labels. -/
theorem clauseLabels_of_absent {line : Text} (noDouble : '\x22' ∉ line) (noSingle : '\x27' ∉ line) :
    clauseLabels line = line := by
  unfold clauseLabels
  split
  · rfl
  · next quote rest starts =>
    have within : quote ∈ line := by
      refine (List.dropWhile_suffix isBlank).subset (?_ : quote ∈ Text.trimStart line)
      rw [starts]
      exact List.mem_cons_self
    rw [if_neg]
    rintro (rfl | rfl)
    · exact noDouble within
    · exact noSingle within

namespace Reference

/-- Where no two underscores are neighbours, no reference begins. -/
theorem pieces_of_apart {cursor : Cursor} {text : Text} (apart : ¬ ['_', '_'] <:+: text) :
    pieces cursor text = text.map Piece.plain := by
  induction text generalizing cursor with
  | nil => simp [pieces]
  | cons c rest inductionHypothesis =>
    have others : ¬ ['_', '_'] <:+: rest := fun inside => apart (List.infix_cons inside)
    have single : ∀ following, c = '_' → rest = '_' :: following → False := by
      rintro following rfl rfl
      exact apart ⟨[], following, rfl⟩
    rw [pieces, inductionHypothesis others]
    · rfl
    · exact single

/-- Without underscores no two of them are neighbours. -/
theorem apart_of_absent {text : Text} (absent : '_' ∉ text) : ¬ ['_', '_'] <:+: text :=
  fun inside => absent (inside.subset List.mem_cons_self)

/-- Texts one after the other, if the second does not begin with an underscore. -/
theorem apart_append {front back : Text} (first : ¬ ['_', '_'] <:+: front)
    (second : ¬ ['_', '_'] <:+: back) (begins : back.head? ≠ some '_') :
    ¬ ['_', '_'] <:+: front ++ back := by
  induction front with
  | nil => exact second
  | cons c front inductionHypothesis =>
    have others := inductionHypothesis fun inside => first (List.infix_cons inside)
    rw [List.cons_append, List.infix_cons_iff, not_or]
    refine ⟨?_, others⟩
    rintro ⟨after, whole⟩
    obtain ⟨rfl, rest⟩ := List.cons.inj whole
    cases front with
    | nil => exact begins (congrArg List.head? rest).symm
    | cons d front =>
      obtain ⟨rfl, _⟩ := List.cons.inj rest
      exact first ⟨[], front, rfl⟩

/-- A character other than an underscore before a text. -/
theorem apart_cons {c : Char} {back : Text} (other : c ≠ '_') (apart : ¬ ['_', '_'] <:+: back) :
    ¬ ['_', '_'] <:+: c :: back := by
  rw [List.infix_cons_iff, not_or]
  exact ⟨fun begins => other (List.cons_prefix_cons.1 begins).1.symm, apart⟩

/-- A text behind characters that are no underscores. -/
theorem apart_behind {front back : Text} (absent : '_' ∉ front) (apart : ¬ ['_', '_'] <:+: back) :
    ¬ ['_', '_'] <:+: front ++ back := by
  induction front with
  | nil => exact apart
  | cons c front inductionHypothesis =>
    rw [List.mem_cons, not_or] at absent
    exact apart_cons (Ne.symm absent.1) (inductionHypothesis absent.2)

/-- Held characters are written before the characters that follow them. -/
theorem writeAll_plain (pass : Pass) (held text : Text) :
    writeAll pass held (text.map Piece.plain) = pure (held.reverse ++ text) := by
  induction text generalizing held with
  | nil => simp [writeAll]
  | cons c rest inductionHypothesis =>
    rw [List.map_cons, writeAll, inductionHypothesis]
    simp

/-- A line without two neighbouring underscores has no references. -/
theorem rewrite_of_apart (pass : Pass) {line : Text} (apart : ¬ ['_', '_'] <:+: line) :
    rewrite pass line = pure line := by
  rw [rewrite, pieces_of_apart apart, writeAll_plain]
  rfl

end Reference

namespace VariableUse

/-- Where no dollar sign stands, no variable begins. -/
theorem pieces_of_absent {escaped : Bool} {text : Text} (absent : '$' ∉ text) :
    pieces escaped text = text.map Piece.plain := by
  induction text generalizing escaped with
  | nil => simp [pieces]
  | cons c rest inductionHypothesis =>
    rw [List.mem_cons, not_or] at absent
    rw [pieces, inductionHypothesis absent.2]
    · rfl
    · intro following same
      exact absurd same.symm absent.1

/-- A line without dollar signs has no variables. -/
theorem rewrite_of_absent (pass : Pass) {line : Text} (absent : '$' ∉ line) :
    rewrite pass line = pure line := by
  rw [rewrite, pieces_of_absent absent, writePieces_plain]

end VariableUse

/-- A text without two neighbouring dollar signs has no count, which they would end. -/
theorem Head.count?_of_apart {text : Text} (apart : ¬ ['$', '$'] <:+: text) :
    Head.count? text = none := by
  have digits {text : Text} (apart : ¬ ['$', '$'] <:+: text) :
      ¬ ['$', '$'] <:+: text.dropWhile isDecimalDigit :=
    fun inside => apart (inside.trans (List.dropWhile_suffix _).isInfix)
  have behind := digits apart
  unfold Head.count?
  dsimp only
  split
  · next rest starts =>
    rw [starts] at behind
    have others := digits fun inside => behind (List.infix_cons inside)
    split
    · next ends =>
      rw [ends] at others
      exact absurd ⟨[], _, rfl⟩ others
    · rfl
  · next starts =>
    rw [starts] at behind
    exact absurd ⟨[], _, rfl⟩ behind
  · rfl

/-- A text without two neighbouring dollar signs has no head. -/
theorem Head.split?_of_apart {body : Text} (apart : ¬ ['$', '$'] <:+: body) :
    Head.split? body = none := by
  have unflagged : ¬ ['$', '$'] <:+: body.dropWhile Head.isFlag :=
    fun inside => apart (inside.trans (List.dropWhile_suffix _).isInfix)
  rw [Head.split?, Head.count?_of_apart unflagged]

/-- A text without dollar signs has no head. -/
theorem Head.split?_of_absent {body : Text} (absent : '$' ∉ body) : Head.split? body = none :=
  Head.split?_of_apart fun inside => absent (inside.subset List.mem_cons_self)

/-- A line without markers of insertion points keeps every character. -/
theorem withoutMarkers_of_absent {text : Text} (absent : Absent "<ppp:stn" text) :
    withoutMarkers text = (text, []) := by
  induction text with
  | nil => simp [withoutMarkers]
  | cons c rest inductionHypothesis =>
    have none : afterMarker? (c :: rest) = none := by
      rw [afterMarker?, absent _ List.suffix_rfl]
    rw [withoutMarkers]
    split
    · next after marks => simp [none] at marks
    · rw [inductionHypothesis absent.tail]

/-- A text that does not begin with a command in any letter case has no opening tag. -/
theorem opener?_of_absent {text : Text} (absent : foldedAfter? commandStart text = none) :
    opener? text = none := by
  rw [opener?]
  split
  · rfl
  · next inside begins => simp [foldedAfter?_of_after? begins] at absent

/-- Where no command begins, no block begins. -/
theorem Block.pieces_of_absent {text : Text} (absent : Absent commandStart text) :
    Block.pieces text = text.map Piece.plain := by
  induction text with
  | nil => simp [Block.pieces]
  | cons c rest inductionHypothesis =>
    have none : opener? (c :: rest) = none := opener?_of_absent (absent _ List.suffix_rfl)
    rw [Block.pieces]
    split
    · rw [inductionHypothesis absent.tail]
      rfl
    · next opener inside opens => simp [none] at opens

/-- A line without commands has no blocks and no markers. -/
theorem Block.rewrite_of_absent (pass : Pass) {line : Text} (absent : Absent commandStart line) :
    Block.rewrite pass line = pure line := by
  have unmarked : Absent "<ppp:stn" line := absent.extend "stn"
  rw [Block.rewrite, withoutMarkers_of_absent unmarked]
  dsimp only
  rw [Block.pieces_of_absent absent, writePieces_plain]
  rfl

/-- A line without the keyword keeps every character. -/
theorem markBreaks_of_absent {cursor : Cursor} {text : Text} (absent : ¬ breakWord <:+: text) :
    markBreaks cursor text = text := by
  induction text generalizing cursor with
  | nil => simp [markBreaks]
  | cons c rest inductionHypothesis =>
    have others : ¬ breakWord <:+: rest := fun inside => absent (List.infix_cons inside)
    rw [markBreaks]
    split
    · rw [inductionHypothesis others]
    · next after begins =>
      have starts : c :: rest = breakWord ++ after := Text.after?_eq_some_iff.1 begins
      exact absurd ⟨[], after, starts.symm⟩ absent

end DynamicPrompt.Source
