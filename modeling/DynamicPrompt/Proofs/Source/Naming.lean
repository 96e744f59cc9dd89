import DynamicPrompt.Proofs.Delimiter.Balanced
import DynamicPrompt.Proofs.Source.Keyword
import DynamicPrompt.Proofs.Source.Settled
import DynamicPrompt.Proofs.Work

/-!
# Names of wildcards and lines with references

The name in a reference is rewritten like any other text inside a construct. A name without blanks,
commas and marks of constructs comes out as it was, with one exception: the break keyword is a name
like any other by its letters, but alone in the text of a construct it is the keyword and becomes
the mark of the empty text.

A line with references is read reference by reference. What stands before one is kept but for a
count at its end, which belongs to the reference.
-/

namespace DynamicPrompt.Source

/-- A text that can name a wildcard: it is not empty, and has neither blanks nor marks of
constructs nor the commas, stars and quotation marks that mean something in a reference. Letters and
digits of every script may stand in it. -/
structure IsName (name : Text) : Prop where
  unspaced : Text.IsUnspaced name
  unmarked : ∀ c ∈ name, c ∉ partMarks
  unquoted : ∀ c ∈ name, c ∉ ",*\x22\x27".toList

/-- Letters and digits of ASCII make a name. -/
theorem IsName.of_isAlphanum {name : Text} (filled : name ≠ [])
    (letters : ∀ c ∈ name, c.isAlphanum = true) : IsName name where
  unspaced := ⟨filled, fun c member => isBlank_of_isAlphanum (letters c member)⟩
  unmarked := by
    have other : ∀ mark ∈ partMarks, mark.isAlphanum = false := by decide
    intro c member marks
    exact absurd (letters c member) (by rw [other c marks]; exact Bool.false_ne_true)
  unquoted := by
    have other : ∀ mark ∈ ",*\x22\x27".toList, mark.isAlphanum = false := by decide
    intro c member marks
    exact absurd (letters c member) (by rw [other c marks]; exact Bool.false_ne_true)

/-- The mark of the empty text is settled. -/
theorem settled_emptyMark : Settled emptyMark := by
  have letters : ∀ c ∈ "comment".toList, c ∉ tagMarks := by decide
  have held : Held ":empty" := .of_free (by decide)
  exact .tag (show Plain [] by decide) (by decide) letters held (.plain (show Plain [] by decide))

/-- The mark of the empty text may stand in a tag. -/
theorem held_emptyMark : Held emptyMark :=
  .tag (by decide) (show ∀ c ∈ "comment".toList, c ∉ tagMarks by decide)
    (.of_free (show ∀ c ∈ ":empty".toList, c ∉ tagMarks by decide)) .nil

namespace IsName

variable {name : Text}

/-- No blank and no comma stands in a name. -/
theorem ordinary (named : IsName name) : ∀ c ∈ name, isOrdinary c = true := by
  intro c member
  have noComma : c ≠ ',' := by
    rintro rfl
    exact named.unquoted ',' member (by decide)
  simp [isOrdinary, named.unspaced.unspaced c member, noComma]

/-- The keyword is marked in a name that is nothing else. -/
theorem markBreaks (named : IsName name) :
    markBreaks Cursor.start name = if name = breakWord then emptyMark else name := by
  have read : DynamicPrompt.Source.markBreaks Cursor.start (name ++ []) = markRun name ++ _ :=
    markBreaks_between (Cursor.ready_start none) named.unspaced.filled named.ordinary rfl rfl
  rw [List.append_nil, DynamicPrompt.Source.markBreaks, List.append_nil] at read
  exact read

/-- The passes keep a name other than the keyword. -/
theorem passes (named : IsName name) (pass : Pass) :
    Transpiler.passes pass name = pure (if name = breakWord then emptyMark else name) := by
  have absent : ∀ mark ∈ partMarks, mark ∉ name :=
    fun mark marks member => named.unmarked mark member marks
  have bare : Bare name := .of_unmarked named.unmarked
  have quiet : Quiet name := .of_absent (absent '<' (by decide))
  rw [passes_eq_references, Reference.rewrite_of_apart pass
    (Reference.apart_of_absent (absent '_' (by decide))), pure_bind, afterReferences,
    VariableUse.rewrite_of_absent pass (absent '$' (by decide)), pure_bind,
    Block.rewrite_of_absent pass quiet.absent, pure_bind, bare.brackets, pure_bind,
    named.markBreaks]
  split
  · exact settled_emptyMark.bare.braces pass
  · exact bare.braces pass

/-- A name is grouped. -/
theorem grouped (named : IsName name) {brackets : Brackets} (known : brackets.Known)
    {bare : Char → Prop} (outside : ∀ c ∈ name, bare c) : Grouped brackets bare name := by
  have marks : ∀ d ∈ "<>[]\x7b\x7d()".toList, d ∈ partMarks := by decide
  apply Grouped.of_unmentioned
  intro c member
  refine ⟨outside c member, ?_, ?_⟩
  · exact fun mentioned => named.unmarked c member (marks c (known.mentions mentioned))
  · rintro rfl
    exact named.unmarked '\\' member (by decide)

/-- Inside a construct a name is handed on, perhaps with a warning, or becomes the mark of the empty
text. -/
theorem nested (named : IsName name) (transpiler : Transpiler) (levels : Nat) :
    ∃ (raised : Reporting PUnit) (written : Text),
      transpiler.rewriteWithin levels name = (raised >>= fun _ => pure written) ∧
        (written = name ∨ written = emptyMark) := by
  cases levels with
  | zero => exact ⟨warn (.nestingLeft transpiler.limit name), name, rfl, .inl rfl⟩
  | succ levels =>
    refine ⟨pure ⟨⟩, if name = breakWord then emptyMark else name, ?_, ?_⟩
    · rw [Transpiler.rewriteWithin, named.passes, pure_bind]
    · by_cases same : name = breakWord
      · exact .inr (if_pos same)
      · exact .inl (if_neg same)

/-- With a level left, a name other than the keyword is handed on. -/
theorem rewriteWithin (named : IsName name) (unbroken : name ≠ breakWord) (transpiler : Transpiler)
    (levels : Nat) : transpiler.rewriteWithin (levels + 1) name = pure name := by
  rw [Transpiler.rewriteWithin, named.passes, if_neg unbroken]

end IsName

/-- The folder of the transpiler, if it has one, is without marks of constructs. -/
def HasPlainFolder (transpiler : Transpiler) : Prop :=
  ∀ folder ∈ transpiler.folder, ∀ c ∈ folder, c ∉ partMarks

/-- A text that may stand in a tag may stand there with a folder before it. -/
theorem held_inFolder {transpiler : Transpiler} (plain : HasPlainFolder transpiler) {reference : Text}
    (held : Held reference) : Held (transpiler.inFolder reference) := by
  rw [Transpiler.inFolder]
  split
  · next folder given =>
    have slash : Held "/" := .of_free (by decide)
    exact ((Held.of_unmarked (plain folder given)).append slash).append held
  · exact held

/-- A reference in a line: the text before it, back to the reference before, and the text between
its underscores. -/
structure Mention where
  before : Text
  content : Text

namespace Mention

/-- The reference with what stands before it. -/
def text (mention : Mention) : Text :=
  mention.before ++ ('_' :: '_' :: (mention.content ++ ['_', '_']))

/-- The underscores are those of the reference, and the text between them may be one. -/
structure Proper (mention : Mention) : Prop where
  before : ∀ c ∈ mention.before, c ≠ '_' ∧ ¬ Brackets.tags.Mentions c ∧ c ≠ '\\'
  solid : Text.IsSolid mention.content
  grouped : Grouped Brackets.tagsAndBraces (· ≠ '_') mention.content

/-- What stands before the reference without its count, and what is written for the reference. -/
def counted (mention : Mention) : Text × Text :=
  match if (Head.split? mention.content).isSome then none
      else Reference.leadingCount? mention.before with
  | some (kept, count) => (kept, count ++ "$$" ++ mention.content)
  | none => (mention.before, mention.content)

variable {before content : Text}

/-- A reference with a head of its own takes no count. -/
theorem counted_headed (headed : (Head.split? content).isSome = true) :
    counted ⟨before, content⟩ = (before, content) := by
  rw [counted, if_pos headed]

/-- A reference takes no count where none ends the text before it. -/
theorem counted_none (uncounted : Reference.leadingCount? before = none) :
    counted ⟨before, content⟩ = (before, content) := by
  rw [counted, uncounted, ite_self]

/-- A reference without a head takes the count that ends the text before it. -/
theorem counted_some {kept count : Text} (headless : Head.split? content = none)
    (taken : Reference.leadingCount? before = some (kept, count)) :
    counted ⟨before, content⟩ = (kept, count ++ '$' :: '$' :: content) := by
  rw [counted, headless, Option.isSome_none, if_neg Bool.false_ne_true, taken]
  exact Prod.ext rfl (List.append_assoc count ['$', '$'] content)

end Mention

/-- A line with references and a text behind the last. -/
def mentioning (mentions : List Mention) (last : Text) : Text :=
  mentions.flatMap Mention.text ++ last

namespace Reference

/-- A text that neither begins nor ends with a blank may be a reference. -/
theorem isTrimmed_of_solid {content : Text} (solid : Text.IsSolid content) :
    isTrimmed content = true := by
  have first := List.head?_eq_some_head solid.filled
  have last := List.getLast?_eq_some_getLast solid.filled
  rw [isTrimmed, first, last]
  simp [solid.starts _ first, solid.ends _ last]

/-- A reference is found where its underscores begin. -/
theorem pieces_found {content rest : Text} (trimmed : isTrimmed content = true)
    (cut : cutTopLevel? "__" Brackets.tagsAndBraces (content ++ ('_' :: '_' :: rest)) =
      some (content, rest)) {cursor : Cursor} (ready : cursor.Ready none) :
    pieces cursor ('_' :: '_' :: (content ++ ('_' :: '_' :: rest))) =
      .found content :: pieces (cursor.past '_') rest := by
  have free : cursor.isFree '_' = true := by
    simp [Cursor.isFree, standsOutside, ready.outside, ready.unescaped]
  rw [pieces, if_pos free]
  split
  · next content' after found =>
    obtain ⟨rfl, rfl⟩ := Prod.mk.inj (Option.some.inj (cut.symm.trans found))
    rw [if_pos trimmed]
  · next missed => exact absurd (missed.symm.trans cut) (Option.some_ne_none _).symm

/-- Characters that are passed are held back. -/
theorem writeAll_run (pass : Pass) (held run : Text) (rest : List (Piece Text)) :
    writeAll pass held (run.map Piece.plain ++ rest) = writeAll pass (run.reverse ++ held) rest := by
  induction run generalizing held with
  | nil => rfl
  | cons c run inductionHypothesis =>
    rw [List.map_cons, List.cons_append, writeAll, inductionHypothesis]
    simp

/-- A reference is written behind what stands before it, and what follows it behind the
reference. -/
theorem writeAll_found (pass : Pass) (mention : Mention) (rest : List (Piece Text)) :
    writeAll pass [] (mention.before.map Piece.plain ++ .found mention.content :: rest) = do
      let first ← write pass mention.counted.2
      let others ← writeAll pass [] rest
      return mention.counted.1 ++ first ++ others := by
  rw [writeAll_run, List.append_nil, writeAll, List.reverse_reverse]
  rfl

/-- The directive of a draw is one tag. -/
theorem drawDirective_eq (argument reference suffix : Text) :
    drawDirective argument reference suffix =
      '<' :: (("wcwildcard".toList ++ (argument ++ ':' :: (reference ++ suffix))) ++ ['>']) := by
  have colon : ":".toList = [':'] := rfl
  have closing : ">".toList = ['>'] := rfl
  unfold drawDirective
  simp only [colon, closing, List.append_assoc, List.cons_append, List.nil_append]
  rfl

/-- A text without quotation marks has no filter. -/
theorem splitFilter_unquoted {text : Text} (unquoted : ∀ c ∈ text, c ∉ "\x22\x27".toList) :
    splitFilter text = (text, none) := by
  have unended : endQuote? text = none := by
    rw [endQuote?]
    split
    · rfl
    · next quote last =>
      have plain := unquoted quote (List.mem_of_getLast? last)
      rw [if_neg]
      rintro ⟨rfl | rfl, _⟩
      · exact plain (by decide)
      · exact plain (by decide)
  rw [splitFilter, unended]

/-- A name is no filter. -/
theorem splitFilter_name {name : Text} (named : IsName name) : splitFilter name = (name, none) := by
  have marks : ∀ c ∈ "\x22\x27".toList, c ∈ ",*\x22\x27".toList := by decide
  exact splitFilter_unquoted fun c member quote => named.unquoted c member (marks c quote)

/-- A name and the filter between the quotation marks behind it are told apart. -/
theorem splitFilter_quoted {name filter : Text} {quote : Char} (quotes : quote = '\x22' ∨ quote = '\x27')
    (grouped : Grouped Brackets.tagsAndBraces (· ≠ quote) name) (unescaping : '\\' ∉ filter) :
    splitFilter (name ++ quote :: (filter ++ [quote])) = (name, some filter) := by
  have bare : quote ≠ '\\' ∧ ¬ Brackets.tagsAndBraces.Mentions quote := by
    rcases quotes with rfl | rfl <;> decide
  have whole : name ++ quote :: (filter ++ [quote]) = (name ++ quote :: filter) ++ [quote] := by simp
  have unescaped : isEscapedAfter (name ++ quote :: filter) = false := by
    refine foldl_escapes_plain ?_
    rw [List.mem_append, List.mem_cons, not_or, not_or]
    exact ⟨grouped.unescaped, bare.1.symm, unescaping⟩
  have quoted : endQuote? (name ++ quote :: (filter ++ [quote])) =
      some (quote, name ++ quote :: filter) := by
    rw [endQuote?, whole, List.getLast?_concat, List.dropLast_concat, unescaped]
    exact if_pos ⟨quotes, rfl⟩
  have cut : cutTopLevel? [quote] Brackets.tagsAndBraces (name ++ quote :: filter) =
      some (name, filter) := cutTopLevelFrom?_grouped bare.2 grouped (fun _ other => other) filter
  rw [splitFilter, quoted]
  dsimp only
  rw [cut]

/-- Without two neighbouring dollar signs there is no count before a reference. -/
theorem leadingCount?_of_apart {before : Text} (apart : ¬ ['$', '$'] <:+: before) :
    leadingCount? before = none := by
  rw [leadingCount?]
  split
  · next reversed whole =>
    have ends : before = reversed.reverse ++ ['$', '$'] := by
      rw [← List.reverse_reverse before, whole]
      simp
    exact absurd ⟨reversed.reverse, [], by rw [ends, List.append_nil]⟩ apart
  · rfl

/-- A name is no glob, and the mark of the empty text is none. -/
theorem isGlob_name {name written : Text} (named : IsName name)
    (handed : written = name ∨ written = emptyMark) : isGlob written = false := by
  have starless : '*' ∉ written := by
    rcases handed with rfl | rfl
    · exact fun member => named.unquoted '*' member (by decide)
    · decide
  rw [isGlob, List.contains_eq_mem, decide_eq_false starless]

/-- The references of a line are written one after the other.

The cursor behind a reference need not be at the start of the line, but it is ready for the next
reference, which carries the induction over the references. -/
theorem rewrite_mentioning (pass : Pass) {mentions : List Mention} {last : Text}
    (proper : ∀ mention ∈ mentions, mention.Proper) (apart : ¬ ['_', '_'] <:+: last) :
    rewrite pass (mentioning mentions last) = do
      let texts ← mentions.mapM fun mention => do
        let first ← write pass mention.counted.2
        return mention.counted.1 ++ first
      return texts.flatten ++ last := by
  rw [rewrite]
  generalize begins : Cursor.start = cursor
  have ready : cursor.Ready none := begins ▸ Cursor.ready_start none
  clear begins
  induction mentions generalizing cursor with
  | nil =>
    rw [mentioning, List.flatMap_nil, List.nil_append, pieces_of_apart apart, writeAll_plain]
    rfl
  | cons mention others inductionHypothesis =>
    have first := proper mention List.mem_cons_self
    have whole : mentioning (mention :: others) last =
        mention.before ++ ('_' :: '_' :: (mention.content ++ ('_' :: '_' ::
          mentioning others last))) := by
      simp [mentioning, Mention.text]
    obtain ⟨cursor', ready', passed⟩ := pieces_run first.before ready
      ('_' :: '_' :: (mention.content ++ ('_' :: '_' :: mentioning others last)))
    have onward : (cursor'.past '_').Ready none := ⟨ready'.outside, rfl, .inl rfl⟩
    have cut : cutTopLevel? "__" Brackets.tagsAndBraces
        (mention.content ++ ('_' :: '_' :: mentioning others last)) =
          some (mention.content, mentioning others last) :=
      cutTopLevelFrom?_grouped (by decide) first.grouped (fun _ bare => bare) _
    rw [whole, passed, pieces_found (isTrimmed_of_solid first.solid) cut ready', writeAll_found,
      inductionHypothesis (fun other member => proper other (List.mem_cons_of_mem mention member))
        (cursor'.past '_') onward, List.mapM_cons]
    simp

/-- A line with one reference. -/
theorem rewrite_single {pass : Pass} {mention : Mention} {last written : Text}
    {raised : Reporting PUnit} (proper : mention.Proper) (apart : ¬ ['_', '_'] <:+: last)
    (writes : write pass mention.counted.2 = (raised >>= fun _ => pure written)) :
    rewrite pass (mentioning [mention] last) =
      (raised >>= fun _ => pure (mention.counted.1 ++ (written ++ last))) := by
  have alone : ∀ other ∈ [mention], other.Proper := by
    intro other member
    rw [List.mem_singleton.1 member]
    exact proper
  rw [rewrite_mentioning pass alone apart, List.mapM_cons, List.mapM_nil, writes]
  simp

end Reference

/-- A line that begins with neither a blank nor a quotation mark has no labels. -/
theorem clauseLabels_of_first {line : Text}
    (first : ∀ c ∈ line.head?, isBlank c = false ∧ c ≠ '\x22' ∧ c ≠ '\x27') :
    clauseLabels line = line := by
  cases line with
  | nil => rfl
  | cons c rest =>
    obtain ⟨visible, noDouble, noSingle⟩ := first c rfl
    have kept : Text.trimStart (c :: rest) = c :: rest :=
      List.dropWhile_cons_of_neg (by simp [visible])
    apply clauseLabels_of_unlabelled
    rw [kept]
    rintro quote ⟨⟩
    exact ⟨noDouble, noSingle⟩

end DynamicPrompt.Source
