import DynamicPrompt.Proofs.Source.Break
import DynamicPrompt.Proofs.Source.Constructless
import DynamicPrompt.Proofs.Source.Enclosure
import DynamicPrompt.Proofs.Template.RoundTrip

/-!
# Plain parts of constructs

A part of a construct is plain if it has none of the characters that begin or end a construct and
does not hold the break keyword. Bars and quotation marks may stand in it. No pass changes a plain
part, so it is handed on as it is, or as the mark of the empty text; and wherever it is put into a
tag, the tag is read with that part in its place.
-/

namespace DynamicPrompt.Source

/-- The characters with a meaning of their own inside constructs, other than the bar. -/
def partMarks : Text := "<>[]\x7b\x7d():$_\\"

/-- A text without the marks of constructs and without the break keyword. -/
structure Plain (text : Text) : Prop where
  unmarked : ∀ c ∈ text, c ∉ partMarks
  unbroken : Unbroken text

instance (text : Text) : Decidable (Plain text) :=
  decidable_of_iff ((∀ c ∈ text, c ∉ partMarks) ∧ Unbroken text)
    ⟨fun both => ⟨both.1, both.2⟩, fun plain => ⟨plain.unmarked, plain.unbroken⟩⟩

/-- A line without the marks of a pass over enclosed constructs is left alone by it. -/
theorem Rewritten.of_unmarked {write : Text → Reporting Text} {opener closer : Char}
    {barred : Option Char} {text : Text}
    (unmarked : ∀ c ∈ text, c ≠ opener ∧ ¬ Brackets.tags.Mentions c ∧ c ≠ '\\' ∧ some c ≠ barred) :
    Rewritten write opener closer barred text text := by
  induction text with
  | nil => exact .nil
  | cons c rest inductionHypothesis =>
    obtain ⟨noOpener, unmentioned, unescaping, unbarred⟩ := unmarked c List.mem_cons_self
    exact .plain noOpener unmentioned unescaping unbarred
      (inductionHypothesis fun d member => unmarked d (List.mem_cons_of_mem c member))

/-- The tag of the empty text. -/
def emptyTag : Directive := ⟨"comment", none, some "empty"⟩

/-- The tag of the empty text is written as its mark. -/
theorem print_emptyTag : emptyTag.print = emptyMark := by decide

/-- The head of the tag of the empty text is plain. -/
theorem emptyTag_head : Template.HasPlainHead emptyTag.name emptyTag.argument :=
  ⟨by decide, fun text given => absurd given (Option.not_mem_none text)⟩

/-- The body of the tag of the empty text is read back. -/
theorem emptyTag_body : ∀ body ∈ emptyTag.body, Template.ReadsBack body := by
  intro body given
  obtain rfl : "empty".toList = body := Option.some.inj given
  have letters : "empty".toList.all Template.isPlain = true := by decide
  exact Template.readsBack_literal letters Template.readsBack_nil

namespace Plain

variable {text : Text}

/-- A mark stands nowhere in a plain text. -/
theorem absent (plain : Plain text) {mark : Char} (marks : mark ∈ partMarks) : mark ∉ text :=
  fun member => plain.unmarked mark member marks

/-- A character of a plain text is no mark. -/
theorem ne (plain : Plain text) {c mark : Char} (member : c ∈ text) (marks : mark ∈ partMarks) :
    c ≠ mark := fun same => plain.unmarked c member (same ▸ marks)

/-- No bracket in use stands in a plain text. -/
theorem unmentioned (plain : Plain text) {brackets : Brackets} (known : brackets.Known) {c : Char}
    (member : c ∈ text) : ¬ brackets.Mentions c := by
  intro mentioned
  have marks : ∀ d ∈ "<>[]\x7b\x7d()".toList, d ∈ partMarks := by decide
  exact plain.unmarked c member (marks c (known.mentions mentioned))

/-- A plain text is grouped. -/
theorem grouped (plain : Plain text) {brackets : Brackets} (known : brackets.Known)
    {bare : Char → Prop} (outside : ∀ c ∈ text, bare c) : Grouped brackets bare text :=
  .of_unmentioned fun c member =>
    ⟨outside c member, plain.unmentioned known member, plain.ne member (by decide)⟩

/-- A plain text is plain in a template, too. -/
theorem literal (plain : Plain text) : text.all Template.isPlain = true := by
  rw [List.all_eq_true]
  intro c member
  have noOpener : c ≠ '<' := plain.ne member (by decide)
  have noCloser : c ≠ '>' := plain.ne member (by decide)
  have unescaping : c ≠ '\\' := plain.ne member (by decide)
  simp [Template.isPlain, noOpener, noCloser, unescaping]

/-- A plain text is plain in an argument, too. -/
theorem argument (plain : Plain text) : text.all Template.isPlainArgument = true := by
  rw [List.all_eq_true]
  intro c member
  have literal := List.all_eq_true.1 plain.literal c member
  have noOpener : c ≠ '[' := plain.ne member (by decide)
  have noCloser : c ≠ ']' := plain.ne member (by decide)
  simp [Template.isPlainArgument, literal, noOpener, noCloser]

/-- No pass changes a plain text. -/
theorem passes (plain : Plain text) (pass : Pass) : Transpiler.passes pass text = pure text := by
  have unmentioned : ∀ c ∈ text, ¬ Brackets.tags.Mentions c :=
    fun c member => plain.unmentioned (.inl rfl) member
  have unescaping : ∀ c ∈ text, c ≠ '\\' := fun c member => plain.ne member (by decide)
  have quiet : Quiet text := .of_absent (plain.absent (by decide))
  apply passes_parts (Reference.apart_of_absent (plain.absent (by decide)))
    (VariableUse.rewrite_of_absent pass (plain.absent (by decide)))
    (Block.rewrite_of_absent pass quiet.absent) _
    (markBreaks_of_absent plain.unbroken)
  · apply Rewritten.of_unmarked
    intro c member
    refine ⟨plain.ne member (by decide), unmentioned c member, unescaping c member, ?_⟩
    exact fun barred => plain.ne member (by decide) (Option.some.inj barred)
  · apply Rewritten.of_unmarked
    intro c member
    exact ⟨plain.ne member (by decide), unmentioned c member, unescaping c member,
      Option.some_ne_none c⟩

/-- With a level left a plain part is filled in as it is, or as the mark of the empty text. -/
theorem filled (plain : Plain text) (transpiler : Transpiler) (levels : Nat) :
    Pass.filled ⟨transpiler, transpiler.rewriteWithin (levels + 1)⟩ text = pure (orEmpty text) := by
  have rewritten : transpiler.rewriteWithin (levels + 1) text = pure text := by
    rw [Transpiler.rewriteWithin, plain.passes]
  rw [Pass.filled]
  dsimp only
  rw [rewritten, pure_bind]

/-- What stands for a plain part is grouped. -/
theorem grouped_orEmpty (plain : Plain text) {brackets : Brackets} (known : brackets.Known)
    {bare : Char → Prop} (outside : ∀ c ∈ text, bare c) :
    Grouped brackets bare (orEmpty text) := by
  rw [orEmpty]
  split
  · have letters : ∀ c ∈ "comment:empty".toList, c ∉ "<>[]\x7b\x7d()".toList ∧ c ≠ '\\' := by
      decide
    have inside : Grouped brackets (fun _ => True) "comment:empty" :=
      .of_unmentioned fun c member =>
        ⟨trivial, fun mentioned => (letters c member).1 (known.mentions mentioned),
          (letters c member).2⟩
    exact .group known.angle inside .nil
  · exact plain.grouped known outside

/-- What stands for a plain part is read back before a body that is read back. -/
theorem readsBack_orEmpty (plain : Plain text) {others : Text}
    (readsBack : Template.ReadsBack others) : Template.ReadsBack (orEmpty text ++ others) := by
  rw [orEmpty]
  split
  · rw [← print_emptyTag]
    exact Template.readsBack_directive emptyTag_head.readable emptyTag_body readsBack
  · exact Template.readsBack_literal plain.literal readsBack

/-- What stands for a plain part is read back as an argument. -/
theorem readsBackArgument_orEmpty (plain : Plain text) :
    Template.ReadsBackArgument (orEmpty text) := by
  rw [orEmpty]
  split
  · rw [← print_emptyTag]
    exact Template.readsBackArgument_directive emptyTag_head.readable emptyTag_body
  · exact Template.argument_print plain.argument

end Plain

section Filled

variable {parts : List Text}

/-- What stands for plain parts is read back with a separator between them. -/
theorem readsBack_filled {separator : Text} (between : separator.all Template.isPlain = true)
    (each : ∀ part ∈ parts, Plain part) :
    Template.ReadsBack (Text.join separator (parts.map orEmpty)) := by
  apply Template.readsBack_join between
  rw [List.forall_mem_map]
  exact fun part member others readsBack => (each part member).readsBack_orEmpty readsBack

/-- What stands for plain parts without bars has none outside the marks. -/
theorem grouped_filled (each : ∀ part ∈ parts, Plain part ∧ '|' ∉ part) :
    ∀ filled ∈ parts.map orEmpty, Grouped Brackets.tags (· ≠ '|') filled := by
  rw [List.forall_mem_map]
  intro part member
  apply (each part member).1.grouped_orEmpty (.inl rfl)
  rintro c inside rfl
  exact (each part member).2 inside

end Filled

/-- Of the characters with a meaning of their own inside constructs only one stands in the text. -/
def MarkedOnly (mark : Char) (text : Text) : Prop := ∀ c ∈ text, c ∈ partMarks → c = mark

instance (mark : Char) (text : Text) : Decidable (MarkedOnly mark text) :=
  Text.decidableForallMem text fun c => c ∈ partMarks → c = mark

namespace MarkedOnly

variable {mark : Char} {text : Text}

/-- A plain text has none of the marks at all. -/
theorem of_plain (plain : Plain text) : MarkedOnly mark text :=
  fun c member marks => absurd marks (plain.unmarked c member)

/-- Texts one after the other. -/
theorem append {rest : Text} (front : MarkedOnly mark text) (back : MarkedOnly mark rest) :
    MarkedOnly mark (text ++ rest) :=
  fun c member => (List.mem_append.1 member).elim (front c) (back c)

/-- Plain texts with a separator between them. -/
theorem join {separator : Text} {parts : List Text} (between : MarkedOnly mark separator)
    (each : ∀ part ∈ parts, Plain part) : MarkedOnly mark (Text.join separator parts) :=
  Text.join_of_parts (fun _ member => absurd member List.not_mem_nil) append between
    fun part member => of_plain (each part member)

/-- No other mark stands in the text. -/
theorem absent (marked : MarkedOnly mark text) {other : Char} (marks : other ∈ partMarks)
    (differ : other ≠ mark) : other ∉ text :=
  fun member => differ (marked other member marks)

/-- No other mark stands in the line of a construct, the brackets of the construct apart. -/
theorem absent_line (marked : MarkedOnly mark text) {opener closer other : Char}
    (marks : other ∈ partMarks) (differ : other ≠ mark) (noOpener : other ≠ opener)
    (noCloser : other ≠ closer) : other ∉ opener :: (text ++ [closer]) := by
  simp only [List.mem_cons, List.mem_append, List.not_mem_nil, or_false, not_or]
  exact ⟨noOpener, marked.absent marks differ, noCloser⟩

/-- The text is grouped if the mark is no bracket and no backslash. -/
theorem grouped (marked : MarkedOnly mark text) (harmless : mark ∉ "<>[]\x7b\x7d()\\".toList)
    {brackets : Brackets} (known : brackets.Known) : Grouped brackets (fun _ => True) text := by
  have marks : ∀ d ∈ "<>[]\x7b\x7d()\\".toList, d ∈ partMarks := by decide
  have free : ∀ c ∈ text, c ∉ "<>[]\x7b\x7d()\\".toList := by
    intro c member inside
    exact harmless (marked c member (marks c inside) ▸ inside)
  apply Grouped.of_unmentioned
  intro c member
  refine ⟨trivial, ?_, ?_⟩
  · intro mentioned
    have every : ∀ d ∈ "<>[]\x7b\x7d()".toList, d ∈ "<>[]\x7b\x7d()\\".toList := by decide
    exact free c member (every c (known.mentions mentioned))
  · rintro rfl
    exact free '\\' member (by decide)

/-- A line that is one construct, with other text in it than references, variables and tags, is
rewritten by the passes over square brackets and braces alone. -/
theorem transpile_construct (marked : MarkedOnly mark text) {opener closer : Char}
    (harmless : mark ∉ "_<\x7b".toList)
    (outer : isBlank opener = false ∧ opener ∉ "_<$\x22\x27".toList ∧ closer ∉ "_<\x7b".toList)
    {transpiler : Transpiler} {levels : Nat} (limit : transpiler.limit = levels + 1)
    {between result : Text}
    (brackets : Rewritten (Bracketed.write ⟨transpiler, transpiler.rewriteWithin levels⟩)
      '[' ']' none (opener :: (text ++ [closer])) between)
    (unbroken : markBreaks Cursor.start between = between)
    (braces : Rewritten (Variant.write ⟨transpiler, transpiler.rewriteWithin levels⟩)
      '\x7b' '\x7d' (some '$') between result) :
    transpiler.transpile (opener :: (text ++ [closer])) = pure result := by
  obtain ⟨visible, opens, closes⟩ := outer
  have absent : ∀ other ∈ "_<".toList, other ∉ opener :: (text ++ [closer]) := by
    have marks : ∀ other ∈ "_<".toList, other ∈ partMarks ∧ other ∈ "_<\x7b".toList ∧
        other ∈ "_<$\x22\x27".toList := by decide
    intro other member
    obtain ⟨isMark, among, apart⟩ := marks other member
    apply marked.absent_line isMark
    · rintro rfl
      exact harmless among
    · rintro rfl
      exact opens apart
    · rintro rfl
      exact closes among
  have unlabelled : clauseLabels (opener :: (text ++ [closer])) = opener :: (text ++ [closer]) := by
    apply clauseLabels_of_unlabelled
    intro quote starts
    have kept : Text.trimStart (opener :: (text ++ [closer])) = opener :: (text ++ [closer]) :=
      List.dropWhile_cons_of_neg (by simp [visible])
    rw [kept] at starts
    obtain rfl : opener = quote := Option.some.inj starts
    constructor
    · rintro rfl
      exact opens (by decide)
    · rintro rfl
      exact opens (by decide)
  have unopened : ¬ ['$', '\x7b'] <:+: opener :: (text ++ [closer]) := by
    -- A brace that opens a variable would stand in the text or be its closer.
    intro inside
    rcases List.infix_cons_iff.1 inside with begins | later
    · obtain rfl : '$' = opener := (List.cons_prefix_cons.1 begins).1
      exact opens (by decide)
    · have within := later.subset (List.mem_cons_of_mem _ List.mem_cons_self)
      rcases List.mem_append.1 within with between | closing
      · refine marked.absent (by decide) ?_ between
        rintro rfl
        exact harmless (by decide)
      · obtain rfl := List.mem_singleton.1 closing
        exact closes (by decide)
  have quiet : Quiet (opener :: (text ++ [closer])) := .of_absent (absent '<' (by decide))
  rw [Transpiler.transpile, unlabelled, limit, Transpiler.rewriteWithin]
  exact passes_parts (Reference.apart_of_absent (absent '_' (by decide)))
    (VariableUse.rewrite_of_unopened _ unopened) (Block.rewrite_of_absent _ quiet.absent) brackets
    unbroken braces

end MarkedOnly

end DynamicPrompt.Source
