import DynamicPrompt.Proofs.Source.Plain

/-!
# Lines that are settled

The pass over wildcard references comes first and puts tags into the line, and the passes after it
read what it has written. They find nothing to rewrite in a line of plain texts and tags, if the
tags hold neither dollar signs nor commands and their brackets are nested pairs. Braces and square
brackets inside a tag do not matter, and the break keyword inside a tag is not one.
-/

namespace DynamicPrompt.Source

/-- The passes that follow the one over references. -/
def afterReferences (pass : Pass) (text : Text) : Reporting Text := do
  let text ← VariableUse.rewrite pass text
  let text ← Block.rewrite pass text
  let text ← Bracketed.rewrite pass text
  Variant.rewrite pass (markBreaks Cursor.start text)

/-- The passes are the one over references and those that follow it. -/
theorem passes_eq_references (pass : Pass) (text : Text) :
    Transpiler.passes pass text = Reference.rewrite pass text >>= afterReferences pass := rfl

namespace Reference

/-- A character other than an underscore is passed. -/
theorem pieces_other {c : Char} (other : c ≠ '_') (cursor : Cursor) (rest : Text) :
    pieces cursor (c :: rest) = .plain c :: pieces (cursor.after c) rest := by
  rw [pieces]
  rintro following rfl
  exact absurd rfl other

/-- A text without underscores, tags and escapes is passed. -/
theorem pieces_run {run : Text}
    (plain : ∀ c ∈ run, c ≠ '_' ∧ ¬ Brackets.tags.Mentions c ∧ c ≠ '\\') {cursor : Cursor}
    (ready : cursor.Ready none) (rest : Text) :
    ∃ cursor' : Cursor, cursor'.Ready none ∧
      pieces cursor (run ++ rest) = run.map Piece.plain ++ pieces cursor' rest := by
  induction run generalizing cursor with
  | nil => exact ⟨cursor, ready, rfl⟩
  | cons c run inductionHypothesis =>
    obtain ⟨other, unmentioned, unescaping⟩ := plain c List.mem_cons_self
    have onward : (cursor.after c).Ready none := ready.after unmentioned unescaping (.inl rfl)
    obtain ⟨cursor', ready', passed⟩ :=
      inductionHypothesis (fun d member => plain d (List.mem_cons_of_mem c member)) onward
    exact ⟨cursor', ready', by rw [List.cons_append, pieces_other other, passed]; rfl⟩

/-- References begin only where a character is free. -/
theorem pieces_keepsHeld : KeepsHeld pieces Piece.plain := by
  intro cursor c rest held
  by_cases underscores : c = '_' ∧ rest.head? = some '_'
  · obtain ⟨rfl, first⟩ := underscores
    obtain ⟨rest, rfl⟩ := List.head?_eq_some_iff.1 first
    rw [pieces, if_neg (by rw [held]; exact Bool.false_ne_true)]
  · rw [pieces]
    rintro rest rfl rfl
    exact underscores ⟨rfl, rfl⟩

end Reference

/-- The passes after references, put together from what each of them makes of the line. -/
theorem afterReferences_parts {pass : Pass} {text between result : Text}
    (unopened : ¬ ['$', '\x7b'] <:+: text) (quiet : Quiet text)
    (brackets : Rewritten (Bracketed.write pass) '[' ']' none text between)
    (braces : Rewritten (Variant.write pass) '\x7b' '\x7d' (some '$')
      (markBreaks Cursor.start between) result) :
    afterReferences pass text = pure result := by
  rw [afterReferences, VariableUse.rewrite_of_unopened pass unopened, pure_bind,
    Block.rewrite_of_absent pass quiet.absent, pure_bind, Bracketed.rewrite_parts brackets, pure_bind,
    Variant.rewrite_parts braces]

/-- The characters that a text in a tag may only have in nested pairs, or not at all. -/
def tagMarks : Text := "<>\x7b\x7d$\\"

/-- A text that the passes leave alone wherever it stands in a tag. -/
structure Held (content : Text) : Prop where
  tags : Grouped Brackets.tags (fun _ => True) content
  braces : Grouped Brackets.tagsAndBraces (fun _ => True) content
  undollared : '$' ∉ content
  quiet : Quiet content

namespace Held

variable {content rest : Text}

/-- The empty text. -/
theorem nil : Held [] where
  tags := .nil
  braces := .nil
  undollared := List.not_mem_nil
  quiet := .nil

/-- Texts one after the other. -/
theorem append (front : Held content) (back : Held rest) : Held (content ++ rest) where
  tags := front.tags.append back.tags
  braces := front.braces.append back.braces
  undollared := by
    rw [List.mem_append, not_or]
    exact ⟨front.undollared, back.undollared⟩
  quiet := front.quiet.append back.quiet

/-- A text without angle brackets, braces, dollar signs and backslashes. -/
theorem of_free (free : ∀ c ∈ content, c ∉ tagMarks) : Held content := by
  have grouped : ∀ brackets : Brackets, (∀ d ∈ brackets.openers ++ brackets.closers, d ∈ tagMarks) →
      Grouped brackets (fun _ => True) content := by
    intro brackets marks
    apply Grouped.of_unmentioned
    intro c member
    refine ⟨trivial, fun mentioned => free c member (marks c (List.mem_append.2 mentioned)), ?_⟩
    rintro rfl
    exact free '\\' member (by decide)
  exact {
    tags := grouped Brackets.tags (by decide)
    braces := grouped Brackets.tagsAndBraces (by decide)
    undollared := fun member => free '$' member (by decide)
    quiet := .of_absent fun member => free '<' member (by decide) }

/-- A text without marks of constructs. -/
theorem of_unmarked (unmarked : ∀ c ∈ content, c ∉ partMarks) : Held content := by
  have marks : ∀ d ∈ tagMarks, d ∈ partMarks := by decide
  exact of_free fun c member inside => unmarked c member (marks c inside)

/-- A tag whose name begins with no letter of a command, with text after it. -/
theorem tag {name : Text} (harmless : name.head?.map (sameLetter 'p') = some false)
    (letters : ∀ c ∈ name, c ∉ tagMarks) (inside : Held content)
    (others : Held rest) : Held ('<' :: ((name ++ content) ++ '>' :: rest)) where
  tags := .group (Brackets.Known.angle (.inl rfl)) ((of_free letters).append inside).tags others.tags
  braces := .group (Brackets.Known.angle (.inr (.inl rfl))) ((of_free letters).append inside).braces
    others.braces
  undollared := by
    have named := ((of_free letters).append inside).undollared
    simp only [List.mem_cons, List.mem_append, not_or] at named ⊢
    exact ⟨by decide, named, by decide, others.undollared⟩
  quiet := by
    refine .tag harmless ?_ inside.quiet others.quiet
    exact fun member => letters '<' member (by decide)

end Held

/-- The characters that begin or end something outside tags. -/
def bareMarks : Text := "<>[]\x7b\x7d"

/-- Lines in which neither a bracket nor a reference stands outside the tags, unless it is escaped. The
angle brackets of a tag are nested pairs. -/
inductive Bare : Text → Prop where
  | nil : Bare []
  | char {c : Char} {rest : Text} (unmarked : c ∉ bareMarks) (unescaping : c ≠ '\\')
      (single : c = '_' → rest.head? ≠ some '_') (others : Bare rest) : Bare (c :: rest)
  | escaped {c : Char} {rest : Text} (noOpener : c ≠ '<') (noCloser : c ≠ '>')
      (others : Bare rest) : Bare ('\\' :: c :: rest)
  | tag {inner rest : Text} (angled : Angled inner) (others : Bare rest) :
      Bare ('<' :: (inner ++ '>' :: rest))

namespace Bare

variable {line : Text}

/-- A text without marks of constructs. -/
theorem of_unmarked {text : Text} (unmarked : ∀ c ∈ text, c ∉ partMarks) : Bare text := by
  have marks : ∀ d ∈ '\\' :: '_' :: bareMarks, d ∈ partMarks := by decide
  induction text with
  | nil => exact .nil
  | cons c text inductionHypothesis =>
    have apart : c ∉ '\\' :: '_' :: bareMarks :=
      fun inside => unmarked c List.mem_cons_self (marks c inside)
    rw [List.mem_cons, List.mem_cons, not_or, not_or] at apart
    exact .char apart.2.2 apart.1 (fun same => absurd same apart.2.1)
      (inductionHypothesis fun d member => unmarked d (List.mem_cons_of_mem c member))

/-- Such lines one after the other, if the second does not begin with an underscore. -/
theorem append {front : Text} (before : Bare front) (bare : Bare line)
    (apart : line.head? ≠ some '_') : Bare (front ++ line) := by
  induction before with
  | nil => exact bare
  | @char c rest unmarked unescaping single _ inductionHypothesis =>
    refine .char unmarked unescaping (fun same => ?_) inductionHypothesis
    cases rest with
    | nil => exact apart
    | cons d rest => exact single same
  | escaped noOpener noCloser _ inductionHypothesis =>
    exact .escaped noOpener noCloser inductionHypothesis
  | tag angled _ inductionHypothesis =>
    rw [List.cons_append, List.append_assoc, List.cons_append]
    exact .tag angled inductionHypothesis

/-- A reader that keeps what is held, and looks for nothing but brackets and references, keeps every
character. -/
theorem read {α : Type} {read : Cursor → Text → List (Piece α)}
    (keeps : KeepsHeld read Piece.plain) (ends : ∀ cursor, read cursor [] = [])
    (passes : ∀ cursor c rest, c ∉ bareMarks → (c = '_' → rest.head? ≠ some '_') →
      read cursor (c :: rest) = .plain c :: read (cursor.after c) rest)
    (bare : Bare line) {cursor : Cursor} (ready : cursor.Ready none) :
    read cursor line = line.map Piece.plain := by
  induction bare generalizing cursor with
  | nil => exact ends cursor
  | @char c rest unmarked unescaping single _ inductionHypothesis =>
    have marks : ∀ d, Brackets.tags.Mentions d → d ∈ bareMarks := by
      rintro d (opens | closes)
      · rw [List.mem_singleton.1 opens]
        decide
      · rw [List.mem_singleton.1 closes]
        decide
    have onward : (cursor.after c).Ready none :=
      ready.after (fun mentioned => unmarked (marks c mentioned)) unescaping (.inl rfl)
    rw [passes cursor c rest unmarked single, inductionHypothesis onward]
    rfl
  | @escaped c rest noOpener noCloser _ inductionHypothesis =>
    have held : (cursor.after '\\').isFree c = false := by
      simp [Cursor.after, Cursor.isFree, escapes, ready.unescaped]
    have onward : ((cursor.after '\\').after c).Ready none := by
      refine ⟨?_, ?_, .inl rfl⟩
      · simp [Cursor.after, tagDepthAfter, noOpener, noCloser, ready.outside]
      · simp [Cursor.after, escapes, ready.unescaped]
    rw [passes cursor '\\' _ (by decide) (fun same => absurd same (by decide)), keeps _ _ _ held,
      inductionHypothesis onward]
    rfl
  | @tag inner rest angled _ inductionHypothesis =>
    have onward : Cursor.Ready ⟨0, false, some '>'⟩ none := ⟨rfl, rfl, .inl rfl⟩
    rw [keeps.tag angled ready.outside, inductionHypothesis onward]
    simp

/-- No construct between brackets of the kinds in use begins in such a line. -/
theorem enclosures {opener closer : Char} {barred : Option Char} (bare : Bare line)
    (marked : opener ∈ bareMarks) :
    enclosures opener closer barred Cursor.start line = line.map Piece.plain := by
  refine bare.read enclosures_keepsHeld (fun _ => by rw [DynamicPrompt.Source.enclosures]) ?_
    (Cursor.ready_start none)
  intro cursor c rest unmarked _
  refine enclosures_passed (.inl ?_) rest
  rintro rfl
  exact unmarked marked

/-- No reference begins in such a line. -/
theorem pieces (bare : Bare line) :
    Reference.pieces Cursor.start line = line.map Piece.plain := by
  refine bare.read Reference.pieces_keepsHeld (fun _ => by rw [Reference.pieces]) ?_
    (Cursor.ready_start none)
  intro cursor c rest _ single
  rw [Reference.pieces]
  rintro following rfl rfl
  exact single rfl rfl

/-- The pass over square brackets leaves such a line as it is. -/
theorem brackets (bare : Bare line) (pass : Pass) : Bracketed.rewrite pass line = pure line := by
  rw [Bracketed.rewrite, bare.enclosures (by decide), writePieces_plain]

/-- The pass over braces leaves such a line as it is. -/
theorem braces (bare : Bare line) (pass : Pass) : Variant.rewrite pass line = pure line := by
  rw [Variant.rewrite, bare.enclosures (by decide), writePieces_plain]

end Bare

/-- A keyword that is not marked at the beginning of a line is not marked behind a character
either. -/
theorem markBreaks_behind {text : Text} {cursor : Cursor} (outside : cursor.depth = 0)
    (unescaped : cursor.escaped = false) (kept : markBreaks Cursor.start text = text) :
    markBreaks cursor text = text := by
  obtain ⟨depth, escaped, last⟩ := cursor
  obtain rfl : depth = 0 := outside
  obtain rfl : escaped = false := unescaped
  cases text with
  | nil => rw [markBreaks]
  | cons c rest =>
    have same : Cursor.after ⟨0, false, last⟩ c = Cursor.start.after c := rfl
    rw [markBreaks] at kept ⊢
    split
    · next missed =>
      split at kept
      · rwa [same]
      · next found => exact absurd (missed.symm.trans found) (Option.some_ne_none _).symm
    · next after begins =>
      split at kept
      · next missed => exact absurd (begins.symm.trans missed) (Option.some_ne_none _)
      · next after' begins' =>
        obtain rfl : after = after' := Option.some.inj (begins.symm.trans begins')
        split at kept
        · -- The mark begins with a bracket and the keyword does not.
          obtain rfl : '<' = c := (List.cons.inj kept).1
          exact absurd (Text.after?_eq_some_iff.1 begins) (by simp [breakWord])
        · next alone =>
          have beside : ¬ (Cursor.isFree ⟨0, false, last⟩ c && bordersBreak last &&
              bordersBreak after.head?) = true := by
            intro borders
            rw [Bool.and_eq_true, Bool.and_eq_true] at borders
            obtain ⟨⟨free, _⟩, ends⟩ := borders
            have starts : Cursor.start.isFree c = true := free
            refine alone ?_
            rw [starts, ends]
            rfl
          rw [if_neg beside]
          rwa [same]

/-- A line that holds nothing to rewrite: no construct outside its tags, neither a variable nor a
command anywhere, and no keyword that stands alone. -/
structure Settled (line : Text) : Prop where
  bare : Bare line
  unopened : ¬ ['$', '\x7b'] <:+: line
  uncommanded : Absent commandStart line
  unbroken : markBreaks Cursor.start line = line

namespace Settled

variable {line : Text}

/-- A plain text is settled. -/
theorem plain {text : Text} (plain : Plain text) : Settled text where
  bare := .of_unmarked plain.unmarked
  unopened inside := plain.absent (by decide) (inside.subset List.mem_cons_self)
  uncommanded := (Quiet.of_absent (plain.absent (by decide))).absent
  unbroken := markBreaks_of_absent plain.unbroken

/-- A tag whose content is held, behind a plain text and before a settled one. -/
theorem tag {text name content rest : Text} (plain : Plain text)
    (harmless : name.head?.map (sameLetter 'p') = some false) (letters : ∀ c ∈ name, c ∉ tagMarks)
    (held : Held content) (others : Settled rest) :
    Settled (text ++ '<' :: ((name ++ content) ++ '>' :: rest)) where
  bare := (Bare.of_unmarked plain.unmarked).append
    (.tag (.of_grouped ((Held.of_free letters).append held).tags) others.bare) (by simp)
  unopened := by
    have inside := ((Held.of_free letters).append held).undollared
    have word : '>' ∉ ['$', '\x7b'] ∧ '<' ∉ ['$', '\x7b'] := by decide
    rw [infix_around word.2, infix_around word.1, not_or, not_or]
    refine ⟨fun dollar => ?_, fun dollar => ?_, others.unopened⟩
    · exact plain.absent (by decide) (dollar.subset List.mem_cons_self)
    · exact inside (dollar.subset List.mem_cons_self)
  uncommanded := by
    have quiet : Quiet (text ++ '<' :: ((name ++ content) ++ '>' :: [])) := by
      refine .after (plain.absent (by decide)) (.tag harmless ?_ held.quiet .nil)
      exact fun member => letters '<' member (by decide)
    have whole := quiet.before others.uncommanded
    rwa [List.append_assoc, List.cons_append, List.append_assoc] at whole
  unbroken := by
    have unmentioned : ∀ c ∈ text, ¬ Brackets.tags.Mentions c :=
      fun c member => plain.unmentioned (.inl rfl) member
    have apart : ∀ c ∈ ('<' :: ((name ++ content) ++ '>' :: rest)).head?, c ∉ breakWord := by
      rintro c ⟨⟩
      decide
    have angled : Angled (name ++ content) :=
      .of_grouped ((Held.of_free letters).append held).tags
    obtain ⟨cursor, depth, kept⟩ := markBreaks_run plain.unbroken unmentioned apart Cursor.start
    rw [kept, markBreaks_keepsHeld.tag angled depth, markBreaks_behind rfl rfl others.unbroken,
      List.map_id]
    simp

variable (settled : Settled line) (pass : Pass)

include settled

/-- The pass over references leaves a settled line as it is. -/
theorem references : Reference.rewrite pass line = pure line := by
  rw [Reference.rewrite, settled.bare.pieces, Reference.writeAll_plain]
  rfl

/-- The passes after references leave a settled line as it is, without a warning. -/
theorem afterReferences : afterReferences pass line = pure line := by
  rw [Source.afterReferences, VariableUse.rewrite_of_unopened pass settled.unopened, pure_bind,
    Block.rewrite_of_absent pass settled.uncommanded, pure_bind, settled.bare.brackets, pure_bind,
    settled.unbroken, settled.bare.braces]

/-- All passes leave a settled line as it is. -/
theorem passes : Transpiler.passes pass line = pure line := by
  rw [passes_eq_references, settled.references, pure_bind, settled.afterReferences]

/-- A settled line without labels is left as it is. -/
theorem transpile (unlabelled : clauseLabels line = line) {transpiler : Transpiler}
    (positive : 0 < transpiler.limit) : transpiler.transpile line = pure line := by
  obtain ⟨levels, limit⟩ := Nat.exists_eq_succ_of_ne_zero (Nat.ne_of_gt positive)
  rw [Transpiler.transpile, unlabelled, limit, Transpiler.rewriteWithin, settled.passes]

end Settled

section Tags

variable {name : Text} {argument body : Option Text}
  (harmless : name.head?.map (sameLetter 'p') = some false) (letters : ∀ c ∈ name, c ∉ tagMarks)
  (held : Held (Template.printArgument argument ++ Template.printBody body))

/-- A tag as it is printed, by its name and what stands behind it. -/
theorem print_named (name : Text) (argument body : Option Text) :
    Directive.print ⟨name, argument, body⟩ = [] ++ '<' :: ((name ++
      (Template.printArgument argument ++ Template.printBody body)) ++ '>' :: []) := by
  simp [Template.print_parts]

include harmless letters held

/-- A printed tag whose parts are held may stand in another tag. -/
theorem Held.print : Held (Directive.print ⟨name, argument, body⟩) := by
  rw [print_named]
  exact .tag harmless letters held .nil

/-- A printed tag whose parts are held is settled. -/
theorem Settled.print : Settled (Directive.print ⟨name, argument, body⟩) := by
  have nothing : Plain [] := by decide
  rw [print_named]
  exact .tag nothing harmless letters held (.plain nothing)

end Tags

end DynamicPrompt.Source
