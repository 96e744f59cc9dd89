import DynamicPrompt.Proofs.Template.RoundTrip

/-!
# Matches and cases as syntax

Directive text that is made of plain text, matches and cases is given here as a tree, so that what
it means can be said without reading anything. A case may have a condition, and matches and cases
may stand in each other and in themselves to any depth, a case outside every match included.

The print of a tree is read back piece by piece. Texts that stand next to each other are read as
one literal and empty texts as none, which is why the template of a tree is described by its
characters and not by its texts. Taking the blanks off the print of a tree can be done to the tree
itself: only its outermost texts are touched, and it becomes no larger and no deeper.
-/

namespace DynamicPrompt

/-- A text in which no character has a meaning of its own. -/
structure PlainText where
  content : Text
  plain : content.all Template.isPlain = true

/-- The text without blanks at its start. -/
def PlainText.trimStart (text : PlainText) : PlainText :=
  ⟨Text.trimStart text.content, Text.all_trimStart text.plain⟩

/-- The text without blanks at its end. -/
def PlainText.trimEnd (text : PlainText) : PlainText :=
  ⟨Text.trimEnd text.content, Text.all_trimEnd text.plain⟩

/-- A condition as it is written in the argument of a case: it is not blank, and no character of it
has a meaning of its own there. -/
structure CaseCondition where
  source : Text
  plain : source.all Template.isPlainArgument = true
  filled : (Text.trim source).isEmpty = false

/-- Plain texts, cases and matches one after the other. The bodies of cases and matches are made of
the same. -/
inductive Casework where
  | nil
  | text (content : PlainText) (rest : Casework)
  | caseTag (condition : Option CaseCondition) (body rest : Casework)
  | matchTag (body rest : Casework)

namespace Casework

/-- The tag of a case. -/
def caseDirective (condition : Option CaseCondition) (body : Text) : Directive :=
  ⟨"wccase", condition.map CaseCondition.source, some body⟩

/-- The tag of a match. -/
def matchDirective (body : Text) : Directive := ⟨"wcmatch", none, some body⟩

/-- The tree as directive text. -/
def print : Casework → Text
  | nil => []
  | text content rest => content.content ++ rest.print
  | caseTag condition body rest => (caseDirective condition body.print).print ++ rest.print
  | matchTag body rest => (matchDirective body.print).print ++ rest.print

/-- The pieces of the tree as they are read. -/
def template : Casework → Template
  | nil => []
  | text content rest => content.content.foldr Template.consChar rest.template
  | caseTag condition body rest =>
    .directive (caseDirective condition body.print) :: rest.template
  | matchTag body rest => .directive (matchDirective body.print) :: rest.template

/-- How many tags stand in each other. -/
def depth : Casework → Nat
  | nil => 0
  | text _ rest => rest.depth
  | caseTag _ body rest => max (body.depth + 1) rest.depth
  | matchTag body rest => max (body.depth + 1) rest.depth

/-- The number of texts and tags. -/
def size : Casework → Nat
  | nil => 0
  | text _ rest => rest.size + 1
  | caseTag _ body rest => body.size + rest.size + 1
  | matchTag body rest => body.size + rest.size + 1

/-- The head of a case is plain. -/
theorem caseDirective_head (condition : Option CaseCondition) :
    Template.HasPlainHead "wccase" (condition.map CaseCondition.source) := by
  refine ⟨by decide, ?_⟩
  cases condition with
  | none => simp
  | some condition => simpa using condition.plain

/-- The head of a match is plain. -/
theorem matchDirective_head : Template.HasPlainHead "wcmatch" none := ⟨by decide, by simp⟩

/-- A tree is read back as a body. -/
theorem readsBack_print : ∀ tree : Casework, Template.ReadsBack tree.print
  | nil => Template.readsBack_nil
  | text content rest => Template.readsBack_literal content.plain rest.readsBack_print
  | caseTag condition body rest =>
    Template.readsBack_directive (caseDirective_head condition).readable
      (by simpa using body.readsBack_print) rest.readsBack_print
  | matchTag body rest =>
    Template.readsBack_directive matchDirective_head.readable (by simpa using body.readsBack_print)
      rest.readsBack_print

/-- With a step for each character, the pieces of a tree are read one by one. -/
theorem piecesWithin_print (tree : Casework) :
    ∀ bound, tree.print.length ≤ bound →
      Template.piecesWithin bound tree.print = tree.template := by
  induction tree with
  | nil =>
    intro bound _
    cases bound <;> rfl
  | text content rest inductionHypothesis =>
    intro bound enough
    rw [print, List.length_append] at enough
    obtain ⟨fewer, rfl⟩ := Nat.exists_eq_add_of_le (Nat.le_of_add_right_le enough)
    rw [print, Nat.add_comm, Template.piecesWithin_allPlain fewer rest.print content.plain,
      inductionHypothesis fewer (by omega), template]
  | caseTag condition body rest _ inductionHypothesis =>
    exact fun bound enough =>
      Template.piecesWithin_tagFirst (caseDirective_head condition).readable
        (by simpa using body.readsBack_print) inductionHypothesis enough
  | matchTag body rest _ inductionHypothesis =>
    exact fun bound enough =>
      Template.piecesWithin_tagFirst matchDirective_head.readable
        (by simpa using body.readsBack_print) inductionHypothesis enough

/-- The print of a tree is read as its pieces. -/
theorem template_ofText (tree : Casework) : Template.ofText tree.print = tree.template :=
  tree.piecesWithin_print _ (Nat.le_refl _)

/-- The tree without blanks at its start. -/
def trimStart : Casework → Casework
  | text content rest =>
    if content.trimStart.content.isEmpty then rest.trimStart else text content.trimStart rest
  | tree => tree

/-- The tree without blanks at its end. -/
def trimEnd : Casework → Casework
  | nil => nil
  | text content rest =>
    if rest.trimEnd.print.isEmpty then text content.trimEnd nil else text content rest.trimEnd
  | caseTag condition body rest => caseTag condition body rest.trimEnd
  | matchTag body rest => matchTag body rest.trimEnd

/-- The tree without blanks at either end. -/
def trim (tree : Casework) : Casework := tree.trimStart.trimEnd

/-- A tag ends with no blank. -/
theorem trimEnd_tag (directive : Directive) (rest : Text) :
    Text.trimEnd (directive.print ++ rest) = directive.print ++ Text.trimEnd rest := by
  have ended (before : Text) : Text.trimEnd (before ++ ['>']) = before ++ ['>'] :=
    Text.trimEnd_append before ['>']
  rw [Text.trimEnd_append]
  split
  · next blank =>
    rw [List.isEmpty_iff.1 blank, List.append_nil, Template.print_parts, ended]
  · rfl

/-- The blanks at the start of a print are those at the start of the tree. -/
theorem print_trimStart (tree : Casework) : tree.trimStart.print = Text.trimStart tree.print := by
  induction tree with
  | nil => rfl
  | text content rest inductionHypothesis =>
    rw [trimStart, print, Text.trimStart_append, apply_ite print, inductionHypothesis]
    rfl
  | caseTag condition body rest => rfl
  | matchTag body rest => rfl

/-- The blanks at the end of a print are those at the end of the tree. -/
theorem print_trimEnd (tree : Casework) : tree.trimEnd.print = Text.trimEnd tree.print := by
  induction tree with
  | nil => rfl
  | text content rest inductionHypothesis =>
    rw [trimEnd, print, Text.trimEnd_append, ← inductionHypothesis, apply_ite print]
    simp only [print, List.append_nil]
    rfl
  | caseTag condition body rest _ inductionHypothesis =>
    rw [trimEnd, print, print, trimEnd_tag, inductionHypothesis]
  | matchTag body rest _ inductionHypothesis =>
    rw [trimEnd, print, print, trimEnd_tag, inductionHypothesis]

/-- Trimming the print of a tree is trimming the tree. -/
theorem print_trim (tree : Casework) : tree.trim.print = Text.trim tree.print := by
  rw [trim, print_trimEnd, print_trimStart, Text.trim]

/-- Without blanks at its start a tree is no deeper and no larger. -/
theorem trimStart_le (tree : Casework) :
    tree.trimStart.depth ≤ tree.depth ∧ tree.trimStart.size ≤ tree.size := by
  induction tree with
  | nil => exact ⟨Nat.le_refl _, Nat.le_refl _⟩
  | text content rest inductionHypothesis =>
    rw [trimStart]
    split
    · exact ⟨inductionHypothesis.1, Nat.le_succ_of_le inductionHypothesis.2⟩
    · exact ⟨Nat.le_refl _, Nat.le_refl _⟩
  | caseTag condition body rest => exact ⟨Nat.le_refl _, Nat.le_refl _⟩
  | matchTag body rest => exact ⟨Nat.le_refl _, Nat.le_refl _⟩

/-- Without blanks at its end a tree is no deeper and no larger. -/
theorem trimEnd_le (tree : Casework) :
    tree.trimEnd.depth ≤ tree.depth ∧ tree.trimEnd.size ≤ tree.size := by
  induction tree with
  | nil => exact ⟨Nat.le_refl _, Nat.le_refl _⟩
  | text content rest inductionHypothesis =>
    rw [trimEnd]
    split
    · simp only [depth, size]
      omega
    · simp only [depth, size]
      omega
  | caseTag condition body rest _ inductionHypothesis =>
    simp only [trimEnd, depth, size]
    omega
  | matchTag body rest _ inductionHypothesis =>
    simp only [trimEnd, depth, size]
    omega

/-- Trimming makes a tree no deeper. -/
theorem depth_trim (tree : Casework) : tree.trim.depth ≤ tree.depth :=
  Nat.le_trans tree.trimStart.trimEnd_le.1 tree.trimStart_le.1

/-- Trimming makes a tree no larger. -/
theorem size_trim (tree : Casework) : tree.trim.size ≤ tree.size :=
  Nat.le_trans tree.trimStart.trimEnd_le.2 tree.trimStart_le.2

end Casework

end DynamicPrompt
