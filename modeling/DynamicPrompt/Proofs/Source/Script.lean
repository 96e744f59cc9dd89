import DynamicPrompt.Proofs.Source.Break
import DynamicPrompt.Proofs.Source.Command

/-!
# Scripts of conditional blocks

A script is a line made of plain text and conditional blocks, whose branches are scripts again.
It is written with opening tags, branch markers and closers, and its meaning is a match with one
case for each branch, in order. The last case of a match has no condition if the block has a
last resort.

Plain text has none of the characters that begin a construct and does not hold the keyword of
breaks. Between two blocks stands one plain text, which may be empty, so the keyword cannot come
about where two texts meet.
-/

namespace DynamicPrompt.Source

/-- Text without marks and without the keyword of breaks. -/
abbrev PlainText := { text : Text // (∀ c ∈ text, c ∉ blockMarks) ∧ ¬ breakWord <:+: text }

/-- A name that is a condition by itself: characters other than marks and blanks, at least
one. -/
abbrev ConditionName :=
  { name : Text // name ≠ [] ∧ ∀ c ∈ name, c ∉ blockMarks ∧ isBlank c = false }

mutual

/-- Plain text with conditional blocks. -/
inductive Script where
  | text (words : PlainText)
  | block (before : PlainText) (condition : ConditionName) (branch : Script) (others : Branches)
      (rest : Script)

/-- The branches of a block after the first. -/
inductive Branches where
  | none
  | otherwise (branch : Script)
  | elseIf (condition : ConditionName) (branch : Script) (others : Branches)

end

/-- The opening tag of a block. -/
def ifTag (condition : Text) : Text := "<ppp:if " ++ condition ++ ">"

/-- The marker of a further condition. -/
def elifTag (condition : Text) : Text := "<ppp:elif " ++ condition ++ ">"

/-- The marker of the last resort. -/
def elseTag : Text := "<ppp:else>"

/-- The closer of a block. -/
def endTag : Text := "<ppp:/if>"

mutual

/-- The script in source syntax. -/
def Script.source : Script → Text
  | .text words => words.val
  | .block before condition branch others rest =>
    before.val ++
      (ifTag condition.val ++ ((branch.source ++ others.source) ++ (endTag ++ rest.source)))

/-- The branches in source syntax, each after its marker. -/
def Branches.source : Branches → Text
  | .none => []
  | .otherwise branch => elseTag ++ branch.source
  | .elseIf condition branch others =>
    elifTag condition.val ++ (branch.source ++ others.source)

end

/-- The case of a condition. -/
def caseTag (condition body : Text) : Text := "<wccase[" ++ condition ++ "]:" ++ body ++ ">"

/-- The case of the last resort. -/
def lastCaseTag (body : Text) : Text := "<wccase:" ++ body ++ ">"

/-- The match of several cases. -/
def matchTag (cases : Text) : Text := "<wcmatch:" ++ cases ++ ">"

/-- What stands for the script as a branch, given its meaning: the mark of the empty text if the
script is empty. -/
def Script.orMark : Script → Text → Text
  | .text ⟨[], _⟩, _ => "<comment:empty>"
  | _, meaning => meaning

mutual

/-- The meaning of the script: a match for each block, with one case for each of its branches in
their order. -/
def Script.directive : Script → Text
  | .text words => words.val
  | .block before condition branch others rest =>
    before.val ++
      (matchTag (caseTag condition.val (branch.orMark branch.directive) ++ others.cases) ++
        rest.directive)

/-- The cases of the branches. -/
def Branches.cases : Branches → Text
  | .none => []
  | .otherwise branch => lastCaseTag (branch.orMark branch.directive)
  | .elseIf condition branch others =>
    caseTag condition.val (branch.orMark branch.directive) ++ others.cases

end

mutual

/-- How deep blocks are nested in the script. -/
def Script.depth : Script → Nat
  | .text _ => 0
  | .block _ _ branch others rest => max (max branch.depth others.depth + 1) rest.depth

/-- How deep blocks are nested in the branches. -/
def Branches.depth : Branches → Nat
  | .none => 0
  | .otherwise branch => branch.depth
  | .elseIf _ branch others => max branch.depth others.depth

end

/-- The meaning of a branch: that of its script, or the mark of the empty text. -/
def Script.option (script : Script) : Text := script.orMark script.directive

/-- The branches with their conditions, in order. -/
def Branches.toList : Branches → List (Option ConditionName × Script)
  | .none => []
  | .otherwise branch => [(Option.none, branch)]
  | .elseIf condition branch others => (some condition, branch) :: others.toList

/-- Induction over the branches after the first, one by one. -/
@[elab_as_elim, induction_eliminator]
theorem Branches.induct {motive : Branches → Prop} (none : motive .none)
    (otherwise : ∀ branch, motive (.otherwise branch))
    (elseIf : ∀ condition branch others, motive others →
      motive (.elseIf condition branch others)) : ∀ others, motive others
  | .none => none
  | .otherwise branch => otherwise branch
  | .elseIf condition branch others =>
    elseIf condition branch others (others.induct none otherwise elseIf)

/-- A letter or digit of ASCII is neither a mark nor a blank. -/
theorem unmarked_of_alphanumeric {c : Char} (alphanumeric : c.isAlphanum = true) :
    c ∉ blockMarks ∧ isBlank c = false := by
  constructor
  · intro member
    have marks : ∀ d ∈ blockMarks, d.isAlphanum = false := by decide
    exact Bool.false_ne_true ((marks c member).symm.trans alphanumeric)
  · exact isBlank_of_isAlphanum alphanumeric

/-- A name of letters and digits is a condition. -/
def ConditionName.ofAlphanumeric (name : Text)
    (alphanumeric : name ≠ [] ∧ ∀ c ∈ name, c.isAlphanum = true) : ConditionName :=
  ⟨name, alphanumeric.1, fun c member => unmarked_of_alphanumeric (alphanumeric.2 c member)⟩

namespace ConditionName

/-- A condition after a blank can stand in a tag. -/
theorem arguments (condition : ConditionName) : Arguments (' ' :: condition.val) where
  separated c starts := by
    obtain rfl : ' ' = c := by simpa using starts
    rfl
  unmarked c member := by
    rcases List.mem_cons.1 member with rfl | within
    · decide
    · exact (condition.property.2 c within).1

end ConditionName

/-- A tag without arguments has nothing to keep apart. -/
theorem Arguments.nil : Arguments [] :=
  ⟨fun _ starts => by simp at starts, fun _ member => absurd member List.not_mem_nil⟩

section Tags

variable (condition : ConditionName)

/-- The opening tag of a block is a tag with its keyword. -/
theorem ifTag_eq : ifTag condition.val = commandTag "if" (' ' :: condition.val) := by
  unfold ifTag commandTag commandStart
  simp

/-- The marker of a further condition is a tag with its keyword. -/
theorem elifTag_eq : elifTag condition.val = commandTag "elif" (' ' :: condition.val) := by
  unfold elifTag commandTag commandStart
  simp

/-- The marker of the last resort is a tag with its keyword. -/
theorem elseTag_eq : elseTag = commandTag "else" [] := by
  unfold elseTag commandTag commandStart
  simp

/-- The closer of a block is the closer of its keyword. -/
theorem endTag_eq : endTag = closerOf "if" := by
  unfold endTag closerOf
  simp

end Tags

section Shapes

variable (condition body rest : Text)

/-- The case of a condition before the rest of a line is a tag. -/
theorem caseTag_append : caseTag condition body ++ rest =
    '<' :: (("wccase[".toList ++ (condition ++ ("]:".toList ++ body))) ++ '>' :: rest) := by
  unfold caseTag
  simp

/-- The case of the last resort before the rest of a line is a tag. -/
theorem lastCaseTag_append : lastCaseTag body ++ rest =
    '<' :: (("wccase:".toList ++ body) ++ '>' :: rest) := by
  unfold lastCaseTag
  simp

/-- A match before the rest of a line is a tag. -/
theorem matchTag_append : matchTag body ++ rest =
    '<' :: (("wcmatch:".toList ++ body) ++ '>' :: rest) := by
  unfold matchTag
  simp

end Shapes

/-- Plain text closes every block. -/
theorem closed_plain {inside : Bool} (words : PlainText) : Closed inside words.val :=
  .of_unmarked words.property.1

mutual

/-- Every block of a script is closed, and its markers are inside it. -/
theorem Script.source_closed : ∀ script : Script, Closed false script.source
  | .text words => closed_plain words
  | .block before condition branch others rest => by
    have inner : Closed true (branch.source ++ others.source) :=
      branch.source_closed.inside.append others.source_closed
    rw [Script.source, ifTag_eq, endTag_eq]
    exact (closed_plain before).append
      (.block condition.arguments inner rest.source_closed)

/-- Every block of some branches is closed. -/
theorem Branches.source_closed : ∀ others : Branches, Closed true others.source
  | .none => .nil
  | .otherwise branch => by
    rw [Branches.source, elseTag_eq]
    exact .marker (.inr rfl) .nil branch.source_closed.inside
  | .elseIf condition branch others => by
    rw [Branches.source, elifTag_eq]
    exact .marker (.inl rfl) condition.arguments
      (branch.source_closed.inside.append others.source_closed)

end

end DynamicPrompt.Source
