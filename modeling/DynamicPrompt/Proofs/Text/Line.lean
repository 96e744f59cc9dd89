import DynamicPrompt.Delimiter
import DynamicPrompt.Proofs.Numeral.Signs
import DynamicPrompt.Proofs.Text.Cut

/-!
# Texts of one line

A text without line feeds is a line. Whatever is cut out of a line is a line, since it has no other
characters; what is put together from lines is one; and numerals do not bring in a line feed.
-/

namespace DynamicPrompt

/-- A text without line feeds. -/
def IsLine (text : Text) : Prop := '\n' ∉ text

instance : DecidablePred IsLine := fun text => inferInstanceAs (Decidable ('\n' ∉ text))

@[simp] theorem isLine_nil : IsLine [] := List.not_mem_nil

@[simp] theorem isLine_cons {c : Char} {text : Text} :
    IsLine (c :: text) ↔ c ≠ '\n' ∧ IsLine text := by
  rw [IsLine, List.mem_cons, not_or, ne_comm]
  rfl

@[simp] theorem isLine_append {first second : Text} :
    IsLine (first ++ second) ↔ IsLine first ∧ IsLine second := by
  rw [IsLine, List.mem_append, not_or]
  rfl

@[simp] theorem isLine_flatten {texts : List Text} :
    IsLine texts.flatten ↔ ∀ text ∈ texts, IsLine text := by
  simp [IsLine]

namespace IsLine

variable {text : Text}

/-- Characters of a line make a line. -/
theorem part {inside : Text} (line : IsLine text) (chosen : inside ⊆ text) : IsLine inside :=
  fun member => line (chosen member)

/-- Joined lines are a line if the separator is one. -/
theorem join {separator : Text} {parts : List Text} (between : IsLine separator)
    (each : ∀ part ∈ parts, IsLine part) : IsLine (Text.join separator parts) :=
  Text.join_of_parts isLine_nil (fun front back => isLine_append.2 ⟨front, back⟩) between each

/-- The start of a line. -/
theorem takeWhile (line : IsLine text) (test : Char → Bool) : IsLine (text.takeWhile test) :=
  line.part (List.takeWhile_prefix test).subset

/-- The end of a line. -/
theorem dropWhile (line : IsLine text) (test : Char → Bool) : IsLine (text.dropWhile test) :=
  line.part (List.dropWhile_suffix test).subset

/-- A line without the blanks around it. -/
theorem trim (line : IsLine text) : IsLine (Text.trim text) := line.part (Text.trim_infix text).subset

/-- The parts of a line beside a character. -/
theorem cutAt? {test : Char → Bool} {before after : Text} (line : IsLine text)
    (cut : Text.cutAt? test text = some (before, after)) : IsLine before ∧ IsLine after := by
  obtain ⟨c, _, rfl⟩ := Text.cutAt?_append cut
  rw [isLine_append, isLine_cons] at line
  exact ⟨line.1, line.2.2⟩

/-- The parts of a line beside a pattern. -/
theorem cutAround? {pattern before after : Text} (line : IsLine text)
    (cut : Text.cutAround? pattern text = some (before, after)) : IsLine before ∧ IsLine after := by
  rw [← Text.cutAround?_append cut, isLine_append, isLine_append] at line
  exact ⟨line.1.1, line.2⟩

/-- What follows a pattern in a line. -/
theorem after? {pattern after : Text} (line : IsLine text)
    (begins : Text.after? pattern text = some after) : IsLine pattern ∧ IsLine after := by
  rwa [Text.after?_eq_some_iff.1 begins, isLine_append] at line

/-- The words of a line. -/
theorem words {word : Text} (line : IsLine text) (member : word ∈ Text.words text) : IsLine word :=
  line.part fun _ inside => (Text.mem_of_mem_wordsFrom member inside).resolve_left List.not_mem_nil

/-- What stands before and after a closer in a line. -/
theorem enclosed? {opener closer : Char} {inner after : Text} (line : IsLine text)
    (found : DynamicPrompt.enclosed? opener closer text = some (inner, after)) :
    IsLine inner ∧ IsLine after := by
  rw [← closing?_append found, isLine_append, isLine_cons] at line
  exact ⟨line.1, line.2.2⟩

/-- What stands before and after a separator in a line. -/
theorem cutTopLevelFrom? {separator : Text} {brackets : Brackets} {escaped : Bool}
    {before after : Text} (line : IsLine text)
    (cut : DynamicPrompt.cutTopLevelFrom? separator brackets escaped text = some (before, after)) :
    IsLine before ∧ IsLine after := by
  obtain ⟨⟨first, found⟩, located, same⟩ := Option.map_eq_some_iff.1 cut
  obtain ⟨rfl, rfl⟩ := Prod.mk.inj same
  rw [← (topLevelFrom?_append located).1, isLine_append] at line
  refine ⟨line.1, line.2.part ?_⟩
  exact ((List.drop_suffix _ _).trans (List.tail_suffix _)).subset

/-- The parts of a line between separators. -/
theorem splitTopLevelFrom {separator : Text} {brackets : Brackets} {escaped : Bool} {part : Text}
    (line : IsLine text)
    (member : part ∈ DynamicPrompt.splitTopLevelFrom separator brackets escaped text) :
    IsLine part := by
  fun_induction DynamicPrompt.splitTopLevelFrom separator brackets escaped text with
  | case1 escaped text missed =>
    obtain rfl := List.mem_singleton.1 member
    exact line
  | case2 escaped text before after cut inductionHypothesis =>
    obtain ⟨front, back⟩ := line.cutTopLevelFrom? cut
    rcases List.mem_cons.1 member with rfl | later
    · exact front
    · exact inductionHypothesis back later

end IsLine

end DynamicPrompt
