import DynamicPrompt.Choice.Basic
import DynamicPrompt.Proofs.Delimiter.Balanced
import DynamicPrompt.Proofs.Delimiter.Separator
import DynamicPrompt.Proofs.Expression.Spelling
import DynamicPrompt.Proofs.Source.Break
import DynamicPrompt.Proofs.Text.Order

/-!
# Option clauses

The options of a choice are recognised from the right: a number, a group in parentheses, a guard.
The last group of a text without backslashes is determined by the text, because no balanced text
has a balanced end behind an opener. So a guard, labels and a weight that are written in this order
are found again, whatever the guard ends with; the label clause keeps the weight apart from it.
-/

namespace DynamicPrompt

namespace Text

section Ends

variable {test : Char → Bool} {front run : Text} {c : Char}

/-- The passing characters at the end of a text are those behind the last one that fails. -/
theorem takeEndWhile_run (passing : run.all test = true) (fails : test c = false) :
    takeEndWhile test (front ++ c :: run) = run := by
  have ends : ∀ d ∈ (c :: front.reverse).head?, test d = false := by
    intro d head
    obtain rfl : c = d := Option.some.inj head
    exact fails
  have reversed : (front ++ c :: run).reverse = run.reverse ++ c :: front.reverse := by simp
  rw [takeEndWhile, reversed, takeWhile_run (by simpa using passing) ends, List.reverse_reverse]

/-- Without the passing characters at its end a text ends with the last one that fails. -/
theorem dropEndWhile_run (passing : run.all test = true) (fails : test c = false) :
    dropEndWhile test (front ++ c :: run) = front ++ [c] := by
  have ends : ∀ d ∈ (c :: front.reverse).head?, test d = false := by
    intro d head
    obtain rfl : c = d := Option.some.inj head
    exact fails
  have reversed : (front ++ c :: run).reverse = run.reverse ++ c :: front.reverse := by simp
  rw [dropEndWhile, reversed, dropWhile_run (by simpa using passing) ends]
  simp

/-- Blanks behind a character that is none are taken off. -/
theorem trimEnd_run (blanks : run.all isBlank = true) (solid : isBlank c = false) :
    trimEnd (front ++ c :: run) = front ++ [c] :=
  dropEndWhile_run blanks solid

/-- A text has a last character that fails the test, if one fails it. -/
theorem exists_last {text : Text} (fails : ∃ c ∈ text, test c = false) :
    ∃ front c run, text = front ++ c :: run ∧ test c = false ∧ run.all test = true := by
  induction text with
  | nil =>
    obtain ⟨c, member, -⟩ := fails
    exact absurd member List.not_mem_nil
  | cons d rest inductionHypothesis =>
    by_cases later : ∃ c ∈ rest, test c = false
    · obtain ⟨front, c, run, rfl, fail, passing⟩ := inductionHypothesis later
      exact ⟨d :: front, c, run, rfl, fail, passing⟩
    · have passing : rest.all test = true :=
        List.all_eq_true.2 fun c member => by_contra fun fail =>
          later ⟨c, member, Bool.of_not_eq_true fail⟩
      obtain ⟨c, member, fail⟩ := fails
      rcases List.mem_cons.1 member with rfl | behind
      · exact ⟨[], c, rest, rfl, fail, passing⟩
      · exact absurd ⟨c, behind, fail⟩ later

/-- Blanks behind a text are taken off with its own. -/
theorem trim_append_blank {spacing : Text} (blank : spacing.all isBlank = true) (text : Text) :
    trim (text ++ spacing) = trim text := by
  have nothing {run : Text} (all : run.all isBlank = true) : run.dropWhile isBlank = [] := by
    have dropped : (run ++ []).dropWhile isBlank = [] :=
      List.dropWhile_append_of_pos (List.all_eq_true.1 all)
    rwa [List.append_nil] at dropped
  have ended : trimEnd spacing = [] := by
    rw [trimEnd, dropEndWhile, nothing (by rwa [List.all_reverse])]
    rfl
  have started : trimStart spacing = [] := nothing blank
  rw [trim, trimStart_append]
  split
  · next empty =>
    rw [trim, List.isEmpty_iff.1 empty, started]
  · rw [trimEnd_append, ended]
    rfl

/-- Taking the blanks off the end first does not matter for what trimming leaves. -/
theorem trim_trimEnd (text : Text) : trim (trimEnd text) = trim text := by
  obtain ⟨spacing, parts, blank⟩ := exists_trimEnd text
  have trimmed := trim_append_blank blank (trimEnd text)
  rw [← parts] at trimmed
  exact trimmed.symm

/-- A character that a text lacks is not left when its end is trimmed. -/
theorem not_mem_trimEnd {text : Text} {d : Char} (absent : d ∉ text) : d ∉ trimEnd text := by
  obtain ⟨spacing, parts, -⟩ := exists_trimEnd text
  rw [parts] at absent
  exact fun member => absent (List.mem_append_left spacing member)

/-- A text with a character that is no blank is not blank. -/
theorem trim_ne_nil {text : Text} (solid : ∃ c ∈ text, isBlank c = false) : trim text ≠ [] := by
  obtain ⟨front, c, run, rfl, fails, blank⟩ := exists_last solid
  have kept : ∃ others, trimStart (front ++ [c]) = others ++ [c] := by
    rw [trimStart_append]
    split
    · exact ⟨[], by simp [trimStart, fails]⟩
    · exact ⟨trimStart front, rfl⟩
  obtain ⟨others, started⟩ := kept
  have ended : trimEnd (others ++ c :: []) = others ++ [c] := trimEnd_run rfl fails
  rw [List.append_cons, trim_append_blank blank, trim, started, ended]
  exact List.append_ne_nil_of_right_ne_nil others (List.cons_ne_nil c [])

end Ends

end Text

namespace Choice

section Weight

variable {front run : Text} {c : Char}

/-- The weight is the number behind the last character of a text that belongs to no number, if a
blank or a closing parenthesis is that character. -/
theorem splitWeight_run (digits : run.all (fun d => d.isDigit || d == '.') = true)
    (other : (c.isDigit || c == '.') = false) :
    splitWeight (front ++ c :: run) =
      match Numeral.float? run with
      | some weight =>
        if isBlank c || c == ')' then (Text.trimEnd (front ++ [c]), some weight)
        else (front ++ c :: run, none)
      | none => (front ++ c :: run, none) := by
  rw [splitWeight, Text.takeEndWhile_run digits other, Text.dropEndWhile_run digits other,
    List.getLast?_append_of_ne_nil _ (List.cons_ne_nil c [])]
  rfl

/-- A text that ends with no number has no weight. -/
theorem splitWeight_unweighted (other : (c.isDigit || c == '.') = false) :
    splitWeight (front ++ [c]) = (front ++ [c], none) := by
  have nothing : Numeral.float? [] = none := by decide
  rw [splitWeight_run rfl other, nothing]

/-- A numeral behind a blank is the weight. -/
theorem splitWeight_numeral (literal : Expression.NumberLiteral) :
    splitWeight (front ++ ' ' :: literal.text) =
      (Text.trimEnd (front ++ [' ']), some literal.value) := by
  have digits : literal.text.all (fun d => d.isDigit || d == '.') = true := by
    rw [List.all_eq_true]
    intro d member
    rcases literal.mem_text d member with digit | rfl
    · rw [digit, Bool.true_or]
    · rfl
  rw [splitWeight_run digits (by decide), Expression.float?_numeral]
  rfl

end Weight

/-- What stands behind the word `if` and a blank is a guard, unless it is blank. -/
theorem guard?_if {condition : Text} (filled : Text.trim condition ≠ []) :
    guard? ('i' :: 'f' :: ' ' :: condition) = some (some (Text.trim condition)) := by
  rw [guard?]
  exact if_pos ⟨rfl, rfl, rfl, filled⟩

section Groups

/-- A text ends with a group in parentheses: a balanced text between them, and something or nothing
before them. -/
structure EndsInGroup (text before inner : Text) : Prop where
  whole : text = before ++ '(' :: (inner ++ [')'])
  balanced : IsBalanced '(' ')' inner

instance (text before inner : Text) : Decidable (EndsInGroup text before inner) :=
  decidable_of_iff (text = before ++ '(' :: (inner ++ [')']) ∧ IsBalanced '(' ')' inner)
    ⟨fun both => ⟨both.1, both.2⟩, fun ends => ⟨ends.whole, ends.balanced⟩⟩

variable {text before inner : Text}

/-- What a group encloses has only characters of the text. -/
theorem EndsInGroup.plain (ends : EndsInGroup text before inner) (plain : '\\' ∉ text) :
    '\\' ∉ inner := by
  rw [ends.whole] at plain
  intro member
  exact plain (List.mem_append_right _ (.tail _ (List.mem_append_left _ member)))

/-- A text without backslashes ends with one group only, since the shorter one of two would be a
balanced end behind an opener of the longer one. -/
theorem EndsInGroup.unique {before' inner' : Text} (plain : '\\' ∉ text)
    (ends : EndsInGroup text before inner) (others : EndsInGroup text before' inner') :
    before = before' ∧ inner = inner' := by
  have distinct : '(' ≠ ')' := by decide
  have same : before ++ ('(' :: inner) = before' ++ ('(' :: inner') := by
    have ended : (before ++ ('(' :: inner)) ++ [')'] = (before' ++ ('(' :: inner')) ++ [')'] := by
      have whole := ends.whole.symm.trans others.whole
      simpa using whole
    exact List.append_cancel_right ended
  rcases List.append_eq_append_iff.1 same with ⟨between, rfl, after⟩ | ⟨between, rfl, after⟩
  · cases between with
    | nil => exact ⟨(List.append_nil before).symm, (List.cons.inj after).2⟩
    | cons c between =>
      obtain ⟨-, rfl⟩ := List.cons.inj after
      exact absurd ends.balanced
        (not_isBalanced_append distinct (ends.plain plain) others.balanced)
  · cases between with
    | nil => exact ⟨List.append_nil before', (List.cons.inj after).2.symm⟩
    | cons c between =>
      obtain ⟨-, rfl⟩ := List.cons.inj after
      exact absurd others.balanced
        (not_isBalanced_append distinct (others.plain plain) ends.balanced)

/-- A group that is found ends the text. -/
theorem endsInGroup_of_lastGroup? (plain : '\\' ∉ text)
    (found : lastGroup? text = some (before, inner)) : EndsInGroup text before inner := by
  induction text generalizing before with
  | nil => exact absurd found.symm (Option.some_ne_none _)
  | cons c rest inductionHypothesis =>
    rw [List.mem_cons, not_or] at plain
    rw [lastGroup?] at found
    split at found
    · next front within later =>
      obtain ⟨rfl, rfl⟩ := Prod.mk.inj (Option.some.inj found)
      obtain ⟨whole, balanced⟩ := inductionHypothesis plain.2 later
      exact ⟨congrArg (c :: ·) whole, balanced⟩
    · split at found
      · next opens =>
        split at found
        · next within enclosed =>
          obtain ⟨rfl, rfl⟩ := Prod.mk.inj (Option.some.inj found)
          have ended : within ++ [')'] = rest := closing?_append enclosed
          have unescaping : '\\' ∉ within :=
            fun member => plain.2 (ended ▸ List.mem_append_left _ member)
          obtain ⟨whole, balanced⟩ := (enclosed?_eq_some_iff (by decide) unescaping).1 enclosed
          exact ⟨by rw [opens, whole]; rfl, balanced⟩
        · exact absurd found.symm (Option.some_ne_none _)
      · exact absurd found.symm (Option.some_ne_none _)

/-- Where a text ends with a group, one is found. -/
theorem exists_lastGroup? (plain : '\\' ∉ text) (ends : EndsInGroup text before inner) :
    ∃ group, lastGroup? text = some group := by
  have unescaping := ends.plain plain
  obtain ⟨rfl, balanced⟩ := ends
  clear plain
  induction before with
  | nil =>
    have enclosed : enclosed? '(' ')' (inner ++ [')']) = some (inner, []) :=
      (enclosed?_eq_some_iff (by decide) unescaping).2 ⟨rfl, balanced⟩
    rw [List.nil_append, lastGroup?]
    split
    · exact ⟨_, rfl⟩
    · rw [if_pos rfl, enclosed]
      exact ⟨_, rfl⟩
  | cons c before inductionHypothesis =>
    obtain ⟨group, found⟩ := inductionHypothesis
    rw [List.cons_append, lastGroup?, found]
    exact ⟨_, rfl⟩

/-- The last group of a text without backslashes is the one that ends it. -/
theorem lastGroup?_eq_some_iff (plain : '\\' ∉ text) :
    lastGroup? text = some (before, inner) ↔ EndsInGroup text before inner := by
  constructor
  · exact endsInGroup_of_lastGroup? plain
  · intro ends
    obtain ⟨⟨front, within⟩, found⟩ := exists_lastGroup? plain ends
    obtain ⟨rfl, rfl⟩ := (endsInGroup_of_lastGroup? plain found).unique plain ends
    exact found

end Groups

section Clauses

variable {options before inner : Text} {guard : Option Text}

/-- A group behind a blank, or at the start, is the label clause. -/
theorem splitLabels?_group (group : lastGroup? options = some (before, inner))
    (spaced : ∀ c ∈ before.getLast?, isBlank c = true) :
    splitLabels? options = some (Text.trimEnd before, inner) := by
  rw [splitLabels?, group]
  dsimp only
  cases last : before.getLast? with
  | none =>
    rw [List.getLast?_eq_none_iff.1 last]
    rfl
  | some c => exact if_pos (spaced c last)

/-- A label clause is taken off if what stands before it is a guard or nothing. -/
theorem clauseWith?_group (weight : Option Float)
    (split : splitLabels? options = some (before, inner)) (read : guard? before = some guard) :
    clauseWith? options weight = some ⟨guard, labelsOf inner, weight⟩ := by
  rw [clauseWith?, split]
  dsimp only [Option.bind_eq_bind, Option.bind_some]
  rw [read]
  rfl

/-- Options without brackets and double colons are cut off before the double colon behind them. -/
theorem ofText_clause {clause : Clause} (plain : ∀ c ∈ options, c ∉ "<>\\".toList)
    (apart : ¬ [':', ':'] <:+: options ++ [':']) (read : clause? options = some clause)
    (value : Text) :
    ofText (options ++ ([':', ':'] ++ value)) =
      ⟨value, clause.weight.getD 1.0, clause.labels, clause.guard, 0⟩ := by
  have grouped : Grouped Brackets.tags (fun _ => True) options := by
    apply Grouped.of_unmentioned
    intro c member
    have other := plain c member
    refine ⟨trivial, ?_, ?_⟩
    · rintro (opens | closes)
      · exact other (by rw [List.mem_singleton.1 opens]; decide)
      · exact other (by rw [List.mem_singleton.1 closes]; decide)
    · rintro rfl
      exact other (by decide)
  have cut : cutTopLevel? "::" Brackets.tags (options ++ ([':', ':'] ++ value)) =
      some (options, value) := cutTopLevelFrom?_apart (by decide) grouped apart value
  rw [ofText, cut]
  dsimp only [Option.bind_eq_bind, Option.bind_some]
  rw [read]
  rfl

/-- A guard as it is written before a label clause. -/
def guardText : Option Text → Text
  | none => []
  | some condition => "if ".toList ++ condition ++ [' ']

/-- A weight as it is written behind a label clause. -/
def weightText : Option Expression.NumberLiteral → Text
  | none => []
  | some literal => ' ' :: literal.text

/-- A guard before a label clause is read as it was written. -/
theorem guard?_trimEnd_guardText (solid : ∀ condition ∈ guard, Text.IsSolid condition) :
    (∀ c ∈ (guardText guard).getLast?, isBlank c = true) ∧
      guard? (Text.trimEnd (guardText guard)) = some guard := by
  cases guard with
  | none => exact ⟨by simp [guardText], rfl⟩
  | some condition =>
    have whole := solid condition rfl
    constructor
    · intro c last
      rw [guardText, List.getLast?_concat] at last
      obtain rfl := Option.some.inj last
      rfl
    · obtain ⟨front, c, rfl⟩ := (List.eq_nil_or_concat' condition).resolve_left whole.filled
      have ends : isBlank c = false := whole.ends c (by simp)
      have trimmed : Text.trimEnd (guardText (some (front ++ [c]))) =
          'i' :: 'f' :: ' ' :: (front ++ [c]) := by
        have run : guardText (some (front ++ [c])) = ("if ".toList ++ front) ++ c :: [' '] := by
          simp [guardText]
        rw [run, Text.trimEnd_run rfl ends]
        simp
      rw [trimmed, guard?_if (by rw [whole.trim]; exact whole.filled), whole.trim]

/-- What is written behind a closing parenthesis is the weight. -/
theorem splitWeight_weightText (front : Text) (weight : Option Expression.NumberLiteral) :
    splitWeight (front ++ [')'] ++ weightText weight) =
      (front ++ [')'], weight.map (·.value)) := by
  cases weight with
  | none =>
    rw [weightText, List.append_nil]
    exact splitWeight_unweighted (by decide)
  | some literal =>
    have trimmed : Text.trimEnd (front ++ ')' :: [' ']) = front ++ [')'] :=
      Text.trimEnd_run rfl (by decide)
    rw [weightText, splitWeight_numeral, List.append_assoc, List.singleton_append, trimmed]
    rfl

/-- Options that end with a label clause and perhaps a weight have no blanks around them. -/
theorem trim_written (solid : ∀ condition ∈ guard, Text.IsSolid condition)
    (weight : Option Expression.NumberLiteral) :
    Text.trim (guardText guard ++ '(' :: (inner ++ [')']) ++ weightText weight) =
      guardText guard ++ '(' :: (inner ++ [')']) ++ weightText weight := by
  apply Text.trim_solid
  · intro c head
    cases guard with
    | none =>
      obtain rfl : '(' = c := Option.some.inj head
      decide
    | some condition =>
      obtain rfl : 'i' = c := Option.some.inj head
      decide
  · intro c last
    cases weight with
    | none =>
      rw [weightText, List.append_nil, ← List.cons_append, ← List.append_assoc,
        List.getLast?_concat] at last
      obtain rfl := Option.some.inj last
      decide
    | some literal =>
      rw [weightText, List.append_cons,
        List.getLast?_append_of_ne_nil _ literal.text_ne_nil] at last
      rcases literal.mem_text c (List.mem_of_mem_getLast? last) with digit | rfl
      · exact Numeral.isBlank_of_isDigit digit
      · decide

/-- Guard, labels and weight are recognised where they are written in this order, each of the two
others only if it is there. -/
theorem clause?_written (solid : ∀ condition ∈ guard, Text.IsSolid condition)
    (unescaping : ∀ condition ∈ guard, '\\' ∉ condition)
    (plain : ∀ c ∈ inner, c ≠ '(' ∧ c ≠ ')' ∧ c ≠ '\\')
    (weight : Option Expression.NumberLiteral) :
    clause? (guardText guard ++ '(' :: (inner ++ [')']) ++ weightText weight) =
      some ⟨guard, labelsOf inner, weight.map (·.value)⟩ := by
  obtain ⟨spaced, read⟩ := guard?_trimEnd_guardText solid
  have closed : guardText guard ++ '(' :: (inner ++ [')']) =
      (guardText guard ++ '(' :: inner) ++ [')'] := by simp
  have group : lastGroup? (guardText guard ++ '(' :: (inner ++ [')'])) =
      some (guardText guard, inner) := by
    apply (lastGroup?_eq_some_iff _).2
    · exact ⟨rfl, closes_unmentioned fun c member => ⟨(plain c member).1, (plain c member).2.1⟩⟩
    · have unmarked : '\\' ∉ guardText guard := by
        cases guard with
        | none => exact List.not_mem_nil
        | some condition => simpa [guardText] using unescaping condition rfl
      simp only [List.mem_append, List.mem_cons, not_or]
      exact ⟨unmarked, by decide, fun member => (plain _ member).2.2 rfl, by decide,
        List.not_mem_nil⟩
  have split : splitWeight (guardText guard ++ '(' :: (inner ++ [')']) ++ weightText weight) =
      (guardText guard ++ '(' :: (inner ++ [')']), weight.map (·.value)) := by
    rw [closed]
    exact splitWeight_weightText _ weight
  have last : (guardText guard ++ '(' :: (inner ++ [')'])).getLast? = some ')' := by
    rw [closed, List.getLast?_concat]
  -- The label clause stands between the weight and the guard.
  rw [clause?, trim_written solid, split]
  dsimp only
  rw [last, bne_self_eq_false, Bool.and_false, Bool.false_and, if_neg Bool.false_ne_true]
  exact clauseWith?_group _ (splitLabels?_group group spaced) read

end Clauses

/-- A condition without blanks around it that holds nothing a guard must not hold: no bracket of a
tag, no backslash and no double colon. -/
structure IsGuard (condition : Text) : Prop where
  solid : Text.IsSolid condition
  plain : ∀ c ∈ condition, c ∉ "<>\\".toList
  single : ¬ [':', ':'] <:+: condition

/-- A label in lower case without blanks around it that holds nothing a label must not hold. -/
structure IsLabel (label : Text) : Prop where
  solid : Text.IsSolid label
  small : Text.lower label = label
  plain : ∀ c ∈ label, c ∉ ",():<>\\".toList

/-- Labels that are joined by commas are read as the labels that they are. -/
theorem labelsOf_join {labels : List Text} (each : ∀ label ∈ labels, IsLabel label) :
    labelsOf (Text.join [','] labels) = Text.ordered labels := by
  by_cases empty : labels = []
  · rw [empty]
    rfl
  · have apart : ∀ label ∈ labels, ',' ∉ label :=
      fun label member comma => (each label member).plain ',' comma (by decide)
    have kept : labels.map (fun label => Text.lower (Text.trim label)) = labels := by
      refine (List.map_congr_left fun label member => ?_).trans (List.map_id _)
      rw [(each label member).solid.trim, (each label member).small]
      rfl
    have filled : labels.filter (fun label => !label.isEmpty) = labels := by
      rw [List.filter_eq_self]
      intro label member
      rw [Bool.not_eq_true', List.isEmpty_eq_false_iff]
      exact (each label member).solid.filled
    rw [labelsOf, Text.split_join_alone empty apart, kept, filled]

end Choice

/-- A choice with its options written in the canonical way: perhaps a guard, a list of labels that
may be empty, perhaps a weight, and any value. -/
structure CanonicalChoice where
  guard : Option Text
  labels : List Text
  weight : Option Expression.NumberLiteral
  value : Text
  guarded : ∀ condition ∈ guard, Choice.IsGuard condition
  labelled : ∀ label ∈ labels, Choice.IsLabel label

namespace CanonicalChoice

variable (choice : CanonicalChoice)

/-- The options before the double colon. -/
def options : Text :=
  Choice.guardText choice.guard ++ '(' :: (Text.join [','] choice.labels ++ [')']) ++
    Choice.weightText choice.weight

/-- The choice as it is written. -/
def text : Text := choice.options ++ ([':', ':'] ++ choice.value)

/-- The joined labels have characters of labels, and commas. -/
theorem mem_join_labels :
    ∀ c ∈ Text.join [','] choice.labels, c ∉ "():<>\\".toList := by
  have excluded : ∀ d ∈ "():<>\\".toList, d ∈ ",():<>\\".toList := by decide
  refine @Text.join_of_parts (fun text => ∀ c ∈ text, c ∉ "():<>\\".toList) ?_ ?_ [','] _ ?_ ?_
  · exact fun c member => absurd member List.not_mem_nil
  · intro first second front back c member
    exact (List.mem_append.1 member).elim (front c) (back c)
  · decide
  · intro label among c member inside
    exact (choice.labelled label among).plain c member (excluded c inside)

/-- A weight has characters of numerals, and a blank. -/
theorem mem_weightText {c : Char} (member : c ∈ Choice.weightText choice.weight) :
    c ∉ ":<>\\".toList := by
  cases given : choice.weight with
  | none =>
    rw [given] at member
    exact absurd member List.not_mem_nil
  | some literal =>
    rw [given] at member
    intro excluded
    have other : ∀ d ∈ ":<>\\".toList, d.isDigit = false ∧ d ≠ '.' ∧ d ≠ ' ' := by decide
    obtain ⟨noDigit, noPoint, noBlank⟩ := other c excluded
    rcases List.mem_cons.1 member with blank | within
    · exact noBlank blank
    · exact literal.ne_of_mem within ⟨noDigit, noPoint⟩ rfl

/-- The options hold nothing that hides the double colon behind them. -/
theorem options_plain : ∀ c ∈ choice.options, c ∉ "<>\\".toList := by
  intro c member excluded
  have wider : ∀ d ∈ "<>\\".toList,
      d ∈ "():<>\\".toList ∧ d ∈ ":<>\\".toList ∧ d ∉ "()".toList ∧ d ∉ "if ".toList := by decide
  obtain ⟨noLabel, noWeight, noParenthesis, noWord⟩ := wider c excluded
  simp only [options, List.mem_append, List.mem_cons] at member
  rcases member with (guard | opens | (label | closes | nothing)) | weight
  · cases given : choice.guard with
    | none =>
      rw [given] at guard
      exact absurd guard List.not_mem_nil
    | some condition =>
      rw [given] at guard
      simp only [Choice.guardText, List.mem_append] at guard
      rcases guard with (word | inside) | blank
      · exact noWord word
      · exact (choice.guarded condition given).plain c inside excluded
      · exact noWord (by rw [List.mem_singleton.1 blank]; decide)
  · exact noParenthesis (by rw [opens]; decide)
  · exact choice.mem_join_labels c label noLabel
  · exact noParenthesis (by rw [closes]; decide)
  · exact absurd nothing List.not_mem_nil
  · exact choice.mem_weightText weight noWeight

/-- No double colon begins within the options. -/
theorem options_single : ¬ [':', ':'] <:+: choice.options ++ [':'] := by
  have parts : choice.options ++ [':'] = Choice.guardText choice.guard ++
      '(' :: (Text.join [','] choice.labels ++
        ')' :: (Choice.weightText choice.weight ++ [':'])) := by
    simp [options]
  rw [parts, infix_around (by decide), infix_around (by decide)]
  rintro (guard | labels | weight)
  · cases given : choice.guard with
    | none =>
      rw [given] at guard
      exact absurd guard (by decide)
    | some condition =>
      have words : Choice.guardText (some condition) =
          ['i', 'f'] ++ ' ' :: (condition ++ ' ' :: []) := by simp [Choice.guardText]
      rw [given, words, infix_around (by decide), infix_around (by decide)] at guard
      rcases guard with word | inside | nothing
      · exact absurd word (by decide)
      · exact (choice.guarded condition given).single inside
      · exact absurd nothing (by decide)
  · exact choice.mem_join_labels ':' (labels.subset List.mem_cons_self) (by decide)
  · -- Behind the labels there is one colon only.
    have none : List.count ':' (Choice.weightText choice.weight) = 0 :=
      List.count_eq_zero.2 fun member => choice.mem_weightText member (by decide)
    have twice := weight.sublist.count_le ':'
    rw [List.count_append, none] at twice
    exact absurd twice (by decide)

/-- The canonical form of a choice is read as that choice: the guard, the set of its labels in
ascending order, the weight, which is one where none is written, and the value. -/
theorem ofText_text :
    (Choice.ofText choice.text).guard = choice.guard ∧
      (Choice.ofText choice.text).labels.Pairwise (· < ·) ∧
      (∀ label, label ∈ (Choice.ofText choice.text).labels ↔ label ∈ choice.labels) ∧
      (Choice.ofText choice.text).weight = (choice.weight.map (·.value)).getD 1.0 ∧
      (Choice.ofText choice.text).value = choice.value := by
  have inside : ∀ c ∈ Text.join [','] choice.labels, c ≠ '(' ∧ c ≠ ')' ∧ c ≠ '\\' := by
    intro c member
    have other := choice.mem_join_labels c member
    refine ⟨?_, ?_, ?_⟩
    all_goals
      rintro rfl
      exact other (by decide)
  have read := Choice.clause?_written
    (fun condition given => (choice.guarded condition given).solid)
    (fun condition given member => (choice.guarded condition given).plain '\\' member (by decide))
    inside choice.weight
  rw [Choice.labelsOf_join choice.labelled] at read
  rw [text, Choice.ofText_clause choice.options_plain choice.options_single read]
  exact ⟨rfl, Text.pairwise_ordered _, fun label => Text.mem_ordered, rfl, rfl⟩

/-- A guard that ends with a number in parentheses, two labels, and a value with a double colon. -/
def warmest : CanonicalChoice where
  guard := some "max(n) eq (2)".toList
  labels := ["warm".toList, "bright red".toList]
  weight := some ⟨['2'], some ['5'], rfl, by decide, by decide⟩
  value := ":a::b".toList
  guarded := by
    rintro condition ⟨⟩
    exact ⟨⟨by decide, fun _ head => by cases head; decide, fun _ last => by cases last; decide⟩,
      by decide, by decide⟩
  labelled := by
    have first : Choice.IsLabel "warm".toList :=
      ⟨⟨by decide, fun _ head => by cases head; decide, fun _ last => by cases last; decide⟩,
        by decide, by decide⟩
    have second : Choice.IsLabel "bright red".toList :=
      ⟨⟨by decide, fun _ head => by cases head; decide, fun _ last => by cases last; decide⟩,
        by decide, by decide⟩
    simp only [List.mem_cons, List.not_mem_nil, or_false]
    rintro label (rfl | rfl)
    · exact first
    · exact second

example : warmest.text = "if max(n) eq (2) (warm,bright red) 2.5:::a::b".toList := rfl

end CanonicalChoice

end DynamicPrompt
