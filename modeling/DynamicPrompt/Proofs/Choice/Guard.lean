import DynamicPrompt.Proofs.Choice.Clause
import DynamicPrompt.Proofs.Expression.Adjacency

/-!
# Guards written alone

A guard stands before the value with no labels and no weight. Its end competes with both: a number
may look like a weight, a group in parentheses like a label clause. The number is given back to the
guard, since in an expression it follows no closing parenthesis. A group is not given back: where a
blank and something more stand before it, it is the label clause, even if the expression reads it as
the arguments of a call. Parentheses in quoted texts count as well.
-/

namespace DynamicPrompt.Choice

open Expression (parse?)

section Numbers

variable {condition : Text} {e : Expr}

/-- A number at the end of an expression follows no closing parenthesis. -/
theorem ne_closer_of_accepted {front spacing run : Text} {c : Char}
    (accepted : parse? condition = some e)
    (whole : Text.trimEnd condition = front ++ c :: (spacing ++ run))
    (blank : spacing.all isBlank = true)
    (digits : run.all (fun d => d.isDigit || d == '.') = true) (filled : run ≠ []) : c ≠ ')' := by
  rintro rfl
  obtain ⟨trailing, parts, blanks⟩ := Text.exists_trimEnd condition
  obtain ⟨d, run, rfl⟩ := List.exists_cons_of_ne_nil filled
  rw [List.all_cons, Bool.and_eq_true] at digits
  have unquoted : ∀ x ∈ run ++ trailing, Expression.isQuote x = false := by
    intro x member
    rcases List.mem_append.1 member with within | behind
    · exact Expression.isQuote_of_numeral (List.all_eq_true.1 digits.2 x within)
    · exact Expression.isQuote_of_isBlank (List.all_eq_true.1 blanks x behind)
  have written : condition = front ++ ')' :: (spacing ++ d :: (run ++ trailing)) := by
    rw [parts, whole]
    simp
  rw [written] at accepted
  exact Expression.not_accepted_numeral accepted blank digits.1 unquoted

/-- Without a weight the options are guard and labels. -/
theorem clause?_unweighted {text options : Text}
    (split : splitWeight (Text.trim text) = (options, none)) :
    clause? text = clauseWith? options none := by
  rw [clause?, split]
  rfl

/-- A number behind a guard that ends with no parenthesis is no weight. -/
theorem clause?_numbered {text before guard : Text} {weight : Float}
    (split : splitWeight (Text.trim text) = (before, some weight))
    (last : before.getLast? ≠ some ')') (read : guard? before = some (some guard)) :
    clause? text = clauseWith? (Text.trim text) none := by
  have ends : (before.getLast? != some ')') = true := bne_iff_ne.2 last
  rw [clause?, split]
  dsimp only
  rw [read, ends]
  rfl

/-- Options that begin with the word `if` keep it when blanks behind them are taken off. -/
theorem trimEnd_if (filled : Text.trim condition ≠ []) :
    Text.trimEnd ('i' :: 'f' :: ' ' :: condition) =
      'i' :: 'f' :: ' ' :: Text.trimEnd condition := by
  have solid : (Text.trimEnd condition).isEmpty = false := by
    rw [List.isEmpty_eq_false_iff]
    intro empty
    rw [← Text.trim_trimEnd, empty] at filled
    exact filled rfl
  have parted := Text.trimEnd_append ['i', 'f', ' '] condition
  rw [solid] at parted
  exact parted

/-- The same holds when blanks at both ends are. -/
theorem trim_if (filled : Text.trim condition ≠ []) :
    Text.trim ('i' :: 'f' :: ' ' :: condition) = 'i' :: 'f' :: ' ' :: Text.trimEnd condition :=
  trimEnd_if filled

/-- Before a blank and a number stands something that is no blank, unless trimming leaves the
number alone. -/
theorem exists_before_number {front run : Text} {c : Char} (blank : isBlank c = true)
    (digits : run.all (fun d => d.isDigit || d == '.') = true)
    (unnumbered : ∃ d ∈ Text.trim (front ++ c :: run), (d.isDigit || d == '.') = false) :
    ∃ x ∈ front, isBlank x = false := by
  by_contra none
  have blanks : (front ++ [c]).all isBlank = true := by
    rw [List.all_eq_true]
    intro x within
    rcases List.mem_append.1 within with before | last
    · exact by_contra fun other => none ⟨x, before, Bool.of_not_eq_true other⟩
    · rw [List.mem_singleton.1 last]
      exact blank
  obtain ⟨d, member, other⟩ := unnumbered
  rw [List.append_cons, Text.trim_append blanks] at member
  have digit := List.all_eq_true.1 digits d ((Text.trim_infix run).subset member)
  rw [other] at digit
  exact Bool.noConfusion digit

/-- Of a guard written alone, either nothing is taken for a weight, or what stands before the number
is not blank and does not end with a closing parenthesis. -/
theorem splitWeight_if (accepted : parse? condition = some e)
    (unnumbered : ∃ c ∈ Text.trim condition, (c.isDigit || c == '.') = false) :
    splitWeight ('i' :: 'f' :: ' ' :: Text.trimEnd condition) =
        ('i' :: 'f' :: ' ' :: Text.trimEnd condition, none) ∨
      ∃ stem c weight, splitWeight ('i' :: 'f' :: ' ' :: Text.trimEnd condition) =
        ('i' :: 'f' :: ' ' :: (stem ++ [c]), some weight) ∧ isBlank c = false ∧ c ≠ ')' := by
  rw [← Text.trim_trimEnd] at unnumbered
  obtain ⟨d, member, other⟩ := unnumbered
  obtain ⟨front, c, run, parts, fails, digits⟩ :=
    @Text.exists_last (fun d => d.isDigit || d == '.') _
      ⟨d, (Text.trim_infix _).subset member, other⟩
  rw [parts] at member
  have split := @splitWeight_run (['i', 'f', ' '] ++ front) run c digits fails
  have written : (['i', 'f', ' '] ++ front) ++ c :: run =
      'i' :: 'f' :: ' ' :: Text.trimEnd condition := by
    rw [parts]
    simp
  rw [written] at split
  cases read : Numeral.float? run with
  | none =>
    rw [read] at split
    exact .inl split
  | some weight =>
    rw [read] at split
    have numbered : run ≠ [] := by
      rintro rfl
      have nothing : Numeral.float? [] = none := by decide
      exact absurd (nothing.symm.trans read).symm (Option.some_ne_none weight)
    have closerless : c ≠ ')' :=
      @ne_closer_of_accepted condition e front [] run c accepted parts rfl digits numbered
    cases blank : isBlank c with
    | false =>
      have joined : (isBlank c || c == ')') = false := by
        rw [blank, beq_false_of_ne closerless, Bool.or_self]
      dsimp only at split
      rw [joined, if_neg Bool.false_ne_true] at split
      exact .inl split
    | true =>
      obtain ⟨stem, x, spacing, rfl, solid, blanks⟩ :=
        Text.exists_last (exists_before_number blank digits ⟨d, member, other⟩)
      have behind : (spacing ++ [c]).all isBlank = true := by
        rw [List.all_append, blanks, List.all_cons, blank]
        rfl
      have before : Text.trimEnd (['i', 'f', ' '] ++ (stem ++ x :: spacing) ++ [c]) =
          'i' :: 'f' :: ' ' :: (stem ++ [x]) := by
        have regrouped : ['i', 'f', ' '] ++ (stem ++ x :: spacing) ++ [c] =
            (['i', 'f', ' '] ++ stem) ++ x :: (spacing ++ [c]) := by simp
        rw [regrouped, Text.trimEnd_run behind solid]
        simp
      have closing : Text.trimEnd condition = stem ++ x :: ((spacing ++ [c]) ++ run) := by
        rw [parts]
        simp
      dsimp only at split
      rw [blank, Bool.true_or, if_pos rfl, before] at split
      exact .inr ⟨stem, x, weight, split, solid,
        ne_closer_of_accepted accepted closing behind digits numbered⟩

/-- A number that ends a guard written alone is no weight. -/
theorem clause?_if (accepted : parse? condition = some e)
    (unnumbered : ∃ c ∈ Text.trim condition, (c.isDigit || c == '.') = false) :
    clause? ('i' :: 'f' :: ' ' :: condition) =
      clauseWith? ('i' :: 'f' :: ' ' :: Text.trimEnd condition) none := by
  have filled : Text.trim condition ≠ [] := by
    obtain ⟨c, member, -⟩ := unnumbered
    exact List.ne_nil_of_mem member
  have whole := trim_if filled
  rcases splitWeight_if accepted unnumbered with
    unweighted | ⟨stem, c, weight, numbered, solid, other⟩
  · rw [← whole] at unweighted ⊢
    exact clause?_unweighted unweighted
  · rw [← whole] at numbered ⊢
    have last : ('i' :: 'f' :: ' ' :: (stem ++ [c])).getLast? = some c :=
      @List.getLast?_concat _ ('i' :: 'f' :: ' ' :: stem) c
    apply clause?_numbered numbered
    · rw [last]
      exact fun same => other (Option.some.inj same)
    · exact guard?_if (Text.trim_ne_nil ⟨c, by simp, solid⟩)

end Numbers

section Groups

variable {condition before inner : Text}

/-- The word `if` belongs to no group. -/
theorem lastGroup?_if (condition : Text) :
    lastGroup? ('i' :: 'f' :: ' ' :: condition) =
      (lastGroup? condition).map fun group => ('i' :: 'f' :: ' ' :: group.1, group.2) := by
  cases found : lastGroup? condition <;> simp [lastGroup?, found]

/-- Options that begin with the word `if` end as what follows it does. -/
theorem getLast?_if (filled : before ≠ []) :
    ('i' :: 'f' :: ' ' :: before).getLast? = before.getLast? :=
  List.getLast?_append_of_ne_nil ['i', 'f', ' '] filled

/-- A condition without the blanks behind it is a guard, unless it is blank. -/
theorem guard?_trimEnd (filled : Text.trim condition ≠ []) :
    guard? ('i' :: 'f' :: ' ' :: Text.trimEnd condition) = some (some (Text.trim condition)) := by
  rw [guard?_if (by rw [Text.trim_trimEnd]; exact filled), Text.trim_trimEnd]

/-- The word `if` alone is no guard. -/
theorem guard?_blank (blank : before.all isBlank = true) :
    guard? (Text.trimEnd ('i' :: 'f' :: ' ' :: before)) = none := by
  have word : Text.trimEnd (['i'] ++ 'f' :: (' ' :: before)) = ['i', 'f'] :=
    Text.trimEnd_run (by rw [List.all_cons, blank]; rfl) (by decide)
  have left : Text.trimEnd ('i' :: 'f' :: ' ' :: before) = ['i', 'f'] := word
  rw [left]
  rfl

/-- A condition ends with a group that is read as a label clause: a blank stands before the group,
and something that is no blank. -/
structure EndsInLabels (condition before inner : Text) : Prop where
  group : EndsInGroup (Text.trimEnd condition) before inner
  spaced : before.getLast?.any isBlank = true
  filled : Text.trim before ≠ []

/-- The group at the end of a condition is the label clause where a blank and something more stand
before it. -/
theorem clauseWith?_if_labels (plain : '\\' ∉ condition)
    (ends : EndsInLabels condition before inner) :
    clauseWith? ('i' :: 'f' :: ' ' :: Text.trimEnd condition) none =
      some ⟨some (Text.trim before), labelsOf inner, none⟩ := by
  have group : lastGroup? ('i' :: 'f' :: ' ' :: Text.trimEnd condition) =
      some ('i' :: 'f' :: ' ' :: before, inner) := by
    rw [lastGroup?_if, (lastGroup?_eq_some_iff (Text.not_mem_trimEnd plain)).2 ends.group]
    rfl
  have spaced : ∀ c ∈ ('i' :: 'f' :: ' ' :: before).getLast?, isBlank c = true := by
    intro c last
    have nonempty : before ≠ [] := by
      rintro rfl
      exact ends.filled rfl
    have blank := ends.spaced
    rw [← getLast?_if nonempty, Option.mem_def.1 last] at blank
    exact blank
  refine clauseWith?_group none (splitLabels?_group group spaced) ?_
  rw [trimEnd_if ends.filled, guard?_trimEnd ends.filled]

/-- Options are a guard if what stands before a label clause would be none. -/
theorem clauseWith?_guard {options : Text} {guard : Option Text}
    (guardless : ∀ before inner, splitLabels? options = some (before, inner) → guard? before = none)
    (read : guard? options = some guard) (weight : Option Float) :
    clauseWith? options weight = some ⟨guard, [], weight⟩ := by
  rw [clauseWith?]
  cases split : splitLabels? options with
  | none =>
    dsimp only [Option.bind_eq_bind, Option.bind_none]
    rw [read]
    rfl
  | some parts =>
    dsimp only [Option.bind_eq_bind, Option.bind_some]
    rw [guardless parts.1 parts.2 split, read]
    rfl

/-- Otherwise the whole condition is the guard. -/
theorem clauseWith?_if_alone (plain : '\\' ∉ condition) (filled : Text.trim condition ≠ [])
    (other : ∀ before inner, ¬ EndsInLabels condition before inner) :
    clauseWith? ('i' :: 'f' :: ' ' :: Text.trimEnd condition) none =
      some ⟨some (Text.trim condition), [], none⟩ := by
  refine clauseWith?_guard ?_ (guard?_trimEnd filled) none
  intro front inner split
  rw [splitLabels?, lastGroup?_if] at split
  cases found : lastGroup? (Text.trimEnd condition) with
  | none =>
    rw [found] at split
    exact absurd split.symm (Option.some_ne_none _)
  | some group =>
    obtain ⟨before, within⟩ := group
    have ends := (lastGroup?_eq_some_iff (Text.not_mem_trimEnd plain)).1 found
    rw [found] at split
    dsimp only [Option.map_some] at split
    split at split
    · next last => exact absurd (List.getLast?_eq_none_iff.1 last) (List.cons_ne_nil _ _)
    · next c last =>
      split at split
      · next spaced =>
        obtain ⟨rfl, rfl⟩ := Prod.mk.inj (Option.some.inj split)
        by_cases blank : before.all isBlank = true
        · exact guard?_blank blank
        · -- What stands before the group would make it a label clause.
          have solid : ∃ x ∈ before, isBlank x = false := by
            simpa using blank
          have nonempty : before ≠ [] := List.ne_nil_of_mem solid.choose_spec.1
          rw [getLast?_if nonempty] at last
          refine absurd ⟨ends, ?_, Text.trim_ne_nil solid⟩ (other before within)
          rw [last]
          exact spaced
      · exact absurd split.symm (Option.some_ne_none _)

end Groups

section Choices

variable {condition : Text} {e : Expr}

/-- A colon that follows an accepted condition belongs to no double colon that begins in it. -/
theorem single_of_accepted (accepted : parse? condition = some e)
    (single : ¬ [':', ':'] <:+: condition) :
    ¬ [':', ':'] <:+: ('i' :: 'f' :: ' ' :: condition) ++ [':'] := by
  intro inside
  have parted : ('i' :: 'f' :: ' ' :: condition) ++ [':'] =
      ['i', 'f'] ++ ' ' :: (condition ++ [':']) := rfl
  rw [parted, infix_around (by decide)] at inside
  rcases inside with word | ⟨front, back, whole⟩
  · exact absurd word (by decide)
  · rcases List.eq_nil_or_concat' back with rfl | ⟨back, c, rfl⟩
    · -- The condition would end with a colon.
      have ended : (front ++ [':']) ++ [':'] = condition ++ [':'] := by
        rw [← whole]
        simp
      rw [← List.append_cancel_right ended] at accepted
      exact Expression.not_accepted_colon accepted (by simp)
    · have ended : (front ++ [':', ':'] ++ back) ++ [c] = condition ++ [':'] := by
        rw [← whole]
        simp
      obtain ⟨within, -⟩ := List.append_inj' ended rfl
      exact single ⟨front, back, within⟩

/-- A guard written alone is taken whole, unless it is a numeral alone or ends with a group in
parentheses that a blank separates from what precedes. Such a group is the label clause. -/
theorem ofText_guard (accepted : (parse? condition).isSome = true)
    (plain : ∀ c ∈ condition, c ∉ "<>\\".toList) (single : ¬ [':', ':'] <:+: condition)
    (unnumbered : ∃ c ∈ Text.trim condition, c.isDigit = false ∧ c ≠ '.') (value : Text) :
    ((∀ before inner, ¬ EndsInLabels condition before inner) →
      ofText ("if ".toList ++ condition ++ ("::".toList ++ value)) =
        ⟨value, 1.0, [], some (Text.trim condition), 0⟩) ∧
    ∀ before inner, EndsInLabels condition before inner →
      ofText ("if ".toList ++ condition ++ ("::".toList ++ value)) =
        ⟨value, 1.0, labelsOf inner, some (Text.trim before), 0⟩ := by
  obtain ⟨e, known⟩ := Option.isSome_iff_exists.1 accepted
  have unescaping : '\\' ∉ condition := fun member => plain '\\' member (by decide)
  have other : ∃ c ∈ Text.trim condition, (c.isDigit || c == '.') = false := by
    obtain ⟨c, member, digitless, pointless⟩ := unnumbered
    exact ⟨c, member, by rw [digitless, Bool.false_or]; exact beq_false_of_ne pointless⟩
  have filled : Text.trim condition ≠ [] := by
    obtain ⟨c, member, -⟩ := unnumbered
    exact List.ne_nil_of_mem member
  have free : ∀ c ∈ 'i' :: 'f' :: ' ' :: condition, c ∉ "<>\\".toList := by
    simp only [List.forall_mem_cons]
    exact ⟨by decide, by decide, by decide, plain⟩
  have reads {clause : Clause}
      (stated : clauseWith? ('i' :: 'f' :: ' ' :: Text.trimEnd condition) none = some clause) :
      ofText ("if ".toList ++ condition ++ ("::".toList ++ value)) =
        ⟨value, clause.weight.getD 1.0, clause.labels, clause.guard, 0⟩ :=
    ofText_clause free (single_of_accepted known single)
      ((clause?_if known other).trans stated) value
  constructor
  · intro alone
    exact reads (clauseWith?_if_alone unescaping filled alone)
  · intro before inner ends
    exact reads (clauseWith?_if_labels unescaping ends)

/-- A comparison with a number is a guard as a whole. A group behind a name and a blank is a label
clause. -/
theorem ofText_guard_readiness :
    ofText "if count gt 1::y".toList = ⟨"y".toList, 1.0, [], some "count gt 1".toList, 0⟩ ∧
      ofText "if ready (x)::y".toList =
        ⟨"y".toList, 1.0, ["x".toList], some "ready".toList, 0⟩ := by
  constructor
  · have read := @ofText_guard "count gt 1".toList (by decide +kernel) (by decide) (by decide)
      ⟨'c', by decide, by decide, by decide⟩ "y".toList
    apply read.1
    rintro before inner ⟨⟨whole, -⟩, -, -⟩
    -- The comparison ends with a digit.
    have last := congrArg List.getLast? whole
    rw [← List.cons_append, ← List.append_assoc, List.getLast?_concat] at last
    exact absurd last (by decide)
  · have read := @ofText_guard "ready (x)".toList (by decide +kernel) (by decide) (by decide)
      ⟨'r', by decide, by decide, by decide⟩ "y".toList
    exact read.2 "ready ".toList ['x'] ⟨⟨by decide, by decide⟩, by decide, by decide⟩

/-- The condition is a call, and yet it is not taken whole. -/
theorem ofText_spaced_call :
    (parse? "ready (x)".toList).isSome = true ∧
      (∀ c ∈ "ready (x)".toList, c ∉ "<>\\".toList) ∧ ¬ [':', ':'] <:+: "ready (x)".toList ∧
      (ofText "if ready (x)::y".toList).guard ≠ some (Text.trim "ready (x)".toList) ∧
      (ofText "if ready (x)::y".toList).labels ≠ [] :=
  ⟨by decide +kernel, by decide, by decide, by decide +kernel, by decide +kernel⟩

end Choices

end DynamicPrompt.Choice
