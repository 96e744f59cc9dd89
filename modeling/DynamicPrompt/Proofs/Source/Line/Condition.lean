import DynamicPrompt.Proofs.Text.Lowercase
import DynamicPrompt.Proofs.Work
import DynamicPrompt.Source.Condition

/-!
# Characters of conditions

A condition is compiled into an expression of the same characters, with operators, parentheses and
blanks between them. Only the operator is written anew, in small letters. So a character that conditions
are not written with, such as a line feed or a bracket of a construct, stands in the expression only if
it stands in the condition.
-/

namespace DynamicPrompt.Source.Condition

/-- The characters of operators in expressions, and those between them. -/
def isExpressionCharacter (c : Char) : Bool := c.isAlpha || " (),&|".toList.contains c

/-- A character of ASCII that means nothing in the expression of a condition. -/
structure IsForeign (mark : Char) : Prop where
  ascii : mark.toNat < 0x80
  visible : mark ≠ '\x00'
  unused : isExpressionCharacter mark = false

instance (mark : Char) : Decidable (IsForeign mark) :=
  decidable_of_iff (mark.toNat < 0x80 ∧ mark ≠ '\x00' ∧ isExpressionCharacter mark = false)
    ⟨fun each => ⟨each.1, each.2.1, each.2.2⟩,
      fun foreign => ⟨foreign.ascii, foreign.visible, foreign.unused⟩⟩

section Parts

variable {mark : Char} {text : Text}

/-- What is missing in a text is missing in its first word and behind it. -/
theorem not_mem_firstWord (absent : mark ∉ text) :
    mark ∉ (firstWord text).1 ∧ mark ∉ (firstWord text).2 := by
  unfold firstWord
  split
  · next word rest cut =>
    obtain ⟨c, _, rfl⟩ := Text.cutAt?_append cut
    rw [List.mem_append, List.mem_cons, not_or, not_or] at absent
    exact ⟨absent.1, fun member => absent.2.2 ((List.dropWhile_suffix isBlank).subset member)⟩
  · exact ⟨absent, List.not_mem_nil⟩

/-- What is missing in a text is missing in its values. -/
theorem not_mem_values? {values : List Text} (absent : mark ∉ text) (read : values? text = some values) :
    ∀ value ∈ values, mark ∉ value := by
  unfold values? at read
  split at read
  · next list =>
    split at read
    · obtain rfl := Option.some.inj read
      intro value member inside
      obtain ⟨piece, among, rfl⟩ := List.mem_map.1 member
      have within := (Text.mem_split among mark ((Text.trim_infix piece).subset inside)).1
      exact absent (List.mem_cons_of_mem '(' (List.dropLast_subset list within))
    · exact absurd read (by rintro ⟨⟩)
  · obtain rfl := Option.some.inj read
    exact fun value member => by rwa [List.mem_singleton.1 member]

end Parts

section Expressions

variable {mark : Char} (foreign : IsForeign mark)

include foreign

/-- It stands in no word of characters of expressions. -/
theorem IsForeign.absent {word : Text} (made : word.all isExpressionCharacter = true) : mark ∉ word := by
  intro member
  have known := List.all_eq_true.1 made mark member
  rw [foreign.unused] at known
  exact Bool.false_ne_true known

/-- Small letters bring it in nowhere. -/
theorem IsForeign.lower {text : Text} (absent : mark ∉ text) : mark ∉ Text.lower text := by
  have wordless : mark.isAlpha = false := by
    have unused := foreign.unused
    rw [isExpressionCharacter, Bool.or_eq_false_iff] at unused
    exact unused.1
  exact fun member =>
    absent (Text.mem_of_mem_lower foreign.ascii foreign.visible wordless member)

/-- It stands in no operator that conditions are turned into. -/
theorem not_mem_negated? {operator opposite : Text} (known : negated? operator = some opposite) :
    mark ∉ operator ∧ mark ∉ opposite := by
  have all : ∀ pair ∈ [("eq".toList, "ne".toList), ("ne".toList, "eq".toList),
      ("gt".toList, "le".toList), ("le".toList, "gt".toList), ("lt".toList, "ge".toList),
      ("ge".toList, "lt".toList)],
      pair.1.all isExpressionCharacter = true ∧ pair.2.all isExpressionCharacter = true := by
    decide
  obtain ⟨before, after, whole, _⟩ := List.lookup_eq_some_iff.1 known
  have among := all (operator, opposite) (by rw [whole]; exact List.mem_append_right _ List.mem_cons_self)
  exact ⟨foreign.absent among.1, foreign.absent among.2⟩

/-- It stands in no expression of one value if it stands in none of its parts. -/
theorem not_mem_term? {name operator value term : Text} {negate : Bool} (named : mark ∉ name)
    (valued : mark ∉ value) (known : term? name operator negate value = some term) : mark ∉ term := by
  have word {word : Text} (made : word.all isExpressionCharacter = true) : mark ∉ word :=
    foreign.absent made
  unfold term? at known
  dsimp only at known
  split at known
  · obtain rfl := Option.some.inj known
    split
    · simp only [List.mem_append, not_or]
      exact ⟨word (by decide), ⟨⟨⟨word (by decide), named⟩, word (by decide)⟩, valued⟩, word (by decide)⟩
    · simp only [List.mem_append, not_or]
      exact ⟨⟨⟨⟨word (by decide), named⟩, word (by decide)⟩, valued⟩, word (by decide)⟩
  · obtain ⟨written, stated, rfl⟩ := Option.map_eq_some_iff.1 known
    have operation : mark ∉ written := by
      split at stated
      · obtain rfl := Option.some.inj stated
        split
        · exact word (by decide)
        · exact word (by decide)
      · split at stated
        · next opposite found =>
          obtain ⟨front, back⟩ := not_mem_negated? foreign found
          obtain rfl := Option.some.inj stated
          split
          · exact back
          · exact front
        · exact absurd stated (by rintro ⟨⟩)
    simp only [List.mem_append, not_or]
    exact ⟨⟨⟨⟨named, word (by decide)⟩, operation⟩, word (by decide)⟩, valued⟩

/-- It stands in no expression of several values. -/
theorem not_mem_terms {name operator : Text} {negate : Bool} (named : mark ∉ name)
    {values terms : List Text} (valued : ∀ value ∈ values, mark ∉ value)
    (known : values.mapM (term? name operator negate) = some terms) :
    ∀ term ∈ terms, mark ∉ term := by
  have each := mapM_eq_some_iff.1 known
  intro term member
  have image : some term ∈ values.map (term? name operator negate) := by
    rw [each]
    exact List.mem_map_of_mem member
  obtain ⟨value, among, written⟩ := List.mem_map.1 image
  exact not_mem_term? foreign named (valued value among) written

/-- It stands in no expression of a condition whose parts it is missing in. -/
theorem not_mem_compileWith {condition name operator value expression : Text} {negate : Bool}
    (named : mark ∉ name) (operation : mark ∉ operator) (valued : mark ∉ value)
    (compiled : (compileWith condition name negate operator value).1 = some expression) :
    mark ∉ expression := by
  have word {word : Text} (made : word.all isExpressionCharacter = true) : mark ∉ word :=
    foreign.absent made
  unfold compileWith at compiled
  split at compiled
  · exact absurd compiled (by rintro ⟨⟩)
  · next values read =>
    split at compiled
    · next terms known =>
      obtain rfl := Option.some.inj compiled
      apply @Text.join_of_parts fun text => mark ∉ text
      · exact List.not_mem_nil
      · exact fun front back member => (List.mem_append.1 member).elim front back
      · split
        · exact word (by decide)
        · exact word (by decide)
      · exact not_mem_terms foreign named (not_mem_values? valued read) known
    · obtain rfl := Option.some.inj compiled
      have shorter {text : Text} (absent : mark ∉ text) : mark ∉ Text.trimEnd text :=
        fun member => absent ((Text.dropEndWhile_isPrefix isBlank text).subset member)
      have negation : mark ∉ (if negate then "not ".toList else []) := by
        split
        · exact word (by decide)
        · exact List.not_mem_nil
      refine shorter ?_
      simp only [List.mem_append, not_or]
      exact ⟨⟨⟨⟨⟨named, word (by decide)⟩, negation⟩, operation⟩, word (by decide)⟩, valued⟩

/-- It stands in no expression of a condition that it is missing in. -/
theorem not_mem_compile {text condition : Text} (absent : mark ∉ text)
    (compiled : (compile text).1 = some condition) : mark ∉ condition := by
  have part {inside text : Text} (absent : mark ∉ text) (chosen : inside ⊆ text) : mark ∉ inside :=
    fun member => absent (chosen member)
  have trimmed := part absent (Text.trim_infix text).subset
  obtain ⟨named, others⟩ := not_mem_firstWord trimmed
  obtain ⟨_, later⟩ := not_mem_firstWord others
  unfold compile at compiled
  dsimp only at compiled
  split at compiled
  · exact absurd compiled (by rintro ⟨⟩)
  · split at compiled
    · obtain rfl := Option.some.inj compiled
      exact named
    · split at compiled
      · obtain rfl := Option.some.inj compiled
        rw [List.mem_append, not_or]
        exact ⟨foreign.absent (by decide), named⟩
      · have stated : mark ∉ (if Text.sameLetters (firstWord (firstWord (Text.trim text)).2).1 "not" then
            (firstWord (firstWord (Text.trim text)).2).2 else (firstWord (Text.trim text)).2) := by
          split
          · exact later
          · exact others
        obtain ⟨operation, value⟩ := not_mem_firstWord stated
        exact not_mem_compileWith foreign named (foreign.lower operation)
          (part value (Text.trim_infix _).subset) compiled

/-- It stands in no expression of conditions that it is missing in. -/
theorem not_mem_compileAll {conditions compiled : List (Option Text)}
    (absent : ∀ stated ∈ conditions, ∀ condition ∈ stated, mark ∉ condition)
    (read : (compileAll conditions).1 = some compiled) :
    ∀ stated ∈ compiled, ∀ condition ∈ stated, mark ∉ condition := by
  induction conditions generalizing compiled with
  | nil =>
    obtain rfl := Option.some.inj read
    exact List.forall_mem_nil _
  | cons first rest inductionHypothesis =>
    obtain ⟨front, back⟩ := List.forall_mem_cons.1 absent
    cases first with
    | none =>
      obtain ⟨others, known, rfl⟩ := Option.map_eq_some_iff.1 read
      exact List.forall_mem_cons.2 ⟨by rintro _ ⟨⟩, inductionHypothesis back known⟩
    | some text =>
      unfold compileAll at read
      split at read
      · exact absurd read (by rintro ⟨⟩)
      · next condition warnings alone =>
        obtain ⟨others, known, rfl⟩ := Option.map_eq_some_iff.1 read
        have written := not_mem_compile foreign (front text rfl) (congrArg Prod.fst alone)
        exact List.forall_mem_cons.2 ⟨by rintro _ ⟨⟩; exact written, inductionHypothesis back known⟩

end Expressions

end DynamicPrompt.Source.Condition
