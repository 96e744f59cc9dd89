import DynamicPrompt.Expression.Evaluation
import DynamicPrompt.Proofs.Expression.Grammar
import DynamicPrompt.Proofs.Expression.Spelling
import DynamicPrompt.Proofs.Text.Lowercase
import DynamicPrompt.Source.Condition

/-!
# Conditions with lists of values

A condition compares a name with the values of a list: it holds if it holds for one of them, and
negated, if it holds for none. It is compiled into one term for each value, with a connective
between neighbours, and a negation is moved inside the terms.

The terms are spelled so that they are cut into the tokens they were made of, and the connectives
bind less tightly than what stands in a term, so the expression that is read is the terms joined
from the left. Its value is found term by term; where the negation was moved inside, disjunction has
become conjunction, and both together are the negation of the disjunction.
-/

namespace DynamicPrompt

/-- The comparison that holds exactly where the given one does not. -/
def Comparison.opposite : Comparison → Comparison
  | .eq => .ne
  | .ne => .eq
  | .lt => .ge
  | .le => .gt
  | .gt => .le
  | .ge => .lt

/-- The word for a comparison. -/
def Comparison.word : Comparison → Text
  | .eq => "eq"
  | .ne => "ne"
  | .lt => "lt"
  | .le => "le"
  | .gt => "gt"
  | .ge => "ge"

/-- The comparison, or its opposite under a negation. -/
def Comparison.under (comparison : Comparison) (negate : Bool) : Comparison :=
  if negate then comparison.opposite else comparison

namespace Source.Condition

open Expression

/-- A value in a list: a name, a numeral or a quoted text without commas. -/
inductive Operand where
  | name (name : Identifier)
  | number (literal : NumberLiteral)
  | quotation (quoted : Quotation) (commaless : ',' ∉ quoted.content)

namespace Operand

/-- The value as it is written. -/
def text : Operand → Text
  | name identifier => identifier.text
  | number literal => literal.text
  | quotation quoted _ => quoted.text

/-- The value as an expression. -/
def expr : Operand → Expr
  | name identifier => .name identifier.text
  | number literal => .literal (.number literal.value)
  | quotation quoted _ => .literal (.text quoted.content)

/-- The value under an assignment of values to names. -/
def value (assignment : Text → Value) : Operand → Value
  | name identifier => assignment identifier.text
  | number literal => .number literal.value
  | quotation quoted _ => .text quoted.content

/-- The name, if the value is one. -/
def names : Operand → List Text
  | name identifier => [identifier.text]
  | _ => []

end Operand

/-- What a condition asks of its name and a value: a comparison, or whether the name's text holds
the value's, or whether the name's value is among several. -/
inductive Test where
  | compare (comparison : Comparison)
  | contains
  | among

namespace Test

/-- The word for the test. -/
def word : Test → Text
  | compare comparison => comparison.word
  | contains => "contains"
  | among => "in"

/-- The comparison that the test makes, if it makes one. -/
def comparison? : Test → Option Comparison
  | compare comparison => some comparison
  | contains => none
  | among => some .eq

/-- Whether a value satisfies the test with another one. -/
def satisfied (test : Test) (left right : Value) : Bool :=
  match test.comparison? with
  | some comparison => holds comparison (order left right)
  | none => Text.occursIn right.toText left.toText

end Test

/-- A condition with a list of values, as it is written. -/
structure Listed where
  name : Identifier
  negation : Option Text
  negates : ∀ word ∈ negation, Text.sameLetters word "not" = true
  test : Test
  word : Text
  spells : Text.sameLetters word test.word = true
  first : Operand
  others : List Operand
  spacing : Text
  blank : spacing.all isBlank = true

namespace Listed

variable (written : Listed)

/-- The list of the values, in parentheses and with commas between them. -/
def list : Text :=
  '(' :: (Text.join (',' :: written.spacing) ((written.first :: written.others).map Operand.text) ++
    [')'])

/-- The condition as it is written. -/
def text : Text :=
  Text.join " " (written.name.text :: (written.negation.toList ++ [written.word, written.list]))

/-- The names that the condition reads. -/
def names : List Text :=
  written.name.text :: (written.first :: written.others).flatMap Operand.names

/-- Whether some value of the list satisfies the test under an assignment. -/
def satisfied (assignment : Text → Value) : Bool :=
  (written.first :: written.others).any fun operand =>
    written.test.satisfied (assignment written.name.text) (operand.value assignment)

end Listed

section Compiling

/-- The text of the term for one value. -/
def Test.term (test : Test) (negate : Bool) (name value : Text) : Text :=
  match test.comparison? with
  | some comparison => name ++ " " ++ (comparison.under negate).word ++ " " ++ value
  | none =>
    let call : Text := "contains(" ++ name ++ ", " ++ value ++ ")"
    if negate then "not " ++ call else call

/-- The operator between two terms. -/
def connective (negate : Bool) : Infix := if negate then .and else .or

/-- The operator between two terms, as it is written. -/
def connectiveText (negate : Bool) : Text := if negate then " && " else " || "

/-- The terms are those of the test, whatever the value. -/
theorem term?_word (test : Test) (negate : Bool) (name : Text) :
    term? name test.word negate = fun value => some (test.term negate name value) := by
  funext value
  cases test with
  | compare comparison => cases comparison <;> cases negate <;> rfl
  | contains => cases negate <;> rfl
  | among => cases negate <;> rfl

/-- The word for a test is made of small letters and is not the word of negation. -/
theorem Test.word_small (test : Test) :
    test.word.all Char.isLower = true ∧ test.word ≠ [] ∧
      Text.sameLetters test.word "not" = false := by
  cases test with
  | compare comparison => cases comparison <;> decide
  | contains => decide
  | among => decide

/-- The first word of a text ends at the first blank. -/
theorem firstWord_run {word rest : Text} (unspaced : Text.IsUnspaced word)
    (solid : Text.IsSolid rest) : firstWord (word ++ ' ' :: rest) = (word, rest) := by
  have begun : Text.trimStart rest = rest := by
    cases rest with
    | nil => rfl
    | cons c rest => exact List.dropWhile_cons_of_neg (by simp [solid.starts c rfl])
  rw [firstWord, Text.cutAt?_run unspaced.unspaced (by decide)]
  dsimp only
  rw [begun]

/-- A value has no blanks around it. -/
theorem Operand.solid (operand : Operand) : Text.IsSolid operand.text := by
  cases operand with
  | name identifier => exact (isUnspaced_identifier identifier).solid
  | number literal =>
    apply Text.IsUnspaced.solid
    refine ⟨literal.text_ne_nil, fun c member => ?_⟩
    rcases literal.mem_text c member with digit | rfl
    · exact Numeral.isBlank_of_isDigit digit
    · decide
  | quotation quoted commaless =>
    obtain ⟨quote, content, quotes, inside⟩ := quoted
    have visible : isBlank quote = false := by
      rcases quotes with rfl | rfl <;> decide
    constructor
    · exact List.cons_ne_nil _ _
    · intro c head
      obtain rfl : quote = c := Option.some.inj head
      exact visible
    · intro c last
      rw [Operand.text, Quotation.text, ← List.cons_append, List.getLast?_concat] at last
      obtain rfl : quote = c := Option.some.inj last
      exact visible

/-- A value has no commas. -/
theorem Operand.commaless (operand : Operand) : ',' ∉ operand.text := by
  intro member
  cases operand with
  | name identifier => exact absurd (identifier.mem_text ',' member) (by decide)
  | number literal => exact absurd (literal.mem_text ',' member) (by decide)
  | quotation quoted commaless =>
    obtain ⟨quote, content, quotes, inside⟩ := quoted
    have other : ',' ≠ quote := by
      rcases quotes with rfl | rfl <;> decide
    have within : ',' ∈ content := by
      simpa [Operand.text, Quotation.text, other] using member
    exact commaless within

variable (written : Listed)

/-- The values of a list are found. -/
theorem values?_list :
    values? written.list = some ((written.first :: written.others).map Operand.text) := by
  have commaless : ∀ part ∈ written.first.text :: written.others.map Operand.text, ',' ∉ part := by
    rw [← List.map_cons]
    intro part member
    obtain ⟨operand, -, rfl⟩ := List.mem_map.1 member
    exact operand.commaless
  have spaced : ',' ∉ written.spacing := by
    intro member
    exact absurd (List.all_eq_true.1 written.blank ',' member) (by decide)
  have trimmed : ∀ operand : Operand,
      Text.trim (written.spacing ++ operand.text) = operand.text := by
    intro operand
    rw [Text.trim_append written.blank, operand.solid.trim]
  rw [Listed.list, values?]
  rw [if_pos (by simp), List.dropLast_concat, List.map_cons, Text.split_join spaced commaless,
    List.map_cons, List.map_map, List.map_map, written.first.solid.trim]
  simp [trimmed]

/-- The expression that the condition is compiled into: its terms with a connective between
neighbours. -/
def Listed.source : Text :=
  Text.join (connectiveText written.negation.isSome)
    ((written.first :: written.others).map fun operand =>
      written.test.term written.negation.isSome written.name.text operand.text)

/-- Once its words have been told apart, the condition is compiled into its terms. -/
theorem compileWith_list (condition : Text) :
    compileWith condition written.name.text written.negation.isSome written.test.word written.list =
      (some written.source, []) := by
  have terms : ((written.first :: written.others).map Operand.text).mapM
      (term? written.name.text written.test.word written.negation.isSome) =
        some (((written.first :: written.others).map Operand.text).map
          (written.test.term written.negation.isSome written.name.text)) := by
    rw [term?_word]
    exact List.mapM_pure
  rw [compileWith, values?_list]
  dsimp only
  rw [terms, List.map_map]
  rfl

/-- A condition of several words is read word by word: its name, perhaps a negation, the operator
and the value. -/
theorem compile_run {name rest word after operator value : Text} (named : Text.IsUnspaced name)
    (solid : Text.IsSolid rest) (spaced : ' ' ∈ rest) (first : firstWord rest = (word, after))
    (second : firstWord (if Text.sameLetters word "not" then after else rest) = (operator, value)) :
    compile (name ++ ' ' :: rest) =
      compileWith (name ++ ' ' :: rest) name (Text.sameLetters word "not") (Text.lower operator)
        (Text.trim value) := by
  have trimmed : Text.trim (name ++ ' ' :: rest) = name ++ ' ' :: rest := (solid.after named).trim
  have filled : ¬ name.isEmpty = true := by
    rw [List.isEmpty_iff]
    exact named.filled
  have more : ¬ rest.isEmpty = true := by
    rw [List.isEmpty_iff]
    exact solid.filled
  have noNegation : ¬ Text.sameLetters rest "not" = true := by
    intro same
    have word := Text.isUnspaced_of_sameLetters (by decide) (by decide) same
    exact absurd (word.unspaced ' ' spaced) (by decide)
  unfold compile
  rw [trimmed]
  dsimp only
  rw [firstWord_run named solid]
  dsimp only
  rw [if_neg filled, if_neg more, if_neg noNegation, first]
  dsimp only
  rw [second]

/-- Without the word of negation the operator is the second word. -/
theorem compile_affirmed {name operator value : Text} (named : Text.IsUnspaced name)
    (spelled : Text.IsUnspaced operator) (affirms : Text.sameLetters operator "not" = false)
    (solid : Text.IsSolid value) :
    compile (name ++ ' ' :: (operator ++ ' ' :: value)) =
      compileWith (name ++ ' ' :: (operator ++ ' ' :: value)) name false (Text.lower operator)
        value := by
  have first := firstWord_run spelled solid
  have second : firstWord (if Text.sameLetters operator "not" then value
      else operator ++ ' ' :: value) = (operator, value) := by
    rw [affirms]
    exact first
  rw [compile_run named (solid.after spelled) (by simp) first second, affirms, solid.trim]

/-- After the word of negation the operator is the third word. -/
theorem compile_negated {name word operator value : Text} (named : Text.IsUnspaced name)
    (negates : Text.sameLetters word "not" = true) (spelled : Text.IsUnspaced operator)
    (solid : Text.IsSolid value) :
    compile (name ++ ' ' :: (word ++ ' ' :: (operator ++ ' ' :: value))) =
      compileWith (name ++ ' ' :: (word ++ ' ' :: (operator ++ ' ' :: value))) name true
        (Text.lower operator) value := by
  have negation : Text.IsUnspaced word :=
    Text.isUnspaced_of_sameLetters (by decide) (by decide) negates
  have others : Text.IsSolid (operator ++ ' ' :: value) := solid.after spelled
  have second : firstWord (if Text.sameLetters word "not" then operator ++ ' ' :: value
      else word ++ ' ' :: (operator ++ ' ' :: value)) = (operator, value) := by
    rw [negates]
    exact firstWord_run spelled solid
  rw [compile_run named (others.after negation) (by simp) (firstWord_run negation others) second,
    negates, solid.trim]

/-- The word of the operator is no negation. -/
theorem Listed.affirms : Text.sameLetters written.word "not" = false := by
  have same : written.word.map Char.toLower = written.test.word.map Char.toLower :=
    beq_iff_eq.1 written.spells
  rw [Text.sameLetters, same]
  exact written.test.word_small.2.2

/-- The list of values begins and ends with a parenthesis, which is no blank. -/
theorem Listed.list_solid : Text.IsSolid written.list where
  filled := List.cons_ne_nil _ _
  starts := by
    intro c head
    obtain rfl : '(' = c := Option.some.inj head
    decide
  ends := by
    intro c last
    rw [Listed.list, ← List.cons_append, List.getLast?_concat] at last
    obtain rfl : ')' = c := Option.some.inj last
    decide

/-- A condition with a list of values is compiled without a warning. -/
theorem compile_listed : compile written.text = (some written.source, []) := by
  obtain ⟨small, filled, -⟩ := written.test.word_small
  have named := isUnspaced_identifier written.name
  have spelled : Text.IsUnspaced written.word :=
    Text.isUnspaced_of_sameLetters small filled written.spells
  have lowered : Text.lower written.word = written.test.word :=
    Text.lower_of_sameLetters small written.spells
  have compiled := compileWith_list written
  unfold Listed.text
  cases negated : written.negation with
  | none =>
    have text : Text.join " " (written.name.text :: ([] ++ [written.word, written.list])) =
        written.name.text ++ ' ' :: (written.word ++ ' ' :: written.list) := by
      simp [Text.join]
    rw [negated] at compiled
    rw [Option.toList_none, text, compile_affirmed named spelled written.affirms written.list_solid,
      lowered]
    exact compiled _
  | some word =>
    have text : Text.join " " (written.name.text :: ([word] ++ [written.word, written.list])) =
        written.name.text ++ ' ' :: (word ++ ' ' :: (written.word ++ ' ' :: written.list)) := by
      simp [Text.join]
    rw [negated] at compiled
    rw [Option.toList_some, text, compile_negated named (written.negates word negated) spelled
      written.list_solid, lowered]
    exact compiled _

end Compiling

section Reading

/-- The text is cut into tokens that are read as the chain. -/
def Writes (text : Text) (chain : Chain) : Prop :=
  ∃ tokens, Cuts text tokens ∧ ReadsChain tokens chain

/-- A value is one token and one operand. -/
theorem Operand.writes (operand : Operand) :
    ∃ token, Cuts operand.text [token] ∧ ReadsOperand [token] operand.expr := by
  cases operand with
  | name identifier => exact ⟨_, .identifier identifier, .name _⟩
  | number literal => exact ⟨_, .numeral literal, .literal _⟩
  | quotation quoted commaless => exact ⟨_, .quotation quoted, .literal _⟩

/-- The word of a comparison is one token. -/
theorem cuts_comparison (comparison : Comparison) :
    Cuts comparison.word [.operator (.compare comparison)] := by
  cases comparison <;> exact .keyword rfl (by decide) (by decide)

/-- The call that a term for texts makes. -/
def containsCall (name value : Expr) : Expr := .call "contains" [name, value]

/-- The call is written as one operand. -/
theorem writes_call (name : Identifier) (operand : Operand) :
    ∃ tokens, Cuts ("contains(" ++ name.text ++ ", " ++ operand.text ++ ")") tokens ∧
      ReadsOperand tokens (containsCall (.name name.text) operand.expr) := by
  obtain ⟨token, cuts, reads⟩ := operand.writes
  have closing : Cuts (operand.text ++ [')']) ([token] ++ [.closer]) :=
    cuts.append (by decide) (.single rfl (fun _ => rfl) (by decide) .nil)
  have second : Cuts (name.text ++ ',' :: ' ' :: (operand.text ++ [')']))
      ([.name name.text] ++ .comma :: ([token] ++ [.closer])) :=
    (Cuts.identifier name).append (by decide) (.single rfl (fun _ => rfl) (by decide) closing.space)
  have called : Cuts "contains" [.name "contains"] :=
    .identifier ⟨"contains", [], rfl, by decide, rfl⟩
  have whole : Cuts ("contains" ++ '(' :: (name.text ++ ',' :: ' ' :: (operand.text ++ [')'])))
      ([.name "contains"] ++ .opener :: ([.name name.text] ++ .comma :: ([token] ++ [.closer]))) :=
    called.append (by decide) (.single rfl (fun _ => rfl) (by decide) second)
  have arguments : ReadsArguments ([.name name.text] ++ .comma :: ([token] ++ [.closer]))
      [.name name.text, operand.expr] :=
    .cons (.operand (.name name.text)) (.last (.operand reads))
  have text : ("contains(" ++ name.text ++ ", " ++ operand.text ++ ")" : Text) =
      "contains".toList ++ '(' :: (name.text ++ ',' :: ' ' :: (operand.text ++ [')'])) := by
    simp
  refine ⟨_, ?_, .call "contains" arguments⟩
  rw [text]
  exact whole

/-- The term for one value, as a chain of operands. -/
def Test.chain (test : Test) (negate : Bool) (name value : Expr) : Chain :=
  match test.comparison? with
  | some comparison => ⟨name, [(.compare (comparison.under negate), value)]⟩
  | none =>
    ⟨if negate then .unary .not (containsCall name value) else containsCall name value, []⟩

/-- The text of a term is read as its chain. -/
theorem writes_term (test : Test) (negate : Bool) (name : Identifier) (operand : Operand) :
    Writes (test.term negate name.text operand.text)
      (test.chain negate (.name name.text) operand.expr) := by
  unfold Test.term Test.chain
  cases test.comparison? with
  | some comparison =>
    obtain ⟨token, cuts, reads⟩ := operand.writes
    have word := cuts_comparison (comparison.under negate)
    have text : (name.text ++ " " ++ (comparison.under negate).word ++ " " ++ operand.text : Text) =
        name.text ++ ' ' :: ((comparison.under negate).word ++ ' ' :: operand.text) := by
      simp
    have operator : infix? (.operator (.compare (comparison.under negate))) =
        some (.compare (comparison.under negate)) := rfl
    refine ⟨_, ?_, ReadsChain.join operator (.operand (.name name.text)) (.operand reads)⟩
    dsimp only
    rw [text]
    exact (Cuts.identifier name).append (by decide) (word.append (by decide) cuts.space).space
  | none =>
    obtain ⟨tokens, cuts, reads⟩ := writes_call name operand
    cases negate with
    | false => exact ⟨tokens, cuts, .operand reads⟩
    | true =>
      have negation : Cuts "not" [.not] := .keyword rfl (by decide) (by decide)
      refine ⟨[.not] ++ tokens, ?_, .operand reads.not⟩
      exact negation.append (by decide) cuts.space

/-- Two texts with a connective between them are read as their chains with it between them. -/
theorem Writes.join {negate : Bool} {first second : Text} {left right : Chain}
    (front : Writes first left) (back : Writes second right) :
    Writes (first ++ connectiveText negate ++ second)
      (.join (connective negate) left right) := by
  obtain ⟨tokens, cuts, reads⟩ := front
  obtain ⟨later, cuts', reads'⟩ := back
  rw [List.append_assoc]
  cases negate with
  | false =>
    have sign : Cuts ("||".toList ++ ' ' :: second) (.operator .or :: later) :=
      .sign (by decide) (fun _ => rfl) cuts'.space
    exact ⟨_, cuts.append (by decide) sign.space, reads.join rfl reads'⟩
  | true =>
    have sign : Cuts ("&&".toList ++ ' ' :: second) (.operator .and :: later) :=
      .sign (by decide) (fun _ => rfl) cuts'.space
    exact ⟨_, cuts.append (by decide) sign.space, reads.join rfl reads'⟩

/-- Several texts with a connective between neighbours are read as their chains with it between
them. -/
theorem Writes.joined {α : Type} {negate : Bool} {text : α → Text} {chain : α → Chain}
    (each : ∀ item, Writes (text item) (chain item)) (first : α) (others : List α) :
    Writes (Text.join (connectiveText negate) ((first :: others).map text))
      (.joined (connective negate) (chain first) (others.map chain)) := by
  induction others generalizing first with
  | nil =>
    have alone : Text.join (connectiveText negate) [text first] = text first := by simp [Text.join]
    rw [List.map_singleton, alone]
    exact each first
  | cons second others inductionHypothesis =>
    rw [List.map_cons, List.map_cons, Text.join_cons_cons, ← List.map_cons]
    exact (each first).join (inductionHypothesis second)

/-- The term for one value, as an expression. -/
def Test.expr (test : Test) (negate : Bool) (name value : Expr) : Expr :=
  match test.comparison? with
  | some comparison => .binary (.compare (comparison.under negate)) name value
  | none => if negate then .unary .not (containsCall name value) else containsCall name value

/-- A term has no connective in it. -/
theorem lacks_term (test : Test) (negate : Bool) (name value : Expr) :
    (test.chain negate name value).Lacks .disjunction ∧
      (test.chain negate name value).Lacks .conjunction := by
  unfold Test.chain Chain.Lacks
  cases test.comparison? with
  | some comparison => simp [Infix.level]
  | none => simp

/-- The levels that are tighter than a connective group a term into its expression. -/
theorem group_term (test : Test) (negate : Bool) (name value : Expr) :
    group [.comparison, .sum, .product, .power] (test.chain negate name value) =
        test.expr negate name value ∧
      group [.conjunction, .comparison, .sum, .product, .power] (test.chain negate name value) =
        test.expr negate name value := by
  have tightest : group [.comparison, .sum, .product, .power] (test.chain negate name value) =
      test.expr negate name value := by
    unfold Test.chain Test.expr
    cases test.comparison? with
    | some comparison => rfl
    | none => rfl
  refine ⟨tightest, ?_⟩
  rw [group_lacking (lacks_term test negate name value).2, tightest]

variable (written : Listed)

/-- The expression of the condition: its terms, joined from the left. -/
def Listed.expr : Expr :=
  joinLeft
    (written.test.expr written.negation.isSome (.name written.name.text) written.first.expr)
    (written.others.map fun operand =>
      (connective written.negation.isSome,
        written.test.expr written.negation.isSome (.name written.name.text) operand.expr))

/-- The chain of all terms is grouped into the expression of the condition. -/
theorem group_terms (test : Test) (negate : Bool) (name : Expr) (first : Operand)
    (others : List Operand) :
    group Level.all (.joined (connective negate) (test.chain negate name first.expr)
        (others.map fun operand => test.chain negate name operand.expr)) =
      joinLeft (test.expr negate name first.expr)
        (others.map fun operand => (connective negate, test.expr negate name operand.expr)) := by
  have lacks : ∀ chain ∈ test.chain negate name first.expr ::
      others.map fun operand => test.chain negate name operand.expr,
        chain.Lacks .disjunction ∧ chain.Lacks .conjunction := by
    intro chain member
    rcases List.mem_cons.1 member with rfl | later
    · exact lacks_term test negate name first.expr
    · obtain ⟨operand, -, rfl⟩ := List.mem_map.1 later
      exact lacks_term test negate name operand.expr
  have whole : Level.all =
      .disjunction :: .conjunction :: [.comparison, .sum, .product, .power] := rfl
  have term := fun operand : Operand => group_term test negate name operand.expr
  -- The connective belongs to the loosest level or to the next one, which the loosest passes.
  cases negate with
  | false =>
    have own : (connective false).level = .disjunction := rfl
    rw [whole, group_joined own rfl fun chain member => (lacks chain member).1, List.map_map,
      (term first).2]
    simp only [Function.comp_def, (term _).2]
  | true =>
    have own : (connective true).level = .conjunction := rfl
    rw [whole, group_lacking (lacks_joined (by decide) fun chain member => (lacks chain member).1),
      group_joined own rfl fun chain member => (lacks chain member).2, List.map_map, (term first).1]
    simp only [Function.comp_def, (term _).1]

/-- The expression of a condition with a list of values is read. -/
theorem parse?_listed : parse? written.source = some written.expr := by
  have terms := fun operand : Operand =>
    writes_term written.test written.negation.isSome written.name operand
  obtain ⟨tokens, cuts, reads⟩ := Writes.joined terms written.first written.others
  have read := reads.whole.parse? cuts.tokens?
  rw [group_terms] at read
  exact read

end Reading

section Evaluating

variable {m : Type → Type} [Monad m] [LawfulMonad m] {lookup : Text → m (Option Value)}
  {functions : Dictionary Function} {assignment : Text → Value}

/-- A name that is assigned a value has it. -/
theorem evaluate_name {name : Text} {value : Value} (assigned : lookup name = pure (some value)) :
    evaluate lookup functions (.name name) = pure value := by
  have found : (liftM (pure (some value) : m (Option Value)) : ExceptT Error m (Option Value)) =
      pure (some value) := by
    simp
  rw [evaluate, assigned, found, pure_bind]

/-- A value of the list has its value under the assignment. -/
theorem evaluate_operand (operand : Operand)
    (assigned : ∀ name ∈ operand.names, lookup name = pure (some (assignment name))) :
    evaluate lookup functions operand.expr = pure (operand.value assignment) := by
  cases operand with
  | name identifier => exact evaluate_name (assigned _ List.mem_cons_self)
  | number literal => rw [Operand.expr, evaluate, Operand.value]
  | quotation quoted commaless => rw [Operand.expr, evaluate, Operand.value]

/-- Under a negation a comparison holds exactly where it does not hold without. -/
theorem holds_under (comparison : Comparison) (negate : Bool) (ordering : Ordering) :
    holds (comparison.under negate) ordering = (negate != holds comparison ordering) := by
  cases negate with
  | false => rw [Comparison.under, if_neg Bool.false_ne_true, Bool.false_bne]
  | true => cases comparison <;> cases ordering <;> rfl

/-- The call asks whether the text of the first value holds that of the second. -/
theorem evaluate_call (registered : functions.find? "contains" = some contains)
    {name value : Expr} {left right : Value}
    (first : evaluate lookup functions name = pure left)
    (second : evaluate lookup functions value = pure right) :
    evaluate lookup functions (containsCall name value) =
      pure (.bool (Text.occursIn right.toText left.toText)) := by
  have found : apply functions "contains" [left, right] =
      .ok (.bool (Text.occursIn right.toText left.toText)) := by
    unfold apply
    rw [if_neg (by decide), if_neg (by decide), registered]
    rfl
  rw [containsCall, evaluate, evaluateAll, first, pure_bind, evaluateAll, second, pure_bind,
    evaluateAll, pure_bind, pure_bind, pure_bind, found]
  rfl

/-- A term is true exactly if its value satisfies the test, and under a negation exactly if it does
not. -/
theorem evaluate_term (registered : functions.find? "contains" = some contains) (test : Test)
    (negate : Bool) {name value : Expr} {left right : Value}
    (first : evaluate lookup functions name = pure left)
    (second : evaluate lookup functions value = pure right) :
    evaluate lookup functions (test.expr negate name value) =
      pure (.bool (negate != test.satisfied left right)) := by
  have call := evaluate_call registered first second
  unfold Test.expr Test.satisfied
  cases test.comparison? with
  | some comparison =>
    dsimp only
    rw [evaluate, first, pure_bind, second, pure_bind, operate, holds_under]
    · rfl
    · exact Infix.noConfusion
    · exact Infix.noConfusion
  | none =>
    cases negate with
    | false =>
      rw [Bool.false_bne]
      exact call
    | true =>
      dsimp only
      rw [if_pos rfl, evaluate, call, pure_bind, Bool.true_bne]
      rfl

/-- Two truths with a connective between them: a disjunction, or under a negation the conjunction of
the negations, which is the negation of the disjunction. -/
theorem evaluate_connective (negate : Bool) {left right : Expr} {first second : Bool}
    (before : evaluate lookup functions left = pure (.bool (negate != first)))
    (after : evaluate lookup functions right = pure (.bool (negate != second))) :
    evaluate lookup functions (.binary (connective negate) left right) =
      pure (.bool (negate != (first || second))) := by
  cases negate with
  | false =>
    have disjunction : connective false = .or := rfl
    rw [disjunction, evaluate, before, pure_bind]
    cases first with
    | false => simp [Value.isTruthy, after]
    | true => simp [Value.isTruthy]
  | true =>
    have conjunction : connective true = .and := rfl
    rw [conjunction, evaluate, before, pure_bind]
    cases first with
    | false => simp [Value.isTruthy, after]
    | true => simp [Value.isTruthy]

/-- Joined truths: whether one of them holds, or under a negation whether none does. -/
theorem evaluate_joinLeft {α : Type} (negate : Bool) {term : α → Expr} {truth : α → Bool}
    (others : List α)
    (each : ∀ item ∈ others, evaluate lookup functions (term item) =
      pure (.bool (negate != truth item))) {first : Expr} {seen : Bool}
    (begun : evaluate lookup functions first = pure (.bool (negate != seen))) :
    evaluate lookup functions
        (joinLeft first (others.map fun item => (connective negate, term item))) =
      pure (.bool (negate != (seen || others.any truth))) := by
  -- The induction is on what is still to be joined; `seen` is the disjunction of what has been.
  induction others generalizing first seen with
  | nil =>
    rw [List.any_nil, Bool.or_false]
    exact begun
  | cons item others inductionHypothesis =>
    have next := evaluate_connective negate begun (each item List.mem_cons_self)
    have later :=
      inductionHypothesis (fun other member => each other (.tail item member)) next
    rw [List.any_cons, ← Bool.or_assoc]
    exact later

/-- A condition with a list of values is compiled without a warning into the text of an expression.
Under every assignment of values to its names the expression is true exactly if some value of the
list satisfies the test, and if the condition is negated, exactly if none does. -/
theorem compile_listed_evaluates (written : Listed)
    (registered : functions.find? "contains" = some contains)
    (assigned : ∀ name ∈ written.names, lookup name = pure (some (assignment name))) :
    ∃ source e, compile written.text = (some source, []) ∧ parse? source = some e ∧
      evaluate lookup functions e =
        pure (.bool (written.negation.isSome != written.satisfied assignment)) := by
  have name : evaluate lookup functions (.name written.name.text) =
      pure (assignment written.name.text) :=
    evaluate_name (assigned _ List.mem_cons_self)
  have term : ∀ operand ∈ written.first :: written.others,
      evaluate lookup functions
          (written.test.expr written.negation.isSome (.name written.name.text) operand.expr) =
        pure (.bool (written.negation.isSome !=
          written.test.satisfied (assignment written.name.text) (operand.value assignment))) := by
    intro operand member
    apply evaluate_term registered _ _ name
    refine evaluate_operand operand fun other among => assigned other ?_
    exact .tail _ (List.mem_flatMap.2 ⟨operand, member, among⟩)
  refine ⟨written.source, written.expr, compile_listed written, parse?_listed written, ?_⟩
  exact evaluate_joinLeft _ written.others (fun operand member => term operand (.tail _ member))
    (term written.first List.mem_cons_self)

/-- The condition that a hat is neither a cap's size nor a sun bonnet. -/
def bareHeaded : Listed where
  name := ⟨"hat", [], rfl, by decide, rfl⟩
  negation := some "Not"
  negates := by decide
  test := .among
  word := "IN"
  spells := by decide
  first := .name ⟨"cap", ["size".toList], rfl, by decide, rfl⟩
  others := [.quotation ⟨'\x27', "sun bonnet", .inr rfl, by decide⟩ (by decide)]
  spacing := " "
  blank := by decide

/-- Where every name stands for itself, the condition is true. -/
theorem compile_listed_evaluates_bareHeaded :
    ∃ source e, compile "hat Not IN (cap-size, 'sun bonnet')" = (some source, []) ∧
      parse? source = some e ∧
        evaluate (fun name => (pure (some (.text name)) : Id (Option Value)))
          (.ofList [("contains", contains)]) e = pure (.bool true) := by
  have written : bareHeaded.text = "hat Not IN (cap-size, 'sun bonnet')" := by rfl
  have unsatisfied : bareHeaded.satisfied Value.text = false := by rfl
  have outcome := @compile_listed_evaluates Id _ _
    (fun name => pure (some (.text name))) (.ofList [("contains", contains)]) Value.text bareHeaded
    rfl fun _ _ => rfl
  rw [written, unsatisfied] at outcome
  exact outcome

end Evaluating

end Source.Condition

end DynamicPrompt
