import DynamicPrompt.Proofs.Expression.Grammar
import DynamicPrompt.Proofs.Expression.Spelling

/-!
# Printing expressions

An expression is printed with the signs of its operators, a blank between any two tokens, and
parentheses only around operands that bind less tightly than the place where they stand. The table
of what binds how tightly is stated here once more, apart from the levels of the reader.

Printing and reading meet at the tokens. A printed text is cut into the tokens it was made of, since
a blank or nothing follows each of them. The tokens are read as the chain of operands that are not
enclosed, and that chain is grouped into the expression: the levels looser than its own find none of
their operators in it, and its own level cuts it at the operator that was printed between the two
sides.
-/

namespace DynamicPrompt

/-- The sign of a comparison. -/
def Comparison.sign : Comparison → Text
  | .eq => "=="
  | .ne => "!="
  | .lt => "<"
  | .le => "<="
  | .gt => ">"
  | .ge => ">="

/-- The sign of an operation on numbers. -/
def Arithmetic.sign : Arithmetic → Text
  | .subtract => "-"
  | .multiply => "*"
  | .divide => "/"
  | .remainder => "%"
  | .power => "^"

namespace Infix

/-- The sign of an operator. -/
def sign : Infix → Text
  | or => "||"
  | and => "&&"
  | compare comparison => comparison.sign
  | add => "+"
  | arithmetic operation => operation.sign

/-- How tightly an operator binds. -/
def tightness : Infix → Nat
  | or => 0
  | and => 1
  | compare _ => 2
  | add | arithmetic .subtract => 3
  | arithmetic .multiply | arithmetic .divide | arithmetic .remainder => 4
  | arithmetic .power => 5

/-- How tightly an operand to the left of an operator has to bind to stand there by itself: as
tightly as the operator, and more tightly to the left of a power. -/
def leftBound (operator : Infix) : Nat :=
  if operator = arithmetic .power then operator.tightness + 1 else operator.tightness

/-- How tightly an operand to the right of an operator has to bind to stand there by itself: more
tightly than the operator, and as tightly to the right of a power. -/
def rightBound (operator : Infix) : Nat :=
  if operator = arithmetic .power then operator.tightness else operator.tightness + 1

end Infix

namespace Expression

/-- The token of an operator. -/
def operatorToken : Infix → Token
  | .arithmetic .subtract => .minus
  | operator => .operator operator

/-- A way of quoting texts: a quotation mark, and the characters before which a backslash is put, at
least the mark and the backslash itself. -/
structure Quoting where
  mark : Char
  protects : Char → Bool
  quotes : mark = '\x22' ∨ mark = '\x27'
  covers : protects mark = true ∧ protects '\\' = true

namespace Quoting

/-- A text with backslashes before the characters that need one. -/
def inside (quoting : Quoting) (content : Text) : Text :=
  content.flatMap fun c => if quoting.protects c then ['\\', c] else [c]

/-- A text between quotation marks. -/
def text (quoting : Quoting) (content : Text) : Text :=
  quoting.mark :: (quoting.inside content ++ [quoting.mark])

end Quoting

/-- A token as it is printed. -/
def Token.text (quoting : Quoting) : Token → Text
  | .literal (.text content) => quoting.text content
  | .literal value => value.toText
  | .name spelling => spelling
  | .operator between => between.sign
  | .minus => "-"
  | .not => "!"
  | .opener => "("
  | .closer => ")"
  | .comma => ","

/-- Tokens in parentheses, if they are needed. -/
def enclose (needed : Bool) (tokens : List Token) : List Token :=
  if needed then .opener :: (tokens ++ [.closer]) else tokens

end Expression

open Expression

/-- How tightly an expression binds: an operation as its operator does, everything else more tightly
than any operator that stands between operands. -/
def Expr.tightness : Expr → Nat
  | .binary operator _ _ => operator.tightness
  | _ => 6

mutual

/-- The tokens of an expression, with parentheses around the operands that need them. -/
def Expr.tokens : Expr → List Token
  | .literal value => [.literal value]
  | .name spelling => [.name spelling]
  | .call function arguments =>
    .name function :: .opener :: (Expr.tokensAll arguments ++ [.closer])
  | .unary .not operand => .not :: enclose (operand.tightness < 6) operand.tokens
  | .unary .negate operand => .minus :: enclose (operand.tightness < 6) operand.tokens
  | .binary operator left right =>
    enclose (left.tightness < operator.leftBound) left.tokens ++
      operatorToken operator :: enclose (right.tightness < operator.rightBound) right.tokens

/-- The tokens of several expressions, with commas between them. -/
def Expr.tokensAll : List Expr → List Token
  | [] => []
  | [e] => e.tokens
  | e :: next :: others => e.tokens ++ .comma :: Expr.tokensAll (next :: others)

end

/-- An expression as it is printed. -/
def Expr.print (quoting : Quoting) (e : Expr) : Text :=
  Text.join " " (e.tokens.map (Token.text quoting))

mutual

/-- An expression of the kind that is printed: its leaves are truth values, texts and names, and its
calls have names. -/
def Expr.IsPrintable : Expr → Prop
  | .literal (.number _) => False
  | .literal _ => True
  | .name spelling => IsName spelling
  | .call function arguments => IsName function ∧ Expr.AllPrintable arguments
  | .unary _ operand => operand.IsPrintable
  | .binary _ left right => left.IsPrintable ∧ right.IsPrintable

/-- Several expressions of that kind. -/
def Expr.AllPrintable : List Expr → Prop
  | [] => True
  | e :: others => e.IsPrintable ∧ Expr.AllPrintable others

end

namespace Expression

section Cutting

variable {quoting : Quoting}

/-- A token that is printed as a text from which it is read. -/
def Token.IsPrintable : Token → Prop
  | .literal (.number _) => False
  | .name spelling => IsName spelling
  | .operator between => operatorToken between = .operator between
  | _ => True

/-- A quoted text is read back without the backslashes that were put into it. -/
theorem quoted?_inside (quoting : Quoting) (content rest : Text) :
    quoted? quoting.mark (quoting.inside content ++ quoting.mark :: rest) =
      some (content, rest) := by
  have unescaped : quoting.mark ≠ '\\' := by
    rcases quoting.quotes with same | same <;> (rw [same]; decide)
  induction content with
  | nil =>
    have ends : quoting.inside [] = [] := rfl
    rw [ends, List.nil_append, quoted?, if_pos rfl]
    exact fun _ _ same _ => unescaped same
  | cons c content inductionHypothesis =>
    have parts : quoting.inside (c :: content) =
        (if quoting.protects c then ['\\', c] else [c]) ++ quoting.inside content := rfl
    rw [parts, List.append_assoc]
    by_cases needed : quoting.protects c = true
    · rw [if_pos needed, List.cons_append, List.singleton_append, quoted?, inductionHypothesis]
      rfl
    · have noMark : c ≠ quoting.mark := by
        rintro rfl
        exact needed quoting.covers.1
      have noEscape : c ≠ '\\' := by
        rintro rfl
        exact needed quoting.covers.2
      rw [if_neg needed, List.singleton_append, quoted?, if_neg noMark, inductionHypothesis]
      · rfl
      · exact fun _ _ same _ => noEscape same

/-- A printed token begins with no blank and is read as that token before a blank or nothing. -/
theorem token?_text {token : Token} (printable : token.IsPrintable) :
    (token.text quoting).head?.any (fun c => !isSpace c) = true ∧
      ∀ rest : Text, (∀ c ∈ rest.head?, c = ' ') →
        token? (token.text quoting ++ rest) = some (token, rest) := by
  -- Signs are read by looking one character ahead, which finds a blank or nothing.
  have ahead : ∀ {sign : Text}, token? sign = some (token, []) →
      (∀ rest, token? (sign ++ ' ' :: rest) = some (token, ' ' :: rest)) →
      ∀ rest : Text, (∀ c ∈ rest.head?, c = ' ') → token? (sign ++ rest) = some (token, rest) := by
    intro sign last more rest ends
    cases rest with
    | nil => rwa [List.append_nil]
    | cons c rest =>
      obtain rfl := ends c rfl
      exact more rest
  have apart : ∀ {rest : Text}, (∀ c ∈ rest.head?, c = ' ') →
      ∀ c ∈ rest.head?, endsToken c = true := by
    intro rest ends c head
    rw [ends c head]
    decide
  cases token with
  | literal value =>
    cases value with
    | bool b =>
      cases b with
      | false =>
        exact ⟨rfl, fun rest ends => token?_keyword rfl rfl rfl (apart ends)⟩
      | true =>
        exact ⟨rfl, fun rest ends => token?_keyword rfl rfl rfl (apart ends)⟩
    | number x => exact printable.elim
    | text content =>
      have solid : (quoting.text content).head?.any (fun c => !isSpace c) = true := by
        rcases quoting.quotes with same | same <;> (rw [Quoting.text, same]; rfl)
      refine ⟨solid, fun rest _ => ?_⟩
      have read : quoted? quoting.mark (quoting.inside content ++ [quoting.mark] ++ rest) =
          some (content, rest) := by
        rw [List.append_assoc]
        exact quoted?_inside quoting content rest
      exact token?_quoted quoting.quotes read
  | name name =>
    obtain ⟨identifier, rfl⟩ := printable
    exact ⟨(starts_word identifier.starts_text).1, fun rest ends =>
      token?_identifier identifier (apart ends)⟩
  | operator operator =>
    cases operator with
    | or => exact ⟨rfl, ahead rfl fun _ => rfl⟩
    | and => exact ⟨rfl, ahead rfl fun _ => rfl⟩
    | compare comparison => cases comparison <;> exact ⟨rfl, ahead rfl fun _ => rfl⟩
    | add => exact ⟨rfl, ahead rfl fun _ => rfl⟩
    | arithmetic operation =>
      cases operation with
      | subtract => exact Token.noConfusion printable
      | multiply => exact ⟨rfl, ahead rfl fun _ => rfl⟩
      | divide => exact ⟨rfl, ahead rfl fun _ => rfl⟩
      | remainder => exact ⟨rfl, ahead rfl fun _ => rfl⟩
      | power => exact ⟨rfl, ahead rfl fun _ => rfl⟩
  | minus => exact ⟨rfl, ahead rfl fun _ => rfl⟩
  | not => exact ⟨rfl, ahead rfl fun _ => rfl⟩
  | opener => exact ⟨rfl, ahead rfl fun _ => rfl⟩
  | closer => exact ⟨rfl, ahead rfl fun _ => rfl⟩
  | comma => exact ⟨rfl, ahead rfl fun _ => rfl⟩

/-- Printed tokens with a blank between neighbours are cut into those tokens. -/
theorem lexes_join {tokens : List Token} (printable : ∀ token ∈ tokens, token.IsPrintable) :
    Lexes (Text.join " " (tokens.map (Token.text quoting))) tokens := by
  induction tokens with
  | nil => exact .nil
  | cons first others inductionHypothesis =>
    obtain ⟨solid, read⟩ := @token?_text quoting first (printable first List.mem_cons_self)
    have later := inductionHypothesis fun token member => printable token (.tail first member)
    cases others with
    | nil =>
      have alone := Lexes.token solid (read [] (by simp)) Lexes.nil
      rw [List.append_nil] at alone
      simpa [Text.join] using alone
    | cons second others =>
      rw [List.map_cons, List.map_cons, Text.join_cons_cons, List.append_assoc]
      refine Lexes.token solid (read _ ?_) (later.space (by decide))
      rintro c ⟨⟩
      rfl

end Cutting

end Expression

/-- The operands of an expression that stand in it without parentheses, with the operators between
them. -/
def Expr.chain : Expr → Chain
  | .binary operator left right =>
    .join operator (if left.tightness < operator.leftBound then ⟨left, []⟩ else left.chain)
      (if right.tightness < operator.rightBound then ⟨right, []⟩ else right.chain)
  | e => ⟨e, []⟩

/-- An operand as a part of a chain: enclosed, if it binds less tightly than its place demands. -/
def Expr.standing (bound : Nat) (e : Expr) : Chain :=
  if e.tightness < bound then ⟨e, []⟩ else e.chain

namespace Expression

section Grouping

variable {operator : Infix} {e : Expr} {chain : Chain} {k : Nat}

/-- The levels from a tightness on begin with the level of the operators of that tightness. -/
theorem drop_tightness (operator : Infix) :
    Level.all.drop operator.tightness =
      operator.level :: Level.all.drop (operator.tightness + 1) := by
  cases operator with
  | arithmetic operation => cases operation <;> rfl
  | _ => rfl

/-- Both bounds are those of the operator or the next ones. -/
theorem bounds (operator : Infix) :
    (operator.level.associatesRight = false ∧ operator.leftBound = operator.tightness ∧
        operator.rightBound = operator.tightness + 1) ∨
      operator.level.associatesRight = true ∧ operator.leftBound = operator.tightness + 1 ∧
        operator.rightBound = operator.tightness := by
  cases operator with
  | arithmetic operation => cases operation <;> decide
  | compare comparison => exact .inl ⟨rfl, rfl, rfl⟩
  | _ => decide

/-- Every operator binds less tightly than what is no operation. -/
theorem tightness_lt (operator : Infix) : operator.tightness < 6 := by
  cases operator with
  | arithmetic operation => cases operation <;> decide
  | compare comparison => cases comparison <;> decide
  | _ => decide

/-- The place of a level in the list of all levels is the tightness of its operators. -/
theorem getElem?_levels_iff : Level.all[k]? = some operator.level ↔ operator.tightness = k := by
  have own : Level.all[operator.tightness]? = some operator.level := by
    rw [← List.head?_drop, drop_tightness]
    rfl
  have distinct : Level.all.Nodup := by decide
  rw [← own, eq_comm]
  exact List.getElem?_inj (tightness_lt operator) distinct

/-- A level is passed by a chain all of whose operators bind more tightly. -/
theorem group_pass (tighter : ∀ part ∈ chain.more, k < part.1.tightness) :
    group (Level.all.drop k) chain = group (Level.all.drop (k + 1)) chain := by
  have after : Level.all.drop (k + 1) = (Level.all.drop k).tail := List.tail_drop.symm
  rw [after]
  cases dropped : Level.all.drop k with
  | nil => rfl
  | cons level others =>
    refine group_lacking fun part member same => ?_
    have here : Level.all[k]? = some part.1.level := by
      rw [← List.head?_drop, dropped, same]
      rfl
    exact Nat.ne_of_gt (tighter part member) (getElem?_levels_iff.1 here)

/-- All levels looser than the operators of a chain are passed. -/
theorem group_passes {t : Nat} (apart : ∀ part ∈ chain.more, t ≤ part.1.tightness) (least : k ≤ t) :
    group (Level.all.drop k) chain = group (Level.all.drop t) chain := by
  induction least with
  | refl => rfl
  | step _ inductionHypothesis =>
    rw [inductionHypothesis fun part member => Nat.le_of_succ_le (apart part member)]
    exact group_pass apart

/-- The operators of a chain bind at least as tightly as its expression. -/
theorem tightness_le_of_mem : ∀ (e : Expr), ∀ part ∈ e.chain.more, e.tightness ≤ part.1.tightness
  | .literal _, _, member => absurd member List.not_mem_nil
  | .name _, _, member => absurd member List.not_mem_nil
  | .call _ _, _, member => absurd member List.not_mem_nil
  | .unary _ _, _, member => absurd member List.not_mem_nil
  | .binary operator left right, part, member => by
    have standing : ∀ {operand : Expr} {bound : Nat}, operator.tightness ≤ bound →
        (∀ part ∈ operand.chain.more, operand.tightness ≤ part.1.tightness) →
        part ∈ (operand.standing bound).more → operator.tightness ≤ part.1.tightness := by
      intro operand bound least within among
      unfold Expr.standing at among
      split at among
      · exact absurd among List.not_mem_nil
      · exact Nat.le_trans least (Nat.le_trans (Nat.le_of_not_lt ‹_›) (within part among))
    have least : operator.tightness ≤ operator.leftBound ∧
        operator.tightness ≤ operator.rightBound := by
      rcases bounds operator with ⟨-, left, right⟩ | ⟨-, left, right⟩ <;> omega
    rcases List.mem_append.1 member with before | after
    · exact standing least.1 (tightness_le_of_mem left) before
    · rcases List.mem_cons.1 after with rfl | later
      · exact Nat.le_refl _
      · exact standing least.2 (tightness_le_of_mem right) later

/-- The operators of an operand that stands somewhere bind as tightly as its place demands. -/
theorem bound_le_of_mem {bound : Nat} :
    ∀ part ∈ (e.standing bound).more, bound ≤ part.1.tightness := by
  intro part member
  unfold Expr.standing at member
  split at member
  · exact absurd member List.not_mem_nil
  · exact Nat.le_trans (Nat.le_of_not_lt ‹_›) (tightness_le_of_mem e part member)

/-- An operand is grouped back by all levels that may stand at its place, enclosed or not. -/
theorem group_standing {bound : Nat} (least : k ≤ bound)
    (grouped : k ≤ e.tightness → group (Level.all.drop k) e.chain = e) :
    group (Level.all.drop k) (e.standing bound) = e := by
  unfold Expr.standing
  split
  · exact group_single _ e
  · exact grouped (Nat.le_trans least (Nat.le_of_not_lt ‹_›))

/-- The chain of an expression is grouped back into it.

The induction is on the expression. Its own level cuts the chain at the operator between its sides:
at the last operator of the level if the level associates to the left, since the right side has
none, and otherwise at the first. -/
theorem group_chain : ∀ (e : Expr) {k : Nat}, k ≤ e.tightness →
    group (Level.all.drop k) e.chain = e
  | .literal _, _, _ => group_single _ _
  | .name _, _, _ => group_single _ _
  | .call _ _, _, _ => group_single _ _
  | .unary _ _, _, _ => group_single _ _
  | .binary operator left right, k, least => by
    have chain : (Expr.binary operator left right).chain =
        .join operator (left.standing operator.leftBound)
          (right.standing operator.rightBound) := rfl
    have own := drop_tightness operator
    have leftSide : ∀ {k}, k ≤ operator.leftBound →
        group (Level.all.drop k) (left.standing operator.leftBound) = left :=
      fun least => group_standing least fun within => group_chain left within
    have rightSide : ∀ {k}, k ≤ operator.rightBound →
        group (Level.all.drop k) (right.standing operator.rightBound) = right :=
      fun least => group_standing least fun within => group_chain right within
    have lacks : ∀ {operand : Expr},
        (operand.standing (operator.tightness + 1)).Lacks operator.level := by
      intro operand part member same
      have tighter := bound_le_of_mem part member
      have loose : part.1.tightness = operator.tightness :=
        getElem?_levels_iff.1 (by rw [same, getElem?_levels_iff])
      omega
    rw [group_passes (tightness_le_of_mem _) least]
    show group (Level.all.drop operator.tightness) _ = _
    rcases bounds operator with ⟨associates, leftBound, rightBound⟩ |
      ⟨associates, leftBound, rightBound⟩
    · have cut := @group_join_left _ operator (Level.all.drop (operator.tightness + 1)) rfl
        associates (left.standing operator.leftBound) (right.standing operator.rightBound)
        (rightBound ▸ lacks)
      rw [chain, own, cut, ← own, leftSide (by omega), rightSide (by omega)]
    · have cut := @group_join_right _ operator (Level.all.drop (operator.tightness + 1)) rfl
        associates (left.standing operator.leftBound) (right.standing operator.rightBound)
        (leftBound ▸ lacks)
      rw [chain, own, cut, ← own, leftSide (by omega), rightSide (by omega)]

end Grouping

section Reading

/-- The token of an operator is read as the operator between operands. -/
theorem infix?_operatorToken (operator : Infix) :
    infix? (operatorToken operator) = some operator := by
  cases operator with
  | arithmetic operation => cases operation <;> rfl
  | _ => rfl

/-- The tokens of an operand at its place are read as its part of the chain. -/
theorem readsChain_standing {e : Expr} {bound : Nat} (most : bound ≤ 6)
    (operand : ReadsOperand (enclose (e.tightness < 6) e.tokens) e)
    (chain : ReadsChain e.tokens e.chain) :
    ReadsChain (enclose (e.tightness < bound) e.tokens) (e.standing bound) := by
  unfold Expr.standing
  by_cases loose : e.tightness < bound
  · have enclosed : e.tightness < 6 := Nat.lt_of_lt_of_le loose most
    rw [decide_eq_true enclosed] at operand
    rw [decide_eq_true loose, if_pos loose]
    exact .operand operand
  · rw [decide_eq_false loose, if_neg loose]
    exact chain

/-- Tokens that are read as the chain of an expression are read as the expression. -/
theorem readsWhole_of_chain {e : Expr} {tokens : List Token} (chain : ReadsChain tokens e.chain) :
    ReadsWhole tokens e := by
  have grouped : group Level.all e.chain = e := group_chain e (Nat.zero_le _)
  have whole := chain.whole
  rwa [grouped] at whole

mutual

/-- The tokens of an expression are read as its chain, and as an operand if they are enclosed where
the expression is an operation. -/
theorem reads_tokens : ∀ e : Expr,
    ReadsOperand (enclose (e.tightness < 6) e.tokens) e ∧ ReadsChain e.tokens e.chain
  | .literal value => ⟨.literal value, .operand (.literal value)⟩
  | .name spelling => ⟨.name spelling, .operand (.name spelling)⟩
  | .call function [] => ⟨.callEmpty function, .operand (.callEmpty function)⟩
  | .call function (e :: others) => by
    have operand : ReadsOperand (Expr.call function (e :: others)).tokens
        (.call function (e :: others)) :=
      .call function (reads_tokensAll (e :: others) (List.cons_ne_nil e others))
    exact ⟨operand, .operand operand⟩
  | .unary .not operand => by
    have whole := (reads_tokens operand).1.not
    exact ⟨whole, .operand whole⟩
  | .unary .negate operand => by
    have whole := (reads_tokens operand).1.negate
    exact ⟨whole, .operand whole⟩
  | .binary operator left right => by
    have most : operator.leftBound ≤ 6 ∧ operator.rightBound ≤ 6 := by
      have below := tightness_lt operator
      rcases bounds operator with ⟨-, left, right⟩ | ⟨-, left, right⟩ <;> omega
    obtain ⟨leftOperand, leftChain⟩ := reads_tokens left
    obtain ⟨rightOperand, rightChain⟩ := reads_tokens right
    have chain : ReadsChain (Expr.binary operator left right).tokens
        (Expr.binary operator left right).chain :=
      (readsChain_standing most.1 leftOperand leftChain).join (infix?_operatorToken operator)
        (readsChain_standing most.2 rightOperand rightChain)
    have operation : (Expr.binary operator left right).tightness < 6 := tightness_lt operator
    refine ⟨?_, chain⟩
    rw [decide_eq_true operation]
    exact .enclosed (readsWhole_of_chain chain)

/-- The tokens of several expressions before a closing parenthesis are read as the arguments of a
call. -/
theorem reads_tokensAll : ∀ es : List Expr, es ≠ [] →
    ReadsArguments (Expr.tokensAll es ++ [.closer]) es
  | [], filled => absurd rfl filled
  | [e], _ => .last (readsWhole_of_chain (reads_tokens e).2)
  | e :: next :: others, _ => by
    have later := reads_tokensAll (next :: others) (List.cons_ne_nil next others)
    have tokens : Expr.tokensAll (e :: next :: others) ++ [.closer] =
        e.tokens ++ .comma :: (Expr.tokensAll (next :: others) ++ [.closer]) := by
      rw [Expr.tokensAll, List.append_assoc, List.cons_append]
    rw [tokens]
    exact .cons (readsWhole_of_chain (reads_tokens e).2) later

end

end Reading

section Printing

/-- The tokens that enclose others are printed. -/
theorem printable_enclose {needed : Bool} {tokens : List Token}
    (printable : ∀ token ∈ tokens, token.IsPrintable) :
    ∀ token ∈ enclose needed tokens, token.IsPrintable := by
  intro token member
  cases needed with
  | false => exact printable token member
  | true =>
    rcases List.mem_cons.1 member with rfl | inner
    · exact trivial
    · rcases List.mem_append.1 inner with within | last
      · exact printable token within
      · rw [List.mem_singleton.1 last]
        exact trivial

mutual

/-- The tokens of a printable expression are printable. -/
theorem printable_tokens : ∀ e : Expr, e.IsPrintable → ∀ token ∈ e.tokens, token.IsPrintable
  | .literal value, printable, token, member => by
    rw [List.mem_singleton.1 member]
    cases value with
    | number x => exact printable
    | _ => exact trivial
  | .name spelling, printable, token, member => by
    rw [List.mem_singleton.1 member]
    exact printable
  | .call function arguments, printable, token, member => by
    rcases List.mem_cons.1 member with rfl | after
    · exact printable.1
    · rcases List.mem_cons.1 after with rfl | later
      · exact trivial
      · rcases List.mem_append.1 later with within | last
        · exact printable_tokensAll arguments printable.2 token within
        · rw [List.mem_singleton.1 last]
          exact trivial
  | .unary .not operand, printable, token, member => by
    rcases List.mem_cons.1 member with rfl | later
    · exact trivial
    · exact printable_enclose (printable_tokens operand printable) token later
  | .unary .negate operand, printable, token, member => by
    rcases List.mem_cons.1 member with rfl | later
    · exact trivial
    · exact printable_enclose (printable_tokens operand printable) token later
  | .binary operator left right, printable, token, member => by
    rcases List.mem_append.1 member with before | after
    · exact printable_enclose (printable_tokens left printable.1) token before
    · rcases List.mem_cons.1 after with rfl | later
      · cases operator with
        | arithmetic operation =>
          cases operation with
          | subtract => exact trivial
          | _ => exact rfl
        | _ => exact rfl
      · exact printable_enclose (printable_tokens right printable.2) token later

/-- The tokens of several printable expressions are printable. -/
theorem printable_tokensAll : ∀ es : List Expr, Expr.AllPrintable es →
    ∀ token ∈ Expr.tokensAll es, token.IsPrintable
  | [], _, _, member => absurd member List.not_mem_nil
  | [e], printable, token, member => printable_tokens e printable.1 token member
  | e :: next :: others, printable, token, member => by
    rcases List.mem_append.1 member with before | after
    · exact printable_tokens e printable.1 token before
    · rcases List.mem_cons.1 after with rfl | later
      · exact trivial
      · exact printable_tokensAll (next :: others) printable.2 token later

end

/-- Reading undoes printing, for every expression without numbers and every way of quoting texts:
operators bind as tightly as the table says and associate to the left, the power to the right. -/
theorem parse?_print (quoting : Quoting) {e : Expr} (printable : e.IsPrintable) :
    parse? (e.print quoting) = some e := by
  have lexes : Lexes (e.print quoting) e.tokens := lexes_join (printable_tokens e printable)
  have whole : ReadsWhole e.tokens e := readsWhole_of_chain (reads_tokens e).2
  exact whole.parse? (lexes _ (Nat.le_refl _))

/-- Texts between double quotation marks, with backslashes before these and before backslashes. -/
def doubleQuotes : Quoting where
  mark := '\x22'
  protects := fun c => c == '\x22' || c == '\\'
  quotes := .inl rfl
  covers := by decide

/-- A negated comparison, and a power that is raised to a difference. -/
def fitting : Expr :=
  .binary .and
    (.unary .not (.binary (.compare .eq) (.name "veil-hem") (.literal (.text "Ed\x22s \\"))))
    (.binary (.arithmetic .power)
      (.binary (.arithmetic .power) (.unary .negate (.name "a")) (.call "room" []))
      (.binary (.arithmetic .subtract) (.name "b")
        (.binary .add (.call "sum" [.name "c", .name "d"]) (.literal (.bool true)))))

/-- The expression as it is printed. -/
def fittingText : Text :=
  "! ( veil-hem == \x22Ed\\\x22s \\\\\x22 ) && ( - a ^ room ( ) ) ^ ( b - ( sum ( c , d ) + true ) )"

/-- Parentheses stand around a power that is raised and around a sum that is subtracted. -/
theorem parse?_print_fitting :
    fitting.print doubleQuotes = fittingText ∧ parse? fittingText = some fitting := by
  have printed : fitting.print doubleQuotes = fittingText := by rfl
  have named : ∀ {word : Text}, word.head?.any startsName = true → word.all continuesName = true →
      keyword? word = none → IsName word := by
    intro word starts continues free
    refine ⟨⟨word, [], starts, fun part member => ?_, free⟩, List.append_nil word⟩
    rw [List.mem_singleton.1 member]
    exact ⟨by rintro rfl; exact absurd starts (by decide), continues⟩
  have hyphened : IsName "veil-hem" := ⟨⟨"veil", ["hem".toList], rfl, by decide, rfl⟩, rfl⟩
  have printable : fitting.IsPrintable :=
    ⟨⟨hyphened, trivial⟩, ⟨named rfl rfl rfl, named rfl rfl rfl, trivial⟩, named rfl rfl rfl,
      ⟨named rfl rfl rfl, named rfl rfl rfl, named rfl rfl rfl, trivial⟩, trivial⟩
  refine ⟨printed, ?_⟩
  rw [← printed]
  exact parse?_print doubleQuotes printable

end Printing

end Expression

end DynamicPrompt
