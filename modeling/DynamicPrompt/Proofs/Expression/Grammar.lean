import DynamicPrompt.Expression.Parser

/-!
# Reading chains of operands

Tokens are read in two steps, and so are the laws. The first ones say which tokens are read as an
operand, as further operands with the operators before them, or as a whole expression, for every
bound that is large enough and before whatever does not extend them. Each law belongs to one way of
writing and takes the laws of the parts.

The laws of grouping say how a chain is cut. A level none of whose operators stands in a chain
leaves it alone, and parts that lack the operators of a level, joined by one of them, are the parts
that the level finds.
-/

namespace DynamicPrompt.Expression

section Reading

/-- What follows an expression begins with no operator and with no parenthesis that would make a
name a call. -/
def EndsExpression (rest : List Token) : Prop :=
  ∀ token ∈ rest.head?, infix? token = none ∧ token ≠ .opener

/-- The tokens are read as an operand, before whatever is no opening parenthesis. -/
def ReadsOperand (tokens : List Token) (e : Expr) : Prop :=
  ∀ ⦃bound : Nat⦄ ⦃rest : List Token⦄, 2 * tokens.length ≤ bound → rest.head? ≠ some .opener →
    operand? bound (tokens ++ rest) = some (e, rest)

/-- The tokens are read as operators with their right operands. -/
def ReadsMore (tokens : List Token) (others : List (Infix × Expr)) : Prop :=
  ∀ ⦃bound : Nat⦄ ⦃rest : List Token⦄, 2 * tokens.length + 1 ≤ bound → EndsExpression rest →
    more? bound (tokens ++ rest) = some (others, rest)

/-- The tokens are read as an expression. -/
def ReadsWhole (tokens : List Token) (e : Expr) : Prop :=
  ∀ ⦃bound : Nat⦄ ⦃rest : List Token⦄, 2 * tokens.length + 2 ≤ bound → EndsExpression rest →
    whole? bound (tokens ++ rest) = some (e, rest)

/-- The tokens, the last of which is a closing parenthesis, are read as the arguments of a call. -/
def ReadsArguments (tokens : List Token) (es : List Expr) : Prop :=
  ∀ ⦃bound : Nat⦄ ⦃rest : List Token⦄, 2 * tokens.length + 1 ≤ bound →
    arguments? bound (tokens ++ rest) = some (es, rest)

/-- A token that is no operator and no opening parenthesis ends an expression. -/
theorem EndsExpression.cons {token : Token} (ends : infix? token = none ∧ token ≠ .opener)
    (rest : List Token) : EndsExpression (token :: rest) := by
  rintro first head
  obtain rfl : token = first := Option.some.inj head
  exact ends

variable {tokens : List Token} {e : Expr}

/-- A literal is an operand. -/
theorem ReadsOperand.literal (value : Value) : ReadsOperand [.literal value] (.literal value) := by
  intro bound rest enough _
  obtain ⟨bound, rfl⟩ : ∃ fewer, bound = fewer + 1 :=
    Nat.exists_eq_succ_of_ne_zero (by rw [List.length_singleton] at enough; omega)
  rfl

/-- A name is an operand, unless it is called. -/
theorem ReadsOperand.name (name : Text) : ReadsOperand [.name name] (.name name) := by
  intro bound rest enough uncalled
  obtain ⟨bound, rfl⟩ : ∃ fewer, bound = fewer + 1 :=
    Nat.exists_eq_succ_of_ne_zero (by rw [List.length_singleton] at enough; omega)
  rw [List.singleton_append, operand?]
  · rintro others rfl
    exact uncalled rfl
  · rintro others rfl
    exact uncalled rfl

/-- An operand may have a negation before it. -/
theorem ReadsOperand.not (operand : ReadsOperand tokens e) :
    ReadsOperand (.not :: tokens) (.unary .not e) := by
  intro bound rest enough uncalled
  rw [List.length_cons] at enough
  obtain ⟨bound, rfl⟩ : ∃ fewer, bound = fewer + 1 := Nat.exists_eq_succ_of_ne_zero (by omega)
  rw [List.cons_append, operand?, operand (by omega) uncalled, Option.map_some]

/-- An operand may have a minus sign before it. -/
theorem ReadsOperand.negate (operand : ReadsOperand tokens e) :
    ReadsOperand (.minus :: tokens) (.unary .negate e) := by
  intro bound rest enough uncalled
  rw [List.length_cons] at enough
  obtain ⟨bound, rfl⟩ : ∃ fewer, bound = fewer + 1 := Nat.exists_eq_succ_of_ne_zero (by omega)
  rw [List.cons_append, operand?, operand (by omega) uncalled, Option.map_some]

/-- An expression in parentheses is an operand. -/
theorem ReadsOperand.enclosed (whole : ReadsWhole tokens e) :
    ReadsOperand (.opener :: (tokens ++ [.closer])) e := by
  intro bound rest enough _
  simp only [List.length_cons, List.length_append, List.length_nil] at enough
  obtain ⟨bound, rfl⟩ : ∃ fewer, bound = fewer + 1 := Nat.exists_eq_succ_of_ne_zero (by omega)
  have ends : EndsExpression (.closer :: rest) := .cons ⟨rfl, Token.noConfusion⟩ _
  rw [List.cons_append, List.append_assoc, List.singleton_append, operand?, whole (by omega) ends]

/-- A name before parentheses with nothing in them is a call without arguments. -/
theorem ReadsOperand.callEmpty (name : Text) :
    ReadsOperand [.name name, .opener, .closer] (.call name []) := by
  intro bound rest enough _
  obtain ⟨bound, rfl⟩ : ∃ fewer, bound = fewer + 1 :=
    Nat.exists_eq_succ_of_ne_zero (by simp only [List.length_cons] at enough; omega)
  rfl

/-- Arguments do not begin with a closing parenthesis. -/
theorem ReadsArguments.filled {es : List Expr} (arguments : ReadsArguments tokens es)
    (rest others : List Token) : tokens ++ rest ≠ .closer :: others := by
  intro same
  have read := @arguments (2 * tokens.length + 3) rest (by omega)
  rw [same, arguments?, whole?, operand?] at read
  · simp at read
  all_goals simp

/-- A name before arguments in parentheses is a call. -/
theorem ReadsOperand.call (name : Text) {es : List Expr} (arguments : ReadsArguments tokens es) :
    ReadsOperand (.name name :: .opener :: tokens) (.call name es) := by
  intro bound rest enough _
  simp only [List.length_cons] at enough
  obtain ⟨bound, rfl⟩ : ∃ fewer, bound = fewer + 1 := Nat.exists_eq_succ_of_ne_zero (by omega)
  have read := @arguments bound rest (by omega)
  rw [List.cons_append, List.cons_append, operand?, read, Option.map_some]
  exact fun others same => arguments.filled rest others same

/-- The last argument of a call stands before the closing parenthesis. -/
theorem ReadsArguments.last (whole : ReadsWhole tokens e) :
    ReadsArguments (tokens ++ [.closer]) [e] := by
  intro bound rest enough
  rw [List.length_append, List.length_singleton] at enough
  obtain ⟨bound, rfl⟩ : ∃ fewer, bound = fewer + 1 := Nat.exists_eq_succ_of_ne_zero (by omega)
  have ends : EndsExpression (.closer :: rest) := .cons ⟨rfl, Token.noConfusion⟩ _
  rw [List.append_assoc, List.singleton_append, arguments?, whole (by omega) ends]

/-- An argument of a call stands before a comma and further arguments. -/
theorem ReadsArguments.cons {later : List Token} {es : List Expr} (whole : ReadsWhole tokens e)
    (others : ReadsArguments later es) :
    ReadsArguments (tokens ++ .comma :: later) (e :: es) := by
  intro bound rest enough
  rw [List.length_append, List.length_cons] at enough
  obtain ⟨bound, rfl⟩ : ∃ fewer, bound = fewer + 1 := Nat.exists_eq_succ_of_ne_zero (by omega)
  have ends : EndsExpression (.comma :: (later ++ rest)) := .cons ⟨rfl, Token.noConfusion⟩ _
  rw [List.append_assoc, List.cons_append, arguments?, whole (by omega) ends]
  dsimp only
  rw [others (by omega), Option.map_some]

/-- No operator means no further operands. -/
theorem ReadsMore.nil : ReadsMore [] [] := by
  intro bound rest enough ends
  obtain ⟨bound, rfl⟩ : ∃ fewer, bound = fewer + 1 := Nat.exists_eq_succ_of_ne_zero (by omega)
  cases rest with
  | nil => rfl
  | cons token rest =>
    rw [List.nil_append, more?, (ends token rfl).1]

/-- Further operands, and what follows them, do not begin with an opening parenthesis. -/
theorem ReadsMore.apart {others : List (Infix × Expr)} (more : ReadsMore tokens others)
    {rest : List Token} (ends : EndsExpression rest) : (tokens ++ rest).head? ≠ some .opener := by
  intro head
  obtain ⟨after, opens⟩ := List.head?_eq_some_iff.1 head
  -- A parenthesis would be left over at once, so nothing would be read before it.
  have read := @more (2 * tokens.length + 1) rest (Nat.le_refl _) ends
  rw [opens, more?] at read
  have left : .opener :: after = rest := (Prod.mk.inj (Option.some.inj read)).2
  exact (ends .opener (by rw [← left]; rfl)).2 rfl

/-- An operator and its right operand, before further ones. -/
theorem ReadsMore.cons {token : Token} {operator : Infix} {later : List Token}
    {others : List (Infix × Expr)} (between : infix? token = some operator)
    (operand : ReadsOperand tokens e) (more : ReadsMore later others) :
    ReadsMore (token :: (tokens ++ later)) ((operator, e) :: others) := by
  intro bound rest enough ends
  simp only [List.length_cons, List.length_append] at enough
  obtain ⟨bound, rfl⟩ : ∃ fewer, bound = fewer + 1 := Nat.exists_eq_succ_of_ne_zero (by omega)
  rw [List.cons_append, List.append_assoc, more?, between]
  dsimp only
  rw [operand (by omega) (more.apart ends)]
  dsimp only
  rw [more (by omega) ends, Option.map_some]

/-- Chains with an operator between them, as one chain. -/
def Chain.join (operator : Infix) (left right : Chain) : Chain :=
  ⟨left.first, left.more ++ (operator, right.first) :: right.more⟩

/-- The tokens are read as the first operand of the chain and then, before whatever further
operands there are, as the others. -/
def ReadsChain (tokens : List Token) (chain : Chain) : Prop :=
  ∃ head tail, tokens = head ++ tail ∧ ReadsOperand head chain.first ∧
    ∀ {later : List Token} {others : List (Infix × Expr)}, ReadsMore later others →
      ReadsMore (tail ++ later) (chain.more ++ others)

/-- An operand alone is a chain. -/
theorem ReadsChain.operand (operand : ReadsOperand tokens e) : ReadsChain tokens ⟨e, []⟩ :=
  ⟨tokens, [], (List.append_nil tokens).symm, operand, fun more => more⟩

/-- Two chains with an operator between them are a chain. -/
theorem ReadsChain.join {token : Token} {operator : Infix} {second : List Token}
    {left right : Chain} (between : infix? token = some operator) (first : ReadsChain tokens left)
    (others : ReadsChain second right) :
    ReadsChain (tokens ++ token :: second) (.join operator left right) := by
  obtain ⟨head, tail, rfl, operand, more⟩ := first
  obtain ⟨head', tail', rfl, operand', more'⟩ := others
  refine ⟨head, tail ++ token :: (head' ++ tail'), List.append_assoc _ _ _, operand, ?_⟩
  intro later others reads
  have further := more (ReadsMore.cons between operand' (more' reads))
  simpa [Chain.join] using further

/-- A chain is an expression. -/
theorem ReadsChain.whole {chain : Chain} (reads : ReadsChain tokens chain) :
    ReadsWhole tokens (group Level.all chain) := by
  obtain ⟨head, tail, rfl, operand, more⟩ := reads
  have others := more ReadsMore.nil
  rw [List.append_nil, List.append_nil] at others
  intro bound rest enough ends
  rw [List.length_append] at enough
  obtain ⟨bound, rfl⟩ : ∃ fewer, bound = fewer + 1 := Nat.exists_eq_succ_of_ne_zero (by omega)
  rw [List.append_assoc, whole?, operand (by omega) (others.apart ends)]
  dsimp only
  rw [others (by omega) ends, Option.map_some]

/-- An operand alone is an expression. -/
theorem ReadsWhole.operand (operand : ReadsOperand tokens e) : ReadsWhole tokens e :=
  (ReadsChain.operand operand).whole

/-- A text whose tokens are an expression is read as it. -/
theorem ReadsWhole.parse? (whole : ReadsWhole tokens e) {text : Text}
    (cut : tokens? text = some tokens) : parse? text = some e := by
  have read := @whole (2 * tokens.length + 2) [] (Nat.le_refl _) (by simp [EndsExpression])
  rw [List.append_nil] at read
  simp [Expression.parse?, cut, read]

end Reading

section Grouping

variable {level : Level} {operator : Infix}

/-- No operator of the level stands in the chain. -/
def Chain.Lacks (level : Level) (chain : Chain) : Prop :=
  ∀ part ∈ chain.more, part.1.level ≠ level

/-- Several chains with an operator between neighbours. -/
def Chain.joined (operator : Infix) (first : Chain) : List Chain → Chain
  | [] => first
  | second :: others => join operator first (joined operator second others)

/-- Without operators of the level a chain is not cut. -/
theorem cutAt_lacking {first : Expr} {more : List (Infix × Expr)}
    (lacks : Chain.Lacks level ⟨first, more⟩) : cutAt level first more = (⟨first, more⟩, []) := by
  induction more generalizing first with
  | nil => rfl
  | cons part more inductionHypothesis =>
    obtain ⟨between, operand⟩ := part
    have other : between.level ≠ level := lacks _ List.mem_cons_self
    have later : cutAt level operand more = (⟨operand, more⟩, []) :=
      inductionHypothesis fun part member => lacks part (List.mem_cons_of_mem _ member)
    rw [cutAt, later]
    dsimp only
    rw [if_neg other]

/-- A chain is cut at the first operator of the level, and then what follows it is. -/
theorem cutAt_found {first operand : Expr} {more rest : List (Infix × Expr)} {head : Chain}
    {parts : List (Infix × Chain)} (lacks : Chain.Lacks level ⟨first, more⟩)
    (own : operator.level = level) (later : cutAt level operand rest = (head, parts)) :
    cutAt level first (more ++ (operator, operand) :: rest) =
      (⟨first, more⟩, (operator, head) :: parts) := by
  induction more generalizing first with
  | nil =>
    rw [List.nil_append, cutAt, later]
    dsimp only
    rw [if_pos own]
  | cons part more inductionHypothesis =>
    obtain ⟨between, next⟩ := part
    have other : between.level ≠ level := lacks _ List.mem_cons_self
    have found : cutAt level next (more ++ (operator, operand) :: rest) =
        (⟨next, more⟩, (operator, head) :: parts) :=
      inductionHypothesis fun part member => lacks part (List.mem_cons_of_mem _ member)
    rw [List.cons_append, cutAt, found]
    dsimp only
    rw [if_neg other]

/-- Joined chains are cut into those chains. -/
theorem cutAt_joined (own : operator.level = level) {first : Chain} {others : List Chain}
    (lacks : ∀ chain ∈ first :: others, chain.Lacks level) :
    cutAt level (Chain.joined operator first others).first
        (Chain.joined operator first others).more =
      (first, others.map fun chain => (operator, chain)) := by
  induction others generalizing first with
  | nil => exact cutAt_lacking (lacks first List.mem_cons_self)
  | cons second others inductionHypothesis =>
    have later := inductionHypothesis fun chain member => lacks chain (.tail first member)
    -- The first operator of the level is the one that joins, since the first chain lacks others.
    exact cutAt_found (lacks first List.mem_cons_self) own later

/-- A chain that is continued by an operator of the level and a chain without one is cut as it was
before, and the continuation is its last part. -/
theorem cutAt_last (own : operator.level = level) {first : Expr} {more : List (Infix × Expr)}
    {right : Chain} (lacks : right.Lacks level) :
    cutAt level first (more ++ (operator, right.first) :: right.more) =
      ((cutAt level first more).1, (cutAt level first more).2 ++ [(operator, right)]) := by
  induction more generalizing first with
  | nil =>
    have alone : cutAt level right.first right.more = (right, []) := cutAt_lacking lacks
    rw [List.nil_append, cutAt, cutAt, alone]
    dsimp only
    rw [if_pos own]
    rfl
  | cons part more inductionHypothesis =>
    obtain ⟨between, next⟩ := part
    rw [List.cons_append, cutAt, cutAt, inductionHypothesis]
    dsimp only
    by_cases same : between.level = level
    · rw [if_pos same, if_pos same]
      rfl
    · rw [if_neg same, if_neg same]

variable {tighter : List Level}

/-- An operand alone is grouped as it is. -/
theorem group_single (levels : List Level) (e : Expr) : group levels ⟨e, []⟩ = e := by
  induction levels with
  | nil => rfl
  | cons level tighter inductionHypothesis =>
    have lacks : Chain.Lacks level ⟨e, []⟩ := fun part member => absurd member List.not_mem_nil
    rw [group, cutAt_lacking lacks]
    simp [joinLeft, joinRight, inductionHypothesis]

/-- At a level that associates to the left, the last operator of a chain is applied last. -/
theorem group_join_left (own : operator.level = level) (left : level.associatesRight = false)
    {first last : Chain} (lacks : last.Lacks level) :
    group (level :: tighter) (.join operator first last) =
      .binary operator (group (level :: tighter) first) (group tighter last) := by
  rw [group, Chain.join, cutAt_last own lacks, group]
  dsimp only
  rw [left, List.map_append, joinLeft, List.foldl_append]
  rfl

/-- At a level that associates to the right, the first operator of a chain is applied last. -/
theorem group_join_right (own : operator.level = level) (right : level.associatesRight = true)
    {first last : Chain} (lacks : first.Lacks level) :
    group (level :: tighter) (.join operator first last) =
      .binary operator (group tighter first) (group (level :: tighter) last) := by
  have cut : cutAt level first.first (first.more ++ (operator, last.first) :: last.more) =
      (first, (operator, (cutAt level last.first last.more).1) ::
        (cutAt level last.first last.more).2) := cutAt_found lacks own rfl
  rw [group, Chain.join, cut, group]
  dsimp only
  rw [right, List.map_cons, if_pos rfl, if_pos rfl, joinRight]

/-- A level is passed by a chain without its operators. -/
theorem group_lacking {chain : Chain} (lacks : chain.Lacks level) :
    group (level :: tighter) chain = group tighter chain := by
  rw [group, cutAt_lacking lacks]
  simp [joinLeft, joinRight]

/-- Chains joined by an operator of a level are grouped by the tighter levels and joined from the
left. -/
theorem group_joined (own : operator.level = level) (left : level.associatesRight = false)
    {first : Chain} {others : List Chain} (lacks : ∀ chain ∈ first :: others, chain.Lacks level) :
    group (level :: tighter) (Chain.joined operator first others) =
      joinLeft (group tighter first)
        (others.map fun chain => (operator, group tighter chain)) := by
  rw [group, cutAt_joined own lacks]
  dsimp only
  rw [left, List.map_map]
  rfl

/-- What lacks the operators of a level does so when it is joined by an operator of another one. -/
theorem lacks_joined (other : operator.level ≠ level) {first : Chain} {others : List Chain}
    (lacks : ∀ chain ∈ first :: others, chain.Lacks level) :
    (Chain.joined operator first others).Lacks level := by
  induction others generalizing first with
  | nil => exact lacks first List.mem_cons_self
  | cons second others inductionHypothesis =>
    have later := inductionHypothesis fun chain member => lacks chain (.tail first member)
    intro part member
    rcases List.mem_append.1 member with within | after
    · exact lacks first List.mem_cons_self part within
    · rcases List.mem_cons.1 after with rfl | beyond
      · exact other
      · exact later part beyond

end Grouping

end DynamicPrompt.Expression
