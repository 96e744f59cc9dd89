import DynamicPrompt.Proofs.Expression.Spelling
import Mathlib.Data.List.Chain
import Mathlib.Data.List.TakeWhile

/-!
# What an expression cannot hold

A text is accepted as an expression only if its tokens are, and then they follow each other as
operands and operators do. So some characters give a text away wherever they stand: outside quotes
a closing parenthesis is a token of its own, a colon is none, and a numeral does not directly follow
what closes an operand. Cutting into tokens can be taken up again at each such character, because no
token reaches beyond it.
-/

namespace DynamicPrompt.Expression

/-- The characters that may stand in an unquoted token behind its first one. -/
def continuesToken (c : Char) : Bool := continuesName c || "-.|&=".toList.contains c

/-- The two quotation marks. -/
def isQuote (c : Char) : Bool := c == '\x22' || c == '\x27'

/-- A blank is no quotation mark. -/
theorem isQuote_of_isBlank {c : Char} (blank : isBlank c = true) : isQuote c = false := by
  by_contra quote
  rw [Bool.not_eq_false, isQuote, Bool.or_eq_true, beq_iff_eq, beq_iff_eq] at quote
  rcases quote with rfl | rfl
  · exact absurd blank (by decide)
  · exact absurd blank (by decide)

/-- A character of a numeral is no quotation mark. -/
theorem isQuote_of_numeral {c : Char} (digit : (c.isDigit || c == '.') = true) :
    isQuote c = false := by
  by_contra quote
  rw [Bool.not_eq_false, isQuote, Bool.or_eq_true, beq_iff_eq, beq_iff_eq] at quote
  rcases quote with rfl | rfl
  · exact absurd digit (by decide)
  · exact absurd digit (by decide)

section Pieces

variable {text rest : Text}

/-- What a token takes: at least one character, and behind the first one only characters that
continue tokens, unless a quotation mark ends it. -/
structure IsPiece (piece : Text) : Prop where
  filled : piece ≠ []
  reaches : (∀ c ∈ piece.tail, continuesToken c = true) ∨
    ∃ quote ∈ piece.getLast?, isQuote quote = true

/-- The text begins with a piece, before the rest. -/
def Takes (text rest : Text) : Prop := ∃ piece, text = piece ++ rest ∧ IsPiece piece

/-- Characters that continue tokens are a piece, if there are any. -/
theorem IsPiece.of_all {piece : Text} (filled : piece ≠ [])
    (continues : ∀ c ∈ piece, continuesToken c = true) : IsPiece piece :=
  ⟨filled, .inl fun c member => continues c (List.mem_of_mem_tail member)⟩

/-- The characters of a name continue tokens. -/
theorem continuesToken_of_takeWhile {test : Char → Bool}
    (continues : ∀ c, test c = true → continuesToken c = true) :
    ∀ c ∈ text.takeWhile test, continuesToken c = true :=
  fun c member => continues c (List.all_eq_true.1 List.all_takeWhile c member)

/-- A character of a name continues a token. -/
theorem continuesToken_of_continuesName {c : Char} (continues : continuesName c = true) :
    continuesToken c = true := by
  rw [continuesToken, continues, Bool.true_or]

/-- A digit continues a token. -/
theorem continuesToken_of_isDigit {c : Char} (digit : c.isDigit = true) :
    continuesToken c = true :=
  continuesToken_of_continuesName (continuesName_of_isDigit digit)

/-- The further parts of a name are taken from the start of the text, and continue a token. -/
theorem hyphenated_append (bound : Nat) (text : Text) :
    (hyphenated bound text).1 ++ (hyphenated bound text).2 = text ∧
      ∀ c ∈ (hyphenated bound text).1, continuesToken c = true := by
  fun_induction hyphenated bound text with
  | case1 bound rest => exact ⟨rfl, by simp⟩
  | case2 bound rest part filled others after read inductionHypothesis =>
    rw [read] at inductionHypothesis
    obtain ⟨whole, continues⟩ := inductionHypothesis
    constructor
    · dsimp only at whole ⊢
      rw [List.append_assoc, whole, List.cons_append, List.takeWhile_append_dropWhile]
    · intro c member
      rcases List.mem_append.1 member with front | back
      · rcases List.mem_cons.1 front with rfl | inside
        · decide
        · exact continuesToken_of_takeWhile (fun _ => continuesToken_of_continuesName) c inside
      · exact continues c back
  | case3 => exact ⟨rfl, by simp⟩

/-- A word takes a piece. -/
theorem takes_word {c : Char} (starts : startsName c = true) (rest : Text) :
    Takes (c :: rest) (word (c :: rest)).2 := by
  have continues : ∀ d ∈ (c :: rest).takeWhile continuesName, continuesToken d = true :=
    continuesToken_of_takeWhile fun _ => continuesToken_of_continuesName
  have filled : (c :: rest).takeWhile continuesName ≠ [] := by
    rw [List.takeWhile_cons_of_pos (continuesName_of_startsName starts)]
    exact List.cons_ne_nil _ _
  have parted : (c :: rest).takeWhile continuesName ++ (c :: rest).dropWhile continuesName =
      c :: rest := List.takeWhile_append_dropWhile
  rw [word]
  split
  · exact ⟨_, parted.symm, .of_all filled continues⟩
  · have hyphens := hyphenated_append ((c :: rest).dropWhile continuesName).length
      ((c :: rest).dropWhile continuesName)
    generalize hyphenated ((c :: rest).dropWhile continuesName).length
      ((c :: rest).dropWhile continuesName) = parts at hyphens ⊢
    obtain ⟨others, after⟩ := parts
    obtain ⟨whole, more⟩ := hyphens
    refine ⟨(c :: rest).takeWhile continuesName ++ others, ?_,
      .of_all (List.append_ne_nil_of_left_ne_nil filled others) ?_⟩
    · rw [List.append_assoc, whole, parted]
    · intro d member
      exact (List.mem_append.1 member).elim (continues d) (more d)

/-- A numeral takes a piece. -/
theorem takes_number? {first : Token} (read : number? text = some (first, rest)) :
    Takes text rest := by
  have continues : ∀ c ∈ text.takeWhile Char.isDigit, continuesToken c = true :=
    continuesToken_of_takeWhile fun _ => continuesToken_of_isDigit
  have parted : text.takeWhile Char.isDigit ++ text.dropWhile Char.isDigit = text :=
    List.takeWhile_append_dropWhile
  -- The digits before the point and the fraction, if there is any, are the piece.
  have taken {fraction after : Text} (joined : fraction ++ after = text.dropWhile Char.isDigit)
      (digits : ∀ c ∈ fraction, continuesToken c = true)
      (known : (Numeral.float? (text.takeWhile Char.isDigit ++ fraction)).map
        (fun x => (Token.literal (.number x), after)) = some (first, rest)) : Takes text rest := by
    obtain ⟨x, value, same⟩ := Option.map_eq_some_iff.1 known
    obtain ⟨-, rfl⟩ := Prod.mk.inj same
    refine ⟨text.takeWhile Char.isDigit ++ fraction, ?_, .of_all ?_ ?_⟩
    · rw [List.append_assoc, joined, parted]
    · intro empty
      have nothing : Numeral.float? [] = none := by decide
      rw [empty, nothing] at value
      exact absurd value.symm (Option.some_ne_none x)
    · intro c member
      exact (List.mem_append.1 member).elim (continues c) (digits c)
  unfold number? at read
  dsimp only at read
  split at read
  · next after pointed =>
    split at read
    · exact taken rfl (by simp) read
    · refine taken ?_ ?_ read
      · rw [pointed, List.cons_append, List.takeWhile_append_dropWhile]
      · intro c member
        rcases List.mem_cons.1 member with rfl | inside
        · decide
        · exact continuesToken_of_takeWhile (fun _ => continuesToken_of_isDigit) c inside
  · exact taken rfl (by simp) read

/-- The second sign of a token written with two signs continues a token. -/
theorem continuesToken_of_pair? {c d : Char} {first : Token} (read : pair? c d = some first) :
    continuesToken d = true := by
  unfold pair? at read
  split at read
  case h_8 => exact absurd read.symm (Option.some_ne_none _)
  all_goals decide

/-- A quoted text is taken up to its closing quotation mark. -/
theorem quoted?_append {quote : Char} {content : Text}
    (read : quoted? quote text = some (content, rest)) :
    ∃ before, text = before ++ quote :: rest := by
  fun_induction quoted? quote text generalizing content with
  | case1 => exact absurd read.symm (Option.some_ne_none _)
  | case2 c after inductionHypothesis =>
    obtain ⟨parts, inside, same⟩ := Option.map_eq_some_iff.1 read
    obtain ⟨rfl, rfl⟩ := Prod.mk.inj same
    obtain ⟨before, whole⟩ := inductionHypothesis inside
    exact ⟨'\\' :: c :: before, by rw [whole]; rfl⟩
  | case3 after =>
    obtain ⟨rfl, rfl⟩ := Prod.mk.inj (Option.some.inj read)
    exact ⟨[], rfl⟩
  | case4 c after other unequal inductionHypothesis =>
    obtain ⟨parts, inside, same⟩ := Option.map_eq_some_iff.1 read
    obtain ⟨rfl, rfl⟩ := Prod.mk.inj same
    obtain ⟨before, whole⟩ := inductionHypothesis inside
    exact ⟨c :: before, by rw [whole]; rfl⟩

/-- Every token takes a piece. -/
theorem takes_token? {first : Token} (read : token? text = some (first, rest)) :
    Takes text rest := by
  cases text with
  | nil => exact absurd read.symm (Option.some_ne_none _)
  | cons c after =>
    rw [token?.eq_def] at read
    dsimp only at read
    split at read
    · next starts =>
      have taken := takes_word starts after
      rwa [Option.some.inj read] at taken
    · split at read
      · exact takes_number? read
      · split at read
        · next quotes =>
          obtain ⟨parts, inside, same⟩ := Option.map_eq_some_iff.1 read
          obtain ⟨-, rfl⟩ := Prod.mk.inj same
          obtain ⟨before, whole⟩ := quoted?_append inside
          refine ⟨c :: (before ++ [c]), by rw [whole]; simp, List.cons_ne_nil _ _, .inr ⟨c, ?_, ?_⟩⟩
          · rw [← List.cons_append, List.getLast?_concat]
            rfl
          · rcases quotes with rfl | rfl <;> rfl
        · rcases Option.or_eq_some_iff.1 read with pair | ⟨-, sign⟩
          · split at pair
            · exact absurd pair.symm (Option.some_ne_none _)
            · next d others =>
              obtain ⟨token, known, same⟩ := Option.map_eq_some_iff.1 pair
              obtain ⟨-, rfl⟩ := Prod.mk.inj same
              refine ⟨[c, d], rfl, List.cons_ne_nil _ _, .inl ?_⟩
              rintro e member
              rw [List.mem_singleton.1 member]
              exact continuesToken_of_pair? known
          · obtain ⟨token, known, same⟩ := Option.map_eq_some_iff.1 sign
            obtain ⟨-, rfl⟩ := Prod.mk.inj same
            exact ⟨[c], rfl, List.cons_ne_nil _ _, .inl (by simp)⟩

/-- No piece reaches beyond a character that continues no token, unless a quotation mark follows. -/
theorem Takes.stops {front back : Text} {c : Char} (breaks : continuesToken c = false)
    (unquoted : ∀ d ∈ c :: back, isQuote d = false) (filled : front ≠ [])
    (takes : Takes (front ++ c :: back) rest) : ∃ front', rest = front' ++ c :: back := by
  obtain ⟨piece, whole, -, reaches⟩ := takes
  rcases List.append_eq_append_iff.1 whole with ⟨beyond, rfl, after⟩ | ⟨front', rfl, after⟩
  · cases beyond with
    | nil => exact ⟨[], after.symm⟩
    | cons d beyond =>
      obtain ⟨rfl, rfl⟩ := List.cons.inj after
      rcases reaches with continues | ⟨quote, last, quotes⟩
      · -- The character stands behind the first one of the piece.
        have inside : c ∈ (front ++ c :: beyond).tail := by
          rw [List.tail_append_of_ne_nil filled]
          exact List.mem_append_right _ List.mem_cons_self
        rw [continues c inside] at breaks
        exact Bool.noConfusion breaks
      · rw [List.getLast?_append_of_ne_nil _ (List.cons_ne_nil c beyond)] at last
        have among : quote ∈ c :: (beyond ++ rest) :=
          List.mem_append_left rest (List.mem_of_mem_getLast? last)
        rw [unquoted quote among] at quotes
        exact Bool.noConfusion quotes
  · exact ⟨front', after⟩

/-- Blanks before a text do not matter for its tokens. -/
theorem tokensWithin?_congr {text text' : Text}
    (same : text.dropWhile isSpace = text'.dropWhile isSpace) (bound : Nat) :
    tokensWithin? bound text = tokensWithin? bound text' := by
  cases bound with
  | zero => rw [tokensWithin?, tokensWithin?, same]
  | succ bound => rw [tokensWithin?, tokensWithin?, same]

/-- A text that is not blank is cut into a first token and the tokens of what follows it. -/
theorem exists_token? {bound : Nat} {c : Char} {tokens : List Token}
    (passed : text.dropWhile isSpace = c :: rest) (cut : tokensWithin? bound text = some tokens) :
    ∃ fewer first after others, bound = fewer + 1 ∧ token? (c :: rest) = some (first, after) ∧
      tokensWithin? fewer after = some others ∧ tokens = first :: others := by
  cases bound with
  | zero =>
    rw [tokensWithin?, passed] at cut
    exact absurd cut.symm (Option.some_ne_none _)
  | succ bound =>
    rw [tokensWithin?, passed] at cut
    obtain ⟨⟨first, after⟩, read, later⟩ := Option.bind_eq_some_iff.1 cut
    obtain ⟨others, found, same⟩ := Option.bind_eq_some_iff.1 later
    exact ⟨bound, first, after, others, rfl, read, found, (Option.some.inj same).symm⟩

/-- Cutting a text into tokens can be taken up again at a character that continues no token, unless
a quotation mark follows. -/
theorem tokensWithin?_resumes {back : Text} {c : Char} (breaks : continuesToken c = false)
    (unquoted : ∀ d ∈ c :: back, isQuote d = false) {bound : Nat} {front : Text}
    {tokens : List Token} (cut : tokensWithin? bound (front ++ c :: back) = some tokens) :
    ∃ bound' earlier later, tokens = earlier ++ later ∧
      tokensWithin? bound' (c :: back) = some later := by
  induction bound using Nat.strong_induction_on generalizing front tokens with
  | _ bound inductionHypothesis =>
    have passed : (front ++ c :: back).dropWhile isSpace = _ := List.dropWhile_append
    cases spaced : front.dropWhile isSpace with
    | nil =>
      rw [spaced] at passed
      exact ⟨bound, [], tokens, rfl, (tokensWithin?_congr passed bound).symm.trans cut⟩
    | cons d front' =>
      rw [spaced] at passed
      obtain ⟨fewer, first, rest, others, rfl, read, found, rfl⟩ := exists_token? passed cut
      obtain ⟨front'', rfl⟩ :=
        Takes.stops breaks unquoted (List.cons_ne_nil d front') (takes_token? read)
      obtain ⟨bound', earlier, later, rfl, resumed⟩ :=
        inductionHypothesis fewer (Nat.lt_succ_self fewer) found
      exact ⟨bound', first :: earlier, later, rfl, resumed⟩

end Pieces

section Reading

variable {tokens middle rest : List Token} {token : Token}

/-- A literal does not directly follow a closing parenthesis. -/
def Follows (left right : Token) : Prop := left = .closer → ∀ value, right ≠ .literal value

/-- The tokens before the rest have no literal behind a closing parenthesis. -/
def Passes (tokens rest : List Token) : Prop :=
  ∃ used, tokens = used ++ rest ∧ List.IsChain Follows used

/-- The same, and the first of them is no literal either, so that they may stand behind others. -/
def PassesOn (tokens rest : List Token) : Prop :=
  ∃ used, tokens = used ++ rest ∧ List.IsChain Follows used ∧
    ∀ value, used.head? ≠ some (.literal value)

/-- A single token. -/
theorem Passes.single : Passes (token :: rest) rest := ⟨[token], rfl, .singleton token⟩

/-- A token that closes nothing may stand before any others. -/
theorem Passes.after (passes : Passes tokens rest) (closeless : token ≠ .closer) :
    Passes (token :: tokens) rest := by
  obtain ⟨used, rfl, chain⟩ := passes
  exact ⟨token :: used, rfl, List.isChain_cons.2 ⟨fun _ _ closes => absurd closes closeless, chain⟩⟩

/-- Tokens that begin with no literal may stand behind others. -/
theorem Passes.continues (passes : Passes (token :: tokens) rest)
    (other : ∀ value, token ≠ .literal value) : PassesOn (token :: tokens) rest := by
  obtain ⟨used, whole, chain⟩ := passes
  refine ⟨used, whole, chain, ?_⟩
  cases used with
  | nil => exact fun value => (Option.some_ne_none _).symm
  | cons first used =>
    obtain ⟨rfl, -⟩ := List.cons.inj whole
    exact fun value same => other value (Option.some.inj same)

/-- No tokens may stand behind others. -/
theorem PassesOn.nil : PassesOn tokens tokens :=
  ⟨[], rfl, .nil, fun _ => (Option.some_ne_none _).symm⟩

/-- Tokens with others behind them. -/
theorem Passes.append (passes : Passes tokens middle) (continues : PassesOn middle rest) :
    Passes tokens rest := by
  obtain ⟨used, rfl, chain⟩ := passes
  obtain ⟨others, rfl, later, begins⟩ := continues
  refine ⟨used ++ others, (List.append_assoc _ _ _).symm, ?_⟩
  rw [List.isChain_append]
  refine ⟨chain, later, ?_⟩
  rintro left - right first - value rfl
  exact begins value first

/-- What the readers of expressions take with a bound. -/
structure ReadersFollow (bound : Nat) : Prop where
  operand : ∀ {tokens rest e}, operand? bound tokens = some (e, rest) → Passes tokens rest
  more : ∀ {tokens rest es}, more? bound tokens = some (es, rest) → PassesOn tokens rest
  whole : ∀ {tokens rest e}, whole? bound tokens = some (e, rest) → Passes tokens rest
  arguments : ∀ {tokens rest es}, arguments? bound tokens = some (es, rest) → Passes tokens rest

/-- A token that stands for an infix operator closes nothing and is no literal. -/
theorem of_infix? {operator : Infix} (known : infix? token = some operator) :
    token ≠ .closer ∧ ∀ value, token ≠ .literal value := by
  constructor
  · rintro rfl
    exact absurd known.symm (Option.some_ne_none operator)
  · rintro value rfl
    exact absurd known.symm (Option.some_ne_none operator)

namespace ReadersFollow

variable {bound : Nat} (readers : ReadersFollow bound)

include readers

/-- Prefix operators and the parts of an operand follow each other. -/
theorem operand?_succ {e : Expr} (read : operand? (bound + 1) tokens = some (e, rest)) :
    Passes tokens rest := by
  -- The cases are those of the reader, in its order.
  rw [operand?.eq_def] at read
  dsimp only at read
  split at read
  · obtain ⟨parts, operand, same⟩ := Option.map_eq_some_iff.1 read
    obtain ⟨-, rfl⟩ := Prod.mk.inj same
    exact (readers.operand operand).after Token.noConfusion
  · obtain ⟨parts, operand, same⟩ := Option.map_eq_some_iff.1 read
    obtain ⟨-, rfl⟩ := Prod.mk.inj same
    exact (readers.operand operand).after Token.noConfusion
  · obtain ⟨-, rfl⟩ := Prod.mk.inj (Option.some.inj read)
    exact .single
  · obtain ⟨-, rfl⟩ := Prod.mk.inj (Option.some.inj read)
    exact (Passes.single.after Token.noConfusion).after Token.noConfusion
  · obtain ⟨parts, arguments, same⟩ := Option.map_eq_some_iff.1 read
    obtain ⟨-, rfl⟩ := Prod.mk.inj same
    exact ((readers.arguments arguments).after Token.noConfusion).after Token.noConfusion
  · obtain ⟨-, rfl⟩ := Prod.mk.inj (Option.some.inj read)
    exact .single
  · split at read
    · next inner after whole =>
      obtain ⟨-, rfl⟩ := Prod.mk.inj (Option.some.inj read)
      have closed := (readers.whole whole).append
        (Passes.single.continues fun _ => Token.noConfusion)
      exact closed.after Token.noConfusion
    · exact absurd read.symm (Option.some_ne_none _)
  · exact absurd read.symm (Option.some_ne_none _)

/-- Further operands begin with an operator. -/
theorem more?_succ {es : List (Infix × Expr)} (read : more? (bound + 1) tokens = some (es, rest)) :
    PassesOn tokens rest := by
  cases tokens with
  | nil =>
    obtain ⟨-, rfl⟩ := Prod.mk.inj (Option.some.inj read)
    exact .nil
  | cons token tokens =>
    rw [more?] at read
    split at read
    · obtain ⟨-, rfl⟩ := Prod.mk.inj (Option.some.inj read)
      exact .nil
    · next operator known =>
      obtain ⟨closeless, other⟩ := of_infix? known
      split at read
      · exact absurd read.symm (Option.some_ne_none _)
      · next e after operand =>
        obtain ⟨parts, more, same⟩ := Option.map_eq_some_iff.1 read
        obtain ⟨-, rfl⟩ := Prod.mk.inj same
        have later := (readers.operand operand).append (readers.more more)
        exact (later.after closeless).continues other

/-- An operand and further ones are an expression. -/
theorem whole?_succ {e : Expr} (read : whole? (bound + 1) tokens = some (e, rest)) :
    Passes tokens rest := by
  rw [whole?] at read
  split at read
  · exact absurd read.symm (Option.some_ne_none _)
  · next first middle operand =>
    obtain ⟨parts, more, same⟩ := Option.map_eq_some_iff.1 read
    obtain ⟨-, rfl⟩ := Prod.mk.inj same
    exact (readers.operand operand).append (readers.more more)

/-- Arguments stand before commas and a closing parenthesis. -/
theorem arguments?_succ {es : List Expr} (read : arguments? (bound + 1) tokens = some (es, rest)) :
    Passes tokens rest := by
  rw [arguments?] at read
  split at read
  · next e after whole =>
    obtain ⟨-, rfl⟩ := Prod.mk.inj (Option.some.inj read)
    exact (readers.whole whole).append (Passes.single.continues fun _ => Token.noConfusion)
  · next e after whole =>
    obtain ⟨parts, others, same⟩ := Option.map_eq_some_iff.1 read
    obtain ⟨-, rfl⟩ := Prod.mk.inj same
    have later : Passes (.comma :: after) parts.2 :=
      (readers.arguments others).after Token.noConfusion
    exact (readers.whole whole).append (later.continues fun _ => Token.noConfusion)
  · exact absurd read.symm (Option.some_ne_none _)

end ReadersFollow

/-- With every bound, the readers take tokens that follow each other. -/
theorem readersFollow (bound : Nat) : ReadersFollow bound := by
  induction bound with
  | zero =>
    constructor
    · exact fun read => absurd read.symm (Option.some_ne_none _)
    · exact fun read => absurd read.symm (Option.some_ne_none _)
    · exact fun read => absurd read.symm (Option.some_ne_none _)
    · exact fun read => absurd read.symm (Option.some_ne_none _)
  | succ bound readers =>
    constructor
    · exact readers.operand?_succ
    · exact readers.more?_succ
    · exact readers.whole?_succ
    · exact readers.arguments?_succ

/-- An accepted text has tokens, and none of them is a literal behind a closing parenthesis. -/
theorem exists_tokens? {text : Text} {e : Expr} (accepted : parse? text = some e) :
    ∃ tokens, tokens? text = some tokens ∧ List.IsChain Follows tokens := by
  rw [parse?] at accepted
  obtain ⟨tokens, cut, read⟩ := Option.bind_eq_some_iff.1 accepted
  refine ⟨tokens, cut, ?_⟩
  split at read
  · next whole =>
    obtain ⟨used, all, chain⟩ := (readersFollow _).whole whole
    rwa [all, List.append_nil]
  · exact absurd read.symm (Option.some_ne_none e)

end Reading

section Accepted

variable {text front back : Text} {e : Expr}

/-- No sign is a blank. -/
theorem isBlank_of_sign? {c : Char} {first : Token} (read : sign? c = some first) :
    isBlank c = false := by
  unfold sign? at read
  split at read
  case h_14 => exact absurd read.symm (Option.some_ne_none _)
  all_goals decide

/-- No token of two signs begins with a blank. -/
theorem isBlank_of_pair? {c d : Char} {first : Token} (read : pair? c d = some first) :
    isBlank c = false := by
  unfold pair? at read
  split at read
  case h_8 => exact absurd read.symm (Option.some_ne_none _)
  all_goals decide

/-- No token begins with a blank. -/
theorem isBlank_of_token? {c : Char} {rest : Text} {found : Token × Text}
    (read : token? (c :: rest) = some found) : isBlank c = false := by
  rw [token?.eq_def] at read
  dsimp only at read
  split at read
  · next starts => exact isBlank_of_continuesName (continuesName_of_startsName starts)
  · split at read
    · next numeral =>
      rw [Bool.or_eq_true, decide_eq_true_eq] at numeral
      rcases numeral with digit | rfl
      · exact Numeral.isBlank_of_isDigit digit
      · decide
    · split at read
      · next quotes => rcases quotes with rfl | rfl <;> decide
      · rcases Option.or_eq_some_iff.1 read with pair | ⟨-, sign⟩
        · split at pair
          · exact absurd pair.symm (Option.some_ne_none _)
          · obtain ⟨token, known, -⟩ := Option.map_eq_some_iff.1 pair
            exact isBlank_of_pair? known
        · obtain ⟨token, known, -⟩ := Option.map_eq_some_iff.1 sign
          exact isBlank_of_sign? known

/-- Where a numeral begins, a literal is read, if anything is. -/
theorem literal_of_token? {d : Char} {rest : Text} {first : Token}
    (digit : (d.isDigit || d == '.') = true) (read : token? (d :: back) = some (first, rest)) :
    ∃ value, first = .literal value := by
  have noName : startsName d = false := by
    rw [Bool.or_eq_true, beq_iff_eq] at digit
    rcases digit with digit | rfl
    · exact startsName_of_isDigit digit
    · rfl
  have numeral : (d.isDigit || decide (d = '.')) = true := digit
  rw [token?.eq_def] at read
  dsimp only at read
  rw [noName, if_neg Bool.false_ne_true, if_pos numeral, number?] at read
  obtain ⟨x, -, same⟩ := Option.map_eq_some_iff.1 read
  exact ⟨.number x, (Prod.mk.inj same).1.symm⟩

/-- What begins with blanks and a numeral is cut into a literal and other tokens, if it is cut. -/
theorem tokensWithin?_numeral {bound : Nat} {spacing : Text} {d : Char} {tokens : List Token}
    (blank : spacing.all isBlank = true) (digit : (d.isDigit || d == '.') = true)
    (cut : tokensWithin? bound (spacing ++ d :: back) = some tokens) :
    ∃ value others, tokens = .literal value :: others := by
  have solid : ¬ isSpace d = true := by
    rw [Bool.or_eq_true, beq_iff_eq] at digit
    rcases digit with digit | rfl
    · rw [isSpace_of_continuesName (continuesName_of_isDigit digit)]
      exact Bool.false_ne_true
    · decide
  have passed : (spacing ++ d :: back).dropWhile isSpace = _ := List.dropWhile_append
  cases spaced : spacing.dropWhile isSpace with
  | nil =>
    rw [spaced, List.dropWhile_cons_of_neg solid] at passed
    obtain ⟨fewer, first, after, others, -, read, -, rfl⟩ := exists_token? passed cut
    obtain ⟨value, rfl⟩ := literal_of_token? digit read
    exact ⟨value, others, rfl⟩
  | cons c others =>
    -- A blank that does not stand between tokens begins none.
    rw [spaced] at passed
    obtain ⟨fewer, first, after, others', -, read, -, -⟩ := exists_token? passed cut
    have member : c ∈ spacing :=
      (List.dropWhile_suffix isSpace).subset (spaced ▸ List.mem_cons_self)
    have noBlank := isBlank_of_token? read
    rw [List.all_eq_true.1 blank c member] at noBlank
    exact Bool.noConfusion noBlank

/-- An unquoted colon stands in no expression. -/
theorem not_accepted_colon (accepted : parse? (front ++ ':' :: back) = some e)
    (unquoted : ∀ d ∈ back, isQuote d = false) : False := by
  have marks : ∀ d ∈ ':' :: back, isQuote d = false :=
    List.forall_mem_cons.2 ⟨by decide, unquoted⟩
  obtain ⟨tokens, cut, -⟩ := exists_tokens? accepted
  obtain ⟨bound, -, later, -, resumed⟩ := tokensWithin?_resumes (by decide) marks cut
  have solid : (':' :: back).dropWhile isSpace = ':' :: back :=
    List.dropWhile_cons_of_neg (by decide)
  obtain ⟨-, first, after, -, -, read, -, -⟩ := exists_token? solid resumed
  have nothing : token? (':' :: back) = none := by
    cases back <;> rfl
  exact absurd (nothing.symm.trans read).symm (Option.some_ne_none _)

/-- No numeral follows an unquoted closing parenthesis in an expression, be there blanks between
them or not. -/
theorem not_accepted_numeral {spacing : Text} {d : Char}
    (accepted : parse? (front ++ ')' :: (spacing ++ d :: back)) = some e)
    (blank : spacing.all isBlank = true) (digit : (d.isDigit || d == '.') = true)
    (unquoted : ∀ c ∈ back, isQuote c = false) : False := by
  have marks : ∀ c ∈ ')' :: (spacing ++ d :: back), isQuote c = false := by
    intro c member
    simp only [List.mem_cons, List.mem_append] at member
    rcases member with rfl | within | rfl | behind
    · decide
    · exact isQuote_of_isBlank (List.all_eq_true.1 blank c within)
    · exact isQuote_of_numeral digit
    · exact unquoted c behind
  obtain ⟨tokens, cut, chain⟩ := exists_tokens? accepted
  obtain ⟨bound, earlier, later, rfl, resumed⟩ := tokensWithin?_resumes (by decide) marks cut
  have solid : (')' :: (spacing ++ d :: back)).dropWhile isSpace = ')' :: (spacing ++ d :: back) :=
    List.dropWhile_cons_of_neg (by decide)
  obtain ⟨fewer, first, after, others, -, read, further, rfl⟩ := exists_token? solid resumed
  have closes : token? (')' :: (spacing ++ d :: back)) = some (.closer, spacing ++ d :: back) := by
    cases spacing <;> rfl
  obtain ⟨rfl, rfl⟩ := Prod.mk.inj (Option.some.inj (closes.symm.trans read))
  obtain ⟨value, others, rfl⟩ := tokensWithin?_numeral blank digit further
  obtain ⟨-, follows, -⟩ := List.isChain_append_cons_cons.1 chain
  exact follows rfl value rfl

end Accepted

end DynamicPrompt.Expression
