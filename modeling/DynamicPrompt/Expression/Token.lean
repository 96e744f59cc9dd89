import DynamicPrompt.Expression.Basic

/-!
# Tokens of expressions

An expression is cut into tokens from left to right, the longest token first. Names begin
with a letter or an underscore and may hold hyphens between their parts, so `a-b` is one
name and subtraction needs a blank; a word that is an operator or a truth value never
extends over a hyphen. A quoted string takes every character after a backslash as it is.
Blanks between tokens are the space, the tab and the two line ends.
-/

namespace DynamicPrompt.Expression

/-- The smallest pieces of an expression. A minus sign is one token, whether it subtracts
or negates. -/
inductive Token where
  | literal (value : Value)
  | name (name : Text)
  | operator (operator : Infix)
  | minus
  | not
  | opener
  | closer
  | comma
deriving DecidableEq

/-- The characters that may stand between tokens. -/
def isSpace (c : Char) : Bool := c == ' ' || c == '\t' || c == '\r' || c == '\n'

/-- The characters that may begin a name. -/
def startsName (c : Char) : Bool := c.isAlpha || c == '_'

/-- The characters that may stand inside a part of a name. -/
def continuesName (c : Char) : Bool := c.isAlphanum || c == '_'

/-- The token of a word that is no name. -/
def keyword? (word : Text) : Option Token :=
  [("or".toList, Token.operator .or), ("and".toList, .operator .and),
   ("eq".toList, .operator (.compare .eq)), ("ne".toList, .operator (.compare .ne)),
   ("le".toList, .operator (.compare .le)), ("ge".toList, .operator (.compare .ge)),
   ("lt".toList, .operator (.compare .lt)), ("gt".toList, .operator (.compare .gt)),
   ("not".toList, .not), ("true".toList, .literal (.bool true)),
   ("false".toList, .literal (.bool false))].lookup word

/-- The tokens written with two signs, tried before those written with one. -/
def pair? : Char → Char → Option Token
  | '|', '|' => some (.operator .or)
  | '&', '&' => some (.operator .and)
  | '=', '=' => some (.operator (.compare .eq))
  | '!', '=' => some (.operator (.compare .ne))
  | '~', '=' => some (.operator (.compare .ne))
  | '<', '=' => some (.operator (.compare .le))
  | '>', '=' => some (.operator (.compare .ge))
  | _, _ => none

/-- The tokens written with one sign. -/
def sign? : Char → Option Token
  | '<' => some (.operator (.compare .lt))
  | '>' => some (.operator (.compare .gt))
  | '+' => some (.operator .add)
  | '-' => some .minus
  | '*' => some (.operator (.arithmetic .multiply))
  | '/' => some (.operator (.arithmetic .divide))
  | '%' => some (.operator (.arithmetic .remainder))
  | '^' => some (.operator (.arithmetic .power))
  | '!' => some .not
  | '~' => some .not
  | '(' => some .opener
  | ')' => some .closer
  | ',' => some .comma
  | _ => none

/-- The rest of a quoted string, without the backslashes that escape, when its opening
quote has been passed. -/
def quoted? (quote : Char) : Text → Option (Text × Text)
  | [] => none
  | '\\' :: c :: rest => (quoted? quote rest).map fun parts => (c :: parts.1, parts.2)
  | c :: rest =>
    if c = quote then some ([], rest)
    else (quoted? quote rest).map fun parts => (c :: parts.1, parts.2)

/-- The further parts of a name, each with the hyphen before it. The bound counts parts. -/
def hyphenated : Nat → Text → Text × Text
  | bound + 1, '-' :: rest =>
    let part := rest.takeWhile continuesName
    if part.isEmpty then ([], '-' :: rest)
    else
      let (others, rest) := hyphenated bound (rest.dropWhile continuesName)
      ('-' :: part ++ others, rest)
  | _, text => ([], text)

/-- A word and what follows it: a keyword, or else the whole name. -/
def word (text : Text) : Token × Text :=
  let first := text.takeWhile continuesName
  let rest := text.dropWhile continuesName
  match keyword? first with
  | some token => (token, rest)
  | none =>
    let (others, rest) := hyphenated rest.length rest
    (.name (first ++ others), rest)

/-- A numeral and what follows it: digits with an optional fraction, or a fraction alone. -/
def number? (text : Text) : Option (Token × Text) :=
  let whole := text.takeWhile Char.isDigit
  let rest := text.dropWhile Char.isDigit
  let (fraction, rest) := match rest with
    | '.' :: after =>
      let digits := after.takeWhile Char.isDigit
      if digits.isEmpty then ([], rest) else ('.' :: digits, after.dropWhile Char.isDigit)
    | _ => ([], rest)
  (Numeral.float? (whole ++ fraction)).map fun x => (.literal (.number x), rest)

/-- The first token of a text that begins with no blank. -/
def token? : Text → Option (Token × Text)
  | [] => none
  | c :: rest =>
    if startsName c then some (word (c :: rest))
    else if c.isDigit || c = '.' then number? (c :: rest)
    else if c = '\x22' ∨ c = '\x27' then
      (quoted? c rest).map fun parts => (.literal (.text parts.1), parts.2)
    else
      let pair := match rest with
        | [] => none
        | d :: others => (pair? c d).map fun token => (token, others)
      pair.or ((sign? c).map fun token => (token, rest))

/-- The tokens of a text, if it holds nothing else. Each token takes at least one
character, so the length of the text bounds their number. -/
def tokensWithin? : Nat → Text → Option (List Token)
  | 0, text => if (text.dropWhile isSpace).isEmpty then some [] else none
  | bound + 1, text =>
    match text.dropWhile isSpace with
    | [] => some []
    | c :: rest => do
      let (first, rest) ← token? (c :: rest)
      let others ← tokensWithin? bound rest
      pure (first :: others)

/-- The tokens of a text, if it holds nothing else. -/
def tokens? (text : Text) : Option (List Token) := tokensWithin? text.length text

end DynamicPrompt.Expression
