import DynamicPrompt.Text.Blank

/-!
# Text

A prompt, a name or a body is the list of its characters, so that every reader recurses
on the data and every position is a number of characters. String literals stand for the
list of their characters.

The operations below cut, trim and search. A cut keeps everything but the separator,
which is why a text can always be put together again from its parts. Ordered lists of
texts ascend by code point and hold no text twice; they serve as sets.
-/

namespace DynamicPrompt

/-- A text is the list of its characters. -/
abbrev Text := List Char

instance : Coe String Text := ⟨String.toList⟩

namespace Text

/-- Whether all characters of a text pass a test is decided along the text. -/
instance (priority := high) decidableForallMem (text : Text) (test : Char → Prop)
    [DecidablePred test] : Decidable (∀ c ∈ text, test c) := List.decidableBAll test text

/-- The decimal digits of a natural number, without leading zeros. -/
def ofNat (n : Nat) : Text := Nat.toDigits 10 n

/-- The pieces between the occurrences of a separator; one piece more than there are
separators. -/
def split (separator : Char) : Text → List Text
  | [] => [[]]
  | c :: rest =>
    if c = separator then [] :: split separator rest
    else
      match split separator rest with
      | [] => [[c]]
      | piece :: pieces => (c :: piece) :: pieces

/-- What stands before and after the first character that passes the test. -/
def cutAt? (test : Char → Bool) : Text → Option (Text × Text)
  | [] => none
  | c :: rest =>
    if test c then some ([], rest)
    else (cutAt? test rest).map fun parts => (c :: parts.1, parts.2)

/-- What stands before and after the last character that passes the test. -/
def cutAtLast? (test : Char → Bool) (text : Text) : Option (Text × Text) :=
  (cutAt? test text.reverse).map fun parts => (parts.2.reverse, parts.1.reverse)

/-- What follows a pattern that the text begins with. -/
def after? : Text → Text → Option Text
  | [], text => some text
  | _ :: _, [] => none
  | p :: pattern, c :: text => if p = c then after? pattern text else none

/-- A text begins with a pattern exactly if it is the pattern and what follows it. -/
theorem after?_eq_some_iff {pattern text rest : Text} :
    after? pattern text = some rest ↔ text = pattern ++ rest := by
  induction pattern generalizing text with
  | nil => simp [after?]
  | cons p pattern inductionHypothesis =>
    cases text with
    | nil => simp [after?]
    | cons c text =>
      by_cases same : p = c
      · simp [after?, same, inductionHypothesis]
      · simp [after?, same, Ne.symm same]

/-- What stands before and after the first occurrence of a pattern. -/
def cutAround? (pattern : Text) : Text → Option (Text × Text)
  | [] => if pattern.isEmpty then some ([], []) else none
  | c :: rest =>
    match after? pattern (c :: rest) with
    | some after => some ([], after)
    | none => (cutAround? pattern rest).map fun parts => (c :: parts.1, parts.2)

/-- Whether a pattern occurs anywhere in the text. -/
def occursIn (pattern text : Text) : Bool := (cutAround? pattern text).isSome

/-- The text without the characters at its end that pass the test. -/
def dropEndWhile (test : Char → Bool) (text : Text) : Text :=
  (text.reverse.dropWhile test).reverse

/-- The characters at the end of the text that pass the test. -/
def takeEndWhile (test : Char → Bool) (text : Text) : Text :=
  (text.reverse.takeWhile test).reverse

/-- The text without blanks at its start. -/
def trimStart (text : Text) : Text := text.dropWhile isBlank

/-- The text without blanks at its end. -/
def trimEnd (text : Text) : Text := dropEndWhile isBlank text

/-- The text without blanks at either end. -/
def trim (text : Text) : Text := trimEnd (trimStart text)

/-- The text without the given character at either end. -/
def trimOf (c : Char) (text : Text) : Text :=
  dropEndWhile (· == c) (text.dropWhile (· == c))

/-- The text without an ending that it has, and the text itself otherwise. -/
def dropEnding (ending text : Text) : Text :=
  match after? ending.reverse text.reverse with
  | some before => before.reverse
  | none => text

/-- The maximal runs of characters that are no blanks; `word` is the run being read. -/
def wordsFrom (word : Text) : Text → List Text
  | [] => if word.isEmpty then [] else [word.reverse]
  | c :: rest =>
    if isBlank c then
      if word.isEmpty then wordsFrom [] rest else word.reverse :: wordsFrom [] rest
    else wordsFrom (c :: word) rest

/-- The words of a text: its maximal runs of characters that are no blanks. -/
def words (text : Text) : List Text := wordsFrom [] text

/-- The lines of a text. A line feed ends a line, a carriage return before it belongs to
it, and nothing after the last line feed makes no line. -/
def lines (text : Text) : List Text :=
  let pieces := split '\n' text
  let ended := pieces.dropLast.map (dropEnding ['\r'])
  match pieces.getLast? with
  | none | some [] => ended
  | some last => ended ++ [last]

/-- Equality up to the case of ASCII letters. -/
def sameLetters (left right : Text) : Bool :=
  left.map Char.toLower == right.map Char.toLower

/-- The parts with a separator between neighbours. -/
def join (separator : Text) (parts : List Text) : Text := separator.intercalate parts

/-- Put a text into its place in an ascending list, unless it is already there. -/
def insertOrdered (text : Text) : List Text → List Text
  | [] => [text]
  | first :: rest =>
    match compare text first with
    | .lt => text :: first :: rest
    | .eq => first :: rest
    | .gt => first :: insertOrdered text rest

/-- The distinct texts of a list in ascending order of their code points. -/
def ordered (texts : List Text) : List Text := texts.foldr insertOrdered []

end Text

end DynamicPrompt
