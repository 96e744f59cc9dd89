import DynamicPrompt.Numeral.Word
import DynamicPrompt.Source.Basic
import DynamicPrompt.Text.Digit

/-!
# Heads of variants and references

The body of a variant or of a wildcard reference may begin with a head: flags, which have
no effect, a count and two dollar signs, then a separator and two more dollar signs. The
count is one run of digits, two joined by a hyphen, or one with a hyphen before or after
it. A separator is one only if no bar stands before its dollar signs outside every bracket.

The head becomes the argument of a directive. A count without a lower bound starts at one.
A count without an upper bound stays open for a reference; for a variant it ends one below
the number of options, but never below its lower bound. A separator that would end the
argument or the tag cannot be written and is dropped with a warning.
-/

namespace DynamicPrompt.Source

/-- The digits of a count. -/
inductive Count where
  | exactly (digits : Text)
  | between (low high : Text)
  | upTo (high : Text)
  | atLeast (low : Text)
deriving DecidableEq, Repr

/-- Count and separator of a head. -/
structure Head where
  count : Option Count
  separator : Option Text
deriving DecidableEq, Repr

namespace Head

/-- Whether a character is a flag. -/
def isFlag (c : Char) : Bool := c == '~' || c == '@' || c == 'r' || c == 'o'

/-- The count of a head, and the text after its dollar signs. -/
def count? (text : Text) : Option (Option Count × Text) :=
  let low := text.takeWhile isDecimalDigit
  match text.dropWhile isDecimalDigit with
  | '-' :: rest =>
    let high := rest.takeWhile isDecimalDigit
    match rest.dropWhile isDecimalDigit with
    | '$' :: '$' :: rest =>
      if low.isEmpty then if high.isEmpty then none else some (some (.upTo high), rest)
      else if high.isEmpty then some (some (.atLeast low), rest)
      else some (some (.between low high), rest)
    | _ => none
  | '$' :: '$' :: rest => some (if low.isEmpty then none else some (.exactly low), rest)
  | _ => none

/-- The separator at the start of the text after a count, and what follows it. -/
def separator? (text : Text) : Option (Text × Text) :=
  match cutTopLevel? "$$" Brackets.tagsAndBraces text with
  | none => none
  | some (separator, rest) =>
    if (cutTopLevel? "|" Brackets.tagsAndBraces separator).isSome then none
    else some (separator, rest)

/-- The head of a body, if it has one, and the rest of the body. -/
def split? (body : Text) : Option (Head × Text) :=
  match count? (body.dropWhile isFlag) with
  | none => none
  | some (count, rest) =>
    match separator? rest with
    | some (separator, rest) => some (⟨count, some separator⟩, rest)
    | none => some (⟨count, none⟩, rest)

/-- Whether a separator can stand in the argument of a tag. -/
def isWritable (separator : Text) : Bool :=
  separator.all fun c => c != '[' && c != ']' && c != '>'

/-- The count in the argument of a directive; `most` is the upper bound of an open count,
if there is one. -/
def countText (count : Count) (most : Option Nat) : Text :=
  match count with
  | .exactly digits => digits
  | .between low high => low ++ "-" ++ high
  | .upTo high => "1-" ++ high
  | .atLeast low =>
    match most, Numeral.word? low with
    | some most, some n => Text.ofNat n ++ "-" ++ Text.ofNat (max most n)
    | _, _ => low ++ "-"

/-- The argument that a head stands for, with its brackets; nothing without a count. -/
def argument (head : Option Head) (most : Option Nat) : Reporting Text :=
  match head with
  | none | some ⟨none, _⟩ => pure []
  | some ⟨some count, separator⟩ => do
    let written ← match separator with
      | none => pure []
      | some separator =>
        if isWritable separator then pure separator
        else do
          warn (.separatorDropped separator)
          pure []
    return "[" ++ countText count most ++ "," ++ written ++ "]"

end Head

end DynamicPrompt.Source
