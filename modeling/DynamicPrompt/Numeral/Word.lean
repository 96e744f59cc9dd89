import DynamicPrompt.Text.Basic

/-!
# Numerals of machine words

Counts and positions are 64-bit words. A numeral is a non-empty run of ASCII digits with
an optional plus sign; one that denotes a number beyond the largest word is no numeral.
-/

namespace DynamicPrompt.Numeral

/-- The number denoted by a run of ASCII digits, read onto a number already read. -/
def digitsValue (seen : Nat) (digits : Text) : Nat :=
  digits.foldl (fun value digit => value * 10 + (digit.toNat - 48)) seen

/-- Whether a text is a non-empty run of ASCII digits. -/
def isDigits (text : Text) : Bool := !text.isEmpty && text.all Char.isDigit

/-- The text after an optional plus sign. -/
def afterPlus : Text → Text
  | '+' :: rest => rest
  | text => text

/-- The word denoted by a numeral. -/
def word? (text : Text) : Option Nat :=
  if isDigits (afterPlus text) && digitsValue 0 (afterPlus text) < UInt64.size then
    some (digitsValue 0 (afterPlus text))
  else none

/-- A word read is smaller than the number of words. -/
theorem word?_lt {text : Text} {value : Nat} (read : word? text = some value) :
    value < UInt64.size := by
  unfold word? at read
  split at read
  · next admitted =>
    simp only [Bool.and_eq_true, decide_eq_true_eq] at admitted
    rw [← Option.some.inj read]
    exact admitted.2
  · simp at read

end DynamicPrompt.Numeral
