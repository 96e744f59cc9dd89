import DynamicPrompt.Text.CaseRun

/-!
# Case folding

Two characters are the same letter if their simple case foldings agree. On ASCII letters
this is equality up to case; beyond them the long s folds with s and the Kelvin sign with
k, each to one character.
-/

namespace DynamicPrompt

/-- The simple case folding of a character. -/
def foldChar (c : Char) : Char :=
  if c.toNat < 0x80 then c.toLower else CaseRun.image foldRuns c

/-- Equality of characters up to simple case folding. -/
def sameLetter (left right : Char) : Bool := foldChar left == foldChar right

end DynamicPrompt
