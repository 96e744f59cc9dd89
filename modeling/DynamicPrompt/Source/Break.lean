import DynamicPrompt.Source.Basic

/-!
# The break keyword

The word `BREAK` in capitals stands for an empty text if it stands alone: outside tags,
not escaped, and with a blank, a comma or an end of the line on either side.
-/

namespace DynamicPrompt.Source

/-- The keyword. -/
def breakWord : Text := "BREAK"

/-- Whether a keyword may stand beside this: an end of the line, a blank or a comma. -/
def bordersBreak : Option Char → Bool
  | none => true
  | some c => isBlank c || c == ','

/-- What follows the keyword, if a text begins with it, is shorter than the text. -/
theorem length_after_breakWord {text after : Text}
    (begins : Text.after? breakWord text = some after) : after.length < text.length := by
  rw [Text.after?_eq_some_iff.1 begins, List.length_append]
  have filled : 0 < breakWord.length := by decide
  omega

/-- The rest of a line with the mark of the empty text for every keyword. -/
def markBreaks (cursor : Cursor) : Text → Text
  | [] => []
  | c :: rest =>
    match _begins : Text.after? breakWord (c :: rest) with
    | none => c :: markBreaks (cursor.after c) rest
    | some after =>
      if cursor.isFree c && bordersBreak cursor.last && bordersBreak after.head? then
        emptyMark ++ markBreaks (cursor.past 'K') after
      else c :: markBreaks (cursor.after c) rest
termination_by text => text.length
decreasing_by
  · exact Nat.lt_succ_self _
  · exact length_after_breakWord _begins
  · exact Nat.lt_succ_self _

end DynamicPrompt.Source
