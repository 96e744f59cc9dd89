import DynamicPrompt.Text.Basic
import DynamicPrompt.Text.CaseRun
import DynamicPrompt.Text.Casing

/-!
# Lower case

Lower-casing replaces every capital by its small letter. Two capitals need more than the
table of runs: the dotted capital I becomes a small i followed by a combining dot, and a
capital sigma becomes the final form where it ends a word. A sigma ends a word if, looking
through marks, a cased letter stands before it and none stands after it.
-/

namespace DynamicPrompt

/-- The small letter of a character, itself if it has none. -/
def lowerChar (c : Char) : Char :=
  if c.toNat < 0x80 then c.toLower else CaseRun.image lowerRuns c

/-- Whether the first character that is not looked through is a cased letter. -/
def meetsCased (text : Text) : Bool :=
  match text.dropWhile isCaseIgnorable with
  | [] => false
  | c :: _ => isCased c

namespace Text

/-- Lower case of the rest of a text; `before` holds what precedes it, nearest first. -/
def lowerAfter (before : Text) : Text → Text
  | [] => []
  | c :: rest =>
    let small : Text :=
      if c = 'Σ' then [if meetsCased before && !meetsCased rest then 'ς' else 'σ']
      else if c = 'İ' then ['i', '\u0307']
      else [lowerChar c]
    small ++ lowerAfter (c :: before) rest

/-- The text in lower case. -/
def lower (text : Text) : Text := lowerAfter [] text

end Text

end DynamicPrompt
