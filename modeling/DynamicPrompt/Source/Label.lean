import DynamicPrompt.Text.Basic

/-!
# Quoted labels

A line of choices may begin with its labels between quotation marks of one kind, followed
by a double colon. They are written as a label clause in parentheses. The labels run up to
the next quotation mark of that kind, and blanks before them are kept.
-/

namespace DynamicPrompt.Source

/-- The line with quoted labels at its start written as a label clause. -/
def clauseLabels (line : Text) : Text :=
  match Text.trimStart line with
  | [] => line
  | quote :: rest =>
    if quote = '\x22' ∨ quote = '\x27' then
      match Text.cutAt? (· == quote) rest with
      | some (labels, ':' :: ':' :: value) =>
        line.takeWhile isBlank ++ "(" ++ labels ++ ")::" ++ value
      | _ => line
    else line

end DynamicPrompt.Source
