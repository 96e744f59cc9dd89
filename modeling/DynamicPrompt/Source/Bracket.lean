import DynamicPrompt.Numeral.Decimal
import DynamicPrompt.Source.Basic

/-!
# Square brackets

Square brackets outside tags say one of three things. With two colons outside every inner
bracket they are an edit from one text to another at a step; with a bar, an alternation of
texts; with neither, they lower the attention of what they enclose to nine tenths. Lowering
a text that is already weighted as a whole multiplies its weight, so nested brackets
multiply up.
-/

namespace DynamicPrompt.Source

/-- What the text between square brackets says. -/
inductive Bracketed where
  | edit (first second step : Text)
  | alternate (options : List Text)
  | lower (content : Text)
deriving DecidableEq, Repr

namespace Bracketed

/-- The factor of lowered attention. -/
def attention : Float := 0.9

/-- A weight with at most three places and no zeros at its end. -/
def weightText (weight : Float) : Text :=
  Text.dropEndWhile (· == '.') (Text.dropEndWhile (· == '0') (Numeral.toPlaces 3 weight))

/-- Text and weight of a text that is one group in parentheses, its weight after the last
colon. -/
def weighted? : Text → Option (Text × Float)
  | '(' :: rest =>
    match enclosed? '(' ')' rest with
    | some (inner, []) => do
      let (content, weight) ← Text.cutAtLast? (· == ':') inner
      pure (content, ← Numeral.float? weight)
    | _ => none
  | _ => none

/-- Rewritten text with lowered attention. -/
def lowered (text : Text) : Text :=
  match weighted? text with
  | some (content, weight) => "(" ++ content ++ ":" ++ weightText (weight * attention) ++ ")"
  | none => "(" ++ text ++ ":" ++ Numeral.ofFloat attention ++ ")"

/-- What the text between square brackets says. -/
def ofText (content : Text) : Bracketed :=
  match splitTopLevel ":" Brackets.all content with
  | [first, second, step] => .edit first second step
  | _ =>
    match splitTopLevel "|" Brackets.all content with
    | first :: second :: others => .alternate (first :: second :: others)
    | _ => .lower content

/-- The directive of a construct, or the weighted text. -/
def write (pass : Pass) (content : Text) : Reporting Text :=
  match ofText content with
  | .edit first second step => do
    let first ← pass.filled first
    let second ← pass.filled second
    let step ← pass.filled step
    return "<fromto[" ++ step ++ "]:" ++ first ++ "||" ++ second ++ ">"
  | .alternate options => do
    let options ← options.mapM pass.filled
    return "<alternate:" ++ Text.join "||" options ++ ">"
  | .lower content => return lowered (← pass.nested content)

/-- The line with its square brackets rewritten. -/
def rewrite (pass : Pass) (line : Text) : Reporting Text :=
  writePieces (write pass) (enclosures '[' ']' none Cursor.start line)

end Bracketed

end DynamicPrompt.Source
