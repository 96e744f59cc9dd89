import DynamicPrompt.Wildcard.Collection

/-!
# Wildcard collections in JSON

A collection may be written as a JSON object that binds each name to an array of strings.
Any other document, and any text after the object, is refused. Of two members with one
name the later counts, and the members are stored in ascending order of their names, so of
two names with one normal form the greater counts.

Readers take the rest of the text and hand back what they leave. A string may not hold
control characters; an escape of a leading surrogate has to be followed by the escape of a
trailing one, and the two stand for one character.
-/

namespace DynamicPrompt.Json

/-- The characters that may stand between the tokens of a document. -/
def isSpace (c : Char) : Bool := c == ' ' || c == '\t' || c == '\n' || c == '\r'

/-- The text after the white space at its start. -/
def skip (text : Text) : Text := text.dropWhile isSpace

/-- The text after a token and after the white space before it. -/
def token? (c : Char) (text : Text) : Option Text :=
  match skip text with
  | [] => none
  | first :: rest => if first = c then some rest else none

/-- The value of a hexadecimal digit. -/
def hexDigit? (c : Char) : Option Nat :=
  if c.isDigit then some (c.toNat - 48)
  else if 'a' ≤ c ∧ c ≤ 'f' then some (c.toNat - 87)
  else if 'A' ≤ c ∧ c ≤ 'F' then some (c.toNat - 55)
  else none

/-- The number of four hexadecimal digits. -/
def hexCode? : Text → Option (Nat × Text)
  | a :: b :: c :: d :: rest => do
    let digits ← [a, b, c, d].mapM hexDigit?
    pure (digits.foldl (fun value digit => value * 16 + digit) 0, rest)
  | _ => none

/-- The character of an escape, when the backslash and the letter `u` have been passed. -/
def unicodeEscape? (text : Text) : Option (Char × Text) := do
  let (code, rest) ← hexCode? text
  if 0xD800 ≤ code ∧ code < 0xDC00 then
    match rest with
    | '\\' :: 'u' :: trailing =>
      let (low, rest) ← hexCode? trailing
      if 0xDC00 ≤ low ∧ low < 0xE000 then
        pure (Char.ofNat (0x10000 + (code - 0xD800) * 0x400 + (low - 0xDC00)), rest)
      else none
    | _ => none
  else if 0xDC00 ≤ code ∧ code < 0xE000 then none
  else pure (Char.ofNat code, rest)

/-- The character of an escape, when the backslash has been passed. -/
def escape? : Text → Option (Char × Text)
  | '\x22' :: rest => some ('\x22', rest)
  | '\\' :: rest => some ('\\', rest)
  | '/' :: rest => some ('/', rest)
  | 'b' :: rest => some ('\x08', rest)
  | 'f' :: rest => some ('\x0c', rest)
  | 'n' :: rest => some ('\n', rest)
  | 'r' :: rest => some ('\r', rest)
  | 't' :: rest => some ('\t', rest)
  | 'u' :: rest => unicodeEscape? rest
  | _ => none

/-- The rest of a string whose opening quote has been passed. Each step takes at least one
character, so the length of the text bounds the steps. -/
def stringRest? : Nat → Text → Option (Text × Text)
  | 0, _ => none
  | _ + 1, [] => none
  | bound + 1, c :: rest =>
    if c = '\x22' then some ([], rest)
    else if c.toNat < 0x20 then none
    else do
      let (first, rest) ← if c = '\\' then escape? rest else some (c, rest)
      let (others, rest) ← stringRest? bound rest
      pure (first :: others, rest)

/-- A string, with the white space before it. -/
def string? (text : Text) : Option (Text × Text) := do
  let rest ← token? '\x22' text
  stringRest? rest.length rest

/-- Items separated by commas up to a closing token, at least one. The bound counts
items. -/
def itemsRest? {α : Type} (item? : Text → Option (α × Text)) (closer : Char) :
    Nat → Text → Option (List α × Text)
  | 0, _ => none
  | bound + 1, text => do
    let (first, rest) ← item? text
    match token? closer rest with
    | some rest => pure ([first], rest)
    | none =>
      let rest ← token? ',' rest
      let (others, rest) ← itemsRest? item? closer bound rest
      pure (first :: others, rest)

/-- Items between an opening and a closing token, possibly none. -/
def items? {α : Type} (item? : Text → Option (α × Text)) (opener closer : Char) (text : Text) :
    Option (List α × Text) := do
  let rest ← token? opener text
  match token? closer rest with
  | some rest => pure ([], rest)
  | none => itemsRest? item? closer rest.length rest

/-- An array of strings. -/
def strings? (text : Text) : Option (List Text × Text) := items? string? '[' ']' text

/-- A member of an object whose value is an array of strings. -/
def member? (text : Text) : Option ((Text × List Text) × Text) := do
  let (name, rest) ← string? text
  let rest ← token? ':' rest
  let (lines, rest) ← strings? rest
  pure ((name, lines), rest)

/-- A whole document: an object of arrays of strings. -/
def document? (text : Text) : Option (List (Text × List Text)) := do
  let (members, rest) ← items? member? '{' '}' text
  if (skip rest).isEmpty then pure members else none

end DynamicPrompt.Json

namespace DynamicPrompt.WildcardCollection

/-- The collection that a JSON document states, if it states one. -/
def ofJson? (document : Text) : Option WildcardCollection :=
  (Json.document? document).map fun members => ofList (Dictionary.ofList members).entries

end DynamicPrompt.WildcardCollection
